import PipeIo.Contract
import PipeIo.Lib.Transducer

namespace PipeIo
set_option autoImplicit true

open Lib

/-- What a chain leaves behind on its way besides the items that come out: a stage failed, a
retry stage tried again, user code panicked, or the flush reached a stage, named by its
distance to the sink, or the sink. -/
inductive Incident where
  | fault (policy : ErrorPolicy) (failure : StageFailure)
  | retried
  | crashed
  | flushing (depth : Option Nat)

/-- The failure `report_failure` makes of a stage's error. -/
def fault (policy : ErrorPolicy) (id : StageId) (e : BoxError) (input : Option AnyBox)
    (attempts : Nat) : Incident :=
  .fault policy { (StageFailure.new id e).with_attempts attempts with input := input }

def ItemStage.feed (st : ItemStage T U) (item : T) (s : st.φ) :
    List (U ⊕ Incident) × st.φ :=
  match st.react item s with
  | (.items outs, s) => (outs.map .inl, s)
  | (.fail e, s) => ([.inr (fault st.policy st.id e (st.keep item) 1)], s)
  | (.panic outs, s) => (outs.map .inl ++ [.inr .crashed], s)

/-- The attempts of a retry stage on one item, `left` of them after this one. -/
def RetryStage.trying (st : RetryStage T U) (item : T) :
    (left attempt : Nat) → st.φ × Jitter → List (U ⊕ Incident) × (st.φ × Jitter)
  | 0, attempt, s =>
    match st.f item s.1 with
    | (some (.ok out), p) => ([.inl out], (p, s.2))
    | (some (.error e), p) =>
      ([.inr (fault st.policy st.id e (keep_input st.policy item) attempt)], (p, s.2))
    | (none, p) => ([.inr .crashed], (p, s.2))
  | left + 1, attempt, s =>
    match st.f item s.1 with
    | (some (.ok out), p) => ([.inl out], (p, s.2))
    | (some (.error _), p) =>
      (.inr .retried :: (st.trying item left (attempt + 1) (p, (st.retry.delay_for attempt s.2).2)).1,
        (st.trying item left (attempt + 1) (p, (st.retry.delay_for attempt s.2).2)).2)
    | (none, p) => ([.inr .crashed], (p, s.2))

def RetryStage.feed (st : RetryStage T U) (item : T) (s : st.φ × Jitter) :
    List (U ⊕ Incident) × (st.φ × Jitter) :=
  st.trying item (st.retry.max_attempts - 1) 1 s

/-- What a stage method makes while every item it emits is accepted. -/
def Script.products (policy : ErrorPolicy) (id : StageId) :
    Script U φ → List (U ⊕ Incident) × φ
  | .ret (.ok ()) s => ([], s)
  | .ret (.error e) s => ([.inr (fault policy id e none 1)], s)
  | .panic s => ([.inr .crashed], s)
  | .emit item _ k => (.inl item :: ((k true).products policy id).1, ((k true).products policy id).2)

namespace Node

def feed : (node : Node T U) → T → node.φ → List (U ⊕ Incident) × node.φ
  | .item st => st.feed
  | .retry st => st.feed
  | .stage st policy id => fun item s => (st.process item s).products policy id

/-- Only a stage is flushed; closure stages hand the flush on. -/
def finish (depth : Nat) : (node : Node T U) → node.φ → List (U ⊕ Incident)
  | .item _ => fun _ => []
  | .retry _ => fun _ => []
  | .stage st policy id => fun s =>
    .inr (.flushing (some depth)) :: ((st.flush s).products policy id).1

/-- What a stage computes. -/
def machine (node : Node T U) (depth : Nat) : Transducer Incident T U where
  φ := node.φ
  init := node.init
  feed := node.feed
  finish := node.finish depth

end Node

/-- The end of every chain. -/
def sinkMachine : Transducer Incident Y Y where
  φ := Unit
  init := ()
  feed item s := ([.inl item], s)
  finish _ := [.inr (.flushing none)]

namespace Stages

/-- What a chain computes, ahead of what its tail computes. -/
def machine : Stages T U → Transducer Incident U V → Transducer Incident T V
  | .nil, tail => tail
  | .cons node rest, tail => (node.machine rest.length).comp (rest.machine tail)

/-- The composition of what the stages compute. -/
def outputs : Stages T U → List (T ⊕ Incident) → List (U ⊕ Incident)
  | .nil, xs => xs
  | .cons node rest, xs => rest.outputs ((node.machine rest.length).outputs xs)

/-- A chain computes the composition of its stages. -/
theorem machine_outputs (stages : Stages T U) (tail : Transducer Incident U V)
    (xs : List (T ⊕ Incident)) :
    (stages.machine tail).outputs xs = tail.outputs (stages.outputs xs) := by
  induction stages with
  | nil => rfl
  | cons node rest ih => rw [machine, Transducer.comp_outputs, ih, outputs]

end Stages

theorem sinkMachine_feedAll (xs : List (Y ⊕ Incident)) : (sinkMachine.feedAll xs ()).1 = xs := by
  induction xs with
  | nil => rfl
  | cons x xs ih =>
    cases x with
    | inl y => exact congrArg (.inl y :: ·) ih
    | inr incident => exact congrArg (.inr incident :: ·) ih

theorem sinkMachine_outputs (xs : List (Y ⊕ Incident)) :
    sinkMachine.outputs xs = xs ++ [.inr (.flushing none)] := by
  have hfeed := sinkMachine_feedAll xs
  exact congrArg (fun zs => zs ++ [Sum.inr (Incident.flushing none)]) hfeed

/-- How the run ends there, if it does. -/
def Incident.verdict : Incident → Option (Res Halt Nat)
  | .fault .failFast failure => some (.halt (.failed (.stage failure.stage failure.source)))
  | .fault .continue _ | .fault .deadLetter _ | .retried | .flushing _ => none
  | .crashed => some .panic

/-- What a run shows: an item reaches the sink, a failure the dead-letter sink, the flush a
stage or the sink. -/
inductive Mark (Y : Type) : Type 1 where
  | write (item : Y)
  | letter (failure : StageFailure)
  | flush (depth : Option Nat)

def Incident.marks (dlq : Bool) : Incident → List (Mark Y)
  | .fault .deadLetter failure => if dlq then [.letter failure] else []
  | .flushing depth => [.flush depth]
  | .fault .failFast _ | .fault .continue _ | .retried | .crashed => []

/-- What the counters make of it. -/
def Incident.charge (t : Tally) : Incident → Tally
  | .fault .deadLetter _ =>
    { t with errors := t.errors + 1, dead_lettered := t.dead_lettered + 1 }
  | .fault .failFast _ | .fault .continue _ => { t with errors := t.errors + 1 }
  | .retried => { t with retries := t.retries + 1 }
  | .crashed | .flushing _ => t

section Settling

variable {Y : Type}

/-- How a call that makes `zs` ends, and how many items reached the sink. -/
def settle : List (Y ⊕ Incident) → Res Halt Nat
  | [] => .ok 0
  | .inl _ :: zs => Res.plus 1 (settle zs)
  | .inr incident :: zs => incident.verdict.getD (settle zs)

/-- What happens of `zs`: nothing after the point where the run ends. -/
def upto : List (Y ⊕ Incident) → List (Y ⊕ Incident)
  | [] => []
  | .inl out :: zs => .inl out :: upto zs
  | .inr incident :: zs => .inr incident :: if incident.verdict.isSome then [] else upto zs

def marks (dlq : Bool) (zs : List (Y ⊕ Incident)) : List (Mark Y) :=
  zs.flatMap fun z => z.elim (fun item => [.write item]) (Incident.marks dlq)

def charge (t : Tally) (zs : List (Y ⊕ Incident)) : Tally :=
  zs.foldl (fun t z => z.elim (fun _ => t) (Incident.charge t)) t

@[simp] theorem settle_nil : settle ([] : List (Y ⊕ Incident)) = .ok 0 := rfl

@[simp] theorem settle_item (item : Y) (zs : List (Y ⊕ Incident)) :
    settle (.inl item :: zs) = Res.plus 1 (settle zs) := rfl

@[simp] theorem settle_incident (incident : Incident) (zs : List (Y ⊕ Incident)) :
    settle (.inr incident :: zs) = incident.verdict.getD (settle zs) := rfl

/-- One incident, whatever it is, happens. -/
@[simp] theorem upto_one (incident : Incident) :
    upto ([.inr incident] : List (Y ⊕ Incident)) = [.inr incident] := by
  simp [upto]

@[simp] theorem marks_one (dlq : Bool) (incident : Incident) :
    marks dlq ([.inr incident] : List (Y ⊕ Incident)) = incident.marks dlq := by
  simp [marks]

theorem marks_append (dlq : Bool) (xs ys : List (Y ⊕ Incident)) :
    marks dlq (xs ++ ys) = marks dlq xs ++ marks dlq ys := List.flatMap_append

theorem charge_append (t : Tally) (xs ys : List (Y ⊕ Incident)) :
    charge t (xs ++ ys) = charge (charge t xs) ys := List.foldl_append

/-- Incidents count neither the items that come in nor those that go out. -/
theorem charge_items (t : Tally) (a b : Nat) (zs : List (Y ⊕ Incident)) :
    charge { t with items_in := a, items_out := b } zs =
      { charge t zs with items_in := a, items_out := b } := by
  induction zs generalizing t with
  | nil => rfl
  | cons z zs ih =>
    cases z with
    | inl item => exact ih t
    | inr incident =>
      have hone : Incident.charge { t with items_in := a, items_out := b } incident =
          { Incident.charge t incident with items_in := a, items_out := b } := by
        cases incident with
        | fault policy failure => cases policy <;> rfl
        | retried | crashed | flushing => rfl
      exact (congrArg (charge · zs) hone).trans (ih (Incident.charge t incident))

theorem charge_zero_items (zs : List (Y ⊕ Incident)) :
    (charge .zero zs).items_in = 0 ∧ (charge .zero zs).items_out = 0 := by
  have hzero := charge_items .zero 0 0 zs
  constructor
  · exact congrArg Tally.items_in hzero
  · exact congrArg Tally.items_out hzero

theorem Incident.verdict_stops {incident : Incident} {r : Res Halt Nat}
    (h : incident.verdict = some r) : ∀ n, r ≠ .ok n := by
  intro n hn
  subst hn
  cases incident with
  | fault policy failure => cases policy <;> cases h
  | retried | crashed | flushing => cases h

theorem Res.plus_plus (m n : Nat) (r : Res Halt Nat) :
    Res.plus m (Res.plus n r) = Res.plus (m + n) r := by
  cases r with
  | ok k => exact congrArg Res.ok (Nat.add_assoc m n k).symm
  | halt | panic => rfl

theorem Res.plus_zero (r : Res Halt Nat) : Res.plus 0 r = r := by
  cases r with
  | ok k => exact congrArg Res.ok (Nat.zero_add k)
  | halt | panic => rfl

/-- A call that returns goes on with what comes after. -/
theorem settle_append {xs : List (Y ⊕ Incident)} {n : Nat} (h : settle xs = .ok n)
    (ys : List (Y ⊕ Incident)) :
    settle (xs ++ ys) = Res.plus n (settle ys) ∧ upto (xs ++ ys) = xs ++ upto ys := by
  induction xs generalizing n with
  | nil =>
    cases h
    exact ⟨(Res.plus_zero _).symm, rfl⟩
  | cons x xs ih =>
    cases x with
    | inl item =>
      cases hxs : settle xs with
      | halt | panic => simp [hxs, Res.plus] at h
      | ok m =>
        obtain ⟨hsettle, hupto⟩ := ih hxs
        have hn : 1 + m = n := by simpa [hxs, Res.plus] using h
        constructor
        · rw [List.cons_append, settle_item, hsettle, Res.plus_plus, hn]
        · rw [List.cons_append, upto, hupto, List.cons_append]
    | inr incident =>
      cases hv : incident.verdict with
      | some r => exact absurd (by simpa [hv] using h) (Incident.verdict_stops hv n)
      | none =>
        obtain ⟨hsettle, hupto⟩ := ih (by simpa [hv] using h)
        constructor
        · simpa [hv] using hsettle
        · simp [upto, hv, hupto]

/-- Nothing comes after the end of a run. -/
theorem settle_append_stopped {xs : List (Y ⊕ Incident)} (h : ∀ n, settle xs ≠ .ok n)
    (ys : List (Y ⊕ Incident)) :
    settle (xs ++ ys) = settle xs ∧ upto (xs ++ ys) = upto xs := by
  induction xs with
  | nil => exact absurd rfl (h 0)
  | cons x xs ih =>
    cases x with
    | inl item =>
      have hxs : ∀ n, settle xs ≠ .ok n := by
        intro n hn
        exact h (1 + n) (by simp [hn, Res.plus])
      obtain ⟨hsettle, hupto⟩ := ih hxs
      exact ⟨by simp [hsettle], by simp [upto, hupto]⟩
    | inr incident =>
      cases hv : incident.verdict with
      | some r => exact ⟨by simp [hv], by simp [upto, hv]⟩
      | none =>
        obtain ⟨hsettle, hupto⟩ := ih (by simpa [hv] using h)
        exact ⟨by simp [hv, hsettle], by simp [upto, hv, hupto]⟩

/-- What ends a run early is an error or a panic. -/
theorem settle_failed {zs : List (Y ⊕ Incident)} {halt : Halt} (h : settle zs = .halt halt) :
    ∃ e, halt = .failed e := by
  induction zs with
  | nil => cases h
  | cons z zs ih =>
    cases z with
    | inl item =>
      cases hzs : settle zs with
      | ok n => simp [hzs, Res.plus] at h
      | panic => simp [hzs, Res.plus] at h
      | halt halt' =>
        apply ih
        rw [hzs]
        rw [settle_item, hzs] at h
        exact h
    | inr incident =>
      cases incident with
      | fault policy failure =>
        cases policy with
        | failFast =>
          cases h
          exact ⟨_, rfl⟩
        | «continue» | deadLetter => exact ih h
      | retried | flushing depth => exact ih h
      | crashed => cases h

theorem upto_ok {xs : List (Y ⊕ Incident)} {n : Nat} (h : settle xs = .ok n) : upto xs = xs := by
  have hupto := (settle_append h []).2
  simpa [upto] using hupto

end Settling

end PipeIo
