import PipeIo.Computed

namespace PipeIo
set_option autoImplicit true

open Lib
open Lib.Transducer (items items_append items_item items_note)

/-- The items a stage emits: those of every input in turn, then those of one flush. -/
def Node.emits (node : Node T U) : List T → node.φ → List U
  | [], s => items (node.finish 0 s)
  | x :: xs, s => items (node.feed x s).1 ++ node.emits xs (node.feed x s).2

/-- The composition of what the stages emit. -/
def Stages.emits : Stages T U → List T → List U
  | .nil, xs => xs
  | .cons node rest, xs => rest.emits (node.emits xs node.init)

def Node.flushed (depth : Nat) : Node T U → List (Option Nat)
  | .item _ | .retry _ => []
  | .stage .. => [some depth]

/-- The stages a flush has something to do in, upstream first. -/
def Stages.flushed : Stages T U → List (Option Nat)
  | .nil => []
  | .cons node rest => node.flushed rest.length ++ rest.flushed

theorem Node.items_outputs (node : Node T U) (depth : Nat) (xs : List (T ⊕ Incident)) :
    items ((node.machine depth).outputs xs) = node.emits (items xs) node.init := by
  have hfrom : ∀ s, items ((node.machine depth).feedAll xs s).1 ++
      items (node.finish depth ((node.machine depth).feedAll xs s).2) = node.emits (items xs) s := by
    induction xs with
    | nil =>
      intro s
      cases node <;> rfl
    | cons x xs ih =>
      intro s
      cases x with
      | inl item =>
        simp only [Transducer.feedAll_item, items_append, List.append_assoc, items_item, emits]
        exact congrArg (items (node.feed item s).1 ++ ·) (ih _)
      | inr incident => exact ih s
  rw [Transducer.outputs, items_append]
  exact hfrom node.init

/-- Apart from incidents, a chain makes what its stages emit. -/
theorem Stages.items_outputs (stages : Stages T U) (xs : List (T ⊕ Incident)) :
    items (stages.outputs xs) = stages.emits (items xs) := by
  induction stages with
  | nil => rfl
  | cons node rest ih => rw [outputs, ih, Node.items_outputs, emits]

/-- A method that returns, whatever the answers to its emits, and with an error only if that
does not end the run. -/
def Script.Tame (policy : ErrorPolicy) : Script U φ → Prop
  | .ret (.ok ()) _ => True
  | .ret (.error _) _ => policy ≠ .failFast
  | .panic _ => False
  | .emit _ _ k => ∀ b, (k b).Tame policy

theorem Script.Tame.givesIn {script : Script U φ} (h : script.Tame policy) : script.GivesIn := by
  induction script with
  | ret r s => trivial
  | panic s => exact h
  | emit item s k ih => exact ih false (h false)

theorem Script.Tame.graceful {script : Script U φ} (h : script.Tame policy) : script.Graceful := by
  induction script with
  | ret r s => trivial
  | panic s => trivial
  | emit item s k ih => exact ⟨ih true (h true), (h false).givesIn⟩

/-- A stage that never panics and whose failures do not end the run. -/
def Node.Lenient : Node T U → Prop
  | .item st => ∀ item s, match (st.react item s).1 with
    | .items _ => True
    | .fail _ => st.policy ≠ .failFast
    | .panic _ => False
  | .retry st => st.policy ≠ .failFast ∧ ∀ item s, (st.f item s).1 ≠ none
  | .stage st policy _ => (∀ item s, (st.process item s).Tame policy) ∧ ∀ s, (st.flush s).Tame policy

def Stages.Lenient : Stages T U → Prop
  | .nil => True
  | .cons node rest => node.Lenient ∧ rest.Lenient

theorem Stages.Lenient.graceful {stages : Stages T U} (h : stages.Lenient) : stages.Graceful := by
  induction stages with
  | nil => trivial
  | cons node rest ih =>
    refine ⟨?_, ih h.2⟩
    cases node with
    | item st => trivial
    | retry st => trivial
    | stage st policy id =>
      obtain ⟨hprocess, hflush⟩ := h.1
      exact ⟨fun item s => (hprocess item s).graceful, fun s => (hflush s).graceful⟩

/-- An incident of a stage that does not end the run; a flush is none. -/
def Incident.Mild : Incident → Prop
  | .fault .failFast _ | .crashed | .flushing _ => False
  | .fault .continue _ | .fault .deadLetter _ | .retried => True

theorem fault_mild {policy : ErrorPolicy} (h : policy ≠ .failFast) (id : StageId) (e : BoxError)
    (input : Option AnyBox) (n : Nat) : (fault policy id e input n).Mild := by
  cases policy with
  | failFast => exact absurd rfl h
  | «continue» | deadLetter => trivial

theorem Incident.Mild.verdict {incident : Incident} (h : incident.Mild) : incident.verdict = none := by
  cases incident with
  | fault policy failure =>
    cases policy with
    | failFast => exact h.elim
    | «continue» | deadLetter => rfl
  | retried => rfl
  | crashed | flushing => exact h.elim

/-- What makes mild incidents only. -/
def Mild (zs : List (U ⊕ Incident)) : Prop := ∀ incident, .inr incident ∈ zs → incident.Mild

theorem Mild.nil : Mild ([] : List (U ⊕ Incident)) := by
  intro incident h
  cases h

theorem Mild.item {zs : List (U ⊕ Incident)} (h : Mild zs) (item : U) :
    Mild (.inl item :: zs) := by
  intro incident hi
  cases hi with
  | tail _ hi => exact h incident hi

theorem Mild.incident {zs : List (U ⊕ Incident)} (h : Mild zs) {incident : Incident}
    (hi : incident.Mild) : Mild (.inr incident :: zs) := by
  intro incident' hi'
  cases hi' with
  | head => exact hi
  | tail _ hi' => exact h incident' hi'

theorem Mild.items (outs : List U) : Mild (outs.map .inl) := by
  induction outs with
  | nil => exact .nil
  | cons out outs ih => exact ih.item out

theorem Script.Tame.mild {script : Script U φ} (h : script.Tame policy) (id : StageId) :
    Mild (script.products policy id).1 := by
  induction script with
  | ret r s =>
    cases r with
    | ok u => exact .nil
    | error e => exact Mild.nil.incident (fault_mild h id e none 1)
  | panic s => exact h.elim
  | emit item s k ih => exact (ih true (h true)).item item

theorem RetryStage.trying_mild (st : RetryStage T U) (hpolicy : st.policy ≠ .failFast)
    (hf : ∀ item s, (st.f item s).1 ≠ none) (item : T) (left attempt : Nat) (s : st.φ × Jitter) :
    Mild (st.trying item left attempt s).1 := by
  have hcalled := hf item s.1
  induction left generalizing attempt s with
  | zero =>
    rw [trying]
    rcases hcall : st.f item s.1 with ⟨_ | e | out, t⟩
    case none => exact absurd (congrArg Prod.fst hcall) hcalled
    case some.error => exact Mild.nil.incident (fault_mild hpolicy _ _ _ _)
    case some.ok => exact Mild.nil.item out
  | succ left ih =>
    rw [trying]
    rcases hcall : st.f item s.1 with ⟨_ | e | out, t⟩
    case none => exact absurd (congrArg Prod.fst hcall) hcalled
    case some.error => exact (ih _ _ (hf item _)).incident trivial
    case some.ok => exact Mild.nil.item out

theorem Node.Lenient.feed {node : Node T U} (h : node.Lenient) (item : T) (s : node.φ) :
    Mild (node.feed item s).1 := by
  cases node with
  | retry st => exact st.trying_mild h.1 h.2 item _ 1 s
  | stage st policy id => exact (h.1 item s).mild id
  | item st =>
    have hreact := h item s
    show Mild (st.feed item s).1
    rw [ItemStage.feed]
    rcases hr : st.react item s with ⟨reaction, t⟩
    rw [hr] at hreact
    cases reaction with
    | items outs => exact .items outs
    | fail e => exact Mild.nil.incident (fault_mild hreact _ _ _ _)
    | panic outs => exact hreact.elim

/-- Nothing that ends the run. -/
def Harmless (zs : List (U ⊕ Incident)) : Prop :=
  ∀ incident, .inr incident ∈ zs → incident.verdict = none

theorem Mild.harmless {zs : List (U ⊕ Incident)} (h : Mild zs) : Harmless zs :=
  fun incident hi => (h incident hi).verdict

theorem Harmless.append {xs ys : List (U ⊕ Incident)} (hx : Harmless xs) (hy : Harmless ys) :
    Harmless (xs ++ ys) := by
  intro incident h
  cases List.mem_append.1 h with
  | inl h => exact hx incident h
  | inr h => exact hy incident h

/-- A call that makes nothing that ends the run returns, and counts what it makes. -/
theorem Harmless.settle {zs : List (U ⊕ Incident)} (h : Harmless zs) :
    settle zs = .ok (items zs).length := by
  induction zs with
  | nil => rfl
  | cons z zs ih =>
    have hzs : Harmless zs := fun incident hi => h incident (List.mem_cons_of_mem _ hi)
    cases z with
    | inl item =>
      rw [settle_item, ih hzs, items_item, List.length_cons, Nat.add_comm]
      rfl
    | inr incident =>
      rw [settle_incident, h incident List.mem_cons_self, Option.getD_none, ih hzs, items_note]

/-- Where the flush arrives. -/
def flushes (zs : List (U ⊕ Incident)) : List (Option Nat) :=
  zs.filterMap fun
    | .inr (.flushing depth) => some depth
    | _ => none

theorem flushes_append (xs ys : List (U ⊕ Incident)) :
    flushes (xs ++ ys) = flushes xs ++ flushes ys := List.filterMap_append

theorem Mild.flushes {zs : List (U ⊕ Incident)} (h : Mild zs) : flushes zs = [] := by
  apply List.filterMap_eq_nil_iff.2
  intro z hz
  match z with
  | .inl _ | .inr (.fault ..) | .inr .retried | .inr .crashed => rfl
  | .inr (.flushing depth) => exact (h _ hz).elim

theorem Node.Lenient.finish {node : Node T U} (h : node.Lenient) (depth : Nat) (s : node.φ) :
    Harmless (node.finish depth s) ∧ flushes (node.finish depth s) = node.flushed depth := by
  cases node with
  | item st => exact ⟨Mild.nil.harmless, rfl⟩
  | retry st => exact ⟨Mild.nil.harmless, rfl⟩
  | stage st policy id =>
    have hmild := (h.2 s).mild id
    constructor
    · intro incident hi
      cases hi with
      | head => rfl
      | tail _ hi => exact hmild.harmless incident hi
    · exact congrArg (some depth :: ·) hmild.flushes

/-- A lenient stage makes nothing harmful of harmless input, and is flushed at the end. -/
theorem Node.Lenient.outputs {node : Node T U} (h : node.Lenient) (depth : Nat)
    {xs : List (T ⊕ Incident)} (hx : Harmless xs) :
    Harmless ((node.machine depth).outputs xs) ∧
      flushes ((node.machine depth).outputs xs) = flushes xs ++ node.flushed depth := by
  have hfed : ∀ s, Harmless ((node.machine depth).feedAll xs s).1 ∧
      flushes ((node.machine depth).feedAll xs s).1 = flushes xs := by
    induction xs with
    | nil => exact fun s => ⟨Mild.nil.harmless, rfl⟩
    | cons x xs ih =>
      have hxs : Harmless xs := fun incident hi => hx incident (List.mem_cons_of_mem _ hi)
      intro s
      cases x with
      | inl item =>
        obtain ⟨hharmless, hflushes⟩ := ih hxs ((node.machine depth).feed item s).2
        have hone : Mild ((node.machine depth).feed item s).1 := h.feed item s
        constructor
        · exact hone.harmless.append hharmless
        · apply (flushes_append ..).trans
          rw [hflushes]
          exact congrArg (· ++ flushes xs) hone.flushes
      | inr incident =>
        obtain ⟨hharmless, hflushes⟩ := ih hxs s
        constructor
        · intro incident' hi
          cases hi with
          | head => exact hx incident List.mem_cons_self
          | tail _ hi => exact hharmless incident' hi
        · cases incident with
          | flushing depth => exact congrArg (depth :: ·) hflushes
          | fault | retried | crashed => exact hflushes
  obtain ⟨hharmless, hflushes⟩ := hfed (node.machine depth).init
  obtain ⟨hend, hflushed⟩ := h.finish depth ((node.machine depth).feedAll xs node.init).2
  constructor
  · exact hharmless.append hend
  · rw [Transducer.outputs, flushes_append, hflushes]
    exact congrArg (flushes xs ++ ·) hflushed

theorem Stages.Lenient.outputs {stages : Stages T U} (h : stages.Lenient)
    {xs : List (T ⊕ Incident)} (hx : Harmless xs) :
    Harmless (stages.outputs xs) ∧ flushes (stages.outputs xs) = flushes xs ++ stages.flushed := by
  induction stages with
  | nil => exact ⟨hx, (List.append_nil _).symm⟩
  | cons node rest ih =>
    obtain ⟨hharmless, hflushes⟩ := h.1.outputs rest.length hx
    obtain ⟨hrest, hrestFlushes⟩ := ih h.2 hharmless
    refine ⟨hrest, hrestFlushes.trans ?_⟩
    rw [hflushes, List.append_assoc, flushed]

/-- The failures stages reported, each with the policy it met. -/
def failures (zs : List (U ⊕ Incident)) : List (ErrorPolicy × StageFailure) :=
  zs.filterMap fun
    | .inr (.fault policy failure) => some (policy, failure)
    | _ => none

/-- The failures of stages whose policy is the dead-letter sink. -/
def dead_letters (zs : List (U ⊕ Incident)) : List StageFailure :=
  zs.filterMap fun
    | .inr (.fault .deadLetter failure) => some failure
    | _ => none

/-- The counters are the numbers of failures and of dead letters. -/
theorem charge_counts (t : Tally) (zs : List (U ⊕ Incident)) :
    (charge t zs).errors = t.errors + (failures zs).length ∧
      (charge t zs).dead_lettered = t.dead_lettered + (dead_letters zs).length := by
  induction zs generalizing t with
  | nil => exact ⟨rfl, rfl⟩
  | cons z zs ih =>
    have hrest := ih (z.elim (fun _ => t) (Incident.charge t))
    match z with
    | .inl item => exact hrest
    | .inr .retried | .inr .crashed | .inr (.flushing _) => exact hrest
    | .inr (.fault policy failure) =>
      cases policy with
      | failFast | «continue» =>
        refine ⟨hrest.1.trans ?_, hrest.2⟩
        exact Nat.add_right_comm ..
      | deadLetter =>
        exact ⟨hrest.1.trans (Nat.add_right_comm ..), hrest.2.trans (Nat.add_right_comm ..)⟩

def Mark.item : Mark Y → Option Y
  | .write item => some item
  | .letter _ | .flush _ => none

def Mark.failure : Mark Y → Option StageFailure
  | .letter failure => some failure
  | .write _ | .flush _ => none

def Mark.depth : Mark Y → Option (Option Nat)
  | .flush depth => some depth
  | .write _ | .letter _ => none

/-- What reached the sink. -/
def Log.written (log : Log X Y) : List Y := log.marks.filterMap Mark.item

/-- What reached the dead-letter sink. -/
def Log.letters (log : Log X Y) : List StageFailure := log.marks.filterMap Mark.failure

/-- Where the flush arrived. -/
def Log.flushed (log : Log X Y) : List (Option Nat) := log.marks.filterMap Mark.depth

/-- One kind of mark comes from one kind of thing made. -/
theorem marks_filterMap (dlq : Bool) {f : Mark Y → Option α} {g : Y ⊕ Incident → Option α}
    (h : ∀ z, (z.elim (fun item => [.write item]) (Incident.marks dlq)).filterMap f = (g z).toList)
    (zs : List (Y ⊕ Incident)) : (marks dlq zs).filterMap f = zs.filterMap g := by
  rw [marks, List.filterMap_flatMap, List.filterMap_eq_flatMap_toList]
  apply List.flatMap_congr
  intro z _
  exact h z

theorem marks_item (dlq : Bool) (zs : List (Y ⊕ Incident)) :
    (marks dlq zs).filterMap Mark.item = items zs := by
  apply marks_filterMap
  intro z
  match z with
  | .inl item => rfl
  | .inr .retried | .inr .crashed | .inr (.flushing _) => rfl
  | .inr (.fault policy failure) => cases policy <;> cases dlq <;> rfl

theorem marks_failure (dlq : Bool) (zs : List (Y ⊕ Incident)) :
    (marks dlq zs).filterMap Mark.failure = if dlq then dead_letters zs else [] := by
  cases dlq with
  | true =>
    apply marks_filterMap
    intro z
    match z with
    | .inl item => rfl
    | .inr .retried | .inr .crashed | .inr (.flushing _) => rfl
    | .inr (.fault policy failure) => cases policy <;> rfl
  | false =>
    apply List.filterMap_eq_nil_iff.2
    intro mark hmark
    obtain ⟨z, hz, hmark⟩ := List.mem_flatMap.1 hmark
    match z with
    | .inl item => cases List.mem_singleton.1 hmark; rfl
    | .inr .retried | .inr .crashed => cases hmark
    | .inr (.flushing _) => cases List.mem_singleton.1 hmark; rfl
    | .inr (.fault policy failure) => cases policy <;> cases hmark

theorem marks_depth (dlq : Bool) (zs : List (Y ⊕ Incident)) :
    (marks dlq zs).filterMap Mark.depth = flushes zs := by
  apply marks_filterMap
  intro z
  match z with
  | .inl item => rfl
  | .inr .retried | .inr .crashed | .inr (.flushing _) => rfl
  | .inr (.fault policy failure) => cases policy <;> cases dlq <;> rfl

section Shown

variable {X Y : Type} {log : Log X Y} {dlq : Bool} {zs : List (Y ⊕ Incident)}

theorem Log.written_of_marks (h : log.marks = PipeIo.marks dlq zs ++ [.flush none]) :
    log.written = items zs := by
  rw [written, h, List.filterMap_append, marks_item]
  exact List.append_nil _

theorem Log.letters_of_marks (h : log.marks = PipeIo.marks dlq zs ++ [.flush none]) :
    log.letters = if dlq then dead_letters zs else [] := by
  rw [letters, h, List.filterMap_append, marks_failure]
  exact List.append_nil _

theorem Log.flushed_of_marks (h : log.marks = PipeIo.marks dlq zs ++ [.flush none]) :
    log.flushed = flushes zs ++ [none] := by
  rw [flushed, h, List.filterMap_append, marks_depth]
  rfl

end Shown

/-- How a run ends for its owner. -/
def Outcome.settled : Res Halt Nat → Outcome Unit
  | .ok _ => .ok ()
  | .halt (.failed e) => .err e
  | .halt .disconnected | .panic => .panicked

/-- What a run does whose stages make `zs`. -/
structure Runs (zs : List (Y ⊕ Incident)) (dlq : Bool) (pulls : Nat)
    (res : Res Empty (Option (Outcome Unit))) (p : Pipeline σ) (log : Log X Y) : Prop where
  outcome : res = .ok (some (Outcome.settled (settle zs)))
  written : log.written = items (upto zs)
  letters : log.letters = if dlq then dead_letters (upto zs) else []
  flushed : log.flushed = flushes (upto zs) ++ [none]
  stats : ∀ n, settle zs = .ok n → p.stats =
    ⟨pulls, log.written.length, (failures zs).length, (dead_letters zs).length,
      (charge .zero zs).retries⟩

/-- A call that returns counts the items it makes. -/
theorem settle_items {zs : List (Y ⊕ Incident)} {n : Nat} (h : settle zs = .ok n) :
    n = (items zs).length := by
  induction zs generalizing n with
  | nil =>
    cases h
    rfl
  | cons z zs ih =>
    cases z with
    | inl item =>
      rw [settle_item] at h
      obtain ⟨m, hm⟩ := Res.plus_eq_ok h
      rw [hm] at h
      rw [items_item, List.length_cons, ← ih hm, Nat.add_comm]
      exact (Res.ok.inj h).symm
    | inr incident =>
      rw [settle_incident] at h
      cases hv : incident.verdict with
      | some r => exact absurd (by simpa [hv] using h) (Incident.verdict_stops hv n)
      | none =>
        rw [hv] at h
        exact ih h

/-- However it ends, a run shows what was made, and then a flush of the sink. -/
theorem Computed.shows {zs : List (Y ⊕ Incident)} {dlq : Bool} {pulls : Nat}
    {res : Res Empty (Option (Outcome Unit))} {p : Pipeline σ} {ms : List (Mark Y)}
    (h : Computed dlq (zs ++ [.inr (.flushing none)]) pulls res p ms) :
    res = .ok (some (Outcome.settled (settle zs))) ∧
      ms = marks dlq (upto zs) ++ [.flush none] := by
  cases hz : settle zs with
  | ok n =>
    obtain ⟨hsettle, hupto⟩ := settle_append hz [.inr (.flushing none)]
    obtain ⟨hres, _, hms⟩ := h.ok n hsettle
    refine ⟨hres, ?_⟩
    rw [hms, marks_append, marks_one, upto_ok hz]
    rfl
  | halt halt =>
    obtain ⟨e, rfl⟩ := settle_failed hz
    have hstop : ∀ n, settle zs ≠ .ok n := by simp [hz]
    obtain ⟨hsettle, hupto⟩ := settle_append_stopped hstop [.inr (.flushing none)]
    have hend := h.err e (hsettle.trans hz)
    rw [hupto] at hend
    exact hend
  | panic =>
    have hstop : ∀ n, settle zs ≠ .ok n := by simp [hz]
    obtain ⟨hsettle, hupto⟩ := settle_append_stopped hstop [.inr (.flushing none)]
    have hend := h.panicked (hsettle.trans hz)
    rw [hupto] at hend
    exact hend

theorem Computed.counts {zs : List (Y ⊕ Incident)} {dlq : Bool} {pulls : Nat}
    {res : Res Empty (Option (Outcome Unit))} {p : Pipeline σ} {ms : List (Mark Y)}
    (h : Computed dlq (zs ++ [.inr (.flushing none)]) pulls res p ms) {n : Nat}
    (hn : settle zs = .ok n) : p.stats = ⟨pulls, (items zs).length, (failures zs).length,
      (dead_letters zs).length, (charge .zero zs).retries⟩ := by
  obtain ⟨hsettle, _⟩ := settle_append hn [.inr (.flushing none)]
  obtain ⟨_, hstats, _⟩ := h.ok n hsettle
  obtain ⟨herrors, hletters⟩ := charge_counts .zero zs
  have hflush : charge (charge .zero zs) [(.inr (.flushing none) : Y ⊕ Incident)] =
      charge .zero zs := rfl
  rw [Tally.zero, Nat.zero_add] at herrors hletters
  rw [hstats, charge_append, hflush, ← settle_items hn, ← herrors, ← hletters]
  rfl

/-- A run that nothing ends early. -/
theorem Computed.completes {zs : List (Y ⊕ Incident)} {dlq : Bool} {pulls : Nat}
    {res : Res Empty (Option (Outcome Unit))} {p : Pipeline σ} {ms : List (Mark Y)}
    (h : Computed dlq (zs ++ [.inr (.flushing none)]) pulls res p ms) (hz : Harmless zs) :
    res = .ok (some (.ok ())) ∧ ms = marks dlq zs ++ [.flush none] ∧
      p.stats = ⟨pulls, (items zs).length, (failures zs).length, (dead_letters zs).length,
        (charge .zero zs).retries⟩ := by
  obtain ⟨hres, hms⟩ := h.shows
  rw [hz.settle] at hres
  rw [upto_ok hz.settle] at hms
  exact ⟨hres, hms, h.counts hz.settle⟩

/-- A run of any chain makes what the composition of its stages makes, up to the first failure
under `FailFast` or the first panic, and the sink is flushed after it. -/
theorem Stages.run_computes (stages : Stages X Y) (hstages : stages.Graceful)
    (sink_id source_id : StageId) (built : Built) (xs : List X) {fuel : Nat}
    (hfuel : xs.length < fuel) :
    Runs (stages.outputs (xs.map .inl)) built.dead_letter xs.length
      (stages.runOver sink_id source_id built fuel xs).1.1
      (stages.runOver sink_id source_id built fuel xs).1.2
      (stages.runOver sink_id source_id built fuel xs).2 := by
  have hrun := stages.runOver_computed hstages sink_id source_id built xs hfuel
  generalize stages.runOver sink_id source_id built fuel xs = run at hrun
  obtain ⟨⟨res, p⟩, log⟩ := run
  obtain ⟨hres, hmarks⟩ := hrun.shows
  have hwritten := Log.written_of_marks hmarks
  refine ⟨hres, hwritten, Log.letters_of_marks hmarks, Log.flushed_of_marks hmarks, ?_⟩
  intro n hn
  rw [hrun.counts hn, hwritten, upto_ok hn]

/-- A stage that hands an item on and then fails. -/
def leaky (policy : ErrorPolicy) : Stages Nat Nat :=
  .cons (.stage ⟨Unit, (), fun x s => .emit x s fun _ => .ret (.error "leak") s,
    fun s => .ret (.ok ()) s, fun s => .emit 9 s fun _ => .ret (.ok ()) s⟩ policy "leaky") .nil

/-- Under `FailFast` the first item is the last one, and there is no flush of the stage. -/
theorem Stages.run_computes_leaky : ((leaky .failFast).runOver "sink" "source" ⟨false, false⟩ 3
    [1, 2]).2.written = [1] ∧ ((leaky .failFast).runOver "sink" "source" ⟨false, false⟩ 3
    [1, 2]).1.1 = .ok (some (.err (.stage "leaky" "leak"))) := by
  have hgraceful : (leaky .failFast).Graceful :=
    ⟨⟨fun _ _ => ⟨trivial, trivial⟩, fun _ => ⟨trivial, trivial⟩⟩, trivial⟩
  have hrun := (leaky .failFast).run_computes hgraceful "sink" "source" ⟨false, false⟩ [1, 2]
    (by decide : 2 < 3)
  exact ⟨hrun.written, hrun.outcome⟩

/-- What a run of a lenient chain does. -/
structure Composes (stages : Stages X Y) (dlq : Bool) (xs : List X)
    (res : Res Empty (Option (Outcome Unit))) (p : Pipeline σ) (log : Log X Y) : Prop where
  returns : res = .ok (some (.ok ()))
  written : log.written = stages.emits xs
  flushed : log.flushed = stages.flushed ++ [none]
  marks : log.marks = marks dlq (stages.outputs (xs.map .inl)) ++ [.flush none]
  items_in : p.stats.items_in = xs.length
  items_out : p.stats.items_out = log.written.length
  errors : p.stats.errors = (failures (stages.outputs (xs.map .inl))).length

theorem items_plain (xs : List U) : items (xs.map (Sum.inl : U → U ⊕ Incident)) = xs := by
  rw [items, List.filterMap_map]
  exact List.filterMap_some

/-- A chain whose failures do not end the run computes the composition of its stages. -/
theorem Stages.composes (stages : Stages X Y) (hstages : stages.Lenient)
    (sink_id source_id : StageId) (built : Built) (xs : List X) {fuel : Nat}
    (hfuel : xs.length < fuel) :
    Composes stages built.dead_letter xs (stages.runOver sink_id source_id built fuel xs).1.1
      (stages.runOver sink_id source_id built fuel xs).1.2
      (stages.runOver sink_id source_id built fuel xs).2 := by
  have hrun := stages.runOver_computed hstages.graceful sink_id source_id built xs hfuel
  generalize stages.runOver sink_id source_id built fuel xs = run at hrun
  obtain ⟨⟨res, p⟩, log⟩ := run
  obtain ⟨hharmless, hflushes⟩ := hstages.outputs (Mild.items xs).harmless
  obtain ⟨hres, hmarks, hstats⟩ := hrun.completes hharmless
  have hwritten : log.written = stages.emits xs := by
    rw [Log.written_of_marks hmarks, items_outputs, items_plain]
  refine ⟨hres, hwritten, ?_, hmarks, ?_, ?_, ?_⟩
  · rw [Log.flushed_of_marks hmarks, hflushes, (Mild.items xs).flushes, List.nil_append]
  · rw [hstats]
  · rw [hstats, hwritten, items_outputs, items_plain]
  · rw [hstats]

/-- Under `Continue` both items pass, and what the flush emits comes after them. -/
theorem Stages.composes_leaky : ((leaky .continue).runOver "sink" "source" ⟨false, false⟩ 3
    [1, 2]).2.written = [1, 2, 9] ∧ ((leaky .continue).runOver "sink" "source" ⟨false, false⟩ 3
    [1, 2]).1.2.stats.errors = 2 := by
  have hlenient : (leaky .continue).Lenient :=
    ⟨⟨fun _ _ _ => by simp [Script.Tame], fun _ _ => trivial⟩, trivial⟩
  have hrun := (leaky .continue).composes hlenient "sink" "source" ⟨false, false⟩ [1, 2]
    (by decide : 2 < 3)
  exact ⟨hrun.written, hrun.errors⟩

end PipeIo
