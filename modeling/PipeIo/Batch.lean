import Mathlib.Algebra.GroupWithZero.Nat
import PipeIo.Window

namespace PipeIo
set_option autoImplicit true

open Lib

structure BatchPolicy where
  max_items : Option Nat
  max_bytes : Option Nat
  max_age : Option Duration
  deriving DecidableEq, Repr

namespace BatchPolicy

def has_trigger (p : BatchPolicy) : Bool := p.max_items.isSome || p.max_bytes.isSome || p.max_age.isSome

def check (p : BatchPolicy) : Except ConfigErrorKind Unit := do
  if !p.has_trigger then throw .noBatchTrigger
  if p.max_items = some 0 then throw (.zeroLimit "max_items")
  if p.max_bytes = some 0 then throw (.zeroLimit "max_bytes")
  if p.max_age = some 0 then throw (.zeroDuration "max_age")

theorem check_ok {p : BatchPolicy} : p.check = .ok () ↔
    p.has_trigger = true ∧ p.max_items ≠ some 0 ∧ p.max_bytes ≠ some 0 ∧ p.max_age ≠ some 0 := by
  rw [check]
  by_cases htrigger : p.has_trigger = true
  · by_cases hitems : p.max_items = some 0
    · simp [htrigger, hitems, bind, Except.bind, throw, throwThe, MonadExceptOf.throw]
    · by_cases hbytes : p.max_bytes = some 0
      · simp [htrigger, hitems, hbytes, bind, Except.bind, throw, throwThe, MonadExceptOf.throw]
      · by_cases hage : p.max_age = some 0
        · simp [htrigger, hitems, hbytes, hage, throw, throwThe, MonadExceptOf.throw]
        · simp [htrigger, hitems, hbytes, hage, pure, Except.pure]
  · simp [htrigger, bind, Except.bind, throw, throwThe, MonadExceptOf.throw]

end BatchPolicy

/-- A batch of consecutive items. -/
structure Batch (T : Type) where
  items : List T
  deriving DecidableEq, Repr

/-- The age trigger of a batch stage. -/
structure AgeTrigger where
  max_age : Duration
  opened_at : Option Nat
  deriving DecidableEq, Repr

def AgeTrigger.expired (age : AgeTrigger) (now : Nat) : Bool :=
  age.opened_at.any fun opened => saturating_duration_since now opened ≥ age.max_age

/-- `usize::saturating_add`. -/
def saturating_add (a b : Nat) : Nat := min (a + b) usizeMax

structure BatchStage (T : Type) where
  max_items : Nat
  max_bytes : Nat
  measure : Option (T → Nat)
  items : List T
  bytes : Nat
  age : Option AgeTrigger

namespace BatchStage

variable [Timeline] {T : Type} {m : Type → Type u} [Monad m]

/-- `new` and `with_clock`. Without a byte limit there is nothing to measure. -/
def new (policy : BatchPolicy) (measure : Option (T → Nat)) : BatchStage T where
  max_items := limit_or_max policy.max_items
  max_bytes := limit_or_max policy.max_bytes
  measure := measure.filter fun _ => policy.max_bytes.isSome
  items := []
  bytes := 0
  age := policy.max_age.map fun max_age => ⟨max_age, none⟩

def take_batch (s : BatchStage T) : Batch T × BatchStage T :=
  (⟨s.items⟩, { s with
    items := [], bytes := 0, age := s.age.map fun age => { age with opened_at := none } })

def emit_open_batch (out : Batch T → m Bool) (s : BatchStage T) : m (BatchStage T) :=
  if s.items.isEmpty then pure s
  else do
    let (batch, s) := s.take_batch
    let _still_open ← out batch
    pure s

def limit_reached (s : BatchStage T) : Bool := s.items.length ≥ s.max_items || s.bytes ≥ s.max_bytes

/-- The part of `process` before the triggers, when the clock reads `now`. -/
def push (item : T) (now : Nat) (s : BatchStage T) : BatchStage T := { s with
  bytes := (s.measure.map fun measure => saturating_add s.bytes (measure item)).getD s.bytes
  items := s.items ++ [item]
  age := s.age.map fun age => { age with opened_at := some (age.opened_at.getD now) } }

def process (item : T) (now : Nat) (out : Batch T → m Bool) (s : BatchStage T) :
    m (BatchStage T) :=
  let s := s.push item now
  if s.age.any fun age => age.expired now then s.emit_open_batch out
  else if s.limit_reached then s.emit_open_batch out
  else pure s

def tick (now : Nat) (out : Batch T → m Bool) (s : BatchStage T) : m (BatchStage T) :=
  if s.age.any fun age => age.expired now then s.emit_open_batch out else pure s

def flush (out : Batch T → m Bool) (s : BatchStage T) : m (BatchStage T) := s.emit_open_batch out

/-- One event, with a downstream that takes every batch. -/
def step (s : BatchStage T) : WindowEvent T → Emitting (Batch T) (BatchStage T)
  | (.item item, now) => s.process item now Emitting.emit
  | (.tick, now) => s.tick now Emitting.emit
  | (.flush, _) => s.flush Emitting.emit

/-- What each event of a run emits. -/
def trace (s : BatchStage T) : List (WindowEvent T) → List (List (Batch T))
  | [] => []
  | event :: events => (s.step event).out :: (s.step event).val.trace events

end BatchStage

/-- The bytes of some items, as far as a `usize` counts them. -/
def byte_sum (measure : T → Nat) (items : List T) : Nat := min (items.map measure).sum usizeMax

/-- The first item of the batch is at least `max_age` old. -/
def Aged (policy : BatchPolicy) (batch : List (T × Nat)) (now : Nat) : Prop :=
  ∃ max_age first rest, policy.max_age = some max_age ∧ batch = first :: rest ∧
    max_age ≤ now - first.2

/-- The batch has as many items as it may have. -/
def Full (policy : BatchPolicy) (batch : List T) : Prop :=
  limit_or_max policy.max_items ≤ batch.length

/-- The items of the batch have as many bytes as they may have. -/
def Heavy (policy : BatchPolicy) (measure : Option (T → Nat)) (batch : List T) : Prop :=
  ∃ limit f, policy.max_bytes = some limit ∧ measure = some f ∧ limit ≤ byte_sum f batch

/-- The greedy split: the batches that each event closes, where `kept` is open and each item
comes with its arrival time. -/
inductive Splits [Timeline] (policy : BatchPolicy) (measure : Option (T → Nat)) :
    List (T × Nat) → List (WindowEvent T) → List (List (Batch T)) → Prop where
  | done : Splits policy measure kept [] []
  | close : Full policy ((kept ++ [(item, now.1)]).map Prod.fst) ∨
        Heavy policy measure ((kept ++ [(item, now.1)]).map Prod.fst) ∨
        Aged policy (kept ++ [(item, now.1)]) now.1 →
      Splits policy measure [] events out →
      Splits policy measure kept ((.item item, now) :: events)
        ([⟨(kept ++ [(item, now.1)]).map Prod.fst⟩] :: out)
  | push : ¬Full policy ((kept ++ [(item, now.1)]).map Prod.fst) →
      ¬Heavy policy measure ((kept ++ [(item, now.1)]).map Prod.fst) →
      ¬Aged policy (kept ++ [(item, now.1)]) now.1 →
      Splits policy measure (kept ++ [(item, now.1)]) events out →
      Splits policy measure kept ((.item item, now) :: events) ([] :: out)
  | expire : Aged policy kept now.1 → Splits policy measure [] events out →
      Splits policy measure kept ((.tick, now) :: events) ([⟨kept.map Prod.fst⟩] :: out)
  | wait : ¬Aged policy kept now.1 → Splits policy measure kept events out →
      Splits policy measure kept ((.tick, now) :: events) ([] :: out)
  | flush : kept ≠ [] → Splits policy measure [] events out →
      Splits policy measure kept ((.flush, now) :: events) ([⟨kept.map Prod.fst⟩] :: out)
  | idle : Splits policy measure [] events out →
      Splits policy measure [] ((.flush, now) :: events) ([] :: out)

section

variable {T : Type} {policy : BatchPolicy} {measure : Option (T → Nat)} {batch : List (T × Nat)}

theorem saturating_add_byte_sum (f : T → Nat) (items : List T) (item : T) :
    saturating_add (byte_sum f items) (f item) = byte_sum f (items ++ [item]) := by
  rw [saturating_add, byte_sum, byte_sum, List.map_append, List.sum_append]
  simp only [List.map_cons, List.map_nil, List.sum_cons, List.sum_nil, Nat.add_zero]
  omega

namespace BatchStage

/-- The stage while `batch` is open. -/
structure Holds (s : BatchStage T) (policy : BatchPolicy) (measure : Option (T → Nat))
    (batch : List (T × Nat)) : Prop where
  max_items : s.max_items = limit_or_max policy.max_items
  max_bytes : s.max_bytes = limit_or_max policy.max_bytes
  measure : s.measure = measure.filter fun _ => policy.max_bytes.isSome
  items : s.items = batch.map Prod.fst
  bytes : s.bytes = (s.measure.map fun f => byte_sum f s.items).getD 0
  age : s.age = policy.max_age.map fun max_age => ⟨max_age, batch.head?.map Prod.snd⟩

theorem new_holds (policy : BatchPolicy) (measure : Option (T → Nat)) :
    (new policy measure).Holds policy measure [] where
  max_items := rfl
  max_bytes := rfl
  measure := rfl
  items := rfl
  bytes := by
    cases (new policy measure).measure with
    | none => rfl
    | some f => simp [new, byte_sum]
  age := rfl

/-- The batch is handed over whole, and the stage is as if new. -/
theorem Holds.emit {s : BatchStage T} (h : s.Holds policy measure batch) (hne : batch ≠ []) :
    (s.emit_open_batch Emitting.emit).out = [⟨batch.map Prod.fst⟩] ∧
      (s.emit_open_batch Emitting.emit).val.Holds policy measure [] := by
  have hitems : ¬s.items.isEmpty := by
    rw [h.items, List.isEmpty_iff, List.map_eq_nil_iff]
    exact hne
  have hemit : s.emit_open_batch Emitting.emit = ⟨s.take_batch.2, [⟨s.items⟩]⟩ := by
    rw [emit_open_batch, if_neg hitems]
    rfl
  rw [hemit]
  refine ⟨by rw [h.items], h.max_items, h.max_bytes, h.measure, rfl, ?_, ?_⟩
  · rw [take_batch]
    cases s.measure with
    | none => rfl
    | some f => simp [byte_sum]
  · simp only [take_batch, h.age, Option.map_map]
    rfl

theorem Holds.expired {s : BatchStage T} (h : s.Holds policy measure batch) (now : Nat) :
    (s.age.any fun age => age.expired now) = true ↔ Aged policy batch now := by
  rw [h.age, Aged]
  cases policy.max_age with
  | none => simp
  | some max_age =>
    cases batch with
    | nil => simp [AgeTrigger.expired]
    | cons first rest => simp [AgeTrigger.expired, saturating_duration_since]

theorem Holds.limit_reached {s : BatchStage T} (h : s.Holds policy measure batch)
    (hcheck : policy.check = .ok ()) :
    s.limit_reached = true ↔
      Full policy (batch.map Prod.fst) ∨ Heavy policy measure (batch.map Prod.fst) := by
  have hbytes := h.bytes
  rw [h.measure, h.items] at hbytes
  rw [BatchStage.limit_reached, Bool.or_eq_true, decide_eq_true_eq, decide_eq_true_eq, h.max_items,
    h.max_bytes, h.items, hbytes]
  refine or_congr Iff.rfl ?_
  simp only [Heavy]
  cases hlimit : policy.max_bytes with
  | none => simp [limit_or_max, usizeMax]
  | some limit =>
    have hpos : limit ≠ 0 := by
      rintro rfl
      exact (BatchPolicy.check_ok.1 hcheck).2.2.1 hlimit
    cases measure with
    | none => simp [limit_or_max]
    | some f =>
      simp only [limit_or_max, Option.isSome_some, Option.filter_some, if_true, Option.map_some,
        Option.getD_some, Option.some.injEq, exists_and_left, exists_eq_left']
      omega

variable [Timeline] {events : List (WindowEvent T)} {out : List (List (Batch T))}

omit [Timeline] in
theorem Holds.push {s : BatchStage T} (h : s.Holds policy measure batch) (item : T) (now : Nat) :
    (s.push item now).Holds policy measure (batch ++ [(item, now)]) where
  max_items := h.max_items
  max_bytes := h.max_bytes
  measure := h.measure
  items := by
    rw [BatchStage.push, h.items, List.map_append]
    rfl
  bytes := by
    have hbytes := h.bytes
    simp only [BatchStage.push]
    cases hmeasure : s.measure with
    | none =>
      rw [hmeasure] at hbytes
      exact hbytes
    | some f =>
      rw [hmeasure] at hbytes
      rw [hbytes]
      exact saturating_add_byte_sum f s.items item
  age := by
    simp only [BatchStage.push, h.age, Option.map_map]
    cases batch with
    | nil => rfl
    | cons first rest => rfl

omit [Timeline] in
/-- An item closes the batch it joins exactly if one of the triggers says so. -/
theorem Holds.process {s : BatchStage T} (h : s.Holds policy measure batch)
    (hcheck : policy.check = .ok ()) (item : T) (now : Nat) :
    ((Full policy ((batch ++ [(item, now)]).map Prod.fst) ∨
        Heavy policy measure ((batch ++ [(item, now)]).map Prod.fst) ∨
        Aged policy (batch ++ [(item, now)]) now) ∧
      (s.process item now Emitting.emit).out = [⟨(batch ++ [(item, now)]).map Prod.fst⟩] ∧
      (s.process item now Emitting.emit).val.Holds policy measure []) ∨
    (¬Full policy ((batch ++ [(item, now)]).map Prod.fst) ∧
      ¬Heavy policy measure ((batch ++ [(item, now)]).map Prod.fst) ∧
      ¬Aged policy (batch ++ [(item, now)]) now ∧
      (s.process item now Emitting.emit).out = [] ∧
      (s.process item now Emitting.emit).val.Holds policy measure (batch ++ [(item, now)])) := by
  have hpush := h.push item now
  have haged := hpush.expired now
  have hlimit := hpush.limit_reached hcheck
  have hemit := hpush.emit (List.append_ne_nil_of_right_ne_nil batch (List.cons_ne_nil _ _))
  rw [BatchStage.process]
  by_cases hage : ((s.push item now).age.any fun age => age.expired now) = true
  · rw [if_pos hage]
    exact .inl ⟨.inr (.inr (haged.1 hage)), hemit⟩
  · rw [if_neg hage]
    rw [haged] at hage
    by_cases hreached : (s.push item now).limit_reached = true
    · rw [if_pos hreached]
      exact .inl ⟨(hlimit.1 hreached).imp_right .inl, hemit⟩
    · rw [if_neg hreached]
      rw [hlimit, not_or] at hreached
      exact .inr ⟨hreached.1, hreached.2, hage, rfl, hpush⟩

/-- The stage splits its items greedily. -/
theorem Holds.splits {s : BatchStage T} (h : s.Holds policy measure batch)
    (hcheck : policy.check = .ok ()) (events : List (WindowEvent T)) :
    Splits policy measure batch events (s.trace events) := by
  induction events generalizing s batch with
  | nil => exact .done
  | cons event events ih =>
    obtain ⟨call, now⟩ := event
    rw [trace]
    cases call with
    | item item =>
      rcases h.process hcheck item now with ⟨hdue, hout, hnext⟩ | ⟨hfull, hheavy, haged, hout, hnext⟩
      · rw [step, hout]
        exact .close hdue (ih hnext)
      · rw [step, hout]
        exact .push hfull hheavy haged (ih hnext)
    | tick =>
      have haged := h.expired now
      rw [step, tick]
      by_cases hage : (s.age.any fun age => age.expired now) = true
      · rw [if_pos hage]
        have hold := haged.1 hage
        obtain ⟨-, first, rest, -, hbatch, -⟩ := hold
        have hemit := h.emit (by rw [hbatch]; exact List.cons_ne_nil _ _)
        rw [hemit.1]
        exact .expire (haged.1 hage) (ih hemit.2)
      · rw [if_neg hage]
        rw [haged] at hage
        exact .wait hage (ih h)
    | flush =>
      rw [step, flush]
      by_cases hbatch : batch = []
      · subst hbatch
        have hempty : s.items.isEmpty := by
          rw [h.items]
          rfl
        rw [emit_open_batch, if_pos hempty]
        exact .idle (ih h)
      · have hemit := h.emit hbatch
        rw [hemit.1]
        exact .flush hbatch (ih hemit.2)

end BatchStage

/-- A batch that is within the limits. -/
structure Batch.Bounded (policy : BatchPolicy) (measure : Option (T → Nat)) (b : Batch T) :
    Prop where
  nonempty : b.items ≠ []
  items : b.items.length ≤ limit_or_max policy.max_items
  bytes : ∀ limit f, policy.max_bytes = some limit → measure = some f →
    byte_sum f b.items.dropLast < limit

theorem byte_sum_dropLast (f : T → Nat) (items : List T) :
    byte_sum f items.dropLast ≤ byte_sum f items := by
  rcases List.eq_nil_or_concat items with rfl | ⟨l, item, rfl⟩
  · exact Nat.le_refl _
  · rw [List.concat_eq_append, List.dropLast_concat, ← saturating_add_byte_sum, saturating_add]
    have hle : byte_sum f l ≤ usizeMax := Nat.min_le_right ..
    omega

theorem not_full_nil : ¬Full policy ([] : List T) := by
  simp [Full, limit_or_max]

theorem not_heavy_nil (hcheck : policy.check = .ok ()) : ¬Heavy policy measure [] := by
  rintro ⟨limit, f, hlimit, -, hle⟩
  have hzero : limit = 0 := by simpa [byte_sum] using hle
  rw [hzero] at hlimit
  exact (BatchPolicy.check_ok.1 hcheck).2.2.1 hlimit

/-- A batch that no trigger applied to is within the limits. -/
theorem bounded_of_open {items : List T} (hne : items ≠ []) (hfull : ¬Full policy items)
    (hheavy : ¬Heavy policy measure items) : (⟨items⟩ : Batch T).Bounded policy measure where
  nonempty := hne
  items := Nat.le_of_lt (Nat.lt_of_not_le hfull)
  bytes limit f hlimit hf := by
    have hlt : byte_sum f items < limit := by
      by_contra hle
      exact hheavy ⟨limit, f, hlimit, hf, Nat.le_of_not_lt hle⟩
    exact Nat.lt_of_le_of_lt (byte_sum_dropLast f items) hlt

namespace Splits

variable [Timeline] {events : List (WindowEvent T)} {out : List (List (Batch T))} {now : Reading}

/-- An open batch that no trigger applies to becomes one within the limits. -/
theorem bounded (h : Splits policy measure batch events out) (hcheck : policy.check = .ok ())
    (hfull : ¬Full policy (batch.map Prod.fst))
    (hheavy : ¬Heavy policy measure (batch.map Prod.fst)) :
    ∀ b ∈ out.flatten, b.Bounded policy measure := by
  have hnone : ¬Full policy ([] : List T) := not_full_nil
  have hlight : ¬Heavy policy measure [] := not_heavy_nil hcheck
  induction h with
  | done =>
    intro b hb
    cases hb
  | @close batch item now events out hdue hrest ih =>
    intro b hb
    rw [List.flatten_cons] at hb
    rcases List.mem_append.1 hb with hb | hb
    · cases List.mem_singleton.1 hb
      refine ⟨by simp, ?_, fun limit f hlimit hf => ?_⟩
      · rw [List.map_append, List.length_append]
        exact Nat.lt_of_not_le hfull
      · rw [List.map_append]
        by_contra hle
        rw [show List.map Prod.fst [(item, now.1)] = [item] from rfl, List.dropLast_concat] at hle
        exact hheavy ⟨limit, f, hlimit, hf, Nat.le_of_not_lt hle⟩
    · exact ih hnone hlight b hb
  | push hfull' hheavy' _ _ ih => exact ih hfull' hheavy'
  | @expire batch now events out hold hrest ih =>
    intro b hb
    rw [List.flatten_cons] at hb
    rcases List.mem_append.1 hb with hb | hb
    · cases List.mem_singleton.1 hb
      obtain ⟨-, first, rest, -, rfl, -⟩ := hold
      exact bounded_of_open (by simp) hfull hheavy
    · exact ih hnone hlight b hb
  | wait _ _ ih => exact ih hfull hheavy
  | @flush batch now events out hne hrest ih =>
    intro b hb
    rw [List.flatten_cons] at hb
    rcases List.mem_append.1 hb with hb | hb
    · cases List.mem_singleton.1 hb
      exact bounded_of_open (by simpa using hne) hfull hheavy
    · exact ih hnone hlight b hb
  | idle _ ih => exact ih hnone hlight

/-- Nothing is lost in a run that is flushed. -/
theorem items (events : List (WindowEvent T))
    (h : Splits policy measure batch (events ++ [(.flush, now)]) out) :
    out.flatten.flatMap Batch.items = batch.map Prod.fst ++ (arrivals events).map Prod.fst := by
  induction events generalizing batch out with
  | nil =>
    cases h with
    | flush hne hrest =>
      cases hrest
      simp [arrivals]
    | idle hrest =>
      cases hrest
      simp [arrivals]
  | cons event events ih =>
    cases h with
    | close hdue hrest =>
      rw [List.flatten_cons, List.flatMap_append, ih hrest]
      simp [arrivals]
    | push _ _ _ hrest =>
      rw [List.flatten_cons, List.flatMap_append, ih hrest]
      simp [arrivals]
    | expire _ hrest =>
      rw [List.flatten_cons, List.flatMap_append, ih hrest]
      simp [arrivals]
    | wait _ hrest =>
      rw [List.flatten_cons, List.flatMap_append, ih hrest]
      simp [arrivals]
    | flush _ hrest =>
      rw [List.flatten_cons, List.flatMap_append, ih hrest]
      simp [arrivals]
    | idle hrest =>
      rw [List.flatten_cons, List.flatMap_append, ih hrest]
      simp [arrivals]

end Splits

/-- What a run of a batch stage emits, ended by `flush`: the greedy split of the items by the
triggers, in which nothing is lost and every batch is within the limits. -/
structure BatchStage.SplitsGreedily [Timeline] (policy : BatchPolicy) (measure : Option (T → Nat))
    (events : List (WindowEvent T)) (now : Reading) : Prop where
  splits : Splits policy measure [] (events ++ [(.flush, now)])
    ((new policy measure).trace (events ++ [(.flush, now)]))
  items : ((new policy measure).trace (events ++ [(.flush, now)])).flatten.flatMap Batch.items =
    (arrivals events).map Prod.fst
  bounded : ∀ b ∈ ((new policy measure).trace (events ++ [(.flush, now)])).flatten,
    b.Bounded policy measure

/-- Batching is the greedy split by the triggers. -/
theorem BatchStage.batching_is_greedy [Timeline] {policy : BatchPolicy}
    (hcheck : policy.check = .ok ()) (measure : Option (T → Nat)) (events : List (WindowEvent T))
    (now : Reading) : SplitsGreedily policy measure events now := by
  have hsplits := (new_holds policy measure).splits hcheck (events ++ [(.flush, now)])
  refine ⟨hsplits, hsplits.items, hsplits.bounded hcheck ?_ ?_⟩
  · exact not_full_nil
  · exact not_heavy_nil hcheck

end

/-- A batch that its second item closes, and one that grows old. -/
theorem BatchStage.batching_is_greedy_two : @SplitsGreedily Nat smallTimeline
    ⟨some 2, some 9, some 5⟩ (some id)
    [(.item 1, ⟨3, by decide⟩), (.item 2, ⟨4, by decide⟩), (.item 3, ⟨6, by decide⟩),
      (.tick, ⟨20, by decide⟩)] ⟨20, by decide⟩ :=
  @batching_is_greedy Nat smallTimeline ⟨some 2, some 9, some 5⟩ rfl (some id)
    [(.item 1, ⟨3, by decide⟩), (.item 2, ⟨4, by decide⟩), (.item 3, ⟨6, by decide⟩),
      (.tick, ⟨20, by decide⟩)] ⟨20, by decide⟩

end PipeIo
