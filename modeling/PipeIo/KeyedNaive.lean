import PipeIo.KeyedRun

namespace PipeIo
set_option autoImplicit true

open Lib

/-- What the reference keeps of a key. -/
structure NaiveKey (K T : Type) where
  key : K
  core : Core T
  touched : Nat
  deriving DecidableEq, Repr

/-- The reference: it looks at every key at every event. The keys are in the order in which
their state was created. -/
structure NaiveKeyed (K T φ : Type) where
  policy : WindowPolicy
  max_items : Nat
  max_keys : Nat
  key_state : φ
  anchor : Option Nat
  keys : List (NaiveKey K T)
  seq : Nat
  deriving DecidableEq, Repr

namespace NaiveKeyed

section

variable {K T φ : Type}

def new (spec : WindowSpec) (key_state : φ) : NaiveKeyed K T φ where
  policy := spec.policy
  max_items := spec.max_items.getD usizeMax
  max_keys := spec.max_keys.getD usizeMax
  key_state := key_state
  anchor := none
  keys := []
  seq := 0

/-- The first key whose last item is oldest. -/
def oldest : List (NaiveKey K T) → Option (NaiveKey K T)
  | [] => none
  | e :: rest =>
    match oldest rest with
    | none => some e
    | some f => if f.touched < e.touched then some f else some e

variable [Timeline] [DecidableEq K]

/-- A key is examined once its deadline has passed, and released if nothing is left in it. -/
def tick_keys (anchor now : Nat) :
    List (NaiveKey K T) → Emitting (K × Window T) (List (NaiveKey K T))
  | [] => pure []
  | e :: rest =>
    if e.core.deadline.all fun d => d > now then do
      let rest ← tick_keys anchor now rest
      pure (e :: rest)
    else do
      let core ← e.core.on_tick anchor now (KeyedWindowStage.keyed_emit e.key Emitting.emit)
      let rest ← tick_keys anchor now rest
      if core.is_empty then pure rest else pure ({ e with core := core } :: rest)

def tick_all (n : NaiveKeyed K T φ) (now : Nat) : Emitting (K × Window T) (NaiveKeyed K T φ) :=
  match n.anchor with
  | none => pure n
  | some anchor => do
    let keys ← tick_keys anchor now n.keys
    pure { n with keys := keys }

/-- Flush and drop the key whose last item is oldest. -/
def evict (n : NaiveKeyed K T φ) (now : Nat) : Emitting (K × Window T) (NaiveKeyed K T φ) :=
  match oldest n.keys with
  | none => pure n
  | some e => do
    let _core ← e.core.on_flush now (KeyedWindowStage.keyed_emit e.key Emitting.emit)
    pure { n with keys := n.keys.filter fun f => f.key ≠ e.key }

/-- At the key limit a new key replaces another. -/
def make_room (n : NaiveKeyed K T φ) (key : K) (now : Nat) :
    Emitting (K × Window T) (NaiveKeyed K T φ) :=
  if (n.keys.find? fun e => e.key = key).isNone ∧ n.keys.length ≥ n.max_keys then n.evict now
  else pure n

/-- The item goes to its key. -/
def add (n : NaiveKeyed K T φ) (key : K) (item : T) (anchor now : Nat) :
    Emitting (K × Window T) (NaiveKeyed K T φ) :=
  let seq := n.seq + 1
  match n.keys.find? fun e => e.key = key with
  | some e => do
    let core ← e.core.on_item n.max_items anchor now item
      (KeyedWindowStage.keyed_emit key Emitting.emit)
    pure { n with
      seq := seq
      keys := n.keys.map fun e => if e.key = key then ⟨key, core, seq⟩ else e }
  | none => do
    let core ← (Core.new n.policy).on_item n.max_items anchor now item
      (KeyedWindowStage.keyed_emit key Emitting.emit)
    pure { n with seq := seq, keys := n.keys ++ [⟨key, core, seq⟩] }

def item (n : NaiveKeyed K T φ) (key_fn : T → φ → K × φ) (item : T) (now : Nat) :
    Emitting (K × Window T) (NaiveKeyed K T φ) := do
  let anchor := n.anchor.getD (grid_origin n.policy now)
  let n ← { n with anchor := some anchor }.tick_all now
  let (key, key_state) := key_fn item n.key_state
  let n ← { n with key_state := key_state }.make_room key now
  n.add key item anchor now

/-- Flush every key, the one created first before the others. -/
def flush_keys (now : Nat) : List (NaiveKey K T) → Emitting (K × Window T) Unit
  | [] => pure ()
  | e :: rest => do
    let _core ← e.core.on_flush now (KeyedWindowStage.keyed_emit e.key Emitting.emit)
    flush_keys now rest

def flush (n : NaiveKeyed K T φ) (now : Nat) : Emitting (K × Window T) (NaiveKeyed K T φ) := do
  flush_keys now n.keys
  pure { n with keys := [] }

def step (n : NaiveKeyed K T φ) (key_fn : T → φ → K × φ) :
    WindowEvent T → Emitting (K × Window T) (NaiveKeyed K T φ)
  | (.item item, now) => n.item key_fn item now
  | (.tick, now) => n.tick_all now
  | (.flush, now) => n.flush now

/-- The state after some events. -/
def after (n : NaiveKeyed K T φ) (key_fn : T → φ → K × φ) :
    List (WindowEvent T) → NaiveKeyed K T φ
  | [] => n
  | event :: events => (n.step key_fn event).val.after key_fn events

/-- What each of some events emits. -/
def trace (n : NaiveKeyed K T φ) (key_fn : T → φ → K × φ) :
    List (WindowEvent T) → List (List (K × Window T))
  | [] => []
  | event :: events => (n.step key_fn event).out :: (n.step key_fn event).val.trace key_fn events

end

section

variable {K T : Type} {keys : List (NaiveKey K T)} {e : NaiveKey K T}

theorem oldest_mem (h : oldest keys = some e) : e ∈ keys := by
  induction keys generalizing e with
  | nil => cases h
  | cons f rest ih =>
    simp only [oldest] at h
    cases hrest : oldest rest with
    | none =>
      rw [hrest] at h
      cases h
      exact List.mem_cons_self
    | some g =>
      rw [hrest] at h
      simp only at h
      split at h
      · cases h
        exact List.mem_cons_of_mem _ (ih hrest)
      · cases h
        exact List.mem_cons_self

/-- A key that no other is older than is evicted. -/
theorem oldest_eq (he : e ∈ keys) (hmin : ∀ f ∈ keys, f ≠ e → e.touched < f.touched) :
    oldest keys = some e := by
  induction keys with
  | nil => cases he
  | cons f rest ih =>
    simp only [oldest]
    by_cases hmem : e ∈ rest
    · rw [ih hmem fun g hg => hmin g (List.mem_cons_of_mem _ hg)]
      by_cases hf : f = e
      · simp [hf]
      · have hlt := hmin f List.mem_cons_self hf
        simp [hlt]
    · have hf : f = e := by
        cases he with
        | head => rfl
        | tail _ he => exact absurd he hmem
      subst hf
      cases hrest : oldest rest with
      | none => rfl
      | some g =>
        have hg := oldest_mem hrest
        have hne : g ≠ f := by
          rintro rfl
          exact hmem hg
        have hlt := hmin g (List.mem_cons_of_mem _ hg) hne
        simp only [if_neg (Nat.lt_asymm hlt)]

end

section

variable [Timeline] {K T : Type} [DecidableEq K] {keys : List (NaiveKey K T)} {anchor now : Nat}

/-- What becomes of a key when all keys are ticked. -/
def ticked (anchor now : Nat) (e : NaiveKey K T) : Option (NaiveKey K T) :=
  if e.core.deadline.all fun d => d > now then some e
  else if (e.core.on_tick anchor now Emitting.emit).val.is_empty then none
  else some { e with core := (e.core.on_tick anchor now Emitting.emit).val }

/-- What a key emits when all keys are ticked. -/
def tick_out (anchor now : Nat) (e : NaiveKey K T) : List (Window T) :=
  if e.core.deadline.all fun d => d > now then []
  else (e.core.on_tick anchor now Emitting.emit).out

omit [DecidableEq K] in
theorem tick_keys_eq (keys : List (NaiveKey K T)) :
    tick_keys anchor now keys = ⟨keys.filterMap (ticked anchor now),
      keys.flatMap fun e => (tick_out anchor now e).map fun w => (e.key, w)⟩ := by
  induction keys with
  | nil => rfl
  | cons e rest ih =>
    have hemit : e.core.on_tick anchor now (KeyedWindowStage.keyed_emit e.key Emitting.emit) =
        (e.core.on_tick anchor now Emitting.emit).renamed fun w => (e.key, w) :=
      Core.on_tick_renamed _
    rw [List.filterMap_cons, List.flatMap_cons, tick_keys, ticked, tick_out, ih]
    by_cases hfresh : e.core.deadline.all fun d => d > now
    · simp only [if_pos hfresh]
      simp [bind]
    · simp only [if_neg hfresh, hemit]
      by_cases hempty : (e.core.on_tick anchor now Emitting.emit).val.is_empty
      · simp [bind, hempty]
      · simp [bind, hempty]

omit [DecidableEq K] in
theorem flush_keys_out (keys : List (NaiveKey K T)) :
    (flush_keys now keys).out = keys.flatMap fun e =>
      (e.core.on_flush now Emitting.emit).out.map fun w => (e.key, w) := by
  induction keys with
  | nil => rfl
  | cons e rest ih =>
    have hemit : e.core.on_flush now (KeyedWindowStage.keyed_emit e.key Emitting.emit) =
        (e.core.on_flush now Emitting.emit).renamed fun w => (e.key, w) :=
      Core.on_flush_renamed _
    simp only [flush_keys, hemit, Emitting.bind_out, Emitting.renamed_out, ih, List.flatMap_cons]

end

end NaiveKeyed

end PipeIo
