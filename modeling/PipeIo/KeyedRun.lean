import PipeIo.KeyedEvents

namespace PipeIo
set_option autoImplicit true

open Lib

namespace KeyedWindowStage

section

variable [Timeline] {K T φ : Type} [DecidableEq K]

/-- One event, with a downstream that takes every window. -/
def step (s : KeyedWindowStage K T φ) (key_fn : T → φ → K × φ) :
    WindowEvent T → Emitting (K × Window T) (Option (KeyedWindowStage K T φ))
  | (.item item, now) => s.process key_fn item now Emitting.emit
  | (.tick, now) => s.tick now Emitting.emit
  | (.flush, now) => some <$> s.flush now Emitting.emit

/-- The state after some events. -/
def after (s : KeyedWindowStage K T φ) (key_fn : T → φ → K × φ) :
    List (WindowEvent T) → Option (KeyedWindowStage K T φ)
  | [] => some s
  | event :: events => (s.step key_fn event).val.bind fun s => s.after key_fn events

/-- What each of some events emits. -/
def trace (s : KeyedWindowStage K T φ) (key_fn : T → φ → K × φ) :
    List (WindowEvent T) → List (List (K × Window T))
  | [] => []
  | event :: events => (s.step key_fn event).out ::
    ((s.step key_fn event).val.map fun s => s.trace key_fn events).getD []

end

variable [Timeline] {K T φ : Type} [DecidableEq K] {s s' t : KeyedWindowStage K T φ}
  {slot now anchor : Nat} {order order' : List Nat} {e : KeyState K T} {policy : WindowPolicy}

/-- What `process` does. -/
structure Processed (key_fn : T → φ → K × φ) (item : T) (now : Nat) (s : KeyedWindowStage K T φ)
    (order : List Nat) (anchor : Nat) (s' : KeyedWindowStage K T φ)
    (t u : KeyedWindowStage K T φ) (order' : List Nat) (slot : Nat) (e : KeyState K T)
    (expired evicted delivered : List (K × Window T)) : Prop where
  expire : Expired anchor now { s with anchor := some anchor } order s.policy t expired
  touch : Touched anchor now { t with key_state := (key_fn item t.key_state).2 }
    (order.filter fun i => (t.held i).isSome) s.policy (key_fn item s.key_state).1 slot u order' e
    evicted
  deliver : Delivered anchor now item u (order' ++ [slot]) s.policy slot e s' delivered

/-- The anchor and the state of the key function are not part of the windows. -/
theorem Sound.configured (h : Sound s order policy anchor) (a : Option Nat) (key_state : φ) :
    Sound { s with anchor := a, key_state := key_state } order policy anchor where
  coherent := ⟨h.coherent.linked, h.coherent.occupied, h.coherent.indexed, h.coherent.free_nodup,
    h.coherent.vacant, h.coherent.sorted, h.coherent.armed⟩
  covered := h.covered
  fits := h.fits

theorem process_expired (key_fn : T → φ → K × φ) (item : T)
    (h : Sound s order s.policy (s.anchor.getD (grid_origin s.policy now)))
    (ha : s.anchor.getD (grid_origin s.policy now) ≤ Timeline.horizon) (hmax : 0 < s.max_keys)
    (hv : s.policy.Valid) (hn : now ≤ Timeline.horizon) :
    ∃ s' t u order' slot e expired evicted delivered,
      (s.process key_fn item now Emitting.emit).val = some s' ∧
      (s.process key_fn item now Emitting.emit).out = expired ++ (evicted ++ delivered) ∧
      ({ s with anchor := some (s.anchor.getD (grid_origin s.policy now)) }.expire
        (s.anchor.getD (grid_origin s.policy now)) now Emitting.emit).val = some t ∧
      ({ t with key_state := (key_fn item t.key_state).2 }.touch (key_fn item s.key_state).1 now
        Emitting.emit).val = (slot, u) ∧
      Processed key_fn item now s order (s.anchor.getD (grid_origin s.policy now)) s' t u order'
        slot e expired evicted delivered := by
  generalize hanchor : s.anchor.getD (grid_origin s.policy now) = anchor at h ha
  have h0 : Sound { s with anchor := some anchor } order s.policy anchor :=
    h.configured (some anchor) s.key_state
  obtain ⟨t, hval, hexp⟩ := expire_spec h0 hv ha hn
  have hconfig : (t.policy, t.max_items, t.max_keys, t.key_state, t.anchor) =
      (s.policy, s.max_items, s.max_keys, s.key_state, some anchor) := hexp.undisturbed.config
  simp only [Prod.mk.injEq] at hconfig
  obtain ⟨hpolicy, -, hmaxkeys, hstate, -⟩ := hconfig
  have h1 : Sound { t with key_state := (key_fn item t.key_state).2 }
      (order.filter fun i => (t.held i).isSome) s.policy anchor :=
    hexp.sound.configured t.anchor _
  obtain ⟨slot, u, order', e, htouch, htouched⟩ :=
    touch_spec now h1 (by rw [hmaxkeys]; exact hmax) hpolicy (key_fn item t.key_state).1
  have hdel := deliver_spec htouched.sound htouched.held hv ha hn item
  refine ⟨_, t, u, order', slot, e, _, _, _, ?_, ?_, hval, by rw [← hstate]; exact htouch, hexp,
    by rw [← hstate]; exact htouched, hdel⟩
  · simp only [process, hanchor, Emitting.bind_val, hval, htouch]
    rfl
  · simp only [process, hanchor, Emitting.bind_out, hval, htouch, Emitting.pure_out,
      List.append_nil]

/-- What `process` does, whatever `expire` left. -/
theorem process_spec (key_fn : T → φ → K × φ) (item : T)
    (h : Sound s order s.policy (s.anchor.getD (grid_origin s.policy now)))
    (ha : s.anchor.getD (grid_origin s.policy now) ≤ Timeline.horizon) (hmax : 0 < s.max_keys)
    (hv : s.policy.Valid) (hn : now ≤ Timeline.horizon) :
    ∃ s' t u order' slot e expired evicted delivered,
      (s.process key_fn item now Emitting.emit).val = some s' ∧
      (s.process key_fn item now Emitting.emit).out = expired ++ (evicted ++ delivered) ∧
      Processed key_fn item now s order (s.anchor.getD (grid_origin s.policy now)) s' t u order'
        slot e expired evicted delivered := by
  obtain ⟨s', t, u, order', slot, e, _, _, _, hval, hout, -, -, hproc⟩ :=
    process_expired key_fn item h ha hmax hv hn
  exact ⟨s', t, u, order', slot, e, _, _, _, hval, hout, hproc⟩

theorem tick_spec (h : Sound s order s.policy anchor) (hs : s.anchor = some anchor)
    (ha : anchor ≤ Timeline.horizon) (hv : s.policy.Valid) (hn : now ≤ Timeline.horizon) :
    ∃ s', (s.tick now Emitting.emit).val = some s' ∧
      Expired anchor now s order s.policy s' (s.tick now Emitting.emit).out := by
  simp only [tick, hs]
  exact expire_spec h hv ha hn

omit [DecidableEq K] in
theorem flush_entries_out (entries : List (KeyEntry K T)) :
    (flush_entries now Emitting.emit entries).out = entries.flatMap fun f =>
      (f.core.on_flush now Emitting.emit).out.map fun w => (f.key, w) := by
  induction entries with
  | nil => rfl
  | cons f rest ih =>
    have hemit : f.core.on_flush now (keyed_emit f.key Emitting.emit) =
        (f.core.on_flush now Emitting.emit).renamed fun w => (f.key, w) :=
      Core.on_flush_renamed _
    simp only [flush_entries, hemit, Emitting.bind_out, Emitting.renamed_out, ih,
      List.flatMap_cons]

omit [Timeline] [DecidableEq K] in
theorem mem_entries {f : KeyEntry K T} : f ∈ s.slab.filterMap id ↔ ∃ i, s.entry i = some f := by
  rw [List.mem_filterMap]
  simp only [id, exists_eq_right, List.mem_iff_getElem?, entry, Option.join_eq_some_iff]

/-- Nothing is kept after `flush`. -/
theorem flush_coherent : Coherent (s.flush now Emitting.emit).val [] := by
  have hentry : ∀ i, (s.flush now Emitting.emit).val.held i = none := by
    intro i
    simp [flush, held, entry]
  refine ⟨⟨List.nodup_nil, rfl, rfl⟩, fun i => ?_, fun k i => ?_, List.nodup_nil, fun i => ?_, .nil,
    fun i f x hf => ?_⟩
  · simp [hentry]
  · simp only [hentry]
    simp [flush]
  · simp [flush]
  · rw [hentry] at hf
    cases hf

/-- What holds between two events. -/
structure Running (s : KeyedWindowStage K T φ) (order : List Nat) : Prop where
  sound : Sound s order s.policy (s.anchor.getD 0)
  unused : s.anchor = none → order = []
  anchor : s.anchor.getD 0 ≤ Timeline.horizon
  valid : s.policy.Valid
  max_keys : 0 < s.max_keys
  keys : order.length ≤ s.max_keys
  slab : s.slab.length ≤ s.max_keys
  heap : s.heap.length ≤ s.max_keys * 2 + 64
  fallbacks : s.fallbacks = 0

theorem Running.held_none (h : Running s order) (hs : s.anchor = none) (i : Nat) :
    s.held i = none := by
  cases he : s.held i with
  | none => rfl
  | some e =>
    have hmem := (h.sound.coherent.occupied i).2 ⟨e, he⟩
    rw [h.unused hs] at hmem
    cases hmem

/-- The anchor an item finds. -/
theorem Running.origin (h : Running s order) (hn : now ≤ Timeline.horizon) :
    Sound s order s.policy (s.anchor.getD (grid_origin s.policy now)) ∧
      s.anchor.getD (grid_origin s.policy now) ≤ Timeline.horizon := by
  cases hs : s.anchor with
  | some anchor =>
    have hsound := h.sound
    have ha := h.anchor
    rw [hs] at hsound ha
    exact ⟨hsound, ha⟩
  | none =>
    refine ⟨⟨h.sound.coherent, h.sound.covered, fun i e he => ?_⟩,
      (grid_origin_le s.policy now).trans hn⟩
    rw [h.held_none hs i] at he
    cases he

section Cores

variable {P Q : Core T → Prop} {item : T} {key_fn : T → φ → K × φ}

/-- What `expire` does to the cores. -/
theorem Expired.cores {out : List (K × Window T)} (h : Expired anchor now s order policy t out)
    (hs : Sound s order policy anchor) (hP : ∀ i e, s.held i = some e → P e.core)
    (htick : ∀ c, c.Fits policy anchor → P c → Q (c.on_tick anchor now Emitting.emit).val) :
    ∀ i e, t.held i = some e → Q e.core := by
  intro i f hf
  cases he : s.held i with
  | none =>
    rw [h.vacant i he] at hf
    cases hf
  | some e =>
    rw [((h.settled i e he).kept f hf).2.2.1]
    exact htick e.core (hs.fits i e he) (hP i e he)

/-- What `process` does to the cores after `expire`. -/
theorem Processed.cores {u : KeyedWindowStage K T φ} {expired evicted delivered}
    (h : Processed key_fn item now s order anchor s' t u order' slot e expired evicted delivered)
    (hP : ∀ i e, t.held i = some e → P e.core) (hnew : P (Core.new s.policy))
    (hQ : ∀ c, P c → Q c)
    (hitem : ∀ c, c.Fits s.policy anchor → P c →
      Q (c.on_item u.max_items anchor now item Emitting.emit).val) :
    ∀ i f, s'.held i = some f → Q f.core := by
  have hu : ∀ i f, u.held i = some f → P f.core := by
    intro i f hf
    rcases h.touch.cases with ⟨-, hheld, -⟩ | ⟨-, -, hcore, -, v, hroom, -, hheld⟩
    · rw [hheld] at hf
      exact hP i f hf
    · rw [hheld, Function.update_apply] at hf
      split at hf
      · cases hf
        rw [hcore]
        rw [show KeyedWindowStage.policy _ = s.policy from
          congrArg Prod.fst h.expire.undisturbed.config]
        exact hnew
      · rcases hroom.evicted with ⟨-, rfl, -⟩ | ⟨-, victim, g, -, -, hheld, -⟩
        · exact hP i f hf
        · rw [hheld, Function.update_apply] at hf
          split at hf
          · cases hf
          · exact hP i f hf
  intro i f hf
  obtain ⟨e', hheld, -, -, hcore⟩ := h.deliver.held
  rw [hheld, Function.update_apply] at hf
  split at hf
  · cases hf
    rw [hcore]
    exact hitem e.core (h.touch.sound.fits _ _ h.touch.held) (hu _ _ h.touch.held)
  · exact hQ _ (hu i f hf)

end Cores

/-- The configuration after `process`. -/
theorem Processed.config {key_fn : T → φ → K × φ} {item : T} {u : KeyedWindowStage K T φ}
    {expired evicted delivered}
    (h : Processed key_fn item now s order anchor s' t u order' slot e expired evicted delivered) :
    s'.config = (s.policy, s.max_items, s.max_keys, (key_fn item t.key_state).2, some anchor) ∧
      u.config = s'.config ∧ t.key_state = s.key_state ∧ t.max_keys = s.max_keys := by
  have h1 := h.deliver.undisturbed.config
  have h2 := h.touch.config
  have h3 := h.expire.undisturbed.config
  simp only [KeyedWindowStage.config, Prod.mk.injEq] at h1 h2 h3 ⊢
  obtain ⟨h11, h12, h13, h14, h15⟩ := h1
  obtain ⟨h21, h22, h23, h24, h25⟩ := h2
  obtain ⟨h31, h32, h33, h34, h35⟩ := h3
  simp only [h11, h12, h13, h14, h15, h21, h22, h23, h24, h25, h31, h32, h33, h34, h35, and_self]

/-- `process` keeps what holds between events. -/
theorem Processed.running {key_fn : T → φ → K × φ} {item : T} {u : KeyedWindowStage K T φ}
    {expired evicted delivered}
    (h : Processed key_fn item now s order anchor s' t u order' slot e expired evicted delivered)
    (hs : Running s order) (ha : anchor ≤ Timeline.horizon) :
    Running s' (order' ++ [slot]) := by
  obtain ⟨hconfig, -, -, hmax⟩ := h.config
  simp only [KeyedWindowStage.config, Prod.mk.injEq] at hconfig
  obtain ⟨hpolicy, -, hmaxkeys, -, hanchor⟩ := hconfig
  have hfilter := List.length_filter_le (fun i => (t.held i).isSome) order
  have hkeys := hs.keys
  have hlen : order'.length < s.max_keys := by
    rcases h.touch.room with hroom | hroom
    · rw [show KeyedWindowStage.max_keys _ = s.max_keys from hmax] at hroom
      exact hroom
    · omega
  refine ⟨?_, ?_, ?_, ?_, ?_, ?_, ?_, ?_, ?_⟩
  · rw [hpolicy, hanchor]
    exact h.deliver.sound
  · rw [hanchor]
    exact nofun
  · rw [hanchor]
    exact ha
  · rw [hpolicy]
    exact hs.valid
  · rw [hmaxkeys]
    exact hs.max_keys
  · rw [hmaxkeys, List.length_append, List.length_singleton]
    exact hlen
  · rw [hmaxkeys, h.deliver.slab]
    have h1 := h.touch.slab
    have h2 := h.expire.slab
    have h3 := hs.slab
    simp only at h1 h2
    omega
  · have h1 := h.deliver.heap
    have h2 := h.touch.heap
    have h3 := h.expire.length
    have h4 := hs.heap
    simp only at h2 h3
    rw [h2, List.length_append, List.length_singleton] at h1
    rw [hmaxkeys]
    omega
  · rw [h.deliver.undisturbed.fallbacks, h.touch.fallbacks]
    exact h.expire.undisturbed.fallbacks.trans hs.fallbacks

theorem Expired.running {out : List (K × Window T)}
    (h : Expired anchor now s order s.policy s' out) (hs : Running s order)
    (hanchor : s.anchor = some anchor) :
    Running s' (order.filter fun i => (s'.held i).isSome) ∧ s'.config = s.config := by
  have hconfig := h.undisturbed.config
  refine ⟨?_, hconfig⟩
  simp only [KeyedWindowStage.config, Prod.mk.injEq] at hconfig
  obtain ⟨hpolicy, -, hmaxkeys, -, hsame⟩ := hconfig
  rw [hanchor] at hsame
  have hfilter := List.length_filter_le (fun i => (s'.held i).isSome) order
  have hkeys := hs.keys
  have ha := hs.anchor
  rw [hanchor] at ha
  refine ⟨?_, ?_, ?_, ?_, ?_, ?_, ?_, ?_, ?_⟩
  · rw [hpolicy, hsame]
    exact h.sound
  · rw [hsame]
    exact nofun
  · rw [hsame]
    exact ha
  · rw [hpolicy]
    exact hs.valid
  · rw [hmaxkeys]
    exact hs.max_keys
  · rw [hmaxkeys]
    omega
  · rw [hmaxkeys, h.slab]
    exact hs.slab
  · have h1 := h.length
    have h2 := hs.heap
    rw [hmaxkeys]
    omega
  · rw [h.undisturbed.fallbacks]
    exact hs.fallbacks

theorem flush_running (hs : Running s order) :
    Running (s.flush now Emitting.emit).val [] where
  sound := ⟨flush_coherent, fun i f x hf => by simp [flush, held, entry] at hf,
    fun i f hf => by simp [flush, held, entry] at hf⟩
  unused _ := rfl
  anchor := hs.anchor
  valid := hs.valid
  max_keys := hs.max_keys
  keys := Nat.zero_le _
  slab := Nat.zero_le _
  heap := Nat.zero_le _
  fallbacks := hs.fallbacks

theorem new_running {spec : WindowSpec} (hspec : spec.check = .ok ()) (key_state : φ) :
    Running (new spec key_state : KeyedWindowStage K T φ) [] := by
  have hheld : ∀ i, (new spec key_state : KeyedWindowStage K T φ).held i = none := by
    intro i
    simp [new, held, entry]
  refine ⟨⟨⟨⟨List.nodup_nil, rfl, rfl⟩, fun i => ?_, fun k i => ?_, List.nodup_nil, fun i => ?_, .nil,
    fun i f x hf => ?_⟩, fun i f x hf => ?_, fun i f hf => ?_⟩, fun _ => rfl, Nat.zero_le _,
    (WindowSpec.check_ok.1 hspec).1, ?_, Nat.zero_le _, Nat.zero_le _, Nat.zero_le _, rfl⟩
  · simp [hheld]
  · simp only [hheld]
    simp [new]
  · simp [new]
  · rw [hheld] at hf
    cases hf
  · rw [hheld] at hf
    cases hf
  · rw [hheld] at hf
    cases hf
  · exact Nat.lt_of_lt_of_le Nat.one_pos (Nat.le_max_right ..)

/-- What one event does to the stage, if nothing is assumed about the clock. -/
theorem Running.step (h : Running s order) (key_fn : T → φ → K × φ) (event : WindowEvent T) :
    ∃ s' order', (s.step key_fn event).val = some s' ∧ Running s' order' ∧
      (s'.policy, s'.max_items, s'.max_keys) = (s.policy, s.max_items, s.max_keys) := by
  obtain ⟨call, now, hn⟩ := event
  cases call with
  | item item =>
    obtain ⟨hsound, ha⟩ := h.origin hn
    obtain ⟨s', t, u, order', slot, e, _, _, _, hval, -, hproc⟩ :=
      process_spec key_fn item hsound ha h.max_keys h.valid hn
    refine ⟨s', _, hval, hproc.running h ha, ?_⟩
    have hconfig := hproc.config.1
    simp only [KeyedWindowStage.config, Prod.mk.injEq] at hconfig ⊢
    exact ⟨hconfig.1, hconfig.2.1, hconfig.2.2.1⟩
  | tick =>
    cases hanchor : s.anchor with
    | none => exact ⟨s, order, by simp [KeyedWindowStage.step, KeyedWindowStage.tick, hanchor], h, rfl⟩
    | some anchor =>
      have hsound := h.sound
      have ha := h.anchor
      rw [hanchor] at hsound ha
      obtain ⟨s', hval, hexp⟩ := tick_spec hsound hanchor ha h.valid hn
      obtain ⟨hrun, hconfig⟩ := hexp.running h hanchor
      refine ⟨s', _, hval, hrun, ?_⟩
      simp only [KeyedWindowStage.config, Prod.mk.injEq] at hconfig ⊢
      exact ⟨hconfig.1, hconfig.2.1, hconfig.2.2.1⟩
  | flush => exact ⟨_, [], rfl, flush_running h, rfl⟩

/-- The stage gets through every run. -/
theorem Running.after (h : Running s order) (key_fn : T → φ → K × φ)
    (events : List (WindowEvent T)) : ∃ s' order', s.after key_fn events = some s' ∧
      Running s' order' ∧
      (s'.policy, s'.max_items, s'.max_keys) = (s.policy, s.max_items, s.max_keys) := by
  induction events generalizing s order with
  | nil => exact ⟨s, order, rfl, h, rfl⟩
  | cons event events ih =>
    obtain ⟨t, order', hval, hrun, hconfig⟩ := h.step key_fn event
    obtain ⟨s', order'', hafter, hrun', hconfig'⟩ := ih hrun
    refine ⟨s', order'', ?_, hrun', hconfig'.trans hconfig⟩
    simp only [KeyedWindowStage.after, hval, Option.bind_some, hafter]

/-- What a run keeps whose clock does not go back. -/
theorem Running.after_forward {I : Nat → KeyedWindowStage K T φ → Prop} (key_fn : T → φ → K × φ)
    (hstep : ∀ s order last event s', Running s order → I last s → last ≤ event.2.1 →
      (s.step key_fn event).val = some s' → I event.2.1 s')
    (h : Running s order) {last : Nat} (hI : I last s) (events : List (WindowEvent T))
    (hmono : NonDecreasing events) (hlast : ∀ event ∈ events, last ≤ event.2.1) :
    ∃ s' order' last', s.after key_fn events = some s' ∧ Running s' order' ∧ I last' s' ∧
      (∀ event ∈ events, event.2.1 ≤ last') ∧ last ≤ last' ∧
      (s'.policy, s'.max_items, s'.max_keys) = (s.policy, s.max_items, s.max_keys) := by
  induction events generalizing s order last with
  | nil => exact ⟨s, order, last, rfl, h, hI, nofun, Nat.le_refl _, rfl⟩
  | cons event events ih =>
    obtain ⟨hle, hmono⟩ := List.pairwise_cons.1 hmono
    have hlast0 := hlast event List.mem_cons_self
    obtain ⟨t, order', hval, hrun, hconfig⟩ := h.step key_fn event
    obtain ⟨s', order'', last', hafter, hrun', hI', hmax, hmin, hconfig'⟩ :=
      ih hrun (hstep s order last event t h hI hlast0 hval) hmono hle
    refine ⟨s', order'', last', ?_, hrun', hI', ?_, hlast0.trans hmin, hconfig'.trans hconfig⟩
    · simp only [KeyedWindowStage.after, hval, Option.bind_some, hafter]
    · intro f hf
      cases hf with
      | head => exact hmin
      | tail _ hf => exact hmax f hf

end KeyedWindowStage

end PipeIo
