import PipeIo.KeyedExpire

namespace PipeIo
set_option autoImplicit true

open Lib

namespace KeyedWindowStage

variable [Timeline] {K T φ : Type} [DecidableEq K] {s s' t : KeyedWindowStage K T φ}
  {slot now anchor : Nat} {order order' : List Nat} {e : KeyState K T} {policy : WindowPolicy}

/-- The first thing `touch` does for a new key: at the key limit, it evicts another. -/
def make_room (s : KeyedWindowStage K T φ) (now : Nat) :
    Emitting (K × Window T) (KeyedWindowStage K T φ) :=
  if s.index.keys.length ≥ s.max_keys then s.evict_one now Emitting.emit else pure s

/-- At the limit the least recently active key is flushed and removed. -/
structure Room (anchor now : Nat) (s : KeyedWindowStage K T φ) (order : List Nat)
    (policy : WindowPolicy) (t : KeyedWindowStage K T φ) (order' : List Nat)
    (out : List (K × Window T)) : Prop where
  sound : Sound t order' policy anchor
  evicted : (order.length < s.max_keys ∧ t = s ∧ order' = order ∧ out = []) ∨
    (s.max_keys ≤ order.length ∧ ∃ victim e, order = victim :: order' ∧
      s.held victim = some e ∧ t.held = Function.update s.held victim none ∧
      out = (e.core.on_flush now Emitting.emit).out.map fun w => (e.key, w))
  heap : t.heap = s.heap
  slab : t.slab.length = s.slab.length
  undisturbed : Undisturbed s t

theorem Sound.vacate (h : Sound s order policy anchor) (hcoh : Coherent t order')
    (hheld : t.held = Function.update s.held slot none) : Sound t order' policy anchor where
  coherent := hcoh
  covered i e x he hx := by
    rw [hheld, Function.update_apply] at he
    split at he
    · cases he
    · exact h.covered i e x he hx
  fits i e he := by
    rw [hheld, Function.update_apply] at he
    split at he
    · cases he
    · exact h.fits i e he

theorem make_room_spec (now : Nat) (h : Sound s order policy anchor) (hmax : 0 < s.max_keys) :
    ∃ t order', (s.make_room now).val = t ∧
      Room anchor now s order policy t order' (s.make_room now).out := by
  rw [make_room, h.coherent.index_length]
  by_cases hfull : order.length ≥ s.max_keys
  · rw [if_pos hfull]
    cases horder : order with
    | nil =>
      rw [horder, List.length_nil] at hfull
      omega
    | cons victim rest =>
      subst horder
      obtain ⟨e, he⟩ := (h.coherent.occupied victim).1 List.mem_cons_self
      have hhead : s.lru_head = some victim := h.coherent.linked.head
      obtain ⟨f, t, hremove, rfl, hcoh, hheld, hheap, hslab, hund⟩ := remove_spec h.coherent he
      have hout : f.core.on_flush now (keyed_emit f.key Emitting.emit) =
          (f.core.on_flush now Emitting.emit).renamed fun w => (f.key, w) :=
        Core.on_flush_renamed _
      rw [List.erase_cons_head] at hcoh
      simp only [evict_one, hhead, hremove, hout]
      refine ⟨t, rest, rfl, h.vacate hcoh hheld, .inr ⟨hfull, victim, f.state, rfl, he, hheld, ?_⟩,
        hheap, hslab, hund⟩
      simp only [Emitting.bind_out, Emitting.renamed_out, Emitting.pure_out, List.append_nil]
      rfl
  · rw [if_neg hfull]
    exact ⟨s, order, rfl, h, .inl ⟨by omega, rfl, rfl, rfl⟩, rfl, rfl, .refl s⟩

/-- A key without a slot still has none. -/
theorem Room.lookup_none {out : List (K × Window T)} (h : Room anchor now s order policy t order' out)
    (hc : Coherent s order) {key : K} (hk : s.index.lookup key = none) :
    t.index.lookup key = none := by
  cases ht : t.index.lookup key with
  | none => rfl
  | some i =>
    obtain ⟨f, hf, hkey⟩ := (h.sound.coherent.indexed key i).1 ht
    rcases h.evicted with ⟨-, rfl, -, -⟩ | ⟨-, victim, g, -, -, hheld, -⟩
    · exact absurd hkey (hc.lookup_none hk hf)
    · rw [hheld, Function.update_apply] at hf
      split at hf
      · cases hf
      · exact absurd hkey (hc.lookup_none hk hf)

theorem touch_known (key : K) (h : s.index.lookup key = some slot) :
    s.touch key now Emitting.emit = pure (slot, s.refresh slot) := by
  simp only [touch, h, refresh]
  split <;> rfl

theorem touch_new (key : K) (h : s.index.lookup key = none) :
    s.touch key now Emitting.emit = (do
      let s ← s.make_room now
      pure (s.create key)) := by
  simp only [touch, h, make_room]
  split <;> rfl

/-- What `touch` does: the key has a slot afterwards, and is the most recently active one. -/
structure Touched (anchor now : Nat) (s : KeyedWindowStage K T φ) (order : List Nat)
    (policy : WindowPolicy) (key : K) (slot : Nat) (t : KeyedWindowStage K T φ)
    (order' : List Nat) (e : KeyState K T) (out : List (K × Window T)) : Prop where
  sound : Sound t (order' ++ [slot]) policy anchor
  held : t.held slot = some e
  owner : e.key = key
  cases : (s.held slot = some e ∧ t.held = s.held ∧ order' = order.erase slot ∧
      t.seq = s.seq ∧ out = []) ∨
    (s.index.lookup key = none ∧ t.seq = wrapping_succ s.seq ∧
      e.core = Core.new s.policy ∧ e.created = wrapping_succ s.seq ∧
      ∃ u, Room anchor now s order policy u order' out ∧ u.held slot = none ∧
        t.held = Function.update u.held slot (some e))
  room : order'.length < s.max_keys ∨ order'.length < order.length
  heap : t.heap = s.heap
  slab : t.slab.length ≤ max s.slab.length (order'.length + 1)
  config : t.config = s.config
  fallbacks : t.fallbacks = s.fallbacks

theorem touch_spec (now : Nat) (h : Sound s order policy anchor) (hmax : 0 < s.max_keys)
    (hpolicy : s.policy = policy) (key : K) :
    ∃ slot t order' e, (s.touch key now Emitting.emit).val = (slot, t) ∧
      Touched anchor now s order policy key slot t order' e
        (s.touch key now Emitting.emit).out := by
  cases hk : s.index.lookup key with
  | some slot =>
    obtain ⟨e, he, hkey⟩ := (h.coherent.indexed key slot).1 hk
    have hrel : Relinked s (s.refresh slot) := refresh_relinked
    obtain ⟨-, -, hheap, hconfig, hseq, -, hfall⟩ := hrel.same
    have hmem := (h.coherent.occupied slot).2 ⟨e, he⟩
    rw [touch_known key hk]
    refine ⟨slot, s.refresh slot, order.erase slot, e, rfl, ⟨refresh_spec h.coherent he, ?_, ?_⟩,
      by rw [hrel.held, he], hkey, .inl ⟨he, hrel.held, rfl, hseq, rfl⟩, .inr ?_, hheap, ?_,
      hconfig, hfall⟩
    · intro i f x hf hx
      rw [hrel.held] at hf
      exact h.covered i f x hf hx
    · intro i f hf
      rw [hrel.held] at hf
      exact h.fits i f hf
    · rw [List.length_erase_of_mem hmem]
      have := List.length_pos_of_mem hmem
      omega
    · rw [hrel.slab]
      exact Nat.le_max_left ..
  | none =>
    obtain ⟨u, order', hval, hroom⟩ := make_room_spec now h hmax
    have hnew := hroom.lookup_none h.coherent hk
    obtain ⟨slot, t, hcreate, hnone, hcoh, hheld, hheap, hslab, hconfig, hseq, hfall⟩ :=
      create_spec hroom.sound.coherent hnew
    have hself : t.held slot = some ⟨key, Core.new u.policy, wrapping_succ u.seq, 0, none⟩ := by
      rw [hheld, Function.update_self]
    have hupolicy : u.policy = s.policy := congrArg Prod.fst hroom.undisturbed.config
    have hsound : Sound t (order' ++ [slot]) policy anchor := by
      refine ⟨hcoh, fun i f x hf hx => ?_, fun i f hf => ?_⟩
      · rw [hheld, Function.update_apply] at hf
        split at hf
        · cases hf
          rw [show (Core.new u.policy : Core T).deadline = none by cases u.policy <;> rfl] at hx
          cases hx
        · exact hroom.sound.covered i f x hf hx
      · rw [hheld, Function.update_apply] at hf
        split at hf
        · cases hf
          rw [hupolicy, hpolicy]
          exact Core.fits_new policy
        · exact hroom.sound.fits i f hf
    rw [touch_new key hk]
    refine ⟨slot, t, order', ⟨key, Core.new u.policy, wrapping_succ u.seq, 0, none⟩, ?_, hsound,
      hself, rfl, .inr ⟨hk, ?_, ?_, ?_, u, ?_, hnone, hheld⟩, ?_, hheap.trans hroom.heap, ?_,
      hconfig.trans hroom.undisturbed.config, hfall.trans hroom.undisturbed.fallbacks⟩
    · rw [Emitting.bind_val, hval]
      exact hcreate
    · rw [hseq, hroom.undisturbed.seq]
    · rw [hupolicy]
    · rw [hroom.undisturbed.seq]
    · rw [Emitting.bind_out, Emitting.pure_out, List.append_nil]
      exact hroom
    · rcases hroom.evicted with ⟨hlt, -, rfl, -⟩ | ⟨-, victim, f, horder, -⟩
      · exact .inl hlt
      · rw [horder, List.length_cons]
        exact .inr (Nat.lt_succ_self _)
    · rw [hslab, hroom.slab]

/-- What `deliver` and the `schedule` after it do. -/
structure Delivered (anchor now : Nat) (item : T) (s : KeyedWindowStage K T φ)
    (order : List Nat) (policy : WindowPolicy) (slot : Nat) (e : KeyState K T)
    (s' : KeyedWindowStage K T φ) (out : List (K × Window T)) : Prop where
  sound : Sound s' order policy anchor
  held : ∃ e', s'.held = Function.update s.held slot (some e') ∧ e'.key = e.key ∧
    e'.created = e.created ∧
    e'.core = (e.core.on_item s.max_items anchor now item Emitting.emit).val
  out : out = (e.core.on_item s.max_items anchor now item Emitting.emit).out.map
    fun w => (e.key, w)
  heap : s'.heap.length ≤ max s.heap.length (order.length * 2 + 64)
  slab : s'.slab.length = s.slab.length
  undisturbed : Undisturbed s s'

omit [Timeline] [DecidableEq K] in
theorem held_recore (he : s.held slot = some e) (c : Core T) :
    (s.modify slot fun e => { e with core := c }).held =
      Function.update s.held slot (some { e with core := c }) :=
  held_modify (g := fun e => { e with core := c }) (fun _ => rfl) he

omit [Timeline] in
/-- Another core does not touch the bookkeeping. -/
theorem Coherent.recore (h : Coherent s order) (he : s.held slot = some e) (c : Core T) :
    Coherent (s.modify slot fun e => { e with core := c }) order := by
  have hheld := held_recore he c
  refine h.update he hheld rfl (links_modify fun _ => ⟨rfl, rfl⟩) rfl rfl (by simp [modify])
    h.sorted fun i g x hg hx => ?_
  rw [hheld, Function.update_apply] at hg
  split at hg
  · rename_i hi
    cases hg
    rw [hi]
    exact h.armed slot e x he hx
  · exact h.armed i g x hg hx

omit [DecidableEq K] in
theorem deliver_eq {f : KeyEntry K T} (hf : s.entry slot = some f) (item : T) :
    s.deliver slot anchor now item Emitting.emit =
      (f.core.on_item s.max_items anchor now item Emitting.emit).renamed (fun w => (f.key, w)) >>=
        fun c => pure (s.modify slot fun e => { e with core := c }) := by
  have hemit : f.core.on_item s.max_items anchor now item (keyed_emit f.key Emitting.emit) =
      (f.core.on_item s.max_items anchor now item Emitting.emit).renamed fun w => (f.key, w) :=
    Core.on_item_renamed _ _ _
  simp only [deliver, hf, hemit]

theorem deliver_spec (h : Sound s order policy anchor) (he : s.held slot = some e)
    (hv : policy.Valid) (ha : anchor ≤ Timeline.horizon) (hn : now ≤ Timeline.horizon) (item : T) :
    Delivered anchor now item s order policy slot e
      ((s.deliver slot anchor now item Emitting.emit).val.schedule slot now)
      (s.deliver slot anchor now item Emitting.emit).out := by
  obtain ⟨f, hf, rfl⟩ := entry_of_held he
  rw [deliver_eq hf]
  generalize hr : f.core.on_item s.max_items anchor now item Emitting.emit = r
  have hheld := held_recore he r.val
  have hcoh := h.coherent.recore he r.val
  have hfits : r.val.Fits policy anchor := by
    rw [← hr]
    exact Core.fits_on_item (h.fits _ _ he) hv ha hn item
  have hfresh : r.val.Fresh now := by
    rw [← hr]
    exact Core.fresh_on_item (h.fits _ _ he) hv ha hn item
  obtain ⟨e', hsched, hheld', hsound⟩ := h.reschedule hcoh hheld hfresh hfits
  have hund : Undisturbed s (s.modify slot fun e => { e with core := r.val }) := ⟨rfl, rfl, rfl⟩
  simp only [Emitting.bind_val, Emitting.bind_out, Emitting.renamed_val, Emitting.renamed_out,
    Emitting.pure_val, Emitting.pure_out, List.append_nil]
  refine ⟨hsound, ⟨e', hheld', hsched.same.1, hsched.same.2.2, ?_⟩, ?_, hsched.length, ?_,
    hund.trans hsched.undisturbed⟩
  · rw [hsched.same.2.1, show f.state.core = f.core from rfl, hr]
  · rw [show f.state.core = f.core from rfl, hr]
    rfl
  · rw [hsched.slab]
    simp [modify]

end KeyedWindowStage

end PipeIo
