import PipeIo.WindowAbsorb

namespace PipeIo
set_option autoImplicit true

open Lib

namespace Core

/-- Nothing is left in the core that a new one would not have. -/
def Blank : Core T → Prop
  | .tumbling _ _ items => items = []
  | .sliding _ _ slots => ∀ s ∈ slots, s.items = []
  | .session _ start last items => start = none ∧ last = none ∧ items = []

/-- The windows of the core have begun by `t`. -/
def Begun (anchor t : Nat) : Core T → Prop
  | .tumbling _ start _ => ∀ s, start = some s → s ≤ t
  | .sliding _ slide slots => ∀ s ∈ slots, s.k * slide ≤ t - anchor
  | .session _ _ _ _ => True

theorem blank_new (policy : WindowPolicy) : (Core.new policy : Core T).Blank := by
  cases policy with
  | tumbling size => rfl
  | sliding size slide => exact nofun
  | session idle => exact ⟨rfl, rfl, rfl⟩

theorem begun_new (policy : WindowPolicy) (anchor t : Nat) :
    (Core.new policy : Core T).Begun anchor t := by
  cases policy with
  | tumbling size => exact nofun
  | sliding size slide => exact nofun
  | session idle => trivial

variable [Timeline] {T : Type} {policy : WindowPolicy} {anchor now t max_items : Nat} {c : Core T}

omit [Timeline] in
theorem Begun.mono (h : c.Begun anchor t) (hle : t ≤ now) : c.Begun anchor now := by
  cases c with
  | tumbling size start items =>
    intro s hs
    exact Nat.le_trans (h s hs) hle
  | sliding size slide slots =>
    intro s hs
    have := h s hs
    omega
  | session idle start last items => trivial

theorem align_le (ha : anchor ≤ now) (hn : now ≤ Timeline.horizon) {size : Nat} (hs : 0 < size) :
    align anchor now size ≤ now := by
  rw [align_eq (Nat.le_trans ha hn) hn hs]
  have := Nat.div_mul_le_self (now - anchor) size
  omega

theorem begun_on_tick (h : c.Begun anchor t) (hle : t ≤ now) (ha : anchor ≤ now)
    (hn : now ≤ Timeline.horizon) (hf : c.Fits policy anchor) (hv : policy.Valid) :
    (c.on_tick anchor now Emitting.emit).val.Begun anchor now := by
  by_cases hfresh : c.Fresh now
  · rw [on_tick_fresh hf hv hn hfresh]
    exact h.mono hle
  · rcases stale_cases hn hfresh with ⟨size, s, items, rfl, hrep, hend⟩ |
      ⟨idle, start, l, items, rfl, hlt⟩ | ⟨size, slide, slots, rfl⟩
    · obtain ⟨rfl, -, -⟩ := hf
      rw [on_tick_tumbling hrep hend]
      rintro _ ⟨⟩
      exact align_le ha hn hv
    · rw [on_tick_session hlt]
      trivial
    · simp only [on_tick, Emitting.map_val, emit_slots_before_val]
      intro s hs
      exact h.mono hle s ((slots.dropWhile_sublist _).subset hs)

theorem begun_on_item (h : c.Begun anchor t) (hle : t ≤ now) (ha : anchor ≤ now)
    (hn : now ≤ Timeline.horizon) (hf : c.Fits policy anchor) (hv : policy.Valid) (item : T) :
    (c.on_item max_items anchor now item Emitting.emit).val.Begun anchor now := by
  cases c with
  | tumbling size start items =>
    obtain ⟨rfl, -, -⟩ := hf
    obtain ⟨s, kept, hval, hs⟩ := on_item_tumbling_val max_items anchor now size start items item
    rw [hval]
    rintro _ ⟨⟩
    have hal := align_le ha hn hv
    rcases hs with ⟨-, rfl⟩ | ⟨-, rfl, -⟩
    · exact hal
    · cases start with
      | none =>
        rw [Option.getD_none]
        exact hal
      | some s => exact h.mono hle s rfl
  | session idle start last items =>
    obtain ⟨start', kept, hval, -⟩ := on_item_session_val max_items anchor now idle start last items
      item
    rw [hval]
    trivial
  | sliding size slide slots =>
    obtain ⟨rfl, hg⟩ := hf
    obtain ⟨f, hfill, hval, -⟩ := on_item_filled max_items hg hv.1 hv.2.1 (Nat.le_trans ha hn) hn item
    have hrange : (sliding_range anchor now size slide).1 ≤ (sliding_range anchor now size slide).2 :=
      k_min_le_k_max hv.1 hv.2.1
    rw [hval]
    intro s hs
    rcases hfill.numbers s hs with ⟨u, hu, hus⟩ | ⟨-, hk⟩
    · rw [← hus]
      exact h.mono hle u ((slots.dropWhile_sublist _).subset hu)
    · have hmax : s.k ≤ (sliding_range anchor now size slide).2 := by omega
      exact (le_k_max hv.1).1 hmax

/-- A tick does nothing to a blank core that could be seen. -/
theorem Blank.on_tick (h : c.Blank) : (c.on_tick anchor t Emitting.emit).out = [] ∧
    (c.on_tick anchor t Emitting.emit).val.Blank := by
  cases c with
  | tumbling size start items =>
    obtain rfl : items = [] := h
    simp only [Core.on_tick]
    split <;> exact ⟨rfl, rfl⟩
  | session idle start last items =>
    obtain ⟨rfl, rfl, rfl⟩ := h
    exact ⟨rfl, rfl, rfl, rfl⟩
  | sliding size slide slots =>
    simp only [Core.on_tick, emit_slots_before_blank h, map_pure]
    exact ⟨rfl, fun s hs => h s ((slots.dropWhile_sublist _).subset hs)⟩

theorem Blank.on_flush (h : c.Blank) : (c.on_flush now Emitting.emit).out = [] := by
  cases c with
  | tumbling size start items =>
    obtain rfl : items = [] := h
    rfl
  | session idle start last items =>
    obtain ⟨rfl, rfl, rfl⟩ := h
    rfl
  | sliding size slide slots =>
    have hlive : Slot.live slots = [] := by
      rw [Slot.live, List.filter_eq_nil_iff]
      intro s hs
      simp [h s hs]
    simp only [Core.on_flush, Emitting.bind_out, flush_slots_out, hlive, List.map_nil,
      Emitting.pure_out, List.append_nil]

omit [Timeline] in
theorem blank_of_empty (h : c.is_empty) (hsession : ∀ idle start last items,
    c = .session idle start last items → start = none ∧ last = none) : c.Blank := by
  cases c with
  | tumbling size start items => exact List.isEmpty_iff.1 h
  | session idle start last items =>
    obtain ⟨hstart, hlast⟩ := hsession idle start last items rfl
    exact ⟨hstart, hlast, List.isEmpty_iff.1 h⟩
  | sliding size slide slots =>
    intro s hs
    exact List.isEmpty_iff.1 (List.all_eq_true.1 h s hs)

/-- A core that a tick leaves empty is blank, but for a session that has not expired. -/
theorem blank_on_tick (hf : c.Fits policy anchor) (hv : policy.Valid)
    (ha : anchor ≤ Timeline.horizon) (hn : t ≤ Timeline.horizon)
    (hempty : (c.on_tick anchor t Emitting.emit).val.is_empty)
    (hsession : ∀ idle, policy = .session idle → ¬c.Fresh t) :
    (c.on_tick anchor t Emitting.emit).val.Blank := by
  apply blank_of_empty hempty
  intro idle start last items hval
  have hf' := fits_on_tick hf hv ha hn
  rw [hval] at hf'
  obtain ⟨rfl, -⟩ := hf'
  rcases stale_cases hn (hsession idle rfl) with ⟨size, s, items', rfl, -⟩ |
    ⟨idle', start', l, items', rfl, hlt⟩ | ⟨size, slide, slots, rfl⟩
  · cases hf.1
  · rw [on_tick_session hlt] at hval
    cases hval
    exact ⟨rfl, rfl⟩
  · cases hf.1

/-- A blank core does with an item what a new one does. -/
theorem Blank.on_item (h : c.Blank) (hf : c.Fits policy anchor) (hv : policy.Valid)
    (hb : c.Begun anchor t) (hle : t ≤ now) (ha : anchor ≤ now) (hn : now ≤ Timeline.horizon)
    (item : T) : c.on_item max_items anchor now item Emitting.emit =
      (Core.new policy).on_item max_items anchor now item Emitting.emit := by
  have ha' := Nat.le_trans ha hn
  cases c with
  | tumbling size start items =>
    obtain rfl : items = [] := h
    obtain ⟨rfl, -, hgrid⟩ := hf
    cases start with
    | none => rfl
    | some s =>
      obtain ⟨q, rfl⟩ := hgrid s rfl
      have hbegun : anchor + q * size ≤ now := Nat.le_trans (hb _ rfl) hle
      by_cases hlast : now < anchor + q * size + size
      · -- It is the window that contains the item.
        rw [on_item_open item fun _ => hlast, Core.new, on_item_first item ha' hn hv,
          align_unique ha' hn hv ha hbegun hlast]
      · rw [on_item_closed item (by omega) (by omega), Core.new, on_item_first item ha' hn hv,
          if_pos List.isEmpty_nil, List.nil_append]
  | session idle start last items =>
    obtain ⟨rfl, rfl, rfl⟩ := h
    obtain ⟨rfl, -⟩ := hf
    rfl
  | sliding size slide slots =>
    obtain ⟨rfl, hg⟩ := hf
    have hsub := slots.dropWhile_sublist fun s => s.k < (sliding_range anchor now size slide).1
    have hrange : (sliding_range anchor now size slide).1 ≤ (sliding_range anchor now size slide).2 :=
      k_min_le_k_max hv.1 hv.2.1
    simp only [Core.on_item, sliding_on_item, Core.new, emit_slots_before_blank h, pure_bind,
      emit_slots_before]
    rw [sliding_fill_blank ha' hn _ _ (hg.sub hsub)
      (fun s hs => h s (hsub.subset hs)) (fun s hs => le_dropWhile hg.sorted hs)]
    · intro s hs
      have hk : s.k ≤ (sliding_range anchor now size slide).2 :=
        (le_k_max hv.1).2 (hb.mono hle s (hsub.subset hs))
      omega
    · intro j hj
      have hk : j ≤ (sliding_range anchor now size slide).2 := by omega
      exact (le_k_max hv.1).1 hk

end Core

end PipeIo
