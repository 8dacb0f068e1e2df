import Mathlib.Data.List.Perm.Subperm
import PipeIo.WindowDeadline

namespace PipeIo
set_option autoImplicit true

open Lib

/-- What a core holds whose last event was at `now`: fewer than `max_items` items in a window, and
only windows that contained one and the same instant. -/
def Core.Bounded (max_items anchor now : Nat) : Core T → Prop
  | .tumbling _ _ items | .session _ _ _ items => items.length < max_items
  | .sliding size slide slots => (∀ s ∈ slots, s.items.length < max_items) ∧
    ∃ e ≤ now - anchor, ∀ s ∈ slots, s.k * slide ≤ e ∧ e < s.k * slide + size

/-- At most `n` items are buffered in an open window, and only as many windows are open as may
overlap. -/
def Core.Within (n : Nat) : Core T → Prop
  | .tumbling _ _ items | .session _ _ _ items => items.length ≤ n
  | .sliding size slide slots => slots.length ≤ div_ceil size slide ∧ ∀ s ∈ slots, s.items.length ≤ n

theorem lt_div_ceil {size slide n : Nat} (hs : 0 < slide) (h : n * slide < size) :
    n < div_ceil size slide := by
  have hdiv := Nat.div_add_mod size slide
  rw [div_ceil]
  by_contra hle
  have hmul : (size / slide + if size % slide = 0 then 0 else 1) * slide ≤ n * slide :=
    Nat.mul_le_mul_right slide (by omega)
  have hmod := Nat.mod_lt size hs
  rw [Nat.add_mul, Nat.mul_comm] at hmul
  split at hmul
  · omega
  · omega

/-- Sorted windows that contain one instant are no more than may overlap. -/
theorem length_le_div_ceil {slots : List (Slot T)} {size slide e : Nat} (hs : 0 < slide)
    (hsorted : slots.Pairwise fun a b => a.k < b.k)
    (h : ∀ s ∈ slots, s.k * slide ≤ e ∧ e < s.k * slide + size) :
    slots.length ≤ div_ceil size slide := by
  cases slots with
  | nil => exact Nat.zero_le _
  | cons a rest =>
    have hnodup : ((a :: rest).map Slot.k).Nodup :=
      List.pairwise_map.2 (hsorted.imp fun hlt => Nat.ne_of_lt hlt)
    have hsub : (a :: rest).map Slot.k ⊆ List.range' a.k (div_ceil size slide) := by
      intro k hk
      obtain ⟨s, hmem, rfl⟩ := List.mem_map.1 hk
      have hle : a.k ≤ s.k := by
        cases hmem with
        | head => exact Nat.le_refl _
        | tail _ hmem => exact Nat.le_of_lt ((List.pairwise_cons.1 hsorted).1 s hmem)
      have hlt : (s.k - a.k) * slide < size := by
        have ha := (h a List.mem_cons_self).2
        have hs := (h s hmem).1
        have hmul := Nat.mul_le_mul_right slide hle
        rw [Nat.sub_mul]
        omega
      have := lt_div_ceil hs hlt
      rw [List.mem_range'_1]
      omega
    simpa using (List.subperm_of_subset hnodup hsub).length_le

theorem stored_length {max_items : Nat} (h : 0 < max_items) (items : List T) (item : T) :
    (stored max_items items item).length < max_items := by
  rw [stored]
  split
  · exact h
  · omega

/-- A window holds what one of the slots holds. -/
theorem Slot.contents_length {slots : List (Slot T)} {n : Nat}
    (hsorted : slots.Pairwise fun a b => a.k < b.k) (hn : 0 < n)
    (h : ∀ s ∈ slots, s.items.length < n) (k : Nat) : (Slot.contents slots k).length < n := by
  by_cases hk : ∃ s ∈ slots, s.k = k
  · obtain ⟨s, hs, rfl⟩ := hk
    rw [Slot.contents_mem hsorted hs]
    exact h s hs
  · rw [Slot.contents_absent fun s hs heq => hk ⟨s, hs, heq⟩]
    exact hn

section

variable [Timeline] {T : Type} {c : Core T} {policy : WindowPolicy}
  {anchor now last max_items : Nat}

theorem Core.Bounded.within (h : c.Bounded max_items anchor now) (hf : c.Fits policy anchor)
    (hv : policy.Valid) : c.Within (max_items - 1) := by
  cases c with
  | tumbling size start items => exact Nat.le_sub_one_of_lt h
  | session idle start last items => exact Nat.le_sub_one_of_lt h
  | sliding size slide slots =>
    obtain ⟨rfl, hg⟩ := hf
    obtain ⟨hitems, e, -, he⟩ := h
    exact ⟨length_le_div_ceil hv.1 hg.sorted he, fun s hs => Nat.le_sub_one_of_lt (hitems s hs)⟩

omit [Timeline] in
theorem Core.bounded_new (policy : WindowPolicy) (h : 0 < max_items) :
    (Core.new policy : Core T).Bounded max_items anchor now := by
  cases policy with
  | sliding size slide => exact ⟨nofun, 0, Nat.zero_le _, nofun⟩
  | tumbling size => exact h
  | session idle => exact h

theorem Core.bounded_on_tick (h : c.Bounded max_items anchor last) (hle : last ≤ now)
    (hm : 0 < max_items) : (c.on_tick anchor now Emitting.emit).val.Bounded max_items anchor now := by
  cases c with
  | tumbling size start items =>
    simp only [Core.on_tick]
    split
    · split
      · exact h
      · exact hm
    · exact h
  | session idle start last items =>
    simp only [Core.on_tick]
    split
    · split
      · exact h
      · exact hm
    · exact h
  | sliding size slide slots =>
    obtain ⟨hitems, e, hele, he⟩ := h
    simp only [Core.on_tick, Emitting.map_val, emit_slots_before_val]
    have hsub := (slots.dropWhile_sublist fun s =>
      s.k < (sliding_range anchor now size slide).1).subset
    exact ⟨fun s hs => hitems s (hsub hs), e, by omega, fun s hs => he s (hsub hs)⟩

theorem Core.bounded_on_item (h : c.Bounded max_items anchor last) (hle : last ≤ now)
    (hf : c.Fits policy anchor) (hv : policy.Valid) (ha : anchor ≤ Timeline.horizon)
    (hn : now ≤ Timeline.horizon) (hm : 0 < max_items) (item : T) :
    (c.on_item max_items anchor now item Emitting.emit).val.Bounded max_items anchor now := by
  cases c with
  | tumbling size start items =>
    obtain ⟨s, kept, hval, -⟩ := Core.on_item_tumbling_val max_items anchor now size start items
      item
    rw [hval]
    exact stored_length hm kept item
  | session idle start last items =>
    obtain ⟨_, kept, hval, -⟩ := Core.on_item_session_val max_items anchor now idle start last
      items item
    rw [hval]
    exact stored_length hm kept item
  | sliding size slide slots =>
    obtain ⟨rfl, hg⟩ := hf
    obtain ⟨hs, hslide, -⟩ := hv
    obtain ⟨hitems, e, hele, he⟩ := h
    obtain ⟨f, hfill, hval, -⟩ := Core.on_item_filled max_items hg hs hslide ha hn item
    have hsub := (slots.dropWhile_sublist fun s =>
      s.k < (sliding_range anchor now size slide).1).subset
    have hrange : (sliding_range anchor now size slide).1 ≤ (sliding_range anchor now size slide).2 :=
      k_min_le_k_max hs hslide
    rw [hval]
    refine ⟨fun s hmem => ?_, now - anchor, Nat.le_refl _, fun s hmem => ?_⟩
    · have hcontents := hfill.contents s.k
      rw [Slot.contents_mem hfill.gridded.sorted hmem] at hcontents
      rw [hcontents]
      split
      · exact stored_length hm _ item
      · exact Slot.contents_length (hg.sub (slots.dropWhile_sublist _)).sorted hm
          (fun t ht => hitems t (hsub ht)) s.k
    · have hmin : (sliding_range anchor now size slide).1 ≤ s.k := by
        rcases hfill.numbers s hmem with ⟨t, ht, hts⟩ | hk
        · rw [← hts]
          exact le_dropWhile hg.sorted ht
        · exact hk.1
      refine ⟨?_, (k_min_le hs).1 hmin⟩
      rcases hfill.numbers s hmem with ⟨t, ht, hts⟩ | hk
      · have hmax := (he t (hsub ht)).1
        rw [← hts]
        omega
      · have hmax : s.k ≤ (sliding_range anchor now size slide).2 := by omega
        exact (le_k_max hs).1 hmax

end

end PipeIo
