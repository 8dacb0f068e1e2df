import PipeIo.WindowKept
import PipeIo.WindowRun

namespace PipeIo
set_option autoImplicit true

open Lib

/-- The windows and the slots hold what has arrived, by position: each at least once, at most
`most` times, and in order. -/
structure Stocked (max_items most : Nat) (items : List T) (placed : List (Window (T × Nat)))
    (slots : List (Slot (T × Nat))) : Prop where
  windows : ∀ w ∈ placed, w.items ≠ [] ∧ w.items.length ≤ max_items ∧ w.items.Sublist items.zipIdx
  held : ∀ s ∈ slots, s.items.length < max_items ∧ s.items.Sublist items.zipIdx
  count : ∀ i < items.length,
    1 ≤ copies i (placed.map Window.items) + copies i (slots.map Slot.items) ∧
      copies i (placed.map Window.items) + copies i (slots.map Slot.items) ≤ most

section

variable {T : Type} {max_items most : Nat} {items : List T} {placed : List (Window (T × Nat))}
  {slots taken : List (Slot (T × Nat))}

theorem zipIdx_concat (items : List T) (item : T) :
    (items ++ [item]).zipIdx = items.zipIdx ++ [(item, items.length)] := by
  simp [List.zipIdx_append]

/-- Positions from the end on do not occur. -/
theorem fresh_position {l : List (T × Nat)} {i : Nat} (h : l.Sublist items.zipIdx)
    (hi : items.length ≤ i) : i ∉ l.map Prod.snd := by
  intro hmem
  obtain ⟨⟨item, j⟩, hj, rfl⟩ := List.mem_map.1 hmem
  have hget := List.mem_zipIdx_iff_getElem?.1 (h.subset hj)
  have hnone : items[j]? = none := List.getElem?_eq_none hi
  cases hnone.symm.trans hget

theorem copies_eq_zero {i : Nat} {lists : List (List (T × Nat))}
    (h : ∀ l ∈ lists, i ∉ l.map Prod.snd) : copies i lists = 0 := by
  rw [copies, List.countP_eq_zero]
  intro l hl
  simpa using h l hl

/-- Slots become windows. -/
theorem Stocked.close (h : Stocked max_items most items placed (taken ++ slots))
    (otherwise : Slot (T × Nat) → Nat) :
    Stocked max_items most items (placed ++ (Slot.live taken).map (Slot.window otherwise)) slots where
  windows w hw := by
    rcases List.mem_append.1 hw with hw | hw
    · exact h.windows w hw
    · obtain ⟨s, hs, rfl⟩ := List.mem_map.1 hw
      obtain ⟨hmem, hlive⟩ := List.mem_filter.1 hs
      obtain ⟨hlen, hsub⟩ := h.held s (List.mem_append_left _ hmem)
      refine ⟨?_, Nat.le_of_lt hlen, hsub⟩
      simpa [Slot.window] using hlive
  held s hs := h.held s (List.mem_append_right _ hs)
  count i hi := by
    have hcount := h.count i hi
    rw [List.map_append, copies_append] at hcount
    rw [List.map_append, copies_append, copies_live]
    omega

variable [Timeline] {anchor now size slide : Nat}

/-- An item goes into `n` windows. -/
theorem Stocked.fill (h : Stocked max_items most items placed slots) (hm : 0 < max_items) {n : Nat}
    (hn : 1 ≤ n ∧ n ≤ most) (item : T) (k : Nat) :
    Stocked max_items most (items ++ [item])
      (placed ++ (sliding_fill max_items size slide anchor now (item, items.length) Emitting.emit n k
        slots).out)
      (sliding_fill max_items size slide anchor now (item, items.length) Emitting.emit n k
        slots).val := by
  have hold : ∀ l : List (T × Nat), l.Sublist items.zipIdx → l.Sublist (items ++ [item]).zipIdx := by
    intro l hl
    rw [zipIdx_concat]
    exact hl.trans (List.sublist_append_left _ _)
  have hadded : ∀ l : List (T × Nat), l.Sublist items.zipIdx →
      (l ++ [(item, items.length)]).Sublist (items ++ [item]).zipIdx := by
    intro l hl
    rw [zipIdx_concat]
    exact hl.append (List.Sublist.refl _)
  have hnil : ([] : List (T × Nat)).length < max_items ∧ [].Sublist items.zipIdx :=
    ⟨hm, List.nil_sublist _⟩
  let P := fun l : List (T × Nat) => l.length < max_items ∧ l.Sublist items.zipIdx
  obtain ⟨hout, hval⟩ : _ ∧ _ :=
    fill_all (P := P) hnil (item, items.length) n k slots h.held
  refine ⟨fun w hw => ?_, fun s hs => ?_, fun i hi => ?_⟩
  · rcases List.mem_append.1 hw with hw | hw
    · obtain ⟨hne, hlen, hsub⟩ := h.windows w hw
      exact ⟨hne, hlen, hold _ hsub⟩
    · obtain ⟨l, ⟨hlen, hsub⟩, heq⟩ := hout w hw
      rw [heq]
      refine ⟨by simp, ?_, hadded l hsub⟩
      rw [List.length_append, List.length_singleton]
      exact hlen
  · rcases hval s hs with ⟨hlen, hsub⟩ | ⟨l, ⟨-, hsub⟩, heq⟩
    · exact ⟨hlen, hold _ hsub⟩
    · rw [heq]
      refine ⟨stored_length hm l _, ?_⟩
      rw [stored]
      split
      · exact List.nil_sublist _
      · exact hadded l hsub
  · have hslots : ∀ s ∈ slots, items.length ∉ s.items.map Prod.snd :=
      fun s hs => fresh_position (h.held s hs).2 (Nat.le_refl _)
    rw [List.map_append, copies_append, Nat.add_assoc,
      fill_copies (item, items.length) n k slots hslots]
    rw [List.length_append, List.length_singleton] at hi
    by_cases hlast : i = items.length
    · subst hlast
      have hplaced : copies items.length (placed.map Window.items) = 0 := by
        apply copies_eq_zero
        intro l hl
        obtain ⟨w, hw, rfl⟩ := List.mem_map.1 hl
        exact fresh_position (h.windows w hw).2.2 (Nat.le_refl _)
      have hheld : copies items.length (slots.map Slot.items) = 0 := by
        apply copies_eq_zero
        intro l hl
        obtain ⟨s, hs, rfl⟩ := List.mem_map.1 hl
        exact hslots s hs
      rw [hplaced, hheld, if_pos rfl]
      omega
    · have hcount := h.count i (by omega)
      rw [if_neg hlast]
      omega

end

namespace Core

/-- Nothing that has arrived is lost: it has been emitted, or the core holds it. -/
def Keeps (max_items : Nat) (arrived : List (T × Nat)) (out : List (Window T)) : Core T → Prop
  | .tumbling _ _ items | .session _ _ _ items =>
    Buffered max_items (arrived.map Prod.fst) out items
  | .sliding size slide slots => ∃ placed slots', out = placed.map (Window.map Prod.fst) ∧
    slots = slots'.map (Slot.map Prod.fst) ∧
    Stocked max_items (div_ceil size slide) (arrived.map Prod.fst) placed slots'

variable {T : Type} {max_items : Nat} {arrived : List (T × Nat)} {out : List (Window T)}
  {c : Core T} {policy : WindowPolicy}

theorem keeps_new (policy : WindowPolicy) (hm : 0 < max_items) :
    (Core.new policy : Core T).Keeps max_items [] [] := by
  have hbuffered : Buffered max_items ([] : List T) [] [] := by
    refine ⟨fun w hw => ?_, rfl, hm⟩
    cases hw
  cases policy with
  | tumbling size => exact hbuffered
  | session idle => exact hbuffered
  | sliding size slide =>
    refine ⟨[], [], rfl, rfl, fun w hw => ?_, fun s hs => ?_, fun i hi => ?_⟩
    · cases hw
    · cases hs
    · cases hi

variable [Timeline] {anchor now : Nat}

theorem Keeps.tumbling_push {size : Nat} {start : Option Nat} {items : List T}
    (h : Buffered max_items (arrived.map Prod.fst) out items) (item : T) :
    Keeps max_items (arrived ++ [(item, now)])
      (out ++ (Core.tumbling_push max_items now size start items item Emitting.emit).out)
      (Core.tumbling_push max_items now size start items item Emitting.emit).val := by
  have harrived : (arrived ++ [(item, now)]).map Prod.fst = arrived.map Prod.fst ++ [item] := by simp
  simp only [Core.tumbling_push]
  split
  · have hfull := h.full item (start.getD now) ((checked_add (start.getD now) size).getD now)
    rw [← harrived] at hfull
    exact hfull
  · rename_i hlen
    have hadd := h.add item hlen
    rw [← harrived] at hadd
    rw [Emitting.pure_out, List.append_nil]
    exact hadd

omit [Timeline] in
theorem Keeps.session_push {idle : Nat} {start : Option Nat} {items : List T}
    (h : Buffered max_items (arrived.map Prod.fst) out items) (item : T) :
    Keeps max_items (arrived ++ [(item, now)])
      (out ++ (Core.session_push max_items now idle start items item Emitting.emit).out)
      (Core.session_push max_items now idle start items item Emitting.emit).val := by
  have harrived : (arrived ++ [(item, now)]).map Prod.fst = arrived.map Prod.fst ++ [item] := by simp
  simp only [Core.session_push]
  split
  · have hfull := h.full item (start.getD now) now
    rw [← harrived] at hfull
    exact hfull
  · rename_i hlen
    have hadd := h.add item hlen
    rw [← harrived] at hadd
    rw [Emitting.pure_out, List.append_nil]
    exact hadd

theorem Keeps.on_item (h : c.Keeps max_items arrived out) (hf : c.Fits policy anchor)
    (hv : policy.Valid) (hm : 0 < max_items) (item : T) :
    Keeps max_items (arrived ++ [(item, now)])
      (out ++ (c.on_item max_items anchor now item Emitting.emit).out)
      (c.on_item max_items anchor now item Emitting.emit).val := by
  cases c with
  | tumbling size start items =>
    simp only [Core.on_item]
    generalize align anchor now size = aligned
    split
    · rename_i e _
      split
      · rename_i hempty
        rw [List.isEmpty_iff.1 hempty] at h
        exact Keeps.tumbling_push h item
      · rename_i hempty
        have hclose := Buffered.close h (by simpa using hempty) (start.getD aligned) e
        simp only [Emitting.bind_out, Emitting.bind_val, Emitting.emit_val, Emitting.emit_out,
          if_true]
        rw [← List.append_assoc]
        exact Keeps.tumbling_push hclose item
    · exact Keeps.tumbling_push h item
  | session idle start last items =>
    simp only [Core.on_item]
    split
    · rename_i prev
      split
      · split
        · rename_i hempty
          rw [List.isEmpty_iff.1 hempty] at h
          exact Keeps.session_push h item
        · rename_i hempty
          have hclose := Buffered.close h (by simpa using hempty) (start.getD prev) prev
          simp only [Emitting.bind_out, Emitting.bind_val, Emitting.emit_val, Emitting.emit_out,
            if_true]
          rw [← List.append_assoc]
          exact Keeps.session_push hclose item
      · exact Keeps.session_push h item
    · exact Keeps.session_push h item
  | sliding size slide slots =>
    obtain ⟨rfl, -⟩ := hf
    obtain ⟨placed, slots', rfl, rfl, hstock⟩ := h
    have hcount := sliding_range_count anchor now hv.1 hv.2.1
    obtain ⟨hval, hout⟩ := emit_slots_before_map Prod.fst (sliding_range anchor now size slide).1
      slots'
    have hclosed : Stocked max_items (div_ceil size slide) (arrived.map Prod.fst)
        (placed ++ (emit_slots_before (sliding_range anchor now size slide).1 Emitting.emit slots').out)
        (emit_slots_before (sliding_range anchor now size slide).1 Emitting.emit slots').val := by
      rw [emit_slots_before_out, emit_slots_before_val]
      apply Stocked.close
      rw [List.takeWhile_append_dropWhile]
      exact hstock
    generalize emit_slots_before (sliding_range anchor now size slide).1 Emitting.emit slots' = x
      at hval hout hclosed
    obtain ⟨hfval, hfout⟩ := sliding_fill_map Prod.fst max_items size slide anchor now
      (item, (arrived.map Prod.fst).length)
      ((sliding_range anchor now size slide).2 + 1 - (sliding_range anchor now size slide).1)
      (sliding_range anchor now size slide).1 x.val
    have hstep : ((Core.sliding size slide (slots'.map (Slot.map Prod.fst))).on_item max_items anchor
          now item Emitting.emit).val = .sliding size slide ((sliding_fill max_items size slide anchor
            now (item, (arrived.map Prod.fst).length) Emitting.emit
            ((sliding_range anchor now size slide).2 + 1 - (sliding_range anchor now size slide).1)
            (sliding_range anchor now size slide).1 x.val).val.map (Slot.map Prod.fst)) ∧
        ((Core.sliding size slide (slots'.map (Slot.map Prod.fst))).on_item max_items anchor now item
          Emitting.emit).out = (x.out ++ (sliding_fill max_items size slide anchor now
            (item, (arrived.map Prod.fst).length) Emitting.emit
            ((sliding_range anchor now size slide).2 + 1 - (sliding_range anchor now size slide).1)
            (sliding_range anchor now size slide).1 x.val).out).map (Window.map Prod.fst) := by
      simp only [Core.on_item, sliding_on_item, Emitting.map_val, Emitting.map_out,
        Emitting.bind_val, Emitting.bind_out, hval, hout, hfval, hfout, List.map_append, and_self]
    have harrived : (arrived ++ [(item, now)]).map Prod.fst = arrived.map Prod.fst ++ [item] := by
      simp
    rw [hstep.1, hstep.2, ← List.map_append, ← List.append_assoc]
    refine ⟨_, _, rfl, rfl, ?_⟩
    rw [harrived]
    exact hclosed.fill hm hcount item _

theorem Keeps.on_tick (h : c.Keeps max_items arrived out) :
    Keeps max_items arrived (out ++ (c.on_tick anchor now Emitting.emit).out)
      (c.on_tick anchor now Emitting.emit).val := by
  cases c with
  | tumbling size start items =>
    simp only [Core.on_tick]
    generalize align anchor now size = aligned
    split
    · rename_i s e _
      split
      · rw [Emitting.pure_out, List.append_nil]
        exact h
      · rename_i hempty
        simp only [Emitting.bind_out, Emitting.bind_val, Emitting.emit_out, Emitting.pure_out,
          Emitting.pure_val, List.append_nil]
        exact Buffered.close h (by simpa using hempty) s e
    · rw [Emitting.pure_out, List.append_nil]
      exact h
  | session idle start last items =>
    simp only [Core.on_tick]
    split
    · rename_i prev _
      split
      · rw [Emitting.pure_out, List.append_nil]
        exact h
      · rename_i hempty
        simp only [Emitting.bind_out, Emitting.bind_val, Emitting.emit_out, Emitting.pure_out,
          Emitting.pure_val, List.append_nil]
        exact Buffered.close h (by simpa using hempty) (start.getD prev) prev
    · rw [Emitting.pure_out, List.append_nil]
      exact h
  | sliding size slide slots =>
    obtain ⟨placed, slots', rfl, rfl, hstock⟩ := h
    obtain ⟨hval, hout⟩ := emit_slots_before_map Prod.fst (sliding_range anchor now size slide).1
      slots'
    simp only [Core.on_tick, Emitting.map_val, Emitting.map_out, hval, hout]
    rw [← List.map_append]
    refine ⟨_, _, rfl, rfl, ?_⟩
    rw [emit_slots_before_out, emit_slots_before_val]
    apply Stocked.close
    rw [List.takeWhile_append_dropWhile]
    exact hstock

/-- What a core holds is emitted by a flush, and nothing is left. -/
theorem Keeps.on_flush (h : c.Keeps max_items arrived out) (hf : c.Fits policy anchor) :
    Keeps max_items arrived (out ++ (c.on_flush now Emitting.emit).out) (Core.new policy) := by
  cases c with
  | tumbling size start items =>
    obtain ⟨rfl, -⟩ := hf
    simp only [Core.on_flush]
    split
    · rename_i hempty
      rw [Emitting.pure_out, List.append_nil]
      rw [List.isEmpty_iff.1 hempty] at h
      exact h
    · rename_i hempty
      simp only [Emitting.bind_out, Emitting.emit_out, Emitting.pure_out, List.append_nil]
      exact Buffered.close h (by simpa using hempty) _ _
  | session idle start last items =>
    obtain ⟨rfl, -⟩ := hf
    simp only [Core.on_flush]
    split
    · rename_i hempty
      rw [Emitting.pure_out, List.append_nil]
      rw [List.isEmpty_iff.1 hempty] at h
      exact h
    · rename_i hempty
      simp only [Emitting.bind_out, Emitting.emit_out, Emitting.pure_out, List.append_nil]
      exact Buffered.close h (by simpa using hempty) _ _
  | sliding size slide slots =>
    obtain ⟨rfl, -⟩ := hf
    obtain ⟨placed, slots', rfl, rfl, hstock⟩ := h
    simp only [Core.on_flush, Emitting.bind_out, Emitting.pure_out, List.append_nil,
      flush_slots_map]
    rw [← List.map_append]
    refine ⟨_, [], rfl, rfl, ?_⟩
    rw [flush_slots_out]
    apply Stocked.close
    rw [List.append_nil]
    exact hstock

end Core

/-- Nothing is lost, and nothing made up, between what arrives and what is emitted. -/
structure Conserved (policy : WindowPolicy) (max_items : Nat) (arrived : List (T × Nat))
    (out : List (Window T)) : Prop where
  windows : ∀ w ∈ out, w.items ≠ [] ∧ w.items.length ≤ max_items
  once : (∀ size slide, policy ≠ .sliding size slide) →
    out.flatMap Window.items = arrived.map Prod.fst
  overlapping : ∀ size slide, policy = .sliding size slide →
    Placed arrived out fun _ n => 1 ≤ n ∧ n ≤ div_ceil size slide

theorem Core.Keeps.conserved {arrived : List (T × Nat)} {out : List (Window T)}
    (h : (Core.new policy).Keeps max_items arrived out) : Conserved policy max_items arrived out := by
  cases policy with
  | tumbling size =>
    refine ⟨h.windows, fun _ => ?_, fun size slide hpolicy => ?_⟩
    · rw [← h.content, List.append_nil]
    · cases hpolicy
  | session idle =>
    refine ⟨h.windows, fun _ => ?_, fun size slide hpolicy => ?_⟩
    · rw [← h.content, List.append_nil]
    · cases hpolicy
  | sliding size slide =>
    obtain ⟨placed, slots, rfl, hslots, hstock⟩ := h
    obtain rfl := List.map_eq_nil_iff.1 hslots.symm
    refine ⟨fun w hw => ?_, fun hnot => absurd rfl (hnot size slide), fun size' slide' hpolicy => ?_⟩
    · obtain ⟨v, hv, rfl⟩ := List.mem_map.1 hw
      obtain ⟨hne, hlen, -⟩ := hstock.windows v hv
      refine ⟨fun hnil => hne (List.map_eq_nil_iff.1 hnil), ?_⟩
      rw [Window.map, List.length_map]
      exact hlen
    · cases hpolicy
      refine ⟨placed, rfl, fun w hw => (hstock.windows w hw).2.2, fun i a ha => ?_⟩
      have hlt : i < (arrived.map Prod.fst).length := by
        rw [List.length_map]
        exact (List.getElem?_eq_some_iff.1 ha).1
      have hcount := hstock.count i hlt
      rw [List.map_nil, copies_nil, Nat.add_zero, copies, List.countP_map] at hcount
      exact hcount

end PipeIo
