import PipeIo.WindowDeadline

namespace PipeIo
set_option autoImplicit true

open Lib

section Slots

variable {T : Type} {slots : List (Slot T)}

theorem emit_slots_before_absorb {i j : Nat} (h : i ≤ j) :
    (do
      let slots ← emit_slots_before i Emitting.emit slots
      emit_slots_before j Emitting.emit slots) = emit_slots_before j Emitting.emit slots := by
  induction slots with
  | nil => rfl
  | cons s rest ih =>
    by_cases hi : s.k < i
    · have hj : s.k < j := Nat.lt_of_lt_of_le hi h
      rw [emit_slots_before, emit_slots_before, if_pos hi, if_pos hj]
      split
      · exact ih
      · rw [bind_assoc]
        apply Emitting.emit_congr
        exact ih
    · rw [emit_slots_before, if_neg hi, pure_bind]

/-- Windows that are emitted before a flush have an end of their own. -/
theorem flush_slots_absorb {i now : Nat} (hend : ∀ s ∈ slots, s.k < i → s.end ≠ none) :
    (do
      let slots ← emit_slots_before i Emitting.emit slots
      Core.flush_slots now Emitting.emit slots) = Core.flush_slots now Emitting.emit slots := by
  induction slots with
  | nil => rfl
  | cons s rest ih =>
    have ih := ih fun t ht => hend t (List.mem_cons_of_mem _ ht)
    by_cases hi : s.k < i
    · obtain ⟨e, he⟩ := Option.ne_none_iff_exists'.1 (hend s List.mem_cons_self hi)
      rw [emit_slots_before, Core.flush_slots, if_pos hi, he]
      split
      · exact ih
      · rw [bind_assoc]
        apply Emitting.emit_congr
        exact ih
    · rw [emit_slots_before, if_neg hi, pure_bind]

/-- Empty windows are dropped without a trace. -/
theorem emit_slots_before_blank {i : Nat} (hempty : ∀ s ∈ slots, s.items = []) :
    emit_slots_before i Emitting.emit slots = pure (slots.dropWhile fun s => s.k < i) := by
  induction slots with
  | nil => rfl
  | cons s rest ih =>
    by_cases hi : s.k < i
    · rw [emit_slots_before, if_pos hi, hempty s List.mem_cons_self,
        List.dropWhile_cons_of_pos (by simpa using hi)]
      exact ih fun t ht => hempty t (List.mem_cons_of_mem _ ht)
    · rw [emit_slots_before, if_neg hi, List.dropWhile_cons_of_neg (by simpa using hi)]

variable [Timeline] {anchor now size slide max_items : Nat} {item : T}

/-- An empty window is as good as a new one. -/
theorem sliding_fill_blank (ha : anchor ≤ Timeline.horizon) (hn : now ≤ Timeline.horizon)
    (n k : Nat) (hg : Core.Gridded anchor size slide slots) (hempty : ∀ s ∈ slots, s.items = [])
    (hle : ∀ s ∈ slots, k ≤ s.k) (hlt : ∀ s ∈ slots, s.k < k + n)
    (hrep : ∀ j < k + n, j * slide ≤ now - anchor) :
    sliding_fill max_items size slide anchor now item Emitting.emit n k slots =
      sliding_fill max_items size slide anchor now item Emitting.emit n k [] := by
  induction n generalizing k slots with
  | zero =>
    cases slots with
    | nil => rfl
    | cons s rest =>
      have h1 := hle s List.mem_cons_self
      have h2 := hlt s List.mem_cons_self
      omega
  | succ n ih =>
    cases slots with
    | nil => rfl
    | cons s rest =>
      have hsk := hle s List.mem_cons_self
      have hnot : ¬s.k < k := Nat.not_lt_of_le hsk
      obtain ⟨hfirst, hsorted⟩ := List.pairwise_cons.1 hg.sorted
      simp only [sliding_fill, List.takeWhile_nil, List.dropWhile_nil,
        List.takeWhile_cons_of_neg (p := fun s : Slot T => decide (s.k < k)) (by simpa using hnot),
        List.dropWhile_cons_of_neg (p := fun s : Slot T => decide (s.k < k)) (by simpa using hnot)]
      by_cases hk : s.k = k
      · -- The first window is the one looked for.
        have hnew : s = Slot.new size slide anchor now k := by
          have hstart := hg.start s List.mem_cons_self
          have hend := hg.stop s List.mem_cons_self
          have hitems := hempty s List.mem_cons_self
          have hoff : offset anchor k slide now = anchor + k * slide :=
            offset_eq ha hn (hrep k (by omega)) now
          obtain ⟨sk, sstart, send, sitems⟩ := s
          simp only at hk hstart hend hitems
          subst hk hitems
          rw [Slot.new, hoff, hend, hstart]
        have hrest := ih (k + 1) (hg.sub (List.sublist_cons_self s rest))
          (fun t ht => hempty t (List.mem_cons_of_mem _ ht)) (fun t ht => by
            have := hfirst t ht
            omega)
          (fun t ht => by
            have := hlt t (List.mem_cons_of_mem _ ht)
            omega)
          (fun j hj => hrep j (by omega))
        simp only [hk, ne_eq, not_true_eq_false, if_false, hrest, ← hnew]
      · have hrest := ih (k + 1) hg hempty (fun t ht => by
            cases ht with
            | head => omega
            | tail _ ht =>
              have := hfirst t ht
              omega)
          (fun t ht => by
            have := hlt t ht
            omega)
          (fun j hj => hrep j (by omega))
        simp only [hk, ne_eq, not_false_eq_true, if_true, hrest]

end Slots

section Time

variable [Timeline] {anchor now size slide t : Nat}

/-- The tumbling window of an instant that a window contains is that window. -/
theorem align_unique (ha : anchor ≤ Timeline.horizon) (hn : now ≤ Timeline.horizon)
    (hs : 0 < size) (hle : anchor ≤ now) {q : Nat} (hq : anchor + q * size ≤ now)
    (hlt : now < anchor + q * size + size) : align anchor now size = anchor + q * size := by
  rw [align_eq ha hn hs]
  have hdiv : (now - anchor) / size = q := by
    rw [Nat.div_eq_iff hs]
    omega
  rw [hdiv]

/-- While a tumbling window lasts, it is the one that contains the current instant. -/
theorem align_lasts (ha : anchor ≤ Timeline.horizon) (hn : now ≤ Timeline.horizon) (hs : 0 < size)
    (hle : t ≤ now) (hlt : now < align anchor t size + size) :
    align anchor now size = align anchor t size := by
  rw [align_eq ha (Nat.le_trans hle hn) hs] at hlt ⊢
  rw [align_eq ha hn hs]
  have hdown := Nat.div_mul_le_self (t - anchor) size
  have hdiv : (now - anchor) / size = (t - anchor) / size := by
    rw [Nat.div_eq_iff hs]
    omega
  rw [hdiv]

omit [Timeline] in
theorem k_min_mono (hs : 0 < slide) (hle : t ≤ now) :
    (sliding_range anchor t size slide).1 ≤ (sliding_range anchor now size slide).1 := by
  rw [k_min_le hs]
  have hlt : now - anchor < (sliding_range anchor now size slide).1 * slide + size :=
    (k_min_le hs).1 (Nat.le_refl _)
  omega

end Time

namespace Core

variable [Timeline] {T : Type} {policy : WindowPolicy} {anchor now t max_items : Nat} {c : Core T}

theorem on_tick_tumbling {size s : Nat} {items : List T} (hrep : s + size ≤ Timeline.horizon)
    (hle : s + size ≤ t) : (Core.tumbling size (some s) items).on_tick anchor t Emitting.emit =
      ⟨.tumbling size (some (align anchor t size)) [],
        if items.isEmpty then [] else [⟨items, s, s + size⟩]⟩ := by
  simp only [on_tick, Option.bind_some, checked_add_some hrep, Option.map_some,
    Option.filter_some, ge_iff_le, hle, decide_true, if_true]
  split
  · rename_i hempty
    rw [List.isEmpty_iff.1 hempty]
    rfl
  · rfl

theorem tumbling_fresh_some {size s : Nat} {items : List T} :
    (Core.tumbling size (some s) items).Fresh t ↔
      (s + size ≤ Timeline.horizon → t < s + size) := by
  rw [tumbling_fresh]
  constructor
  · intro h
    exact h s rfl
  · rintro h _ ⟨⟩
    exact h

omit [Timeline] in
theorem on_tick_session {idle l : Nat} {start : Option Nat} {items : List T} [Timeline]
    (hlt : idle < t - l) : (Core.session idle start (some l) items).on_tick anchor t Emitting.emit =
      ⟨.session idle none none [],
        if items.isEmpty then [] else [⟨items, start.getD l, l⟩]⟩ := by
  simp only [on_tick, Option.filter_some, saturating_duration_since, gt_iff_lt, hlt, decide_true,
    if_true]
  split
  · rename_i hempty
    rw [List.isEmpty_iff.1 hempty]
    rfl
  · rfl

theorem on_tick_within {idle l : Nat} {start : Option Nat} {items : List T}
    (hle : ¬idle < t - l) :
    (Core.session idle start (some l) items).on_tick anchor t Emitting.emit =
      pure (.session idle start (some l) items) := by
  simp only [on_tick, Option.filter_some, saturating_duration_since, gt_iff_lt, hle, decide_false,
    Bool.false_eq_true, if_false]

/-- What a core looks like in which something has expired. -/
theorem stale_cases (hn : t ≤ Timeline.horizon) (h : ¬c.Fresh t) :
    (∃ size s items, c = .tumbling size (some s) items ∧ s + size ≤ Timeline.horizon ∧
      s + size ≤ t) ∨
    (∃ idle start l items, c = .session idle start (some l) items ∧ idle < t - l) ∨
    ∃ size slide slots, c = .sliding size slide slots := by
  cases c with
  | tumbling size start items =>
    cases start with
    | none =>
      apply absurd _ h
      rw [tumbling_fresh]
      intro s hs
      cases hs
    | some s =>
      obtain ⟨hrep, hend⟩ := Classical.not_imp.1 (mt tumbling_fresh_some.2 h)
      exact .inl ⟨size, s, items, rfl, hrep, Nat.le_of_not_lt hend⟩
  | session idle start last items =>
    cases last with
    | none =>
      apply absurd _ h
      rw [session_fresh hn]
      intro l hl
      cases hl
    | some l =>
      refine .inr (.inl ⟨idle, start, l, items, rfl, ?_⟩)
      by_contra hlt
      apply h
      rw [session_fresh hn]
      rintro _ ⟨⟩
      omega
  | sliding size slide slots => exact .inr (.inr ⟨size, slide, slots, rfl⟩)

/-- A tick before a tick makes no difference. -/
theorem on_tick_absorb (hf : c.Fits policy anchor) (hv : policy.Valid)
    (ha : anchor ≤ Timeline.horizon) (hn : now ≤ Timeline.horizon) (hle : t ≤ now) :
    (c.on_tick anchor t Emitting.emit >>= on_tick anchor now Emitting.emit) =
      c.on_tick anchor now Emitting.emit := by
  have ht := Nat.le_trans hle hn
  by_cases hfresh : c.Fresh t
  · rw [on_tick_fresh hf hv ht hfresh, pure_bind]
  · rcases stale_cases ht hfresh with ⟨size, s, items, rfl, hrep, hend⟩ |
      ⟨idle, start, l, items, rfl, hlt⟩ | ⟨size, slide, slots, rfl⟩
    · obtain ⟨rfl, -, -⟩ := hf
      rw [on_tick_tumbling hrep hend, on_tick_tumbling hrep (Nat.le_trans hend hle)]
      by_cases hrep' : align anchor t size + size ≤ Timeline.horizon ∧
          align anchor t size + size ≤ now
      · -- The window of the first tick ends before the second.
        simp only [bind, on_tick_tumbling hrep'.1 hrep'.2, List.isEmpty_nil, if_true,
          List.append_nil]
      · have hlast : align anchor now size = align anchor t size :=
          align_lasts ha hn hv hle (by omega)
        have hsame : (Core.tumbling size (some (align anchor t size)) ([] : List T)).on_tick anchor
            now Emitting.emit = pure (.tumbling size (some (align anchor t size)) []) := by
          have hfits : (Core.tumbling size (some (align anchor t size)) ([] : List T)).Fits
              (.tumbling size) anchor :=
            ⟨rfl, fun _ => rfl, by rintro _ ⟨⟩; exact ⟨_, align_eq ha ht hv⟩⟩
          apply on_tick_fresh hfits hv hn
          rw [tumbling_fresh_some]
          omega
        simp only [bind, hsame, hlast, Emitting.pure_val, Emitting.pure_out, List.append_nil]
    · rw [on_tick_session hlt, on_tick_session (show idle < now - l by omega)]
      simp only [bind, on_tick, Option.filter_none, Emitting.pure_val, Emitting.pure_out,
        List.append_nil]
    · obtain ⟨rfl, hg⟩ := hf
      have hmono : (sliding_range anchor t size slide).1 ≤ (sliding_range anchor now size slide).1 :=
        k_min_mono hv.1 hle
      simp only [on_tick, map_eq_pure_bind, bind_assoc, pure_bind]
      conv_rhs => rw [← emit_slots_before_absorb hmono]
      rw [bind_assoc]

theorem on_item_open {size s : Nat} {items : List T} (item : T)
    (h : s + size ≤ Timeline.horizon → now < s + size) :
    (Core.tumbling size (some s) items).on_item max_items anchor now item Emitting.emit =
      tumbling_push max_items now size (some s) items item Emitting.emit := by
  have hopen : (checked_add s size).filter (fun e => now ≥ e) = none := by
    rw [Option.filter_eq_none_iff]
    intro e he
    obtain ⟨hrep, rfl⟩ := checked_add_eq_some.1 he
    simpa using h hrep
  rw [on_item, Option.getD_some, hopen]

theorem on_item_first {size : Nat} {items : List T} (item : T) (ha : anchor ≤ Timeline.horizon)
    (hn : now ≤ Timeline.horizon) (hs : 0 < size) :
    (Core.tumbling size none items).on_item max_items anchor now item Emitting.emit =
      tumbling_push max_items now size (some (align anchor now size)) items item Emitting.emit := by
  have hlt := lt_align_add ha hn hs
  rw [on_item, Option.getD_none]
  generalize align anchor now size = a at hlt
  have hopen : (checked_add a size).filter (fun e => now ≥ e) = none := by
    rw [Option.filter_eq_none_iff]
    intro e he
    obtain ⟨-, rfl⟩ := checked_add_eq_some.1 he
    simpa using hlt
  rw [hopen]

theorem on_item_closed {size s : Nat} {items : List T} (item : T)
    (hrep : s + size ≤ Timeline.horizon) (hle : s + size ≤ now) :
    (Core.tumbling size (some s) items).on_item max_items anchor now item Emitting.emit =
      ⟨(tumbling_push max_items now size (some (align anchor now size)) [] item Emitting.emit).val,
        (if items.isEmpty then [] else [⟨items, s, s + size⟩]) ++ (tumbling_push max_items now size
          (some (align anchor now size)) [] item Emitting.emit).out⟩ := by
  have hclosed : (checked_add s size).filter (fun e => now ≥ e) = some (s + size) := by
    rw [checked_add_some hrep, Option.filter_some, if_pos (by simpa using hle)]
  rw [on_item, Option.getD_some, hclosed]
  generalize align anchor now size = a
  by_cases hempty : items.isEmpty
  · simp only [hempty, if_true, List.nil_append]
  · simp only [hempty, Bool.false_eq_true, if_false]
    rfl

theorem on_item_over {idle l : Nat} {start : Option Nat} {items : List T} (item : T)
    (hlt : idle < now - l) :
    (Core.session idle start (some l) items).on_item max_items anchor now item Emitting.emit =
      ⟨(session_push max_items now idle (some now) [] item Emitting.emit).val,
        (if items.isEmpty then [] else [⟨items, start.getD l, l⟩]) ++
          (session_push max_items now idle (some now) [] item Emitting.emit).out⟩ := by
  simp only [on_item, saturating_duration_since, gt_iff_lt, hlt, if_true]
  split
  · rfl
  · rfl

theorem on_item_within {idle l : Nat} {start : Option Nat} {items : List T} (item : T)
    (hle : ¬idle < now - l) :
    (Core.session idle start (some l) items).on_item max_items anchor now item Emitting.emit =
      session_push max_items now idle start items item Emitting.emit := by
  simp only [on_item, saturating_duration_since, gt_iff_lt, hle, if_false]

/-- An item closes what has expired itself. -/
theorem on_item_absorb (hf : c.Fits policy anchor) (hv : policy.Valid)
    (ha : anchor ≤ Timeline.horizon) (hn : now ≤ Timeline.horizon) (item : T) :
    (c.on_tick anchor now Emitting.emit >>= on_item max_items anchor now item Emitting.emit) =
      c.on_item max_items anchor now item Emitting.emit := by
  by_cases hfresh : c.Fresh now
  · rw [on_tick_fresh hf hv hn hfresh, pure_bind]
  · rcases stale_cases hn hfresh with ⟨size, s, items, rfl, hrep, hend⟩ |
      ⟨idle, start, l, items, rfl, hlt⟩ | ⟨size, slide, slots, rfl⟩
    · obtain ⟨rfl, -, -⟩ := hf
      rw [on_tick_tumbling hrep hend, on_item_closed item hrep hend, Emitting.mk_bind,
        on_item_open item fun _ => lt_align_add ha hn hv]
    · rw [on_tick_session hlt, on_item_over item hlt, Emitting.mk_bind]
      rfl
    · have hsame : (sliding_range anchor now size slide).1 ≤ (sliding_range anchor now size slide).1 :=
        Nat.le_refl _
      simp only [on_tick, on_item, sliding_on_item, map_eq_pure_bind, bind_assoc, pure_bind]
      conv_rhs => rw [← emit_slots_before_absorb hsame]
      rw [bind_assoc]

theorem on_flush_tumbling {size s : Nat} {items : List T} (hrep : s + size ≤ Timeline.horizon) :
    (Core.tumbling size (some s) items).on_flush now Emitting.emit =
      ⟨.tumbling size none [], if items.isEmpty then [] else [⟨items, s, s + size⟩]⟩ := by
  simp only [on_flush, Option.getD_some, checked_add_some hrep]
  split
  · rename_i hempty
    rw [List.isEmpty_iff.1 hempty]
    rfl
  · rfl

/-- A flush closes what has expired itself. -/
theorem on_flush_absorb (hf : c.Fits policy anchor) (hv : policy.Valid)
    (hn : t ≤ Timeline.horizon) :
    (c.on_tick anchor t Emitting.emit >>= on_flush now Emitting.emit) =
      c.on_flush now Emitting.emit := by
  by_cases hfresh : c.Fresh t
  · rw [on_tick_fresh hf hv hn hfresh, pure_bind]
  · rcases stale_cases hn hfresh with ⟨size, s, items, rfl, hrep, hend⟩ |
      ⟨idle, start, l, items, rfl, hlt⟩ | ⟨size, slide, slots, rfl⟩
    · rw [on_tick_tumbling hrep hend, on_flush_tumbling hrep, Emitting.mk_bind, on_flush,
        if_pos List.isEmpty_nil, Emitting.pure_val, Emitting.pure_out, List.append_nil]
    · rw [on_tick_session hlt]
      simp only [on_flush, bind, Option.getD_some, List.isEmpty_nil, if_true]
      split
      · rename_i hempty
        rw [List.isEmpty_iff.1 hempty]
        rfl
      · rfl
    · obtain ⟨rfl, hg⟩ := hf
      have hends : ∀ s ∈ slots, s.k < (sliding_range anchor t size slide).1 → s.end ≠ none := by
        intro s hs hk
        have hended := mt (k_min_le hv.1).2 (Nat.not_le_of_lt hk)
        have hz := Nat.lt_of_lt_of_le hv.1 hv.2.1
        rw [hg.stop s hs, hg.start s hs, checked_add_some (by omega)]
        exact Option.some_ne_none _
      simp only [on_tick, on_flush, map_eq_pure_bind, bind_assoc, pure_bind]
      conv_rhs => rw [← flush_slots_absorb hends]
      rw [bind_assoc]

end Core

end PipeIo
