import PipeIo.Sliding

namespace PipeIo
set_option autoImplicit true

open Lib

/-- Nothing in the core has expired at `now`. -/
def Core.Fresh [Timeline] (now : Nat) (c : Core T) : Prop := ∀ d, c.deadline = some d → now < d

section Ticks

variable [Timeline] {T : Type} {policy : WindowPolicy} {anchor now max_items : Nat} {c : Core T}

theorem Core.fits_new (policy : WindowPolicy) : (Core.new policy : Core T).Fits policy anchor := by
  cases policy with
  | tumbling size => exact ⟨rfl, fun _ => rfl, nofun⟩
  | sliding size slide => exact ⟨rfl, .nil⟩
  | session idle => exact ⟨rfl, fun _ => ⟨rfl, rfl⟩⟩

/-- The first slot of a sliding window decides what has expired. -/
theorem Core.Gridded.fresh_iff {size slide : Nat} {slots : List (Slot T)}
    (hg : Gridded anchor size slide slots) (hs : 0 < slide) (hz : 0 < size)
    (hn : now ≤ Timeline.horizon) :
    (Core.sliding size slide slots).Fresh now ↔
      ∀ s ∈ slots, (sliding_range anchor now size slide).1 ≤ s.k := by
  have hend : ∀ s ∈ slots, (∀ d, s.end = some d → now < d) ↔
      (sliding_range anchor now size slide).1 ≤ s.k := by
    intro s hmem
    rw [k_min_le hs, hg.stop s hmem, hg.start s hmem]
    constructor
    · intro h
      by_cases hle : anchor + s.k * slide + size ≤ Timeline.horizon
      · have := h _ (checked_add_some hle)
        omega
      · omega
    · intro h d hd
      obtain ⟨-, rfl⟩ := checked_add_eq_some.1 hd
      omega
  cases slots with
  | nil => simp [Core.Fresh, Core.deadline]
  | cons a rest =>
    have ha := hend a List.mem_cons_self
    have hfresh : (Core.sliding size slide (a :: rest)).Fresh now ↔
        ∀ d, a.end = some d → now < d := by
      simp [Core.Fresh, Core.deadline]
    rw [hfresh, ha]
    constructor
    · intro h s hmem
      cases hmem with
      | head => exact h
      | tail _ hmem =>
        have hlt := (List.pairwise_cons.1 hg.sorted).1 s hmem
        omega
    · intro h
      exact h a List.mem_cons_self

theorem Core.tumbling_fresh {size : Nat} {start : Option Nat} {items : List T} :
    (Core.tumbling size start items).Fresh now ↔
      ∀ s, start = some s → s + size ≤ Timeline.horizon → now < s + size := by
  cases start with
  | none => simp [Core.Fresh, Core.deadline]
  | some s => simp [Core.Fresh, Core.deadline, checked_add_eq_some]

theorem Core.session_fresh {idle : Nat} {start last : Option Nat} {items : List T}
    (hn : now ≤ Timeline.horizon) :
    (Core.session idle start last items).Fresh now ↔ ∀ l, last = some l → now ≤ l + idle := by
  cases last with
  | none => simp [Core.Fresh, Core.deadline]
  | some l =>
    simp only [Core.Fresh, Core.deadline, Option.bind_eq_some_iff, checked_add_eq_some,
      Option.some.injEq, forall_eq']
    constructor
    · intro h
      by_contra hlt
      have := h (l + idle + 1) ⟨l + idle, ⟨l, rfl, by omega, rfl⟩, by omega, rfl⟩
      omega
    · rintro h d ⟨_, ⟨_, rfl, -, rfl⟩, -, rfl⟩
      omega

/-- A core in which nothing has expired is left alone. -/
theorem Core.on_tick_fresh (hf : c.Fits policy anchor) (hv : policy.Valid)
    (hn : now ≤ Timeline.horizon) (h : c.Fresh now) :
    c.on_tick anchor now Emitting.emit = pure c := by
  cases c with
  | tumbling size start items =>
    cases start with
    | none => rfl
    | some s =>
      rw [Core.tumbling_fresh] at h
      simp only [Core.on_tick]
      by_cases hle : s + size ≤ Timeline.horizon
      · have hlt := h s rfl hle
        simp [checked_add_some hle, Option.filter, show ¬s + size ≤ now by omega]
      · simp [checked_add, hle]
  | session idle start last items =>
    cases last with
    | none => rfl
    | some l =>
      rw [Core.session_fresh hn] at h
      have hle := h l rfl
      simp [Core.on_tick, Option.filter, saturating_duration_since,
        show ¬idle < now - l by omega]
  | sliding size slide slots =>
    obtain ⟨rfl, hg⟩ := hf
    obtain ⟨hs, hle, -⟩ := hv
    rw [hg.fresh_iff hs (by omega) hn] at h
    have hsame : emit_slots_before (sliding_range anchor now size slide).1 Emitting.emit slots =
        pure slots := by
      cases slots with
      | nil => rfl
      | cons a rest =>
        have ha := h a List.mem_cons_self
        rw [emit_slots_before, if_neg (by omega)]
    simp only [Core.on_tick, hsame]
    rfl

theorem Core.fits_on_tick (hf : c.Fits policy anchor) (hv : policy.Valid)
    (ha : anchor ≤ Timeline.horizon) (hn : now ≤ Timeline.horizon) :
    (c.on_tick anchor now Emitting.emit).val.Fits policy anchor := by
  cases c with
  | tumbling size start items =>
    obtain ⟨rfl, hnone, hgrid⟩ := hf
    have hal : ∀ s, some (align anchor now size) = some s → ∃ q, s = anchor + q * size := by
      intro s hs
      cases hs
      exact ⟨_, align_eq ha hn hv⟩
    simp only [Core.on_tick]
    split
    · split
      · exact ⟨rfl, by simp, hal⟩
      · exact ⟨rfl, by simp, hal⟩
    · exact ⟨rfl, hnone, hgrid⟩
  | session idle start last items =>
    obtain ⟨rfl, hnone⟩ := hf
    simp only [Core.on_tick]
    split
    · split
      · rename_i he
        exact ⟨rfl, fun _ => ⟨rfl, List.isEmpty_iff.1 he⟩⟩
      · exact ⟨rfl, fun _ => ⟨rfl, rfl⟩⟩
    · exact ⟨rfl, hnone⟩
  | sliding size slide slots =>
    obtain ⟨rfl, hg⟩ := hf
    refine ⟨rfl, ?_⟩
    rw [emit_slots_before_val]
    exact hg.sub (slots.dropWhile_sublist _)

/-- A tick leaves nothing expired. -/
theorem Core.fresh_on_tick (hf : c.Fits policy anchor) (hv : policy.Valid)
    (ha : anchor ≤ Timeline.horizon) (hn : now ≤ Timeline.horizon) :
    (c.on_tick anchor now Emitting.emit).val.Fresh now := by
  cases c with
  | tumbling size start items =>
    obtain ⟨rfl, hnone, hgrid⟩ := hf
    have hal : ∀ s, some (align anchor now size) = some s → s + size ≤ Timeline.horizon →
        now < s + size := by
      intro s hs _
      cases hs
      exact lt_align_add ha hn hv
    simp only [Core.on_tick]
    split
    · split <;> exact Core.tumbling_fresh.2 hal
    · rename_i hexp
      refine Core.tumbling_fresh.2 ?_
      rintro s rfl hle
      by_contra hlt
      simp [checked_add_some hle, Option.filter, show s + size ≤ now by omega] at hexp
  | session idle start last items =>
    obtain ⟨rfl, hnone⟩ := hf
    simp only [Core.on_tick]
    split
    · split <;> exact (Core.session_fresh hn).2 (by simp)
    · rename_i hexp
      refine (Core.session_fresh hn).2 ?_
      rintro l rfl
      by_contra hlt
      simp [Option.filter, saturating_duration_since, show idle < now - l by omega] at hexp
  | sliding size slide slots =>
    obtain ⟨rfl, hg⟩ := hf
    obtain ⟨hs, hle, -⟩ := hv
    have hval : ((Core.sliding size slide slots).on_tick anchor now Emitting.emit).val =
        .sliding size slide
          (slots.dropWhile fun s => s.k < (sliding_range anchor now size slide).1) := by
      simp only [Core.on_tick, Emitting.map_val, emit_slots_before_val]
    rw [hval, (hg.sub (slots.dropWhile_sublist _)).fresh_iff hs (by omega) hn]
    intro s hmem
    exact le_dropWhile hg.sorted hmem

theorem Core.tumbling_push_val {size : Nat} {start : Option Nat} {items : List T} {item : T} :
    (Core.tumbling_push max_items now size start items item Emitting.emit).val =
      .tumbling size start (stored max_items items item) := by
  simp only [Core.tumbling_push, stored]
  split <;> rfl

omit [Timeline] in
theorem Core.session_push_val {idle : Nat} {start : Option Nat} {items : List T} {item : T} :
    (Core.session_push max_items now idle start items item Emitting.emit).val =
      .session idle (if (items ++ [item]).length ≥ max_items then some now else start) (some now)
        (stored max_items items item) := by
  simp only [Core.session_push, stored]
  split <;> rfl

/-- Where the tumbling window of an item begins. -/
theorem Core.on_item_tumbling_val (max_items anchor now size : Nat) (start : Option Nat)
    (items : List T) (item : T) : ∃ s kept, ((Core.tumbling size start items).on_item max_items anchor now item
        Emitting.emit).val = .tumbling size (some s) (stored max_items kept item) ∧
      ((kept = [] ∧ s = align anchor now size) ∨
        (kept = items ∧ s = start.getD (align anchor now size) ∧
          (s + size ≤ Timeline.horizon → now < s + size))) := by
  simp only [Core.on_item]
  split
  · refine ⟨align anchor now size, [], ?_, .inl ⟨rfl, rfl⟩⟩
    split
    · exact Core.tumbling_push_val
    · simp [Core.tumbling_push_val]
  · rename_i hexp
    refine ⟨_, items, Core.tumbling_push_val, .inr ⟨rfl, rfl, fun hle => ?_⟩⟩
    by_contra hlt
    simp [checked_add_some hle, Option.filter,
      show start.getD (align anchor now size) + size ≤ now by omega] at hexp

theorem Core.on_item_session_val (max_items anchor now idle : Nat) (start last : Option Nat)
    (items : List T) (item : T) : ∃ start' kept, ((Core.session idle start last items).on_item max_items anchor now
      item Emitting.emit).val = .session idle start' (some now) (stored max_items kept item) ∧
        (kept = [] ∨ kept = items) := by
  simp only [Core.on_item]
  split
  · split
    · split
      · exact ⟨_, [], Core.session_push_val, .inl rfl⟩
      · exact ⟨_, [], Core.session_push_val, .inl rfl⟩
    · exact ⟨_, items, Core.session_push_val, .inr rfl⟩
  · exact ⟨_, items, Core.session_push_val, .inr rfl⟩

/-- What an item does to the slots of a sliding window. -/
theorem Core.on_item_filled (max_items : Nat) {size slide : Nat} {slots : List (Slot T)}
    (hg : Gridded anchor size slide slots) (hs : 0 < slide) (hle : slide ≤ size)
    (ha : anchor ≤ Timeline.horizon) (hn : now ≤ Timeline.horizon) (item : T) :
    let r := sliding_range anchor now size slide
    let slots' := slots.dropWhile fun s => s.k < r.1
    ∃ f, Filled max_items anchor now size slide item (r.2 + 1 - r.1) r.1 slots' f ∧
      ((Core.sliding size slide slots).on_item max_items anchor now item Emitting.emit).val =
        .sliding size slide f.val ∧
      ((Core.sliding size slide slots).on_item max_items anchor now item Emitting.emit).out =
        (emit_slots_before r.1 Emitting.emit slots).out ++ f.out := by
  intro r slots'
  have hrange : r.1 ≤ r.2 := k_min_le_k_max hs hle
  refine ⟨sliding_fill max_items size slide anchor now item Emitting.emit (r.2 + 1 - r.1) r.1 slots',
    ?_, ?_, ?_⟩
  · apply sliding_fill_filled max_items item ha hn _ _ (hg.sub (slots.dropWhile_sublist _))
    intro j hj
    have hle : j ≤ r.2 := by omega
    exact (le_k_max hs).1 hle
  · simp only [Core.on_item, sliding_on_item, Emitting.map_val, Emitting.bind_val,
      emit_slots_before_val]
    rfl
  · simp only [Core.on_item, sliding_on_item, Emitting.map_out, Emitting.bind_out,
      emit_slots_before_val]
    rfl

theorem Core.fits_on_item (hf : c.Fits policy anchor) (hv : policy.Valid)
    (ha : anchor ≤ Timeline.horizon) (hn : now ≤ Timeline.horizon) (item : T) :
    (c.on_item max_items anchor now item Emitting.emit).val.Fits policy anchor := by
  cases c with
  | tumbling size start items =>
    obtain ⟨rfl, hnone, hgrid⟩ := hf
    obtain ⟨s, kept, hval, hs⟩ := Core.on_item_tumbling_val max_items anchor now size start items
      item
    have hal : ∃ q, align anchor now size = anchor + q * size := ⟨_, align_eq ha hn hv⟩
    rw [hval]
    have hstart : ∃ q, s = anchor + q * size := by
      rcases hs with ⟨-, hs⟩ | ⟨-, hs, -⟩
      · rw [hs]
        exact hal
      · rw [hs]
        cases start with
        | none =>
          rw [Option.getD_none]
          exact hal
        | some s => exact hgrid s rfl
    exact ⟨rfl, nofun, fun _ h => Option.some.inj h ▸ hstart⟩
  | session idle start last items =>
    obtain ⟨rfl, hnone⟩ := hf
    obtain ⟨start', kept, hval, -⟩ := Core.on_item_session_val max_items anchor now idle start last
      items item
    rw [hval]
    exact ⟨rfl, nofun⟩
  | sliding size slide slots =>
    obtain ⟨rfl, hg⟩ := hf
    obtain ⟨f, hfill, hval, -⟩ := Core.on_item_filled max_items hg hv.1 hv.2.1 ha hn
      item
    rw [hval]
    exact ⟨rfl, hfill.gridded⟩

/-- Adding an item leaves nothing expired. -/
theorem Core.fresh_on_item (hf : c.Fits policy anchor) (hv : policy.Valid)
    (ha : anchor ≤ Timeline.horizon) (hn : now ≤ Timeline.horizon) (item : T) :
    (c.on_item max_items anchor now item Emitting.emit).val.Fresh now := by
  cases c with
  | tumbling size start items =>
    obtain ⟨rfl, hnone, hgrid⟩ := hf
    obtain ⟨s, kept, hval, hs⟩ := Core.on_item_tumbling_val max_items anchor now size start items
      item
    rw [hval, Core.tumbling_fresh]
    rintro _ ⟨⟩ hle
    rcases hs with ⟨-, rfl⟩ | ⟨-, -, hlt⟩
    · exact lt_align_add ha hn hv
    · exact hlt hle
  | session idle start last items =>
    obtain ⟨rfl, hnone⟩ := hf
    obtain ⟨start', kept, hval, -⟩ := Core.on_item_session_val max_items anchor now idle start last
      items item
    rw [hval, Core.session_fresh hn]
    rintro _ ⟨⟩
    exact Nat.le_add_right ..
  | sliding size slide slots =>
    obtain ⟨rfl, hg⟩ := hf
    obtain ⟨hs, hle, -⟩ := hv
    obtain ⟨f, hfill, hval, -⟩ := Core.on_item_filled max_items hg hs hle ha hn item
    rw [hval, hfill.gridded.fresh_iff hs (by omega) hn]
    intro s hmem
    rcases hfill.numbers s hmem with ⟨t, ht, hts⟩ | ⟨hk, -⟩
    · rw [← hts]
      exact le_dropWhile hg.sorted ht
    · exact hk

end Ticks

/-- A core that is empty has nothing to flush. -/
theorem Core.on_flush_empty [Timeline] {T : Type} {c : Core T} {now : Nat} (hempty : c.is_empty) :
    (c.on_flush now Emitting.emit).out = [] := by
  cases c with
  | tumbling size start items =>
    obtain rfl := List.isEmpty_iff.1 hempty
    rfl
  | session idle start last items =>
    obtain rfl := List.isEmpty_iff.1 hempty
    rfl
  | sliding size slide slots =>
    have hlive : Slot.live slots = [] := by
      rw [Slot.live, List.filter_eq_nil_iff]
      intro s hs
      simpa using List.all_eq_true.1 hempty s hs
    simp only [Core.on_flush, Emitting.bind_out, flush_slots_out, hlive, List.map_nil,
      Emitting.pure_out, List.append_nil]

end PipeIo
