import PipeIo.KeyedRun

namespace PipeIo
set_option autoImplicit true

open Lib

/-- The ends of the windows of a core that have expired at `now`. -/
def Core.overdue_ends [Timeline] (now : Nat) : Core T → List Nat
  | .tumbling size start items =>
    if items.isEmpty then []
    else ((start.bind fun s => checked_add s size).filter fun e => e ≤ now).toList
  | .sliding _ _ slots => slots.filterMap fun s =>
    if s.items.isEmpty then none else s.end.filter fun e => e ≤ now
  | .session idle _ last items =>
    if items.isEmpty then [] else (last.filter fun l => idle < now - l).toList

section

variable [Timeline] {T : Type} {c : Core T} {policy : WindowPolicy} {anchor now : Nat}

theorem Core.Gridded.overdue_ends {size slide : Nat} {slots : List (Slot T)}
    (hg : Gridded anchor size slide slots) (hs : 0 < slide) (hz : 0 < size)
    (hn : now ≤ Timeline.horizon) :
    (emit_slots_before (sliding_range anchor now size slide).1 Emitting.emit slots).out.map
      (fun w => w.end) = (Core.sliding size slide slots).overdue_ends now := by
  rw [emit_slots_before_out]
  simp only [Core.overdue_ends]
  induction slots with
  | nil => rfl
  | cons s rest ih =>
    have hend := hg.stop s List.mem_cons_self
    have hstart := hg.start s List.mem_cons_self
    have hrest := ih (hg.sub (List.sublist_cons_self s rest))
    by_cases hk : s.k < (sliding_range anchor now size slide).1
    · -- The window has ended.
      have hle : s.start + size ≤ now := by
        have hout := mt (k_min_le hs).2 (Nat.not_le_of_lt hk)
        omega
      have hsome : s.end = some (s.start + size) := by
        rw [hend, checked_add_some (by omega)]
      rw [List.takeWhile_cons_of_pos (by simpa using hk), List.filterMap_cons]
      by_cases hempty : s.items.isEmpty
      · rw [if_pos hempty]
        simpa [Slot.live, hempty] using hrest
      · rw [if_neg hempty]
        simp only [hsome, Option.filter_some, hle, decide_true, if_true]
        simpa [Slot.live, hempty, Slot.window, hsome] using hrest
    · -- Neither this window nor a later one has ended.
      rw [List.takeWhile_cons_of_neg (by simpa using hk)]
      symm
      rw [show (Slot.live ([] : List (Slot T))).map (Slot.window Slot.start) = [] from rfl,
        List.map_nil, List.filterMap_eq_nil_iff]
      intro t ht
      have hle : (sliding_range anchor now size slide).1 ≤ t.k := by
        cases ht with
        | head => exact Nat.le_of_not_lt hk
        | tail _ ht =>
          have hlt := (List.pairwise_cons.1 hg.sorted).1 t ht
          omega
      have hlt := (k_min_le hs).1 hle
      rw [hg.stop t ht, hg.start t ht]
      split
      · rfl
      · rw [Option.filter_eq_none_iff]
        intro e he
        obtain ⟨-, rfl⟩ := checked_add_eq_some.1 he
        simp
        omega

/-- What a tick emits, by the ends of the windows. -/
theorem Core.on_tick_ends (hf : c.Fits policy anchor) (hv : policy.Valid)
    (hn : now ≤ Timeline.horizon) :
    (c.on_tick anchor now Emitting.emit).out.map (fun w => w.end) = c.overdue_ends now := by
  cases c with
  | tumbling size start items =>
    simp only [Core.on_tick, Core.overdue_ends]
    cases start with
    | none => simp
    | some s =>
      simp only [Option.bind_some]
      cases hadd : checked_add s size with
      | none => simp
      | some e =>
        by_cases hle : e ≤ now
        · by_cases hempty : items.isEmpty
          · simp [hle, hempty, Option.filter]
          · simp [hle, hempty, Option.filter]
        · simp [hle, Option.filter]
  | session idle start last items =>
    simp only [Core.on_tick, Core.overdue_ends, saturating_duration_since]
    cases last with
    | none => simp
    | some l =>
      by_cases hlt : idle < now - l
      · by_cases hempty : items.isEmpty
        · simp [hlt, hempty, Option.filter]
        · simp [hlt, hempty, Option.filter]
      · simp [hlt, Option.filter]
  | sliding size slide slots =>
    obtain ⟨rfl, hg⟩ := hf
    simp only [Core.on_tick, Emitting.map_out]
    exact hg.overdue_ends hv.1 (Nat.lt_of_lt_of_le hv.1 hv.2.1) hn

theorem Core.Fresh.overdue_ends (h : c.Fresh now) (hf : c.Fits policy anchor) (hv : policy.Valid)
    (hn : now ≤ Timeline.horizon) : c.overdue_ends now = [] := by
  rw [← Core.on_tick_ends hf hv hn, Core.on_tick_fresh hf hv hn h]
  rfl

theorem Core.Gridded.ended {size slide : Nat} {slots : List (Slot T)} {s : Slot T} {x : Nat}
    (hg : Gridded anchor size slide slots) (hmem : s ∈ slots)
    (hx : (if s.items.isEmpty then none else s.end.filter fun e => e ≤ now) = some x) :
    x = anchor + s.k * slide + size := by
  split at hx
  · cases hx
  · rw [Option.filter_eq_some_iff, hg.stop s hmem, hg.start s hmem] at hx
    exact (checked_add_eq_some.1 hx.1).2

/-- The windows of one key come out in order. -/
theorem Core.overdue_sorted (hf : c.Fits policy anchor) :
    (c.overdue_ends now).Pairwise (· ≤ ·) := by
  cases c with
  | tumbling size start items =>
    simp only [Core.overdue_ends]
    split
    · exact .nil
    · cases (start.bind fun s => checked_add s size).filter fun e => e ≤ now with
      | none => exact .nil
      | some e => exact List.pairwise_singleton _ _
  | session idle start last items =>
    simp only [Core.overdue_ends]
    split
    · exact .nil
    · cases last.filter fun l => idle < now - l with
      | none => exact .nil
      | some l => exact List.pairwise_singleton _ _
  | sliding size slide slots =>
    obtain ⟨rfl, hg⟩ := hf
    simp only [Core.overdue_ends]
    rw [List.pairwise_filterMap]
    apply hg.sorted.imp_of_mem
    intro a b ha hb hlt x hx y hy
    have hx' := hg.ended ha hx
    have hy' := hg.ended hb hy
    have hle : a.k * slide ≤ b.k * slide := Nat.mul_le_mul_right _ (Nat.le_of_lt hlt)
    omega

end

namespace KeyedWindowStage

section

variable [Timeline] {K T φ : Type} [DecidableEq K]

/-- The windows an event emits because they have expired. -/
def expired (s : KeyedWindowStage K T φ) : WindowEvent T → List (K × Window T)
  | (.item _, now) =>
    let anchor := s.anchor.getD (grid_origin s.policy now)
    ({ s with anchor := some anchor }.expire anchor now Emitting.emit).out
  | (.tick, now) => (s.tick now Emitting.emit).out
  | (.flush, _) => []

/-- The keys whose own heap entry is due are examined in the order of the heap. No window of one
of them has expired that ends after an expired window of a key examined later. -/
def InOrder (s : KeyedWindowStage K T φ) (now : Nat) : Prop :=
  ∀ a ∈ s.heap, ∀ b ∈ s.heap, a.deadline ≤ now → b.deadline ≤ now → a.le b → a.slot ≠ b.slot →
    ∀ e ∈ s.held a.slot, ∀ f ∈ s.held b.slot, e.ticket = a.ticket → f.ticket = b.ticket →
      ∀ x ∈ e.core.overdue_ends now, ∀ y ∈ f.core.overdue_ends now, x ≤ y

instance (s : KeyedWindowStage K T φ) (now : Nat) : Decidable (s.InOrder now) :=
  haveI : ∀ a b : Due, Decidable (∀ e ∈ s.held a.slot, ∀ f ∈ s.held b.slot, e.ticket = a.ticket →
      f.ticket = b.ticket → ∀ x ∈ e.core.overdue_ends now, ∀ y ∈ f.core.overdue_ends now, x ≤ y) :=
    fun _ _ => inferInstance
  inferInstanceAs (Decidable (∀ a ∈ s.heap, ∀ b ∈ s.heap, _))

end

variable [Timeline] {K T φ : Type} [DecidableEq K] {s t : KeyedWindowStage K T φ} {now anchor : Nat}
  {order : List Nat} {policy : WindowPolicy}

/-- Expired windows are the first thing an event emits. -/
theorem expired_prefix (s : KeyedWindowStage K T φ) (key_fn : T → φ → K × φ)
    (event : WindowEvent T) : s.expired event <+: (s.step key_fn event).out := by
  obtain ⟨call, now⟩ := event
  cases call with
  | item item => exact List.prefix_append _ _
  | tick => exact List.prefix_rfl
  | flush => exact List.nil_prefix

/-- A round does not put an expired window before the others. -/
theorem Round.in_order {ws : List (K × Window T)} (h : Round anchor now s order policy t ws)
    (hv : policy.Valid) (hn : now ≤ Timeline.horizon) (hin : s.InOrder now) : t.InOrder now := by
  obtain ⟨order', hsound, -⟩ := h.rest
  have hmem : ∀ a ∈ t.heap, a.deadline ≤ now → a ∈ s.heap := by
    intro a ha hle
    rcases h.heap a ha with ha | hlt
    · exact List.mem_of_mem_tail ha
    · omega
  have hheld : ∀ i e x, t.held i = some e → x ∈ e.core.overdue_ends now → s.held i = some e := by
    intro i e x he hx
    rcases h.held i e he with he' | hfresh
    · exact he'
    · rw [hfresh.overdue_ends (hsound.fits i e he) hv hn] at hx
      cases hx
  intro a ha b hb hda hdb hle hne e he f hf hta htb x hx y hy
  exact hin a (hmem a ha hda) b (hmem b hb hdb) hda hdb hle hne e (hheld _ e x he hx) f
    (hheld _ f y hf hy) hta htb x hx y hy

/-- The loop emits the windows of the keys whose heap entries are due, in the order of the
heap. -/
theorem expire_loop_ordered (hv : policy.Valid) (ha : anchor ≤ Timeline.horizon)
    (hn : now ≤ Timeline.horizon) (fuel : Nat) (s : KeyedWindowStage K T φ) (order : List Nat)
    (h : Sound s order policy anchor) (hin : s.InOrder now) :
    ((expire_loop anchor now Emitting.emit fuel s).out.map fun w => w.2.end).Pairwise (· ≤ ·) ∧
      ∀ w ∈ (expire_loop anchor now Emitting.emit fuel s).out, ∃ d ∈ s.heap, d.deadline ≤ now ∧
        ∃ e, s.held d.slot = some e ∧ e.ticket = d.ticket ∧ w.2.end ∈ e.core.overdue_ends now := by
  induction fuel generalizing s order with
  | zero => exact ⟨.nil, nofun⟩
  | succ fuel ih =>
    by_cases hdone : ∀ d, s.heap.head? = some d → now < d.deadline
    · obtain ⟨-, hloop⟩ := h.done hdone
      rw [hloop fuel]
      exact ⟨.nil, nofun⟩
    · obtain ⟨d, hd⟩ := not_forall.1 hdone
      obtain ⟨hhead, hle⟩ := Classical.not_imp.1 hd
      obtain ⟨rest, hheap⟩ := List.head?_eq_some_iff.1 hhead
      obtain ⟨t, ws, hround, hloop⟩ := h.round hv ha hn hheap (Nat.le_of_not_lt hle)
      obtain ⟨order', hsound, -⟩ := hround.rest
      obtain ⟨hsorted, hfrom⟩ := ih t order' hsound (hround.in_order hv hn hin)
      rw [hloop fuel]
      -- Where the windows of the later rounds come from.
      have hlater : ∀ w ∈ (expire_loop anchor now Emitting.emit fuel t).out,
          ∃ b ∈ rest, b.deadline ≤ now ∧ ∃ f, t.held b.slot = some f ∧ s.held b.slot = some f ∧
            f.ticket = b.ticket ∧ w.2.end ∈ f.core.overdue_ends now := by
        intro w hw
        obtain ⟨b, hb, hdb, f, hf, htb, hend⟩ := hfrom w hw
        have hb' : b ∈ rest := by
          rcases hround.heap b hb with hb | hlt
          · rw [hheap] at hb
            exact hb
          · omega
        have hf' : s.held b.slot = some f := by
          rcases hround.held _ f hf with hf' | hfresh
          · exact hf'
          · rw [hfresh.overdue_ends (hsound.fits _ f hf) hv hn] at hend
            cases hend
        exact ⟨b, hb', hdb, f, hf, hf', htb, hend⟩
      have hkept : ∀ w ∈ (expire_loop anchor now Emitting.emit fuel t).out, ∃ b ∈ s.heap,
          b.deadline ≤ now ∧ ∃ f, s.held b.slot = some f ∧ f.ticket = b.ticket ∧
            w.2.end ∈ f.core.overdue_ends now := by
        intro w hw
        obtain ⟨b, hb, hdb, f, -, hf, htb, hend⟩ := hlater w hw
        exact ⟨b, hheap ▸ List.mem_cons_of_mem _ hb, hdb, f, hf, htb, hend⟩
      rcases hround.out with rfl | ⟨a, e, hhead', hda, he, hta, hgone, rfl⟩
      · exact ⟨hsorted, hkept⟩
      · rw [hhead] at hhead'
        cases hhead'
        have hends : ((e.core.on_tick anchor now Emitting.emit).out.map fun w => (e.key, w)).map
            (fun w => w.2.end) = e.core.overdue_ends now := by
          rw [← Core.on_tick_ends (h.fits _ e he) hv hn, List.map_map]
          rfl
        constructor
        · rw [List.map_append, List.pairwise_append, hends]
          refine ⟨Core.overdue_sorted (h.fits _ e he), hsorted, fun x hx y hy => ?_⟩
          obtain ⟨w, hw, rfl⟩ := List.mem_map.1 hy
          obtain ⟨b, hb, hdb, f, hft, hf, htb, hend⟩ := hlater w hw
          have hab : d.le b := by
            have hheaps := h.coherent.sorted
            rw [hheap] at hheaps
            exact (List.pairwise_cons.1 hheaps).1 b hb
          have hne : d.slot ≠ b.slot := by
            intro heq
            have hfresh := hgone f (heq ▸ hft)
            rw [hfresh.overdue_ends (hsound.fits _ f hft) hv hn] at hend
            cases hend
          exact hin d (hheap ▸ List.mem_cons_self) b (hheap ▸ List.mem_cons_of_mem _ hb) hda hdb hab
            hne e he f hf hta htb x hx _ hend
        · intro w hw
          rcases List.mem_append.1 hw with hw | hw
          · have hend : w.2.end ∈ e.core.overdue_ends now := by
              rw [← hends]
              exact List.mem_map_of_mem hw
            exact ⟨d, hheap ▸ List.mem_cons_self, hda, e, he, hta, hend⟩
          · exact hkept w hw

theorem Running.in_order (h : Running s order) (event : WindowEvent T)
    (hin : s.InOrder event.2) : ((s.expired event).map fun w => w.2.end).Pairwise (· ≤ ·) := by
  obtain ⟨call, now, hn⟩ := event
  cases call with
  | item item =>
    obtain ⟨hsound, ha⟩ := h.origin hn
    have hloop := expire_loop_ordered h.valid ha hn (s.heap.length + 1) _ order
      (hsound.configured (some (s.anchor.getD (grid_origin s.policy now))) s.key_state) hin
    exact hloop.1
  | tick =>
    cases hanchor : s.anchor with
    | none =>
      simp only [expired, tick, hanchor]
      exact .nil
    | some anchor =>
      have hsound := h.sound
      have ha := h.anchor
      rw [hanchor] at hsound ha
      simp only [expired, tick, hanchor]
      exact (expire_loop_ordered h.valid ha hn _ s order hsound hin).1
  | flush => exact .nil

end KeyedWindowStage

namespace KeyedWindowStage

end KeyedWindowStage

end PipeIo
