import Mathlib.Tactic.Common
import PipeIo.Lib.Emitting
import PipeIo.Window

namespace PipeIo
set_option autoImplicit true

open Lib

theorem duration_from_nanos_eq {n : Nat} (h : n ≤ durationMax) : duration_from_nanos n = n := by
  rw [durationMax] at h
  rw [duration_from_nanos]
  omega

section Time

variable [Timeline] {anchor now size slide step t d e n : Nat}

theorem checked_add_some (h : t + d ≤ Timeline.horizon) : checked_add t d = some (t + d) :=
  if_pos h

theorem checked_add_eq_some : checked_add t d = some e ↔ t + d ≤ Timeline.horizon ∧ e = t + d := by
  rw [checked_add]
  split
  · rename_i h
    simp [h, eq_comm]
  · rename_i h
    simp [h]

/-- A point of the grid that lies before the current instant is representable. -/
theorem offset_eq (ha : anchor ≤ Timeline.horizon) (hn : now ≤ Timeline.horizon)
    (h : n * step ≤ now - anchor) (fallback : Nat) :
    offset anchor n step fallback = anchor + n * step := by
  have hfits := Timeline.fits
  have hle : n * step ≤ durationMax := by omega
  have hmin : min (n * step) (2 ^ 128 - 1) = n * step := by
    simp only [durationMax] at hle
    omega
  rw [offset, hmin, duration_from_nanos_eq hle, checked_add_some (by omega)]
  rfl

theorem align_eq (ha : anchor ≤ Timeline.horizon) (hn : now ≤ Timeline.horizon) (hs : 0 < size) :
    align anchor now size = anchor + (now - anchor) / size * size := by
  have hmax : max size 1 = size := by omega
  simp only [align, saturating_duration_since, hmax]
  exact offset_eq ha hn (Nat.div_mul_le_self _ _) now

theorem lt_align_add (ha : anchor ≤ Timeline.horizon) (hn : now ≤ Timeline.horizon)
    (hs : 0 < size) : now < align anchor now size + size := by
  rw [align_eq ha hn hs]
  have hlt := Nat.lt_div_mul_add (a := now - anchor) hs
  omega

end Time

theorem grid_origin_le (policy : WindowPolicy) (now : Nat) : grid_origin policy now ≤ now := by
  cases policy with
  | sliding size slide =>
    simp only [grid_origin, checked_sub]
    split
    · rw [Option.getD_some]
      exact Nat.sub_le ..
    · exact Nat.le_refl _
  | tumbling size => exact Nat.le_refl _
  | session idle => exact Nat.le_refl _

section Range

variable {anchor now size slide : Nat}

theorem le_k_max (hs : 0 < slide) {k : Nat} :
    k ≤ (sliding_range anchor now size slide).2 ↔ k * slide ≤ now - anchor := by
  have hmax : max slide 1 = slide := by omega
  simp only [sliding_range, saturating_duration_since, hmax]
  exact Nat.le_div_iff_mul_le hs

theorem k_min_le (hs : 0 < slide) {k : Nat} :
    (sliding_range anchor now size slide).1 ≤ k ↔ now - anchor < k * slide + size := by
  have hmax : max slide 1 = slide := by omega
  simp only [sliding_range, saturating_duration_since, hmax]
  split
  · rw [Nat.succ_le_iff, Nat.div_lt_iff_lt_mul hs]
    omega
  · simp only [Nat.zero_le, true_iff]
    omega

theorem k_min_le_k_max (hs : 0 < slide) (hle : slide ≤ size) :
    (sliding_range anchor now size slide).1 ≤ (sliding_range anchor now size slide).2 := by
  have hmax : max slide 1 = slide := by omega
  rw [k_min_le hs]
  simp only [sliding_range, saturating_duration_since, hmax]
  have hlt := Nat.lt_div_mul_add (a := now - anchor) hs
  omega

end Range

/-- What `check` accepts. -/
def WindowPolicy.Valid : WindowPolicy → Prop
  | .tumbling size => 0 < size
  | .sliding size slide => 0 < slide ∧ slide ≤ size ∧ div_ceil size slide ≤ MAX_SLIDING_OVERLAP
  | .session idle => 0 < idle

theorem WindowPolicy.check_ok {policy : WindowPolicy} : policy.check = .ok () ↔ policy.Valid := by
  cases policy with
  | tumbling size => simp [check, nonzero, Valid, Nat.pos_iff_ne_zero]
  | session idle => simp [check, nonzero, Valid, Nat.pos_iff_ne_zero]
  | sliding size slide =>
    simp only [check, nonzero, Valid]
    by_cases hs : size = 0
    · simp [hs, bind, Except.bind]
      omega
    · by_cases hl : slide = 0
      · simp [hs, hl, bind, Except.bind]
      · by_cases hle : slide > size
        · have hnot : ¬slide ≤ size := by omega
          simp [hs, hl, hle, hnot, bind, Except.bind, throw, throwThe, MonadExceptOf.throw]
        · by_cases hd : div_ceil size slide > MAX_SLIDING_OVERLAP
          · simp [hs, hl, hle, hd, bind, Except.bind, throw, throwThe, MonadExceptOf.throw]
          · simp [hs, hl, hle, hd, bind, Except.bind, pure, Except.pure]
            omega

/-- What `WindowSpec::check` accepts. -/
theorem WindowSpec.check_ok {spec : WindowSpec} :
    spec.check = .ok () ↔ spec.policy.Valid ∧ spec.max_items ≠ some 0 ∧ spec.max_keys ≠ some 0 := by
  rw [← WindowPolicy.check_ok, check]
  cases hp : spec.policy.check with
  | error e => simp [bind, Except.bind]
  | ok u =>
    by_cases hi : spec.max_items = some 0
    · simp [hi, bind, Except.bind, throw, throwThe, MonadExceptOf.throw]
    · by_cases hk : spec.max_keys = some 0
      · simp [hi, hk, bind, Except.bind, throw, throwThe, MonadExceptOf.throw]
      · simp [hi, hk, bind, Except.bind, pure, Except.pure]

namespace Core

/-- The slots of a sliding window: sorted, each on the grid. -/
structure Gridded [Timeline] (anchor : Nat) (size slide : Nat) (slots : List (Slot T)) :
    Prop where
  sorted : slots.Pairwise fun a b => a.k < b.k
  start : ∀ s ∈ slots, s.start = anchor + s.k * slide
  stop : ∀ s ∈ slots, s.end = checked_add s.start size

/-- A core as the operations of a stage with this policy and this grid leave it. -/
def Fits [Timeline] (policy : WindowPolicy) (anchor : Nat) : Core T → Prop
  | .tumbling size start items => policy = .tumbling size ∧ (start = none → items = []) ∧
      ∀ s, start = some s → ∃ q, s = anchor + q * size
  | .sliding size slide slots => policy = .sliding size slide ∧ Gridded anchor size slide slots
  | .session idle start last items => policy = .session idle ∧
      (last = none → start = none ∧ items = [])

end Core

section Renamed

variable {T W : Type} {anchor now : Nat} {f : Window T → W}

theorem emit_slots_before_renamed (k_min : Nat) (slots : List (Slot T)) :
    emit_slots_before k_min (fun w => Emitting.emit (f w)) slots =
      (emit_slots_before k_min Emitting.emit slots).renamed f := by
  induction slots with
  | nil => rfl
  | cons s rest ih =>
    simp only [emit_slots_before]
    split
    · split
      · exact ih
      · simp only [Emitting.renamed_bind, Emitting.renamed_emit]
        congr 1
        funext b
        cases b
        · rfl
        · exact ih
    · rfl

theorem Slot.push_renamed (max_items : Nat) (item : T) (s : Slot T) :
    s.push max_items now item (fun w => Emitting.emit (f w)) =
      (s.push max_items now item Emitting.emit).renamed f := by
  simp only [Slot.push]
  split
  · simp
  · rfl

theorem Core.flush_slots_renamed (slots : List (Slot T)) :
    Core.flush_slots now (fun w => Emitting.emit (f w)) slots =
      (Core.flush_slots now Emitting.emit slots).renamed f := by
  induction slots with
  | nil => rfl
  | cons s rest ih =>
    simp only [Core.flush_slots]
    split
    · exact ih
    · simp only [Emitting.renamed_bind, Emitting.renamed_emit]
      congr 1
      funext b
      cases b
      · rfl
      · exact ih

variable [Timeline]

theorem sliding_fill_renamed (max_items size slide : Nat) (item : T) (n k : Nat)
    (slots : List (Slot T)) :
    sliding_fill max_items size slide anchor now item (fun w => Emitting.emit (f w)) n k slots =
      (sliding_fill max_items size slide anchor now item Emitting.emit n k slots).renamed f := by
  induction n generalizing k slots with
  | zero => rfl
  | succ n ih =>
    simp only [sliding_fill, ih, Slot.push_renamed]
    split <;> simp

theorem Core.tumbling_push_renamed (max_items size : Nat) (start : Option Nat) (items : List T)
    (item : T) :
    Core.tumbling_push max_items now size start items item (fun w => Emitting.emit (f w)) =
      (Core.tumbling_push max_items now size start items item Emitting.emit).renamed f := by
  simp only [Core.tumbling_push]
  split <;> simp

omit [Timeline] in
theorem Core.session_push_renamed (max_items idle : Nat) (start : Option Nat) (items : List T)
    (item : T) :
    Core.session_push max_items now idle start items item (fun w => Emitting.emit (f w)) =
      (Core.session_push max_items now idle start items item Emitting.emit).renamed f := by
  simp only [Core.session_push]
  split <;> simp

/-- What a core does with an item does not depend on the name its windows go under. -/
theorem Core.on_item_renamed (max_items : Nat) (item : T) (c : Core T) :
    c.on_item max_items anchor now item (fun w => Emitting.emit (f w)) =
      (c.on_item max_items anchor now item Emitting.emit).renamed f := by
  cases c with
  | tumbling size start items =>
    simp only [Core.on_item, Core.tumbling_push_renamed]
    split
    · split
      · rfl
      · simp only [Emitting.renamed_bind, Emitting.renamed_emit]
        congr 1
        funext b
        cases b <;> simp
    · rfl
  | session idle start last items =>
    simp only [Core.on_item, Core.session_push_renamed]
    split
    · split
      · split
        · rfl
        · simp only [Emitting.renamed_bind, Emitting.renamed_emit]
          congr 1
          funext b
          cases b <;> simp
      · rfl
    · rfl
  | sliding size slide slots =>
    simp only [Core.on_item, sliding_on_item, emit_slots_before_renamed, sliding_fill_renamed]
    simp [Emitting.renamed, Functor.map, bind]

theorem Core.on_tick_renamed (c : Core T) :
    c.on_tick anchor now (fun w => Emitting.emit (f w)) =
      (c.on_tick anchor now Emitting.emit).renamed f := by
  cases c with
  | tumbling size start items =>
    simp only [Core.on_tick]
    split
    · split <;> simp
    · rfl
  | session idle start last items =>
    simp only [Core.on_tick]
    split
    · split <;> simp
    · rfl
  | sliding size slide slots =>
    simp only [Core.on_tick, emit_slots_before_renamed]
    simp [Emitting.renamed, Functor.map]

theorem Core.on_flush_renamed (c : Core T) :
    c.on_flush now (fun w => Emitting.emit (f w)) = (c.on_flush now Emitting.emit).renamed f := by
  cases c with
  | tumbling size start items =>
    simp only [Core.on_flush]
    split <;> simp
  | session idle start last items =>
    simp only [Core.on_flush]
    split <;> simp
  | sliding size slide slots =>
    simp only [Core.on_flush, Core.flush_slots_renamed, Emitting.renamed_bind]
    rfl

end Renamed

end PipeIo
