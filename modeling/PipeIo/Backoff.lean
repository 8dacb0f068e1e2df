import Mathlib.Order.Lattice
import Mathlib.Order.Nat
import PipeIo.Retry

namespace PipeIo
set_option autoImplicit true

namespace RetryPolicy

/-- None of the clamps shows in a delay that `max` bounds. -/
theorem clamped_eq (initial doublings : Nat) {max : Nat} (hm : max ≤ 2 ^ 63) :
    min (min (min (initial * 2 ^ min doublings 63) (2 ^ 128 - 1)) u64Max) max =
      min (initial * 2 ^ doublings) max := by
  have hu : max ≤ u64Max := Nat.le_trans hm (by decide)
  have hw : max ≤ 2 ^ 128 - 1 := Nat.le_trans hm (by decide)
  have hclamps : ∀ n : Nat, min (min (min n (2 ^ 128 - 1)) u64Max) max = min n max := by
    intro n
    rw [min_assoc, min_eq_right hu, min_assoc, min_eq_right hw]
  rw [hclamps]
  rcases Nat.lt_or_ge 63 doublings with hlt | hle
  · rw [min_eq_right hlt.le]
    rcases Nat.eq_zero_or_pos initial with rfl | hpos
    · rw [Nat.zero_mul, Nat.zero_mul]
    · -- the delay has passed `max` before the shift is capped
      have hcap : max ≤ initial * 2 ^ 63 := Nat.le_trans hm (Nat.le_mul_of_pos_left _ hpos)
      have hpow : 2 ^ 63 ≤ 2 ^ doublings := Nat.pow_le_pow_right (by decide) hlt.le
      have hpast : max ≤ initial * 2 ^ doublings :=
        Nat.le_trans hcap (Nat.mul_le_mul_left _ hpow)
      rw [min_eq_right hcap, min_eq_right hpast]
  · rw [min_eq_left hle]

end RetryPolicy

theorem Jitter.scale_le (j : Jitter) (max : Duration) : (j.scale max).1 ≤ max := by
  have hspan : 0 < min (max + 1) (2 ^ 128 - 1) := lt_min (Nat.succ_pos max) (by decide)
  have hpick : j.next.1.toNat % min (max + 1) (2 ^ 128 - 1) < max + 1 :=
    Nat.lt_of_lt_of_le (Nat.mod_lt _ hspan) (min_le_left ..)
  exact Nat.le_trans (min_le_left ..) (Nat.le_of_lt_succ hpick)

namespace RetryPolicy

theorem delay_for_le (p : RetryPolicy) (attempt : Nat) (j : Jitter) :
    (p.delay_for attempt j).1 ≤ p.base_delay attempt := by
  simp only [delay_for]
  split
  · exact j.scale_le _
  · exact Nat.le_refl _

/-- The exponential schedule is the one of unbounded arithmetic, and jitter only shortens a
delay, of every schedule. -/
theorem backoff_exact (p : RetryPolicy) {initial max : Duration}
    (hp : p.backoff = .exponential initial max) (hm : max ≤ 2 ^ 63) (attempt : Nat) :
    p.base_delay attempt = min (initial * 2 ^ (attempt - 1)) max ∧
      p.base_delay attempt ≤ max ∧
      (∀ later, attempt ≤ later → p.base_delay attempt ≤ p.base_delay later) ∧
      ∀ (q : RetryPolicy) (n : Nat) (j : Jitter), (q.delay_for n j).1 ≤ q.base_delay n := by
  have hexact : ∀ n, p.base_delay n = min (initial * 2 ^ (n - 1)) max := by
    intro n
    simp only [base_delay, hp]
    exact clamped_eq initial (n - 1) hm
  refine ⟨hexact attempt, ?_, ?_, delay_for_le⟩
  · rw [hexact]
    exact min_le_right ..
  · intro later hle
    rw [hexact, hexact]
    have hpow : 2 ^ (attempt - 1) ≤ 2 ^ (later - 1) :=
      Nat.pow_le_pow_right (by decide) (Nat.sub_le_sub_right hle 1)
    have hleft : initial * 2 ^ (attempt - 1) ≤ initial * 2 ^ (later - 1) :=
      Nat.mul_le_mul_left initial hpow
    exact le_min (Nat.le_trans (min_le_left ..) hleft) (min_le_right ..)

theorem backoff_exact_doubled :
    (RetryPolicy.mk 4 (.exponential 10 25) true).base_delay 2 = 20 :=
  (backoff_exact (RetryPolicy.mk 4 (.exponential 10 25) true) rfl (by decide) 2).1

end RetryPolicy

end PipeIo
