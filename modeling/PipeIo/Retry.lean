import PipeIo.Error

namespace PipeIo
set_option autoImplicit true

inductive Backoff where
  | none
  | fixed (d : Duration)
  | exponential (initial max : Duration)
  deriving DecidableEq, Repr

structure RetryPolicy where
  max_attempts : Nat
  backoff : Backoff
  jitter : Bool
  deriving DecidableEq, Repr

/-- The state of the jitter generator. -/
structure Jitter where
  state : BitVec 64
  deriving DecidableEq, Repr

namespace RetryPolicy

/-- The largest `u64`; nanoseconds that do not fit are clamped to it. -/
def u64Max : Nat := 2 ^ 64 - 1

/-- The delay after failed attempt `attempt`, before jitter. -/
def base_delay (p : RetryPolicy) (attempt : Nat) : Duration :=
  match p.backoff with
  | .none => 0
  | .fixed d => d
  | .exponential initial max =>
    let doublings := min (attempt - 1) 63
    let factor := 2 ^ doublings
    let nanos := min (initial * factor) (2 ^ 128 - 1)
    let delay := min nanos u64Max
    min delay max

def check (p : RetryPolicy) : Except ConfigErrorKind Unit :=
  if p.max_attempts = 0 then .error (.zeroLimit "max_attempts") else .ok ()

end RetryPolicy

namespace Jitter

/-- `Jitter::seeded`, from what the hasher returned. -/
def seeded (hash : BitVec 64) : Jitter := ⟨hash ||| 1⟩

/-- One step of the generator. -/
def next (j : Jitter) : BitVec 64 × Jitter :=
  let x := j.state
  let x := x ^^^ (x <<< 13)
  let x := x ^^^ (x >>> 7)
  let x := x ^^^ (x <<< 17)
  (x, ⟨x⟩)

/-- A duration drawn from `[0, max]`. -/
def scale (j : Jitter) (max : Duration) : Duration × Jitter :=
  let span := min (max + 1) (2 ^ 128 - 1)
  let (x, j) := j.next
  let pick := x.toNat % span
  (min pick RetryPolicy.u64Max, j)

end Jitter

/-- The delay after failed attempt `attempt`. -/
def RetryPolicy.delay_for (p : RetryPolicy) (attempt : Nat) (j : Jitter) : Duration × Jitter :=
  let base := p.base_delay attempt
  if p.jitter ∧ base ≠ 0 then j.scale base else (base, j)

end PipeIo
