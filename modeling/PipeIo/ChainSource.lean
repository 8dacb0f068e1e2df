import PipeIo.Runtime

namespace PipeIo
set_option autoImplicit true

open Lib

/-- What a tree of sources asks of its surroundings: its leaves, by their position from the
left, and how much of a timeout has passed. -/
inductive LeafEff where
  | pull (leaf : Nat)
  | pullTimeout (leaf : Nat) (timeout : Duration)
  | close (leaf : Nat)
  | elapsed
  deriving DecidableEq, Repr

@[reducible] def LeafAns (X : Type) : LeafEff → Type
  | .pull _ => Except BoxError (Option X)
  | .pullTimeout .. => Except BoxError (Pull X)
  | .close _ => Except BoxError Unit
  | .elapsed => Duration

/-- The methods of a `Source` whose leaves are asked for. -/
structure Source (X : Type) where
  σ : Type
  init : σ
  pull : Act LeafEff (LeafAns X) BoxError σ (Option X)
  pull_timeout : Duration → Act LeafEff (LeafAns X) BoxError σ (Pull X)
  close : Act LeafEff (LeafAns X) BoxError σ Unit

/-- A result as `?` sees it. -/
def answer (r : Except BoxError α) : Act LeafEff (LeafAns X) BoxError σ α :=
  match r with
  | .ok a => pure a
  | .error e => Act.halt e

def Source.leaf (i : Nat) : Source X where
  σ := Unit
  init := ()
  pull := do answer (← Act.perform (.pull i))
  pull_timeout timeout := do answer (← Act.perform (.pullTimeout i timeout))
  close := do answer (← Act.perform (.close i))

namespace ChainSource

variable {X : Type} (A B : Source X)

/-- Run on the second source. -/
def second (x : Act LeafEff (LeafAns X) BoxError B.σ α) :
    Act LeafEff (LeafAns X) BoxError (Option A.σ × B.σ) α :=
  Act.zoom Prod.snd (fun b s => (s.1, b)) x

/-- Run on the first source, which is still there. -/
def onFirst (first : A.σ) (x : Act LeafEff (LeafAns X) BoxError A.σ α) :
    Act LeafEff (LeafAns X) BoxError (Option A.σ × B.σ) α :=
  Act.zoom (fun _ => first) (fun a s => (some a, s.2)) x

/-- Close and drop the first source once it is exhausted. -/
def retire_first : Act LeafEff (LeafAns X) BoxError (Option A.σ × B.σ) Unit := do
  match (← Act.get).1 with
  | some first =>
    Act.modify fun s => (none, s.2)
    Act.withLocal first A.close (pure ())
  | none => pure ()

def pull : Act LeafEff (LeafAns X) BoxError (Option A.σ × B.σ) (Option X) := do
  match (← Act.get).1 with
  | some first =>
    match ← onFirst A B first A.pull with
    | some item => pure (some item)
    | none =>
      retire_first A B
      second A B B.pull
  | none => second A B B.pull

def pull_timeout (timeout : Duration) :
    Act LeafEff (LeafAns X) BoxError (Option A.σ × B.σ) (Pull X) := do
  match (← Act.get).1 with
  | some first =>
    match ← onFirst A B first (A.pull_timeout timeout) with
    | .done =>
      retire_first A B
      -- only the rest of the timeout is left for the second source
      let elapsed ← Act.perform .elapsed
      second A B (B.pull_timeout (timeout - elapsed))
    | other => pure other
  | none => second A B (B.pull_timeout timeout)

/-- `Result::and`. -/
def both (first second : Except BoxError Unit) : Except BoxError Unit :=
  match first with
  | .ok () => second
  | .error e => .error e

def close : Act LeafEff (LeafAns X) BoxError (Option A.σ × B.σ) Unit := do
  let first ← Act.attempt (retire_first A B)
  let second ← Act.attempt (second A B B.close)
  answer (both first second)

/-- `ChainSource::new`. -/
def new : Source X where
  σ := Option A.σ × B.σ
  init := (some A.init, B.init)
  pull := pull A B
  pull_timeout := pull_timeout A B
  close := close A B

end ChainSource

/-- How sources are chained. -/
inductive SourceTree where
  | leaf
  | chain (first second : SourceTree)
  deriving DecidableEq, Repr

namespace SourceTree

def leaves : SourceTree → Nat
  | .leaf => 1
  | .chain first second => first.leaves + second.leaves

/-- The source of a tree whose leftmost leaf is leaf `k`. -/
def source (X : Type) : SourceTree → Nat → Source X
  | .leaf, k => .leaf k
  | .chain first second, k => ChainSource.new (first.source X k) (second.source X (k + first.leaves))

end SourceTree

/-- What was asked of a leaf, with the answer. -/
inductive LeafCall (X : Type) where
  | pulled (leaf : Nat) (r : Except BoxError (Pull X))
  | closed (leaf : Nat) (r : Except BoxError Unit)
  deriving DecidableEq, Repr

/-- A request, if it is one to a leaf. -/
def LeafCall.of : (e : LeafEff) → LeafAns X e → Option (LeafCall X)
  | .pull i, r => some (.pulled i (r.map Pull.from))
  | .pullTimeout i _, r => some (.pulled i r)
  | .close i, r => some (.closed i r)
  | .elapsed, _ => none

/-- One pull over a row of `n` leaves of which the first `c` are closed: the leaf at hand is
asked; when it reports its end, and is not the last one, it is closed and the next one asked,
unless the close fails. -/
inductive RowPulls {X : Type} (n : Nat) : Nat → List (LeafCall X) → Except BoxError (Pull X) → Nat → Prop where
  | stays (hr : r ≠ .ok .done) : RowPulls n c [.pulled c r] r c
  | ends (hc : c + 1 = n) : RowPulls n c [.pulled c (.ok .done)] (.ok .done) c
  | fails (hc : c + 1 < n) :
      RowPulls n c [.pulled c (.ok .done), .closed c (.error e)] (.error e) (c + 1)
  | goes (hc : c + 1 < n) (h : RowPulls n (c + 1) calls r c') :
      RowPulls n c (.pulled c (.ok .done) :: .closed c (.ok ()) :: calls) r c'

/-- A close of the leaves from `c` on: each is closed, and the first error is returned. -/
inductive RowCloses {X : Type} (n : Nat) : Nat → List (LeafCall X) → Except BoxError Unit → Prop where
  | nil : RowCloses n n [] (.ok ())
  | cons (h : RowCloses n (c + 1) calls r') : RowCloses n c (.closed c r :: calls) (ChainSource.both r r')

section Row

variable {X : Type} {calls calls' : List (LeafCall X)} {r : Except BoxError (Pull X)}
  {n m c c' : Nat}

/-- More leaves to the right do not matter to a pull that does not get there. -/
theorem RowPulls.widen (h : RowPulls m c calls r c') (hmn : m ≤ n) (hr : r ≠ .ok .done) :
    RowPulls n c calls r c' := by
  induction h with
  | stays h => exact .stays h
  | ends h => exact absurd rfl hr
  | fails h => exact .fails (by omega)
  | goes h _ ih => exact .goes (by omega) (ih hr)

/-- The end of a row is the end of its last leaf. -/
theorem RowPulls.last (h : RowPulls m c calls (.ok .done) c') : c' + 1 = m := by
  generalize hr : (.ok .done : Except BoxError (Pull X)) = r at h
  induction h with
  | stays h => exact absurd hr.symm h
  | ends h => exact h
  | fails h => cases hr
  | goes _ _ ih => exact ih hr

/-- Past its end a row is closed; if that fails, the pull fails. -/
theorem RowPulls.blocked (h : RowPulls m c calls (.ok .done) c') (hmn : m < n) (e : BoxError) :
    RowPulls n c (calls ++ [.closed c' (.error e)]) (.error e) m := by
  generalize hr : (.ok .done : Except BoxError (Pull X)) = r at h
  induction h with
  | stays h => exact absurd hr.symm h
  | ends h =>
    rw [← h]
    exact .fails (by omega)
  | fails h => cases hr
  | goes h _ ih => exact .goes (by omega) (ih hr)

/-- Past its end a row is closed and the next one asked. -/
theorem RowPulls.append (h : RowPulls m c calls (.ok .done) c') (hmn : m < n) {d : Nat}
    (hnext : RowPulls n m calls' r d) :
    RowPulls n c (calls ++ .closed c' (.ok ()) :: calls') r d := by
  generalize hq : (.ok .done : Except BoxError (Pull X)) = q at h
  induction h with
  | stays h => exact absurd hq.symm h
  | ends h =>
    subst h
    exact .goes hmn hnext
  | fails h => cases hq
  | goes h _ ih => exact .goes (by omega) (ih hq)

theorem both_ok (a : Except BoxError Unit) : ChainSource.both a (.ok ()) = a := by
  cases a <;> rfl

theorem both_assoc (a b c : Except BoxError Unit) :
    ChainSource.both (ChainSource.both a b) c = ChainSource.both a (ChainSource.both b c) := by
  cases a <;> rfl

theorem RowCloses.append {r r' : Except BoxError Unit} (h : RowCloses m c calls r)
    (h' : RowCloses n m calls' r') : RowCloses n c (calls ++ calls') (ChainSource.both r r') := by
  induction h with
  | nil => exact h'
  | cons _ ih =>
    rw [both_assoc]
    exact .cons ih

theorem RowCloses.only (c : Nat) (r : Except BoxError Unit) :
    RowCloses (X := X) (c + 1) c [.closed c r] r := by
  have h : RowCloses (X := X) (c + 1) c [.closed c r] (ChainSource.both r (.ok ())) := .cons .nil
  rwa [both_ok] at h

theorem RowCloses.le {r : Except BoxError Unit} (h : RowCloses n c calls r) : c ≤ n := by
  induction h with
  | nil => exact Nat.le_refl _
  | cons _ ih => omega

theorem RowCloses.one {r : Except BoxError Unit} (h : RowCloses n c calls r) (hc : c + 1 = n) :
    calls = [.closed c r] := by
  cases h with
  | nil => omega
  | cons h =>
    cases h with
    | nil => rw [both_ok]
    | cons h =>
      have := h.le
      omega

end Row

end PipeIo
