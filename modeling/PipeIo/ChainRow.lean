import PipeIo.ChainSource

namespace PipeIo
set_option autoImplicit true

open Lib

/-- Any answers; those of the leaves are recorded. -/
def asking (X : Type) : Spec LeafEff (LeafAns X) (List (LeafCall X)) where
  pre _ _ := True
  post e log a log' := log' = log ++ (LeafCall.of e a).toList

/-- A result as a call returns it. -/
def returned : Except BoxError α → Res BoxError α
  | .ok a => .ok a
  | .error e => .halt e

/-- After a pull over the row from `c` on. -/
def RowPulled (n c : Nat) (At : Nat → σ → Prop) (pull : α → Pull X) (log : List (LeafCall X))
    (r : Res BoxError α) (s : σ) (log' : List (LeafCall X)) : Prop :=
  ∃ q c' calls, r = returned q ∧ log' = log ++ calls ∧ At c' s ∧ RowPulls n c calls (q.map pull) c'

def RowClosed (n c : Nat) (log : List (LeafCall X)) (r : Res BoxError Unit)
    (log' : List (LeafCall X)) : Prop :=
  ∃ q calls, r = returned q ∧ log' = log ++ calls ∧ RowCloses n c calls q

/-- The source behaves as the row of the leaves from `k` to `n`; `At c s` says that in the
state `s` the leaves before `c` are closed. -/
structure Source.Row (S : Source X) (k n : Nat) (At : Nat → S.σ → Prop) : Prop where
  start : At k S.init
  within : ∀ c s, At c s → k ≤ c ∧ c < n
  pull : ∀ c s log, At c s → Act.wp (asking X) S.pull (RowPulled n c At Pull.from log) s log
  pull_timeout : ∀ timeout c s log, At c s →
    Act.wp (asking X) (S.pull_timeout timeout) (RowPulled n c At id log) s log
  close : ∀ c s log, At c s →
    Act.wp (asking X) S.close (fun r _ log' => RowClosed n c log r log') s log

theorem wp_answer (r : Except BoxError α) (Q : Res BoxError α → σ → List (LeafCall X) → Prop)
    (s : σ) (log : List (LeafCall X)) :
    Act.wp (asking X) (answer r) Q s log ↔ Q (returned r) s log := by
  cases r <;> rfl

theorem RowPulls.asked (r : Except BoxError (Pull X)) :
    RowPulls (c + 1) c [.pulled c r] r c := by
  by_cases hr : r = .ok .done
  · rw [hr]
    exact .ends rfl
  · exact .stays hr

section Leaf

variable {s : σ} {log : List (LeafCall X)} (i : Nat)

theorem wp_leaf_pull {Q : Res BoxError (Option X) → σ → List (LeafCall X) → Prop}
    (h : ∀ r, Q (returned r) s (log ++ [.pulled i (r.map Pull.from)])) :
    Act.wp (asking X) (do answer (← Act.perform (.pull i))) Q s log := by
  simp only [Act.wp_bind, Act.wp_perform, Act.next_ok, wp_answer]
  refine ⟨trivial, ?_⟩
  rintro r _ rfl
  exact h r

theorem wp_leaf_pull_timeout (timeout : Duration)
    {Q : Res BoxError (Pull X) → σ → List (LeafCall X) → Prop}
    (h : ∀ r, Q (returned r) s (log ++ [.pulled i r])) :
    Act.wp (asking X) (do answer (← Act.perform (.pullTimeout i timeout))) Q s log := by
  simp only [Act.wp_bind, Act.wp_perform, Act.next_ok, wp_answer]
  refine ⟨trivial, ?_⟩
  rintro r _ rfl
  exact h r

theorem wp_leaf_close {Q : Res BoxError Unit → σ → List (LeafCall X) → Prop}
    (h : ∀ r, Q (returned r) s (log ++ [.closed i r])) :
    Act.wp (asking X) (do answer (← Act.perform (.close i))) Q s log := by
  simp only [Act.wp_bind, Act.wp_perform, Act.next_ok, wp_answer]
  refine ⟨trivial, ?_⟩
  rintro r _ rfl
  exact h r

end Leaf

theorem leaf_row (X : Type) (k : Nat) : (Source.leaf k : Source X).Row k (k + 1) fun c _ => c = k where
  start := rfl
  within c _ hc := by omega
  pull c s log hc := by
    subst hc
    apply wp_leaf_pull
    intro r
    exact ⟨r, c, _, rfl, rfl, rfl, RowPulls.asked _⟩
  pull_timeout timeout c s log hc := by
    subst hc
    apply wp_leaf_pull_timeout
    intro r
    refine ⟨r, c, _, rfl, rfl, rfl, ?_⟩
    rw [Except.map_id]
    exact RowPulls.asked r
  close c s log hc := by
    subst hc
    apply wp_leaf_close
    intro r
    exact ⟨r, _, rfl, rfl, RowCloses.only c r⟩

namespace ChainSource

variable {X : Type} {A B : Source X} {k m n c : Nat} {AtA : Nat → A.σ → Prop}
  {AtB : Nat → B.σ → Prop}

/-- The leaves closed so far, told from what is left of the first source. -/
def At (AtA : Nat → A.σ → Prop) (AtB : Nat → B.σ → Prop) (m c : Nat) : Option A.σ × B.σ → Prop
  | (some a, b) => AtA c a ∧ AtB m b
  | (none, b) => AtB c b

/-- Past the end of the first source, which is at its last leaf. -/
theorem wp_retire (hA : A.Row k m AtA) {a : A.σ} {b : B.σ} (hat : AtA c a) (hc : c + 1 = m)
    {next : Act LeafEff (LeafAns X) BoxError (Option A.σ × B.σ) α}
    {Q : Res BoxError α → Option A.σ × B.σ → List (LeafCall X) → Prop} {log : List (LeafCall X)}
    (hfail : ∀ e, Q (.halt e) (none, b) (log ++ [.closed c (.error e)]))
    (hnext : Act.wp (asking X) next Q (none, b) (log ++ [.closed c (.ok ())])) :
    Act.wp (asking X) (do retire_first A B; next) Q (some a, b) log := by
  simp only [retire_first, Act.wp_bind, Act.wp_get, Act.next_ok, Act.wp_modify, Act.wp_withLocal]
  apply Act.wp_mono (hA.close c a log hat)
  intro r _ log' hr
  obtain ⟨q, calls, rfl, rfl, hcalls⟩ := hr
  rw [hcalls.one hc]
  cases q with
  | ok u => exact hnext
  | error e => exact hfail e

theorem pull_row (hA : A.Row k m AtA) (hB : B.Row m n AtB) (s : Option A.σ × B.σ)
    (log : List (LeafCall X)) (hat : At AtA AtB m c s) :
    Act.wp (asking X) (pull A B) (RowPulled n c (At AtA AtB m) Pull.from log) s log := by
  obtain ⟨_ | a, b⟩ := s
  · simp only [pull, second, Act.wp_bind, Act.wp_get, Act.next_ok, Act.wp_zoom]
    exact hB.pull c b log hat
  · obtain ⟨ha, hb⟩ := hat
    have hmn := (hB.within m b hb).2
    simp only [pull, onFirst, Act.wp_bind, Act.wp_get, Act.next_ok, Act.wp_zoom]
    apply Act.wp_mono (hA.pull c a log ha)
    intro r a' log' hr
    obtain ⟨q, c', calls, rfl, rfl, ha', hcalls⟩ := hr
    rcases q with e | _ | x
    · exact ⟨.error e, c', calls, rfl, rfl, ⟨ha', hb⟩, hcalls.widen (by omega) (by simp [Except.map])⟩
    · apply wp_retire hA ha' hcalls.last
      · intro e
        exact ⟨.error e, m, _, rfl, List.append_assoc .., hb, hcalls.blocked hmn e⟩
      · simp only [second, Act.wp_zoom]
        apply Act.wp_mono (hB.pull m b _ hb)
        intro r b' log' hr
        obtain ⟨q, d, calls', rfl, rfl, hb', hcalls'⟩ := hr
        refine ⟨q, d, calls ++ .closed c' (.ok ()) :: calls', rfl, ?_, hb', hcalls.append hmn hcalls'⟩
        simp only [List.append_assoc, List.singleton_append]
    · refine ⟨.ok (some x), c', calls, rfl, rfl, ⟨ha', hb⟩, hcalls.widen (by omega) ?_⟩
      simp [Except.map, Pull.from]

theorem pull_timeout_row (hA : A.Row k m AtA) (hB : B.Row m n AtB) (timeout : Duration)
    (s : Option A.σ × B.σ) (log : List (LeafCall X)) (hat : At AtA AtB m c s) :
    Act.wp (asking X) (pull_timeout A B timeout) (RowPulled n c (At AtA AtB m) id log) s log := by
  obtain ⟨_ | a, b⟩ := s
  · simp only [pull_timeout, second, Act.wp_bind, Act.wp_get, Act.next_ok, Act.wp_zoom]
    exact hB.pull_timeout timeout c b log hat
  · obtain ⟨ha, hb⟩ := hat
    have hmn := (hB.within m b hb).2
    simp only [pull_timeout, onFirst, Act.wp_bind, Act.wp_get, Act.next_ok, Act.wp_zoom]
    apply Act.wp_mono (hA.pull_timeout timeout c a log ha)
    intro r a' log' hr
    obtain ⟨q, c', calls, rfl, rfl, ha', hcalls⟩ := hr
    rw [Except.map_id] at hcalls
    rcases q with e | x | _ | _
    · exact ⟨.error e, c', calls, rfl, rfl, ⟨ha', hb⟩, hcalls.widen (by omega) (by simp)⟩
    · exact ⟨.ok (.item x), c', calls, rfl, rfl, ⟨ha', hb⟩, hcalls.widen (by omega) (by simp)⟩
    · exact ⟨.ok .idle, c', calls, rfl, rfl, ⟨ha', hb⟩, hcalls.widen (by omega) (by simp)⟩
    · apply wp_retire hA ha' hcalls.last
      · intro e
        exact ⟨.error e, m, _, rfl, List.append_assoc .., hb, hcalls.blocked hmn e⟩
      · simp only [second, Act.wp_bind, Act.wp_perform, Act.next_ok, Act.wp_zoom]
        refine ⟨trivial, ?_⟩
        rintro elapsed _ rfl
        apply Act.wp_mono (hB.pull_timeout _ m b _ hb)
        intro r b' log' hr
        obtain ⟨q, d, calls', rfl, rfl, hb', hcalls'⟩ := hr
        rw [Except.map_id] at hcalls'
        refine ⟨q, d, calls ++ .closed c' (.ok ()) :: calls', rfl, ?_, hb', ?_⟩
        · simp only [LeafCall.of, Option.toList_none, List.append_nil, List.append_assoc,
            List.singleton_append]
        · rw [Except.map_id]
          exact hcalls.append hmn hcalls'

/-- The second half of a close, whatever the first one returned. -/
theorem wp_close_second (hB : B.Row m n AtB) {b : B.σ} (hb : AtB c b)
    (first : Except BoxError Unit) {Q : Res BoxError Unit → Option A.σ × B.σ → List (LeafCall X) → Prop}
    {log : List (LeafCall X)}
    (hQ : ∀ q calls b', RowCloses n c calls q → Q (returned (both first q)) (none, b') (log ++ calls)) :
    Act.wp (asking X) (do
      let second ← Act.attempt (second A B B.close)
      answer (both first second)) Q (none, b) log := by
  simp only [second, Act.wp_bind, Act.wp_attempt, Act.wp_zoom]
  apply Act.wp_mono (hB.close c b log hb)
  intro r b' log' hr
  obtain ⟨q, calls, rfl, rfl, hcalls⟩ := hr
  have h := hQ q calls b' hcalls
  cases q <;> exact (wp_answer ..).2 h

theorem close_row (hA : A.Row k m AtA) (hB : B.Row m n AtB) (s : Option A.σ × B.σ)
    (log : List (LeafCall X)) (hat : At AtA AtB m c s) :
    Act.wp (asking X) (close A B) (fun r _ log' => RowClosed n c log r log') s log := by
  rw [close, Act.wp_bind, Act.wp_attempt]
  obtain ⟨_ | a, b⟩ := s
  · simp only [retire_first, Act.wp_bind, Act.wp_get, Act.next_ok, Act.wp_pure, Res.attempted_ok]
    apply (Act.wp_bind ..).1
    apply wp_close_second hB hat
    intro q calls b' hcalls
    exact ⟨q, calls, by cases q <;> rfl, rfl, hcalls⟩
  · obtain ⟨ha, hb⟩ := hat
    simp only [retire_first, Act.wp_bind, Act.wp_get, Act.next_ok, Act.wp_modify, Act.wp_withLocal]
    apply Act.wp_mono (hA.close c a log ha)
    intro r a' log' hr
    obtain ⟨q, calls, rfl, rfl, hcalls⟩ := hr
    cases q
    all_goals
      simp only [Act.wp_pure, returned, Res.attempted_ok, Res.attempted_halt, Act.next_ok]
      apply wp_close_second hB hb
      intro q' calls' b' hcalls'
      exact ⟨_, calls ++ calls', rfl, List.append_assoc .., hcalls.append hcalls'⟩

theorem new_row (hA : A.Row k m AtA) (hB : B.Row m n AtB) :
    (new A B).Row k n (At AtA AtB m) where
  start := ⟨hA.start, hB.start⟩
  within c s hs := by
    obtain ⟨_ | a, b⟩ := s
    · have := hB.within c b hs
      have := hA.within _ _ hA.start
      omega
    · have := hA.within c a hs.1
      have := hB.within m b hs.2
      omega
  pull c s log := pull_row hA hB s log
  pull_timeout timeout c s log := pull_timeout_row hA hB timeout s log
  close c s log := close_row hA hB s log

end ChainSource

namespace SourceTree

def At : (t : SourceTree) → (k c : Nat) → (t.source X k).σ → Prop
  | .leaf, k, c => fun _ => c = k
  | .chain first second, k, c =>
    ChainSource.At (first.At k) (second.At (k + first.leaves)) (k + first.leaves) c

/-- A tree of sources is the row of its leaves. -/
theorem row (X : Type) (t : SourceTree) (k : Nat) :
    (t.source X k).Row k (k + t.leaves) (t.At k) := by
  induction t generalizing k with
  | leaf => exact leaf_row X k
  | chain first second ihFirst ihSecond =>
    have h := ChainSource.new_row (ihFirst k) (ihSecond (k + first.leaves))
    rw [Nat.add_assoc] at h
    exact h

end SourceTree

end PipeIo
