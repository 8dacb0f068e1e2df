import PipeIo.ChainRow
import Mathlib.Data.Seq.Basic

namespace PipeIo
set_option autoImplicit true

open Lib

/-- A call of the root of a tree. -/
inductive SourceCall where
  | pull
  | pullTimeout (timeout : Duration)
  deriving DecidableEq, Repr

def Source.ask (S : Source X) : SourceCall → Act LeafEff (LeafAns X) BoxError S.σ (Pull X)
  | .pull => Pull.from <$> S.pull
  | .pullTimeout timeout => S.pull_timeout timeout

/-- What the root answered, and the calls of leaves made meanwhile. -/
structure Asked (X : Type) where
  answer : Res BoxError (Pull X)
  calls : List (LeafCall X)

/-- The calls of the root in order, and the leaves' calls that its close made. -/
structure SourceRun (X : Type) where
  asked : List (Asked X)
  closing : List (LeafCall X)

def SourceRun.log (run : SourceRun X) : List (LeafCall X) :=
  run.asked.flatMap Asked.calls ++ run.closing

/-- The leaves answer from a state of their own, which keeps the record of their calls. -/
def recording (h : (e : LeafEff) → W → LeafAns X e × W) (e : LeafEff)
    (w : W × List (LeafCall X)) : LeafAns X e × (W × List (LeafCall X)) :=
  ((h e w.1).1, (h e w.1).2, w.2 ++ (LeafCall.of e (h e w.1).1).toList)

/-- The calls of the root one after the other, then its close. -/
def Source.session (S : Source X) (h : (e : LeafEff) → W → LeafAns X e × W) :
    List SourceCall → S.σ → W → SourceRun X
  | [], s, w => ⟨[], (Prog.exec (recording h) (S.close s) (w, [])).2.2⟩
  | call :: rest, s, w =>
    let out := Prog.exec (recording h) (S.ask call s) (w, [])
    let run := S.session h rest out.1.2 out.2.1
    ⟨⟨out.1.1, out.2.2⟩ :: run.asked, run.closing⟩

/-- The leaves closed, in order. -/
def closes (log : List (LeafCall X)) : List Nat :=
  log.filterMap fun
    | .closed i _ => some i
    | .pulled .. => none

/-- What leaf `i` answered when it was pulled. -/
def answers (i : Nat) (log : List (LeafCall X)) : List (Res BoxError (Pull X)) :=
  log.filterMap fun
    | .pulled j r => if j = i then some (returned r) else none
    | .closed .. => none

/-- The items among some answers. -/
def delivered (rs : List (Res BoxError (Pull X))) : List X :=
  rs.filterMap fun
    | .ok (.item x) => some x
    | _ => none

/-- Answers that give the items of `s` in order up to `s'`, with errors and time-outs in
between; the end is reported past the last item only, and from then on no item comes. -/
def Gives : Stream'.Seq X → List (Res BoxError (Pull X)) → Stream'.Seq X → Prop
  | s, [], s' => s = s'
  | s, .ok (.item x) :: rest, s' => ∃ t, s = .cons x t ∧ Gives t rest s'
  | s, .ok .done :: rest, s' => s = .nil ∧ Gives s rest s'
  | s, .ok .idle :: rest, s' => Gives s rest s'
  | s, .halt _ :: rest, s' => Gives s rest s'
  | s, .panic :: rest, s' => Gives s rest s'

/-- The items of `k` leaves from `c` on, one leaf after the other. -/
def rowItems (items : Nat → Stream'.Seq X) : (c k : Nat) → Stream'.Seq X
  | _, 0 => .nil
  | c, k + 1 => (items c).append (rowItems items (c + 1) k)

theorem Gives.nil_left {rs : List (Res BoxError (Pull X))} {s' : Stream'.Seq X}
    (h : Gives .nil rs s') : s' = .nil := by
  induction rs with
  | nil => exact h.symm
  | cons r rest ih =>
    match r, h with
    | .ok (.item x), ⟨t, ht, _⟩ => exact absurd ht.symm (Stream'.Seq.cons_ne_nil)
    | .ok .done, h => exact ih h.2
    | .ok .idle, h => exact ih h
    | .halt _, h => exact ih h
    | .panic, h => exact ih h

theorem Gives.append_eq {rs : List (Res BoxError (Pull X))} {s s' : Stream'.Seq X}
    (h : Gives s rs s') : s = (Stream'.Seq.ofList (delivered rs)).append s' := by
  induction rs generalizing s with
  | nil =>
    rw [delivered, List.filterMap_nil, Stream'.Seq.ofList_nil, Stream'.Seq.nil_append]
    exact h
  | cons r rest ih =>
    match r, h with
    | .ok (.item x), h =>
      obtain ⟨t, ht, h⟩ := h
      have hd : delivered (.ok (.item x) :: rest) = x :: delivered rest := rfl
      rw [hd, ht, Stream'.Seq.ofList_cons, Stream'.Seq.cons_append, ← ih h]
    | .ok .done, h => exact ih h.2
    | .ok .idle, h => exact ih h
    | .halt _, h => exact ih h
    | .panic, h => exact ih h

theorem Gives.ended {rs : List (Res BoxError (Pull X))} {s s' : Stream'.Seq X}
    (h : Gives s rs s') (hend : .ok .done ∈ rs) : s' = .nil := by
  induction rs generalizing s with
  | nil => cases hend
  | cons r rest ih =>
    match r, h, hend with
    | .ok .done, h, _ =>
      obtain ⟨rfl, h⟩ := h
      exact h.nil_left
    | .ok (.item x), h, hend =>
      obtain ⟨t, _, h⟩ := h
      exact ih h ((List.mem_cons.1 hend).resolve_left nofun)
    | .ok .idle, h, hend => exact ih (s := s) h ((List.mem_cons.1 hend).resolve_left nofun)
    | .halt _, h, hend => exact ih (s := s) h ((List.mem_cons.1 hend).resolve_left nofun)
    | .panic, h, hend => exact ih (s := s) h ((List.mem_cons.1 hend).resolve_left nofun)

theorem rowItems_congr {items items' : Nat → Stream'.Seq X} {c k : Nat}
    (h : ∀ i, c ≤ i → items i = items' i) : rowItems items c k = rowItems items' c k := by
  induction k generalizing c with
  | zero => rfl
  | succ k ih => rw [rowItems, rowItems, h c (Nat.le_refl c), ih fun i hi => h i (by omega)]

/-- A leaf that has reported its end leaves the row to those right of it. -/
theorem rowItems_ended {items : Nat → Stream'.Seq X} {c n : Nat} (hc : c < n)
    (h : items c = .nil) : rowItems items c (n - c) = rowItems items (c + 1) (n - (c + 1)) := by
  have hn : n - c = n - (c + 1) + 1 := by omega
  rw [hn, rowItems, h, Stream'.Seq.nil_append]

@[simp] theorem answers_nil (i : Nat) : answers i ([] : List (LeafCall X)) = [] := rfl

@[simp] theorem answers_closed (i j : Nat) (r : Except BoxError Unit) (calls : List (LeafCall X)) :
    answers i (.closed j r :: calls) = answers i calls := rfl

theorem answers_same (i : Nat) (r : Except BoxError (Pull X)) (calls : List (LeafCall X)) :
    answers i (.pulled i r :: calls) = returned r :: answers i calls := by
  simp only [answers, List.filterMap_cons, if_true]

theorem answers_other {i j : Nat} (h : j ≠ i) (r : Except BoxError (Pull X))
    (calls : List (LeafCall X)) : answers i (.pulled j r :: calls) = answers i calls := by
  simp only [answers, List.filterMap_cons, if_neg h]

/-- A pull of the row gives what the rows of items say. -/
theorem RowPulls.gives {calls : List (LeafCall X)} {q : Except BoxError (Pull X)} {n c c' : Nat}
    {items items' : Nat → Stream'.Seq X} (h : RowPulls n c calls q c') (hc : c < n)
    (hg : ∀ i, Gives (items i) (answers i calls) (items' i)) :
    Gives (rowItems items c (n - c)) [returned q] (rowItems items' c' (n - c')) := by
  induction h with
  | @stays r c hr =>
    have hat := hg c
    rw [answers_same] at hat
    have hrest : ∀ i, c + 1 ≤ i → items i = items' i := by
      intro i hi
      have hother := hg i
      rwa [answers_other (by omega)] at hother
    obtain ⟨k, hk⟩ : ∃ k, n - c = k + 1 := ⟨n - c - 1, by omega⟩
    rw [hk, rowItems, rowItems, rowItems_congr hrest]
    match r, hr, hat with
    | .ok (.item x), _, hat =>
      obtain ⟨t, ht, hat⟩ := hat
      cases hat
      refine ⟨_, ?_, rfl⟩
      rw [ht, Stream'.Seq.cons_append]
    | .ok .done, hr, _ => exact absurd rfl hr
    | .ok .idle, _, hat =>
      have hsame : items c = items' c := hat
      rw [hsame]
      rfl
    | .error _, _, hat =>
      have hsame : items c = items' c := hat
      rw [hsame]
      rfl
  | @ends c hn =>
    have hat := hg c
    rw [answers_same] at hat
    obtain ⟨hnil, hsame⟩ := hat
    have hsame : items c = items' c := hsame
    have hk : n - c = 0 + 1 := by omega
    rw [hk, rowItems, rowItems, rowItems, rowItems, ← hsame, hnil, Stream'.Seq.nil_append]
    exact ⟨rfl, rfl⟩
  | @fails c e hn =>
    have hat := hg c
    rw [answers_same] at hat
    rw [rowItems_ended hc hat.1]
    apply rowItems_congr
    intro i hi
    have hother := hg i
    rwa [answers_other (by omega)] at hother
  | @goes c calls r c' hn h ih =>
    have hat := hg c
    rw [answers_same] at hat
    rw [rowItems_ended hc hat.1]
    apply ih hn
    intro i
    by_cases hi : c = i
    · rw [← hi]
      exact hat.2
    · have hother := hg i
      rwa [answers_other hi] at hother

/-- The calls of leaves from a row whose first `c` leaves are closed to one whose first `d`
are: only the leaf at hand is pulled and closed. -/
def Orderly : Nat → List (LeafCall X) → Nat → Prop
  | c, [], d => c = d
  | c, .pulled i _ :: rest, d => i = c ∧ Orderly c rest d
  | c, .closed i _ :: rest, d => i = c ∧ Orderly (c + 1) rest d

theorem Orderly.append {calls calls' : List (LeafCall X)} {c d e : Nat} (h : Orderly c calls d)
    (h' : Orderly d calls' e) : Orderly c (calls ++ calls') e := by
  induction calls generalizing c with
  | nil =>
    have hc : c = d := h
    rw [hc]
    exact h'
  | cons call rest ih =>
    cases call with
    | pulled i r => exact ⟨h.1, ih h.2⟩
    | closed i r => exact ⟨h.1, ih h.2⟩

theorem Orderly.split {calls calls' : List (LeafCall X)} {c e : Nat}
    (h : Orderly c (calls ++ calls') e) : ∃ d, Orderly c calls d ∧ Orderly d calls' e := by
  induction calls generalizing c with
  | nil => exact ⟨c, rfl, h⟩
  | cons call rest ih =>
    cases call with
    | pulled i r =>
      obtain ⟨d, hrest, h'⟩ := ih h.2
      exact ⟨d, ⟨h.1, hrest⟩, h'⟩
    | closed i r =>
      obtain ⟨d, hrest, h'⟩ := ih h.2
      exact ⟨d, ⟨h.1, hrest⟩, h'⟩

/-- The leaves closed are those in between, each once. -/
theorem Orderly.closes_eq {calls : List (LeafCall X)} {c d : Nat} (h : Orderly c calls d) :
    c ≤ d ∧ closes calls = List.range' c (d - c) := by
  induction calls generalizing c with
  | nil =>
    have hc : c = d := h
    rw [hc, Nat.sub_self]
    exact ⟨Nat.le_refl d, rfl⟩
  | cons call rest ih =>
    cases call with
    | pulled i r => exact ih h.2
    | closed i r =>
      obtain ⟨hle, heq⟩ := ih h.2
      have hk : d - c = (d - (c + 1)) + 1 := by omega
      refine ⟨by omega, ?_⟩
      rw [hk, List.range'_succ, ← heq, ← h.1]
      rfl

theorem RowPulls.orderly {calls : List (LeafCall X)} {q : Except BoxError (Pull X)} {n c c' : Nat}
    (h : RowPulls n c calls q c') : Orderly c calls c' := by
  induction h with
  | stays | ends => exact ⟨rfl, rfl⟩
  | fails => exact ⟨rfl, rfl, rfl⟩
  | goes _ _ ih => exact ⟨rfl, rfl, ih⟩

theorem RowCloses.orderly {calls : List (LeafCall X)} {q : Except BoxError Unit} {n c : Nat}
    (h : RowCloses n c calls q) : Orderly c calls n := by
  induction h with
  | nil => rfl
  | cons _ ih => exact ⟨rfl, ih⟩

theorem RowPulls.asks_first {calls : List (LeafCall X)} {q : Except BoxError (Pull X)} {n c c' : Nat}
    (h : RowPulls n c calls q c') : ∃ r rest, calls = .pulled c r :: rest := by
  cases h with
  | stays | ends | fails | goes => exact ⟨_, _, rfl⟩

theorem RowPulls.lt {calls : List (LeafCall X)} {q : Except BoxError (Pull X)} {n c c' : Nat}
    (h : RowPulls n c calls q c') (hc : c < n) : c' < n := by
  induction h with
  | stays | ends => exact hc
  | fails hlt => exact hlt
  | goes hlt _ ih => exact ih hlt

/-- A failed close ends the pull; the leaf counts as closed. -/
theorem RowPulls.close_failed {calls : List (LeafCall X)} {q : Except BoxError (Pull X)}
    {n c c' i : Nat} {e : BoxError} (h : RowPulls n c calls q c') (he : .closed i (.error e) ∈ calls) :
    q = .error e ∧ c' = i + 1 := by
  induction h with
  | stays | ends =>
    have := List.mem_singleton.1 he
    cases this
  | fails =>
    have hlast := List.mem_singleton.1 ((List.mem_cons.1 he).resolve_left nofun)
    cases hlast
    exact ⟨rfl, rfl⟩
  | goes _ _ ih =>
    have hrest := (List.mem_cons.1 he).resolve_left nofun
    exact ih ((List.mem_cons.1 hrest).resolve_left nofun)

/-- A run over a row whose first `c` leaves are closed. -/
inductive RowRun {X : Type} (n : Nat) : Nat → List (Asked X) → List (LeafCall X) → Prop where
  | close (h : RowCloses n c calls q) : RowRun n c [] calls
  | ask {rest : List (Asked X)} (ha : a.answer = returned q) (h : RowPulls n c a.calls q c')
      (hrest : RowRun n c' rest closing) : RowRun n c (a :: rest) closing

theorem Gives.split {rs rs' : List (Res BoxError (Pull X))} {s s' : Stream'.Seq X}
    (h : Gives s (rs ++ rs') s') : ∃ t, Gives s rs t ∧ Gives t rs' s' := by
  induction rs generalizing s with
  | nil => exact ⟨s, rfl, h⟩
  | cons r rest ih =>
    match r, h with
    | .ok (.item x), h =>
      obtain ⟨t, ht, h⟩ := h
      obtain ⟨u, hrest, h'⟩ := ih h
      exact ⟨u, ⟨t, ht, hrest⟩, h'⟩
    | .ok .done, h =>
      obtain ⟨u, hrest, h'⟩ := ih h.2
      exact ⟨u, ⟨h.1, hrest⟩, h'⟩
    | .ok .idle, h => exact ih h
    | .halt _, h => exact ih h
    | .panic, h => exact ih h

theorem Gives.append {rs rs' : List (Res BoxError (Pull X))} {s t s' : Stream'.Seq X}
    (h : Gives s rs t) (h' : Gives t rs' s') : Gives s (rs ++ rs') s' := by
  induction rs generalizing s with
  | nil =>
    have hs : s = t := h
    rw [hs]
    exact h'
  | cons r rest ih =>
    match r, h with
    | .ok (.item x), h =>
      obtain ⟨u, hu, h⟩ := h
      exact ⟨u, hu, ih h⟩
    | .ok .done, h => exact ⟨h.1, ih h.2⟩
    | .ok .idle, h => exact ih h
    | .halt _, h => exact ih h
    | .panic, h => exact ih h

theorem Gives.split_calls {calls calls' : List (LeafCall X)} {items items' : Nat → Stream'.Seq X}
    (h : ∀ i, Gives (items i) (answers i (calls ++ calls')) (items' i)) :
    ∃ middle : Nat → Stream'.Seq X, (∀ i, Gives (items i) (answers i calls) (middle i)) ∧
      ∀ i, Gives (middle i) (answers i calls') (items' i) := by
  have hsplit : ∀ i, ∃ t, Gives (items i) (answers i calls) t ∧
      Gives t (answers i calls') (items' i) := by
    intro i
    have hi := h i
    rw [answers, List.filterMap_append] at hi
    exact hi.split
  choose middle hfirst hlast using hsplit
  exact ⟨middle, hfirst, hlast⟩

namespace RowRun

variable {n c : Nat} {asked : List (Asked X)} {closing : List (LeafCall X)}

theorem orderly (h : RowRun n c asked closing) :
    Orderly c (asked.flatMap Asked.calls ++ closing) n := by
  induction h with
  | close h => exact h.orderly
  | ask _ h _ ih =>
    rw [List.flatMap_cons, List.append_assoc]
    exact h.orderly.append ih

theorem skip {before after : List (Asked X)} (h : RowRun n c (before ++ after) closing) :
    ∃ d, RowRun n d after closing := by
  induction before generalizing c with
  | nil => exact ⟨c, h⟩
  | cons a rest ih =>
    cases h with
    | ask _ _ hrest => exact ih hrest

/-- Past a failed close the run goes on with the next leaf. -/
theorem after_failed {a b : Asked X} {rest : List (Asked X)} {i : Nat} {e : BoxError}
    (h : RowRun n c (a :: b :: rest) closing) (he : .closed i (.error e) ∈ a.calls) :
    a.answer = .halt e ∧ ∃ r calls, b.calls = .pulled (i + 1) r :: calls := by
  cases h with
  | ask ha hpulls hrest =>
    obtain ⟨rfl, rfl⟩ := hpulls.close_failed he
    refine ⟨ha, ?_⟩
    cases hrest with
    | ask _ hnext _ => exact hnext.asks_first

/-- The root gives the items of the row. -/
theorem gives (h : RowRun n c asked closing) (hc : c < n) {items items' : Nat → Stream'.Seq X}
    (hg : ∀ i, Gives (items i) (answers i (asked.flatMap Asked.calls)) (items' i)) :
    ∃ s', Gives (rowItems items c (n - c)) (asked.map Asked.answer) s' := by
  induction h generalizing items with
  | close => exact ⟨_, rfl⟩
  | ask ha hpulls hrest ih =>
    rw [List.flatMap_cons] at hg
    obtain ⟨middle, hfirst, hlast⟩ := Gives.split_calls hg
    obtain ⟨s', hs'⟩ := ih (hpulls.lt hc) hlast
    have hone := hpulls.gives hc hfirst
    rw [← ha] at hone
    exact ⟨s', hone.append hs'⟩

end RowRun

theorem keeps_asking (h : (e : LeafEff) → W → LeafAns X e × W) :
    Prog.Keeps (asking X) (fun w log => w.2 = log) (recording h) := by
  rintro e w log rfl _
  exact ⟨_, rfl, rfl⟩

namespace Source.Row

variable {S : Source X} {k n c : Nat} {At : Nat → S.σ → Prop}

theorem ask (hS : S.Row k n At) (call : SourceCall) {s : S.σ} (log : List (LeafCall X))
    (hat : At c s) : Act.wp (asking X) (S.ask call) (RowPulled n c At id log) s log := by
  cases call with
  | pull =>
    rw [Source.ask, Act.wp_map]
    apply Act.wp_mono (hS.pull c s log hat)
    intro r s' log' hr
    obtain ⟨q, c', calls, rfl, rfl, hat', hcalls⟩ := hr
    cases q with
    | ok a => exact ⟨.ok (Pull.from a), c', calls, rfl, rfl, hat', hcalls⟩
    | error e => exact ⟨.error e, c', calls, rfl, rfl, hat', hcalls⟩
  | pullTimeout timeout => exact hS.pull_timeout timeout c s log hat

theorem session (hS : S.Row k n At) (h : (e : LeafEff) → W → LeafAns X e × W)
    (calls : List SourceCall) {s : S.σ} (w : W) (hat : At c s) :
    RowRun n c (S.session h calls s w).asked (S.session h calls s w).closing := by
  induction calls generalizing c s w with
  | nil =>
    have hwp := hS.close c s ((w, []) : W × List (LeafCall X)).2 hat
    obtain ⟨log, hlog, hrow⟩ := Prog.wp_exec (keeps_asking h) rfl hwp
    obtain ⟨q, calls, _, rfl, hcalls⟩ := hrow
    rw [← hlog] at hcalls
    exact .close hcalls
  | cons call rest ih =>
    have hwp := hS.ask call ((w, []) : W × List (LeafCall X)).2 hat
    obtain ⟨log, hlog, hrow⟩ := Prog.wp_exec (keeps_asking h) rfl hwp
    obtain ⟨q, c', calls, ha, rfl, hat', hcalls⟩ := hrow
    rw [← hlog, Except.map_id] at hcalls
    exact .ask ha hcalls (ih _ hat')

end Source.Row

/-- However sources are chained, whatever is asked of the chain before it is closed, and
whatever the leaves answer: every leaf is closed once, from left to right; a leaf is pulled
when just those left of it are closed; past a failed close the next call asks the next leaf;
and the items are those of the leaves from left to right, all of them once the end was
reported. -/
theorem chained_once (t : SourceTree) (h : (e : LeafEff) → W → LeafAns X e × W) (w : W)
    (calls : List SourceCall) :
    let run := (t.source X 0).session h calls (t.source X 0).init w
    closes run.log = List.range t.leaves ∧
      (∀ before i r after, run.log = before ++ .pulled i r :: after → closes before = List.range i) ∧
      (∀ before a b after i e, run.asked = before ++ a :: b :: after →
        .closed i (.error e) ∈ a.calls →
        a.answer = .halt e ∧ ∃ r rest, b.calls = .pulled (i + 1) r :: rest) ∧
      ∀ items left : Nat → Stream'.Seq X, (∀ i, Gives (items i) (answers i run.log) (left i)) →
        ∃ rest, rowItems items 0 t.leaves =
            (Stream'.Seq.ofList (delivered (run.asked.map Asked.answer))).append rest ∧
          (.ok .done ∈ run.asked.map Asked.answer → rest = .nil) := by
  intro run
  have hrow := t.row X 0
  rw [Nat.zero_add] at hrow
  have hrun : RowRun t.leaves 0 run.asked run.closing := hrow.session h calls w hrow.start
  have horder : Orderly 0 run.log t.leaves := hrun.orderly
  refine ⟨?_, ?_, ?_, ?_⟩
  · rw [horder.closes_eq.2, List.range_eq_range']
    rfl
  · intro before i r after hlog
    rw [hlog] at horder
    obtain ⟨d, hbefore, hpulled⟩ := horder.split
    rw [hbefore.closes_eq.2, hpulled.1, List.range_eq_range']
    rfl
  · intro before a b after i e hasked he
    rw [hasked] at hrun
    obtain ⟨d, hrun⟩ := hrun.skip
    exact hrun.after_failed he
  · intro items left hitems
    obtain ⟨middle, hfirst, _⟩ := Gives.split_calls hitems
    obtain ⟨rest, hgives⟩ := hrun.gives (hrow.within 0 _ hrow.start).2 hfirst
    exact ⟨rest, hgives.append_eq, hgives.ended⟩

/-- Leaves that give the items of lists; the close of leaf 1 fails. -/
def listLeaves : (e : LeafEff) → (Nat → List X) → LeafAns X e × (Nat → List X)
  | .pull i, s => (.ok (s i).head?, fun j => if j = i then (s i).tail else s j)
  | .pullTimeout i _, s =>
    (.ok (Pull.from (s i).head?), fun j => if j = i then (s i).tail else s j)
  | .close i, s => (if i = 1 then .error "close broke" else .ok (), s)
  | .elapsed, s => (0, s)

def threeItems (i : Nat) : List Nat :=
  if i = 0 then [10] else if i = 2 then [20] else []

/-- The second of three leaves is empty and fails to close. -/
def threeLeaves : SourceRun Nat :=
  let S := (SourceTree.chain (.chain .leaf .leaf) .leaf).source Nat 0
  S.session listLeaves [.pull, .pullTimeout 5, .pull, .pullTimeout 5] S.init threeItems

theorem threeLeaves_log : threeLeaves.log =
    [.pulled 0 (.ok (.item 10)), .pulled 0 (.ok .done), .closed 0 (.ok ()),
      .pulled 1 (.ok .done), .closed 1 (.error "close broke"), .pulled 2 (.ok (.item 20)),
      .pulled 2 (.ok .done), .closed 2 (.ok ())] := by
  decide +kernel

theorem threeLeaves_asked : threeLeaves.asked.map Asked.answer =
    [.ok (.item 10), .halt "close broke", .ok (.item 20), .ok .done] := by
  decide +kernel

theorem threeLeaves_gives (i : Nat) :
    Gives (.ofList (threeItems i)) (answers i threeLeaves.log) .nil := by
  rw [threeLeaves_log]
  match i with
  | 0 => exact ⟨_, Stream'.Seq.ofList_cons .., Stream'.Seq.ofList_nil, Stream'.Seq.ofList_nil⟩
  | 1 => exact ⟨Stream'.Seq.ofList_nil, Stream'.Seq.ofList_nil⟩
  | 2 => exact ⟨_, Stream'.Seq.ofList_cons .., Stream'.Seq.ofList_nil, Stream'.Seq.ofList_nil⟩
  | i + 3 => exact Stream'.Seq.ofList_nil

theorem chained_once_three : closes threeLeaves.log = [0, 1, 2] ∧
    rowItems (fun i => .ofList (threeItems i)) 0 3 = Stream'.Seq.ofList [10, 20] := by
  obtain ⟨hcloses, _, _, hgives⟩ := chained_once (.chain (.chain .leaf .leaf) .leaf) listLeaves
    threeItems [.pull, .pullTimeout 5, .pull, .pullTimeout 5]
  refine ⟨hcloses, ?_⟩
  obtain ⟨rest, hrow, hend⟩ := hgives _ _ threeLeaves_gives
  have hnil := hend (by
    rw [← threeLeaves, threeLeaves_asked]
    simp)
  rw [hnil, Stream'.Seq.append_nil] at hrow
  refine hrow.trans ?_
  rw [← threeLeaves, threeLeaves_asked]
  rfl

end PipeIo
