import Mathlib.Data.List.SplitBy
import Mathlib.Tactic.Common

namespace PipeIo.Lib
set_option autoImplicit true

variable {α : Type u} {W : Type v} {m : Nat} {l : List α} {a : α}

/-- The consecutive pieces of `m` elements of a list, each with what comes before it. The last one
may be shorter. -/
def cuts (m : Nat) (l : List α) : List (List α × List α) :=
  (List.range ((l.length + m - 1) / m)).map fun i => (l.take (i * m), (l.drop (i * m)).take m)

/-- The consecutive pieces of `m` elements of a list. -/
def pieces (m : Nat) (l : List α) : List (List α) := (cuts m l).map Prod.snd

/-- Windows that depend on the pieces alone. -/
theorem map_cuts (gs : List (List α)) (window : List α → W) :
    (gs.flatMap (cuts m)).map (fun cut => window cut.2) = (gs.flatMap (pieces m)).map window := by
  simp only [pieces, List.map_flatMap, List.map_map, Function.comp_def]

/-- The pieces of a list make up the list. -/
theorem cuts_flatMap (hm : 0 < m) (l : List α) : (cuts m l).flatMap Prod.snd = l := by
  have htake : ∀ n, (List.range n).flatMap (fun i => (l.drop (i * m)).take m) = l.take (n * m) := by
    intro n
    induction n with
    | zero => simp
    | succ n ih =>
      rw [List.range_succ, List.flatMap_append, ih, Nat.succ_mul, List.take_add]
      simp
  have hlen : l.length ≤ (l.length + m - 1) / m * m := by
    have hdiv := Nat.div_add_mod' (l.length + m - 1) m
    have hmod := Nat.mod_lt (l.length + m - 1) hm
    omega
  rw [cuts, List.flatMap_map]
  exact (htake _).trans (List.take_of_length_le hlen)

theorem cuts_ne_nil {cut : List α × List α} (hm : 0 < m) (h : cut ∈ cuts m l) : cut.2 ≠ [] := by
  obtain ⟨i, hi, rfl⟩ := List.mem_map.1 h
  have hlt := Nat.mul_le_mul_right m (List.mem_range.1 hi)
  have hdiv := Nat.div_mul_le_self (l.length + m - 1) m
  rw [Nat.succ_mul] at hlt
  intro hnil
  have hzero := congrArg List.length hnil
  rw [List.length_take, List.length_drop, List.length_nil] at hzero
  omega

/-- The cuts of exactly `m` elements. -/
def whole (m : Nat) (l : List α) : List (List α × List α) :=
  (List.range (l.length / m)).map fun i => (l.take (i * m), (l.drop (i * m)).take m)

/-- What comes before the last cut, if that is shorter. -/
def done (m : Nat) (l : List α) : List α := l.take (l.length / m * m)

/-- The last cut, if it is shorter. -/
def rest (m : Nat) (l : List α) : List α := l.drop (l.length / m * m)

theorem rest_length (m : Nat) (l : List α) : (rest m l).length = l.length % m := by
  have hmod := Nat.mod_add_div' l.length m
  rw [rest, List.length_drop]
  omega

theorem done_append_rest (m : Nat) (l : List α) : done m l ++ rest m l = l :=
  List.take_append_drop _ l

@[simp] theorem whole_nil (m : Nat) : whole m ([] : List α) = [] := by
  simp [whole]

@[simp] theorem rest_nil (m : Nat) : rest m ([] : List α) = [] := List.drop_nil

@[simp] theorem cuts_nil (m : Nat) : cuts m ([] : List α) = [] := by
  have hzero : (0 + m - 1) / m = 0 := by
    rcases Nat.eq_zero_or_pos m with rfl | hm
    · rfl
    · exact Nat.div_eq_of_lt (by omega)
  rw [cuts, List.length_nil, hzero]
  rfl

theorem cuts_eq (hm : 0 < m) (l : List α) :
    cuts m l = whole m l ++ if rest m l = [] then [] else [(done m l, rest m l)] := by
  have hlen := rest_length m l
  have hmod := Nat.mod_add_div' l.length m
  have hlt := Nat.mod_lt l.length hm
  by_cases hrest : rest m l = []
  · rw [if_pos hrest, List.append_nil, cuts, whole]
    have hzero : l.length % m = 0 := by
      rw [← hlen, hrest]
      rfl
    have hdiv : (l.length + m - 1) / m = l.length / m := by
      rw [Nat.div_eq_iff hm]
      omega
    rw [hdiv]
  · rw [if_neg hrest, cuts, whole]
    have hpos : 0 < l.length % m := by
      rw [← hlen]
      exact List.length_pos_iff.2 hrest
    have hdiv : (l.length + m - 1) / m = l.length / m + 1 := by
      rw [Nat.div_eq_iff hm, Nat.add_mul]
      omega
    have htake : (rest m l).take m = rest m l := by
      apply List.take_of_length_le
      omega
    rw [hdiv, List.range_succ, List.map_append, List.map_singleton]
    exact congrArg (fun p => _ ++ [(_, p)]) htake

/-- A cut that is complete stays as it is. -/
theorem cut_concat {i : Nat} (h : i * m + m ≤ l.length) (a : α) :
    ((l ++ [a]).take (i * m), ((l ++ [a]).drop (i * m)).take m) =
      (l.take (i * m), (l.drop (i * m)).take m) := by
  have hle : i * m ≤ l.length := by omega
  have hdrop : m ≤ (l.drop (i * m)).length := by
    rw [List.length_drop]
    omega
  rw [List.take_append_of_le_length hle, List.drop_append_of_le_length hle,
    List.take_append_of_le_length hdrop]

theorem whole_same (h : (l ++ [a]).length / m = l.length / m) : whole m (l ++ [a]) = whole m l := by
  rw [whole, whole, h]
  apply List.map_congr_left
  intro i hi
  have hlt := Nat.mul_le_mul_right m (List.mem_range.1 hi)
  have hle := Nat.div_mul_le_self l.length m
  rw [Nat.succ_mul] at hlt
  exact cut_concat (by omega) a

/-- An element that does not complete the last cut. -/
theorem concat_short (a : α) (hm : 0 < m) (h : (rest m l).length + 1 < m) :
    whole m (l ++ [a]) = whole m l ∧ rest m (l ++ [a]) = rest m l ++ [a] ∧
      done m (l ++ [a]) = done m l := by
  rw [rest_length] at h
  have hmod := Nat.mod_add_div' l.length m
  have hdiv : (l ++ [a]).length / m = l.length / m := by
    rw [List.length_append, List.length_singleton, Nat.div_eq_iff hm]
    omega
  have hle := Nat.div_mul_le_self l.length m
  refine ⟨whole_same hdiv, ?_, ?_⟩
  · rw [rest, rest, hdiv, List.drop_append_of_le_length hle]
  · rw [done, done, hdiv, List.take_append_of_le_length hle]

/-- An element that completes the last cut. -/
theorem concat_full (a : α) (hm : 0 < m) (h : m ≤ (rest m l).length + 1) :
    whole m (l ++ [a]) = whole m l ++ [(done m l, rest m l ++ [a])] ∧ rest m (l ++ [a]) = [] := by
  have hrest := rest_length m l
  rw [rest_length] at h
  have hmod := Nat.mod_add_div' l.length m
  have hlt := Nat.mod_lt l.length hm
  have hdiv : (l ++ [a]).length / m = l.length / m + 1 := by
    rw [List.length_append, List.length_singleton, Nat.div_eq_iff hm, Nat.add_mul]
    omega
  have hle := Nat.div_mul_le_self l.length m
  constructor
  · rw [whole, hdiv, List.range_succ, List.map_append, List.map_singleton]
    congr 1
    · apply List.map_congr_left
      intro i hi
      have hlt := Nat.mul_le_mul_right m (List.mem_range.1 hi)
      rw [Nat.succ_mul] at hlt
      exact cut_concat (by omega) a
    · have htake : (rest m l ++ [a]).take m = rest m l ++ [a] := by
        apply List.take_of_length_le
        rw [List.length_append, List.length_singleton]
        omega
      rw [List.take_append_of_le_length hle, List.drop_append_of_le_length hle]
      exact congrArg (fun p => [(_, p)]) htake
  · rw [← List.length_eq_zero_iff, rest_length, List.length_append, List.length_singleton]
    apply Nat.mod_eq_zero_of_dvd
    refine ⟨l.length / m + 1, ?_⟩
    rw [Nat.mul_comm, Nat.add_mul]
    omega

section Runs

variable {same : α → α → Bool} {gs : List (List α)} {g : List α}

theorem getLast?_of_splitBy (h : l.splitBy same = gs ++ [g]) : l.getLast? = g.getLast? ∧ g ≠ [] := by
  have hg : g ≠ [] := List.ne_nil_of_mem_splitBy (h ▸ List.mem_append_right gs List.mem_cons_self)
  refine ⟨?_, hg⟩
  rw [← List.flatten_splitBy same l, h, List.flatten_append, List.flatten_singleton,
    List.getLast?_append, List.getLast?_eq_some_getLast hg, Option.some_or]

/-- An element that begins a run. -/
theorem splitBy_concat_new (h : ∀ b ∈ l.getLast?, same b a = false) :
    (l ++ [a]).splitBy same = l.splitBy same ++ [[a]] := by
  apply List.splitBy_append
  intro b hb c hc
  cases hc
  exact h b hb

/-- An element that goes on with the last run. -/
theorem splitBy_concat_same {b : α} (h : l.splitBy same = gs ++ [g]) (hb : l.getLast? = some b)
    (hsame : same b a = true) : (l ++ [a]).splitBy same = gs ++ [g ++ [a]] := by
  obtain ⟨hlast, hg⟩ := getLast?_of_splitBy h
  obtain ⟨hl, hnil, hchain, hbreak⟩ := List.splitBy_eq_iff.1 h
  obtain ⟨hgs, -, hborder⟩ := List.isChain_append.1 hbreak
  rw [hlast] at hb
  rw [List.splitBy_eq_iff]
  refine ⟨?_, ?_, fun run hrun => ?_, List.isChain_append.2 ⟨hgs, List.isChain_singleton _, ?_⟩⟩
  · simp [hl]
  · intro hmem
    rcases List.mem_append.1 hmem with hmem | hmem
    · exact hnil (List.mem_append_left _ hmem)
    · simp at hmem
  · rcases List.mem_append.1 hrun with hrun | hrun
    · exact hchain run (List.mem_append_left _ hrun)
    · cases List.mem_singleton.1 hrun
      refine List.isChain_append.2 ⟨hchain g (List.mem_append_right _ List.mem_cons_self),
        List.isChain_singleton a, fun x hx y hy => ?_⟩
      cases hb.symm.trans hx
      cases hy
      exact hsame
  · intro x hx y hy
    cases hy
    obtain ⟨hx', hg', hnot⟩ := hborder x hx g rfl
    exact ⟨hx', by simp, by rw [List.head_append_of_ne_nil hg]; exact hnot⟩

end Runs

section Grouped

variable {same : α → α → Bool} {window : List α × List α → W} {arrived : List α} {out : List W}
  {before items : List α}

/-- All that has arrived is grouped into windows: one for each cut of each run. -/
def Closed (same : α → α → Bool) (m : Nat) (window : List α × List α → W) (arrived : List α)
    (out : List W) : Prop :=
  out = ((arrived.splitBy same).flatMap (cuts m)).map window

/-- The last run is still open, with `items` after its last whole cut. -/
def Opened (same : α → α → Bool) (m : Nat) (window : List α × List α → W) (arrived : List α)
    (out : List W) (before items : List α) : Prop :=
  ∃ gs g, arrived.splitBy same = gs ++ [g] ∧ before = done m g ∧ items = rest m g ∧
    out = (gs.flatMap (cuts m) ++ whole m g).map window

/-- An element may be added to `items`, either in the last run or in a new one. -/
def Takes (same : α → α → Bool) (m : Nat) (window : List α × List α → W) (arrived : List α)
    (out : List W) (before items : List α) (a : α) : Prop :=
  Opened same m window arrived out before items ∧
      (∃ b, arrived.getLast? = some b ∧ same b a = true) ∨
    Closed same m window arrived out ∧ before = [] ∧ items = [] ∧
      ∀ b ∈ arrived.getLast?, same b a = false

theorem Closed.nil : Closed same m window [] [] := rfl

theorem Closed.takes (h : Closed same m window arrived out)
    (hbreak : ∀ b ∈ arrived.getLast?, same b a = false) : Takes same m window arrived out [] [] a :=
  .inr ⟨h, rfl, rfl, hbreak⟩

theorem Opened.takes {b : α} (h : Opened same m window arrived out before items)
    (hb : arrived.getLast? = some b) (hsame : same b a = true) :
    Takes same m window arrived out before items a :=
  .inl ⟨h, b, hb, hsame⟩

theorem Opened.getLast? (h : Opened same m window arrived out before items) :
    ∃ b, arrived.getLast? = some b := by
  obtain ⟨gs, g, hsplit, -⟩ := h
  obtain ⟨hlast, hg⟩ := getLast?_of_splitBy hsplit
  exact ⟨g.getLast hg, hlast.trans (List.getLast?_eq_some_getLast hg)⟩

/-- What is open ends with what has arrived last. -/
theorem Opened.getLast?_append (h : Opened same m window arrived out before items) :
    (before ++ items).getLast? = arrived.getLast? := by
  obtain ⟨gs, g, hsplit, rfl, rfl, -⟩ := h
  rw [done_append_rest, (getLast?_of_splitBy hsplit).1]

theorem Opened.length_lt (h : Opened same m window arrived out before items) (hm : 0 < m) :
    items.length < m := by
  obtain ⟨gs, g, -, -, rfl, -⟩ := h
  rw [rest_length]
  exact Nat.mod_lt _ hm

/-- The last run ends. -/
theorem Opened.close (h : Opened same m window arrived out before items) (hm : 0 < m) :
    Closed same m window arrived (out ++ if items = [] then [] else [window (before, items)]) := by
  obtain ⟨gs, g, hsplit, rfl, rfl, rfl⟩ := h
  rw [Closed, hsplit, List.flatMap_append, List.flatMap_singleton, cuts_eq hm]
  split
  · simp
  · simp

/-- The run that the element joins. -/
theorem Takes.run (h : Takes same m window arrived out before items a) :
    ∃ gs g, (arrived ++ [a]).splitBy same = gs ++ [g ++ [a]] ∧ before = done m g ∧
      items = rest m g ∧ out = (gs.flatMap (cuts m) ++ whole m g).map window := by
  rcases h with ⟨⟨gs, g, hsplit, hbefore, hitems, hout⟩, b, hb, hsame⟩ | ⟨hout, rfl, rfl, hbreak⟩
  · exact ⟨gs, g, splitBy_concat_same hsplit hb hsame, hbefore, hitems, hout⟩
  · refine ⟨arrived.splitBy same, [], splitBy_concat_new hbreak, ?_, (rest_nil m).symm, ?_⟩
    · rw [done, List.take_nil]
    · rw [whole_nil, List.append_nil]
      exact hout

theorem Takes.short (h : Takes same m window arrived out before items a)
    (hm : items.length + 1 < m) :
    Opened same m window (arrived ++ [a]) out before (items ++ [a]) := by
  obtain ⟨gs, g, hsplit, rfl, rfl, rfl⟩ := h.run
  obtain ⟨hwhole, hrest, hdone⟩ := concat_short a (Nat.zero_lt_of_lt hm) hm
  exact ⟨gs, g ++ [a], hsplit, hdone.symm, hrest.symm, by rw [hwhole]⟩

theorem Takes.full (h : Takes same m window arrived out before items a) (hpos : 0 < m)
    (hm : m ≤ items.length + 1) :
    Opened same m window (arrived ++ [a]) (out ++ [window (before, items ++ [a])])
      (before ++ items ++ [a]) [] := by
  obtain ⟨gs, g, hsplit, rfl, rfl, rfl⟩ := h.run
  obtain ⟨hwhole, hrest⟩ := concat_full a hpos hm
  have hdone : done m (g ++ [a]) = g ++ [a] := by
    have hall := done_append_rest m (g ++ [a])
    rw [hrest, List.append_nil] at hall
    exact hall
  refine ⟨gs, g ++ [a], hsplit, ?_, hrest.symm, ?_⟩
  · rw [hdone, done_append_rest]
  · simp only [hwhole, List.map_append, List.map_cons, List.map_nil, List.append_assoc]

end Grouped

end PipeIo.Lib
