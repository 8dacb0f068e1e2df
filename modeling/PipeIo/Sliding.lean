import Mathlib.Data.List.Basic
import PipeIo.WindowCore

namespace PipeIo
set_option autoImplicit true

open Lib

/-- The items in the open window number `k`. -/
def Slot.contents (slots : List (Slot T)) (k : Nat) : List T :=
  (slots.filter fun s => s.k = k).flatMap fun s => s.items

/-- What a slot keeps of its items and one more. -/
def stored (max_items : Nat) (items : List T) (item : T) : List T :=
  if (items ++ [item]).length ≥ max_items then [] else items ++ [item]

section Slots

variable {T : Type} {slots : List (Slot T)} {k k_min : Nat}

@[simp] theorem Slot.contents_nil (k : Nat) : Slot.contents ([] : List (Slot T)) k = [] := rfl

theorem Slot.contents_append (a b : List (Slot T)) (k : Nat) :
    Slot.contents (a ++ b) k = Slot.contents a k ++ Slot.contents b k := by
  simp [Slot.contents]

theorem Slot.contents_cons (s : Slot T) (rest : List (Slot T)) (k : Nat) :
    Slot.contents (s :: rest) k = (if s.k = k then s.items else []) ++ Slot.contents rest k := by
  by_cases h : s.k = k
  · simp [Slot.contents, h]
  · simp [Slot.contents, h]

theorem Slot.contents_absent (h : ∀ s ∈ slots, s.k ≠ k) : Slot.contents slots k = [] := by
  have hnil : slots.filter (fun s => s.k = k) = [] := by
    rw [List.filter_eq_nil_iff]
    intro s hs
    simpa using h s hs
  rw [Slot.contents, hnil]
  rfl

/-- In a sorted list of slots each number occurs once. -/
theorem Slot.contents_mem (hs : slots.Pairwise fun a b => a.k < b.k) {s : Slot T}
    (hmem : s ∈ slots) : Slot.contents slots s.k = s.items := by
  induction slots with
  | nil => cases hmem
  | cons a rest ih =>
    obtain ⟨ha, hrest⟩ := List.pairwise_cons.1 hs
    rw [Slot.contents_cons]
    cases hmem with
    | head =>
      have habsent : Slot.contents rest s.k = [] := by
        apply Slot.contents_absent
        intro b hb
        exact (Nat.ne_of_lt (ha b hb)).symm
      rw [if_pos rfl, habsent, List.append_nil]
    | tail _ hmem =>
      have hlt := ha s hmem
      rw [if_neg (Nat.ne_of_lt hlt), List.nil_append]
      exact ih hrest hmem

theorem takeWhile_lt {s : Slot T} (h : s ∈ slots.takeWhile fun s => s.k < k) : s.k < k := by
  have hall := List.all_takeWhile (p := fun s : Slot T => s.k < k) (l := slots)
  simpa using List.all_eq_true.1 hall s h

theorem le_dropWhile (hs : slots.Pairwise fun a b => a.k < b.k) {s : Slot T}
    (h : s ∈ slots.dropWhile fun s => s.k < k) : k ≤ s.k := by
  induction slots with
  | nil => cases h
  | cons a rest ih =>
    obtain ⟨ha, hrest⟩ := List.pairwise_cons.1 hs
    by_cases hk : a.k < k
    · rw [List.dropWhile_cons_of_pos (by simpa using hk)] at h
      exact ih hrest h
    · rw [List.dropWhile_cons_of_neg (by simpa using hk)] at h
      cases h with
      | head => omega
      | tail _ h =>
        have := ha s h
        omega

/-- The window a slot becomes. -/
def Slot.window (otherwise : Slot T → Nat) (s : Slot T) : Window T :=
  ⟨s.items, s.start, s.end.getD (otherwise s)⟩

def Slot.live (slots : List (Slot T)) : List (Slot T) := slots.filter fun s => !s.items.isEmpty

theorem emit_slots_before_val :
    (emit_slots_before k_min Emitting.emit slots).val =
      slots.dropWhile fun s => s.k < k_min := by
  induction slots with
  | nil => rfl
  | cons s rest ih =>
    simp only [emit_slots_before]
    split
    · rename_i hk
      rw [List.dropWhile_cons_of_pos (by simpa using hk)]
      split
      · exact ih
      · simpa using ih
    · rename_i hk
      rw [List.dropWhile_cons_of_neg (by simpa using hk)]
      rfl

theorem emit_slots_before_out :
    (emit_slots_before k_min Emitting.emit slots).out =
      (Slot.live (slots.takeWhile fun s => s.k < k_min)).map (Slot.window Slot.start) := by
  induction slots with
  | nil => rfl
  | cons s rest ih =>
    simp only [emit_slots_before]
    split
    · rename_i hk
      rw [List.takeWhile_cons_of_pos (by simpa using hk)]
      split
      · rename_i he
        rw [ih]
        simp [Slot.live, he]
      · rename_i he
        simp [Slot.live, he, ih, Slot.window]
    · rename_i hk
      rw [List.takeWhile_cons_of_neg (by simpa using hk)]
      rfl

theorem flush_slots_out {now : Nat} :
    (Core.flush_slots now Emitting.emit slots).out =
      (Slot.live slots).map (Slot.window fun _ => now) := by
  induction slots with
  | nil => rfl
  | cons s rest ih =>
    simp only [Core.flush_slots]
    split
    · rename_i he
      rw [ih]
      simp [Slot.live, he]
    · rename_i he
      simp [Slot.live, he, ih, Slot.window]

theorem Slot.push_val (max_items now : Nat) (item : T) (s : Slot T) :
    (s.push max_items now item Emitting.emit).val =
      { s with items := stored max_items s.items item } := by
  simp only [Slot.push, stored]
  split <;> rfl

theorem Slot.push_out (max_items now : Nat) (item : T) (s : Slot T) :
    (s.push max_items now item Emitting.emit).out =
      if (s.items ++ [item]).length ≥ max_items then
        [⟨s.items ++ [item], s.start, s.end.getD now⟩] else [] := by
  simp only [Slot.push]
  split <;> rfl

end Slots

namespace Core.Gridded

variable [Timeline] {T : Type} {anchor now size slide : Nat} {slots a b : List (Slot T)} {k : Nat}

theorem nil : Gridded anchor size slide ([] : List (Slot T)) :=
  ⟨.nil, nofun, nofun⟩

theorem sub (h : Gridded anchor size slide slots) (hs : a.Sublist slots) :
    Gridded anchor size slide a :=
  ⟨h.sorted.sublist hs, fun s hm => h.start s (hs.subset hm), fun s hm => h.stop s (hs.subset hm)⟩

theorem append (ha : Gridded anchor size slide a) (hb : Gridded anchor size slide b)
    (hlt : ∀ s ∈ a, ∀ t ∈ b, s.k < t.k) : Gridded anchor size slide (a ++ b) where
  sorted := List.pairwise_append.2 ⟨ha.sorted, hb.sorted, hlt⟩
  start s hs := (List.mem_append.1 hs).elim (ha.start s) (hb.start s)
  stop s hs := (List.mem_append.1 hs).elim (ha.stop s) (hb.stop s)

theorem cons {s : Slot T} (hs : s.start = anchor + s.k * slide)
    (he : s.end = checked_add s.start size) (hb : Gridded anchor size slide b)
    (hlt : ∀ t ∈ b, s.k < t.k) : Gridded anchor size slide (s :: b) where
  sorted := List.pairwise_cons.2 ⟨hlt, hb.sorted⟩
  start t ht := by
    cases ht with
    | head => exact hs
    | tail _ ht => exact hb.start t ht
  stop t ht := by
    cases ht with
    | head => exact he
    | tail _ ht => exact hb.stop t ht

end Core.Gridded

section Fill

variable [Timeline] {T : Type} {anchor now size slide k : Nat} {slots : List (Slot T)}

/-- What putting an item into window `k` emits. -/
def spilled (max_items anchor now size slide : Nat) (item : T) (k : Nat) (items : List T) :
    List (Window T) :=
  if (items ++ [item]).length ≥ max_items then
    [⟨items ++ [item], anchor + k * slide, (checked_add (anchor + k * slide) size).getD now⟩]
  else []

/-- The slot the pass stops at: the one with number `k`, made if it is missing. -/
def Slot.at (size slide anchor now k : Nat) (slots : List (Slot T)) : Slot T × List (Slot T) :=
  match slots with
  | [] => (Slot.new size slide anchor now k, [])
  | s :: rest => if s.k ≠ k then (Slot.new size slide anchor now k, s :: rest) else (s, rest)

theorem Slot.at_spec (hg : Core.Gridded anchor size slide slots) (ha : anchor ≤ Timeline.horizon)
    (hn : now ≤ Timeline.horizon) (hk : k * slide ≤ now - anchor) (hle : ∀ s ∈ slots, k ≤ s.k) :
    let r := Slot.at size slide anchor now k slots
    r.1.k = k ∧ r.1.start = anchor + k * slide ∧
      r.1.end = checked_add (anchor + k * slide) size ∧ r.1.items = Slot.contents slots k ∧
      r.2.Sublist slots ∧ (∀ s ∈ r.2, k < s.k) ∧
      ∀ j, j ≠ k → Slot.contents r.2 j = Slot.contents slots j := by
  have hstart : offset anchor k slide now = anchor + k * slide := offset_eq ha hn hk now
  cases slots with
  | nil => simp [Slot.at, Slot.new, hstart]
  | cons s rest =>
    have hsk : k ≤ s.k := hle s List.mem_cons_self
    obtain ⟨hlt, -⟩ := List.pairwise_cons.1 hg.sorted
    simp only [Slot.at]
    split
    · rename_i hne
      have hall : ∀ t ∈ s :: rest, k < t.k := by
        intro t ht
        cases ht with
        | head => omega
        | tail _ ht =>
          have := hlt t ht
          omega
      have habsent : Slot.contents (s :: rest) k = [] :=
        Slot.contents_absent fun t ht => (Nat.ne_of_lt (hall t ht)).symm
      refine ⟨rfl, hstart, ?_, habsent.symm, List.Sublist.refl _, hall, fun _ _ => rfl⟩
      simp only [Slot.new, hstart]
    · rename_i heq
      have heq : s.k = k := Decidable.not_not.1 heq
      subst heq
      have hs := hg.start s List.mem_cons_self
      refine ⟨rfl, hs, ?_, ?_, List.sublist_cons_self _ _, hlt, ?_⟩
      · rw [← hs]
        exact hg.stop s List.mem_cons_self
      · exact (Slot.contents_mem hg.sorted List.mem_cons_self).symm
      · intro j hj
        rw [Slot.contents_cons, if_neg (Ne.symm hj), List.nil_append]

theorem sliding_fill_succ (max_items : Nat) (item : T) (n k : Nat) (slots : List (Slot T)) :
    sliding_fill max_items size slide anchor now item Emitting.emit (n + 1) k slots = (do
      let r := Slot.at size slide anchor now k (slots.dropWhile fun s => s.k < k)
      let slot ← r.1.push max_items now item Emitting.emit
      let filled ← sliding_fill max_items size slide anchor now item Emitting.emit n (k + 1) r.2
      pure ((slots.takeWhile fun s => s.k < k) ++ slot :: filled)) := by
  rw [sliding_fill]
  cases slots.dropWhile fun s => s.k < k <;> rfl

/-- What the pass of an item over the slots does: it goes into the windows `k` to `k + n - 1`. -/
structure Filled (max_items anchor now size slide : Nat) (item : T) (n k : Nat)
    (slots : List (Slot T)) (r : Emitting (Window T) (List (Slot T))) : Prop where
  gridded : Core.Gridded anchor size slide r.val
  numbers : ∀ s ∈ r.val, (∃ t ∈ slots, t.k = s.k) ∨ k ≤ s.k ∧ s.k < k + n
  contents : ∀ j, Slot.contents r.val j =
    if k ≤ j ∧ j < k + n then stored max_items (Slot.contents slots j) item
    else Slot.contents slots j
  out : r.out = (List.range' k n).flatMap fun j =>
    spilled max_items anchor now size slide item j (Slot.contents slots j)

theorem sliding_fill_filled (max_items : Nat) (item : T) (ha : anchor ≤ Timeline.horizon)
    (hn : now ≤ Timeline.horizon) (n k : Nat) (hg : Core.Gridded anchor size slide slots)
    (hk : ∀ j, j < k + n → j * slide ≤ now - anchor) :
    Filled max_items anchor now size slide item n k slots
      (sliding_fill max_items size slide anchor now item Emitting.emit n k slots) := by
  induction n generalizing k slots with
  | zero =>
    refine ⟨hg, fun s hs => .inl ⟨s, hs, rfl⟩, fun j => ?_, rfl⟩
    rw [if_neg (by omega)]
    rfl
  | succ n ih =>
    have hafter := hg.sub (slots.dropWhile_sublist fun s => s.k < k)
    have hle : ∀ s ∈ slots.dropWhile fun s => s.k < k, k ≤ s.k := fun s h => le_dropWhile hg.sorted h
    have hsplit : slots = (slots.takeWhile fun s => s.k < k) ++ slots.dropWhile fun s => s.k < k :=
      (List.takeWhile_append_dropWhile ..).symm
    have hbefore : ∀ j, k ≤ j → Slot.contents (slots.takeWhile fun s => s.k < k) j = [] := by
      intro j hj
      apply Slot.contents_absent
      intro s hs
      have := takeWhile_lt hs
      omega
    have hcontents : ∀ j, k ≤ j →
        Slot.contents slots j = Slot.contents (slots.dropWhile fun s => s.k < k) j := by
      intro j hj
      conv_lhs => rw [hsplit, Slot.contents_append, hbefore j hj, List.nil_append]
    rw [sliding_fill_succ]
    generalize hr : Slot.at size slide anchor now k (slots.dropWhile fun s => s.k < k) = r
    have hspec := Slot.at_spec hafter ha hn (hk k (by omega)) hle
    rw [hr] at hspec
    obtain ⟨hrk, hrstart, hrend, hritems, hrsub, hrlt, hrcontents⟩ := hspec
    have hrec := ih (k + 1) (hafter.sub hrsub) fun j hj => hk j (by omega)
    have hfilled : ∀ s ∈ (sliding_fill max_items size slide anchor now item Emitting.emit n (k + 1)
        r.2).val, k < s.k := by
      intro s hs
      rcases hrec.numbers s hs with ⟨t, ht, hts⟩ | hs
      · rw [← hts]
        exact hrlt t ht
      · omega
    refine ⟨?_, ?_, ?_, ?_⟩
    · simp only [Emitting.bind_val, Emitting.pure_val, Slot.push_val]
      refine (hg.sub (slots.takeWhile_sublist fun s => s.k < k)).append ?_ ?_
      · refine Core.Gridded.cons ?_ ?_ hrec.gridded ?_
        · rw [hrk]
          exact hrstart
        · simp only [hrstart]
          exact hrend
        · rw [hrk]
          exact hfilled
      · intro s hs t ht
        have hsk := takeWhile_lt hs
        cases ht with
        | head => rw [hrk]; exact hsk
        | tail _ ht =>
          have := hfilled t ht
          omega
    · simp only [Emitting.bind_val, Emitting.pure_val, Slot.push_val]
      intro s hs
      rcases List.mem_append.1 hs with hs | hs
      · exact .inl ⟨s, (slots.takeWhile_sublist fun s => s.k < k).subset hs, rfl⟩
      · cases hs with
        | head =>
          right
          rw [hrk]
          omega
        | tail _ hs =>
          rcases hrec.numbers s hs with ⟨t, ht, hts⟩ | hs
          · exact .inl ⟨t, (slots.dropWhile_sublist fun s => s.k < k).subset (hrsub.subset ht), hts⟩
          · right
            omega
    · intro j
      simp only [Emitting.bind_val, Emitting.pure_val, Slot.push_val]
      rw [Slot.contents_append, Slot.contents_cons, hrec.contents j, hrk]
      rcases Nat.lt_trichotomy j k with hj | rfl | hj
      · have hnil : Slot.contents r.2 j = [] :=
          Slot.contents_absent fun s hs => by
            have := hrlt s hs
            omega
        have hnil' : Slot.contents (slots.dropWhile fun s => s.k < k) j = [] :=
          Slot.contents_absent fun s hs => by
            have := hle s hs
            omega
        rw [if_neg (by omega), if_neg (by omega), if_neg (by omega), hnil]
        conv_rhs => rw [hsplit, Slot.contents_append, hnil']
        simp
      · have hnil : Slot.contents r.2 j = [] :=
          Slot.contents_absent fun s hs => by
            have := hrlt s hs
            omega
        rw [if_pos rfl, if_neg (by omega), if_pos (by omega), hnil, hbefore j (Nat.le_refl j), hritems,
          hcontents j (Nat.le_refl j)]
        simp
      · rw [if_neg (by omega), hrcontents j (by omega), hbefore j (by omega),
          ← hcontents j (by omega)]
        by_cases hlt : j < k + (n + 1)
        · rw [if_pos (by omega), if_pos (by omega)]
          rfl
        · rw [if_neg (by omega), if_neg (by omega)]
          rfl
    · simp only [Emitting.bind_out, Emitting.pure_out, Slot.push_out, List.append_nil, hrec.out,
        hritems, hrstart, hrend]
      rw [List.range'_succ, List.flatMap_cons, hcontents k (Nat.le_refl k)]
      congr 1
      apply List.flatMap_congr
      intro j hj
      have hkj : k + 1 ≤ j := (List.mem_range'_1.1 hj).1
      rw [hrcontents j (by omega), hcontents j (by omega)]

end Fill

end PipeIo
