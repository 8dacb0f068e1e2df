import Mathlib.Logic.Function.Basic
import Mathlib.Data.List.Nodup

namespace PipeIo.Lib
set_option autoImplicit true

/-- The links of a doubly linked list. `none` is the sentinel: its `next` is the head of the
list and its `prev` the tail. -/
structure Links (ι : Type u) where
  next : Option ι → Option ι
  prev : Option ι → Option ι

namespace Links

section

variable {ι : Type u} {L : Links ι}

/-- From `a` the links lead over `l` to `b`, and back. -/
def Segment (L : Links ι) (a : Option ι) : List ι → Option ι → Prop
  | [], b => L.next a = b ∧ L.prev b = a
  | i :: rest, b => L.next a = some i ∧ L.prev (some i) = a ∧ L.Segment (some i) rest b

/-- The links hold the list `l`. -/
structure Holds (L : Links ι) (l : List ι) : Prop where
  nodup : l.Nodup
  segment : L.Segment none l none

theorem Segment.next_eq {a b : Option ι} {l : List ι} (h : L.Segment a l b) :
    L.next a = (l.head?.map some).getD b := by
  cases l with
  | nil => exact h.1
  | cons i rest => exact h.1

theorem Segment.prev_mem {a b : Option ι} {l : List ι} (h : L.Segment a l b) :
    L.prev b = a ∨ ∃ i ∈ l, L.prev b = some i := by
  induction l generalizing a with
  | nil => exact .inl h.2
  | cons i rest ih =>
    rcases ih h.2.2 with h | ⟨j, hj, h⟩
    · exact .inr ⟨i, List.mem_cons_self, h⟩
    · exact .inr ⟨j, List.mem_cons_of_mem i hj, h⟩

theorem Segment.prev_eq {a b : Option ι} {l : List ι} (h : L.Segment a l b) :
    L.prev b = (l.getLast?.map some).getD a := by
  induction l generalizing a with
  | nil => exact h.2
  | cons i rest ih =>
    rw [ih h.2.2, List.getLast?_cons]
    cases rest.getLast? <;> rfl

/-- A segment depends on the links of its own nodes only. -/
theorem Segment.congr {L' : Links ι} {a b : Option ι} {l : List ι} (h : L.Segment a l b)
    (hnext : ∀ x, (x = a ∨ ∃ i ∈ l, x = some i) → L'.next x = L.next x)
    (hprev : ∀ x, (x = b ∨ ∃ i ∈ l, x = some i) → L'.prev x = L.prev x) :
    L'.Segment a l b := by
  induction l generalizing a with
  | nil =>
    rw [Segment, hnext a (.inl rfl), hprev b (.inl rfl)]
    exact h
  | cons i rest ih =>
    obtain ⟨hn, hp, hrest⟩ := h
    refine ⟨?_, ?_, ih hrest ?_ ?_⟩
    · rw [hnext a (.inl rfl), hn]
    · rw [hprev _ (.inr ⟨i, List.mem_cons_self, rfl⟩), hp]
    · rintro x (rfl | ⟨j, hj, rfl⟩)
      · exact hnext _ (.inr ⟨i, List.mem_cons_self, rfl⟩)
      · exact hnext _ (.inr ⟨j, List.mem_cons_of_mem i hj, rfl⟩)
    · rintro x (rfl | ⟨j, hj, rfl⟩)
      · exact hprev _ (.inl rfl)
      · exact hprev _ (.inr ⟨j, List.mem_cons_of_mem i hj, rfl⟩)

theorem Segment.append {a b : Option ι} {l r : List ι} {i : ι} :
    L.Segment a (l ++ i :: r) b ↔ L.Segment a l (some i) ∧ L.Segment (some i) r b := by
  induction l generalizing a with
  | nil => simp [Segment, and_assoc]
  | cons j l ih => simp [Segment, ih, and_assoc]

theorem Holds.head {l : List ι} (h : L.Holds l) : L.next none = l.head? := by
  rw [h.segment.next_eq]
  cases l <;> rfl

theorem Holds.tail {l : List ι} (h : L.Holds l) : L.prev none = l.getLast? := by
  rw [h.segment.prev_eq]
  cases l.getLast? <;> rfl

end

section

variable {ι : Type u} [DecidableEq ι] {L : Links ι}

def setNext (L : Links ι) (a b : Option ι) : Links ι := { L with next := Function.update L.next a b }

def setPrev (L : Links ι) (a b : Option ι) : Links ι := { L with prev := Function.update L.prev a b }

/-- Take a node out of the list. -/
def unlink (L : Links ι) (i : ι) : Links ι :=
  (L.setNext (L.prev (some i)) (L.next (some i))).setPrev (L.next (some i)) (L.prev (some i))

/-- Append a node to the list. -/
def pushBack (L : Links ι) (i : ι) : Links ι :=
  let t := L.prev none
  (((L.setPrev (some i) t).setNext (some i) none).setNext t (some i)).setPrev none (some i)

theorem Segment.unlink {a b : Option ι} {l r : List ι} {i : ι} (h : L.Segment a (l ++ i :: r) b)
    (hn : (l ++ i :: r).Nodup) (ha : ∀ j ∈ l ++ i :: r, a ≠ some j)
    (hb : ∀ j ∈ l ++ i :: r, b ≠ some j) : (L.unlink i).Segment a (l ++ r) b := by
  obtain ⟨hl, hr⟩ := Segment.append.1 h
  induction l generalizing a with
  | nil =>
    obtain ⟨-, hp⟩ := hl
    cases r with
    | nil =>
      obtain ⟨hn, -⟩ := hr
      simp [Links.unlink, setNext, setPrev, Segment, hp, hn]
    | cons j r =>
      obtain ⟨hn', -, hrest⟩ := hr
      refine ⟨?_, ?_, hrest.congr ?_ ?_⟩
      · simp [Links.unlink, setNext, setPrev, hp, hn']
      · simp [Links.unlink, setNext, setPrev, hp, hn']
      · intro x hx
        have hxa : x ≠ a := by
          rintro rfl
          rcases hx with hx | ⟨k, hk, hx⟩
          · exact ha j (by simp) hx
          · exact ha k (by simp [hk]) hx
        simp [Links.unlink, setNext, setPrev, hp, hxa]
      · intro x hx
        have hxj : x ≠ some j := by
          rintro rfl
          rcases hx with hx | ⟨k, hk, hx⟩
          · exact hb j (by simp) hx.symm
          · cases hx
            simp [hk] at hn
        simp [Links.unlink, setNext, setPrev, hn', hxj]
  | cons k l ih =>
    obtain ⟨hn1, hp1, hl⟩ := hl
    have hrest := ih (Segment.append.2 ⟨hl, hr⟩) (List.nodup_cons.1 hn).2
      (by
        rintro j hj ⟨⟩
        exact (List.nodup_cons.1 hn).1 hj)
      (fun j hj => hb j (List.mem_cons_of_mem k hj)) hl
    refine ⟨?_, ?_, hrest⟩
    · have hne : a ≠ L.prev (some i) := by
        rcases hl.prev_mem with h | ⟨j, hj, h⟩
        · rw [h]
          exact ha k (by simp)
        · rw [h]
          exact ha j (by simp [hj])
      simp [Links.unlink, setNext, setPrev, hne, hn1]
    · have hne : some k ≠ L.next (some i) := by
        rw [hr.next_eq]
        cases r with
        | nil => exact (hb k (by simp)).symm
        | cons j r =>
          rintro ⟨⟩
          simp at hn
      simp [Links.unlink, setNext, setPrev, hne, hp1]

theorem Holds.unlink {l r : List ι} {i : ι} (h : L.Holds (l ++ i :: r)) :
    (L.unlink i).Holds (l ++ r) where
  nodup := h.nodup.sublist (by simp)
  segment := h.segment.unlink h.nodup nofun nofun

theorem Segment.pushBack {a : Option ι} {l : List ι} {i : ι} (h : L.Segment a l none)
    (hn : l.Nodup) (ha : ∀ j ∈ l, a ≠ some j) (hai : a ≠ some i) (hi : i ∉ l) :
    (L.pushBack i).Segment a (l ++ [i]) none := by
  induction l generalizing a with
  | nil =>
    obtain ⟨-, hp⟩ := h
    simp [Links.pushBack, setNext, setPrev, Segment, hp, hai.symm]
  | cons k l ih =>
    obtain ⟨hn1, hp1, hrest⟩ := h
    have hki : k ≠ i := by
      rintro rfl
      exact hi List.mem_cons_self
    refine ⟨?_, ?_, ih hrest (List.nodup_cons.1 hn).2 ?_ (by simpa using hki) ?_⟩
    · have hne : a ≠ L.prev none := by
        rcases hrest.prev_mem with h | ⟨j, hj, h⟩
        · rw [h]
          exact ha k List.mem_cons_self
        · rw [h]
          exact ha j (List.mem_cons_of_mem k hj)
      simp [Links.pushBack, setNext, setPrev, hne, hai, hn1]
    · simp [Links.pushBack, setNext, setPrev, hki, hp1]
    · rintro j hj ⟨⟩
      exact (List.nodup_cons.1 hn).1 hj
    · exact fun h => hi (List.mem_cons_of_mem k h)

theorem Holds.pushBack {l : List ι} {i : ι} (h : L.Holds l) (hi : i ∉ l) :
    (L.pushBack i).Holds (l ++ [i]) where
  nodup := by
    rw [← List.concat_eq_append]
    exact h.nodup.concat hi
  segment := h.segment.pushBack h.nodup nofun nofun hi

end

end Links

end PipeIo.Lib
