import Mathlib.Data.List.Basic

namespace PipeIo.Lib
set_option autoImplicit true

/-- A machine that makes of each item a list of items and side notes, and of its end some more. -/
structure Transducer (F : Type w) (T : Type u) (U : Type v) where
  φ : Type x
  init : φ
  feed : T → φ → List (U ⊕ F) × φ
  finish : φ → List (U ⊕ F)

namespace Transducer

variable {F : Type w} {T : Type u} {U : Type v} {V : Type y}

section Lists

/-- The items of a list, without the notes. -/
def items (xs : List (T ⊕ F)) : List T := xs.filterMap Sum.getLeft?

/-- The notes of a list. -/
def notes (xs : List (T ⊕ F)) : List F := xs.filterMap Sum.getRight?

@[simp] theorem items_nil : items ([] : List (T ⊕ F)) = [] := rfl

@[simp] theorem items_item (item : T) (xs : List (T ⊕ F)) :
    items (.inl item :: xs) = item :: items xs := rfl

@[simp] theorem items_note (note : F) (xs : List (T ⊕ F)) : items (.inr note :: xs) = items xs := rfl

@[simp] theorem items_append (xs ys : List (T ⊕ F)) :
    items (xs ++ ys) = items xs ++ items ys := List.filterMap_append

@[simp] theorem notes_append (xs ys : List (T ⊕ F)) :
    notes (xs ++ ys) = notes xs ++ notes ys := List.filterMap_append

end Lists

/-- What the machine makes of items, one after the other. Notes pass through it. -/
def feedAll (t : Transducer F T U) : List (T ⊕ F) → t.φ → List (U ⊕ F) × t.φ
  | [], s => ([], s)
  | .inl item :: xs, s =>
    ((t.feed item s).1 ++ (t.feedAll xs (t.feed item s).2).1, (t.feedAll xs (t.feed item s).2).2)
  | .inr note :: xs, s => (.inr note :: (t.feedAll xs s).1, (t.feedAll xs s).2)

/-- What the machine makes of a whole list. -/
def outputs (t : Transducer F T U) (xs : List (T ⊕ F)) : List (U ⊕ F) :=
  (t.feedAll xs t.init).1 ++ t.finish (t.feedAll xs t.init).2

/-- What the first machine makes goes into the second one, at its end as well. -/
@[reducible] def comp (t : Transducer F T U) (u : Transducer F U V) : Transducer F T V where
  φ := t.φ × u.φ
  init := (t.init, u.init)
  feed item s :=
    ((u.feedAll (t.feed item s.1).1 s.2).1, ((t.feed item s.1).2, (u.feedAll (t.feed item s.1).1 s.2).2))
  finish s := (u.feedAll (t.finish s.1) s.2).1 ++ u.finish (u.feedAll (t.finish s.1) s.2).2

variable (t : Transducer F T U) (u : Transducer F U V)

@[simp] theorem feedAll_nil (s : t.φ) : t.feedAll [] s = ([], s) := rfl

@[simp] theorem feedAll_item (item : T) (xs : List (T ⊕ F)) (s : t.φ) :
    t.feedAll (.inl item :: xs) s = ((t.feed item s).1 ++ (t.feedAll xs (t.feed item s).2).1,
      (t.feedAll xs (t.feed item s).2).2) := rfl

@[simp] theorem feedAll_note (note : F) (xs : List (T ⊕ F)) (s : t.φ) :
    t.feedAll (.inr note :: xs) s = (.inr note :: (t.feedAll xs s).1, (t.feedAll xs s).2) := rfl

theorem feedAll_append (xs ys : List (T ⊕ F)) (s : t.φ) :
    t.feedAll (xs ++ ys) s = ((t.feedAll xs s).1 ++ (t.feedAll ys (t.feedAll xs s).2).1,
      (t.feedAll ys (t.feedAll xs s).2).2) := by
  induction xs generalizing s with
  | nil => rfl
  | cons x xs ih =>
    cases x with
    | inl item => simp only [List.cons_append, feedAll_item, ih, List.append_assoc]
    | inr note => simp only [List.cons_append, feedAll_note, ih]

theorem comp_feed (item : T) (s : t.φ) (r : u.φ) :
    (t.comp u).feed item (s, r) = ((u.feedAll (t.feed item s).1 r).1,
      ((t.feed item s).2, (u.feedAll (t.feed item s).1 r).2)) := rfl

/-- Feeding a composition is feeding one machine, then the other. -/
theorem comp_feedAll (xs : List (T ⊕ F)) (s : t.φ) (r : u.φ) :
    (t.comp u).feedAll xs (s, r) = ((u.feedAll (t.feedAll xs s).1 r).1,
      ((t.feedAll xs s).2, (u.feedAll (t.feedAll xs s).1 r).2)) := by
  induction xs generalizing s r with
  | nil => rfl
  | cons x xs ih =>
    cases x with
    | inl item =>
      rw [feedAll_item, comp_feed, ih, feedAll_item, feedAll_append]
    | inr note =>
      have hnote : (t.comp u).feedAll (.inr note :: xs) (s, r) =
          (.inr note :: ((t.comp u).feedAll xs (s, r)).1, ((t.comp u).feedAll xs (s, r)).2) := rfl
      rw [hnote, ih]
      rfl

/-- The composition of two machines computes the composition of what they compute. -/
theorem comp_outputs (xs : List (T ⊕ F)) : (t.comp u).outputs xs = u.outputs (t.outputs xs) := by
  have hfeed : (t.comp u).feedAll xs (t.comp u).init = _ := comp_feedAll t u xs t.init u.init
  simp only [outputs, hfeed, feedAll_append, List.append_assoc]

section Notes

theorem notes_plain (xs : List T) : notes (xs.map (Sum.inl : T → T ⊕ F)) = [] := by
  induction xs with
  | nil => rfl
  | cons x xs ih => exact ih

/-- What a machine makes of a list apart from the notes that pass through it. -/
theorem feedAll_plain (xs : List (T ⊕ F)) (s : t.φ) :
    items (t.feedAll xs s).1 = items (t.feedAll ((items xs).map .inl) s).1 ∧
      (t.feedAll xs s).2 = (t.feedAll ((items xs).map .inl) s).2 ∧
      (notes (t.feedAll xs s).1).Perm
        (notes xs ++ notes (t.feedAll ((items xs).map .inl) s).1) := by
  induction xs generalizing s with
  | nil => exact ⟨rfl, rfl, .refl _⟩
  | cons x xs ih =>
    cases x with
    | inl item =>
      obtain ⟨hitems, hstate, hnotes⟩ := ih (t.feed item s).2
      refine ⟨?_, hstate, ?_⟩
      · exact (items_append ..).trans
          ((congrArg (items (t.feed item s).1 ++ ·) hitems).trans (items_append ..).symm)
      · have hall := hnotes.append_left (notes (t.feed item s).1)
        rw [← List.append_assoc] at hall
        have hfront : (notes (t.feed item s).1 ++ notes xs).Perm
          (notes xs ++ notes (t.feed item s).1) := List.perm_append_comm
        have hboth := hall.trans (hfront.append_right _)
        rw [List.append_assoc, ← notes_append, ← notes_append] at hboth
        exact hboth
    | inr note =>
      obtain ⟨hitems, hstate, hnotes⟩ := ih s
      exact ⟨hitems, hstate, hnotes.cons note⟩

/-- The same for a whole list. -/
theorem outputs_plain (xs : List (T ⊕ F)) :
    items (t.outputs xs) = items (t.outputs ((items xs).map .inl)) ∧
      (notes (t.outputs xs)).Perm (notes xs ++ notes (t.outputs ((items xs).map .inl))) := by
  obtain ⟨hitems, hstate, hnotes⟩ := t.feedAll_plain xs t.init
  simp only [outputs, items_append, notes_append, hitems, hstate, true_and]
  rw [← List.append_assoc]
  exact hnotes.append_right _

end Notes

end Transducer

end PipeIo.Lib
