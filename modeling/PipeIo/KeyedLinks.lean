import PipeIo.Lib.Linked
import PipeIo.Keyed

namespace PipeIo
set_option autoImplicit true

open Lib

/-- What a slot says about its key, the links aside. -/
structure KeyState (K T : Type) where
  key : K
  core : Core T
  created : Nat
  ticket : Nat
  scheduled : Option Nat
  deriving DecidableEq, Repr

def KeyEntry.state (e : KeyEntry K T) : KeyState K T :=
  ⟨e.key, e.core, e.created, e.ticket, e.scheduled⟩

namespace KeyedWindowStage

variable {K T φ : Type} {s s' : KeyedWindowStage K T φ} {i j slot : Nat}

def held (s : KeyedWindowStage K T φ) (i : Nat) : Option (KeyState K T) :=
  (s.entry i).map KeyEntry.state

/-- The links of the slots, with `lru_head` and `lru_tail` as those of the sentinel. -/
def links (s : KeyedWindowStage K T φ) : Links Nat where
  next
    | none => s.lru_head
    | some i => (s.entry i).bind KeyEntry.next
  prev
    | none => s.lru_tail
    | some i => (s.entry i).bind KeyEntry.prev

theorem entry_modify (f : KeyEntry K T → KeyEntry K T) :
    (s.modify i f).entry j = if i = j then (s.entry j).map f else s.entry j := by
  simp only [entry, modify, List.getElem?_modify]
  cases s.slab[j]? with
  | none => simp
  | some e =>
    by_cases h : i = j
    · cases e <;> simp [h]
    · simp [h]

theorem entry_lt (h : (s.entry i).isSome) : i < s.slab.length := by
  by_contra hlt
  rw [entry, List.getElem?_eq_none (by omega)] at h
  simp at h

@[simp] theorem held_isSome : (s.held i).isSome = (s.entry i).isSome := by
  simp [held]

theorem held_eq_none : s.held i = none ↔ s.entry i = none := by
  simp [held]

/-- Only links have changed. -/
structure Relinked (s s' : KeyedWindowStage K T φ) : Prop where
  held : s'.held = s.held
  slab : s'.slab.length = s.slab.length
  rest : { s' with slab := s.slab, lru_head := s.lru_head, lru_tail := s.lru_tail } = s

theorem Relinked.refl (s : KeyedWindowStage K T φ) : Relinked s s := ⟨rfl, rfl, rfl⟩

theorem Relinked.trans (h : Relinked s s') (h' : Relinked s' s'') : Relinked s s'' where
  held := h'.held.trans h.held
  slab := h'.slab.trans h.slab
  rest := by
    have hrest := h.rest
    rw [← h'.rest] at hrest
    exact hrest

theorem held_modify_links {f : KeyEntry K T → KeyEntry K T} (hf : ∀ e, (f e).state = e.state) :
    (s.modify i f).held = s.held := by
  funext j
  simp only [held, entry_modify]
  split
  · cases s.entry j with
    | none => rfl
    | some e => simp [hf]
  · rfl

theorem relinked_set_next (a b : Option Nat) : Relinked s (s.set_next a b) := by
  rw [set_next]
  split
  · exact ⟨held_modify_links fun _ => rfl, by simp [modify], rfl⟩
  · exact ⟨rfl, rfl, rfl⟩

theorem relinked_set_prev (a b : Option Nat) : Relinked s (s.set_prev a b) := by
  rw [set_prev]
  split
  · exact ⟨held_modify_links fun _ => rfl, by simp [modify], rfl⟩
  · exact ⟨rfl, rfl, rfl⟩

theorem relinked_unlink (slot : Nat) : Relinked s (s.unlink slot) := by
  rw [unlink]
  split
  · exact (relinked_set_next _ _).trans (relinked_set_prev _ _)
  · exact .refl s

theorem relinked_push_back (slot : Nat) : Relinked s (s.push_back slot) := by
  have h1 : Relinked s (s.modify slot fun e => { e with prev := s.lru_tail, next := none }) :=
    ⟨held_modify_links fun _ => rfl, by simp [modify], rfl⟩
  have h2 := h1.trans (relinked_set_next s.lru_tail (some slot))
  exact ⟨h2.held, h2.slab, h2.rest⟩

/-- The end of the list, or a slot in use. -/
def Linkable (s : KeyedWindowStage K T φ) (a : Option Nat) : Prop :=
  ∀ i, a = some i → (s.entry i).isSome

theorem Relinked.linkable (h : Relinked s s') {a : Option Nat} (ha : s.Linkable a) :
    s'.Linkable a := by
  intro i hi
  rw [← held_isSome, h.held, held_isSome]
  exact ha i hi

theorem links_set_next {a : Option Nat} (ha : s.Linkable a) (b : Option Nat) :
    (s.set_next a b).links = s.links.setNext a b := by
  cases a with
  | none =>
    simp only [set_next, Option.filter, links, Links.setNext, Links.mk.injEq]
    constructor
    · funext x
      cases x <;> simp [entry]
    · rfl
  | some i =>
    have hi := ha i rfl
    obtain ⟨e, he⟩ := Option.isSome_iff_exists.1 hi
    simp only [set_next, Option.filter, hi, if_true, links, Links.setNext, Links.mk.injEq,
      entry_modify]
    constructor
    · funext x
      cases x with
      | none => simp [modify]
      | some j =>
        by_cases hij : i = j
        · subst hij
          simp [he]
        · simp [hij, Function.update, Ne.symm hij]
    · funext x
      cases x with
      | none => rfl
      | some j =>
        by_cases hij : i = j
        · subst hij
          simp [he]
        · simp [hij]

theorem links_set_prev {a : Option Nat} (ha : s.Linkable a) (b : Option Nat) :
    (s.set_prev a b).links = s.links.setPrev a b := by
  cases a with
  | none =>
    simp only [set_prev, Option.filter, links, Links.setPrev, Links.mk.injEq]
    constructor
    · rfl
    · funext x
      cases x <;> simp [entry]
  | some i =>
    have hi := ha i rfl
    obtain ⟨e, he⟩ := Option.isSome_iff_exists.1 hi
    simp only [set_prev, Option.filter, hi, if_true, links, Links.setPrev, Links.mk.injEq,
      entry_modify]
    constructor
    · funext x
      cases x with
      | none => rfl
      | some j =>
        by_cases hij : i = j
        · subst hij
          simp [he]
        · simp [hij]
    · funext x
      cases x with
      | none => simp [modify]
      | some j =>
        by_cases hij : i = j
        · subst hij
          simp [he]
        · simp [hij, Function.update, Ne.symm hij]

theorem links_unlink (hi : (s.entry slot).isSome) (hprev : s.Linkable (s.links.prev (some slot)))
    (hnext : s.Linkable (s.links.next (some slot))) :
    (s.unlink slot).links = s.links.unlink slot := by
  obtain ⟨e, he⟩ := Option.isSome_iff_exists.1 hi
  have hp : s.links.prev (some slot) = e.prev := by simp [links, he]
  have hn : s.links.next (some slot) = e.next := by simp [links, he]
  rw [hp] at hprev
  rw [hn] at hnext
  simp only [unlink, he]
  rw [links_set_prev ((relinked_set_next e.prev e.next).linkable hnext),
    links_set_next hprev, Links.unlink, hp, hn]

theorem links_push_back (hi : (s.entry slot).isSome) (htail : s.Linkable s.lru_tail) :
    (s.push_back slot).links = s.links.pushBack slot := by
  have hmod : (s.modify slot fun e => { e with prev := s.lru_tail, next := none }).links =
      (s.links.setPrev (some slot) s.lru_tail).setNext (some slot) none := by
    simp only [links, Links.setNext, Links.setPrev, Links.mk.injEq, entry_modify]
    obtain ⟨e, he⟩ := Option.isSome_iff_exists.1 hi
    constructor
    · funext x
      cases x with
      | none => simp [modify]
      | some j =>
        by_cases hij : slot = j
        · subst hij
          simp [he]
        · simp [hij, Function.update, Ne.symm hij]
    · funext x
      cases x with
      | none => simp [modify]
      | some j =>
        by_cases hij : slot = j
        · subst hij
          simp [he]
        · simp [hij, Function.update, Ne.symm hij]
  have hlast : ∀ u : KeyedWindowStage K T φ, { u with lru_tail := some slot }.links =
      u.links.setPrev none (some slot) := by
    intro u
    simp only [links, Links.setPrev, Links.mk.injEq]
    constructor
    · rfl
    · funext x
      cases x <;> simp [entry]
  have hrel : Relinked s (s.modify slot fun e => { e with prev := s.lru_tail, next := none }) :=
    ⟨held_modify_links fun _ => rfl, by simp [modify], rfl⟩
  simp only [push_back]
  rw [hlast, links_set_next (hrel.linkable htail), hmod]
  rfl

end KeyedWindowStage

end PipeIo
