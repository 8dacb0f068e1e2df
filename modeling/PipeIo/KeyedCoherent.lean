import Mathlib.Data.List.Perm.Subperm
import Mathlib.Tactic.Common
import PipeIo.KeyedLinks

namespace PipeIo
set_option autoImplicit true

open Lib

instance : Std.Total Due.le where
  total a b := by
    simp only [Due.le]
    omega

instance : IsTrans Due Due.le where
  trans a b c := by
    simp only [Due.le]
    omega

theorem pairwise_zipIdx (l : List α) : l.zipIdx.Pairwise fun a b => a.2 < b.2 := by
  have h : (l.zipIdx.map Prod.snd).Pairwise (· < ·) := by
    rw [List.zipIdx_map_snd]
    exact List.pairwise_lt_range'
  exact List.pairwise_map.1 h

namespace KeyedWindowStage

variable {K T φ : Type} {s s' : KeyedWindowStage K T φ} {i slot now : Nat} {order : List Nat}

/-- The part of the state the bookkeeping leaves alone. -/
def config (s : KeyedWindowStage K T φ) : WindowPolicy × Nat × Nat × φ × Option Nat :=
  (s.policy, s.max_items, s.max_keys, s.key_state, s.anchor)

theorem Relinked.same (h : Relinked s s') : s'.index = s.index ∧ s'.free = s.free ∧
    s'.heap = s.heap ∧ s'.config = s.config ∧ s'.seq = s.seq ∧ s'.tickets = s.tickets ∧
    s'.fallbacks = s.fallbacks := by
  rw [← h.rest]
  exact ⟨rfl, rfl, rfl, rfl, rfl, rfl, rfl⟩

/-- The entries `compact_heap` collects. -/
def live (s : KeyedWindowStage K T φ) : List Due :=
  s.slab.zipIdx.filterMap fun (e, slot) =>
    e.bind fun e => e.scheduled.map fun d => ⟨d, e.ticket, slot⟩

theorem mem_live {h : Due} : h ∈ s.live ↔
    ∃ e, s.held h.slot = some e ∧ e.scheduled = some h.deadline ∧ e.ticket = h.ticket := by
  simp only [live, List.mem_filterMap, List.mem_zipIdx_iff_getElem?, Prod.exists, held, entry,
    Option.map_eq_some_iff, Option.bind_eq_some_iff, Option.join_eq_some_iff]
  constructor
  · rintro ⟨_, i, hi, e, rfl, d, hd, rfl⟩
    exact ⟨e.state, ⟨e, hi, rfl⟩, hd, rfl⟩
  · rintro ⟨_, ⟨e, hi, rfl⟩, hd, ht⟩
    refine ⟨some e, h.slot, hi, e, rfl, h.deadline, hd, ?_⟩
    rw [show e.ticket = h.ticket from ht]

theorem live_pairwise : s.live.Pairwise fun a b => a.slot < b.slot := by
  refine (pairwise_zipIdx s.slab).filterMap _ ?_
  rintro ⟨e, i⟩ ⟨f, j⟩ hlt a ha b hb
  simp only [Option.bind_eq_some_iff, Option.map_eq_some_iff] at ha hb
  obtain ⟨_, _, _, _, rfl⟩ := ha
  obtain ⟨_, _, _, _, rfl⟩ := hb
  exact hlt

/-- The bookkeeping of the keys: `order` lists the slots in use, least recently active first. -/
structure Coherent [DecidableEq K] (s : KeyedWindowStage K T φ) (order : List Nat) : Prop where
  linked : s.links.Holds order
  occupied : ∀ i, i ∈ order ↔ ∃ e, s.held i = some e
  indexed : ∀ k i, s.index.lookup k = some i ↔ ∃ e, s.held i = some e ∧ e.key = k
  free_nodup : s.free.Nodup
  vacant : ∀ i, i ∈ s.free ↔ i < s.slab.length ∧ s.held i = none
  sorted : s.heap.Pairwise Due.le
  armed : ∀ i e d, s.held i = some e → e.scheduled = some d → ⟨d, e.ticket, i⟩ ∈ s.heap

theorem entry_of_held {e : KeyState K T} (h : s.held i = some e) :
    ∃ f, s.entry i = some f ∧ f.state = e := by
  simpa [held] using h

theorem held_lt {e : KeyState K T} (h : s.held i = some e) : i < s.slab.length := by
  obtain ⟨f, hf, -⟩ := entry_of_held h
  exact entry_lt (by rw [hf]; rfl)

theorem held_modify {f : KeyEntry K T → KeyEntry K T} {g : KeyState K T → KeyState K T}
    (hf : ∀ e, (f e).state = g e.state) {e : KeyState K T} (he : s.held i = some e) :
    (s.modify i f).held = Function.update s.held i (some (g e)) := by
  obtain ⟨e, hi, rfl⟩ := entry_of_held he
  funext j
  simp only [held, entry_modify]
  by_cases hij : i = j
  · subst hij
    simp [hi, hf]
  · simp [held, hij, Function.update, Ne.symm hij]

theorem links_modify {f : KeyEntry K T → KeyEntry K T}
    (hf : ∀ e, (f e).prev = e.prev ∧ (f e).next = e.next) : (s.modify i f).links = s.links := by
  simp only [links, Links.mk.injEq, entry_modify]
  constructor
  · funext x
    cases x with
    | none => rfl
    | some j =>
      by_cases hij : i = j
      · subst hij
        cases he : s.entry i with
        | none => simp [he]
        | some e => simp [he, hf]
      · simp [hij]
  · funext x
    cases x with
    | none => rfl
    | some j =>
      by_cases hij : i = j
      · subst hij
        cases he : s.entry i with
        | none => simp [he]
        | some e => simp [he, hf]
      · simp [hij]

variable [DecidableEq K]

namespace Coherent

theorem linkable (h : Coherent s order) {a : Option Nat} (ha : ∀ i, a = some i → i ∈ order) :
    s.Linkable a := by
  intro i hi
  obtain ⟨e, he⟩ := (h.occupied i).1 (ha i hi)
  rw [← held_isSome, he]
  rfl

theorem key_inj (h : Coherent s order) {i j : Nat} {e f : KeyState K T} (he : s.held i = some e)
    (hf : s.held j = some f) (hk : e.key = f.key) : i = j := by
  have hi := (h.indexed f.key i).2 ⟨e, he, hk⟩
  have hj := (h.indexed f.key j).2 ⟨f, hf, rfl⟩
  rw [hi] at hj
  exact Option.some.inj hj

theorem lookup_none (h : Coherent s order) {k : K} (hk : s.index.lookup k = none) {i : Nat}
    {e : KeyState K T} (he : s.held i = some e) : e.key ≠ k := by
  intro heq
  rw [(h.indexed k i).2 ⟨e, he, heq⟩] at hk
  cases hk

/-- There are as many keys in the index as slots in use. -/
theorem index_length (h : Coherent s order) : s.index.keys.length = order.length := by
  have hperm : (order.filterMap fun i => (s.held i).map KeyState.key).Perm s.index.keys := by
    rw [List.perm_ext_iff_of_nodup _ s.index.keys_nodup]
    · intro k
      rw [← AList.mem_keys, ← AList.lookup_isSome, Option.isSome_iff_exists]
      simp only [List.mem_filterMap, Option.map_eq_some_iff, h.indexed]
      constructor
      · rintro ⟨i, -, e, he, rfl⟩
        exact ⟨i, e, he, rfl⟩
      · rintro ⟨i, e, he, rfl⟩
        exact ⟨i, (h.occupied i).2 ⟨e, he⟩, e, he, rfl⟩
    · refine h.linked.nodup.filterMap ?_
      intro i j k hi hj
      obtain ⟨e, he, hek⟩ := Option.map_eq_some_iff.1 hi
      obtain ⟨f, hf, hfk⟩ := Option.map_eq_some_iff.1 hj
      exact h.key_inj he hf (hek.trans hfk.symm)
  rw [← hperm.length_eq, List.length_filterMap_eq_countP, List.countP_eq_length]
  intro i hi
  obtain ⟨e, he⟩ := (h.occupied i).1 hi
  simp [he]

/-- A slot is in use or free. -/
theorem slots_perm (h : Coherent s order) :
    (order ++ s.free).Perm (List.range s.slab.length) := by
  rw [List.perm_ext_iff_of_nodup _ List.nodup_range]
  · intro i
    rw [List.mem_append, List.mem_range, h.occupied, h.vacant]
    constructor
    · rintro (⟨e, he⟩ | ⟨hlt, -⟩)
      · exact held_lt he
      · exact hlt
    · intro hlt
      cases he : s.held i with
      | none => exact .inr ⟨hlt, rfl⟩
      | some e => exact .inl ⟨e, rfl⟩
  · rw [List.nodup_append]
    refine ⟨h.linked.nodup, h.free_nodup, ?_⟩
    rintro i hi _ hj rfl
    obtain ⟨e, he⟩ := (h.occupied i).1 hi
    rw [((h.vacant i).1 hj).2] at he
    cases he

theorem slab_length (h : Coherent s order) : s.slab.length = order.length + s.free.length := by
  have hlen := h.slots_perm.length_eq
  rw [List.length_append, List.length_range] at hlen
  exact hlen.symm

theorem live_length (h : Coherent s order) : s.live.length ≤ order.length := by
  have hnodup : (s.live.map Due.slot).Nodup :=
    List.pairwise_map.2 (live_pairwise.imp fun h => Nat.ne_of_lt h)
  have hsub : s.live.map Due.slot ⊆ order := by
    intro i hi
    obtain ⟨d, hd, rfl⟩ := List.mem_map.1 hi
    obtain ⟨e, he, -⟩ := mem_live.1 hd
    exact (h.occupied _).2 ⟨e, he⟩
  simpa using (List.subperm_of_subset hnodup hsub).length_le

/-- One slot has another state; the heap may have changed. -/
theorem update {e e' : KeyState K T} (h : Coherent s order) (he : s.held slot = some e)
    (hheld : s'.held = Function.update s.held slot (some e')) (hkey : e'.key = e.key)
    (hlinks : s'.links = s.links) (hindex : s'.index = s.index) (hfree : s'.free = s.free)
    (hslab : s'.slab.length = s.slab.length) (hsorted : s'.heap.Pairwise Due.le)
    (harmed : ∀ i e d, s'.held i = some e → e.scheduled = some d → ⟨d, e.ticket, i⟩ ∈ s'.heap) :
    Coherent s' order where
  linked := by
    rw [hlinks]
    exact h.linked
  occupied i := by
    rw [h.occupied, hheld]
    by_cases hi : i = slot
    · subst hi
      simp [he]
    · simp [hi]
  indexed k i := by
    rw [hindex, h.indexed, hheld]
    by_cases hi : i = slot
    · subst hi
      simp [he, hkey]
    · simp [hi]
  free_nodup := by
    rw [hfree]
    exact h.free_nodup
  vacant i := by
    rw [hfree, h.vacant, hslab, hheld]
    by_cases hi : i = slot
    · subst hi
      simp [he]
    · simp [hi]
  sorted := hsorted
  armed := harmed

/-- Links of the same slots, in another order. -/
theorem relink {order' : List Nat} (h : Coherent s order) (hrel : Relinked s s')
    (hlinks : s'.links.Holds order') (hmem : ∀ i, i ∈ order' ↔ i ∈ order) :
    Coherent s' order' := by
  obtain ⟨hindex, hfree, hheap, -⟩ := hrel.same
  refine ⟨hlinks, fun i => ?_, fun k i => ?_, ?_, fun i => ?_, ?_, ?_⟩
  · rw [hmem, h.occupied, hrel.held]
  · rw [hindex, h.indexed, hrel.held]
  · rw [hfree]
    exact h.free_nodup
  · rw [hfree, h.vacant, hrel.slab, hrel.held]
  · rw [hheap]
    exact h.sorted
  · rw [hheap, hrel.held]
    exact h.armed

end Coherent

/-- What `compact_heap` may do to the heap. -/
theorem compact_heap_spec (h : Coherent s order) : ∃ heap, s.compact_heap = { s with heap := heap } ∧
    heap.Subperm s.heap ∧ (∀ d ∈ s.live, d ∈ heap) ∧ heap.Pairwise Due.le ∧
      heap.length ≤ order.length * 2 + 64 := by
  simp only [compact_heap]
  split
  · rename_i hle
    rw [h.index_length] at hle
    refine ⟨s.heap, rfl, .refl _, ?_, h.sorted, hle⟩
    intro d hd
    obtain ⟨e, he, hs, ht⟩ := mem_live.1 hd
    rw [show d = ⟨d.deadline, e.ticket, d.slot⟩ by rw [ht]]
    exact h.armed _ _ _ he hs
  · have hperm : (s.live.insertionSort Due.le).Perm s.live := List.perm_insertionSort _ _
    refine ⟨s.live.insertionSort Due.le, rfl, ?_, ?_, List.pairwise_insertionSort _ _, ?_⟩
    · refine hperm.subperm.trans (List.subperm_of_subset ?_ ?_)
      · exact live_pairwise.imp fun hlt heq => absurd hlt (by rw [heq]; exact Nat.lt_irrefl _)
      · intro d hd
        obtain ⟨e, he, hs, ht⟩ := mem_live.1 hd
        rw [show d = ⟨d.deadline, e.ticket, d.slot⟩ by rw [ht]]
        exact h.armed _ _ _ he hs
    · intro d hd
      exact hperm.mem_iff.2 hd
    · have := h.live_length
      rw [hperm.length_eq]
      omega

end KeyedWindowStage

end PipeIo
