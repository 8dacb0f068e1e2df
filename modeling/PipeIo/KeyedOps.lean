import PipeIo.KeyedCoherent
import PipeIo.WindowDeadline

namespace PipeIo
set_option autoImplicit true

open Lib

namespace KeyedWindowStage

variable {K T φ : Type} {s s' : KeyedWindowStage K T φ} {slot now : Nat} {order : List Nat}
  {e : KeyState K T}

/-- How many heap entries are due. -/
def due (s : KeyedWindowStage K T φ) (now : Nat) : Nat := s.heap.countP fun d => d.deadline ≤ now

/-- The configuration and the counters but `tickets` are the same. -/
structure Undisturbed (s s' : KeyedWindowStage K T φ) : Prop where
  config : s'.config = s.config
  seq : s'.seq = s.seq
  fallbacks : s'.fallbacks = s.fallbacks

theorem Undisturbed.refl (s : KeyedWindowStage K T φ) : Undisturbed s s := ⟨rfl, rfl, rfl⟩

theorem Undisturbed.trans (h : Undisturbed s s') (h' : Undisturbed s' s'') : Undisturbed s s'' :=
  ⟨h'.config.trans h.config, h'.seq.trans h.seq, h'.fallbacks.trans h.fallbacks⟩

theorem Relinked.undisturbed (h : Relinked s s') : Undisturbed s s' :=
  ⟨h.same.2.2.2.1, h.same.2.2.2.2.1, h.same.2.2.2.2.2.2⟩

variable [DecidableEq K]

section Schedule

variable [Timeline]

/-- What `schedule` does for a key whose windows have not expired. -/
structure Scheduled (s s' : KeyedWindowStage K T φ) (slot now : Nat) (order : List Nat)
    (e e' : KeyState K T) : Prop where
  coherent : Coherent s' order
  held : s'.held = Function.update s.held slot (some e')
  same : e'.key = e.key ∧ e'.core = e.core ∧ e'.created = e.created
  idle : e.core.deadline = none → e' = e
  covered : ∀ x, e.core.deadline = some x → ∃ d ≤ x, e'.scheduled = some d
  heap : ∀ d ∈ s'.heap, d ∈ s.heap ∨ now < d.deadline
  due : s'.due now ≤ s.due now
  length : s'.heap.length ≤ max s.heap.length (order.length * 2 + 64)
  slab : s'.slab.length = s.slab.length
  undisturbed : Undisturbed s s'

omit [DecidableEq K] [Timeline] in
theorem due_le_of_subperm {heap : List Due} (h : heap.Subperm s.heap) :
    { s with heap := heap }.due now ≤ s.due now :=
  h.countP_le _

theorem Scheduled.same_state (h : Coherent s order) (he : s.held slot = some e)
    (hc : ∀ x, e.core.deadline = some x → ∃ d ≤ x, e.scheduled = some d) :
    Scheduled s s slot now order e e where
  coherent := h
  held := by rw [← he, Function.update_eq_self]
  same := ⟨rfl, rfl, rfl⟩
  idle _ := rfl
  covered := hc
  heap _ := .inl
  due := Nat.le_refl _
  length := Nat.le_max_left ..
  slab := rfl
  undisturbed := .refl s

section

variable {f : KeyEntry K T} {x : Nat}

omit [DecidableEq K] in
theorem schedule_idle (hf : s.entry slot = some f) (hd : f.core.deadline = none) :
    s.schedule slot now = s := by
  simp [schedule, hf, hd]

omit [DecidableEq K] in
theorem schedule_kept (hf : s.entry slot = some f) (hd : f.core.deadline = some x) (hx : now < x)
    {d : Nat} (hs : f.scheduled = some d) (hle : d ≤ x) : s.schedule slot now = s := by
  simp [schedule, hf, hd, hx, hs, hle]

/-- The state before `compact_heap` when `schedule` pushes an entry. -/
def pushed (s : KeyedWindowStage K T φ) (slot x : Nat) : KeyedWindowStage K T φ :=
  let ticket := wrapping_succ s.tickets
  { s.modify slot fun e => { e with ticket := ticket, scheduled := some x } with
    tickets := ticket
    heap := s.heap.orderedInsert Due.le ⟨x, ticket, slot⟩ }

omit [DecidableEq K] in
theorem schedule_pushed (hf : s.entry slot = some f) (hd : f.core.deadline = some x)
    (hx : now < x) (hs : ∀ d, f.scheduled = some d → x < d) :
    s.schedule slot now = (s.pushed slot x).compact_heap := by
  have hany : (f.scheduled.any fun d => d ≤ x) = false := by
    cases hsched : f.scheduled with
    | none => rfl
    | some d => simpa using hs d hsched
  simp [schedule, hf, hd, hx, hany, pushed, modify]

end

omit [DecidableEq K] [Timeline] in
theorem held_pushed (he : s.held slot = some e) (x : Nat) :
    (s.pushed slot x).held = Function.update s.held slot
      (some { e with ticket := wrapping_succ s.tickets, scheduled := some x }) :=
  held_modify (g := fun e => { e with ticket := wrapping_succ s.tickets, scheduled := some x })
    (fun _ => rfl) he

omit [DecidableEq K] [Timeline] in
theorem links_pushed (x : Nat) : (s.pushed slot x).links = s.links :=
  links_modify (s := s) (i := slot)
    (f := fun e => { e with ticket := wrapping_succ s.tickets, scheduled := some x })
    fun _ => ⟨rfl, rfl⟩

omit [Timeline] in
theorem pushed_coherent (h : Coherent s order) (he : s.held slot = some e) (x : Nat) :
    Coherent (s.pushed slot x) order := by
  have hheld := held_pushed he x
  refine h.update he hheld rfl (links_pushed x) rfl rfl ?_ ?_ ?_
  · simp [pushed, modify]
  · exact h.sorted.orderedInsert _ _
  · intro i f d hf hd
    rw [hheld, Function.update_apply] at hf
    have hmem : ∀ c, c ∈ (s.pushed slot x).heap ↔ c = ⟨x, wrapping_succ s.tickets, slot⟩ ∨
        c ∈ s.heap := fun c => List.mem_orderedInsert _
    rw [hmem]
    split at hf
    · rename_i hi
      cases hf
      cases hd
      exact .inl (by rw [hi])
    · exact .inr (h.armed i f d hf hd)

theorem schedule_spec (h : Coherent s order) (he : s.held slot = some e)
    (hfresh : e.core.Fresh now) :
    ∃ e', Scheduled s (s.schedule slot now) slot now order e e' := by
  obtain ⟨f, hf, rfl⟩ := entry_of_held he
  cases hd : f.core.deadline with
  | none =>
    refine ⟨f.state, ?_⟩
    rw [schedule_idle hf hd]
    refine .same_state h he fun x hx => ?_
    rw [show f.state.core.deadline = none from hd] at hx
    cases hx
  | some x =>
    have hlt : now < x := hfresh x hd
    by_cases hs : ∃ d ≤ x, f.scheduled = some d
    · obtain ⟨d, hle, hs⟩ := hs
      refine ⟨f.state, ?_⟩
      rw [schedule_kept hf hd hlt hs hle]
      refine .same_state h he fun y hy => ⟨d, ?_, hs⟩
      rw [show f.state.core.deadline = some x from hd, Option.some.injEq] at hy
      omega
    · have hs' : ∀ d, f.scheduled = some d → x < d := by
        intro d hd
        by_contra hle
        exact hs ⟨d, by omega, hd⟩
      rw [schedule_pushed hf hd hlt hs']
      have hc := pushed_coherent h he x
      obtain ⟨heap, heq, hsub, hlive, hsorted, hlen⟩ := compact_heap_spec hc
      rw [heq]
      have hmem : ∀ d ∈ heap, d = ⟨x, wrapping_succ s.tickets, slot⟩ ∨ d ∈ s.heap := fun d hd =>
        (List.mem_orderedInsert _).1 (hsub.subset hd)
      refine ⟨_, ?_, held_pushed he x, ⟨rfl, rfl, rfl⟩, ?_, ?_, ?_, ?_, ?_, ?_, ?_⟩
      · exact { hc with
          sorted := hsorted
          armed := fun i g d hg hgd => hlive _ (mem_live.2 ⟨g, hg, hgd, rfl⟩) }
      · intro hnone
        rw [show f.state.core.deadline = some x from hd] at hnone
        cases hnone
      · intro y hy
        rw [show f.state.core.deadline = some x from hd, Option.some.injEq] at hy
        exact ⟨x, by omega, rfl⟩
      · intro d hd
        rcases hmem d hd with rfl | hd
        · exact .inr hlt
        · exact .inl hd
      · refine (due_le_of_subperm hsub).trans ?_
        have hperm : (s.pushed slot x).heap.Perm (⟨x, wrapping_succ s.tickets, slot⟩ :: s.heap) :=
          List.perm_orderedInsert _ _ _
        rw [due, hperm.countP_eq, List.countP_cons, if_neg (by simpa using hlt)]
        exact Nat.le_refl _
      · exact hlen.trans (Nat.le_max_right ..)
      · simp [pushed, modify]
      · exact ⟨rfl, rfl, rfl⟩

end Schedule

section Removal

/-- A slot in use stands between two others or at an end. -/
theorem Coherent.split (h : Coherent s order) (he : s.held slot = some e) :
    ∃ a b, order = a ++ slot :: b ∧ order.erase slot = a ++ b := by
  obtain ⟨a, b, rfl⟩ := List.append_of_mem ((h.occupied slot).2 ⟨e, he⟩)
  have hslot : slot ∉ a := by
    intro hmem
    have := (List.nodup_append.1 h.linked.nodup).2.2 slot hmem slot List.mem_cons_self
    exact this rfl
  exact ⟨a, b, rfl, by rw [List.erase_append_right _ hslot, List.erase_cons_head]⟩

theorem unlink_holds (h : Coherent s order) (he : s.held slot = some e) :
    (s.unlink slot).links.Holds (order.erase slot) := by
  obtain ⟨a, b, horder, herase⟩ := h.split he
  obtain ⟨f, hf, -⟩ := entry_of_held he
  have hlinked := h.linked
  rw [horder] at hlinked
  obtain ⟨hprev, hnext⟩ := Links.Segment.append.1 hlinked.segment
  have hp : s.Linkable (s.links.prev (some slot)) := by
    apply h.linkable
    intro i hi
    rw [hprev.prev_eq] at hi
    rw [horder]
    cases ha : a.getLast? with
    | none => simp [ha] at hi
    | some j =>
      rw [ha] at hi
      cases hi
      exact List.mem_append_left _ (List.mem_of_getLast? ha)
  have hn : s.Linkable (s.links.next (some slot)) := by
    apply h.linkable
    intro i hi
    rw [hnext.next_eq] at hi
    rw [horder]
    cases b with
    | nil => simp at hi
    | cons j b =>
      cases hi
      simp
  rw [links_unlink (by rw [hf]; rfl) hp hn, herase]
  exact hlinked.unlink

omit [DecidableEq K] in
theorem entry_set {x : Option (KeyEntry K T)} {i j : Nat} (hi : i < s.slab.length) :
    { s with slab := s.slab.set i x }.entry j = if i = j then x else s.entry j := by
  simp only [entry, List.getElem?_set]
  by_cases hij : i = j
  · subst hij
    simp [hi]
  · simp [hij]

omit [DecidableEq K] in
/-- The links depend on the slots of the list only. -/
theorem Holds.of_entries (h : s.links.Holds order) (hhead : s'.lru_head = s.lru_head)
    (htail : s'.lru_tail = s.lru_tail) (hentry : ∀ i ∈ order, s'.entry i = s.entry i) :
    s'.links.Holds order where
  nodup := h.nodup
  segment := by
    refine h.segment.congr ?_ ?_
    · rintro x (rfl | ⟨i, hi, rfl⟩)
      · exact hhead
      · simp only [links, hentry i hi]
    · rintro x (rfl | ⟨i, hi, rfl⟩)
      · exact htail
      · simp only [links, hentry i hi]

/-- A slot is vacated. -/
theorem Coherent.vacate (h : Coherent s order) (he : s.held slot = some e)
    (hlinks : s'.links.Holds (order.erase slot))
    (hheld : s'.held = Function.update s.held slot none)
    (hindex : s'.index = s.index.erase e.key) (hfree : s'.free = slot :: s.free)
    (hslab : s'.slab.length = s.slab.length) (hheap : s'.heap = s.heap) :
    Coherent s' (order.erase slot) := by
  refine ⟨hlinks, fun i => ?_, fun k i => ?_, ?_, fun i => ?_, ?_, fun i g d hg hd => ?_⟩
  · rw [hheld, Function.update_apply]
    split
    · rename_i hi
      simp [hi, h.linked.nodup.not_mem_erase]
    · rename_i hi
      rw [← h.occupied, List.mem_erase_of_ne hi]
  · rw [hindex, hheld, Function.update_apply]
    by_cases hk : k = e.key
    · subst hk
      rw [AList.lookup_erase]
      split
      · simp
      · rename_i hi
        constructor
        · exact nofun
        · rintro ⟨g, hg, hkey⟩
          exact absurd (h.key_inj hg he hkey) hi
    · rw [AList.lookup_erase_ne hk, h.indexed]
      split
      · rename_i hi
        subst hi
        rw [he]
        constructor
        · rintro ⟨g, hg, hkey⟩
          cases hg
          exact absurd hkey.symm hk
        · rintro ⟨g, hg, -⟩
          cases hg
      · exact Iff.rfl
  · rw [hfree]
    refine List.nodup_cons.2 ⟨?_, h.free_nodup⟩
    rw [h.vacant, he]
    exact fun h => nomatch h.2
  · rw [hfree, List.mem_cons, h.vacant, hslab, hheld, Function.update_apply]
    by_cases hi : i = slot
    · subst hi
      simpa using held_lt he
    · simp [hi]
  · rw [hheap]
    exact h.sorted
  · rw [hheap]
    rw [hheld, Function.update_apply] at hg
    split at hg
    · cases hg
    · exact h.armed i g d hg hd

/-- What `remove` does to a slot in use. -/
theorem remove_spec (h : Coherent s order) (he : s.held slot = some e) :
    ∃ f s', s.remove slot = (some f, s') ∧ f.state = e ∧ Coherent s' (order.erase slot) ∧
      s'.held = Function.update s.held slot none ∧ s'.heap = s.heap ∧
      s'.slab.length = s.slab.length ∧ Undisturbed s s' := by
  have hrel := relinked_unlink (s := s) slot
  have hu : (s.unlink slot).held slot = some e := by rw [hrel.held, he]
  obtain ⟨hindex, hfree, hheap, hconfig, hseq, -, hfall⟩ := hrel.same
  have hlt := held_lt hu
  obtain ⟨f, hf, rfl⟩ := entry_of_held hu
  generalize hs' : { s.unlink slot with
    slab := (s.unlink slot).slab.set slot none
    index := (s.unlink slot).index.erase f.key
    free := slot :: (s.unlink slot).free } = s'
  have hentry : ∀ i, s'.entry i = if slot = i then none else (s.unlink slot).entry i := by
    subst hs'
    exact fun i => entry_set hlt
  have hheld : s'.held = Function.update s.held slot none := by
    funext i
    rw [Function.update_apply, ← hrel.held]
    simp only [held, hentry, eq_comm (a := i)]
    split <;> rfl
  have hlinks : s'.links.Holds (order.erase slot) := by
    refine Holds.of_entries (unlink_holds h he) (by rw [← hs']) (by rw [← hs']) fun i hi => ?_
    rw [hentry, if_neg]
    rintro rfl
    exact h.linked.nodup.not_mem_erase hi
  have hslab : s'.slab.length = s.slab.length := by
    rw [← hs', ← hrel.slab]
    exact List.length_set
  refine ⟨f, s', ?_, rfl, ?_, hheld, ?_, hslab, ?_, ?_, ?_⟩
  · rw [← hs']
    simp only [remove, hf]
  · refine h.vacate he hlinks hheld ?_ ?_ hslab ?_
    · rw [← hs', ← hindex]
      rfl
    · rw [← hs', ← hfree]
    · rw [← hs', ← hheap]
  · rw [← hs', ← hheap]
  · rw [← hs', ← hconfig]
    rfl
  · rw [← hs', ← hseq]
  · rw [← hs', ← hfall]

end Removal

section Touch

omit [DecidableEq K] in
/-- The tail of the list is its last slot, so it can be linked to. -/
theorem linkable_tail (hlinks : s.links.Holds order)
    (hocc : ∀ i ∈ order, ∃ e, s.held i = some e) : s.Linkable s.lru_tail := by
  intro i hi
  have htail : s.lru_tail = order.getLast? := hlinks.tail
  rw [htail] at hi
  obtain ⟨e, he⟩ := hocc i (List.mem_of_getLast? hi)
  rw [← held_isSome, he]
  rfl

omit [DecidableEq K] in
/-- What `touch` does to a key that has a slot. -/
def refresh (s : KeyedWindowStage K T φ) (slot : Nat) : KeyedWindowStage K T φ :=
  if some slot ≠ s.lru_tail then (s.unlink slot).push_back slot else s

omit [DecidableEq K] in
theorem refresh_relinked : Relinked s (s.refresh slot) := by
  rw [refresh]
  split
  · exact (relinked_unlink slot).trans (relinked_push_back slot)
  · exact .refl s

theorem refresh_spec (h : Coherent s order) (he : s.held slot = some e) :
    Coherent (s.refresh slot) (order.erase slot ++ [slot]) := by
  obtain ⟨a, b, horder, herase⟩ := h.split he
  have hmem : ∀ i, i ∈ order.erase slot ++ [slot] ↔ i ∈ order := by
    intro i
    rw [herase, horder]
    simp only [List.mem_append, List.mem_cons, List.not_mem_nil, or_false]
    tauto
  refine h.relink refresh_relinked ?_ hmem
  have htail : s.lru_tail = order.getLast? := h.linked.tail
  rw [refresh]
  split
  · have hrel := relinked_unlink (s := s) slot
    have hunlink := unlink_holds h he
    have hentry : ((s.unlink slot).entry slot).isSome := by
      rw [← held_isSome, hrel.held, he]
      rfl
    rw [links_push_back hentry]
    · exact hunlink.pushBack h.linked.nodup.not_mem_erase
    · refine linkable_tail hunlink fun i hi => ?_
      rw [hrel.held]
      exact (h.occupied i).1 (List.mem_of_mem_erase hi)
  · rename_i hlast
    rw [Decidable.not_not] at hlast
    have hb : b = [] := by
      cases b with
      | nil => rfl
      | cons j b =>
        have hnodup := h.linked.nodup
        rw [← hlast, horder, List.getLast?_append_of_ne_nil _ (List.cons_ne_nil _ _),
          List.getLast?_cons_cons, eq_comm] at htail
        have hslot := List.mem_of_getLast? htail
        rw [horder] at hnodup
        exact absurd hslot (List.nodup_cons.1 (List.nodup_append.1 hnodup).2.1).1
    subst hb
    rw [herase, List.append_nil, ← horder]
    exact h.linked

/-- A vacant slot is taken by a new key. -/
theorem Coherent.occupy (h : Coherent s order) (hnone : s.held slot = none)
    (hnew : s.index.lookup e.key = none) (hsched : e.scheduled = none)
    (hlinks : s'.links.Holds (order ++ [slot]))
    (hheld : s'.held = Function.update s.held slot (some e))
    (hindex : s'.index = s.index.insert e.key slot) (hnodup : s'.free.Nodup)
    (hvacant : ∀ i, i ∈ s'.free ↔ i < s'.slab.length ∧ s'.held i = none)
    (hheap : s'.heap = s.heap) : Coherent s' (order ++ [slot]) := by
  refine ⟨hlinks, fun i => ?_, fun k i => ?_, hnodup, hvacant, ?_, fun i g d hg hd => ?_⟩
  · rw [List.mem_append, List.mem_singleton, hheld, Function.update_apply, h.occupied]
    split
    · rename_i hi
      simp [hi]
    · rename_i hi
      simp [hi]
  · rw [hindex, hheld, Function.update_apply]
    by_cases hk : k = e.key
    · subst hk
      rw [AList.lookup_insert]
      split
      · rename_i hi
        simp [hi]
      · rename_i hi
        constructor
        · rintro ⟨⟩
          exact absurd rfl hi
        · rintro ⟨g, hg, hkey⟩
          exact absurd hkey (h.lookup_none hnew hg)
    · rw [AList.lookup_insert_ne hk, h.indexed]
      split
      · rename_i hi
        subst hi
        rw [hnone]
        constructor
        · exact fun ⟨g, hg, _⟩ => nomatch hg
        · rintro ⟨g, hg, hkey⟩
          cases hg
          exact absurd hkey.symm hk
      · exact Iff.rfl
  · rw [hheap]
    exact h.sorted
  · rw [hheap]
    rw [hheld, Function.update_apply] at hg
    split at hg
    · cases hg
      rw [hsched] at hd
      cases hd
    · exact h.armed i g d hg hd

theorem place_spec (h : Coherent s order) (f : KeyEntry K T) :
    ∃ slot s', s.place f = (slot, s') ∧ s.held slot = none ∧
      (∀ i, s'.entry i = if slot = i then some f else s.entry i) ∧
      s'.slab.length = max s.slab.length (order.length + 1) ∧ s'.free.Nodup ∧
      (∀ i, i ∈ s'.free ↔ i < s'.slab.length ∧ s'.held i = none) ∧
      (s'.index = s.index ∧ s'.heap = s.heap ∧ s'.lru_head = s.lru_head ∧
        s'.lru_tail = s.lru_tail) ∧ Undisturbed s s' := by
  have hlen := h.slab_length
  cases hfree : s.free with
  | cons slot free =>
    have hnodup := h.free_nodup
    have hvacant := h.vacant
    simp only [hfree, List.nodup_cons, List.mem_cons] at hnodup hvacant
    obtain ⟨hlt, hnone⟩ := (hvacant slot).1 (.inl rfl)
    have hentry : ∀ i, { s with slab := s.slab.set slot (some f), free := free }.entry i =
        if slot = i then some f else s.entry i := fun i => entry_set hlt
    rw [hfree, List.length_cons] at hlen
    refine ⟨slot, _, by rw [place, hfree], hnone, hentry, ?_, hnodup.2, fun i => ?_,
      ⟨rfl, rfl, rfl, rfl⟩, rfl, rfl, rfl⟩
    · rw [List.length_set]
      omega
    · rw [held_eq_none, hentry, List.length_set]
      by_cases hi : slot = i
      · subst hi
        simpa using hnodup.1
      · have hi' := hvacant i
        rw [held_eq_none] at hi'
        rw [if_neg hi, ← hi']
        simp [Ne.symm hi]
  | nil =>
    rw [hfree, List.length_nil] at hlen
    have hentry : ∀ i, { s with slab := s.slab ++ [some f] }.entry i =
        if s.slab.length = i then some f else s.entry i := by
      intro i
      simp only [entry]
      rcases Nat.lt_trichotomy i s.slab.length with hi | rfl | hi
      · rw [List.getElem?_append_left hi, if_neg (by omega)]
      · simp
      · rw [List.getElem?_eq_none (by simp; omega), if_neg (by omega),
          List.getElem?_eq_none (by omega)]
    have hnone : s.held s.slab.length = none := by
      cases he : s.held s.slab.length with
      | none => rfl
      | some e => exact absurd (held_lt he) (Nat.lt_irrefl _)
    refine ⟨s.slab.length, _, by rw [place, hfree], hnone, hentry, ?_, ?_, fun i => ?_,
      ⟨rfl, rfl, rfl, rfl⟩, rfl, rfl, rfl⟩
    · rw [List.length_append, List.length_singleton]
      omega
    · rw [hfree]
      exact List.nodup_nil
    · rw [held_eq_none, hentry, List.length_append, List.length_singleton, hfree]
      by_cases hi : s.slab.length = i
      · subst hi
        simp
      · rw [if_neg hi]
        simp only [List.not_mem_nil, false_iff, not_and]
        intro hlt
        have hv := (h.vacant i).not
        rw [hfree, held_eq_none] at hv
        simp only [List.not_mem_nil, not_false_eq_true, true_iff, not_and] at hv
        exact hv (by omega)

/-- What `create` does for a key without a slot. -/
theorem create_spec (h : Coherent s order) {key : K} (hnew : s.index.lookup key = none) :
    ∃ slot s', s.create key = (slot, s') ∧ s.held slot = none ∧ Coherent s' (order ++ [slot]) ∧
      s'.held = Function.update s.held slot
        (some ⟨key, Core.new s.policy, wrapping_succ s.seq, 0, none⟩) ∧
      s'.heap = s.heap ∧ s'.slab.length = max s.slab.length (order.length + 1) ∧
      s'.config = s.config ∧ s'.seq = wrapping_succ s.seq ∧ s'.fallbacks = s.fallbacks := by
  let t := { s with seq := wrapping_succ s.seq }
  have ht : Coherent t order := ⟨h.linked, h.occupied, h.indexed, h.free_nodup, h.vacant, h.sorted,
    h.armed⟩
  obtain ⟨slot, u, hplace, hnone, hentry, hslab, hnodup, hvacant, ⟨hindex, hheap, hhead, htail⟩,
    hsame⟩ := place_spec ht ⟨key, Core.new s.policy, wrapping_succ s.seq, none, none, 0, none⟩
  let v := { u with index := u.index.insert key slot }
  have hrel : Relinked v (v.push_back slot) := relinked_push_back slot
  have hnotin : slot ∉ order := by
    intro hmem
    obtain ⟨e, he⟩ := (ht.occupied slot).1 hmem
    rw [hnone] at he
    cases he
  have hheld : v.held = Function.update s.held slot
      (some ⟨key, Core.new s.policy, wrapping_succ s.seq, 0, none⟩) := by
    funext i
    rw [Function.update_apply]
    show (u.entry i).map KeyEntry.state = _
    rw [hentry]
    by_cases hi : slot = i
    · subst hi
      simp [KeyEntry.state]
    · rw [if_neg hi, if_neg (Ne.symm hi)]
      rfl
  have hlinks : (v.push_back slot).links.Holds (order ++ [slot]) := by
    have hv : v.links.Holds order := by
      refine Holds.of_entries ht.linked hhead htail fun i hi => ?_
      show u.entry i = _
      rw [hentry, if_neg]
      rintro rfl
      exact hnotin hi
    rw [links_push_back]
    · exact hv.pushBack hnotin
    · show (u.entry slot).isSome
      rw [hentry, if_pos rfl]
      rfl
    · refine linkable_tail hv fun i hi => ?_
      obtain ⟨e, he⟩ := (ht.occupied i).1 hi
      refine ⟨e, ?_⟩
      rw [hheld, Function.update_of_ne]
      · exact he
      · rintro rfl
        exact hnotin hi
  obtain ⟨hindex', hfree', hheap', hconfig, hseq, -, hfall⟩ := hrel.same
  refine ⟨slot, v.push_back slot, ?_, hnone, ?_, ?_, ?_, ?_, ?_, ?_, ?_⟩
  · simp only [create]
    rw [show ({ s with seq := wrapping_succ s.seq } : KeyedWindowStage K T φ).place
      ⟨key, Core.new s.policy, wrapping_succ s.seq, none, none, 0, none⟩ = (slot, u) from hplace]
  · refine ht.occupy hnone hnew rfl hlinks (hrel.held.trans hheld) ?_ ?_ ?_ ?_
    · rw [hindex']
      show u.index.insert key slot = t.index.insert key slot
      rw [hindex]
    · rw [hfree']
      exact hnodup
    · intro i
      rw [hfree', hrel.slab, hrel.held]
      exact hvacant i
    · exact hheap'.trans hheap
  · exact hrel.held.trans hheld
  · exact hheap'.trans hheap
  · exact hrel.slab.trans hslab
  · exact hconfig.trans hsame.config
  · exact hseq.trans hsame.seq
  · exact hfall.trans hsame.fallbacks

end Touch

end KeyedWindowStage

end PipeIo
