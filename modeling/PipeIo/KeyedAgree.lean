import PipeIo.KeyedNaive

namespace PipeIo
set_option autoImplicit true

open Lib

namespace KeyedWindowStage

variable [Timeline] {K T φ : Type} [DecidableEq K] {s t s' : KeyedWindowStage K T φ}
  {slot now anchor : Nat} {order made : List Nat} {e : KeyState K T} {policy : WindowPolicy}
  {touched : Nat → Nat} {n : NaiveKeyed K T φ} {k : K}

/-- The keys of the stage as the reference has them: `made` lists their slots in the order in
which the state of the keys was created. -/
def view (s : KeyedWindowStage K T φ) (touched : Nat → Nat) (made : List Nat) :
    List (NaiveKey K T) :=
  made.filterMap fun i => (s.held i).map fun e => ⟨e.key, e.core, touched i⟩

/-- The stage and the reference agree on the keys. -/
structure Agrees (s : KeyedWindowStage K T φ) (order : List Nat) (n : NaiveKeyed K T φ)
    (made : List Nat) (touched : Nat → Nat) : Prop where
  config : (n.policy, n.max_items, n.max_keys, n.key_state, n.anchor) = s.config
  perm : made.Perm order
  keys : n.keys = s.view touched made
  lru : order.Pairwise fun i j => touched i < touched j
  recent : ∀ i ∈ order, touched i ≤ n.seq
  created : made.Pairwise fun i j =>
    ∀ e f, s.held i = some e → s.held j = some f → e.created < f.created
  numbered : ∀ i e, s.held i = some e → e.created ≤ s.seq
  seq : s.seq ≤ n.seq

omit [Timeline] [DecidableEq K] in
theorem mem_view {x : NaiveKey K T} : x ∈ s.view touched made ↔
    ∃ i ∈ made, ∃ e, s.held i = some e ∧ ⟨e.key, e.core, touched i⟩ = x := by
  simp [view]

omit [Timeline] in
theorem view_keys (h : Coherent s order) (hnodup : made.Nodup) :
    (s.view touched made).Pairwise fun a b => a.key ≠ b.key := by
  rw [view, List.pairwise_filterMap]
  apply hnodup.imp
  intro i j hne a ha b hb heq
  obtain ⟨e, he, rfl⟩ := Option.map_eq_some_iff.1 ha
  obtain ⟨f, hf, rfl⟩ := Option.map_eq_some_iff.1 hb
  exact hne (h.key_inj he hf heq)

omit [Timeline] in
theorem find_view_none (h : ∀ i e, s.held i = some e → e.key ≠ k) :
    (s.view touched made).find? (fun x => x.key = k) = none := by
  rw [List.find?_eq_none]
  intro x hx
  obtain ⟨i, -, e, he, rfl⟩ := mem_view.1 hx
  simpa using h i e he

omit [Timeline] in
theorem find_view (h : Coherent s order) (hperm : made.Perm order) (he : s.held slot = some e) : (s.view touched made).find? (fun x => x.key = e.key) =
      some ⟨e.key, e.core, touched slot⟩ := by
  have hmem : (⟨e.key, e.core, touched slot⟩ : NaiveKey K T) ∈ s.view touched made :=
    mem_view.2 ⟨slot, hperm.mem_iff.2 ((h.occupied slot).2 ⟨e, he⟩), e, he, rfl⟩
  cases hfind : (s.view touched made).find? fun x => x.key = e.key with
  | none =>
    rw [List.find?_eq_none] at hfind
    exact absurd (decide_eq_true rfl) (hfind _ hmem)
  | some x =>
    obtain ⟨j, -, f, hf, rfl⟩ := mem_view.1 (List.mem_of_find?_eq_some hfind)
    have hkey := List.find?_some hfind
    have hj := h.key_inj hf he (by simpa using hkey)
    subst hj
    rw [hf] at he
    cases he
    rfl

theorem fresh_iff_all {c : Core T} : c.Fresh now ↔ c.deadline.all fun d => d > now := by
  cases hd : c.deadline with
  | none => simp [Core.Fresh, hd]
  | some d => simp [Core.Fresh, hd]

omit [DecidableEq K] in
/-- A key that is not stranded fares in `expire` as it does in the reference. -/
theorem Settled.naive {stranded : Prop} {e' : Option (KeyState K T)} {out : List (Window T)}
    (h : Settled anchor now stranded e e' out) (hstranded : ¬stranded)
    (hf : e.core.Fits policy anchor) (hv : policy.Valid) (hn : now ≤ Timeline.horizon) (x : Nat) :
    NaiveKeyed.ticked anchor now ⟨e.key, e.core, x⟩ = e'.map (fun f => ⟨f.key, f.core, x⟩) ∧
      NaiveKeyed.tick_out anchor now ⟨e.key, e.core, x⟩ = out := by
  rw [NaiveKeyed.ticked, NaiveKeyed.tick_out, h.out]
  by_cases hfresh : e.core.Fresh now
  · rw [if_pos (fresh_iff_all.1 hfresh), if_pos (fresh_iff_all.1 hfresh)]
    have htick := Core.on_tick_fresh hf hv hn hfresh
    rw [htick]
    refine ⟨?_, rfl⟩
    cases he' : e' with
    | none => exact absurd ((h.released he').2 hfresh) hstranded
    | some f =>
      obtain ⟨hkey, -, hcore, -⟩ := h.kept f he'
      rw [htick] at hcore
      rw [Option.map_some, hkey, hcore]
      rfl
  · have hall := mt fresh_iff_all.2 hfresh
    rw [if_neg hall, if_neg hall]
    refine ⟨?_, rfl⟩
    cases he' : e' with
    | none =>
      rw [if_pos (h.released he').1]
      rfl
    | some f =>
      obtain ⟨hkey, -, hcore, hempty⟩ := h.kept f he'
      rw [if_neg (fun hemp => hfresh (hempty (hcore ▸ hemp))), Option.map_some, hkey, hcore]

omit [Timeline] [DecidableEq K] in
theorem view_filter : s.view touched (made.filter fun i => (s.held i).isSome) =
    s.view touched made := by
  rw [view, view, List.filterMap_filter]
  apply List.filterMap_congr
  intro i _
  cases s.held i with
  | none => rfl
  | some e => rfl

/-- No key is stranded. -/
def Afloat (s : KeyedWindowStage K T φ) (now : Nat) : Prop :=
  ∀ i e, s.held i = some e → ¬s.StrandedAt now i e

/-- `expire` does what the reference does. -/
theorem Agrees.expire {out : List (K × Window T)} (h : Agrees s order n made touched)
    (hs : Sound s order policy anchor) (hexp : Expired anchor now s order policy t out)
    (hafloat : s.Afloat now) (hanchor : n.anchor = some anchor) (hv : policy.Valid)
    (hn : now ≤ Timeline.horizon) :
    Agrees t (order.filter fun i => (t.held i).isSome) (n.tick_all now).val
        (made.filter fun i => (t.held i).isSome) touched ∧
      (n.tick_all now).val.seq = n.seq ∧
      ∀ k, forKey k out = forKey k (n.tick_all now).out := by
  have hnodup : made.Nodup := h.perm.nodup_iff.2 hs.coherent.linked.nodup
  have hval : (n.tick_all now).val =
      { n with keys := (s.view touched made).filterMap (NaiveKeyed.ticked anchor now) } := by
    simp only [NaiveKeyed.tick_all, hanchor, NaiveKeyed.tick_keys_eq, h.keys]
    rfl
  have hout : (n.tick_all now).out = (s.view touched made).flatMap fun e =>
      (NaiveKeyed.tick_out anchor now e).map fun w => (e.key, w) := by
    simp only [NaiveKeyed.tick_all, hanchor, NaiveKeyed.tick_keys_eq, h.keys, Emitting.bind_out,
      Emitting.pure_out, List.append_nil]
  have hview : (s.view touched made).filterMap (NaiveKeyed.ticked anchor now) =
      t.view touched made := by
    rw [view, view, List.filterMap_filterMap]
    apply List.filterMap_congr
    intro i _
    cases he : s.held i with
    | none =>
      rw [hexp.vacant i he]
      rfl
    | some e =>
      exact ((hexp.settled i e he).naive (hafloat i e he) (hs.fits i e he) hv hn _).1
  have hcreated : ∀ i f, t.held i = some f → ∃ e, s.held i = some e ∧ f.created = e.created := by
    intro i f hf
    cases he : s.held i with
    | none =>
      rw [hexp.vacant i he] at hf
      cases hf
    | some e => exact ⟨e, rfl, ((hexp.settled i e he).kept f hf).2.1⟩
  rw [hval]
  refine ⟨⟨?_, h.perm.filter _, ?_, h.lru.filter _, ?_, ?_, ?_, ?_⟩, rfl, fun k => ?_⟩
  · rw [hexp.undisturbed.config]
    exact h.config
  · rw [view_filter]
    exact hview
  · intro i hi
    exact h.recent i (List.mem_filter.1 hi).1
  · apply (h.created.filter _).imp
    intro i j hlt f g hf hg
    obtain ⟨e, he, hfe⟩ := hcreated i f hf
    obtain ⟨e', he', hge⟩ := hcreated j g hg
    rw [hfe, hge]
    exact hlt e e' he he'
  · intro i f hf
    obtain ⟨e, he, hfe⟩ := hcreated i f hf
    rw [hfe, hexp.undisturbed.seq]
    exact h.numbered i e he
  · rw [hexp.undisturbed.seq]
    exact h.seq
  · rw [hout, forKey_flatMap _ _ (view_keys hs.coherent hnodup)]
    cases hk : s.index.lookup k with
    | none =>
      rw [find_view_none fun i e he => hs.coherent.lookup_none hk he]
      apply forKey_other
      intro w hw heq
      obtain ⟨i, e, he, hkey⟩ := hexp.keys w hw
      exact hs.coherent.lookup_none hk he (hkey.symm.trans heq)
    | some slot =>
      obtain ⟨e, he, rfl⟩ := (hs.coherent.indexed k slot).1 hk
      rw [find_view hs.coherent h.perm he]
      exact ((hexp.settled slot e he).naive (hafloat slot e he) (hs.fits slot e he) hv hn _).2.symm

omit [Timeline] in
theorem Agrees.nodup (h : Agrees s order n made touched) (hs : Coherent s order) : made.Nodup :=
  h.perm.nodup_iff.2 hs.linked.nodup

omit [Timeline] in
theorem Agrees.length (h : Agrees s order n made touched) (hs : Coherent s order) :
    n.keys.length = order.length := by
  rw [h.keys, ← h.perm.length_eq, view]
  rw [List.filterMap_length_eq_length.2]
  intro i hi
  obtain ⟨e, he⟩ := (hs.occupied i).1 (h.perm.mem_iff.1 hi)
  simp [he]

/-- The least recently active key is the one whose last item is oldest. -/
theorem Agrees.evict {victim : Nat} (h : Agrees s (victim :: order) n made touched)
    (hs : Coherent s (victim :: order)) (he : s.held victim = some e)
    (hheld : t.held = Function.update s.held victim none) (hund : Undisturbed s t) :
    Agrees t order (n.evict now).val (made.erase victim) touched ∧
      (n.evict now).val.seq = n.seq ∧
      (n.evict now).out = (e.core.on_flush now Emitting.emit).out.map fun w => (e.key, w) := by
  have hnodup := h.nodup hs
  have hfirst := List.pairwise_cons.1 h.lru
  have holdest : NaiveKeyed.oldest n.keys = some ⟨e.key, e.core, touched victim⟩ := by
    rw [h.keys]
    apply NaiveKeyed.oldest_eq
    · exact mem_view.2 ⟨victim, h.perm.mem_iff.2 List.mem_cons_self, e, he, rfl⟩
    · intro f hf hne
      obtain ⟨j, hj, g, hg, rfl⟩ := mem_view.1 hf
      have hj' := h.perm.mem_iff.1 hj
      cases hj' with
      | head =>
        rw [he] at hg
        cases hg
        exact absurd rfl hne
      | tail _ hj' => exact hfirst.1 j hj'
  have hemit : e.core.on_flush now (keyed_emit e.key Emitting.emit) =
      (e.core.on_flush now Emitting.emit).renamed fun w => (e.key, w) :=
    Core.on_flush_renamed _
  have hval : (n.evict now).val = { n with keys := n.keys.filter fun f => f.key ≠ e.key } := by
    simp only [NaiveKeyed.evict, holdest]
    rfl
  have hout : (n.evict now).out =
      (e.core.on_flush now Emitting.emit).out.map fun w => (e.key, w) := by
    simp only [NaiveKeyed.evict, holdest, hemit, Emitting.bind_out, Emitting.renamed_out,
      Emitting.pure_out, List.append_nil]
  have hkept : ∀ i f, t.held i = some f → s.held i = some f := by
    intro i f hf
    rw [hheld, Function.update_apply] at hf
    split at hf
    · cases hf
    · exact hf
  rw [hval]
  refine ⟨⟨?_, ?_, ?_, hfirst.2, ?_, ?_, ?_, ?_⟩, rfl, hout⟩
  · rw [hund.config]
    exact h.config
  · have herase := h.perm.erase victim
    rw [List.erase_cons_head] at herase
    exact herase
  · rw [h.keys, hnodup.erase_eq_filter, view, view, List.filter_filterMap, List.filterMap_filter]
    apply List.filterMap_congr
    intro i _
    rw [hheld]
    by_cases hi : i = victim
    · subst hi
      simp [he]
    · rw [Function.update_of_ne hi, if_pos (by simpa using hi)]
      cases hf : s.held i with
      | none => rfl
      | some f =>
        have hne : f.key ≠ e.key := fun hk => hi (hs.key_inj hf he hk)
        simp [hne]
  · intro i hi
    exact h.recent i (List.mem_cons_of_mem _ hi)
  · apply (h.created.sublist List.erase_sublist).imp
    intro i j hlt f g hf hg
    exact hlt f g (hkept i f hf) (hkept j g hg)
  · intro i f hf
    rw [hund.seq]
    exact h.numbered i f (hkept i f hf)
  · rw [hund.seq]
    exact h.seq

section Add

variable {item : T} {e' : KeyState K T}

omit [Timeline] [DecidableEq K] in
/-- The slot that gets an item becomes the most recently touched one. -/
theorem touched_lru {order : List Nat} (hlru : order.Pairwise fun i j => touched i < touched j)
    (hrecent : ∀ i ∈ order, touched i ≤ n.seq) (hnew : slot ∉ order) :
    (order ++ [slot]).Pairwise (fun i j => Function.update touched slot (n.seq + 1) i <
        Function.update touched slot (n.seq + 1) j) ∧
      ∀ i ∈ order ++ [slot], Function.update touched slot (n.seq + 1) i ≤ n.seq + 1 := by
  have hsame : ∀ i ∈ order, Function.update touched slot (n.seq + 1) i = touched i := by
    intro i hi
    apply Function.update_of_ne
    rintro rfl
    exact hnew hi
  constructor
  · rw [List.pairwise_append]
    refine ⟨hlru.imp_of_mem fun ha hb hlt => ?_, List.pairwise_singleton _ _, fun i hi j hj => ?_⟩
    · rw [hsame _ ha, hsame _ hb]
      exact hlt
    · rw [List.mem_singleton] at hj
      subst hj
      rw [hsame i hi, Function.update_self]
      exact Nat.lt_succ_of_le (hrecent i hi)
  · intro i hi
    rcases List.mem_append.1 hi with hi | hi
    · rw [hsame i hi]
      exact Nat.le_succ_of_le (hrecent i hi)
    · rw [List.mem_singleton] at hi
      subst hi
      rw [Function.update_self]

/-- An item of a key that is there. -/
theorem Agrees.add_known (h : Agrees s order n made touched) (hs : Coherent s order)
    (he : s.held slot = some e) (hkey : e'.key = e.key) (hcreated : e'.created = e.created)
    (hcore : e'.core = (e.core.on_item n.max_items anchor now item Emitting.emit).val)
    (hheld : s'.held = Function.update s.held slot (some e')) (hconfig : s'.config = s.config)
    (hseq : s'.seq = s.seq) :
    Agrees s' (order.erase slot ++ [slot]) (n.add e.key item anchor now).val made
        (Function.update touched slot (n.seq + 1)) ∧
      (n.add e.key item anchor now).val.seq = n.seq + 1 ∧
      (n.add e.key item anchor now).out =
        (e.core.on_item n.max_items anchor now item Emitting.emit).out.map fun w => (e.key, w) := by
  have hmem : slot ∈ order := (hs.occupied slot).2 ⟨e, he⟩
  have hperm : (order.erase slot ++ [slot]).Perm order :=
    List.perm_append_comm.trans (List.perm_cons_erase hmem).symm
  have hfind : n.keys.find? (fun x => x.key = e.key) = some ⟨e.key, e.core, touched slot⟩ := by
    rw [h.keys]
    exact find_view hs h.perm he
  have hemit : e.core.on_item n.max_items anchor now item (keyed_emit e.key Emitting.emit) =
      (e.core.on_item n.max_items anchor now item Emitting.emit).renamed fun w => (e.key, w) :=
    Core.on_item_renamed _ _ _
  have hsame : ∀ i f, s'.held i = some f → ∃ g, s.held i = some g ∧ f.created = g.created := by
    intro i f hf
    rw [hheld, Function.update_apply] at hf
    split at hf
    · rename_i hi
      cases hf
      exact ⟨e, hi ▸ he, hcreated⟩
    · exact ⟨f, hf, rfl⟩
  obtain ⟨hlru, hrecent⟩ := touched_lru (n := n) (h.lru.sublist List.erase_sublist)
    (fun i hi => h.recent i (List.mem_of_mem_erase hi))
    (hs.linked.nodup.not_mem_erase : slot ∉ order.erase slot)
  have hadd : n.add e.key item anchor now = ⟨{ n with
      seq := n.seq + 1
      keys := n.keys.map fun x => if x.key = e.key then ⟨e.key, e'.core, n.seq + 1⟩ else x },
      (e.core.on_item n.max_items anchor now item Emitting.emit).out.map fun w => (e.key, w)⟩ := by
    simp only [NaiveKeyed.add, hfind, hemit, hcore]
    simp [bind]
  rw [hadd]
  refine ⟨⟨?_, h.perm.trans hperm.symm, ?_, hlru, hrecent, ?_, ?_, ?_⟩, rfl, rfl⟩
  · rw [hconfig]
    exact h.config
  · rw [h.keys, view, view, List.map_filterMap]
    apply List.filterMap_congr
    intro i _
    rw [hheld]
    by_cases hi : i = slot
    · subst hi
      simp [he, hkey]
    · rw [Function.update_of_ne hi, Function.update_of_ne hi]
      cases hf : s.held i with
      | none => rfl
      | some f =>
        have hne : f.key ≠ e.key := fun hk => hi (hs.key_inj hf he hk)
        simp [hne]
  · apply h.created.imp
    intro i j hlt f g hf hg
    obtain ⟨f', hf', hfc⟩ := hsame i f hf
    obtain ⟨g', hg', hgc⟩ := hsame j g hg
    rw [hfc, hgc]
    exact hlt f' g' hf' hg'
  · intro i f hf
    obtain ⟨f', hf', hfc⟩ := hsame i f hf
    rw [hfc, hseq]
    exact h.numbered i f' hf'
  · rw [hseq]
    exact Nat.le_succ_of_le h.seq

/-- An item of a new key. -/
theorem Agrees.add_new (h : Agrees s order n made touched) (hs : Coherent s order)
    (hnone : s.held slot = none) (hkeys : ∀ i f, s.held i = some f → f.key ≠ k) (hkey : e'.key = k)
    (hcreated : e'.created = s.seq + 1)
    (hcore : e'.core =
      ((Core.new n.policy).on_item n.max_items anchor now item Emitting.emit).val)
    (hheld : s'.held = Function.update s.held slot (some e')) (hconfig : s'.config = s.config)
    (hseq : s'.seq = s.seq + 1) :
    Agrees s' (order ++ [slot]) (n.add k item anchor now).val (made ++ [slot])
        (Function.update touched slot (n.seq + 1)) ∧
      (n.add k item anchor now).val.seq = n.seq + 1 ∧
      (n.add k item anchor now).out =
        ((Core.new n.policy).on_item n.max_items anchor now item Emitting.emit).out.map
          fun w => (k, w) := by
  have hfree : slot ∉ order := by
    intro hmem
    obtain ⟨f, hf⟩ := (hs.occupied slot).1 hmem
    rw [hnone] at hf
    cases hf
  have hfind : n.keys.find? (fun x => x.key = k) = none := by
    rw [h.keys]
    exact find_view_none hkeys
  have hemit : (Core.new n.policy).on_item n.max_items anchor now item
      (keyed_emit k Emitting.emit) = ((Core.new n.policy).on_item n.max_items anchor now item
        Emitting.emit).renamed fun w => (k, w) :=
    Core.on_item_renamed _ _ _
  have hsame : ∀ i ∈ made, s'.held i = s.held i := by
    intro i hi
    rw [hheld]
    apply Function.update_of_ne
    rintro rfl
    exact hfree (h.perm.mem_iff.1 hi)
  have hself : s'.held slot = some e' := by rw [hheld, Function.update_self]
  obtain ⟨hlru, hrecent⟩ := touched_lru (n := n) h.lru h.recent hfree
  have hadd : n.add k item anchor now = ⟨{ n with
      seq := n.seq + 1
      keys := n.keys ++ [⟨k, e'.core, n.seq + 1⟩] },
      ((Core.new n.policy).on_item n.max_items anchor now item Emitting.emit).out.map
        fun w => (k, w)⟩ := by
    simp only [NaiveKeyed.add, hfind, hemit, hcore]
    simp [bind]
  have hview : s'.view (Function.update touched slot (n.seq + 1)) (made ++ [slot]) =
      n.keys ++ [⟨k, e'.core, n.seq + 1⟩] := by
    have hlast : s'.view (Function.update touched slot (n.seq + 1)) [slot] =
        [⟨k, e'.core, n.seq + 1⟩] := by
      simp [view, hself, hkey]
    rw [h.keys, ← hlast, view, view, view, List.filterMap_append]
    congr 1
    apply List.filterMap_congr
    intro i hi
    have hne : i ≠ slot := by
      rintro rfl
      exact hfree (h.perm.mem_iff.1 hi)
    rw [hsame i hi, Function.update_of_ne hne]
  rw [hadd]
  refine ⟨⟨?_, h.perm.append_right _, hview.symm, hlru, hrecent, ?_, ?_, ?_⟩, rfl, rfl⟩
  · rw [hconfig]
    exact h.config
  · rw [List.pairwise_append]
    refine ⟨h.created.imp_of_mem fun ha hb hlt f g hf hg => ?_, List.pairwise_singleton _ _,
      fun i hi j hj f g hf hg => ?_⟩
    · rw [hsame _ ha] at hf
      rw [hsame _ hb] at hg
      exact hlt f g hf hg
    · rw [List.mem_singleton] at hj
      subst hj
      rw [hself] at hg
      cases hg
      rw [hsame i hi] at hf
      rw [hcreated]
      exact Nat.lt_succ_of_le (h.numbered i f hf)
  · intro i f hf
    rw [hheld, Function.update_apply] at hf
    rw [hseq]
    split at hf
    · cases hf
      exact Nat.le_of_eq hcreated
    · exact Nat.le_succ_of_le (h.numbered i f hf)
  · rw [hseq]
    exact Nat.succ_le_succ h.seq

end Add

omit [Timeline] [DecidableEq K] in
theorem Agrees.anchored (h : Agrees s order n made touched) (a : Option Nat) :
    Agrees { s with anchor := a } order { n with anchor := a } made touched where
  config := by
    have hconfig := h.config
    simp only [KeyedWindowStage.config, Prod.mk.injEq] at hconfig ⊢
    exact ⟨hconfig.1, hconfig.2.1, hconfig.2.2.1, hconfig.2.2.2.1, trivial⟩
  perm := h.perm
  keys := h.keys
  lru := h.lru
  recent := h.recent
  created := h.created
  numbered := h.numbered
  seq := h.seq

omit [Timeline] [DecidableEq K] in
theorem Agrees.keyed (h : Agrees s order n made touched) (x : φ) :
    Agrees { s with key_state := x } order { n with key_state := x } made touched where
  config := by
    have hconfig := h.config
    simp only [KeyedWindowStage.config, Prod.mk.injEq] at hconfig ⊢
    exact ⟨hconfig.1, hconfig.2.1, hconfig.2.2.1, trivial, hconfig.2.2.2.2⟩
  perm := h.perm
  keys := h.keys
  lru := h.lru
  recent := h.recent
  created := h.created
  numbered := h.numbered
  seq := h.seq

/-- Making room does what the reference does. -/
theorem Agrees.make_room {order' : List Nat} {out : List (K × Window T)}
    (h : Agrees s order n made touched) (hs : Coherent s order)
    (hnew : ∀ i f, s.held i = some f → f.key ≠ k) (hroom : Room anchor now s order policy t order' out) :
    ∃ made', Agrees t order' (n.make_room k now).val made' touched ∧
      (n.make_room k now).val.seq = n.seq ∧ (n.make_room k now).out = out := by
  have hfind : (n.keys.find? fun x => x.key = k).isNone = true := by
    rw [h.keys, find_view_none hnew]
    rfl
  have hmax : n.max_keys = s.max_keys := by
    have hconfig := h.config
    simp only [KeyedWindowStage.config, Prod.mk.injEq] at hconfig
    exact hconfig.2.2.1
  rcases hroom.evicted with ⟨hlt, rfl, rfl, rfl⟩ | ⟨hle, victim, e, rfl, he, hheld, rfl⟩
  · have hskip : n.make_room k now = pure n := by
      rw [NaiveKeyed.make_room, if_neg]
      rw [h.length hs, hmax]
      omega
    rw [hskip]
    exact ⟨made, h, rfl, rfl⟩
  · have hevict : n.make_room k now = n.evict now := by
      rw [NaiveKeyed.make_room, if_pos]
      rw [h.length hs, hmax]
      exact ⟨hfind, hle⟩
    rw [hevict]
    exact ⟨_, h.evict hs he hheld hroom.undisturbed⟩

/-- What `touch` and `deliver` do with the item is what the reference does. -/
theorem Agrees.deliver {item : T} {u : KeyedWindowStage K T φ} {order' : List Nat}
    {evicted delivered : List (K × Window T)} (h : Agrees s order n made touched)
    (hs : Sound s order policy anchor) (hpolicy : s.policy = policy)
    (htouch : Touched anchor now s order policy k slot u order' e evicted)
    (hdeliver : Delivered anchor now item u (order' ++ [slot]) policy slot e s' delivered)
    (hseq : n.seq + 1 < 2 ^ 64) :
    ∃ made' touched',
      Agrees s' (order' ++ [slot]) ((n.make_room k now).val.add k item anchor now).val made'
        touched' ∧
      ((n.make_room k now).val.add k item anchor now).val.seq = n.seq + 1 ∧
      (n.make_room k now).out = evicted ∧
      ((n.make_room k now).val.add k item anchor now).out = delivered := by
  obtain ⟨e', hheld', hkey', hcreated', hcore'⟩ := hdeliver.held
  have hconfig : s'.config = s.config := hdeliver.undisturbed.config.trans htouch.config
  have hu : u.max_items = s.max_items ∧ n.max_items = s.max_items ∧ n.policy = s.policy := by
    have h1 := htouch.config
    have h2 := h.config
    simp only [KeyedWindowStage.config, Prod.mk.injEq] at h1 h2
    exact ⟨h1.2.1, h2.2.1, h2.1⟩
  obtain ⟨hui, hni, hnp⟩ := hu
  rw [hui, ← hni] at hcore'
  have hout := hdeliver.out
  rw [hui, ← hni] at hout
  have hwrap : wrapping_succ s.seq = s.seq + 1 := by
    have hle := h.seq
    rw [wrapping_succ, Nat.mod_eq_of_lt (by omega)]
  rcases htouch.cases with ⟨he, hheld, rfl, hsame, rfl⟩ |
    ⟨hk, hnext, hcore, hcreated, v, hroom, hnone, hheld⟩
  · -- The key is there.
    have howner := htouch.owner
    subst howner
    have hskip : n.make_room e.key now = pure n := by
      rw [NaiveKeyed.make_room, if_neg]
      rw [h.keys, find_view hs.coherent h.perm he]
      simp
    rw [hskip]
    obtain ⟨hagree, hnseq, hnout⟩ := h.add_known hs.coherent he hkey' hcreated' hcore'
      (hheld'.trans (by rw [hheld])) hconfig (hdeliver.undisturbed.seq.trans hsame)
    exact ⟨_, _, hagree, hnseq, rfl, hnout.trans hout.symm⟩
  · -- The key is new.
    have hother : ∀ i f, s.held i = some f → f.key ≠ k :=
      fun i f hf => hs.coherent.lookup_none hk hf
    have hvother : ∀ i f, v.held i = some f → f.key ≠ k := by
      intro i f hf
      rcases hroom.evicted with ⟨-, rfl, -, -⟩ | ⟨-, victim, g, -, -, hvheld, -⟩
      · exact hother i f hf
      · rw [hvheld, Function.update_apply] at hf
        split at hf
        · cases hf
        · exact hother i f hf
    obtain ⟨made', hagree, hrseq, hrout⟩ := h.make_room hs.coherent hother hroom
    have hsame : (n.make_room k now).val.max_items = n.max_items ∧
        (n.make_room k now).val.policy = n.policy := by
      have h1 := hagree.config
      have h2 := h.config
      have h3 := hroom.undisturbed.config
      simp only [KeyedWindowStage.config, Prod.mk.injEq] at h1 h2 h3
      exact ⟨by rw [h1.2.1, h3.2.1, h2.2.1], by rw [h1.1, h3.1, h2.1]⟩
    have hvseq : v.seq = s.seq := hroom.undisturbed.seq
    rw [hcore, ← hnp, ← hsame.1, ← hsame.2] at hcore' hout
    have hvconfig : s'.config = v.config := hconfig.trans hroom.undisturbed.config.symm
    have hsheld : s'.held = Function.update v.held slot (some e') := by
      rw [hheld', hheld, Function.update_idem]
    have hsseq : s'.seq = v.seq + 1 := by
      rw [hdeliver.undisturbed.seq, hnext, hwrap, hvseq]
    have hscreated : e'.created = v.seq + 1 := by
      rw [hcreated', hcreated, hwrap, hvseq]
    have howner := htouch.owner
    subst howner
    obtain ⟨hagree', hnseq, hnout⟩ := hagree.add_new hroom.sound.coherent hnone hvother hkey'
      hscreated hcore' hsheld hvconfig hsseq
    exact ⟨_, _, hagree', by rw [hnseq, hrseq], hrout, hnout.trans hout.symm⟩

/-- `process` does what the reference does. -/
theorem Agrees.process {key_fn : T → φ → K × φ} {item : T} {u : KeyedWindowStage K T φ}
    {order' : List Nat} {expired evicted delivered : List (K × Window T)}
    (h : Agrees s order n made touched) (hs : Sound s order s.policy anchor)
    (hproc : Processed key_fn item now s order anchor s' t u order' slot e expired evicted delivered)
    (hanchor : s.anchor.getD (grid_origin s.policy now) = anchor) (hafloat : s.Afloat now)
    (hv : s.policy.Valid) (hn : now ≤ Timeline.horizon) (hseq : n.seq + 1 < 2 ^ 64) :
    ∃ made' touched', Agrees s' (order' ++ [slot]) (n.item key_fn item now).val made' touched' ∧
      (n.item key_fn item now).val.seq = n.seq + 1 ∧
      ∀ k, forKey k (expired ++ (evicted ++ delivered)) =
        forKey k (n.item key_fn item now).out := by
  have hconfig := h.config
  simp only [KeyedWindowStage.config, Prod.mk.injEq] at hconfig
  have hget : n.anchor.getD (grid_origin n.policy now) = anchor := by
    rw [hconfig.2.2.2.2, hconfig.1, hanchor]
  obtain ⟨h1, hseq1, hout1⟩ := (h.anchored (some anchor)).expire
    (hs.configured (some anchor) s.key_state) hproc.expire hafloat rfl hv hn
  generalize hm : ({ n with anchor := some anchor } : NaiveKeyed K T φ).tick_all now = m
    at h1 hseq1 hout1
  have hstate : t.key_state = s.key_state := hproc.config.2.2.1
  have hmstate : m.val.key_state = s.key_state := by
    have hconfig1 := h1.config
    simp only [KeyedWindowStage.config, Prod.mk.injEq] at hconfig1
    rw [hconfig1.2.2.2.1, hstate]
  have htpolicy : t.policy = s.policy := congrArg Prod.fst hproc.expire.undisturbed.config
  have h2 := h1.keyed (key_fn item s.key_state).2
  have htouch := hproc.touch
  rw [hstate] at htouch
  obtain ⟨made', touched', hagree, hnseq, hrout, hdout⟩ := h2.deliver
    (hproc.expire.sound.configured t.anchor _) htpolicy htouch hproc.deliver
    (by rw [show NaiveKeyed.seq _ = m.val.seq from rfl, hseq1]; exact hseq)
  have hval : (n.item key_fn item now).val =
      ((({ m.val with key_state := (key_fn item s.key_state).2 } : NaiveKeyed K T φ).make_room
        (key_fn item s.key_state).1 now).val.add (key_fn item s.key_state).1 item anchor
          now).val := by
    simp only [NaiveKeyed.item, hget, hm, Emitting.bind_val, hmstate]
  have hout : (n.item key_fn item now).out = m.out ++ (evicted ++ delivered) := by
    simp only [NaiveKeyed.item, hget, hm, Emitting.bind_out, hmstate, ← hrout, ← hdout]
  rw [hval]
  refine ⟨made', touched', hagree, ?_, fun k => ?_⟩
  · rw [hnseq]
    exact congrArg (· + 1) hseq1
  · rw [hout, forKey_append, forKey_append _ (evicted ++ delivered), hout1]

end KeyedWindowStage

end PipeIo
