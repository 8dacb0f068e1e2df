import PipeIo.KeyedAgree

namespace PipeIo
set_option autoImplicit true

open Lib

namespace KeyedWindowStage

variable [Timeline] {K T φ : Type} [DecidableEq K] {s : KeyedWindowStage K T φ} {now : Nat}
  {order made : List Nat} {touched : Nat → Nat} {n : NaiveKeyed K T φ}

omit [Timeline] in
/-- The entries of the slab, in some order. -/
theorem Agrees.entries_perm (h : Agrees s order n made touched) (hs : Coherent s order) :
    (s.slab.filterMap id).Perm (made.filterMap s.entry) := by
  have hslab : s.slab = (List.range s.slab.length).map s.entry := by
    apply List.ext_getElem
    · simp
    · intro i hi _
      simp [entry, hi]
  have hfree : s.free.filterMap s.entry = [] := by
    rw [List.filterMap_eq_nil_iff]
    intro i hi
    exact held_eq_none.1 ((hs.vacant i).1 hi).2
  have hperm := (h.perm.append_right s.free).trans hs.slots_perm
  rw [hslab, List.filterMap_map]
  refine (hperm.symm.filterMap _).trans ?_
  rw [List.filterMap_append, Function.id_comp, hfree, List.append_nil]

instance : Std.Total fun a b : KeyEntry K T => a.created ≤ b.created where
  total a b := Nat.le_total a.created b.created

instance : IsTrans (KeyEntry K T) fun a b => a.created ≤ b.created where
  trans _ _ _ := Nat.le_trans

omit [Timeline] in
/-- The entries of the slab, in the order in which they were created. -/
theorem Agrees.entries_sorted (h : Agrees s order n made touched) (hs : Coherent s order) :
    (s.slab.filterMap id).insertionSort (fun a b => a.created ≤ b.created) =
      made.filterMap s.entry := by
  have hlt : (made.filterMap s.entry).Pairwise fun a b => a.created < b.created := by
    rw [List.pairwise_filterMap]
    apply h.created.imp
    intro i j hlt a ha b hb
    exact hlt a.state b.state (by simp [held, ha]) (by simp [held, hb])
  have hperm := (List.perm_insertionSort (fun a b => a.created ≤ b.created) _).trans
    (h.entries_perm hs)
  have hinj : ∀ a ∈ made.filterMap s.entry, ∀ b ∈ made.filterMap s.entry,
      a.created = b.created → a = b := by
    have hnodup : ((made.filterMap s.entry).map KeyEntry.created).Nodup :=
      List.pairwise_map.2 (hlt.imp Nat.ne_of_lt)
    intro a ha b hb heq
    exact List.inj_on_of_nodup_map hnodup ha hb heq
  apply hperm.eq_of_pairwise _ (List.pairwise_insertionSort _ _) (hlt.imp Nat.le_of_lt)
  intro a b ha hb hab hba
  exact hinj a (hperm.mem_iff.1 ha) b hb (Nat.le_antisymm hab hba)

/-- `flush` does what the reference does. -/
theorem Agrees.flush (h : Agrees s order n made touched) (hs : Coherent s order) :
    (s.flush now Emitting.emit).out = (n.flush now).out := by
  have hfast : (s.flush now Emitting.emit).out = (made.filterMap s.entry).flatMap fun f =>
      (f.core.on_flush now Emitting.emit).out.map fun w => (f.key, w) := by
    rw [← h.entries_sorted hs, ← flush_entries_out]
    exact List.append_nil _
  have hnaive : (n.flush now).out = (s.view touched made).flatMap fun e =>
      (e.core.on_flush now Emitting.emit).out.map fun w => (e.key, w) := by
    rw [← h.keys, ← NaiveKeyed.flush_keys_out]
    exact List.append_nil _
  rw [hfast, hnaive, view]
  generalize made = slots
  induction slots with
  | nil => rfl
  | cons i rest ih =>
    rw [List.filterMap_cons, List.filterMap_cons]
    cases he : s.entry i with
    | none => simpa [held, he] using ih
    | some f => simpa [held, he, KeyEntry.state] using ih

/-- One event does what it does to the reference. -/
theorem Agrees.step (h : Agrees s order n made touched) (hs : Running s order)
    (key_fn : T → φ → K × φ) (event : WindowEvent T) (hcall : event.1 ≠ .flush)
    (hafloat : s.Afloat event.2) (hseq : n.seq + (arrivals [event]).length < 2 ^ 64) :
    ∃ s' order' made' touched', (s.step key_fn event).val = some s' ∧ Running s' order' ∧
      Agrees s' order' (n.step key_fn event).val made' touched' ∧
      (n.step key_fn event).val.seq = n.seq + (arrivals [event]).length ∧
      ∀ k, forKey k (s.step key_fn event).out = forKey k (n.step key_fn event).out := by
  obtain ⟨call, now, hn⟩ := event
  cases call with
  | item item =>
    obtain ⟨hsound, ha⟩ := hs.origin hn
    obtain ⟨s', t, u, order', slot, e, expired, evicted, delivered, hval, hout, hproc⟩ :=
      process_spec key_fn item hsound ha hs.max_keys hs.valid hn
    obtain ⟨made', touched', hagree, hnseq, hkeys⟩ :=
      h.process hsound hproc rfl hafloat hs.valid hn hseq
    refine ⟨s', _, made', touched', hval, hproc.running hs ha, hagree, hnseq, fun k => ?_⟩
    exact (congrArg (forKey k) hout).trans (hkeys k)
  | tick =>
    have hconfig := h.config
    simp only [KeyedWindowStage.config, Prod.mk.injEq] at hconfig
    cases hanchor : s.anchor with
    | none =>
      have hnanchor : n.anchor = none := hconfig.2.2.2.2.trans hanchor
      refine ⟨s, order, made, touched, ?_, hs, ?_, ?_, fun k => ?_⟩
      · simp only [KeyedWindowStage.step, tick, hanchor, Emitting.pure_val]
      · simp only [NaiveKeyed.step, NaiveKeyed.tick_all, hnanchor, Emitting.pure_val]
        exact h
      · simp only [NaiveKeyed.step, NaiveKeyed.tick_all, hnanchor, Emitting.pure_val]
        rfl
      · simp only [KeyedWindowStage.step, tick, hanchor, NaiveKeyed.step, NaiveKeyed.tick_all,
          hnanchor, Emitting.pure_out]
    | some anchor =>
      have hnanchor : n.anchor = some anchor := hconfig.2.2.2.2.trans hanchor
      have hsound := hs.sound
      have ha := hs.anchor
      rw [hanchor] at hsound ha
      obtain ⟨s', hval, hexp⟩ := tick_spec hsound hanchor ha hs.valid hn
      obtain ⟨hagree, hnseq, hkeys⟩ := h.expire hsound hexp hafloat hnanchor hs.valid hn
      exact ⟨s', _, _, touched, hval, (hexp.running hs hanchor).1, hagree, hnseq, hkeys⟩
  | flush => exact absurd rfl hcall

/-- A run does what it does to the reference. -/
theorem Agrees.run (h : Agrees s order n made touched) (hs : Running s order)
    (key_fn : T → φ → K × φ) (events : List (WindowEvent T)) (now : Reading)
    (hcalls : ∀ event ∈ events, event.1 ≠ .flush)
    (hafloat : ∀ before event rest t, events = before ++ event :: rest →
      s.after key_fn before = some t → t.Afloat event.2)
    (hseq : n.seq + (arrivals events).length < 2 ^ 64) :
    (∀ k, (s.trace key_fn (events ++ [(.flush, now)])).map (forKey k) =
        (n.trace key_fn (events ++ [(.flush, now)])).map (forKey k)) ∧
      ∃ t, s.after key_fn events = some t ∧ (t.step key_fn (.flush, now)).out =
        ((n.after key_fn events).step key_fn (.flush, now)).out := by
  induction events generalizing s order n made touched with
  | nil =>
    have hflush : (s.flush now.1 Emitting.emit).out = (n.flush now.1).out := h.flush hs.sound.coherent
    have hout : (s.step key_fn (.flush, now)).out = (n.step key_fn (.flush, now)).out := by
      rw [KeyedWindowStage.step, Emitting.map_out]
      exact hflush
    have hval : (s.step key_fn (.flush, now)).val = some (s.flush now.1 Emitting.emit).val := rfl
    refine ⟨fun k => ?_, s, rfl, hout⟩
    simp only [List.nil_append, trace, NaiveKeyed.trace, hval, Option.map_some, Option.getD_some,
      List.map_cons, List.map_nil, hout]
  | cons event events ih =>
    have hsplit : arrivals (event :: events) = arrivals [event] ++ arrivals events :=
      List.filterMap_append (l := [event])
    rw [hsplit, List.length_append] at hseq
    obtain ⟨t, order', made', touched', hval, hrun, hagree, hnseq, hkeys⟩ :=
      h.step hs key_fn event (hcalls event List.mem_cons_self)
        (hafloat [] event events s rfl rfl) (by omega)
    have hafter : ∀ l, s.after key_fn (event :: l) = t.after key_fn l := by
      intro l
      simp only [after, hval, Option.bind_some]
    obtain ⟨htrace, v, hv, hflush⟩ := ih hagree hrun
      (fun e he => hcalls e (List.mem_cons_of_mem _ he))
      (fun before e rest v hevents hv =>
        hafloat (event :: before) e rest v (by rw [hevents]; rfl) ((hafter before).trans hv))
      (by rw [hnseq]; omega)
    refine ⟨fun k => ?_, v, (hafter events).trans hv, hflush⟩
    simp only [List.cons_append, trace, NaiveKeyed.trace, hval, Option.map_some, Option.getD_some,
      List.map_cons, hkeys, htrace]

omit [Timeline] [DecidableEq K] in
theorem new_agrees {spec : WindowSpec} (hspec : spec.check = .ok ()) (key_state : φ) :
    Agrees (new spec key_state : KeyedWindowStage K T φ) [] (NaiveKeyed.new spec key_state) []
      fun _ => 0 where
  config := by
    obtain ⟨-, hitems, hkeys⟩ := WindowSpec.check_ok.1 hspec
    simp only [NaiveKeyed.new, KeyedWindowStage.config, new, limit_or_max, Prod.mk.injEq, true_and,
      and_true]
    constructor
    · cases hi : spec.max_items with
      | none => rfl
      | some m =>
        rw [hi] at hitems
        simp at hitems ⊢
        omega
    · cases hk : spec.max_keys with
      | none => rfl
      | some m =>
        rw [hk] at hkeys
        simp at hkeys ⊢
        omega
  perm := .nil
  keys := rfl
  lru := .nil
  recent := nofun
  created := .nil
  numbered i e he := by simp [new, held, entry] at he
  seq := Nat.le_refl _

/-- The keyed stage and the reference emit the same windows of every key at every event of a run,
and the same windows in the same order at its end, if no key is stranded before an event. -/
theorem matches_reference {spec : WindowSpec} (hspec : spec.check = .ok ())
    (key_fn : T → φ → K × φ) (key_state : φ) (events : List (WindowEvent T)) (now : Reading)
    (hcalls : ∀ event ∈ events, event.1 ≠ .flush) (hfew : (arrivals events).length < 2 ^ 64)
    (hafloat : ∀ before event rest s, events = before ++ event :: rest →
      (new spec key_state : KeyedWindowStage K T φ).after key_fn before = some s →
      s.Afloat event.2) :
    (∀ k, ((new spec key_state).trace key_fn (events ++ [(.flush, now)])).map (forKey k) =
        ((NaiveKeyed.new spec key_state).trace key_fn (events ++ [(.flush, now)])).map
          (forKey k)) ∧
      ∃ s : KeyedWindowStage K T φ, (new spec key_state).after key_fn events = some s ∧
        (s.step key_fn (.flush, now)).out =
          (((NaiveKeyed.new spec key_state).after key_fn events).step key_fn (.flush, now)).out :=
  (new_agrees hspec key_state).run (new_running hspec key_state) key_fn events now hcalls hafloat
    (by rw [show (NaiveKeyed.new spec key_state : NaiveKeyed K T φ).seq = 0 from rfl]; omega)

instance (s : KeyedWindowStage K T φ) (now : Nat) : Decidable (s.Afloat now) :=
  decidable_of_iff (∀ i < s.slab.length, ∀ e ∈ s.held i, ¬s.StrandedAt now i e)
    ⟨fun h i e he => h i (held_lt he) e he, fun h i _ e he => h i e he⟩

end KeyedWindowStage

namespace KeyedWindowStage

theorem matches_reference_tumbling :
    (∀ k, (@trace smallTimeline Nat Nat Unit _ (new ⟨.tumbling 10, some 2, some 1⟩ ())
      (fun v u => (v % 2, u)) ([(.item 0, ⟨3, by decide⟩), (.item 1, ⟨2, by decide⟩)] ++
        [(.flush, ⟨20, by decide⟩)])).map (forKey k) =
      (@NaiveKeyed.trace Nat Nat Unit smallTimeline _ (.new ⟨.tumbling 10, some 2, some 1⟩ ())
        (fun v u => (v % 2, u)) ([(.item 0, ⟨3, by decide⟩), (.item 1, ⟨2, by decide⟩)] ++
          [(.flush, ⟨20, by decide⟩)])).map (forKey k)) ∧
    ∃ s, @after smallTimeline Nat Nat Unit _ (new ⟨.tumbling 10, some 2, some 1⟩ ())
      (fun v u => (v % 2, u)) [(.item 0, ⟨3, by decide⟩), (.item 1, ⟨2, by decide⟩)] = some s ∧
      (@step smallTimeline _ _ _ _ s (fun v u => (v % 2, u)) (.flush, ⟨20, by decide⟩)).out =
        (@NaiveKeyed.step Nat Nat Unit smallTimeline _ (@NaiveKeyed.after Nat Nat Unit smallTimeline _
          (.new ⟨.tumbling 10, some 2, some 1⟩ ()) (fun v u => (v % 2, u))
          [(.item 0, ⟨3, by decide⟩), (.item 1, ⟨2, by decide⟩)]) (fun v u => (v % 2, u))
          (.flush, ⟨20, by decide⟩)).out := by
  have hall : ∀ n < 2, ∀ s ∈ @after smallTimeline Nat Nat Unit _
      (new ⟨.tumbling 10, some 2, some 1⟩ ()) (fun v u => (v % 2, u))
      ([(.item 0, ⟨3, by decide⟩), (.item 1, ⟨2, by decide⟩)].take n),
      @Afloat smallTimeline _ _ _ s ([3, 2].getD n 0) := by
    decide +kernel
  refine @matches_reference smallTimeline Nat Nat Unit _ ⟨.tumbling 10, some 2, some 1⟩ rfl
    (fun v u => (v % 2, u)) () [(.item 0, ⟨3, by decide⟩), (.item 1, ⟨2, by decide⟩)]
    ⟨20, by decide⟩ (by decide) (by decide) fun before event rest s hevents hs => ?_
  rcases before with _ | ⟨a, _ | ⟨b, before⟩⟩
  · cases hevents
    exact hall 0 (by decide) s hs
  · cases hevents
    exact hall 1 (by decide) s hs
  · simp at hevents

/-- Near the horizon a session that its limit has just emptied has no deadline any more, but its
heap entry is due. `expire` releases it; in the reference it goes on. -/
theorem reference_differs : ¬∀ (spec : WindowSpec) (key_fn : Nat → Unit → Nat × Unit)
    (events : List (@WindowEvent smallTimeline Nat)) (now : @Reading smallTimeline),
    spec.check = .ok () → (∀ event ∈ events, event.1 ≠ .flush) →
    (@arrivals smallTimeline _ events).length < 2 ^ 64 →
    ∀ k, (@trace smallTimeline Nat Nat Unit _ (new spec ()) key_fn
        (events ++ [(.flush, now)])).map (forKey k) =
      (@NaiveKeyed.trace Nat Nat Unit smallTimeline _ (.new spec ()) key_fn
        (events ++ [(.flush, now)])).map (forKey k) := by
  intro h
  have hdiffers := h ⟨.session 10, some 1, none⟩ (fun _ u => (0, u))
    [(.item 0, ⟨85, by decide⟩), (.item 1, ⟨95, by decide⟩), (.tick, ⟨97, by decide⟩),
      (.item 2, ⟨99, by decide⟩)] ⟨99, by decide⟩ rfl (by decide) (by decide) 0
  revert hdiffers
  decide +kernel

end KeyedWindowStage

end PipeIo
