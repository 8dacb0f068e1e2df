import PipeIo.KeyedOps

namespace PipeIo
set_option autoImplicit true

open Lib

/-- The windows emitted for one key. -/
def forKey [DecidableEq K] (k : K) (out : List (K × Window T)) : List (Window T) :=
  out.filterMap fun w => if w.1 = k then some w.2 else none

section

variable {K T : Type} [DecidableEq K] {k k' : K}

@[simp] theorem forKey_nil : forKey k ([] : List (K × Window T)) = [] := rfl

@[simp] theorem forKey_append (a b : List (K × Window T)) :
    forKey k (a ++ b) = forKey k a ++ forKey k b := by
  simp [forKey]

@[simp] theorem forKey_same (ws : List (Window T)) : forKey k (ws.map fun w => (k, w)) = ws := by
  simp [forKey]

theorem forKey_other {out : List (K × Window T)} (h : ∀ w ∈ out, w.1 ≠ k) :
    forKey k out = [] := by
  rw [forKey, List.filterMap_eq_nil_iff]
  intro w hw
  rw [if_neg (h w hw)]

/-- What one of several keys emits is found among what all of them emit. -/
theorem forKey_flatMap {A : Type} {l : List A} (key : A → K) (out : A → List (Window T))
    (hkeys : l.Pairwise fun a b => key a ≠ key b) (k : K) :
    forKey k (l.flatMap fun a => (out a).map fun w => (key a, w)) =
      ((l.find? fun a => key a = k).map out).getD [] := by
  induction l with
  | nil => rfl
  | cons a rest ih =>
    obtain ⟨hne, hrest⟩ := List.pairwise_cons.1 hkeys
    rw [List.flatMap_cons, forKey_append, ih hrest]
    by_cases ha : key a = k
    · subst ha
      have hnone : rest.find? (fun b => key b = key a) = none := by
        rw [List.find?_eq_none]
        intro b hb
        simpa using (hne b hb).symm
      rw [forKey_same, hnone, List.find?_cons_of_pos (by simp)]
      simp
    · have hother : ∀ w ∈ (out a).map fun w => (key a, w), w.1 ≠ k := by
        intro w hw
        obtain ⟨_, _, rfl⟩ := List.mem_map.1 hw
        exact ha
      rw [forKey_other hother, List.nil_append, List.find?_cons_of_neg (by simpa using ha)]

end

namespace KeyedWindowStage

variable [Timeline] {K T φ : Type} [DecidableEq K] {s s' : KeyedWindowStage K T φ}
  {slot now anchor : Nat} {order : List Nat} {e : KeyState K T} {policy : WindowPolicy}

/-- Every deadline is covered by the heap entry of its key. -/
def Covered (s : KeyedWindowStage K T φ) : Prop :=
  ∀ i e x, s.held i = some e → e.core.deadline = some x → ∃ d ≤ x, e.scheduled = some d

/-- The keyed stage between two events. -/
structure Sound (s : KeyedWindowStage K T φ) (order : List Nat) (policy : WindowPolicy)
    (anchor : Nat) : Prop where
  coherent : Coherent s order
  covered : s.Covered
  fits : ∀ i e, s.held i = some e → e.core.Fits policy anchor

/-- The heap entry of a key is due whose windows have no deadline and hold nothing. -/
def StrandedAt (s : KeyedWindowStage K T φ) (now i : Nat) (e : KeyState K T) : Prop :=
  e.core.deadline = none ∧ e.core.is_empty ∧
    ∃ d ∈ s.heap, d.deadline ≤ now ∧ d.slot = i ∧ d.ticket = e.ticket

instance (s : KeyedWindowStage K T φ) (now i : Nat) (e : KeyState K T) :
    Decidable (s.StrandedAt now i e) := by
  unfold StrandedAt
  infer_instance

/-- What becomes of a key in `expire`: its core is ticked, and released if that leaves it empty.
A core in which nothing has expired is released only if it is stranded. -/
structure Settled (anchor now : Nat) (stranded : Prop) (e : KeyState K T)
    (e' : Option (KeyState K T)) (out : List (Window T)) : Prop where
  out : out = (e.core.on_tick anchor now Emitting.emit).out
  kept : ∀ f, e' = some f → f.key = e.key ∧ f.created = e.created ∧
    f.core = (e.core.on_tick anchor now Emitting.emit).val ∧
    (f.core.is_empty → e.core.Fresh now)
  released : e' = none → (e.core.on_tick anchor now Emitting.emit).val.is_empty ∧
    (e.core.Fresh now → stranded)

/-- What `expire` does. -/
structure Expired (anchor now : Nat) (s : KeyedWindowStage K T φ) (order : List Nat)
    (policy : WindowPolicy) (s' : KeyedWindowStage K T φ) (out : List (K × Window T)) : Prop where
  sound : Sound s' (order.filter fun i => (s'.held i).isSome) policy anchor
  settled : ∀ i e, s.held i = some e →
    Settled anchor now (s.StrandedAt now i e) e (s'.held i) (forKey e.key out)
  vacant : ∀ i, s.held i = none → s'.held i = none
  keys : ∀ w ∈ out, ∃ i e, s.held i = some e ∧ w.1 = e.key
  heap : ∀ d ∈ s'.heap, now < d.deadline
  length : s'.heap.length ≤ max s.heap.length (order.length * 2 + 64)
  slab : s'.slab.length = s.slab.length
  undisturbed : Undisturbed s s'

/-- Nothing has expired if no heap entry is due. -/
theorem Sound.fresh (h : Sound s order policy anchor) (hheap : ∀ d ∈ s.heap, now < d.deadline)
    {i : Nat} (he : s.held i = some e) : e.core.Fresh now := by
  intro x hx
  obtain ⟨d, hle, hs⟩ := h.covered i e x he hx
  have := hheap _ (h.coherent.armed i e d he hs)
  exact Nat.lt_of_lt_of_le this hle

/-- `expire` is over when no heap entry is due. -/
theorem Sound.expired (h : Sound s order policy anchor) (hv : policy.Valid)
    (hn : now ≤ Timeline.horizon) (hheap : ∀ d ∈ s.heap, now < d.deadline) :
    Expired anchor now s order policy s [] where
  sound := by
    have hall : (order.filter fun i => (s.held i).isSome) = order := by
      rw [List.filter_eq_self]
      intro i hi
      obtain ⟨e, he⟩ := (h.coherent.occupied i).1 hi
      rw [he]
      rfl
    rw [hall]
    exact h
  settled i e he := by
    have htick := Core.on_tick_fresh (h.fits i e he) hv hn (h.fresh hheap he)
    refine ⟨?_, ?_, ?_⟩
    · rw [htick]
      rfl
    · intro f hf
      rw [he, Option.some.injEq] at hf
      subst hf
      rw [htick]
      exact ⟨rfl, rfl, rfl, fun _ => h.fresh hheap he⟩
    · intro hnone
      rw [he] at hnone
      cases hnone
  vacant _ := id
  keys := nofun
  heap := hheap
  length := Nat.le_max_left ..
  slab := rfl
  undisturbed := .refl s

/-- A round of `expire` that concerns one slot, and the rounds after it. -/
theorem Expired.after {t : KeyedWindowStage K T φ} {out rest : List (K × Window T)}
    (hs : Sound s order policy anchor) (he : s.held slot = some e)
    (hheld : ∀ i, i ≠ slot → t.held i = s.held i)
    (hkey : ∀ f, t.held slot = some f → f.key = e.key)
    (hheap : ∀ d ∈ t.heap, d ∈ s.heap ∨ now < d.deadline)
    (hlen : t.heap.length ≤ max s.heap.length (order.length * 2 + 64))
    (hslab : t.slab.length = s.slab.length) (hund : Undisturbed s t)
    (hout : ∀ w ∈ out, w.1 = e.key)
    (h : Expired anchor now t (order.filter fun i => (t.held i).isSome) policy s' rest)
    (hslot : Settled anchor now (s.StrandedAt now slot e) e (s'.held slot)
      (forKey e.key (out ++ rest))) :
    Expired anchor now s order policy s' (out ++ rest) where
  sound := by
    have horder : (order.filter fun i => (s'.held i).isSome) =
        (order.filter fun i => (t.held i).isSome).filter fun i => (s'.held i).isSome := by
      rw [List.filter_filter]
      apply List.filter_congr
      intro i _
      cases ht : t.held i with
      | none => simp [h.vacant i ht]
      | some f => simp
    rw [horder]
    exact h.sound
  settled i f hf := by
    by_cases hi : i = slot
    · subst hi
      rw [he] at hf
      cases hf
      exact hslot
    · have hne : ∀ w ∈ out, w.1 ≠ f.key := by
        intro w hw heq
        rw [hout w hw] at heq
        exact hi (hs.coherent.key_inj hf he heq.symm)
      rw [forKey_append, forKey_other hne, List.nil_append]
      obtain ⟨hsout, hkept, hreleased⟩ := h.settled i f (by rw [hheld i hi, hf])
      refine ⟨hsout, hkept, fun hnone => ⟨(hreleased hnone).1, fun hfresh => ?_⟩⟩
      obtain ⟨hd, hempty, d, hmem, hle, hdi, hdt⟩ := (hreleased hnone).2 hfresh
      refine ⟨hd, hempty, d, ?_, hle, hdi, hdt⟩
      rcases hheap d hmem with hmem | hlt
      · exact hmem
      · omega
  vacant i hi := by
    have hne : i ≠ slot := by
      rintro rfl
      rw [he] at hi
      cases hi
    apply h.vacant
    rw [hheld i hne, hi]
  keys w hw := by
    rcases List.mem_append.1 hw with hw | hw
    · exact ⟨slot, e, he, hout w hw⟩
    · obtain ⟨i, f, hf, hk⟩ := h.keys w hw
      by_cases hi : i = slot
      · subst hi
        exact ⟨i, e, he, by rw [hk, hkey f hf]⟩
      · exact ⟨i, f, by rw [← hheld i hi, hf], hk⟩
  heap := h.heap
  length := by
    have := h.length
    have hfilter := List.length_filter_le (fun i => (t.held i).isSome) order
    omega
  slab := h.slab.trans hslab
  undisturbed := hund.trans h.undisturbed

/-- A heap entry that belongs to no key is dropped. -/
theorem Sound.pop {d : Due} {rest : List Due} (h : Sound s order policy anchor)
    (hheap : s.heap = d :: rest) (hstale : ∀ e, s.held d.slot = some e → e.ticket ≠ d.ticket) :
    Sound { s with heap := rest } order policy anchor where
  coherent := { h.coherent with
    sorted := by
      have hsorted := h.coherent.sorted
      rw [hheap] at hsorted
      exact (List.pairwise_cons.1 hsorted).2
    armed := by
      intro i e x he hx
      have hmem := h.coherent.armed i e x he hx
      rw [hheap] at hmem
      cases hmem with
      | head => exact absurd rfl (hstale e he)
      | tail _ hmem => exact hmem }
  covered := h.covered
  fits := h.fits

/-- The heap entry of a key is taken off. -/
def popped (s : KeyedWindowStage K T φ) (slot : Nat) (rest : List Due) :
    KeyedWindowStage K T φ :=
  { s with heap := rest }.modify slot fun e => { e with scheduled := none }

omit [Timeline] [DecidableEq K] in
theorem held_popped (he : s.held slot = some e) (rest : List Due) :
    (s.popped slot rest).held = Function.update s.held slot (some { e with scheduled := none }) :=
  held_modify (s := { s with heap := rest }) (g := fun e => { e with scheduled := none })
    (fun _ => rfl) he

theorem Sound.popped_coherent {d : Due} {rest : List Due} (h : Sound s order policy anchor)
    (hheap : s.heap = d :: rest) (he : s.held d.slot = some e) :
    Coherent (s.popped d.slot rest) order := by
  have hsorted := h.coherent.sorted
  rw [hheap] at hsorted
  refine h.coherent.update he (held_popped he rest) rfl
    (links_modify (s := { s with heap := rest }) fun _ => ⟨rfl, rfl⟩) rfl rfl (by simp [popped, modify])
    (List.pairwise_cons.1 hsorted).2 fun i f x hf hx => ?_
  rw [held_popped he, Function.update_apply] at hf
  split at hf
  · cases hf
    cases hx
  · rename_i hi
    have hmem := h.coherent.armed i f x hf hx
    rw [hheap] at hmem
    cases hmem with
    | head => exact absurd rfl hi
    | tail _ hmem => exact hmem

/-- A key whose windows have not expired is scheduled again. -/
theorem Sound.reschedule {u : KeyedWindowStage K T φ}
    (h : Sound s order policy anchor) (hu : Coherent u order)
    (hheld : u.held = Function.update s.held slot (some e)) (hfresh : e.core.Fresh now)
    (hfits : e.core.Fits policy anchor) :
    ∃ e', Scheduled u (u.schedule slot now) slot now order e e' ∧
      (u.schedule slot now).held = Function.update s.held slot (some e') ∧
      Sound (u.schedule slot now) order policy anchor := by
  have he : u.held slot = some e := by rw [hheld, Function.update_self]
  obtain ⟨e', hsched⟩ := schedule_spec hu he hfresh
  have hheld' : (u.schedule slot now).held = Function.update s.held slot (some e') := by
    rw [hsched.held, hheld, Function.update_idem]
  refine ⟨e', hsched, hheld', hsched.coherent, ?_, ?_⟩
  · intro i f x hf hx
    rw [hheld', Function.update_apply] at hf
    split at hf
    · cases hf
      rw [hsched.same.2.1] at hx
      exact hsched.covered x hx
    · exact h.covered i f x hf hx
  · intro i f hf
    rw [hheld', Function.update_apply] at hf
    split at hf
    · cases hf
      rw [hsched.same.2.1]
      exact hfits
    · exact h.fits i f hf

/-- A round that examines a key which stays. -/
theorem Sound.examined {d : Due} {rest : List Due} {f : KeyState K T} {l : List (Window T)}
    {u : KeyedWindowStage K T φ} {out : List (K × Window T)}
    (h : Sound s order policy anchor) (hheap : s.heap = d :: rest)
    (he : s.held d.slot = some e) (hf : f.key = e.key ∧ f.created = e.created ∧
      f.core = (e.core.on_tick anchor now Emitting.emit).val)
    (hl : l = (e.core.on_tick anchor now Emitting.emit).out)
    (hempty : f.core.is_empty → f.core.deadline ≠ none ∧ e.core.Fresh now)
    (hu : Coherent u order) (hheld : u.held = Function.update s.held d.slot (some f))
    (huheap : u.heap = rest) (huslab : u.slab.length = s.slab.length) (hund : Undisturbed s u)
    (hfresh : f.core.Fresh now) (hfits : f.core.Fits policy anchor) (hv : policy.Valid)
    (hn : now ≤ Timeline.horizon)
    (hrest : Expired anchor now (u.schedule d.slot now) order policy s' out) :
    Expired anchor now s order policy s' (l.map (fun w => (e.key, w)) ++ out) := by
  obtain ⟨e', hsched, hheld', hsound⟩ := h.reschedule hu hheld hfresh hfits
  have hself : (u.schedule d.slot now).held d.slot = some e' := by
    rw [hheld', Function.update_self]
  have hall : (order.filter fun i => ((u.schedule d.slot now).held i).isSome) = order := by
    rw [List.filter_eq_self]
    intro i hi
    obtain ⟨g, hg⟩ := (hsched.coherent.occupied i).1 hi
    rw [hg]
    rfl
  refine Expired.after h he ?_ ?_ ?_ ?_ ?_ (hund.trans hsched.undisturbed) ?_ (hall.symm ▸ hrest) ?_
  · intro i hi
    rw [hheld', Function.update_of_ne hi]
  · intro g hg
    rw [hself] at hg
    cases hg
    rw [hsched.same.1, hf.1]
  · intro x hx
    rw [hheap]
    rcases hsched.heap x hx with hx | hx
    · rw [huheap] at hx
      exact .inl (List.mem_cons_of_mem _ hx)
    · exact .inr hx
  · have hlen := hsched.length
    rw [huheap] at hlen
    rw [hheap, List.length_cons]
    omega
  · rw [hsched.slab, huslab]
  · intro w hw
    obtain ⟨_, _, rfl⟩ := List.mem_map.1 hw
    rfl
  · obtain ⟨hout, hkept, hreleased⟩ := hrest.settled d.slot e' hself
    have htick : e'.core.on_tick anchor now Emitting.emit = pure f.core := by
      rw [hsched.same.2.1]
      exact Core.on_tick_fresh hfits hv hn hfresh
    rw [htick] at hout hkept hreleased
    rw [hsched.same.1, hf.1] at hout
    refine ⟨?_, ?_, ?_⟩
    · rw [forKey_append, forKey_same, hout, hl]
      exact List.append_nil _
    · intro g hg
      obtain ⟨hkey, hcreated, hcore, -⟩ := hkept g hg
      refine ⟨hkey.trans (hsched.same.1.trans hf.1), hcreated.trans (hsched.same.2.2.trans hf.2.1),
        hcore.trans hf.2.2, fun hempty' => ?_⟩
      rw [hcore] at hempty'
      exact (hempty hempty').2
    · intro hnone
      obtain ⟨hempty', hstranded⟩ := hreleased hnone
      obtain ⟨hdead, -⟩ := hstranded (by rw [hsched.same.2.1]; exact hfresh)
      rw [hsched.same.2.1] at hdead
      exact absurd hdead (hempty hempty').1

omit [Timeline] [DecidableEq K] in
theorem due_cons {d : Due} {rest : List Due} (hheap : s.heap = d :: rest) (hd : d.deadline ≤ now) :
    s.due now = { s with heap := rest }.due now + 1 := by
  rw [due, hheap, List.countP_cons_of_pos (by simpa using hd)]
  rfl

section Rounds

variable {d : Due} {rest : List Due} (fuel : Nat)

omit [Timeline] [DecidableEq K] in
/-- The ticket check fails. -/
theorem check_stale (hstale : ∀ e, s.held d.slot = some e → e.ticket ≠ d.ticket) :
    ({ s with heap := rest }.entry d.slot).filter
      (fun e : KeyEntry K T => e.ticket = d.ticket) = none := by
  rw [show ({ s with heap := rest } : KeyedWindowStage K T φ).entry d.slot = s.entry d.slot from rfl]
  cases hf : s.entry d.slot with
  | none => rfl
  | some f =>
    have hne : f.ticket ≠ d.ticket := hstale f.state (by simp [held, hf])
    simp [Option.filter, hne]

omit [Timeline] [DecidableEq K] in
theorem check_live {f : KeyEntry K T} (hf : s.entry d.slot = some f) (ht : f.ticket = d.ticket) :
    ({ s with heap := rest }.entry d.slot).filter
      (fun e : KeyEntry K T => e.ticket = d.ticket) = some f := by
  rw [show ({ s with heap := rest } : KeyedWindowStage K T φ).entry d.slot = s.entry d.slot from rfl]
  simp [hf, Option.filter, ht]

theorem loop_stale (hheap : s.heap = d :: rest) (hd : ¬d.deadline > now)
    (hstale : ∀ e, s.held d.slot = some e → e.ticket ≠ d.ticket) :
    expire_loop anchor now Emitting.emit (fuel + 1) s =
      expire_loop anchor now Emitting.emit fuel { s with heap := rest } := by
  rw [expire_loop]
  simp only [hheap, hd, if_false, check_stale hstale]

theorem loop_moved (hheap : s.heap = d :: rest) (hd : ¬d.deadline > now)
    (he : s.held d.slot = some e) (ht : e.ticket = d.ticket)
    (hany : e.core.deadline.any fun x => x > now) :
    expire_loop anchor now Emitting.emit (fuel + 1) s =
      expire_loop anchor now Emitting.emit fuel ((s.popped d.slot rest).schedule d.slot now) := by
  obtain ⟨f, hf, rfl⟩ := entry_of_held he
  have hany : f.core.deadline.any fun x => x > now := hany
  rw [expire_loop]
  simp only [hheap, hd, if_false, check_live hf ht, hany, if_true]
  rfl

/-- The state in which `expire` has ticked a key. -/
def ticked (s : KeyedWindowStage K T φ) (slot : Nat) (rest : List Due) (c : Core T) :
    KeyedWindowStage K T φ :=
  (s.popped slot rest).modify slot fun e => { e with core := c }

theorem loop_ticked (hheap : s.heap = d :: rest) (hd : ¬d.deadline > now)
    (he : s.held d.slot = some e) (ht : e.ticket = d.ticket)
    (hany : ¬e.core.deadline.any fun x => x > now) :
    expire_loop anchor now Emitting.emit (fuel + 1) s = (do
      let c ← (e.core.on_tick anchor now Emitting.emit).renamed fun w => (e.key, w)
      expire_loop anchor now Emitting.emit fuel
        (if c.is_empty then ((s.ticked d.slot rest c).remove d.slot).2
          else (s.ticked d.slot rest c).schedule d.slot now)) := by
  obtain ⟨f, hf, rfl⟩ := entry_of_held he
  have hany : ¬f.core.deadline.any fun x => x > now := hany
  have hcore : f.state.core = f.core := rfl
  have hkey : f.state.key = f.key := rfl
  rw [hcore, hkey]
  have hemit : f.core.on_tick anchor now (keyed_emit f.key Emitting.emit) =
      (f.core.on_tick anchor now Emitting.emit).renamed fun w => (f.key, w) :=
    Core.on_tick_renamed _
  rw [expire_loop]
  simp only [hheap, hd, if_false, check_live hf ht, hany, hemit, bind, Emitting.renamed_val,
    Bool.false_eq_true]
  by_cases hempty : (f.core.on_tick anchor now Emitting.emit).val.is_empty
  · simp only [hempty, if_true]
    rfl
  · simp only [hempty, if_false, Bool.false_eq_true]
    rfl

end Rounds

omit [Timeline] [DecidableEq K] in
theorem held_ticked (he : s.held slot = some e) (rest : List Due) (c : Core T) :
    (s.ticked slot rest c).held =
      Function.update s.held slot (some { e with core := c, scheduled := none }) := by
  have hpop : (s.popped slot rest).held slot = some { e with scheduled := none } := by
    rw [held_popped he, Function.update_self]
  rw [ticked, held_modify (g := fun e => { e with core := c }) (fun _ => rfl) hpop,
    held_popped he, Function.update_idem]

theorem Sound.ticked_coherent {d : Due} {rest : List Due} (h : Sound s order policy anchor)
    (hheap : s.heap = d :: rest) (he : s.held d.slot = some e) (c : Core T) :
    Coherent (s.ticked d.slot rest c) order := by
  have hpop := h.popped_coherent hheap he
  have hself : (s.popped d.slot rest).held d.slot = some { e with scheduled := none } := by
    rw [held_popped he, Function.update_self]
  have hheld : (s.ticked d.slot rest c).held = Function.update (s.popped d.slot rest).held d.slot
      (some { e with core := c, scheduled := none }) := by
    rw [held_ticked he, held_popped he, Function.update_idem]
  refine hpop.update hself hheld rfl (links_modify fun _ => ⟨rfl, rfl⟩) rfl rfl
    (by simp [ticked, modify]) hpop.sorted fun i f x hf hx => ?_
  rw [hheld, Function.update_apply] at hf
  split at hf
  · cases hf
    cases hx
  · exact hpop.armed i f x hf hx

theorem Expired.stale {d : Due} {rest : List Due} {out : List (K × Window T)}
    (hheap : s.heap = d :: rest)
    (h : Expired anchor now { s with heap := rest } order policy s' out) :
    Expired anchor now s order policy s' out where
  sound := h.sound
  settled i e he := by
    obtain ⟨hout, hkept, hreleased⟩ := h.settled i e he
    refine ⟨hout, hkept, fun hnone => ⟨(hreleased hnone).1, fun hfresh => ?_⟩⟩
    obtain ⟨hdead, hempty, x, hmem, hx⟩ := (hreleased hnone).2 hfresh
    refine ⟨hdead, hempty, x, ?_, hx⟩
    rw [hheap]
    exact List.mem_cons_of_mem _ hmem
  vacant := h.vacant
  keys := h.keys
  heap := h.heap
  length := by
    have hlen := h.length
    rw [hheap, List.length_cons]
    simp only at hlen
    omega
  slab := h.slab
  undisturbed := ⟨h.undisturbed.config, h.undisturbed.seq, h.undisturbed.fallbacks⟩

/-- A round that releases a key. -/
theorem Expired.gone {d : Due} {rest : List Due} {t : KeyedWindowStage K T φ}
    {out : List (K × Window T)} (h : Sound s order policy anchor) (hheap : s.heap = d :: rest)
    (hd : d.deadline ≤ now) (he : s.held d.slot = some e) (ht : e.ticket = d.ticket)
    (hany : ¬e.core.deadline.any fun x => x > now)
    (hempty : (e.core.on_tick anchor now Emitting.emit).val.is_empty) (hv : policy.Valid)
    (hn : now ≤ Timeline.horizon) (hheld : t.held = Function.update s.held d.slot none)
    (htheap : t.heap = rest) (htslab : t.slab.length = s.slab.length) (hund : Undisturbed s t)
    (hrest : Expired anchor now t (order.erase d.slot) policy s' out) :
    Expired anchor now s order policy s'
      ((e.core.on_tick anchor now Emitting.emit).out.map (fun w => (e.key, w)) ++ out) := by
  have horder : (order.filter fun i => (t.held i).isSome) = order.erase d.slot := by
    rw [h.coherent.linked.nodup.erase_eq_filter]
    apply List.filter_congr
    intro i hi
    obtain ⟨f, hf⟩ := (h.coherent.occupied i).1 hi
    rw [hheld, Function.update_apply]
    by_cases hi : i = d.slot
    · simp [hi]
    · simp [hi, hf]
  have hself : t.held d.slot = none := by rw [hheld, Function.update_self]
  refine Expired.after h he ?_ ?_ ?_ ?_ htslab hund ?_ (horder.symm ▸ hrest) ?_
  · intro i hi
    rw [hheld, Function.update_of_ne hi]
  · intro f hf
    rw [hself] at hf
    cases hf
  · intro x hx
    rw [htheap] at hx
    rw [hheap]
    exact .inl (List.mem_cons_of_mem _ hx)
  · rw [htheap, hheap, List.length_cons]
    omega
  · intro w hw
    obtain ⟨_, _, rfl⟩ := List.mem_map.1 hw
    rfl
  · have hnokey : ∀ w ∈ out, w.1 ≠ e.key := by
      intro w hw heq
      obtain ⟨i, f, hf, hk⟩ := hrest.keys w hw
      rw [hheld, Function.update_apply] at hf
      split at hf
      · cases hf
      · rename_i hi
        exact hi (h.coherent.key_inj hf he (hk.symm.trans heq))
    rw [hrest.vacant _ hself]
    refine ⟨?_, nofun, fun _ => ⟨hempty, fun hfresh => ?_⟩⟩
    · rw [forKey_append, forKey_same, forKey_other hnokey, List.append_nil]
    · have hdead : e.core.deadline = none := by
        cases hx : e.core.deadline with
        | none => rfl
        | some x =>
          have hlt := hfresh x hx
          simp [hx] at hany
          omega
      rw [Core.on_tick_fresh (h.fits _ e he) hv hn hfresh] at hempty
      exact ⟨hdead, hempty, d, by rw [hheap]; exact List.mem_cons_self, hd, rfl, ht.symm⟩

/-- A round of `expire` that leads to `t` and emits `ws`. -/
structure Round (anchor now : Nat) (s : KeyedWindowStage K T φ) (order : List Nat)
    (policy : WindowPolicy) (t : KeyedWindowStage K T φ) (ws : List (K × Window T)) : Prop where
  due : t.due now < s.due now
  heap : ∀ d ∈ t.heap, d ∈ s.heap.tail ∨ now < d.deadline
  held : ∀ i e, t.held i = some e → s.held i = some e ∨ e.core.Fresh now
  out : ws = [] ∨ ∃ d e, s.heap.head? = some d ∧ d.deadline ≤ now ∧ s.held d.slot = some e ∧
    e.ticket = d.ticket ∧ (∀ f, t.held d.slot = some f → f.core.Fresh now) ∧
    ws = (e.core.on_tick anchor now Emitting.emit).out.map fun w => (e.key, w)
  rest : ∃ order', Sound t order' policy anchor ∧ ∀ s' out,
    Expired anchor now t order' policy s' out → Expired anchor now s order policy s' (ws ++ out)

section

variable {d : Due} {rest : List Due}

theorem Sound.round_stale (h : Sound s order policy anchor) (hheap : s.heap = d :: rest)
    (hd : d.deadline ≤ now) (hstale : ∀ e, s.held d.slot = some e → e.ticket ≠ d.ticket) :
    Round anchor now s order policy { s with heap := rest } [] where
  due := by
    have := due_cons hheap hd
    omega
  heap d hd := by
    rw [hheap]
    exact .inl hd
  held _ _ := .inl
  out := .inl rfl
  rest := ⟨order, h.pop hheap hstale, fun _ _ hexp => hexp.stale hheap⟩

/-- A round after which the key of the entry is scheduled again. -/
theorem Sound.round_again {f : KeyState K T} {u : KeyedWindowStage K T φ} {l : List (Window T)}
    (h : Sound s order policy anchor) (hheap : s.heap = d :: rest) (hd : d.deadline ≤ now)
    (he : s.held d.slot = some e) (ht : e.ticket = d.ticket)
    (hf : f.key = e.key ∧ f.created = e.created ∧
      f.core = (e.core.on_tick anchor now Emitting.emit).val)
    (hl : l = (e.core.on_tick anchor now Emitting.emit).out)
    (hempty : f.core.is_empty → f.core.deadline ≠ none ∧ e.core.Fresh now)
    (hu : Coherent u order) (hheld : u.held = Function.update s.held d.slot (some f))
    (huheap : u.heap = rest) (huslab : u.slab.length = s.slab.length) (hund : Undisturbed s u)
    (hfresh : f.core.Fresh now) (hfits : f.core.Fits policy anchor) (hv : policy.Valid)
    (hn : now ≤ Timeline.horizon) :
    Round anchor now s order policy (u.schedule d.slot now) (l.map fun w => (e.key, w)) := by
  obtain ⟨e', hsched, hheld', hsound⟩ := h.reschedule hu hheld hfresh hfits
  have hself : ∀ g, (u.schedule d.slot now).held d.slot = some g → g.core.Fresh now := by
    intro g hg
    rw [hheld', Function.update_self] at hg
    cases hg
    rw [hsched.same.2.1]
    exact hfresh
  refine ⟨?_, fun x hx => ?_, fun i g hg => ?_, .inr ⟨d, e, ?_, hd, he, ht, hself, by rw [hl]⟩,
    order, hsound, fun s' out hexp => h.examined hheap he hf hl hempty hu hheld huheap huslab hund
      hfresh hfits hv hn hexp⟩
  · have hdue := due_cons hheap hd
    refine Nat.lt_of_le_of_lt hsched.due ?_
    rw [hdue, due, huheap]
    exact Nat.lt_succ_self _
  · rw [hheap]
    rcases hsched.heap x hx with hx | hx
    · rw [huheap] at hx
      exact .inl hx
    · exact .inr hx
  · by_cases hi : i = d.slot
    · exact .inr (hself g (hi ▸ hg))
    · rw [hheld', Function.update_of_ne hi] at hg
      exact .inl hg
  · rw [hheap]
    rfl

theorem Sound.round_moved (h : Sound s order policy anchor) (hheap : s.heap = d :: rest)
    (hd : d.deadline ≤ now) (he : s.held d.slot = some e) (ht : e.ticket = d.ticket)
    (hany : e.core.deadline.any fun x => x > now) (hv : policy.Valid)
    (hn : now ≤ Timeline.horizon) :
    Round anchor now s order policy ((s.popped d.slot rest).schedule d.slot now) [] := by
  have hfresh : e.core.Fresh now := by
    intro x hx
    simpa [hx] using hany
  have hfits : e.core.Fits policy anchor := h.fits _ _ he
  have htick := Core.on_tick_fresh hfits hv hn hfresh
  refine h.round_again (f := { e with scheduled := none }) (l := []) hheap hd he ht
    ⟨rfl, rfl, ?_⟩ ?_ ?_ (h.popped_coherent hheap he) (held_popped he rest) rfl
    (by simp [popped, modify]) ⟨rfl, rfl, rfl⟩ hfresh hfits hv hn
  · rw [htick]
    rfl
  · rw [htick]
    rfl
  · intro _
    refine ⟨?_, hfresh⟩
    intro hdead
    rw [show e.core.deadline = none from hdead] at hany
    cases hany

theorem Sound.round_released (h : Sound s order policy anchor) (hheap : s.heap = d :: rest)
    (hd : d.deadline ≤ now) (he : s.held d.slot = some e) (ht : e.ticket = d.ticket)
    (hany : ¬e.core.deadline.any fun x => x > now) (hv : policy.Valid)
    (hn : now ≤ Timeline.horizon)
    (hempty : (e.core.on_tick anchor now Emitting.emit).val.is_empty) :
    Round anchor now s order policy
      ((s.ticked d.slot rest (e.core.on_tick anchor now Emitting.emit).val).remove d.slot).2
      ((e.core.on_tick anchor now Emitting.emit).out.map fun w => (e.key, w)) := by
  have hheld := held_ticked he rest (e.core.on_tick anchor now Emitting.emit).val
  have hself := congrFun hheld d.slot
  rw [Function.update_self] at hself
  obtain ⟨_, t, hremove, -, hcoh, htheld, htheap, htslab, htund⟩ :=
    remove_spec (h.ticked_coherent hheap he _) hself
  rw [hheld, Function.update_idem] at htheld
  rw [hremove]
  have hgone : ∀ g, t.held d.slot = some g → g.core.Fresh now := by
    intro g hg
    rw [htheld, Function.update_self] at hg
    cases hg
  refine ⟨?_, fun x hx => ?_, fun i g hg => ?_,
    .inr ⟨d, e, by rw [hheap]; rfl, hd, he, ht, hgone, rfl⟩, order.erase d.slot, ⟨hcoh, ?_, ?_⟩,
    fun s' out hexp => ?_⟩
  · have hdue := due_cons hheap hd
    rw [hdue, due, htheap]
    exact Nat.lt_succ_self _
  · rw [htheap] at hx
    rw [hheap]
    exact .inl hx
  · rw [htheld, Function.update_apply] at hg
    split at hg
    · cases hg
    · exact .inl hg
  · intro i f x hf hx
    rw [htheld, Function.update_apply] at hf
    split at hf
    · cases hf
    · exact h.covered i f x hf hx
  · intro i f hf
    rw [htheld, Function.update_apply] at hf
    split at hf
    · cases hf
    · exact h.fits i f hf
  · refine Expired.gone h hheap hd he ht hany hempty hv hn htheld htheap ?_ ?_ hexp
    · rw [htslab]
      simp [ticked, popped, modify]
    · have hund : Undisturbed s (s.ticked d.slot rest (e.core.on_tick anchor now Emitting.emit).val) :=
        ⟨rfl, rfl, rfl⟩
      exact hund.trans htund

theorem Sound.round_kept (h : Sound s order policy anchor) (hheap : s.heap = d :: rest)
    (hd : d.deadline ≤ now) (he : s.held d.slot = some e) (ht : e.ticket = d.ticket)
    (hv : policy.Valid) (ha : anchor ≤ Timeline.horizon) (hn : now ≤ Timeline.horizon)
    (hempty : ¬(e.core.on_tick anchor now Emitting.emit).val.is_empty) :
    Round anchor now s order policy
      ((s.ticked d.slot rest (e.core.on_tick anchor now Emitting.emit).val).schedule d.slot now)
      ((e.core.on_tick anchor now Emitting.emit).out.map fun w => (e.key, w)) :=
  h.round_again (f := { e with
      core := (e.core.on_tick anchor now Emitting.emit).val, scheduled := none })
    hheap hd he ht ⟨rfl, rfl, rfl⟩ rfl (fun h => absurd h hempty)
    (h.ticked_coherent hheap he _) (held_ticked he rest _) rfl (by simp [ticked, popped, modify])
    ⟨rfl, rfl, rfl⟩ (Core.fresh_on_tick (h.fits _ _ he) hv ha hn)
    (Core.fits_on_tick (h.fits _ _ he) hv ha hn) hv hn

/-- The loop makes a round while there is a due entry. -/
theorem Sound.round (h : Sound s order policy anchor) (hv : policy.Valid)
    (ha : anchor ≤ Timeline.horizon) (hn : now ≤ Timeline.horizon) (hheap : s.heap = d :: rest)
    (hle : d.deadline ≤ now) : ∃ t ws, Round anchor now s order policy t ws ∧ ∀ fuel,
      expire_loop anchor now Emitting.emit (fuel + 1) s =
        ⟨(expire_loop anchor now Emitting.emit fuel t).val,
          ws ++ (expire_loop anchor now Emitting.emit fuel t).out⟩ := by
  have hd : ¬d.deadline > now := Nat.not_lt_of_le hle
  by_cases hlive : ∃ e, s.held d.slot = some e ∧ e.ticket = d.ticket
  · obtain ⟨e, he, ht⟩ := hlive
    by_cases hany : e.core.deadline.any fun x => x > now
    · -- Later items have moved the deadline.
      refine ⟨_, [], h.round_moved hheap hle he ht hany hv hn, fun fuel => ?_⟩
      rw [loop_moved fuel hheap hd he ht hany, List.nil_append]
    · by_cases hempty : (e.core.on_tick anchor now Emitting.emit).val.is_empty
      · refine ⟨_, _, h.round_released hheap hle he ht hany hv hn hempty, fun fuel => ?_⟩
        rw [loop_ticked fuel hheap hd he ht hany]
        simp only [bind, Emitting.renamed_val, Emitting.renamed_out, hempty, if_true]
      · refine ⟨_, _, h.round_kept hheap hle he ht hv ha hn hempty, fun fuel => ?_⟩
        rw [loop_ticked fuel hheap hd he ht hany]
        simp only [bind, Emitting.renamed_val, Emitting.renamed_out, hempty, if_false,
          Bool.false_eq_true]
  · -- The key was evicted or rescheduled.
    have hstale : ∀ e, s.held d.slot = some e → e.ticket ≠ d.ticket :=
      fun e he heq => hlive ⟨e, he, heq⟩
    refine ⟨_, [], h.round_stale hheap hle hstale, fun fuel => ?_⟩
    rw [loop_stale fuel hheap hd hstale, List.nil_append]

end

/-- The loop is over when the first entry is not due. -/
theorem Sound.done (h : Sound s order policy anchor) (hheap : ∀ d, s.heap.head? = some d →
    now < d.deadline) : (∀ d ∈ s.heap, now < d.deadline) ∧ ∀ fuel,
      expire_loop anchor now Emitting.emit (fuel + 1) s = pure (some s) := by
  have hsorted := h.coherent.sorted
  constructor
  · intro x hx
    cases hs : s.heap with
    | nil =>
      rw [hs] at hx
      cases hx
    | cons d rest =>
      have hd := hheap d (by rw [hs]; rfl)
      rw [hs] at hx hsorted
      cases hx with
      | head => exact hd
      | tail _ hx =>
        have hle := (List.pairwise_cons.1 hsorted).1 x hx
        simp only [Due.le] at hle
        omega
  · intro fuel
    cases hs : s.heap with
    | nil => simp only [expire_loop, hs]
    | cons d rest =>
      have hd := hheap d (by rw [hs]; rfl)
      simp only [expire_loop, hs, gt_iff_lt, hd, if_true]

/-- The loop of `expire` ends, and what it does. Each round takes a due entry off the heap and
puts none there that is due. -/
theorem expire_loop_spec (hv : policy.Valid) (ha : anchor ≤ Timeline.horizon)
    (hn : now ≤ Timeline.horizon) (fuel : Nat) (s : KeyedWindowStage K T φ) (order : List Nat)
    (h : Sound s order policy anchor) (hfuel : s.due now < fuel) :
    ∃ s', (expire_loop anchor now Emitting.emit fuel s).val = some s' ∧
      Expired anchor now s order policy s' (expire_loop anchor now Emitting.emit fuel s).out := by
  induction fuel generalizing s order with
  | zero => omega
  | succ fuel ih =>
    by_cases hdone : ∀ d, s.heap.head? = some d → now < d.deadline
    · obtain ⟨hheap, hloop⟩ := h.done hdone
      rw [hloop fuel]
      exact ⟨s, rfl, h.expired hv hn hheap⟩
    · obtain ⟨d, hd⟩ := not_forall.1 hdone
      obtain ⟨hhead, hle⟩ := Classical.not_imp.1 hd
      obtain ⟨rest, hheap⟩ := List.head?_eq_some_iff.1 hhead
      obtain ⟨t, ws, ⟨hdue, -, -, -, order', hsound, hexp⟩, hloop⟩ :=
        h.round hv ha hn hheap (Nat.le_of_not_lt hle)
      obtain ⟨s', hval, hrest⟩ := ih t order' hsound (by omega)
      rw [hloop fuel]
      exact ⟨s', hval, hexp s' _ hrest⟩

/-- What `expire` does. -/
theorem expire_spec (h : Sound s order policy anchor) (hv : policy.Valid)
    (ha : anchor ≤ Timeline.horizon) (hn : now ≤ Timeline.horizon) :
    ∃ s', (s.expire anchor now Emitting.emit).val = some s' ∧
      Expired anchor now s order policy s' (s.expire anchor now Emitting.emit).out :=
  expire_loop_spec hv ha hn _ s order h (Nat.lt_succ_of_le List.countP_le_length)

end KeyedWindowStage

end PipeIo
