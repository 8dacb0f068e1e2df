import PipeIo.KeyedEach
import PipeIo.WindowBlank

namespace PipeIo
set_option autoImplicit true

open Lib

/-- A core that is fed some items. -/
def Core.feed [Timeline] (max_items anchor : Nat) (c : Core T) :
    List (T × Nat) → Emitting (Window T) (Core T)
  | [] => pure c
  | (item, now) :: items => do
    let c ← c.on_item max_items anchor now item Emitting.emit
    c.feed max_items anchor items

theorem Core.feed_append [Timeline] {max_items anchor : Nat} (x : Emitting (Window T) (Core T))
    (a b : List (T × Nat)) :
    (x >>= fun c => c.feed max_items anchor (a ++ b)) =
      (x >>= fun c => c.feed max_items anchor a) >>= fun c => c.feed max_items anchor b := by
  induction a generalizing x with
  | nil =>
    simp only [List.nil_append, Core.feed, bind_pure]
  | cons i a ih =>
    simp only [List.cons_append, Core.feed]
    rw [← bind_assoc, ih, bind_assoc x]

/-- The windows a core of its own emits for some items and a flush. -/
def Core.windows [Timeline] (policy : WindowPolicy) (max_items anchor : Nat)
    (items : List (T × Nat)) (now : Nat) : List (Window T) :=
  ((Core.new policy).feed max_items anchor items >>= Core.on_flush now Emitting.emit).out

namespace KeyedWindowStage

variable [Timeline] {K T φ : Type} [DecidableEq K] {s t s' : KeyedWindowStage K T φ}
  {slot now anchor last : Nat} {order : List Nat} {e : KeyState K T} {policy : WindowPolicy} {k : K}
  {x : Emitting (Window T) (Core T)} {out : List (Window T)}

/-- One key of the stage, compared with a core of its own. `x` is what that core has done with the
items of the key, and `out` the windows of the key the stage has emitted. The core may still hold
what has expired by the last event. -/
structure Alone (s : KeyedWindowStage K T φ) (policy : WindowPolicy) (anchor last : Nat) (k : K)
    (x : Emitting (Window T) (Core T)) (out : List (Window T)) : Prop where
  fits : x.val.Fits policy anchor
  begun : x.val.Begun anchor last
  held : ∀ i e, s.held i = some e → e.key = k →
    e.core = (x.val.on_tick anchor last Emitting.emit).val
  absent : (∀ i e, s.held i = some e → e.key ≠ k) →
    (x.val.on_tick anchor last Emitting.emit).val.Blank
  out : out = (x >>= Core.on_tick anchor last Emitting.emit).out

/-- The session of the key is not stranded. -/
def Sheltered (s : KeyedWindowStage K T φ) (k : K) (now : Nat) : Prop :=
  ∀ idle, s.policy = .session idle → ∀ i e, s.held i = some e → e.key = k → ¬s.StrandedAt now i e

instance (s : KeyedWindowStage K T φ) (k : K) (now : Nat) : Decidable (s.Sheltered k now) :=
  haveI : Decidable (∃ idle, s.policy = .session idle) :=
    match s.policy with
    | .session idle => isTrue ⟨idle, rfl⟩
    | .tumbling _ | .sliding .. => isFalse (by simp)
  decidable_of_iff ((∃ idle, s.policy = .session idle) → ∀ i < s.slab.length, ∀ e ∈ s.held i,
      e.key = k → ¬s.StrandedAt now i e)
    ⟨fun h idle hidle i e he => h ⟨idle, hidle⟩ i (held_lt he) e he,
      fun h ⟨idle, hidle⟩ i _ e he => h idle hidle i e he⟩

/-- `expire` does nothing to a key that a tick of its own core does not do. -/
theorem Alone.expire {ws : List (K × Window T)} (h : Alone s policy anchor last k x out)
    (hexp : Expired anchor now s order policy t ws)
    (hshel : ∀ idle, policy = .session idle → ∀ i e, s.held i = some e → e.key = k →
      ¬s.StrandedAt now i e)
    (hv : policy.Valid) (ha : anchor ≤ Timeline.horizon) (hn : now ≤ Timeline.horizon)
    (hle : last ≤ now) : Alone t policy anchor now k x (out ++ forKey k ws) := by
  have hlast := Nat.le_trans hle hn
  have habsorb := Core.on_tick_absorb h.fits hv ha hn hle
  have hfits := Core.fits_on_tick h.fits hv ha hlast
  have hheld := h.held
  have habsent := h.absent
  have hxout := h.out
  rw [Emitting.bind_out] at hxout
  generalize hc : x.val.on_tick anchor last Emitting.emit = c at habsorb hfits hheld habsent hxout
  have hval : (x.val.on_tick anchor now Emitting.emit).val =
      (c.val.on_tick anchor now Emitting.emit).val := by
    rw [← habsorb]
    rfl
  refine ⟨h.fits, h.begun.mono hle, ?_, ?_, ?_⟩
  · intro i f hf hkey
    cases he : s.held i with
    | none =>
      rw [hexp.vacant i he] at hf
      cases hf
    | some e =>
      obtain ⟨hsame, -, hcore, -⟩ := (hexp.settled i e he).kept f hf
      rw [hcore, hheld i e he (hsame.symm.trans hkey), hval]
  · intro hnone
    rw [hval]
    by_cases hkey : ∃ i e, s.held i = some e ∧ e.key = k
    · -- The key is released.
      obtain ⟨i, e, he, hk⟩ := hkey
      have hcore := hheld i e he hk
      have hgone : t.held i = none := by
        cases hf : t.held i with
        | none => rfl
        | some f =>
          have hsame := ((hexp.settled i e he).kept f hf).1
          exact absurd (hsame.trans hk) (hnone i f hf)
      obtain ⟨hempty, hstranded⟩ := (hexp.settled i e he).released hgone
      rw [hcore] at hempty hstranded
      apply Core.blank_on_tick hfits hv ha hn hempty
      intro idle hidle hfresh
      exact hshel idle hidle i e he hk (hstranded hfresh)
    · have hblank := habsent fun i e he hk => hkey ⟨i, e, he, hk⟩
      exact hblank.on_tick.2
  · have hwindows : forKey k ws = (c.val.on_tick anchor now Emitting.emit).out := by
      by_cases hkey : ∃ i e, s.held i = some e ∧ e.key = k
      · obtain ⟨i, e, he, rfl⟩ := hkey
        rw [(hexp.settled i e he).out, hheld i e he rfl]
      · have hblank := habsent fun i e he hk => hkey ⟨i, e, he, hk⟩
        rw [hblank.on_tick.1]
        apply forKey_other
        intro w hw hk
        obtain ⟨i, e, he, hwk⟩ := hexp.keys w hw
        exact hkey ⟨i, e, he, hwk.symm.trans hk⟩
    rw [hwindows, hxout, Emitting.bind_out, ← habsorb, Emitting.bind_out, List.append_assoc]

/-- What becomes of the other keys when an item comes in. -/
theorem Alone.other {e' : KeyState K T} {ws : List (K × Window T)}
    (h : Alone s policy anchor last k x out)
    (hheld : s'.held = Function.update s.held slot (some e')) (hkey : e'.key ≠ k)
    (hslot : ∀ e, s.held slot = some e → e.key ≠ k) (hws : ∀ w ∈ ws, w.1 = e'.key) :
    Alone s' policy anchor last k x (out ++ forKey k ws) where
  fits := h.fits
  begun := h.begun
  held i f hf hk := by
    rw [hheld, Function.update_apply] at hf
    split at hf
    · cases hf
      exact absurd hk hkey
    · exact h.held i f hf hk
  absent hnone := by
    apply h.absent
    intro i e he hk
    by_cases hi : i = slot
    · subst hi
      exact hslot e he hk
    · exact hnone i e (by rw [hheld, Function.update_of_ne hi, he]) hk
  out := by
    have hother : forKey k ws = [] := forKey_other fun w hw heq => hkey ((hws w hw).symm.trans heq)
    rw [hother, List.append_nil]
    exact h.out

omit [DecidableEq K] in
/-- What becomes of the key of the item. -/
theorem Alone.own {e' : KeyState K T} {item : T} {max_items : Nat} {c : Core T}
    (h : Alone s policy anchor now k x out)
    (hheld : ∀ i f, s'.held i = some f → f.key = k → f = e') (hslot : s'.held slot = some e')
    (hkey : e'.key = k)
    (hc : c = (x.val.on_tick anchor now Emitting.emit).val ∨
      c = Core.new policy ∧ (x.val.on_tick anchor now Emitting.emit).val.Blank)
    (hcore : e'.core = (c.on_item max_items anchor now item Emitting.emit).val)
    (hv : policy.Valid) (ha : anchor ≤ now) (hn : now ≤ Timeline.horizon) :
    Alone s' policy anchor now k
      (x >>= Core.on_item max_items anchor now item Emitting.emit)
      (out ++ (c.on_item max_items anchor now item Emitting.emit).out) := by
  have ha' := Nat.le_trans ha hn
  have hfits := Core.fits_on_tick h.fits hv ha' hn
  have hbegun := Core.begun_on_tick h.begun (Nat.le_refl now) ha hn h.fits hv
  have habsorb : (x.val.on_tick anchor now Emitting.emit >>=
      Core.on_item max_items anchor now item Emitting.emit) =
        x.val.on_item max_items anchor now item Emitting.emit :=
    Core.on_item_absorb h.fits hv ha' hn item
  have hsame : c.on_item max_items anchor now item Emitting.emit =
      (x.val.on_tick anchor now Emitting.emit).val.on_item max_items anchor now item
        Emitting.emit := by
    rcases hc with rfl | ⟨rfl, hblank⟩
    · rfl
    · exact (hblank.on_item hfits hv hbegun (Nat.le_refl now) ha hn item).symm
  have hval : e'.core = (x.val.on_item max_items anchor now item Emitting.emit).val := by
    rw [hcore, hsame, ← habsorb]
    rfl
  have hfits' : (x.val.on_item max_items anchor now item Emitting.emit).val.Fits policy anchor :=
    Core.fits_on_item h.fits hv ha' hn item
  have htick := Core.on_tick_fresh hfits' hv hn (Core.fresh_on_item h.fits hv ha' hn item)
  refine ⟨hfits', Core.begun_on_item h.begun (Nat.le_refl now) ha hn h.fits hv item, ?_, ?_, ?_⟩
  · intro i f hf hk
    rw [hheld i f hf hk, hval, Emitting.bind_val, htick]
    rfl
  · intro hnone
    exact absurd hkey (hnone slot e' hslot)
  · have hxout := h.out
    rw [Emitting.bind_out] at hxout
    rw [hsame, hxout, Emitting.bind_out, Emitting.bind_out, Emitting.bind_val, htick,
      Emitting.pure_out, List.append_nil, ← habsorb, Emitting.bind_out, List.append_assoc]

/-- What `process` does to a key, if no other key has to make room. -/
theorem Alone.process {key_fn : T → φ → K × φ} {item : T} {u : KeyedWindowStage K T φ}
    {order' : List Nat} {expired evicted delivered : List (K × Window T)}
    (h : Alone s s.policy anchor last k x out)
    (hproc : Processed key_fn item now s order anchor s' t u order' slot e expired evicted delivered)
    (hshel : s.Sheltered k now) (hroom : order.length < s.max_keys) (hv : s.policy.Valid)
    (ha : anchor ≤ now) (hn : now ≤ Timeline.horizon) (hle : last ≤ now) :
    Alone s' s.policy anchor now k
      (if (key_fn item s.key_state).1 = k then
        x >>= Core.on_item s.max_items anchor now item Emitting.emit else x)
      (out ++ forKey k (expired ++ (evicted ++ delivered))) := by
  have h1 : Alone t s.policy anchor now k x (out ++ forKey k expired) :=
    (Alone.mk h.fits h.begun h.held h.absent h.out : Alone { s with anchor := some anchor } s.policy
      anchor last k x out).expire hproc.expire (fun idle hidle => hshel idle hidle) hv
        (Nat.le_trans ha hn) hn hle
  obtain ⟨e', hheld', hkey', -, hcore'⟩ := hproc.deliver.held
  have hdelivered := hproc.deliver.out
  have hitems : u.max_items = s.max_items := by
    have hconfig := hproc.config
    rw [hconfig.1] at hconfig
    have hu := hconfig.2.1
    simp only [KeyedWindowStage.config, Prod.mk.injEq] at hu
    exact hu.2.1
  rw [hitems] at hcore' hdelivered
  have howner := hproc.touch.owner
  have hslot' : s'.held slot = some e' := by rw [hheld', Function.update_self]
  -- Nothing is evicted, and only the slot of the item changes.
  have hsame : evicted = [] ∧ s'.held = Function.update t.held slot (some e') ∧
      ((t.held slot = some e) ∨ (t.held slot = none ∧ e.core = Core.new s.policy ∧
        ∀ i f, t.held i = some f → f.key ≠ e.key)) := by
    rcases hproc.touch.cases with ⟨he, hheld, -, -, rfl⟩ | ⟨hk, -, hcore, -, v, hroom', hnone, hheld⟩
    · refine ⟨rfl, ?_, .inl he⟩
      rw [hheld', hheld]
      rfl
    · have hfilter := List.length_filter_le (fun i => (t.held i).isSome) order
      have hmax : t.max_keys = s.max_keys := hproc.config.2.2.2
      rcases hroom'.evicted with ⟨-, rfl, -, rfl⟩ | ⟨hfull, -⟩
      · refine ⟨rfl, ?_, .inr ⟨hnone, ?_, fun i f hf => ?_⟩⟩
        · rw [hheld', hheld, Function.update_idem]
          rfl
        · rw [hcore]
          exact congrArg Core.new (congrArg Prod.fst hproc.expire.undisturbed.config)
        · rw [howner, ← hproc.config.2.2.1]
          exact hproc.expire.sound.coherent.lookup_none (hproc.config.2.2.1 ▸ hk) hf
      · rw [show KeyedWindowStage.max_keys _ = t.max_keys from rfl] at hfull
        omega
  obtain ⟨rfl, hheld, hslot⟩ := hsame
  have hother : ∀ f, t.held slot = some f → f.key = e.key := by
    intro f hf
    rcases hslot with hslot | ⟨hslot, -⟩
    · rw [hslot] at hf
      cases hf
      rfl
    · rw [hslot] at hf
      cases hf
  have hfrom : ∀ w ∈ delivered, w.1 = e'.key := by
    intro w hw
    rw [hdelivered] at hw
    obtain ⟨_, -, rfl⟩ := List.mem_map.1 hw
    exact hkey'.symm
  rw [List.nil_append, forKey_append, ← List.append_assoc]
  by_cases hk : (key_fn item s.key_state).1 = k
  · rw [if_pos hk]
    have hek : e.key = k := howner.trans hk
    rw [hdelivered, hek, forKey_same]
    refine h1.own (fun i f hf hfk => ?_) hslot' (hkey'.trans hek) ?_ hcore' hv ha hn
    · have hi := hproc.deliver.sound.coherent.key_inj hf hslot' (hfk.trans (hkey'.trans hek).symm)
      subst hi
      rw [hslot'] at hf
      cases hf
      rfl
    · rcases hslot with hslot | ⟨-, hcore, hnew⟩
      · exact .inl (h1.held slot e hslot hek)
      · exact .inr ⟨hcore, h1.absent fun i f hf => hek ▸ hnew i f hf⟩
  · rw [if_neg hk]
    apply h1.other hheld _ _ hfrom
    · intro heq
      exact hk (howner.symm.trans (hkey'.symm.trans heq))
    · intro f hf heq
      exact hk (howner.symm.trans ((hother f hf).symm.trans heq))

omit [DecidableEq K] in
theorem alone_new (hs : ∀ i, s.held i = none) :
    Alone s policy anchor last k (pure (Core.new policy)) [] where
  fits := Core.fits_new policy
  begun := Core.begun_new policy anchor last
  held i e he := by
    rw [hs i] at he
    cases he
  absent _ := (Core.blank_new policy).on_tick.2
  out := by
    rw [pure_bind, (Core.blank_new policy).on_tick.1]

/-- A key in a run of the stage, compared with a core of its own. -/
structure Lone (s : KeyedWindowStage K T φ) (anchor last : Nat) (k : K)
    (x : Emitting (Window T) (Core T)) (out : List (Window T)) : Prop where
  alone : Alone s s.policy anchor last k x out
  anchored : ∀ a, s.anchor = some a → a = anchor ∧ anchor ≤ last
  unused : s.anchor = none → x = pure (Core.new s.policy) ∧ out = []

/-- What one event does to a key. -/
theorem Lone.step (h : Lone s anchor last k x out) (hs : Running s order)
    (key_fn : T → φ → K × φ) (event : WindowEvent T) (hcall : event.1 ≠ .flush)
    (hle : last ≤ event.2.1) (hshel : s.Sheltered k event.2.1)
    (hroom : ∀ item, event.1 = .item item → order.length < s.max_keys)
    (horigin : s.anchor = none → ∀ item, event.1 = .item item →
      anchor = grid_origin s.policy event.2.1) :
    ∃ s' order', (s.step key_fn event).val = some s' ∧ Running s' order' ∧
      (s'.policy, s'.max_items, s'.max_keys) = (s.policy, s.max_items, s.max_keys) ∧
      order'.length ≤ order.length + (arrivals [event]).length ∧
      (s'.anchor = none → s.anchor = none ∧ arrivals [event] = []) ∧
      Lone s' anchor event.2.1 k
        (x >>= fun c => c.feed s.max_items anchor (items_of key_fn k s.key_state [event]))
        (out ++ forKey k (s.step key_fn event).out) := by
  have hv := hs.valid
  obtain ⟨call, now, hn⟩ := event
  cases call with
  | item item =>
    have hanchor : s.anchor.getD (grid_origin s.policy now) = anchor ∧ anchor ≤ now := by
      cases ha : s.anchor with
      | none =>
        rw [horigin ha item rfl]
        exact ⟨rfl, grid_origin_le s.policy now⟩
      | some a =>
        obtain ⟨rfl, hlast⟩ := h.anchored a ha
        exact ⟨rfl, Nat.le_trans hlast hle⟩
    obtain ⟨hanchor, ha⟩ := hanchor
    obtain ⟨hsound, hhor⟩ := hs.origin hn
    obtain ⟨s', t, u, order', slot, e, expired, evicted, delivered, hval, hout, hproc⟩ :=
      process_spec key_fn item hsound hhor hs.max_keys hv hn
    rw [hanchor] at hproc hhor
    have hdone := hproc.config.1
    simp only [KeyedWindowStage.config, Prod.mk.injEq] at hdone
    obtain ⟨hpolicy, hitems, hkeys, -, hset⟩ := hdone
    have hfilter := List.length_filter_le (fun i => (t.held i).isSome) order
    have hlength : order'.length ≤ order.length := by
      rcases hproc.touch.cases with ⟨-, -, hsame, -⟩ | ⟨-, -, -, -, v, hmade, -⟩
      · rw [hsame]
        exact Nat.le_trans List.length_erase_le hfilter
      · rcases hmade.evicted with ⟨-, -, rfl, -⟩ | ⟨-, victim, f, hvictim, -⟩
        · exact hfilter
        · have hcons := congrArg List.length hvictim
          rw [List.length_cons] at hcons
          omega
    refine ⟨s', _, hval, hproc.running hs hhor, by rw [hpolicy, hitems, hkeys], ?_, ?_, ?_⟩
    · simpa [arrivals] using hlength
    · intro hnone
      rw [hset] at hnone
      cases hnone
    · have hstep := h.alone.process hproc hshel (hroom item rfl) hv ha hn hle
      refine ⟨?_, ?_, ?_⟩
      · rw [hpolicy, show (s.step key_fn (.item item, ⟨now, hn⟩)).out =
          expired ++ (evicted ++ delivered) from hout]
        simp only [items_of]
        split at hstep
        · rename_i hk
          rw [if_pos hk]
          simpa only [Core.feed, bind_pure] using hstep
        · rename_i hk
          rw [if_neg hk]
          simpa only [Core.feed, bind_pure] using hstep
      · intro a hsome
        rw [hset, Option.some.injEq] at hsome
        exact ⟨hsome.symm, ha⟩
      · intro hnone
        rw [hset] at hnone
        cases hnone
  | tick =>
    simp only [items_of, Core.feed, bind_pure]
    cases hanchor : s.anchor with
    | none =>
      have hstep : s.step key_fn (.tick, ⟨now, hn⟩) = pure (some s) := by
        simp only [KeyedWindowStage.step, tick, hanchor]
      obtain ⟨rfl, rfl⟩ := h.unused hanchor
      refine ⟨s, order, by rw [hstep]; rfl, hs, rfl, Nat.le_add_right _ _, fun _ => ⟨rfl, rfl⟩, ?_⟩
      rw [hstep]
      refine ⟨alone_new (hs.held_none hanchor), ?_, fun _ => ⟨rfl, rfl⟩⟩
      intro a ha
      rw [hanchor] at ha
      cases ha
    | some a =>
      obtain ⟨rfl, hlast⟩ := h.anchored a hanchor
      have hsound := hs.sound
      have ha := hs.anchor
      rw [hanchor] at hsound ha
      obtain ⟨s', hval, hexp⟩ := tick_spec hsound hanchor ha hv hn
      obtain ⟨hrun, hsame⟩ := hexp.running hs hanchor
      have hconfig := hsame
      simp only [KeyedWindowStage.config, Prod.mk.injEq] at hconfig
      obtain ⟨hpolicy, hitems, hkeys, -, hset⟩ := hconfig
      refine ⟨s', _, hval, hrun, by rw [hpolicy, hitems, hkeys], ?_, ?_, ?_⟩
      · exact Nat.le_trans (List.length_filter_le _ _) (Nat.le_add_right _ _)
      · intro hnone
        rw [hset, hanchor] at hnone
        cases hnone
      · refine ⟨?_, ?_, ?_⟩
        · rw [hpolicy]
          exact h.alone.expire hexp (fun idle hidle => hshel idle hidle) hv ha hn hle
        · intro b hb
          rw [hset, hanchor, Option.some.injEq] at hb
          exact ⟨hb.symm, Nat.le_trans hlast hle⟩
        · intro hnone
          rw [hset, hanchor] at hnone
          cases hnone
  | flush => exact absurd rfl hcall

theorem Lone.run (h : Lone s anchor last k x out) (hs : Running s order)
    (key_fn : T → φ → K × φ) (events : List (WindowEvent T))
    (hcalls : ∀ event ∈ events, event.1 ≠ .flush) (hmono : NonDecreasing events)
    (hlast : ∀ event ∈ events, last ≤ event.2.1)
    (hshel : ∀ before event rest t, events = before ++ event :: rest →
      s.after key_fn before = some t → t.Sheltered k event.2.1)
    (hroom : order.length + (arrivals events).length ≤ s.max_keys)
    (horigin : s.anchor = none → ∀ a ∈ (arrivals events).head?, anchor = grid_origin s.policy a.2) :
    ∃ s' order' last', s.after key_fn events = some s' ∧ Running s' order' ∧
      (s'.policy, s'.max_items) = (s.policy, s.max_items) ∧
      (∀ now, last ≤ now → (∀ event ∈ events, event.2.1 ≤ now) → last' ≤ now) ∧
      Lone s' anchor last' k
        (x >>= fun c => c.feed s.max_items anchor (items_of key_fn k s.key_state events))
        (out ++ forKey k (s.trace key_fn events).flatten) := by
  induction events generalizing s order last x out with
  | nil =>
    refine ⟨s, order, last, rfl, hs, rfl, fun now hle _ => hle, ?_⟩
    simpa only [items_of, Core.feed, bind_pure, trace, List.flatten_nil, forKey_nil,
      List.append_nil] using h
  | cons event events ih =>
    obtain ⟨hnext, hmono⟩ := List.pairwise_cons.1 hmono
    have hcall := hcalls event List.mem_cons_self
    have hsplit : arrivals (event :: events) = arrivals [event] ++ arrivals events :=
      List.filterMap_append (l := [event])
    rw [hsplit, List.length_append] at hroom
    have hitem : ∀ item, event.1 = .item item → arrivals [event] = [(item, event.2.1)] := by
      intro item hitem
      obtain ⟨call, now⟩ := event
      cases hitem
      rfl
    obtain ⟨t, order', hval, hrun, hconfig, hlength, hunused, hlone⟩ :=
      h.step hs key_fn event hcall (hlast event List.mem_cons_self) (hshel [] event events s rfl rfl)
        (fun item hev => by
          rw [hitem item hev, List.length_singleton] at hroom
          omega)
        (fun hnone item hev => horigin hnone (item, event.2.1) (by
          rw [hsplit, hitem item hev]
          rfl))
    simp only [Prod.mk.injEq] at hconfig
    obtain ⟨hpolicy, hitems, hkeys⟩ := hconfig
    have hafter : ∀ l, s.after key_fn (event :: l) = t.after key_fn l := by
      intro l
      simp only [after, hval, Option.bind_some]
    obtain ⟨s', order'', last', hval', hrun', hconfig', hbound, hlone'⟩ := ih hlone hrun
      (fun e he => hcalls e (List.mem_cons_of_mem _ he)) hmono hnext
      (fun before e rest v hevents hv =>
        hshel (event :: before) e rest v (by rw [hevents]; rfl) ((hafter before).trans hv))
      (by rw [hkeys]; omega)
      (fun hnone a ha => by
        obtain ⟨hnone, hempty⟩ := hunused hnone
        rw [hpolicy]
        exact horigin hnone a (by rw [hsplit, hempty]; exact ha))
    refine ⟨s', order'', last', (hafter events).trans hval', hrun', ?_, ?_, ?_⟩
    · rw [hconfig', hpolicy, hitems]
    · intro now _ hall
      exact hbound now (hall event List.mem_cons_self)
        fun e he => hall e (List.mem_cons_of_mem _ he)
    · rw [hs.items_of hcall hval, Core.feed_append, trace, hval, Option.map_some,
        Option.getD_some, List.flatten_cons, forKey_append, ← List.append_assoc]
      rw [hitems] at hlone'
      exact hlone'

/-- A flush closes what a core of its own closes. -/
theorem Lone.flush (h : Lone s anchor last k x out) (hs : Running s order)
    (hlast : last ≤ Timeline.horizon) (now : Nat) :
    out ++ forKey k (s.flush now Emitting.emit).out =
      (x >>= Core.on_flush now Emitting.emit).out := by
  have habsorb : (x.val.on_tick anchor last Emitting.emit >>= Core.on_flush now Emitting.emit) =
      x.val.on_flush now Emitting.emit := Core.on_flush_absorb h.alone.fits hs.valid hlast
  have hout := h.alone.out
  rw [Emitting.bind_out] at hout
  have hflush : forKey k (s.flush now Emitting.emit).out =
      ((x.val.on_tick anchor last Emitting.emit).val.on_flush now Emitting.emit).out := by
    rcases flush_forKey hs.sound.coherent k now with ⟨i, e, he, hk, hforKey⟩ | ⟨hnone, hforKey⟩
    · rw [hforKey, h.alone.held i e he hk]
    · rw [hforKey, (h.alone.absent hnone).on_flush]
  rw [hflush, hout, Emitting.bind_out, ← habsorb, Emitting.bind_out, List.append_assoc]

/-- A key's windows are those of a core of its own that is fed only the items of the key, if its
session is never stranded before an event. -/
theorem keys_independent {spec : WindowSpec} (hspec : spec.check = .ok ())
    (hkeys : spec.max_keys = none) (key_fn : T → φ → K × φ) (key_state : φ)
    (events : List (WindowEvent T)) (now : Reading) (k : K)
    (hcalls : ∀ event ∈ events, event.1 ≠ .flush)
    (hmono : NonDecreasing (events ++ [(.flush, now)])) (hfew : (arrivals events).length < 2 ^ 64)
    (hshel : ∀ before event rest s, events = before ++ event :: rest →
      (new spec key_state : KeyedWindowStage K T φ).after key_fn before = some s →
      s.Sheltered k event.2.1) :
    forKey k ((new spec key_state).trace key_fn (events ++ [(.flush, now)])).flatten =
      Core.windows spec.policy (limit_or_max spec.max_items)
        (WindowStage.origin spec.policy (arrivals events)) (items_of key_fn k key_state events)
        now.1 := by
  obtain ⟨hmono, -, hle⟩ := List.pairwise_append.1 hmono
  have hnew : Lone (new spec key_state : KeyedWindowStage K T φ)
      (WindowStage.origin spec.policy (arrivals events)) 0 k (pure (Core.new spec.policy)) [] := by
    refine ⟨alone_new fun i => ?_, fun a ha => ?_, fun _ => ⟨rfl, rfl⟩⟩
    · simp [new, held, entry]
    · cases ha
  obtain ⟨s', order', last', hafter, hrun, -, hlast, hlone⟩ :=
    hnew.run (new_running hspec key_state) key_fn events hcalls hmono (fun _ _ => Nat.zero_le _)
      hshel
      (by
        have hmax : (new spec key_state : KeyedWindowStage K T φ).max_keys = 2 ^ 64 - 1 := by
          rw [new, hkeys]
          rfl
        rw [hmax, List.length_nil]
        omega)
      (fun _ a ha => by
        rw [WindowStage.origin, Option.mem_def.1 ha]
        rfl)
  have hbound := hlast now.1 (Nat.zero_le _) fun e he => hle e he _ (List.mem_singleton_self _)
  rw [trace_flush hafter, forKey_append, Core.windows]
  have hflush := hlone.flush hrun (Nat.le_trans hbound now.2) now.1
  rw [List.nil_append, pure_bind] at hflush
  exact hflush

end KeyedWindowStage

namespace KeyedWindowStage

theorem keys_independent_session :
    forKey 0 (@trace smallTimeline Nat Nat Unit _ (new ⟨.session 4, some 2, none⟩ ())
      (fun v u => (v % 2, u)) ([(.item 0, ⟨3, by decide⟩), (.item 1, ⟨5, by decide⟩),
        (.tick, ⟨8, by decide⟩), (.item 2, ⟨9, by decide⟩)] ++
          [(.flush, ⟨20, by decide⟩)])).flatten =
      @Core.windows Nat smallTimeline (.session 4) 2 3 [(0, 3), (2, 9)] 20 := by
  have hall : ∀ n < 4, ∀ s ∈ @after smallTimeline Nat Nat Unit _
      (new ⟨.session 4, some 2, none⟩ ()) (fun v u => (v % 2, u))
      ([(.item 0, ⟨3, by decide⟩), (.item 1, ⟨5, by decide⟩), (.tick, ⟨8, by decide⟩),
        (.item 2, ⟨9, by decide⟩)].take n),
      @Sheltered smallTimeline _ _ _ s 0 ([3, 5, 8, 9].getD n 0) := by
    decide +kernel
  refine @keys_independent smallTimeline Nat Nat Unit _ ⟨.session 4, some 2, none⟩ rfl rfl
    (fun v u => (v % 2, u)) () [(.item 0, ⟨3, by decide⟩), (.item 1, ⟨5, by decide⟩),
      (.tick, ⟨8, by decide⟩), (.item 2, ⟨9, by decide⟩)] ⟨20, by decide⟩ 0 (by decide)
    (by simp [NonDecreasing]) (by decide) fun before event rest s hevents hs => ?_
  rcases before with _ | ⟨a, _ | ⟨b, _ | ⟨c, _ | ⟨d, before⟩⟩⟩⟩
  · cases hevents
    exact hall 0 (by decide) s hs
  · cases hevents
    exact hall 1 (by decide) s hs
  · cases hevents
    exact hall 2 (by decide) s hs
  · cases hevents
    exact hall 3 (by decide) s hs
  · simp at hevents

/-- Near the horizon `expire` releases a session that its limit has just emptied, and the next
window starts with the next item. A core of its own lets it start where the last one ended. -/
theorem keys_depend : ¬∀ (spec : WindowSpec) (key_fn : Nat → Unit → Nat × Unit)
    (events : List (@WindowEvent smallTimeline Nat)) (now : @Reading smallTimeline) (k : Nat),
    spec.check = .ok () → spec.max_keys = none → (∀ event ∈ events, event.1 ≠ .flush) →
    @NonDecreasing smallTimeline _ (events ++ [(.flush, now)]) →
    (@arrivals smallTimeline _ events).length < 2 ^ 64 →
    forKey k (@trace smallTimeline Nat Nat Unit _ (new spec ()) key_fn
        (events ++ [(.flush, now)])).flatten =
      @Core.windows Nat smallTimeline spec.policy (limit_or_max spec.max_items)
        (@WindowStage.origin Nat spec.policy (@arrivals smallTimeline _ events))
        (@PipeIo.items_of smallTimeline Nat Nat Unit _ key_fn k () events) now.1 := by
  intro h
  have hdiffers := h ⟨.session 10, some 1, none⟩ (fun _ u => (0, u))
    [(.item 0, ⟨85, by decide⟩), (.item 1, ⟨95, by decide⟩), (.tick, ⟨97, by decide⟩),
      (.item 2, ⟨99, by decide⟩)] ⟨99, by decide⟩ 0 rfl rfl (by decide)
    (by simp [NonDecreasing]) (by decide)
  revert hdiffers
  decide +kernel

end KeyedWindowStage

end PipeIo
