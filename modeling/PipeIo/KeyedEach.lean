import PipeIo.KeyedRun

namespace PipeIo
set_option autoImplicit true

open Lib

/-- The items of one key, with their arrival times. -/
def items_of [Timeline] {K T φ : Type} [DecidableEq K] (key_fn : T → φ → K × φ) (k : K) :
    φ → List (WindowEvent T) → List (T × Nat)
  | _, [] => []
  | x, (.item item, now) :: events =>
    if (key_fn item x).1 = k then (item, now.1) :: items_of key_fn k (key_fn item x).2 events
    else items_of key_fn k (key_fn item x).2 events
  | x, (.tick, _) :: events => items_of key_fn k x events
  | x, (.flush, _) :: events => items_of key_fn k x events

/-- What holds of a core, the items it was given and the windows it has emitted, whatever the
operations, and may start anew when the core is empty. No item comes when the core is `late`. -/
structure Core.Lasting [Timeline] (policy : WindowPolicy) (max_items : Nat)
    (late : Core T → Nat → Prop) (I : List (T × Nat) → List (Window T) → Core T → Prop) : Prop where
  start : I [] [] (Core.new policy)
  on_item : ∀ {arrived out} {c : Core T} {anchor now : Nat} (item : T), anchor ≤ Timeline.horizon →
    now ≤ Timeline.horizon → c.Fits policy anchor → ¬late c now → I arrived out c →
    I (arrived ++ [(item, now)]) (out ++ (c.on_item max_items anchor now item Emitting.emit).out)
      (c.on_item max_items anchor now item Emitting.emit).val
  on_tick : ∀ {arrived out} {c : Core T} {anchor now : Nat}, c.Fits policy anchor → I arrived out c →
    I arrived (out ++ (c.on_tick anchor now Emitting.emit).out)
      (c.on_tick anchor now Emitting.emit).val
  on_flush : ∀ {arrived out} {c : Core T} {anchor now : Nat}, c.Fits policy anchor →
    I arrived out c → I arrived (out ++ (c.on_flush now Emitting.emit).out) (Core.new policy)
  late_new : ∀ {now}, ¬late (Core.new policy) now
  late_on_tick : ∀ {c : Core T} {anchor now : Nat}, c.Fits policy anchor →
    late (c.on_tick anchor now Emitting.emit).val now → late c now ∧ c.is_empty

theorem Core.Lasting.drop [Timeline] {policy : WindowPolicy} {max_items anchor : Nat}
    {late : Core T → Nat → Prop} {I : List (T × Nat) → List (Window T) → Core T → Prop}
    {arrived : List (T × Nat)} {out : List (Window T)} {c : Core T}
    (hI : Core.Lasting policy max_items late I) (hf : c.Fits policy anchor) (h : I arrived out c)
    (hempty : c.is_empty) : I arrived out (Core.new policy) := by
  have hflush : I arrived (out ++ (c.on_flush 0 Emitting.emit).out) (Core.new policy) :=
    hI.on_flush hf h
  rw [Core.on_flush_empty hempty, List.append_nil] at hflush
  exact hflush

namespace KeyedWindowStage

section

variable [Timeline] {K T φ : Type} [DecidableEq K] {s t u s' : KeyedWindowStage K T φ}
  {slot now anchor : Nat} {order order' : List Nat} {e : KeyState K T} {policy : WindowPolicy} {k key : K}
  {max_items : Nat} {late : Core T → Nat → Prop}
  {I : List (T × Nat) → List (Window T) → Core T → Prop}
  {arrived : List (T × Nat)} {out : List (Window T)}

/-- `expire` releases a key whose own heap entry is due and which has nothing to wait for. -/
theorem released_idle (hv : policy.Valid) (ha : anchor ≤ Timeline.horizon)
    (hn : now ≤ Timeline.horizon) {i x : Nat} (hdead : e.core.deadline = none)
    (hempty : e.core.is_empty) (hx : e.scheduled = some x) (hle : x ≤ now) (fuel : Nat)
    (s : KeyedWindowStage K T φ) (order : List Nat) (h : Sound s order policy anchor)
    (hfuel : s.due now < fuel) (he : s.held i = some e) :
    ∃ t, (expire_loop anchor now Emitting.emit fuel s).val = some t ∧ t.held i = none := by
  induction fuel generalizing s order with
  | zero => omega
  | succ fuel ih =>
    have hentry := h.coherent.armed i e x he hx
    cases hheap : s.heap with
    | nil =>
      rw [hheap] at hentry
      cases hentry
    | cons d rest =>
      have hd : d.deadline ≤ now := by
        rw [hheap] at hentry
        have hsorted := h.coherent.sorted
        rw [hheap] at hsorted
        cases hentry with
        | head => exact hle
        | tail _ hentry =>
          have hdue := (List.pairwise_cons.1 hsorted).1 _ hentry
          simp only [Due.le] at hdue
          omega
      have hd' : ¬d.deadline > now := Nat.not_lt_of_le hd
      by_cases hlive : ∃ f, s.held d.slot = some f ∧ f.ticket = d.ticket
      · obtain ⟨f, hf, ht⟩ := hlive
        have hidle : d.slot = i → (f.core.on_tick anchor now Emitting.emit).val.is_empty ∧
            ¬f.core.deadline.any fun x => x > now := by
          rintro rfl
          cases he.symm.trans hf
          have hfresh : e.core.Fresh now := by
            intro y hy
            cases hdead.symm.trans hy
          rw [Core.on_tick_fresh (h.fits _ e he) hv hn hfresh, hdead]
          exact ⟨hempty, by simp⟩
        by_cases hany : f.core.deadline.any fun x => x > now
        · have hne : i ≠ d.slot := fun hi => (hidle hi.symm).2 hany
          have hround := h.round_moved hheap hd hf ht hany hv hn
          obtain ⟨order', hsound, -⟩ := hround.rest
          have hdue := hround.due
          have hfresh : f.core.Fresh now := by
            intro y hy
            simpa [hy] using hany
          have hfits : f.core.Fits policy anchor := h.fits d.slot f hf
          obtain ⟨_, -, hheld, -⟩ :=
            h.reschedule (h.popped_coherent hheap hf) (held_popped hf rest) hfresh hfits
          rw [loop_moved fuel hheap hd' hf ht hany]
          exact ih _ order' hsound (by omega) (by rw [hheld, Function.update_of_ne hne, he])
        · rw [loop_ticked fuel hheap hd' hf ht hany, Emitting.bind_val, Emitting.renamed_val]
          by_cases hgone : (f.core.on_tick anchor now Emitting.emit).val.is_empty
          · have hround := h.round_released hheap hd hf ht hany hv hn hgone
            obtain ⟨order', hsound, -⟩ := hround.rest
            have hdue := hround.due
            have hself := congrFun (held_ticked hf rest
              (f.core.on_tick anchor now Emitting.emit).val) d.slot
            rw [Function.update_self] at hself
            obtain ⟨_, t, hremove, -, -, hheld, -⟩ :=
              remove_spec (h.ticked_coherent hheap hf _) hself
            rw [held_ticked hf, Function.update_idem] at hheld
            rw [if_pos hgone]
            rw [hremove] at hsound hdue ⊢
            have hdue : t.due now < s.due now := hdue
            by_cases hi : i = d.slot
            · obtain ⟨v, hval, hexp⟩ := expire_loop_spec hv ha hn fuel t order' hsound (by omega)
              refine ⟨v, hval, hexp.vacant i ?_⟩
              rw [hheld, hi, Function.update_self]
            · exact ih t order' hsound (by omega) (by rw [hheld, Function.update_of_ne hi, he])
          · have hne : i ≠ d.slot := fun hi => hgone (hidle hi.symm).1
            have hround := h.round_kept hheap hd hf ht hv ha hn hgone
            obtain ⟨order', hsound, -⟩ := hround.rest
            have hdue := hround.due
            obtain ⟨_, -, hheld, -⟩ := h.reschedule (h.ticked_coherent hheap hf _)
              (held_ticked hf rest _) (Core.fresh_on_tick (h.fits _ _ hf) hv ha hn)
              (Core.fits_on_tick (h.fits _ _ hf) hv ha hn)
            rw [if_neg hgone]
            exact ih _ order' hsound (by omega) (by rw [hheld, Function.update_of_ne hne, he])
      · have hstale : ∀ f, s.held d.slot = some f → f.ticket ≠ d.ticket :=
          fun f hf heq => hlive ⟨f, hf, heq⟩
        have hround := h.round_stale hheap hd hstale
        have hdue := hround.due
        rw [loop_stale fuel hheap hd' hstale]
        exact ih _ order (h.pop hheap hstale) (by omega) he

/-- `I` holds of one key: of its core, or of a new one if the key is not there. -/
structure Each (I : List (T × Nat) → List (Window T) → Core T → Prop) (policy : WindowPolicy)
    (s : KeyedWindowStage K T φ) (k : K) (arrived : List (T × Nat)) (out : List (Window T)) :
    Prop where
  held : ∀ i e, s.held i = some e → e.key = k → I arrived out e.core
  absent : (∀ i e, s.held i = some e → e.key ≠ k) → I arrived out (Core.new policy)

omit [Timeline] [DecidableEq K] in
theorem Each.of_held (h : Each I policy s k arrived out) (hheld : t.held = s.held) :
    Each I policy t k arrived out := by
  constructor
  · rw [hheld]
    exact h.held
  · rw [hheld]
    exact h.absent

/-- What `expire` does to a key is a tick, and the release of an empty core. -/
theorem Each.expire {ws : List (K × Window T)} (hI : Core.Lasting policy max_items late I)
    (h : Each I policy s k arrived out) (hs : Sound s order policy anchor)
    (hexp : Expired anchor now s order policy t ws) (hv : policy.Valid)
    (ha : anchor ≤ Timeline.horizon) (hn : now ≤ Timeline.horizon) :
    Each I policy t k arrived (out ++ forKey k ws) := by
  have hticked : ∀ i e, s.held i = some e → e.key = k →
      I arrived (out ++ forKey k ws) (e.core.on_tick anchor now Emitting.emit).val := by
    rintro i e he rfl
    rw [(hexp.settled i e he).out]
    exact hI.on_tick (hs.fits i e he) (h.held i e he rfl)
  constructor
  · intro i f hf hkey
    cases he : s.held i with
    | none =>
      rw [hexp.vacant i he] at hf
      cases hf
    | some e =>
      obtain ⟨hsame, -, hcore, -⟩ := (hexp.settled i e he).kept f hf
      rw [hcore]
      exact hticked i e he (hsame.symm.trans hkey)
  · intro hnone
    by_cases hkey : ∃ i e, s.held i = some e ∧ e.key = k
    · obtain ⟨i, e, he, hk⟩ := hkey
      have hgone : t.held i = none := by
        cases hf : t.held i with
        | none => rfl
        | some f =>
          have hsame := ((hexp.settled i e he).kept f hf).1
          exact absurd (hsame.trans hk) (hnone i f hf)
      have hempty := ((hexp.settled i e he).released hgone).1
      exact hI.drop (Core.fits_on_tick (hs.fits i e he) hv ha hn) (hticked i e he hk) hempty
    · have hother : forKey k ws = [] := by
        apply forKey_other
        intro w hw hwk
        obtain ⟨i, e, he, hsame⟩ := hexp.keys w hw
        exact hkey ⟨i, e, he, hsame.symm.trans hwk⟩
      rw [hother, List.append_nil]
      exact h.absent fun i e he hk => hkey ⟨i, e, he, hk⟩

/-- The least recently active key is flushed. -/
theorem Each.room {ws : List (K × Window T)} (hI : Core.Lasting policy max_items late I)
    (h : Each I policy s k arrived out) (hs : Sound s order policy anchor)
    (hroom : Room anchor now s order policy t order' ws) :
    Each I policy t k arrived (out ++ forKey k ws) := by
  rcases hroom.evicted with ⟨-, rfl, -, rfl⟩ | ⟨-, victim, e, -, he, hheld, rfl⟩
  · rw [forKey_nil, List.append_nil]
    exact h
  · have hkept : ∀ i f, t.held i = some f → i ≠ victim ∧ s.held i = some f := by
      intro i f hf
      rw [hheld, Function.update_apply] at hf
      split at hf
      · cases hf
      · rename_i hne
        exact ⟨hne, hf⟩
    by_cases hk : e.key = k
    · subst hk
      rw [forKey_same]
      constructor
      · intro i f hf hkey
        obtain ⟨hne, hf⟩ := hkept i f hf
        exact absurd (hs.coherent.key_inj hf he hkey) hne
      · intro _
        exact hI.on_flush (hs.fits victim e he) (h.held victim e he rfl)
    · have hother : forKey k ((e.core.on_flush now Emitting.emit).out.map fun w => (e.key, w)) = [] := by
        apply forKey_other
        intro w hw hwk
        obtain ⟨_, -, rfl⟩ := List.mem_map.1 hw
        exact hk hwk
      rw [hother, List.append_nil]
      constructor
      · intro i f hf hkey
        exact h.held i f (hkept i f hf).2 hkey
      · intro hnone
        apply h.absent
        intro i f hf hkey
        by_cases hi : i = victim
        · subst hi
          rw [he] at hf
          cases hf
          exact hk hkey
        · exact hnone i f (by rw [hheld, Function.update_of_ne hi, hf]) hkey

/-- `touch` finds the state of the key or begins a new one. -/
theorem Each.touch {ws : List (K × Window T)} (hI : Core.Lasting policy max_items late I)
    (h : Each I policy s k arrived out) (hs : Sound s order policy anchor) (hpolicy : s.policy = policy)
    (htouch : Touched anchor now s order policy key slot t order' e ws) :
    Each I policy t k arrived (out ++ forKey k ws) ∧
      (s.held slot = some e ∨ e.core = Core.new policy) := by
  rcases htouch.cases with ⟨he, hheld, -, -, rfl⟩ | ⟨hk, -, hcore, -, v, hroom, hnone, hheld⟩
  · rw [forKey_nil, List.append_nil]
    exact ⟨h.of_held hheld, .inl he⟩
  · rw [hpolicy] at hcore
    have hv := h.room hI hs hroom
    have howner := htouch.owner
    have hnew : ∀ i f, v.held i = some f → f.key ≠ key := by
      intro i f hf
      rcases hroom.evicted with ⟨-, rfl, -⟩ | ⟨-, victim, g, -, -, hvheld, -⟩
      · exact hs.coherent.lookup_none hk hf
      · rw [hvheld, Function.update_apply] at hf
        split at hf
        · cases hf
        · exact hs.coherent.lookup_none hk hf
    refine ⟨⟨fun i f hf hkey => ?_, fun hnot => ?_⟩, .inr hcore⟩
    · rw [hheld, Function.update_apply] at hf
      split at hf
      · cases hf
        rw [hcore]
        apply hv.absent
        intro i f hf hfk
        exact hnew i f hf (hfk.trans (hkey.symm.trans howner))
      · exact hv.held i f hf hkey
    · apply hv.absent
      intro i f hf hfk
      by_cases hi : i = slot
      · subst hi
        rw [hnone] at hf
        cases hf
      · exact hnot i f (by rw [hheld, Function.update_of_ne hi, hf]) hfk

/-- The key of an item gets it, and nothing happens to the others. -/
theorem Each.deliver {ws : List (K × Window T)} {item : T} (hI : Core.Lasting policy max_items late I)
    (h : Each I policy s k arrived out) (hs : Sound s order policy anchor)
    (hdel : Delivered anchor now item s order policy slot e s' ws) (he : s.held slot = some e)
    (hitems : s.max_items = max_items) (hlate : e.key = k → ¬late e.core now)
    (ha : anchor ≤ Timeline.horizon) (hn : now ≤ Timeline.horizon) :
    Each I policy s' k (arrived ++ if e.key = k then [(item, now)] else [])
      (out ++ forKey k ws) := by
  obtain ⟨e', hheld, hkey', -, hcore⟩ := hdel.held
  have hself : s'.held slot = some e' := by rw [hheld, Function.update_self]
  rw [hitems] at hcore
  by_cases hk : e.key = k
  · subst hk
    rw [hdel.out, forKey_same, hitems, if_pos rfl]
    constructor
    · intro i f hf hkey
      have hi := hdel.sound.coherent.key_inj hf hself (hkey.trans hkey'.symm)
      subst hi
      rw [hself] at hf
      cases hf
      rw [hcore]
      exact hI.on_item item ha hn (hs.fits i e he) (hlate rfl) (h.held i e he rfl)
    · intro hnone
      exact absurd hkey' (hnone slot e' hself)
  · have hother : forKey k ws = [] := by
      apply forKey_other
      intro w hw hwk
      rw [hdel.out] at hw
      obtain ⟨_, -, rfl⟩ := List.mem_map.1 hw
      exact hk hwk
    rw [hother, if_neg hk, List.append_nil, List.append_nil]
    constructor
    · intro i f hf hkey
      rw [hheld, Function.update_apply] at hf
      split at hf
      · cases hf
        exact absurd (hkey'.symm.trans hkey) hk
      · exact h.held i f hf hkey
    · intro hnone
      apply h.absent
      intro i f hf hkey
      by_cases hi : i = slot
      · subst hi
        rw [he] at hf
        cases hf
        exact hk hkey
      · exact hnone i f (by rw [hheld, Function.update_of_ne hi, hf]) hkey

/-- A key is not late for an item, unless `expire` releases it first: it has nothing to wait for,
and its heap entry is due. -/
def InTime (late : Core T → Nat → Prop) (s : KeyedWindowStage K T φ) (k : K) (now : Nat) : Prop :=
  ∀ i e, s.held i = some e → e.key = k → late e.core now →
    e.core.deadline = none ∧ ∃ x, e.scheduled = some x ∧ x ≤ now

instance [∀ (c : Core T) now, Decidable (late c now)] (s : KeyedWindowStage K T φ) (k : K)
    (now : Nat) : Decidable (InTime late s k now) :=
  decidable_of_iff (∀ i < s.slab.length, ∀ e ∈ s.held i, e.key = k → late e.core now →
      e.core.deadline = none ∧ ∃ x ∈ e.scheduled, x ≤ now)
    ⟨fun h i e he => h i (held_lt he) e he, fun h i _ e he => h i e he⟩

/-- After `expire` no key is late that was timely before. -/
theorem InTime.expire (hI : Core.Lasting policy max_items late I) (h : s.InTime late k now)
    (hs : Sound s order policy anchor) (hv : policy.Valid) (ha : anchor ≤ Timeline.horizon)
    (hn : now ≤ Timeline.horizon) (hval : (s.expire anchor now Emitting.emit).val = some t) :
    ∀ i f, t.held i = some f → f.key = k → ¬late f.core now := by
  intro i f hf hkey hlate
  obtain ⟨t', hval', hexp⟩ := expire_spec hs hv ha hn
  cases hval.symm.trans hval'
  cases he : s.held i with
  | none =>
    rw [hexp.vacant i he] at hf
    cases hf
  | some e =>
    obtain ⟨hsame, -, hcore, -⟩ := (hexp.settled i e he).kept f hf
    rw [hcore] at hlate
    obtain ⟨hlate, hempty⟩ := hI.late_on_tick (hs.fits i e he) hlate
    obtain ⟨hdead, x, hx, hle⟩ := h i e he (hsame.symm.trans hkey) hlate
    obtain ⟨t', hval', hnone⟩ := released_idle hv ha hn hdead hempty hx hle (s.heap.length + 1) s
      order hs (Nat.lt_succ_of_le List.countP_le_length) he
    cases hval.symm.trans hval'
    rw [hf] at hnone
    cases hnone

/-- What `process` does to a key. -/
theorem Each.process {key_fn : T → φ → K × φ} {item : T}
    {expired evicted delivered : List (K × Window T)} (hI : Core.Lasting policy max_items late I)
    (h : Each I policy s k arrived out) (hs : Sound s order policy anchor)
    (hproc : Processed key_fn item now s order anchor s' t u order' slot e expired evicted delivered)
    (hconfig : s.policy = policy ∧ s.max_items = max_items) (hv : policy.Valid)
    (ha : anchor ≤ Timeline.horizon) (hn : now ≤ Timeline.horizon)
    (hlate : (key_fn item s.key_state).1 = k → ∀ i f, t.held i = some f → f.key = k →
      ¬late f.core now) :
    Each I policy s' k (arrived ++ if (key_fn item s.key_state).1 = k then [(item, now)] else [])
      (out ++ forKey k (expired ++ (evicted ++ delivered))) := by
  obtain ⟨rfl, hitems⟩ := hconfig
  obtain ⟨hdone, hu, hstate, -⟩ := hproc.config
  rw [hdone] at hu
  have hexpired : t.config = { s with anchor := some anchor }.config :=
    hproc.expire.undisturbed.config
  simp only [KeyedWindowStage.config, Prod.mk.injEq] at hu hexpired
  have h0 : Each I s.policy { s with anchor := some anchor } k arrived out := h.of_held rfl
  have h1 : Each I s.policy t k arrived (out ++ forKey k expired) :=
    h0.expire hI (hs.configured (some anchor) s.key_state) hproc.expire hv ha hn
  have h2 : Each I s.policy { t with key_state := (key_fn item t.key_state).2 } k arrived
      (out ++ forKey k expired) := h1.of_held rfl
  obtain ⟨h3, hslot⟩ := h2.touch hI (hproc.expire.sound.configured t.anchor _) hexpired.1 hproc.touch
  have howner := hproc.touch.owner
  have hnot : e.key = k → ¬late e.core now := by
    intro hk
    rcases hslot with hslot | hnew
    · exact hlate (howner.symm.trans hk) slot e hslot hk
    · rw [hnew]
      exact hI.late_new
  have h4 := h3.deliver hI hproc.touch.sound hproc.deliver hproc.touch.held (hu.2.1.trans hitems)
    hnot ha hn
  rw [howner] at h4
  rw [forKey_append, forKey_append, ← List.append_assoc, ← List.append_assoc]
  exact h4

/-- The items of a key come with the events one after the other. -/
theorem Running.items_of (hs : Running s order) {key_fn : T → φ → K × φ} {event : WindowEvent T}
    (hcall : event.1 ≠ .flush) (hval : (s.step key_fn event).val = some s')
    (events : List (WindowEvent T)) :
    items_of key_fn k s.key_state (event :: events) =
      items_of key_fn k s.key_state [event] ++ items_of key_fn k s'.key_state events := by
  obtain ⟨call, now, hn⟩ := event
  cases call with
  | item item =>
    obtain ⟨hsound, ha⟩ := hs.origin hn
    obtain ⟨t, u, v, order', slot, e, expired, evicted, delivered, hproc, -, hdone⟩ :=
      process_spec key_fn item hsound ha hs.max_keys hs.valid hn
    obtain rfl : s' = t := Option.some.inj (hval.symm.trans hproc)
    obtain ⟨hconfig, -, hstate, -⟩ := hdone.config
    simp only [KeyedWindowStage.config, Prod.mk.injEq] at hconfig
    rw [hconfig.2.2.2.1, hstate]
    simp only [PipeIo.items_of]
    split <;> rfl
  | tick =>
    have hstate : s'.key_state = s.key_state := by
      cases hanchor : s.anchor with
      | none =>
        simp only [KeyedWindowStage.step, tick, hanchor, Emitting.pure_val, Option.some.injEq] at hval
        rw [hval]
      | some anchor =>
        have hsound := hs.sound
        have ha := hs.anchor
        rw [hanchor] at hsound ha
        obtain ⟨t, htick, hexp⟩ := tick_spec hsound hanchor ha hs.valid hn
        obtain rfl : s' = t := Option.some.inj (hval.symm.trans htick)
        have hconfig := hexp.undisturbed.config
        simp only [KeyedWindowStage.config, Prod.mk.injEq] at hconfig
        exact hconfig.2.2.2.1
    rw [hstate]
    rfl
  | flush => exact absurd rfl hcall

/-- What one event does to a key. -/
theorem Each.step (hI : Core.Lasting policy max_items late I) (h : Each I policy s k arrived out)
    (hs : Running s order) (hconfig : s.policy = policy ∧ s.max_items = max_items)
    (key_fn : T → φ → K × φ) (event : WindowEvent T) (hcall : event.1 ≠ .flush)
    (hintime : ∀ item, event.1 = .item item → (key_fn item s.key_state).1 = k →
      s.InTime late k event.2) :
    ∃ s' order', (s.step key_fn event).val = some s' ∧ Running s' order' ∧
      (s'.policy = policy ∧ s'.max_items = max_items) ∧
      Each I policy s' k (arrived ++ items_of key_fn k s.key_state [event])
        (out ++ forKey k (s.step key_fn event).out) := by
  obtain ⟨rfl, rfl⟩ := hconfig
  have hv := hs.valid
  obtain ⟨call, now, hn⟩ := event
  cases call with
  | item item =>
    obtain ⟨hsound, ha⟩ := hs.origin hn
    obtain ⟨s', t, u, order', slot, e, expired, evicted, delivered, hval, hout, hexpire, -, hproc⟩ :=
      process_expired key_fn item hsound ha hs.max_keys hv hn
    have hdone := hproc.config.1
    simp only [KeyedWindowStage.config, Prod.mk.injEq] at hdone
    refine ⟨s', _, hval, hproc.running hs ha, ⟨hdone.1, hdone.2.1⟩, ?_⟩
    rw [show (s.step key_fn (.item item, ⟨now, hn⟩)).out = expired ++ (evicted ++ delivered) from
      hout]
    simp only [items_of]
    refine h.process hI hsound hproc ⟨rfl, rfl⟩ hv ha hn fun hkey => ?_
    generalize s.anchor.getD (grid_origin s.policy now) = anchor at hsound ha hexpire
    have hintime' : InTime late { s with anchor := some anchor } k now := hintime item rfl hkey
    exact hintime'.expire hI (hsound.configured (some anchor) s.key_state) hv ha hn hexpire
  | tick =>
    cases hanchor : s.anchor with
    | none =>
      have hstep : s.step key_fn (.tick, ⟨now, hn⟩) = pure (some s) := by
        simp only [KeyedWindowStage.step, tick, hanchor]
      refine ⟨s, order, by rw [hstep]; rfl, hs, ⟨rfl, rfl⟩, ?_⟩
      rw [hstep]
      simpa [items_of] using h
    | some anchor =>
      have hsound := hs.sound
      have ha := hs.anchor
      rw [hanchor] at hsound ha
      obtain ⟨s', hval, hexp⟩ := tick_spec hsound hanchor ha hv hn
      obtain ⟨hrun, hsame⟩ := hexp.running hs hanchor
      simp only [KeyedWindowStage.config, Prod.mk.injEq] at hsame
      refine ⟨s', _, hval, hrun, ⟨hsame.1, hsame.2.1⟩, ?_⟩
      rw [items_of, items_of, List.append_nil]
      exact h.expire hI hsound hexp hv ha hn
  | flush => exact absurd rfl hcall

/-- Every item of the key comes in time. -/
def AllInTime (late : Core T → Nat → Prop) (key_fn : T → φ → K × φ) (k : K)
    (s : KeyedWindowStage K T φ) (events : List (WindowEvent T)) : Prop :=
  ∀ before item (now : Reading) rest t, events = before ++ (WindowCall.item item, now) :: rest →
    s.after key_fn before = some t → (key_fn item t.key_state).1 = k → t.InTime late k now

theorem Each.run (hI : Core.Lasting policy max_items late I) (h : Each I policy s k arrived out)
    (hs : Running s order) (hconfig : s.policy = policy ∧ s.max_items = max_items)
    (key_fn : T → φ → K × φ) (events : List (WindowEvent T))
    (hcalls : ∀ event ∈ events, event.1 ≠ .flush) (hintime : s.AllInTime late key_fn k events) :
    ∃ s' order', s.after key_fn events = some s' ∧ Running s' order' ∧ s'.policy = policy ∧
      Each I policy s' k (arrived ++ items_of key_fn k s.key_state events)
        (out ++ forKey k (s.trace key_fn events).flatten) := by
  induction events generalizing s order arrived out with
  | nil =>
    refine ⟨s, order, rfl, hs, hconfig.1, ?_⟩
    simpa [items_of, trace] using h
  | cons event events ih =>
    obtain ⟨t, order', hval, hrun, hconfig', heach⟩ :=
      h.step hI hs hconfig key_fn event (hcalls event List.mem_cons_self) fun item hitem hkey => by
        obtain ⟨call, now⟩ := event
        cases hitem
        exact hintime [] item now events s rfl rfl hkey
    have hafter : ∀ l, s.after key_fn (event :: l) = t.after key_fn l := by
      intro l
      simp only [after, hval, Option.bind_some]
    obtain ⟨s', order'', hval', hrun', hpolicy, heach'⟩ := ih heach hrun hconfig'
      (fun e he => hcalls e (List.mem_cons_of_mem _ he))
      fun before item now rest v hevents hv hkey =>
        hintime (event :: before) item now rest v (by rw [hevents]; rfl) ((hafter before).trans hv) hkey
    refine ⟨s', order'', (hafter events).trans hval', hrun', hpolicy, ?_⟩
    rw [hs.items_of (hcalls event List.mem_cons_self) hval, trace, hval, Option.map_some,
      Option.getD_some, List.flatten_cons, forKey_append,
      ← List.append_assoc, ← List.append_assoc]
    exact heach'

omit [Timeline] in
/-- The entries of the slab have different keys. -/
theorem entries_keys (h : Coherent s order) :
    (s.slab.filterMap id).Pairwise fun f g => f.key ≠ g.key := by
  rw [List.pairwise_filterMap, List.pairwise_iff_getElem]
  intro i j hi hj hlt f hf g hg heq
  have hheld : ∀ {i : Nat} {f : KeyEntry K T} (hi : i < s.slab.length), id s.slab[i] = some f →
      s.held i = some f.state := by
    intro i f hi hf
    have hf' : s.slab[i] = some f := hf
    simp [held, entry, List.getElem?_eq_getElem hi, hf']
  exact Nat.ne_of_lt hlt (h.key_inj (hheld hi hf) (hheld hj hg) heq)

/-- What `flush` emits for a key. -/
theorem flush_forKey (hs : Coherent s order) (k : K) (now : Nat) :
    (∃ i e, s.held i = some e ∧ e.key = k ∧
        forKey k (s.flush now Emitting.emit).out = (e.core.on_flush now Emitting.emit).out) ∨
      ((∀ i e, s.held i = some e → e.key ≠ k) ∧
        forKey k (s.flush now Emitting.emit).out = []) := by
  let sorted := (s.slab.filterMap id).insertionSort fun a b => a.created ≤ b.created
  have hperm : sorted.Perm (s.slab.filterMap id) := List.perm_insertionSort _ _
  have hkeys : sorted.Pairwise fun f g => f.key ≠ g.key :=
    (hperm.pairwise_iff fun hne => hne.symm).2 (entries_keys hs)
  have hout : (s.flush now Emitting.emit).out = sorted.flatMap fun f =>
      (f.core.on_flush now Emitting.emit).out.map fun w => (f.key, w) := by
    rw [← flush_entries_out]
    exact List.append_nil _
  rw [hout, forKey_flatMap KeyEntry.key (fun f => (f.core.on_flush now Emitting.emit).out) hkeys]
  cases hfind : sorted.find? fun f => f.key = k with
  | none =>
    right
    refine ⟨?_, rfl⟩
    intro i e he hk
    obtain ⟨f, hf, rfl⟩ := entry_of_held he
    have hmem : f ∈ sorted := hperm.mem_iff.2 (mem_entries.2 ⟨i, hf⟩)
    have hnot := List.find?_eq_none.1 hfind f hmem
    exact hnot (decide_eq_true hk)
  | some f =>
    left
    have hmem := mem_entries.1 (hperm.mem_iff.1 (List.mem_of_find?_eq_some hfind))
    obtain ⟨i, hf⟩ := hmem
    have he : s.held i = some f.state := by simp [KeyedWindowStage.held, hf]
    have hfound := List.find?_some hfind
    have hk : f.key = k := by simpa using hfound
    exact ⟨i, f.state, he, hk, rfl⟩

/-- `flush` flushes what is held of the key. -/
theorem Each.flush (hI : Core.Lasting policy max_items late I) (h : Each I policy s k arrived out)
    (hs : Sound s order policy anchor) :
    I arrived (out ++ forKey k (s.flush now Emitting.emit).out) (Core.new policy) := by
  rcases flush_forKey hs.coherent k now with ⟨i, e, he, hk, hout⟩ | ⟨hnone, hout⟩
  · rw [hout]
    exact hI.on_flush (hs.fits i e he) (h.held i e he hk)
  · rw [hout, List.append_nil]
    exact h.absent hnone

theorem trace_append {key_fn : T → φ → K × φ} {a b : List (WindowEvent T)}
    (h : s.after key_fn a = some t) :
    s.trace key_fn (a ++ b) = s.trace key_fn a ++ t.trace key_fn b := by
  induction a generalizing s with
  | nil =>
    cases h
    rfl
  | cons event a ih =>
    rw [after] at h
    obtain ⟨u, hval, hafter⟩ := Option.bind_eq_some_iff.1 h
    simp only [List.cons_append, trace, hval, Option.map_some, Option.getD_some, ih hafter]

/-- A run that ends with a flush. -/
theorem trace_flush {key_fn : T → φ → K × φ} {events : List (WindowEvent T)} {now : Reading}
    (h : s.after key_fn events = some t) :
    (s.trace key_fn (events ++ [(.flush, now)])).flatten =
      (s.trace key_fn events).flatten ++ (t.flush now.1 Emitting.emit).out := by
  rw [trace_append h, List.flatten_append]
  simp only [trace, KeyedWindowStage.step, Emitting.map_val, Emitting.map_out, Option.map_some,
    Option.getD_some, List.flatten_cons, List.flatten_nil, List.append_nil]

/-- What holds of every core holds of every key over a whole run. -/
theorem Lasting.keyed {spec : WindowSpec} (hspec : spec.check = .ok ())
    (hI : Core.Lasting spec.policy (limit_or_max spec.max_items) late I) (key_fn : T → φ → K × φ)
    (key_state : φ) (events : List (WindowEvent T)) (now : Reading) (k : K)
    (hcalls : ∀ event ∈ events, event.1 ≠ .flush)
    (hintime : (new spec key_state).AllInTime late key_fn k events) :
    I (items_of key_fn k key_state events)
      (forKey k ((new spec key_state).trace key_fn (events ++ [(.flush, now)])).flatten)
      (Core.new spec.policy) := by
  have hnew : Each I spec.policy (new spec key_state : KeyedWindowStage K T φ) k [] [] := by
    refine ⟨fun i e he => ?_, fun _ => hI.start⟩
    simp [new, held, entry] at he
  obtain ⟨s', order', hafter, hrun, hpolicy, heach⟩ :=
    hnew.run hI (new_running hspec key_state) ⟨rfl, rfl⟩ key_fn events hcalls hintime
  have hsound := hrun.sound
  rw [hpolicy] at hsound
  have hflush : I _ (_ ++ forKey k (s'.flush now.1 Emitting.emit).out) _ := heach.flush hI hsound
  rw [trace_flush hafter, forKey_append]
  exact hflush

end

end KeyedWindowStage

end PipeIo
