import PipeIo.KeyedRun

namespace PipeIo
set_option autoImplicit true

open Lib

/-- A window that should have been emitted by `now` is still held. -/
def Core.Overdue [Timeline] (now : Nat) : Core T → Prop
  | .tumbling size start items => items ≠ [] ∧
    ∃ s e, start = some s ∧ checked_add s size = some e ∧ e ≤ now
  | .sliding _ _ slots => ∃ s ∈ slots, s.items ≠ [] ∧ ∃ e, s.end = some e ∧ e ≤ now
  | .session idle _ last items => items ≠ [] ∧ ∃ l, last = some l ∧ idle < now - l

section

variable [Timeline] {T : Type} {c : Core T} {policy : WindowPolicy} {anchor now : Nat}

theorem Core.Fresh.not_overdue (h : c.Fresh now) (hf : c.Fits policy anchor) (hv : policy.Valid)
    (hn : now ≤ Timeline.horizon) : ¬c.Overdue now := by
  cases c with
  | tumbling size start items =>
    rintro ⟨-, s, e, rfl, he, hle⟩
    obtain ⟨hrep, rfl⟩ := checked_add_eq_some.1 he
    have := Core.tumbling_fresh.1 h s rfl hrep
    omega
  | session idle start last items =>
    rintro ⟨-, l, rfl, hlt⟩
    have := (Core.session_fresh hn).1 h l rfl
    omega
  | sliding size slide slots =>
    obtain ⟨rfl, hg⟩ := hf
    obtain ⟨hs, hslide, -⟩ := hv
    rintro ⟨s, hmem, -, e, he, hle⟩
    have hk := (hg.fresh_iff hs (by omega) hn).1 h s hmem
    rw [k_min_le hs] at hk
    rw [hg.stop s hmem, hg.start s hmem] at he
    obtain ⟨-, rfl⟩ := checked_add_eq_some.1 he
    omega

end

namespace KeyedWindowStage

variable [Timeline] {K T φ : Type} [DecidableEq K] {s s' : KeyedWindowStage K T φ}
  {order : List Nat}

/-- After an event nothing that is kept has expired. -/
theorem Running.fresh (h : Running s order) (key_fn : T → φ → K × φ) (event : WindowEvent T)
    (hval : (s.step key_fn event).val = some s') :
    ∀ i e, s'.held i = some e → e.core.Fresh event.2 := by
  obtain ⟨call, now, hn⟩ := event
  cases call with
  | item item =>
    obtain ⟨hsound, ha⟩ := h.origin hn
    obtain ⟨t, u, v, order', slot, e, _, _, _, hval', -, hproc⟩ :=
      process_spec key_fn item hsound ha h.max_keys h.valid hn
    rw [show (s.step key_fn (.item item, ⟨now, hn⟩)).val = some t from hval'] at hval
    cases hval
    have hnew : (Core.new s.policy : Core T).Fresh now := by
      cases s.policy <;> exact nofun
    exact hproc.cores (fun i e he => hproc.expire.sound.fresh hproc.expire.heap he) hnew
      (fun _ => id) fun c hc _ => Core.fresh_on_item hc h.valid ha hn item
  | tick =>
    cases hanchor : s.anchor with
    | none =>
      simp only [KeyedWindowStage.step, tick, hanchor, Emitting.pure_val, Option.some.injEq] at hval
      subst hval
      intro i e he
      rw [h.held_none hanchor i] at he
      cases he
    | some anchor =>
      have hsound := h.sound
      have ha := h.anchor
      rw [hanchor] at hsound ha
      obtain ⟨t, hval', hexp⟩ := tick_spec hsound hanchor ha h.valid hn
      rw [show (s.step key_fn (.tick, ⟨now, hn⟩)).val = some t from hval'] at hval
      cases hval
      exact fun i e he => hexp.sound.fresh hexp.heap he
  | flush =>
    cases hval
    intro i e he
    simp [flush, held, entry] at he

/-- The stage after an event at `now`: no key is left with a window that should have been
emitted, a core that `on_tick` or `on_item` examines has no deadline that has passed, and `schedule`
has never fallen back on the next instant. -/
structure Timely (s : KeyedWindowStage K T φ) (now : Nat) : Prop where
  visited : ∀ key slot, s.index.lookup key = some slot →
    ∃ f, s.entry slot = some f ∧ f.key = key ∧ ¬f.core.Overdue now
  examined : ∀ slot f anchor, s.entry slot = some f → s.anchor = some anchor → ∀ now : Reading,
    (f.core.on_tick anchor now.1 Emitting.emit).val.Fresh now.1 ∧ ∀ item,
      (f.core.on_item s.max_items anchor now.1 item Emitting.emit).val.Fresh now.1
  fallbacks : s.fallbacks = 0

/-- Expiry is timely: the loop in `expire` ends at every event, and every window that has expired
is out by then. -/
theorem expiry_timely {spec : WindowSpec} (hspec : spec.check = .ok ()) (key_fn : T → φ → K × φ)
    (key_state : φ) (events : List (WindowEvent T)) (event : WindowEvent T) :
    ∃ s s' : KeyedWindowStage K T φ, (new spec key_state).after key_fn events = some s ∧
      (s.step key_fn event).val = some s' ∧ s'.Timely event.2 := by
  obtain ⟨s, order, hafter, hrun, -⟩ := (new_running hspec key_state).after key_fn events
  obtain ⟨s', order', hval, hrun', -⟩ := hrun.step key_fn event
  have hfresh := hrun.fresh key_fn event hval
  refine ⟨s, s', hafter, hval, fun key slot hk => ?_, fun slot f anchor hf hanchor now => ?_,
    hrun'.fallbacks⟩
  · obtain ⟨e, he, hkey⟩ := (hrun'.sound.coherent.indexed key slot).1 hk
    obtain ⟨f, hf, rfl⟩ := entry_of_held he
    exact ⟨f, hf, hkey, (hfresh slot _ he).not_overdue (hrun'.sound.fits slot _ he) hrun'.valid
      event.2.2⟩
  · have he : s'.held slot = some f.state := by simp [held, hf]
    have hfits := hrun'.sound.fits slot _ he
    have ha := hrun'.anchor
    rw [hanchor] at hfits ha
    exact ⟨Core.fresh_on_tick hfits hrun'.valid ha now.2,
      fun item => Core.fresh_on_item hfits hrun'.valid ha now.2 item⟩

end KeyedWindowStage

namespace KeyedWindowStage

theorem expiry_timely_tumbling : ∃ s s' : @KeyedWindowStage Nat Nat Unit,
    (@after smallTimeline _ _ _ _ (new ⟨.tumbling 10, some 2, some 1⟩ ()) (fun v u => (v % 2, u))
      [(.item 0, ⟨3, by decide⟩), (.item 1, ⟨5, by decide⟩)]) = some s ∧
      (@step smallTimeline _ _ _ _ s (fun v u => (v % 2, u)) (.tick, ⟨13, by decide⟩)).val = some s' ∧
      @Timely smallTimeline _ _ _ _ s' 13 :=
  @expiry_timely smallTimeline Nat Nat Unit _ ⟨.tumbling 10, some 2, some 1⟩ rfl
    (fun v u => (v % 2, u)) () [(.item 0, ⟨3, by decide⟩), (.item 1, ⟨5, by decide⟩)]
    (.tick, ⟨13, by decide⟩)

end KeyedWindowStage

end PipeIo
