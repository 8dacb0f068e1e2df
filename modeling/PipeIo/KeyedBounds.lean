import PipeIo.WindowBounds
import PipeIo.KeyedRun

namespace PipeIo
set_option autoImplicit true

open Lib

namespace KeyedWindowStage

section

variable [Timeline] {K T φ : Type} [DecidableEq K] {s s' : KeyedWindowStage K T φ}
  {order : List Nat} {last : Nat}

/-- Every core is bounded, as of the last event. -/
def BoundedAt (last : Nat) (s : KeyedWindowStage K T φ) : Prop :=
  0 < s.max_items ∧ ∀ i e, s.held i = some e →
    e.core.Bounded s.max_items (s.anchor.getD 0) last

theorem BoundedAt.step (key_fn : T → φ → K × φ) (event : WindowEvent T) (h : Running s order)
    (hb : s.BoundedAt last) (hlast : last ≤ event.2.1)
    (hval : (s.step key_fn event).val = some s') : s'.BoundedAt event.2.1 := by
  obtain ⟨call, now, hn⟩ := event
  obtain ⟨hm, hb⟩ := hb
  cases call with
  | item item =>
    obtain ⟨hsound, ha⟩ := h.origin hn
    obtain ⟨t, u, v, order', slot, e, _, _, _, hval', -, hproc⟩ :=
      process_spec key_fn item hsound ha h.max_keys h.valid hn
    rw [show (s.step key_fn (.item item, ⟨now, hn⟩)).val = some t from hval'] at hval
    cases hval
    obtain ⟨hconfig, hv, -, -⟩ := hproc.config
    rw [hconfig] at hv
    simp only [config, Prod.mk.injEq] at hconfig hv
    obtain ⟨-, hitems, -, -, hanchor⟩ := hconfig
    have hbefore : ∀ i e, s.held i = some e →
        e.core.Bounded s.max_items (s.anchor.getD (grid_origin s.policy now)) last := by
      intro i e he
      have := hb i e he
      cases hs : s.anchor with
      | none =>
        rw [h.held_none hs i] at he
        cases he
      | some anchor =>
        rw [hs] at this
        exact this
    refine ⟨by rw [hitems]; exact hm, ?_⟩
    rw [hitems, hanchor]
    refine hproc.cores (hproc.expire.cores ⟨⟨hsound.coherent.linked, hsound.coherent.occupied,
      hsound.coherent.indexed, hsound.coherent.free_nodup, hsound.coherent.vacant,
      hsound.coherent.sorted, hsound.coherent.armed⟩, hsound.covered, hsound.fits⟩ hbefore
      fun c _ hc => Core.bounded_on_tick hc hlast hm) (Core.bounded_new _ hm) (fun _ => id) ?_
    intro c hc hbc
    rw [hv.2.1]
    exact Core.bounded_on_item hbc (Nat.le_refl _) hc h.valid ha hn hm item
  | tick =>
    cases hanchor : s.anchor with
    | none =>
      simp only [KeyedWindowStage.step, tick, hanchor, Emitting.pure_val, Option.some.injEq] at hval
      subst hval
      refine ⟨hm, fun i e he => ?_⟩
      rw [h.held_none hanchor i] at he
      cases he
    | some anchor =>
      have hsound := h.sound
      have ha := h.anchor
      rw [hanchor] at hsound ha hb
      obtain ⟨t, hval', hexp⟩ := tick_spec hsound hanchor ha h.valid hn
      rw [show (s.step key_fn (.tick, ⟨now, hn⟩)).val = some t from hval'] at hval
      cases hval
      have hconfig := hexp.undisturbed.config
      simp only [config, Prod.mk.injEq] at hconfig
      obtain ⟨-, hitems, -, -, hsame⟩ := hconfig
      refine ⟨by rw [hitems]; exact hm, ?_⟩
      rw [hitems, hsame, hanchor]
      exact hexp.cores hsound hb fun c _ hc => Core.bounded_on_tick hc hlast hm
  | flush =>
    cases hval
    refine ⟨hm, fun i e he => ?_⟩
    simp [flush, held, entry] at he

/-- The memory of keyed windows is bounded by the key limit `M` and the item limit `C`. -/
theorem memory_bounded {spec : WindowSpec} (hspec : spec.check = .ok ()) {M C : Nat}
    (hM : spec.max_keys = some M) (hC : spec.max_items = some C) (key_fn : T → φ → K × φ)
    (key_state : φ) (events : List (WindowEvent T)) (hmono : NonDecreasing events) :
    ∃ s : KeyedWindowStage K T φ, (new spec key_state).after key_fn events = some s ∧
      s.index.keys.length ≤ M ∧ s.slab.length ≤ M ∧ s.heap.length ≤ 2 * M + 64 ∧
      ∀ slot f, s.entry slot = some f → f.core.Within (C - 1) := by
  obtain ⟨-, hitems, hkeys⟩ := WindowSpec.check_ok.1 hspec
  have hstart : (new spec key_state : KeyedWindowStage K T φ).BoundedAt 0 := by
    refine ⟨Nat.lt_of_lt_of_le Nat.one_pos (Nat.le_max_right ..), fun i e he => ?_⟩
    simp [new, held, entry] at he
  obtain ⟨s, order, last, hafter, hrun, ⟨-, hb⟩, -, -, hconfig⟩ :=
    (new_running hspec key_state).after_forward key_fn
      (fun _ _ _ event _ h hb hlast hval => BoundedAt.step key_fn event h hb hlast hval) hstart events
      hmono fun _ _ => Nat.zero_le _
  simp only [new, Prod.mk.injEq, hM, hC, limit_or_max, Option.getD_some] at hconfig
  obtain ⟨-, hmax_items, hmax_keys⟩ := hconfig
  have hM0 : M ≠ 0 := fun h => hkeys (by rw [hM, h])
  have hC0 : C ≠ 0 := fun h => hitems (by rw [hC, h])
  have h1 := hrun.keys
  have h2 := hrun.slab
  have h3 := hrun.heap
  refine ⟨s, hafter, ?_, by omega, by omega, fun slot f hf => ?_⟩
  · rw [hrun.sound.coherent.index_length]
    omega
  · have he : s.held slot = some f.state := by simp [held, hf]
    have hbound := hb slot _ he
    rw [show s.max_items = C by omega] at hbound
    exact hbound.within (hrun.sound.fits slot _ he) hrun.valid

end

theorem memory_bounded_sliding : ∃ s : KeyedWindowStage Nat Nat Unit,
    @after smallTimeline _ _ _ _ (new ⟨.sliding 10 4, some 2, some 1⟩ ()) (fun v u => (v % 2, u))
      [(.item 0, ⟨3, by decide⟩), (.item 1, ⟨5, by decide⟩)] = some s ∧
      s.index.keys.length ≤ 1 ∧ s.slab.length ≤ 1 ∧ s.heap.length ≤ 2 * 1 + 64 ∧
      ∀ slot f, s.entry slot = some f → f.core.Within 1 :=
  @memory_bounded smallTimeline Nat Nat Unit _ ⟨.sliding 10 4, some 2, some 1⟩ rfl 1 2 rfl rfl
    (fun v u => (v % 2, u)) () [(.item 0, ⟨3, by decide⟩), (.item 1, ⟨5, by decide⟩)]
    (by simp [NonDecreasing])

end KeyedWindowStage

end PipeIo
