import PipeIo.WindowCore

namespace PipeIo
set_option autoImplicit true

open Lib

variable [Timeline] {T : Type} {max_items anchor : Nat}

namespace Core

/-- One event at a core whose grid begins at `anchor`. -/
def step (max_items anchor : Nat) (c : Core T) : WindowEvent T → Emitting (Window T) (Core T)
  | (.item item, now) => c.on_item max_items anchor now item Emitting.emit
  | (.tick, now) => c.on_tick anchor now Emitting.emit
  | (.flush, now) => c.on_flush now Emitting.emit

def run (max_items anchor : Nat) (c : Core T) : List (WindowEvent T) → Emitting (Window T) (Core T)
  | [] => pure c
  | event :: events => do
    let c ← c.step max_items anchor event
    c.run max_items anchor events

omit [Timeline] in
@[simp] theorem new_on_tick [Timeline] (policy : WindowPolicy) (anchor now : Nat) :
    (new policy : Core T).on_tick anchor now Emitting.emit = pure (new policy) := by
  cases policy with
  | tumbling size => rfl
  | sliding size slide => rfl
  | session idle => rfl

omit [Timeline] in
@[simp] theorem new_on_flush [Timeline] (policy : WindowPolicy) (now : Nat) :
    (new policy : Core T).on_flush now Emitting.emit = pure (new policy) := by
  cases policy with
  | tumbling size => rfl
  | sliding size slide => rfl
  | session idle => rfl

theorem run_append (c : Core T) (a b : List (WindowEvent T)) :
    c.run max_items anchor (a ++ b) =
      c.run max_items anchor a >>= fun c => c.run max_items anchor b := by
  induction a generalizing c with
  | nil => rw [List.nil_append, run, pure_bind]
  | cons event a ih =>
    rw [List.cons_append, run, run, bind_assoc]
    exact congrArg _ (funext ih)

/-- What the items and ticks of a run preserve holds at its end. `rel` is what the clock
promises. -/
theorem run_induct {rel : Nat → Nat → Prop}
    {P : List (T × Nat) → Nat → List (Window T) → Core T → Prop}
    (hitem : ∀ arrived last out (c : Core T) item now, rel last now → now ≤ Timeline.horizon →
      P arrived last out c → P (arrived ++ [(item, now)]) now
        (out ++ (c.on_item max_items anchor now item Emitting.emit).out)
        (c.on_item max_items anchor now item Emitting.emit).val)
    (htick : ∀ arrived last out (c : Core T) now, rel last now → now ≤ Timeline.horizon →
      P arrived last out c → P arrived now (out ++ (c.on_tick anchor now Emitting.emit).out)
        (c.on_tick anchor now Emitting.emit).val)
    {arrived : List (T × Nat)} {last : Nat} {out : List (Window T)} {c : Core T}
    (h : P arrived last out c) (events : List (WindowEvent T))
    (hcalls : ∀ event ∈ events, event.1 ≠ .flush) (hclock : events.Pairwise fun a b => rel a.2 b.2)
    (hlast : ∀ event ∈ events, rel last event.2) :
    ∃ last', P (arrived ++ arrivals events) last' (out ++ (c.run max_items anchor events).out)
        (c.run max_items anchor events).val ∧
      (last' = last ∨ ∃ event ∈ events, last' = event.2.1) := by
  induction events generalizing arrived last out c with
  | nil =>
    refine ⟨last, ?_, .inl rfl⟩
    rw [run, Emitting.pure_out, Emitting.pure_val, List.append_nil]
    exact (List.append_nil arrived).symm ▸ h
  | cons event events ih =>
    obtain ⟨hmono, hrest⟩ := List.pairwise_cons.1 hclock
    have hcalls' := fun e he => hcalls e (List.mem_cons_of_mem event he)
    have hnow := hlast event List.mem_cons_self
    obtain ⟨call, now⟩ := event
    have hwhen : ∀ {last'}, (last' = now.1 ∨ ∃ e ∈ events, last' = e.2.1) →
        last' = last ∨ ∃ e ∈ (call, now) :: events, last' = e.2.1 := by
      rintro last' (rfl | ⟨e, he, rfl⟩)
      · exact .inr ⟨_, List.mem_cons_self, rfl⟩
      · exact .inr ⟨e, List.mem_cons_of_mem _ he, rfl⟩
    rw [run, Emitting.bind_out, Emitting.bind_val, ← List.append_assoc]
    cases call with
    | item item =>
      obtain ⟨last', hP, hlast'⟩ := ih (hitem arrived last out c item now hnow now.2 h) hcalls' hrest
        hmono
      refine ⟨last', ?_, hwhen hlast'⟩
      rw [List.append_assoc] at hP
      exact hP
    | tick =>
      obtain ⟨last', hP, hlast'⟩ := ih (htick arrived last out c now hnow now.2 h) hcalls' hrest hmono
      exact ⟨last', hP, hwhen hlast'⟩
    | flush => exact absurd rfl (hcalls _ List.mem_cons_self)

end Core

namespace WindowStage

/-- With its grid fixed, the stage does what its core does. -/
theorem run_anchored (events : List (WindowEvent T)) (s : WindowStage T)
    (ha : s.anchor = some anchor) :
    (s.run events).out = (s.core.run s.max_items anchor events).out := by
  induction events generalizing s with
  | nil => rfl
  | cons event events ih =>
    have hstep : s.step event = (fun core => { s with core := core }) <$>
        s.core.step s.max_items anchor event := by
      obtain ⟨call, now⟩ := event
      obtain ⟨policy, m, _, core⟩ := s
      cases ha
      cases call with
      | item item => rfl
      | tick => rfl
      | flush => rfl
    rw [run, Core.run, Emitting.bind_out, Emitting.bind_out, hstep, Emitting.map_out,
      Emitting.map_val]
    exact congrArg _ (ih _ ha)

/-- Before its first item the stage does nothing. -/
theorem run_core (spec : WindowSpec) (events : List (WindowEvent T)) :
    ((new spec).run events).out =
      ((Core.new spec.policy : Core T).run (limit_or_max spec.max_items)
        (origin spec.policy (arrivals events)) events).out := by
  induction events with
  | nil => rfl
  | cons event events ih =>
    obtain ⟨call, now⟩ := event
    cases call with
    | item item =>
      rw [run, Core.run, Emitting.bind_out, Emitting.bind_out]
      have hstep : (new spec).step (.item item, now) = (fun core =>
          { (new spec : WindowStage T) with
            anchor := some (grid_origin spec.policy now.1), core := core }) <$>
          (Core.new spec.policy : Core T).step (limit_or_max spec.max_items)
            (grid_origin spec.policy now.1) (.item item, now) := rfl
      rw [hstep, Emitting.map_out, Emitting.map_val, run_anchored events _ rfl]
      rfl
    | tick =>
      rw [run, Core.run, Emitting.bind_out, Emitting.bind_out, Core.step, Core.new_on_tick]
      exact ih
    | flush =>
      have hflush : (new spec : WindowStage T).step (.flush, now) = pure (new spec) := by
        simp only [step, flush, new, Core.new_on_flush, pure_bind]
      rw [run, Core.run, Emitting.bind_out, Emitting.bind_out, Core.step, Core.new_on_flush, hflush]
      exact ih

theorem arrivals_sorted {events : List (WindowEvent T)} (h : NonDecreasing events) :
    (arrivals events).Pairwise fun a b => a.2 ≤ b.2 := by
  rw [arrivals, List.pairwise_filterMap]
  apply h.imp
  intro e f hle a ha b hb
  obtain ⟨call, now⟩ := e
  obtain ⟨call', now'⟩ := f
  cases call with
  | item item =>
    cases call' with
    | item item' =>
      cases ha
      cases hb
      exact hle
    | tick => cases hb
    | flush => cases hb
  | tick => cases ha
  | flush => cases ha

/-- Everything arrives after the first item. -/
theorem first_le {events : List (WindowEvent T)} (h : NonDecreasing events) :
    ∀ a ∈ arrivals events, ((arrivals events).head?.map Prod.snd).getD 0 ≤ a.2 := by
  have hsorted := arrivals_sorted h
  intro a ha
  cases harrivals : arrivals events with
  | nil => exact Nat.zero_le _
  | cons first rest =>
    rw [harrivals] at hsorted ha
    cases ha with
    | head => exact Nat.le_refl _
    | tail _ ha => exact (List.pairwise_cons.1 hsorted).1 a ha

/-- What the items and ticks of a run preserve holds before the flush at its end. -/
theorem run_flushed (spec : WindowSpec) (rel : Nat → Nat → Prop)
    (P : List (T × Nat) → Nat → List (Window T) → Core T → Prop)
    (events : List (WindowEvent T)) (now : Reading)
    (hitem : ∀ arrived last out (c : Core T) item now, rel last now → now ≤ Timeline.horizon →
      P arrived last out c → P (arrived ++ [(item, now)]) now
        (out ++ (c.on_item (limit_or_max spec.max_items) (origin spec.policy (arrivals events)) now
          item Emitting.emit).out)
        (c.on_item (limit_or_max spec.max_items) (origin spec.policy (arrivals events)) now item
          Emitting.emit).val)
    (htick : ∀ arrived last out (c : Core T) now, rel last now → now ≤ Timeline.horizon →
      P arrived last out c → P arrived now
        (out ++ (c.on_tick (origin spec.policy (arrivals events)) now Emitting.emit).out)
        (c.on_tick (origin spec.policy (arrivals events)) now Emitting.emit).val)
    (h : P [] 0 [] (Core.new spec.policy)) (hcalls : ∀ event ∈ events, event.1 ≠ .flush)
    (hclock : events.Pairwise fun a b => rel a.2 b.2) (hstart : ∀ event ∈ events, rel 0 event.2) :
    ∃ last out c, P (arrivals events) last out c ∧
      ((new spec).run (events ++ [(.flush, now)])).out =
        out ++ (c.on_flush now.1 Emitting.emit : Emitting (Window T) (Core T)).out ∧
      (last = 0 ∨ ∃ event ∈ events, last = event.2.1) := by
  obtain ⟨last, hP, hlast⟩ := Core.run_induct hitem htick h events hcalls hclock hstart
  refine ⟨last, _, _, hP, ?_, hlast⟩
  have harrivals : arrivals (events ++ [(.flush, now)]) = arrivals events := by
    simp [arrivals]
  rw [run_core, harrivals, Core.run_append, Emitting.bind_out]
  exact congrArg _ (List.append_nil _)

end WindowStage

end PipeIo
