import PipeIo.BuilderConfig
import PipeIo.Course

namespace PipeIo
set_option autoImplicit true

open Lib

/-- The error of a call that starts the run, or comes after one that did. -/
def refusal (e : ConfigError) (refused : Bool) : Error := if refused then .closed else .config e

/-- The answer of a pipeline with an invalid configuration. -/
def Call.refusal (e : ConfigError) (refused : Bool) : Call → Outcome Unit
  | .cancel_handle => .ok ()
  | .step | .tick => .err (PipeIo.refusal e refused)

def LastCall.refusal (e : ConfigError) (refused : Bool) : LastCall → Outcome Unit
  | .drop => .ok ()
  | .finish | .run _ | .run_threaded => .err (PipeIo.refusal e refused)

/-- Whether a call that starts the run has been made, after the call. -/
def Call.refuses (refused : Bool) : Call → Bool
  | .cancel_handle => refused
  | .step | .tick => true

/-- The answers of a pipeline with an invalid configuration to the calls of its owner: the first
one that starts the run is told the error, every later one that it is closed. -/
def refusals (e : ConfigError) (l : LastCall) :
    (refused : Bool) → List Call → List (Outcome Unit) × Option (Outcome Unit)
  | refused, [] => ([], some (l.refusal e refused))
  | refused, x :: xs =>
    let (answers, last) := refusals e l (x.refuses refused) xs
    (x.refusal e refused :: answers, last)

/-- The cancellation flag is asked, and nothing else. -/
def polling : Spec (Eff X Y) Ans Unit where
  pre e _ := e = .isCancelled
  post _ _ _ _ := True

def Log.polls (log : Log X Y) : Prop := ∀ a ∈ log, a.1 = .isCancelled

theorem Oracle.keeps_polling (o : Oracle X Y) :
    Prog.Keeps polling (fun log _ => Log.polls log) o.handler := by
  rintro e log _ hlog rfl
  refine ⟨(), trivial, ?_⟩
  intro a ha
  rcases List.mem_append.1 ha with ha | ha
  · exact hlog a ha
  · rw [List.mem_singleton.1 ha]

/-- A pipeline with an invalid configuration; `refused` once a call has started it. -/
structure Refusing (e : ConfigError) (refused : Bool) (p : Pipeline σ) : Prop where
  config_error : p.config_error = some e
  in_call : p.in_call = false
  state : if refused then p.state = .ended .default false else ∃ b, p.state = .built b

section Refusing

variable {X Y : Type} {c : StageFn X Y X} {e : ConfigError} {refused : Bool} {p : Pipeline c.σ}

theorem wp_polled {armed : Bool} {Q : Res H Bool → σ → Unit → Prop} {s : σ}
    (hQ : ∀ b, Q (.ok b) s ()) :
    Act.wp (polling (X := X) (Y := Y)) (is_cancelled armed) Q s () := by
  cases armed with
  | false => exact hQ false
  | true => exact ⟨rfl, fun b _ _ => hQ b⟩

theorem Refusing.wp_ensure_started (h : Refusing e refused p)
    {Q : Res Error Unit → Pipeline c.σ → Unit → Prop} (hgo : refused = true → Q (.ok ()) p ())
    (hstop : refused = false →
      Q (.halt (.config e)) { p with state := .ended .default false } ()) :
    Act.wp polling (Pipeline.ensure_started c) Q p () := by
  have hstate := h.state
  simp only [Pipeline.ensure_started, Act.wp_bind, Act.wp_get, Act.next_ok]
  cases refused with
  | true =>
    have hended : p.state = .ended .default false := hstate
    rw [hended]
    exact hgo rfl
  | false =>
    obtain ⟨b, hbuilt⟩ : ∃ b, p.state = .built b := hstate
    simp only [hbuilt, h.config_error, Act.wp_bind, Pipeline.take_built, Act.wp_get, Act.next_ok,
      Pipeline.setState, Act.wp_modify, Act.wp_halt, Act.next_halt]
    have hq := hstop rfl
    rwa [h.config_error] at hq

theorem Refusing.ended (h : Refusing e refused p) :
    Refusing e true ({ p with state := .ended .default false } : Pipeline c.σ) :=
  ⟨h.config_error, h.in_call, rfl⟩

/-- A call that starts the run with `rest` of it refusing what has ended. -/
theorem Refusing.wp_started (h : Refusing e refused p) {α : Type}
    {rest : Code X Y Error (Pipeline c.σ) α} {Q : Res Error α → Pipeline c.σ → Unit → Prop}
    (hrest : refused = true → Act.wp polling rest Q p ())
    (hstop : refused = false →
      Q (.halt (.config e)) { p with state := .ended .default false } ()) :
    Act.wp polling (do
      Pipeline.ensure_started c
      Pipeline.check_poisoned c
      rest) Q p () := by
  rw [Act.wp_bind]
  apply h.wp_ensure_started
  · intro hr
    rw [Act.next_ok, Act.wp_bind]
    simp only [Pipeline.check_poisoned, Act.wp_bind, Act.wp_get, Act.next_ok, h.in_call,
      Bool.false_eq_true, if_false, Act.wp_pure]
    exact hrest hr
  · exact hstop

theorem Refusing.wp_call (h : Refusing e refused p) (x : Call) :
    Act.wp polling (Pipeline.call c x) (fun res p' _ =>
      res = .ok (x.refusal e refused) ∧ Refusing e (x.refuses refused) p') p () := by
  cases x with
  | cancel_handle => exact ⟨rfl, h.config_error, h.in_call, h.state⟩
  | step =>
    refine wp_caught.2 ((Act.wp_bind ..).2 (h.wp_started ?_ ?_))
    · rintro rfl
      have hended : p.state = .ended .default false := h.state
      simp only [Act.wp_bind, Act.wp_get, Act.next_ok]
      apply wp_polled
      intro cancelled
      simp only [Act.next_ok, hended]
      exact ⟨rfl, h⟩
    · rintro rfl
      exact ⟨rfl, h.ended⟩
  | tick =>
    refine wp_caught.2 (h.wp_started ?_ ?_)
    · rintro rfl
      have hended : p.state = .ended .default false := h.state
      simp only [Act.wp_bind, Act.wp_get, Act.next_ok, hended]
      exact ⟨rfl, h⟩
    · rintro rfl
      exact ⟨rfl, h.ended⟩

/-- Nothing is left to drop. -/
theorem Refusing.wp_drop (h : Refusing e refused p) {Q : Res Empty Unit → Pipeline c.σ → Unit → Prop}
    (hQ : Q (.ok ()) p ()) : Act.wp polling (Pipeline.drop c) Q p () := by
  have hstate := h.state
  simp only [Pipeline.drop, Act.wp_bind, Act.wp_get, Act.next_ok]
  cases refused with
  | true =>
    have hended : p.state = .ended .default false := hstate
    rw [hended]
    exact hQ
  | false =>
    obtain ⟨b, hbuilt⟩ : ∃ b, p.state = .built b := hstate
    rw [hbuilt]
    exact hQ

theorem Refusing.wp_finish (h : Refusing e refused p) :
    Act.wp polling (Pipeline.finish c)
      (fun res p' _ => res = .halt (refusal e refused) ∧ Refusing e true p') p () := by
  simp only [Pipeline.finish, Act.wp_bind, Act.wp_get, Act.next_ok]
  have hstate := h.state
  cases refused with
  | true =>
    have hended : p.state = .ended .default false := hstate
    rw [hended]
    exact ⟨rfl, h⟩
  | false =>
    obtain ⟨b, hbuilt⟩ : ∃ b, p.state = .built b := hstate
    rw [hbuilt]
    exact h.wp_started (fun hr => absurd hr Bool.false_ne_true) fun _ => ⟨rfl, h.ended⟩

theorem Refusing.wp_run_sync (h : Refusing e refused p) (fuel : Nat) :
    Act.wp polling (Pipeline.run_sync c fuel)
      (fun res p' _ => res = .halt (refusal e refused) ∧ Refusing e true p') p () := by
  simp only [Pipeline.run_sync, Act.wp_bind]
  apply h.wp_ensure_started
  · rintro rfl
    have hended : p.state = .ended .default false := h.state
    simp only [Act.next_ok, Act.wp_bind, Act.wp_get, hended]
    exact ⟨rfl, h⟩
  · rintro rfl
    exact ⟨rfl, h.ended⟩

theorem Refusing.wp_take_built (h : Refusing e refused p) :
    Act.wp (polling (X := X) (Y := Y)) Pipeline.take_built
      (fun res p' _ => res = .halt (refusal e refused) ∧ Refusing e true p') p () := by
  simp only [Pipeline.take_built, Act.wp_bind, Act.wp_get, Act.next_ok]
  have hstate := h.state
  cases refused with
  | true =>
    have hended : p.state = .ended .default false := hstate
    rw [hended]
    exact ⟨rfl, h⟩
  | false =>
    obtain ⟨b, hbuilt⟩ : ∃ b, p.state = .built b := hstate
    rw [hbuilt, h.config_error]
    exact ⟨rfl, h.ended⟩

/-- A consuming call that fails drops what is left of the pipeline. -/
theorem Refusing.wp_consumed (h : Refusing e refused p) {o : Outcome Unit} :
    Act.wp polling (do
      Pipeline.drop c
      pure (some o)) (fun (res : Res Empty (Option (Outcome Unit))) _ _ => res = .ok (some o))
      p () := by
  rw [Act.wp_bind]
  apply h.wp_drop
  rfl

theorem Refusing.wp_last (h : Refusing e refused p) (l : LastCall) :
    Act.wp polling (Pipeline.last c l)
      (fun res _ _ => res = .ok (some (l.refusal e refused))) p () := by
  cases l with
  | drop =>
    rw [Pipeline.last, Act.wp_bind]
    apply h.wp_drop
    rfl
  | finish =>
    rw [Pipeline.last, Act.wp_bind]
    refine wp_caught.2 ((Act.wp_bind ..).2 (Act.wp_mono h.wp_finish ?_))
    rintro res p' _ ⟨rfl, h'⟩
    exact h'.wp_consumed
  | run fuel =>
    rw [Pipeline.last, Act.wp_bind]
    refine wp_caught.2 (Act.wp_mono (h.wp_run_sync fuel) ?_)
    rintro res p' _ ⟨rfl, h'⟩
    exact h'.wp_consumed
  | run_threaded =>
    rw [Pipeline.last, Act.wp_bind]
    refine wp_caught.2 (Act.wp_mono h.wp_take_built ?_)
    rintro res p' _ ⟨rfl, h'⟩
    exact h'.wp_consumed

theorem Refusing.wp_session (h : Refusing e refused p) (xs : List Call) (l : LastCall) :
    Act.wp polling (Pipeline.session c xs l)
      (fun res _ _ => res = .ok (refusals e l refused xs)) p () := by
  induction xs generalizing refused p with
  | nil =>
    simp only [Pipeline.session, Pipeline.calls, Act.wp_bind, Act.wp_pure, Act.next_ok]
    refine Act.wp_mono (h.wp_last l) ?_
    rintro res p' _ rfl
    rfl
  | cons x xs ih =>
    have hsession : Pipeline.session c (x :: xs) l = (do
        let r ← Pipeline.call c x
        let (rs, last) ← Pipeline.session c xs l
        pure (r :: rs, last)) := by
      simp only [Pipeline.session, Pipeline.calls, bind_assoc, pure_bind]
    rw [hsession, Act.wp_bind]
    refine Act.wp_mono (h.wp_call x) ?_
    rintro res p' _ ⟨rfl, h'⟩
    rw [Act.next_ok, Act.wp_bind]
    refine Act.wp_mono (ih h') ?_
    rintro res p'' _ rfl
    rfl

end Refusing

/-- A pipeline with an invalid configuration refuses to run, and no component is called. -/
theorem Pipeline.refuses (c : StageFn X Y X) (source_id : StageId) (idle_tick : Option Duration)
    (e : ConfigError) (built : Built) (o : Oracle X Y) (xs : List Call) (l : LastCall) :
    let run := o.run (Pipeline.session c xs l) (Pipeline.new source_id idle_tick (some e) built)
    run.1.1 = .ok (refusals e l false xs) ∧ Log.polls run.2 := by
  intro run
  have hp : Refusing e false (Pipeline.new source_id idle_tick (some e) built : Pipeline c.σ) :=
    ⟨rfl, rfl, built, rfl⟩
  have hnone : Log.polls ([] : Log X Y) := nofun
  obtain ⟨_, hlog, hres⟩ := Prog.wp_exec o.keeps_polling hnone (hp.wp_session xs l)
  exact ⟨hres, hlog⟩

end PipeIo
