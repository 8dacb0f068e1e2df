import PipeIo.Feeding
import PipeIo.Lib.Triple

namespace PipeIo
set_option autoImplicit true

open Lib

/-- The observer panicked. -/
def Entry.alarm : Entry X Y → Bool
  | ⟨.observe _, none⟩ => true
  | _ => false

/-- Whether the observer has panicked. -/
def alarms : Spec (Eff X Y) Ans Bool where
  pre _ _ := True
  post e p a p' := p' = (p || Entry.alarm ⟨e, a⟩)

/-- The code returns only as long as the observer has not panicked. -/
def Unwinds (x : Code X Y H σ α) : Prop :=
  Act.Triple alarms (fun _ p => p = false) x (fun _ _ p => p = false) (fun _ _ p => p = false)
    fun _ _ => True

/-- Requests other than a call of the observer. -/
def Eff.Unobserved : Eff X Y → Prop
  | .observe _ => False
  | _ => True

theorem Eff.Unobserved.alarm {e : Eff X Y} (he : e.Unobserved) (a : Ans e) :
    Entry.alarm (⟨e, a⟩ : Entry X Y) = false := by
  cases e with
  | observe event => exact he.elim
  | _ => rfl

section Rules

variable {X Y H H' σ τ α β : Type}

theorem Unwinds.pure (a : α) : Unwinds (pure a : Code X Y H σ α) := fun _ _ h => h

theorem Unwinds.get : Unwinds (Act.get : Code X Y H σ σ) := fun _ _ h => h

theorem Unwinds.modify (f : σ → σ) : Unwinds (Act.modify f : Code X Y H σ Unit) := fun _ _ h => h

theorem Unwinds.state (f : σ → α × σ) : Unwinds (Act.state f : Code X Y H σ α) := fun _ _ h => h

theorem Unwinds.halt (h : H) : Unwinds (Act.halt h : Code X Y H σ α) := fun _ _ h => h

theorem Unwinds.panic : Unwinds (Act.panic : Code X Y H σ α) := fun _ _ _ => trivial

theorem Unwinds.bind {x : Code X Y H σ α} {f : α → Code X Y H σ β} (hx : Unwinds x)
    (hf : ∀ a, Unwinds (f a)) : Unwinds (x >>= f) :=
  Act.Triple.bind hx hf

theorem Unwinds.map {x : Code X Y H σ α} (f : α → β) (hx : Unwinds x) : Unwinds (f <$> x) :=
  hx.bind fun a => .pure (f a)

theorem Unwinds.attempt {x : Code X Y H σ α} (hx : Unwinds x) :
    Unwinds (Act.attempt x : Code X Y H' σ (Except H α)) :=
  Act.Triple.attempt hx

theorem Unwinds.mapHalt {x : Code X Y H σ α} (f : H → H') (hx : Unwinds x) :
    Unwinds (Act.mapHalt f x) := by
  intro s p hp
  refine (Act.wp_mapHalt f x).2 (Act.wp_mono (hx s p hp) fun r s' p' h => ?_)
  cases r with
  | ok a => exact h
  | halt e => exact h
  | panic => exact h

theorem Unwinds.zoom {x : Code X Y H τ α} (hx : Unwinds x) (get : σ → τ) (set : τ → σ → σ) :
    Unwinds (Act.zoom get set x) :=
  Act.Triple.zoom (R := fun _ p => p = false) (fun _ _ h => h) fun _ => hx

theorem Unwinds.repeatUntil {x : Code X Y H σ (Option α)} (hx : Unwinds x) (fuel : Nat) :
    Unwinds (Act.repeatUntil x fuel) := by
  induction fuel with
  | zero => exact .pure none
  | succ fuel ih =>
    refine hx.bind fun a => ?_
    cases a with
    | none => exact ih
    | some a => exact .pure (some a)

theorem unwinds_request {e : Eff X Y} (he : e.Unobserved) :
    Unwinds (request e : Code X Y H σ (Ans e)) := by
  intro s p hp
  subst hp
  refine ⟨trivial, fun a p' ha => ?_⟩
  exact ha.trans (he.alarm a)

theorem unwinds_outcome (a : Option α) : Unwinds (outcome a : Code X Y H σ α) := by
  cases a with
  | none => exact .panic
  | some a => exact .pure a

/-- A panic of the observer unwinds. -/
theorem unwinds_emitEvent (active : Bool) (event : Event) :
    Unwinds (emitEvent active event : Code X Y H σ Unit) := by
  cases active with
  | false => exact .pure ()
  | true =>
    intro s p hp
    subst hp
    refine (Act.wp_bind ..).2 ⟨trivial, fun a p' ha => ?_⟩
    cases a with
    | none => trivial
    | some u => exact ha

end Rules

section Chain

variable {X Y H φ ν : Type}

theorem unwinds_route (failure : StageFailure) :
    Unwinds (Dlq.route failure : Code X Y Error Dlq Unit) := by
  refine Unwinds.get.bind fun d => ?_
  cases d with
  | absent => exact .pure ()
  | sink flushed closed =>
    refine (unwinds_request (by trivial)).bind fun a => (unwinds_outcome a).bind fun r => ?_
    cases r with
    | ok u => exact .pure ()
    | error e => exact .halt _

theorem unwinds_report_failure (policy : ErrorPolicy) (id : StageId) (e : BoxError)
    (input : Option AnyBox) (attempts : Nat) :
    Unwinds (report_failure policy id e input attempts : Code X Y Halt Ctx Nat) := by
  refine Unwinds.get.bind fun ctx => (unwinds_emitEvent _ _).bind fun _ => ?_
  cases policy with
  | failFast => exact .halt _
  | «continue» => exact .pure 0
  | deadLetter =>
    refine (((unwinds_route _).zoom _ _).mapHalt _).bind fun _ => (Unwinds.modify _).bind fun _ => ?_
    exact (unwinds_emitEvent _ _).bind fun _ => .pure 0

theorem unwinds_handle_failure (policy : ErrorPolicy) (id : StageId) (e : BoxError)
    (input : Option AnyBox) (attempts : Nat) :
    Unwinds (handle_failure policy id e input attempts : Code X Y Halt Ctx Nat) := by
  have hcount : Unwinds (do
      Ctx.count fun t => { t with errors := t.errors + 1 }
      let ctx ← Act.get
      if policy = .continue ∧ ctx.observer = false then pure 0
      else report_failure policy id e input attempts : Code X Y Halt Ctx Nat) := by
    refine (Unwinds.modify _).bind fun _ => Unwinds.get.bind fun ctx => ?_
    split
    · exact .pure 0
    · exact unwinds_report_failure _ _ _ _ _
  by_cases hfast : policy = .failFast
  · simp only [handle_failure, if_pos hfast]
    exact (unwinds_request (by trivial)).bind fun _ => hcount
  · simp only [handle_failure, if_neg hfast]
    exact hcount

theorem unwinds_emitAll {σ : Type} {next : StageOp U → Code X Y Halt σ Nat}
    (hnext : ∀ op, Unwinds (next op)) (outs : List U) : Unwinds (emitAll next outs) := by
  induction outs with
  | nil => exact .pure 0
  | cons out outs ih => exact (hnext _).bind fun _ => ih.bind fun _ => .pure _

variable {next : StageOp U → Code X Y Halt (ν × Ctx) Nat} (hnext : ∀ op, Unwinds (next op))
include hnext

theorem ItemStage.unwinds_call (st : ItemStage T U) (depth : Nat) (op : StageOp T) :
    Unwinds (st.call depth next op) := by
  have hdown : ∀ op, Unwinds (down (φ := st.φ) (next op)) := fun op => (hnext op).zoom _ _
  unfold ItemStage.call
  cases op.into_item with
  | error signal => exact hdown _
  | ok item =>
    refine (unwinds_request (by trivial)).bind fun _ => ((Unwinds.state _).zoom _ _).bind
      fun reaction => ?_
    cases reaction with
    | items outs => exact unwinds_emitAll hdown outs
    | fail e => exact (unwinds_handle_failure _ _ _ _ _).zoom _ _
    | panic outs => exact (unwinds_emitAll hdown outs).bind fun _ => .panic

theorem unwinds_drive (policy : ErrorPolicy) (id : StageId) (script : Script U φ)
    (halted : Option Halt) (written : Nat) :
    Unwinds (drive policy id next script halted written) := by
  induction script generalizing halted written with
  | ret r s =>
    refine ((Unwinds.modify _).zoom _ _).bind fun _ => ?_
    cases halted with
    | some halt => exact .halt halt
    | none =>
      cases r with
      | ok u => exact .pure written
      | error e => exact ((unwinds_handle_failure _ _ _ _ _).zoom _ _).map _
  | panic s => exact ((Unwinds.modify _).zoom _ _).bind fun _ => .panic
  | emit item s k ih =>
    refine ((Unwinds.modify _).zoom _ _).bind fun _ => ?_
    cases halted with
    | some halt => exact ih false _ _
    | none =>
      refine ((hnext _).zoom _ _).attempt.bind fun r => ?_
      cases r with
      | ok n => exact ih true _ _
      | error halt => exact ih false _ _

theorem Stage.unwinds_call (st : Stage T U) (policy : ErrorPolicy) (id : StageId) (depth : Nat)
    (op : StageOp T) : Unwinds (st.call policy id depth next op) := by
  have hdown : ∀ op, Unwinds (down (φ := st.φ) (next op)) := fun op => (hnext op).zoom _ _
  have hown : Unwinds (own (ν := ν) (Act.get : Code X Y Halt st.φ st.φ)) := Unwinds.get.zoom _ _
  cases op with
  | process item =>
    exact (unwinds_request (by trivial)).bind fun _ => hown.bind fun _ =>
      unwinds_drive hnext policy id _ _ _
  | tick =>
    exact (unwinds_request (by trivial)).bind fun _ => hown.bind fun _ =>
      (unwinds_drive hnext policy id _ _ _).bind fun _ => (hdown _).map _
  | flush =>
    exact (unwinds_request (by trivial)).bind fun _ => hown.bind fun _ =>
      (unwinds_drive hnext policy id _ _ _).bind fun _ => (hdown _).map _
  | close => exact hdown _
  | abort => exact hdown _

namespace RetryStage

theorem unwinds_attempt (st : RetryStage T U) (depth : Nat) (item : T)
    {retry : BoxError → Code X Y Halt (((st.φ × Jitter) × ν) × Ctx) Nat}
    (hretry : ∀ e, Unwinds (retry e)) : Unwinds (st.attempt depth item next retry) := by
  refine (unwinds_request (by trivial)).bind fun _ => ((Unwinds.state _).zoom _ _).bind fun r => ?_
  refine (unwinds_outcome r).bind fun r => ?_
  cases r with
  | ok out => exact (hnext _).zoom _ _
  | error e => exact hretry e

theorem unwinds_attempts (st : RetryStage T U) (depth : Nat) (item : T) (left attempt : Nat) :
    Unwinds (st.attempts depth item next left attempt) := by
  induction left generalizing attempt with
  | zero =>
    exact st.unwinds_attempt hnext depth item fun e => (unwinds_handle_failure _ _ _ _ _).zoom _ _
  | succ left ih =>
    refine st.unwinds_attempt hnext depth item fun e => ?_
    refine ((Unwinds.state _).zoom _ _).bind fun delay => ((Unwinds.modify _).zoom _ _).bind
      fun _ => (Unwinds.get.zoom _ _).bind fun ctx => (unwinds_emitEvent _ _).bind fun _ => ?_
    refine (unwinds_request (by trivial)).bind fun slept => ?_
    split
    · exact ih (attempt + 1)
    · exact (unwinds_handle_failure _ _ _ _ _).zoom _ _

theorem unwinds_call (st : RetryStage T U) (depth : Nat) (op : StageOp T) :
    Unwinds (st.call depth next op) := by
  unfold RetryStage.call
  cases op.into_item with
  | ok item => exact st.unwinds_attempts hnext depth item _ _
  | error signal => exact (hnext _).zoom _ _

end RetryStage

theorem Node.unwinds_call (node : Node T U) (depth : Nat) (op : StageOp T) :
    Unwinds (node.call depth next op) := by
  cases node with
  | item st => exact st.unwinds_call hnext depth op
  | retry st => exact st.unwinds_call hnext depth op
  | stage st policy id => exact st.unwinds_call hnext policy id depth op

end Chain

/-- Every call of the chain unwinds when the observer panics. -/
def StageFn.Unwinding (c : StageFn X Y T) : Prop := ∀ op, Unwinds (c.call op)

theorem Stages.assemble_unwinding (stages : Stages T U) {tail : StageFn X Y U}
    (htail : tail.Unwinding) : (stages.assemble tail).Unwinding := by
  induction stages with
  | nil => exact htail
  | cons node rest ih => exact node.unwinds_call (ih htail) _

section Sink

variable {X Y H σ : Type}

theorem unwinds_sinkCall (id : StageId) (a : Option (Except BoxError Unit)) :
    Unwinds (sinkCall id a : Code X Y Halt σ Unit) := by
  refine (unwinds_outcome a).bind fun r => ?_
  cases r with
  | ok u => exact .pure ()
  | error e => exact .halt _

theorem unwinds_flushOnce (id : StageId) :
    Unwinds (flushOnce id : Code X Y Halt (SinkFlags × Ctx) Unit) := by
  refine Unwinds.get.bind fun s => ?_
  split
  · exact .pure ()
  · exact (Unwinds.modify _).bind fun _ => (unwinds_request (by trivial)).bind
      fun a => unwinds_sinkCall id a

theorem unwinds_closeOnce (id : StageId) :
    Unwinds (closeOnce id : Code X Y Halt (SinkFlags × Ctx) Unit) := by
  refine Unwinds.get.bind fun s => ?_
  split
  · exact .pure ()
  · exact (Unwinds.modify _).bind fun _ => (unwinds_request (by trivial)).bind
      fun a => unwinds_sinkCall id a

theorem sink_fn_unwinding (id : StageId) : (sink_fn (X := X) (Y := Y) id).Unwinding := by
  intro op
  cases op with
  | process item =>
    exact (unwinds_request (by trivial)).bind fun a => (unwinds_sinkCall id a).bind
      fun _ => .pure 1
  | tick => exact .pure 0
  | flush => exact (unwinds_flushOnce id).bind fun _ => .pure 0
  | close => exact (unwinds_closeOnce id).bind fun _ => .pure 0
  | abort =>
    refine (unwinds_flushOnce id).attempt.bind fun flushed => ?_
    refine (unwinds_closeOnce id).attempt.bind fun closed => ?_
    rcases flushed with first | ⟨⟨⟩⟩
    · rcases closed with (second | _) | ⟨⟨⟩⟩
      · exact Unwinds.get.bind fun _ => (unwinds_emitEvent _ _).bind fun _ => .halt first
      · exact .halt first
      · exact .halt first
    · rcases closed with second | ⟨⟨⟩⟩
      · exact .halt second
      · exact .pure 0

end Sink

namespace Runner

variable {X Y H : Type} {c : StageFn X Y X} (hc : c.Unwinding)

theorem unwinds_is_cancelled {σ : Type} (armed : Bool) :
    Unwinds (is_cancelled armed : Code X Y H σ Bool) := by
  cases armed with
  | false => exact .pure false
  | true => exact unwinds_request (by trivial)

theorem unwinds_pull {σ : Type} (idle_tick : Option Duration) :
    Unwinds (pull idle_tick : Code X Y Error (Runner σ) (Pull X)) := by
  have hfail : ∀ e : BoxError, Unwinds
      (do Act.halt (.source (← Act.get).source_id e) : Code X Y Error (Runner σ) (Pull X)) :=
    fun _ => Unwinds.get.bind fun _ => .halt _
  cases idle_tick with
  | none =>
    refine (unwinds_request (by trivial)).bind fun a => (unwinds_outcome a).bind fun pulled => ?_
    cases pulled with
    | ok pulled => exact .pure _
    | error e => exact hfail e
  | some timeout =>
    refine (unwinds_request (by trivial)).bind fun a => (unwinds_outcome a).bind fun pulled => ?_
    cases pulled with
    | ok pulled => exact .pure pulled
    | error e => exact hfail e

include hc

theorem unwinds_chainFn (op : StageOp X) : Unwinds (chainFn c op) := by
  refine (unwinds_request (by trivial)).bind fun _ => Unwinds.get.bind fun r => ?_
  cases r.chain with
  | none => exact .pure 0
  | some s =>
    refine ((hc op).zoom _ _).attempt.bind fun result => ?_
    cases result with
    | ok written => exact .pure written
    | error halt => exact (unwinds_request (by trivial)).bind fun _ => .halt halt

theorem unwinds_call (op : StageOp X) : Unwinds (call c op) :=
  (unwinds_chainFn hc op).bind fun _ => .modify _

theorem unwinds_step (idle_tick : Option Duration) : Unwinds (step c idle_tick) := by
  refine ((unwinds_pull idle_tick).mapHalt _).bind fun pulled => ?_
  cases pulled with
  | item item =>
    exact (Unwinds.modify _).bind fun _ => (unwinds_call hc _).bind fun _ => .pure _
  | idle =>
    have htick : Unwinds (tick c) :=
      Unwinds.get.bind fun _ => (unwinds_emitEvent _ _).bind fun _ => unwinds_call hc _
    exact htick.bind fun _ => .pure _
  | done => exact .pure _

theorem unwinds_pull_loop (cancellable : Bool) :
    Unwinds (pull_loop (H := H) c cancellable) := by
  refine (unwinds_is_cancelled cancellable).bind fun cancelled => ?_
  split
  · exact .pure _
  refine (unwinds_request (by trivial)).bind fun a => (unwinds_outcome a).bind fun pulled => ?_
  rcases pulled with e | _ | item
  · exact Unwinds.get.bind fun _ => .pure _
  · exact .pure _
  · refine (Unwinds.modify _).bind fun _ => ((unwinds_chainFn hc _).zoom _ _).attempt.bind
      fun r => ?_
    cases r with
    | ok n => exact (Unwinds.modify _).bind fun _ => .pure none
    | error halt => exact .pure _

theorem unwinds_round (idle_tick : Option Duration) (cancel : Bool) :
    Unwinds (round (H := H) c idle_tick cancel) := by
  cases idle_tick with
  | none => exact unwinds_pull_loop hc cancel
  | some timeout =>
    have hbeside : ∀ {α : Type} {x : Code X Y H (Runner c.σ) α}, Unwinds x →
        Unwinds (Act.zoom Prod.fst (fun r (s : Runner c.σ × (Nat × Nat)) => (r, s.2)) x) :=
      fun hx => hx.zoom _ _
    refine hbeside ((unwinds_is_cancelled cancel).bind fun cancelled => ?_)
    split
    · exact .pure _
    refine (unwinds_step hc _).attempt.bind fun r => ?_
    rcases r with halt | _ | _ | _
    · exact .pure _
    · exact .pure _
    · exact .pure _
    · exact .pure _

/-- The pull loop does not go on after the observer has panicked. -/
theorem unwinds_pump (fuel : Nat) (idle_tick : Option Duration) (cancel : Bool) :
    Unwinds (pump (H := H) c fuel idle_tick cancel) :=
  Unwinds.zoom (((unwinds_round hc idle_tick cancel).repeatUntil fuel).bind fun «end» =>
    (Unwinds.modify _).bind fun _ => .pure «end») _ _

end Runner

end PipeIo
