import PipeIo.Lib.Agree
import PipeIo.Pipeline

namespace PipeIo
set_option autoImplicit true

open Lib

/-- What instrumentation asks of the outside: the observer is told an event and does not panic, and
nobody cancels. -/
def instruments : Veil (Eff X Y) Ans where
  hidden
    | .observe _ | .isCancelled => True
    | _ => False
  reply
    | .observe _, a => a = some ()
    | .isCancelled, a => a = false
    | _, _ => True

/-- The two computations differ in their instrumentation only. -/
abbrev Alike (R : σ → τ → Prop) (x : Code X Y H σ α) (y : Code X Y H τ α) : Prop :=
  Act.Agree instruments R Eq x y

section Alike

variable {X Y H σ τ α β : Type} {R : σ → τ → Prop} {K : α → β → Prop}

theorem alike_request (e : Eff X Y) (he : ¬(instruments : Veil (Eff X Y) Ans).hidden e) :
    Alike R (request e : Code X Y H σ (Ans e)) (request e) :=
  Act.Agree.perform he

theorem alike_note (n : Note) : Alike R (note n : Code X Y H σ Unit) (note n) :=
  alike_request _ id

theorem alike_outcome (a : Option α) :
    Alike R (outcome a : Code X Y H σ α) (outcome a) := by
  cases a with
  | none => exact Act.Agree.panic
  | some a => exact Act.Agree.value a

/-- Only the first of the two has an observer that is told. -/
theorem agree_emit_left (active : Bool) (event : Event) {x : Code X Y H σ α}
    {y : Code X Y H τ β} (h : Act.Agree instruments R K x y) :
    Act.Agree instruments R K (do emitEvent active event; x) y := by
  cases active with
  | false => exact h
  | true =>
    have hreply : ∀ a : Option Unit, a = some () → Act.Agree instruments R K (do
        outcome a
        x) y := by
      rintro _ rfl
      exact h
    simp only [emitEvent, if_true, bind_assoc]
    exact Act.Agree.left trivial hreply

theorem agree_emit_right (active : Bool) (event : Event) {x : Code X Y H σ α}
    {y : Code X Y H τ β} (h : Act.Agree instruments R K x y) :
    Act.Agree instruments R K x (do emitEvent active event; y) := by
  cases active with
  | false => exact h
  | true =>
    have hreply : ∀ a : Option Unit, a = some () → Act.Agree instruments R K x (do
        outcome a
        y) := by
      rintro _ rfl
      exact h
    simp only [emitEvent, if_true, bind_assoc]
    exact Act.Agree.right trivial hreply

/-- The observers need not be told the same. -/
theorem agree_emit (active active' : Bool) (event event' : Event) {x : Code X Y H σ α}
    {y : Code X Y H τ β} (h : Act.Agree instruments R K x y) :
    Act.Agree instruments R K (do emitEvent active event; x) (do emitEvent active' event'; y) :=
  agree_emit_left active event (agree_emit_right active' event' h)

theorem alike_emitEvent (active active' : Bool) (event event' : Event) :
    Alike R (emitEvent active event : Code X Y H σ Unit) (emitEvent active' event') := by
  have h := agree_emit active active' event event'
    (Act.Agree.value () : Alike R (pure () : Code X Y H σ Unit) (pure ()))
  simpa only [bind_pure_unit] using h

end Alike

/-- Two contexts of one run under different instrumentation. -/
structure Ctx.Alike (c c' : Ctx) : Prop where
  tally : c.tally = c'.tally
  dlq : c.dlq = c'.dlq

section Handle

variable {X Y H α : Type}

/-- Code that has nothing to do with instrumentation. -/
theorem alike_refl (x : Code X Y H σ α) : Alike Eq x x := by
  apply Act.Agree.refl
  intro e a a' he ha ha'
  cases e with
  | observe event => exact Eq.trans ha (Eq.symm ha')
  | isCancelled => exact Eq.trans ha (Eq.symm ha')
  | _ => exact he.elim

theorem alike_first_of {R : σ → τ → Prop} (a b : Except Error Unit) (observer observer' : Bool) :
    Alike R (first_of a b observer : Code X Y Error σ Unit) (first_of a b observer') := by
  rcases a with e | ⟨⟨⟩⟩
  · rcases b with e' | ⟨⟨⟩⟩
    · exact agree_emit _ _ _ _ (Act.Agree.halt e)
    · exact Act.Agree.halt e
  · rcases b with e' | ⟨⟨⟩⟩
    · exact Act.Agree.halt e'
    · exact Act.Agree.value ()

theorem alike_dlq_finish (observer observer' : Bool) :
    Alike Eq (Dlq.finish observer : Code X Y Error Dlq Unit) (Dlq.finish observer') :=
  (alike_refl _).attempt.next fun flushed => (alike_refl _).attempt.next fun closed =>
    alike_first_of flushed closed observer observer'

theorem alike_onDlq (x : Code X Y H Dlq α) :
    Alike Ctx.Alike (Ctx.onDlq x) (Ctx.onDlq x) :=
  (alike_refl x).zoom (fun _ _ h => h.dlq) fun _ _ _ _ h hd => ⟨h.tally, hd⟩

theorem alike_count (f : Tally → Tally) :
    Alike Ctx.Alike (Ctx.count f : Code X Y H Ctx Unit) (Ctx.count f) :=
  Act.Agree.modify fun _ _ h => ⟨congrArg f h.tally, h.dlq⟩

/-- The error policy does the same with and without an observer. -/
theorem alike_handle_failure (policy : ErrorPolicy) (id : StageId) (e : BoxError)
    (input : Option AnyBox) (attempts : Nat) :
    Alike Ctx.Alike (handle_failure policy id e input attempts : Code X Y Halt Ctx Nat)
      (handle_failure policy id e input attempts) := by
  cases policy with
  | failFast =>
    refine (alike_note _).next fun _ => (alike_count _).next fun _ => ?_
    refine Act.Agree.get.bind fun _ _ _ => ?_
    refine Act.Agree.get.bind fun _ _ _ => ?_
    exact agree_emit _ _ _ _ (Act.Agree.halt _)
  | deadLetter =>
    refine (alike_count _).next fun _ => ?_
    refine Act.Agree.get.bind fun _ _ _ => ?_
    refine Act.Agree.get.bind fun _ _ _ => agree_emit _ _ _ _ ?_
    refine ((alike_onDlq _).mapHalt _).next fun _ => (alike_count _).next fun _ => ?_
    exact agree_emit _ _ _ _ (Act.Agree.value 0)
  | «continue» =>
    refine (alike_count _).next fun _ => ?_
    refine Act.Agree.get.bind fun ctx ctx' _ => ?_
    -- without an observer the error is not even boxed
    have hvalue : Alike Ctx.Alike (pure 0 : Code X Y Halt Ctx Nat) (pure 0) := Act.Agree.value 0
    split <;> split
    · exact hvalue
    · exact fun s s' h => agree_emit_right s'.observer _ hvalue s s' h
    · exact fun s s' h => agree_emit_left s.observer _ hvalue s s' h
    · refine Act.Agree.get.bind fun _ _ _ => ?_
      exact agree_emit _ _ _ _ hvalue

end Handle

section Stage

variable {X Y H T U φ ν α β : Type}

/-- The states of one chain under different instrumentation. -/
def Ctx.Beside (s s' : ν × Ctx) : Prop := s.1 = s'.1 ∧ s.2.Alike s'.2

theorem alike_own (x : Code X Y H φ α) :
    Alike Ctx.Beside (own (ν := ν) x) (own x) :=
  (alike_refl x).zoom (fun _ _ h => congrArg Prod.fst h.1)
    fun _ _ _ _ h ht => ⟨congrArg₂ Prod.mk ht (congrArg Prod.snd h.1), h.2⟩

theorem alike_down {x y : Code X Y H (ν × Ctx) α} (h : Alike Ctx.Beside x y) :
    Alike Ctx.Beside (down (φ := φ) x) (down y) :=
  h.zoom (fun _ _ hs => ⟨congrArg Prod.snd hs.1, hs.2⟩)
    fun _ _ _ _ hs ht => ⟨congrArg₂ Prod.mk (congrArg Prod.fst hs.1) ht.1, ht.2⟩

theorem agree_inCtx {K : α → β → Prop} {x : Code X Y H Ctx α} {y : Code X Y H Ctx β}
    (h : Act.Agree instruments Ctx.Alike K x y) :
    Act.Agree instruments Ctx.Beside K (inCtx (ν := ν) x) (inCtx y) :=
  h.zoom (fun _ _ hs => hs.2) fun _ _ _ _ hs ht => ⟨hs.1, ht⟩

/-- Every call of the chain does the same under any instrumentation. -/
def StageFn.Alike (c : StageFn X Y T) : Prop :=
  ∀ op, PipeIo.Alike Ctx.Beside (c.call op) (c.call op)

variable {next : StageOp U → Code X Y Halt (ν × Ctx) Nat}

theorem alike_emitAll {σ : Type} {R : σ → σ → Prop} {next : StageOp U → Code X Y Halt σ Nat}
    (hnext : ∀ op, Alike R (next op) (next op)) (outs : List U) :
    Alike R (emitAll next outs) (emitAll next outs) := by
  induction outs with
  | nil => exact Act.Agree.value 0
  | cons out outs ih => exact (hnext _).next fun _ => ih.next fun _ => Act.Agree.value _

theorem ItemStage.alike_call (st : ItemStage T U) (depth : Nat)
    (hnext : ∀ op, Alike Ctx.Beside (next op) (next op)) (op : StageOp T) :
    Alike Ctx.Beside (st.call depth next op) (st.call depth next op) := by
  unfold ItemStage.call
  cases op.into_item with
  | error signal => exact alike_down (hnext _)
  | ok item =>
    refine (alike_note _).next fun _ => (alike_own _).next fun reaction => ?_
    cases reaction with
    | items outs => exact alike_emitAll (fun op => alike_down (hnext op)) outs
    | fail e => exact agree_inCtx (alike_handle_failure _ _ _ _ _)
    | panic outs =>
      exact (alike_emitAll (fun op => alike_down (hnext op)) outs).next fun _ => Act.Agree.panic

theorem alike_drive (policy : ErrorPolicy) (id : StageId)
    (hnext : ∀ op, Alike Ctx.Beside (next op) (next op)) (script : Script U φ)
    (halted : Option Halt) (written : Nat) :
    Alike Ctx.Beside (drive policy id next script halted written)
      (drive policy id next script halted written) := by
  induction script generalizing halted written with
  | ret r s =>
    refine (alike_own _).next fun _ => ?_
    cases halted with
    | some halt => exact Act.Agree.halt halt
    | none =>
      cases r with
      | ok u => exact Act.Agree.value written
      | error e => exact (agree_inCtx (alike_handle_failure _ _ _ _ _)).map _
  | panic s => exact (alike_own _).next fun _ => Act.Agree.panic
  | emit item s k ih =>
    refine (alike_own _).next fun _ => ?_
    cases halted with
    | some halt => exact ih false _ _
    | none =>
      refine (alike_down (hnext _)).attempt.next fun r => ?_
      cases r with
      | ok n => exact ih true _ _
      | error halt => exact ih false _ _

theorem Stage.alike_call (st : Stage T U) (policy : ErrorPolicy) (id : StageId) (depth : Nat)
    {next : StageOp U → Code X Y Halt (ν × Ctx) Nat}
    (hnext : ∀ op, Alike Ctx.Beside (next op) (next op)) (op : StageOp T) :
    Alike Ctx.Beside (st.call policy id depth next op) (st.call policy id depth next op) := by
  cases op with
  | process item =>
    exact (alike_note _).next fun _ => (alike_own _).next fun s =>
      alike_drive policy id hnext _ _ _
  | tick =>
    exact (alike_note _).next fun _ => (alike_own _).next fun s =>
      (alike_drive policy id hnext _ _ _).next fun _ => (alike_down (hnext _)).map _
  | flush =>
    exact (alike_note _).next fun _ => (alike_own _).next fun s =>
      (alike_drive policy id hnext _ _ _).next fun _ => (alike_down (hnext _)).map _
  | close => exact alike_down (hnext _)
  | abort => exact alike_down (hnext _)

namespace RetryStage

theorem alike_attempt (st : RetryStage T U) (depth : Nat) (item : T)
    {next : StageOp U → Code X Y Halt (ν × Ctx) Nat}
    (hnext : ∀ op, Alike Ctx.Beside (next op) (next op))
    {retry : BoxError → Code X Y Halt (((st.φ × Jitter) × ν) × Ctx) Nat}
    (hretry : ∀ e, Alike Ctx.Beside (retry e) (retry e)) :
    Alike Ctx.Beside (st.attempt depth item next retry) (st.attempt depth item next retry) := by
  refine (alike_note _).next fun _ => (alike_own _).next fun r => (alike_outcome r).next fun r => ?_
  cases r with
  | ok out => exact alike_down (hnext _)
  | error e => exact hretry e

theorem alike_attempts (st : RetryStage T U) (depth : Nat) (item : T)
    {next : StageOp U → Code X Y Halt (ν × Ctx) Nat}
    (hnext : ∀ op, Alike Ctx.Beside (next op) (next op)) (left attempt : Nat) :
    Alike Ctx.Beside (st.attempts depth item next left attempt)
      (st.attempts depth item next left attempt) := by
  induction left generalizing attempt with
  | zero =>
    exact st.alike_attempt depth item hnext fun e => agree_inCtx (alike_handle_failure _ _ _ _ _)
  | succ left ih =>
    refine st.alike_attempt depth item hnext fun e => (alike_own _).next fun delay => ?_
    refine (agree_inCtx (alike_count _)).next fun _ => ?_
    refine (agree_inCtx Act.Agree.get).bind fun _ _ _ => agree_emit _ _ _ _ ?_
    refine (alike_request _ (by exact not_false)).next fun done => ?_
    split
    · exact ih (attempt + 1)
    · exact agree_inCtx (alike_handle_failure _ _ _ _ _)

theorem alike_call (st : RetryStage T U) (depth : Nat)
    {next : StageOp U → Code X Y Halt (ν × Ctx) Nat}
    (hnext : ∀ op, Alike Ctx.Beside (next op) (next op)) (op : StageOp T) :
    Alike Ctx.Beside (st.call depth next op) (st.call depth next op) := by
  unfold RetryStage.call
  cases op.into_item with
  | ok item => exact st.alike_attempts depth item hnext _ _
  | error signal => exact alike_down (hnext _)

end RetryStage

theorem Node.link_alike (node : Node T U) (depth : Nat) {next : StageFn X Y U}
    (hnext : next.Alike) : (node.link depth next).Alike := by
  intro op
  cases node with
  | item st => exact st.alike_call depth hnext op
  | retry st => exact st.alike_call depth hnext op
  | stage st policy id => exact st.alike_call policy id depth hnext op

theorem Stages.assemble_alike (stages : Stages T U) {tail : StageFn X Y U} (htail : tail.Alike) :
    (stages.assemble tail).Alike := by
  induction stages with
  | nil => exact htail
  | cons node rest ih => exact node.link_alike _ (ih htail)

theorem alike_sinkCall {R : ν → ν → Prop} (id : StageId) (e : Option (Except BoxError Unit)) :
    Alike R (sinkCall id e : Code X Y Halt ν Unit) (sinkCall id e) := by
  refine (alike_outcome e).next fun r => ?_
  cases r with
  | ok u => exact Act.Agree.value ()
  | error e => exact Act.Agree.halt _

theorem alike_flushOnce (id : StageId) :
    Alike Ctx.Beside (flushOnce id : Code X Y Halt (SinkFlags × Ctx) Unit) (flushOnce id) := by
  refine Act.Agree.get.bind fun s s' h => ?_
  rw [h.1]
  split
  · exact Act.Agree.value ()
  · refine Act.Agree.next (Act.Agree.modify fun _ _ h => ⟨?_, h.2⟩) fun _ => ?_
    · rw [h.1]
    · exact (alike_request _ (by exact not_false)).next fun e => alike_sinkCall _ e

theorem alike_closeOnce (id : StageId) :
    Alike Ctx.Beside (closeOnce id : Code X Y Halt (SinkFlags × Ctx) Unit) (closeOnce id) := by
  refine Act.Agree.get.bind fun s s' h => ?_
  rw [h.1]
  split
  · exact Act.Agree.value ()
  · refine Act.Agree.next (Act.Agree.modify fun _ _ h => ⟨?_, h.2⟩) fun _ => ?_
    · rw [h.1]
    · exact (alike_request _ (by exact not_false)).next fun e => alike_sinkCall _ e

theorem sink_fn_alike (id : StageId) : (sink_fn id : StageFn X Y Y).Alike := by
  intro op
  cases op with
  | process item =>
    refine (alike_request _ (by exact not_false)).next fun e => ?_
    exact (alike_sinkCall id e).next fun _ => Act.Agree.value 1
  | tick => exact Act.Agree.value 0
  | flush => exact (alike_flushOnce id).next fun _ => Act.Agree.value 0
  | close => exact (alike_closeOnce id).next fun _ => Act.Agree.value 0
  | abort =>
    refine (alike_flushOnce id).attempt.next fun flushed => ?_
    refine (alike_closeOnce id).attempt.next fun closed => ?_
    rcases flushed with first | ⟨⟨⟩⟩
    · rcases closed with (second | _) | ⟨⟨⟩⟩
      · exact Act.Agree.get.bind fun _ _ _ => agree_emit _ _ _ _ (Act.Agree.halt _)
      · exact Act.Agree.halt _
      · exact Act.Agree.halt _
    · rcases closed with e | ⟨⟨⟩⟩
      · exact Act.Agree.halt _
      · exact Act.Agree.value 0

end Stage

end PipeIo
