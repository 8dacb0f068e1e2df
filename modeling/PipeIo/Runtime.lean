import PipeIo.Lib.Act
import PipeIo.Error
import PipeIo.Edge

namespace PipeIo
set_option autoImplicit true

open Lib

/-- Control signal sent through the stage chain. -/
inductive Signal where
  | tick | flush | close | abort
  deriving DecidableEq, Repr

/-- Operation handed to every stage closure. -/
inductive StageOp (T : Type) where
  | process (item : T)
  | tick | flush | close | abort
  deriving DecidableEq, Repr

def StageOp.into_item : StageOp T → Except Signal T
  | .process item => .ok item
  | .tick => .error .tick
  | .flush => .error .flush
  | .close => .error .close
  | .abort => .error .abort

def Signal.op : Signal → StageOp T
  | .tick => .tick
  | .flush => .flush
  | .close => .close
  | .abort => .abort

/-- The signal an operation carries; `none` for an item. -/
def StageOp.signal : StageOp T → Option Signal
  | .process _ => none
  | .tick => some .tick
  | .flush => some .flush
  | .close => some .close
  | .abort => some .abort

/-- Why a stage closure stopped the run. -/
inductive Halt where
  | failed (e : Error)
  | disconnected
  deriving DecidableEq, Repr

/-- Outcome of `Source::pull_timeout`. -/
inductive Pull (X : Type) where
  | item (x : X)
  | idle
  | done
  deriving DecidableEq, Repr

def Pull.from : Option X → Pull X
  | some x => .item x
  | none => .done

inductive DeadLetterOp where
  | write (failure : StageFailure)
  | flush | close

/-- Labels in the trace that are no calls of user code by themselves: an operation enters
the chain, that operation returned `Err`, user code of a stage is entered, and a stage under
`FailFast` failed. A stage is named by its distance to the sink; the method is `none` for
`process`. -/
inductive Note where
  | call (op : Option Signal)
  | halted
  | stage (depth : Nat) (method : Option Signal)
  | failed (stage : StageId) (error : BoxError)
  deriving DecidableEq, Repr

/-- Per-run counters. -/
structure Tally where
  items_in : Nat
  items_out : Nat
  errors : Nat
  dead_lettered : Nat
  retries : Nat
  deriving DecidableEq, Repr

namespace Tally

def zero : Tally := ⟨0, 0, 0, 0, 0⟩

def merge (t other : Tally) : Tally :=
  ⟨t.items_in + other.items_in, t.items_out + other.items_out, t.errors + other.errors,
    t.dead_lettered + other.dead_lettered, t.retries + other.retries⟩

def to_stats (t : Tally) : RunStats :=
  ⟨t.items_in, t.items_out, t.errors, t.dead_lettered, t.retries⟩

end Tally

/-- What a thread hands to the one that joins it: its counters and whether it saw the
cancellation, or the panic that ended it. The calling thread ends with the run's result. -/
inductive Exit where
  | finished (tally : Tally) (cancelled : Bool)
  | panicked
  | result (r : Except Error RunStats)
  deriving DecidableEq, Repr

/-- What a thread that consumes items of type `X` and produces items of type `Y` asks of
its surroundings: the user's source, sink, dead-letter sink and observer, the cancellation
flag and the clock, and, when the pipeline is threaded, the edges, the other threads and the
error they share. -/
inductive Eff (X Y : Type) : Type 1 where
  | pull
  | pullTimeout (timeout : Duration)
  | closeSource
  | write (item : Y)
  | flush
  | close
  | deadLetter (op : DeadLetterOp)
  | observe (event : Event)
  | isCancelled
  | sleep (delay : Duration)
  | note (n : Note)
  | recv (timeout : Option Duration)
  | send (op : StageOp Y)
  | trySend (op : StageOp Y)
  | dropReceiver
  | dropSender
  | dropDone
  | waitDone
  | offer (error : Error)
  | spawn (thread : Nat)
  | join (thread : Nat)
  | takeFirst

/-- The answers. A call of user code returns `none` when it panics; `sleep` tells whether
the whole delay passed, `send` whether it returned `Ok`, `offer` whether the error was the
first. -/
@[reducible] def Ans {X Y : Type} : Eff X Y → Type
  | .pull => Option (Except BoxError (Option X))
  | .pullTimeout _ => Option (Except BoxError (Pull X))
  | .closeSource | .write _ | .flush | .close | .deadLetter _ => Option (Except BoxError Unit)
  | .observe _ => Option Unit
  | .isCancelled | .sleep _ | .send _ | .offer _ => Bool
  | .note _ | .dropReceiver | .dropSender | .dropDone | .waitDone | .spawn _ => Unit
  | .recv _ => RecvResult (StageOp X)
  | .trySend _ => SendResult
  | .join _ => Exit
  | .takeFirst => Option Error

/-- Code of the crate running on one thread. -/
abbrev Code (X Y H σ α : Type) := Act (Eff X Y) Ans H σ α

abbrev request (e : Eff X Y) : Code X Y H σ (Ans e) := Act.perform e

/-- The result of a call of user code; a panic unwinds. -/
def outcome : Option α → Code X Y H σ α
  | some a => pure a
  | none => Act.panic

def note (n : Note) : Code X Y H σ Unit := request (.note n)

/-- `ObserverSlot::emit`. -/
def emitEvent (active : Bool) (event : Event) : Code X Y H σ Unit :=
  if active then do outcome (← request (.observe event)) else pure ()

/-- A handle of the dead-letter sink. The flags belong to the closure that
`PipelineBuilder::dead_letter` builds; only the handle that finishes the sink uses them. -/
inductive Dlq where
  | absent
  | sink (flushed closed : Bool)
  deriving DecidableEq, Repr

namespace Dlq

def fail (e : BoxError) : Error := .sink "dead_letter" e

/-- The closure built by `PipelineBuilder::dead_letter`, behind `Dlq::call`. -/
def call (op : DeadLetterOp) : Code X Y Error Dlq Unit := do
  match op, ← Act.get with
  | _, .absent => pure ()
  | .write failure, .sink .. =>
    match ← outcome (← request (.deadLetter (.write failure))) with
    | .ok () => pure ()
    | .error e => Act.halt (fail e)
  | .flush, .sink false closed =>
    Act.modify fun _ => .sink true closed
    match ← outcome (← request (.deadLetter .flush)) with
    | .ok () => pure ()
    | .error e => Act.halt (fail e)
  | .close, .sink flushed false =>
    Act.modify fun _ => .sink flushed true
    match ← outcome (← request (.deadLetter .close)) with
    | .ok () => pure ()
    | .error e => Act.halt (fail e)
  | .flush, .sink true _ | .close, .sink _ true => pure ()

def route (failure : StageFailure) : Code X Y Error Dlq Unit := call (.write failure)

end Dlq

/-- Keep the first error of two; report the second to the observer. -/
def first_of (a b : Except Error Unit) (observer : Bool) : Code X Y Error σ Unit :=
  match a, b with
  | .error first, .error second => do
    emitEvent observer (.teardownError second)
    Act.halt first
  | .error e, .ok () | .ok (), .error e => Act.halt e
  | .ok (), .ok () => pure ()

/-- Flush then close; both are attempted. -/
def Dlq.finish (observer : Bool) : Code X Y Error Dlq Unit := do
  let flushed ← Act.attempt (Dlq.call .flush)
  let closed ← Act.attempt (Dlq.call .close)
  first_of flushed closed observer

/-- Collects the first error of a run; later ones go to the observer. -/
abbrev FirstError := Option Error

namespace FirstError

def offer (error : Error) (observer : Bool) : Code X Y H FirstError Unit := do
  match ← Act.get with
  | none => Act.modify fun _ => some error
  | some _ => emitEvent observer (.teardownError error)

def offer_result (result : Except Error Unit) (observer : Bool) : Code X Y H FirstError Unit :=
  match result with
  | .ok () => pure ()
  | .error e => offer e observer

def offer_halt (result : Except Halt Unit) (observer : Bool) : Code X Y H FirstError Unit :=
  match result with
  | .error (.failed e) => offer e observer
  | .error .disconnected | .ok () => pure ()

def into_result : FirstError → Except Error Unit
  | none => .ok ()
  | some e => .error e

end FirstError

/-- Per-run execution context, or per-thread when the pipeline is threaded. `observer` tells
whether an observer is installed, `cancel` whether a cancel handle exists. -/
structure Ctx where
  tally : Tally
  dlq : Dlq
  observer : Bool
  cancel : Bool
  deriving DecidableEq, Repr

namespace Ctx

def new (dlq : Dlq) (observer cancel : Bool) : Ctx := ⟨.zero, dlq, observer, cancel⟩

def onDlq (x : Code X Y H Dlq α) : Code X Y H Ctx α :=
  Act.zoom Ctx.dlq (fun d ctx => { ctx with dlq := d }) x

def count (f : Tally → Tally) : Code X Y H Ctx Unit :=
  Act.modify fun ctx => { ctx with tally := f ctx.tally }

end Ctx

def report_failure (policy : ErrorPolicy) (stage : StageId) (error : BoxError)
    (input : Option AnyBox) (attempts : Nat) : Code X Y Halt Ctx Nat := do
  let ctx ← Act.get
  emitEvent ctx.observer (.stageError stage policy error)
  match policy with
  | .failFast => Act.halt (.failed (.stage stage error))
  | .continue => pure 0
  | .deadLetter =>
    let failure := { (StageFailure.new stage error).with_attempts attempts with input := input }
    Act.mapHalt .failed (Ctx.onDlq (Dlq.route failure))
    Ctx.count fun t => { t with dead_lettered := t.dead_lettered + 1 }
    emitEvent ctx.observer (.deadLettered stage)
    pure 0

/-- Apply the stage's error policy to a failure. -/
def handle_failure (policy : ErrorPolicy) (stage : StageId) (error : BoxError)
    (input : Option AnyBox) (attempts : Nat) : Code X Y Halt Ctx Nat := do
  if policy = .failFast then note (.failed stage error)
  Ctx.count fun t => { t with errors := t.errors + 1 }
  let ctx ← Act.get
  -- nobody will look at the error
  if policy = .continue ∧ ctx.observer = false then pure 0
  else report_failure policy stage error input attempts

end PipeIo
