import PipeIo.Runner

namespace PipeIo
set_option autoImplicit true

open Lib

/-- What the builder recorded besides the stages: whether a dead-letter sink and an
observer are installed. -/
structure Built where
  dead_letter : Bool
  observer : Bool
  deriving DecidableEq, Repr

inductive State (σ : Type) where
  | built (built : Built)
  | running (runner : Runner σ)
  | ended (stats : RunStats) (succeeded : Bool)
  deriving DecidableEq, Repr

/-- A built pipeline. `cancel` tells whether a cancel handle exists; `in_call` is set while
`step` or `tick` runs user code. -/
structure Pipeline (σ : Type) where
  source_id : StageId
  idle_tick : Option Duration
  config_error : Option ConfigError
  cancel : Bool
  state : State σ
  in_call : Bool
  deriving DecidableEq, Repr

/-- Outcome of a single `Pipeline::step`. -/
inductive Step where
  | item | idle | done
  deriving DecidableEq, Repr

def Dlq.new (sink : Bool) : Dlq := if sink then .sink false false else .absent

namespace Pipeline

variable {X Y : Type} (c : StageFn X Y X)

/-- Run on the runner of a running pipeline. -/
def onRunner (runner : Runner σ) (x : Code X Y H (Runner σ) α) : Code X Y H (Pipeline σ) α :=
  Act.zoom (fun _ => runner) (fun r p => { p with state := .running r }) x

def setState (state : State σ) : Code X Y H (Pipeline σ) Unit :=
  Act.modify fun p => { p with state := state }

def setInCall (b : Bool) : Code X Y H (Pipeline σ) Unit :=
  Act.modify fun p => { p with in_call := b }

def take_built : Code X Y Error (Pipeline σ) Built := do
  let p ← Act.get
  match p.state, p.config_error with
  | .built _, some e =>
    setState (.ended .default false)
    Act.halt (.config e)
  | .built built, none =>
    setState (.ended .default false)
    pure built
  | _, _ => Act.halt .closed

def ensure_started : Code X Y Error (Pipeline c.σ) Unit := do
  match (← Act.get).state with
  | .running _ | .ended .. => pure ()
  | .built _ =>
    let built ← take_built
    let p ← Act.get
    let ctx := Ctx.new (Dlq.new built.dead_letter) built.observer p.cancel
    emitEvent built.observer .started
    setState (.running (Runner.new c p.source_id ctx true))

/-- End the run the way the pull loop ended. -/
def teardown («end» : PumpEnd) : Code X Y H (Runner c.σ × FirstError) Unit := do
  match «end» with
  | .graceful | .cancelled => Runner.finish c
  | .failed e =>
    Runner.onFirst (FirstError.offer e)
    Runner.abort c
  | .disconnected =>
    Runner.onFirst (FirstError.offer (.driver "a pipeline segment stopped unexpectedly"))
    Runner.abort c

/-- The result of a run, from its first error. -/
def result (first : FirstError) (cancelled : Bool) (stats : RunStats) : Except Error RunStats :=
  match FirstError.into_result first with
  | .error e => .error e
  | .ok () => if cancelled then .error .cancelled else .ok stats

/-- The part of `conclude` that works on the runner taken out of the pipeline. -/
def conclusion («end» : PumpEnd) :
    Code X Y H (Runner c.σ × FirstError) (RunStats × Except Error RunStats) := do
  teardown c «end»
  let (runner, first) ← Act.get
  let stats := runner.ctx.tally.to_stats
  let result := result first («end» = .cancelled) stats
  emitEvent runner.ctx.observer
    (.finished stats (match result with | .ok _ => none | .error e => some e))
  pure (stats, result)

/-- Tear down according to how the run ended and record the outcome. -/
def conclude («end» : PumpEnd) : Code X Y Error (Pipeline c.σ) RunStats := do
  match (← Act.get).state with
  | .built _ | .ended .. => Act.halt .closed
  | .running runner =>
    setState (.ended .default false)
    let (stats, result) ← Act.withLocal (runner, none) (conclusion c «end»)
      (Act.zoom Prod.fst (fun r s => (r, s.2)) (Runner.drop c))
    match result with
    | .ok stats =>
      setState (.ended stats true)
      pure stats
    | .error e =>
      setState (.ended stats false)
      Act.halt e

/-- A previous `step` or `tick` panicked and the caller caught the panic. -/
def check_poisoned : Code X Y Error (Pipeline c.σ) Unit := do
  let p ← Act.get
  if p.in_call then
    setInCall false
    match p.state with
    | .running _ =>
      let _ ← conclude c (.failed (.driver "a previous call panicked; the pipeline was torn down"))
      pure ()
    | .built _ | .ended .. => pure ()
  else pure ()

def step : Code X Y Error (Pipeline c.σ) Step := do
  ensure_started c
  check_poisoned c
  let p ← Act.get
  let cancelled ← is_cancelled p.cancel
  match p.state with
  | .running runner =>
    if cancelled then
      let _ ← conclude c .cancelled
      pure .done
    else
      setInCall true
      let outcome ← Act.attempt (onRunner runner (Runner.step c p.idle_tick))
      setInCall false
      match outcome with
      | .ok .item => pure .item
      | .ok .idle => pure .idle
      | .ok .done =>
        let _ ← conclude c .graceful
        pure .done
      | .error halt =>
        let _ ← conclude c (halted halt)
        pure .done
  | .ended _ true => pure .done
  | .ended _ false | .built _ => Act.halt .closed

def tick : Code X Y Error (Pipeline c.σ) Unit := do
  ensure_started c
  check_poisoned c
  match (← Act.get).state with
  | .running runner =>
    setInCall true
    let result ← Act.attempt (onRunner runner (Runner.tick c))
    setInCall false
    match result with
    | .ok () => pure ()
    | .error halt =>
      let _ ← conclude c (halted halt)
      pure ()
  | .ended .. | .built _ => Act.halt .closed

def finish : Code X Y Error (Pipeline c.σ) RunStats := do
  match (← Act.get).state with
  | .ended stats true => pure stats
  | .ended _ false => Act.halt .closed
  | .built _ | .running _ =>
    ensure_started c
    check_poisoned c
    conclude c .graceful

/-- Single-threaded run to completion; `none` if the pull loop takes more than `fuel`
rounds. -/
def run_sync (fuel : Nat) : Code X Y Error (Pipeline c.σ) (Option RunStats) := do
  ensure_started c
  let p ← Act.get
  match p.state with
  | .running runner =>
    match ← onRunner runner (Runner.pump c fuel p.idle_tick p.cancel) with
    | none => pure none
    | some «end» => some <$> conclude c «end»
  | .built _ | .ended .. => Act.halt .closed

/-- Dropping a pipeline drops the runner of a run that has not ended. -/
def drop : Code X Y H (Pipeline c.σ) Unit := do
  match (← Act.get).state with
  | .running runner => onRunner runner (Runner.drop c)
  | .built _ | .ended .. => pure ()

/-- The counters so far. -/
def stats (p : Pipeline σ) : RunStats :=
  match p.state with
  | .built _ => .default
  | .running runner => runner.ctx.tally.to_stats
  | .ended stats _ => stats

/-- The pipeline `PipelineBuilder::sink` returns. -/
def new (source_id : StageId) (idle_tick : Option Duration) (config_error : Option ConfigError)
    (built : Built) : Pipeline σ :=
  ⟨source_id, idle_tick, config_error, false, .built built, false⟩

end Pipeline

/-- How a public call ended for the caller, who may catch a panic. -/
inductive Outcome (α : Type) where
  | ok (a : α)
  | err (e : Error)
  | panicked
  deriving DecidableEq, Repr

def Outcome.ofRes : Option (Except Error α) → Outcome α
  | none => .panicked
  | some (.ok a) => .ok a
  | some (.error e) => .err e

/-- A public call as its caller sees it. -/
def caught (x : Code X Y Error σ α) : Code X Y Empty σ (Outcome α) := do
  pure (Outcome.ofRes (← Act.contain (Act.attempt x)))

/-- The public calls on a pipeline that leave it alive. -/
inductive Call where
  | step | tick | cancel_handle
  deriving DecidableEq, Repr

/-- The public calls that consume a pipeline. `run` stands for `run` and for `run_with`
with a `SyncDriver`. -/
inductive LastCall where
  | finish
  | run (fuel : Nat)
  | run_threaded
  | drop
  deriving DecidableEq, Repr

namespace Pipeline

variable {X Y : Type} (c : StageFn X Y X)

def call : Call → Code X Y Empty (Pipeline c.σ) (Outcome Unit)
  | .step => caught (do let _ ← step c; pure ())
  | .tick => caught (tick c)
  | .cancel_handle => do
    Act.modify fun p => { p with cancel := true }
    pure (.ok ())

def calls : List Call → Code X Y Empty (Pipeline c.σ) (List (Outcome Unit))
  | [] => pure []
  | x :: xs => do
    let r ← call c x
    let rs ← calls xs
    pure (r :: rs)

/-- The call that consumes the pipeline, which is dropped when the call returns or unwinds.
`none`: it has not returned yet, because the fuel is used up or because the pipeline was
not started and is now in the hands of the threads. -/
def last : LastCall → Code X Y Empty (Pipeline c.σ) (Option (Outcome Unit))
  | .finish => do
    let r ← caught (do let _ ← finish c; pure ())
    drop c
    pure (some r)
  | .run fuel => do
    match ← caught (run_sync c fuel) with
    | .ok none => pure none
    | .ok (some _) => drop c; pure (some (.ok ()))
    | .err e => drop c; pure (some (.err e))
    | .panicked => drop c; pure (some .panicked)
  | .run_threaded => do
    match ← caught take_built with
    | .ok _ => pure none
    | .err e => drop c; pure (some (.err e))
    | .panicked => drop c; pure (some .panicked)
  | .drop => do
    drop c
    pure (some (.ok ()))

/-- The life of a pipeline in the hands of its owner: any calls, then one that consumes
it. -/
def session (xs : List Call) (l : LastCall) :
    Code X Y Empty (Pipeline c.σ) (List (Outcome Unit) × Option (Outcome Unit)) := do
  let rs ← calls c xs
  let r ← last c l
  pure (rs, r)

end Pipeline

/-- A request with its answer. -/
abbrev Entry (X Y : Type) := Σ e : Eff X Y, Ans e

/-- The requests made so far, with their answers. -/
abbrev Log (X Y : Type) := List (Entry X Y)

/-- How the outside behaves: the answer to each request may depend on everything that
happened before. -/
abbrev Oracle (X Y : Type) := Log X Y → (e : Eff X Y) → Ans e

def Oracle.handler (o : Oracle X Y) (e : Eff X Y) (log : Log X Y) : Ans e × Log X Y :=
  (o log e, log ++ [⟨e, o log e⟩])

def Eff.isPull : Eff X Y → Bool
  | .pull | .pullTimeout _ => true
  | _ => false

/-- How many times the source was asked. -/
def Log.pulls (log : Log X Y) : Nat := log.countP fun a => a.1.isPull

/-- An outside where the source yields `xs` and nothing fails. -/
def Oracle.serving (xs : List X) : Oracle X Y := fun log e =>
  match e with
  | .pull => some (.ok xs[log.pulls]?)
  | .pullTimeout _ => some (.ok (Pull.from xs[log.pulls]?))
  | .closeSource | .write _ | .flush | .close | .deadLetter _ => some (.ok ())
  | .observe _ => some ()
  | .isCancelled => false
  | .sleep _ | .offer _ => true
  | .note _ | .dropReceiver | .dropSender | .dropDone | .waitDone | .spawn _ => ()
  | .recv _ => .disconnected
  | .send _ => false
  | .trySend _ => .disconnected
  | .join _ => .panicked
  | .takeFirst => none

/-- Run against an oracle, from an empty log. -/
def Oracle.run (o : Oracle X Y) (x : Code X Y H σ α) (s : σ) : (Res H α × σ) × Log X Y :=
  Prog.exec o.handler (x s) []

end PipeIo
