import PipeIo.Chain

namespace PipeIo
set_option autoImplicit true

open Lib

/-- How the pull loop ended. -/
inductive PumpEnd where
  | graceful
  | cancelled
  | failed (e : Error)
  | disconnected
  deriving DecidableEq, Repr

/-- Outcome of a single pull. -/
inductive Pulled where
  | item | idle | done
  deriving DecidableEq, Repr

def halted : Halt → PumpEnd
  | .failed e => .failed e
  | .disconnected => .disconnected

/-- `CancelSlot::is_cancelled`; `armed` tells whether a cancel handle exists. -/
def is_cancelled (armed : Bool) : Code X Y H σ Bool :=
  if armed then request .isCancelled else pure false

/-- The state of a runner. `chain` is `none` once `close_rest` has replaced the chain;
`segments_done` tells whether the runner still has to wait for the segments. -/
structure Runner (σ : Type) where
  source_id : StageId
  chain : Option σ
  ctx : Ctx
  owns_dlq : Bool
  live : Bool
  source_closed : Bool
  dlq_finished : Bool
  segments_done : Bool
  deriving DecidableEq, Repr

namespace Runner

variable {X Y H : Type} (c : StageFn X Y X)

def new (source_id : StageId) (ctx : Ctx) (owns_dlq : Bool) : Runner c.σ where
  source_id := source_id
  chain := some c.init
  ctx := ctx
  owns_dlq := owns_dlq
  live := true
  source_closed := false
  dlq_finished := false
  segments_done := false

def close_source_after (r : Runner σ) : Runner σ := { r with segments_done := true }

/-- One call of the chain's closure. -/
def chainFn (op : StageOp X) : Code X Y Halt (Runner c.σ) Nat := do
  note (.call op.signal)
  let r ← Act.get
  match r.chain with
  | none => pure 0
  | some s =>
    let result ← Act.attempt (Act.zoom (fun _ => (s, r.ctx))
      (fun t r => { r with chain := some t.1, ctx := t.2 }) (c.call op))
    match result with
    | .ok written => pure written
    | .error halt =>
      note .halted
      Act.halt halt

/-- Send one operation down the chain and count what reached the sink. -/
def call (op : StageOp X) : Code X Y Halt (Runner c.σ) Unit := do
  let written ← chainFn c op
  Act.modify fun r =>
    { r with ctx.tally.items_out := r.ctx.tally.items_out + written }

def pull (idle_tick : Option Duration) : Code X Y Error (Runner σ) (Pull X) := do
  let pulled ← match idle_tick with
    | none => do
      let pulled ← outcome (← request .pull)
      pure (pulled.map Pull.from)
    | some timeout => do outcome (← request (.pullTimeout timeout))
  match pulled with
  | .ok pulled => pure pulled
  | .error e => do Act.halt (.source (← Act.get).source_id e)

def tick : Code X Y Halt (Runner c.σ) Unit := do
  emitEvent (← Act.get).ctx.observer .idle
  call c .tick

/-- Pull one item (or time out) and push it through the chain. -/
def step (idle_tick : Option Duration) : Code X Y Halt (Runner c.σ) Pulled := do
  match ← Act.mapHalt .failed (pull idle_tick) with
  | .item item =>
    Act.modify fun r => { r with ctx.tally.items_in := r.ctx.tally.items_in + 1 }
    call c (.process item)
    pure .item
  | .idle =>
    tick c
    pure .idle
  | .done => pure .done

/-- One round of `pull_loop`; the counters `pulled` and `written` are the loop's own. -/
def pull_loop (cancellable : Bool) :
    Code X Y H (Runner c.σ × (Nat × Nat)) (Option PumpEnd) := do
  if ← is_cancelled cancellable then pure (some .cancelled)
  else
    match ← outcome (← request .pull) with
    | .ok (some item) =>
      Act.modify fun s => (s.1, (s.2.1 + 1, s.2.2))
      match ← Act.attempt (Act.zoom Prod.fst (fun r s => (r, s.2)) (chainFn c (.process item))) with
      | .ok n =>
        Act.modify fun s => (s.1, (s.2.1, s.2.2 + n))
        pure none
      | .error halt => pure (some (halted halt))
    | .ok none => pure (some .graceful)
    | .error e => do pure (some (.failed (.source (← Act.get).1.source_id e)))

/-- One round of `pump`. -/
def round (idle_tick : Option Duration) (cancel : Bool) :
    Code X Y H (Runner c.σ × (Nat × Nat)) (Option PumpEnd) :=
  match idle_tick with
  | none => pull_loop c cancel
  | some timeout => Act.zoom Prod.fst (fun r s => (r, s.2)) do
    if ← is_cancelled cancel then pure (some .cancelled)
    else
      match ← Act.attempt (step c (some timeout)) with
      | .ok .item | .ok .idle => pure none
      | .ok .done => pure (some .graceful)
      | .error halt => pure (some (halted halt))

/-- The counters of the loop are published once, at its end. -/
def publish : Code X Y H (Runner σ × (Nat × Nat)) Unit :=
  Act.modify fun s =>
    ({ s.1 with
      ctx.tally.items_in := s.1.ctx.tally.items_in + s.2.1
      ctx.tally.items_out := s.1.ctx.tally.items_out + s.2.2 }, (0, 0))

/-- Pull until the source ends, the run fails, or cancellation; `none` if that takes more
than `fuel` rounds. -/
def pump (fuel : Nat) (idle_tick : Option Duration) (cancel : Bool) :
    Code X Y H (Runner c.σ) (Option PumpEnd) :=
  Act.zoom (fun r => (r, (0, 0))) (fun s _ => s.1) do
    let «end» ← Act.repeatUntil (round c idle_tick cancel) fuel
    publish
    pure «end»

section Teardown

/-- Run on the runner, next to the errors collected so far. -/
def onRunner (x : Code X Y H (Runner σ) α) : Code X Y H (Runner σ × FirstError) α :=
  Act.zoom Prod.fst (fun r s => (r, s.2)) x

def onFirst (x : Bool → Code X Y H FirstError Unit) : Code X Y H (Runner σ × FirstError) Unit := do
  let s ← Act.get
  Act.zoom Prod.snd (fun f s => (s.1, f)) (x s.1.ctx.observer)

def onDlq (x : Bool → Code X Y H Dlq α) : Code X Y H (Runner σ × FirstError) α := do
  let s ← Act.get
  Act.zoom (fun s => s.1.ctx.dlq) (fun d s => ({ s.1 with ctx.dlq := d }, s.2))
    (x s.1.ctx.observer)

/-- Wait for the segments, after dropping the chain and with it the sending side of the
edge this thread feeds. -/
def wait_segments : Code X Y H (Runner σ × FirstError) Unit := do
  if (← Act.get).1.segments_done then
    Act.modify fun s => ({ s.1 with segments_done := false, chain := none }, s.2)
    request .dropSender
    request .waitDone
  else pure ()

def close_source : Code X Y H (Runner σ × FirstError) Unit := do
  if (← Act.get).1.source_closed then pure ()
  else
    Act.modify fun s => ({ s.1 with source_closed := true }, s.2)
    let closed ← outcome (← request .closeSource)
    let source_id := (← Act.get).1.source_id
    onFirst (FirstError.offer_result (closed.mapError (.source source_id)))

def finish_dlq : Code X Y H (Runner σ × FirstError) Unit := do
  let r := (← Act.get).1
  if r.owns_dlq ∧ r.dlq_finished = false then
    let finished ← Act.attempt (onDlq Dlq.finish)
    -- set afterwards: a retry after a panicking `flush` goes straight to `close`
    Act.modify fun s => ({ s.1 with dlq_finished := true }, s.2)
    onFirst (FirstError.offer_result finished)
  else pure ()

def close_rest : Code X Y H (Runner σ × FirstError) Unit := do
  wait_segments
  close_source
  finish_dlq

/-- Failure end: abort the chain, close the source, finish the dead-letter sink. -/
def abort : Code X Y H (Runner c.σ × FirstError) Unit := do
  let aborted ← Act.attempt (onRunner (call c .abort))
  onFirst (FirstError.offer_halt aborted)
  close_rest
  Act.modify fun s => ({ s.1 with live := false }, s.2)

/-- Graceful end: flush and close the chain, close the source, finish the dead-letter
sink. If the flush fails the chain is aborted instead of closed. -/
def finish : Code X Y H (Runner c.σ × FirstError) Unit := do
  match ← Act.attempt (onRunner (call c .flush)) with
  | .ok () =>
    let closed ← Act.attempt (onRunner (call c .close))
    onFirst (FirstError.offer_halt closed)
  | .error halt =>
    onFirst (FirstError.offer_halt (.error halt))
    let aborted ← Act.attempt (onRunner (call c .abort))
    onFirst (FirstError.offer_halt aborted)
  close_rest
  Act.modify fun s => ({ s.1 with live := false }, s.2)

/-- The attempts of `Drop for Runner`. -/
def retries : Nat → Code X Y H (Runner c.σ × FirstError) Unit
  | 0 => pure ()
  | n + 1 => do
    if (← Act.get).1.live then
      let _completed ← Act.contain (abort c)
      retries n
    else pure ()

/-- `Drop for Runner`. -/
def drop : Code X Y H (Runner c.σ) Unit := do
  if (← Act.get).live then
    Act.zoom (fun r => (r, none)) (fun s _ => s.1) do
      retries c 6
      match FirstError.into_result (← Act.get).2 with
      | .ok () => pure ()
      | .error e =>
        let _reported ← Act.contain (emitEvent (← Act.get).1.ctx.observer (.teardownError e))
        pure ()
  else pure ()

end Teardown

end Runner

end PipeIo
