import PipeIo.Pipeline

namespace PipeIo
set_option autoImplicit true

open Lib

/-- Upstream side of an edge. -/
def send (op : StageOp Y) : Code X Y Halt σ Nat :=
  match op with
  | .tick => do
    -- a tick is advisory: never block on one
    match ← request (.trySend .tick) with
    | .ok | .full => pure 0
    | .disconnected => Act.halt .disconnected
  | .abort => do
    let _sent ← request (.send .abort)
    pure 0
  | .process _ | .flush | .close => do
    if ← request (.send op) then pure 0 else Act.halt .disconnected

/-- The closure that `ThreadedWiring::split` returns. -/
def send_fn : StageFn X Y Y where
  σ := Unit
  init := ()
  call := send

/-- The first error across all threads; later ones go to the observer. -/
def SharedFirst.offer (error : Error) (observer : Bool) : Code X Y H σ Unit := do
  if ← request (.offer error) then pure ()
  else emitEvent observer (.teardownError error)

/-- The chain downstream of one `buffer` edge. `rx` tells whether it still has the
receiver. -/
structure ChannelSegment (σ : Type) where
  rx : Bool
  chain : σ
  ctx : Ctx
  live : Bool
  deriving DecidableEq, Repr

def StageOp.closing : StageOp T → Bool
  | .close | .abort => true
  | .process _ | .tick | .flush => false

namespace ChannelSegment

variable {X Y H : Type} (c : StageFn X Y X)

def new (ctx : Ctx) : ChannelSegment c.σ := ⟨true, c.init, ctx, true⟩

/-- One call of the chain's closure. -/
def chainFn (op : StageOp X) : Code X Y Halt (ChannelSegment c.σ) Nat := do
  note (.call op.signal)
  let result ← Act.attempt (Act.zoom (fun s => (s.chain, s.ctx))
    (fun t s => { s with chain := t.1, ctx := t.2 }) (c.call op))
  match result with
  | .ok written => pure written
  | .error halt =>
    note .halted
    Act.halt halt

def recv (idle_tick : Option Duration) : Code X Y H (ChannelSegment σ) (Option (StageOp X)) := do
  let s ← Act.get
  if s.rx then
    match ← request (.recv idle_tick) with
    | .msg op => pure (some op)
    | .timedOut =>
      emitEvent s.ctx.observer .idle
      pure (some .tick)
    | .disconnected => pure none
  else pure none

/-- `self.rx = None`. -/
def drop_rx : Code X Y H (ChannelSegment σ) Unit := do
  if (← Act.get).rx then
    Act.modify fun s => { s with rx := false }
    request .dropReceiver
  else pure ()

/-- Abort the chain; `offer` takes its error. -/
def abort (offer : Error → Bool → Code X Y H (ChannelSegment c.σ × φ) Unit) :
    Code X Y H (ChannelSegment c.σ × φ) Unit := do
  Act.modify fun s => ({ s.1 with live := false }, s.2)
  match ← Act.attempt (Act.zoom Prod.fst (fun t s => (t, s.2)) (chainFn c .abort)) with
  | .error (.failed e) => offer e (← Act.get).1.ctx.observer
  | .error .disconnected | .ok _ => pure ()

/-- `abort` with the first error of the whole run. -/
def abort_run : Code X Y H (ChannelSegment c.σ) Unit :=
  Act.zoom (fun s => (s, ())) (fun t _ => t.1) (abort c SharedFirst.offer)

/-- One round of `run`, with the counters when the loop is left. -/
def run (idle_tick : Option Duration) : Code X Y H (ChannelSegment c.σ) (Option Tally) := do
  match ← recv idle_tick with
  | none =>
    -- the upstream thread ended without closing the edge: tear this side down
    drop_rx
    abort_run c
    pure (some (← Act.get).ctx.tally)
  | some op =>
    match ← Act.attempt (chainFn c op) with
    | .ok written =>
      Act.modify fun s =>
        { s with ctx.tally.items_out := s.ctx.tally.items_out + written }
      if op.closing then
        Act.modify fun s => { s with live := false }
        pure (some (← Act.get).ctx.tally)
      else pure none
    | .error halt =>
      -- drop the receiver first so that a blocked upstream sender wakes up and stops
      drop_rx
      match halt with
      | .failed e => SharedFirst.offer e (← Act.get).ctx.observer
      | .disconnected => pure ()
      if op.closing then Act.modify fun s => { s with live := false }
      else abort_run c
      pure (some (← Act.get).ctx.tally)

/-- The attempts of `Drop for ChannelSegment`. -/
def retries : Nat → Code X Y H (ChannelSegment c.σ × FirstError) Unit
  | 0 => pure ()
  | n + 1 => do
    match ← Act.contain (abort c fun e observer =>
      Act.zoom Prod.snd (fun f s => (s.1, f)) (FirstError.offer e observer)) with
    | some () => pure ()
    | none => retries n

/-- `Drop for ChannelSegment`. -/
def drop_segment : Code X Y H (ChannelSegment c.σ) Unit := do
  if (← Act.get).live then
    Act.zoom (fun s => (s, none)) (fun t _ => t.1) do
      retries c 3
      match FirstError.into_result (← Act.get).2 with
      | .ok () => pure ()
      | .error e =>
        let _reported ← Act.contain (emitEvent (← Act.get).1.ctx.observer (.teardownError e))
        pure ()
  else pure ()

/-- `Drop`, then the fields in the order of their declaration: the receiver, the chain with
the sender of the edge it feeds, the sender of the `done` channel. -/
def drop : Code X Y H (ChannelSegment c.σ) Unit := do
  drop_segment c
  drop_rx
  request .dropSender
  request .dropDone

end ChannelSegment

/-- What runs on one thread: rounds of a loop, until one of them ends the thread. -/
structure Task (X Y : Type) where
  S : Type
  init : S
  round : S → Prog (Eff X Y) Ans (S ⊕ Exit)

/-- A thread that repeats `x`; `drop` runs on what it owns however it ends. -/
def Task.repeating {σ : Type} (init : σ) (x : Code X Y Empty σ (Option Exit))
    (drop : Code X Y Empty σ Unit) : Task X Y where
  S := σ
  init := init
  round s := x s >>= fun
    | (.ok none, s') => .ret (.inl s')
    | (.ok (some exit), s') => drop s' >>= fun _ => .ret (.inr exit)
    | (.panic, s') => drop s' >>= fun _ => .ret (.inr .panicked)

/-- The thread of a segment. -/
def ChannelSegment.task (c : StageFn X Y X) (ctx : Ctx) (idle_tick : Option Duration) :
    Task X Y :=
  .repeating (ChannelSegment.new c ctx) (do
    let tally ← ChannelSegment.run c idle_tick
    pure (tally.map fun t => .finished t false)) (ChannelSegment.drop c)

section Source

variable {X Y H : Type} (c : StageFn X Y X)

/-- The end of `source_loop`, after the pump. -/
def source_end («end» : PumpEnd) : Code X Y H (Runner c.σ) Unit :=
  Act.zoom (fun r => (r, none)) (fun s _ => s.1) do
    match «end» with
    | .graceful | .cancelled => Runner.finish c
    | .failed e =>
      SharedFirst.offer e (← Act.get).1.ctx.observer
      Runner.abort c
    -- a downstream thread failed and already reported its error
    | .disconnected => Runner.abort c
    let (r, «local») ← Act.get
    match FirstError.into_result «local» with
    | .error e => SharedFirst.offer e r.ctx.observer
    | .ok () => pure ()

/-- The source thread: pull, then finish or abort. -/
def source_loop (idle_tick : Option Duration) (cancel : Bool) :
    Code X Y H (Runner c.σ × (Nat × Nat)) (Option Exit) := do
  match ← Runner.round c idle_tick cancel with
  | none => pure none
  | some «end» =>
    Runner.publish
    Act.zoom Prod.fst (fun r s => (r, s.2)) (source_end c «end»)
    pure (some (.finished (← Act.get).1.ctx.tally («end» = .cancelled)))

/-- `Drop for Runner`, then the chain, if it still has one. -/
def drop_source : Code X Y H (Runner c.σ) Unit := do
  Runner.drop c
  match (← Act.get).chain with
  | some _ => request .dropSender
  | none => pure ()

/-- The source thread. -/
def source_task (source_id : StageId) (ctx : Ctx) (idle_tick : Option Duration) (cancel : Bool) :
    Task X Y :=
  .repeating ((Runner.new c source_id ctx false).close_source_after, (0, 0))
    (source_loop c idle_tick cancel) (Act.zoom Prod.fst (fun r s => (r, s.2)) (drop_source c))

end Source

/-- Results collected from the worker threads. -/
structure Joined where
  tally : Tally
  cancelled : Bool
  panic : Bool
  deriving DecidableEq, Repr

namespace Joined

def default : Joined := ⟨.zero, false, false⟩

def source (exit : Exit) (j : Joined) : Joined :=
  match exit with
  | .finished tally cancelled => { j with tally := j.tally.merge tally, cancelled := cancelled }
  | .panicked | .result _ => { j with panic := true }

def worker (exit : Exit) (j : Joined) : Joined :=
  match exit with
  | .finished tally _ => { j with tally := j.tally.merge tally }
  | .panicked | .result _ => { j with panic := true }

end Joined

namespace Threaded

variable {X Y H : Type}

/-- Segments are spawned sink-side first. -/
def spawn_segments : Nat → Code X Y H σ Unit
  | 0 => pure ()
  | n + 1 => do
    spawn_segments n
    request (.spawn n)

def join_workers : Nat → Code X Y H Joined Unit
  | 0 => pure ()
  | n + 1 => do
    join_workers n
    let exit ← request (.join n)
    Act.modify (Joined.worker exit)

/-- `join_all`: the source thread first, then the segments. -/
def join_all (n : Nat) : Code X Y H Joined Joined := do
  let exit ← request (.join n)
  Act.modify (Joined.source exit)
  join_workers n
  Act.get

/-- The end of a threaded run: finish the dead-letter sink, re-raise a worker's panic, report
the result. -/
def conclude (joined : Joined) (observer : Bool) :
    Code X Y H (Dlq × FirstError) (Except Error RunStats) := do
  let finished ← Act.attempt
    (Act.zoom Prod.fst (fun d s => (d, s.2)) (Dlq.finish observer))
  Act.zoom Prod.snd (fun f s => (s.1, f)) (FirstError.offer_result finished observer)
  if joined.panic then Act.panic
  else
    let stats := joined.tally.to_stats
    let result := Pipeline.result (← Act.get).2 joined.cancelled stats
    emitEvent observer
      (.finished stats (match result with | .ok _ => none | .error e => some e))
    pure result

/-- `threaded::run` on the calling thread, where every spawn succeeds; thread `n` is the
source thread. -/
def run (n : Nat) (built : Built) : Code X Y H Unit (Option Exit) := do
  emitEvent built.observer .started
  spawn_segments n
  request (.spawn n)
  let joined ← Act.withLocal Joined.default (join_all n) (pure ())
  let first ← request .takeFirst
  let result ← Act.withLocal (Dlq.new built.dead_letter, first)
    (conclude joined built.observer) (pure ())
  pure (some (.result result))

def task (n : Nat) (built : Built) : Task X Y := .repeating () (run n built) (pure ())

end Threaded

/-- A pipeline cut into pieces at its `buffer` edges, counted from the sink: piece `j` takes
items of type `Ty (j + 1)` and produces items of type `Ty j`, and edge `j`, of capacity
`capacity j`, leads into it. There are `n` edges; the source feeds piece `n`. -/
structure ThreadedWiring (Ty : Nat → Type) where
  n : Nat
  piece : (j : Nat) → Stages (Ty (j + 1)) (Ty j)
  capacity : Nat → Nat
  sink_id : StageId
  source_id : StageId
  idle_tick : Option Duration
  cancel : Bool
  built : Built

namespace ThreadedWiring

variable {Ty : Nat → Type} (w : ThreadedWiring Ty)

/-- The tail of piece `j`: the sink, or the sender of the next edge. -/
@[reducible] def tail : (j : Nat) → StageFn (Ty (j + 1)) (Ty j) (Ty j)
  | 0 => sink_fn w.sink_id
  | _ + 1 => send_fn

@[reducible] def chain (j : Nat) : StageFn (Ty (j + 1)) (Ty j) (Ty (j + 1)) :=
  (w.piece j).assemble (w.tail j)

/-- Each thread has its own context; the handles of the dead-letter sink share it. -/
def ctx : Ctx := Ctx.new (Dlq.new w.built.dead_letter) w.built.observer w.cancel

/-- Thread `j` runs piece `j`; thread `n` is the source thread and thread `n + 1` the one that
called `run_threaded`. -/
def task (j : Nat) : Task (Ty (j + 1)) (Ty j) :=
  if j < w.n then ChannelSegment.task (w.chain j) w.ctx w.idle_tick
  else if j = w.n then source_task (w.chain j) w.source_id w.ctx w.idle_tick w.cancel
  else Threaded.task w.n w.built

end ThreadedWiring

end PipeIo
