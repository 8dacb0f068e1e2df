import PipeIo.Retry
import PipeIo.Runtime

namespace PipeIo
set_option autoImplicit true

open Lib

/-- What a method of a user's `Stage` does: it emits items, each time learning whether the
downstream is still open, and returns or panics. `s` is the stage's own state at that
point. -/
inductive Script (U φ : Type) where
  | ret (r : Except BoxError Unit) (s : φ)
  | panic (s : φ)
  | emit (item : U) (s : φ) (k : Bool → Script U φ)

/-- A user's `Stage`. -/
structure Stage (T U : Type) where
  φ : Type
  init : φ
  process : T → φ → Script U φ
  tick : φ → Script U φ
  flush : φ → Script U φ

/-- A boxed stage closure (`BoxedStageFn`) with everything it captured: it takes an
operation and passes operations on until they reach the tail of the chain. On success it
returns how many items the sink accepted because of the call. -/
structure StageFn (X Y T : Type) where
  σ : Type
  init : σ
  call : StageOp T → Code X Y Halt (σ × Ctx) Nat

/-- What the user's closure in a closure stage makes of one item: items for the next stage,
an error, or, after `outs`, a panic. -/
inductive Reaction (U : Type) where
  | items (outs : List U)
  | fail (error : BoxError)
  | panic (outs : List U)
  deriving DecidableEq, Repr

/-- A closure stage with the state its closure captured; `keep` is what a dead-letter
record gets of the failing item. -/
structure ItemStage (T U : Type) where
  φ : Type
  init : φ
  react : T → φ → Reaction U × φ
  keep : T → Option AnyBox
  policy : ErrorPolicy
  id : StageId

/-- The stage of `try_map_retry`; `hash` seeds its jitter. -/
structure RetryStage (T U : Type) where
  φ : Type
  init : φ
  f : T → φ → Option (Except BoxError U) × φ
  retry : RetryPolicy
  hash : BitVec 64
  policy : ErrorPolicy
  id : StageId

/-- One entry of the builder's record of stages. -/
inductive Node (T U : Type) : Type 1 where
  | item (st : ItemStage T U)
  | retry (st : RetryStage T U)
  | stage (st : Stage T U) (policy : ErrorPolicy) (id : StageId)

/-- The stages between two points of a pipeline, in order. -/
inductive Stages : Type → Type → Type 1 where
  | nil : Stages T T
  | cons (node : Node T U) (rest : Stages U V) : Stages T V

namespace Stages

def length : Stages T U → Nat
  | .nil => 0
  | .cons _ rest => rest.length + 1

def append : Stages T U → Stages U V → Stages T V
  | .nil, more => more
  | .cons node rest, more => .cons node (rest.append more)

end Stages

section Lenses

variable {X Y H φ ν α : Type}

/-- Run on the state of the stage itself. -/
def own (x : Code X Y H φ α) : Code X Y H ((φ × ν) × Ctx) α :=
  Act.zoom (fun s => s.1.1) (fun p s => ((p, s.1.2), s.2)) x

/-- Run on the state of the stages after it. -/
def down (x : Code X Y H (ν × Ctx) α) : Code X Y H ((φ × ν) × Ctx) α :=
  Act.zoom (fun s => (s.1.2, s.2)) (fun t s => ((s.1.1, t.1), t.2)) x

def inCtx (x : Code X Y H Ctx α) : Code X Y H (ν × Ctx) α :=
  Act.zoom (fun s => s.2) (fun c s => (s.1, c)) x

end Lenses

/-- Pass the items on one by one; the first `Err` ends it. -/
def emitAll (next : StageOp U → Code X Y Halt σ Nat) : List U → Code X Y Halt σ Nat
  | [] => pure 0
  | out :: outs => do
    let written ← next (.process out)
    let more ← emitAll next outs
    pure (written + more)

/-- The closures of `map`, `filter`, `filter_map`, `flat_map`, `inspect`, `try_map` and
`try_map_ref`. -/
def ItemStage.call (st : ItemStage T U) (depth : Nat)
    (next : StageOp U → Code X Y Halt (ν × Ctx) Nat) (op : StageOp T) :
    Code X Y Halt ((st.φ × ν) × Ctx) Nat :=
  match op.into_item with
  | .ok item => do
    note (.stage depth none)
    match ← own (Act.state (st.react item)) with
    | .items outs => emitAll (fun op => down (next op)) outs
    | .fail e => inCtx (handle_failure st.policy st.id e (st.keep item) 1)
    | .panic outs =>
      let _ ← emitAll (fun op => down (next op)) outs
      Act.panic
  | .error signal => down (next signal.op)

/-- Run one stage method with an emit adapter, then apply the error policy. `halted` and
`written` are the adapter's. -/
def drive (policy : ErrorPolicy) (id : StageId) (next : StageOp U → Code X Y Halt (ν × Ctx) Nat) :
    Script U φ → Option Halt → Nat → Code X Y Halt ((φ × ν) × Ctx) Nat
  | .ret r s, halted, written => do
    own (Act.modify fun _ => s)
    match halted, r with
    | some halt, _ => Act.halt halt
    | none, .ok () => pure written
    | none, .error e => (· + written) <$> inCtx (handle_failure policy id e none 1)
  | .panic s, _, _ => do
    own (Act.modify fun _ => s)
    Act.panic
  | .emit item s k, halted, written => do
    own (Act.modify fun _ => s)
    match halted with
    | some halt => drive policy id next (k false) (some halt) written
    | none =>
      match ← Act.attempt (down (next (.process item))) with
      | .ok n => drive policy id next (k true) none (written + n)
      | .error halt => drive policy id next (k false) (some halt) written

/-- The closure of `PipelineBuilder::stage_as`. -/
def Stage.call (st : Stage T U) (policy : ErrorPolicy) (id : StageId) (depth : Nat)
    (next : StageOp U → Code X Y Halt (ν × Ctx) Nat) :
    StageOp T → Code X Y Halt ((st.φ × ν) × Ctx) Nat
  | .process item => do
    note (.stage depth none)
    let s ← own Act.get
    drive policy id next (st.process item s) none 0
  | .tick => do
    note (.stage depth (some .tick))
    let s ← own Act.get
    let emitted ← drive policy id next (st.tick s) none 0
    (emitted + ·) <$> down (next .tick)
  | .flush => do
    note (.stage depth (some .flush))
    let s ← own Act.get
    -- a flush error handled by the policy still lets the flush reach every later stage
    let emitted ← drive policy id next (st.flush s) none 0
    (emitted + ·) <$> down (next .flush)
  | .close => down (next .close)
  | .abort => down (next .abort)

/-- `keep_input`: the failing item goes along only to the dead-letter sink. -/
def keep_input (policy : ErrorPolicy) (item : T) : Option AnyBox :=
  match policy with
  | .deadLetter => some ⟨T, item⟩
  | .failFast | .continue => none

/-- `sleep_unless_cancelled`: whether the whole delay passed. -/
def sleep_unless_cancelled (delay : Duration) : Code X Y H σ Bool := request (.sleep delay)

/-- One call of the closure given to `try_map_retry`; `retry` is what an error leads to. -/
def RetryStage.attempt (st : RetryStage T U) (depth : Nat) (item : T)
    (next : StageOp U → Code X Y Halt (ν × Ctx) Nat)
    (retry : BoxError → Code X Y Halt (((st.φ × Jitter) × ν) × Ctx) Nat) :
    Code X Y Halt (((st.φ × Jitter) × ν) × Ctx) Nat := do
  note (.stage depth none)
  let r ← own (Act.state fun s => let (r, p) := st.f item s.1; (r, (p, s.2)))
  match ← outcome r with
  | .ok out => down (next (.process out))
  | .error e => retry e

/-- The loop of `try_map_retry` on one item, with `left` attempts after this one. -/
def RetryStage.attempts (st : RetryStage T U) (depth : Nat) (item : T)
    (next : StageOp U → Code X Y Halt (ν × Ctx) Nat) :
    (left attempt : Nat) → Code X Y Halt (((st.φ × Jitter) × ν) × Ctx) Nat
  | 0, attempt => st.attempt depth item next fun e =>
    inCtx (handle_failure st.policy st.id e (keep_input st.policy item) attempt)
  | left + 1, attempt => st.attempt depth item next fun error => do
    let delay ← own (Act.state fun s =>
      let (delay, j) := st.retry.delay_for attempt s.2; (delay, (s.1, j)))
    inCtx (Ctx.count fun t => { t with retries := t.retries + 1 })
    let ctx ← inCtx Act.get
    emitEvent ctx.observer (.retry st.id attempt delay error)
    if ← sleep_unless_cancelled delay then st.attempts depth item next left (attempt + 1)
    else
      -- cancelled while backing off: give up on this item now
      inCtx (handle_failure st.policy st.id error (keep_input st.policy item) attempt)

/-- The closure of `try_map_retry`. -/
def RetryStage.call (st : RetryStage T U) (depth : Nat)
    (next : StageOp U → Code X Y Halt (ν × Ctx) Nat) (op : StageOp T) :
    Code X Y Halt (((st.φ × Jitter) × ν) × Ctx) Nat :=
  match op.into_item with
  | .ok item => st.attempts depth item next (st.retry.max_attempts - 1) 1
  | .error signal => down (next signal.op)

namespace Node

/-- What the closure of a stage captures besides the next stage. -/
@[reducible] def φ : Node T U → Type
  | .item st => st.φ
  | .retry st => st.φ × Jitter
  | .stage st _ _ => st.φ

def init : (node : Node T U) → node.φ
  | .item st => st.init
  | .retry st => (st.init, Jitter.seeded st.hash)
  | .stage st _ _ => st.init

def call (node : Node T U) (depth : Nat) (next : StageOp U → Code X Y Halt (ν × Ctx) Nat) :
    StageOp T → Code X Y Halt ((node.φ × ν) × Ctx) Nat :=
  match node with
  | .item st => st.call depth next
  | .retry st => st.call depth next
  | .stage st policy id => st.call policy id depth next

/-- Turn the next stage into this stage. -/
def link (node : Node T U) (depth : Nat) (next : StageFn X Y U) : StageFn X Y T where
  σ := node.φ × next.σ
  init := (node.init, next.init)
  call := node.call depth next.call

end Node

/-- Assemble the chain, from the tail backwards. -/
def Stages.assemble : Stages T U → StageFn X Y U → StageFn X Y T
  | .nil, tail => tail
  | .cons node rest, tail => node.link rest.length (rest.assemble tail)

namespace PipelineBuilder

variable {T U φ : Type}

/-- A closure stage that cannot fail. -/
def closure (react : T → φ → Reaction U × φ) (init : φ) : Node T U :=
  .item ⟨φ, init, react, fun _ => none, .failFast, ""⟩

def map (f : T → φ → Option U × φ) (init : φ) : Node T U :=
  closure (fun item s => match f item s with
    | (some out, s) => (.items [out], s)
    | (none, s) => (.panic [], s)) init

def filter (pred : T → φ → Option Bool × φ) (init : φ) : Node T T :=
  closure (fun item s => match pred item s with
    | (some true, s) => (.items [item], s)
    | (some false, s) => (.items [], s)
    | (none, s) => (.panic [], s)) init

def filter_map (f : T → φ → Option (Option U) × φ) (init : φ) : Node T U :=
  closure (fun item s => match f item s with
    | (some (some out), s) => (.items [out], s)
    | (some none, s) => (.items [], s)
    | (none, s) => (.panic [], s)) init

/-- The iterator `f` returns may panic after some items. -/
def flat_map (f : T → φ → (List U × Bool) × φ) (init : φ) : Node T U :=
  closure (fun item s => match f item s with
    | ((outs, false), s) => (.items outs, s)
    | ((outs, true), s) => (.panic outs, s)) init

def inspect (f : T → φ → Option Unit × φ) (init : φ) : Node T T :=
  closure (fun item s => match f item s with
    | (some (), s) => (.items [item], s)
    | (none, s) => (.panic [], s)) init

def try_map (policy : ErrorPolicy) (id : StageId)
    (f : T → φ → Option (Except BoxError U) × φ) (init : φ) : Node T U :=
  .item ⟨φ, init, fun item s => match f item s with
    | (some (.ok out), s) => (.items [out], s)
    | (some (.error e), s) => (.fail e, s)
    | (none, s) => (.panic [], s), fun _ => none, policy, id⟩

def try_map_ref (policy : ErrorPolicy) (id : StageId)
    (f : T → φ → Option (Except BoxError U) × φ) (init : φ) : Node T U :=
  .item ⟨φ, init, fun item s => match f item s with
    | (some (.ok out), s) => (.items [out], s)
    | (some (.error e), s) => (.fail e, s)
    | (none, s) => (.panic [], s), keep_input policy, policy, id⟩

def try_map_retry (policy : ErrorPolicy) (id : StageId) (retry : RetryPolicy) (hash : BitVec 64)
    (f : T → φ → Option (Except BoxError U) × φ) (init : φ) : Node T U :=
  .retry ⟨φ, init, f, retry, hash, policy, id⟩

def stage (st : Stage T U) (policy : ErrorPolicy) (id : StageId) : Node T U :=
  .stage st policy id

end PipelineBuilder

/-- The captured flags of the closure at the tail of every chain. -/
structure SinkFlags where
  flushed : Bool
  closed : Bool
  deriving DecidableEq, Repr

/-- `sink.flush()` or `sink.close()`, with its error. -/
def sinkCall (id : StageId) (e : Option (Except BoxError Unit)) : Code X Y Halt σ Unit := do
  match ← outcome e with
  | .ok () => pure ()
  | .error e => Act.halt (.failed (.sink id e))

/-- `flush` runs at most once: the flag is set before the call. -/
def flushOnce (id : StageId) : Code X Y Halt (SinkFlags × Ctx) Unit := do
  if (← Act.get).1.flushed then pure ()
  else
    Act.modify fun s => ({ s.1 with flushed := true }, s.2)
    sinkCall id (← request .flush)

/-- `close` runs at most once. -/
def closeOnce (id : StageId) : Code X Y Halt (SinkFlags × Ctx) Unit := do
  if (← Act.get).1.closed then pure ()
  else
    Act.modify fun s => ({ s.1 with closed := true }, s.2)
    sinkCall id (← request .close)

/-- The closure at the tail of every chain. -/
def sink_fn (id : StageId) : StageFn X Y Y where
  σ := SinkFlags
  init := ⟨false, false⟩
  call
    | .process item => do
      sinkCall id (← request (.write item))
      pure 1
    | .tick => pure 0
    | .flush => do
      flushOnce id
      pure 0
    | .close => do
      closeOnce id
      pure 0
    | .abort => do
      let flush_result ← Act.attempt (flushOnce id)
      let close_result ← Act.attempt (closeOnce id)
      match flush_result, close_result with
      | .error first, .error (.failed second) =>
        emitEvent (← Act.get).2.observer (.teardownError second)
        Act.halt first
      | .error e, _ | .ok (), .error e => Act.halt e
      | .ok (), .ok () => pure 0

end PipeIo
