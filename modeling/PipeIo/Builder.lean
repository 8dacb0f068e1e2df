import PipeIo.Batch
import PipeIo.Threaded
import PipeIo.Window

namespace PipeIo
set_option autoImplicit true

/-- The method cannot fail, whatever the answers to what it emits. -/
def Script.Infallible : Script U φ → Prop
  | .ret (.ok ()) _ => True
  | .ret (.error _) _ => False
  | .panic _ => True
  | .emit _ _ k => ∀ open_, (k open_).Infallible

/-- A `Stage` whose `Error` is `Infallible`. -/
structure InfallibleStage (T U : Type) extends Stage T U where
  process_ok : ∀ item s, (process item s).Infallible
  tick_ok : ∀ s, (tick s).Infallible
  flush_ok : ∀ s, (flush s).Infallible

/-- `Assemble`: the record of the stages added so far, cut at the `buffer` edges. -/
inductive Assembly : Type → Type → Type 1 where
  | piece (stages : Stages X T) : Assembly X T
  | buffer (before : Assembly X T) (capacity : Nat) (id : StageId) (after : Stages T U) : Assembly X U

namespace Assembly

def link (node : Node T U) : Assembly X T → Assembly X U
  | .piece stages => .piece (stages.append (.cons node .nil))
  | .buffer before capacity id after => .buffer before capacity id (after.append (.cons node .nil))

/-- The stages under `Wiring::sync`, where an edge is a direct call. -/
def sync : Assembly X T → Stages X T
  | .piece stages => stages
  | .buffer before _ _ after => before.sync.append after

end Assembly

namespace Assembly

/-- How many edges there are. -/
def edges : Assembly X T → Nat
  | .piece _ => 0
  | .buffer before .. => before.edges + 1

/-- The items at the edges, counted from the sink. -/
@[reducible] def Ty : (j : Nat) → {T : Type} → Assembly X T → Type
  | 0, T, _ => T
  | _ + 1, _, .piece _ => X
  | j + 1, _, .buffer before .. => before.Ty j

/-- The stages between the edges, counted from the sink. -/
def pieces : (j : Nat) → {T : Type} → (a : Assembly X T) → Stages (a.Ty (j + 1)) (a.Ty j)
  | 0, _, .piece stages => stages
  | 0, _, .buffer _ _ _ after => after
  | _ + 1, _, .piece _ => .nil
  | j + 1, _, .buffer before .. => before.pieces j

def capacity : Nat → Assembly X T → Nat
  | _, .piece _ => 0
  | 0, .buffer _ capacity .. => capacity
  | j + 1, .buffer before .. => before.capacity j

end Assembly

/-- The settings and the stages recorded so far. -/
structure PipelineBuilder (X T : Type) : Type 1 where
  source_id : StageId
  finalize : Assembly X T
  error_policy : ErrorPolicy
  pending_stage_id : Option StageId
  dead_letter : Bool
  dead_letter_user : Option StageId
  config_error : Option ConfigError
  observer : Bool
  idle_tick : Option Duration

/-- A method of the builder: `stage` stands for custom stages, the last argument of `batch`,
`batch_bytes`, `window` and `window_by_key` for the stage made of the policy and the clock. -/
inductive BuilderCall : Type → Type → Type 1 where
  | stage_id (id : StageId) : BuilderCall T T
  | source_id (id : StageId) : BuilderCall T T
  | on_error (policy : ErrorPolicy) : BuilderCall T T
  | dead_letter : BuilderCall T T
  | observe : BuilderCall T T
  | idle_tick (interval : Duration) : BuilderCall T T
  | map (f : T → φ → Option U × φ) (init : φ) : BuilderCall T U
  | filter (pred : T → φ → Option Bool × φ) (init : φ) : BuilderCall T T
  | filter_map (f : T → φ → Option (Option U) × φ) (init : φ) : BuilderCall T U
  | flat_map (f : T → φ → (List U × Bool) × φ) (init : φ) : BuilderCall T U
  | inspect (f : T → φ → Option Unit × φ) (init : φ) : BuilderCall T T
  | try_map (f : T → φ → Option (Except BoxError U) × φ) (init : φ) : BuilderCall T U
  | try_map_ref (f : T → φ → Option (Except BoxError U) × φ) (init : φ) : BuilderCall T U
  | try_map_retry (retry : RetryPolicy) (hash : BitVec 64)
      (f : T → φ → Option (Except BoxError U) × φ) (init : φ) : BuilderCall T U
  | stage (st : Stage T U) : BuilderCall T U
  | batch (policy : BatchPolicy) (st : InfallibleStage T U) : BuilderCall T U
  | batch_bytes (policy : BatchPolicy) (st : InfallibleStage T U) : BuilderCall T U
  | window (spec : WindowSpec) (st : InfallibleStage T U) : BuilderCall T U
  | window_by_key (spec : WindowSpec) (st : InfallibleStage T U) : BuilderCall T U
  | buffer (capacity : Nat) : BuilderCall T T

/-- `edge::MAX_CAPACITY`. -/
def MAX_CAPACITY : Nat := 2 ^ 20

namespace PipelineBuilder

variable {X T U : Type}

def from_source : PipelineBuilder X X :=
  ⟨"source", .piece .nil, .failFast, none, false, none, none, false, none⟩

def take_stage_id (default : StageId) (b : PipelineBuilder X T) : StageId × PipelineBuilder X T :=
  (b.pending_stage_id.getD default, { b with pending_stage_id := none })

def record (error : ConfigError) (b : PipelineBuilder X T) : PipelineBuilder X T :=
  if b.config_error.isNone then { b with config_error := some error } else b

/-- Record the error of a check of stage `id`. -/
def check (id : StageId) (r : Except ConfigErrorKind Unit) (b : PipelineBuilder X T) :
    PipelineBuilder X T :=
  match r with
  | .error kind => b.record ⟨id, kind⟩
  | .ok () => b

/-- Note that a fallible stage was added under the current policy. -/
def note_fallible (id : StageId) (b : PipelineBuilder X T) : PipelineBuilder X T :=
  if b.error_policy = .deadLetter ∧ b.dead_letter_user.isNone then
    { b with dead_letter_user := some id }
  else b

def link (node : Node T U) (b : PipelineBuilder X T) : PipelineBuilder X U :=
  { b with finalize := b.finalize.link node, pending_stage_id := none }

def stage_as (st : Stage T U) (id : StageId) (fallible : Bool) (b : PipelineBuilder X T) :
    PipelineBuilder X U :=
  let b := if fallible then b.note_fallible id else b
  b.link (.stage st b.error_policy id)

/-- The check of a batch policy; `byte_aware` tells whether the items have a byte size. -/
def check_batch (policy : BatchPolicy) (id : StageId) (byte_aware : Bool)
    (b : PipelineBuilder X T) : PipelineBuilder X T :=
  match policy.check with
  | .error kind => b.record ⟨id, kind⟩
  | .ok () =>
    if byte_aware = false ∧ policy.max_bytes.isSome then b.record ⟨id, .bytesRequireByteSize⟩
    else b

def call (b : PipelineBuilder X T) : BuilderCall T U → PipelineBuilder X U
  | .stage_id id => { b with pending_stage_id := some id }
  | .source_id id => { b with source_id := id }
  | .on_error policy => { b with error_policy := policy }
  | .dead_letter => { b with dead_letter := true }
  | .observe => { b with observer := true }
  | .idle_tick interval =>
    let b := if interval = 0 then b.record ⟨"idle_tick", .zeroDuration "idle_tick"⟩ else b
    { b with idle_tick := some interval }
  | .map f init => b.link (map f init)
  | .filter pred init => b.link (filter pred init)
  | .filter_map f init => b.link (filter_map f init)
  | .flat_map f init => b.link (flat_map f init)
  | .inspect f init => b.link (inspect f init)
  | .try_map f init =>
    let (id, b) := b.take_stage_id "try_map"
    let b := b.note_fallible id
    b.link (try_map b.error_policy id f init)
  | .try_map_ref f init =>
    let (id, b) := b.take_stage_id "try_map_ref"
    let b := b.note_fallible id
    b.link (try_map_ref b.error_policy id f init)
  | .try_map_retry retry hash f init =>
    let (id, b) := b.take_stage_id "try_map_retry"
    let b := (b.check id retry.check).note_fallible id
    b.link (try_map_retry b.error_policy id retry hash f init)
  | .stage st =>
    let (id, b) := b.take_stage_id "stage"
    b.stage_as st id true
  | .batch policy st =>
    let (id, b) := b.take_stage_id "batch"
    (b.check_batch policy id false).stage_as st.toStage id false
  | .batch_bytes policy st =>
    let (id, b) := b.take_stage_id "batch"
    (b.check_batch policy id true).stage_as st.toStage id false
  | .window spec st | .window_by_key spec st =>
    let (id, b) := b.take_stage_id "window"
    (b.check id spec.check).stage_as st.toStage id false
  | .buffer capacity =>
    let (id, b) := b.take_stage_id "buffer"
    let b := if MAX_CAPACITY < capacity then b.record ⟨id, .limitTooLarge "capacity" MAX_CAPACITY⟩
      else b
    { b with finalize := .buffer b.finalize capacity id .nil, pending_stage_id := none }

/-- The builder in `sink`, with everything recorded. -/
def checked (b : PipelineBuilder X T) : PipelineBuilder X T :=
  match b.dead_letter_user with
  | some user => if b.dead_letter then b else b.record ⟨user, .deadLetterSinkMissing⟩
  | none => b

def sink_id (b : PipelineBuilder X T) : StageId := (b.take_stage_id "sink").1

/-- The assembly of a single-threaded run. -/
def chain (b : PipelineBuilder X T) : StageFn X T X := b.finalize.sync.assemble (sink_fn b.sink_id)

def built (b : PipelineBuilder X T) : Built := ⟨b.dead_letter, b.observer⟩

/-- Terminate the pipeline with a sink. -/
def sink (b : PipelineBuilder X T) : Pipeline b.chain.σ :=
  Pipeline.new b.source_id b.idle_tick b.checked.config_error b.built

/-- The assembly of a threaded run. -/
def wiring (b : PipelineBuilder X T) (cancel : Bool) : ThreadedWiring fun j => b.finalize.Ty j where
  n := b.finalize.edges
  piece j := b.finalize.pieces j
  capacity j := b.finalize.capacity j
  sink_id := b.sink_id
  source_id := b.source_id
  idle_tick := b.idle_tick
  cancel := cancel
  built := b.built

end PipelineBuilder

/-- Builder calls, one after the other. -/
inductive BuilderCalls : Type → Type → Type 1 where
  | nil : BuilderCalls T T
  | cons (call : BuilderCall T U) (rest : BuilderCalls U V) : BuilderCalls T V

def BuilderCalls.build : BuilderCalls T U → PipelineBuilder X T → PipelineBuilder X U
  | .nil, b => b
  | .cons call rest, b => rest.build (b.call call)

end PipeIo
