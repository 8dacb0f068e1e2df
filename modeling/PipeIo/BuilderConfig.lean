import PipeIo.Builder

namespace PipeIo
set_option autoImplicit true

/-- The error of a failed check of stage `id`. -/
def errorOf (id : StageId) : Except ConfigErrorKind Unit → Option ConfigError
  | .error kind => some ⟨id, kind⟩
  | .ok () => none

namespace BuilderCall

/-- The name the next stage is to have, after a call made with `name` pending. -/
@[simp] def naming (name : Option StageId) : BuilderCall T U → Option StageId
  | .stage_id id => some id
  | .source_id _ | .on_error _ | .dead_letter | .observe | .idle_tick _ => name
  | _ => none

@[simp] def policy (p : ErrorPolicy) : BuilderCall T U → ErrorPolicy
  | .on_error q => q
  | _ => p

/-- The name of the fallible stage that the call adds. -/
@[simp] def fallible (name : Option StageId) : BuilderCall T U → Option StageId
  | .try_map .. => some (name.getD "try_map")
  | .try_map_ref .. => some (name.getD "try_map_ref")
  | .try_map_retry .. => some (name.getD "try_map_retry")
  | .stage _ => some (name.getD "stage")
  | _ => none

@[simp] def installs : BuilderCall T U → Bool
  | .dead_letter => true
  | _ => false

/-- What is invalid about the settings of the call. -/
@[simp] def invalid (name : Option StageId) : BuilderCall T U → Option ConfigError
  | .idle_tick interval =>
    if interval = 0 then some ⟨"idle_tick", .zeroDuration "idle_tick"⟩ else none
  | .try_map_retry retry .. => errorOf (name.getD "try_map_retry") retry.check
  | .batch policy _ =>
    (errorOf (name.getD "batch") policy.check).or
      (if policy.max_bytes.isSome then some ⟨name.getD "batch", .bytesRequireByteSize⟩ else none)
  | .batch_bytes policy _ => errorOf (name.getD "batch") policy.check
  | .window spec _ | .window_by_key spec _ => errorOf (name.getD "window") spec.check
  | .buffer capacity =>
    if MAX_CAPACITY < capacity then
      some ⟨name.getD "buffer", .limitTooLarge "capacity" MAX_CAPACITY⟩
    else none
  | _ => none

end BuilderCall

namespace BuilderCalls

/-- The invalid settings, in call order. -/
def invalid (name : Option StageId) : BuilderCalls T U → List ConfigError
  | .nil => []
  | .cons call rest => (call.invalid name).toList ++ rest.invalid (call.naming name)

/-- The fallible stages added under `DeadLetter`. -/
def users (p : ErrorPolicy) (name : Option StageId) : BuilderCalls T U → List StageId
  | .nil => []
  | .cons call rest =>
    (if p = .deadLetter then (call.fallible name).toList else []) ++
      rest.users (call.policy p) (call.naming name)

@[simp] def installs : BuilderCalls T U → Bool
  | .nil => false
  | .cons call rest => call.installs || rest.installs

/-- A dead-letter sink that is needed and never installed. -/
def missing (calls : BuilderCalls T U) : List ConfigError :=
  if calls.installs then []
  else (calls.users .failFast none).head?.toList.map fun user => ⟨user, .deadLetterSinkMissing⟩

end BuilderCalls

namespace PipelineBuilder

variable {X T U : Type} (b : PipelineBuilder X T)

theorem record_eq (error : ConfigError) :
    b.record error = { b with config_error := b.config_error.or (some error) } := by
  obtain ⟨_, _, _, _, _, _, config_error, _, _⟩ := b
  cases config_error <;> rfl

theorem check_eq (id : StageId) (r : Except ConfigErrorKind Unit) :
    b.check id r = { b with config_error := b.config_error.or (errorOf id r) } := by
  cases r with
  | error kind => exact b.record_eq _
  | ok u => simp [check, errorOf]

theorem note_fallible_eq (id : StageId) :
    b.note_fallible id = { b with
      dead_letter_user :=
        b.dead_letter_user.or (if b.error_policy = .deadLetter then some id else none) } := by
  obtain ⟨_, _, error_policy, _, _, user, _, _, _⟩ := b
  cases error_policy <;> cases user <;> rfl

theorem check_batch_eq (policy : BatchPolicy) (id : StageId) (byte_aware : Bool) :
    b.check_batch policy id byte_aware = { b with
      config_error := b.config_error.or ((errorOf id policy.check).or
        (if byte_aware = false ∧ policy.max_bytes.isSome then some ⟨id, .bytesRequireByteSize⟩
          else none)) } := by
  unfold check_batch
  cases policy.check with
  | error kind => simp [errorOf, record_eq]
  | ok u =>
    simp only [errorOf, Option.none_or]
    split
    · exact b.record_eq _
    · simp

/-- What a call makes of the settings. -/
structure Configured (call : BuilderCall T U) (b : PipelineBuilder X T)
    (b' : PipelineBuilder X U) : Prop where
  pending_stage_id : b'.pending_stage_id = call.naming b.pending_stage_id
  error_policy : b'.error_policy = call.policy b.error_policy
  dead_letter : b'.dead_letter = (b.dead_letter || call.installs)
  dead_letter_user : b'.dead_letter_user = b.dead_letter_user.or
    (if b.error_policy = .deadLetter then call.fallible b.pending_stage_id else none)
  config_error : b'.config_error = b.config_error.or (call.invalid b.pending_stage_id)

theorem call_configured (call : BuilderCall T U) : Configured call b (b.call call) := by
  cases call with
  | idle_tick interval =>
    by_cases h : interval = 0 <;> constructor <;> simp [PipelineBuilder.call, record_eq, h]
  | buffer capacity =>
    by_cases h : MAX_CAPACITY < capacity <;> constructor <;>
      simp [PipelineBuilder.call, take_stage_id, record_eq, h]
  | _ =>
    constructor <;> simp [PipelineBuilder.call, link, stage_as, take_stage_id, note_fallible_eq,
      check_eq, check_batch_eq]

/-- What a sequence of calls makes of the settings. -/
theorem build_config (calls : BuilderCalls T U) (b : PipelineBuilder X T) :
    (calls.build b).dead_letter = (b.dead_letter || calls.installs) ∧
      (calls.build b).dead_letter_user =
        b.dead_letter_user.or (calls.users b.error_policy b.pending_stage_id).head? ∧
      (calls.build b).config_error =
        b.config_error.or (calls.invalid b.pending_stage_id).head? := by
  induction calls with
  | nil => simp [BuilderCalls.build, BuilderCalls.installs, BuilderCalls.users, BuilderCalls.invalid]
  | cons call rest ih =>
    have h := call_configured b call
    obtain ⟨hinstalled, huser, herror⟩ := ih (b.call call)
    rw [h.dead_letter] at hinstalled
    rw [h.dead_letter_user, h.error_policy, h.pending_stage_id] at huser
    rw [h.config_error, h.pending_stage_id] at herror
    refine ⟨?_, ?_, ?_⟩
    · rw [BuilderCalls.build, hinstalled, BuilderCalls.installs, Bool.or_assoc]
    · rw [BuilderCalls.build, huser, BuilderCalls.users, Option.or_assoc, List.head?_append]
      split
      · rw [Option.head?_toList]
      · rfl
    · rw [BuilderCalls.build, herror, BuilderCalls.invalid, Option.or_assoc, List.head?_append,
        Option.head?_toList]

/-- The error that `sink` leaves in the pipeline. -/
theorem sink_config_error (calls : BuilderCalls X T) :
    (calls.build from_source).sink.config_error = (calls.invalid none ++ calls.missing).head? := by
  obtain ⟨hinstalled, huser, herror⟩ := build_config calls from_source
  replace hinstalled : (calls.build from_source).dead_letter = calls.installs := hinstalled
  replace huser : (calls.build from_source).dead_letter_user =
      (calls.users .failFast none).head? := huser
  replace herror : (calls.build from_source).config_error = (calls.invalid none).head? := herror
  change (calls.build from_source).checked.config_error = _
  rw [checked, huser, List.head?_append, ← herror, BuilderCalls.missing]
  cases (calls.users .failFast none).head? with
  | none => cases calls.installs <;> simp
  | some user =>
    simp only [hinstalled]
    cases calls.installs with
    | true => simp
    | false => simp [record_eq]

end PipelineBuilder

end PipeIo
