import PipeIo.BuilderConfig
import PipeIo.InstrumentSession

namespace PipeIo
set_option autoImplicit true

namespace Stages

theorem append_nil {T U : Type} (stages : Stages T U) : stages.append .nil = stages := by
  induction stages with
  | nil => rfl
  | cons node rest ih => exact congrArg (cons node) ih

theorem append_assoc {T U V W : Type} (a : Stages T U) (b : Stages U V) (c : Stages V W) :
    (a.append b).append c = a.append (b.append c) := by
  induction a with
  | nil => rfl
  | cons node rest ih => exact congrArg (cons node) (ih b)

end Stages

theorem Assembly.link_sync (a : Assembly X T) (node : Node T U) :
    (a.link node).sync = a.sync.append (.cons node .nil) := by
  cases a with
  | piece stages => rfl
  | buffer before capacity id after => exact (Stages.append_assoc _ _ _).symm

namespace BuilderCall

/-- The stage that the call adds to a single-threaded chain. -/
@[simp] def stages (p : ErrorPolicy) (name : Option StageId) : BuilderCall T U → Stages T U
  | .stage_id _ | .source_id _ | .on_error _ | .dead_letter | .observe | .idle_tick _
  | .buffer _ => .nil
  | .map f init => .cons (PipelineBuilder.map f init) .nil
  | .filter pred init => .cons (PipelineBuilder.filter pred init) .nil
  | .filter_map f init => .cons (PipelineBuilder.filter_map f init) .nil
  | .flat_map f init => .cons (PipelineBuilder.flat_map f init) .nil
  | .inspect f init => .cons (PipelineBuilder.inspect f init) .nil
  | .try_map f init => .cons (PipelineBuilder.try_map p (name.getD "try_map") f init) .nil
  | .try_map_ref f init =>
    .cons (PipelineBuilder.try_map_ref p (name.getD "try_map_ref") f init) .nil
  | .try_map_retry retry hash f init =>
    .cons (PipelineBuilder.try_map_retry p (name.getD "try_map_retry") retry hash f init) .nil
  | .stage st => .cons (PipelineBuilder.stage st p (name.getD "stage")) .nil
  | .batch _ st | .batch_bytes _ st =>
    .cons (PipelineBuilder.stage st.toStage p (name.getD "batch")) .nil
  | .window _ st | .window_by_key _ st =>
    .cons (PipelineBuilder.stage st.toStage p (name.getD "window")) .nil

@[simp] def source (id : StageId) : BuilderCall T U → StageId
  | .source_id id => id
  | _ => id

@[simp] def ticking (idle_tick : Option Duration) : BuilderCall T U → Option Duration
  | .idle_tick interval => some interval
  | _ => idle_tick

end BuilderCall

namespace PipelineBuilder

variable {X T U : Type}

/-- What a call makes of the single-threaded pipeline. -/
structure Assembled (call : BuilderCall T U) (b : PipelineBuilder X T)
    (b' : PipelineBuilder X U) : Prop where
  source_id : b'.source_id = call.source b.source_id
  idle_tick : b'.idle_tick = call.ticking b.idle_tick
  stages : b'.finalize.sync =
    b.finalize.sync.append (call.stages b.error_policy b.pending_stage_id)

theorem call_assembled (b : PipelineBuilder X T) (call : BuilderCall T U) :
    Assembled call b (b.call call) := by
  cases call with
  | idle_tick interval =>
    by_cases h : interval = 0 <;> constructor <;>
      simp [PipelineBuilder.call, record_eq, h, Stages.append_nil]
  | buffer capacity =>
    by_cases h : MAX_CAPACITY < capacity <;> constructor <;>
      simp [PipelineBuilder.call, take_stage_id, record_eq, h, Assembly.sync]
  | _ =>
    constructor <;> simp [PipelineBuilder.call, link, stage_as, take_stage_id, note_fallible_eq,
      check_eq, check_batch_eq, Assembly.link_sync, Stages.append_nil, PipelineBuilder.stage]

end PipelineBuilder

/-- The call names what it adds after the pending id. -/
def BuilderCall.takes : BuilderCall T U → Bool
  | .try_map .. | .try_map_ref .. | .try_map_retry .. | .stage _ | .batch .. | .batch_bytes ..
  | .window .. | .window_by_key .. | .buffer _ => true
  | _ => false

/-- The call leaves the pending id for the next one. -/
def BuilderCall.passes : BuilderCall T U → Bool
  | .source_id _ | .on_error _ | .dead_letter | .observe | .idle_tick _ => true
  | _ => false

/-- A pending id names a stage, or the sink. -/
def BuilderCalls.takes : {T U : Type} → BuilderCalls T U → Bool
  | _, _, .nil => true
  | _, _, .cons call rest => call.takes || (call.passes && rest.takes)

/-- The second sequence of calls has observers and `buffer` edges of valid capacity added, but no
edge between a `stage_id` and what it names; `name` is the id that is pending in the first one. -/
inductive BuilderCalls.Instrumented :
    {T U : Type} → (name : Option StageId) → BuilderCalls T U → BuilderCalls T U → Prop where
  | nil : Instrumented name (.nil : BuilderCalls T T) .nil
  | cons (call : BuilderCall T U) (h : Instrumented (call.naming name) rest rest') :
      Instrumented name (.cons call rest) (.cons call rest')
  | observe (h : Instrumented name rest rest') : Instrumented name rest (.cons .observe rest')
  | buffer (hname : name = none ∨ rest.takes = false) (hcapacity : capacity ≤ MAX_CAPACITY)
      (h : Instrumented name rest rest') :
      Instrumented name rest (.cons (.buffer capacity) rest')

namespace PipelineBuilder

variable {X T U : Type}

/-- Two builders of one pipeline under different instrumentation. -/
structure Twin (b b' : PipelineBuilder X T) : Prop where
  source_id : b.source_id = b'.source_id
  idle_tick : b.idle_tick = b'.idle_tick
  stages : b.finalize.sync = b'.finalize.sync
  error_policy : b.error_policy = b'.error_policy
  dead_letter : b.dead_letter = b'.dead_letter
  dead_letter_user : b.dead_letter_user = b'.dead_letter_user
  config_error : b.config_error = b'.config_error

theorem Twin.call {b b' : PipelineBuilder X T} (h : b.Twin b') (call : BuilderCall T U)
    (hname : call.takes = true → b.pending_stage_id = b'.pending_stage_id) :
    (b.call call).Twin (b'.call call) := by
  have hc := call_configured b call
  have hc' := call_configured b' call
  have ha := call_assembled b call
  have ha' := call_assembled b' call
  have hfallible : call.fallible b.pending_stage_id = call.fallible b'.pending_stage_id := by
    cases call <;> first | rfl | rw [hname rfl]
  have hinvalid : call.invalid b.pending_stage_id = call.invalid b'.pending_stage_id := by
    cases call <;> first | rfl | rw [hname rfl]
  have hstages : call.stages b.error_policy b.pending_stage_id =
      call.stages b'.error_policy b'.pending_stage_id := by
    rw [h.error_policy]
    cases call <;> first | rfl | rw [hname rfl]
  constructor
  · rw [ha.source_id, ha'.source_id, h.source_id]
  · rw [ha.idle_tick, ha'.idle_tick, h.idle_tick]
  · rw [ha.stages, ha'.stages, h.stages, hstages]
  · rw [hc.error_policy, hc'.error_policy, h.error_policy]
  · rw [hc.dead_letter, hc'.dead_letter, h.dead_letter]
  · rw [hc.dead_letter_user, hc'.dead_letter_user, h.dead_letter_user, h.error_policy, hfallible]
  · rw [hc.config_error, hc'.config_error, h.config_error, hinvalid]

/-- An edge is not there in a single-threaded pipeline. -/
theorem Twin.buffer {b b' : PipelineBuilder X T} (h : b.Twin b')
    (hcapacity : capacity ≤ MAX_CAPACITY) : b.Twin (b'.call (.buffer capacity)) := by
  have hc := call_configured b' (.buffer capacity)
  have ha := call_assembled b' (.buffer capacity)
  have hstages := ha.stages
  rw [BuilderCall.stages, Stages.append_nil] at hstages
  constructor
  · exact h.source_id.trans ha.source_id.symm
  · exact h.idle_tick.trans ha.idle_tick.symm
  · exact h.stages.trans hstages.symm
  · exact h.error_policy.trans hc.error_policy.symm
  · simp [hc.dead_letter, h.dead_letter]
  · simp [hc.dead_letter_user, h.dead_letter_user]
  · simp [hc.config_error, h.config_error, Nat.not_lt.2 hcapacity]

/-- The pending id of the next call, where its last one was pending in both. -/
theorem pending_call {b b' : PipelineBuilder X T} (call : BuilderCall T U)
    (rest : BuilderCalls U V)
    (h : b'.pending_stage_id = b.pending_stage_id ∨ (BuilderCalls.cons call rest).takes = false) :
    (b'.call call).pending_stage_id = (b.call call).pending_stage_id ∨ rest.takes = false := by
  rw [(call_configured b call).pending_stage_id, (call_configured b' call).pending_stage_id]
  rcases h with h | h
  · exact .inl (congrArg call.naming h)
  · cases call <;> first | exact .inl rfl | exact .inr h

theorem build_twin {T U : Type} {name : Option StageId} {calls calls' : BuilderCalls T U}
    (h : calls.Instrumented name calls') {b b' : PipelineBuilder X T} (hb : b.Twin b')
    (hname : b.pending_stage_id = name)
    (hname' : b'.pending_stage_id = b.pending_stage_id ∨ calls.takes = false) :
    (calls.build b).Twin (calls'.build b') ∧
      (calls.build b).sink_id = (calls'.build b').sink_id := by
  induction h with
  | nil =>
    refine ⟨hb, ?_⟩
    rcases hname' with hname' | hname'
    · exact congrArg (·.getD "sink") hname'.symm
    · cases hname'
  | @cons T U V name rest rest' call h ih =>
    subst hname
    have htakes : call.takes = true → b.pending_stage_id = b'.pending_stage_id := by
      intro htakes
      rcases hname' with hname' | hname'
      · exact hname'.symm
      · rw [BuilderCalls.takes, htakes] at hname'
        cases hname'
    exact ih (hb.call call htakes) (call_configured b call).pending_stage_id
      (pending_call call rest hname')
  | observe h ih => exact ih { hb with } hname hname'
  | @buffer name T U rest capacity rest' hfree hcapacity h ih =>
    subst hname
    exact ih (hb.buffer hcapacity) rfl (hfree.imp_left Eq.symm)

theorem Twin.checked {b b' : PipelineBuilder X T} (h : b.Twin b') :
    b.checked.config_error = b'.checked.config_error := by
  unfold PipelineBuilder.checked
  rw [h.dead_letter_user, h.dead_letter]
  cases b'.dead_letter_user with
  | none => exact h.config_error
  | some user =>
    cases b'.dead_letter with
    | true => exact h.config_error
    | false => simp [record_eq, h.config_error]

end PipelineBuilder

/-- Pipelines built alike. -/
theorem Pipeline.new_alike {c c' : StageFn X Y X} (hc : c.Alike) (hchain : c = c')
    {source_id source_id' : StageId} (hid : source_id = source_id')
    {idle_tick idle_tick' : Option Duration} (htick : idle_tick = idle_tick')
    {ce ce' : Option ConfigError} (hce : ce = ce') {built built' : Built}
    (hbuilt : built.dead_letter = built'.dead_letter) (components : Oracle X Y) (xs : List Call)
    (l : LastCall) :
    let run := components.instrumented.run (Pipeline.reported c (bare xs) l)
      (Pipeline.new source_id idle_tick ce built)
    let run' := components.instrumented.run (Pipeline.reported c' xs l)
      (Pipeline.new source_id' idle_tick' ce' built')
    run.2.shown = run'.2.shown ∧
      Lib.Res.Related (fun r r' => r = (answered xs r'.1, r'.2)) run.1.1 run'.1.1 ∧
        run.1.2.stats = run'.1.2.stats := by
  subst hchain hid htick hce
  have hp : Pipeline.Alike (Pipeline.new source_id idle_tick ce built : Pipeline c.σ)
      (Pipeline.new source_id idle_tick ce built') := ⟨rfl, rfl, rfl, .built hbuilt, rfl⟩
  exact hp.reported hc components xs l

/-- Instrumentation is transparent: with or without observers that do not panic, a cancel handle
that is never fired and `buffer` edges, a single-threaded pipeline makes the same calls of its
source, stages, sink and dead-letter sink, answers its owner alike and counts alike. -/
theorem PipelineBuilder.instrumentation_transparent {X T : Type} {calls calls' : BuilderCalls X T}
    (h : calls.Instrumented none calls') (components : Oracle X T) (xs : List Call)
    (l : LastCall) :
    let b := calls.build from_source
    let b' := calls'.build from_source
    let run := components.instrumented.run (Pipeline.reported b.chain (bare xs) l) b.sink
    let run' := components.instrumented.run (Pipeline.reported b'.chain xs l) b'.sink
    run.2.shown = run'.2.shown ∧
      Lib.Res.Related (fun r r' => r = (answered xs r'.1, r'.2)) run.1.1 run'.1.1 ∧
        run.1.2.stats = run'.1.2.stats := by
  intro b b'
  have hsame : (from_source : PipelineBuilder X X).Twin from_source :=
    ⟨rfl, rfl, rfl, rfl, rfl, rfl, rfl⟩
  obtain ⟨htwin, hid⟩ := build_twin h hsame rfl (.inl rfl)
  have hchain : b.chain = b'.chain :=
    congrArg₂ (fun (stages : Stages X T) id => (stages.assemble (sink_fn id) : StageFn X T X))
      htwin.stages hid
  exact Pipeline.new_alike (b.finalize.sync.assemble_alike (sink_fn_alike _)) hchain
    htwin.source_id htwin.idle_tick htwin.checked htwin.dead_letter components xs l

/-- A source of two numbers, doubled. -/
def doubling : BuilderCalls Nat Nat := .cons (.map (fun n u => (some (2 * n), u)) ()) .nil

/-- The same pipeline with an observer and an edge. -/
def doublingObserved : BuilderCalls Nat Nat :=
  .cons .observe (.cons (.buffer 4) doubling)

theorem PipelineBuilder.instrumentation_transparent_doubling :
    let b := doubling.build from_source
    let b' := doublingObserved.build from_source
    let components : Oracle Nat Nat := Oracle.serving [1, 2]
    let run := components.instrumented.run (Pipeline.reported b.chain [] (.run 5)) b.sink
    let run' := components.instrumented.run
      (Pipeline.reported b'.chain [.cancel_handle] (.run 5)) b'.sink
    (run.2.shown.length = 14 ∧ run'.2.length = 19 ∧
      run'.1.1 = .ok ([.ok ()], .ok (some ⟨2, 2, 0, 0, 0⟩))) ∧
      run.2.shown = run'.2.shown ∧
        Lib.Res.Related (fun r r' => r = (answered [.cancel_handle] r'.1, r'.2)) run.1.1 run'.1.1 ∧
          run.1.2.stats = run'.1.2.stats :=
  ⟨by decide +kernel, instrumentation_transparent
    (.observe (.buffer (.inl rfl) (by decide) (.cons _ .nil))) (Oracle.serving [1, 2])
    [.cancel_handle] (.run 5)⟩

end PipeIo
