import PipeIo.DeadLetterThreads
import PipeIo.Refusal

namespace PipeIo
set_option autoImplicit true

open Lib Function

section Routes

/-- Some stage of the assembly may hand a failure to the dead-letter sink. -/
def Assembly.Routes : {T : Type} → Assembly X T → Prop
  | _, .piece stages => stages.Routes
  | _, .buffer before _ _ after => before.Routes ∨ after.Routes

theorem Stages.routes_append {T U V : Type} (stages : Stages T U) (more : Stages U V) :
    (stages.append more).Routes ↔ stages.Routes ∨ more.Routes := by
  induction stages with
  | nil => simp [append, Routes]
  | cons node rest ih => simp [append, Routes, ih, or_assoc]

variable {X T U : Type}

theorem Assembly.routes_link (a : Assembly X T) (node : Node T U) :
    (a.link node).Routes ↔ a.Routes ∨ node.Routes := by
  cases a <;> simp [link, Routes, Stages.routes_append, Stages.Routes, or_assoc]

theorem Assembly.routes_sync (a : Assembly X T) : a.sync.Routes ↔ a.Routes := by
  induction a with
  | piece stages => rfl
  | buffer before capacity id after ih => simp [sync, Routes, Stages.routes_append, ih]

theorem Assembly.routes_pieces (a : Assembly X T) (j : Nat) (h : (a.pieces j).Routes) :
    a.Routes := by
  induction a generalizing j with
  | piece stages =>
    cases j with
    | zero => exact h
    | succ j => exact h.elim
  | buffer before capacity id after ih =>
    cases j with
    | zero => exact .inr h
    | succ j => exact .inl (ih j h)

namespace PipelineBuilder

/-- A stage that may need the dead-letter sink has been noted. -/
def Noted (b : PipelineBuilder X T) : Prop :=
  b.finalize.Routes → b.dead_letter_user ≠ none

theorem Noted.same {b b' : PipelineBuilder X T} (h : b.Noted) (hstages : b'.finalize = b.finalize)
    (huser : b'.dead_letter_user = b.dead_letter_user) : b'.Noted := by
  intro hroutes
  rw [huser]
  exact h (hstages ▸ hroutes)

/-- A stage that hands over no failure. -/
theorem Noted.link {b : PipelineBuilder X T} (h : b.Noted) {node : Node T U}
    (hnode : ¬node.Routes) : (b.link node).Noted := fun hroutes =>
  h (((b.finalize.routes_link node).1 hroutes).resolve_right hnode)

/-- A stage that hands over its failures under `DeadLetter`. -/
theorem Noted.link_fallible {b : PipelineBuilder X T} (h : b.Noted) (id : StageId)
    {node : Node T U} (hnode : node.Routes → (b.note_fallible id).error_policy = .deadLetter) :
    ((b.note_fallible id).link node).Noted := by
  intro hroutes
  change ((b.note_fallible id).finalize.link node).Routes at hroutes
  change (b.note_fallible id).dead_letter_user ≠ none
  rw [note_fallible_eq] at hroutes hnode ⊢
  rcases (b.finalize.routes_link node).1 hroutes with hbefore | hnew
  · simp [h hbefore]
  · have hpolicy : b.error_policy = .deadLetter := hnode hnew
    simp [hpolicy]

theorem Noted.check {b : PipelineBuilder X T} (h : b.Noted) (id : StageId)
    (r : Except ConfigErrorKind Unit) : (b.check id r).Noted := by
  rw [check_eq]
  exact h

theorem Noted.check_batch {b : PipelineBuilder X T} (h : b.Noted) (policy : BatchPolicy)
    (id : StageId) (byte_aware : Bool) : (b.check_batch policy id byte_aware).Noted := by
  rw [check_batch_eq]
  exact h

/-- A stage whose error is `Infallible`. -/
theorem Noted.stage_as {b : PipelineBuilder X T} (h : b.Noted) (st : InfallibleStage T U)
    (id : StageId) : (b.stage_as st.toStage id false).Noted := by
  apply h.link
  intro hroutes
  exact hroutes.2 ⟨st.process_ok, st.tick_ok, st.flush_ok⟩

theorem Noted.call {b : PipelineBuilder X T} (h : b.Noted) (call : BuilderCall T U) :
    (b.call call).Noted := by
  have hnamed : ∀ name, ({ b with pending_stage_id := name } : PipelineBuilder X T).Noted :=
    fun _ => h
  cases call with
  | stage_id | source_id | on_error | dead_letter | observe => exact h
  | idle_tick interval =>
    by_cases hzero : interval = 0
    · simp only [PipelineBuilder.call, if_pos hzero, record_eq]
      exact h
    · simp only [PipelineBuilder.call, if_neg hzero]
      exact h
  | map | filter | filter_map | flat_map | inspect =>
    apply h.link
    intro hroutes
    cases hroutes
  | try_map f init => exact (hnamed none).link_fallible _ id
  | try_map_ref f init => exact (hnamed none).link_fallible _ id
  | try_map_retry retry hash f init => exact ((hnamed none).check _ retry.check).link_fallible _ id
  | stage st => exact (hnamed none).link_fallible _ fun hroutes => hroutes.1
  | batch policy st => exact ((hnamed none).check_batch policy _ false).stage_as st _
  | batch_bytes policy st => exact ((hnamed none).check_batch policy _ true).stage_as st _
  | window spec st => exact ((hnamed none).check _ spec.check).stage_as st _
  | window_by_key spec st => exact ((hnamed none).check _ spec.check).stage_as st _
  | buffer capacity =>
    have hbuffered : ∀ error, (({ b with
        finalize := .buffer b.finalize capacity (b.pending_stage_id.getD "buffer") .nil
        pending_stage_id := none
        config_error := error } : PipelineBuilder X T)).Noted :=
      fun _ hroutes => h (hroutes.resolve_right id)
    by_cases hlarge : MAX_CAPACITY < capacity
    · simp only [PipelineBuilder.call, take_stage_id, if_pos hlarge, record_eq]
      exact hbuffered _
    · simp only [PipelineBuilder.call, take_stage_id, if_neg hlarge]
      exact hbuffered _

theorem build_noted (calls : BuilderCalls T U) {b : PipelineBuilder X T} (h : b.Noted) :
    (calls.build b).Noted := by
  induction calls with
  | nil => exact h
  | cons call rest ih => exact ih (h.call call)

/-- A pipeline that starts has the dead-letter sink that its stages may need. -/
theorem routes_installed (calls : BuilderCalls X T)
    (hstarts : (calls.build from_source).sink.config_error = none)
    (h : (calls.build from_source).finalize.Routes) :
    (calls.build from_source).dead_letter = true := by
  have huser : (calls.build from_source).dead_letter_user ≠ none := by
    apply build_noted calls (b := from_source)
    · intro hroutes
      exact hroutes.elim
    · exact h
  change (calls.build from_source).checked.config_error = none at hstarts
  obtain ⟨user, huser⟩ := Option.ne_none_iff_exists'.1 huser
  by_contra hmissing
  rw [Bool.not_eq_true] at hmissing
  simp [checked, huser, hmissing, record_eq] at hstarts

end PipelineBuilder

end Routes

/-- A sequence of builder calls, ended by `sink`: which configuration error the pipeline has; that
with one it refuses every call and calls no component; and that without one no failure is routed
to a dead-letter sink that is absent. Every call of the chain, however it ends, counts only
failures that the sink accepted, and so do whole runs; without a sink none is handed over,
reported or counted. -/
theorem PipelineBuilder.config_decides {X T : Type} (calls : BuilderCalls X T) :
    let b := calls.build from_source
    b.sink.config_error = (calls.invalid none ++ calls.missing).head? ∧
      (∀ e, b.sink.config_error = some e → ∀ (o : Oracle X T) (xs : List Call) (l : LastCall),
        let run := o.run (Pipeline.session b.chain xs l) b.sink
        run.1.1 = .ok (refusals e l false xs) ∧ run.2.polls) ∧
      (b.sink.config_error = none →
        (b.chain.Stable b.dead_letter false ∧
          ∀ (o : Oracle X T) (xs : List Call) (l : LastCall),
            (∀ a ∈ (o.run (Pipeline.session b.chain xs l) b.sink).2, a.1.Addressed b.dead_letter) ∧
              let run := o.run (Pipeline.used b.chain xs l) b.sink
              run.1.2.Lettered b.dead_letter run.2.accepted) ∧
        ∀ (cancel : Bool), (∀ j, ((b.wiring cancel).chain j).Stable b.dead_letter true) ∧
          ∀ (out : Outside fun j => b.finalize.Ty j) (net : Net (b.wiring cancel)),
            net.Reachable out → ∀ j,
              (∀ a ∈ net.logs j, a.1.Addressed b.dead_letter) ∧
                ∀ exit, net.threads j = .finished exit →
                  exit.Counted b.dead_letter (net.logs j).accepted) := by
  intro b
  refine ⟨sink_config_error calls, fun e he o xs l => ?_, fun hstarts => ⟨?_, fun cancel => ?_⟩⟩
  · have hsink : b.sink = Pipeline.new b.source_id b.idle_tick (some e) b.built :=
      congrArg (Pipeline.new b.source_id b.idle_tick · b.built) he
    rw [hsink]
    exact Pipeline.refuses b.chain b.source_id b.idle_tick e b.built o xs l
  · have hchain : b.chain.Stable b.dead_letter false := by
      apply b.finalize.sync.assemble_stable (sink_fn_stable _)
      intro hroutes
      exact routes_installed calls hstarts (b.finalize.routes_sync.1 hroutes)
    exact ⟨hchain, Pipeline.letters b.source_id b.idle_tick _ b.built hchain⟩
  · have hpieces : ∀ i, ((b.wiring cancel).piece i).Routes → b.dead_letter = true :=
      fun i hroutes => routes_installed calls hstarts (b.finalize.routes_pieces i hroutes)
    exact ⟨(b.wiring cancel).chain_stable hpieces, fun out net hnet => Net.letters hpieces hnet⟩

end PipeIo
