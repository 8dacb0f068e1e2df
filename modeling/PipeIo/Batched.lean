import Mathlib.Control.Monad.Cont
import PipeIo.Batch
import PipeIo.Composes

namespace PipeIo
set_option autoImplicit true

open Lib

namespace BatchStage

variable {T : Type}

/-- An emit as a step of a stage method; `s` is the stage at that point. -/
def emitter (s : BatchStage T) (batch : Batch T) : Cont (Script (Batch T) (BatchStage T)) Bool :=
  fun k => .emit batch s k

/-- The batch stage without an age trigger, which never asks a clock. -/
def toStage (max_items max_bytes : Option Nat) (measure : Option (T → Nat)) : Stage T (Batch T) where
  φ := BatchStage T
  init := new ⟨max_items, max_bytes, none⟩ measure
  process item s := (s.process item 0 (emitter (s.push item 0).take_batch.2)) fun s => .ret (.ok ()) s
  tick s := .ret (.ok ()) s
  flush s := (s.flush (emitter s.take_batch.2)) fun s => .ret (.ok ()) s

/-- What a stage method makes of an open batch. -/
theorem products_emit (s : BatchStage T) (policy : ErrorPolicy) (id : StageId) :
    (Script.products policy id
      ((s.emit_open_batch (emitter s.take_batch.2)) fun s => .ret (.ok ()) s)) =
      ((s.emit_open_batch Emitting.emit).out.map .inl, (s.emit_open_batch Emitting.emit).val) := by
  rw [emit_open_batch, emit_open_batch]
  split <;> rfl

theorem products_process (s : BatchStage T) (item : T) (policy : ErrorPolicy) (id : StageId) :
    (Script.products policy id ((s.process item 0 (emitter (s.push item 0).take_batch.2))
      fun s => .ret (.ok ()) s)) =
      ((s.process item 0 Emitting.emit).out.map .inl, (s.process item 0 Emitting.emit).val) := by
  rw [process, process]
  split
  · exact products_emit _ policy id
  · split
    · exact products_emit _ policy id
    · rfl

theorem tame_emit (s : BatchStage T) (policy : ErrorPolicy) :
    Script.Tame policy ((s.emit_open_batch (emitter s.take_batch.2)) fun s => .ret (.ok ()) s) := by
  rw [emit_open_batch]
  split
  · trivial
  · exact fun _ => trivial

theorem tame_process (s : BatchStage T) (item : T) (policy : ErrorPolicy) :
    Script.Tame policy ((s.process item 0 (emitter (s.push item 0).take_batch.2))
      fun s => .ret (.ok ()) s) := by
  rw [process]
  split
  · exact tame_emit _ policy
  · split
    · exact tame_emit _ policy
    · trivial

theorem toStage_lenient (max_items max_bytes : Option Nat) (measure : Option (T → Nat))
    (policy : ErrorPolicy)
    (id : StageId) : (Node.stage (toStage max_items max_bytes measure) policy id).Lenient :=
  ⟨fun item s => tame_process s item policy, fun s => tame_emit s policy⟩

variable [Timeline]

/-- The instant a batch stage without a clock gives all its events. -/
def epoch : Reading := ⟨0, Nat.zero_le _⟩

/-- The events of a batch stage in a run over `xs`. -/
def eventsOver (xs : List T) : List (WindowEvent T) := xs.map fun x => (.item x, epoch)

theorem emits_trace (max_items max_bytes : Option Nat) (measure : Option (T → Nat))
    (policy : ErrorPolicy)
    (id : StageId) (xs : List T) (s : BatchStage T) :
    (Node.stage (toStage max_items max_bytes measure) policy id).emits xs s =
      (s.trace (eventsOver xs ++ [(.flush, epoch)])).flatten := by
  induction xs generalizing s with
  | nil =>
    change Transducer.items (Script.products policy id
      ((s.emit_open_batch (emitter s.take_batch.2)) fun s => .ret (.ok ()) s)).1 = _
    rw [products_emit, items_plain]
    exact (List.append_nil _).symm
  | cons x xs ih =>
    have hprocess := products_process s x policy id
    change Transducer.items (Script.products policy id ((s.process x 0
        (emitter (s.push x 0).take_batch.2)) fun s => .ret (.ok ()) s)).1 ++
      (Node.stage (toStage max_items max_bytes measure) policy id).emits xs
        (Script.products policy id ((s.process x 0 (emitter (s.push x 0).take_batch.2))
          fun s => .ret (.ok ()) s)).2 = _
    rw [hprocess, items_plain, ih]
    rfl

end BatchStage

/-- A pipeline of one batch stage, by count or by bytes. -/
def batching (max_items max_bytes : Option Nat) (measure : Option (T → Nat)) (policy : ErrorPolicy)
    (id : StageId) : Stages T (Batch T) :=
  .cons (.stage (BatchStage.toStage max_items max_bytes measure) policy id) .nil

/-- What a run of a batching pipeline delivers: the greedy split of the items of the source. -/
structure Batches [Timeline] (policy : BatchPolicy) (measure : Option (T → Nat)) (xs : List T)
    (res : Res Empty (Option (Outcome Unit))) (p : Pipeline σ) (log : Log T (Batch T)) : Prop where
  returns : res = .ok (some (.ok ()))
  splits : ∃ out, Splits policy measure []
    (BatchStage.eventsOver xs ++ [(.flush, BatchStage.epoch)]) out ∧ log.written = out.flatten
  nothing_lost : log.written.flatMap Batch.items = xs
  bounded : ∀ b ∈ log.written, b.Bounded policy measure
  items_in : p.stats.items_in = xs.length
  items_out : p.stats.items_out = log.written.length

/-- A batching pipeline delivers the greedy split of its source, and loses nothing. -/
theorem batching_delivers [Timeline] {max_items max_bytes : Option Nat}
    (hcheck : BatchPolicy.check ⟨max_items, max_bytes, none⟩ = .ok ())
    (measure : Option (T → Nat)) (policy : ErrorPolicy)
    (id sink_id source_id : StageId) (built : Built) (xs : List T) {fuel : Nat}
    (hfuel : xs.length < fuel) :
    Batches ⟨max_items, max_bytes, none⟩ measure xs
      ((batching max_items max_bytes measure policy id).runOver sink_id source_id built fuel xs).1.1
      ((batching max_items max_bytes measure policy id).runOver sink_id source_id built fuel xs).1.2
      ((batching max_items max_bytes measure policy id).runOver sink_id source_id built fuel xs).2 := by
  have hlenient : (batching max_items max_bytes measure policy id).Lenient :=
    ⟨BatchStage.toStage_lenient max_items max_bytes measure policy id, trivial⟩
  have hrun := Stages.runOver_computed _ hlenient.graceful sink_id source_id built xs hfuel
  have hemits : (batching max_items max_bytes measure policy id).emits xs =
      ((BatchStage.new ⟨max_items, max_bytes, none⟩ measure).trace
        (BatchStage.eventsOver xs ++ [(.flush, BatchStage.epoch)])).flatten :=
    BatchStage.emits_trace max_items max_bytes measure policy id xs _
  obtain ⟨hharmless, _⟩ := hlenient.outputs (Mild.items xs).harmless
  obtain ⟨hres, hmarks, hstats⟩ := hrun.completes hharmless
  have hitems := (Stages.items_outputs _ (xs.map .inl)).trans
    ((congrArg _ (items_plain xs)).trans hemits)
  have hwritten := (Log.written_of_marks hmarks).trans hitems
  have hsplits := (BatchStage.new_holds ⟨max_items, max_bytes, none⟩ measure).splits hcheck
    (BatchStage.eventsOver xs ++ [(.flush, BatchStage.epoch)])
  refine ⟨hres, ⟨_, hsplits, hwritten⟩, ?_, ?_, ?_, ?_⟩
  · have harrivals : (arrivals (BatchStage.eventsOver xs)).map Prod.fst = xs := by
      rw [arrivals, BatchStage.eventsOver, List.filterMap_map, List.map_filterMap]
      exact List.filterMap_some
    rw [hwritten, hsplits.items, harrivals]
    rfl
  · rw [hwritten]
    exact hsplits.bounded hcheck not_full_nil (not_heavy_nil hcheck)
  · rw [hstats]
  · rw [hstats, hwritten, hitems]

/-- The third item fills no batch before the end. -/
theorem batching_delivers_three : @Batches Nat _ smallTimeline ⟨some 2, some 9, none⟩ (some id)
    [1, 2, 3]
    ((batching (some 2) (some 9) (some id) .failFast "batch").runOver "sink" "source" ⟨false, false⟩
      4 [1, 2, 3]).1.1
    ((batching (some 2) (some 9) (some id) .failFast "batch").runOver "sink" "source" ⟨false, false⟩
      4 [1, 2, 3]).1.2
    ((batching (some 2) (some 9) (some id) .failFast "batch").runOver "sink" "source" ⟨false, false⟩
      4 [1, 2, 3]).2 :=
  @batching_delivers Nat smallTimeline (some 2) (some 9) rfl (some id) .failFast "batch" "sink"
    "source" ⟨false, false⟩ [1, 2, 3] 4 (by decide)

end PipeIo
