import PipeIo.Composes

namespace PipeIo
set_option autoImplicit true

open Lib
open Lib.Transducer (items items_append)

/-- A chain of `try_map_ref` stages, each with its policy and name, and a function that accepts
or rejects a value. -/
inductive TryMaps : Type → Type → Type 1 where
  | nil : TryMaps T T
  | cons (policy : ErrorPolicy) (id : StageId) (f : T → Except BoxError U) (rest : TryMaps U V) :
    TryMaps T V

/-- What becomes of an item: it comes out, or a stage rejects it. -/
inductive Fate (U : Type) where
  | accepted (out : U)
  | rejected (policy : ErrorPolicy) (failure : StageFailure)

namespace TryMaps

def stages : TryMaps T U → Stages T U
  | .nil => .nil
  | .cons policy id f rest =>
    .cons (PipelineBuilder.try_map_ref policy id (fun item s => (some (f item), s)) ()) rest.stages

/-- The first stage that rejects an item decides its fate. -/
def fate : TryMaps T U → T → Fate U
  | .nil, item => .accepted item
  | .cons policy id f rest, item =>
    match f item with
    | .ok out => rest.fate out
    | .error e => .rejected policy ⟨id, e, keep_input policy item, 1⟩

end TryMaps

namespace Fate

def made : Fate U → U ⊕ Incident
  | .accepted out => .inl out
  | .rejected policy failure => .inr (.fault policy failure)

def out : Fate U → Option U
  | .accepted out => some out
  | .rejected .. => none

def letter : Fate U → Option StageFailure
  | .rejected .deadLetter failure => some failure
  | .accepted _ | .rejected .failFast _ | .rejected .continue _ => none

/-- The error a run ends with there, if it does. -/
def fatal : Fate U → Option Error
  | .rejected .failFast failure => some (.stage failure.stage failure.source)
  | .accepted _ | .rejected .continue _ | .rejected .deadLetter _ => none

end Fate

theorem TryMaps.graceful (maps : TryMaps T U) : maps.stages.Graceful := by
  induction maps with
  | nil => trivial
  | cons policy id f rest ih => exact ⟨trivial, ih⟩

/-- What one stage makes of an item. -/
def tried (policy : ErrorPolicy) (id : StageId) (f : T → Except BoxError U) (item : T) :
    U ⊕ Incident :=
  match f item with
  | .ok out => .inl out
  | .error e => .inr (.fault policy ⟨id, e, keep_input policy item, 1⟩)

theorem try_map_ref_outputs (policy : ErrorPolicy) (id : StageId) (f : T → Except BoxError U)
    (depth : Nat) (zs : List (T ⊕ Incident)) :
    ((PipelineBuilder.try_map_ref policy id (fun item s => (some (f item), s)) ()).machine
      depth).outputs zs = zs.map (Sum.elim (tried policy id f) .inr) := by
  apply (List.append_nil _).trans
  induction zs with
  | nil => rfl
  | cons z zs ih =>
    cases z with
    | inr incident => exact congrArg (.inr incident :: ·) ih
    | inl item =>
      have hone : ((PipelineBuilder.try_map_ref policy id
          (fun item s => (some (f item), s)) ()).feed item ()).1 = [tried policy id f item] := by
        simp only [Node.feed, PipelineBuilder.try_map_ref, ItemStage.feed, tried]
        cases f item with
        | ok out => rfl
        | error e => rfl
      exact congr (congrArg HAppend.hAppend hone) ih

/-- Each item makes one thing, its fate. -/
theorem TryMaps.outputs (maps : TryMaps T U) (zs : List (T ⊕ Incident)) :
    maps.stages.outputs zs = zs.map (Sum.elim (fun item => (maps.fate item).made) .inr) := by
  induction maps with
  | nil =>
    refine (List.map_id zs).symm.trans (List.map_congr_left fun z _ => ?_)
    cases z <;> rfl
  | cons policy id f rest ih =>
    rw [stages, Stages.outputs, ih, try_map_ref_outputs, List.map_map]
    apply List.map_congr_left
    intro z _
    cases z with
    | inr incident => rfl
    | inl item =>
      simp only [Function.comp, Sum.elim_inl, tried, fate]
      cases f item <;> rfl

section Fates

variable {Y : Type}

theorem Fate.made_harmless {fates : List (Fate Y)} (h : ∀ fate ∈ fates, fate.fatal = none) :
    Harmless (fates.map Fate.made) := by
  intro incident hi
  obtain ⟨fate, hfate, hmade⟩ := List.mem_map.1 hi
  have hfatal := h fate hfate
  match fate with
  | .accepted out => cases hmade
  | .rejected .failFast failure => cases hfatal
  | .rejected .continue failure | .rejected .deadLetter failure =>
    cases hmade
    rfl

theorem Fate.items_made (fates : List (Fate Y)) :
    items (fates.map Fate.made) = fates.filterMap Fate.out := by
  rw [items, List.filterMap_map]
  apply List.filterMap_congr
  intro fate _
  cases fate <;> rfl

theorem Fate.letters_made (fates : List (Fate Y)) :
    dead_letters (fates.map Fate.made) = fates.filterMap Fate.letter := by
  rw [dead_letters, List.filterMap_map]
  apply List.filterMap_congr
  intro fate _
  match fate with
  | .accepted out => rfl
  | .rejected policy failure => cases policy <;> rfl

/-- Every item either comes out or is a failure. -/
theorem Fate.conserved (fates : List (Fate Y)) : fates.length =
    (items (fates.map Fate.made)).length + (failures (fates.map Fate.made)).length := by
  induction fates with
  | nil => rfl
  | cons fate fates ih =>
    cases fate with
    | accepted out =>
      have hcons : (items ((Fate.accepted out :: fates).map Fate.made)).length =
          (items (fates.map Fate.made)).length + 1 := rfl
      have hfail : failures ((Fate.accepted out :: fates).map Fate.made) =
          failures (fates.map Fate.made) := rfl
      rw [hcons, hfail, List.length_cons, ih]
      omega
    | rejected policy failure =>
      have hcons : items ((Fate.rejected policy failure :: fates).map Fate.made) =
          items (fates.map Fate.made) := rfl
      have hfail : (failures ((Fate.rejected policy failure :: fates).map Fate.made)).length =
          (failures (fates.map Fate.made)).length + 1 := rfl
      rw [hcons, hfail, List.length_cons, ih]
      omega

theorem Fate.fatal_made {fate : Fate Y} {e : Error} (h : fate.fatal = some e) :
    items [fate.made] = [] ∧ dead_letters [fate.made] = [] := by
  match fate with
  | .accepted out => cases h
  | .rejected .continue failure | .rejected .deadLetter failure => cases h
  | .rejected .failFast failure => exact ⟨rfl, rfl⟩

/-- A fatal fate ends the run. -/
theorem Fate.settle_fatal {before : List (Fate Y)} (after : List (Fate Y)) {fate : Fate Y}
    {e : Error} (hbefore : ∀ fate ∈ before, fate.fatal = none) (hfate : fate.fatal = some e) :
    settle ((before ++ fate :: after).map Fate.made) = .halt (.failed e) ∧
      upto ((before ++ fate :: after).map Fate.made) = before.map Fate.made ++ [fate.made] := by
  have hharmless := (Fate.made_harmless hbefore).settle
  rw [List.map_append, List.map_cons]
  obtain ⟨hsettle, hupto⟩ := settle_append hharmless (fate.made :: after.map Fate.made)
  rw [hsettle, hupto]
  match fate with
  | .accepted out => cases hfate
  | .rejected .continue failure | .rejected .deadLetter failure => cases hfate
  | .rejected .failFast failure =>
    cases hfate
    exact ⟨rfl, rfl⟩

end Fates

/-- What a run over `xs` does of its items by their fates: all of them, or those before the first
that a stage rejects under `FailFast`. -/
structure Conserves (maps : TryMaps X Y) (xs : List X) (res : Res Empty (Option (Outcome Unit)))
    (p : Pipeline σ) (log : Log X Y) : Prop where
  completes : (∀ x ∈ xs, (maps.fate x).fatal = none) → res = .ok (some (.ok ())) ∧
    log.written = xs.filterMap (fun x => (maps.fate x).out) ∧
    log.letters = xs.filterMap (fun x => (maps.fate x).letter) ∧
    p.stats.items_in = xs.length ∧ p.stats.items_out = log.written.length ∧
    p.stats.items_in = p.stats.items_out + p.stats.errors ∧
    p.stats.dead_lettered = log.letters.length
  fails : ∀ before x after e, xs = before ++ x :: after →
    (∀ y ∈ before, (maps.fate y).fatal = none) → (maps.fate x).fatal = some e →
    res = .ok (some (.err e)) ∧
    log.written = before.filterMap (fun y => (maps.fate y).out) ∧
    log.letters = before.filterMap (fun y => (maps.fate y).letter)

/-- Policies conserve items. -/
theorem TryMaps.conserves (maps : TryMaps X Y) (sink_id source_id : StageId) (observer : Bool)
    (xs : List X) {fuel : Nat} (hfuel : xs.length < fuel) :
    Conserves maps xs (maps.stages.runOver sink_id source_id ⟨true, observer⟩ fuel xs).1.1
      (maps.stages.runOver sink_id source_id ⟨true, observer⟩ fuel xs).1.2
      (maps.stages.runOver sink_id source_id ⟨true, observer⟩ fuel xs).2 := by
  have hrun := maps.stages.runOver_computed maps.graceful sink_id source_id ⟨true, observer⟩ xs hfuel
  generalize maps.stages.runOver sink_id source_id ⟨true, observer⟩ fuel xs = run at hrun
  obtain ⟨⟨res, p⟩, log⟩ := run
  have hmade : maps.stages.outputs (xs.map .inl) = (xs.map maps.fate).map Fate.made := by
    rw [maps.outputs, List.map_map, List.map_map]
    rfl
  rw [hmade] at hrun
  obtain ⟨hres, hmarks⟩ := hrun.shows
  have hwritten := Log.written_of_marks hmarks
  have hletters : log.letters = dead_letters (upto ((xs.map maps.fate).map Fate.made)) :=
    Log.letters_of_marks hmarks
  constructor
  · intro hfates
    have hmild : ∀ fate ∈ xs.map maps.fate, fate.fatal = none := by simpa using hfates
    have hsettled := (Fate.made_harmless hmild).settle
    have hstats := hrun.counts hsettled
    have hlength : xs.length = (xs.map maps.fate).length := (List.length_map _).symm
    rw [upto_ok hsettled] at hwritten hletters
    rw [hsettled] at hres
    refine ⟨hres, ?_, ?_, ?_, ?_, ?_, ?_⟩
    · rw [hwritten, Fate.items_made, List.filterMap_map]
      rfl
    · rw [hletters, Fate.letters_made, List.filterMap_map]
      rfl
    · rw [hstats]
    · rw [hstats, hwritten]
    · rw [hstats, hlength]
      exact Fate.conserved _
    · rw [hstats, hletters]
  · intro before x after e hxs hbefore hx
    have hfates : xs.map maps.fate = before.map maps.fate ++ maps.fate x :: after.map maps.fate := by
      rw [hxs, List.map_append, List.map_cons]
    have hmild : ∀ fate ∈ before.map maps.fate, fate.fatal = none := by simpa using hbefore
    obtain ⟨hsettle, hupto⟩ := Fate.settle_fatal (after.map maps.fate) hmild hx
    obtain ⟨hitems, hnone⟩ := Fate.fatal_made hx
    rw [hfates, hsettle] at hres
    rw [hfates, hupto] at hwritten hletters
    refine ⟨hres, ?_, ?_⟩
    · rw [hwritten, items_append, hitems, List.append_nil, Fate.items_made, List.filterMap_map]
      rfl
    · rw [hletters, dead_letters, List.filterMap_append]
      apply (congrArg (_ ++ ·) hnone).trans
      rw [List.append_nil]
      apply (Fate.letters_made _).trans
      rw [List.filterMap_map]
      rfl

/-- Odd numbers go to the dead-letter sink; numbers above nine end the run. -/
def sieve : TryMaps Nat Nat :=
  .cons .deadLetter "even" (fun n => if n % 2 = 0 then .ok n else .error "odd")
    (.cons .failFast "small" (fun n => if n < 10 then .ok n else .error "large") .nil)

/-- The run ends at the third item. -/
theorem TryMaps.conserves_sieve :
    (sieve.stages.runOver "sink" "source" ⟨true, false⟩ 5 [2, 3, 12, 4]).1.1 =
      .ok (some (.err (.stage "small" "large"))) ∧
    (sieve.stages.runOver "sink" "source" ⟨true, false⟩ 5 [2, 3, 12, 4]).2.written = [2] := by
  have hrun := sieve.conserves "sink" "source" false [2, 3, 12, 4] (by decide : 4 < 5)
  obtain ⟨hres, hwritten, _⟩ := hrun.fails [2, 3] 12 [4] (.stage "small" "large") rfl
    (by simp [sieve, fate, Fate.fatal]) rfl
  exact ⟨hres, hwritten⟩

end PipeIo
