import PipeIo.Contract
import PipeIo.Pipeline

namespace PipeIo
set_option autoImplicit true

open Lib

/-- Requests of a runner while it pulls. -/
def Eff.Pulling : Eff X Y → Prop
  | .pull | .pullTimeout _ | .isCancelled | .observe _ | .note _ => True
  | _ => False

section

variable {X Y H σ : Type} {W : Type v} {Γ : Spec (Eff X Y) Ans W} {I : σ → W → Prop}
  {B : H → Prop}

theorem keeps_outcome (a : Option α) : Act.Preserves Γ I B (outcome a : Code X Y H σ α) := by
  cases a with
  | none => exact Act.Preserves.panic
  | some a => exact Act.Preserves.pure a

theorem keeps_is_cancelled (armed : Bool) (h : ∀ s w, I s w →
    Γ.pre .isCancelled w ∧ ∀ a w', Γ.post .isCancelled w a w' → I s w') :
    Act.Preserves Γ I B (is_cancelled armed : Code X Y H σ Bool) := by
  cases armed with
  | false => exact Act.Preserves.pure false
  | true => exact Act.Preserves.perform h

end

namespace Runner

variable {X Y H : Type} {c : StageFn X Y X} {W : Type v} {Γ : Spec (Eff X Y) Ans W}
  {I : Runner c.σ → W → Prop}

/-- What has to be kept while a runner pulls: by its own requests, by its counters and by the
calls of the chain. -/
structure Feeds (Γ : Spec (Eff X Y) Ans W) (I : Runner c.σ → W → Prop) : Prop where
  asks : Eff.Pulling e → I r w → Γ.pre e w ∧ ∀ a w', Γ.post e w a w' → I r w'
  counts : I r w → ∀ t, I { r with ctx.tally := t } w
  calls : ∀ op : StageOp X, op.signal = none ∨ op.signal = some .tick →
    Act.Preserves Γ I (fun _ => True) (chainFn c op)

/-- What holds of the runner next to the counters of its loop. -/
abbrev OfRunner (I : Runner σ → W → Prop) (s : Runner σ × ρ) (w : W) : Prop := I s.1 w

section Feeds

variable (hI : Feeds Γ I)
include hI

theorem Feeds.request {e : Eff X Y} (he : e.Pulling) :
    Act.Preserves Γ I (fun _ : H => True) (request e) :=
  Act.Preserves.perform fun _ _ h => hI.asks he h

theorem Feeds.emitEvent (active : Bool) (event : Event) :
    Act.Preserves Γ I (fun _ : H => True) (emitEvent active event) := by
  cases active with
  | false => exact Act.Preserves.pure ()
  | true => exact (hI.request (by trivial)).bind fun a => keeps_outcome a

theorem Feeds.call {op : StageOp X} (hop : op.signal = none ∨ op.signal = some .tick) :
    Act.Preserves Γ I (fun _ => True) (call c op) :=
  (hI.calls op hop).bind fun _ => Act.Preserves.modify fun _ _ h => hI.counts h _

theorem Feeds.pull (idle_tick : Option Duration) :
    Act.Preserves Γ I (fun _ => True) (pull idle_tick : Code X Y Error (Runner c.σ) (Pull X)) := by
  have hfail : ∀ e : BoxError, Act.Preserves Γ I (fun _ => True)
      (do Act.halt (.source (← Act.get).source_id e) : Code X Y Error (Runner c.σ) (Pull X)) := by
    intro e
    exact Act.Preserves.get.bind fun _ => Act.Preserves.halt trivial
  cases idle_tick with
  | none =>
    refine (hI.request (by trivial)).bind fun a => (keeps_outcome a).bind fun pulled => ?_
    cases pulled with
    | ok pulled => exact Act.Preserves.pure _
    | error e => exact hfail e
  | some timeout =>
    refine (hI.request (by trivial)).bind fun a => (keeps_outcome a).bind fun pulled => ?_
    cases pulled with
    | ok pulled => exact Act.Preserves.pure pulled
    | error e => exact hfail e

theorem Feeds.tick : Act.Preserves Γ I (fun _ => True) (tick c) :=
  Act.Preserves.get.bind fun _ => (hI.emitEvent _ _).bind fun _ => hI.call (.inr rfl)

theorem Feeds.step (idle_tick : Option Duration) :
    Act.Preserves Γ I (fun _ => True) (step c idle_tick) := by
  refine ((hI.pull idle_tick).mapHalt fun _ _ => trivial).bind fun pulled => ?_
  cases pulled with
  | done => exact Act.Preserves.pure _
  | idle => exact hI.tick.bind fun _ => Act.Preserves.pure _
  | item item =>
    refine Act.Preserves.bind (Act.Preserves.modify fun _ _ h => hI.counts h _) fun _ => ?_
    exact (hI.call (.inl rfl)).bind fun _ => Act.Preserves.pure _

theorem Feeds.round (idle_tick : Option Duration) (cancel : Bool) :
    Act.Preserves Γ (OfRunner I) (fun _ : H => True) (round c idle_tick cancel) := by
  have hbeside : ∀ {H α : Type} {B : H → Prop} {x : Code X Y H (Runner c.σ) α},
      Act.Preserves Γ I B x → Act.Preserves Γ (OfRunner I) B
        (Act.zoom Prod.fst (fun r (s : Runner c.σ × (Nat × Nat)) => (r, s.2)) x) :=
    fun hx => Act.Preserves.zoom (fun _ _ h => h) (fun _ _ _ _ _ h => h) hx
  cases idle_tick with
  | none =>
    refine (keeps_is_cancelled cancel fun _ _ h => hI.asks (by trivial) h).bind
      fun cancelled => ?_
    split
    · exact Act.Preserves.pure _
    refine Act.Preserves.bind (Act.Preserves.perform fun _ _ h => hI.asks (by trivial) h)
      fun a => (keeps_outcome a).bind fun pulled => ?_
    rcases pulled with e | _ | item
    · exact Act.Preserves.get.bind fun _ => Act.Preserves.pure _
    · exact Act.Preserves.pure _
    · refine Act.Preserves.bind (Act.Preserves.modify fun _ _ h => h) fun _ => ?_
      refine (hbeside (hI.calls (.process item) (.inl rfl))).attempt.bind fun r => ?_
      cases r with
      | error halt => exact Act.Preserves.pure _
      | ok n =>
        exact Act.Preserves.bind (Act.Preserves.modify fun _ _ h => h)
          fun _ => Act.Preserves.pure none
  | some timeout =>
    refine hbeside ((keeps_is_cancelled cancel fun _ _ h => hI.asks (by trivial) h).bind
      fun cancelled => ?_)
    split
    · exact Act.Preserves.pure _
    refine (hI.step _).attempt.bind fun r => ?_
    rcases r with halt | _ | _ | _
    · exact Act.Preserves.pure _
    · exact Act.Preserves.pure _
    · exact Act.Preserves.pure _
    · exact Act.Preserves.pure _

theorem Feeds.publish :
    Act.Preserves Γ (OfRunner I) (fun _ : H => True)
      (publish : Code X Y H (Runner c.σ × (Nat × Nat)) Unit) :=
  Act.Preserves.modify fun _ _ h => hI.counts h _

theorem Feeds.pump (fuel : Nat) (idle_tick : Option Duration) (cancel : Bool) :
    Act.Preserves Γ I (fun _ : H => True) (pump c fuel idle_tick cancel) := by
  refine Act.Preserves.zoom (J := OfRunner I) (fun _ _ h => h) (fun _ _ _ _ _ h => h) ?_
  refine ((hI.round idle_tick cancel).repeatUntil fuel).bind fun e => ?_
  exact hI.publish.bind fun _ => Act.Preserves.pure e

end Feeds

end Runner

end PipeIo
