import PipeIo.BuilderConfig
import PipeIo.Course

namespace PipeIo
set_option autoImplicit true

open Lib

/-- How many failures the dead-letter sink accepted with an answer. -/
def Eff.accepted : (e : Eff X Y) → Ans e → Nat
  | .deadLetter (.write _), some (.ok ()) => 1
  | _, _ => 0

/-- How many failures the dead-letter sink accepted. -/
def Log.accepted (log : Log X Y) : Nat := (log.map fun a => a.1.accepted a.2).sum

/-- Without a dead-letter sink, no failure is handed to one, reported as handed over or
counted. -/
def Eff.Addressed (installed : Bool) : Eff X Y → Prop
  | .deadLetter _ | .observe (.deadLettered _) => installed = true
  | .observe (.finished stats _) => installed = false → stats.dead_lettered = 0
  | _ => True

def Exit.Addressed (installed : Bool) : Exit → Prop
  | .finished tally _ => installed = false → tally.dead_lettered = 0
  | .result (.ok stats) => installed = false → stats.dead_lettered = 0
  | .panicked | .result (.error _) => True

/-- Only the thread that called `run_threaded` joins. -/
def Eff.Joins : Eff X Y → Prop
  | .join _ => True
  | _ => False

def Eff.Answered (installed : Bool) : (e : Eff X Y) → Ans e → Prop
  | .join _, exit => exit.Addressed installed
  | _, _ => True

/-- The failures that the dead-letter sink accepts are counted. -/
def letters (installed threaded : Bool) : Spec (Eff X Y) Ans Nat where
  pre e _ := e.Addressed installed ∧ (e.Joins → threaded = true)
  post e w a w' := w' = w + e.accepted a ∧ e.Answered installed a

/-- A request that the account does not depend on. -/
def Eff.Aside : Eff X Y → Prop
  | .deadLetter _ | .join _ | .observe (.deadLettered _) | .observe (.finished ..) => False
  | _ => True

/-- Code that keeps `I` of its state and of the failures accepted so far. -/
abbrev Stable (installed threaded : Bool) (I : σ → Nat → Prop) (x : Code X Y H σ α) : Prop :=
  Act.Preserves (letters installed threaded) I (fun _ => True) x

section Stable

variable {X Y H H' σ τ α : Type} {installed threaded : Bool} {I : σ → Nat → Prop}

theorem Eff.Aside.pre {e : Eff X Y} (he : e.Aside) (w : Nat) :
    (letters installed threaded).pre e w := by
  cases e with
  | observe event => cases event <;> first | exact he.elim | exact ⟨trivial, False.elim⟩
  | deadLetter op => exact he.elim
  | join i => exact he.elim
  | _ => exact ⟨trivial, False.elim⟩

theorem Eff.Aside.post {e : Eff X Y} (he : e.Aside) {a : Ans e} {w w' : Nat}
    (h : (letters installed threaded).post e w a w') : w' = w := by
  cases e with
  | deadLetter op => exact he.elim
  | _ => exact h.1

theorem stable_request (e : Eff X Y) (he : e.Aside) :
    Stable installed threaded I (request e : Code X Y H σ (Ans e)) := by
  refine Act.Preserves.perform fun s w hI => ⟨he.pre w, fun a w' ha => ?_⟩
  rw [he.post ha]
  exact hI

theorem stable_outcome (a : Option α) :
    Stable installed threaded I (outcome a : Code X Y H σ α) := by
  cases a with
  | none => exact Act.Preserves.panic
  | some a => exact Act.Preserves.pure a

theorem stable_note (n : Note) : Stable installed threaded I (note n : Code X Y H σ Unit) :=
  stable_request _ trivial

theorem stable_emitEvent (active : Bool) (event : Event)
    (he : (Eff.observe event : Eff X Y).Aside) :
    Stable installed threaded I (emitEvent active event : Code X Y H σ Unit) := by
  cases active with
  | false => exact Act.Preserves.pure ()
  | true => exact (stable_request _ he).bind fun a => stable_outcome a

/-- An event about the dead-letter sink, where it is addressed. -/
theorem stable_reported (active : Bool) (event : Event)
    (hpre : ∀ s w, I s w → (Eff.observe event : Eff X Y).Addressed installed) :
    Stable installed threaded I (emitEvent active event : Code X Y H σ Unit) := by
  cases active with
  | false => exact Act.Preserves.pure ()
  | true =>
    refine Act.Preserves.bind (Act.Preserves.perform fun s w hI => ?_) fun a => stable_outcome a
    refine ⟨⟨hpre s w hI, False.elim⟩, fun a w' ha => ?_⟩
    rw [ha.1]
    exact hI

end Stable

/-- What holds of a handle of the dead-letter sink. -/
def Dlq.Installed (installed : Bool) (d : Dlq) : Prop := d = .absent ↔ installed = false

/-- What holds of the context of a run: it has a handle of the dead-letter sink if there is one,
and every failure it counts as routed was accepted. -/
structure Ctx.Letters (installed : Bool) (ctx : Ctx) (accepted : Nat) : Prop where
  handle : ctx.dlq.Installed installed
  counted : ctx.tally.dead_lettered = accepted
  unsent : installed = false → accepted = 0

variable {X Y H T U : Type} {installed threaded : Bool} {w : Nat}

theorem Ctx.Letters.tally {ctx : Ctx} (h : ctx.Letters installed w) {t : Tally}
    (ht : t.dead_lettered = ctx.tally.dead_lettered) :
    Ctx.Letters installed { ctx with tally := t } w :=
  ⟨h.handle, ht.trans h.counted, h.unsent⟩

theorem Ctx.Letters.dlq {ctx : Ctx} (h : ctx.Letters installed w) {d : Dlq}
    (hd : d.Installed installed) : Ctx.Letters installed { ctx with dlq := d } w :=
  ⟨hd, h.counted, h.unsent⟩

theorem installed_new (installed : Bool) : (Dlq.new installed).Installed installed := by
  cases installed <;> simp [Dlq.Installed, Dlq.new]

theorem letters_new (installed observer cancel : Bool) :
    Ctx.Letters installed (Ctx.new (Dlq.new installed) observer cancel) 0 :=
  ⟨installed_new installed, rfl, fun _ => rfl⟩

section Handle

variable {K : Nat → Prop}

/-- What holds of a handle, and of the failures accepted so far. -/
abbrev Handle (installed : Bool) (K : Nat → Prop) (d : Dlq) (w : Nat) : Prop :=
  d.Installed installed ∧ K w

theorem Dlq.Installed.sink {flushed closed : Bool} (h : (Dlq.sink flushed closed).Installed installed) :
    installed = true := by
  cases installed with
  | false => cases h.2 rfl
  | true => rfl

theorem Dlq.Installed.of_sink {flushed closed : Bool} (h : installed = true) :
    (Dlq.sink flushed closed).Installed installed := by
  simp [Dlq.Installed, h]

/-- A call of the dead-letter sink that hands over no failure. -/
theorem stable_letter (op : DeadLetterOp) (hop : ∀ failure, op ≠ .write failure)
    (hinstalled : installed = true) :
    Stable installed threaded (Handle installed K) (do
      match ← outcome (← request (.deadLetter op)) with
      | .ok () => pure ()
      | .error e => Act.halt (Dlq.fail e) : Code X Y Error Dlq Unit) := by
  refine Act.Preserves.bind (Act.Preserves.perform fun d w hd => ?_) fun a =>
    (stable_outcome a).bind fun r => ?_
  · refine ⟨⟨hinstalled, False.elim⟩, fun a w' ha => ?_⟩
    have hsame : w' = w := by
      cases op with
      | write failure => exact absurd rfl (hop failure)
      | flush | close => exact ha.1
    rw [hsame]
    exact hd
  · cases r with
    | ok u => exact Act.Preserves.pure ()
    | error e => exact Act.Preserves.halt trivial

theorem stable_dlq_flush :
    Stable installed threaded (Handle installed K) (Dlq.call .flush : Code X Y Error Dlq Unit) := by
  intro d w hd
  cases d with
  | absent => exact Act.Preserves.pure () _ w hd
  | sink flushed closed =>
    have hinstalled := hd.1.sink
    cases flushed with
    | true => exact Act.Preserves.pure () _ w hd
    | false =>
      exact stable_letter .flush (by simp) hinstalled (.sink true closed) w
        ⟨.of_sink hinstalled, hd.2⟩

theorem stable_dlq_close :
    Stable installed threaded (Handle installed K) (Dlq.call .close : Code X Y Error Dlq Unit) := by
  intro d w hd
  cases d with
  | absent => exact Act.Preserves.pure () _ w hd
  | sink flushed closed =>
    have hinstalled := hd.1.sink
    cases closed with
    | true => exact Act.Preserves.pure () _ w hd
    | false =>
      exact stable_letter .close (by simp) hinstalled (.sink flushed true) w
        ⟨.of_sink hinstalled, hd.2⟩

theorem stable_first_of {I : σ → Nat → Prop} (a b : Except Error Unit) (observer : Bool) :
    Stable installed threaded I (first_of a b observer : Code X Y Error σ Unit) := by
  rcases a with e | ⟨⟨⟩⟩
  · rcases b with e' | ⟨⟨⟩⟩
    · exact (stable_emitEvent _ _ (by trivial)).bind fun _ => Act.Preserves.halt trivial
    · exact Act.Preserves.halt trivial
  · rcases b with e' | ⟨⟨⟩⟩
    · exact Act.Preserves.halt trivial
    · exact Act.Preserves.pure ()

theorem stable_dlq_finish (observer : Bool) :
    Stable installed threaded (Handle installed K)
      (Dlq.finish observer : Code X Y Error Dlq Unit) :=
  stable_dlq_flush.attempt.bind fun flushed =>
    stable_dlq_close.attempt.bind fun closed => stable_first_of flushed closed observer

/-- A failure handed to a sink that is there: accepted or refused. -/
theorem wp_route {d : Dlq} (hd : d.Installed installed) (hinstalled : installed = true)
    (failure : StageFailure) :
    Act.wp (letters installed threaded) (Dlq.route failure : Code X Y Error Dlq Unit)
      (fun r d' w' => d' = d ∧ w' = match r with | .ok _ => w + 1 | .halt _ | .panic => w) d w := by
  cases d with
  | absent =>
    rw [hinstalled] at hd
    cases hd.1 rfl
  | sink flushed closed =>
    simp only [Dlq.route, Dlq.call, Act.wp_bind, Act.wp_get, Act.next_ok]
    refine ⟨⟨hinstalled, False.elim⟩, fun a w' ha => ?_⟩
    obtain ⟨rfl, -⟩ := ha
    rcases a with _ | _ | ⟨⟨⟩⟩ <;> exact ⟨rfl, rfl⟩

end Handle

theorem stable_count {f : Tally → Tally} (hf : ∀ t, (f t).dead_lettered = t.dead_lettered) :
    Stable installed threaded (Ctx.Letters installed) (Ctx.count f : Code X Y H Ctx Unit) :=
  Act.Preserves.modify fun ctx _ h => h.tally (hf ctx.tally)

/-- A failure under `DeadLetter` is counted where the sink accepted it. -/
theorem stable_routed (failure : StageFailure) (observer : Bool) (id : StageId)
    (hinstalled : installed = true) :
    Stable installed threaded (Ctx.Letters installed) (do
      Act.mapHalt .failed (Ctx.onDlq (Dlq.route failure))
      Ctx.count fun t => { t with dead_lettered := t.dead_lettered + 1 }
      emitEvent observer (.deadLettered id)
      pure 0 : Code X Y Halt Ctx Nat) := by
  intro ctx w h
  simp only [Act.wp_bind, Act.wp_mapHalt, Ctx.onDlq, Act.wp_zoom]
  refine Act.wp_mono (wp_route h.handle hinstalled failure) fun r d w' hr => ?_
  obtain ⟨rfl, rfl⟩ := hr
  cases r with
  | ok u =>
    refine (Act.Preserves.bind (stable_reported _ _ ?_) fun _ => Act.Preserves.pure 0) _ _ ?_
    · intro _ _ _
      exact hinstalled
    · refine ⟨h.handle, congrArg (· + 1) h.counted, fun habsent => ?_⟩
      rw [hinstalled] at habsent
      cases habsent
  | halt e => exact ⟨h, fun _ _ => trivial⟩
  | panic => exact ⟨h, fun _ _ => trivial⟩

/-- A failure is routed only where there is a handle of the dead-letter sink. -/
theorem stable_handle_failure (policy : ErrorPolicy) (id : StageId) (e : BoxError)
    (input : Option AnyBox) (attempts : Nat) (hpolicy : policy = .deadLetter → installed = true) :
    Stable installed threaded (Ctx.Letters installed)
      (handle_failure policy id e input attempts : Code X Y Halt Ctx Nat) := by
  have hreport : Stable installed threaded (Ctx.Letters installed)
      (report_failure policy id e input attempts : Code X Y Halt Ctx Nat) := by
    refine Act.Preserves.get.bind fun ctx => (stable_emitEvent _ _ (by trivial)).bind fun _ => ?_
    cases policy with
    | failFast => exact Act.Preserves.halt trivial
    | «continue» => exact Act.Preserves.pure 0
    | deadLetter => exact stable_routed _ _ _ (hpolicy rfl)
  have hcount : Stable installed threaded (Ctx.Letters installed) (do
      Ctx.count fun t => { t with errors := t.errors + 1 }
      let ctx ← Act.get
      if policy = .continue ∧ ctx.observer = false then pure 0
      else report_failure policy id e input attempts : Code X Y Halt Ctx Nat) := by
    refine Act.Preserves.bind (stable_count ?_) fun _ => Act.Preserves.get.bind fun ctx => ?_
    · intro t
      rfl
    split
    · exact Act.Preserves.pure 0
    · exact hreport
  by_cases hfast : policy = .failFast
  · simp only [handle_failure, if_pos hfast]
    exact (stable_note _).bind fun _ => hcount
  · simp only [handle_failure, if_neg hfast]
    exact hcount

section Stage

variable {φ ν : Type}

/-- What holds of the context that a stage is called with. -/
abbrev CtxLetters (installed : Bool) (s : ν × Ctx) (w : Nat) : Prop := s.2.Letters installed w

theorem stable_own {x : Code X Y H φ α} (hx : ∀ K, Stable installed threaded (fun _ => K) x) :
    Stable installed threaded (CtxLetters installed) (own (ν := ν) x) :=
  Act.Preserves.frame (fun _ _ _ h => h) hx

theorem stable_down {x : Code X Y H (ν × Ctx) α}
    (hx : Stable installed threaded (CtxLetters installed) x) :
    Stable installed threaded (CtxLetters installed) (down (φ := φ) x) :=
  Act.Preserves.zoom (fun _ _ h => h) (fun _ _ _ _ _ h => h) hx

theorem stable_inCtx {x : Code X Y H Ctx α}
    (hx : Stable installed threaded (Ctx.Letters installed) x) :
    Stable installed threaded (CtxLetters installed) (inCtx (ν := ν) x) :=
  Act.Preserves.zoom (fun _ _ h => h) (fun _ _ _ _ _ h => h) hx

theorem stable_own_state (f : φ → α × φ) :
    Stable installed threaded (CtxLetters installed)
      (own (ν := ν) (Act.state f : Code X Y H φ α)) :=
  stable_own fun _ => Act.Preserves.state fun _ _ h => h

theorem stable_own_modify (f : φ → φ) :
    Stable installed threaded (CtxLetters installed)
      (own (ν := ν) (Act.modify f : Code X Y H φ Unit)) :=
  stable_own fun _ => Act.Preserves.modify fun _ _ h => h

theorem stable_own_get :
    Stable installed threaded (CtxLetters installed)
      (own (ν := ν) (Act.get : Code X Y H φ φ)) :=
  stable_own fun _ => Act.Preserves.get

variable {next : StageOp U → Code X Y Halt (ν × Ctx) Nat}

theorem stable_emitAll {σ : Type} {I : σ → Nat → Prop} {next : StageOp U → Code X Y Halt σ Nat}
    (hnext : ∀ op, Stable installed threaded I (next op)) (outs : List U) :
    Stable installed threaded I (emitAll next outs) := by
  induction outs with
  | nil => exact Act.Preserves.pure 0
  | cons out outs ih => exact (hnext _).bind fun _ => ih.bind fun _ => Act.Preserves.pure _

theorem ItemStage.stable_call (st : ItemStage T U) (depth : Nat)
    (hnext : ∀ op, Stable installed threaded (CtxLetters installed) (next op))
    (hpolicy : st.policy = .deadLetter → installed = true) (op : StageOp T) :
    Stable installed threaded (CtxLetters installed) (st.call depth next op) := by
  unfold ItemStage.call
  cases op.into_item with
  | error signal => exact stable_down (hnext _)
  | ok item =>
    refine (stable_note _).bind fun _ => (stable_own_state _).bind fun reaction => ?_
    cases reaction with
    | items outs => exact stable_emitAll (fun op => stable_down (hnext op)) outs
    | fail e => exact stable_inCtx (stable_handle_failure _ _ _ _ _ hpolicy)
    | panic outs =>
      exact (stable_emitAll (fun op => stable_down (hnext op)) outs).bind fun _ =>
        Act.Preserves.panic

theorem stable_drive (policy : ErrorPolicy) (id : StageId)
    (hnext : ∀ op, Stable installed threaded (CtxLetters installed) (next op))
    (script : Script U φ) (hpolicy : policy = .deadLetter → installed = true ∨ script.Infallible)
    (halted : Option Halt) (written : Nat) :
    Stable installed threaded (CtxLetters installed)
      (drive policy id next script halted written) := by
  induction script generalizing halted written with
  | ret r s =>
    refine (stable_own_modify _).bind fun _ => ?_
    cases halted with
    | some halt => exact Act.Preserves.halt trivial
    | none =>
      cases r with
      | ok u => exact Act.Preserves.pure written
      | error e =>
        have hinstalled : policy = .deadLetter → installed = true :=
          fun h => (hpolicy h).resolve_right fun hscript => hscript
        exact (stable_inCtx (stable_handle_failure _ _ _ _ _ hinstalled)).map _
  | panic s => exact (stable_own_modify _).bind fun _ => Act.Preserves.panic
  | emit item s k ih =>
    have hk : ∀ open_, policy = .deadLetter → installed = true ∨ (k open_).Infallible :=
      fun open_ h => (hpolicy h).imp_right fun hscript => hscript open_
    refine (stable_own_modify _).bind fun _ => ?_
    cases halted with
    | some halt => exact ih false (hk false) _ _
    | none =>
      refine (stable_down (hnext _)).attempt.bind fun r => ?_
      cases r with
      | ok n => exact ih true (hk true) _ _
      | error halt => exact ih false (hk false) _ _

/-- A stage none of whose methods can fail. -/
def Stage.Infallible (st : Stage T U) : Prop :=
  (∀ item s, (st.process item s).Infallible) ∧ (∀ s, (st.tick s).Infallible) ∧
    ∀ s, (st.flush s).Infallible

theorem Stage.stable_call (st : Stage T U) (policy : ErrorPolicy) (id : StageId) (depth : Nat)
    {next : StageOp U → Code X Y Halt (ν × Ctx) Nat}
    (hnext : ∀ op, Stable installed threaded (CtxLetters installed) (next op))
    (hpolicy : policy = .deadLetter → installed = true ∨ st.Infallible) (op : StageOp T) :
    Stable installed threaded (CtxLetters installed) (st.call policy id depth next op) := by
  cases op with
  | process item =>
    exact (stable_note _).bind fun _ => stable_own_get.bind fun s =>
      stable_drive policy id hnext _ (fun h => (hpolicy h).imp_right fun hst => hst.1 item s) _ _
  | tick =>
    exact (stable_note _).bind fun _ => stable_own_get.bind fun s =>
      (stable_drive policy id hnext _ (fun h => (hpolicy h).imp_right fun hst => hst.2.1 s) _ _).bind
        fun _ => (stable_down (hnext _)).map _
  | flush =>
    exact (stable_note _).bind fun _ => stable_own_get.bind fun s =>
      (stable_drive policy id hnext _ (fun h => (hpolicy h).imp_right fun hst => hst.2.2 s) _ _).bind
        fun _ => (stable_down (hnext _)).map _
  | close => exact stable_down (hnext _)
  | abort => exact stable_down (hnext _)

namespace RetryStage

theorem stable_attempt (st : RetryStage T U) (depth : Nat) (item : T)
    {next : StageOp U → Code X Y Halt (ν × Ctx) Nat}
    (hnext : ∀ op, Stable installed threaded (CtxLetters installed) (next op))
    {retry : BoxError → Code X Y Halt (((st.φ × Jitter) × ν) × Ctx) Nat}
    (hretry : ∀ e, Stable installed threaded (CtxLetters installed) (retry e)) :
    Stable installed threaded (CtxLetters installed) (st.attempt depth item next retry) := by
  refine (stable_note _).bind fun _ => (stable_own_state _).bind fun r => ?_
  refine (stable_outcome r).bind fun r => ?_
  cases r with
  | ok out => exact stable_down (hnext _)
  | error e => exact hretry e

theorem stable_attempts (st : RetryStage T U) (depth : Nat) (item : T)
    {next : StageOp U → Code X Y Halt (ν × Ctx) Nat}
    (hnext : ∀ op, Stable installed threaded (CtxLetters installed) (next op))
    (hpolicy : st.policy = .deadLetter → installed = true) (left attempt : Nat) :
    Stable installed threaded (CtxLetters installed) (st.attempts depth item next left attempt) := by
  induction left generalizing attempt with
  | zero =>
    exact st.stable_attempt depth item hnext fun e =>
      stable_inCtx (stable_handle_failure _ _ _ _ _ hpolicy)
  | succ left ih =>
    refine st.stable_attempt depth item hnext fun e => ?_
    refine (stable_own_state _).bind fun delay => ?_
    refine Act.Preserves.bind (stable_inCtx (stable_count ?_)) fun _ => ?_
    · intro t
      rfl
    refine (stable_inCtx Act.Preserves.get).bind fun ctx => ?_
    refine (stable_emitEvent _ _ (by trivial)).bind fun _ => ?_
    refine (stable_request _ (by trivial)).bind fun done => ?_
    split
    · exact ih (attempt + 1)
    · exact stable_inCtx (stable_handle_failure _ _ _ _ _ hpolicy)

theorem stable_call (st : RetryStage T U) (depth : Nat)
    {next : StageOp U → Code X Y Halt (ν × Ctx) Nat}
    (hnext : ∀ op, Stable installed threaded (CtxLetters installed) (next op))
    (hpolicy : st.policy = .deadLetter → installed = true) (op : StageOp T) :
    Stable installed threaded (CtxLetters installed) (st.call depth next op) := by
  unfold RetryStage.call
  cases op.into_item with
  | ok item => exact st.stable_attempts depth item hnext hpolicy _ _
  | error signal => exact stable_down (hnext _)

end RetryStage

end Stage

/-- The stage may hand a failure to the dead-letter sink. -/
def Node.Routes : Node T U → Prop
  | .item st => st.policy = .deadLetter
  | .retry st => st.policy = .deadLetter
  | .stage st policy _ => policy = .deadLetter ∧ ¬st.Infallible

/-- Some stage may hand a failure to the dead-letter sink. -/
def Stages.Routes : {T V : Type} → Stages T V → Prop
  | _, _, .nil => False
  | _, _, .cons node rest => node.Routes ∨ rest.Routes

/-- Every call of the chain keeps what holds of the context. -/
def StageFn.Stable (c : StageFn X Y T) (installed threaded : Bool) : Prop :=
  ∀ op, PipeIo.Stable installed threaded (CtxLetters installed) (c.call op)

theorem Node.link_stable (node : Node T U) (depth : Nat) {next : StageFn X Y U}
    (hnext : next.Stable installed threaded) (hnode : node.Routes → installed = true) :
    (node.link depth next).Stable installed threaded := by
  intro op
  cases node with
  | item st => exact st.stable_call depth hnext hnode op
  | retry st => exact st.stable_call depth hnext hnode op
  | stage st policy id =>
    refine st.stable_call policy id depth hnext (fun hp => ?_) op
    by_cases hst : st.Infallible
    · exact .inr hst
    · exact .inl (hnode ⟨hp, hst⟩)

theorem Stages.assemble_stable (stages : Stages T U) {tail : StageFn X Y U}
    (htail : tail.Stable installed threaded) (hstages : stages.Routes → installed = true) :
    (stages.assemble tail).Stable installed threaded := by
  induction stages with
  | nil => exact htail
  | cons node rest ih =>
    exact node.link_stable _ (ih htail fun h => hstages (.inr h)) fun h => hstages (.inl h)

end PipeIo
