import PipeIo.InstrumentRun

namespace PipeIo
set_option autoImplicit true

open Lib

variable {X Y H σ α : Type}

/-- Two states of one pipeline under different instrumentation. -/
inductive State.Alike : State σ → State σ → Prop where
  | built (h : b.dead_letter = b'.dead_letter) : Alike (.built b) (.built b')
  | running (h : r.Alike r') : Alike (.running r) (.running r')
  | ended (stats : RunStats) (succeeded : Bool) : Alike (.ended stats succeeded) (.ended stats succeeded)

/-- One pipeline under different instrumentation. -/
structure Pipeline.Alike (p p' : Pipeline σ) : Prop where
  source_id : p.source_id = p'.source_id
  idle_tick : p.idle_tick = p'.idle_tick
  config_error : p.config_error = p'.config_error
  state : p.state.Alike p'.state
  in_call : p.in_call = p'.in_call

namespace Pipeline

variable {c : StageFn X Y X}

theorem alike_setState {s s' : State σ} (h : s.Alike s') :
    PipeIo.Alike Alike (setState s : Code X Y H (Pipeline σ) Unit) (setState s') :=
  Act.Agree.modify fun _ _ hp => { hp with state := h }

theorem alike_setInCall (b : Bool) :
    PipeIo.Alike Alike (setInCall b : Code X Y H (Pipeline σ) Unit) (setInCall b) :=
  Act.Agree.modify fun _ _ hp => { hp with in_call := rfl }

theorem alike_onRunner {r r' : Runner σ} (h : r.Alike r') {x y : Code X Y H (Runner σ) α}
    (hx : PipeIo.Alike Runner.Alike x y) :
    PipeIo.Alike Alike (onRunner r x) (onRunner r' y) :=
  hx.zoom (fun _ _ _ => h) fun _ _ _ _ hp hr => { hp with state := .running hr }

theorem agree_take_built :
    Act.Agree instruments Alike (fun b b' => b.dead_letter = b'.dead_letter)
      (take_built : Code X Y Error (Pipeline σ) Built) take_built := by
  refine Act.Agree.get.bind fun p p' h => ?_
  rw [h.config_error]
  have hended := alike_setState (X := X) (Y := Y) (H := Error)
    (State.Alike.ended (σ := σ) .default false)
  have hstate := h.state
  generalize p.state = s, p'.state = s' at hstate ⊢
  cases hstate with
  | running h => exact Act.Agree.halt _
  | ended stats succeeded => exact Act.Agree.halt _
  | built hb =>
    cases p'.config_error with
    | some e => exact hended.next fun _ => Act.Agree.halt _
    | none => exact hended.next fun _ => Act.Agree.ret hb

theorem alike_ensure_started :
    PipeIo.Alike Alike (ensure_started c) (ensure_started c) := by
  refine Act.Agree.get.bind fun p p' h => ?_
  have hstate := h.state
  generalize p.state = s, p'.state = s' at hstate ⊢
  cases hstate with
  | running h => exact Act.Agree.value ()
  | ended stats succeeded => exact Act.Agree.value ()
  | built hb =>
    refine agree_take_built.bind fun b b' hb => Act.Agree.get.bind fun p p' h => ?_
    refine agree_emit _ _ _ _ (alike_setState (.running ?_))
    rw [h.source_id]
    constructor <;> first | rfl | exact ⟨rfl, congrArg Dlq.new hb⟩

theorem alike_teardown (hc : c.Alike) («end» : PumpEnd) :
    PipeIo.Alike Runner.Beside (teardown (H := H) c «end») (teardown c «end») := by
  cases «end» with
  | graceful => exact Runner.alike_finish hc
  | cancelled => exact Runner.alike_finish hc
  | failed e =>
    exact (Runner.alike_onFirst fun b b' => alike_offer e b b').next fun _ => Runner.alike_abort hc
  | disconnected =>
    exact (Runner.alike_onFirst fun b b' => alike_offer _ b b').next fun _ => Runner.alike_abort hc

theorem alike_conclusion (hc : c.Alike) («end» : PumpEnd) :
    PipeIo.Alike Runner.Beside (conclusion (H := H) c «end») (conclusion c «end») := by
  refine (alike_teardown hc «end»).next fun _ => Act.Agree.get.bind fun s s' h => ?_
  obtain ⟨r, f⟩ := s
  obtain ⟨r', f'⟩ := s'
  obtain ⟨hr, hf⟩ := h
  dsimp only at hf ⊢
  subst hf
  refine agree_emit _ _ _ _ ?_
  rw [hr.ctx.tally]
  exact Act.Agree.value _

theorem alike_conclude (hc : c.Alike) («end» : PumpEnd) :
    PipeIo.Alike Alike (conclude c «end») (conclude c «end») := by
  refine Act.Agree.get.bind fun p p' h => ?_
  have hstate := h.state
  generalize p.state = s, p'.state = s' at hstate ⊢
  cases hstate with
  | built h => exact Act.Agree.halt _
  | ended stats succeeded => exact Act.Agree.halt _
  | running hr =>
    refine (alike_setState (.ended _ _)).next fun _ => ?_
    refine Act.Agree.next (Act.Agree.withLocal (show Runner.Beside _ _ from ⟨hr, rfl⟩)
      (alike_conclusion hc «end») (Runner.alike_beside (Runner.alike_drop hc))) fun res => ?_
    obtain ⟨stats, e | s⟩ := res
    · exact (alike_setState (.ended _ _)).next fun _ => Act.Agree.halt _
    · exact (alike_setState (.ended _ _)).next fun _ => Act.Agree.value _

theorem alike_check_poisoned (hc : c.Alike) :
    PipeIo.Alike Alike (check_poisoned c) (check_poisoned c) := by
  refine Act.Agree.get.bind fun p p' h => ?_
  rw [h.in_call]
  split
  · refine (alike_setInCall false).next fun _ => ?_
    have hstate := h.state
    generalize p.state = s, p'.state = s' at hstate ⊢
    cases hstate with
    | built h => exact Act.Agree.value ()
    | ended stats succeeded => exact Act.Agree.value ()
    | running hr => exact (alike_conclude hc _).next fun _ => Act.Agree.value ()
  · exact Act.Agree.value ()

theorem alike_step (hc : c.Alike) : PipeIo.Alike Alike (step c) (step c) := by
  refine alike_ensure_started.next fun _ => (alike_check_poisoned hc).next fun _ => ?_
  refine Act.Agree.get.bind fun p p' h => ?_
  refine (alike_is_cancelled _ _).next fun cancelled => ?_
  have hstate := h.state
  generalize p.state = s, p'.state = s' at hstate ⊢
  cases hstate with
  | built h => exact Act.Agree.halt _
  | ended stats succeeded =>
    cases succeeded with
    | true => exact Act.Agree.value _
    | false => exact Act.Agree.halt _
  | running hr =>
    cases cancelled with
    | true => exact (alike_conclude hc _).next fun _ => Act.Agree.value _
    | false =>
      rw [h.idle_tick]
      refine (alike_setInCall true).next fun _ => ?_
      refine (alike_onRunner hr (Runner.alike_step hc _)).attempt.next fun outcome => ?_
      refine (alike_setInCall false).next fun _ => ?_
      rcases outcome with halt | _ | _ | _
      · exact (alike_conclude hc _).next fun _ => Act.Agree.value _
      · exact Act.Agree.value _
      · exact Act.Agree.value _
      · exact (alike_conclude hc _).next fun _ => Act.Agree.value _

theorem alike_tick (hc : c.Alike) : PipeIo.Alike Alike (tick c) (tick c) := by
  refine alike_ensure_started.next fun _ => (alike_check_poisoned hc).next fun _ => ?_
  refine Act.Agree.get.bind fun p p' h => ?_
  have hstate := h.state
  generalize p.state = s, p'.state = s' at hstate ⊢
  cases hstate with
  | built h => exact Act.Agree.halt _
  | ended stats succeeded => exact Act.Agree.halt _
  | running hr =>
    refine (alike_setInCall true).next fun _ => ?_
    refine (alike_onRunner hr (Runner.alike_tick hc)).attempt.next fun result => ?_
    refine (alike_setInCall false).next fun _ => ?_
    rcases result with halt | ⟨⟨⟩⟩
    · exact (alike_conclude hc _).next fun _ => Act.Agree.value _
    · exact Act.Agree.value _

theorem alike_finish (hc : c.Alike) : PipeIo.Alike Alike (finish c) (finish c) := by
  refine Act.Agree.get.bind fun p p' h => ?_
  have hstate := h.state
  generalize p.state = s, p'.state = s' at hstate ⊢
  cases hstate with
  | ended stats succeeded =>
    cases succeeded with
    | true => exact Act.Agree.value _
    | false => exact Act.Agree.halt _
  | built h =>
    exact alike_ensure_started.next fun _ => (alike_check_poisoned hc).next fun _ =>
      alike_conclude hc _
  | running h =>
    exact alike_ensure_started.next fun _ => (alike_check_poisoned hc).next fun _ =>
      alike_conclude hc _

theorem alike_run_sync (hc : c.Alike) (fuel : Nat) :
    PipeIo.Alike Alike (run_sync c fuel) (run_sync c fuel) := by
  refine alike_ensure_started.next fun _ => Act.Agree.get.bind fun p p' h => ?_
  have hstate := h.state
  generalize p.state = s, p'.state = s' at hstate ⊢
  cases hstate with
  | built h => exact Act.Agree.halt _
  | ended stats succeeded => exact Act.Agree.halt _
  | running hr =>
    rw [h.idle_tick]
    refine (alike_onRunner hr (Runner.alike_pump hc fuel _ _ _)).next fun «end» => ?_
    cases «end» with
    | none => exact Act.Agree.value none
    | some «end» => exact (alike_conclude hc «end»).map _

theorem alike_drop (hc : c.Alike) :
    PipeIo.Alike Alike (drop (H := H) c) (drop c) := by
  refine Act.Agree.get.bind fun p p' h => ?_
  have hstate := h.state
  generalize p.state = s, p'.state = s' at hstate ⊢
  cases hstate with
  | built h => exact Act.Agree.value ()
  | ended stats succeeded => exact Act.Agree.value ()
  | running hr => exact alike_onRunner hr (Runner.alike_drop hc)

theorem alike_caught {R : σ → τ → Prop} {x : Code X Y Error σ α} {y : Code X Y Error τ α}
    (h : PipeIo.Alike R x y) : PipeIo.Alike R (caught x) (caught y) :=
  h.attempt.contain.next fun _ => Act.Agree.value _

theorem alike_call (hc : c.Alike) (x : Call) : PipeIo.Alike Alike (call c x) (call c x) := by
  cases x with
  | step => exact alike_caught ((alike_step hc).next fun _ => Act.Agree.value ())
  | tick => exact alike_caught (alike_tick hc)
  | cancel_handle =>
    refine Act.Agree.next (Act.Agree.modify fun p p' h => ?_) fun _ => Act.Agree.value _
    exact { h with state := h.state }

/-- The call that consumes the pipeline, with what it returns. -/
def report (c : StageFn X Y X) :
    LastCall → Code X Y Empty (Pipeline c.σ) (Outcome (Option RunStats))
  | .finish => do
    let r ← caught (some <$> finish c)
    drop c
    pure r
  | .run fuel => do
    match ← caught (run_sync c fuel) with
    | .ok none => pure (.ok none)
    | r => drop c; pure r
  | .run_threaded => do
    match ← caught (do let _ ← take_built; pure none) with
    | .ok r => pure (.ok r)
    | r => drop c; pure r
  | .drop => do
    drop c
    pure (.ok none)

/-- A session with what its last call returns. -/
def reported (c : StageFn X Y X) (xs : List Call) (l : LastCall) :
    Code X Y Empty (Pipeline c.σ) (List (Outcome Unit) × Outcome (Option RunStats)) := do
  let rs ← calls c xs
  let r ← report c l
  pure (rs, r)

theorem alike_dropped (hc : c.Alike) (r : α) :
    PipeIo.Alike Alike (do drop c; pure r : Code X Y Empty (Pipeline c.σ) α) (do drop c; pure r) :=
  (alike_drop hc).next fun _ => Act.Agree.value r

theorem alike_report (hc : c.Alike) (l : LastCall) :
    PipeIo.Alike Alike (report c l) (report c l) := by
  cases l with
  | drop => exact alike_dropped hc _
  | finish =>
    exact (alike_caught ((alike_finish hc).map some)).next fun r => alike_dropped hc r
  | run fuel =>
    refine (alike_caught (alike_run_sync hc fuel)).next fun r => ?_
    rcases r with (_ | stats) | e | _
    · exact Act.Agree.value _
    · exact alike_dropped hc _
    · exact alike_dropped hc _
    · exact alike_dropped hc _
  | run_threaded =>
    refine (alike_caught (agree_take_built.bind fun _ _ _ => Act.Agree.value none)).next fun r => ?_
    rcases r with stats | e | _
    · exact Act.Agree.value _
    · exact alike_dropped hc _
    · exact alike_dropped hc _

end Pipeline

/-- The calls of an owner who asks for no cancel handle. -/
def bare (xs : List Call) : List Call := xs.filter (· ≠ .cancel_handle)

/-- The answers to the other calls. -/
def answered : List Call → List (Outcome Unit) → List (Outcome Unit)
  | .cancel_handle :: xs, _ :: os => answered xs os
  | _ :: xs, o :: os => o :: answered xs os
  | _, _ => []

namespace Pipeline

variable {c : StageFn X Y X}

theorem agree_calls (hc : c.Alike) (xs : List Call) :
    Act.Agree instruments Alike (fun os os' => os = answered xs os') (calls c (bare xs))
      (calls c xs) := by
  induction xs with
  | nil => exact Act.Agree.ret rfl
  | cons x xs ih =>
    have hgoes : ∀ x, x ≠ .cancel_handle → Act.Agree instruments Alike
        (fun os os' => os = answered (x :: xs) os') (calls c (x :: bare xs)) (calls c (x :: xs)) := by
      intro x hx
      refine (alike_call hc x).next fun o => ih.bind fun os os' h => Act.Agree.ret ?_
      cases x with
      | cancel_handle => exact absurd rfl hx
      | step => exact congrArg (o :: ·) h
      | tick => exact congrArg (o :: ·) h
    cases x with
    | step => exact hgoes .step (by simp)
    | tick => exact hgoes .tick (by simp)
    | cancel_handle =>
      intro p p' h
      have hrest : Act.Agree instruments Alike
          (fun os os' => os = answered (.cancel_handle :: xs) os')
          (calls c (bare xs) >>= pure) (do let os ← calls c xs; pure (.ok () :: os)) :=
        ih.bind fun os os' h => Act.Agree.ret h
      rw [bind_pure] at hrest
      exact hrest p { p' with cancel := true } { h with state := h.state }

theorem agree_reported (hc : c.Alike) (xs : List Call) (l : LastCall) :
    Act.Agree instruments Alike (fun r r' => r = (answered xs r'.1, r'.2))
      (reported c (bare xs) l) (reported c xs l) := by
  refine (agree_calls hc xs).bind fun os os' h => (alike_report hc l).next fun r => ?_
  exact Act.Agree.ret (congrArg (·, r) h)

end Pipeline

/-- A call of the observer, or a look at the cancellation flag. -/
def Eff.instrument : Eff X Y → Bool
  | .observe _ | .isCancelled => true
  | _ => false

/-- The calls of the components. -/
def Log.shown (log : Log X Y) : Log X Y := log.filter fun a => !a.1.instrument

/-- Components whose answers depend on their own calls only, with an observer that does not panic
and a cancel handle that is never fired. -/
def Oracle.instrumented (components : Oracle X Y) : Oracle X Y := fun log e =>
  match e with
  | .observe _ => some ()
  | .isCancelled => false
  | e => components log.shown e

theorem hidden_iff (e : Eff X Y) :
    (instruments : Veil (Eff X Y) Ans).hidden e ↔ e.instrument = true := by
  cases e <;> simp [instruments, Eff.instrument]

theorem shown_snoc (log : Log X Y) (a : Entry X Y) :
    Log.shown (log ++ [a]) = log.shown ++ if a.1.instrument then [] else [a] := by
  rw [Log.shown, List.filter_append, Log.shown]
  cases h : a.1.instrument <;> simp [h]

theorem Oracle.covers (components : Oracle X Y) :
    instruments.Covers (fun log log' => Log.shown log = Log.shown log')
      components.instrumented.handler components.instrumented.handler := by
  have hskip : ∀ {e : Eff X Y} {log : Log X Y}, instruments.hidden e →
      Log.shown (components.instrumented.handler e log).2 = log.shown ∧
        instruments.reply e (components.instrumented.handler e log).1 := by
    intro e log he
    refine ⟨?_, ?_⟩
    · simp [Oracle.handler, shown_snoc, (hidden_iff e).1 he]
    · cases e with
      | observe event => rfl
      | isCancelled => rfl
      | _ => trivial
  constructor
  · intro e log log' he h
    have hinstrument : e.instrument = false := by
      simpa [hidden_iff] using he
    have hanswer : components.instrumented log e = components.instrumented log' e := by
      cases e with
      | observe event => cases hinstrument
      | isCancelled => cases hinstrument
      | _ => simp only [Oracle.instrumented, h]
    refine ⟨hanswer, ?_⟩
    simp only [Oracle.handler, shown_snoc, hanswer, h]
  · intro e log log' he h
    exact ⟨hskip he |>.2, (hskip he).1.trans h⟩
  · intro e log log' he h
    exact ⟨hskip he |>.2, h.trans (hskip he).1.symm⟩

theorem Pipeline.Alike.stats {p p' : Pipeline σ} (h : p.Alike p') : p.stats = p'.stats := by
  have hstate := h.state
  unfold Pipeline.stats
  generalize p.state = s, p'.state = s' at hstate ⊢
  cases hstate with
  | built h => rfl
  | ended stats succeeded => rfl
  | running h => exact congrArg Tally.to_stats h.ctx.tally

/-- Two pipelines that differ in their instrumentation make the same calls of their components and
give the same answers. -/
theorem Pipeline.Alike.reported {c : StageFn X Y X} (hc : c.Alike) {p p' : Pipeline c.σ}
    (h : p.Alike p') (components : Oracle X Y) (xs : List Call) (l : LastCall) :
    let run := components.instrumented.run (Pipeline.reported c (bare xs) l) p
    let run' := components.instrumented.run (Pipeline.reported c xs l) p'
    run.2.shown = run'.2.shown ∧
      Res.Related (fun r r' => r = (answered xs r'.1, r'.2)) run.1.1 run'.1.1 ∧
        run.1.2.stats = run'.1.2.stats := by
  intro run run'
  obtain ⟨hres, hlog⟩ := Prog.Agree.exec components.covers
    (Pipeline.agree_reported hc xs l p p' h) (rfl : Log.shown ([] : Log X Y) = Log.shown [])
  exact ⟨hlog, hres.1, hres.2.stats⟩

end PipeIo
