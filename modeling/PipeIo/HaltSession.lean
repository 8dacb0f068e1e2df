import PipeIo.HaltRun
import PipeIo.Poison

namespace PipeIo
set_option autoImplicit true

open Lib

/-- The run has ended. -/
def Pipeline.Ended (p : Pipeline σ) : Prop := ∃ stats b, p.state = .ended stats b

/-- User code panicked in a call, and the owner caught it. -/
def Pipeline.Unwound (p : Pipeline σ) : Prop := p.in_call = true ∧ ∃ r, p.state = .running r

/-- A run that has failed has ended, or the next call that looks at `in_call` will end it. -/
def Pipeline.Calm (p : Pipeline σ) (w : Option Error) : Prop := p.Ended ∨ w = none ∨ p.Unwound

/-- How the body of a call ends: the run may have failed, and the call then says so unless it
unwinds; a call that fails has ended the run; nothing happens once it has ended. -/
structure Answers (p : Pipeline σ) (w : Option Error) (res : Res Error α) (p' : Pipeline σ)
    (w' : Option Error) : Prop where
  calm : p'.Calm w'
  fails : ∀ e, res = .halt e → p'.Ended
  ended : p.Ended → p'.Ended ∧ w' = w
  reports : w = none → ∀ e, w' = some e → res = .halt e ∨ res = .panic

section Pipeline

variable {X Y : Type} {c : StageFn X Y X} {view : c.σ → Unit} {id : StageId}
  {p p' : Pipeline c.σ} {w w' : Option Error} {α : Type}

/-- The world did not change, and the run has ended. -/
theorem Answers.over (h : p'.Ended) (res : Res Error α) : Answers p w res p' w where
  calm := .inl h
  fails _ _ := h
  ended _ := ⟨h, rfl⟩
  reports hw _ he := absurd (hw.symm.trans he) nofun

/-- The run has just ended. -/
theorem Answers.ends {res : Res Error α} (hn : ¬p.Ended) (h : p'.Ended)
    (hr : ∀ e, w' = some e → res = .halt e ∨ res = .panic) : Answers p w res p' w' where
  calm := .inl h
  fails _ _ := h
  ended hp := absurd hp hn
  reports _ := hr

/-- The run goes on. -/
theorem Answers.on (hn : ¬p.Ended) {res : Res Error α} (hres : ∀ e, res ≠ .halt e) :
    Answers p w res p' none where
  calm := .inr (.inl rfl)
  fails e he := absurd he (hres e)
  ended hp := absurd hp hn
  reports _ := nofun

/-- The same without its value. -/
theorem Answers.recast {β : Type} {res : Res Error α} {res' : Res Error β}
    (h : Answers p w res p' w') (hres : res.void = res'.void) : Answers p w res' p' w' where
  calm := h.calm
  fails e he := by
    subst he
    cases res with
    | halt e' => exact h.fails e' rfl
    | ok | panic => cases hres
  ended := h.ended
  reports hw e he := by
    rcases h.reports hw e he with rfl | rfl
    · cases res' with
      | halt e' =>
        cases hres
        exact .inl rfl
      | ok | panic => cases hres
    · cases res' with
      | panic => exact .inr rfl
      | ok | halt => cases hres

/-- User code panicked. -/
theorem Answers.unwinds (hn : ¬p.Ended) (h : p'.Unwound) :
    Answers p w (.panic : Res Error α) p' w' where
  calm := .inr (.inr h)
  fails _ he := by cases he
  ended hp := absurd hp hn
  reports _ _ _ := .inr rfl

theorem not_failed {P : Error → Prop} (e : Error) (h : (none : Option Error) = some e) : P e := by
  cases h

theorem not_ended_of_running {r : Runner c.σ} (hs : p.state = .running r) : ¬p.Ended := by
  rintro ⟨stats, b, h⟩
  rw [hs] at h
  cases h

theorem not_ended_of_built {b : Built} (hs : p.state = .built b) : ¬p.Ended := by
  rintro ⟨stats, s, h⟩
  rw [hs] at h
  cases h

/-- Concluding a run ends it, and reports the error that ended it. -/
theorem wp_halts_conclude (hc : c.Obeys (halts id) haltRules view) {«end» : PumpEnd}
    (hend : ∀ e, w = some e → «end» = .failed e) {r : Runner c.σ} (hs : p.state = .running r) :
    Act.wp (halts id) (Pipeline.conclude c «end») (fun res p' w' => p'.Ended ∧
      ∀ e, w' = some e → res = .halt e ∨ res = .panic) p w := by
  simp only [Pipeline.conclude, Act.wp_bind, Act.wp_get, Act.next_ok, hs, Pipeline.setState,
    Act.wp_modify, Act.wp_withLocal]
  refine Act.wp_mono (wp_halts_conclusion hc hend r) fun res t w₁ h => ?_
  refine (Act.wp_zoom ..).2 (wp_halts_drop hc (fun r' => ?_) t.1)
  rcases res with ⟨stats, e | stats'⟩ | e | _
  · refine ⟨⟨_, _, rfl⟩, fun e' he => ?_⟩
    obtain ⟨_, he | he⟩ | he := h e' he <;> cases he
    exact .inl rfl
  · refine ⟨⟨_, _, rfl⟩, fun e' he => ?_⟩
    obtain ⟨_, he⟩ | he := h e' he <;> cases he
  · refine ⟨⟨_, _, rfl⟩, fun e' he => ?_⟩
    obtain ⟨_, he⟩ | he := h e' he <;> cases he
  · exact ⟨⟨_, _, rfl⟩, fun _ _ => .inr rfl⟩

/-- Ending a run because of a caught panic changes nothing else. -/
theorem wp_halts_conclude_failed (hc : c.Obeys (halts id) haltRules view) (e : Error)
    {r : Runner c.σ} (hs : p.state = .running r) :
    Act.wp (halts id) (Pipeline.conclude c (.failed e)) (fun _ p' w' => p'.Ended ∧ w' = w) p w := by
  simp only [Pipeline.conclude, Act.wp_bind, Act.wp_get, Act.next_ok, hs, Pipeline.setState,
    Act.wp_modify, Act.wp_withLocal]
  have hconcl : Act.Preserves (halts id) (fun _ w' => w' = w) (fun _ : Error => True)
      (Pipeline.conclusion c (.failed e)) := preserves_conclusion hc e
  refine Act.wp_mono (hconcl (r, none) w rfl) ?_
  rintro res t _ ⟨rfl, -⟩
  refine (Act.wp_zoom ..).2 (wp_halts_drop hc (fun r' => ?_) t.1)
  rcases res with ⟨stats, e | stats'⟩ | e | _ <;> exact ⟨⟨_, _, rfl⟩, rfl⟩

/-- Starting a pipeline does not move its run on. -/
theorem wp_halts_ensure_started (h : p.Calm w)
    {Q : Res Error Unit → Pipeline c.σ → Option Error → Prop}
    (hstop : ∀ res p', p'.Ended → Q res p' w)
    (hrun : ∀ p' r, p'.state = .running r → ¬p.Ended → p'.Calm w → Q (.ok ()) p' w) :
    Act.wp (halts (X := X) (Y := Y) id) (Pipeline.ensure_started c) Q p w := by
  simp only [Pipeline.ensure_started, Act.wp_bind, Act.wp_get, Act.next_ok]
  cases hs : p.state with
  | running r => exact hrun p r hs (not_ended_of_running hs) h
  | ended stats b => exact hstop _ p ⟨stats, b, hs⟩
  | built built =>
    have hn := not_ended_of_built hs
    have hw : w = none := by
      rcases h with h | h | ⟨-, r, hr⟩
      · exact absurd h hn
      · exact h
      · rw [hs] at hr
        cases hr
    simp only [Act.wp_bind, Pipeline.take_built, Act.wp_get, Act.next_ok, hs, Pipeline.setState]
    cases p.config_error with
    | some e => exact hstop _ _ ⟨_, _, rfl⟩
    | none =>
      simp only [Act.wp_bind, Act.wp_modify, Act.next_ok, Act.wp_pure, Act.wp_get]
      have hevent : Act.Preserves (halts (X := X) (Y := Y) id)
          (fun (p' : Pipeline c.σ) w' => p'.Ended ∧ w' = w) (fun _ : Error => False)
          (emitEvent built.observer .started) := preserves_emitEvent _ _
      refine hevent.wp ⟨⟨_, _, rfl⟩, rfl⟩ ?_ ?_
      · rintro u p₁ _ ⟨-, rfl⟩
        exact hrun _ _ rfl hn (.inr (.inl hw))
      · rintro p₁ _ ⟨hended, rfl⟩
        exact hstop _ _ hended

/-- What a public call needs to know of the rest of itself: the run has ended, or it goes on. -/
theorem wp_halts_started (hc : c.Obeys (halts id) haltRules view) (h : p.Calm w)
    {rest : Code X Y Error (Pipeline c.σ) α}
    (hended : ∀ p', p'.Ended →
      Act.wp (halts id) rest (fun res p'' w' => Answers p w res p'' w') p' w)
    (hrun : ∀ p' r, p'.state = .running r → ¬p.Ended → w = none →
      Act.wp (halts id) rest (fun res p'' w' => Answers p w res p'' w') p' w) :
    Act.wp (halts id) (do
      Pipeline.ensure_started c
      Pipeline.check_poisoned c
      rest) (fun res p' w' => Answers p w res p' w') p w := by
  have hover : ∀ p₁, p₁.Ended → Act.wp (halts id) (do
      Pipeline.check_poisoned c
      rest) (fun res p' w' => Answers p w res p' w') p₁ w := by
    intro p₁ h₁
    obtain ⟨stats, b, hs⟩ := h₁
    simp only [Act.wp_bind, Pipeline.check_poisoned, Act.wp_get, Act.next_ok]
    split
    · simp only [hs, Act.wp_bind, Pipeline.setInCall, Act.wp_modify, Act.next_ok]
      exact hended _ ⟨stats, b, rfl⟩
    · exact hended p₁ ⟨stats, b, hs⟩
  refine (Act.wp_bind ..).2 (wp_halts_ensure_started h (fun res p₁ h₁ => ?_)
    fun p₁ r hs hn hcalm => ?_)
  · cases res with
    | ok u => exact hover p₁ h₁
    | halt e => exact .over h₁ _
    | panic => exact .over h₁ _
  · simp only [Act.next_ok, Act.wp_bind, Pipeline.check_poisoned, Act.wp_get]
    split
    · simp only [hs, Act.wp_bind, Pipeline.setInCall, Act.wp_modify, Act.next_ok]
      refine Act.wp_mono (wp_halts_conclude_failed hc _ rfl) ?_
      rintro res p₂ _ ⟨hend, rfl⟩
      cases res with
      | ok stats => exact hended p₂ hend
      | halt e => exact .over hend _
      | panic => exact .over hend _
    · rename_i hcall
      have hw : w = none := by
        rcases hcalm with hp | hw | ⟨hin, -⟩
        · exact absurd hp (not_ended_of_running hs)
        · exact hw
        · exact absurd hin hcall
      exact hrun p₁ r hs hn hw

theorem wp_halts_is_cancelled {σ H : Type} {armed : Bool}
    {Q : Res H Bool → σ → Option Error → Prop} {s : σ} (hQ : ∀ b, Q (.ok b) s w) :
    Act.wp (halts (X := X) (Y := Y) id) (is_cancelled armed) Q s w := by
  cases armed with
  | false => exact hQ false
  | true =>
    refine ⟨nofun, ?_⟩
    rintro a _ rfl
    rw [show w.or (halting id (Eff.isCancelled : Eff X Y) a) = w from Option.or_none]
    exact hQ a

/-- A call that concludes the run. -/
theorem wp_halts_concludes (hc : c.Obeys (halts id) haltRules view) (hn : ¬p.Ended)
    {«end» : PumpEnd} (hend : ∀ e, w' = some e → «end» = .failed e) {r : Runner c.σ}
    (hs : p'.state = .running r) (a : α) :
    Act.wp (halts id) (do
      let _ ← Pipeline.conclude c «end»
      pure a) (fun res p'' w'' => Answers p w res p'' w'') p' w' := by
  refine (Act.wp_bind ..).2 (Act.wp_mono (wp_halts_conclude hc hend hs) fun res p₁ w₁ h => ?_)
  have hends := Answers.ends (w := w) hn h.1 h.2
  cases res with
  | ok stats =>
    refine Answers.ends hn h.1 fun e he => ?_
    rcases h.2 e he with h' | h' <;> cases h'
  | halt e => exact hends.recast rfl
  | panic => exact hends.recast rfl

theorem Tells.conclude {halt : Halt} (h : Tells (.halt halt : Res Halt α) w) (e : Error)
    (he : w = some e) : halted halt = .failed e := by
  rw [h.halt_eq he]
  rfl

theorem wp_halts_pipeline_step (hc : c.Obeys (halts id) haltRules view) (h : p.Calm w) :
    Act.wp (halts id) (Pipeline.step c) (fun res p' w' => Answers p w res p' w') p w := by
  refine wp_halts_started hc h (fun p₁ h₁ => ?_) fun p₁ r hs hn hw => ?_
  · obtain ⟨stats, b, hs⟩ := h₁
    simp only [Act.wp_bind, Act.wp_get, Act.next_ok]
    refine wp_halts_is_cancelled fun _ => ?_
    rw [Act.next_ok, hs]
    cases b <;> exact .over ⟨stats, _, hs⟩ _
  · subst hw
    simp only [Act.wp_bind, Act.wp_get, Act.next_ok]
    refine wp_halts_is_cancelled fun cancelled => ?_
    rw [Act.next_ok, hs]
    cases cancelled with
    | true => exact wp_halts_concludes hc hn not_failed hs Step.done
    | false =>
      simp only [Bool.false_eq_true, if_false, Act.wp_bind, Pipeline.setInCall, Act.wp_modify,
        Act.next_ok, Act.wp_attempt, Pipeline.onRunner, Act.wp_zoom]
      refine Act.wp_mono (wp_halts_step hc p₁.idle_tick r) fun res r' w' h => ?_
      cases res with
      | panic => exact .unwinds hn ⟨rfl, r', rfl⟩
      | halt halt => exact wp_halts_concludes hc hn h.conclude rfl Step.done
      | ok pulled =>
        obtain rfl := h.eq_none
        cases pulled with
        | item => exact .on hn (by simp)
        | idle => exact .on hn (by simp)
        | done => exact wp_halts_concludes hc hn not_failed rfl Step.done

theorem wp_halts_pipeline_tick (hc : c.Obeys (halts id) haltRules view) (h : p.Calm w) :
    Act.wp (halts id) (Pipeline.tick c) (fun res p' w' => Answers p w res p' w') p w := by
  refine wp_halts_started hc h (fun p₁ h₁ => ?_) fun p₁ r hs hn hw => ?_
  · obtain ⟨stats, b, hs⟩ := h₁
    simp only [Act.wp_bind, Act.wp_get, Act.next_ok, hs]
    exact .over ⟨stats, _, hs⟩ _
  · subst hw
    simp only [Act.wp_bind, Act.wp_get, Act.next_ok, hs, Pipeline.setInCall, Act.wp_modify,
      Act.wp_attempt, Pipeline.onRunner, Act.wp_zoom]
    refine Act.wp_mono (wp_halts_tick hc r) fun res r' w' h => ?_
    cases res with
    | panic => exact .unwinds hn ⟨rfl, r', rfl⟩
    | halt halt =>
      simp only [Res.attempted_halt, Act.next_ok, Act.wp_bind, Act.wp_modify]
      exact (Act.wp_bind ..).1 (wp_halts_concludes hc hn h.conclude rfl ())
    | ok u =>
      obtain rfl := h.eq_none
      exact .on hn (by simp)

theorem wp_halts_pipeline_finish (hc : c.Obeys (halts id) haltRules view) (h : p.Calm w) :
    Act.wp (halts id) (Pipeline.finish c) (fun res p' w' => Answers p w res p' w') p w := by
  have hgo : Act.wp (halts id) (do
      Pipeline.ensure_started c
      Pipeline.check_poisoned c
      Pipeline.conclude c .graceful) (fun res p' w' => Answers p w res p' w') p w := by
    refine wp_halts_started hc h (fun p₁ h₁ => ?_) fun p₁ r hs hn hw => ?_
    · obtain ⟨stats, b, hs⟩ := h₁
      simp only [Pipeline.conclude, Act.wp_bind, Act.wp_get, Act.next_ok, hs]
      exact .over ⟨stats, b, hs⟩ _
    · subst hw
      exact Act.wp_mono (wp_halts_conclude hc not_failed hs) fun res p₂ w₂ h => .ends hn h.1 h.2
  simp only [Pipeline.finish, Act.wp_bind, Act.wp_get, Act.next_ok]
  cases hs : p.state with
  | built b => exact hgo
  | running r => exact hgo
  | ended stats b => cases b <;> exact .over ⟨stats, _, hs⟩ _

/-- What is left to say of a call that consumes the pipeline. -/
structure Closes (p : Pipeline σ) (w : Option Error) (res : Res Error α) (w' : Option Error) :
    Prop where
  ended : p.Ended → w' = w
  reports : w = none → ∀ e, w' = some e → res = .halt e ∨ res = .panic

theorem Answers.closes {res : Res Error α} (h : Answers p w res p' w') : Closes p w res w' :=
  ⟨fun hp => (h.ended hp).2, h.reports⟩

/-- `run` does not look for a panic, so it must not follow a run that has failed. -/
theorem wp_halts_run_sync (hc : c.Obeys (halts id) haltRules view) (h : p.Ended ∨ w = none)
    (fuel : Nat) :
    Act.wp (halts id) (Pipeline.run_sync c fuel) (fun res _ w' => Closes p w res w') p w := by
  refine (Act.wp_bind ..).2 (wp_halts_ensure_started (h.imp_right .inl) (fun res p₁ h₁ => ?_)
    fun p₁ r hs hn _ => ?_)
  · cases res with
    | halt e => exact (Answers.over h₁ _).closes
    | panic => exact (Answers.over h₁ _).closes
    | ok u =>
      obtain ⟨stats, b, hs⟩ := h₁
      simp only [Act.next_ok, Act.wp_bind, Act.wp_get, hs]
      exact (Answers.over ⟨stats, b, hs⟩ _).closes
  · obtain rfl := h.resolve_left hn
    simp only [Act.next_ok, Act.wp_bind, Act.wp_get, hs, Pipeline.onRunner, Act.wp_zoom]
    refine Act.wp_mono (wp_halts_pump hc fuel _ _ r) fun res r' w' h => ?_
    have hnot : ∀ {res' : Res Error (Option RunStats)}, (∀ e, w' = some e → False) →
        Closes p none res' w' := fun hw =>
      ⟨fun hp => absurd hp hn, fun _ e he => (hw e he).elim⟩
    rcases res with (_ | «end») | e | _
    · refine hnot fun e he => ?_
      rcases h e he with he | he <;> cases he
    · have hend : ∀ e, w' = some e → «end» = .failed e := by
        intro e he
        rcases h e he with he | he <;> cases he
        rfl
      have hconcl := wp_halts_conclude hc hend
        (show ({ p₁ with state := .running r' } : Pipeline c.σ).state = .running r' from rfl)
      rw [Act.next_ok]
      refine (Act.wp_map ..).2 (Act.wp_mono hconcl fun res p₂ w₂ h₂ => ?_)
      have hends := Answers.ends (w := none) hn h₂.1 h₂.2
      have hcloses : ∀ res' : Res Error (Option RunStats), res.void = res'.void →
          Closes p none res' w₂ := fun res' hres => (hends.recast hres).closes
      cases res with
      | ok stats => exact hcloses (.ok (some stats)) rfl
      | halt e => exact hcloses (.halt e) rfl
      | panic => exact hcloses .panic rfl
    · refine hnot fun e he => ?_
      rcases h e he with he | he <;> cases he
    · exact ⟨fun hp => absurd hp hn, fun _ _ _ => .inr rfl⟩

theorem wp_halts_pipeline_drop (hc : c.Obeys (halts id) haltRules view) {H : Type}
    {Q : Res H Unit → Pipeline c.σ → Option Error → Prop} (hQ : ∀ p', Q (.ok ()) p' w)
    (p : Pipeline c.σ) : Act.wp (halts id) (Pipeline.drop c) Q p w := by
  simp only [Pipeline.drop, Act.wp_bind, Act.wp_get, Act.next_ok]
  cases hs : p.state with
  | built b => exact hQ p
  | ended stats b => exact hQ p
  | running r => exact (Act.wp_zoom ..).2 (wp_halts_drop hc (fun r' => hQ _) r)

/-- How a public call ends. -/
structure Replies (p : Pipeline σ) (w : Option Error) (o : Outcome Unit) (p' : Pipeline σ)
    (w' : Option Error) : Prop where
  calm : p'.Calm w'
  fails : ∀ e, o = .err e → p'.Ended
  ended : p.Ended → p'.Ended ∧ w' = w
  reports : w = none → ∀ e, w' = some e → o = .err e ∨ o = .panicked

theorem Answers.replies {res : Res Error Unit} (h : Answers p w res p' w') :
    Replies p w (Outcome.ofResult res) p' w' where
  calm := h.calm
  fails e he := by
    cases res with
    | halt e' => exact h.fails e' rfl
    | ok | panic => cases he
  ended := h.ended
  reports hw e he := by
    rcases h.reports hw e he with rfl | rfl
    · exact .inl rfl
    · exact .inr rfl

theorem wp_halts_public (hc : c.Obeys (halts id) haltRules view) (h : p.Calm w) (x : Call) :
    Act.wp (halts id) (Pipeline.call c x)
      (fun res p' w' => ∃ o, res = .ok o ∧ Replies p w o p' w') p w := by
  cases x with
  | step =>
    refine wp_caught.2 ((Act.wp_bind ..).2 (Act.wp_mono (wp_halts_pipeline_step hc h) ?_))
    intro res p' w' ha
    have hreplies : ∀ res' : Res Error Unit, res.void = res'.void →
        Replies p w (Outcome.ofResult res') p' w' := fun res' hres => (ha.recast hres).replies
    cases res with
    | ok s => exact ⟨_, rfl, hreplies (.ok ()) rfl⟩
    | halt e => exact ⟨_, rfl, hreplies (.halt e) rfl⟩
    | panic => exact ⟨_, rfl, hreplies .panic rfl⟩
  | tick =>
    refine wp_caught.2 (Act.wp_mono (wp_halts_pipeline_tick hc h) fun res p' w' ha => ?_)
    exact ⟨_, rfl, ha.replies⟩
  | cancel_handle =>
    refine ⟨_, rfl, h, fun e he => ?_, fun hp => ⟨hp, rfl⟩, fun hw e he => ?_⟩
    · cases he
    · cases hw.symm.trans he

/-- The first call that did not succeed. -/
def setback (os : List (Outcome Unit)) : Option (Outcome Unit) := os.find? fun o => o ≠ .ok ()

theorem setback_append (os os' : List (Outcome Unit)) :
    setback (os ++ os') = (setback os).or (setback os') := List.find?_append

/-- What the outcomes so far tell of the run. -/
structure Told (os : List (Outcome Unit)) (p : Pipeline σ) (w : Option Error) : Prop where
  calm : p.Calm w
  clean : setback os = none → w = none
  failed : ∀ e, setback os = some (.err e) → p.Ended ∧ (w = none ∨ w = some e)

theorem Told.call {os : List (Outcome Unit)} (h : Told os p w) {o : Outcome Unit}
    (hr : Replies p w o p' w') : Told (os ++ [o]) p' w' := by
  refine ⟨hr.calm, fun hn => ?_, fun e he => ?_⟩
  · rw [setback_append, Option.or_eq_none_iff] at hn
    obtain ⟨hos, ho⟩ := hn
    cases hw' : w' with
    | none => rfl
    | some e =>
      rcases hr.reports (h.clean hos) e hw' with rfl | rfl <;> simp [setback] at ho
  · rw [setback_append] at he
    cases hos : setback os with
    | some f =>
      rw [hos, Option.some_or] at he
      cases he
      obtain ⟨hend, hw⟩ := h.failed e hos
      obtain ⟨hend', rfl⟩ := hr.ended hend
      exact ⟨hend', hw⟩
    | none =>
      have ho : o = .err e := by
        rw [hos, Option.none_or] at he
        exact (List.mem_singleton.1 (List.mem_of_find?_eq_some he)).symm
      subst ho
      refine ⟨hr.fails e rfl, ?_⟩
      cases hw' : w' with
      | none => exact .inl rfl
      | some e' =>
        rcases hr.reports (h.clean hos) e' hw' with he' | he' <;> cases he'
        exact .inr rfl

theorem wp_halts_calls (hc : c.Obeys (halts id) haltRules view) (xs : List Call)
    {os : List (Outcome Unit)} (h : Told os p w) :
    Act.wp (halts id) (Pipeline.calls c xs)
      (fun res p' w' => ∃ os', res = .ok os' ∧ Told (os ++ os') p' w') p w := by
  induction xs generalizing os p w with
  | nil => exact ⟨[], rfl, by simpa using h⟩
  | cons x xs ih =>
    refine (Act.wp_bind ..).2 (Act.wp_mono (wp_halts_public hc h.calm x) ?_)
    rintro _ p₁ w₁ ⟨o, rfl, hr⟩
    rw [Act.next_ok]
    refine (Act.wp_bind ..).2 (Act.wp_mono (ih (h.call hr)) ?_)
    rintro _ p₂ w₂ ⟨os', rfl, ht⟩
    refine ⟨o :: os', rfl, ?_⟩
    rwa [List.append_assoc] at ht

/-- How the call that consumes the pipeline ends; `none`: it has not returned. -/
structure Consumes (p : Pipeline σ) (w : Option Error) (o : Option (Outcome Unit))
    (w' : Option Error) : Prop where
  ended : p.Ended → w' = w
  reports : w = none → ∀ e, w' = some e → o = some (.err e) ∨ o = some .panicked

theorem Closes.consumes {res : Res Error Unit} (h : Closes p w res w') :
    Consumes p w (some (Outcome.ofResult res)) w' := by
  refine ⟨h.ended, fun hw e he => ?_⟩
  rcases h.reports hw e he with rfl | rfl
  · exact .inl rfl
  · exact .inr rfl

/-- `run` must not follow a caught panic. -/
theorem wp_halts_last (hc : c.Obeys (halts id) haltRules view) (h : p.Calm w) (l : LastCall)
    (hl : (∃ fuel, l = .run fuel) → p.Ended ∨ w = none) :
    Act.wp (halts id) (Pipeline.last c l)
      (fun res _ w' => ∃ o, res = .ok o ∧ Consumes p w o w') p w := by
  have hdrop : ∀ {p₁ w₁} (res : Res Error Unit), Closes p w res w₁ →
      Act.wp (H := Empty) (halts id) (do
        Pipeline.drop c
        pure (some (Outcome.ofResult res)))
        (fun res _ w' => ∃ o, res = .ok o ∧ Consumes p w o w') p₁ w₁ := by
    intro p₁ w₁ res hcl
    refine (Act.wp_bind ..).2 (wp_halts_pipeline_drop hc (fun p' => ?_) p₁)
    exact ⟨_, rfl, hcl.consumes⟩
  have hkept : ∀ res : Res Error Unit, Closes p w res w := fun res =>
    ⟨fun _ => rfl, fun hw e he => by cases hw.symm.trans he⟩
  cases l with
  | finish =>
    refine (Act.wp_bind ..).2 (wp_caught.2 ((Act.wp_bind ..).2 ?_))
    refine Act.wp_mono (wp_halts_pipeline_finish hc h) fun res p₁ w₁ ha => ?_
    have hcloses : ∀ res' : Res Error Unit, res.void = res'.void → Closes p w res' w₁ :=
      fun res' hres => (ha.recast hres).closes
    cases res with
    | ok stats => exact hdrop (.ok ()) (hcloses _ rfl)
    | halt e => exact hdrop (.halt e) (hcloses _ rfl)
    | panic => exact hdrop .panic (hcloses _ rfl)
  | run fuel =>
    refine (Act.wp_bind ..).2 (wp_caught.2 ?_)
    refine Act.wp_mono (wp_halts_run_sync hc (hl ⟨fuel, rfl⟩) fuel) fun res p₁ w₁ hcl => ?_
    have hdone : ∀ {a : Option RunStats}, res = .ok a → ∀ e, w = none → w₁ ≠ some e := by
      rintro a rfl e hw he
      rcases hcl.reports hw e he with he' | he' <;> cases he'
    rcases res with (_ | stats) | e | _
    · exact ⟨none, rfl, hcl.ended, fun hw e he => absurd he (hdone rfl e hw)⟩
    · exact hdrop (.ok ()) ⟨hcl.ended, fun hw e he => absurd he (hdone rfl e hw)⟩
    · refine hdrop (.halt e) ⟨hcl.ended, fun hw e' he => ?_⟩
      rcases hcl.reports hw e' he with he' | he' <;> cases he'
      exact .inl rfl
    · exact hdrop .panic ⟨hcl.ended, fun _ _ _ => .inr rfl⟩
  | run_threaded =>
    refine (Act.wp_bind ..).2 (wp_caught.2 ?_)
    simp only [Pipeline.take_built, Act.wp_bind, Act.wp_get, Act.next_ok]
    cases hs : p.state with
    | running r => exact hdrop (.halt .closed) (hkept _)
    | ended stats b => exact hdrop (.halt .closed) (hkept _)
    | built b =>
      cases p.config_error with
      | none => exact ⟨none, rfl, fun _ => rfl, fun hw e he => by cases hw.symm.trans he⟩
      | some e => exact hdrop (.halt (.config e)) (hkept _)
  | drop => exact hdrop (.ok ()) (hkept _)

end Pipeline

theorem Told.reported {os : List (Outcome Unit)} {p : Pipeline σ} {o : Option (Outcome Unit)}
    (h : Told os p w) (hc : Consumes p w o w') {e : Error} (he : w' = some e) :
    setback (os ++ o.toList) = some (.err e) ∨ setback (os ++ o.toList) = some .panicked := by
  rw [setback_append]
  cases hos : setback os with
  | none =>
    rcases hc.reports (h.clean hos) e he with rfl | rfl
    · exact .inl rfl
    · exact .inr rfl
  | some f =>
    rw [Option.some_or]
    cases f with
    | panicked => exact .inr rfl
    | ok u => exact absurd (List.find?_some hos) (by simp)
    | err e' =>
      obtain ⟨hend, hw⟩ := h.failed e' hos
      rw [hc.ended hend] at he
      rcases hw with rfl | rfl <;> cases he
      exact .inl rfl

/-- An outside where the source yields `xs` and the sink is full. -/
def Oracle.full (xs : List X) : Oracle X Y := fun log e =>
  match e with
  | .write _ => some (.error "full")
  | e => Oracle.serving xs log e

/-- A stage that ignores that its downstream has stopped, and fails of its own afterwards. -/
def ignoresClosed : Stages Nat Nat :=
  .cons (PipelineBuilder.stage ⟨Unit, (), fun item s => .emit item s fun _ =>
      .emit item s fun _ => .ret (.error "own error") s,
    fun s => .ret (.ok ()) s, fun s => .ret (.ok ()) s⟩ .continue "ignores") .nil

/-- A stage that panics when its downstream has stopped. -/
def panicsWhenClosed : Stages Nat Nat :=
  .cons (PipelineBuilder.stage ⟨Unit, (), fun item s => .emit item s fun accepted =>
      if accepted then .ret (.ok ()) s else .panic s,
    fun s => .ret (.ok ()) s, fun s => .ret (.ok ()) s⟩ .failFast "panics") .nil

end PipeIo
