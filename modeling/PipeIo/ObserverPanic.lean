import PipeIo.Builder
import PipeIo.Deadlock
import PipeIo.DutyNet
import PipeIo.Unwinding

namespace PipeIo
set_option autoImplicit true

open Lib

/-- Teardown calls return; the observer panics at most once, and not on `Started`. -/
structure Oracle.Tolerable (o : Oracle X Y) : Prop where
  firm : ∀ log e, Firm e (o log e)
  once : ∀ log event, o log (.observe event) = none → event ≠ .started ∧ ¬log.Panicked

/-- What a run on a single thread has torn down, seen in its log. -/
structure Log.Accounts (dlq : Bool) (log : Log X Y) (d : Duty) : Prop where
  calls : ∀ k, log.touches.count (.teardown k) = (d.made k).toNat
  makes : ∀ k, d.made k = true → (Role.single dlq).makes k = true
  panics : d.panicked = true → log.Panicked

theorem accounts_nil (dlq : Bool) : Log.Accounts dlq ([] : Log X Y) .start where
  calls k := by cases k <;> rfl
  makes k h := by cases k <;> cases h
  panics h := by cases h

theorem Log.Accounts.after {dlq : Bool} {log : Log X Y} {d : Duty} (h : log.Accounts dlq d)
    {e : Eff X Y} (hpre : (duties (.single dlq)).pre e d) (a : Ans e) :
    Log.Accounts dlq (log ++ [⟨e, a⟩]) (d.after e a) where
  calls k := by
    rw [touches_snoc, List.count_append, h.calls]
    exact Duty.count_after hpre (fun _ => rfl) a
  makes k hk := Duty.makes_after hpre (fun _ => rfl) (h.makes k) hk
  panics hp := by
    rcases Duty.after_panicked hp with hold | ⟨event, hnew⟩
    · obtain ⟨event, hevent⟩ := h.panics hold
      exact ⟨event, List.mem_append_left _ hevent⟩
    · exact ⟨event, hnew ▸ List.mem_append_right _ (List.mem_singleton.2 rfl)⟩

/-- The answers of a tolerable outside are the promised ones. -/
theorem Oracle.Tolerable.keeps {o : Oracle X Y} (ho : o.Tolerable) (dlq : Bool) :
    Prog.Keeps (duties (.single dlq)) (Log.Accounts dlq) o.handler := by
  intro e log d h hpre
  refine ⟨d.after e (o log e), ⟨⟨ho.firm log e, ?_⟩, rfl, ?_⟩, h.after hpre (o log e)⟩
  · cases e with
    | observe event =>
      intro hnone
      obtain ⟨hstarted, hfirst⟩ := ho.once log event hnone
      exact ⟨hstarted, Bool.eq_false_iff.2 fun hp => hfirst (h.panics hp)⟩
    | _ => trivial
  · cases e with
    | recv timeout => cases hpre
    | _ => trivial

namespace Pipeline

variable {X Y : Type}

/-- A run on a single thread tears everything down once, also when the observer panics. -/
theorem session_torn (stages : Stages X Y) (sink_id source_id : StageId)
    (idle_tick : Option Duration) (config_error : Option ConfigError) (built : Built)
    {o : Oracle X Y} (ho : o.Tolerable) (xs : List Call) (l : LastCall) :
    let c := stages.assemble (sink_fn sink_id)
    let run := o.run (Pipeline.session c xs l)
      (Pipeline.new source_id idle_tick config_error built)
    ∃ outcomes last, run.1.1 = .ok (outcomes, last) ∧
      (last ≠ none → Starts xs l → config_error = none →
        TornDownOnce built.dead_letter run.2.touches) := by
  intro c run
  have hc : c.Dutiful (.single built.dead_letter) fun s => some (stages.tailState s) :=
    stages.assemble_obeys dutyRules_lawful.sound (sink_fn_dutiful rfl sink_id)
  have hinit : some (stages.tailState c.init) = some ⟨false, false⟩ := by
    rw [stages.tailState_init]
    rfl
  have hkept := dutyCourse_kept hinit hc config_error
  have hstart : (dutyCourse (fun s => some (stages.tailState s)) built.dead_letter
      config_error).At config_error
        (Pipeline.new source_id idle_tick config_error built : Pipeline c.σ) .start :=
    ⟨rfl, rfl, rfl⟩
  have hb : ¬(Pipeline.new source_id idle_tick config_error built : Pipeline c.σ).Begun :=
    fun h => h built rfl
  obtain ⟨d, haccounts, outcomes, last, hres, hn⟩ := Prog.wp_exec (ho.keeps built.dead_letter)
    (accounts_nil _) (hkept.wp_session hstart hb xs l)
  refine ⟨outcomes, last, hres, fun hlast hs hce => ?_⟩
  have hn' := hn hlast
  rw [if_pos hs] at hn'
  obtain ⟨_, hend⟩ := hn'
  simp only [dutyCourse, if_pos hce] at hend
  intro k
  refine (haccounts.calls k).trans (hend.due (haccounts.makes k) ?_)
  cases built.dead_letter <;> cases k <;> rfl

section Ends

variable {c : StageFn X Y X} (hc : c.Unwinding)

/-- Whatever the code does, its requests may be made. -/
theorem wp_alarms {H σ α : Type} (x : Code X Y H σ α) (s : σ) (p : Bool) :
    Act.wp alarms x (fun _ _ _ => True) s p :=
  Act.wp_invariant (fun _ _ _ => trivial) (fun _ _ _ _ _ _ => trivial) trivial

theorem unwinds_take_built {σ : Type} :
    Unwinds (take_built : Code X Y Error (Pipeline σ) Built) := by
  refine Unwinds.get.bind fun p => ?_
  cases p.state with
  | running r => exact .halt _
  | ended stats succeeded => exact .halt _
  | built b =>
    cases p.config_error with
    | none => exact (Unwinds.modify _).bind fun _ => .pure b
    | some e => exact (Unwinds.modify _).bind fun _ => .halt _

theorem unwinds_ensure_started : Unwinds (ensure_started c) := by
  refine Unwinds.get.bind fun p => ?_
  cases p.state with
  | running r => exact .pure ()
  | ended stats succeeded => exact .pure ()
  | built b =>
    refine unwinds_take_built.bind fun built => Unwinds.get.bind fun p => ?_
    exact (unwinds_emitEvent _ _).bind fun _ => .modify _

/-- A call that has not returned, if its outcome is `none`, has not made the observer panic. -/
def Pending (r : Res H (Option α)) (p : Bool) : Prop := r = .ok none → p = false

include hc in
/-- As long as `run` has not returned the observer has not panicked. -/
theorem wp_run_pending (fuel : Nat) (p : Pipeline c.σ) :
    Act.wp alarms (run_sync c fuel) (fun r _ => Pending r) p false := by
  refine (Act.wp_bind ..).2 (Act.wp_mono (unwinds_ensure_started p false rfl)
    fun r p' a h => ?_)
  cases r with
  | halt e => exact fun hr => by cases hr
  | panic => exact fun hr => by cases hr
  | ok u =>
    simp only [Act.next_ok, Act.wp_bind, Act.wp_get]
    cases p'.state with
    | built b => exact fun hr => by cases hr
    | ended stats succeeded => exact fun hr => by cases hr
    | running r =>
      have hpump : Unwinds (onRunner (H := Error) r
          (Runner.pump c fuel p'.idle_tick p'.cancel)) :=
        (Runner.unwinds_pump hc fuel _ _).zoom _ _
      refine (Act.wp_bind ..).2 (Act.wp_mono (hpump p' a h) fun r p'' a' h' => ?_)
      cases r with
      | halt e => exact fun hr => by cases hr
      | panic => exact fun hr => by cases hr
      | ok «end» =>
        cases «end» with
        | none => exact fun _ => h'
        | some «end» =>
          have hconclude : Act.wp alarms (some <$> conclude c «end») (fun r _ => Pending r)
              p'' a' := by
            refine (Act.wp_map ..).2 (Act.wp_mono (wp_alarms _ p'' a') fun r _ _ _ => ?_)
            cases r with
            | ok stats => exact fun hr => by cases hr
            | halt e => exact fun hr => by cases hr
            | panic => exact fun hr => by cases hr
          exact hconclude

include hc in
/-- As long as the last call has not returned it has not made the observer panic. -/
theorem wp_last_pending (l : LastCall) (p : Pipeline c.σ) :
    Act.wp alarms (last c l) (fun r _ => Pending r) p false := by
  have hdone : ∀ {σ : Type} (x : Code X Y Empty σ Unit) (o : Outcome Unit) (s : σ) (a : Bool),
      Act.wp alarms (do
        x
        pure (some o)) (fun r _ => Pending r) s a := by
    intro σ x o s a
    refine (Act.wp_bind ..).2 (Act.wp_mono (wp_alarms x s a) fun r _ _ _ => ?_)
    cases r with
    | ok u => exact fun hr => by cases hr
    | halt e => exact e.elim
    | panic => exact fun hr => by cases hr
  cases l with
  | drop => exact hdone (drop c) _ p false
  | finish =>
    refine (Act.wp_bind ..).2 (Act.wp_mono (wp_alarms _ p false) fun r p' a _ => ?_)
    cases r with
    | ok o => exact hdone (drop c) _ p' a
    | halt e => exact e.elim
    | panic => exact fun hr => by cases hr
  | run fuel =>
    refine (Act.wp_bind ..).2 (wp_caught.2 (Act.wp_mono (wp_run_pending hc fuel p)
      fun r p' a h => ?_))
    rcases r with (_ | stats) | e | _
    · exact fun _ => h rfl
    · exact hdone (drop c) _ p' a
    · exact hdone (drop c) _ p' a
    · exact hdone (drop c) _ p' a
  | run_threaded =>
    refine (Act.wp_bind ..).2 (wp_caught.2 (Act.wp_mono (unwinds_take_built p false rfl)
      fun r p' a h => ?_))
    cases r with
    | ok b => exact fun _ => h
    | halt e => exact hdone (drop c) _ p' a
    | panic => exact hdone (drop c) _ p' a

/-- The oracle's answers, from some point of the log on. -/
theorem keeps_alarms (o : Oracle X Y) (log : Log X Y) : Prog.Keeps alarms
    (fun log' p => ∃ more, log' = log ++ more ∧ p = more.any Entry.alarm) o.handler := by
  intro e log' p h _
  obtain ⟨more, hlog, hp⟩ := h
  refine ⟨_, rfl, more ++ [⟨e, o log' e⟩], ?_, ?_⟩
  · simp only [Oracle.handler, hlog, List.append_assoc]
  · rw [hp, List.any_append, List.any_cons, List.any_nil, Bool.or_false]
    rfl

include hc in
/-- A session whose last call has not returned: in that call the observer has not panicked. -/
theorem session_pending (o : Oracle X Y) (p : Pipeline c.σ) (xs : List Call) (l : LastCall)
    {outcomes : List (Outcome Unit)} (h : (o.run (session c xs l) p).1.1 = .ok (outcomes, none)) :
    ∃ more, (o.run (session c xs l) p).2 = (o.run (calls c xs) p).2 ++ more ∧
      ∀ a ∈ more, a.alarm = false := by
  simp only [Oracle.run] at h ⊢
  rcases hcalls : Prog.exec o.handler (calls c xs p) [] with ⟨⟨res, p₁⟩, log⟩
  have hsession : session c xs l = (calls c xs >>= fun rs => last c l >>= fun r =>
      pure (rs, r)) := rfl
  cases res with
  | halt e => exact e.elim
  | panic =>
    rw [hsession, Act.exec_bind_panic hcalls] at h
    cases h
  | ok os =>
    rw [hsession, Act.exec_bind_ok hcalls] at h ⊢
    rcases hlast : Prog.exec o.handler (last c l p₁) log with ⟨⟨res, p₂⟩, log'⟩
    obtain ⟨a, ⟨more, hmore, ha⟩, hpending⟩ := Prog.wp_exec (keeps_alarms o log)
      ⟨[], (List.append_nil log).symm, rfl⟩ (wp_last_pending hc l p₁)
    rw [hlast] at hmore hpending
    cases res with
    | halt e => exact e.elim
    | panic =>
      rw [Act.exec_bind_panic hlast] at h
      cases h
    | ok r =>
      rw [Act.exec_bind_ok hlast] at h ⊢
      have hres : (Res.ok (os, r) : Res Empty _) = .ok (outcomes, none) := h
      cases hres
      refine ⟨more, hmore, ?_⟩
      have hnone : a = false := hpending rfl
      rw [hnone] at ha
      simpa using ha.symm

end Ends

end Pipeline

/-- Where the outside always answers, a threaded run in which the call has not ended goes on. -/
theorem Net.goes_on {Ty : Nat → Type} {w : ThreadedWiring Ty} {out : Outside Ty} {net : Net w}
    (hout : ∀ j log (e : Eff (Ty (j + 1)) (Ty j)), e.Outside → ∃ a, out j log e a)
    (hnet : net.Reachable out) (hcaller : ∀ exit, net.threads (w.n + 1) ≠ .finished exit) :
    ∃ net', Net.Moves out net net' := by
  obtain ⟨v, hat⟩ := (ownership w).reachable (ownership_kept w) (ownership_ties w out) hnet
  by_contra hstill
  have h : Stuck out net := ⟨hout, fun net' hmoves => hstill ⟨net', hmoves⟩⟩
  obtain ⟨hready, i, hi, hrunning⟩ := h.joins hat hcaller
  obtain ⟨exit, hexit⟩ := h.all_ended hat hready hi
  exact hrunning exit hexit

namespace Oracle

/-- A source without items, and an observer that panics on the first event of a kind. -/
def alarming (panics : Event → Bool) : Oracle X Y := fun log e =>
  match e with
  | .observe event => if panics event && !log.any Entry.alarm then none else some ()
  | e => serving [] log e

theorem alarming_tolerable {panics : Event → Bool} (h : panics .started = false) :
    (alarming (X := X) (Y := Y) panics).Tolerable where
  firm := by
    intro log e
    cases e with
    | deadLetter op => cases op <;> simp [Firm, Steady, alarming, serving]
    | _ => simp [Firm, Steady, alarming, serving]
  once := by
    intro log event hnone
    by_cases hpanics : (panics event && !log.any Entry.alarm) = true
    · obtain ⟨hevent, hquiet⟩ := Bool.and_eq_true_iff.1 hpanics
      refine ⟨?_, ?_⟩
      · intro hstarted
        rw [hstarted, h] at hevent
        cases hevent
      · rintro ⟨event', hmem⟩
        have hany : log.any Entry.alarm = true := List.any_eq_true.2 ⟨_, hmem, rfl⟩
        rw [hany] at hquiet
        cases hquiet
    · simp [alarming, hpanics] at hnone

end Oracle

namespace PipelineBuilder

def starting : Event → Bool
  | .started => true
  | _ => false

def finishing : Event → Bool
  | .finished .. => true
  | _ => false

/-- A pipeline without stages, with a dead-letter sink and an observer. -/
def observed : PipelineBuilder Nat Nat :=
  (BuilderCalls.cons .dead_letter (.cons .observe .nil)).build from_source

end PipelineBuilder

end PipeIo
