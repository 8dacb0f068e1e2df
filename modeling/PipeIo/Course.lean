import PipeIo.Contract
import PipeIo.Pipeline

namespace PipeIo
set_option autoImplicit true

open Lib

/-- What is known of a pipeline before its run is started, while it runs and once it has
ended. -/
structure Course (σ : Type) (W : Type v) where
  built : Built → W → Prop
  running : Runner σ → W → Prop
  ended : RunStats → W → Prop

def Course.At (I : Course σ W) (ce : Option ConfigError) (p : Pipeline σ) (w : W) : Prop :=
  p.config_error = ce ∧ match p.state with
    | .built b => I.built b w
    | .running r => I.running r w
    | .ended stats _ => I.ended stats w

/-- The run was started, or its configuration refused. -/
def Pipeline.Begun (p : Pipeline σ) : Prop := ∀ b, p.state ≠ .built b

theorem Pipeline.begun_running {p : Pipeline σ} {r : Runner σ} (hs : p.state = .running r) :
    p.Begun := by
  simp [Pipeline.Begun, hs]

theorem Pipeline.begun_ended {p : Pipeline σ} {stats : RunStats} {b : Bool}
    (hs : p.state = .ended stats b) : p.Begun := by
  simp [Pipeline.Begun, hs]

/-- The counters recorded when a run has been concluded. -/
def concluded : Res Error (RunStats × Except Error RunStats) → RunStats
  | .ok (_, .ok stats) | .ok (stats, .error _) => stats
  | .halt _ | .panic => .default

/-- What the parts of a run have to keep so that every public call keeps the course. -/
structure Course.Kept {X Y : Type} {c : StageFn X Y X} (I : Course c.σ W)
    (Γ : Spec (Eff X Y) Ans W) (ce : Option ConfigError) : Prop where
  refused : ce ≠ none → I.built b w → I.ended .default w
  started : ce = none → I.built b w → ∀ {Q : Res Error Unit → Pipeline c.σ → W → Prop}
    {s : Pipeline c.σ},
    (∀ w', (∀ (source_id : StageId) (cancel : Bool), I.running (Runner.new c source_id
      (Ctx.new (Dlq.new b.dead_letter) b.observer cancel) true) w') → Q (.ok ()) s w') →
    (∀ w', I.ended .default w' → Q .panic s w') →
    Act.wp Γ (emitEvent b.observer .started) Q s w
  asked : Γ.pre .isCancelled w ∧ ∀ a w', Γ.post .isCancelled w a w' → w' = w
  step : I.running r w → ∀ idle_tick,
    Act.wp Γ (Runner.step c idle_tick) (fun _ r' w' => I.running r' w') r w
  tick : I.running r w → Act.wp Γ (Runner.tick c) (fun _ r' w' => I.running r' w') r w
  pump : I.running r w → ∀ fuel idle_tick cancel,
    Act.wp Γ (Runner.pump (H := Error) c fuel idle_tick cancel) (fun _ r' w' => I.running r' w') r w
  conclude : I.running r w → ∀ «end» : PumpEnd,
    Act.wp Γ (Pipeline.conclusion (H := Error) c «end») (fun res t w' =>
      Act.wp Γ (Runner.drop (H := Error) c) (fun _ _ w'' =>
        I.ended (concluded res) w'') t.1 w') (r, none) w
  drop : I.running r w → Act.wp Γ (Runner.drop (H := Empty) c)
    (fun res _ w' => res = .ok () ∧ ∃ stats, I.ended stats w') r w

/-- The outcome a result amounts to. -/
def Outcome.ofResult : Res Error α → Outcome α
  | .ok a => .ok a
  | .halt e => .err e
  | .panic => .panicked

theorem wp_caught {Γ : Spec (Eff X Y) Ans W} {σ α : Type} {x : Code X Y Error σ α}
    {Q : Res Empty (Outcome α) → σ → W → Prop} {s : σ} {w : W} :
    Act.wp Γ (caught x) Q s w ↔ Act.wp Γ x (fun r => Q (.ok (Outcome.ofResult r))) s w := by
  simp only [caught, Act.wp_bind, Act.wp_contain, Act.wp_attempt]
  constructor <;> refine fun h => Act.wp_mono h fun r s w hr => ?_ <;> cases r <;> exact hr

/-- Whether a sequence of public calls starts the run. -/
def Starts (xs : List Call) (l : LastCall) : Prop := (∃ x ∈ xs, x ≠ .cancel_handle) ∨ l ≠ .drop

instance : Decidable (Starts xs l) :=
  inferInstanceAs (Decidable ((∃ x ∈ xs, x ≠ Call.cancel_handle) ∨ l ≠ .drop))

section Pipeline

variable {X Y H : Type} {c : StageFn X Y X} {W : Type v} {Γ : Spec (Eff X Y) Ans W}
  {I : Course c.σ W} {ce : Option ConfigError} {p : Pipeline c.σ} {w : W}

theorem Course.At.running (h : I.At ce p w) {r : Runner c.σ} (hs : p.state = .running r) :
    I.running r w := by
  have h := h.2
  rwa [hs] at h

theorem Course.Kept.wp_is_cancelled (hI : I.Kept Γ ce) {σ : Type} {armed : Bool}
    {Q : Res H Bool → σ → W → Prop} {s : σ} (hQ : ∀ b, Q (.ok b) s w) :
    Act.wp Γ (is_cancelled armed) Q s w := by
  cases armed with
  | false => exact hQ false
  | true =>
    obtain ⟨hpre, hpost⟩ := hI.asked (w := w)
    refine ⟨hpre, fun a w' ha => ?_⟩
    obtain rfl := hpost a w' ha
    exact hQ a

theorem Course.Kept.wp_conclude (hI : I.Kept Γ ce) (h : I.At ce p w) (hb : p.Begun)
    («end» : PumpEnd) {Q : Res Error RunStats → Pipeline c.σ → W → Prop}
    (hQ : ∀ res p' w', I.At ce p' w' → p'.Begun → Q res p' w') :
    Act.wp Γ (Pipeline.conclude c «end») Q p w := by
  simp only [Pipeline.conclude, Act.wp_bind, Act.wp_get, Act.next_ok]
  cases hs : p.state with
  | built b => exact absurd hs (hb b)
  | ended stats b => exact hQ _ p w h hb
  | running r =>
    simp only [Act.wp_bind, Pipeline.setState, Act.wp_modify, Act.next_ok, Act.wp_withLocal]
    refine Act.wp_mono (hI.conclude (h.running hs) «end») fun res t w₁ ht => ?_
    refine (Act.wp_zoom ..).2 (Act.wp_mono ht fun _ _ w₂ hend => ?_)
    rcases res with ⟨stats, _ | _⟩ | _ | _ <;>
      exact hQ _ _ w₂ ⟨h.1, hend⟩ (Pipeline.begun_ended rfl)

theorem Course.Kept.wp_ensure_started (hI : I.Kept Γ ce) (h : I.At ce p w)
    {Q : Res Error Unit → Pipeline c.σ → W → Prop}
    (hQ : ∀ res p' w', I.At ce p' w' → p'.Begun → Q res p' w') :
    Act.wp Γ (Pipeline.ensure_started c) Q p w := by
  simp only [Pipeline.ensure_started, Act.wp_bind, Act.wp_get, Act.next_ok]
  cases hs : p.state with
  | running r => exact hQ _ p w h (Pipeline.begun_running hs)
  | ended stats b => exact hQ _ p w h (Pipeline.begun_ended hs)
  | built built =>
    obtain ⟨hce, hbuilt⟩ := h
    rw [hs] at hbuilt
    simp only [Act.wp_bind, Pipeline.take_built, Act.wp_get, Act.next_ok, hs, Pipeline.setState]
    cases hcfg : p.config_error with
    | some e =>
      simp only [Act.wp_bind, Act.wp_modify, Act.next_ok, Act.wp_halt]
      exact hQ _ _ w ⟨hce, hI.refused (by simp [← hce, hcfg]) hbuilt⟩
        (Pipeline.begun_ended rfl)
    | none =>
      simp only [Act.wp_bind, Act.wp_modify, Act.next_ok, Act.wp_pure, Act.wp_get]
      refine hI.started (hce.symm.trans hcfg) hbuilt (fun w' hrun => ?_) fun w' hend => ?_
      · exact hQ _ _ w' ⟨hce, hrun _ _⟩ (Pipeline.begun_running rfl)
      · exact hQ _ _ w' ⟨hce, hend⟩ (Pipeline.begun_ended rfl)

theorem Course.Kept.wp_check_poisoned (hI : I.Kept Γ ce) (h : I.At ce p w) (hb : p.Begun)
    {Q : Res Error Unit → Pipeline c.σ → W → Prop}
    (hQ : ∀ res p' w', I.At ce p' w' → p'.Begun → Q res p' w') :
    Act.wp Γ (Pipeline.check_poisoned c) Q p w := by
  simp only [Pipeline.check_poisoned, Act.wp_bind, Act.wp_get, Act.next_ok]
  split
  · simp only [Act.wp_bind, Pipeline.setInCall, Act.wp_modify, Act.next_ok]
    have hcleared : I.At ce { p with in_call := false } w := h
    cases hs : p.state with
    | built b => exact absurd hs (hb b)
    | ended stats b =>
      rw [hs] at hcleared
      exact hQ _ _ w hcleared (Pipeline.begun_ended rfl)
    | running r =>
      rw [hs] at hcleared
      refine (Act.wp_bind ..).2 (hI.wp_conclude hcleared (Pipeline.begun_running rfl) _
        fun res p' w' h' hb' => ?_)
      cases res <;> exact hQ _ p' w' h' hb'
  · exact hQ _ p w h hb

/-- What a public call needs to know of the rest of itself. -/
theorem Course.Kept.wp_started (hI : I.Kept Γ ce) (h : I.At ce p w) {α : Type}
    {rest : Code X Y Error (Pipeline c.σ) α} {Q : Res Error α → Pipeline c.σ → W → Prop}
    (hQ : ∀ res p' w', I.At ce p' w' → p'.Begun → Q res p' w')
    (hrest : ∀ p' w', I.At ce p' w' → p'.Begun → Act.wp Γ rest Q p' w') :
    Act.wp Γ (do
      Pipeline.ensure_started c
      Pipeline.check_poisoned c
      rest) Q p w := by
  refine (Act.wp_bind ..).2 (hI.wp_ensure_started h fun res p₁ w₁ h₁ hb₁ => ?_)
  cases res with
  | halt | panic => exact hQ _ p₁ w₁ h₁ hb₁
  | ok u =>
    refine (Act.wp_bind ..).2 (hI.wp_check_poisoned h₁ hb₁ fun res p₂ w₂ h₂ hb₂ => ?_)
    cases res with
    | halt | panic => exact hQ _ p₂ w₂ h₂ hb₂
    | ok u => exact hrest p₂ w₂ h₂ hb₂

theorem Course.Kept.wp_step (hI : I.Kept Γ ce) (h : I.At ce p w)
    {Q : Res Error Step → Pipeline c.σ → W → Prop}
    (hQ : ∀ res p' w', I.At ce p' w' → p'.Begun → Q res p' w') :
    Act.wp Γ (Pipeline.step c) Q p w := by
  refine hI.wp_started h hQ fun p₁ w₁ h₁ hb₁ => ?_
  have hend : ∀ {p₂ w₂} «end», I.At ce p₂ w₂ → p₂.Begun → Act.wp Γ (do
      let _ ← Pipeline.conclude c «end»
      pure Step.done) Q p₂ w₂ := by
    intro p₂ w₂ «end» h₂ hb₂
    refine (Act.wp_bind ..).2 (hI.wp_conclude h₂ hb₂ _ fun res p' w' h' hb' => ?_)
    cases res <;> exact hQ _ p' w' h' hb'
  simp only [Act.wp_bind, Act.wp_get, Act.next_ok]
  refine hI.wp_is_cancelled fun b => ?_
  rw [Act.next_ok]
  cases hs : p₁.state with
  | built b => exact absurd hs (hb₁ b)
  | ended stats succeeded => cases succeeded <;> exact hQ _ p₁ w₁ h₁ hb₁
  | running r =>
    cases b with
    | true => exact hend .cancelled h₁ hb₁
    | false =>
      simp only [Bool.false_eq_true, if_false, Act.wp_bind, Pipeline.setInCall, Act.wp_modify,
        Act.next_ok, Act.wp_attempt, Pipeline.onRunner, Act.wp_zoom]
      refine Act.wp_mono (hI.step (h₁.running hs) _) fun res r' w' h' => ?_
      have hstay : ∀ in_call, I.At ce { p₁ with state := .running r', in_call := in_call } w' :=
        fun _ => ⟨h₁.1, h'⟩
      have hbegun : ∀ b, Pipeline.Begun { p₁ with state := .running r', in_call := b } :=
        fun _ => Pipeline.begun_running rfl
      rcases res with (_ | _ | _) | halt | _
      · exact hQ _ _ w' (hstay _) (hbegun _)
      · exact hQ _ _ w' (hstay _) (hbegun _)
      · exact hend .graceful (hstay false) (hbegun _)
      · exact hend (halted halt) (hstay false) (hbegun _)
      · exact hQ _ _ w' (hstay _) (hbegun _)

theorem Course.Kept.wp_tick (hI : I.Kept Γ ce) (h : I.At ce p w)
    {Q : Res Error Unit → Pipeline c.σ → W → Prop}
    (hQ : ∀ res p' w', I.At ce p' w' → p'.Begun → Q res p' w') :
    Act.wp Γ (Pipeline.tick c) Q p w := by
  refine hI.wp_started h hQ fun p₁ w₁ h₁ hb₁ => ?_
  simp only [Act.wp_bind, Act.wp_get, Act.next_ok]
  cases hs : p₁.state with
  | built b => exact absurd hs (hb₁ b)
  | ended stats succeeded => exact hQ _ p₁ w₁ h₁ hb₁
  | running r =>
    simp only [Act.wp_bind, Pipeline.setInCall, Act.wp_modify, Act.next_ok, Act.wp_attempt,
      Pipeline.onRunner, Act.wp_zoom]
    refine Act.wp_mono (hI.tick (h₁.running hs)) fun res r' w' h' => ?_
    have hstay : ∀ in_call, I.At ce { p₁ with state := .running r', in_call := in_call } w' :=
      fun _ => ⟨h₁.1, h'⟩
    cases res with
    | ok u => exact hQ _ _ w' (hstay _) (Pipeline.begun_running rfl)
    | panic => exact hQ _ _ w' (hstay _) (Pipeline.begun_running rfl)
    | halt halt =>
      simp only [Res.attempted_halt, Act.next_ok, Act.wp_bind, Act.wp_modify]
      refine hI.wp_conclude (hstay false) (Pipeline.begun_running rfl) _ fun res p' w' h' hb' => ?_
      cases res <;> exact hQ _ p' w' h' hb'

theorem Course.Kept.wp_finish (hI : I.Kept Γ ce) (h : I.At ce p w)
    {Q : Res Error RunStats → Pipeline c.σ → W → Prop}
    (hQ : ∀ res p' w', I.At ce p' w' → p'.Begun → Q res p' w') :
    Act.wp Γ (Pipeline.finish c) Q p w := by
  have hgo : Act.wp Γ (do
      Pipeline.ensure_started c
      Pipeline.check_poisoned c
      Pipeline.conclude c .graceful) Q p w :=
    hI.wp_started h hQ fun p₁ w₁ h₁ hb₁ => hI.wp_conclude h₁ hb₁ .graceful hQ
  simp only [Pipeline.finish, Act.wp_bind, Act.wp_get, Act.next_ok]
  cases hs : p.state with
  | built b => exact hgo
  | running r => exact hgo
  | ended stats succeeded => cases succeeded <;> exact hQ _ p w h (Pipeline.begun_ended hs)

theorem Course.Kept.wp_run_sync (hI : I.Kept Γ ce) (h : I.At ce p w) (fuel : Nat)
    {Q : Res Error (Option RunStats) → Pipeline c.σ → W → Prop}
    (hQ : ∀ res p' w', I.At ce p' w' → p'.Begun → Q res p' w') :
    Act.wp Γ (Pipeline.run_sync c fuel) Q p w := by
  simp only [Pipeline.run_sync, Act.wp_bind]
  refine hI.wp_ensure_started h fun res p₁ w₁ h₁ hb₁ => ?_
  cases res with
  | halt | panic => exact hQ _ p₁ w₁ h₁ hb₁
  | ok u =>
    simp only [Act.next_ok, Act.wp_bind, Act.wp_get]
    cases hs : p₁.state with
    | built b => exact absurd hs (hb₁ b)
    | ended stats succeeded => exact hQ _ p₁ w₁ h₁ hb₁
    | running r =>
      simp only [Act.wp_bind, Pipeline.onRunner, Act.wp_zoom]
      refine Act.wp_mono (hI.pump (h₁.running hs) fuel _ _) fun res r' w' h' => ?_
      have hstay : I.At ce { p₁ with state := .running r' } w' := ⟨h₁.1, h'⟩
      have hbegun : Pipeline.Begun { p₁ with state := .running r' } := Pipeline.begun_running rfl
      rcases res with (_ | e) | _ | _
      · exact hQ _ _ w' hstay hbegun
      · refine (Act.wp_map ..).2 (hI.wp_conclude hstay hbegun _ fun res p' w' h' hb' => ?_)
        cases res <;> exact hQ _ p' w' h' hb'
      · exact hQ _ _ w' hstay hbegun
      · exact hQ _ _ w' hstay hbegun

/-- Dropping a pipeline ends a run that was started. -/
theorem Course.Kept.wp_drop (hI : I.Kept Γ ce) (h : I.At ce p w)
    {Q : Res Empty Unit → Pipeline c.σ → W → Prop}
    (hunbegun : (∃ b, p.state = .built b ∧ I.built b w) → Q (.ok ()) p w)
    (hbegun : p.Begun → ∀ p' w', (∃ stats, I.ended stats w') → Q (.ok ()) p' w') :
    Act.wp Γ (Pipeline.drop c) Q p w := by
  obtain ⟨hce, hstate⟩ := h
  simp only [Pipeline.drop, Act.wp_bind, Act.wp_get, Act.next_ok]
  cases hs : p.state with
  | built b =>
    rw [hs] at hstate
    exact hunbegun ⟨b, hs, hstate⟩
  | ended stats succeeded =>
    rw [hs] at hstate
    exact hbegun (Pipeline.begun_ended hs) p w ⟨stats, hstate⟩
  | running r =>
    rw [hs] at hstate
    refine (Act.wp_zoom ..).2 (Act.wp_mono (hI.drop hstate) fun res r' w' h' => ?_)
    obtain ⟨rfl, hend⟩ := h'
    exact hbegun (Pipeline.begun_running hs) _ w' hend

theorem Course.Kept.wp_call (hI : I.Kept Γ ce) (h : I.At ce p w) (x : Call)
    {Q : Res Empty (Outcome Unit) → Pipeline c.σ → W → Prop}
    (hQ : ∀ o p' w', I.At ce p' w' → (p'.Begun ↔ p.Begun ∨ x ≠ .cancel_handle) →
      Q (.ok o) p' w') :
    Act.wp Γ (Pipeline.call c x) Q p w := by
  cases x with
  | step =>
    refine wp_caught.2 ((Act.wp_bind ..).2 (hI.wp_step h fun res p' w' h' hb' => ?_))
    cases res <;> exact hQ _ p' w' h' (iff_of_true hb' (.inr nofun))
  | tick =>
    exact wp_caught.2 (hI.wp_tick h fun res p' w' h' hb' =>
      hQ _ p' w' h' (iff_of_true hb' (.inr nofun)))
  | cancel_handle =>
    exact hQ _ _ w h ⟨.inl, fun hb => hb.resolve_right (absurd rfl)⟩

theorem Course.Kept.wp_calls (hI : I.Kept Γ ce) (h : I.At ce p w) (xs : List Call)
    {Q : Res Empty (List (Outcome Unit)) → Pipeline c.σ → W → Prop}
    (hQ : ∀ os p' w', I.At ce p' w' → (p'.Begun ↔ p.Begun ∨ ∃ x ∈ xs, x ≠ .cancel_handle) →
      Q (.ok os) p' w') :
    Act.wp Γ (Pipeline.calls c xs) Q p w := by
  induction xs generalizing p w Q with
  | nil => exact hQ [] p w h (by simp)
  | cons x xs ih =>
    refine (Act.wp_bind ..).2 (hI.wp_call h x fun o p₁ w₁ h₁ hb₁ => ?_)
    refine (Act.wp_bind ..).2 (ih h₁ fun os p₂ w₂ h₂ hb₂ => hQ _ p₂ w₂ h₂ ?_)
    rw [hb₂, hb₁, or_assoc, List.exists_mem_cons_iff]

/-- Whatever consumes the pipeline, a run that was started has ended afterwards. -/
theorem Course.Kept.wp_last (hI : I.Kept Γ ce) (h : I.At ce p w) (l : LastCall)
    {Q : Res Empty (Option (Outcome Unit)) → Pipeline c.σ → W → Prop}
    (hnone : ∀ p' w', Q (.ok none) p' w')
    (hunbegun : ∀ o p', ¬p.Begun → l = .drop → (∃ b, I.built b w) → Q (.ok (some o)) p' w)
    (hbegun : ∀ o p' w', p.Begun ∨ l ≠ .drop → (∃ stats, I.ended stats w') →
      Q (.ok (some o)) p' w') :
    Act.wp Γ (Pipeline.last c l) Q p w := by
  have hend : ∀ {p' w'} o, I.At ce p' w' → p'.Begun → p.Begun ∨ l ≠ .drop →
      Act.wp Γ (do
        Pipeline.drop c
        pure (some o)) Q p' w' := fun o h' hb' hb =>
    (Act.wp_bind ..).2 (hI.wp_drop h' (fun hn => hn.elim fun b hs => absurd hs.1 (hb' b))
      fun _ p'' w'' => hbegun o p'' w'' hb)
  cases l with
  | finish =>
    refine (Act.wp_bind ..).2 (wp_caught.2 ((Act.wp_bind ..).2 ?_))
    refine hI.wp_finish h fun res p' w' h' hb' => ?_
    cases res <;> exact hend _ h' hb' (.inr (by simp))
  | run fuel =>
    refine (Act.wp_bind ..).2 (wp_caught.2 ?_)
    refine hI.wp_run_sync h fuel fun res p' w' h' hb' => ?_
    rcases res with (_ | _) | _ | _
    · exact hnone p' w'
    · exact hend _ h' hb' (.inr (by simp))
    · exact hend _ h' hb' (.inr (by simp))
    · exact hend _ h' hb' (.inr (by simp))
  | run_threaded =>
    refine (Act.wp_bind ..).2 (wp_caught.2 ?_)
    simp only [Pipeline.take_built, Act.wp_bind, Act.wp_get, Act.next_ok]
    cases hs : p.state with
    | running r => exact hend _ h (Pipeline.begun_running hs) (.inr (by simp))
    | ended stats succeeded => exact hend _ h (Pipeline.begun_ended hs) (.inr (by simp))
    | built b =>
      obtain ⟨hce, hbuilt⟩ := h
      rw [hs] at hbuilt
      cases hcfg : p.config_error with
      | none => exact hnone _ _
      | some e =>
        have hat : I.At ce { p with state := .ended .default false } w :=
          ⟨hce, hI.refused (by simp [← hce, hcfg]) hbuilt⟩
        exact hend _ hat (Pipeline.begun_ended rfl) (.inr (by simp))
  | drop =>
    refine (Act.wp_bind ..).2 (hI.wp_drop h (fun hn => ?_) fun hb p' w' => ?_)
    · obtain ⟨b, hs, hbuilt⟩ := hn
      exact hunbegun _ p (fun hb => hb b hs) rfl ⟨b, hbuilt⟩
    · exact hbegun _ p' w' (.inl hb)

/-- The rule for whole sessions: once the pipeline is consumed, the run has ended if the
calls started it, and nothing has happened if they did not. -/
theorem Course.Kept.wp_session (hI : I.Kept Γ ce) (h : I.At ce p w) (hb : ¬p.Begun)
    (xs : List Call) (l : LastCall) :
    Act.wp Γ (Pipeline.session c xs l) (fun res _ w' => ∃ os o, res = .ok (os, o) ∧
      (o ≠ none → if Starts xs l then ∃ stats, I.ended stats w' else ∃ b, I.built b w')) p w := by
  refine (Act.wp_bind ..).2 (hI.wp_calls h xs fun os p₁ w₁ h₁ hb₁ => ?_)
  rw [or_iff_right hb] at hb₁
  rw [Act.next_ok]
  refine (Act.wp_bind ..).2 (hI.wp_last h₁ l (fun _ _ => ?_) (fun o _ hn hl hbuilt => ?_)
    fun o _ w' hs hend => ?_)
  · simp only [Act.next_ok, Act.wp_pure]
    exact ⟨os, none, rfl, absurd rfl⟩
  · have hstarts : ¬Starts xs l := fun hs => hs.elim (fun hx => hn (hb₁.2 hx)) (absurd hl)
    simp only [Act.next_ok, Act.wp_pure]
    exact ⟨os, some o, rfl, fun _ => by rwa [if_neg hstarts]⟩
  · have hstarts : Starts xs l := hs.imp hb₁.1 id
    simp only [Act.next_ok, Act.wp_pure]
    exact ⟨os, some o, rfl, fun _ => by rwa [if_pos hstarts]⟩

end Pipeline

end PipeIo
