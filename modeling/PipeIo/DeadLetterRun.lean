import PipeIo.DeadLetters

namespace PipeIo
set_option autoImplicit true

open Lib

variable {X Y H σ : Type} {installed threaded : Bool}

section Tail

theorem stable_sinkCall {I : σ → Nat → Prop} (id : StageId) (e : Option (Except BoxError Unit)) :
    Stable installed threaded I (sinkCall id e : Code X Y Halt σ Unit) := by
  refine (stable_outcome e).bind fun r => ?_
  cases r with
  | ok u => exact Act.Preserves.pure ()
  | error e => exact Act.Preserves.halt trivial

theorem stable_flushOnce (id : StageId) :
    Stable installed threaded (CtxLetters installed)
      (flushOnce id : Code X Y Halt (SinkFlags × Ctx) Unit) := by
  refine Act.Preserves.get.bind fun s => ?_
  split
  · exact Act.Preserves.pure ()
  · refine Act.Preserves.bind (Act.Preserves.modify fun _ _ h => h) fun _ => ?_
    exact (stable_request _ (by trivial)).bind fun e => stable_sinkCall id e

theorem stable_closeOnce (id : StageId) :
    Stable installed threaded (CtxLetters installed)
      (closeOnce id : Code X Y Halt (SinkFlags × Ctx) Unit) := by
  refine Act.Preserves.get.bind fun s => ?_
  split
  · exact Act.Preserves.pure ()
  · refine Act.Preserves.bind (Act.Preserves.modify fun _ _ h => h) fun _ => ?_
    exact (stable_request _ (by trivial)).bind fun e => stable_sinkCall id e

theorem sink_fn_stable (id : StageId) :
    (sink_fn id : StageFn X Y Y).Stable installed threaded := by
  intro op
  cases op with
  | process item =>
    refine (stable_request _ (by trivial)).bind fun e => ?_
    exact (stable_sinkCall id e).bind fun _ => Act.Preserves.pure 1
  | tick => exact Act.Preserves.pure 0
  | flush => exact (stable_flushOnce id).bind fun _ => Act.Preserves.pure 0
  | close => exact (stable_closeOnce id).bind fun _ => Act.Preserves.pure 0
  | abort =>
    refine (stable_flushOnce id).attempt.bind fun flushed => ?_
    refine (stable_closeOnce id).attempt.bind fun closed => ?_
    rcases flushed with first | ⟨⟨⟩⟩
    · rcases closed with (second | _) | ⟨⟨⟩⟩
      · refine Act.Preserves.get.bind fun _ => ?_
        exact (stable_emitEvent _ _ (by trivial)).bind fun _ => Act.Preserves.halt trivial
      · exact Act.Preserves.halt trivial
      · exact Act.Preserves.halt trivial
    · rcases closed with e | ⟨⟨⟩⟩
      · exact Act.Preserves.halt trivial
      · exact Act.Preserves.pure 0

theorem send_fn_stable : (send_fn : StageFn X Y Y).Stable installed threaded := by
  intro op
  cases op with
  | tick =>
    refine (stable_request _ (by trivial)).bind fun r => ?_
    cases r with
    | ok | full => exact Act.Preserves.pure 0
    | disconnected => exact Act.Preserves.halt trivial
  | abort => exact (stable_request _ (by trivial)).bind fun _ => Act.Preserves.pure 0
  | process | flush | close =>
    refine (stable_request _ (by trivial)).bind fun r => ?_
    cases r with
    | true => exact Act.Preserves.pure 0
    | false => exact Act.Preserves.halt trivial

end Tail

section First

variable {K : Nat → Prop}

theorem stable_offer (error : Error) (observer : Bool) :
    Stable installed threaded (fun _ => K)
      (FirstError.offer error observer : Code X Y H FirstError Unit) := by
  refine Act.Preserves.get.bind fun first => ?_
  cases first with
  | none => exact Act.Preserves.modify fun _ _ h => h
  | some e => exact stable_emitEvent _ _ (by trivial)

theorem stable_offer_result (result : Except Error Unit) (observer : Bool) :
    Stable installed threaded (fun _ => K)
      (FirstError.offer_result result observer : Code X Y H FirstError Unit) := by
  rcases result with e | ⟨⟨⟩⟩
  · exact stable_offer e observer
  · exact Act.Preserves.pure ()

theorem stable_offer_halt (result : Except Halt Unit) (observer : Bool) :
    Stable installed threaded (fun _ => K)
      (FirstError.offer_halt result observer : Code X Y H FirstError Unit) := by
  rcases result with (e | _) | ⟨⟨⟩⟩
  · exact stable_offer e observer
  · exact Act.Preserves.pure ()
  · exact Act.Preserves.pure ()

end First

theorem stable_is_cancelled {I : σ → Nat → Prop} (armed : Bool) :
    Stable installed threaded I (is_cancelled armed : Code X Y H σ Bool) := by
  cases armed with
  | false => exact Act.Preserves.pure false
  | true => exact stable_request _ (by trivial)

namespace Runner

variable {c : StageFn X Y X}

/-- What holds of a runner. -/
abbrev Letters (installed : Bool) (r : Runner σ) (w : Nat) : Prop := r.ctx.Letters installed w

/-- What holds of a runner next to something else. -/
abbrev WithLetters (installed : Bool) (s : Runner σ × ρ) (w : Nat) : Prop := s.1.Letters installed w

section Pull

theorem stable_chainFn (hc : c.Stable installed threaded) (op : StageOp X) :
    Stable installed threaded (Letters installed) (chainFn c op) := by
  refine (stable_note _).bind fun _ => ?_
  intro r w hr
  simp only [Act.wp_bind, Act.wp_get, Act.next_ok]
  cases r.chain with
  | none => exact Act.Preserves.pure 0 r w hr
  | some s =>
    simp only [Act.wp_bind, Act.wp_attempt, Act.wp_zoom]
    refine Act.wp_mono (hc op (s, r.ctx) w hr) fun res t w' h => ?_
    have hr' : Letters installed { r with chain := some t.1, ctx := t.2 } w' := h.1
    cases res with
    | ok written => exact Act.Preserves.pure written _ w' hr'
    | panic => exact ⟨hr', fun _ _ => trivial⟩
    | halt halt =>
      exact (stable_note _).bind (fun _ => Act.Preserves.halt trivial) _ w' hr'

theorem stable_call (hc : c.Stable installed threaded) (op : StageOp X) :
    Stable installed threaded (Letters installed) (call c op) := by
  refine (stable_chainFn hc op).bind fun written => Act.Preserves.modify fun r w h => ?_
  apply h.tally
  rfl

theorem stable_pull (idle_tick : Option Duration) :
    Stable installed threaded (Letters installed) (pull idle_tick : Code X Y Error (Runner σ) _) := by
  have hfail : ∀ e : BoxError, Stable installed threaded (Letters installed)
      (do Act.halt (.source (← Act.get).source_id e) : Code X Y Error (Runner σ) (Pull X)) := by
    intro e
    exact Act.Preserves.get.bind fun _ => Act.Preserves.halt trivial
  cases idle_tick with
  | none =>
    refine (stable_request _ (by trivial)).bind fun a => (stable_outcome a).bind fun pulled => ?_
    cases pulled with
    | ok pulled => exact Act.Preserves.pure _
    | error e => exact hfail e
  | some timeout =>
    refine (stable_request _ (by trivial)).bind fun a => (stable_outcome a).bind fun pulled => ?_
    cases pulled with
    | ok pulled => exact Act.Preserves.pure pulled
    | error e => exact hfail e

theorem stable_tick (hc : c.Stable installed threaded) :
    Stable installed threaded (Letters installed) (tick c) := by
  refine Act.Preserves.get.bind fun r => ?_
  exact (stable_emitEvent _ _ (by trivial)).bind fun _ => stable_call hc .tick

theorem stable_step (hc : c.Stable installed threaded) (idle_tick : Option Duration) :
    Stable installed threaded (Letters installed) (step c idle_tick) := by
  refine ((stable_pull idle_tick).mapHalt fun _ _ => trivial).bind fun pulled => ?_
  cases pulled with
  | done => exact Act.Preserves.pure _
  | idle => exact (stable_tick hc).bind fun _ => Act.Preserves.pure _
  | item item =>
    refine Act.Preserves.bind (Act.Preserves.modify fun r w h => ?_) fun _ => ?_
    · apply h.tally
      rfl
    · exact (stable_call hc _).bind fun _ => Act.Preserves.pure _

/-- Code on the runner, next to something else. -/
theorem stable_beside {x : Code X Y H (Runner σ) α}
    (hx : Stable installed threaded (Letters installed) x) :
    Stable installed threaded (WithLetters installed)
      (Act.zoom Prod.fst (fun r s => (r, s.2)) x : Code X Y H (Runner σ × ρ) α) :=
  Act.Preserves.zoom (fun _ _ h => h) (fun _ _ _ _ _ h => h) hx

theorem stable_pull_loop (hc : c.Stable installed threaded) (cancellable : Bool) :
    Stable installed threaded (WithLetters installed) (pull_loop (H := H) c cancellable) := by
  refine (stable_is_cancelled cancellable).bind fun cancelled => ?_
  split
  · exact Act.Preserves.pure _
  refine (stable_request _ (by trivial)).bind fun a => (stable_outcome a).bind fun pulled => ?_
  rcases pulled with e | _ | item
  · exact Act.Preserves.get.bind fun _ => Act.Preserves.pure _
  · exact Act.Preserves.pure _
  · refine Act.Preserves.bind (Act.Preserves.modify fun _ _ h => h) fun _ => ?_
    refine (stable_beside (stable_chainFn hc _)).attempt.bind fun r => ?_
    cases r with
    | error halt => exact Act.Preserves.pure _
    | ok n =>
      exact Act.Preserves.bind (Act.Preserves.modify fun _ _ h => h) fun _ => Act.Preserves.pure none

theorem stable_round (hc : c.Stable installed threaded) (idle_tick : Option Duration)
    (cancel : Bool) :
    Stable installed threaded (WithLetters installed) (round (H := H) c idle_tick cancel) := by
  cases idle_tick with
  | none => exact stable_pull_loop hc cancel
  | some timeout =>
    refine stable_beside ((stable_is_cancelled cancel).bind fun cancelled => ?_)
    split
    · exact Act.Preserves.pure _
    refine (stable_step hc _).attempt.bind fun r => ?_
    rcases r with halt | _ | _ | _ <;> exact Act.Preserves.pure _

theorem stable_publish :
    Stable installed threaded (WithLetters installed)
      (publish : Code X Y H (Runner σ × (Nat × Nat)) Unit) := by
  refine Act.Preserves.modify fun s w h => ?_
  apply h.tally
  rfl

theorem stable_pump (hc : c.Stable installed threaded) (fuel : Nat) (idle_tick : Option Duration)
    (cancel : Bool) :
    Stable installed threaded (Letters installed) (pump (H := H) c fuel idle_tick cancel) := by
  refine Act.Preserves.zoom (fun _ _ h => h) (fun _ _ _ _ _ h => h) (J := WithLetters installed) ?_
  refine ((stable_round hc idle_tick cancel).repeatUntil fuel).bind fun «end» => ?_
  exact stable_publish.bind fun _ => Act.Preserves.pure «end»

end Pull

section Teardown

theorem stable_onFirst {x : Bool → Code X Y H FirstError Unit}
    (hx : ∀ b (K : Nat → Prop), Stable installed threaded (fun _ => K) (x b)) :
    Stable installed threaded (WithLetters installed) (onFirst (σ := σ) x) :=
  Act.Preserves.get.bind fun s => Act.Preserves.frame (fun _ _ _ h => h) (hx s.1.ctx.observer)

theorem stable_onDlq {x : Bool → Code X Y H Dlq α}
    (hx : ∀ b (K : Nat → Prop), Stable installed threaded (Handle installed K) (x b)) :
    Stable installed threaded (WithLetters installed) (onDlq (σ := σ) x) := by
  refine Act.Preserves.get.bind fun s₀ => ?_
  intro s w hs
  refine (Act.wp_zoom ..).2 (Act.wp_mono (hx s₀.1.ctx.observer (fun w' => w' = w) s.1.ctx.dlq w
    ⟨hs.handle, rfl⟩) fun r d w' h => ⟨?_, h.2⟩)
  obtain ⟨hd, rfl⟩ := h.1
  exact hs.dlq hd

theorem stable_wait_segments :
    Stable installed threaded (WithLetters installed)
      (wait_segments : Code X Y H (Runner σ × FirstError) Unit) := by
  refine Act.Preserves.get.bind fun s => ?_
  split
  · refine Act.Preserves.bind (Act.Preserves.modify fun _ _ h => h) fun _ => ?_
    exact (stable_request _ (by trivial)).bind fun _ => stable_request _ (by trivial)
  · exact Act.Preserves.pure ()

theorem stable_close_source :
    Stable installed threaded (WithLetters installed)
      (close_source : Code X Y H (Runner σ × FirstError) Unit) := by
  refine Act.Preserves.get.bind fun s => ?_
  split
  · exact Act.Preserves.pure ()
  · refine Act.Preserves.bind (Act.Preserves.modify fun _ _ h => h) fun _ => ?_
    refine (stable_request _ (by trivial)).bind fun a => (stable_outcome a).bind fun closed => ?_
    exact Act.Preserves.get.bind fun _ => stable_onFirst fun b K => stable_offer_result _ b

theorem stable_finish_dlq :
    Stable installed threaded (WithLetters installed)
      (finish_dlq : Code X Y H (Runner σ × FirstError) Unit) := by
  refine Act.Preserves.get.bind fun s => ?_
  dsimp only
  split
  · refine (stable_onDlq fun b K => stable_dlq_finish b).attempt.bind fun finished => ?_
    refine Act.Preserves.bind (Act.Preserves.modify fun _ _ h => h) fun _ => ?_
    exact stable_onFirst fun b K => stable_offer_result finished b
  · exact Act.Preserves.pure ()

theorem stable_close_rest :
    Stable installed threaded (WithLetters installed)
      (close_rest : Code X Y H (Runner σ × FirstError) Unit) :=
  stable_wait_segments.bind fun _ => stable_close_source.bind fun _ => stable_finish_dlq

theorem stable_closed :
    Stable installed threaded (WithLetters installed) (do
      close_rest
      Act.modify fun s => ({ s.1 with live := false }, s.2) :
        Code X Y H (Runner σ × FirstError) Unit) :=
  stable_close_rest.bind fun _ => Act.Preserves.modify fun _ _ h => h

theorem stable_abort (hc : c.Stable installed threaded) :
    Stable installed threaded (WithLetters installed) (abort (H := H) c) := by
  refine (stable_beside (stable_call hc .abort)).attempt.bind fun aborted => ?_
  exact (stable_onFirst fun b K => stable_offer_halt aborted b).bind fun _ => stable_closed

theorem stable_finish (hc : c.Stable installed threaded) :
    Stable installed threaded (WithLetters installed) (finish (H := H) c) := by
  refine (stable_beside (stable_call hc .flush)).attempt.bind fun flushed => ?_
  rcases flushed with halt | ⟨⟨⟩⟩
  · refine (stable_onFirst fun b K => stable_offer_halt (.error halt) b).bind fun _ => ?_
    refine (stable_beside (stable_call hc .abort)).attempt.bind fun aborted => ?_
    exact (stable_onFirst fun b K => stable_offer_halt aborted b).bind fun _ => stable_closed
  · refine (stable_beside (stable_call hc .close)).attempt.bind fun closed => ?_
    exact (stable_onFirst fun b K => stable_offer_halt closed b).bind fun _ => stable_closed

theorem stable_retries (hc : c.Stable installed threaded) (n : Nat) :
    Stable installed threaded (WithLetters installed) (retries (H := H) c n) := by
  induction n with
  | zero => exact Act.Preserves.pure ()
  | succ n ih =>
    refine Act.Preserves.get.bind fun s => ?_
    split
    · exact (stable_abort hc).contain.bind fun _ => ih
    · exact Act.Preserves.pure ()

theorem stable_drop (hc : c.Stable installed threaded) :
    Stable installed threaded (Letters installed) (drop (H := H) c) := by
  refine Act.Preserves.get.bind fun r => ?_
  split
  · refine Act.Preserves.zoom (fun _ _ h => h) (fun _ _ _ _ _ h => h) (J := WithLetters installed) ?_
    refine (stable_retries hc 6).bind fun _ => Act.Preserves.get.bind fun s => ?_
    split
    · exact Act.Preserves.pure ()
    · refine Act.Preserves.get.bind fun s => ?_
      exact (stable_emitEvent _ _ (by trivial)).contain.bind fun _ => Act.Preserves.pure ()
  · exact Act.Preserves.pure ()

/-- Caught code that returns no error early keeps what it keeps. -/
theorem wp_contained {I : σ → Nat → Prop} {x : Code X Y Empty σ α}
    (hx : Stable installed threaded I x) {s : σ} {w : Nat} (hI : I s w)
    {Q : Res Empty (Option α) → σ → Nat → Prop} (hQ : ∀ a s' w', I s' w' → Q (.ok a) s' w') :
    Act.wp (letters installed threaded) (Act.contain x) Q s w := by
  refine Act.Preserves.wp_caught (fun s w hI => ?_) hI hQ
  refine Act.wp_mono (hx s w hI) fun r s' w' h => ⟨h.1, ?_⟩
  exact fun e _ => e.elim

theorem wp_retries (hc : c.Stable installed threaded) (n : Nat) {s : Runner c.σ × FirstError}
    {w : Nat} (hs : WithLetters installed s w)
    {Q : Res Empty Unit → Runner c.σ × FirstError → Nat → Prop}
    (hQ : ∀ s' w', WithLetters installed s' w' → Q (.ok ()) s' w') :
    Act.wp (letters installed threaded) (retries c n) Q s w := by
  induction n generalizing s w with
  | zero => exact hQ s w hs
  | succ n ih =>
    simp only [retries, Act.wp_bind, Act.wp_get, Act.next_ok]
    split
    · refine (Act.wp_bind ..).2 (wp_contained (stable_abort hc) hs fun a s' w' hs' => ?_)
      exact ih hs'
    · exact hQ s w hs

/-- Dropping a runner does not unwind. -/
theorem wp_drop (hc : c.Stable installed threaded) {r : Runner c.σ} {w : Nat}
    (hr : r.Letters installed w) {Q : Res Empty Unit → Runner c.σ → Nat → Prop}
    (hQ : ∀ r' w', r'.Letters installed w' → Q (.ok ()) r' w') :
    Act.wp (letters installed threaded) (drop c) Q r w := by
  simp only [drop, Act.wp_bind, Act.wp_get, Act.next_ok]
  split
  · simp only [Act.wp_zoom, Act.wp_bind]
    refine wp_retries hc 6 (s := (r, none)) hr fun s w₁ hs => ?_
    simp only [Act.next_ok, Act.wp_bind, Act.wp_get]
    split
    · exact hQ _ w₁ hs
    · simp only [Act.wp_bind, Act.wp_get, Act.next_ok]
      exact wp_contained (stable_emitEvent _ _ (by trivial)) hs fun _ s' w' hs' => hQ _ w' hs'
  · exact hQ r w hr

end Teardown

end Runner

section Session

variable {c : StageFn X Y X}

/-- What holds of a run until it ends, and of its counters afterwards. -/
def lettered (σ : Type) (installed : Bool) : Course σ Nat where
  built b w := b.dead_letter = installed ∧ w = 0
  running r w := r.ctx.Letters installed w
  ended stats w := stats.dead_lettered ≤ w

theorem stable_teardown (hc : c.Stable installed threaded) («end» : PumpEnd) :
    Stable installed threaded (Runner.WithLetters installed)
      (Pipeline.teardown (H := H) c «end») := by
  cases «end» with
  | graceful => exact Runner.stable_finish hc
  | cancelled => exact Runner.stable_finish hc
  | failed e =>
    exact (Runner.stable_onFirst fun b K => stable_offer e b).bind fun _ => Runner.stable_abort hc
  | disconnected =>
    exact (Runner.stable_onFirst fun b K => stable_offer _ b).bind fun _ => Runner.stable_abort hc

/-- The end of a run reports what it has counted. -/
theorem wp_conclusion (hc : c.Stable installed threaded) («end» : PumpEnd) {r : Runner c.σ}
    {w : Nat} (hr : r.ctx.Letters installed w) :
    Act.wp (letters installed threaded) (Pipeline.conclusion (H := H) c «end»)
      (fun res t w' => t.1.ctx.Letters installed w' ∧
        ∀ stats result, res = .ok (stats, result) →
          stats.dead_lettered ≤ w' ∧ ∀ s, result = .ok s → s = stats) (r, none) w := by
  refine (Act.wp_bind ..).2 (Act.wp_mono (stable_teardown hc «end» (r, none) w hr) ?_)
  intro res t w₁ h
  obtain ⟨ht, -⟩ := h
  cases res with
  | halt e => exact ⟨ht, by simp⟩
  | panic => exact ⟨ht, by simp⟩
  | ok u =>
    simp only [Act.next_ok, Act.wp_bind, Act.wp_get]
    refine Act.wp_mono (stable_reported (I := fun t' w' => t' = t ∧ w' = w₁) _ _ ?_ t w₁ ⟨rfl, rfl⟩) ?_
    · intro _ _ _ habsent
      exact ht.counted.trans (ht.unsent habsent)
    · intro res t' w' h'
      obtain ⟨⟨rfl, rfl⟩, -⟩ := h'
      cases res with
      | halt e => exact ⟨ht, by simp⟩
      | panic => exact ⟨ht, by simp⟩
      | ok u =>
        refine ⟨ht, ?_⟩
        intro stats result hres
        cases hres
        refine ⟨Nat.le_of_eq ht.counted, fun s hs => ?_⟩
        unfold Pipeline.result at hs
        split at hs
        · cases hs
        · split at hs <;> cases hs
          rfl

/-- Once accepted, a failure stays accepted. -/
theorem letters_mono (n : Nat) (e : Eff X Y) (w : Nat) (a : Ans e) (w' : Nat) (hn : n ≤ w)
    (h : (letters installed threaded).post e w a w') : n ≤ w' := by
  rw [h.1]
  exact Nat.le_add_right_of_le hn

theorem lettered_kept (hc : c.Stable installed threaded) (ce : Option ConfigError) :
    (lettered c.σ installed).Kept (letters installed threaded) ce where
  refused _ _ := Nat.zero_le _
  started := by
    rintro b w - ⟨rfl, rfl⟩ Q s hrun hend
    have hstart := hrun 0 fun _ cancel => letters_new b.dead_letter b.observer cancel
    cases hobserver : b.observer with
    | false => exact hstart
    | true =>
      refine ⟨Eff.Aside.pre (by trivial) 0, fun a w' ha => ?_⟩
      obtain rfl := Eff.Aside.post (by trivial) ha
      cases a with
      | none => exact hend 0 (Nat.zero_le 0)
      | some u => exact hstart
  asked := ⟨Eff.Aside.pre (by trivial) _, fun a w' h => Eff.Aside.post (by trivial) h⟩
  step hr idle_tick :=
    Act.wp_mono (Runner.stable_step hc idle_tick _ _ hr) fun _ _ _ h => h.1
  tick hr := Act.wp_mono (Runner.stable_tick hc _ _ hr) fun _ _ _ h => h.1
  pump hr fuel idle_tick cancel :=
    Act.wp_mono (Runner.stable_pump hc fuel idle_tick cancel _ _ hr) fun _ _ _ h => h.1
  conclude := by
    intro r w hr «end»
    refine Act.wp_mono (wp_conclusion hc «end» hr) fun res t w₁ h => ?_
    obtain ⟨ht, hstats⟩ := h
    have hended : (concluded res).dead_lettered ≤ w₁ := by
      rcases res with ⟨stats, e | s⟩ | e | _
      · exact (hstats stats _ rfl).1
      · have hs := hstats stats _ rfl
        rw [concluded, hs.2 s rfl]
        exact hs.1
      · exact Nat.zero_le _
      · exact Nat.zero_le _
    refine Act.wp_mono (Act.wp_keep (letters_mono _) (Runner.stable_drop hc t.1 w₁ ht) hended) ?_
    exact fun _ _ _ h => h.2
  drop := by
    intro r w hr
    exact Runner.wp_drop hc hr fun r' w' _ => ⟨rfl, .default, Nat.zero_le w'⟩

/-- The answers of an outside to a thread that joins no other. -/
theorem Oracle.keeps_letters (o : Oracle X Y) :
    Prog.Keeps (letters installed false)
      (fun log w => w = Log.accepted log ∧ ∀ a ∈ log, a.1.Addressed installed) o.handler := by
  rintro e log _ ⟨rfl, hlog⟩ ⟨haddressed, hjoins⟩
  refine ⟨_, ⟨rfl, ?_⟩, ?_, ?_⟩
  · cases e with
    | join i => cases hjoins trivial
    | _ => trivial
  · simp [Oracle.handler, Log.accepted]
  · intro a ha
    rcases List.mem_append.1 ha with ha | ha
    · exact hlog a ha
    · rw [List.mem_singleton.1 ha]
      exact haddressed

/-- Every failure that a pipeline counts as routed was accepted by the dead-letter sink. -/
def Pipeline.Lettered (installed : Bool) (p : Pipeline σ) (accepted : Nat) : Prop :=
  match p.state with
  | .built _ => True
  | .running r => r.ctx.Letters installed accepted
  | .ended stats _ => stats.dead_lettered ≤ accepted

theorem Course.At.lettered {ce : Option ConfigError} {p : Pipeline σ} {w : Nat}
    (h : (PipeIo.lettered σ installed).At ce p w) : p.Lettered installed w := by
  have hstate := h.2
  unfold Pipeline.Lettered
  cases hs : p.state with
  | built b => trivial
  | running r => rwa [hs] at hstate
  | ended stats succeeded => rwa [hs] at hstate

/-- The life of a pipeline up to its drop. -/
def Pipeline.used (c : StageFn X Y X) (xs : List Call) (l : LastCall) :
    Code X Y Empty (Pipeline c.σ) Unit := do
  let _ ← calls c xs
  match l with
  | .finish => do
    let _ ← caught (finish c)
    pure ()
  | .run fuel => do
    let _ ← caught (run_sync c fuel)
    pure ()
  | .run_threaded | .drop => pure ()

theorem wp_used (hc : c.Stable installed threaded) {ce : Option ConfigError} {p : Pipeline c.σ}
    {w : Nat} (h : (lettered c.σ installed).At ce p w) (xs : List Call) (l : LastCall) :
    Act.wp (letters installed threaded) (Pipeline.used c xs l)
      (fun _ p' w' => (lettered c.σ installed).At ce p' w') p w := by
  have hI := lettered_kept hc ce
  refine (Act.wp_bind ..).2 (hI.wp_calls h xs fun os p₁ w₁ h₁ _ => ?_)
  rw [Act.next_ok]
  cases l with
  | run_threaded => exact h₁
  | drop => exact h₁
  | finish =>
    refine (Act.wp_bind ..).2 (wp_caught.2 (hI.wp_finish h₁ fun _ p' w' h' _ => ?_))
    exact h'
  | run fuel =>
    refine (Act.wp_bind ..).2 (wp_caught.2 (hI.wp_run_sync h₁ fuel fun _ p' w' h' _ => ?_))
    exact h'

/-- A run whose stages need no dead-letter sink that is not there. -/
theorem Pipeline.letters (source_id : StageId) (idle_tick : Option Duration)
    (ce : Option ConfigError) (built : Built) (hc : c.Stable built.dead_letter false)
    (o : Oracle X Y) (xs : List Call) (l : LastCall) :
    let p := Pipeline.new source_id idle_tick ce built
    let run := o.run (Pipeline.used c xs l) p
    (∀ a ∈ (o.run (Pipeline.session c xs l) p).2, a.1.Addressed built.dead_letter) ∧
      run.1.2.Lettered built.dead_letter run.2.accepted := by
  intro p run
  have hp : (lettered c.σ built.dead_letter).At ce p 0 := ⟨rfl, rfl, rfl⟩
  have hempty : 0 = Log.accepted ([] : Log X Y) ∧
      ∀ a ∈ ([] : Log X Y), a.1.Addressed built.dead_letter := ⟨rfl, by simp⟩
  constructor
  · have hnot : ¬p.Begun := fun h => h built rfl
    obtain ⟨_, hlog, -⟩ := Prog.wp_exec o.keeps_letters hempty
      ((lettered_kept hc ce).wp_session hp hnot xs l)
    exact hlog.2
  · obtain ⟨_, hlog, hat⟩ := Prog.wp_exec o.keeps_letters hempty (wp_used hc hp xs l)
    rw [hlog.1] at hat
    exact hat.lettered

end Session

end PipeIo
