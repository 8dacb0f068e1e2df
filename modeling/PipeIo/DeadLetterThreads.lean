import PipeIo.DeadLetterRun
import PipeIo.Protocol

namespace PipeIo
set_option autoImplicit true

open Lib

variable {X Y H σ : Type} {installed threaded : Bool} {c : StageFn X Y X}

/-- A thread counts no failure as routed that the dead-letter sink did not accept. -/
def Exit.Counted (installed : Bool) : Exit → Nat → Prop
  | .finished tally _, accepted => tally.dead_lettered ≤ accepted
  | .result (.ok stats), _ => installed = false → stats.dead_lettered = 0
  | .panicked, _ | .result (.error _), _ => True

theorem Exit.Counted.mono {exit : Exit} {w w' : Nat} (h : exit.Counted installed w) (hw : w ≤ w') :
    exit.Counted installed w' := by
  cases exit with
  | finished tally cancelled => exact Nat.le_trans h hw
  | panicked => trivial
  | result r => cases r <;> exact h

theorem Exit.Counted.addressed {exit : Exit} {w : Nat} (h : exit.Counted installed w)
    (hw : installed = false → w = 0) : exit.Addressed installed := by
  cases exit with
  | finished tally cancelled => exact fun habsent => Nat.le_zero.1 (hw habsent ▸ h)
  | panicked => trivial
  | result r => cases r <;> exact h

section Recounts

variable {α : Type} {I : σ → Nat → Prop} {G : α → Nat → Prop}

/-- Code that keeps `I`, and whose result, once it has one, satisfies `G`. -/
def Recounts (installed threaded : Bool) (I : σ → Nat → Prop) (G : α → Nat → Prop)
    (x : Code X Y H σ (Option α)) : Prop :=
  ∀ s w, I s w → Act.wp (letters installed threaded) x (fun r s' w' =>
    I s' w' ∧ ∀ a, r = .ok (some a) → G a w') s w

theorem Recounts.bind {x : Code X Y H σ β} {f : β → Code X Y H σ (Option α)}
    (hx : Stable installed threaded I x) (hf : ∀ b, Recounts installed threaded I G (f b)) :
    Recounts installed threaded I G (x >>= f) := by
  intro s w hI
  refine (Act.wp_bind ..).2 (Act.wp_mono (hx s w hI) fun r s' w' h => ?_)
  cases r with
  | ok b => exact hf b s' w' h.1
  | halt e => exact ⟨h.1, by simp⟩
  | panic => exact ⟨h.1, by simp⟩

theorem Recounts.none : Recounts installed threaded I G (pure none : Code X Y H σ (Option α)) :=
  fun _ _ hI => ⟨hI, by simp⟩

/-- The result is read off the state. -/
theorem Recounts.get {f : σ → α} (hG : ∀ s w, I s w → G (f s) w) :
    Recounts installed threaded I G (do pure (some (f (← Act.get))) : Code X Y H σ (Option α)) := by
  intro s w hI
  refine ⟨hI, fun a ha => ?_⟩
  cases ha
  exact hG s w hI

/-- What holds after a round of a thread: it goes on, or it has ended. -/
def Rounded (installed : Bool) (I : σ → Nat → Prop) : σ ⊕ Exit → Nat → Prop
  | .inl s, w => I s w
  | .inr exit, w => exit.Counted installed w

/-- A round of a thread that keeps `I`, and what the thread hands over when it ends. -/
theorem Task.wp_round {init : σ} {x : Code X Y Empty σ (Option Exit)} {drop : Code X Y Empty σ Unit}
    (hx : Recounts installed threaded I (Exit.Counted installed) x)
    (hdrop : Stable installed threaded I drop) {s : σ} {w : Nat} (hI : I s w) :
    ((Task.repeating init x drop).round s).wp (letters installed threaded)
      (Rounded installed I) w := by
  refine (Prog.wp_bind ..).2 (Prog.wp_mono (hx s w hI) ?_)
  rintro ⟨r, s'⟩ w' ⟨hI', hr⟩
  have hdropped : (drop s').wp (letters installed threaded) (fun _ w'' => w' ≤ w'') w' :=
    Prog.wp_mono (Prog.wp_keep (letters_mono w') (hdrop s' w' hI') (Nat.le_refl w'))
      fun _ _ h => h.2
  rcases r with (_ | exit) | e | _
  · exact hI'
  · exact (Prog.wp_bind ..).2 (Prog.wp_mono hdropped fun _ _ h => (hr exit rfl).mono h)
  · exact e.elim
  · exact (Prog.wp_bind ..).2 (Prog.wp_mono hdropped fun _ _ _ => trivial)

/-- A thread that accounts for the failures it hands over. -/
def Task.Counts (t : Task X Y) (installed : Bool) : Prop :=
  ∃ I : t.S → Nat → Prop, I t.init 0 ∧ ∀ s w, I s w →
    (t.round s).wp (letters installed true) (Rounded installed I) w

theorem Task.counts_repeating {init : σ} {x : Code X Y Empty σ (Option Exit)}
    {drop : Code X Y Empty σ Unit} (hinit : I init 0)
    (hx : Recounts installed true I (Exit.Counted installed) x)
    (hdrop : Stable installed true I drop) :
    (Task.repeating init x drop).Counts installed :=
  ⟨I, hinit, fun _ _ hI => Task.wp_round hx hdrop hI⟩

end Recounts

theorem stable_shared_offer {I : σ → Nat → Prop} (error : Error) (observer : Bool) :
    Stable installed threaded I (SharedFirst.offer error observer : Code X Y H σ Unit) := by
  refine (stable_request _ (by trivial)).bind fun first => ?_
  split
  · exact Act.Preserves.pure ()
  · exact stable_emitEvent _ _ (by trivial)

namespace ChannelSegment

/-- What holds of a segment. -/
abbrev Letters (installed : Bool) (s : ChannelSegment σ) (w : Nat) : Prop :=
  s.ctx.Letters installed w

abbrev WithLetters (installed : Bool) (s : ChannelSegment σ × ρ) (w : Nat) : Prop :=
  s.1.Letters installed w

theorem stable_chainFn (hc : c.Stable installed threaded) (op : StageOp X) :
    Stable installed threaded (Letters installed) (chainFn c op) := by
  refine (stable_note _).bind fun _ => ?_
  have hcall : Stable installed threaded (Letters installed)
      (Act.zoom (fun s => (s.chain, s.ctx)) (fun t s => { s with chain := t.1, ctx := t.2 })
        (c.call op)) :=
    Act.Preserves.zoom (J := CtxLetters installed) (fun _ _ h => h) (fun _ _ _ _ _ h => h) (hc op)
  refine hcall.attempt.bind fun r => ?_
  cases r with
  | ok written => exact Act.Preserves.pure written
  | error halt => exact (stable_note _).bind fun _ => Act.Preserves.halt trivial

theorem stable_recv (idle_tick : Option Duration) :
    Stable installed threaded (Letters installed)
      (recv idle_tick : Code X Y H (ChannelSegment σ) _) := by
  refine Act.Preserves.get.bind fun s => ?_
  split
  · refine (stable_request _ (by trivial)).bind fun r => ?_
    cases r with
    | msg op => exact Act.Preserves.pure _
    | timedOut => exact (stable_emitEvent _ _ (by trivial)).bind fun _ => Act.Preserves.pure _
    | disconnected => exact Act.Preserves.pure _
  · exact Act.Preserves.pure none

theorem stable_drop_rx :
    Stable installed threaded (Letters installed)
      (drop_rx : Code X Y H (ChannelSegment σ) Unit) := by
  refine Act.Preserves.get.bind fun s => ?_
  split
  · refine Act.Preserves.bind (Act.Preserves.modify fun _ _ h => h) fun _ => ?_
    exact stable_request _ (by trivial)
  · exact Act.Preserves.pure ()

theorem stable_abort (hc : c.Stable installed threaded)
    {offer : Error → Bool → Code X Y H (ChannelSegment c.σ × ρ) Unit}
    (hoffer : ∀ e b, Stable installed threaded (WithLetters installed) (offer e b)) :
    Stable installed threaded (WithLetters installed) (abort c offer) := by
  refine Act.Preserves.bind (Act.Preserves.modify fun _ _ h => h) fun _ => ?_
  refine (Act.Preserves.zoom (J := Letters installed) (fun _ _ h => h) (fun _ _ _ _ _ h => h)
    (stable_chainFn hc .abort)).attempt.bind fun r => ?_
  rcases r with (e | _) | written
  · exact Act.Preserves.get.bind fun _ => hoffer _ _
  · exact Act.Preserves.pure ()
  · exact Act.Preserves.pure ()

theorem stable_abort_run (hc : c.Stable installed threaded) :
    Stable installed threaded (Letters installed) (abort_run (H := H) c) :=
  Act.Preserves.zoom (J := WithLetters installed) (fun _ _ h => h) (fun _ _ _ _ _ h => h)
    (stable_abort hc fun e b => stable_shared_offer e b)

/-- What a segment reports of its counters. -/
abbrev Counted (tally : Tally) (w : Nat) : Prop := tally.dead_lettered ≤ w

theorem recounts_tally :
    Recounts installed threaded (Letters installed) Counted
      (do pure (some (← Act.get).ctx.tally) : Code X Y H (ChannelSegment σ) (Option Tally)) :=
  Recounts.get fun _ _ h => Nat.le_of_eq h.counted

theorem recounts_run (hc : c.Stable installed threaded) (idle_tick : Option Duration) :
    Recounts installed threaded (Letters installed) Counted (run (H := H) c idle_tick) := by
  refine Recounts.bind (stable_recv idle_tick) fun op => ?_
  cases op with
  | none =>
    exact Recounts.bind stable_drop_rx fun _ => Recounts.bind (stable_abort_run hc) fun _ => recounts_tally
  | some op =>
    refine Recounts.bind (stable_chainFn hc op).attempt fun r => ?_
    cases r with
    | ok written =>
      refine Recounts.bind (Act.Preserves.modify fun s w h => ?_) fun _ => ?_
      · apply h.tally
        rfl
      split
      · exact Recounts.bind (Act.Preserves.modify fun _ _ h => h) fun _ => recounts_tally
      · exact Recounts.none
    | error halt =>
      have hend : Recounts installed threaded (Letters installed) Counted (do
          if op.closing then Act.modify fun s => { s with live := false }
          else abort_run c
          pure (some (← Act.get).ctx.tally) :
            Code X Y H (ChannelSegment c.σ) (Option Tally)) := by
        split
        · exact Recounts.bind (Act.Preserves.modify fun _ _ h => h) fun _ => recounts_tally
        · exact Recounts.bind (stable_abort_run hc) fun _ => recounts_tally
      refine Recounts.bind stable_drop_rx fun _ => ?_
      cases halt with
      | failed e =>
        exact Recounts.bind Act.Preserves.get fun _ => Recounts.bind (stable_shared_offer _ _) fun _ => hend
      | disconnected => exact hend

theorem stable_retries (hc : c.Stable installed threaded) (n : Nat) :
    Stable installed threaded (WithLetters installed) (retries (H := H) c n) := by
  induction n with
  | zero => exact Act.Preserves.pure ()
  | succ n ih =>
    refine (stable_abort hc fun e b => ?_).contain.bind fun r => ?_
    · exact Act.Preserves.frame (fun _ _ _ h => h) fun K => stable_offer e b
    · cases r with
      | none => exact ih
      | some u => exact Act.Preserves.pure ()

theorem stable_drop_segment (hc : c.Stable installed threaded) :
    Stable installed threaded (Letters installed) (drop_segment (H := H) c) := by
  refine Act.Preserves.get.bind fun s => ?_
  split
  · refine Act.Preserves.zoom (J := WithLetters installed) (fun _ _ h => h) (fun _ _ _ _ _ h => h) ?_
    refine (stable_retries hc 3).bind fun _ => Act.Preserves.get.bind fun s => ?_
    split
    · exact Act.Preserves.pure ()
    · refine Act.Preserves.get.bind fun s => ?_
      exact (stable_emitEvent _ _ (by trivial)).contain.bind fun _ => Act.Preserves.pure ()
  · exact Act.Preserves.pure ()

theorem stable_drop (hc : c.Stable installed threaded) :
    Stable installed threaded (Letters installed) (drop (H := H) c) :=
  (stable_drop_segment hc).bind fun _ => stable_drop_rx.bind fun _ =>
    (stable_request _ (by trivial)).bind fun _ => stable_request _ (by trivial)

theorem task_counts (hc : c.Stable installed true) {ctx : Ctx} (hctx : ctx.Letters installed 0)
    (idle_tick : Option Duration) : (task c ctx idle_tick).Counts installed := by
  apply Task.counts_repeating (I := Letters installed) hctx ?_ (stable_drop hc)
  intro s w hs
  refine (Act.wp_bind ..).2 (Act.wp_mono (recounts_run hc idle_tick s w hs) fun r s' w' h => ?_)
  obtain ⟨hs', htally⟩ := h
  rcases r with (_ | tally) | e | _
  · exact ⟨hs', by simp⟩
  · refine ⟨hs', fun exit hexit => ?_⟩
    cases hexit
    exact htally tally rfl
  · exact ⟨hs', by simp⟩
  · exact ⟨hs', by simp⟩

end ChannelSegment

section Source

theorem stable_source_end (hc : c.Stable installed threaded) («end» : PumpEnd) :
    Stable installed threaded (Runner.Letters installed) (source_end (H := H) c «end») := by
  refine Act.Preserves.zoom (J := Runner.WithLetters installed) (fun _ _ h => h)
    (fun _ _ _ _ _ h => h) ?_
  cases «end»
  case' graceful => refine (Runner.stable_finish hc).bind fun _ => ?_
  case' cancelled => refine (Runner.stable_finish hc).bind fun _ => ?_
  case' failed e =>
    refine Act.Preserves.get.bind fun _ => (stable_shared_offer _ _).bind fun _ => ?_
    refine (Runner.stable_abort hc).bind fun _ => ?_
  case' disconnected => refine (Runner.stable_abort hc).bind fun _ => ?_
  -- whatever the end was, the error of the teardown is offered last
  all_goals
    refine Act.Preserves.get.bind fun s => ?_
    dsimp only
    split
    · exact stable_shared_offer _ _
    · exact Act.Preserves.pure ()

theorem recounts_source_loop (hc : c.Stable installed threaded) (idle_tick : Option Duration)
    (cancel : Bool) :
    Recounts installed threaded (Runner.WithLetters installed) (Exit.Counted installed)
      (source_loop (H := H) c idle_tick cancel) := by
  refine Recounts.bind (Runner.stable_round hc idle_tick cancel) fun «end» => ?_
  cases «end» with
  | none => exact Recounts.none
  | some «end» =>
    refine Recounts.bind Runner.stable_publish fun _ => ?_
    refine Recounts.bind (Runner.stable_beside (stable_source_end hc «end»)) fun _ => ?_
    exact Recounts.get fun _ _ h => Nat.le_of_eq h.counted

theorem stable_drop_source (hc : c.Stable installed threaded) :
    Stable installed threaded (Runner.Letters installed) (drop_source (H := H) c) := by
  refine (Runner.stable_drop hc).bind fun _ => Act.Preserves.get.bind fun r => ?_
  split
  · exact stable_request _ (by trivial)
  · exact Act.Preserves.pure ()

theorem source_task_counts (hc : c.Stable installed true) (source_id : StageId) {ctx : Ctx}
    (hctx : ctx.Letters installed 0) (idle_tick : Option Duration) (cancel : Bool) :
    (source_task c source_id ctx idle_tick cancel).Counts installed :=
  Task.counts_repeating (I := Runner.WithLetters installed) hctx
    (recounts_source_loop hc idle_tick cancel) (Runner.stable_beside (stable_drop_source hc))

end Source

namespace Threaded

/-- What holds of the results collected so far. -/
abbrev Unsent (installed : Bool) (j : Joined) (_ : Nat) : Prop :=
  installed = false → j.tally.dead_lettered = 0

theorem unsent_worker {j : Joined} {exit : Exit} {w w' : Nat} (hj : Unsent installed j w)
    (hexit : exit.Addressed installed) : Unsent installed (Joined.worker exit j) w' := by
  intro habsent
  cases exit with
  | finished tally cancelled =>
    change j.tally.dead_lettered + tally.dead_lettered = 0
    rw [hj habsent, hexit habsent]
  | panicked => exact hj habsent
  | result r => exact hj habsent

theorem unsent_source {j : Joined} {exit : Exit} {w w' : Nat} (hj : Unsent installed j w)
    (hexit : exit.Addressed installed) : Unsent installed (Joined.source exit j) w' := by
  intro habsent
  cases exit with
  | finished tally cancelled =>
    change j.tally.dead_lettered + tally.dead_lettered = 0
    rw [hj habsent, hexit habsent]
  | panicked => exact hj habsent
  | result r => exact hj habsent

/-- A thread's result is added to the others. -/
theorem stable_join {f : Exit → Joined → Joined}
    (hf : ∀ j exit w w', Unsent installed j w → exit.Addressed installed →
      Unsent installed (f exit j) w') (i : Nat) :
    Stable installed true (Unsent installed) (do
      let exit ← request (.join i)
      Act.modify (f exit) : Code X Y H Joined Unit) := by
  intro j w hj
  refine ⟨⟨trivial, fun _ => rfl⟩, fun exit w' ha => ⟨?_, fun _ _ => trivial⟩⟩
  exact hf j exit w w' hj ha.2

theorem stable_join_workers (n : Nat) :
    Stable installed true (Unsent installed) (join_workers n : Code X Y H Joined Unit) := by
  induction n with
  | zero => exact Act.Preserves.pure ()
  | succ n ih =>
    exact ih.bind fun _ => stable_join (fun _ _ _ _ => unsent_worker) n

theorem wp_join_all (n w : Nat) :
    Act.wp (letters installed true) (join_all n : Code X Y H Joined Joined)
      (fun r _ w' => ∀ j, r = .ok j → Unsent installed j w') Joined.default w := by
  refine (Act.wp_bind ..).2 ((Act.wp_perform ..).2 ⟨⟨trivial, fun _ => rfl⟩, fun exit w₁ ha => ?_⟩)
  rw [Act.next_ok]
  have hsource : Unsent installed (Joined.source exit Joined.default) w₁ :=
    unsent_source (w := w) (fun _ => rfl) ha.2
  rw [Act.wp_bind, Act.wp_modify, Act.next_ok, Act.wp_bind]
  refine Act.wp_mono (stable_join_workers n _ w₁ hsource) fun r j w' h => ?_
  cases r with
  | ok u =>
    intro j' hj'
    cases hj'
    exact h.1
  | halt e => simp
  | panic => simp

theorem result_addressed {first : FirstError} {cancelled : Bool} {stats : RunStats}
    (hstats : installed = false → stats.dead_lettered = 0) (w : Nat) :
    (Exit.result (Pipeline.result first cancelled stats)).Counted installed w := by
  unfold Pipeline.result
  split
  · trivial
  · split
    · trivial
    · exact hstats

/-- The end of a threaded run reports what the threads have counted. -/
theorem wp_conclude {joined : Joined} {w : Nat} (hjoined : Unsent installed joined w)
    (observer : Bool) {d : Dlq} (hd : d.Installed installed) (first : FirstError) :
    Act.wp (letters installed threaded) (conclude joined observer : Code X Y H _ _)
      (fun r _ w' => ∀ res, r = .ok res → (Exit.result res).Counted installed w') (d, first) w := by
  have hfinish : Stable installed threaded (fun s _ => s.1.Installed installed)
      (Act.attempt (Act.zoom Prod.fst (fun d s => (d, s.2)) (Dlq.finish observer)) :
        Code X Y H (Dlq × FirstError) _) :=
    (Act.Preserves.zoom (J := Handle installed fun _ => True) (fun _ _ h => ⟨h, trivial⟩)
      (fun _ _ _ _ _ h => h.1) (stable_dlq_finish observer)).attempt
  have hfirst : ∀ finished, Stable installed threaded (fun s _ => s.1.Installed installed)
      (Act.zoom Prod.snd (fun f s => (s.1, f)) (FirstError.offer_result finished observer) :
        Code X Y H (Dlq × FirstError) Unit) :=
    fun finished => Act.Preserves.frame (fun _ _ _ h => h) fun K =>
      stable_offer_result finished observer
  refine (Act.wp_bind ..).2 (Act.wp_mono (hfinish (d, first) w hd) fun r s₁ w₁ h₁ => ?_)
  cases r with
  | halt e => simp
  | panic => simp
  | ok finished =>
    rw [Act.next_ok]
    refine (Act.wp_bind ..).2 (Act.wp_mono (hfirst finished s₁ w₁ h₁.1) fun r s₂ w₂ _ => ?_)
    cases r with
    | halt e => simp
    | panic => simp
    | ok u =>
      rw [Act.next_ok]
      split
      · simp
      · simp only [Act.wp_bind, Act.wp_get, Act.next_ok]
        refine Act.wp_mono (stable_reported (I := fun _ _ => True) observer _ ?_ s₂ w₂ trivial)
          fun r _ w' _ => ?_
        · exact fun _ _ _ => hjoined
        cases r with
        | halt e => simp
        | panic => simp
        | ok u =>
          intro res hres
          cases hres
          exact result_addressed hjoined w'

theorem stable_spawn_segments {I : σ → Nat → Prop} (n : Nat) :
    Stable installed threaded I (spawn_segments n : Code X Y H σ Unit) := by
  induction n with
  | zero => exact Act.Preserves.pure ()
  | succ n ih => exact ih.bind fun _ => stable_request _ (by trivial)

theorem recounts_run (n : Nat) {built : Built} (hbuilt : built.dead_letter = installed) :
    Recounts installed true (fun _ _ => True) (Exit.Counted installed)
      (run n built : Code X Y H Unit (Option Exit)) := by
  have hdlq : (Dlq.new built.dead_letter).Installed installed := by
    rw [hbuilt]
    exact installed_new installed
  refine Recounts.bind (stable_emitEvent _ _ (by trivial)) fun _ => ?_
  refine Recounts.bind (stable_spawn_segments n) fun _ => ?_
  refine Recounts.bind (stable_request _ (by trivial)) fun _ s w _ => ?_
  refine (Act.wp_bind ..).2 ((Act.wp_withLocal ..).2 (Act.wp_mono (wp_join_all n w) ?_))
  intro r j w₁ hjoined
  cases r with
  | halt e => exact ⟨trivial, by simp⟩
  | panic => exact ⟨trivial, by simp⟩
  | ok joined =>
    refine Recounts.bind (I := fun _ _ => True) (stable_request .takeFirst (by trivial))
      (fun first s w _ => ?_) s w₁ trivial
    refine (Act.wp_bind ..).2 ((Act.wp_withLocal ..).2 (Act.wp_mono (wp_conclude (w := w)
      (hjoined joined rfl) built.observer hdlq first) ?_))
    intro r t w' hresult
    cases r with
    | halt e => exact ⟨trivial, by simp⟩
    | panic => exact ⟨trivial, by simp⟩
    | ok res =>
      refine ⟨trivial, fun exit hexit => ?_⟩
      cases hexit
      exact hresult res rfl

theorem task_counts (n : Nat) {built : Built} (hbuilt : built.dead_letter = installed) :
    (task n built : Task X Y).Counts installed :=
  Task.counts_repeating (I := fun _ _ => True) trivial (recounts_run n hbuilt) (Act.Preserves.pure ())

end Threaded

namespace ThreadedWiring

variable {Ty : Nat → Type} (w : ThreadedWiring Ty)

theorem chain_stable (hw : ∀ j, (w.piece j).Routes → w.built.dead_letter = true) (j : Nat) :
    (w.chain j).Stable w.built.dead_letter true := by
  apply (w.piece j).assemble_stable ?_ (hw j)
  cases j with
  | zero => exact sink_fn_stable _
  | succ j => exact send_fn_stable

theorem task_counts (hw : ∀ j, (w.piece j).Routes → w.built.dead_letter = true) (j : Nat) :
    (w.task j).Counts w.built.dead_letter := by
  have hchain := w.chain_stable hw j
  have hnew := letters_new w.built.dead_letter w.built.observer w.cancel
  unfold task
  split
  · exact ChannelSegment.task_counts hchain hnew _
  · split
    · exact source_task_counts hchain _ hnew _ _
    · exact Threaded.task_counts w.n rfl

end ThreadedWiring

section Reachable

open Function

variable {Ty : Nat → Type} {w : ThreadedWiring Ty} {out : Outside Ty} {net net' : Net w}

theorem Net.Answers.logs {j : Nat} {e : Eff (Ty (j + 1)) (Ty j)} {a : Ans e}
    (h : net.Answers out j e a net') : net'.logs = net.logs := by
  cases h <;> rfl

theorem Net.Enters.logs {j : Nat} {e : Eff (Ty (j + 1)) (Ty j)} (h : net.Enters j e net') :
    net'.logs = net.logs := by
  cases h <;> rfl

theorem accepted_snoc (log : Log X Y) (a : Entry X Y) :
    Log.accepted (log ++ [a]) = log.accepted + a.1.accepted a.2 := by
  simp [Log.accepted]

/-- Where no failure is handed over, none is accepted. -/
theorem accepted_eq_zero {log : Log X Y} (h : ∀ a ∈ log, a.1.Addressed false) :
    log.accepted = 0 := by
  induction log with
  | nil => rfl
  | cons entry log ih =>
    obtain ⟨e, a⟩ := entry
    have hrest := ih fun a ha => h a (List.mem_cons_of_mem _ ha)
    have hfirst : e.accepted a = 0 := by
      cases e with
      | deadLetter op => cases h _ List.mem_cons_self
      | _ => rfl
    change e.accepted a + Log.accepted log = 0
    rw [hfirst, hrest]

/-- What the threads have accepted and asked for so far. -/
def Accounted (installed : Bool) (net : Net w) (v : Nat → Nat) : Prop :=
  ∀ j, v j = (net.logs j).accepted ∧ ∀ a ∈ net.logs j, a.1.Addressed installed

theorem Accounted.same {v : Nat → Nat} (h : Accounted installed net v)
    (hlogs : net'.logs = net.logs) : Accounted installed net' v := by
  intro j
  rw [hlogs]
  exact h j

theorem Accounted.unsent {v : Nat → Nat} (h : Accounted installed net v) (j : Nat)
    (habsent : installed = false) : v j = 0 := by
  subst habsent
  rw [(h j).1]
  exact accepted_eq_zero (h j).2

theorem Accounted.record {v : Nat → Nat} (h : Accounted installed net v) {j : Nat}
    {e : Eff (Ty (j + 1)) (Ty j)} (a : Ans e) (he : e.Addressed installed) :
    Accounted installed (net.record j ⟨e, a⟩) (update v j (v j + e.accepted a)) := by
  intro i
  by_cases hi : i = j
  · subst hi
    simp only [Net.record, update_self]
    refine ⟨by rw [accepted_snoc, (h i).1], fun b hb => ?_⟩
    rcases List.mem_append.1 hb with hb | hb
    · exact (h i).2 b hb
    · rw [List.mem_singleton.1 hb]
      exact he
  · simp only [Net.record, update_of_ne hi]
    exact h i

/-- In every state of a threaded run, each thread counts only failures that the dead-letter sink
accepted from it; without a sink, none is handed over. -/
theorem Net.letters (hw : ∀ j, (w.piece j).Routes → w.built.dead_letter = true)
    (h : net.Reachable out) (j : Nat) :
    (∀ a ∈ net.logs j, a.1.Addressed w.built.dead_letter) ∧
      ∀ exit, net.threads j = .finished exit →
        exit.Counted w.built.dead_letter (net.logs j).accepted := by
  let P : Protocol w :=
    { W := fun _ => Nat
      Γ := fun _ => PipeIo.letters w.built.dead_letter true
      start := fun _ => 0
      loop := fun j => (w.task_counts hw j).choose
      exits := fun _ exit v => exit.Counted w.built.dead_letter v }
  have hkept : P.Kept := by
    constructor
    · intro j
      exact (w.task_counts hw j).choose_spec.1
    · intro j s v hs
      refine Prog.wp_mono ((w.task_counts hw j).choose_spec.2 s v hs) fun r v' hr => ?_
      cases r <;> exact hr
  have hties : P.Ties out (Accounted w.built.dead_letter) := by
    constructor
    · exact fun j => ⟨rfl, by simp [Net.init]⟩
    · intro net v j e k a net' hat ht hpre ha
      refine ⟨v j + e.accepted a, ⟨rfl, ?_⟩, ?_⟩
      · cases ha with
        | @joined i exit _ hexit =>
          have hcounted := hat.follows i
          rw [hexit] at hcounted
          exact Exit.Counted.addressed hcounted (hat.ties.unsent i)
        | outside he =>
          cases e with
          | join i => cases he
          | _ => trivial
        | _ => trivial
      · exact (hat.ties.same ha.logs).record a hpre.1
    · intro net v j e k net' hat ht hpre he
      exact hat.ties.same he.logs
    · intro net v j e hat hi
      exact hat.ties
    · intro net v j t r hat ht hready
      exact hat.ties
  obtain ⟨v, hv⟩ := P.reachable hkept hties h
  refine ⟨(hv.ties j).2, fun exit hexit => ?_⟩
  have hfollows := hv.follows j
  rw [hexit] at hfollows
  rw [← (hv.ties j).1]
  exact hfollows

end Reachable

end PipeIo
