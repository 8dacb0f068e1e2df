import PipeIo.Ends

namespace PipeIo
set_option autoImplicit true

open Lib

variable {X Y H σ ρ : Type} {n j : Nat} {c : StageFn X Y X}

/-- A worker that has ended owns no end any more. -/
structure Ends.Gone (n j : Nat) (v : Ends) : Prop where
  sender : j ≤ n → v.sender = false
  receiver : j < n → v.receiver = false
  done : j < n → v.done = false

section Task

/-- What holds of the ends after a round of a thread: it goes on, or it has ended. -/
def RoundEnds (n j : Nat) (I : σ → Ends → Prop) : σ ⊕ Exit → Ends → Prop
  | .inl s, v => I s v
  | .inr _, v => v.Gone n j

/-- A thread that uses an end only while it owns it, and owns none once it has ended. -/
def Task.Owns (t : Task X Y) (n j : Nat) : Prop :=
  ∃ I : t.S → Ends → Prop, I t.init .start ∧ ∀ s v, I s v →
    (t.round s).wp (owning n j) (RoundEnds n j I) v

theorem Task.owns_repeating {I J : σ → Ends → Prop} {init : σ}
    {x : Code X Y Empty σ (Option Exit)} {drop : Code X Y Empty σ Unit} (hinit : I init .start)
    (hx : ∀ s v, I s v → Act.wp (owning n j) x
      (fun r s' v' => (r = .ok none → I s' v') ∧ J s' v') s v)
    (hdrop : ∀ s v, J s v → Act.wp (owning n j) drop (fun _ _ v' => v'.Gone n j) s v) :
    (Task.repeating init x drop).Owns n j := by
  refine ⟨I, hinit, fun s v hI => ?_⟩
  refine (Prog.wp_bind ..).2 (Prog.wp_mono (hx s v hI) ?_)
  rintro ⟨r, s'⟩ v' ⟨hgo, hend⟩
  have hdropped := hdrop s' v' hend
  rcases r with (_ | exit) | e | _
  · exact hgo rfl
  · exact (Prog.wp_bind ..).2 hdropped
  · exact e.elim
  · exact (Prog.wp_bind ..).2 hdropped

/-- A loop that keeps `I` all along. -/
theorem Retains.goes {I : σ → Ends → Prop} {x : Code X Y Empty σ (Option Exit)}
    (hx : Retains n j I x) (s : σ) (v : Ends) (hI : I s v) :
    Act.wp (owning n j) x (fun r s' v' => (r = .ok none → I s' v') ∧ I s' v') s v :=
  Act.wp_mono (hx s v hI) fun _ _ _ h => ⟨fun _ => h.1, h.1⟩

end Task

section First

variable {K : Ends → Prop}

theorem retains_offer (error : Error) (observer : Bool) :
    Retains n j (fun _ => K) (FirstError.offer error observer : Code X Y H FirstError Unit) := by
  refine Act.Preserves.get.bind fun first => ?_
  cases first with
  | none => exact Act.Preserves.modify fun _ _ h => h
  | some e => exact retains_emitEvent _ _

theorem retains_offer_result (result : Except Error Unit) (observer : Bool) :
    Retains n j (fun _ => K)
      (FirstError.offer_result result observer : Code X Y H FirstError Unit) := by
  rcases result with e | ⟨⟨⟩⟩
  · exact retains_offer e observer
  · exact Act.Preserves.pure ()

theorem retains_offer_halt (result : Except Halt Unit) (observer : Bool) :
    Retains n j (fun _ => K)
      (FirstError.offer_halt result observer : Code X Y H FirstError Unit) := by
  rcases result with (e | _) | ⟨⟨⟩⟩
  · exact retains_offer e observer
  · exact Act.Preserves.pure ()
  · exact Act.Preserves.pure ()

/-- A call of the dead-letter sink, with what is made of its result. -/
theorem retains_letter {op : DeadLetterOp} {x : Except BoxError Unit → Code X Y Error Dlq Unit}
    (hok : Retains n j (fun _ => K) (x (.ok ())))
    (herror : ∀ e, Retains n j (fun _ => K) (x (.error e))) :
    Retains n j (fun _ => K) (request (.deadLetter op) >>= fun a => outcome a >>= x) := by
  refine (retains_request _ (by trivial)).bind fun a => (retains_outcome a).bind fun r => ?_
  cases r with
  | ok u => exact hok
  | error e => exact herror e

theorem retains_dlq_call (op : DeadLetterOp) :
    Retains n j (fun _ => K) (Dlq.call op : Code X Y Error Dlq Unit) := by
  have hok : Retains n j (fun _ => K) (pure () : Code X Y Error Dlq Unit) := Act.Preserves.pure ()
  have herror : ∀ e, Retains n j (fun _ => K) (Act.halt (Dlq.fail e) : Code X Y Error Dlq Unit) :=
    fun e => Act.Preserves.halt trivial
  refine Act.Preserves.get.bind fun d => ?_
  rcases d with _ | ⟨flushed, closed⟩
  · cases op <;> exact hok
  cases op with
  | write failure => exact retains_letter hok herror
  | flush =>
    cases flushed with
    | true => exact hok
    | false =>
      exact Act.Preserves.bind (Act.Preserves.modify fun _ _ h => h)
        fun _ => retains_letter hok herror
  | close =>
    cases closed with
    | true => exact hok
    | false =>
      exact Act.Preserves.bind (Act.Preserves.modify fun _ _ h => h)
        fun _ => retains_letter hok herror

theorem retains_dlq_finish (observer : Bool) :
    Retains n j (fun _ => K) (Dlq.finish observer : Code X Y Error Dlq Unit) := by
  refine (retains_dlq_call .flush).attempt.bind fun flushed => ?_
  refine (retains_dlq_call .close).attempt.bind fun closed => ?_
  rcases flushed with e | ⟨⟨⟩⟩ <;> rcases closed with e' | ⟨⟨⟩⟩
  · exact (retains_emitEvent _ _).bind fun _ => Act.Preserves.halt trivial
  · exact Act.Preserves.halt trivial
  · exact Act.Preserves.halt trivial
  · exact Act.Preserves.pure ()

end First

namespace ChannelSegment

/-- The ends a segment owns. -/
structure Owns (s : ChannelSegment σ) (v : Ends) : Prop where
  receiver : v.receiver = s.rx
  sender : v.sender = true

abbrev OwnsBeside (s : ChannelSegment σ × ρ) (v : Ends) : Prop := s.1.Owns v

theorem retains_chainFn (hc : c.Owns n j) (op : StageOp X) :
    Retains n j Owns (chainFn c op) := by
  refine (retains_note _).bind fun _ => ?_
  have hcall : Retains n j Owns
      (Act.zoom (fun s => (s.chain, s.ctx)) (fun t s => { s with chain := t.1, ctx := t.2 })
        (c.call op)) := by
    intro s v hs
    refine (Act.wp_zoom ..).2 (Act.wp_mono (hc op (s.chain, s.ctx) v hs.sender) ?_)
    intro r t v' h
    obtain rfl : v' = v := h.1
    exact ⟨⟨hs.receiver, hs.sender⟩, fun _ _ => trivial⟩
  refine hcall.attempt.bind fun r => ?_
  cases r with
  | ok written => exact Act.Preserves.pure written
  | error halt => exact (retains_note _).bind fun _ => Act.Preserves.halt trivial

theorem retains_recv (hj : j < n) (idle_tick : Option Duration) :
    Retains n j Owns (recv idle_tick : Code X Y H (ChannelSegment σ) _) := by
  intro s v hs
  simp only [recv, Act.wp_bind, Act.wp_get, Act.next_ok]
  split
  · rename_i hrx
    refine (Act.wp_bind ..).2 ⟨⟨hs.receiver.trans hrx, hj⟩, fun r v' h => ?_⟩
    obtain rfl : v' = v := h
    cases r with
    | msg op => exact ⟨hs, fun _ _ => trivial⟩
    | timedOut => exact (retains_emitEvent _ _).bind (fun _ => Act.Preserves.pure _) s v' hs
    | disconnected => exact ⟨hs, fun _ _ => trivial⟩
  · exact ⟨hs, fun _ _ => trivial⟩

theorem wp_drop_rx_ends (hj : j < n) {s : ChannelSegment σ} {v : Ends} (hs : s.Owns v)
    {Q : Res H Unit → ChannelSegment σ → Ends → Prop}
    (hQ : ∀ s' v', s'.Owns v' → v'.receiver = false → Q (.ok ()) s' v') :
    Act.wp (owning n j) (drop_rx : Code X Y H (ChannelSegment σ) Unit) Q s v := by
  simp only [drop_rx, Act.wp_bind, Act.wp_get, Act.next_ok]
  split
  · rename_i hrx
    refine (Act.wp_bind ..).2 ⟨⟨hs.receiver.trans hrx, hj⟩, fun _ v' h => ?_⟩
    obtain rfl : v' = { v with receiver := false } := h
    exact hQ _ _ ⟨rfl, hs.sender⟩ rfl
  · rename_i hrx
    exact hQ s v hs (hs.receiver.trans (Bool.eq_false_iff.2 hrx))

theorem retains_drop_rx (hj : j < n) :
    Retains n j Owns (drop_rx : Code X Y H (ChannelSegment σ) Unit) := fun _ _ hs =>
  wp_drop_rx_ends hj hs fun _ _ hs' _ => ⟨hs', fun _ _ => trivial⟩

theorem retains_abort (hc : c.Owns n j)
    {offer : Error → Bool → Code X Y H (ChannelSegment c.σ × ρ) Unit}
    (hoffer : ∀ e b, Retains n j OwnsBeside (offer e b)) :
    Retains n j OwnsBeside (abort c offer) := by
  have hlive : ∀ (s : ChannelSegment c.σ × ρ) (v : Ends), OwnsBeside s v →
      OwnsBeside ({ s.1 with live := false }, s.2) v := fun _ _ h => ⟨h.receiver, h.sender⟩
  refine Act.Preserves.bind (Act.Preserves.modify hlive) fun _ => ?_
  refine (Act.Preserves.zoom (J := Owns) (fun _ _ h => h) (fun _ _ _ _ _ h => h)
    (retains_chainFn hc .abort)).attempt.bind fun r => ?_
  rcases r with (e | _) | written
  · exact Act.Preserves.get.bind fun _ => hoffer _ _
  · exact Act.Preserves.pure ()
  · exact Act.Preserves.pure ()

theorem retains_abort_run (hc : c.Owns n j) : Retains n j Owns (abort_run (H := H) c) :=
  Act.Preserves.zoom (J := OwnsBeside) (fun _ _ h => h) (fun _ _ _ _ _ h => h)
    (retains_abort hc fun e b => retains_shared_offer e b)

theorem retains_run (hc : c.Owns n j) (hj : j < n) (idle_tick : Option Duration) :
    Retains n j Owns (run (H := H) c idle_tick) := by
  have htally : Retains n j Owns (do
      pure (some (← Act.get).ctx.tally) : Code X Y H (ChannelSegment c.σ) (Option Tally)) :=
    Act.Preserves.get.bind fun _ => Act.Preserves.pure _
  refine (retains_recv hj idle_tick).bind fun op => ?_
  cases op with
  | none => exact (retains_drop_rx hj).bind fun _ => (retains_abort_run hc).bind fun _ => htally
  | some op =>
    refine (retains_chainFn hc op).attempt.bind fun r => ?_
    cases r with
    | ok written =>
      refine Act.Preserves.bind (Act.Preserves.modify fun _ _ h => ⟨h.receiver, h.sender⟩)
        fun _ => ?_
      split
      · exact Act.Preserves.bind (Act.Preserves.modify fun _ _ h => ⟨h.receiver, h.sender⟩)
          fun _ => htally
      · exact Act.Preserves.pure none
    | error halt =>
      have hend : Retains n j Owns (do
          if op.closing then Act.modify fun s => { s with live := false }
          else abort_run c
          pure (some (← Act.get).ctx.tally) :
            Code X Y H (ChannelSegment c.σ) (Option Tally)) := by
        split
        · exact Act.Preserves.bind (Act.Preserves.modify fun _ _ h => ⟨h.receiver, h.sender⟩)
            fun _ => htally
        · exact (retains_abort_run hc).bind fun _ => htally
      refine (retains_drop_rx hj).bind fun _ => ?_
      cases halt with
      | failed e =>
        exact Act.Preserves.get.bind fun _ => (retains_shared_offer _ _).bind fun _ => hend
      | disconnected => exact hend

theorem wp_retries_ends (hc : c.Owns n j) (m : Nat) {s : ChannelSegment c.σ × FirstError}
    {v : Ends} (hs : OwnsBeside s v)
    {Q : Res Empty Unit → ChannelSegment c.σ × FirstError → Ends → Prop}
    (hQ : ∀ s' v', OwnsBeside s' v' → Q (.ok ()) s' v') :
    Act.wp (owning n j) (retries c m) Q s v := by
  induction m generalizing s v with
  | zero => exact hQ s v hs
  | succ m ih =>
    have hoffer : ∀ e b, Retains (X := X) (Y := Y) (H := Empty) n j OwnsBeside
        (Act.zoom Prod.snd (fun f (s : ChannelSegment c.σ × FirstError) => (s.1, f))
          (FirstError.offer e b)) :=
      fun e b => Act.Preserves.frame (fun _ _ _ h => h) fun _ => retains_offer e b
    refine (Act.wp_bind ..).2 ((retains_abort hc hoffer).wp_caught hs fun a s' v' hs' => ?_)
    cases a with
    | none => exact ih hs'
    | some u => exact hQ s' v' hs'

theorem wp_drop_segment_ends (hc : c.Owns n j) {s : ChannelSegment c.σ} {v : Ends} (hs : s.Owns v)
    {Q : Res Empty Unit → ChannelSegment c.σ → Ends → Prop}
    (hQ : ∀ s' v', s'.Owns v' → Q (.ok ()) s' v') :
    Act.wp (owning n j) (drop_segment c) Q s v := by
  simp only [drop_segment, Act.wp_bind, Act.wp_get, Act.next_ok]
  split
  · simp only [Act.wp_zoom, Act.wp_bind]
    refine wp_retries_ends hc 3 (s := (s, none)) hs fun s₁ v₁ hs₁ => ?_
    simp only [Act.next_ok, Act.wp_bind, Act.wp_get]
    split
    · exact hQ _ v₁ hs₁
    · simp only [Act.wp_bind, Act.wp_get, Act.next_ok]
      exact (retains_emitEvent _ _).wp_caught hs₁ fun _ s' v' hs' => hQ _ v' hs'
  · exact hQ s v hs

/-- A dropped segment owns nothing any more. -/
theorem wp_drop_ends (hc : c.Owns n j) (hj : j < n) {s : ChannelSegment c.σ} {v : Ends}
    (hs : s.Owns v) :
    Act.wp (owning n j) (drop c) (fun (_ : Res Empty Unit) _ v' => v'.Gone n j) s v := by
  refine (Act.wp_bind ..).2 (wp_drop_segment_ends hc hs fun s₁ v₁ hs₁ => ?_)
  rw [Act.next_ok]
  refine (Act.wp_bind ..).2 (wp_drop_rx_ends hj hs₁ fun s₂ v₂ hs₂ hrx => ?_)
  simp only [Act.next_ok, Act.wp_bind, Act.wp_perform]
  refine ⟨⟨hs₂.sender, Nat.le_of_lt hj⟩, fun _ v₃ h₃ => ⟨trivial, fun _ v₄ h₄ => ?_⟩⟩
  obtain rfl : v₃ = { v₂ with sender := false } := h₃
  obtain rfl : v₄ = { v₂ with sender := false, done := false } := h₄
  exact ⟨fun _ => rfl, fun _ => hrx, fun _ => rfl⟩

theorem task_owns (hc : c.Owns n j) (hj : j < n) (ctx : Ctx) (idle_tick : Option Duration) :
    (task c ctx idle_tick).Owns n j := by
  have hrun : Retains n j Owns (do
      let tally ← run (H := Empty) c idle_tick
      pure (tally.map fun t => Exit.finished t false)) :=
    (retains_run hc hj idle_tick).bind fun _ => Act.Preserves.pure _
  exact Task.owns_repeating (I := Owns) (J := Owns) ⟨rfl, rfl⟩ hrun.goes
    fun s v hs => wp_drop_ends hc hj hs

end ChannelSegment

namespace Runner

/-- The ends a runner owns: its chain is gone with the sender. -/
structure Owns (r : Runner σ) (v : Ends) : Prop where
  sender : v.sender = r.chain.isSome
  waits : r.segments_done = true → r.chain.isSome = true

abbrev OwnsBeside (s : Runner σ × ρ) (v : Ends) : Prop := s.1.Owns v

theorem retains_beside {x : Code X Y H (Runner σ) α} (hx : Retains n j Owns x) :
    Retains n j OwnsBeside
      (Act.zoom Prod.fst (fun r s => (r, s.2)) x : Code X Y H (Runner σ × ρ) α) :=
  Act.Preserves.zoom (fun _ _ h => h) (fun _ _ _ _ _ h => h) hx

theorem retains_chainFn (hc : c.Owns n j) (op : StageOp X) : Retains n j Owns (chainFn c op) := by
  refine (retains_note _).bind fun _ => ?_
  intro r v hr
  simp only [Act.wp_bind, Act.wp_get, Act.next_ok]
  cases hchain : r.chain with
  | none => exact ⟨hr, fun _ _ => trivial⟩
  | some s =>
    have hsender : v.sender = true := hr.sender.trans (by rw [hchain]; rfl)
    simp only [Act.wp_bind, Act.wp_attempt, Act.wp_zoom]
    refine Act.wp_mono (hc op (s, r.ctx) v hsender) fun res t v' h => ?_
    obtain rfl : v' = v := h.1
    have hr' : Owns { r with chain := some t.1, ctx := t.2 } v' := ⟨hsender, fun _ => rfl⟩
    cases res with
    | ok written => exact ⟨hr', fun _ _ => trivial⟩
    | panic => exact ⟨hr', fun _ _ => trivial⟩
    | halt halt => exact (retains_note _).bind (fun _ => Act.Preserves.halt trivial) _ v' hr'

theorem retains_call (hc : c.Owns n j) (op : StageOp X) : Retains n j Owns (call c op) :=
  (retains_chainFn hc op).bind fun _ => Act.Preserves.modify fun _ _ h => ⟨h.sender, h.waits⟩

theorem retains_pull (idle_tick : Option Duration) :
    Retains n j Owns (pull idle_tick : Code X Y Error (Runner σ) _) := by
  have hfail : ∀ e : BoxError, Retains n j Owns
      (do Act.halt (.source (← Act.get).source_id e) : Code X Y Error (Runner σ) (Pull X)) := by
    intro e
    exact Act.Preserves.get.bind fun _ => Act.Preserves.halt trivial
  cases idle_tick with
  | none =>
    refine (retains_request _ (by trivial)).bind fun a => (retains_outcome a).bind fun pulled => ?_
    cases pulled with
    | ok pulled => exact Act.Preserves.pure _
    | error e => exact hfail e
  | some timeout =>
    refine (retains_request _ (by trivial)).bind fun a => (retains_outcome a).bind fun pulled => ?_
    cases pulled with
    | ok pulled => exact Act.Preserves.pure pulled
    | error e => exact hfail e

theorem retains_step (hc : c.Owns n j) (idle_tick : Option Duration) :
    Retains n j Owns (step c idle_tick) := by
  refine ((retains_pull idle_tick).mapHalt fun _ _ => trivial).bind fun pulled => ?_
  cases pulled with
  | done => exact Act.Preserves.pure _
  | idle =>
    have htick : Retains n j Owns (tick c) :=
      Act.Preserves.get.bind fun _ => (retains_emitEvent _ _).bind fun _ => retains_call hc .tick
    exact htick.bind fun _ => Act.Preserves.pure _
  | item item =>
    refine Act.Preserves.bind (Act.Preserves.modify fun _ _ h => ⟨h.sender, h.waits⟩) fun _ => ?_
    exact (retains_call hc _).bind fun _ => Act.Preserves.pure _

theorem retains_round (hc : c.Owns n j) (idle_tick : Option Duration) (cancel : Bool) :
    Retains n j OwnsBeside (round (H := H) c idle_tick cancel) := by
  cases idle_tick with
  | none =>
    refine (retains_is_cancelled cancel).bind fun cancelled => ?_
    split
    · exact Act.Preserves.pure _
    refine (retains_request _ (by trivial)).bind fun a => (retains_outcome a).bind fun pulled => ?_
    rcases pulled with e | _ | item
    · exact Act.Preserves.get.bind fun _ => Act.Preserves.pure _
    · exact Act.Preserves.pure _
    · refine Act.Preserves.bind (Act.Preserves.modify fun _ _ h => ⟨h.sender, h.waits⟩) fun _ => ?_
      refine (retains_beside (retains_chainFn hc _)).attempt.bind fun r => ?_
      cases r with
      | error halt => exact Act.Preserves.pure _
      | ok n =>
        refine Act.Preserves.bind (Act.Preserves.modify fun _ _ h => ⟨h.sender, h.waits⟩)
          fun _ => ?_
        exact Act.Preserves.pure none
  | some timeout =>
    refine retains_beside ((retains_is_cancelled cancel).bind fun cancelled => ?_)
    split
    · exact Act.Preserves.pure _
    refine (retains_step hc _).attempt.bind fun r => ?_
    rcases r with halt | _ | _ | _ <;> exact Act.Preserves.pure _

theorem retains_onFirst {x : Bool → Code X Y H FirstError Unit}
    (hx : ∀ b (K : Ends → Prop), Retains n j (fun _ => K) (x b)) :
    Retains n j OwnsBeside (onFirst (σ := σ) x) :=
  Act.Preserves.get.bind fun s => Act.Preserves.frame (fun _ _ _ h => h) (hx s.1.ctx.observer)

theorem retains_onDlq {x : Bool → Code X Y H Dlq α}
    (hx : ∀ b (K : Ends → Prop), Retains n j (fun _ => K) (x b)) :
    Retains n j OwnsBeside (onDlq (σ := σ) x) :=
  Act.Preserves.get.bind fun s =>
    Act.Preserves.frame (fun _ _ _ h => ⟨h.sender, h.waits⟩) (hx s.1.ctx.observer)

/-- The sender is dropped before the wait. -/
theorem retains_wait_segments :
    Retains n n OwnsBeside (wait_segments : Code X Y H (Runner σ × FirstError) Unit) := by
  intro s v hs
  simp only [wait_segments, Act.wp_bind, Act.wp_get, Act.next_ok]
  split
  · rename_i hdone
    have hsender : v.sender = true := hs.sender.trans (hs.waits hdone)
    simp only [Act.wp_bind, Act.wp_modify, Act.next_ok, Act.wp_perform]
    refine ⟨⟨hsender, Nat.le_refl n⟩, fun _ v' h => ?_⟩
    obtain rfl : v' = { v with sender := false } := h
    refine ⟨⟨rfl, rfl⟩, fun _ v'' h => ⟨?_, fun _ _ => trivial⟩⟩
    obtain rfl : v'' = { v with sender := false } := h
    exact ⟨rfl, by simp⟩
  · exact ⟨hs, fun _ _ => trivial⟩

theorem retains_close_source :
    Retains n j OwnsBeside (close_source : Code X Y H (Runner σ × FirstError) Unit) := by
  refine Act.Preserves.get.bind fun s => ?_
  split
  · exact Act.Preserves.pure ()
  · refine Act.Preserves.bind (Act.Preserves.modify fun _ _ h => ⟨h.sender, h.waits⟩) fun _ => ?_
    refine (retains_request _ (by trivial)).bind fun a => (retains_outcome a).bind fun closed => ?_
    exact Act.Preserves.get.bind fun _ => retains_onFirst fun b K => retains_offer_result _ b

theorem retains_finish_dlq :
    Retains n j OwnsBeside (finish_dlq : Code X Y H (Runner σ × FirstError) Unit) := by
  refine Act.Preserves.get.bind fun s => ?_
  dsimp only
  split
  · refine (retains_onDlq fun b K => retains_dlq_finish b).attempt.bind fun finished => ?_
    refine Act.Preserves.bind (Act.Preserves.modify fun _ _ h => ⟨h.sender, h.waits⟩) fun _ => ?_
    exact retains_onFirst fun b K => retains_offer_result finished b
  · exact Act.Preserves.pure ()

/-- The second half of every teardown. -/
theorem retains_closed :
    Retains n n OwnsBeside (do
      close_rest
      Act.modify fun s => ({ s.1 with live := false }, s.2) :
        Code X Y H (Runner σ × FirstError) Unit) := by
  have hrest : Retains n n OwnsBeside (close_rest : Code X Y H (Runner σ × FirstError) Unit) :=
    retains_wait_segments.bind fun _ => retains_close_source.bind fun _ => retains_finish_dlq
  exact hrest.bind fun _ => Act.Preserves.modify fun _ _ h => ⟨h.sender, h.waits⟩

theorem retains_abort (hc : c.Owns n n) : Retains n n OwnsBeside (abort (H := H) c) := by
  refine (retains_beside (retains_call hc .abort)).attempt.bind fun aborted => ?_
  exact (retains_onFirst fun b K => retains_offer_halt aborted b).bind fun _ => retains_closed

theorem retains_finish (hc : c.Owns n n) : Retains n n OwnsBeside (finish (H := H) c) := by
  refine (retains_beside (retains_call hc .flush)).attempt.bind fun flushed => ?_
  rcases flushed with halt | ⟨⟨⟩⟩
  · refine (retains_onFirst fun b K => retains_offer_halt (.error halt) b).bind fun _ => ?_
    refine (retains_beside (retains_call hc .abort)).attempt.bind fun aborted => ?_
    exact (retains_onFirst fun b K => retains_offer_halt aborted b).bind fun _ => retains_closed
  · refine (retains_beside (retains_call hc .close)).attempt.bind fun closed => ?_
    exact (retains_onFirst fun b K => retains_offer_halt closed b).bind fun _ => retains_closed

theorem wp_retries_ends (hc : c.Owns n n) (m : Nat) {s : Runner c.σ × FirstError} {v : Ends}
    (hs : OwnsBeside s v) {Q : Res Empty Unit → Runner c.σ × FirstError → Ends → Prop}
    (hQ : ∀ s' v', OwnsBeside s' v' → Q (.ok ()) s' v') :
    Act.wp (owning n n) (retries c m) Q s v := by
  induction m generalizing s v with
  | zero => exact hQ s v hs
  | succ m ih =>
    simp only [retries, Act.wp_bind, Act.wp_get, Act.next_ok]
    split
    · refine (Act.wp_bind ..).2 ((retains_abort hc).wp_caught hs fun a s' v' hs' => ?_)
      exact ih hs'
    · exact hQ s v hs

theorem wp_drop_ends (hc : c.Owns n n) {r : Runner c.σ} {v : Ends} (hr : r.Owns v)
    {Q : Res Empty Unit → Runner c.σ → Ends → Prop} (hQ : ∀ r' v', r'.Owns v' → Q (.ok ()) r' v') :
    Act.wp (owning n n) (drop c) Q r v := by
  simp only [drop, Act.wp_bind, Act.wp_get, Act.next_ok]
  split
  · simp only [Act.wp_zoom, Act.wp_bind]
    refine wp_retries_ends hc 6 (s := (r, none)) hr fun s v₁ hs => ?_
    simp only [Act.next_ok, Act.wp_bind, Act.wp_get]
    split
    · exact hQ _ v₁ hs
    · simp only [Act.wp_bind, Act.wp_get, Act.next_ok]
      exact (retains_emitEvent _ _).wp_caught hs fun _ s' v' hs' => hQ _ v' hs'
  · exact hQ r v hr

end Runner

section Source

theorem retains_source_end (hc : c.Owns n n) («end» : PumpEnd) :
    Retains n n Runner.Owns (source_end (H := H) c «end») := by
  refine Act.Preserves.zoom (J := Runner.OwnsBeside) (fun _ _ h => h) (fun _ _ _ _ _ h => h) ?_
  cases «end»
  case' graceful => refine (Runner.retains_finish hc).bind fun _ => ?_
  case' cancelled => refine (Runner.retains_finish hc).bind fun _ => ?_
  case' failed e =>
    refine Act.Preserves.get.bind fun _ => (retains_shared_offer _ _).bind fun _ => ?_
    refine (Runner.retains_abort hc).bind fun _ => ?_
  case' disconnected => refine (Runner.retains_abort hc).bind fun _ => ?_
  -- whatever the end was, the error of the teardown is offered last
  all_goals
    refine Act.Preserves.get.bind fun s => ?_
    dsimp only
    split
    · exact retains_shared_offer _ _
    · exact Act.Preserves.pure ()

theorem retains_source_loop (hc : c.Owns n n) (idle_tick : Option Duration) (cancel : Bool) :
    Retains n n Runner.OwnsBeside (source_loop (H := H) c idle_tick cancel) := by
  refine (Runner.retains_round hc idle_tick cancel).bind fun «end» => ?_
  cases «end» with
  | none => exact Act.Preserves.pure _
  | some «end» =>
    refine Act.Preserves.bind (Act.Preserves.modify fun _ _ h => ⟨h.sender, h.waits⟩) fun _ => ?_
    refine (Runner.retains_beside (retains_source_end hc «end»)).bind fun _ => ?_
    exact Act.Preserves.get.bind fun _ => Act.Preserves.pure _

/-- A dropped source owns nothing any more. -/
theorem wp_drop_source_ends (hc : c.Owns n n) {r : Runner c.σ} {v : Ends} (hr : r.Owns v) :
    Act.wp (owning n n) (drop_source c) (fun (_ : Res Empty Unit) _ v' => v'.Gone n n) r v := by
  have hgone : ∀ v : Ends, v.sender = false → v.Gone n n := by
    intro v hv
    exact ⟨fun _ => hv, fun h => absurd h (Nat.lt_irrefl n), fun h => absurd h (Nat.lt_irrefl n)⟩
  refine (Act.wp_bind ..).2 (Runner.wp_drop_ends hc hr fun r' v' hr' => ?_)
  simp only [Act.next_ok, Act.wp_bind, Act.wp_get]
  cases hchain : r'.chain with
  | none => exact hgone v' (hr'.sender.trans (by rw [hchain]; rfl))
  | some s =>
    have hsender : v'.sender = true := hr'.sender.trans (by rw [hchain]; rfl)
    refine ⟨⟨hsender, Nat.le_refl n⟩, fun _ v'' h => ?_⟩
    obtain rfl : v'' = { v' with sender := false } := h
    exact hgone _ rfl

theorem source_task_owns (hc : c.Owns n n) (source_id : StageId) (ctx : Ctx)
    (idle_tick : Option Duration) (cancel : Bool) :
    (source_task c source_id ctx idle_tick cancel).Owns n n :=
  Task.owns_repeating (I := Runner.OwnsBeside) (J := Runner.OwnsBeside) ⟨rfl, fun _ => rfl⟩
    (retains_source_loop hc idle_tick cancel).goes fun _ _ hs =>
      (Act.wp_zoom ..).2 (wp_drop_source_ends hc hs)

end Source

namespace Threaded

/-- The calling thread has spawned the first `m` threads. -/
abbrev Spawned (m : Nat) (_ : σ) (v : Ends) : Prop := v.spawned = m

theorem wp_spawn (hj : n < j) {m : Nat} (hm : m ≤ n) {s : σ} {v : Ends} (hv : v.spawned = m)
    {Q : Res H Unit → σ → Ends → Prop} (hQ : ∀ v', v'.spawned = m + 1 → Q (.ok ()) s v') :
    Act.wp (owning n j) (request (.spawn m) : Code X Y H σ Unit) Q s v := by
  refine ⟨⟨hv.symm, hm, hj⟩, fun _ v' h => hQ v' ?_⟩
  obtain rfl : v' = { v with spawned := v.spawned + 1 } := h
  exact congrArg Nat.succ hv

theorem wp_spawn_segments (hj : n < j) {m : Nat} (hm : m ≤ n) {s : σ} {v : Ends}
    (hv : v.spawned = 0)
    {Q : Res H Unit → σ → Ends → Prop} (hQ : ∀ v', v'.spawned = m → Q (.ok ()) s v') :
    Act.wp (owning n j) (spawn_segments m : Code X Y H σ Unit) Q s v := by
  induction m generalizing Q with
  | zero => exact hQ v hv
  | succ m ih =>
    refine (Act.wp_bind ..).2 (ih (Nat.le_of_succ_le hm) fun v' hv' => ?_)
    exact wp_spawn hj (Nat.le_of_succ_le hm) hv' hQ

theorem retains_join (hj : n < j) {f : Exit → Joined → Joined} {i : Nat} (hi : i ≤ n) :
    Retains n j (Spawned (n + 1)) (do
      let exit ← request (.join i)
      Act.modify (f exit) : Code X Y H Joined Unit) := by
  intro s v hv
  refine ⟨⟨hv, hi, hj⟩, fun exit v' h => ⟨?_, fun _ _ => trivial⟩⟩
  obtain rfl : v' = v := h
  exact hv

theorem retains_join_workers (hj : n < j) {m : Nat} (hm : m ≤ n) :
    Retains n j (Spawned (n + 1)) (join_workers m : Code X Y H Joined Unit) := by
  induction m with
  | zero => exact Act.Preserves.pure ()
  | succ m ih =>
    exact (ih (Nat.le_of_succ_le hm)).bind fun _ => retains_join hj (Nat.le_of_succ_le hm)

theorem retains_join_all (hj : n < j) :
    Retains n j (Spawned (n + 1)) (join_all n : Code X Y H Joined Joined) := by
  have hsource : Retains n j (Spawned (n + 1)) (do
      let exit ← request (.join n)
      Act.modify (Joined.source exit) : Code X Y H Joined Unit) := retains_join hj (Nat.le_refl n)
  exact hsource.bind fun _ =>
    (retains_join_workers hj (Nat.le_refl n)).bind fun _ => Act.Preserves.get

theorem retains_conclude {K : Ends → Prop} (joined : Joined) (observer : Bool) :
    Retains n j (fun _ => K) (conclude joined observer : Code X Y H (Dlq × FirstError) _) := by
  have hfinish : Retains n j (fun _ => K) (Act.zoom Prod.fst (fun d s => (d, s.2))
      (Dlq.finish observer) : Code X Y Error (Dlq × FirstError) Unit) :=
    Act.Preserves.zoom (fun _ _ h => h) (fun _ _ _ _ _ h => h) (retains_dlq_finish observer)
  refine hfinish.attempt.bind fun finished => ?_
  have hoffer : Retains n j (fun _ => K) (Act.zoom Prod.snd (fun f s => (s.1, f))
      (FirstError.offer_result finished observer) : Code X Y H (Dlq × FirstError) Unit) :=
    Act.Preserves.zoom (fun _ _ h => h) (fun _ _ _ _ _ h => h)
      (retains_offer_result finished observer)
  refine hoffer.bind fun _ => ?_
  split
  · exact Act.Preserves.panic
  · exact Act.Preserves.get.bind fun _ => (retains_emitEvent _ _).bind fun _ => Act.Preserves.pure _

/-- The calling thread spawns all threads, and is done after one round. -/
theorem wp_run_ends (hj : n < j) (built : Built) {v : Ends} (hv : v.spawned = 0) :
    Act.wp (owning n j) (run n built : Code X Y H Unit (Option Exit))
      (fun r _ _ => r ≠ .ok none) () v := by
  have hstarted : Retains n j (fun (_ : Unit) v' => v' = v)
      (emitEvent built.observer .started : Code X Y H Unit Unit) := retains_emitEvent _ _
  refine (Act.wp_bind ..).2 (Act.wp_mono (hstarted () v rfl) fun r _ v₁ h₁ => ?_)
  obtain ⟨rfl, -⟩ := h₁
  cases r with
  | halt e => simp
  | panic => simp
  | ok u =>
    rw [Act.next_ok]
    refine (Act.wp_bind ..).2 (wp_spawn_segments hj (Nat.le_refl n) hv fun v₂ hv₂ => ?_)
    rw [Act.next_ok]
    refine (Act.wp_bind ..).2 (wp_spawn hj (Nat.le_refl n) hv₂ fun v₃ hv₃ => ?_)
    rw [Act.next_ok]
    refine (Act.wp_bind ..).2 ((Act.wp_withLocal ..).2 ?_)
    refine Act.wp_mono (retains_join_all hj Joined.default v₃ hv₃) fun r _ v₄ _ => ?_
    cases r with
    | halt e => simp
    | panic => simp
    | ok joined =>
      simp only [Act.wp_pure, Act.next_ok, Act.wp_bind, Act.wp_perform, Act.wp_withLocal]
      refine ⟨trivial, fun first v₅ _ => ?_⟩
      refine Act.wp_mono (retains_conclude (K := fun _ => True) joined built.observer
        (Dlq.new built.dead_letter, first) v₅ trivial) fun r _ v₆ _ => ?_
      cases r <;> simp

theorem task_owns (hj : n < j) (built : Built) : (task n built : Task X Y).Owns n j := by
  have hgone : ∀ v : Ends, v.Gone n j := by
    intro v
    constructor <;> intro h <;> omega
  refine Task.owns_repeating (I := fun _ v => v.spawned = 0) (J := fun _ _ => True) rfl
    (fun s v hv => ?_) fun _ v _ => hgone v
  refine Act.wp_mono (wp_run_ends hj built hv) fun r _ _ h => ⟨fun hr => absurd hr h, trivial⟩

end Threaded

/-- Every thread of a threaded run uses the ends it owns, and only those. -/
theorem ThreadedWiring.task_owns {Ty : Nat → Type} (w : ThreadedWiring Ty) (j : Nat) :
    (w.task j).Owns w.n j := by
  unfold ThreadedWiring.task
  split
  · rename_i hlt
    exact ChannelSegment.task_owns (w.chain_owns (Nat.le_of_lt hlt)) hlt _ _
  · split
    · rename_i heq
      subst heq
      exact source_task_owns (w.chain_owns (Nat.le_refl w.n)) _ _ _ _
    · have hj : w.n < j := by omega
      exact Threaded.task_owns hj w.built

end PipeIo
