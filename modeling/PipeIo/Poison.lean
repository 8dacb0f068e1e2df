import PipeIo.Course

namespace PipeIo
set_option autoImplicit true

open Lib

/-- A call of user code made by the teardown, or a call of the observer, panicked. -/
def breaks : (e : Eff X Y) → Ans e → Bool
  | .flush, none | .close, none | .closeSource, none | .deadLetter .flush, none
  | .deadLetter .close, none | .observe _, none => true
  | _, _ => false

/-- Whether the teardown was broken by a panic so far. -/
def watch : Spec (Eff X Y) Ans Bool where
  pre _ _ := True
  post e w a w' := w' = (w || breaks e a)

def Log.broken (log : Log X Y) : Bool := log.any fun a => breaks a.1 a.2

theorem Oracle.keeps_watch (o : Oracle X Y) :
    Prog.Keeps watch (fun log w => w = Log.broken log) o.handler := by
  rintro e log w rfl -
  refine ⟨_, rfl, ?_⟩
  simp [Log.broken, Oracle.handler]

/-- Code of the teardown: it keeps `I`, and panics only if user code does. -/
def Careful (I : σ → Prop) (x : Code X Y H σ α) : Prop :=
  ∀ s w, I s → Act.wp watch x (fun res s' w' =>
    I s' ∧ (w = true → w' = true) ∧ (res = .panic → w' = true)) s w

section Careful

variable {X Y H H' σ τ α β : Type} {I : σ → Prop}

theorem Careful.pure (a : α) : Careful I (pure a : Code X Y H σ α) :=
  fun _ _ hI => ⟨hI, id, nofun⟩

theorem Careful.get : Careful I (Act.get : Code X Y H σ σ) := fun _ _ hI => ⟨hI, id, nofun⟩

theorem Careful.halt (h : H) : Careful I (Act.halt h : Code X Y H σ α) :=
  fun _ _ hI => ⟨hI, id, nofun⟩

theorem Careful.modify {f : σ → σ} (hf : ∀ s, I s → I (f s)) :
    Careful I (Act.modify f : Code X Y H σ Unit) := fun s _ hI => ⟨hf s hI, id, nofun⟩

theorem Careful.bind {x : Code X Y H σ α} {k : α → Code X Y H σ β} (hx : Careful I x)
    (hk : ∀ a, Careful I (k a)) : Careful I (x >>= k) := by
  intro s w hI
  refine (Act.wp_bind ..).2 (Act.wp_mono (hx s w hI) fun res s' w' h => ?_)
  cases res with
  | halt e => exact ⟨h.1, h.2.1, nofun⟩
  | panic => exact ⟨h.1, h.2.1, fun _ => h.2.2 rfl⟩
  | ok a =>
    rw [Act.next_ok]
    refine Act.wp_mono (hk a s' w' h.1) fun res s'' w'' h' => ?_
    exact ⟨h'.1, fun hw => h'.2.1 (h.2.1 hw), h'.2.2⟩

theorem Careful.attempt {x : Code X Y H σ α} (hx : Careful I x) :
    Careful I (Act.attempt x : Code X Y H' σ (Except H α)) := by
  intro s w hI
  refine (Act.wp_attempt _).2 (Act.wp_mono (hx s w hI) fun res s' w' h => ?_)
  cases res with
  | ok a => exact ⟨h.1, h.2.1, nofun⟩
  | halt e => exact ⟨h.1, h.2.1, nofun⟩
  | panic => exact ⟨h.1, h.2.1, fun _ => h.2.2 rfl⟩

/-- On a part of the state that `I` does not look at. -/
theorem Careful.zoom {get : σ → τ} {set : τ → σ → σ} {x : Code X Y H τ α}
    (hset : ∀ t s, I s → I (set t s)) (hx : Careful (fun _ => True) x) :
    Careful I (Act.zoom get set x) := fun s w hI =>
  (Act.wp_zoom ..).2 (Act.wp_mono (hx (get s) w trivial) fun _ _ _ h => ⟨hset _ s hI, h.2⟩)

theorem Careful.request {e : Eff X Y} : Careful I (request e : Code X Y H σ (Ans e)) :=
  fun _ w hI => ⟨trivial, fun a w' ha => ⟨hI, fun hw => by simp [show w' = _ from ha, hw], nofun⟩⟩

/-- A panic of this call is one that breaks the teardown. -/
theorem Careful.call {e : Eff X Y} {ε : Type} {f : Ans e → Option ε}
    (he : ∀ a, f a = none → breaks e a = true) {k : ε → Code X Y H σ α}
    (hk : ∀ a, Careful I (k a)) :
    Careful I (PipeIo.request e >>= fun a => outcome (f a) >>= k) := by
  refine fun s w hI => (Act.wp_bind ..).2 ((Act.wp_perform _).2 ⟨trivial, fun a w' ha => ?_⟩)
  obtain rfl : w' = (w || breaks e a) := ha
  rw [Act.next_ok]
  cases hfa : f a with
  | none => exact ⟨hI, fun hw => by simp [hw], fun _ => by simp [he a hfa]⟩
  | some r =>
    refine Act.wp_mono (hk r s _ hI) fun res s' w' h => ⟨h.1, fun hw => h.2.1 ?_, h.2.2⟩
    simp [hw]

theorem careful_emitEvent (b : Bool) (event : Event) :
    Careful I (emitEvent b event : Code X Y H σ Unit) := by
  cases b with
  | false => exact Careful.pure ()
  | true =>
    refine fun s w hI => (Act.wp_bind ..).2 ((Act.wp_perform _).2 ⟨trivial, fun a w' ha => ?_⟩)
    obtain rfl : w' = (w || breaks (.observe event) a) := ha
    rw [Act.next_ok]
    cases a with
    | none => exact ⟨hI, fun hw => by simp [hw], fun _ => by simp [breaks]⟩
    | some u => exact ⟨hI, fun hw => by simp [hw], nofun⟩

theorem careful_dlq_call {op : DeadLetterOp} (hop : ∀ f, op ≠ .write f) :
    Careful (fun _ => True) (Dlq.call op : Code X Y Error Dlq Unit) := by
  refine Careful.bind Careful.get fun d => ?_
  cases op with
  | write f => exact absurd rfl (hop f)
  | flush =>
    rcases d with _ | ⟨_ | _, closed⟩
    · exact Careful.pure ()
    · refine Careful.bind (Careful.modify fun _ => id) fun _ => ?_
      refine Careful.call (e := .deadLetter .flush) (f := id) (fun a ha => ?_) fun r => ?_
      · subst ha
        rfl
      · cases r with
        | ok u => exact Careful.pure ()
        | error e => exact Careful.halt _
    · exact Careful.pure ()
  | close =>
    rcases d with _ | ⟨flushed, _ | _⟩
    · exact Careful.pure ()
    · refine Careful.bind (Careful.modify fun _ => id) fun _ => ?_
      refine Careful.call (e := .deadLetter .close) (f := id) (fun a ha => ?_) fun r => ?_
      · subst ha
        rfl
      · cases r with
        | ok u => exact Careful.pure ()
        | error e => exact Careful.halt _
    · exact Careful.pure ()

theorem careful_dlq_finish (b : Bool) :
    Careful (fun _ => True) (Dlq.finish b : Code X Y Error Dlq Unit) := by
  refine Careful.bind (Careful.attempt (careful_dlq_call nofun)) fun flushed => ?_
  refine Careful.bind (Careful.attempt (careful_dlq_call nofun)) fun closed => ?_
  match flushed, closed with
  | .error first, .error second =>
    exact Careful.bind (careful_emitEvent b _) fun _ => Careful.halt first
  | .error e, .ok () => exact Careful.halt e
  | .ok (), .error e => exact Careful.halt e
  | .ok (), .ok () => exact Careful.pure ()

theorem careful_offer (e : Error) (b : Bool) :
    Careful (fun f => f.isSome) (FirstError.offer e b : Code X Y H FirstError Unit) := by
  rintro (_ | first) w hf
  · cases hf
  · exact careful_emitEvent (I := fun f : FirstError => f.isSome) b (.teardownError e) _ w hf

theorem careful_offer_result (r : Except Error Unit) (b : Bool) :
    Careful (fun f => f.isSome) (FirstError.offer_result r b : Code X Y H FirstError Unit) :=
  match r with
  | .ok () => Careful.pure ()
  | .error e => careful_offer e b

theorem careful_offer_halt (r : Except Halt Unit) (b : Bool) :
    Careful (fun f => f.isSome) (FirstError.offer_halt r b : Code X Y H FirstError Unit) :=
  match r with
  | .ok () | .error .disconnected => Careful.pure ()
  | .error (.failed e) => careful_offer e b

/-- What the failing end of a run keeps: its first error. -/
def Failing (s : Runner σ × FirstError) : Prop := s.2.isSome

theorem Careful.onFirst {x : Bool → Code X Y H FirstError Unit}
    (hx : ∀ b, Careful (fun f => f.isSome) (x b)) :
    Careful Failing (Runner.onFirst x : Code X Y H (Runner σ × FirstError) Unit) := by
  refine Careful.bind Careful.get fun s => fun s w hI => (Act.wp_zoom ..).2 ?_
  exact Act.wp_mono (hx _ s.2 w hI) fun _ _ _ h => h

theorem careful_close_rest :
    Careful Failing (Runner.close_rest : Code X Y H (Runner σ × FirstError) Unit) := by
  refine Careful.bind ?_ fun _ => Careful.bind ?_ fun _ => ?_
  · refine Careful.bind Careful.get fun s => ?_
    split
    · refine Careful.bind (Careful.modify fun _ => id) fun _ => ?_
      exact Careful.bind Careful.request fun _ => Careful.request
    · exact Careful.pure ()
  · refine Careful.bind Careful.get fun s => ?_
    split
    · exact Careful.pure ()
    · refine Careful.bind (Careful.modify fun _ => id) fun _ => ?_
      refine Careful.call (e := .closeSource) (f := id) (fun | none, _ => rfl) fun closed => ?_
      exact Careful.bind Careful.get fun s =>
        Careful.onFirst fun b => careful_offer_result _ b
  · refine Careful.bind Careful.get fun s => ?_
    dsimp only
    split
    · refine Careful.bind (Careful.attempt (Careful.bind Careful.get fun s => ?_)) fun _ => ?_
      · exact Careful.zoom (fun _ _ => id) (careful_dlq_finish _)
      · refine Careful.bind (Careful.modify fun _ => id) fun _ => ?_
        exact Careful.onFirst fun b => careful_offer_result _ b
    · exact Careful.pure ()

end Careful

/-- A chain panics in `Abort` only if the sink or the observer does. -/
def abortRules : Rules Unit Bool where
  pre _ _ _ := True
  post k r _ w _ w' := (w = true → w' = true) ∧ (k = some .abort → r = .panic → w' = true)

theorem abortRules_lawful : abortRules.Lawful (watch (X := X) (Y := Y)) where
  quiet _ _ := ⟨trivial, fun a w' ha => ⟨fun hw => by simp [show w' = _ from ha, hw], nofun⟩⟩
  refl _ := ⟨id, nofun⟩
  item _ _ := trivial
  keep _ _ _ := trivial
  seq hk h h' := ⟨fun hw => h'.1 (h.1 hw), fun he => by subst he; cases hk⟩
  fail h := ⟨h.1, nofun⟩
  crash h := ⟨h.1, nofun⟩
  lift hk h _ := ⟨h.1, fun he => by subst he; cases hk⟩

theorem careful_flushOnce (id : StageId) :
    Careful (fun s => s.2 = ctx) (flushOnce id : Code X Y Halt (SinkFlags × Ctx) Unit) := by
  refine Careful.bind Careful.get fun s => ?_
  split
  · exact Careful.pure ()
  · refine Careful.bind (Careful.modify fun _ => fun h => h) fun _ => ?_
    refine Careful.call (e := .flush) (f := fun a => a) (fun | none, _ => rfl) ?_
    rintro (e | ⟨⟨⟩⟩)
    · exact Careful.halt _
    · exact Careful.pure ()

theorem careful_closeOnce (id : StageId) :
    Careful (fun s => s.2 = ctx) (closeOnce id : Code X Y Halt (SinkFlags × Ctx) Unit) := by
  refine Careful.bind Careful.get fun s => ?_
  split
  · exact Careful.pure ()
  · refine Careful.bind (Careful.modify fun _ => fun h => h) fun _ => ?_
    refine Careful.call (e := .close) (f := fun a => a) (fun | none, _ => rfl) ?_
    rintro (e | ⟨⟨⟩⟩)
    · exact Careful.halt _
    · exact Careful.pure ()

theorem careful_sink_abort (id : StageId) :
    Careful (fun s => s.2 = ctx) ((sink_fn (X := X) (Y := Y) id).call .abort) := by
  refine Careful.bind (Careful.attempt (careful_flushOnce id)) fun flushed => ?_
  refine Careful.bind (Careful.attempt (careful_closeOnce id)) fun closed => ?_
  match flushed, closed with
  | .error first, .error (.failed second) =>
    exact Careful.bind Careful.get fun s =>
      Careful.bind (careful_emitEvent _ _) fun _ => Careful.halt first
  | .error e, .ok () => exact Careful.halt e
  | .error e, .error .disconnected => exact Careful.halt e
  | .ok (), .error e => exact Careful.halt e
  | .ok (), .ok () => exact Careful.pure 0

theorem sink_fn_abort (id : StageId) :
    (sink_fn (X := X) (Y := Y) id).Obeys watch abortRules fun _ => () := by
  rintro op ⟨t, ctx⟩ w -
  have hcareful : ∀ {k x}, Careful (fun s => s.2 = ctx) x →
      Act.wp (watch (X := X) (Y := Y)) x (fun res s' w' =>
        abortRules.post k res () w () w' ∧ Ctx.Kept ctx s'.2) (t, ctx) w := fun hx =>
    Act.wp_mono (hx (t, ctx) w rfl) fun res s' w' h => ⟨⟨h.2.1, fun _ => h.2.2⟩, h.1 ▸ Ctx.Kept.refl _⟩
  cases op with
  | tick => exact hcareful (Careful.pure 0)
  | flush => exact hcareful (Careful.bind (careful_flushOnce id) fun _ => Careful.pure 0)
  | close => exact hcareful (Careful.bind (careful_closeOnce id) fun _ => Careful.pure 0)
  | abort => exact hcareful (careful_sink_abort id)
  | process item =>
    simp only [sink_fn, Act.wp_bind, Act.wp_perform, Act.next_ok, wp_sinkCall]
    refine ⟨trivial, fun a w' ha => ?_⟩
    have hmono : w = true → w' = true := fun hw => by simp [show w' = _ from ha, hw]
    rcases a with _ | ⟨_ | _⟩ <;> exact ⟨⟨hmono, by simp [StageOp.signal]⟩, Ctx.Kept.refl _⟩

section Pipeline

variable {X Y H : Type} {c : StageFn X Y X} {view : c.σ → Unit} {p : Pipeline c.σ} {w : Bool}

/-- A run that failed stays failed while it is torn down. -/
theorem careful_abort (hc : c.Obeys (watch (X := X) (Y := Y)) abortRules view) :
    Careful Failing (Runner.abort c : Code X Y H (Runner c.σ × FirstError) Unit) := by
  have hcall : Careful Failing (Runner.onRunner (Runner.call c .abort) :
      Code X Y Halt (Runner c.σ × FirstError) Unit) := by
    refine Careful.zoom (fun _ _ => id) ?_
    refine Careful.bind (Careful.bind Careful.request fun _ => Careful.bind Careful.get fun r => ?_)
      fun written => Careful.modify fun _ => id
    cases r.chain with
    | none => exact Careful.pure 0
    | some s =>
      refine Careful.bind (Careful.attempt fun r' w _ => (Act.wp_zoom ..).2 ?_) ?_
      · refine Act.wp_mono (hc .abort (s, r.ctx) w trivial) fun res s' w' h => ?_
        exact ⟨trivial, h.1.1, h.1.2 rfl⟩
      · rintro (halt | n)
        · exact Careful.bind Careful.request fun _ => Careful.halt halt
        · exact Careful.pure n
  refine Careful.bind (Careful.attempt hcall) fun aborted => ?_
  refine Careful.bind (Careful.onFirst fun b => careful_offer_halt _ b) fun _ => ?_
  exact Careful.bind careful_close_rest fun _ => Careful.modify fun _ => id

/-- The run has ended. -/
def Pipeline.Over (p : Pipeline σ) : Prop := ∃ stats, p.state = .ended stats false

/-- A call panicked: the run has failed, or the next call that looks at `in_call` will fail
it. -/
def Pipeline.Poisoned (p : Pipeline σ) : Prop :=
  p.Over ∨ p.in_call = true ∧ ∃ r, p.state = .running r

theorem wp_watch_top {σ α : Type} {x : Code X Y H σ α} {s : σ} :
    Act.wp watch x (fun _ _ _ => True) s w :=
  Act.wp_invariant (I := fun _ => True) (fun _ _ _ => trivial) (fun _ _ _ _ _ _ => trivial) trivial

theorem wp_watch_mono {σ α : Type} {x : Code X Y H σ α} {s : σ} :
    Act.wp watch x (fun _ _ w' => w = true → w' = true) s w :=
  Act.wp_invariant (I := fun w' => w = true → w' = true) (fun _ _ _ => trivial)
    (fun e w₁ a w₂ hI ha hw => by simp [show w₂ = _ from ha, hI hw]) id

/-- However a run is concluded, it ends, and not as a success if it panicked. -/
theorem wp_conclude_ends {r : Runner c.σ} (hs : p.state = .running r) («end» : PumpEnd)
    {Q : Res Error RunStats → Pipeline c.σ → Bool → Prop}
    (hQ : ∀ res p' w' stats b, p'.state = .ended stats b → (res = .panic → b = false) →
      Q res p' w') :
    Act.wp (watch (X := X) (Y := Y)) (Pipeline.conclude c «end») Q p w := by
  simp only [Pipeline.conclude, Act.wp_bind, Act.wp_get, Act.next_ok, hs, Pipeline.setState,
    Act.wp_modify, Act.wp_withLocal]
  refine Act.wp_mono wp_watch_top fun res t w' _ => ?_
  refine (Act.wp_zoom ..).2 (Act.wp_mono wp_watch_top fun _ _ w'' _ => ?_)
  rcases res with ⟨stats, e | _⟩ | _ | _
  · exact hQ _ _ w'' _ _ rfl fun _ => rfl
  · exact hQ _ _ w'' _ _ rfl (by simp)
  · exact hQ _ _ w'' _ _ rfl fun _ => rfl
  · exact hQ _ _ w'' _ _ rfl fun _ => rfl

/-- A call that reports no success; it panics only if the teardown did. -/
def Fails (res : Res Error α) (w : Bool) : Prop := (∀ a, res ≠ .ok a) ∧ (res = .panic → w = true)

theorem fails_halt (e : Error) : Fails (.halt e : Res Error α) w := ⟨nofun, nofun⟩

theorem wp_conclusion_failed (hc : c.Obeys (watch (X := X) (Y := Y)) abortRules view)
    (r : Runner c.σ) (e : Error) :
    Act.wp (watch (X := X) (Y := Y)) (Pipeline.conclusion (H := H) c (.failed e))
      (fun res _ w' => (∀ stats stats', res ≠ .ok (stats, .ok stats')) ∧
        (res = .panic → w' = true)) (r, none) w := by
  have hteardown : Act.wp (watch (X := X) (Y := Y)) (Pipeline.teardown (H := H) c (.failed e))
      (fun res s' w' => Failing s' ∧ (w = true → w' = true) ∧ (res = .panic → w' = true))
      (r, none) w :=
    (Act.wp_bind ..).2 (careful_abort hc (r, some e) w rfl)
  refine (Act.wp_bind ..).2 (Act.wp_mono hteardown ?_)
  rintro res ⟨r', first⟩ w₁ ⟨hfirst, -, hpanic⟩
  cases res with
  | halt h => exact ⟨by simp, by simp⟩
  | panic => exact ⟨by simp, fun _ => hpanic rfl⟩
  | ok u =>
    obtain ⟨e', rfl⟩ := Option.isSome_iff_exists.1 hfirst
    simp only [Act.next_ok, Act.wp_bind, Act.wp_get]
    refine Act.wp_mono (careful_emitEvent (I := fun _ => True) _ _ _ w₁ trivial)
      fun res _ w₂ h => ?_
    cases res with
    | ok u => exact ⟨by simp [Pipeline.result, FirstError.into_result], by simp⟩
    | halt h => exact ⟨by simp, by simp⟩
    | panic => exact ⟨by simp, fun _ => h.2.2 rfl⟩

/-- A run that is concluded as failed reports an error. -/
theorem wp_conclude_failed (hc : c.Obeys (watch (X := X) (Y := Y)) abortRules view)
    {r : Runner c.σ} (hs : p.state = .running r) (e : Error)
    {Q : Res Error RunStats → Pipeline c.σ → Bool → Prop}
    (hQ : ∀ res p' w', p'.Over → Fails res w' → Q res p' w') :
    Act.wp (watch (X := X) (Y := Y)) (Pipeline.conclude c (.failed e)) Q p w := by
  simp only [Pipeline.conclude, Act.wp_bind, Act.wp_get, Act.next_ok, hs, Pipeline.setState,
    Act.wp_modify, Act.wp_withLocal]
  refine Act.wp_mono (wp_conclusion_failed hc r e) fun res t w₁ h => ?_
  refine (Act.wp_zoom ..).2 (Act.wp_mono wp_watch_mono fun _ _ w₂ hmono => ?_)
  rcases res with ⟨stats, e | stats'⟩ | e | _
  · exact hQ _ _ w₂ ⟨_, rfl⟩ (fails_halt e)
  · exact absurd rfl (h.1 stats stats')
  · exact hQ _ _ w₂ ⟨_, rfl⟩ (fails_halt e)
  · exact hQ _ _ w₂ ⟨_, rfl⟩ ⟨by simp, fun _ => hmono (h.2 rfl)⟩

/-- Starting a pipeline that was started before does nothing. -/
theorem wp_ensure_started_again (hb : p.Begun) {Q : Res Error Unit → Pipeline c.σ → Bool → Prop}
    (hQ : Q (.ok ()) p w) :
    Act.wp (watch (X := X) (Y := Y)) (Pipeline.ensure_started c) Q p w := by
  simp only [Pipeline.ensure_started, Act.wp_bind, Act.wp_get, Act.next_ok]
  cases hs : p.state with
  | built b => exact absurd hs (hb b)
  | running r => exact hQ
  | ended stats b => exact hQ

theorem Pipeline.Over.begun (h : p.Over) : p.Begun := by
  obtain ⟨stats, hs⟩ := h
  simp [Pipeline.Begun, hs]

theorem Pipeline.Poisoned.begun (h : p.Poisoned) : p.Begun := by
  rcases h with h | ⟨-, r, hs⟩
  · exact h.begun
  · simp [Pipeline.Begun, hs]

/-- `check_poisoned` stands in front of whatever a call does on a poisoned pipeline. -/
theorem Pipeline.Poisoned.wp_started (h : p.Poisoned)
    (hc : c.Obeys (watch (X := X) (Y := Y)) abortRules view) {α : Type}
    {rest : Code X Y Error (Pipeline c.σ) α} {Q : Res Error α → Pipeline c.σ → Bool → Prop}
    (hQ : ∀ res p' w', p'.Over → Fails res w' → Q res p' w')
    (hrest : ∀ p', p'.Over → Act.wp (watch (X := X) (Y := Y)) rest Q p' w) :
    Act.wp (watch (X := X) (Y := Y)) (do
      Pipeline.ensure_started c
      Pipeline.check_poisoned c
      rest) Q p w := by
  refine (Act.wp_bind ..).2 (wp_ensure_started_again h.begun ?_)
  simp only [Act.next_ok, Act.wp_bind, Pipeline.check_poisoned, Act.wp_get]
  rcases h with ⟨stats, hs⟩ | ⟨hcall, r, hs⟩
  · split
    · simp only [hs, Act.wp_bind, Pipeline.setInCall, Act.wp_modify, Act.next_ok]
      exact hrest _ ⟨stats, rfl⟩
    · exact hrest p ⟨stats, hs⟩
  · simp only [hcall, if_true, hs, Act.wp_bind, Pipeline.setInCall, Act.wp_modify, Act.next_ok]
    refine wp_conclude_failed hc rfl _ fun res p' w' hover hfails => ?_
    cases res with
    | ok stats => exact absurd rfl (hfails.1 stats)
    | halt e => exact hQ _ p' w' hover (fails_halt e)
    | panic => exact hQ _ p' w' hover ⟨by simp, fun _ => hfails.2 rfl⟩

theorem Pipeline.Poisoned.wp_step (h : p.Poisoned)
    (hc : c.Obeys (watch (X := X) (Y := Y)) abortRules view) :
    Act.wp (watch (X := X) (Y := Y)) (Pipeline.step c)
      (fun res p' w' => p'.Over ∧ Fails res w') p w := by
  refine h.wp_started hc (fun _ _ _ ho hf => ⟨ho, hf⟩) fun p₁ ho => ?_
  obtain ⟨stats, hs⟩ := ho
  simp only [Act.wp_bind, Act.wp_get, Act.next_ok, hs]
  cases p₁.cancel with
  | false => exact ⟨⟨stats, hs⟩, fails_halt _⟩
  | true => exact ⟨trivial, fun a w' _ => ⟨⟨stats, hs⟩, fails_halt _⟩⟩

theorem Pipeline.Poisoned.wp_tick (h : p.Poisoned)
    (hc : c.Obeys (watch (X := X) (Y := Y)) abortRules view) :
    Act.wp (watch (X := X) (Y := Y)) (Pipeline.tick c)
      (fun res p' w' => p'.Over ∧ Fails res w') p w := by
  refine h.wp_started hc (fun _ _ _ ho hf => ⟨ho, hf⟩) fun p₁ ho => ?_
  obtain ⟨stats, hs⟩ := ho
  simp only [Act.wp_bind, Act.wp_get, Act.next_ok, hs]
  exact ⟨⟨stats, hs⟩, fails_halt _⟩

theorem Pipeline.Poisoned.wp_finish (h : p.Poisoned)
    (hc : c.Obeys (watch (X := X) (Y := Y)) abortRules view) :
    Act.wp (watch (X := X) (Y := Y)) (Pipeline.finish c)
      (fun res p' w' => p'.Over ∧ Fails res w') p w := by
  have hgo : Act.wp (watch (X := X) (Y := Y)) (do
      Pipeline.ensure_started c
      Pipeline.check_poisoned c
      Pipeline.conclude c .graceful) (fun res p' w' => p'.Over ∧ Fails res w') p w := by
    refine h.wp_started hc (fun _ _ _ ho hf => ⟨ho, hf⟩) fun p₁ ho => ?_
    obtain ⟨stats, hs⟩ := ho
    simp only [Pipeline.conclude, Act.wp_bind, Act.wp_get, Act.next_ok, hs]
    exact ⟨⟨stats, hs⟩, fails_halt _⟩
  simp only [Pipeline.finish, Act.wp_bind, Act.wp_get, Act.next_ok]
  rcases h with ⟨stats, hs⟩ | ⟨hcall, r, hs⟩
  · simp only [hs]
    exact ⟨⟨stats, hs⟩, fails_halt _⟩
  · simp only [hs]
    exact hgo

/-- `run` does not look at `in_call`; it fails only if the run is over. -/
theorem Pipeline.Over.wp_run_sync (h : p.Over) (fuel : Nat) :
    Act.wp (watch (X := X) (Y := Y)) (Pipeline.run_sync c fuel)
      (fun res p' w' => p'.Over ∧ Fails res w') p w := by
  refine (Act.wp_bind ..).2 (wp_ensure_started_again h.begun ?_)
  obtain ⟨stats, hs⟩ := h
  simp only [Act.next_ok, Act.wp_bind, Act.wp_get, hs]
  exact ⟨⟨stats, hs⟩, fails_halt _⟩

/-- A panic leaves the pipeline poisoned. -/
def Spoils (res : Res Error α) (p : Pipeline σ) : Prop := res = .panic → p.Poisoned

theorem spoils_ok (a : α) (p : Pipeline σ) : Spoils (.ok a) p := by
  intro h
  cases h

theorem spoils_halt (e : Error) (p : Pipeline σ) : Spoils (.halt e : Res Error α) p := by
  intro h
  cases h

theorem wp_conclude_spoils {r : Runner c.σ} (hs : p.state = .running r) («end» : PumpEnd)
    {α : Type} (k : RunStats → α) :
    Act.wp (watch (X := X) (Y := Y)) (do
      let stats ← Pipeline.conclude c «end»
      pure (k stats)) (fun res p' _ => Spoils res p') p w := by
  refine (Act.wp_bind ..).2 (wp_conclude_ends hs _ fun res p' w' stats b hs' hb => ?_)
  cases res with
  | ok stats => exact spoils_ok _ _
  | halt e => exact spoils_halt _ _
  | panic => exact fun _ => .inl ⟨stats, hb rfl ▸ hs'⟩

theorem wp_started_spoils {α : Type} {rest : Code X Y Error (Pipeline c.σ) α}
    (hrest : ∀ p' w', p'.Begun → Act.wp (watch (X := X) (Y := Y)) rest
      (fun res p' _ => Spoils res p') p' w') :
    Act.wp (watch (X := X) (Y := Y)) (do
      Pipeline.ensure_started c
      Pipeline.check_poisoned c
      rest) (fun res p' _ => Spoils res p') p w := by
  have hchecked : ∀ p₁ w₁, p₁.Begun → Act.wp (watch (X := X) (Y := Y)) (do
      Pipeline.check_poisoned c
      rest) (fun res p' _ => Spoils res p') p₁ w₁ := by
    intro p₁ w₁ hb₁
    simp only [Act.wp_bind, Pipeline.check_poisoned, Act.wp_get, Act.next_ok]
    split
    · simp only [Act.wp_bind, Pipeline.setInCall, Act.wp_modify, Act.next_ok]
      cases hs : p₁.state with
      | built b => exact absurd hs (hb₁ b)
      | ended stats b => exact hrest _ w₁ (Pipeline.begun_ended rfl)
      | running r =>
        refine (Act.wp_bind ..).2 (wp_conclude_ends rfl _ fun res p' w' stats b hs' hb => ?_)
        cases res with
        | ok stats => exact hrest p' w' (Pipeline.begun_ended hs')
        | halt e => exact spoils_halt _ _
        | panic => exact fun _ => .inl ⟨stats, hb rfl ▸ hs'⟩
    · exact hrest p₁ w₁ hb₁
  by_cases hb : p.Begun
  · exact (Act.wp_bind ..).2 (wp_ensure_started_again hb (hchecked p w hb))
  · simp only [Pipeline.Begun, not_forall, not_not] at hb
    obtain ⟨b, hs⟩ := hb
    refine (Act.wp_bind ..).2 ?_
    simp only [Pipeline.ensure_started, Act.wp_bind, Act.wp_get, Act.next_ok, hs,
      Pipeline.take_built, Pipeline.setState]
    cases p.config_error with
    | some e => exact spoils_halt _ _
    | none =>
      simp only [Act.wp_bind, Act.wp_modify, Act.next_ok, Act.wp_pure, Act.wp_get]
      refine Act.wp_mono (careful_emitEvent (I := fun p : Pipeline c.σ => p.Over) _ _ _ w ⟨_, rfl⟩)
        fun res p' w' h => ?_
      cases res with
      | ok u => exact hchecked _ w' (Pipeline.begun_running rfl)
      | halt e => exact spoils_halt _ _
      | panic => exact fun _ => .inl h.1

theorem wp_asked {σ : Type} {armed : Bool} {Q : Res H Bool → σ → Bool → Prop} {s : σ}
    (hQ : ∀ b w', Q (.ok b) s w') :
    Act.wp (watch (X := X) (Y := Y)) (is_cancelled armed) Q s w := by
  cases armed with
  | false => exact hQ false w
  | true => exact ⟨trivial, fun a w' _ => hQ a w'⟩

theorem wp_step_spoils :
    Act.wp (watch (X := X) (Y := Y)) (Pipeline.step c) (fun res p' _ => Spoils res p') p w := by
  refine wp_started_spoils fun p₁ w₁ hb₁ => ?_
  simp only [Act.wp_bind, Act.wp_get, Act.next_ok]
  refine wp_asked fun b w₂ => ?_
  rw [Act.next_ok]
  cases hs : p₁.state with
  | built b => exact spoils_halt _ _
  | ended stats succeeded =>
    cases succeeded with
    | true => exact spoils_ok _ _
    | false => exact spoils_halt _ _
  | running r =>
    cases b with
    | true => exact wp_conclude_spoils hs .cancelled fun _ => Step.done
    | false =>
      simp only [Bool.false_eq_true, if_false, Act.wp_bind, Pipeline.setInCall, Act.wp_modify,
        Act.next_ok, Act.wp_attempt, Pipeline.onRunner, Act.wp_zoom]
      refine Act.wp_mono wp_watch_top fun res r' w' _ => ?_
      rcases res with (_ | _ | _) | halt | _
      · exact spoils_ok _ _
      · exact spoils_ok _ _
      · exact wp_conclude_spoils (p := { p₁ with state := .running r', in_call := false }) rfl
          .graceful fun _ => Step.done
      · exact wp_conclude_spoils (p := { p₁ with state := .running r', in_call := false }) rfl
          (halted halt) fun _ => Step.done
      · exact fun _ => .inr ⟨rfl, r', rfl⟩

theorem wp_tick_spoils :
    Act.wp (watch (X := X) (Y := Y)) (Pipeline.tick c) (fun res p' _ => Spoils res p') p w := by
  refine wp_started_spoils fun p₁ w₁ hb₁ => ?_
  simp only [Act.wp_bind, Act.wp_get, Act.next_ok]
  cases hs : p₁.state with
  | built b => exact spoils_halt _ _
  | ended stats succeeded => exact spoils_halt _ _
  | running r =>
    simp only [Act.wp_bind, Pipeline.setInCall, Act.wp_modify, Act.next_ok, Act.wp_attempt,
      Pipeline.onRunner, Act.wp_zoom]
    refine Act.wp_mono wp_watch_top fun res r' w' _ => ?_
    cases res with
    | ok u => exact spoils_ok _ _
    | panic => exact fun _ => .inr ⟨rfl, r', rfl⟩
    | halt halt =>
      exact wp_conclude_spoils (p := { p₁ with state := .running r', in_call := false }) rfl
        (halted halt) fun _ => ()

/-- The call reported an error; it may panic instead only if the teardown was broken. -/
def Outcome.Refused (broken : Bool) : Outcome α → Prop
  | .ok _ => False
  | .err _ => True
  | .panicked => broken = true

theorem Outcome.Refused.mono {o : Outcome α} {b b' : Bool} (h : o.Refused b)
    (hb : b = true → b' = true) : o.Refused b' := by
  cases o with
  | ok => exact h
  | err => exact h
  | panicked => exact hb h

theorem Fails.refused {res : Res Error α} (h : Fails res w) :
    (Outcome.ofResult res).Refused w := by
  cases res with
  | ok a => exact absurd rfl (h.1 a)
  | halt => trivial
  | panic => exact h.2 rfl

/-- What a list of calls with their outcomes has to show after a panic. -/
def Refusals (broken : Bool) (calls : List (Call × Outcome Unit)) : Prop :=
  ∀ a ∈ calls, a.1 ≠ .cancel_handle → a.2.Refused broken

theorem Pipeline.Poisoned.wp_call (h : p.Poisoned)
    (hc : c.Obeys (watch (X := X) (Y := Y)) abortRules view) (x : Call) :
    Act.wp (watch (X := X) (Y := Y)) (Pipeline.call c x) (fun res p' w' => ∃ o, res = .ok o ∧
      p'.Poisoned ∧ (x ≠ .cancel_handle → p'.Over ∧ o.Refused w') ∧ (p.Over → p'.Over)) p w := by
  cases x with
  | step =>
    refine wp_caught.2 ((Act.wp_bind ..).2 (Act.wp_mono (h.wp_step hc) fun res p' w' h' => ?_))
    obtain ⟨ho, hf⟩ := h'
    cases res with
    | ok a => exact absurd rfl (hf.1 a)
    | halt e => exact ⟨_, rfl, .inl ho, fun _ => ⟨ho, trivial⟩, fun _ => ho⟩
    | panic => exact ⟨_, rfl, .inl ho, fun _ => ⟨ho, hf.2 rfl⟩, fun _ => ho⟩
  | tick =>
    refine wp_caught.2 (Act.wp_mono (h.wp_tick hc) fun res p' w' h' => ?_)
    exact ⟨_, rfl, .inl h'.1, fun _ => ⟨h'.1, h'.2.refused⟩, fun _ => h'.1⟩
  | cancel_handle => exact ⟨_, rfl, h, absurd rfl, id⟩

theorem wp_call_spoils (x : Call) :
    Act.wp (watch (X := X) (Y := Y)) (Pipeline.call c x) (fun res p' _ => ∃ o, res = .ok o ∧
      (o = .panicked → p'.Poisoned)) p w := by
  cases x with
  | step =>
    refine wp_caught.2 ((Act.wp_bind ..).2 (Act.wp_mono wp_step_spoils fun res p' w' h' => ?_))
    cases res with
    | ok a => exact ⟨_, rfl, nofun⟩
    | halt e => exact ⟨_, rfl, nofun⟩
    | panic => exact ⟨_, rfl, fun _ => h' rfl⟩
  | tick =>
    refine wp_caught.2 (Act.wp_mono wp_tick_spoils fun res p' w' h' => ?_)
    cases res with
    | ok a => exact ⟨_, rfl, nofun⟩
    | halt e => exact ⟨_, rfl, nofun⟩
    | panic => exact ⟨_, rfl, fun _ => h' rfl⟩
  | cancel_handle => exact ⟨_, rfl, nofun⟩

/-- Calls on a poisoned pipeline: none succeeds, and the first of them ends the run. -/
theorem Pipeline.Poisoned.wp_calls (h : p.Poisoned)
    (hc : c.Obeys (watch (X := X) (Y := Y)) abortRules view) (xs : List Call) :
    Act.wp (watch (X := X) (Y := Y)) (Pipeline.calls c xs) (fun res p' w' => ∃ os, res = .ok os ∧
      Refusals w' (xs.zip os) ∧ p'.Poisoned ∧
      (p.Over ∨ (∃ x ∈ xs, x ≠ .cancel_handle) → p'.Over)) p w := by
  induction xs generalizing p w with
  | nil => exact ⟨[], rfl, nofun, h, fun ho => ho.elim id nofun⟩
  | cons x xs ih =>
    refine (Act.wp_bind ..).2 (Act.wp_mono (h.wp_call hc x) fun res p₁ w₁ h₁ => ?_)
    obtain ⟨o, rfl, hp₁, hx, hover⟩ := h₁
    rw [Act.next_ok]
    refine (Act.wp_bind ..).2 (Act.wp_mono (Act.wp_and (ih hp₁) wp_watch_mono)
      fun res p₂ w₂ h₂ => ?_)
    obtain ⟨⟨os, rfl, hos, hp₂, hover'⟩, hmono⟩ := h₂
    refine ⟨o :: os, rfl, ?_, hp₂, fun ho => hover' ?_⟩
    · rintro a (_ | ⟨_, ha⟩) hcall
      · exact (hx hcall).2.mono hmono
      · exact hos a ha hcall
    · rcases ho with ho | ⟨y, hy, hcall⟩
      · exact .inl (hover ho)
      · rcases List.mem_cons.1 hy with rfl | hy
        · exact .inl (hx hcall).1
        · exact .inr ⟨y, hy, hcall⟩

/-- After a call that panicked no later call succeeds. -/
theorem wp_calls_spoiled (hc : c.Obeys (watch (X := X) (Y := Y)) abortRules view)
    (xs : List Call) :
    Act.wp (watch (X := X) (Y := Y)) (Pipeline.calls c xs) (fun res p' w' => ∃ os, res = .ok os ∧
      ∀ before a later, xs.zip os = before ++ a :: later → a.2 = .panicked →
        Refusals w' later ∧ p'.Poisoned ∧ ((∃ b ∈ later, b.1 ≠ .cancel_handle) → p'.Over)) p w := by
  induction xs generalizing p w with
  | nil => exact ⟨[], rfl, fun before a later he => by simp at he⟩
  | cons x xs ih =>
    refine (Act.wp_bind ..).2 (Act.wp_mono (wp_call_spoils x) fun res p₁ w₁ h₁ => ?_)
    obtain ⟨o, rfl, hspoils⟩ := h₁
    rw [Act.next_ok]
    by_cases ho : o = .panicked
    · refine (Act.wp_bind ..).2 (Act.wp_mono (Act.wp_and ih ((hspoils ho).wp_calls hc xs))
        fun res p₂ w₂ h₂ => ?_)
      obtain ⟨⟨os, rfl, hos⟩, os', heq, hrefused, hp₂, hover⟩ := h₂
      cases heq
      refine ⟨o :: os, rfl, fun before a later he ha => ?_⟩
      cases before with
      | cons b before =>
        simp only [List.zip_cons_cons, List.cons_append, List.cons.injEq] at he
        exact hos before a later he.2 ha
      | nil =>
        simp only [List.zip_cons_cons, List.nil_append, List.cons.injEq] at he
        obtain ⟨rfl, rfl⟩ := he
        refine ⟨hrefused, hp₂, fun ⟨b, hb, hcall⟩ => hover (.inr ⟨b.1, ?_, hcall⟩)⟩
        exact (List.of_mem_zip hb).1
    · refine (Act.wp_bind ..).2 (Act.wp_mono ih fun res p₂ w₂ h₂ => ?_)
      obtain ⟨os, rfl, hos⟩ := h₂
      refine ⟨o :: os, rfl, fun before a later he ha => ?_⟩
      cases before with
      | cons b before =>
        simp only [List.zip_cons_cons, List.cons_append, List.cons.injEq] at he
        exact hos before a later he.2 ha
      | nil =>
        simp only [List.zip_cons_cons, List.nil_append, List.cons.injEq] at he
        obtain ⟨rfl, -⟩ := he
        exact absurd ha ho

/-- Dropping a runner does not unwind. -/
theorem wp_drop_ok {r : Runner c.σ} :
    Act.wp (watch (X := X) (Y := Y)) (Runner.drop (H := Empty) c)
      (fun res _ w' => res = .ok () ∧ (w = true → w' = true)) r w := by
  refine Act.wp_mono (Act.wp_and (Q := fun res _ _ => res = .ok ()) ?_ wp_watch_mono)
    fun _ _ _ h => h
  have hcontain : ∀ {σ α : Type} {x : Code X Y Empty σ α} {Q : Res Empty (Option α) → σ → Bool → Prop}
      {s : σ} {w : Bool}, (∀ a s w, Q (.ok a) s w) → Act.wp watch (Act.contain x) Q s w := by
    intro σ α x Q s w hQ
    refine (Act.wp_contain _).2 (Act.wp_mono wp_watch_top fun res s' w' _ => ?_)
    cases res with
    | ok a => exact hQ _ s' w'
    | halt e => exact nomatch e
    | panic => exact hQ _ s' w'
  have hretries : ∀ n (s : Runner c.σ × FirstError) w {Q : Res Empty Unit → _ → Bool → Prop},
      (∀ s' w', Q (.ok ()) s' w') → Act.wp (watch (X := X) (Y := Y)) (Runner.retries c n) Q s w := by
    intro n
    induction n with
    | zero => exact fun s w Q hQ => hQ s w
    | succ n ih =>
      intro s w Q hQ
      simp only [Runner.retries, Act.wp_bind, Act.wp_get, Act.next_ok]
      split
      · exact (Act.wp_bind ..).2 (hcontain fun _ s' w' => ih s' w' hQ)
      · exact hQ s w
  simp only [Runner.drop, Act.wp_bind, Act.wp_get, Act.next_ok]
  split
  · refine (Act.wp_zoom ..).2 ((Act.wp_bind ..).2 (hretries 6 _ w fun s' w' => ?_))
    simp only [Act.next_ok, Act.wp_bind, Act.wp_get]
    cases FirstError.into_result s'.2 with
    | ok u => rfl
    | error e =>
      simp only [Act.wp_bind, Act.wp_get, Act.next_ok]
      exact hcontain fun _ _ _ => rfl
  · rfl

theorem wp_pipeline_drop_ok {Q : Res Empty Unit → Pipeline c.σ → Bool → Prop}
    (hQ : ∀ p' w', (w = true → w' = true) → Q (.ok ()) p' w') :
    Act.wp (watch (X := X) (Y := Y)) (Pipeline.drop c) Q p w := by
  simp only [Pipeline.drop, Act.wp_bind, Act.wp_get, Act.next_ok]
  cases p.state with
  | built b => exact hQ _ w id
  | ended stats b => exact hQ _ w id
  | running r =>
    refine (Act.wp_zoom ..).2 (Act.wp_mono wp_drop_ok fun res r' w' h => ?_)
    obtain ⟨rfl, hmono⟩ := h
    exact hQ _ w' hmono

/-- The call that consumes the pipeline returns to its owner. -/
theorem wp_last_ok (l : LastCall) :
    Act.wp (watch (X := X) (Y := Y)) (Pipeline.last c l) (fun res _ _ => ∃ o, res = .ok o) p w := by
  have hend : ∀ (o : Outcome Unit) (p' : Pipeline c.σ) w',
      Act.wp (watch (X := X) (Y := Y)) (do
        Pipeline.drop c
        pure (some o)) (fun res _ _ => ∃ o, res = (.ok o : Res Empty _)) p' w' :=
    fun o p' w' => (Act.wp_bind ..).2 (wp_pipeline_drop_ok fun _ _ _ => ⟨_, rfl⟩)
  cases l with
  | finish =>
    refine (Act.wp_bind ..).2 (wp_caught.2 (Act.wp_mono wp_watch_top fun res p' w' _ => ?_))
    exact hend _ p' w'
  | run fuel =>
    refine (Act.wp_bind ..).2 (wp_caught.2 (Act.wp_mono wp_watch_top fun res p' w' _ => ?_))
    match res with
    | .ok none => exact ⟨_, rfl⟩
    | .ok (some _) | .halt _ | .panic => exact hend _ p' w'
  | run_threaded =>
    refine (Act.wp_bind ..).2 (wp_caught.2 (Act.wp_mono wp_watch_top fun res p' w' _ => ?_))
    cases res with
    | ok b => exact ⟨_, rfl⟩
    | halt e => exact hend _ p' w'
    | panic => exact hend _ p' w'
  | drop => exact (Act.wp_bind ..).2 (wp_pipeline_drop_ok fun _ _ _ => ⟨_, rfl⟩)

/-- The call that consumes a poisoned pipeline fails, except `run` when nothing has torn the
pipeline down before. -/
theorem Pipeline.Poisoned.wp_last (h : p.Poisoned)
    (hc : c.Obeys (watch (X := X) (Y := Y)) abortRules view) (l : LastCall)
    (hl : (∃ fuel, l = .run fuel) → p.Over) :
    Act.wp (watch (X := X) (Y := Y)) (Pipeline.last c l) (fun res _ w' =>
      ∀ o, res = .ok (some o) → l ≠ .drop → o.Refused w') p w := by
  have hend : ∀ {p' w'} (o : Outcome Unit), o.Refused w' → Act.wp (watch (X := X) (Y := Y)) (do
      Pipeline.drop c
      pure (some o)) (fun (res : Res Empty _) _ w' =>
        ∀ o, res = .ok (some o) → l ≠ .drop → o.Refused w') p' w' := by
    intro p' w' o ho
    refine (Act.wp_bind ..).2 (wp_pipeline_drop_ok fun _ w'' hmono => ?_)
    rintro o' he -
    cases he
    exact ho.mono hmono
  cases l with
  | finish =>
    refine (Act.wp_bind ..).2 (wp_caught.2 ((Act.wp_bind ..).2 ?_))
    refine Act.wp_mono (h.wp_finish hc) fun res p' w' h' => ?_
    cases res with
    | ok a => exact absurd rfl (h'.2.1 a)
    | halt e => exact hend _ trivial
    | panic => exact hend _ (h'.2.2 rfl)
  | run fuel =>
    refine (Act.wp_bind ..).2 (wp_caught.2 ?_)
    refine Act.wp_mono ((hl ⟨fuel, rfl⟩).wp_run_sync fuel) fun res p' w' h' => ?_
    cases res with
    | ok a => exact absurd rfl (h'.2.1 a)
    | halt e => exact hend _ trivial
    | panic => exact hend _ (h'.2.2 rfl)
  | run_threaded =>
    refine (Act.wp_bind ..).2 (wp_caught.2 ?_)
    simp only [Pipeline.take_built, Act.wp_bind, Act.wp_get, Act.next_ok]
    rcases h with ⟨stats, hs⟩ | ⟨-, r, hs⟩ <;> simp only [hs] <;> exact hend _ trivial
  | drop => exact Act.wp_mono wp_watch_top fun _ _ _ _ _ _ hdrop => absurd rfl hdrop

/-- A session as a list of calls with their outcomes: nothing succeeds after a panic, unless
`run` follows it directly. -/
theorem wp_session_spoiled (hc : c.Obeys (watch (X := X) (Y := Y)) abortRules view)
    (xs : List Call) (l : LastCall) :
    Act.wp (watch (X := X) (Y := Y)) (Pipeline.session c xs l) (fun res _ w' => ∃ os o,
      res = .ok (os, o) ∧ ∀ before a later, xs.zip os = before ++ a :: later → a.2 = .panicked →
        Refusals w' later ∧ (((∃ fuel, l = .run fuel) → ∃ b ∈ later, b.1 ≠ .cancel_handle) →
          ∀ o', o = some o' → l ≠ .drop → o'.Refused w')) p w := by
  refine (Act.wp_bind ..).2 (Act.wp_mono (wp_calls_spoiled hc xs) fun res p₁ w₁ h₁ => ?_)
  obtain ⟨os, rfl, hos⟩ := h₁
  rw [Act.next_ok]
  have hrefused : Act.wp (watch (X := X) (Y := Y)) (Pipeline.last c l) (fun res _ w' =>
      ∀ before a later, xs.zip os = before ++ a :: later → a.2 = .panicked →
        ((∃ fuel, l = .run fuel) → ∃ b ∈ later, b.1 ≠ .cancel_handle) →
        ∀ o, res = .ok (some o) → l ≠ .drop → o.Refused w') p₁ w₁ := by
    by_cases hp : p₁.Poisoned ∧ ((∃ fuel, l = .run fuel) → p₁.Over)
    · exact Act.wp_mono (hp.1.wp_last hc l hp.2) fun res _ w' h _ _ _ _ _ _ => h
    · refine Act.wp_mono wp_watch_top fun res _ w' _ before a later he ha hl => ?_
      obtain ⟨-, hp₁, hover⟩ := hos before a later he ha
      exact absurd ⟨hp₁, fun hrun => hover (hl hrun)⟩ hp
  refine (Act.wp_bind ..).2 (Act.wp_mono (Act.wp_and (wp_last_ok l)
    (Act.wp_and wp_watch_mono hrefused)) fun res p₂ w₂ h₂ => ?_)
  obtain ⟨⟨o, rfl⟩, hmono, hlast⟩ := h₂
  refine ⟨os, o, rfl, fun before a later he ha => ⟨?_, fun hl o' ho' => ?_⟩⟩
  · exact fun b hb hcall => ((hos before a later he ha).1 b hb hcall).mono hmono
  · exact hlast before a later he ha hl o' (ho' ▸ rfl)

end Pipeline

/-- A `map` whose closure panics on its first item. -/
def panicsOnce : Stages Nat Nat :=
  .cons (PipelineBuilder.map (fun item seen => (if seen then some item else none, true)) false) .nil

end PipeIo
