import PipeIo.Halting

namespace PipeIo
set_option autoImplicit true

open Lib

/-- The error that ended the run is the first one recorded. -/
def Recorded (first : FirstError) (w : Option Error) : Prop := ∀ e, w = some e → first = some e

/-- What stays true when a first error is recorded. -/
def Offerable (J : FirstError → Option Error → Prop) : Prop := ∀ e w, J none w → J (some e) w

theorem recorded_offerable : Offerable Recorded := by
  intro e w h e' hw
  cases h e' hw

section Runner

variable {X Y H : Type} {c : StageFn X Y X} {view : c.σ → Unit} {id : StageId}
  {J : FirstError → Option Error → Prop} {B : H → Prop} {w w₀ : Option Error}

theorem haltRules_idle {k : Option Signal} (hp : haltRules.pre k () w) :
    haltRules.post k (.ok 0) () w () w := by
  rcases k with _ | _ | _ | _ | _
  · exact ⟨hp nofun, hp nofun ▸ tells_none _⟩
  · exact ⟨hp nofun, hp nofun ▸ tells_none _⟩
  · exact ⟨hp nofun, hp nofun ▸ tells_none _⟩
  · rfl
  · rfl

theorem wp_halts_chainFn (hc : c.Obeys (halts id) haltRules view) (op : StageOp X)
    (r : Runner c.σ) (hp : haltRules.pre op.signal () w) :
    Act.wp (halts id) (Runner.chainFn c op)
      (fun res _ w' => haltRules.post op.signal res () w () w') r w := by
  have hcall : (Eff.note (.call op.signal) : Eff X Y).onward = true → w = none := fun h =>
    hp (by simpa [Eff.onward] using h)
  simp only [Runner.chainFn, Act.wp_bind, wp_note, Act.next_ok, Act.wp_get]
  refine ⟨hcall, ?_⟩
  rintro _ _ rfl
  rw [show w.or (halting id (Eff.note (.call op.signal) : Eff X Y) ()) = w from Option.or_none]
  cases r.chain with
  | none => exact haltRules_idle hp
  | some s =>
    simp only [Act.wp_bind, Act.wp_attempt, Act.wp_zoom]
    refine Act.wp_mono (hc op (s, r.ctx) w hp) fun res s' w' h => ?_
    cases res with
    | ok n => exact h.1
    | panic => exact h.1
    | halt halt =>
      simp only [Res.attempted_halt, Act.next_ok, Act.wp_bind, wp_note, Act.wp_halt]
      refine ⟨fun h => absurd h Bool.false_ne_true, ?_⟩
      rintro _ _ rfl
      rw [show w'.or (halting id (Eff.note .halted : Eff X Y) ()) = w' from Option.or_none]
      exact h.1

/-- An operation that lets stages emit reports its halt. -/
theorem wp_halts_emits (hc : c.Obeys (halts id) haltRules view) (op : StageOp X)
    (hop : Emits op.signal) (r : Runner c.σ) :
    Act.wp (halts id) (Runner.chainFn c op) (fun res _ w' => Tells res w') r none :=
  Act.wp_mono (wp_halts_chainFn hc op r fun _ => rfl) fun _ _ _ h =>
    ((haltRules_emits hop).1 h).2

theorem Tells.recast {h : Halt} (ht : Tells (.halt h : Res Halt α) w) :
    Tells (.halt h : Res Halt β) w := by
  intro e he
  rw [ht.halt_eq he]
  exact .inl rfl

/-- What follows a call that reports its halt is reached only if there was none. -/
theorem wp_tells_bind {Γ : Spec (Eff X Y) Ans (Option Error)} {σ α β : Type}
    {x : Code X Y Halt σ α} {f : α → Code X Y Halt σ β} {s : σ}
    (hx : Act.wp Γ x (fun res _ w' => Tells res w') s w)
    (hf : ∀ a s', Act.wp Γ (f a) (fun res _ w' => Tells res w') s' none) :
    Act.wp Γ (x >>= f) (fun res _ w' => Tells res w') s w := by
  refine (Act.wp_bind ..).2 (Act.wp_mono hx fun res s' w' h => ?_)
  cases res with
  | ok a =>
    obtain rfl := h.eq_none
    exact hf a s'
  | halt halt => exact h.recast
  | panic => exact tells_panic w'

theorem wp_halts_call (hc : c.Obeys (halts id) haltRules view) (op : StageOp X)
    (hop : Emits op.signal) (r : Runner c.σ) :
    Act.wp (halts id) (Runner.call c op) (fun res _ w' => Tells res w') r none :=
  wp_tells_bind (wp_halts_emits hc op hop r) fun _ _ => tells_none _

/-- `Close` and `Abort` change nothing. -/
theorem preserves_call (hc : c.Obeys (halts id) haltRules view) {op : StageOp X}
    (hop : op.signal = some .abort ∨ op.signal = some .close ∧ w₀ = none) :
    Act.Preserves (halts id) (fun _ w => w = w₀) (fun _ => True) (Runner.call c op) := by
  rintro r w rfl
  refine (Act.wp_bind ..).2 (Act.wp_mono (wp_halts_chainFn hc op r ?_) fun res r' w' h => ?_)
  · rintro hne
    rcases hop with hop | hop
    · exact absurd hop hne
    · exact hop.2
  · have hw : w' = w := by
      rcases hop with hop | ⟨hop, -⟩ <;> rw [hop] at h <;> exact h
    cases res <;> exact ⟨hw, fun _ _ => trivial⟩

theorem preserves_offer (hJ : Offerable J) (e : Error) (b : Bool) :
    Act.Preserves (halts (X := X) (Y := Y) id) J B (FirstError.offer e b) := by
  intro first w hI
  cases first with
  | none => exact ⟨hJ e w hI, nofun⟩
  | some first => exact preserves_emitEvent b (.teardownError e) (some first) w hI

theorem preserves_offer_result (hJ : Offerable J) (r : Except Error Unit) (b : Bool) :
    Act.Preserves (halts (X := X) (Y := Y) id) J B (FirstError.offer_result r b) := by
  rcases r with e | ⟨⟨⟩⟩
  · exact preserves_offer hJ e b
  · exact Act.Preserves.pure ()

theorem preserves_offer_halt (hJ : Offerable J) (r : Except Halt Unit) (b : Bool) :
    Act.Preserves (halts (X := X) (Y := Y) id) J B (FirstError.offer_halt r b) := by
  rcases r with (e | _) | ⟨⟨⟩⟩
  · exact preserves_offer hJ e b
  · exact Act.Preserves.pure ()
  · exact Act.Preserves.pure ()

/-- What is said of the first error of a teardown. -/
abbrev OnFirst (J : FirstError → Option Error → Prop) (s : Runner σ × FirstError)
    (w : Option Error) : Prop := J s.2 w

theorem preserves_onFirst {Γ : Spec (Eff X Y) Ans (Option Error)}
    {x : Bool → Code X Y H FirstError Unit} (hx : ∀ b, Act.Preserves Γ J B (x b)) :
    Act.Preserves Γ (OnFirst J) B (Runner.onFirst (σ := c.σ) x) :=
  Act.Preserves.bind Act.Preserves.get fun _ =>
    Act.Preserves.zoom (fun _ _ h => h) (fun _ _ _ _ _ h => h) (hx _)

theorem preserves_onRunner {x : Code X Y H (Runner c.σ) Unit} (hx : ∀ first w₀, J first w₀ →
      Act.Preserves (halts id) (fun _ w => w = w₀) (fun _ => True) x) :
    Act.Preserves (halts id) (OnFirst J) (fun _ => True) (Runner.onRunner x) := by
  intro s w hI
  refine (Act.wp_zoom ..).2 (Act.wp_mono (hx s.2 w hI s.1 w rfl) ?_)
  rintro res r _ ⟨rfl, -⟩
  exact ⟨hI, fun _ _ => trivial⟩

theorem preserves_dlq_call {I : Dlq → Option Error → Prop} (hI : ∀ d d' w, I d w → I d' w)
    {op : DeadLetterOp} (hop : ∀ f, op ≠ .write f) :
    Act.Preserves (halts (X := X) (Y := Y) id) I (fun _ => True) (Dlq.call op) := by
  refine Act.Preserves.bind Act.Preserves.get fun d => ?_
  cases op with
  | write f => exact absurd rfl (hop f)
  | flush =>
    rcases d with _ | ⟨_ | _, closed⟩
    · exact Act.Preserves.pure ()
    · refine Act.Preserves.bind (Act.Preserves.modify fun d w => hI d _ w) fun _ => ?_
      refine Act.Preserves.bind (preserves_idle ⟨rfl, fun _ => rfl⟩) fun a => ?_
      refine Act.Preserves.bind (preserves_outcome a) fun r => ?_
      cases r with
      | ok u => exact Act.Preserves.pure ()
      | error e => exact Act.Preserves.halt trivial
    · exact Act.Preserves.pure ()
  | close =>
    rcases d with _ | ⟨flushed, _ | _⟩
    · exact Act.Preserves.pure ()
    · refine Act.Preserves.bind (Act.Preserves.modify fun d w => hI d _ w) fun _ => ?_
      refine Act.Preserves.bind (preserves_idle ⟨rfl, fun _ => rfl⟩) fun a => ?_
      refine Act.Preserves.bind (preserves_outcome a) fun r => ?_
      cases r with
      | ok u => exact Act.Preserves.pure ()
      | error e => exact Act.Preserves.halt trivial
    · exact Act.Preserves.pure ()

theorem preserves_dlq_finish {I : Dlq → Option Error → Prop} (hI : ∀ d d' w, I d w → I d' w)
    (b : Bool) : Act.Preserves (halts (X := X) (Y := Y) id) I (fun _ => True) (Dlq.finish b) := by
  refine Act.Preserves.bind (.attempt (preserves_dlq_call hI nofun)) fun flushed => ?_
  refine Act.Preserves.bind (.attempt (preserves_dlq_call hI nofun)) fun closed => ?_
  rcases flushed with first | ⟨⟨⟩⟩
  · rcases closed with second | ⟨⟨⟩⟩
    · exact Act.Preserves.bind (preserves_emitEvent b _) fun _ => Act.Preserves.halt trivial
    · exact Act.Preserves.halt trivial
  · rcases closed with e | ⟨⟨⟩⟩
    · exact Act.Preserves.halt trivial
    · exact Act.Preserves.pure ()

theorem preserves_close_rest (hJ : Offerable J) :
    Act.Preserves (halts (X := X) (Y := Y) id) (OnFirst J) B (Runner.close_rest (σ := c.σ)) := by
  refine Act.Preserves.bind ?_ fun _ => Act.Preserves.bind ?_ fun _ => ?_
  · refine Act.Preserves.bind Act.Preserves.get fun s => ?_
    split
    · refine Act.Preserves.bind (Act.Preserves.modify fun _ _ h => h) fun _ => ?_
      refine Act.Preserves.bind (preserves_idle ⟨rfl, fun _ => rfl⟩) fun _ => ?_
      exact preserves_idle ⟨rfl, fun _ => rfl⟩
    · exact Act.Preserves.pure ()
  · refine Act.Preserves.bind Act.Preserves.get fun s => ?_
    split
    · exact Act.Preserves.pure ()
    · refine Act.Preserves.bind (Act.Preserves.modify fun _ _ h => h) fun _ => ?_
      refine Act.Preserves.bind (preserves_idle ⟨rfl, fun _ => rfl⟩) fun a => ?_
      refine Act.Preserves.bind (preserves_outcome a) fun closed => ?_
      exact Act.Preserves.bind Act.Preserves.get fun s =>
        preserves_onFirst fun b => preserves_offer_result hJ _ b
  · refine Act.Preserves.bind Act.Preserves.get fun s => ?_
    dsimp only
    split
    · refine Act.Preserves.bind (.attempt (B := fun _ => True) ?_) fun finished => ?_
      · refine Act.Preserves.bind Act.Preserves.get fun s => ?_
        intro s' w hI
        exact (Act.wp_zoom ..).2 (preserves_dlq_finish (I := fun _ w' => J s'.2 w')
          (fun _ _ _ h => h) _ _ w hI)
      · refine Act.Preserves.bind (Act.Preserves.modify fun _ _ h => h) fun _ => ?_
        exact preserves_onFirst fun b => preserves_offer_result hJ _ b
    · exact Act.Preserves.pure ()

/-- The rest of a teardown, after the last call of the chain. -/
theorem preserves_ending (hJ : Offerable J) (result : Except Halt Unit) :
    Act.Preserves (halts (X := X) (Y := Y) id) (OnFirst J) B (do
      Runner.onFirst (σ := c.σ) (FirstError.offer_halt result)
      Runner.close_rest
      Act.modify fun s => ({ s.1 with live := false }, s.2)) := by
  refine Act.Preserves.bind (preserves_onFirst fun b => preserves_offer_halt hJ result b) fun _ => ?_
  exact Act.Preserves.bind (preserves_close_rest hJ) fun _ => Act.Preserves.modify fun _ _ h => h

theorem preserves_abort (hc : c.Obeys (halts id) haltRules view) (hJ : Offerable J) :
    Act.Preserves (halts id) (OnFirst J) B (Runner.abort c) :=
  Act.Preserves.bind (.attempt (preserves_onRunner fun _ _ _ => preserves_call hc (.inl rfl)))
    fun aborted => preserves_ending hJ aborted

theorem wp_halts_retries (hc : c.Obeys (halts id) haltRules view) (n : Nat)
    {Q : Res H Unit → Runner c.σ × FirstError → Option Error → Prop} (hQ : ∀ s, Q (.ok ()) s w)
    (s : Runner c.σ × FirstError) : Act.wp (halts id) (Runner.retries c n) Q s w := by
  induction n generalizing s with
  | zero => exact hQ s
  | succ n ih =>
    simp only [Runner.retries, Act.wp_bind, Act.wp_get, Act.next_ok]
    split
    · have habort : Act.Preserves (halts id) (OnFirst fun _ w' => w' = w) (fun _ : H => False)
          (Runner.abort c) := preserves_abort hc fun _ _ h => h
      refine (Act.wp_bind ..).2 (habort.wp_caught rfl ?_)
      rintro a s' _ h
      obtain rfl := h
      exact ih s'
    · exact hQ s

/-- Dropping a runner at most aborts the chain. -/
theorem wp_halts_drop (hc : c.Obeys (halts id) haltRules view)
    {Q : Res H Unit → Runner c.σ → Option Error → Prop} (hQ : ∀ r, Q (.ok ()) r w)
    (r : Runner c.σ) : Act.wp (halts id) (Runner.drop c) Q r w := by
  simp only [Runner.drop, Act.wp_bind, Act.wp_get, Act.next_ok]
  split
  · refine (Act.wp_zoom ..).2 ((Act.wp_bind ..).2 (wp_halts_retries hc 6 (fun s => ?_) _))
    simp only [Act.next_ok, Act.wp_bind, Act.wp_get]
    cases FirstError.into_result s.2 with
    | ok u => exact hQ s.1
    | error e =>
      have hevent : Act.Preserves (halts (X := X) (Y := Y) id)
          (fun (_ : Runner c.σ × FirstError) w' => w' = w) (fun _ : H => False)
          (emitEvent s.1.ctx.observer (.teardownError e)) := preserves_emitEvent _ _
      simp only [Act.wp_bind, Act.wp_get, Act.next_ok]
      refine hevent.wp_caught rfl ?_
      rintro a s' _ rfl
      exact hQ s'.1
  · exact hQ r

theorem wp_halts_tick (hc : c.Obeys (halts id) haltRules view) (r : Runner c.σ) :
    Act.wp (halts id) (Runner.tick c) (fun res _ w' => Tells res w') r none := by
  refine wp_tells_bind (tells_none _) fun r' _ => wp_tells_bind ?_ fun _ r' => ?_
  · refine (preserves_emitEvent (I := fun _ w => w = none) _ _).wp rfl ?_ ?_
    · rintro _ _ _ rfl
      exact tells_none _
    · rintro _ _ rfl
      exact tells_none _
  · exact wp_halts_call hc .tick emits_tick r'

/-- Asking the source; the run goes on. -/
theorem preserves_ask {σ : Type} {e : Eff X Y} (he : ∀ a, halting id e a = none) :
    Act.Preserves (halts id) (fun (_ : σ) w => w = none) B (request e) := by
  refine Act.Preserves.perform ?_
  rintro _ _ rfl
  refine ⟨fun _ => rfl, ?_⟩
  rintro a _ rfl
  exact he a

theorem preserves_pull {σ : Type} (idle_tick : Option Duration) :
    Act.Preserves (halts (X := X) (Y := Y) id) (fun _ w => w = none) (fun _ => True)
      (Runner.pull (σ := σ) idle_tick) := by
  have hfail : ∀ e, Act.Preserves (halts (X := X) (Y := Y) id) (fun (_ : Runner σ) w => w = none)
      (fun _ => True) (Act.get >>= fun r => Act.halt (α := Pull X) (Error.source r.source_id e)) :=
    fun e =>
    Act.Preserves.bind Act.Preserves.get fun _ => Act.Preserves.halt trivial
  cases idle_tick with
  | none =>
    refine Act.Preserves.bind (preserves_ask fun _ => rfl) fun a => ?_
    refine Act.Preserves.bind (preserves_outcome a) fun pulled => ?_
    cases pulled with
    | ok pulled => exact Act.Preserves.pure _
    | error e => exact hfail e
  | some timeout =>
    refine Act.Preserves.bind (preserves_ask fun _ => rfl) fun a => ?_
    refine Act.Preserves.bind (preserves_outcome a) fun pulled => ?_
    cases pulled with
    | ok pulled => exact Act.Preserves.pure _
    | error e => exact hfail e

theorem wp_halts_step (hc : c.Obeys (halts id) haltRules view) (idle_tick : Option Duration)
    (r : Runner c.σ) :
    Act.wp (halts id) (Runner.step c idle_tick) (fun res _ w' => Tells res w') r none := by
  refine wp_tells_bind ?_ fun pulled r' => ?_
  · refine (Act.wp_mapHalt ..).2 (Act.wp_mono (preserves_pull idle_tick r none rfl) ?_)
    rintro res r' _ ⟨rfl, -⟩
    exact tells_none _
  · cases pulled with
    | done => exact tells_none _
    | item item =>
      refine wp_tells_bind (tells_none _) fun _ r' => ?_
      exact wp_tells_bind (wp_halts_call hc (.process item) emits_item r') fun _ _ => tells_none _
    | idle => exact wp_tells_bind (wp_halts_tick hc r') fun _ _ => tells_none _

/-- A halt is how the loop ends, unless it unwinds. -/
def Stops (res : Res H (Option PumpEnd)) (w : Option Error) : Prop :=
  ∀ e, w = some e → res = .ok (some (.failed e)) ∨ res = .panic

theorem stops_none (res : Res H (Option PumpEnd)) : Stops res none := nofun

theorem Tells.stops {halt : Halt} (h : Tells (.halt halt : Res Halt α) w) :
    Stops (.ok (some (halted halt)) : Res H (Option PumpEnd)) w := by
  intro e he
  rw [h.halt_eq he]
  exact .inl rfl

/-- A round of the loop asks the source, and goes on only if nothing failed. -/
theorem wp_halts_round (hc : c.Obeys (halts id) haltRules view) (idle_tick : Option Duration)
    (cancel : Bool) (r : Runner c.σ × (Nat × Nat)) :
    Act.wp (halts id) (Runner.round (H := H) c idle_tick cancel) (fun res _ w' => Stops res w')
      r none := by
  have hcancelled : ∀ {σ : Type}, Act.Preserves (halts (X := X) (Y := Y) id)
      (fun (_ : σ) w => w = none) (fun _ : H => False) (is_cancelled cancel) := by
    intro σ
    cases cancel with
    | false => exact Act.Preserves.pure false
    | true => exact preserves_idle ⟨rfl, fun _ => rfl⟩
  have hstop : ∀ {σ : Type} (res : Res H (Option PumpEnd)) (s : σ) w', w' = none → Stops res w' := by
    rintro σ res s _ rfl
    exact stops_none res
  cases idle_tick with
  | none =>
    refine (Act.wp_bind ..).2 (hcancelled.wp rfl ?_ (hstop .panic))
    rintro b r₁ _ rfl
    cases b with
    | true => exact stops_none _
    | false =>
      simp only [Act.next_ok, Bool.false_eq_true, if_false, Act.wp_bind]
      refine (preserves_ask (e := .pull) fun _ => rfl).wp rfl ?_ (hstop .panic)
      rintro a r₂ _ rfl
      rcases a with _ | ⟨e | _ | item⟩
      · exact stops_none _
      · exact stops_none _
      · exact stops_none _
      · simp only [Act.next_ok, Act.wp_bind, wp_outcome_some, Act.wp_modify, Act.wp_attempt,
          Act.wp_zoom]
        refine Act.wp_mono (wp_halts_emits hc (.process item) emits_item _)
          fun res r₃ w' h => ?_
        cases res with
        | ok n =>
          obtain rfl := h.eq_none
          exact stops_none _
        | halt halt => exact h.stops
        | panic => exact fun _ _ => .inr rfl
  | some timeout =>
    simp only [Runner.round, Act.wp_zoom, Act.wp_bind]
    refine hcancelled.wp rfl ?_ (hstop .panic)
    rintro b r₁ _ rfl
    cases b with
    | true => exact stops_none _
    | false =>
      simp only [Act.next_ok, Bool.false_eq_true, if_false, Act.wp_bind, Act.wp_attempt]
      refine Act.wp_mono (wp_halts_step hc (some timeout) r₁) fun res r₂ w' h => ?_
      cases res with
      | ok pulled =>
        obtain rfl := h.eq_none
        cases pulled <;> exact stops_none _
      | halt halt => exact h.stops
      | panic => exact fun _ _ => .inr rfl

theorem wp_halts_pump (hc : c.Obeys (halts id) haltRules view) (fuel : Nat)
    (idle_tick : Option Duration) (cancel : Bool) (r : Runner c.σ) :
    Act.wp (halts id) (Runner.pump (H := H) c fuel idle_tick cancel)
      (fun res _ w' => Stops res w') r none := by
  simp only [Runner.pump, Act.wp_zoom, Act.wp_bind]
  refine Act.wp_repeatUntil (I := fun _ w => w = none) ?_ ?_ fuel rfl
  · rintro r₁ _ rfl
    refine Act.wp_mono (wp_halts_round hc idle_tick cancel r₁) fun res r₂ w' h => ?_
    rcases res with (_ | «end») | e | _
    · cases w' with
      | none => rfl
      | some e => rcases h e rfl with he | he <;> cases he
    · exact h
    · intro e' he
      rcases h e' he with he | he <;> cases he
    · exact fun _ _ => .inr rfl
  · rintro r₁ _ rfl
    exact stops_none _

/-- A halt is offered before any other error. -/
theorem wp_halts_offer_halt {halt : Halt} (h : Tells (.halt halt : Res Halt α) w) (r : Runner c.σ)
    {Q : Res H Unit → Runner c.σ × FirstError → Option Error → Prop}
    (hQ : ∀ first, Recorded first w → Q (.ok ()) (r, first) w) :
    Act.wp (halts (X := X) (Y := Y) id) (Runner.onFirst (FirstError.offer_halt (.error halt))) Q
      (r, none) w := by
  cases halt with
  | failed e =>
    refine hQ (some e) fun e' he => ?_
    cases h.halt_eq he
    rfl
  | disconnected =>
    refine hQ none fun e he => ?_
    cases h.halt_eq he

/-- How a teardown ends. -/
def Settles (res : Res H Unit) (s : Runner σ × FirstError) (w : Option Error) : Prop :=
  res = .panic ∨ res = .ok () ∧ Recorded s.2 w

theorem settles_of {x : Code X Y H (Runner c.σ × FirstError) Unit}
    (hx : Act.Preserves (halts id) (OnFirst Recorded) (fun _ => False) x)
    {s : Runner c.σ × FirstError} (h : Recorded s.2 w) : Act.wp (halts id) x Settles s w :=
  hx.wp h (fun _ _ _ h => .inr ⟨rfl, h⟩) fun _ _ _ => .inl rfl

/-- If the flush fails, its error is the first one recorded. -/
theorem wp_halts_finish (hc : c.Obeys (halts id) haltRules view) (r : Runner c.σ) :
    Act.wp (halts id) (Runner.finish (H := H) c) Settles (r, none) none := by
  simp only [Runner.finish, Act.wp_bind, Act.wp_attempt, Runner.onRunner, Act.wp_zoom]
  refine Act.wp_mono (wp_halts_call hc .flush emits_flush r) fun res r₁ w' h => ?_
  cases res with
  | panic => exact .inl rfl
  | ok u =>
    obtain rfl := h.eq_none
    have hclose : Act.Preserves (halts id) (OnFirst fun _ w => w = none) (fun _ : H => False) (do
        let closed ← Act.attempt (Runner.onRunner (Runner.call c .close))
        Runner.onFirst (FirstError.offer_halt closed)
        Runner.close_rest
        Act.modify fun s => ({ s.1 with live := false }, s.2)) :=
      Act.Preserves.bind (.attempt (preserves_onRunner fun _ _ hw => preserves_call hc (.inr ⟨rfl, hw⟩)))
        fun closed => preserves_ending (fun _ _ h => h) closed
    refine hclose.wp (s := (r₁, none)) rfl ?_ fun _ _ _ => .inl rfl
    rintro u s _ hw
    obtain rfl := hw
    exact .inr ⟨rfl, fun e he => by cases he⟩
  | halt halt =>
    rw [Res.attempted_halt, Act.next_ok]
    refine (Act.wp_bind ..).2 (wp_halts_offer_halt h r₁ fun first hfirst => ?_)
    exact settles_of (preserves_abort hc recorded_offerable) hfirst

/-- The teardown records the error that ended the run before any other. -/
theorem wp_halts_teardown (hc : c.Obeys (halts id) haltRules view) {«end» : PumpEnd}
    (hend : ∀ e, w = some e → «end» = .failed e) (r : Runner c.σ) :
    Act.wp (halts id) (Pipeline.teardown (H := H) c «end») Settles (r, none) w := by
  have hnone : (∀ e, «end» ≠ .failed e) → w = none := by
    intro hne
    cases hw : w with
    | none => rfl
    | some e => exact absurd (hend e hw) (hne e)
  have habort : ∀ first, Recorded first w →
      Act.wp (halts id) (Runner.abort (H := H) c) Settles (r, first) w := fun first h =>
    settles_of (preserves_abort hc recorded_offerable) h
  cases «end» with
  | graceful =>
    obtain rfl := hnone fun e => by simp
    exact wp_halts_finish hc r
  | cancelled =>
    obtain rfl := hnone fun e => by simp
    exact wp_halts_finish hc r
  | failed e =>
    refine (Act.wp_bind ..).2 (habort (some e) fun e' he => ?_)
    cases hend e' he
    rfl
  | disconnected =>
    obtain rfl := hnone fun e => by simp
    exact (Act.wp_bind ..).2 (habort _ nofun)

/-- The run ends with the error that ended it. -/
theorem wp_halts_conclusion (hc : c.Obeys (halts id) haltRules view) {«end» : PumpEnd}
    (hend : ∀ e, w = some e → «end» = .failed e) (r : Runner c.σ) :
    Act.wp (halts id) (Pipeline.conclusion (H := H) c «end») (fun res _ w' => ∀ e, w' = some e →
      (∃ stats, res = .ok (stats, .error e)) ∨ res = .panic) (r, none) w := by
  refine (Act.wp_bind ..).2 (Act.wp_mono (wp_halts_teardown hc hend r) ?_)
  rintro res ⟨r₁, first⟩ w₁ (rfl | ⟨rfl, h⟩)
  · exact fun _ _ => .inr rfl
  · simp only [Act.next_ok, Act.wp_bind, Act.wp_get]
    refine (preserves_emitEvent (I := fun _ w => w = w₁) _ _).wp rfl ?_ ?_
    · rintro u s _ rfl e he
      obtain rfl : first = some e := h e he
      exact .inl ⟨_, rfl⟩
    · exact fun _ _ _ _ _ => .inr rfl

/-- A run that is ended because of something else only aborts. -/
theorem preserves_conclusion (hc : c.Obeys (halts id) haltRules view) (e : Error) :
    Act.Preserves (halts id) (fun _ w => w = w₀) B (Pipeline.conclusion c (.failed e)) := by
  have hJ : Offerable fun _ w => w = w₀ := fun _ _ h => h
  have hteardown : Act.Preserves (halts id) (OnFirst fun _ w => w = w₀) B
      (Pipeline.teardown c (.failed e)) :=
    Act.Preserves.bind (preserves_onFirst fun b => preserves_offer hJ e b) fun _ =>
      preserves_abort hc hJ
  refine Act.Preserves.bind hteardown fun _ => Act.Preserves.bind Act.Preserves.get fun s => ?_
  exact Act.Preserves.bind (preserves_emitEvent _ _) fun _ => Act.Preserves.pure _

end Runner

end PipeIo
