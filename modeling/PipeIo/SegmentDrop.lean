import PipeIo.Teardown

namespace PipeIo
set_option autoImplicit true

open Lib

/-- Run a task for at most `fuel` of its rounds. -/
def Task.runs (t : Task X Y) : Nat → t.S → Prog (Eff X Y) Ans (Option Exit)
  | 0, _ => .ret none
  | fuel + 1, s => t.round s >>= fun
    | .inl s' => t.runs fuel s'
    | .inr exit => .ret (some exit)

/-- What an upstream that has come to `p` sends. -/
def Stream : Nat → List (RecvResult (StageOp X)) → Prop
  | _, [] => True
  | p, .msg op :: rest => Permits op.signal p ∧ Stream (goes op.signal p) rest
  | p, .timedOut :: rest => Stream p rest
  | _, .disconnected :: _ => True

/-- How far a segment with the sink has come: the teardown calls made, whether it has dropped its
receiver and whether a flush has panicked since, and what it will still receive. -/
structure SegmentLife (X : Type) where
  phase : Nat
  dropped : Bool
  spoiled : Bool
  inbox : List (RecvResult (StageOp X))

namespace SegmentLife

def moved (w : SegmentLife X) (p : Nat) (spoiled : Bool) : SegmentLife X :=
  { w with phase := p, spoiled := spoiled }

@[simp] theorem moved_self (w : SegmentLife X) : w.moved w.phase w.spoiled = w := rfl

/-- The life after an answered request. -/
def after (w : SegmentLife X) : (e : Eff X Y) → Ans e → SegmentLife X
  | .flush, a => w.moved (w.phase + 1) (w.spoiled || (w.dropped && a.isNone))
  | .close, _ => w.moved (w.phase + 1) w.spoiled
  | .dropReceiver, _ => { w with dropped := true }
  | .recv _, _ => { w with inbox := w.inbox.tail }
  | _, _ => w

/-- How an operation on the chain moves the life of the segment. -/
def Moves (w : SegmentLife X) (k : Option Signal) (panicked : Prop) (w' : SegmentLife X) : Prop :=
  match k with
  | none | some .tick => w'.phase = w.phase ∧ w'.spoiled = w.spoiled
  | some .flush => w'.phase ≤ max w.phase 1 ∧ w'.spoiled = w.spoiled
  | some .close => w'.phase = 2 ∧ w'.spoiled = w.spoiled
  | some .abort => (w'.phase = 2 ∧ w'.spoiled = w.spoiled ∧ (panicked → w.phase < 2)) ∨
      (panicked ∧ w.phase = 0 ∧ w'.phase = 1 ∧ w'.spoiled = (w.spoiled || w.dropped))

/-- The sink was flushed and closed, unless the flush panicked in the abort of `run`. -/
def Settled (w : SegmentLife X) : Prop :=
  (w.phase = 2 ∧ w.spoiled = false) ∨ (w.phase = 1 ∧ w.spoiled = true)

end SegmentLife

/-- When a segment with the sink may make a request, and what it is answered. -/
def segment : Spec (Eff X Y) Ans (SegmentLife X) where
  pre e w := match e with
    | .flush => w.phase = 0
    | .close => w.phase = 1
    | .closeSource | .deadLetter .flush | .deadLetter .close => False
    | _ => True
  post e w a w' := Calm e a ∧ w' = w.after e a ∧ match e, a with
    | .recv _, r => r = w.inbox.headD .disconnected
    | _, _ => True

/-- What an operation does to the life of the segment. -/
def segmentRules : Rules SinkFlags (SegmentLife X) where
  pre k t w := t = flagsAt w.phase ∧ match k with
    | some .flush => w.phase = 0 ∧ w.dropped = false
    | some .close => w.phase = 1
    | some .abort => w.phase ≤ 2
    | none | some .tick => True
  post k r _ w t' w' := t' = flagsAt w'.phase ∧ w' = w.moved w'.phase w'.spoiled ∧
    w.Moves k (r = .panic) w' ∧ (k = some .flush → ∀ n, r = .ok n → w'.phase = 1)

theorem Emits.cases {k : Option Signal} (h : Emits k) :
    k = none ∨ k = some .tick ∨ k = some .flush := by
  rcases k with _ | k
  · exact .inl rfl
  · cases k with
    | tick => exact .inr (.inl rfl)
    | flush => exact .inr (.inr rfl)
    | close | abort => exact h.elim

theorem segmentRules_lawful : (segmentRules (X := X)).Lawful (segment (X := X) (Y := Y)) where
  quiet := by
    intro t w e hp he
    have hkeep : ∀ w', w' = w → (segmentRules (X := X)).post none (.ok 0) t w t w' := by
      intro w' hw
      rw [hw]
      exact ⟨hp.1, rfl, ⟨rfl, rfl⟩, by simp⟩
    cases e with
    | deadLetter op =>
      cases op with
      | write f => exact ⟨trivial, fun a w' h => hkeep w' h.2.1⟩
      | flush | close => exact he.elim
    | observe | sleep | note => exact ⟨trivial, fun a w' h => hkeep w' h.2.1⟩
    | _ => exact he.elim
  refl h := ⟨h.1, rfl, ⟨rfl, rfl⟩, by simp⟩
  item _ h := ⟨h.1, trivial⟩
  keep := by
    intro k t w n t' w' hk hp h
    obtain ⟨ht, hw, ⟨hphase, -⟩, -⟩ := h
    refine ⟨ht, ?_⟩
    rcases hk.cases with rfl | rfl | rfl
    · trivial
    · trivial
    · rw [hw]
      exact ⟨hphase.trans hp.2.1, hp.2.2⟩
  seq := by
    intro k n t w t' w' r t'' w'' hk h h'
    obtain ⟨ht, hw, ⟨hphase, hspoiled⟩, -⟩ := h
    obtain ⟨ht', hw', hmoves, hflush⟩ := h'
    have hto : w'' = w.moved w''.phase w''.spoiled := by
      rw [hw', hw]
      rfl
    refine ⟨ht', hto, ?_, ?_⟩
    · rcases hk.cases with rfl | rfl | rfl
      · exact ⟨hmoves.1.trans hphase, hmoves.2.trans hspoiled⟩
      · exact ⟨hmoves.1.trans hphase, hmoves.2.trans hspoiled⟩
      · exact ⟨hphase ▸ hmoves.1, hmoves.2.trans hspoiled⟩
    · intro hk m hm
      cases r with
      | ok a => exact hflush hk a rfl
      | halt | panic => cases hm
  fail h := ⟨h.1, h.2.1, h.2.2.1, by simp⟩
  crash h := ⟨h.1, h.2.1, h.2.2.1, by simp⟩
  lift := by
    intro k r t w t' w' hk h hr
    obtain ⟨ht, hw, ⟨hphase, hspoiled⟩, -⟩ := h
    refine ⟨ht, hw, ?_, fun _ n hn => absurd hn (hr n)⟩
    rcases hk.cases with rfl | rfl | rfl
    · exact ⟨hphase, hspoiled⟩
    · exact ⟨hphase, hspoiled⟩
    · exact ⟨hphase ▸ Nat.le_max_left _ _, hspoiled⟩

section Segment

variable {X Y H φ : Type} {w : SegmentLife X}

/-- The observer is calm, so an event changes nothing. -/
theorem wp_segment_emitEvent {σ : Type} {active : Bool} {event : Event}
    {Q : Res H Unit → σ → SegmentLife X → Prop} {s : σ} (hQ : Q (.ok ()) s w) :
    Act.wp (segment (X := X) (Y := Y)) (emitEvent active event) Q s w := by
  cases active with
  | false => exact hQ
  | true =>
    refine (Act.wp_bind ..).2 ⟨trivial, fun a w' ha => ?_⟩
    obtain rfl : a = some () := ha.1
    obtain rfl : w' = w := ha.2.1
    exact hQ

/-- The sink is flushed if it was not. -/
theorem wp_segment_flushOnce {id : StageId} {Q : Res Halt Unit → SinkFlags × Ctx → SegmentLife X → Prop}
    {ctx : Ctx} (hdone : 1 ≤ w.phase → Q (.ok ()) (flagsAt w.phase, ctx) w)
    (hcall : w.phase = 0 → ∀ a, Q (sinkRes id a) (flagsAt 1, ctx)
      (w.moved 1 (w.spoiled || (w.dropped && a.isNone)))) :
    Act.wp (segment (X := X) (Y := Y)) (flushOnce id) Q (flagsAt w.phase, ctx) w := by
  rw [wp_flushOnce]
  by_cases hp : w.phase = 0
  · have hflags : { flagsAt w.phase with flushed := true } = flagsAt 1 := by simp [flagsAt, hp]
    rw [if_neg (by simp [flagsAt, hp]), hflags]
    refine ⟨hp, fun a w' ha => ?_⟩
    obtain rfl : w' = w.moved (w.phase + 1) (w.spoiled || (w.dropped && a.isNone)) := ha.2.1
    rw [hp]
    exact hcall hp a
  · have hp : 1 ≤ w.phase := Nat.pos_of_ne_zero hp
    rw [if_pos (by simp [flagsAt, hp])]
    exact hdone hp

/-- The sink is closed if it was not. -/
theorem wp_segment_closeOnce {id : StageId} {Q : Res Halt Unit → SinkFlags × Ctx → SegmentLife X → Prop}
    {ctx : Ctx} (hp : 1 ≤ w.phase) (hdone : 2 ≤ w.phase → Q (.ok ()) (flagsAt w.phase, ctx) w)
    (hcall : w.phase = 1 → ∀ a, Q (sinkRes id a) (flagsAt 2, ctx) (w.moved 2 w.spoiled)) :
    Act.wp (segment (X := X) (Y := Y)) (closeOnce id) Q (flagsAt w.phase, ctx) w := by
  rw [wp_closeOnce]
  by_cases hp' : w.phase = 1
  · have hflags : { flagsAt w.phase with closed := true } = flagsAt 2 := by simp [flagsAt, hp']
    rw [if_neg (by simp [flagsAt, hp']), hflags]
    refine ⟨hp', fun a w' ha => ?_⟩
    obtain rfl : w' = w.moved (w.phase + 1) w.spoiled := ha.2.1
    rw [hp']
    exact hcall hp' a
  · have hp' : 2 ≤ w.phase := by omega
    rw [if_pos (by simp [flagsAt, hp'])]
    exact hdone hp'

theorem sinkRes_panic {id : StageId} {a : Option (Except BoxError Unit)}
    (h : sinkRes id a = .panic) : a = none := by
  rcases a with _ | ⟨e | u⟩
  · rfl
  · cases h
  · cases h

/-- What the sink's own calls do. -/
theorem sink_fn_segment (id : StageId) :
    (sink_fn (X := X) (Y := Y) id).Obeys segment segmentRules fun t => t := by
  intro op s w hp
  obtain ⟨t, ctx⟩ := s
  obtain ⟨ht, hp⟩ := hp
  replace ht : t = flagsAt w.phase := ht
  subst ht
  have hmid : ∀ (r : Res Halt Nat) w', w' = w →
      (segmentRules (X := X)).post none r (flagsAt w.phase) w (flagsAt w.phase) w' ∧
        Ctx.Kept ctx ctx := by
    intro r w' hw
    rw [hw]
    exact ⟨⟨rfl, rfl, ⟨rfl, rfl⟩, by simp⟩, Ctx.Kept.refl _⟩
  cases op with
  | process item =>
    simp only [sink_fn, Act.wp_bind, Act.wp_perform, Act.next_ok, wp_sinkCall]
    refine ⟨trivial, fun a w' ha => ?_⟩
    rcases a with _ | ⟨_ | _⟩
    · exact hmid _ w' ha.2.1
    · exact hmid _ w' ha.2.1
    · exact hmid _ w' ha.2.1
  | tick => exact ⟨⟨rfl, rfl, ⟨rfl, rfl⟩, by simp [StageOp.signal]⟩, Ctx.Kept.refl _⟩
  | flush =>
    obtain ⟨hp, hd⟩ := hp
    refine (Act.wp_bind ..).2 (wp_segment_flushOnce (fun h => ?_) fun _ a => ?_)
    · omega
    · have hsame : (w.spoiled || (w.dropped && a.isNone)) = w.spoiled := by simp [hd]
      rw [hsame]
      rcases a with _ | ⟨_ | _⟩
      all_goals exact ⟨⟨rfl, rfl, ⟨Nat.le_max_right _ _, rfl⟩, fun _ _ _ => rfl⟩, Ctx.Kept.refl _⟩
  | close =>
    have hp : w.phase = 1 := hp
    refine (Act.wp_bind ..).2 (wp_segment_closeOnce (by omega) (fun h => ?_) fun _ a => ?_)
    · omega
    · rcases a with _ | ⟨_ | _⟩
      all_goals exact ⟨⟨rfl, rfl, ⟨rfl, rfl⟩, by simp [StageOp.signal]⟩, Ctx.Kept.refl _⟩
  | abort =>
    have hp : w.phase ≤ 2 := hp
    simp only [sink_fn, Act.wp_bind, Act.wp_attempt]
    have hover : ∀ r : Res Halt Nat, r ≠ .panic →
        (segmentRules (X := X)).post (some .abort) r (flagsAt w.phase) w (flagsAt 2)
          (w.moved 2 w.spoiled) ∧ Ctx.Kept ctx ctx := by
      intro r hr
      exact ⟨⟨rfl, rfl, .inl ⟨rfl, rfl, fun h => absurd h hr⟩, by simp⟩, Ctx.Kept.refl _⟩
    -- the close that follows a flush without a panic
    have hclose : ∀ p, 1 ≤ p → p ≤ 2 → (1 ≤ w.phase → p = w.phase) →
        ∀ Q : Res Halt Unit → SinkFlags × Ctx → SegmentLife X → Prop,
        (∀ r, r ≠ .panic → Q r (flagsAt 2, ctx) (w.moved 2 w.spoiled)) →
        (w.phase < 2 → Q .panic (flagsAt 2, ctx) (w.moved 2 w.spoiled)) →
        Act.wp (segment (X := X) (Y := Y)) (closeOnce id) Q (flagsAt p, ctx)
          (w.moved p w.spoiled) := by
      intro p h1 h2 hsame Q hQ hpanic
      refine wp_segment_closeOnce (w := w.moved p w.spoiled) h1 (fun h => ?_) fun h a => ?_
      · obtain rfl : p = 2 := Nat.le_antisymm h2 h
        exact hQ _ (by simp)
      · obtain rfl : p = 1 := h
        have hlt : w.phase < 2 := by
          by_contra hge
          have := hsame (by omega)
          omega
        rcases a with _ | ⟨e | u⟩
        · exact hpanic hlt
        · exact hQ _ (by simp [sinkRes])
        · exact hQ _ (by simp [sinkRes])
    have hpanicked : w.phase < 2 → (segmentRules (X := X)).post (some .abort) .panic
        (flagsAt w.phase) w (flagsAt 2) (w.moved 2 w.spoiled) ∧ Ctx.Kept ctx ctx := fun hlt =>
      ⟨⟨rfl, rfl, .inl ⟨rfl, rfl, fun _ => hlt⟩, by simp⟩, Ctx.Kept.refl _⟩
    refine wp_segment_flushOnce (fun h => ?_) fun h a => ?_
    · simp only [Res.attempted_ok, Act.next_ok, Act.wp_bind, Act.wp_attempt]
      refine hclose w.phase h hp (fun _ => rfl) _ (fun r hr => ?_) hpanicked
      cases r with
      | ok u => exact hover _ (by simp)
      | halt e => exact hover _ (by simp)
      | panic => exact absurd rfl hr
    · rcases a with _ | ⟨e | u⟩
      · exact ⟨⟨rfl, rfl, .inr ⟨rfl, h, rfl, by simp [SegmentLife.moved]⟩, by simp⟩, Ctx.Kept.refl _⟩
      · have hsame : (w.spoiled || (w.dropped && (some (Except.error e : Except BoxError Unit)).isNone)) =
            w.spoiled := by simp
        rw [hsame]
        simp only [sinkRes, Res.attempted_halt, Act.next_ok, Act.wp_bind, Act.wp_attempt]
        refine hclose 1 (Nat.le_refl 1) (by omega) (by omega) _ (fun r hr => ?_) hpanicked
        cases r with
        | ok u => exact hover _ (by simp)
        | panic => exact absurd rfl hr
        | halt second =>
          cases second with
          | disconnected => exact hover _ (by simp)
          | failed second =>
            simp only [Res.attempted_halt, Act.next_ok, Act.wp_bind, Act.wp_get]
            apply wp_segment_emitEvent
            exact hover _ (by simp)
      · have hsame : (w.spoiled || (w.dropped && (some (Except.ok u : Except BoxError Unit)).isNone)) =
            w.spoiled := by simp
        rw [hsame]
        simp only [sinkRes, Res.attempted_ok, Act.next_ok, Act.wp_bind, Act.wp_attempt]
        refine hclose 1 (Nat.le_refl 1) (by omega) (by omega) _ (fun r hr => ?_) hpanicked
        cases r with
        | ok u => exact hover _ (by simp)
        | halt e => exact hover _ (by simp)
        | panic => exact absurd rfl hr

variable {c : StageFn X Y X} {view : c.σ → SinkFlags} {s : ChannelSegment c.σ}

/-- A segment that has come to `w`. -/
structure ChannelSegment.At (view : σ → SinkFlags) (w : SegmentLife X) (s : ChannelSegment σ) :
    Prop where
  flags : view s.chain = flagsAt w.phase
  bound : w.phase ≤ 2
  receiver : w.dropped = !s.rx

/-- A segment whose chain was not closed or aborted yet. -/
structure ChannelSegment.Live (view : σ → SinkFlags) (w : SegmentLife X) (s : ChannelSegment σ) :
    Prop where
  here : s.At view w
  live : s.live = true
  rx : s.rx = true
  spoiled : w.spoiled = false

/-- A segment that `drop` leaves alone. -/
structure ChannelSegment.Dead (view : σ → SinkFlags) (w : SegmentLife X) (s : ChannelSegment σ) :
    Prop where
  here : s.At view w
  live : s.live = false
  settled : w.Settled

theorem ChannelSegment.wp_chainFn (h : s.At view w) (hc : c.Obeys segment segmentRules view)
    (op : StageOp X) (hp : (segmentRules (X := X)).pre op.signal (view s.chain) w) :
    Act.wp segment (ChannelSegment.chainFn c op) (fun r s' w' =>
      s'.At view w' ∧ s'.live = s.live ∧ s'.rx = s.rx ∧ w' = w.moved w'.phase w'.spoiled ∧
        w.Moves op.signal (r = .panic) w' ∧
          (op.signal = some .flush → ∀ n, r = .ok n → w'.phase = 1)) s w := by
  simp only [ChannelSegment.chainFn, Act.wp_bind, wp_note]
  refine ⟨trivial, fun _ v hv => ?_⟩
  obtain rfl : v = w := hv.2.1
  simp only [Act.next_ok, Act.wp_bind, Act.wp_attempt, Act.wp_zoom]
  refine Act.wp_mono (hc op (s.chain, s.ctx) v hp) fun r t w' ht => ?_
  obtain ⟨⟨hflags, hw, hmoves, hflush⟩, -⟩ := ht
  have hbound : w'.phase ≤ 2 := by
    have hb := h.bound
    cases op with
    | process | tick => exact Nat.le_trans (Nat.le_of_eq hmoves.1) hb
    | flush => exact Nat.le_trans hmoves.1 (by omega)
    | close => exact Nat.le_of_eq hmoves.1
    | abort =>
      rcases hmoves with h | h
      · exact Nat.le_of_eq h.1
      · exact Nat.le_trans (Nat.le_of_eq h.2.2.1) (by decide)
  have hat : ChannelSegment.At view w' { s with chain := t.1, ctx := t.2 } := by
    refine ⟨hflags, hbound, ?_⟩
    rw [hw]
    exact h.receiver
  cases r with
  | ok n => exact ⟨hat, rfl, rfl, hw, hmoves, hflush⟩
  | panic => exact ⟨hat, rfl, rfl, hw, hmoves, hflush⟩
  | halt e =>
    refine ⟨trivial, fun _ v' hv' => ?_⟩
    obtain rfl : v' = w' := hv'.2.1
    exact ⟨hat, rfl, rfl, hw, hmoves, hflush⟩

/-- Aborting the chain. -/
theorem ChannelSegment.wp_abort {f : φ} {offer : Error → Bool → Code X Y H (ChannelSegment c.σ × φ) Unit}
    (hoffer : ∀ e b s (w : SegmentLife X) (Q : Res H Unit → ChannelSegment c.σ × φ → SegmentLife X → Prop),
      (∀ f', Q (.ok ()) (s.1, f') w) → Act.wp segment (offer e b) Q s w)
    (h : s.At view w) (hc : c.Obeys segment segmentRules view)
    {Q : Res H Unit → ChannelSegment c.σ × φ → SegmentLife X → Prop}
    (hok : ∀ s' f', s'.At view (w.moved 2 w.spoiled) → s'.live = false → s'.rx = s.rx →
      Q (.ok ()) (s', f') (w.moved 2 w.spoiled))
    (hpanic : ∀ s' w', s'.At view w' → s'.live = false → s'.rx = s.rx →
      w' = w.moved w'.phase w'.spoiled → w.Moves (some .abort) True w' → Q .panic (s', f) w') :
    Act.wp segment (ChannelSegment.abort c offer) Q (s, f) w := by
  simp only [ChannelSegment.abort, Act.wp_bind, Act.wp_modify, Act.next_ok, Act.wp_attempt,
    Act.wp_zoom]
  have h' : ChannelSegment.At view w { s with live := false } := ⟨h.flags, h.bound, h.receiver⟩
  refine Act.wp_mono (ChannelSegment.wp_chainFn h' hc .abort ⟨h.flags, h.bound⟩) fun r s' w' hr => ?_
  obtain ⟨hat, hlive, hrx, hw, hmoves, -⟩ := hr
  have hover : r ≠ .panic → w' = w.moved 2 w.spoiled := by
    intro hne
    rcases hmoves with hm | hm
    · rw [hw, hm.1, hm.2.1]
    · exact absurd hm.1 hne
  cases r with
  | ok n =>
    have hw' := hover (by simp)
    rw [hw'] at hat ⊢
    exact hok s' f hat hlive hrx
  | halt e =>
    have hw' := hover (by simp)
    rw [hw'] at hat ⊢
    cases e with
    | disconnected => exact hok s' f hat hlive hrx
    | failed e =>
      simp only [Res.attempted_halt, Act.next_ok, Act.wp_bind, Act.wp_get]
      exact hoffer _ _ _ _ _ fun f' => hok s' f' hat hlive hrx
  | panic =>
    refine hpanic s' w' hat hlive hrx hw ?_
    simpa [SegmentLife.Moves, StageOp.signal] using hmoves

theorem wp_segment_offer {σ : Type} {e : Error} {b : Bool}
    {Q : Res H Unit → σ → SegmentLife X → Prop} {s : σ} (hQ : Q (.ok ()) s w) :
    Act.wp (segment (X := X) (Y := Y)) (SharedFirst.offer e b) Q s w := by
  refine (Act.wp_bind ..).2 ⟨trivial, fun a w' ha => ?_⟩
  obtain rfl : w' = w := ha.2.1
  cases a with
  | true => exact hQ
  | false => exact wp_segment_emitEvent hQ

theorem wp_segment_first_offer {e : Error} {b : Bool}
    {Q : Res H Unit → FirstError → SegmentLife X → Prop} {f : FirstError}
    (hQ : ∀ f', Q (.ok ()) f' w) :
    Act.wp (segment (X := X) (Y := Y)) (FirstError.offer e b) Q f w := by
  simp only [FirstError.offer, Act.wp_bind, Act.wp_get, Act.next_ok]
  cases f with
  | none => exact hQ _
  | some first => exact wp_segment_emitEvent (hQ _)

/-- The abort that `run` itself makes, with its receiver dropped: it settles the sink, or the flush
panics. -/
theorem ChannelSegment.wp_abort_run (h : s.At view w) (hc : c.Obeys segment segmentRules view)
    (hrx : s.rx = false) (hspoiled : w.spoiled = false)
    {Q : Res H Unit → ChannelSegment c.σ → SegmentLife X → Prop}
    (hok : ∀ s' w', s'.Dead view w' → Q (.ok ()) s' w')
    (hpanic : ∀ s' w', s'.Dead view w' → Q .panic s' w') :
    Act.wp segment (ChannelSegment.abort_run c) Q s w := by
  simp only [ChannelSegment.abort_run, Act.wp_zoom]
  have hdropped : w.dropped = true := by rw [h.receiver, hrx]; rfl
  refine ChannelSegment.wp_abort (fun e b s w Q hQ => wp_segment_offer (hQ s.2)) h hc ?_ ?_
  · intro s' _ hat hlive _
    exact hok s' _ ⟨hat, hlive, .inl ⟨rfl, hspoiled⟩⟩
  · intro s' w' hat hlive _ hw hmoves
    refine hpanic s' w' ⟨hat, hlive, ?_⟩
    rcases hmoves with hm | hm
    · exact .inl ⟨hm.1, hm.2.1.trans hspoiled⟩
    · exact .inr ⟨hm.2.2.1, by rw [hm.2.2.2, hdropped, Bool.or_true]⟩

theorem ChannelSegment.wp_drop_rx (h : s.At view w)
    {Q : Res H Unit → ChannelSegment c.σ → SegmentLife X → Prop}
    (hQ : ∀ s' w', s'.At view w' → s'.live = s.live → s'.rx = false →
      w'.phase = w.phase → w'.spoiled = w.spoiled → w'.inbox = w.inbox → Q (.ok ()) s' w') :
    Act.wp (segment (X := X) (Y := Y)) ChannelSegment.drop_rx Q s w := by
  simp only [ChannelSegment.drop_rx, Act.wp_bind, Act.wp_get, Act.next_ok]
  cases hrx : s.rx with
  | false => exact hQ s w h rfl hrx rfl rfl rfl
  | true =>
    simp only [if_true, Act.wp_bind, Act.wp_modify, Act.next_ok, Act.wp_perform]
    refine ⟨trivial, fun _ w' hw => ?_⟩
    obtain rfl : w' = { w with dropped := true } := hw.2.1
    exact hQ _ _ ⟨h.flags, h.bound, rfl⟩ rfl rfl rfl rfl rfl

/-- An operation that does not close the chain and returns moves the segment on with its stream. -/
theorem SegmentLife.Moves.goes {op : StageOp X} {w' : SegmentLife X} {r : Res Halt Nat} {n : Nat}
    (hr : r = .ok n) (hmoves : w.Moves op.signal (r = .panic) w')
    (hflush : op.signal = some .flush → ∀ n, r = .ok n → w'.phase = 1) (hop : op.closing = false) :
    w'.phase = PipeIo.goes op.signal w.phase := by
  cases op with
  | process | tick => exact hmoves.1
  | flush => exact hflush rfl n hr
  | close | abort => cases hop

/-- One that closes the chain leaves the sink flushed and closed, unless it panics. -/
theorem SegmentLife.Moves.closed {op : StageOp X} {w' : SegmentLife X} {r : Res Halt Nat}
    (hr : r ≠ .panic) (hmoves : w.Moves op.signal (r = .panic) w') (hop : op.closing = true) :
    w'.phase = 2 ∧ w'.spoiled = w.spoiled := by
  cases op with
  | process | tick | flush => cases hop
  | close => exact hmoves
  | abort =>
    rcases hmoves with hm | hm
    · exact ⟨hm.1, hm.2.1⟩
    · exact absurd hm.1 hr

/-- With the receiver at hand a panic of the flush does no harm. -/
theorem SegmentLife.Moves.unspoiled {k : Option Signal} {w' : SegmentLife X} {P : Prop}
    (hmoves : w.Moves k P w') (hd : w.dropped = false) : w'.spoiled = w.spoiled := by
  cases k with
  | none => exact hmoves.2
  | some k =>
    cases k with
    | tick | flush | close => exact hmoves.2
    | abort =>
      rcases hmoves with hm | hm
      · exact hm.2.1
      · rw [hm.2.2.2, hd, Bool.or_false]

theorem ChannelSegment.Live.dropped (h : s.Live view w) : w.dropped = false := by
  rw [h.here.receiver, h.rx]
  rfl

/-- What an operation does in `run`. -/
theorem ChannelSegment.Live.wp_op (h : s.Live view w) (hc : c.Obeys segment segmentRules view)
    {op : StageOp X} (hperm : Permits op.signal w.phase ∨ op = .tick)
    (hin : Stream (goes op.signal w.phase) w.inbox)
    {Q : Res H (Option Tally) → ChannelSegment c.σ → SegmentLife X → Prop}
    (hgo : ∀ s' w', s'.Live view w' → Stream w'.phase w'.inbox → w'.inbox = w.inbox →
      Q (.ok none) s' w')
    (hend : ∀ tally s' w', s'.Dead view w' → Q (.ok (some tally)) s' w')
    (hpanic : ∀ s' w', s'.Dead view w' ∨ s'.Live view w' → Q .panic s' w') :
    Act.wp segment (do
      match ← Act.attempt (ChannelSegment.chainFn c op) with
      | .ok written =>
        Act.modify fun s =>
          { s with ctx.tally.items_out := s.ctx.tally.items_out + written }
        if op.closing then
          Act.modify fun s => { s with live := false }
          pure (some (← Act.get).ctx.tally)
        else pure none
      | .error halt =>
        ChannelSegment.drop_rx
        match halt with
        | .failed e => SharedFirst.offer e (← Act.get).ctx.observer
        | .disconnected => pure ()
        if op.closing then Act.modify fun s => { s with live := false }
        else ChannelSegment.abort_run c
        pure (some (← Act.get).ctx.tally)) Q s w := by
  have hpre : (segmentRules (X := X)).pre op.signal (view s.chain) w := by
    refine ⟨h.here.flags, ?_⟩
    rcases hperm with hperm | rfl
    · cases op with
      | process | tick => trivial
      | flush => exact ⟨hperm, h.dropped⟩
      | close => exact hperm
      | abort => exact h.here.bound
    · trivial
  simp only [Act.wp_bind, Act.wp_attempt]
  refine Act.wp_mono (ChannelSegment.wp_chainFn h.here hc op hpre) fun r s' w' hr => ?_
  obtain ⟨hat, hlive, hrx, hw, hmoves, hflush⟩ := hr
  have hspoiled : w'.spoiled = false := (hmoves.unspoiled h.dropped).trans h.spoiled
  have hinbox : w'.inbox = w.inbox := by rw [hw]; rfl
  cases r with
  | panic => exact hpanic s' w' (.inr ⟨hat, hlive.trans h.live, hrx.trans h.rx, hspoiled⟩)
  | ok n =>
    simp only [Res.attempted_ok, Act.next_ok, Act.wp_bind, Act.wp_modify]
    cases hop : op.closing with
    | true =>
      have hclosed := hmoves.closed (by simp) hop
      exact hend _ _ w' ⟨⟨hat.flags, hat.bound, hat.receiver⟩, rfl, .inl ⟨hclosed.1, hspoiled⟩⟩
    | false =>
      refine hgo _ w' ⟨⟨hat.flags, hat.bound, hat.receiver⟩, hlive.trans h.live, hrx.trans h.rx,
        hspoiled⟩ ?_ hinbox
      rw [hmoves.goes rfl hflush hop, hinbox]
      exact hin
  | halt e =>
    simp only [Res.attempted_halt, Act.next_ok, Act.wp_bind]
    refine ChannelSegment.wp_drop_rx hat fun s₁ w₁ hat₁ _ hrx₁ hphase₁ hspoiled₁ _ => ?_
    have hrest : Act.wp (segment (X := X) (Y := Y)) (do
        if op.closing then Act.modify fun s => { s with live := false }
        else ChannelSegment.abort_run c
        pure (some (← Act.get).ctx.tally)) Q s₁ w₁ := by
      cases hop : op.closing with
      | true =>
        have hclosed := hmoves.closed (by simp) hop
        exact hend _ _ w₁ ⟨⟨hat₁.flags, hat₁.bound, hat₁.receiver⟩, rfl,
          .inl ⟨hphase₁.trans hclosed.1, hspoiled₁.trans hspoiled⟩⟩
      | false =>
        exact (Act.wp_bind ..).2 (ChannelSegment.wp_abort_run hat₁ hc hrx₁
          (hspoiled₁.trans hspoiled) (fun s₂ w₂ hdead => hend _ s₂ w₂ hdead)
            fun s₂ w₂ hdead => hpanic s₂ w₂ (.inl hdead))
    cases e with
    | disconnected => exact hrest
    | failed e =>
      simp only [Act.next_ok, Act.wp_bind, Act.wp_get]
      exact wp_segment_offer hrest

/-- One round of `run`. -/
theorem ChannelSegment.Live.wp_run (h : s.Live view w) (hc : c.Obeys segment segmentRules view)
    (hin : Stream w.phase w.inbox) {idle_tick : Option Duration}
    {Q : Res H (Option Tally) → ChannelSegment c.σ → SegmentLife X → Prop}
    (hgo : ∀ s' w', s'.Live view w' → Stream w'.phase w'.inbox →
      w'.inbox.length < w.inbox.length → Q (.ok none) s' w')
    (hend : ∀ tally s' w', s'.Dead view w' → Q (.ok (some tally)) s' w')
    (hpanic : ∀ s' w', s'.Dead view w' ∨ s'.Live view w' → Q .panic s' w') :
    Act.wp segment (ChannelSegment.run c idle_tick) Q s w := by
  have hreceived : ∀ inbox : List (RecvResult (StageOp X)),
      ChannelSegment.Live view { w with inbox := inbox } s :=
    fun inbox => ⟨⟨h.here.flags, h.here.bound, h.here.receiver⟩, h.live, h.rx, h.spoiled⟩
  have hgone : ∀ w₁, ChannelSegment.Live view w₁ s → Act.wp (segment (X := X) (Y := Y)) (do
      ChannelSegment.drop_rx
      ChannelSegment.abort_run c
      pure (some (← Act.get).ctx.tally)) Q s w₁ := by
    intro w₁ h₁
    refine (Act.wp_bind ..).2 (ChannelSegment.wp_drop_rx h₁.here
      fun s₂ w₂ hat₂ _ hrx₂ _ hspoiled₂ _ => ?_)
    exact (Act.wp_bind ..).2 (ChannelSegment.wp_abort_run hat₂ hc hrx₂ (hspoiled₂.trans h₁.spoiled)
      (fun s₃ w₃ hdead => hend _ s₃ w₃ hdead) fun s₃ w₃ hdead => hpanic s₃ w₃ (.inl hdead))
  simp only [ChannelSegment.run, ChannelSegment.recv, Act.wp_bind, Act.wp_get, Act.next_ok, h.rx,
    if_true, Act.wp_perform]
  refine ⟨trivial, fun a w₁ ha => ?_⟩
  obtain ⟨-, rfl, ha⟩ := ha
  replace ha : a = w.inbox.headD .disconnected := ha
  cases hinbox : w.inbox with
  | nil =>
    rw [hinbox] at ha
    subst ha
    exact hgone _ (hreceived _)
  | cons r rest =>
    rw [hinbox] at ha hin
    have ha : a = r := ha
    subst ha
    have hrest : { w with inbox := w.inbox.tail } = { w with inbox := rest } := by rw [hinbox]; rfl
    have hshort : rest.length < w.inbox.length := by rw [hinbox]; exact Nat.lt_succ_self _
    rw [show w.after (.recv idle_tick : Eff X Y) a = { w with inbox := rest } from hrest]
    cases a with
    | msg op =>
      refine (hreceived rest).wp_op hc (.inl hin.1) hin.2 (fun s' w' hlive hstream hsame => ?_)
        hend hpanic
      exact hgo s' w' hlive hstream (by rw [hsame]; exact hshort)
    | timedOut =>
      refine (Act.wp_bind ..).2 (wp_segment_emitEvent ?_)
      refine (hreceived rest).wp_op hc (.inr rfl) hin (fun s' w' hlive hstream hsame => ?_)
        hend hpanic
      exact hgo s' w' hlive hstream (by rw [hsame]; exact hshort)
    | disconnected => exact hgone _ (hreceived rest)

/-- The attempts of `Drop`: each panic moves past the call that panicked. -/
theorem ChannelSegment.wp_retries (hc : c.Obeys segment segmentRules view) (n : Nat)
    {s : ChannelSegment c.σ} {w : SegmentLife X} {f : FirstError} (h : s.At view w)
    (hd : w.dropped = false) (hspoiled : w.spoiled = false) (hn : 3 ≤ n + w.phase)
    {Q : Res H Unit → ChannelSegment c.σ × FirstError → SegmentLife X → Prop}
    (hQ : ∀ s' f' w', s'.Dead view w' → Q (.ok ()) (s', f') w') :
    Act.wp segment (ChannelSegment.retries c n) Q (s, f) w := by
  induction n generalizing s w with
  | zero =>
    have := h.bound
    omega
  | succ n ih =>
    simp only [ChannelSegment.retries, Act.wp_bind, Act.wp_contain]
    refine ChannelSegment.wp_abort (fun e b s w Q hQ => ?_) h hc ?_ ?_
    · exact (Act.wp_zoom ..).2 (wp_segment_first_offer hQ)
    · intro s' f' hat hlive _
      exact hQ s' f' _ ⟨hat, hlive, .inl ⟨rfl, hspoiled⟩⟩
    · intro s' w' hat _ _ hw hmoves
      have hsame := hmoves.unspoiled hd
      have hd' : w'.dropped = false := by rw [hw]; exact hd
      refine ih hat hd' (hsame.trans hspoiled) ?_
      rcases hmoves with hm | hm
      · have := hm.2.2 trivial
        omega
      · omega

/-- `Drop` settles the sink. -/
theorem ChannelSegment.wp_drop (hc : c.Obeys segment segmentRules view)
    (h : s.Dead view w ∨ s.Live view w) {Q : Res H Unit → ChannelSegment c.σ → SegmentLife X → Prop}
    (hQ : ∀ s' w', w'.Settled → Q (.ok ()) s' w') :
    Act.wp segment (ChannelSegment.drop c) Q s w := by
  have hfields : ∀ s₁ w₁, ChannelSegment.Dead view w₁ s₁ → Act.wp (segment (X := X) (Y := Y)) (do
      ChannelSegment.drop_rx
      request .dropSender
      request .dropDone) Q s₁ w₁ := by
    intro s₁ w₁ h₁
    refine (Act.wp_bind ..).2 (ChannelSegment.wp_drop_rx h₁.here
      fun s₂ w₂ _ _ _ hphase hspoiled _ => ?_)
    have hsettled : w₂.Settled := by
      rw [SegmentLife.Settled, hphase, hspoiled]
      exact h₁.settled
    simp only [Act.next_ok, Act.wp_bind, Act.wp_perform]
    refine ⟨trivial, fun _ w₃ h₃ => ⟨trivial, fun _ w₄ h₄ => ?_⟩⟩
    obtain rfl : w₃ = w₂ := h₃.2.1
    obtain rfl : w₄ = w₃ := h₄.2.1
    exact hQ s₂ w₄ hsettled
  refine (Act.wp_bind ..).2 ?_
  simp only [ChannelSegment.drop_segment, Act.wp_bind, Act.wp_get, Act.next_ok]
  rcases h with h | h
  · rw [h.live]
    exact hfields s w h
  · simp only [h.live, if_true, Act.wp_zoom, Act.wp_bind]
    refine ChannelSegment.wp_retries hc 3 h.here h.dropped h.spoiled (Nat.le_add_right 3 _)
      fun s' f' w' hdead => ?_
    simp only [Act.next_ok]
    cases f' with
    | none => exact hfields s' w' hdead
    | some e =>
      simp only [FirstError.into_result, Act.wp_bind, Act.wp_get, Act.next_ok, Act.wp_contain]
      exact wp_segment_emitEvent (hfields s' w' hdead)

/-- The whole life of a segment. -/
theorem ChannelSegment.wp_runs (hc : c.Obeys segment segmentRules view) {ctx : Ctx}
    {idle_tick : Option Duration} (fuel : Nat) {s : ChannelSegment c.σ} {w : SegmentLife X}
    (h : s.Live view w) (hin : Stream w.phase w.inbox) (hfuel : w.inbox.length < fuel) :
    Prog.wp segment ((ChannelSegment.task c ctx idle_tick).runs fuel s)
      (fun r w' => r.isSome ∧ w'.Settled) w := by
  induction fuel generalizing s w with
  | zero => cases hfuel
  | succ fuel ih =>
    have hround : Act.wp (segment (X := X) (Y := Y)) (H := Empty) (do
        let tally ← ChannelSegment.run c idle_tick
        pure (tally.map fun t => Exit.finished t false)) (fun r s' w' => match r with
          | .ok none => s'.Live view w' ∧ Stream w'.phase w'.inbox ∧ w'.inbox.length < fuel
          | .ok (some _) | .panic => s'.Dead view w' ∨ s'.Live view w'
          | .halt _ => False) s w := by
      refine (Act.wp_bind ..).2 (h.wp_run hc hin ?_ ?_ ?_)
      · exact fun s' w' hlive hstream hlen => ⟨hlive, hstream, by omega⟩
      · exact fun _ s' w' hdead => .inl hdead
      · exact fun s' w' h => h
    refine (Prog.wp_bind ..).2 ((Prog.wp_bind ..).2 (Prog.wp_mono hround fun r w' hr => ?_))
    obtain ⟨r, s'⟩ := r
    have hdrop : s'.Dead view w' ∨ s'.Live view w' → Act.wp (segment (X := X) (Y := Y))
        (ChannelSegment.drop (H := Empty) c) (fun _ _ w'' => w''.Settled) s' w' :=
      fun hs => ChannelSegment.wp_drop hc hs fun _ _ hsettled => hsettled
    cases r with
    | ok a =>
      cases a with
      | none => exact ih hr.1 hr.2.1 hr.2.2
      | some exit =>
        exact (Prog.wp_bind ..).2 (Prog.wp_mono (hdrop hr) fun _ _ hsettled => ⟨rfl, hsettled⟩)
    | halt e => exact hr.elim
    | panic =>
      exact (Prog.wp_bind ..).2 (Prog.wp_mono (hdrop hr) fun _ _ hsettled => ⟨rfl, hsettled⟩)

end Segment

/-- Whether the receiver is dropped, and whether a flush of the sink has panicked since. -/
structure Dropping where
  dropped : Bool
  spoiled : Bool
  deriving DecidableEq, Repr

def Dropping.next (d : Dropping) : Entry X Y → Dropping
  | ⟨.dropReceiver, _⟩ => ⟨true, d.spoiled⟩
  | ⟨.flush, a⟩ => ⟨d.dropped, d.spoiled || (d.dropped && a.isNone)⟩
  | _ => d

/-- A flush of the sink has panicked with the receiver dropped: it was called by the abort that
`run` itself makes. -/
def Log.SpoiledFlush (log : Log X Y) : Prop :=
  (log.foldl Dropping.next ⟨false, false⟩).spoiled = true

instance (log : Log X Y) : Decidable log.SpoiledFlush :=
  inferInstanceAs (Decidable (_ = true))

def Eff.isRecv : Eff X Y → Bool
  | .recv _ => true
  | _ => false

/-- How many times the upstream was asked. -/
def Log.recvs (log : Log X Y) : Nat := log.countP fun a => a.1.isRecv

/-- The upstream sends `inbox` and then disconnects. -/
def Oracle.Delivers (o : Oracle X Y) (inbox : List (RecvResult (StageOp X))) : Prop :=
  ∀ log timeout, o log (.recv timeout) = (inbox.drop (Log.recvs log)).headD .disconnected

/-- The history of a segment that has come to `w`. -/
structure SegmentLife.History (inbox : List (RecvResult (StageOp X))) (log : Log X Y)
    (w : SegmentLife X) : Prop where
  calls : log.touches.filterMap Touch.call = TeardownCall.due.take w.phase
  marks : log.foldl Dropping.next ⟨false, false⟩ = ⟨w.dropped, w.spoiled⟩
  inbox : w.inbox = inbox.drop log.recvs

theorem SegmentLife.History.snoc {inbox : List (RecvResult (StageOp X))} {log : Log X Y}
    {w w' : SegmentLife X} (h : w.History inbox log) {e : Eff X Y} {a : Ans e}
    (hcalls : TeardownCall.due.take w'.phase =
      TeardownCall.due.take w.phase ++ (e.touch.toList.filterMap Touch.call))
    (hmarks : Dropping.next ⟨w.dropped, w.spoiled⟩ ⟨e, a⟩ = ⟨w'.dropped, w'.spoiled⟩)
    (hinbox : w'.inbox = if e.isRecv then w.inbox.tail else w.inbox) :
    w'.History inbox (log ++ [⟨e, a⟩]) where
  calls := by rw [touches_snoc, List.filterMap_append, h.calls, hcalls]
  marks := by rw [List.foldl_append, h.marks]; exact hmarks
  inbox := by
    rw [hinbox, Log.recvs, List.countP_append, h.inbox, List.countP_singleton, ← Log.recvs]
    split
    · rw [List.tail_drop]
    · rw [Nat.add_zero]

/-- Answers of an upstream and of a calm observer keep the history. -/
theorem Oracle.keeps_segment {o : Oracle X Y} (ho : ∀ log ev, o log (.observe ev) = some ())
    {inbox : List (RecvResult (StageOp X))} (hdel : o.Delivers inbox) :
    Prog.Keeps (segment (X := X) (Y := Y)) (fun log w => w.History inbox log) o.handler := by
  intro e log w h hp
  refine ⟨w.after e (o log e), ⟨?_, rfl, ?_⟩, ?_⟩
  · cases e with
    | observe ev => exact ho log ev
    | _ => trivial
  · cases e with
    | recv timeout => exact (hdel log timeout).trans (by rw [h.inbox])
    | _ => trivial
  · cases e with
    | flush =>
      have hp : w.phase = 0 := hp
      exact h.snoc (by rw [hp]; simp [SegmentLife.after, SegmentLife.moved, hp]; rfl) rfl rfl
    | close =>
      have hp : w.phase = 1 := hp
      exact h.snoc (by rw [hp]; simp [SegmentLife.after, SegmentLife.moved, hp]; rfl) rfl rfl
    | deadLetter op =>
      cases op with
      | write f => exact h.snoc (by simp [Eff.touch, Touch.call, SegmentLife.after]) rfl rfl
      | flush | close => exact hp.elim
    | closeSource => exact hp.elim
    | _ => exact h.snoc (by simp [Eff.touch, Touch.call, SegmentLife.after]) rfl rfl

/-- A segment that owns the sink ends when its upstream does. Whatever it receives and however
every call of a stage and of the sink ends, by the time it has run and been dropped the sink was
flushed once and closed once, except when the flush panicked in the abort that `run` itself makes:
then it was not closed. -/
theorem ChannelSegment.sink_torn_down (stages : Stages X Y) (sink_id : StageId) (ctx : Ctx)
    (idle_tick : Option Duration) (o : Oracle X Y)
    (ho : ∀ log ev, o log (.observe ev) = some ()) (inbox : List (RecvResult (StageOp X)))
    (hin : Stream 0 inbox) (hdel : o.Delivers inbox) (fuel : Nat) (hfuel : inbox.length < fuel) :
    let c := stages.assemble (sink_fn sink_id)
    let run := Prog.exec o.handler ((ChannelSegment.task c ctx idle_tick).runs fuel
      (ChannelSegment.new c ctx)) []
    run.1.isSome ∧ (run.2.touches.filterMap Touch.call = [.sinkFlush, .sinkClose] ↔
      ¬run.2.SpoiledFlush) := by
  intro c run
  have hc : c.Obeys (segment (X := X) (Y := Y)) segmentRules fun s => stages.tailState s :=
    stages.assemble_obeys segmentRules_lawful.sound (sink_fn_segment sink_id)
  have hinit : stages.tailState c.init = flagsAt 0 := by
    rw [stages.tailState_init]
    rfl
  have hlive : ChannelSegment.Live (fun s => stages.tailState s) ⟨0, false, false, inbox⟩
      (ChannelSegment.new c ctx) := ⟨⟨hinit, Nat.zero_le 2, rfl⟩, rfl, rfl, rfl⟩
  have hstart : SegmentLife.History inbox ([] : Log X Y) ⟨0, false, false, inbox⟩ :=
    ⟨rfl, rfl, rfl⟩
  obtain ⟨w, h, hsome, hsettled⟩ := Prog.wp_exec (Oracle.keeps_segment ho hdel) hstart
    (ChannelSegment.wp_runs hc fuel hlive hin hfuel)
  refine ⟨hsome, ?_⟩
  rw [h.calls, Log.SpoiledFlush, h.marks]
  rcases hsettled with ⟨hphase, hspoiled⟩ | ⟨hphase, hspoiled⟩
  · simp [hphase, hspoiled, TeardownCall.due]
  · simp [hphase, hspoiled, TeardownCall.due]

/-- An upstream that sends `inbox`, and a sink that fails as `flush` and `close` tell. -/
def Oracle.delivering (inbox : List (RecvResult (StageOp X)))
    (flush : Option (Except BoxError Unit)) : Oracle X Y := fun log e =>
  match e with
  | .recv _ => (inbox.drop (Log.recvs log)).headD .disconnected
  | .flush => flush
  | e => Oracle.serving [] log e

theorem ChannelSegment.sink_torn_down_flushed :
    (Prog.exec (Oracle.delivering [.msg (.process 1), .msg .flush, .msg .close]
        (none : Option (Except BoxError Unit))).handler
      ((ChannelSegment.task ((Stages.nil : Stages Nat Nat).assemble (sink_fn "sink"))
        (Ctx.new .absent false false) none).runs 4
          (ChannelSegment.new ((Stages.nil : Stages Nat Nat).assemble (sink_fn "sink"))
            (Ctx.new .absent false false))) []).2.touches.filterMap Touch.call =
      [.sinkFlush, .sinkClose] :=
  (ChannelSegment.sink_torn_down (.nil : Stages Nat Nat) "sink" (Ctx.new .absent false false) none
    (Oracle.delivering [.msg (.process 1), .msg .flush, .msg .close] none) (fun _ _ => rfl)
    [.msg (.process 1), .msg .flush, .msg .close] ⟨rfl, rfl, rfl, trivial⟩ (fun _ _ => rfl) 4
    (by decide)).2.2 (by decide +kernel)

/-- The upstream disappears and the flush of the sink panics: the sink is not closed. -/
theorem ChannelSegment.close_skipped : ¬∀ (o : Oracle Nat Nat)
    (inbox : List (RecvResult (StageOp Nat))) (fuel : Nat),
    (∀ log ev, o log (.observe ev) = some ()) → Stream 0 inbox → o.Delivers inbox →
    inbox.length < fuel →
    (Prog.exec o.handler ((ChannelSegment.task ((Stages.nil : Stages Nat Nat).assemble
        (sink_fn "sink")) (Ctx.new .absent false false) none).runs fuel
          (ChannelSegment.new ((Stages.nil : Stages Nat Nat).assemble (sink_fn "sink"))
            (Ctx.new .absent false false))) []).2.touches.filterMap Touch.call =
      [.sinkFlush, .sinkClose] := by
  intro h
  have hclosed := h (Oracle.delivering [] none) [] 1 (fun _ _ => rfl) trivial (fun _ _ => rfl)
    (by decide)
  revert hclosed
  decide +kernel

end PipeIo
