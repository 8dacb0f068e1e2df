import PipeIo.Contract
import PipeIo.Threaded

namespace PipeIo
set_option autoImplicit true

open Lib

/-- How far a stream of operations has come: 0 until `Flush`, 1 until `Close` or `Abort`. -/
def goes : Option Signal → Nat → Nat
  | none, p | some .tick, p => p
  | some .flush, _ => 1
  | some .close, _ | some .abort, _ => 2

/-- What may come next in a stream that has come so far: items and ticks, then `Flush` and
`Close`, with `Abort` at any point before `Close`. -/
def Permits : Option Signal → Nat → Prop
  | none, p | some .tick, p | some .flush, p => p = 0
  | some .close, p => p = 1
  | some .abort, p => p ≤ 1

/-- The life of a thread. It owns the sink, the source or the dead-letter sink, or none of
them, and has to join its `crew`; this does not change. `phase` counts the teardown calls
made: flush and close of the sink (or of the edge the thread feeds), of the source, flush
and close of the dead-letter sink. `inp` tells how far the stream that it receives has
come; the flags tell what it still holds and whether it has waited for the segments. -/
structure Life where
  sink : Bool
  source : Bool
  dlq : Bool
  crew : List Nat
  phase : Nat
  inp : Nat
  receiver : Bool
  sender : Bool
  waited : Bool
  done : Bool
  spawned : List Nat
  joined : List Nat
  deriving DecidableEq, Repr

def Life.to (w : Life) (p : Nat) : Life := { w with phase := p }

@[simp] theorem Life.to_phase (w : Life) (p : Nat) : (w.to p).phase = p := rfl

@[simp] theorem Life.to_to (w : Life) (p q : Nat) : (w.to p).to q = w.to q := rfl

@[simp] theorem Life.to_self (w : Life) : w.to w.phase = w := rfl

/-- The observer does not panic. -/
def Calm : (e : Eff X Y) → Ans e → Prop
  | .observe _, a => a = some ()
  | _, _ => True

/-- Flushing and closing do not panic. -/
def Steady : (e : Eff X Y) → Ans e → Prop
  | .flush, a | .close, a | .deadLetter .flush, a | .deadLetter .close, a => a ≠ none
  | _, _ => True

/-- How far a teardown call takes the run. -/
def Eff.teardown : Eff X Y → Nat
  | .flush | .close | .closeSource | .deadLetter .flush | .deadLetter .close => 1
  | _ => 0

/-- The life after an answered request. -/
def Life.after (w : Life) : (e : Eff X Y) → Ans e → Life
  | .send op, ok => if ok || op.closing then w.to (goes op.signal w.phase) else w
  | .recv _, .msg op => { w with inp := goes op.signal w.inp }
  | .dropReceiver, _ => { w with receiver := false }
  | .dropSender, _ => { w with sender := false }
  | .dropDone, _ => { w with done := true }
  | .waitDone, _ => { w with waited := true }
  | .spawn i, _ => { w with spawned := i :: w.spawned }
  | .join i, _ => { w with joined := i :: w.joined }
  | e, _ => w.to (w.phase + e.teardown)

/-- When a thread may make a request: each teardown call is due at one point only, no item is
written, dead-lettered or pulled after its component was flushed or closed, the operations
sent follow `Permits`, only a tick is sent without blocking, and what was dropped is not used. The
answers follow the same rules.
If `steady`, the sink and the dead-letter sink are `Steady`. -/
def life (steady : Bool) : Spec (Eff X Y) Ans Life where
  pre e w := match e with
    | .flush | .write _ => w.sink = true ∧ w.phase = 0
    | .close => w.sink = true ∧ w.phase = 1
    | .closeSource => w.source = true ∧ w.waited = true ∧ w.phase = 2
    | .deadLetter .flush => w.dlq = true ∧ w.phase = 3 ∧ ∀ i ∈ w.crew, i ∈ w.joined
    | .deadLetter .close => w.dlq = true ∧ w.phase = 4
    | .pull | .pullTimeout _ => w.source = true ∧ w.phase ≤ 2
    | .deadLetter (.write _) => w.phase ≤ 2
    | .observe _ | .isCancelled | .sleep _ | .note _ | .offer _ | .takeFirst => True
    | .send op => w.sink = false ∧ w.sender = true ∧ Permits op.signal w.phase
    | .trySend op => w.sink = false ∧ w.sender = true ∧ w.phase = 0 ∧ op = .tick
    | .recv _ => w.receiver = true ∧ w.inp ≤ 1
    | .dropReceiver => w.receiver = true
    | .dropSender => w.sender = true ∧ (w.sink = false → 2 ≤ w.phase)
    | .waitDone => w.source = true ∧ w.sender = false
    | .dropDone => w.done = false ∧ w.receiver = false ∧ w.sender = false ∧
        (steady = true → 2 ≤ w.phase)
    | .spawn i => i ∈ w.crew ∧ i ∉ w.spawned
    | .join i => i ∈ w.spawned
  post e w a w' := (Calm e a ∧ (steady = true → Steady e a)) ∧ w' = w.after e a ∧ match e, a with
    | .recv _, .msg op => Permits op.signal w.inp
    | _, _ => True

def flagsAt (p : Nat) : SinkFlags := ⟨decide (1 ≤ p), decide (2 ≤ p)⟩

/-- The tail of a chain, seen by its flags if it is the sink. -/
def Life.Tracks (w : Life) : Option SinkFlags → Prop
  | some f => w.sink = true ∧ f = flagsAt w.phase
  | none => w.sink = false

/-- How an operation on the chain moves the life of the thread. -/
def Life.Moves (steady : Bool) (w : Life) (k : Option Signal) (r : Res Halt Nat) (p : Nat) : Prop :=
  match k with
  | none | some .tick => w.phase = 0 ∧ p = 0
  | some .flush => p ≤ 1 ∧ ∀ n, r = .ok n → p = 1
  | some .close => p = 2 ∧ (r = .panic → w.sink = true)
  | some .abort => (r = .panic → steady = false ∧ w.sink = true ∧ w.phase < p ∧ p ≤ 2) ∧
      (r ≠ .panic → p = max w.phase 2)

/-- What an operation does to the life of the thread. -/
def lifeRules (steady : Bool) : Rules (Option SinkFlags) Life where
  pre k t w := w.Tracks t ∧ w.sender = true ∧ match k with
    | none | some .tick | some .flush => w.phase = 0
    | some .close => w.phase = 1
    | some .abort => w.sink = false → w.phase ≤ 1
  post k r _ w t' w' := w'.Tracks t' ∧ w' = w.to w'.phase ∧ w.Moves steady k r w'.phase

variable {steady : Bool}

theorem Permits.tracks {w : Life} {t : Option SinkFlags} {k : Option Signal}
    (h : Permits k w.phase) (ht : w.Tracks t) (hs : w.sender = true) : (lifeRules steady).pre k t w :=
  ⟨ht, hs, match k, h with
    | none, h | some .tick, h | some .flush, h | some .close, h => h
    | some .abort, h => fun _ => h⟩

theorem lifeRules_lawful : (lifeRules steady).Lawful (life (X := X) (Y := Y) steady) where
  quiet := by
    rintro t w e ⟨ht, hs, hp⟩ he
    replace hp : w.phase = 0 := hp
    have hkeep : ∀ {w'}, w' = w.to (w.phase + 0) → (lifeRules steady).post none (.ok 0) t w t w' := by
      rintro _ rfl
      exact ⟨ht, rfl, hp, hp⟩
    cases e with
    | deadLetter op =>
      cases op with
      | write f => exact ⟨by simp [life, hp], fun a w' h => hkeep h.2.1⟩
      | flush | close => exact he.elim
    | observe | sleep | note => exact ⟨trivial, fun a w' h => hkeep h.2.1⟩
    | _ => exact he.elim
  refl := fun h => ⟨h.1, rfl, h.2.2, h.2.2⟩
  item := by
    rintro k t w hk ⟨ht, hs, hp⟩
    refine ⟨ht, hs, ?_⟩
    match k, hk with
    | none, _ | some .tick, _ | some .flush, _ => exact hp
  keep := by
    rintro k t w n t' w' hk ⟨ht, hs, hp⟩ ⟨ht', hw', hp', h0⟩
    refine ⟨ht', by rw [hw']; exact hs, ?_⟩
    match k, hk with
    | none, _ | some .tick, _ | some .flush, _ => exact h0
  seq := by
    rintro k t w n t' w' r t'' w'' hk ⟨ht', hw', hp, h0⟩ ⟨ht'', hw'', h⟩
    refine ⟨ht'', by rw [hw'', hw']; rfl, ?_⟩
    match k, hk with
    | none, _ | some .tick, _ => exact ⟨hp, h.2⟩
    | some .flush, _ =>
      refine ⟨h.1, fun m hm => ?_⟩
      cases r with
      | ok a => exact h.2 a rfl
      | halt | panic => cases hm
  fail := fun h => h
  crash := fun h => h
  lift := by
    rintro k t w r t' w' hk ⟨ht', hw', hp, h0⟩ hr
    refine ⟨ht', hw', ?_⟩
    match k, hk with
    | none, _ | some .tick, _ => exact ⟨hp, h0⟩
    | some .flush, _ => exact ⟨h0 ▸ Nat.zero_le 1, fun n hn => absurd hn (hr n)⟩

section Tail

variable {X Y H σ : Type} {w : Life}

/-- The observer is calm, so an event changes nothing. -/
theorem wp_life_emitEvent {active : Bool} {event : Event} {Q : Res H Unit → σ → Life → Prop}
    {s : σ} (hQ : Q (.ok ()) s w) :
    Act.wp (life (X := X) (Y := Y) steady) (emitEvent active event) Q s w := by
  cases active with
  | false => exact hQ
  | true =>
    refine (Act.wp_bind ..).2 ⟨trivial, fun a w' ha => ?_⟩
    obtain ⟨rfl, rfl⟩ : a = some () ∧ w' = w := ⟨ha.1.1, ha.2.1⟩
    exact hQ

theorem sinkRes_steady {id : StageId} {a : Option (Except BoxError Unit)}
    (h : steady = true → a ≠ none) (hr : sinkRes id a = .panic) : steady = false := by
  match a with
  | none => exact Bool.eq_false_iff.2 fun hs => h hs rfl
  | some (.ok ()) | some (.error e) => cases hr

/-- The sink is flushed if it was not. -/
theorem wp_life_flushOnce {id : StageId} {Q : Res Halt Unit → SinkFlags × Ctx → Life → Prop}
    {ctx : Ctx} (hs : w.sink = true)
    (hQ : ∀ r, (r = .panic → steady = false ∧ w.phase = 0) →
      Q r (flagsAt (max w.phase 1), ctx) (w.to (max w.phase 1))) :
    Act.wp (life (X := X) (Y := Y) steady) (flushOnce id) Q (flagsAt w.phase, ctx) w := by
  rw [wp_flushOnce]
  by_cases hp : w.phase = 0
  · have hmax : max w.phase 1 = w.phase + 1 := by omega
    rw [if_neg (by simp [flagsAt, hp])]
    refine ⟨⟨hs, hp⟩, fun a w' ha => ?_⟩
    obtain rfl : w' = w.to (w.phase + 1) := ha.2.1
    have hres := hQ (sinkRes id a) fun hr => ⟨sinkRes_steady ha.1.2 hr, hp⟩
    rw [hmax] at hres
    have hflags : { flagsAt w.phase with flushed := true } = flagsAt (w.phase + 1) := by
      simp [flagsAt, hp]
    rw [hflags]
    exact hres
  · have hmax : max w.phase 1 = w.phase := by omega
    rw [hmax] at hQ
    rw [if_pos (by simp [flagsAt]; omega)]
    exact hQ _ nofun

/-- The sink is closed if it was not. -/
theorem wp_life_closeOnce {id : StageId} {Q : Res Halt Unit → SinkFlags × Ctx → Life → Prop}
    {ctx : Ctx} (hs : w.sink = true) (hp : 1 ≤ w.phase)
    (hQ : ∀ r, (r = .panic → steady = false ∧ w.phase = 1) →
      Q r (flagsAt (max w.phase 2), ctx) (w.to (max w.phase 2))) :
    Act.wp (life (X := X) (Y := Y) steady) (closeOnce id) Q (flagsAt w.phase, ctx) w := by
  rw [wp_closeOnce]
  by_cases hp' : w.phase = 1
  · have hmax : max w.phase 2 = w.phase + 1 := by omega
    rw [if_neg (by simp [flagsAt, hp'])]
    refine ⟨⟨hs, hp'⟩, fun a w' ha => ?_⟩
    obtain rfl : w' = w.to (w.phase + 1) := ha.2.1
    have hres := hQ (sinkRes id a) fun hr => ⟨sinkRes_steady ha.1.2 hr, hp'⟩
    rw [hmax] at hres
    have hflags : { flagsAt w.phase with closed := true } = flagsAt (w.phase + 1) := by
      simp [flagsAt, hp']
    rw [hflags]
    exact hres
  · have hmax : max w.phase 2 = w.phase := by omega
    rw [hmax] at hQ
    rw [if_pos (by simp [flagsAt]; omega)]
    exact hQ _ nofun

end Tail

theorem sink_fn_life (id : StageId) :
    (sink_fn (X := X) (Y := Y) id).Obeys (life steady) (lifeRules steady) some := by
  rintro op ⟨t, ctx⟩ w ⟨⟨hs, ht⟩, hsend, hp⟩
  replace ht : t = flagsAt w.phase := ht
  subst ht
  have hmid : ∀ {r : Res Halt Nat} {w'}, w.phase = 0 → w' = w →
      (lifeRules steady).post none r (some (flagsAt w.phase)) w (some (flagsAt w.phase)) w' ∧
        Ctx.Kept ctx ctx := by
    rintro r _ h0 rfl
    exact ⟨⟨⟨hs, rfl⟩, rfl, h0, h0⟩, Ctx.Kept.refl _⟩
  cases op with
  | process item =>
    simp only [sink_fn, Act.wp_bind, Act.wp_perform, Act.next_ok, wp_sinkCall]
    refine ⟨⟨hs, hp⟩, fun a w' ha => ?_⟩
    rcases a with _ | ⟨_ | _⟩ <;> exact hmid hp ha.2.1
  | tick => exact hmid (r := .ok 0) hp rfl
  | flush =>
    replace hp : w.phase = 0 := hp
    refine (Act.wp_bind ..).2 (wp_life_flushOnce hs fun r _ => ?_)
    have hmax : max w.phase 1 = 1 := by omega
    rw [hmax]
    cases r with
    | ok u => exact ⟨⟨⟨hs, rfl⟩, rfl, Nat.le_refl _, fun _ _ => rfl⟩, Ctx.Kept.refl _⟩
    | halt | panic => exact ⟨⟨⟨hs, rfl⟩, rfl, Nat.le_refl _, by simp⟩, Ctx.Kept.refl _⟩
  | close =>
    replace hp : w.phase = 1 := hp
    refine (Act.wp_bind ..).2 (wp_life_closeOnce hs (by omega) fun r _ => ?_)
    have hmax : max w.phase 2 = 2 := by omega
    rw [hmax]
    cases r <;> exact ⟨⟨⟨hs, rfl⟩, rfl, rfl, fun _ => hs⟩, Ctx.Kept.refl _⟩
  | abort =>
    simp only [sink_fn, Act.wp_bind, Act.wp_attempt]
    refine wp_life_flushOnce hs fun flushed hf => ?_
    have hone : 1 ≤ max w.phase 1 := by omega
    have htwo : max (max w.phase 1) 2 = max w.phase 2 := by omega
    cases flushed with
    | panic =>
      obtain ⟨hst, h0⟩ := hf rfl
      refine ⟨⟨⟨hs, rfl⟩, rfl, fun _ => ⟨hst, hs, ?_, ?_⟩, fun h => absurd rfl h⟩,
        Ctx.Kept.refl _⟩ <;>
        simp only [Life.to_phase] <;> omega
    | ok | halt =>
      simp only [Res.attempted_ok, Res.attempted_halt, Act.next_ok, Act.wp_bind, Act.wp_attempt]
      refine wp_life_closeOnce (w := w.to (max w.phase 1)) hs hone fun closed hc => ?_
      rw [Life.to_phase, htwo, Life.to_to]
      cases closed with
      | panic =>
        obtain ⟨hst, h1⟩ : _ ∧ max w.phase 1 = 1 := hc rfl
        refine ⟨⟨⟨hs, rfl⟩, rfl, fun _ => ⟨hst, hs, ?_, ?_⟩, fun h => absurd rfl h⟩,
          Ctx.Kept.refl _⟩ <;>
          simp only [Life.to_phase] <;> omega
      | ok => exact ⟨⟨⟨hs, rfl⟩, rfl, by simp, fun _ => rfl⟩, Ctx.Kept.refl _⟩
      | halt second =>
        cases second with
        | disconnected => exact ⟨⟨⟨hs, rfl⟩, rfl, by simp, fun _ => rfl⟩, Ctx.Kept.refl _⟩
        | failed second =>
          first
          | exact ⟨⟨⟨hs, rfl⟩, rfl, by simp, fun _ => rfl⟩, Ctx.Kept.refl _⟩
          | simp only [Res.attempted_halt, Act.next_ok, Act.wp_bind, Act.wp_get]
            refine wp_life_emitEvent ?_
            exact ⟨⟨⟨hs, rfl⟩, rfl, by simp, fun _ => rfl⟩, Ctx.Kept.refl _⟩

/-- Sending keeps to what `Permits` allows. -/
theorem send_fn_life : (send_fn (X := X) (Y := Y)).Obeys (life steady) (lifeRules steady) fun _ => none := by
  rintro op ⟨t, ctx⟩ w ⟨ht, hs, hp⟩
  replace ht : w.sink = false := ht
  cases op with
  | tick =>
    refine (Act.wp_bind ..).2 ⟨⟨ht, hs, hp, rfl⟩, fun a w' ha => ?_⟩
    obtain rfl : w' = w := ha.2.1
    cases a <;> exact ⟨⟨ht, rfl, hp, hp⟩, Ctx.Kept.refl _⟩
  | abort =>
    refine (Act.wp_bind ..).2 ⟨⟨ht, hs, hp ht⟩, fun a w' ha => ?_⟩
    obtain rfl : w' = w.to 2 := by
      simpa [Life.after, StageOp.closing, goes, StageOp.signal] using ha.2.1
    have hmax : max w.phase 2 = 2 := by
      have := hp ht
      omega
    exact ⟨⟨ht, rfl, nofun, fun _ => hmax.symm⟩, Ctx.Kept.refl _⟩
  | close =>
    refine (Act.wp_bind ..).2 ⟨⟨ht, hs, hp⟩, fun a w' ha => ?_⟩
    obtain rfl : w' = w.to 2 := by
      simpa [Life.after, StageOp.closing, goes, StageOp.signal] using ha.2.1
    cases a <;> exact ⟨⟨ht, rfl, rfl, nofun⟩, Ctx.Kept.refl _⟩
  | process item =>
    refine (Act.wp_bind ..).2 ⟨⟨ht, hs, hp⟩, fun a w' ha => ?_⟩
    obtain rfl : w' = w := by
      have hw := ha.2.1
      cases a <;> exact hw
    cases a <;> exact ⟨⟨ht, rfl, hp, hp⟩, Ctx.Kept.refl _⟩
  | flush =>
    refine (Act.wp_bind ..).2 ⟨⟨ht, hs, hp⟩, fun a w' ha => ?_⟩
    replace hp : w.phase = 0 := hp
    have hw := ha.2.1
    cases a with
    | true =>
      obtain rfl : w' = w.to 1 := hw
      exact ⟨⟨ht, rfl, Nat.le_refl _, fun _ _ => rfl⟩, Ctx.Kept.refl _⟩
    | false =>
      obtain rfl : w' = w := hw
      exact ⟨⟨ht, rfl, by omega, nofun⟩, Ctx.Kept.refl _⟩

end PipeIo
