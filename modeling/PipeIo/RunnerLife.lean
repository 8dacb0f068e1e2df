import PipeIo.Life

namespace PipeIo
set_option autoImplicit true

open Lib

/-- All teardown calls are made. -/
def finalPhase (dlq : Bool) : Nat := if dlq then 5 else 3

theorem three_le_finalPhase (dlq : Bool) : 3 ≤ finalPhase dlq := by cases dlq <;> decide

/-- The dead-letter sink of a run with (or without) one, after `p` teardown calls. -/
def dlqAt (dlq : Bool) (p : Nat) : Dlq :=
  if dlq then .sink (decide (4 ≤ p)) (decide (5 ≤ p)) else .absent

theorem dlqAt_low (dlq : Bool) {p p' : Nat} (h : p ≤ 3) (h' : p' ≤ 3) :
    dlqAt dlq p = dlqAt dlq p' := by
  have h4 : ∀ q, q ≤ 3 → decide (4 ≤ q) = false ∧ decide (5 ≤ q) = false := by
    intro q hq
    constructor <;> simp <;> omega
  simp only [dlqAt, h4 p h, h4 p' h']

/-- A runner on a thread that began with the life `b` and has come to `w`. -/
structure Runner.At (b : Life) (view : σ → Option SinkFlags) (w : Life) (r : Runner σ) : Prop where
  same : w = { b with phase := w.phase, sender := w.sender, waited := w.waited }
  owner : b.source = true ∧ b.crew = []
  chain : ∀ s, r.chain = some s → w.Tracks (view s)
  link : w.sender = r.chain.isSome
  waits : w.waited = !r.segments_done
  held : r.segments_done = true → r.chain.isSome = true ∧ w.phase ≤ 2
  gone : r.chain = none → 2 ≤ w.phase
  fed : r.segments_done = false → b.sink = false → r.chain = none
  source : r.source_closed = decide (3 ≤ w.phase)
  owns : r.owns_dlq = false → b.dlq = false
  letters : r.owns_dlq = true → r.ctx.dlq = dlqAt b.dlq w.phase
  finished : r.dlq_finished = true → w.phase = finalPhase b.dlq
  bound : w.phase ≤ finalPhase b.dlq

/-- The runner may abort: an edge it still feeds was not closed. -/
def Runner.Abortable (w : Life) (r : Runner σ) : Prop :=
  r.segments_done = true → w.sink = false → w.phase ≤ 1

theorem Runner.abortable {r : Runner σ} (h : r.segments_done = false) : r.Abortable w :=
  fun hs => by cases h.symm.trans hs

/-- When an operation may enter the chain of a runner. -/
def Runner.Due (k : Option Signal) (w : Life) (r : Runner σ) : Prop :=
  match k with
  | none | some .tick | some .flush => w.phase = 0
  | some .close => w.phase = 1
  | some .abort => r.Abortable w

/-- What no operation of a runner changes. -/
structure Runner.Same (r r' : Runner σ) : Prop where
  live : r'.live = r.live
  segments : r'.segments_done = r.segments_done
  owns : r'.owns_dlq = r.owns_dlq

theorem Runner.Same.refl (r : Runner σ) : r.Same r := ⟨rfl, rfl, rfl⟩

theorem Runner.Same.trans {r r' r'' : Runner σ} (h : r.Same r') (h' : r'.Same r'') :
    r.Same r'' :=
  ⟨h'.live.trans h.live, h'.segments.trans h.segments, h'.owns.trans h.owns⟩

section Runner

variable {X Y H : Type} {c : StageFn X Y X} {view : c.σ → Option SinkFlags} {steady : Bool}
  {b w : Life} {r : Runner c.σ}

theorem Runner.At.source_eq (h : r.At b view w) : w.source = true := by
  rw [h.same]
  exact h.owner.1

theorem Runner.At.crew_eq (h : r.At b view w) : w.crew = [] := by
  rw [h.same]
  exact h.owner.2

theorem Runner.At.dlq_eq (h : r.At b view w) : w.dlq = b.dlq := by
  rw [h.same]

theorem Runner.At.sink_eq (h : r.At b view w) : w.sink = b.sink := by
  rw [h.same]

/-- Counters and marks that no life depends on. -/
theorem Runner.At.move (h : r.At b view w) {r' : Runner c.σ} (hchain : r'.chain = r.chain)
    (hsegments : r'.segments_done = r.segments_done) (hsource : r'.source_closed = r.source_closed)
    (howns : r'.owns_dlq = r.owns_dlq) (hdlq : r'.ctx.dlq = r.ctx.dlq)
    (hfinished : r'.dlq_finished = r.dlq_finished) : r'.At b view w where
  same := h.same
  owner := h.owner
  chain := hchain ▸ h.chain
  link := hchain ▸ h.link
  waits := hsegments ▸ h.waits
  held := hsegments ▸ hchain ▸ h.held
  gone := hchain ▸ h.gone
  fed := hsegments ▸ hchain ▸ h.fed
  source := hsource ▸ h.source
  owns := howns ▸ h.owns
  letters := howns ▸ hdlq ▸ h.letters
  finished := hfinished ▸ h.finished
  bound := h.bound

/-- Operations on the chain move the runner on; the rest of it stays as it is. -/
theorem Runner.At.sink (h : r.At b view w) {s s' : c.σ} (hs : r.chain = some s) {ctx' : Ctx}
    {p : Nat} (hk : Ctx.Kept r.ctx ctx') (ht : (w.to p).Tracks (view s'))
    (hp : p = w.phase ∨ w.phase ≤ 2 ∧ p ≤ 2) :
    Runner.At b view (w.to p) { r with chain := some s', ctx := ctx' } where
  same := by
    rw [h.same]
    rfl
  owner := h.owner
  chain s'' hs'' := by
    cases hs''
    exact ht
  link := by
    rw [show (w.to p).sender = w.sender from rfl, h.link, hs]
    rfl
  waits := h.waits
  held hd := ⟨rfl, by
    have := (h.held hd).2
    rw [Life.to_phase]
    omega⟩
  gone := nofun
  fed hd hsink := by cases hs.symm.trans (h.fed hd hsink)
  source := h.source.trans (decide_eq_decide.2 (by
    rw [Life.to_phase]
    omega))
  owns := h.owns
  letters ho := by
    refine hk.dlq.trans ((h.letters ho).trans ?_)
    rcases hp with rfl | ⟨hp, hp'⟩
    · rfl
    · exact dlqAt_low b.dlq (by omega) (by rw [Life.to_phase]; omega)
  finished hf := by
    have hfin := h.finished hf
    have hge := three_le_finalPhase b.dlq
    rw [Life.to_phase]
    omega
  bound := by
    have hge := three_le_finalPhase b.dlq
    have hle := h.bound
    rw [Life.to_phase]
    omega

/-- Operations leave the phase as it is or keep it within the sink's part of the teardown. -/
theorem Life.Moves.near {k : Option Signal} {res : Res Halt Nat} {p : Nat}
    (h : w.Moves steady k res p) (hp : r.Due k w) : p = w.phase ∨ w.phase ≤ 2 ∧ p ≤ 2 := by
  match k, h, hp with
  | none, h, _ | some .tick, h, _ => exact .inl (h.2.trans h.1.symm)
  | some .flush, h, hp =>
    have hp : w.phase = 0 := hp
    have := h.1
    exact .inr ⟨by omega, by omega⟩
  | some .close, h, hp =>
    have hp : w.phase = 1 := hp
    have := h.1
    exact .inr ⟨by omega, by omega⟩
  | some .abort, h, _ =>
    by_cases hr : res = .panic
    · obtain ⟨-, -, hlt, hle⟩ := h.1 hr
      exact .inr ⟨by omega, hle⟩
    · have := h.2 hr
      omega

/-- The life of the thread around one operation of the chain. -/
theorem Runner.At.wp_chainFn (h : r.At b view w)
    (hc : c.Obeys (life steady) (lifeRules steady) view) (op : StageOp X)
    (hp : r.Due op.signal w) :
    Act.wp (life steady) (Runner.chainFn c op) (fun res r' w' =>
      r'.At b view w' ∧ r.Same r' ∧ w' = w.to w'.phase ∧
        w.Moves steady op.signal res w'.phase) r w := by
  simp only [Runner.chainFn, Act.wp_bind, wp_note]
  refine ⟨trivial, fun a w₀ ha => ?_⟩
  obtain rfl : w₀ = w := ha.2.1
  simp only [Act.next_ok, Act.wp_bind, Act.wp_get]
  cases hs : r.chain with
  | none =>
    have hge := h.gone hs
    refine ⟨h, .refl r, rfl, ?_⟩
    cases op with
    | process | tick | flush =>
      have h0 : w₀.phase = 0 := hp
      omega
    | close =>
      have h1 : w₀.phase = 1 := hp
      omega
    | abort => exact ⟨by simp, fun _ => by omega⟩
  | some s =>
    have hpre : (lifeRules steady).pre op.signal (view s) w₀ := by
      refine ⟨h.chain s hs, h.link.trans (by rw [hs]; rfl), ?_⟩
      cases op with
      | process | tick | flush | close => exact hp
      | abort =>
        intro hsink
        cases hd : r.segments_done with
        | true => exact hp hd hsink
        | false => cases hs.symm.trans (h.fed hd (h.sink_eq ▸ hsink))
    simp only [Act.wp_bind, Act.wp_attempt, Act.wp_zoom]
    refine Act.wp_mono (hc op (s, r.ctx) w₀ hpre) fun res t w' ht => ?_
    obtain ⟨⟨htracks, hw', hpost⟩, hkept⟩ := ht
    have hat : Runner.At b view w' { r with chain := some t.1, ctx := t.2 } := by
      rw [hw'] at htracks ⊢
      exact h.sink hs hkept htracks (hpost.near hp)
    have hall : Runner.At b view w' { r with chain := some t.1, ctx := t.2 } ∧
        r.Same { r with chain := some t.1, ctx := t.2 } ∧ w' = w₀.to w'.phase ∧
          w₀.Moves steady op.signal res w'.phase := ⟨hat, ⟨rfl, rfl, rfl⟩, hw', hpost⟩
    cases res with
    | ok n => exact hall
    | panic => exact hall
    | halt e =>
      refine ⟨trivial, fun a w'' ha => ?_⟩
      obtain rfl : w'' = w' := ha.2.1
      exact hall

theorem Runner.At.wp_call (h : r.At b view w)
    (hc : c.Obeys (life steady) (lifeRules steady) view) (op : StageOp X)
    (hp : r.Due op.signal w) :
    Act.wp (life steady) (Runner.call c op) (fun res r' w' =>
      r'.At b view w' ∧ r.Same r' ∧ w' = w.to w'.phase ∧ ∃ res', res = Res.void res' ∧
        w.Moves steady op.signal res' w'.phase) r w := by
  refine (Act.wp_bind ..).2 (Act.wp_mono (h.wp_chainFn hc op hp) fun res r' w' h' => ?_)
  obtain ⟨h', hs, hw', hm⟩ := h'
  cases res with
  | ok n => exact ⟨h'.move rfl rfl rfl rfl rfl rfl, hs.trans ⟨rfl, rfl, rfl⟩, hw', .ok n, rfl, hm⟩
  | halt e => exact ⟨h', hs, hw', .halt e, rfl, hm⟩
  | panic => exact ⟨h', hs, hw', .panic, rfl, hm⟩

/-- Asking whether the run was cancelled changes nothing. -/
theorem wp_life_is_cancelled {σ : Type} {armed : Bool} {Q : Res H Bool → σ → Life → Prop} {s : σ}
    (hQ : ∀ x, Q (.ok x) s w) :
    Act.wp (life (X := X) (Y := Y) steady) (is_cancelled armed) Q s w := by
  cases armed with
  | false => exact hQ false
  | true =>
    refine ⟨trivial, fun a w' ha => ?_⟩
    obtain rfl : w' = w := ha.2.1
    exact hQ a

/-- A pull happens before any teardown call. -/
theorem wp_life_pull (hsource : w.source = true) (hp : w.phase = 0) {idle_tick : Option Duration}
    {Q : Res Error (Pull X) → Runner c.σ → Life → Prop} (hQ : ∀ res, Q res r w) :
    Act.wp (life (X := X) (Y := Y) steady) (Runner.pull idle_tick) Q r w := by
  have hpre : w.source = true ∧ w.phase ≤ 2 := ⟨hsource, by omega⟩
  cases idle_tick with
  | none =>
    simp only [Runner.pull, Act.wp_bind, Act.wp_perform]
    refine ⟨hpre, fun a w' ha => ?_⟩
    obtain rfl : w' = w := ha.2.1
    rcases a with _ | ⟨_ | _⟩ <;> exact hQ _
  | some timeout =>
    simp only [Runner.pull, Act.wp_bind, Act.wp_perform]
    refine ⟨hpre, fun a w' ha => ?_⟩
    obtain rfl : w' = w := ha.2.1
    rcases a with _ | ⟨_ | _⟩ <;> exact hQ _

/-- Items and ticks make no teardown call, however they end. -/
theorem Runner.At.wp_feed (h : r.At b view w) (hp : w.phase = 0)
    (hc : c.Obeys (life steady) (lifeRules steady) view) (op : StageOp X)
    (hop : op.signal = none ∨ op.signal = some .tick)
    {Q : Res Halt Unit → Runner c.σ → Life → Prop}
    (hQ : ∀ res r', r'.At b view w → r.Same r' → Q res r' w) :
    Act.wp (life steady) (Runner.call c op) Q r w := by
  have hdue : r.Due op.signal w := by rcases hop with hop | hop <;> rw [hop] <;> exact hp
  refine Act.wp_mono (h.wp_call hc op hdue) fun res r' w' h' => ?_
  obtain ⟨h', hs, hw', res', -, hm⟩ := h'
  have h0 : w'.phase = w.phase := by
    rcases hop with hop | hop <;> rw [hop] at hm <;> exact hm.2.trans hp.symm
  obtain rfl : w' = w := by rw [hw', h0, Life.to_self]
  exact hQ res r' h' hs

/-- Stepping makes no teardown call, however it ends. -/
theorem Runner.At.wp_step (h : r.At b view w) (hp : w.phase = 0)
    (hc : c.Obeys (life steady) (lifeRules steady) view) {idle_tick : Option Duration}
    {Q : Res Halt Pulled → Runner c.σ → Life → Prop}
    (hQ : ∀ res r', r'.At b view w → r.Same r' → Q res r' w) :
    Act.wp (life steady) (Runner.step c idle_tick) Q r w := by
  simp only [Runner.step, Act.wp_bind, Act.wp_mapHalt]
  refine wp_life_pull h.source_eq hp fun res => ?_
  rcases res with (x | _ | _) | _ | _
  · simp only [Res.mapHalt_ok, Act.next_ok, Act.wp_bind, Act.wp_modify]
    have h₁ : Runner.At b view w { r with ctx.tally.items_in := r.ctx.tally.items_in + 1 } :=
      h.move rfl rfl rfl rfl rfl rfl
    refine h₁.wp_feed hp hc (.process x) (.inl rfl) fun res r' h' hs => ?_
    have hsame : r.Same r' := ⟨hs.live, hs.segments, hs.owns⟩
    cases res <;> exact hQ _ r' h' hsame
  · simp only [Res.mapHalt_ok, Act.next_ok, Act.wp_bind, Runner.tick, Act.wp_get]
    refine wp_life_emitEvent (h.wp_feed hp hc .tick (.inr rfl) fun res r' h' hs => ?_)
    cases res <;> exact hQ _ r' h' hs
  · exact hQ _ r h (.refl r)
  · exact hQ _ r h (.refl r)
  · exact hQ _ r h (.refl r)

theorem Runner.At.wp_tick (h : r.At b view w) (hp : w.phase = 0)
    (hc : c.Obeys (life steady) (lifeRules steady) view)
    {Q : Res Halt Unit → Runner c.σ → Life → Prop}
    (hQ : ∀ res r', r'.At b view w → r.Same r' → Q res r' w) :
    Act.wp (life steady) (Runner.tick c) Q r w := by
  simp only [Runner.tick, Act.wp_bind, Act.wp_get, Act.next_ok]
  exact wp_life_emitEvent (h.wp_feed hp hc .tick (.inr rfl) hQ)

/-- Pulling makes no teardown call, however it ends. -/
theorem Runner.At.wp_round (h : r.At b view w) (hp : w.phase = 0)
    (hc : c.Obeys (life steady) (lifeRules steady) view) {idle_tick : Option Duration}
    {cancel : Bool} {Q : Res H (Option PumpEnd) → Runner c.σ × (Nat × Nat) → Life → Prop}
    {k : Nat × Nat} (hQ : ∀ res r' k', r'.At b view w → r.Same r' → Q res (r', k') w) :
    Act.wp (life steady) (Runner.round c idle_tick cancel) Q (r, k) w := by
  cases idle_tick with
  | some timeout =>
    simp only [Runner.round, Act.wp_zoom, Act.wp_bind]
    refine wp_life_is_cancelled fun x => ?_
    cases x with
    | true => exact hQ _ r k h (.refl r)
    | false =>
      simp only [Act.next_ok, Bool.false_eq_true, if_false, Act.wp_bind, Act.wp_attempt]
      refine h.wp_step hp hc fun res r' h' hs => ?_
      rcases res with (_ | _ | _) | _ | _ <;> exact hQ _ r' k h' hs
  | none =>
    simp only [Runner.round, Runner.pull_loop, Act.wp_bind]
    refine wp_life_is_cancelled fun x => ?_
    cases x with
    | true => exact hQ _ r k h (.refl r)
    | false =>
      simp only [Act.next_ok, Bool.false_eq_true, if_false, Act.wp_bind, Act.wp_perform]
      refine ⟨⟨h.source_eq, by omega⟩, fun a w' ha => ?_⟩
      obtain rfl : w' = w := ha.2.1
      rcases a with _ | ⟨_ | _ | item⟩
      · exact hQ _ r k h (.refl r)
      · exact hQ _ r k h (.refl r)
      · exact hQ _ r k h (.refl r)
      · simp only [wp_outcome_some, Act.next_ok, Act.wp_bind, Act.wp_modify, Act.wp_attempt,
          Act.wp_zoom]
        refine Act.wp_mono (h.wp_chainFn hc (.process item) hp) fun res r' w'' h' => ?_
        obtain ⟨h', hs, hw', hm⟩ := h'
        obtain rfl : w'' = w' := by rw [hw', hm.2, ← hm.1, Life.to_self]
        cases res <;> exact hQ _ r' _ h' hs

/-- Collecting an error changes no life. -/
theorem wp_life_onFirst {x : Bool → Code X Y H FirstError Unit} {f : FirstError}
    {Q : Res H Unit → Runner c.σ × FirstError → Life → Prop}
    (hx : ∀ (b : Bool) (Q : Res H Unit → FirstError → Life → Prop) (f : FirstError),
      (∀ f', Q (.ok ()) f' w) → Act.wp (life (X := X) (Y := Y) steady) (x b) Q f w)
    (hQ : ∀ f', Q (.ok ()) (r, f') w) :
    Act.wp (life (X := X) (Y := Y) steady) (Runner.onFirst x) Q (r, f) w := by
  simp only [Runner.onFirst, Act.wp_bind, Act.wp_get, Act.next_ok, Act.wp_zoom]
  exact hx _ _ _ hQ

theorem wp_life_offer {e : Error} {x : Bool} {Q : Res H Unit → FirstError → Life → Prop}
    {f : FirstError} (hQ : ∀ f', Q (.ok ()) f' w) :
    Act.wp (life (X := X) (Y := Y) steady) (FirstError.offer e x) Q f w := by
  simp only [FirstError.offer, Act.wp_bind, Act.wp_get, Act.next_ok]
  cases f with
  | none => exact hQ _
  | some first => exact wp_life_emitEvent (hQ _)

theorem wp_life_offer_result {res : Except Error Unit} {x : Bool}
    {Q : Res H Unit → FirstError → Life → Prop} {f : FirstError} (hQ : ∀ f', Q (.ok ()) f' w) :
    Act.wp (life (X := X) (Y := Y) steady) (FirstError.offer_result res x) Q f w := by
  match res with
  | .ok () => exact hQ _
  | .error e => exact wp_life_offer hQ

theorem wp_life_offer_halt {res : Except Halt Unit} {x : Bool}
    {Q : Res H Unit → FirstError → Life → Prop} {f : FirstError} (hQ : ∀ f', Q (.ok ()) f' w) :
    Act.wp (life (X := X) (Y := Y) steady) (FirstError.offer_halt res x) Q f w := by
  match res with
  | .ok () | .error .disconnected => exact hQ _
  | .error (.failed e) => exact wp_life_offer hQ

/-- What a part of a teardown needs to know of the rest: it ends with a runner that is `Abortable`
again, one teardown call further if it panicked. -/
def Runner.Ends (b : Life) (view : σ → Option SinkFlags) (r : Runner σ) (w : Life)
    (r' : Runner σ) (w' : Life) : Prop :=
  r'.At b view w' ∧ r'.Abortable w' ∧ r'.live = r.live ∧ w.phase < w'.phase

/-- The chain is dropped before the segments are waited for. -/
theorem Runner.At.wp_wait_segments (h : r.At b view w) (hp : 2 ≤ w.phase) {f : FirstError}
    {Q : Res H Unit → Runner c.σ × FirstError → Life → Prop}
    (hQ : ∀ r' w', r'.At b view w' → r'.segments_done = false → w'.phase = w.phase →
      r'.live = r.live → Q (.ok ()) (r', f) w') :
    Act.wp (life (X := X) (Y := Y) steady) Runner.wait_segments Q (r, f) w := by
  simp only [Runner.wait_segments, Act.wp_bind, Act.wp_get, Act.next_ok]
  cases hs : r.segments_done with
  | false => exact hQ r w h hs rfl rfl
  | true =>
    have hsender : w.sender = true := h.link.trans (h.held hs).1
    simp only [if_true, Act.wp_bind, Act.wp_modify, Act.next_ok, Act.wp_perform]
    refine ⟨⟨hsender, fun _ => hp⟩, fun _ w₁ ha => ?_⟩
    obtain rfl : w₁ = { w with sender := false } := ha.2.1
    refine ⟨⟨h.source_eq, rfl⟩, fun _ w₂ ha => ?_⟩
    obtain rfl : w₂ = { w with sender := false, waited := true } := ha.2.1
    refine hQ _ _ ?_ rfl rfl rfl
    refine ⟨?_, h.owner, by simp, rfl, rfl, by simp, fun _ => hp, fun _ _ => rfl, h.source, h.owns,
      h.letters, h.finished, h.bound⟩
    rw [h.same]

/-- Later teardown calls move the runner on. -/
theorem Runner.At.later (h : r.At b view w) (hp : 2 ≤ w.phase) (hd : r.segments_done = false)
    {p : Nat} (hle : w.phase ≤ p) (hb : p ≤ finalPhase b.dlq) {r' : Runner c.σ}
    (hr' : r' = { r with source_closed := decide (3 ≤ p), ctx := r'.ctx,
                         dlq_finished := r'.dlq_finished })
    (hletters : r.owns_dlq = true → r'.ctx.dlq = dlqAt b.dlq p)
    (hfinished : r'.dlq_finished = true → p = finalPhase b.dlq) : r'.At b view (w.to p) where
  same := by
    rw [h.same]
    rfl
  owner := h.owner
  chain s hs := by
    rw [hr'] at hs
    have ht := h.chain s hs
    cases hv : view s with
    | none =>
      rw [hv] at ht
      exact ht
    | some flags =>
      rw [hv] at ht
      refine ⟨ht.1, ht.2.trans ?_⟩
      rw [flagsAt, flagsAt, decide_eq_true (by omega), decide_eq_true hp, Life.to_phase,
        decide_eq_true (by omega : 1 ≤ p), decide_eq_true (by omega : 2 ≤ p)]
  link := by
    rw [hr']
    exact h.link
  waits := by
    rw [hr']
    exact h.waits
  held hs := by
    rw [hr'] at hs
    cases hd.symm.trans hs
  gone _ := Nat.le_trans hp hle
  fed := by
    rw [hr']
    exact h.fed
  source := by rw [hr', Life.to_phase]
  owns := by
    rw [hr']
    exact h.owns
  letters := by
    rw [hr'] at hletters ⊢
    exact hletters
  finished := hfinished
  bound := hb

/-- The source is closed if it was not. -/
theorem Runner.At.wp_close_source (h : r.At b view w) (hp : 2 ≤ w.phase)
    (hd : r.segments_done = false) {f : FirstError}
    {Q : Res H Unit → Runner c.σ × FirstError → Life → Prop}
    (hok : ∀ r' f', r'.At b view (w.to (max w.phase 3)) → r.Same r' → Q (.ok ()) (r', f') (w.to (max w.phase 3)))
    (hpanic : ∀ r' w', r.Ends b view w r' w' → Q .panic (r', f) w') :
    Act.wp (life (X := X) (Y := Y) steady) Runner.close_source Q (r, f) w := by
  simp only [Runner.close_source, Act.wp_bind, Act.wp_get, Act.next_ok, h.source]
  by_cases h3 : 3 ≤ w.phase
  · have hmax : max w.phase 3 = w.phase := by omega
    rw [if_pos (by simpa using h3)]
    rw [hmax, Life.to_self] at hok
    exact hok r f h (.refl r)
  · have h2 : w.phase = 2 := by omega
    have hmax : max w.phase 3 = w.phase + 1 := by omega
    have hge := three_le_finalPhase b.dlq
    rw [if_neg (by simpa using h3)]
    simp only [Act.wp_bind, Act.wp_modify, Act.next_ok, Act.wp_perform]
    refine ⟨⟨h.source_eq, h.waits.trans (by rw [hd]; rfl), h2⟩, fun a w' hw => ?_⟩
    obtain rfl : w' = w.to (w.phase + 1) := hw.2.1
    have hclosed : Runner.At b view (w.to (w.phase + 1)) { r with source_closed := true } := by
      refine h.later hp hd (by omega) (by omega) (by simp [h2]) (fun ho => ?_) fun hf => ?_
      · exact (h.letters ho).trans (dlqAt_low _ (by omega) (by omega))
      · have := h.finished hf
        omega
    cases a with
    | none => exact hpanic _ _ ⟨hclosed, abortable hd, rfl, Nat.lt_succ_self _⟩
    | some closed =>
      rw [hmax] at hok
      simp only [wp_outcome_some, Act.next_ok]
      exact wp_life_onFirst (fun b Q f hQ => wp_life_offer_result hQ) fun f' =>
        hok _ f' hclosed ⟨rfl, rfl, rfl⟩

theorem wp_life_dlq_flush (hd : w.dlq = true) (hp : 3 ≤ w.phase) (hb : w.phase ≤ 5)
    (hcrew : ∀ i ∈ w.crew, i ∈ w.joined) {Q : Res Error Unit → Dlq → Life → Prop}
    (hQ : ∀ r, (r = .panic → steady = false ∧ w.phase = 3) →
      Q r (dlqAt true (max w.phase 4)) (w.to (max w.phase 4))) :
    Act.wp (life (X := X) (Y := Y) steady) (Dlq.call .flush) Q (dlqAt true w.phase) w := by
  simp only [Dlq.call, Act.wp_bind, Act.wp_get, Act.next_ok]
  by_cases h3 : w.phase = 3
  · have hmax : max w.phase 4 = w.phase + 1 := by omega
    have hdlq : dlqAt true w.phase = .sink false false := by simp [dlqAt, h3]
    have hdlq' : dlqAt true (w.phase + 1) = .sink true false := by simp [dlqAt, h3]
    rw [hmax, hdlq'] at hQ
    rw [hdlq]
    refine ⟨⟨hd, h3, hcrew⟩, fun a w' ha => ?_⟩
    obtain rfl : w' = w.to (w.phase + 1) := ha.2.1
    rcases a with _ | ⟨e | _⟩
    · exact hQ .panic fun _ => ⟨Bool.eq_false_iff.2 fun hs => ha.1.2 hs rfl, h3⟩
    · exact hQ (.halt _) (by simp)
    · exact hQ (.ok ()) (by simp)
  · have hmax : max w.phase 4 = w.phase := by omega
    rw [hmax, Life.to_self] at hQ
    have hdlq : dlqAt true w.phase = .sink true (decide (5 ≤ w.phase)) := by
      simp [dlqAt]
      omega
    rw [hdlq] at hQ ⊢
    exact hQ (.ok ()) (by simp)

theorem wp_life_dlq_close (hd : w.dlq = true) (hp : 4 ≤ w.phase) (hb : w.phase ≤ 5)
    {Q : Res Error Unit → Dlq → Life → Prop}
    (hQ : ∀ r, (r = .panic → steady = false ∧ w.phase = 4) → Q r (dlqAt true 5) (w.to 5)) :
    Act.wp (life (X := X) (Y := Y) steady) (Dlq.call .close) Q (dlqAt true w.phase) w := by
  simp only [Dlq.call, Act.wp_bind, Act.wp_get, Act.next_ok]
  by_cases h4 : w.phase = 4
  · have hdlq : dlqAt true w.phase = .sink true false := by simp [dlqAt, h4]
    rw [hdlq]
    refine ⟨⟨hd, h4⟩, fun a w' ha => ?_⟩
    obtain rfl : w' = w.to 5 := ha.2.1.trans (congrArg w.to (by rw [h4]; rfl))
    rcases a with _ | ⟨e | _⟩
    · exact hQ .panic fun _ => ⟨Bool.eq_false_iff.2 fun hs => ha.1.2 hs rfl, h4⟩
    · exact hQ (.halt _) (by simp)
    · exact hQ (.ok ()) (by simp)
  · have h5 : w.phase = 5 := by omega
    have hw : w.to 5 = w := by rw [← h5, Life.to_self]
    rw [h5]
    rw [hw] at hQ
    exact hQ (.ok ()) (by simp)

/-- The dead-letter sink is flushed and closed, as far as it was not. -/
theorem wp_life_dlq_finish {observer : Bool} (hp : 3 ≤ w.phase)
    (hb : w.phase ≤ finalPhase w.dlq) (hcrew : ∀ i ∈ w.crew, i ∈ w.joined)
    {Q : Res Error Unit → Dlq → Life → Prop}
    (hdone : ∀ r, r ≠ .panic →
      Q r (dlqAt w.dlq (finalPhase w.dlq)) (w.to (finalPhase w.dlq)))
    (hpanic : ∀ p, steady = false → w.phase < p → p ≤ finalPhase w.dlq →
      Q .panic (dlqAt w.dlq p) (w.to p)) :
    Act.wp (life (X := X) (Y := Y) steady) (Dlq.finish observer) Q (dlqAt w.dlq w.phase) w := by
  have hfirst : ∀ (d : Dlq) (v : Life) (a b : Except Error Unit),
      (∀ r, r ≠ .panic → Q r d v) →
      Act.wp (life (X := X) (Y := Y) steady) (first_of a b observer) Q d v := by
    intro d v a b h
    cases a with
    | error first =>
      cases b with
      | error second => exact (Act.wp_bind ..).2 (wp_life_emitEvent (h (.halt first) (by simp)))
      | ok u => exact h (.halt first) (by simp)
    | ok u =>
      cases b with
      | error e => exact h (.halt e) (by simp)
      | ok u => exact h (.ok ()) (by simp)
  simp only [Dlq.finish, Act.wp_bind, Act.wp_attempt]
  cases hd : w.dlq with
  | false =>
    rw [hd] at hb hdone
    have h3 : w.phase = 3 := Nat.le_antisymm hb hp
    have hw : w.to (finalPhase false) = w := by
      rw [← show w.phase = finalPhase false from h3, Life.to_self]
    rw [hw] at hdone
    exact hdone (.ok ()) (by simp)
  | true =>
    rw [hd] at hb hdone hpanic
    have hb5 : w.phase ≤ 5 := hb
    refine wp_life_dlq_flush hd hp hb5 hcrew fun flushed hf => ?_
    cases flushed with
    | panic =>
      obtain ⟨hs, h3⟩ := hf rfl
      have hmax : max w.phase 4 = 4 := by omega
      rw [hmax]
      exact hpanic 4 hs (by omega) (by decide)
    | ok | halt =>
      simp only [Res.attempted_ok, Res.attempted_halt, Act.next_ok, Act.wp_bind, Act.wp_attempt]
      refine wp_life_dlq_close (w := w.to (max w.phase 4)) hd ?_ ?_ fun closed hc => ?_
      · rw [Life.to_phase]
        omega
      · rw [Life.to_phase]
        omega
      · cases closed with
        | panic =>
          obtain ⟨hs, h4⟩ := hc rfl
          rw [Life.to_phase] at h4
          exact hpanic 5 hs (by omega) (by decide)
        | ok | halt => exact hfirst _ _ _ _ hdone

/-- The dead-letter sink is finished if it was not. -/
theorem Runner.At.wp_finish_dlq (h : r.At b view w) (hp : 3 ≤ w.phase)
    (hd : r.segments_done = false) {f : FirstError}
    {Q : Res H Unit → Runner c.σ × FirstError → Life → Prop}
    (hok : ∀ r' f', r'.At b view (w.to (finalPhase b.dlq)) → r.Same r' →
      Q (.ok ()) (r', f') (w.to (finalPhase b.dlq)))
    (hpanic : ∀ r' w', r.Ends b view w r' w' → Q .panic (r', f) w') :
    Act.wp (life (X := X) (Y := Y) steady) Runner.finish_dlq Q (r, f) w := by
  have hge := three_le_finalPhase b.dlq
  have hsource : r.source_closed = true := h.source.trans (decide_eq_true hp)
  have hmove : ∀ p x, w.phase ≤ p → p ≤ finalPhase b.dlq → (x = true → p = finalPhase b.dlq) →
      Runner.At b view (w.to p) { r with ctx.dlq := dlqAt b.dlq p, dlq_finished := x } := by
    intro p x hlt hle hx
    have h3 : 3 ≤ p := by omega
    exact h.later (by omega) hd hlt hle (by simp [h3, hsource]) (fun _ => rfl) hx
  simp only [Runner.finish_dlq, Act.wp_bind, Act.wp_get, Act.next_ok]
  split
  · rename_i hown
    simp only [Act.wp_bind, Act.wp_attempt, Runner.onDlq, Act.wp_get, Act.next_ok, Act.wp_zoom]
    rw [h.letters hown.1, ← h.dlq_eq]
    have hcrew : ∀ i ∈ w.crew, i ∈ w.joined := by simp [h.crew_eq]
    refine wp_life_dlq_finish hp (h.dlq_eq ▸ h.bound) hcrew (fun res hres => ?_) fun p _ hlt hle => ?_
    · rw [h.dlq_eq]
      have hat := hmove _ true h.bound (Nat.le_refl _) fun _ => rfl
      cases res with
      | panic => exact absurd rfl hres
      | ok | halt =>
        simp only [Res.attempted_ok, Res.attempted_halt, Act.next_ok, Act.wp_bind, Act.wp_modify]
        exact wp_life_onFirst (fun b Q f hQ => wp_life_offer_result hQ) fun f' =>
          hok _ f' hat ⟨rfl, rfl, rfl⟩
    · rw [h.dlq_eq] at hle ⊢
      have hat := hmove p r.dlq_finished (by omega) hle fun hf => by
        have := h.finished hf
        omega
      exact hpanic _ _ ⟨hat, abortable hd, rfl, hlt⟩
  · rename_i hdone
    have hfin : w.phase = finalPhase b.dlq := by
      by_cases ho : r.owns_dlq = true
      · exact h.finished (by simpa [ho] using hdone)
      · have hb := h.bound
        rw [h.owns (Bool.eq_false_iff.2 ho)] at hb ⊢
        exact Nat.le_antisymm hb hp
    rw [← hfin, Life.to_self] at hok
    exact hok r f h (.refl r)

theorem Runner.At.wp_close_rest (h : r.At b view w) (hp : 2 ≤ w.phase) {f : FirstError}
    {Q : Res H Unit → Runner c.σ × FirstError → Life → Prop}
    (hok : ∀ r' f' w', r'.At b view w' → w'.phase = finalPhase b.dlq → r'.segments_done = false →
      Q (.ok ()) (r', f') w')
    (hpanic : ∀ r' f' w', r.Ends b view w r' w' → Q .panic (r', f') w') :
    Act.wp (life (X := X) (Y := Y) steady) Runner.close_rest Q (r, f) w := by
  simp only [Runner.close_rest, Act.wp_bind]
  refine h.wp_wait_segments hp fun r₀ w₀ h₀ hd₀ hp₀ hl₀ => ?_
  simp only [Act.next_ok, Act.wp_bind]
  refine h₀.wp_close_source (by omega) hd₀ (fun r₁ f₁ h₁ hs₁ => ?_) fun r₁ w₁ h₁ => ?_
  · have hp₁ : 3 ≤ (w₀.to (max w₀.phase 3)).phase := by rw [Life.to_phase]; omega
    have hd₁ := hs₁.segments.trans hd₀
    refine h₁.wp_finish_dlq hp₁ hd₁ (fun r₂ f₂ h₂ hs₂ => ?_) fun r₂ w₂ h₂ => ?_
    · exact hok r₂ f₂ _ h₂ rfl (hs₂.segments.trans hd₁)
    · obtain ⟨h₂, ha₂, hl₂, hlt⟩ := h₂
      refine hpanic r₂ f₁ w₂ ⟨h₂, ha₂, hl₂.trans (hs₁.live.trans hl₀), ?_⟩
      rw [Life.to_phase] at hlt
      omega
  · obtain ⟨h₁, ha₁, hl₁, hlt⟩ := h₁
    exact hpanic r₁ f w₁ ⟨h₁, ha₁, hl₁.trans hl₀, by omega⟩

/-- A runner whose teardown is over. -/
structure Runner.Over (b : Life) (view : σ → Option SinkFlags) (r : Runner σ) (w : Life) :
    Prop where
  at_end : r.At b view w
  phase : w.phase = finalPhase b.dlq
  segments : r.segments_done = false
  dead : r.live = false

/-- The last part of a teardown. -/
theorem Runner.At.wp_end (h : r.At b view w) (hp : 2 ≤ w.phase) {f : FirstError} (res : Except Halt Unit)
    {Q : Res H Unit → Runner c.σ × FirstError → Life → Prop}
    (hok : ∀ r' f' w', r'.Over b view w' → Q (.ok ()) (r', f') w')
    (hpanic : ∀ r' f' w', r.Ends b view w r' w' → Q .panic (r', f') w') :
    Act.wp (life (X := X) (Y := Y) steady) (do
      Runner.onFirst (FirstError.offer_halt res)
      Runner.close_rest
      Act.modify fun s : Runner c.σ × FirstError => ({ s.1 with live := false }, s.2))
        Q (r, f) w := by
  refine (Act.wp_bind ..).2 (wp_life_onFirst (fun b Q f hQ => wp_life_offer_halt hQ) fun f₁ => ?_)
  refine (Act.wp_bind ..).2 (h.wp_close_rest hp (fun r' f' w' h' hp' hd' => ?_) hpanic)
  exact hok _ f' w' ⟨h'.move rfl rfl rfl rfl rfl rfl, hp', hd', rfl⟩

/-- An attempt to tear down succeeds, or panics after a teardown call that was not made
before. -/
theorem Runner.At.wp_abort (h : r.At b view w) (ha : r.Abortable w)
    (hc : c.Obeys (life steady) (lifeRules steady) view) {f : FirstError}
    {Q : Res H Unit → Runner c.σ × FirstError → Life → Prop}
    (hok : ∀ r' f' w', r'.Over b view w' → Q (.ok ()) (r', f') w')
    (hpanic : ∀ r' f' w', r.Ends b view w r' w' → Q .panic (r', f') w') :
    Act.wp (life steady) (Runner.abort c) Q (r, f) w := by
  simp only [Runner.abort, Act.wp_bind, Act.wp_attempt, Runner.onRunner, Act.wp_zoom]
  refine Act.wp_mono (h.wp_call hc .abort ha) fun res r₁ w₁ h₁ => ?_
  obtain ⟨hat, hs, hw₁, res', rfl, hpan, hok'⟩ := h₁
  by_cases hres : res' = .panic
  · subst hres
    obtain ⟨-, hsink, hlt, -⟩ := hpan rfl
    refine hpanic r₁ f w₁ ⟨hat, fun _ hsink' => ?_, hs.live, hlt⟩
    rw [hat.sink_eq, ← h.sink_eq, hsink] at hsink'
    cases hsink'
  · have hmax := hok' hres
    have hend : ∀ res, Act.wp (life (X := X) (Y := Y) steady) (do
        Runner.onFirst (FirstError.offer_halt res)
        Runner.close_rest
        Act.modify fun s : Runner c.σ × FirstError => ({ s.1 with live := false }, s.2))
          Q (r₁, f) w₁ := by
      intro res
      refine hat.wp_end (by omega) res hok fun r₂ f₂ w₂ h₂ => ?_
      obtain ⟨h₂, ha₂, hl₂, hlt⟩ := h₂
      exact hpanic r₂ f₂ w₂ ⟨h₂, ha₂, hl₂.trans hs.live, by omega⟩
    cases res' with
    | panic => exact absurd rfl hres
    | ok n => exact hend (.ok ())
    | halt e => exact hend (.error e)

/-- A graceful end completes the teardown or panics on the way. -/
theorem Runner.At.wp_finish (h : r.At b view w) (hp : w.phase = 0)
    (hc : c.Obeys (life steady) (lifeRules steady) view) {f : FirstError}
    {Q : Res H Unit → Runner c.σ × FirstError → Life → Prop}
    (hok : ∀ r' f' w', r'.Over b view w' → Q (.ok ()) (r', f') w')
    (hpanic : ∀ r' f' w', r'.At b view w' → r'.Abortable w' → r'.live = r.live →
      Q .panic (r', f') w') :
    Act.wp (life steady) (Runner.finish c) Q (r, f) w := by
  simp only [Runner.finish, Act.wp_bind, Act.wp_attempt, Runner.onRunner, Act.wp_zoom]
  refine Act.wp_mono (h.wp_call hc .flush hp) fun res r₁ w₁ h₁ => ?_
  obtain ⟨h₁, hs₁, -, res', rfl, hle, hflushed⟩ := h₁
  have ha₁ : r₁.Abortable w₁ := fun _ _ => hle
  have hend : ∀ {r₂ w₂} (f₂ : FirstError) (res : Except Halt Unit), r₂.At b view w₂ →
      2 ≤ w₂.phase → r₂.live = r.live → Act.wp (life (X := X) (Y := Y) steady) (do
        Runner.onFirst (FirstError.offer_halt res)
        Runner.close_rest
        Act.modify fun s : Runner c.σ × FirstError => ({ s.1 with live := false }, s.2))
          Q (r₂, f₂) w₂ := by
    refine fun f₂ res h₂ hp₂ hl₂ => h₂.wp_end hp₂ res hok fun r₃ f₃ w₃ h₃ => ?_
    obtain ⟨h₃, ha₃, hl₃, -⟩ := h₃
    exact hpanic r₃ f₃ w₃ h₃ ha₃ (hl₃.trans hl₂)
  cases res' with
  | panic => exact hpanic r₁ f w₁ h₁ ha₁ hs₁.live
  | ok n =>
    have hp₁ : w₁.phase = 1 := hflushed n rfl
    simp only [Res.void, Res.attempted_ok, Act.next_ok, Act.wp_bind, Act.wp_attempt, Act.wp_zoom]
    refine Act.wp_mono (h₁.wp_call hc .close hp₁) fun res r₂ w₂ h₂ => ?_
    obtain ⟨h₂, hs₂, -, res', rfl, hclosed, hpan⟩ := h₂
    have hl₂ := hs₂.live.trans hs₁.live
    cases res' with
    | panic =>
      refine hpanic r₂ f w₂ h₂ (fun _ hsink => ?_) hl₂
      rw [h₂.sink_eq, ← h₁.sink_eq, hpan rfl] at hsink
      cases hsink
    | ok n => exact hend f (.ok ()) h₂ (Nat.le_of_eq hclosed.symm) hl₂
    | halt e => exact hend f (.error e) h₂ (Nat.le_of_eq hclosed.symm) hl₂
  | halt halt =>
    simp only [Res.void, Res.attempted_halt, Act.next_ok, Act.wp_bind]
    refine wp_life_onFirst (fun b Q f hQ => wp_life_offer_halt hQ) fun f₁ => ?_
    simp only [Act.next_ok, Act.wp_bind, Act.wp_attempt, Act.wp_zoom]
    refine Act.wp_mono (h₁.wp_call hc .abort ha₁) fun res r₂ w₂ h₂ => ?_
    obtain ⟨h₂, hs₂, -, res', rfl, hpan, haborted⟩ := h₂
    have hl₂ := hs₂.live.trans hs₁.live
    cases res' with
    | panic =>
      refine hpanic r₂ f₁ w₂ h₂ (fun _ hsink => ?_) hl₂
      rw [h₂.sink_eq, ← h₁.sink_eq, (hpan rfl).2.1] at hsink
      cases hsink
    | ok n =>
      have hmax := haborted (by simp)
      exact hend f₁ (.ok ()) h₂ (by omega) hl₂
    | halt e =>
      have hmax := haborted (by simp)
      exact hend f₁ (.error e) h₂ (by omega) hl₂

/-- Enough attempts always complete the teardown: there is one panic for each teardown
call at most. -/
theorem Runner.At.wp_retries (h : r.At b view w) (ha : r.Abortable w)
    (hc : c.Obeys (life steady) (lifeRules steady) view) (hlive : r.live = true) (n : Nat)
    (hn : finalPhase b.dlq < n + w.phase) {f : FirstError}
    {Q : Res H Unit → Runner c.σ × FirstError → Life → Prop}
    (hok : ∀ r' f' w', r'.Over b view w' → Q (.ok ()) (r', f') w') :
    Act.wp (life steady) (Runner.retries c n) Q (r, f) w := by
  induction n generalizing w r f with
  | zero =>
    have := h.bound
    omega
  | succ n ih =>
    simp only [Runner.retries, Act.wp_bind, Act.wp_get, Act.next_ok, hlive, if_true]
    refine (Act.wp_contain _).2 (h.wp_abort ha hc (fun r' f' w' ho => ?_) fun r' f' w' he => ?_)
    · cases n with
      | zero => exact hok r' f' w' ho
      | succ n =>
        simp only [Res.contained_ok, Act.next_ok, Runner.retries, Act.wp_bind, Act.wp_get, ho.dead]
        exact hok r' f' w' ho
    · obtain ⟨h', ha', hl', hlt⟩ := he
      exact ih h' ha' (hl'.trans hlive) (by omega)

/-- Dropping a runner completes the teardown. -/
theorem Runner.At.wp_drop (h : r.At b view w)
    (hc : c.Obeys (life steady) (lifeRules steady) view)
    (hlive : r.live = true ∧ r.Abortable w ∨ r.Over b view w)
    {Q : Res H Unit → Runner c.σ → Life → Prop}
    (hok : ∀ r' w', r'.Over b view w' → Q (.ok ()) r' w') :
    Act.wp (life steady) (Runner.drop c) Q r w := by
  simp only [Runner.drop, Act.wp_bind, Act.wp_get, Act.next_ok]
  rcases hlive with ⟨hl, ha⟩ | ho
  · have hfin : finalPhase b.dlq < 6 + w.phase := by
      cases b.dlq <;> simp [finalPhase] <;> omega
    rw [hl]
    simp only [if_true, Act.wp_zoom, Act.wp_bind]
    refine h.wp_retries ha hc hl 6 hfin fun r' f' w' ho => ?_
    simp only [Act.next_ok]
    cases f' with
    | none => exact hok r' w' ho
    | some e =>
      simp only [FirstError.into_result, Act.wp_bind, Act.wp_get, Act.next_ok, Act.wp_contain]
      exact wp_life_emitEvent (hok r' w' ho)
  · rw [ho.dead]
    exact hok r w ho

end Runner

end PipeIo
