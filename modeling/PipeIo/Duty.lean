import PipeIo.Life

namespace PipeIo
set_option autoImplicit true

open Lib

/-- The components a thread has to tear down, and how many threads it may spawn. -/
structure Role where
  sink : Bool
  source : Bool
  dlq : Bool
  crew : Nat
  deriving DecidableEq, Repr

/-- A run on a single thread. -/
def Role.single (dlq : Bool) : Role := ⟨true, true, dlq, 0⟩

/-- The teardown calls a thread has made, or for a thread that feeds an edge whether it has sent
`Flush`; whether its observer has panicked, whether it has received `Flush` and whom it has
joined. -/
structure Duty where
  flushed : Bool
  closed : Bool
  source : Bool
  dlq_flushed : Bool
  dlq_closed : Bool
  panicked : Bool
  received : Bool
  joined : Nat → Bool

/-- No teardown call panics. -/
def Firm : (e : Eff X Y) → Ans e → Prop
  | .closeSource, a => a ≠ none
  | e, a => Steady e a

namespace Duty

/-- Nothing has been done yet. -/
def start : Duty := ⟨false, false, false, false, false, false, false, fun _ => false⟩

/-- What has been done after an answered request. -/
def after (d : Duty) : (e : Eff X Y) → Ans e → Duty
  | .flush, _ => { d with flushed := true }
  | .close, _ => { d with closed := true }
  | .closeSource, _ => { d with source := true }
  | .deadLetter .flush, _ => { d with dlq_flushed := true }
  | .deadLetter .close, _ => { d with dlq_closed := true }
  | .observe _, a => { d with panicked := d.panicked || a.isNone }
  | .send .flush, sent => { d with flushed := d.flushed || sent }
  | .recv _, .msg .flush => { d with received := true }
  | .join i, _ => { d with joined := fun k => d.joined k || decide (k = i) }
  | _, _ => d

/-- The observer panics once, and not on `Started`. -/
def Excuses (d : Duty) : (e : Eff X Y) → Ans e → Prop
  | .observe event, a => a = none → event ≠ .started ∧ d.panicked = false
  | _, _ => True

/-- The sink has been flushed and closed. -/
def SinkDone (role : Role) (d : Duty) : Prop :=
  role.sink = true → d.flushed = true ∧ d.closed = true

/-- The dead-letter sink has been flushed and closed. -/
def DlqDone (role : Role) (d : Duty) : Prop :=
  role.dlq = true → d.dlq_flushed = true ∧ d.dlq_closed = true

/-- All that the thread has to tear down has been torn down. -/
structure Complete (role : Role) (d : Duty) : Prop where
  sink : d.SinkDone role
  source : role.source = true → d.source = true
  dlq : d.DlqDone role

/-- What a call of the chain may change. -/
structure Grows (d d' : Duty) : Prop where
  flushed : d.flushed = true → d'.flushed = true
  closed : d.closed = true → d'.closed = true
  source : d'.source = d.source
  dlq_flushed : d'.dlq_flushed = d.dlq_flushed
  dlq_closed : d'.dlq_closed = d.dlq_closed
  panicked : d.panicked = true → d'.panicked = true
  received : d'.received = d.received
  joined : d'.joined = d.joined

theorem Grows.refl (d : Duty) : d.Grows d := ⟨id, id, rfl, rfl, rfl, id, rfl, rfl⟩

theorem Grows.trans {d d' d'' : Duty} (h : d.Grows d') (h' : d'.Grows d'') : d.Grows d'' where
  flushed hf := h'.flushed (h.flushed hf)
  closed hc := h'.closed (h.closed hc)
  source := h'.source.trans h.source
  dlq_flushed := h'.dlq_flushed.trans h.dlq_flushed
  dlq_closed := h'.dlq_closed.trans h.dlq_closed
  panicked hp := h'.panicked (h.panicked hp)
  received := h'.received.trans h.received
  joined := h'.joined.trans h.joined

theorem Grows.sinkDone {role : Role} {d d' : Duty} (h : d.Grows d') (hd : d.SinkDone role) :
    d'.SinkDone role := fun hs => ⟨h.flushed (hd hs).1, h.closed (hd hs).2⟩

/-- If the code has unwound, it is because the observer panicked. -/
def Blames (d : Duty) (r : Res H α) (d' : Duty) : Prop :=
  r = .panic → d.panicked = false ∧ d'.panicked = true

theorem Blames.ok {a : α} (d d' : Duty) : d.Blames (.ok a : Res H α) d' := nofun

theorem Blames.halt {h : H} (d d' : Duty) : d.Blames (.halt h : Res H α) d' := nofun

end Duty

/-- When a thread may make a request: each component it has to tear down is flushed, closed and so
on at most once, and it sends no `Close` before a `Flush`; it receives no `Close` before one. -/
def duties (role : Role) : Spec (Eff X Y) Ans Duty where
  pre e d := match e with
    | .flush => role.sink = true ∧ d.flushed = false
    | .close => role.sink = true ∧ d.closed = false
    | .closeSource => role.source = true ∧ d.source = false
    | .deadLetter .flush => role.dlq = true ∧ d.dlq_flushed = false
    | .deadLetter .close => role.dlq = true ∧ d.dlq_closed = false
    | .send op => role.sink = false ∧ (op = .close → d.flushed = true)
    | .trySend op => role.sink = false ∧ op = .tick
    | .spawn i => i < role.crew
    | .recv _ => role.source = false
    | _ => True
  post e d a d' := (Firm e a ∧ d.Excuses e a) ∧ d' = d.after e a ∧ match e, a with
    | .recv _, .msg .close => d.received = true
    | _, _ => True

/-- The tail of a chain, seen by its flags if it is the sink. -/
def Duty.Tracks (role : Role) (d : Duty) : Option SinkFlags → Prop
  | some flags => role.sink = true ∧ flags = ⟨d.flushed, d.closed⟩
  | none => role.sink = false

/-- What an operation on the chain does to the sink. -/
def Duty.Did (role : Role) (k : Option Signal) (r : Res Halt α) (d d' : Duty) : Prop :=
  match k with
  | none | some .tick => True
  | some .flush => ∀ a, r = .ok a → d'.flushed = true
  | some .close => r ≠ .panic ∧ (role.sink = true → d'.closed = true)
  | some .abort => d'.SinkDone role ∧ d.Blames r d'

def dutyRules (role : Role) : Rules (Option SinkFlags) Duty where
  pre k t d := d.Tracks role t ∧ (k = some .close → d.flushed = true)
  post k r _ d t' d' := d'.Tracks role t' ∧ d.Grows d' ∧ d.Did role k r d'

variable {X Y H σ α : Type} {role : Role}

theorem Duty.after_observe_grows (d : Duty) (event : Event) (a : Option Unit) :
    d.Grows (d.after (.observe event : Eff X Y) a) :=
  ⟨id, id, rfl, rfl, rfl, fun h => by simp [after, h], rfl, rfl⟩

theorem dutyRules_lawful : (dutyRules role).Lawful (duties (X := X) (Y := Y) role) where
  quiet := by
    intro t d e hp he
    have hkeep : ∀ d', d' = d → (dutyRules role).post none (.ok 0) t d t d' := by
      intro d' hd
      subst hd
      exact ⟨hp.1, .refl d', trivial⟩
    cases e with
    | observe event =>
      refine ⟨trivial, fun a d' h => ?_⟩
      rw [h.2.1]
      exact ⟨hp.1, d.after_observe_grows event a, trivial⟩
    | deadLetter op =>
      cases op with
      | write f => exact ⟨trivial, fun a d' h => hkeep d' h.2.1⟩
      | flush | close => exact he.elim
    | sleep | note => exact ⟨trivial, fun a d' h => hkeep d' h.2.1⟩
    | _ => exact he.elim
  refl h := ⟨h.1, .refl _, trivial⟩
  item _ h := ⟨h.1, by simp⟩
  keep := by
    intro k t d n t' d' hk hp h
    refine ⟨h.1, ?_⟩
    intro hclose
    subst hclose
    exact hk.elim
  seq := by
    intro k n t d t' d' r t'' d'' hk h h'
    refine ⟨h'.1, h.2.1.trans h'.2.1, ?_⟩
    have hdid := h'.2.2
    rcases k with _ | k
    · trivial
    cases k with
    | tick => trivial
    | flush =>
      intro m hm
      cases r with
      | ok a => exact hdid a rfl
      | halt | panic => cases hm
    | close | abort => exact hk.elim
  fail h := h
  crash h := h
  lift := by
    intro k r t d t' d' hk h hr
    refine ⟨h.1, h.2.1, ?_⟩
    rcases k with _ | k
    · trivial
    cases k with
    | tick => trivial
    | flush => exact fun n hn => absurd hn (hr n)
    | close | abort => exact hk.elim

/-- A chain that tears down what is behind it. -/
def StageFn.Dutiful (c : StageFn X Y T) (role : Role) (view : c.σ → Option SinkFlags) : Prop :=
  c.Obeys (duties role) (dutyRules role) view

section Tail

variable {d : Duty}

theorem Duty.after_observe (d : Duty) (event : Event) :
    d.after (.observe event : Eff X Y) (some ()) = d := by
  simp [Duty.after]

/-- An event changes nothing, unless the observer panics. -/
theorem wp_duty_emitEvent {active : Bool} {event : Event} {Q : Res H Unit → σ → Duty → Prop} {s : σ}
    (hok : Q (.ok ()) s d)
    (hpanic : d.panicked = false → event ≠ .started → Q .panic s { d with panicked := true }) :
    Act.wp (duties (X := X) (Y := Y) role) (emitEvent active event) Q s d := by
  cases active with
  | false => exact hok
  | true =>
    refine (Act.wp_bind ..).2 ⟨trivial, fun a d' ha => ?_⟩
    obtain ⟨⟨-, hexcuse⟩, hd, -⟩ := ha
    subst hd
    cases a with
    | none =>
      obtain ⟨hstarted, hfirst⟩ := hexcuse rfl
      have hafter : d.after (.observe event : Eff X Y) none = { d with panicked := true } := by
        simp [Duty.after]
      rw [hafter]
      exact hpanic hfirst hstarted
    | some u =>
      rw [Duty.after_observe]
      exact hok

theorem sinkRes_firm {id : StageId} {a : Option (Except BoxError Unit)} (h : a ≠ none) :
    sinkRes id a ≠ .panic := by
  have hsteady : true = true → a ≠ none := fun _ => h
  intro hr
  exact Bool.noConfusion (sinkRes_steady hsteady hr)

/-- Afterwards the sink has been flushed. -/
theorem wp_duty_flushOnce {id : StageId} {Q : Res Halt Unit → SinkFlags × Ctx → Duty → Prop}
    {ctx : Ctx} (hs : role.sink = true)
    (hQ : ∀ r, r ≠ .panic → Q r (⟨true, d.closed⟩, ctx) { d with flushed := true }) :
    Act.wp (duties (X := X) (Y := Y) role) (flushOnce id) Q (⟨d.flushed, d.closed⟩, ctx) d := by
  rw [wp_flushOnce]
  cases hf : d.flushed with
  | true =>
    have hd : { d with flushed := true } = d := by rw [← hf]
    rw [hd] at hQ
    exact hQ (.ok ()) nofun
  | false =>
    rw [if_neg (by simp)]
    refine ⟨⟨hs, hf⟩, fun a d' ha => ?_⟩
    obtain ⟨⟨hfirm, -⟩, hd, -⟩ := ha
    subst hd
    exact hQ (sinkRes id a) (sinkRes_firm hfirm)

/-- Afterwards the sink has been closed. -/
theorem wp_duty_closeOnce {id : StageId} {Q : Res Halt Unit → SinkFlags × Ctx → Duty → Prop}
    {ctx : Ctx} (hs : role.sink = true)
    (hQ : ∀ r, r ≠ .panic → Q r (⟨d.flushed, true⟩, ctx) { d with closed := true }) :
    Act.wp (duties (X := X) (Y := Y) role) (closeOnce id) Q (⟨d.flushed, d.closed⟩, ctx) d := by
  rw [wp_closeOnce]
  cases hc : d.closed with
  | true =>
    have hd : { d with closed := true } = d := by rw [← hc]
    rw [hd] at hQ
    exact hQ (.ok ()) nofun
  | false =>
    rw [if_neg (by simp)]
    refine ⟨⟨hs, hc⟩, fun a d' ha => ?_⟩
    obtain ⟨⟨hfirm, -⟩, hd, -⟩ := ha
    subst hd
    exact hQ (sinkRes id a) (sinkRes_firm hfirm)

/-- The duty after the sink has been flushed and closed. -/
def Duty.torn (d : Duty) : Duty := { d with flushed := true, closed := true }

theorem Duty.torn_grows (d : Duty) : d.Grows d.torn :=
  ⟨fun _ => rfl, fun _ => rfl, rfl, rfl, rfl, id, rfl, rfl⟩

/-- An abort flushes and closes the sink before it reports a second error. -/
theorem wp_duty_abort {id : StageId} {ctx : Ctx} (hs : role.sink = true) :
    Act.wp (duties (X := X) (Y := Y) role) ((sink_fn id).call .abort)
      (fun r s' d' => (dutyRules role).post (some .abort) r (some ⟨d.flushed, d.closed⟩) d
        (some s'.1) d' ∧ Ctx.Kept ctx s'.2) (⟨d.flushed, d.closed⟩, ctx) d := by
  have hreturns : ∀ r, r ≠ .panic → (dutyRules role).post (some .abort) r
      (some ⟨d.flushed, d.closed⟩) d (some ⟨true, true⟩) d.torn ∧ Ctx.Kept ctx ctx :=
    fun r hr => ⟨⟨⟨hs, rfl⟩, d.torn_grows, fun _ => ⟨rfl, rfl⟩, fun h => absurd h hr⟩, .refl ctx⟩
  have hunwinds : d.panicked = false → (dutyRules role).post (some .abort) .panic
      (some ⟨d.flushed, d.closed⟩) d (some ⟨true, true⟩) { d.torn with panicked := true } ∧
        Ctx.Kept ctx ctx := by
    intro hp
    have hgrows : d.Grows { d.torn with panicked := true } :=
      ⟨fun _ => rfl, fun _ => rfl, rfl, rfl, rfl, fun _ => rfl, rfl, rfl⟩
    exact ⟨⟨⟨hs, rfl⟩, hgrows, fun _ => ⟨rfl, rfl⟩, fun _ => ⟨hp, rfl⟩⟩, .refl ctx⟩
  simp only [sink_fn, Act.wp_bind, Act.wp_attempt]
  refine wp_duty_flushOnce hs fun flushed hflushed => ?_
  have hclose : ∀ {Q : Res Halt Unit → SinkFlags × Ctx → Duty → Prop},
      (∀ r, r ≠ .panic → Q r (⟨true, true⟩, ctx) d.torn) →
        Act.wp (duties (X := X) (Y := Y) role) (closeOnce id) Q (⟨true, d.closed⟩, ctx)
          { d with flushed := true } :=
      fun hQ => wp_duty_closeOnce (d := { d with flushed := true }) hs hQ
  cases flushed with
  | panic => exact absurd rfl hflushed
  | ok u =>
    simp only [Res.attempted_ok, Act.next_ok, Act.wp_bind, Act.wp_attempt]
    refine hclose fun closed hclosed => ?_
    cases closed with
    | panic => exact absurd rfl hclosed
    | ok u => exact hreturns (.ok 0) (by simp)
    | halt e => exact hreturns (.halt e) (by simp)
  | halt first =>
    simp only [Res.attempted_halt, Act.next_ok, Act.wp_bind, Act.wp_attempt]
    refine hclose fun closed hclosed => ?_
    cases closed with
    | panic => exact absurd rfl hclosed
    | ok u => exact hreturns (.halt first) (by simp)
    | halt second =>
      cases second with
      | disconnected => exact hreturns (.halt first) (by simp)
      | failed second =>
        simp only [Res.attempted_halt, Act.next_ok, Act.wp_bind, Act.wp_get]
        exact wp_duty_emitEvent (hreturns (.halt first) (by simp)) fun hp _ => hunwinds hp

/-- The sink does what it is told. -/
theorem sink_fn_dutiful (hs : role.sink = true) (id : StageId) :
    (sink_fn (X := X) (Y := Y) id).Dutiful role some := by
  intro op s d hp
  obtain ⟨flags, ctx⟩ := s
  obtain ⟨⟨-, hflags⟩, hclose⟩ := hp
  obtain rfl : flags = ⟨d.flushed, d.closed⟩ := hflags
  have hsame : ∀ {r : Res Halt Nat} {d'}, d' = d → (dutyRules role).post none r
      (some ⟨d.flushed, d.closed⟩) d (some ⟨d.flushed, d.closed⟩) d' ∧ Ctx.Kept ctx ctx := by
    intro r d' hd
    subst hd
    exact ⟨⟨⟨hs, rfl⟩, .refl d', trivial⟩, .refl ctx⟩
  cases op with
  | process item =>
    simp only [sink_fn, Act.wp_bind, Act.wp_perform, Act.next_ok, wp_sinkCall]
    refine ⟨trivial, fun a d' ha => ?_⟩
    rcases a with _ | ⟨_ | _⟩
    · exact hsame ha.2.1
    · exact hsame ha.2.1
    · exact hsame ha.2.1
  | tick => exact ⟨⟨⟨hs, rfl⟩, .refl d, trivial⟩, .refl ctx⟩
  | flush =>
    have hgrows : d.Grows { d with flushed := true } :=
      ⟨fun _ => rfl, fun h => h, rfl, rfl, rfl, fun h => h, rfl, rfl⟩
    refine (Act.wp_bind ..).2 (wp_duty_flushOnce hs fun r hr => ?_)
    cases r with
    | panic => exact absurd rfl hr
    | ok u => exact ⟨⟨⟨hs, rfl⟩, hgrows, fun _ _ => rfl⟩, .refl ctx⟩
    | halt e => exact ⟨⟨⟨hs, rfl⟩, hgrows, fun _ _ => rfl⟩, .refl ctx⟩
  | close =>
    have hgrows : d.Grows { d with closed := true } :=
      ⟨fun h => h, fun _ => rfl, rfl, rfl, rfl, fun h => h, rfl, rfl⟩
    refine (Act.wp_bind ..).2 (wp_duty_closeOnce hs fun r hr => ?_)
    cases r with
    | panic => exact absurd rfl hr
    | ok u => exact ⟨⟨⟨hs, rfl⟩, hgrows, by simp, fun _ => rfl⟩, .refl ctx⟩
    | halt e => exact ⟨⟨⟨hs, rfl⟩, hgrows, by simp, fun _ => rfl⟩, .refl ctx⟩
  | abort => exact wp_duty_abort hs

/-- The sender of an edge passes on what it is told, `Flush` before `Close`. -/
theorem send_fn_dutiful (hs : role.sink = false) :
    (send_fn (X := X) (Y := Y)).Dutiful role fun _ => none := by
  intro op s d hp
  have hclose := hp.2
  have hdone : ∀ d' : Duty, d'.SinkDone role := fun d' h => Bool.noConfusion (hs.symm.trans h)
  cases op with
  | tick =>
    refine (Act.wp_bind ..).2 ⟨⟨hs, rfl⟩, fun a d' ha => ?_⟩
    obtain rfl : d' = d := ha.2.1
    cases a with
    | ok => exact ⟨⟨hs, .refl d', trivial⟩, .refl _⟩
    | full => exact ⟨⟨hs, .refl d', trivial⟩, .refl _⟩
    | disconnected => exact ⟨⟨hs, .refl d', trivial⟩, .refl _⟩
  | abort =>
    refine (Act.wp_bind ..).2 ⟨⟨hs, by simp⟩, fun a d' ha => ?_⟩
    obtain rfl : d' = d := ha.2.1
    exact ⟨⟨hs, .refl d', hdone d', .ok d' d'⟩, .refl _⟩
  | process item =>
    refine (Act.wp_bind ..).2 ⟨⟨hs, by simp⟩, fun a d' ha => ?_⟩
    obtain rfl : d' = d := ha.2.1
    cases a with
    | false => exact ⟨⟨hs, .refl d', trivial⟩, .refl _⟩
    | true => exact ⟨⟨hs, .refl d', trivial⟩, .refl _⟩
  | close =>
    refine (Act.wp_bind ..).2 ⟨⟨hs, fun _ => hclose rfl⟩, fun a d' ha => ?_⟩
    obtain rfl : d' = d := ha.2.1
    have hsink : role.sink = true → d'.closed = true := fun h => Bool.noConfusion (hs.symm.trans h)
    cases a with
    | false => exact ⟨⟨hs, .refl d', by simp, hsink⟩, .refl _⟩
    | true => exact ⟨⟨hs, .refl d', by simp, hsink⟩, .refl _⟩
  | flush =>
    refine (Act.wp_bind ..).2 ⟨⟨hs, by simp⟩, fun a d' ha => ?_⟩
    obtain rfl : d' = { d with flushed := d.flushed || a } := ha.2.1
    have hgrows : d.Grows { d with flushed := d.flushed || a } :=
      ⟨fun h => by simp [h], fun h => h, rfl, rfl, rfl, fun h => h, rfl, rfl⟩
    cases a with
    | false => exact ⟨⟨hs, hgrows, nofun⟩, .refl _⟩
    | true => exact ⟨⟨hs, hgrows, fun _ _ => Bool.or_true _⟩, .refl _⟩

end Tail

end PipeIo
