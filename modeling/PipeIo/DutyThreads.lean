import PipeIo.DutyRun

namespace PipeIo
set_option autoImplicit true

open Lib

variable {X Y H : Type} {c : StageFn X Y X} {role : Role} {view : c.σ → Option SinkFlags}
  {d d' : Duty}

section Task

variable {W : Type v} {Γ : Spec (Eff X Y) Ans W} {σ : Type} {I J : σ → W → Prop} {K : W → Prop}

/-- What holds after a round of a thread: it goes on, or it has ended. -/
def RoundDone (I : σ → W → Prop) (K : W → Prop) : σ ⊕ Exit → W → Prop
  | .inl s, w => I s w
  | .inr _, w => K w

/-- A thread that does its duty: `K` holds once it has ended. -/
def Task.Dutiful (t : Task X Y) (role : Role) (K : Duty → Prop) : Prop :=
  ∃ I : t.S → Duty → Prop, I t.init .start ∧ ∀ s d, I s d →
    (t.round s).wp (duties role) (RoundDone I K) d

/-- A thread that keeps `I` from round to round, and on whose end `drop` runs. -/
theorem Task.round_repeating {init : σ} {x : Code X Y Empty σ (Option Exit)}
    {drop : Code X Y Empty σ Unit}
    (hx : Act.Triple Γ I x (fun a s w => (a = none → I s w) ∧ (a ≠ none → J s w)) Act.never J)
    (hdrop : Act.Triple Γ J drop (fun _ _ => K) Act.never fun _ => K) (s : σ) (w : W)
    (hs : I s w) : ((Task.repeating init x drop).round s).wp Γ (RoundDone I K) w := by
  have hend : ∀ exit s' w', J s' w' →
      (drop s' >>= fun _ => .ret (.inr exit) : Prog (Eff X Y) Ans (σ ⊕ Exit)).wp Γ
        (RoundDone I K) w' := by
    intro exit s' w' hJ
    refine (Prog.wp_bind ..).2 (Prog.wp_mono (hdrop s' w' hJ) fun r w'' h => ?_)
    obtain ⟨r, s''⟩ := r
    cases r with
    | ok u => exact h
    | halt e => exact e.elim
    | panic => exact h
  refine (Prog.wp_bind ..).2 (Prog.wp_mono (hx s w hs) fun r w' h => ?_)
  obtain ⟨r, s'⟩ := r
  rcases r with (_ | exit) | e | _
  · exact h.1 rfl
  · exact hend exit s' w' (h.2 (by simp))
  · exact e.elim
  · exact hend .panicked s' w' h

end Task

section Requests

variable {σ : Type} {P U : σ → Duty → Prop}

/-- Requests that are no duty of anyone. -/
def Eff.Plain : Eff X Y → Prop
  | .note _ | .dropReceiver | .dropSender | .dropDone | .waitDone | .offer _ | .takeFirst => True
  | _ => False

theorem triple_plain {e : Eff X Y} (he : e.Plain) :
    Act.Triple (duties role) P (request e : Code X Y H σ (Ans e)) (fun _ => P) Act.never U := by
  intro s d h
  cases e with
  | note | dropReceiver | dropSender | dropDone | waitDone | offer | takeFirst =>
    refine ⟨trivial, fun a d' ha => ?_⟩
    obtain rfl : d' = d := ha.2.1
    exact h
  | _ => exact he.elim

/-- An event changes nothing, unless the observer panics. -/
theorem triple_emitEvent {active : Bool} {event : Event}
    (hP : ∀ s d, P s d → P s { d with panicked := true }) :
    Act.Triple (duties role) P (emitEvent active event : Code X Y H σ Unit) (fun _ => P) Act.never
      P :=
  fun s d h => wp_duty_emitEvent h fun _ _ => hP s d h

theorem triple_shared_offer {error : Error} {observer : Bool}
    (hP : ∀ s d, P s d → P s { d with panicked := true }) :
    Act.Triple (duties role) P (SharedFirst.offer error observer : Code X Y H σ Unit) (fun _ => P)
      Act.never P := by
  refine (triple_plain (by trivial)).bind fun first => ?_
  split
  · exact Act.Triple.pure fun _ _ h => h
  · exact triple_emitEvent hP

end Requests

namespace ChannelSegment

/-- The sink behind a segment has been torn down. -/
def Torn (role : Role) (view : σ → Option SinkFlags) (s : ChannelSegment σ) (d : Duty) : Prop :=
  d.Tracks role (view s.chain) ∧ d.SinkDone role

/-- What is left to do for a segment whose thread has done `d`. -/
def Owes (role : Role) (view : σ → Option SinkFlags) (s : ChannelSegment σ) (d : Duty) : Prop :=
  d.Tracks role (view s.chain) ∧ (s.live = false → d.SinkDone role)

/-- Between two operations of a segment: what it has received it has passed on. -/
structure Flows (role : Role) (view : σ → Option SinkFlags) (s : ChannelSegment σ) (d : Duty) :
    Prop where
  tracks : d.Tracks role (view s.chain)
  live : s.live = true
  passed : d.received = true → d.flushed = true

/-- Before an operation of a segment. -/
structure Takes (role : Role) (view : σ → Option SinkFlags) (op : StageOp X)
    (s : ChannelSegment σ) (d : Duty) : Prop where
  tracks : d.Tracks role (view s.chain)
  live : s.live = true
  passed : op.signal ≠ some .flush → d.received = true → d.flushed = true
  closes : op.signal = some .close → d.flushed = true

/-- After an operation of a segment. -/
structure Handled (role : Role) (view : σ → Option SinkFlags) (op : StageOp X)
    (res : Except Halt Nat) (s : ChannelSegment σ) (d : Duty) : Prop where
  tracks : d.Tracks role (view s.chain)
  live : s.live = true
  closed : op.closing = true → d.SinkDone role
  passed : res.isOk = true → d.received = true → d.flushed = true

theorem Handled.owes {op : StageOp X} {res : Except Halt Nat} {s : ChannelSegment c.σ}
    (h : s.Handled role view op res d) : s.Owes role view d :=
  ⟨h.tracks, fun hdead => Bool.noConfusion (h.live.symm.trans hdead)⟩

theorem wp_duty_chainFn (hc : c.Dutiful role view) {op : StageOp X} {s : ChannelSegment c.σ}
    (ht : d.Tracks role (view s.chain)) (hclose : op.signal = some .close → d.flushed = true) :
    Act.wp (duties role) (chainFn c op) (fun res s' d' => d'.Tracks role (view s'.chain) ∧
      s'.live = s.live ∧ d.Grows d' ∧ d.Did role op.signal res d') s d := by
  simp only [chainFn, Act.wp_bind, wp_note]
  refine ⟨trivial, fun a d₀ ha => ?_⟩
  obtain rfl : d₀ = d := ha.2.1
  simp only [Act.next_ok, Act.wp_bind, Act.wp_attempt, Act.wp_zoom]
  refine Act.wp_mono (hc op (s.chain, s.ctx) d₀ ⟨ht, hclose⟩) fun res t d' h => ?_
  obtain ⟨⟨htracks, hgrows, hdid⟩, -⟩ := h
  cases res with
  | ok n => exact ⟨htracks, rfl, hgrows, hdid⟩
  | panic => exact ⟨htracks, rfl, hgrows, hdid⟩
  | halt e =>
    refine ⟨trivial, fun a d'' ha => ?_⟩
    obtain rfl : d'' = d' := ha.2.1
    exact ⟨htracks, rfl, hgrows, hdid⟩

/-- An abort tears the sink down, however it ends. -/
theorem triple_abort (hc : c.Dutiful role view)
    {offer : Error → Bool → Code X Y H (ChannelSegment c.σ × ρ) Unit}
    (hoffer : ∀ e b, Act.Triple (duties role) (fun s d => s.1.Torn role view d) (offer e b)
      (fun _ s d => s.1.Torn role view d) Act.never fun s d => s.1.Torn role view d) :
    Act.Triple (duties role) (fun s d => d.Tracks role (view s.1.chain)) (abort c offer)
      (fun _ s d => s.1.Torn role view d) Act.never fun s d => s.1.Torn role view d := by
  refine Act.Triple.bind (R := fun _ s d => d.Tracks role (view s.1.chain))
    (Act.Triple.modify fun _ _ h => h) fun _ => ?_
  refine Act.Triple.bind (R := fun _ s d => s.1.Torn role view d) (Act.Triple.attempt ?_)
    fun aborted => ?_
  · refine Act.Triple.zoom (R := fun s d => d.Tracks role (view s.chain)) (fun _ _ h => h)
      fun _ s d ht => ?_
    refine Act.wp_mono (wp_duty_chainFn hc ht (by simp [StageOp.signal])) fun res t d' h => ?_
    obtain ⟨htracks, -, -, hdone, -⟩ := h
    cases res with
    | ok n => exact ⟨htracks, hdone⟩
    | halt e => exact ⟨htracks, hdone⟩
    | panic => exact ⟨htracks, hdone⟩
  · rcases aborted with (e | _) | written
    · exact Act.Triple.get fun s => (hoffer e _).conseq (fun _ _ h => h.2) (fun _ _ _ h => h)
        (fun _ _ _ h => h) fun _ _ h => h
    · exact Act.Triple.pure fun _ _ h => h
    · exact Act.Triple.pure fun _ _ h => h

theorem triple_abort_run (hc : c.Dutiful role view) :
    Act.Triple (duties role) (fun s d => d.Tracks role (view s.chain)) (abort_run (H := H) c)
      (fun _ => Torn role view) Act.never (Torn role view) :=
  Act.Triple.zoom (fun _ _ h => h) fun _ =>
    triple_abort hc fun _ _ => triple_shared_offer fun _ _ h => h

/-- A segment receives a `Close` only after it has passed on a `Flush`. -/
theorem triple_recv (hsource : role.source = false) (idle_tick : Option Duration) :
    Act.Triple (duties role) (Flows role view) (recv idle_tick : Code X Y H (ChannelSegment c.σ) _)
      (fun op s d => (op = none → s.Owes role view d) ∧ ∀ o, op = some o → s.Takes role view o d)
      Act.never (Owes role view) := by
  have howes : ∀ {s : ChannelSegment c.σ} {d : Duty}, d.Tracks role (view s.chain) →
      s.live = true → s.Owes role view d :=
    fun ht hl => ⟨ht, fun hdead => Bool.noConfusion (hl.symm.trans hdead)⟩
  intro s d h
  have hnone : ((none : Option (StageOp X)) = none → s.Owes role view d) ∧
      ∀ o, (none : Option (StageOp X)) = some o → s.Takes role view o d :=
    ⟨fun _ => howes h.tracks h.live, (by simp)⟩
  have htick : ∀ {d' : Duty}, d'.Tracks role (view s.chain) → (d'.received = true → d'.flushed = true) →
      ((some (.tick : StageOp X)) = none → s.Owes role view d') ∧
        ∀ o, some (.tick : StageOp X) = some o → s.Takes role view o d' := by
    intro d' ht hpassed
    refine ⟨(by simp), fun o ho => ?_⟩
    cases ho
    exact ⟨ht, h.live, fun _ => hpassed, by simp [StageOp.signal]⟩
  simp only [recv, Act.wp_bind, Act.wp_get, Act.next_ok]
  split
  · refine (Act.wp_bind ..).2 ⟨hsource, fun r d' ha => ?_⟩
    obtain ⟨-, hd, hclose⟩ := ha
    cases r with
    | disconnected =>
      obtain rfl : d' = d := hd
      exact hnone
    | timedOut =>
      obtain rfl : d' = d := hd
      refine (Act.wp_bind ..).2 (wp_duty_emitEvent ?_ fun _ _ => howes h.tracks h.live)
      exact htick h.tracks h.passed
    | msg op =>
      refine ⟨(by simp), fun o ho => ?_⟩
      cases ho
      cases op with
      | flush =>
        obtain rfl : d' = { d with received := true } := hd
        exact ⟨h.tracks, h.live, by simp [StageOp.signal], by simp [StageOp.signal]⟩
      | close =>
        obtain rfl : d' = d := hd
        exact ⟨h.tracks, h.live, fun _ => h.passed, fun _ => h.passed hclose⟩
      | process | tick | abort =>
        obtain rfl : d' = d := hd
        exact ⟨h.tracks, h.live, fun _ => h.passed, by simp [StageOp.signal]⟩
  · exact hnone

theorem triple_drop_rx {P : ChannelSegment σ → Duty → Prop}
    (hP : ∀ s d, P s d → P { s with rx := false } d) :
    Act.Triple (duties role) P (drop_rx : Code X Y H (ChannelSegment σ) Unit) (fun _ => P)
      Act.never P := by
  refine Act.Triple.get fun s => ?_
  split
  · refine Act.Triple.bind (R := fun _ => P) (Act.Triple.modify fun s d h => hP s d h.2) fun _ => ?_
    exact triple_plain (by trivial)
  · exact Act.Triple.pure fun s d h => h.2

/-- After an operation that returned. -/
theorem Takes.returned {op : StageOp X} {s s' : ChannelSegment c.σ} (h : s.Takes role view op d)
    {n : Nat} (ht : d'.Tracks role (view s'.chain)) (hl : s'.live = s.live) (hg : d.Grows d')
    (hdid : d.Did role op.signal (.ok n) d') : s'.Flows role view d' where
  tracks := ht
  live := hl.trans h.live
  passed hr := by
    by_cases hflush : op.signal = some .flush
    · rw [hflush] at hdid
      exact hdid n rfl
    · rw [hg.received] at hr
      exact hg.flushed (h.passed hflush hr)

/-- An operation that ends the chain tears the sink down, however it ends. -/
theorem Takes.closed {op : StageOp X} {s : ChannelSegment c.σ} (h : s.Takes role view op d)
    {res : Res Halt Nat} (hg : d.Grows d') (hdid : d.Did role op.signal res d')
    (hop : op.closing = true) : d'.SinkDone role := by
  cases op with
  | close => exact fun hs => ⟨hg.flushed (h.closes rfl), hdid.2 hs⟩
  | abort => exact hdid.1
  | process | tick | flush => cases hop

/-- One round of a segment. -/
theorem triple_run (hc : c.Dutiful role view) (hsource : role.source = false)
    (idle_tick : Option Duration) :
    Act.Triple (duties role) (Flows role view) (run (H := H) c idle_tick)
      (fun tally s d => (tally = none → s.Flows role view d) ∧
        (tally ≠ none → s.Owes role view d)) Act.never (Owes role view) := by
  have htorn : ∀ {s : ChannelSegment c.σ} {d : Duty}, s.Torn role view d → s.Owes role view d :=
    fun h => ⟨h.1, fun _ => h.2⟩
  have habort : Act.Triple (duties role) (Owes role view) (abort_run (H := H) c)
      (fun _ => Owes role view) Act.never (Owes role view) :=
    (triple_abort_run hc).conseq (fun _ _ h => h.1) (fun _ _ _ h => htorn h) (fun _ _ _ h => h)
      fun _ _ h => htorn h
  have htally : Act.Triple (duties (X := X) (Y := Y) role) (Owes role view)
      (do pure (some (← Act.get).ctx.tally) : Code X Y H (ChannelSegment c.σ) (Option Tally))
      (fun tally s d => (tally = none → s.Flows role view d) ∧
        (tally ≠ none → s.Owes role view d)) Act.never (Owes role view) :=
    Act.Triple.get fun s => Act.Triple.pure fun s d h => ⟨nofun, fun _ => h.2⟩
  refine (triple_recv hsource idle_tick).bind fun op => ?_
  cases op with
  | none =>
    refine Act.Triple.bind (R := fun _ => Owes role view) ?_ fun _ => habort.bind fun _ => htally
    exact (triple_drop_rx fun _ _ h => h).conseq (fun _ _ h => h.1 rfl) (fun _ _ _ h => h)
      (fun _ _ _ h => h) fun _ _ h => h
  | some op =>
    refine Act.Triple.bind (R := Handled role view op) (Act.Triple.attempt ?_) fun res => ?_
    · intro s d h
      have htakes := h.2 op rfl
      refine Act.wp_mono (wp_duty_chainFn hc htakes.tracks htakes.closes) fun res s' d' h' => ?_
      obtain ⟨htracks, hlive, hgrows, hdid⟩ := h'
      have hl := hlive.trans htakes.live
      cases res with
      | ok n =>
        exact ⟨htracks, hl, htakes.closed hgrows hdid,
          fun _ => (htakes.returned htracks hlive hgrows hdid).passed⟩
      | halt e => exact ⟨htracks, hl, htakes.closed hgrows hdid, nofun⟩
      | panic => exact ⟨htracks, fun hdead => Bool.noConfusion (hl.symm.trans hdead)⟩
    cases res with
    | ok written =>
      refine Act.Triple.bind (R := fun _ => Handled role view op (.ok written))
        (Act.Triple.modify fun _ _ h => ⟨h.tracks, h.live, h.closed, h.passed⟩) fun _ => ?_
      split
      · rename_i hclosing
        exact Act.Triple.bind (R := fun _ => Owes role view)
          (Act.Triple.modify fun _ _ h => ⟨h.tracks, fun _ => h.closed hclosing⟩) fun _ => htally
      · exact Act.Triple.pure fun _ _ h => ⟨fun _ => ⟨h.tracks, h.live, h.passed rfl⟩, by simp⟩
    | error halt =>
      refine Act.Triple.bind (R := fun _ => Handled role view op (.error halt)) ?_ fun _ => ?_
      · exact (triple_drop_rx fun _ _ h => ⟨h.tracks, h.live, h.closed, h.passed⟩).conseq
          (fun _ _ h => h) (fun _ _ _ h => h) (fun _ _ _ h => h) fun _ _ h => h.owes
      have hend : Act.Triple (duties role) (Handled role view op (.error halt)) (do
          if op.closing then Act.modify fun s => { s with live := false }
          else abort_run c
          pure (some (← Act.get).ctx.tally) :
            Code X Y H (ChannelSegment c.σ) (Option Tally))
          (fun tally s d => (tally = none → s.Flows role view d) ∧
            (tally ≠ none → s.Owes role view d)) Act.never (Owes role view) := by
        split
        · rename_i hclosing
          exact Act.Triple.bind (R := fun _ => Owes role view)
            (Act.Triple.modify fun _ _ h => ⟨h.tracks, fun _ => h.closed hclosing⟩) fun _ => htally
        · refine Act.Triple.bind (R := fun _ => Owes role view) ?_ fun _ => htally
          exact habort.conseq (fun _ _ h => h.owes) (fun _ _ _ h => h) (fun _ _ _ h => h)
            fun _ _ h => h
      cases halt with
      | failed e =>
        refine Act.Triple.get fun s => ?_
        refine Act.Triple.bind (R := fun _ => Handled role view op (.error (.failed e))) ?_
          fun _ => hend
        exact (triple_shared_offer fun _ _ h => ⟨h.tracks, h.live, h.closed, h.passed⟩).conseq
          (fun _ _ h => h.2) (fun _ _ _ h => h) (fun _ _ _ h => h) fun _ _ h => h.owes
      | disconnected => exact hend

/-- Every attempt tears the sink down, however it ends. -/
theorem triple_attempt (hc : c.Dutiful role view) :
    Act.Triple (duties role) (fun s d => d.Tracks role (view s.1.chain))
      (Act.contain (abort (H := H) c fun e observer =>
        Act.zoom Prod.snd (fun f s => (s.1, f)) (FirstError.offer e observer)))
      (fun _ s d => s.1.Torn role view d) Act.never fun _ _ => False := by
  refine Act.Triple.contain (triple_abort hc fun e b => ?_)
  intro s d h
  exact (Act.wp_zoom ..).2 ((reports_offer e b).wp (fun _ _ => h) fun _ _ => h)

theorem triple_retries (hc : c.Dutiful role view) (n : Nat) :
    Act.Triple (duties role) (fun s d => s.1.Torn role view d) (retries (H := H) c n)
      (fun _ s d => s.1.Torn role view d) Act.never fun _ _ => False := by
  induction n with
  | zero => exact Act.Triple.pure fun _ _ h => h
  | succ n ih =>
    refine Act.Triple.bind (R := fun _ s d => s.1.Torn role view d) ?_ fun done => ?_
    · exact (triple_attempt hc).conseq (fun _ _ h => h.1) (fun _ _ _ h => h) (fun _ _ _ h => h)
        fun _ _ h => h
    · cases done with
      | none => exact ih
      | some u => exact Act.Triple.pure fun _ _ h => h

theorem triple_drop_segment (hc : c.Dutiful role view) :
    Act.Triple (duties role) (Owes role view) (drop_segment (H := H) c)
      (fun _ _ d => d.SinkDone role) Act.never fun _ _ => False := by
  intro s d h
  simp only [drop_segment, Act.wp_bind, Act.wp_get, Act.next_ok]
  split
  · have hretries : Act.Triple (duties role) (fun s d => d.Tracks role (view s.1.chain))
        (retries (H := H) c 3) (fun _ s d => s.1.Torn role view d) Act.never fun _ _ => False := by
      refine (triple_attempt hc).bind fun done => ?_
      cases done with
      | none => exact triple_retries hc 2
      | some u => exact Act.Triple.pure fun _ _ h => h
    simp only [Act.wp_zoom, Act.wp_bind]
    refine Act.wp_mono (hretries (s, none) d h.1) fun res t d' h' => ?_
    cases res with
    | halt e => exact h'
    | panic => exact h'
    | ok u =>
      simp only [Act.next_ok, Act.wp_bind, Act.wp_get]
      split
      · exact h'.2
      · simp only [Act.wp_bind, Act.wp_get, Act.next_ok, Act.wp_contain]
        exact (reports_emitEvent _ _).wp (fun _ _ => h'.2) fun _ _ => h'.2
  · rename_i hl
    exact h.2 (by simpa using hl)

/-- A dropped segment has torn down its sink. -/
theorem triple_drop (hc : c.Dutiful role view) :
    Act.Triple (duties role) (Owes role view) (drop (H := H) c) (fun _ _ d => d.SinkDone role)
      Act.never fun _ d => d.SinkDone role := by
  refine Act.Triple.bind (R := fun _ _ d => d.SinkDone role) ?_ fun _ => ?_
  · exact (triple_drop_segment hc).conseq (fun _ _ h => h) (fun _ _ _ h => h) (fun _ _ _ h => h)
      fun _ _ h => h.elim
  refine (triple_drop_rx (P := fun _ d => d.SinkDone role) fun _ _ h => h).bind fun _ => ?_
  exact (triple_plain (by trivial)).bind fun _ => triple_plain (by trivial)

/-- The thread of a segment tears down the sink behind it. -/
theorem task_dutiful (hc : c.Dutiful role view) (hinit : Duty.start.Tracks role (view c.init))
    (hsource : role.source = false) (ctx : Ctx) (idle_tick : Option Duration) :
    (task c ctx idle_tick).Dutiful role (Duty.SinkDone role) := by
  refine ⟨Flows role view, ⟨hinit, rfl, nofun⟩, fun s d h => ?_⟩
  refine Task.round_repeating (J := Owes role view) ?_ (triple_drop hc) s d h
  refine (triple_run hc hsource idle_tick).bind fun tally => Act.Triple.pure fun s d h => ?_
  cases tally with
  | none => exact ⟨fun _ => h.1 rfl, by simp⟩
  | some t => exact ⟨by simp, fun _ => h.2 (by simp)⟩

end ChannelSegment

section Source

theorem triple_source_end (hc : c.Dutiful role view) («end» : PumpEnd) :
    Act.Triple (duties role) (Runner.Owes role view false) (source_end (H := H) c «end»)
      (fun _ => Runner.Owes role view false) Act.never (Runner.Owes role view false) := by
  have hoffer : ∀ error observer, Act.Triple (duties (X := X) (Y := Y) role)
      (fun (s : Runner c.σ × FirstError) d => s.1.Owes role view false d)
      (SharedFirst.offer (H := H) error observer) (fun _ s d => s.1.Owes role view false d)
      Act.never fun s d => s.1.Owes role view false d :=
    fun _ _ => triple_shared_offer fun _ _ h => h.panicked
  refine Act.Triple.zoom (R := fun s d => s.1.Owes role view false d) (fun _ _ h => h) fun r => ?_
  cases «end»
  case' graceful | cancelled => refine (Runner.triple_finish_owes hc).bind fun _ => ?_
  case' failed e =>
    refine Act.Triple.get fun s => Act.Triple.bind (R := fun _ s d => s.1.Owes role view false d)
      ((hoffer e _).conseq (fun _ _ h => h.2) (fun _ _ _ h => h) (fun _ _ _ h => h) fun _ _ h => h)
      fun _ => (Runner.triple_abort_owes hc).bind fun _ => ?_
  case' disconnected => refine (Runner.triple_abort_owes hc).bind fun _ => ?_
  -- whatever the end was, the error of the teardown is offered last
  all_goals
    refine Act.Triple.get fun s => ?_
    dsimp only
    split
    · exact (hoffer _ _).conseq (fun _ _ h => h.2) (fun _ _ _ h => h) (fun _ _ _ h => h)
        fun _ _ h => h
    · exact Act.Triple.pure fun _ _ h => h.2

theorem triple_source_loop (hc : c.Dutiful role view) (idle_tick : Option Duration)
    (cancel : Bool) :
    Act.Triple (duties role) (Runner.OfRunner (Runner.Owes role view false))
      (source_loop (H := Empty) c idle_tick cancel)
      (fun _ => Runner.OfRunner (Runner.Owes role view false)) Act.never
      (Runner.OfRunner (Runner.Owes role view false)) := by
  refine Act.Triple.bind (R := fun _ => Runner.OfRunner (Runner.Owes role view false))
    (((Runner.owes_feeds hc).round idle_tick cancel).triple.conseq (fun _ _ h => h)
      (fun _ _ _ h => h) (fun e _ _ _ => e.elim) fun _ _ h => h) fun «end» => ?_
  cases «end» with
  | none => exact Act.Triple.pure fun _ _ h => h
  | some «end» =>
    refine Act.Triple.bind (R := fun _ => Runner.OfRunner (Runner.Owes role view false))
      (Act.Triple.modify fun _ _ h => h.counts _) fun _ => ?_
    refine Act.Triple.bind (R := fun _ => Runner.OfRunner (Runner.Owes role view false))
      (Act.Triple.zoom (fun _ _ h => h) fun _ => triple_source_end hc «end») fun _ => ?_
    exact Act.Triple.get fun s => Act.Triple.pure fun _ _ h => h.2

/-- A dropped source has torn down all that its thread owned. -/
theorem triple_drop_source (hc : c.Dutiful role view) :
    Act.Triple (duties role) (Runner.Owes role view false) (drop_source (H := H) c)
      (fun _ _ d => d.Complete role) Act.never fun _ d => d.Complete role := by
  refine Act.Triple.bind (R := fun _ _ d => d.Complete role) ?_ fun _ => ?_
  · exact (Runner.triple_drop hc).conseq (fun _ _ h => h) (fun _ _ _ h => h) (fun _ _ _ h => h)
      fun _ _ h => h.elim
  refine Act.Triple.get fun r => ?_
  split
  · exact (triple_plain (P := fun _ d => d.Complete role) (by trivial)).conseq (fun _ _ h => h.2)
      (fun _ _ _ h => h) (fun _ _ _ h => h) fun _ _ h => h
  · exact Act.Triple.pure fun _ _ h => h.2

/-- The source thread tears down the source, and the sink if it owns that too. -/
theorem source_task_dutiful (hc : c.Dutiful role view)
    (hinit : Duty.start.Tracks role (view c.init)) (hsource : role.source = true)
    (hdlq : role.dlq = false) (source_id : StageId) (ctx : Ctx) (idle_tick : Option Duration)
    (cancel : Bool) :
    (source_task c source_id ctx idle_tick cancel).Dutiful role (Duty.Complete role) := by
  refine ⟨Runner.OfRunner (Runner.Owes role view false), ?_, fun s d h => ?_⟩
  · refine ⟨hsource, nofun, ?_, nofun, rfl, nofun, fun _ => hdlq, nofun, nofun⟩
    intro s hs
    cases hs
    exact hinit
  refine Task.round_repeating ((triple_source_loop hc idle_tick cancel).conseq (fun _ _ h => h)
    (fun _ _ _ h => ⟨fun _ => h, fun _ => h⟩) (fun _ _ _ h => h) fun _ _ h => h) ?_ s d h
  exact Act.Triple.zoom (fun _ _ h => h) fun _ => triple_drop_source hc

end Source

namespace Threaded

/-- The calling thread has not finished the dead-letter sink. -/
def Fresh (d : Duty) : Prop := d.dlq_flushed = false ∧ d.dlq_closed = false

/-- The calling thread has joined the source thread and the first `m` segments. -/
structure JoinedTo (n m : Nat) (d : Duty) : Prop where
  fresh : Fresh d
  source : d.joined n = true
  segments : ∀ k < m, d.joined k = true

/-- All threads have been joined and the dead-letter sink is finished. -/
structure Concluded (n : Nat) (role : Role) (d : Duty) : Prop where
  joined : ∀ k ≤ n, d.joined k = true
  dlq : d.DlqDone role

theorem triple_spawn {P U : σ → Duty → Prop} {i : Nat} (hi : i < role.crew) :
    Act.Triple (duties role) P (request (.spawn i) : Code X Y H σ Unit) (fun _ => P) Act.never
      U := by
  intro s d h
  refine ⟨hi, fun a d' ha => ?_⟩
  obtain rfl : d' = d := ha.2.1
  exact h

theorem triple_spawn_segments {P U : σ → Duty → Prop} {n : Nat} (hn : n ≤ role.crew) :
    Act.Triple (duties role) P (spawn_segments n : Code X Y H σ Unit) (fun _ => P) Act.never
      U := by
  induction n with
  | zero => exact Act.Triple.pure fun _ _ h => h
  | succ n ih => exact (ih (Nat.le_of_succ_le hn)).bind fun _ => triple_spawn hn

theorem triple_join_workers {n : Nat} (m : Nat) :
    Act.Triple (duties role) (fun _ d => JoinedTo n 0 d)
      (join_workers m : Code X Y H Joined Unit) (fun _ _ d => JoinedTo n m d) Act.never
      fun _ _ => False := by
  induction m with
  | zero => exact Act.Triple.pure fun _ _ h => h
  | succ m ih =>
    refine ih.bind fun _ j d h => (Act.wp_bind ..).2 ⟨trivial, fun exit d' ha => ?_⟩
    obtain rfl : d' = { d with joined := fun k => d.joined k || decide (k = m) } := ha.2.1
    refine ⟨h.fresh, by simp [h.source], fun k hk => ?_⟩
    rcases Nat.lt_succ_iff_lt_or_eq.1 hk with hlt | heq
    · simp [h.segments k hlt]
    · simp [heq]

theorem triple_join_all (n : Nat) :
    Act.Triple (duties role) (fun _ d => Fresh d) (join_all n : Code X Y H Joined Joined)
      (fun _ _ d => JoinedTo n n d) Act.never fun _ _ => False := by
  refine Act.Triple.bind (R := fun _ _ d => JoinedTo n 0 d) ?_ fun exit => ?_
  · intro j d h
    refine ⟨trivial, fun exit d' ha => ?_⟩
    obtain rfl : d' = { d with joined := fun k => d.joined k || decide (k = n) } := ha.2.1
    exact ⟨h, by simp, by simp⟩
  refine Act.Triple.bind (R := fun _ _ d => JoinedTo n 0 d) (Act.Triple.modify fun _ _ h => h)
    fun _ => (triple_join_workers n).bind fun _ => ?_
  intro j d h
  exact h

theorem JoinedTo.concluded {n : Nat} (h : JoinedTo n n d) (hd : d'.joined = d.joined)
    (hdlq : d'.DlqDone role) : Concluded n role d' := by
  refine ⟨fun k hk => ?_, hdlq⟩
  rw [hd]
  rcases Nat.lt_or_eq_of_le hk with hlt | heq
  · exact h.segments k hlt
  · rw [heq]
    exact h.source

theorem triple_conclude {n : Nat} {built : Built} (hrole : role.dlq = built.dead_letter)
    (joined : Joined) (observer : Bool) :
    Act.Triple (duties role) (fun s d => s.1 = Dlq.new built.dead_letter ∧ JoinedTo n n d)
      (conclude joined observer : Code X Y H (Dlq × FirstError) (Except Error RunStats))
      (fun _ _ d => Concluded n role d) Act.never fun _ d => Concluded n role d := by
  have hpanicked : ∀ d : Duty, Concluded n role d → Concluded n role { d with panicked := true } :=
    fun d h => ⟨h.joined, h.dlq⟩
  refine Act.Triple.bind (R := fun _ _ d => Concluded n role d) (Act.Triple.attempt ?_)
    fun finished => ?_
  · intro s d h
    obtain ⟨hs, hjoined⟩ := h
    have hletters : s.1 = d.letters role := by
      rw [hs, Duty.letters, hrole, hjoined.fresh.1, hjoined.fresh.2, Dlq.new]
    have hdone : Concluded n role (d.lettersDone role) :=
      hjoined.concluded rfl d.lettersDone_done
    simp only [Act.wp_zoom]
    rw [hletters]
    refine wp_duty_dlq_finish (fun r hr => ?_) fun _ => hpanicked _ hdone
    cases r with
    | ok u => exact hdone
    | halt e => exact hdone
    | panic => exact absurd rfl hr
  refine Act.Triple.bind (R := fun _ _ d => Concluded n role d) ?_ fun _ => ?_
  · intro s d h
    exact (Act.wp_zoom ..).2 ((reports_offer_result finished observer).wp (fun _ _ => h)
      fun _ _ => hpanicked d h)
  split
  · exact fun _ _ h => h
  · intro s d h
    simp only [Act.wp_bind, Act.wp_get, Act.next_ok]
    exact wp_duty_emitEvent h fun _ _ => hpanicked d h

theorem triple_run {n : Nat} {built : Built} (hcrew : n < role.crew)
    (hrole : role.dlq = built.dead_letter) :
    Act.Triple (duties role) (fun _ d => d = .start)
      (run n built : Code X Y H Unit (Option Exit))
      (fun exit _ d => exit ≠ none ∧ Concluded n role d) Act.never
      fun _ d => Concluded n role d := by
  refine Act.Triple.bind (R := fun _ _ d => Fresh d) ?_ fun _ => ?_
  · intro s d h
    subst h
    exact wp_duty_emitEvent ⟨rfl, rfl⟩ fun _ hstarted => absurd rfl hstarted
  refine (triple_spawn_segments (Nat.le_of_lt hcrew)).bind fun _ => ?_
  refine (triple_spawn hcrew).bind fun _ => ?_
  refine Act.Triple.bind (R := fun _ _ d => JoinedTo n n d) ?_ fun joined => ?_
  · refine Act.Triple.withLocal fun _ => ?_
    exact (triple_join_all n).conseq (fun _ _ h => h.2) (fun _ _ _ h => h) (fun _ _ _ h => h)
      fun _ _ h => h.elim
  refine (triple_plain (by trivial)).bind fun first => ?_
  refine Act.Triple.bind (R := fun _ _ d => Concluded n role d) ?_ fun result => ?_
  · refine Act.Triple.withLocal fun _ => (triple_conclude hrole joined built.observer).conseq ?_
      (fun _ _ _ h => h) (fun _ _ _ h => h) fun _ _ h => h
    intro s d h
    obtain ⟨hs, hjoined⟩ := h
    subst hs
    exact ⟨rfl, hjoined⟩
  · exact Act.Triple.pure fun _ _ h => ⟨by simp, h⟩

/-- The calling thread joins all others and finishes the dead-letter sink. -/
theorem task_dutiful {n : Nat} {built : Built} (hcrew : n < role.crew)
    (hrole : role.dlq = built.dead_letter) :
    (task n built : Task X Y).Dutiful role (Concluded n role) := by
  refine ⟨fun _ d => d = .start, rfl, fun s d h => ?_⟩
  refine Task.round_repeating (J := fun _ d => Concluded n role d) ?_ ?_ () d h
  · exact (triple_run hcrew hrole).conseq (fun _ _ h => h)
      (fun _ _ _ h => ⟨fun hnone => absurd hnone h.1, fun _ => h.2⟩) (fun _ _ _ h => h)
      fun _ _ h => h
  · exact Act.Triple.pure fun _ _ h => h

end Threaded

end PipeIo
