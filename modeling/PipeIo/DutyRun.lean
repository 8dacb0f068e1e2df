import PipeIo.Course
import PipeIo.Duty
import PipeIo.Feeding
import PipeIo.Lib.Triple

namespace PipeIo
set_option autoImplicit true

open Lib

/-- The handle of the dead-letter sink on the thread that finishes it. -/
def Duty.letters (role : Role) (d : Duty) : Dlq :=
  if role.dlq then .sink d.dlq_flushed d.dlq_closed else .absent

/-- What is left to do for a runner whose thread has done `d`. If `spent`, the observer has
panicked already. -/
structure Runner.Owes (role : Role) (view : σ → Option SinkFlags) (spent : Bool) (r : Runner σ)
    (d : Duty) : Prop where
  owner : role.source = true
  spent : spent = true → d.panicked = true
  chain : ∀ s, r.chain = some s → d.Tracks role (view s)
  torn : r.chain = none → d.SinkDone role
  source : r.source_closed = d.source
  handle : r.owns_dlq = true → r.ctx.dlq = d.letters role
  owned : r.owns_dlq = false → role.dlq = false
  finished : r.dlq_finished = true → d.DlqDone role
  complete : r.live = false → d.Complete role

/-- The observer has panicked for the first time. -/
def Runner.Unwound (role : Role) (view : σ → Option SinkFlags) (spent : Bool) (r : Runner σ)
    (d : Duty) : Prop := r.Owes role view spent d ∧ d.panicked = true ∧ spent = false

variable {X Y H σ α : Type} {role : Role} {spent : Bool} {d d' : Duty}

namespace Duty

theorem Grows.letters (h : d.Grows d') : d'.letters role = d.letters role := by
  simp [Duty.letters, h.dlq_flushed, h.dlq_closed]

theorem Grows.complete (h : d.Grows d') (hd : d.Complete role) : d'.Complete role where
  sink := h.sinkDone hd.sink
  source hs := h.source.trans (hd.source hs)
  dlq hr := by
    rw [h.dlq_flushed, h.dlq_closed]
    exact hd.dlq hr

end Duty

section Reports

/-- The code does nothing but report to the observer. -/
def Reports (role : Role) (x : Code X Y H σ α) : Prop :=
  ∀ s d, Act.wp (duties role) x (fun r _ d' => (∃ a, r = .ok a) ∧ d' = d ∨
    r = .panic ∧ d.panicked = false ∧ d' = { d with panicked := true }) s d

theorem Reports.wp {x : Code X Y H σ α} (hx : Reports role x) {s : σ}
    {Q : Res H α → σ → Duty → Prop} (hok : ∀ a s', Q (.ok a) s' d)
    (hpanic : d.panicked = false → ∀ s', Q .panic s' { d with panicked := true }) :
    Act.wp (duties role) x Q s d := by
  refine Act.wp_mono (hx s d) fun r s' d' h => ?_
  rcases h with ⟨⟨a, hr⟩, hd⟩ | ⟨hr, hp, hd⟩
  · subst hr hd
    exact hok a s'
  · subst hr hd
    exact hpanic hp s'

theorem reports_pure (a : α) : Reports role (pure a : Code X Y H σ α) :=
  fun _ _ => .inl ⟨⟨a, rfl⟩, rfl⟩

theorem reports_emitEvent (active : Bool) (event : Event) :
    Reports role (emitEvent active event : Code X Y H σ Unit) :=
  fun _ _ => wp_duty_emitEvent (.inl ⟨⟨(), rfl⟩, rfl⟩) fun hp _ => .inr ⟨rfl, hp, rfl⟩

theorem reports_offer (error : Error) (observer : Bool) :
    Reports role (FirstError.offer error observer : Code X Y H FirstError Unit) := by
  intro f d
  simp only [FirstError.offer, Act.wp_bind, Act.wp_get, Act.next_ok]
  cases f with
  | none => exact .inl ⟨⟨(), rfl⟩, rfl⟩
  | some e => exact reports_emitEvent observer _ (some e) d

theorem reports_offer_result (result : Except Error Unit) (observer : Bool) :
    Reports role (FirstError.offer_result result observer : Code X Y H FirstError Unit) := by
  rcases result with e | ⟨⟨⟩⟩
  · exact reports_offer e observer
  · exact reports_pure ()

theorem reports_offer_halt (result : Except Halt Unit) (observer : Bool) :
    Reports role (FirstError.offer_halt result observer : Code X Y H FirstError Unit) := by
  rcases result with (e | _) | ⟨⟨⟩⟩
  · exact reports_offer e observer
  · exact reports_pure ()
  · exact reports_pure ()

end Reports

section Letters

/-- The duty once the thread that finishes the dead-letter sink has flushed it. -/
def Duty.lettersFlushed (role : Role) (d : Duty) : Duty :=
  { d with dlq_flushed := d.dlq_flushed || role.dlq }

/-- The same for closing it. -/
def Duty.lettersClosed (role : Role) (d : Duty) : Duty :=
  { d with dlq_closed := d.dlq_closed || role.dlq }

theorem wp_duty_dlq_flush {Q : Res Error Unit → Dlq → Duty → Prop}
    (hQ : ∀ r, r ≠ .panic → Q r ((d.lettersFlushed role).letters role) (d.lettersFlushed role)) :
    Act.wp (duties (X := X) (Y := Y) role) (Dlq.call .flush) Q (d.letters role) d := by
  cases hr : role.dlq with
  | false =>
    have hsame : d.lettersFlushed role = d := by simp [Duty.lettersFlushed, hr]
    rw [hsame] at hQ
    have hletters : d.letters role = .absent := by simp [Duty.letters, hr]
    rw [hletters] at hQ ⊢
    exact hQ (.ok ()) (by simp)
  | true =>
    have hflushed : d.lettersFlushed role = { d with dlq_flushed := true } := by
      simp [Duty.lettersFlushed, hr]
    have hletters : ∀ d : Duty, d.letters role = .sink d.dlq_flushed d.dlq_closed := by
      simp [Duty.letters, hr]
    rw [hflushed, hletters] at hQ
    rw [hletters]
    cases hf : d.dlq_flushed with
    | true =>
      have hsame : { d with dlq_flushed := true } = d := by rw [← hf]
      rw [hsame, hf] at hQ
      exact hQ (.ok ()) (by simp)
    | false =>
      simp only [Dlq.call, Act.wp_bind, Act.wp_get, Act.next_ok, Act.wp_modify]
      refine ⟨⟨hr, hf⟩, fun a d' ha => ?_⟩
      obtain ⟨⟨hfirm, -⟩, hd, -⟩ := ha
      obtain rfl : d' = { d with dlq_flushed := true } := hd
      rcases a with _ | e | ⟨⟨⟩⟩
      · exact absurd rfl hfirm
      · exact hQ (.halt (Dlq.fail e)) (by simp)
      · exact hQ (.ok ()) (by simp)

theorem wp_duty_dlq_close {Q : Res Error Unit → Dlq → Duty → Prop}
    (hQ : ∀ r, r ≠ .panic → Q r ((d.lettersClosed role).letters role) (d.lettersClosed role)) :
    Act.wp (duties (X := X) (Y := Y) role) (Dlq.call .close) Q (d.letters role) d := by
  cases hr : role.dlq with
  | false =>
    have hsame : d.lettersClosed role = d := by simp [Duty.lettersClosed, hr]
    rw [hsame] at hQ
    have hletters : d.letters role = .absent := by simp [Duty.letters, hr]
    rw [hletters] at hQ ⊢
    exact hQ (.ok ()) (by simp)
  | true =>
    have hclosed : d.lettersClosed role = { d with dlq_closed := true } := by
      simp [Duty.lettersClosed, hr]
    have hletters : ∀ d : Duty, d.letters role = .sink d.dlq_flushed d.dlq_closed := by
      simp [Duty.letters, hr]
    rw [hclosed, hletters] at hQ
    rw [hletters]
    cases hc : d.dlq_closed with
    | true =>
      have hsame : { d with dlq_closed := true } = d := by rw [← hc]
      rw [hsame, hc] at hQ
      exact hQ (.ok ()) (by simp)
    | false =>
      simp only [Dlq.call, Act.wp_bind, Act.wp_get, Act.next_ok, Act.wp_modify]
      refine ⟨⟨hr, hc⟩, fun a d' ha => ?_⟩
      obtain ⟨⟨hfirm, -⟩, hd, -⟩ := ha
      obtain rfl : d' = { d with dlq_closed := true } := hd
      rcases a with _ | e | ⟨⟨⟩⟩
      · exact absurd rfl hfirm
      · exact hQ (.halt (Dlq.fail e)) (by simp)
      · exact hQ (.ok ()) (by simp)

/-- The duty once the dead-letter sink has been finished. -/
def Duty.lettersDone (role : Role) (d : Duty) : Duty := (d.lettersFlushed role).lettersClosed role

theorem Duty.lettersDone_done (d : Duty) : (d.lettersDone role).DlqDone role := by
  intro hr
  simp [lettersDone, lettersFlushed, lettersClosed, hr]

/-- Both calls are made before a second error is reported. -/
theorem wp_duty_dlq_finish {observer : Bool} {Q : Res Error Unit → Dlq → Duty → Prop}
    (hreturn : ∀ r, r ≠ .panic → Q r ((d.lettersDone role).letters role) (d.lettersDone role))
    (hpanic : d.panicked = false →
      Q .panic ((d.lettersDone role).letters role) { d.lettersDone role with panicked := true }) :
    Act.wp (duties (X := X) (Y := Y) role) (Dlq.finish observer) Q (d.letters role) d := by
  simp only [Dlq.finish, Act.wp_bind, Act.wp_attempt]
  refine wp_duty_dlq_flush fun flushed hflushed => ?_
  have hclose : ∀ {Q : Res Error Unit → Dlq → Duty → Prop},
      (∀ r, r ≠ .panic → Q r ((d.lettersDone role).letters role) (d.lettersDone role)) →
        Act.wp (duties (X := X) (Y := Y) role) (Dlq.call .close) Q
          ((d.lettersFlushed role).letters role) (d.lettersFlushed role) :=
    fun hQ => wp_duty_dlq_close hQ
  rcases flushed with u | e | _
  · simp only [Res.attempted_ok, Act.next_ok, Act.wp_bind, Act.wp_attempt]
    refine hclose fun closed hclosed => ?_
    rcases closed with u | e | _
    · exact hreturn (.ok ()) (by simp)
    · exact hreturn (.halt e) (by simp)
    · exact absurd rfl hclosed
  · simp only [Res.attempted_halt, Act.next_ok, Act.wp_bind, Act.wp_attempt]
    refine hclose fun closed hclosed => ?_
    rcases closed with u | e' | _
    · exact hreturn (.halt e) (by simp)
    · refine (Act.wp_bind ..).2 (wp_duty_emitEvent ?_ fun hp _ => hpanic hp)
      exact hreturn (.halt e) (by simp)
    · exact absurd rfl hclosed
  · exact absurd rfl hflushed

end Letters

namespace Runner

variable {c : StageFn X Y X} {view : c.σ → Option SinkFlags} {r : Runner c.σ}

theorem Owes.panicked (h : r.Owes role view spent d) :
    r.Owes role view spent { d with panicked := true } where
  owner := h.owner
  spent _ := rfl
  chain := h.chain
  torn := h.torn
  source := h.source
  handle := h.handle
  owned := h.owned
  finished := h.finished
  complete hl := ⟨(h.complete hl).sink, (h.complete hl).source, (h.complete hl).dlq⟩

theorem Owes.unwound (h : r.Owes role view spent d) (hp : d.panicked = false) :
    r.Unwound role view spent { d with panicked := true } := by
  refine ⟨h.panicked, rfl, Bool.eq_false_iff.2 fun hs => ?_⟩
  exact Bool.noConfusion (hp.symm.trans (h.spent hs))

/-- Whatever has been promised about panics. -/
theorem Owes.spends (h : r.Owes role view spent d) {spent' : Bool}
    (hs : spent' = true → d.panicked = true) : r.Owes role view spent' d :=
  { h with spent := hs }

theorem Owes.counts (h : r.Owes role view spent d) (t : Tally) :
    Owes role view spent { r with ctx.tally := t } d :=
  ⟨h.owner, h.spent, h.chain, h.torn, h.source, h.handle, h.owned, h.finished, h.complete⟩

/-- The dead-letter sink has been finished. -/
theorem Owes.lettersDone (h : r.Owes role view spent d) :
    Owes role view spent { r with ctx.dlq := (d.lettersDone role).letters role }
      (d.lettersDone role) where
  owner := h.owner
  spent := h.spent
  chain := h.chain
  torn := h.torn
  source := h.source
  handle _ := rfl
  owned := h.owned
  finished _ := d.lettersDone_done
  complete hl := ⟨(h.complete hl).sink, (h.complete hl).source, d.lettersDone_done⟩

/-- Operations on the chain make no other teardown call. -/
theorem Owes.grows (h : r.Owes role view spent d) {s' : c.σ} {ctx' : Ctx}
    (hk : Ctx.Kept r.ctx ctx') (ht : d'.Tracks role (view s')) (hg : d.Grows d') :
    Owes role view spent { r with chain := some s', ctx := ctx' } d' where
  owner := h.owner
  spent hs := hg.panicked (h.spent hs)
  chain s'' hs'' := by
    cases hs''
    exact ht
  torn := nofun
  source := h.source.trans hg.source.symm
  handle ho := hk.dlq.trans ((h.handle ho).trans hg.letters.symm)
  owned := h.owned
  finished hf hr := by
    rw [hg.dlq_flushed, hg.dlq_closed]
    exact h.finished hf hr
  complete hl := hg.complete (h.complete hl)

/-- What an operation has done to the sink, if the runner still has its chain. -/
def Passed (role : Role) (k : Option Signal) (r : Runner σ) (res : Res Halt α) (d d' : Duty) :
    Prop :=
  if r.chain.isSome then d.Did role k res d' else ∃ a, res = .ok a

theorem Passed.void {k : Option Signal} {res : Res Halt α} (h : Passed role k r res d d') :
    Passed role k r res.void d d' := by
  unfold Passed at h ⊢
  split
  · rename_i hsome
    rw [if_pos hsome] at h
    rcases k with _ | k
    · trivial
    cases k with
    | tick => trivial
    | flush =>
      intro u hu
      cases res with
      | ok a => exact h a rfl
      | halt | panic => cases hu
    | close =>
      refine ⟨fun hr => h.1 ?_, h.2⟩
      cases res with
      | panic => rfl
      | ok | halt => cases hr
    | abort =>
      refine ⟨h.1, fun hr => h.2 ?_⟩
      cases res with
      | panic => rfl
      | ok | halt => cases hr
  · rename_i hnone
    rw [if_neg hnone] at h
    obtain ⟨a, ha⟩ := h
    rw [ha]
    exact ⟨(), rfl⟩

theorem Owes.wp_chainFn (h : r.Owes role view spent d) (hc : c.Dutiful role view) (op : StageOp X)
    (hclose : r.chain.isSome = true → op.signal = some .close → d.flushed = true) :
    Act.wp (duties role) (chainFn c op) (fun res r' d' => r'.Owes role view spent d' ∧
      r'.chain.isSome = r.chain.isSome ∧ d.Grows d' ∧ Passed role op.signal r res d d') r d := by
  simp only [chainFn, Act.wp_bind, wp_note]
  refine ⟨trivial, fun a d₀ ha => ?_⟩
  obtain rfl : d₀ = d := ha.2.1
  simp only [Act.next_ok, Act.wp_bind, Act.wp_get]
  cases hs : r.chain with
  | none =>
    refine ⟨h, by rw [hs], .refl d₀, ?_⟩
    rw [Passed, if_neg (by simp [hs])]
    exact ⟨0, rfl⟩
  | some s =>
    have hsome : r.chain.isSome = true := by rw [hs]; rfl
    simp only [Act.wp_bind, Act.wp_attempt, Act.wp_zoom]
    refine Act.wp_mono (hc op (s, r.ctx) d₀ ⟨h.chain s hs, hclose hsome⟩) fun res t d' ht => ?_
    obtain ⟨⟨htracks, hgrows, hdid⟩, hkept⟩ := ht
    have howes := h.grows hkept htracks hgrows
    have hpassed : Passed role op.signal r res d₀ d' := by
      rw [Passed, if_pos hsome]
      exact hdid
    cases res with
    | ok n => exact ⟨howes, rfl, hgrows, hpassed⟩
    | panic => exact ⟨howes, rfl, hgrows, hpassed⟩
    | halt e =>
      refine ⟨trivial, fun a d'' ha => ?_⟩
      obtain rfl : d'' = d' := ha.2.1
      exact ⟨howes, rfl, hgrows, hpassed⟩

theorem Owes.wp_call (h : r.Owes role view spent d) (hc : c.Dutiful role view) (op : StageOp X)
    (hclose : r.chain.isSome = true → op.signal = some .close → d.flushed = true) :
    Act.wp (duties role) (call c op) (fun res r' d' => r'.Owes role view spent d' ∧
      r'.chain.isSome = r.chain.isSome ∧ d.Grows d' ∧ Passed role op.signal r res d d') r d := by
  refine (Act.wp_bind ..).2 (Act.wp_mono (h.wp_chainFn hc op hclose) fun res r' d' h' => ?_)
  obtain ⟨howes, hsome, hgrows, hpassed⟩ := h'
  cases res with
  | ok n => exact ⟨howes.counts _, hsome, hgrows, hpassed.void⟩
  | halt e => exact ⟨howes, hsome, hgrows, hpassed.void⟩
  | panic => exact ⟨howes, hsome, hgrows, hpassed.void⟩

/-- What holds of the runner next to the errors collected so far. -/
abbrev OwesAnd (role : Role) (view : σ → Option SinkFlags) (spent : Bool) (K : Duty → Prop)
    (s : Runner σ × FirstError) (d : Duty) : Prop := s.1.Owes role view spent d ∧ K d

abbrev UnwoundBeside (role : Role) (view : σ → Option SinkFlags) (spent : Bool)
    (s : Runner σ × FirstError) (d : Duty) : Prop := s.1.Unwound role view spent d

section Teardown

/-- An abort of the chain tears the sink down, however it ends. -/
theorem triple_call_abort (hc : c.Dutiful role view) :
    Act.Triple (duties role) (Owes role view spent) (call c .abort)
      (fun _ r d => r.Owes role view spent d ∧ d.SinkDone role)
      (fun _ r d => r.Owes role view spent d ∧ d.SinkDone role) (Unwound role view spent) := by
  intro r d h
  refine Act.wp_mono (h.wp_call hc .abort (by simp [StageOp.signal])) fun res r' d' h' => ?_
  obtain ⟨howes, hsome, hgrows, hpassed⟩ := h'
  have hdone : d'.SinkDone role ∧ (res = .panic → d.panicked = false ∧ d'.panicked = true) := by
    unfold Passed at hpassed
    split at hpassed
    · exact hpassed
    · rename_i hnone
      refine ⟨howes.torn ?_, fun hr => ?_⟩
      · rw [← hsome] at hnone
        simpa using hnone
      · obtain ⟨a, ha⟩ := hpassed
        cases hr.symm.trans ha
  cases res with
  | ok u => exact ⟨howes, hdone.1⟩
  | halt e => exact ⟨howes, hdone.1⟩
  | panic =>
    obtain ⟨hbefore, hafter⟩ := hdone.2 rfl
    refine ⟨howes, hafter, Bool.eq_false_iff.2 fun hs => ?_⟩
    exact Bool.noConfusion (hbefore.symm.trans (h.spent hs))

/-- A flush that returns has reached the sink. -/
theorem triple_call_flush (hc : c.Dutiful role view) :
    Act.Triple (duties role) (Owes role view spent) (call c .flush)
      (fun _ r d => r.Owes role view spent d ∧ (r.chain.isSome = true → d.flushed = true))
      (fun _ => Owes role view spent) (Owes role view spent) := by
  intro r d h
  refine Act.wp_mono (h.wp_call hc .flush (by simp [StageOp.signal])) fun res r' d' h' => ?_
  obtain ⟨howes, hsome, hgrows, hpassed⟩ := h'
  cases res with
  | halt e => exact howes
  | panic => exact howes
  | ok u =>
    refine ⟨howes, fun hheld => ?_⟩
    rw [Passed, if_pos (hsome.symm.trans hheld)] at hpassed
    exact hpassed u rfl

/-- A close after a flush completes the teardown of the sink. -/
theorem triple_call_close (hc : c.Dutiful role view) :
    Act.Triple (duties role)
      (fun r d => r.Owes role view spent d ∧ (r.chain.isSome = true → d.flushed = true))
      (call c .close) (fun _ r d => r.Owes role view spent d ∧ d.SinkDone role)
      (fun _ r d => r.Owes role view spent d ∧ d.SinkDone role) (fun _ _ => False) := by
  intro r d h
  obtain ⟨h, hflushed⟩ := h
  refine Act.wp_mono (h.wp_call hc .close fun hs _ => hflushed hs) fun res r' d' h' => ?_
  obtain ⟨howes, hsome, hgrows, hpassed⟩ := h'
  have hdone : d'.SinkDone role ∧ res ≠ .panic := by
    unfold Passed at hpassed
    split at hpassed
    · rename_i hheld
      exact ⟨fun hs => ⟨hgrows.flushed (hflushed hheld), hpassed.2 hs⟩, hpassed.1⟩
    · rename_i hnone
      refine ⟨howes.torn ?_, fun hr => ?_⟩
      · rw [← hsome] at hnone
        simpa using hnone
      · obtain ⟨a, ha⟩ := hpassed
        cases hr.symm.trans ha
  cases res with
  | ok u => exact ⟨howes, hdone.1⟩
  | halt e => exact ⟨howes, hdone.1⟩
  | panic => exact hdone.2 rfl

/-- Collecting an error changes nothing, unless the observer panics. -/
theorem triple_onFirst {K : Duty → Prop} {x : Bool → Code X Y H FirstError Unit}
    (hx : ∀ b, Reports role (x b)) :
    Act.Triple (duties role) (OwesAnd role view spent K) (onFirst x)
      (fun _ => OwesAnd role view spent K) Act.never (UnwoundBeside role view spent) := by
  intro s d h
  simp only [onFirst, Act.wp_bind, Act.wp_get, Act.next_ok, Act.wp_zoom]
  exact (hx _).wp (fun _ _ => h) fun hp _ => h.1.unwound hp

/-- The chain is dropped only after the sink has been torn down. -/
theorem triple_wait_segments :
    Act.Triple (duties (X := X) (Y := Y) role) (OwesAnd role view spent (Duty.SinkDone role))
      (wait_segments (H := H)) (fun _ => OwesAnd role view spent (Duty.SinkDone role)) Act.never
      (UnwoundBeside role view spent) := by
  intro s d h
  obtain ⟨h, hdone⟩ := h
  simp only [wait_segments, Act.wp_bind, Act.wp_get, Act.next_ok]
  split
  · simp only [Act.wp_bind, Act.wp_modify, Act.next_ok, Act.wp_perform]
    refine ⟨trivial, fun _ d₁ h₁ => ⟨trivial, fun _ d₂ h₂ => ?_⟩⟩
    obtain rfl : d₁ = d := h₁.2.1
    obtain rfl : d₂ = d₁ := h₂.2.1
    exact ⟨⟨h.owner, h.spent, (by simp), fun _ => hdone, h.source, h.handle, h.owned, h.finished,
      h.complete⟩, hdone⟩
  · exact ⟨h, hdone⟩

/-- The sink has been torn down and the source closed. -/
def SourceDone (role : Role) (d : Duty) : Prop := d.SinkDone role ∧ d.source = true

theorem triple_close_source :
    Act.Triple (duties (X := X) (Y := Y) role) (OwesAnd role view spent (Duty.SinkDone role))
      (close_source (H := H)) (fun _ => OwesAnd role view spent (SourceDone role)) Act.never
      (UnwoundBeside role view spent) := by
  intro s d h
  obtain ⟨h, hdone⟩ := h
  simp only [close_source, Act.wp_bind, Act.wp_get, Act.next_ok]
  split
  · rename_i hclosed
    exact ⟨h, hdone, h.source.symm.trans hclosed⟩
  · rename_i hopen
    have hsource : d.source = false := h.source.symm.trans (Bool.eq_false_iff.2 hopen)
    simp only [Act.wp_bind, Act.wp_modify, Act.next_ok, Act.wp_perform]
    refine ⟨⟨h.owner, hsource⟩, fun a d' ha => ?_⟩
    obtain ⟨⟨hfirm, -⟩, hd, -⟩ := ha
    obtain rfl : d' = { d with source := true } := hd
    cases a with
    | none => exact absurd rfl hfirm
    | some closed =>
      simp only [wp_outcome_some, Act.next_ok, Act.wp_bind, Act.wp_get]
      have howes : Owes role view spent { s.1 with source_closed := true }
          { d with source := true } :=
        ⟨h.owner, h.spent, h.chain, h.torn, rfl, h.handle, h.owned, h.finished,
          fun hl => ⟨(h.complete hl).sink, fun _ => rfl, (h.complete hl).dlq⟩⟩
      exact triple_onFirst (fun b => reports_offer_result _ b) _ _ ⟨howes, hdone, rfl⟩

theorem triple_finish_dlq :
    Act.Triple (duties (X := X) (Y := Y) role) (OwesAnd role view spent (SourceDone role))
      (finish_dlq (H := H)) (fun _ => OwesAnd role view spent (Duty.Complete role)) Act.never
      (UnwoundBeside role view spent) := by
  intro s d h
  obtain ⟨h, hdone, hsource⟩ := h
  simp only [finish_dlq, Act.wp_bind, Act.wp_get, Act.next_ok]
  split
  · rename_i howns
    have hlettersDone := h.lettersDone
    simp only [Act.wp_bind, Act.wp_attempt, onDlq, Act.wp_get, Act.next_ok, Act.wp_zoom]
    rw [h.handle howns.1]
    refine wp_duty_dlq_finish (fun res hres => ?_) fun hp => hlettersDone.unwound hp
    have hcomplete : (d.lettersDone role).Complete role :=
      ⟨hdone, fun _ => hsource, d.lettersDone_done⟩
    have hfinished : Owes role view spent { s.1 with
        ctx.dlq := (d.lettersDone role).letters role
        dlq_finished := true } (d.lettersDone role) :=
      { hlettersDone with finished := fun _ => d.lettersDone_done }
    cases res with
    | panic => exact absurd rfl hres
    | ok u => exact triple_onFirst (fun b => reports_offer_result _ b) _ _ ⟨hfinished, hcomplete⟩
    | halt e => exact triple_onFirst (fun b => reports_offer_result _ b) _ _ ⟨hfinished, hcomplete⟩
  · rename_i howns
    refine ⟨h, hdone, fun _ => hsource, fun hr => ?_⟩
    have howned : s.1.owns_dlq = true := by
      by_contra hno
      exact Bool.noConfusion (hr.symm.trans (h.owned (by simpa using hno)))
    have hfinished : s.1.dlq_finished = true := by
      by_contra hno
      exact howns ⟨howned, by simpa using hno⟩
    exact h.finished hfinished hr

/-- The second half of every teardown. -/
theorem triple_closed :
    Act.Triple (duties (X := X) (Y := Y) role) (OwesAnd role view spent (Duty.SinkDone role))
      (do
        close_rest (H := H)
        Act.modify fun s => ({ s.1 with live := false }, s.2))
      (fun _ s d => s.1.Owes role view spent d ∧ s.1.live = false) Act.never
      (UnwoundBeside role view spent) := by
  have hrest : Act.Triple (duties (X := X) (Y := Y) role)
      (OwesAnd role view spent (Duty.SinkDone role)) (close_rest (H := H))
      (fun _ => OwesAnd role view spent (Duty.Complete role)) Act.never
      (UnwoundBeside role view spent) :=
    triple_wait_segments.bind fun _ => triple_close_source.bind fun _ => triple_finish_dlq
  refine hrest.bind fun _ => Act.Triple.modify fun s d h => ⟨?_, rfl⟩
  exact { h.1 with complete := fun _ => h.2 }

/-- An operation of the runner next to the errors collected so far. -/
theorem triple_onRunner {P : Runner c.σ → Duty → Prop} {x : Code X Y H (Runner c.σ) α}
    {Q : α → Runner c.σ → Duty → Prop} {B : H → Runner c.σ → Duty → Prop}
    {U : Runner c.σ → Duty → Prop} (hx : Act.Triple (duties role) P x Q B U) :
    Act.Triple (duties role) (fun s d => P s.1 d) (onRunner x) (fun a s d => Q a s.1 d)
      (fun e s d => B e s.1 d) fun s d => U s.1 d :=
  Act.Triple.zoom (fun _ _ h => h) fun _ => hx

/-- The runner has been torn down. -/
def Ended (role : Role) (view : σ → Option SinkFlags) (spent : Bool) (s : Runner σ × FirstError)
    (d : Duty) : Prop := s.1.Owes role view spent d ∧ s.1.live = false

theorem triple_offered_closed (result : Except Halt Unit) :
    Act.Triple (duties (X := X) (Y := Y) role) (OwesAnd role view spent (Duty.SinkDone role))
      (do
        onFirst (H := H) (FirstError.offer_halt result)
        close_rest
        Act.modify fun s => ({ s.1 with live := false }, s.2))
      (fun _ => Ended role view spent) Act.never (UnwoundBeside role view spent) :=
  (triple_onFirst fun b => reports_offer_halt result b).bind fun _ => triple_closed

/-- An abort completes the teardown, unless the observer panics. -/
theorem triple_abort (hc : c.Dutiful role view) :
    Act.Triple (duties role) (fun s d => s.1.Owes role view spent d) (abort (H := H) c)
      (fun _ => Ended role view spent) Act.never (UnwoundBeside role view spent) := by
  refine Act.Triple.bind (R := fun _ => OwesAnd role view spent (Duty.SinkDone role))
    (Act.Triple.attempt (triple_onRunner (triple_call_abort hc))) fun aborted => ?_
  exact triple_offered_closed aborted

/-- A graceful end completes the teardown, unless user code panics. -/
theorem triple_finish (hc : c.Dutiful role view) :
    Act.Triple (duties role) (fun s d => s.1.Owes role view spent d) (finish (H := H) c)
      (fun _ => Ended role view spent) Act.never fun s d => s.1.Owes role view spent d := by
  have hends : ∀ result : Except Halt Unit, Act.Triple (duties (X := X) (Y := Y) role)
      (OwesAnd role view spent (Duty.SinkDone role)) (do
        onFirst (H := H) (FirstError.offer_halt result)
        close_rest
        Act.modify fun s => ({ s.1 with live := false }, s.2))
      (fun _ => Ended role view spent) Act.never fun s d => s.1.Owes role view spent d :=
    fun result => (triple_offered_closed result).conseq (fun _ _ h => h) (fun _ _ _ h => h)
      (fun _ _ _ h => h) fun _ _ h => h.1
  refine Act.Triple.bind (R := fun flushed s d => s.1.Owes role view spent d ∧
    (flushed = .ok () → s.1.chain.isSome = true → d.flushed = true)) ?_ fun flushed => ?_
  · refine Act.Triple.attempt ((triple_onRunner (triple_call_flush hc)).conseq (fun _ _ h => h)
      (fun _ _ _ h => ⟨h.1, fun _ => h.2⟩) (fun _ _ _ h => ⟨h, nofun⟩) fun _ _ h => h)
  rcases flushed with halt | ⟨⟨⟩⟩
  · refine Act.Triple.bind (R := fun _ s d => s.1.Owes role view spent d) ?_ fun _ => ?_
    · exact (triple_onFirst (K := fun _ => True) fun b => reports_offer_halt (.error halt) b).conseq
        (fun _ _ h => ⟨h.1, trivial⟩) (fun _ _ _ h => h.1) (fun _ _ _ h => h) fun _ _ h => h.1
    · refine Act.Triple.bind (R := fun _ => OwesAnd role view spent (Duty.SinkDone role)) ?_ hends
      exact Act.Triple.attempt ((triple_onRunner (triple_call_abort hc)).conseq (fun _ _ h => h)
        (fun _ _ _ h => h) (fun _ _ _ h => h) fun _ _ h => h.1)
  · refine Act.Triple.bind (R := fun _ => OwesAnd role view spent (Duty.SinkDone role)) ?_ hends
    exact Act.Triple.attempt ((triple_onRunner (triple_call_close hc)).conseq
      (fun _ _ h => ⟨h.1, h.2 rfl⟩) (fun _ _ _ h => h) (fun _ _ _ h => h) fun _ _ h => h.elim)

/-- What is left of a runner after an abort, however it ends. -/
theorem triple_abort_owes (hc : c.Dutiful role view) :
    Act.Triple (duties role) (fun s d => s.1.Owes role view spent d) (abort (H := H) c)
      (fun _ s d => s.1.Owes role view spent d) Act.never fun s d => s.1.Owes role view spent d :=
  (triple_abort hc).conseq (fun _ _ h => h) (fun _ _ _ h => h.1) (fun _ _ _ h => h) fun _ _ h => h.1

theorem triple_finish_owes (hc : c.Dutiful role view) :
    Act.Triple (duties role) (fun s d => s.1.Owes role view spent d) (finish (H := H) c)
      (fun _ s d => s.1.Owes role view spent d) Act.never fun s d => s.1.Owes role view spent d :=
  (triple_finish hc).conseq (fun _ _ h => h) (fun _ _ _ h => h.1) (fun _ _ _ h => h) fun _ _ h => h

/-- Nothing is left to be retried. -/
theorem triple_retries_ended (n : Nat) :
    Act.Triple (duties role) (Ended role view spent) (retries (H := H) c n)
      (fun _ _ d => d.Complete role) Act.never fun _ _ => False := by
  intro s d h
  obtain ⟨h, hl⟩ := h
  cases n with
  | zero => exact h.complete hl
  | succ n =>
    simp only [retries, Act.wp_bind, Act.wp_get, Act.next_ok]
    rw [if_neg (by simp [hl])]
    exact h.complete hl

/-- Once the observer has panicked, the next attempt completes the teardown. -/
theorem triple_retries_spent (hc : c.Dutiful role view) (n : Nat) :
    Act.Triple (duties role) (fun s d => s.1.Owes role view true d) (retries (H := H) c (n + 1))
      (fun _ _ d => d.Complete role) Act.never fun _ _ => False := by
  have hattempt : Act.Triple (duties role) (fun s d => s.1.Owes role view true d)
      (Act.contain (abort (H := H) c)) (fun _ => Ended role view true) Act.never
      fun _ _ => False :=
    Act.Triple.contain ((triple_abort hc).conseq (fun _ _ h => h) (fun _ _ _ h => h)
      (fun _ _ _ h => h) fun _ _ h => Bool.noConfusion h.2.2)
  intro s d h
  simp only [retries, Act.wp_bind, Act.wp_get, Act.next_ok]
  split
  · exact hattempt.bind (fun _ => triple_retries_ended n) s d h
  · rename_i hl
    exact h.complete (by simpa using hl)

/-- Two attempts are enough. -/
theorem triple_retries (hc : c.Dutiful role view) (n : Nat) :
    Act.Triple (duties role) (fun s d => s.1.Owes role view false d) (retries (H := H) c (n + 2))
      (fun _ _ d => d.Complete role) Act.never fun _ _ => False := by
  have hattempt : Act.Triple (duties role) (fun s d => s.1.Owes role view false d)
      (Act.contain (abort (H := H) c))
      (fun _ s d => Ended role view false s d ∨ s.1.Owes role view true d) Act.never
      fun _ _ => False :=
    Act.Triple.contain ((triple_abort hc).conseq (fun _ _ h => h) (fun _ _ _ h => .inl h)
      (fun _ _ _ h => h) fun _ _ h => .inr (h.1.spends fun _ => h.2.1))
  have hrest : Act.Triple (duties role)
      (fun s d => Ended role view false s d ∨ s.1.Owes role view true d)
      (retries (H := H) c (n + 1)) (fun _ _ d => d.Complete role) Act.never fun _ _ => False := by
    intro s d h
    rcases h with h | h
    · exact triple_retries_ended (n + 1) s d h
    · exact triple_retries_spent hc n s d h
  intro s d h
  rw [retries]
  simp only [Act.wp_bind, Act.wp_get, Act.next_ok]
  split
  · exact hattempt.bind (fun _ => hrest) s d h
  · rename_i hl
    exact h.complete (by simpa using hl)

/-- Dropping a runner completes the teardown. -/
theorem triple_drop (hc : c.Dutiful role view) :
    Act.Triple (duties role) (Owes role view false) (drop (H := H) c)
      (fun _ _ d => d.Complete role) Act.never fun _ _ => False := by
  intro r d h
  simp only [drop, Act.wp_bind, Act.wp_get, Act.next_ok]
  split
  · simp only [Act.wp_zoom, Act.wp_bind]
    refine Act.wp_mono (triple_retries hc 4 (r, none) d h) fun res s d' h' => ?_
    cases res with
    | halt e => exact h'
    | panic => exact h'
    | ok u =>
      have hpanicked : Duty.Complete role { d' with panicked := true } :=
        ⟨h'.sink, h'.source, h'.dlq⟩
      simp only [Act.next_ok, Act.wp_bind, Act.wp_get]
      split
      · exact h'
      · simp only [Act.wp_bind, Act.wp_get, Act.next_ok, Act.wp_contain]
        exact (reports_emitEvent _ _).wp (fun _ _ => h') fun _ _ => hpanicked
  · rename_i hl
    exact h.complete (by simpa using hl)

end Teardown

/-- While it pulls, a runner makes no teardown call. -/
theorem owes_feeds (hc : c.Dutiful role view) : Feeds (duties role) (Owes role view spent) where
  asks := by
    intro e r d he h
    cases e with
    | observe event =>
      refine ⟨trivial, fun a d' ha => ?_⟩
      rw [ha.2.1]
      cases a with
      | some u =>
        rw [Duty.after_observe]
        exact h
      | none =>
        have hafter : d.after (.observe event : Eff X Y) none = { d with panicked := true } := by
          simp [Duty.after]
        rw [hafter]
        exact h.panicked
    | pull | pullTimeout | isCancelled | note =>
      refine ⟨trivial, fun a d' ha => ?_⟩
      rw [ha.2.1]
      exact h
    | _ => exact he.elim
  counts h t := h.counts t
  calls op hop r d h := by
    have hclose : op.signal ≠ some .close := by
      rcases hop with hop | hop <;> simp [hop]
    refine Act.wp_mono (h.wp_chainFn hc op fun _ h => absurd h hclose) fun res r' d' h' => ?_
    exact ⟨h'.1, fun _ _ => trivial⟩

/-- However a run ends, its runner is left with what it still has to tear down. -/
theorem triple_conclusion (hc : c.Dutiful role view) («end» : PumpEnd) :
    Act.Triple (duties role) (fun s d => s.1.Owes role view false d)
      (Pipeline.conclusion (H := H) c «end») (fun _ s d => s.1.Owes role view false d) Act.never
      fun s d => s.1.Owes role view false d := by
  have hoffer : ∀ error, Act.Triple (duties (X := X) (Y := Y) role)
      (fun s d => s.1.Owes role view false d) (onFirst (H := H) (FirstError.offer error))
      (fun _ s d => s.1.Owes role view false d) Act.never
      fun s d => s.1.Owes role view false d :=
    fun error => (triple_onFirst (K := fun _ => True) fun b => reports_offer error b).conseq
      (fun _ _ h => ⟨h, trivial⟩) (fun _ _ _ h => h.1) (fun _ _ _ h => h) fun _ _ h => h.1
  refine Act.Triple.bind (R := fun _ s d => s.1.Owes role view false d) ?_ fun _ => ?_
  · cases «end» with
    | graceful => exact triple_finish_owes hc
    | cancelled => exact triple_finish_owes hc
    | failed e => exact (hoffer e).bind fun _ => triple_abort_owes hc
    | disconnected => exact (hoffer _).bind fun _ => triple_abort_owes hc
  · intro s d h
    simp only [Act.wp_bind, Act.wp_get, Act.next_ok]
    exact wp_duty_emitEvent h fun _ _ => h.panicked

end Runner

/-- The course of a run in terms of what its thread has torn down. -/
def dutyCourse (view : σ → Option SinkFlags) (dlq : Bool) (ce : Option ConfigError) :
    Course σ Duty where
  built b d := b.dead_letter = dlq ∧ d = .start
  running r d := r.Owes (.single dlq) view false d ∧ ce = none
  ended _ d := if ce = none then d.Complete (.single dlq) else d = .start

/-- Unless the observer panics on `Started`, a run ends with everything torn down. -/
theorem dutyCourse_kept {c : StageFn X Y X} {view : c.σ → Option SinkFlags} {dlq : Bool}
    (hinit : view c.init = some ⟨false, false⟩) (hc : c.Dutiful (.single dlq) view)
    (ce : Option ConfigError) :
    (dutyCourse view dlq ce).Kept (duties (X := X) (Y := Y) (.single dlq)) ce where
  refused := by
    intro b d hce h
    simp only [dutyCourse, if_neg hce]
    exact h.2
  started := by
    intro b d hce h Q s hrun hpanic
    obtain ⟨hdlq, hd⟩ := h
    subst hd
    refine wp_duty_emitEvent (hrun _ fun source_id cancel => ⟨?_, hce⟩) fun _ h => absurd rfl h
    refine ⟨rfl, nofun, ?_, nofun, rfl, fun _ => ?_, nofun, nofun, nofun⟩
    · intro s hs
      cases hs
      rw [hinit]
      exact ⟨rfl, rfl⟩
    · rw [hdlq]
      rfl
  asked := ⟨trivial, fun _ _ ha => ha.2.1⟩
  step := by
    intro r d h idle_tick
    exact Act.wp_mono ((Runner.owes_feeds hc).step idle_tick r d h.1) fun _ _ _ h' => ⟨h'.1, h.2⟩
  tick := by
    intro r d h
    exact Act.wp_mono ((Runner.owes_feeds hc).tick r d h.1) fun _ _ _ h' => ⟨h'.1, h.2⟩
  pump := by
    intro r d h fuel idle_tick cancel
    exact Act.wp_mono ((Runner.owes_feeds hc).pump fuel idle_tick cancel r d h.1)
      fun _ _ _ h' => ⟨h'.1, h.2⟩
  conclude := by
    intro r d h «end»
    obtain ⟨h, hce⟩ := h
    simp only [dutyCourse, if_pos hce]
    refine Act.wp_mono (Runner.triple_conclusion hc «end» (r, none) d h) fun res s d' h' => ?_
    have hdrop : s.1.Owes (.single dlq) view false d' → Act.wp (duties (.single dlq))
        (Runner.drop (H := Error) c) (fun _ _ d'' => d''.Complete (.single dlq)) s.1 d' :=
      fun howes => Act.wp_mono (Runner.triple_drop hc s.1 d' howes) fun res _ _ h'' => by
        cases res with
        | ok u => exact h''
        | halt e => exact h''.elim
        | panic => exact h''.elim
    cases res with
    | ok a => exact hdrop h'
    | panic => exact hdrop h'
    | halt e => exact h'.elim
  drop := by
    intro r d h
    obtain ⟨h, hce⟩ := h
    simp only [dutyCourse, if_pos hce]
    refine Act.wp_mono (Runner.triple_drop hc r d h) fun res _ _ h' => ?_
    cases res with
    | ok u => exact ⟨rfl, .default, h'⟩
    | halt e => exact e.elim
    | panic => exact h'.elim

end PipeIo
