import PipeIo.DutyThreads
import PipeIo.Teardown

namespace PipeIo
set_option autoImplicit true

open Lib

variable {X Y H : Type} {c : StageFn X Y X} {view : c.σ → Option SinkFlags} {b w w' : Life}

/-- The life of a thread whose flush and close do not panic, and whose `recv` without a timeout
does not time out. -/
def paced : Spec (Eff X Y) Ans Life where
  pre := (life true).pre
  post e w a w' := (life true).post e w a w' ∧ match e, a with
    | .recv none, .timedOut => False
    | _, _ => True

theorem wp_paced {σ α : Type} {x : Code X Y H σ α} {Q : Res H α → σ → Life → Prop} {s : σ}
    (h : Act.wp (life true) x Q s w) : Act.wp paced x Q s w := by
  refine Prog.wp_weaken ?_ ?_ h
  · intro e w hpre
    exact hpre
  · intro e w a w' hpost
    exact hpost.1

/-- A thread that keeps to its life, from `b` on: `K` holds once it has ended. -/
def Task.Lives (t : Task X Y) (b : Life) (K : Life → Prop) : Prop :=
  ∃ I : t.S → Life → Prop, I t.init b ∧ ∀ s w, I s w → (t.round s).wp paced (RoundDone I K) w

section Requests

variable {σ : Type} {P U : σ → Life → Prop} {B : H → σ → Life → Prop}

theorem triple_life_request {e : Eff X Y} {Q : Ans e → σ → Life → Prop}
    (hpre : ∀ s w, P s w → (life true).pre e w)
    (hafter : ∀ s w a, P s w → Q a s (w.after e a)) :
    Act.Triple paced P (request e : Code X Y H σ (Ans e)) Q B U := by
  intro s w h
  constructor
  · exact hpre s w h
  · intro a w' ha
    rw [ha.1.2.1]
    exact hafter s w a h

theorem triple_life_emitEvent (active : Bool) (event : Event) :
    Act.Triple paced P (emitEvent active event : Code X Y H σ Unit) (fun _ => P) B U := by
  intro s w h
  exact wp_paced (wp_life_emitEvent h)

theorem triple_life_shared_offer (error : Error) (observer : Bool) :
    Act.Triple paced P (SharedFirst.offer error observer : Code X Y H σ Unit) (fun _ => P) B U := by
  apply Act.Triple.bind (R := fun _ => P)
  · exact triple_life_request (fun _ _ _ => trivial) fun _ _ _ h => h
  · intro first
    split
    · exact Act.Triple.pure fun _ _ h => h
    · exact triple_life_emitEvent observer _

theorem triple_life_offer (error : Error) (observer : Bool) {P U : FirstError → Life → Prop}
    {B : H → FirstError → Life → Prop} (hP : ∀ f f' w, P f w → P f' w) :
    Act.Triple paced P (FirstError.offer error observer : Code X Y H FirstError Unit) (fun _ => P)
      B U := by
  intro f w h
  apply wp_paced
  apply wp_life_offer
  intro f'
  exact hP f f' w h

end Requests

namespace ChannelSegment

/-- A segment on a thread that began with the life `b` and has come to `w`. -/
structure LifeAt (b : Life) (view : σ → Option SinkFlags) (s : ChannelSegment σ) (w : Life) :
    Prop where
  same : w = { b with phase := w.phase, inp := w.inp, receiver := w.receiver }
  sender : b.sender = true
  fresh : b.done = false
  receiver : w.receiver = s.rx
  tracks : w.Tracks (view s.chain)
  bound : w.phase ≤ 2

/-- When an operation may enter the chain of a segment. -/
def Due (w : Life) : Option Signal → Prop
  | none | some .tick | some .flush => w.phase = 0
  | some .close => w.phase = 1
  | some .abort => w.sink = false → w.phase ≤ 1

theorem LifeAt.sender_eq {s : ChannelSegment σ} {view : σ → Option SinkFlags}
    (h : s.LifeAt b view w) : w.sender = true := by
  rw [h.same]
  exact h.sender

/-- Whether the chain has been closed does not matter to the life. -/
theorem LifeAt.live {s : ChannelSegment σ} {view : σ → Option SinkFlags} (h : s.LifeAt b view w)
    (live : Bool) : LifeAt b view { s with live := live } w :=
  ⟨h.same, h.sender, h.fresh, h.receiver, h.tracks, h.bound⟩

/-- The receiver is dropped. -/
theorem LifeAt.dropped {s : ChannelSegment σ} {view : σ → Option SinkFlags}
    (h : s.LifeAt b view w) :
    LifeAt b view { s with rx := false } { w with receiver := false } := by
  refine ⟨?_, h.sender, h.fresh, rfl, h.tracks, h.bound⟩
  rw [h.same]

/-- The stream received goes the way of the operations passed on. -/
theorem due_of_permits {op : StageOp X} (h : Permits op.signal w.phase) : Due w op.signal := by
  cases op with
  | process | tick | flush | close => exact h
  | abort => exact fun _ => h

theorem wp_life_chainFn (hc : c.Obeys (life true) (lifeRules true) view) (op : StageOp X)
    {s : ChannelSegment c.σ} (h : s.LifeAt b view w) (hdue : Due w op.signal) :
    Act.wp paced (chainFn c op) (fun res s' w' => s'.LifeAt b view w' ∧
      s'.live = s.live ∧ w'.inp = w.inp ∧ w.Moves true op.signal res w'.phase) s w := by
  apply wp_paced
  simp only [chainFn, Act.wp_bind, wp_note]
  refine ⟨trivial, fun a w₀ ha => ?_⟩
  obtain rfl : w₀ = w := ha.2.1
  have hpre : (lifeRules true).pre op.signal (view s.chain) w₀ := by
    refine ⟨h.tracks, h.sender_eq, ?_⟩
    cases op with
    | process | tick | flush | close | abort => exact hdue
  simp only [Act.next_ok, Act.wp_bind, Act.wp_attempt, Act.wp_zoom]
  apply Act.wp_mono (hc op (s.chain, s.ctx) w₀ hpre)
  intro res t w' ht
  obtain ⟨⟨htracks, hw', hmoves⟩, -⟩ := ht
  have hbound : w'.phase ≤ 2 := by
    have hle := h.bound
    cases op with
    | process | tick =>
      have hzero : w'.phase = 0 := hmoves.2
      omega
    | flush =>
      have hone : w'.phase ≤ 1 := hmoves.1
      omega
    | close => exact Nat.le_of_eq hmoves.1
    | abort =>
      by_cases hres : res = .panic
      · exact (hmoves.1 hres).2.2.2
      · have hmax := hmoves.2 hres
        omega
  have hat : LifeAt b view { s with chain := t.1, ctx := t.2 } w' := by
    refine ⟨?_, h.sender, h.fresh, ?_, htracks, hbound⟩
    · rw [hw', h.same]
      rfl
    · rw [hw']
      exact h.receiver
  have hinp : w'.inp = w₀.inp := by
    rw [hw']
    rfl
  cases res with
  | ok n => exact ⟨hat, rfl, hinp, hmoves⟩
  | panic => exact ⟨hat, rfl, hinp, hmoves⟩
  | halt e =>
    refine ⟨trivial, fun a w'' ha => ?_⟩
    obtain rfl : w'' = w' := ha.2.1
    exact ⟨hat, rfl, hinp, hmoves⟩

/-- The segment may abort its chain. -/
def Abortable (b : Life) (view : σ → Option SinkFlags) (s : ChannelSegment σ) (w : Life) : Prop :=
  s.LifeAt b view w ∧ Due w (some .abort)

/-- The sink behind the segment, or the edge that it feeds, is closed. -/
def Settled (b : Life) (view : σ → Option SinkFlags) (s : ChannelSegment σ) (w : Life) : Prop :=
  s.LifeAt b view w ∧ s.live = false ∧ w.phase = 2

/-- How the loop of a segment may be left. -/
def Left (b : Life) (view : σ → Option SinkFlags) (s : ChannelSegment σ) (w : Life) : Prop :=
  s.Abortable b view w ∧ s.live = true ∨ s.Settled b view w

/-- An abort closes the sink: flush and close do not panic. -/
theorem triple_life_abort (hc : c.Obeys (life true) (lifeRules true) view)
    {offer : Error → Bool → Code X Y H (ChannelSegment c.σ × ρ) Unit}
    {B : H → ChannelSegment c.σ × ρ → Life → Prop} {U : ChannelSegment c.σ × ρ → Life → Prop}
    (hoffer : ∀ e observer, Act.Triple paced (fun s w => s.1.Settled b view w) (offer e observer)
      (fun _ s w => s.1.Settled b view w) B U) :
    Act.Triple paced (fun s w => s.1.Abortable b view w) (abort c offer)
      (fun _ s w => s.1.Settled b view w) B U := by
  apply Act.Triple.bind (R := fun _ s w => s.1.Abortable b view w ∧ s.1.live = false)
  · apply Act.Triple.modify
    intro s w h
    exact ⟨⟨h.1.live false, h.2⟩, rfl⟩
  intro u
  apply Act.Triple.bind (R := fun _ s w => s.1.Settled b view w)
  · apply Act.Triple.attempt
    apply Act.Triple.zoom (R := fun s w => s.Abortable b view w ∧ s.live = false)
    · intro s w h
      exact h
    intro s t w h
    obtain ⟨⟨hat, hdue⟩, hlive⟩ := h
    apply Act.wp_mono (wp_life_chainFn hc .abort hat hdue)
    intro res t' w' h'
    obtain ⟨hat', hlive', -, hmoves⟩ := h'
    have hres : res ≠ .panic := by
      intro hpanic
      exact Bool.noConfusion (hmoves.1 hpanic).1
    have hmax := hmoves.2 hres
    have hle := hat.bound
    have hsettled : t'.Settled b view w' := ⟨hat', hlive'.trans hlive, by omega⟩
    cases res with
    | ok n => exact hsettled
    | halt e => exact hsettled
    | panic => exact absurd rfl hres
  intro aborted
  rcases aborted with (e | _) | written
  · apply Act.Triple.get
    intro s
    exact (hoffer e _).given fun _ _ h => h.2
  · exact Act.Triple.pure fun _ _ h => h
  · exact Act.Triple.pure fun _ _ h => h

theorem triple_life_abort_run (hc : c.Obeys (life true) (lifeRules true) view)
    {B : H → ChannelSegment c.σ → Life → Prop} {U : ChannelSegment c.σ → Life → Prop} :
    Act.Triple paced (Abortable b view) (abort_run (H := H) c) (fun _ => Settled b view) B U := by
  apply Act.Triple.zoom (R := fun s w => s.1.Abortable b view w)
  · intro s w h
    exact h
  intro s
  exact triple_life_abort hc fun e observer => triple_life_shared_offer e observer

theorem triple_life_drop_rx {P : ChannelSegment σ → Life → Prop}
    {B : H → ChannelSegment σ → Life → Prop} {U : ChannelSegment σ → Life → Prop}
    (hrx : ∀ s w, P s w → w.receiver = s.rx)
    (hP : ∀ s w, P s w → P { s with rx := false } { w with receiver := false }) :
    Act.Triple paced P (drop_rx : Code X Y H (ChannelSegment σ) Unit)
      (fun _ s w => P s w ∧ w.receiver = false) B U := by
  apply Act.Triple.get
  intro s
  split
  · rename_i hs
    apply Act.Triple.bind
      (R := fun _ s' w => w.receiver = true ∧ P s' { w with receiver := false })
    · apply Act.Triple.modify
      intro s' w h
      obtain ⟨rfl, h⟩ := h
      exact ⟨(hrx s' w h).trans hs, hP s' w h⟩
    · intro u
      apply triple_life_request
      · intro s' w h
        exact h.1
      · intro s' w a h
        exact ⟨h.2, rfl⟩
  · rename_i hs
    apply Act.Triple.pure
    intro s' w h
    obtain ⟨rfl, h⟩ := h
    exact ⟨h, (hrx s' w h).trans (by simpa using hs)⟩

/-- Between two operations of a segment: what it has received it has passed on. -/
structure Carries (b : Life) (view : σ → Option SinkFlags) (s : ChannelSegment σ) (w : Life) :
    Prop where
  at_life : s.LifeAt b view w
  live : s.live = true
  passed : w.inp = w.phase
  bound : w.phase ≤ 1

/-- Before a received operation goes through the chain. -/
structure Gets (b : Life) (view : σ → Option SinkFlags) (op : StageOp X) (s : ChannelSegment σ)
    (w : Life) : Prop where
  at_life : s.LifeAt b view w
  live : s.live = true
  permits : Permits op.signal w.phase
  inp : w.inp = goes op.signal w.phase

/-- After a received operation has gone through the chain. -/
structure Dealt (b : Life) (view : σ → Option SinkFlags) (op : StageOp X)
    (res : Except Halt Nat) (s : ChannelSegment σ) (w : Life) : Prop where
  at_life : s.LifeAt b view w
  live : s.live = true
  bound : op.closing = false → w.phase ≤ 1
  closed : op.closing = true → w.phase = 2
  passed : res.isOk = true → w.inp = w.phase

theorem Carries.left {s : ChannelSegment c.σ} (h : s.Carries b view w) : s.Left b view w :=
  .inl ⟨⟨h.at_life, fun _ => h.bound⟩, h.live⟩

theorem Dealt.settled {op : StageOp X} {res : Except Halt Nat} {s : ChannelSegment c.σ}
    (h : s.Dealt b view op res w) (hop : op.closing = true) :
    Settled b view { s with live := false } w :=
  ⟨h.at_life.live false, rfl, h.closed hop⟩

/-- Without an idle tick a segment takes the next operation or finds the edge disconnected. -/
theorem triple_life_recv {B : H → ChannelSegment c.σ → Life → Prop}
    {U : ChannelSegment c.σ → Life → Prop} :
    Act.Triple paced (Carries b view)
      (recv none : Code X Y H (ChannelSegment c.σ) (Option (StageOp X)))
      (fun op s w => (op = none → s.Carries b view w) ∧
        ∀ o, op = some o → s.Gets b view o w) B U := by
  intro s w h
  simp only [recv, Act.wp_bind, Act.wp_get, Act.next_ok]
  split
  · rename_i hrx
    have hinp : w.inp ≤ 1 := h.passed ▸ h.bound
    refine (Act.wp_bind ..).2 ⟨⟨h.at_life.receiver.trans hrx, hinp⟩, fun r w' ha => ?_⟩
    obtain ⟨⟨-, hw, hpermits⟩, hprompt⟩ := ha
    cases r with
    | disconnected =>
      obtain rfl : w' = w := hw
      exact ⟨fun _ => h, by simp⟩
    | timedOut => exact hprompt.elim
    | msg op =>
      replace hpermits : Permits op.signal w.inp := hpermits
      obtain rfl : w' = { w with inp := goes op.signal w.inp } := hw
      refine ⟨by simp, fun o ho => ?_⟩
      cases ho
      obtain ⟨same, sender, fresh, receiver, tracks, bound⟩ := h.at_life
      rw [h.passed] at hpermits ⊢
      refine ⟨⟨?_, sender, fresh, receiver, tracks, bound⟩, h.live, hpermits, rfl⟩
      rw [same]
  · exact ⟨fun _ => h, by simp⟩

/-- The chain takes an operation that is due. -/
theorem triple_life_handle (hc : c.Obeys (life true) (lifeRules true) view) (op : StageOp X)
    {B : H → ChannelSegment c.σ → Life → Prop} :
    Act.Triple paced (Gets b view op) (Act.attempt (chainFn c op) : Code X Y H _ _)
      (Dealt b view op) B (Left b view) := by
  apply Act.Triple.attempt
  intro s w h
  apply Act.wp_mono (wp_life_chainFn hc op h.at_life (due_of_permits h.permits))
  intro res s' w' h'
  obtain ⟨hat, hlive, hinp, hmoves⟩ := h'
  have hl := hlive.trans h.live
  have hpermits := h.permits
  have hinp' := hinp.trans h.inp
  cases op with
  | process | tick =>
    have hzero : w'.phase = 0 := hmoves.2
    have hpassed : w'.inp = w'.phase := hinp'.trans (hmoves.1.trans hzero.symm)
    cases res with
    | ok n => exact ⟨hat, hl, fun _ => by omega, by simp [StageOp.closing], fun _ => hpassed⟩
    | halt e => exact ⟨hat, hl, fun _ => by omega, by simp [StageOp.closing], fun _ => hpassed⟩
    | panic => exact .inl ⟨⟨hat, fun _ => by omega⟩, hl⟩
  | flush =>
    have hle : w'.phase ≤ 1 := hmoves.1
    cases res with
    | ok n =>
      have hone : w'.phase = 1 := hmoves.2 n rfl
      exact ⟨hat, hl, fun _ => hle, by simp [StageOp.closing], fun _ => hinp'.trans hone.symm⟩
    | halt e =>
      exact ⟨hat, hl, fun _ => hle, by simp [StageOp.closing], by simp [Except.isOk, Except.toBool]⟩
    | panic => exact .inl ⟨⟨hat, fun _ => hle⟩, hl⟩
  | close =>
    have htwo : w'.phase = 2 := hmoves.1
    have hpassed : w'.inp = w'.phase := hinp'.trans htwo.symm
    cases res with
    | ok n => exact ⟨hat, hl, by simp [StageOp.closing], fun _ => htwo, fun _ => hpassed⟩
    | halt e => exact ⟨hat, hl, by simp [StageOp.closing], fun _ => htwo, fun _ => hpassed⟩
    | panic =>
      refine .inl ⟨⟨hat, fun hsink => ?_⟩, hl⟩
      have hsame : w'.sink = w.sink := by rw [hat.same, h.at_life.same]
      exact Bool.noConfusion ((hsame.trans (hmoves.2 rfl)).symm.trans hsink)
  | abort =>
    have hres : res ≠ .panic := by
      intro hpanic
      exact Bool.noConfusion (hmoves.1 hpanic).1
    have hmax := hmoves.2 hres
    have hle : w.phase ≤ 1 := hpermits
    have htwo : w'.phase = 2 := by omega
    have hpassed : w'.inp = w'.phase := hinp'.trans htwo.symm
    cases res with
    | ok n => exact ⟨hat, hl, by simp [StageOp.closing], fun _ => htwo, fun _ => hpassed⟩
    | halt e => exact ⟨hat, hl, by simp [StageOp.closing], fun _ => htwo, fun _ => hpassed⟩
    | panic => exact absurd rfl hres

/-- One round of a segment. -/
theorem triple_life_run (hc : c.Obeys (life true) (lifeRules true) view)
    {B : H → ChannelSegment c.σ → Life → Prop} :
    Act.Triple paced (Carries b view) (run (H := H) c none)
      (fun tally s w => (tally = none → s.Carries b view w) ∧
        (tally ≠ none → s.Left b view w)) B (Left b view) := by
  have htally : Act.Triple (paced (X := X) (Y := Y)) (Left b view)
      (do pure (some (← Act.get).ctx.tally) : Code X Y H (ChannelSegment c.σ) (Option Tally))
      (fun tally s w => (tally = none → s.Carries b view w) ∧
        (tally ≠ none → s.Left b view w)) B (Left b view) := by
    apply Act.Triple.get
    intro s
    apply Act.Triple.pure
    intro s' w h
    exact ⟨by simp, fun _ => h.2⟩
  have habort : Act.Triple paced (Abortable b view) (abort_run (H := H) c)
      (fun _ => Left b view) B (Left b view) :=
    (triple_life_abort_run hc).conseq (fun _ _ h => h) (fun _ _ _ h => .inr h) (fun _ _ _ h => h)
      fun _ _ h => h
  apply triple_life_recv.bind
  intro op
  cases op with
  | none =>
    apply Act.Triple.bind (R := fun _ => Abortable b view)
    · apply (triple_life_drop_rx (P := Abortable b view) (fun _ _ h => h.1.receiver)
        fun _ _ h => ⟨h.1.dropped, h.2⟩).conseq
      · intro s w h
        exact ⟨(h.1 rfl).at_life, fun _ => (h.1 rfl).bound⟩
      · exact fun _ _ _ h => h.1
      · exact fun _ _ _ h => h
      · exact fun _ _ h => h
    · exact fun _ => habort.bind fun _ => htally
  | some op =>
    apply Act.Triple.bind (R := Dealt b view op)
    · exact (triple_life_handle hc op).given fun _ _ h => h.2 op rfl
    intro res
    cases res with
    | ok written =>
      apply Act.Triple.bind (R := fun _ => Dealt b view op (.ok written))
      · apply Act.Triple.modify
        intro s w h
        obtain ⟨same, sender, fresh, receiver, tracks, bound⟩ := h.at_life
        exact ⟨⟨same, sender, fresh, receiver, tracks, bound⟩, h.live, h.bound, h.closed, h.passed⟩
      intro u
      split
      · rename_i hclosing
        apply Act.Triple.bind (R := fun _ => Left b view)
        · apply Act.Triple.modify
          intro s w h
          exact .inr (h.settled hclosing)
        · exact fun _ => htally
      · rename_i hclosing
        apply Act.Triple.pure
        intro s w h
        have hbound := h.bound (by simpa using hclosing)
        exact ⟨fun _ => ⟨h.at_life, h.live, h.passed rfl, hbound⟩, by simp⟩
    | error halt =>
      apply Act.Triple.bind (R := fun _ => Dealt b view op (.error halt))
      · apply (triple_life_drop_rx (P := Dealt b view op (.error halt))
          (fun _ _ h => h.at_life.receiver)
          fun _ _ h => ⟨h.at_life.dropped, h.live, h.bound, h.closed, h.passed⟩).conseq
        · exact fun _ _ h => h
        · exact fun _ _ _ h => h.1
        · exact fun _ _ _ h => h
        · exact fun _ _ h => h
      intro u
      have hend : Act.Triple paced (Dealt b view op (.error halt)) (do
          if op.closing then Act.modify fun s => { s with live := false }
          else abort_run c
          pure (some (← Act.get).ctx.tally) : Code X Y H (ChannelSegment c.σ) (Option Tally))
          (fun tally s w => (tally = none → s.Carries b view w) ∧
            (tally ≠ none → s.Left b view w)) B (Left b view) := by
        split
        · rename_i hclosing
          apply Act.Triple.bind (R := fun _ => Left b view)
          · apply Act.Triple.modify
            intro s w h
            exact .inr (h.settled hclosing)
          · exact fun _ => htally
        · rename_i hclosing
          apply Act.Triple.bind (R := fun _ => Left b view)
          · apply habort.given
            intro s w h
            exact ⟨h.at_life, fun _ => h.bound (by simpa using hclosing)⟩
          · exact fun _ => htally
      cases halt with
      | disconnected => exact hend
      | failed e =>
        apply Act.Triple.get
        intro s
        apply Act.Triple.bind (R := fun _ => Dealt b view op (.error (.failed e)))
        · exact (triple_life_shared_offer e _).given fun _ _ h => h.2
        · exact fun _ => hend

/-- Dropping a segment aborts its chain, if that was not closed. -/
theorem triple_life_drop_segment (hc : c.Obeys (life true) (lifeRules true) view)
    {B : H → ChannelSegment c.σ → Life → Prop} {U : ChannelSegment c.σ → Life → Prop} :
    Act.Triple paced (Left b view) (drop_segment (H := H) c) (fun _ => Settled b view) B U := by
  intro s w h
  simp only [drop_segment, Act.wp_bind, Act.wp_get, Act.next_ok]
  rcases h with ⟨hat, hlive⟩ | hsettled
  · rw [hlive]
    simp only [if_true, Act.wp_zoom, retries, Act.wp_bind]
    have habort : Act.Triple paced (fun s w => s.1.Abortable b view w)
        (Act.contain (abort (H := H) c fun e observer =>
          Act.zoom Prod.snd (fun f s => (s.1, f)) (FirstError.offer e observer)))
        (fun done s w => done = some () ∧ s.1.Settled b view w) (fun _ _ _ => False)
        fun _ _ => False := by
      apply Act.Triple.contain
      apply (triple_life_abort hc (B := fun _ _ _ => False) (U := fun _ _ => False) ?_).conseq
      · exact fun _ _ h => h
      · exact fun _ _ _ h => ⟨rfl, h⟩
      · exact fun _ _ _ h => h
      · exact fun _ _ h => h.elim
      intro e observer s w h
      apply (Act.wp_zoom ..).2
      apply wp_paced
      apply wp_life_offer
      intro f'
      exact h
    apply Act.wp_mono (habort (s, none) w hat)
    intro res t w' h'
    cases res with
    | halt e => exact h'.elim
    | panic => exact h'.elim
    | ok done =>
      obtain ⟨rfl, hsettled⟩ := h'
      simp only [Act.next_ok, Act.wp_pure, Act.wp_bind, Act.wp_get]
      split
      · exact hsettled
      · simp only [Act.wp_bind, Act.wp_get, Act.next_ok, Act.wp_contain]
        exact wp_paced (wp_life_emitEvent hsettled)
  · rw [hsettled.2.1]
    exact hsettled

/-- A dropped segment has closed what it feeds. -/
theorem triple_life_drop (hc : c.Obeys (life true) (lifeRules true) view)
    {B : H → ChannelSegment c.σ → Life → Prop} {U : ChannelSegment c.σ → Life → Prop} :
    Act.Triple paced (Left b view) (drop (H := H) c) (fun _ _ w => w.phase = 2) B U := by
  apply (triple_life_drop_segment hc).bind
  intro u
  apply Act.Triple.bind (R := fun _ s w => s.Settled b view w ∧ w.receiver = false)
  · apply triple_life_drop_rx (P := Settled b view)
    · exact fun _ _ h => h.1.receiver
    · exact fun _ _ h => ⟨h.1.dropped, h.2⟩
  intro u
  apply Act.Triple.bind (R := fun _ _ w => w.phase = 2 ∧ w.receiver = false ∧ w.sender = false ∧
    w.done = false)
  · apply triple_life_request
    · intro s w h
      exact ⟨h.1.1.sender_eq, fun _ => Nat.le_of_eq h.1.2.2.symm⟩
    · intro s w a h
      refine ⟨h.1.2.2, h.2, rfl, ?_⟩
      show w.done = false
      rw [h.1.1.same]
      exact h.1.1.fresh
  intro u
  apply triple_life_request
  · intro s w h
    exact ⟨h.2.2.2, h.2.1, h.2.2.1, fun _ => Nat.le_of_eq h.1.symm⟩
  · intro s w a h
    exact h.1

/-- A thread that receives from one edge and owns the sink or feeds another edge. -/
structure Starts (b : Life) : Prop where
  phase : b.phase = 0
  inp : b.inp = 0
  receiver : b.receiver = true
  sender : b.sender = true
  fresh : b.done = false

theorem task_lives (hc : c.Obeys (life true) (lifeRules true) view) (hb : Starts b)
    (hinit : b.Tracks (view c.init)) (ctx : Ctx) :
    (task c ctx none).Lives b fun w => w.phase = 2 := by
  refine ⟨Carries b view, ?_, fun s w h => ?_⟩
  · have hzero := hb.phase
    exact ⟨⟨rfl, hb.sender, hb.fresh, hb.receiver, hinit, by omega⟩, rfl,
      hb.inp.trans hzero.symm, by omega⟩
  · refine Task.round_repeating (J := Left b view) ?_ (triple_life_drop hc) s w h
    apply (triple_life_run hc).bind
    intro tally
    apply Act.Triple.pure
    intro s w h
    cases tally with
    | none => exact ⟨fun _ => h.1 rfl, by simp⟩
    | some t => exact ⟨by simp, fun _ => h.2 (by simp)⟩

end ChannelSegment

section Source

/-- A runner whose teardown is not over: a `Drop` may still abort it. -/
def Runner.Pending (b : Life) (view : σ → Option SinkFlags) (r : Runner σ) (w : Life) : Prop :=
  r.At b view w ∧ r.live = true ∧ r.Abortable w

/-- How the loop of the source thread may be left. -/
def Runner.Left (b : Life) (view : σ → Option SinkFlags) (r : Runner σ) (w : Life) : Prop :=
  r.Pending b view w ∨ r.Over b view w

/-- Between two rounds of the source thread. -/
structure Runner.Pulls (b : Life) (view : σ → Option SinkFlags) (r : Runner σ) (w : Life) :
    Prop where
  at_life : r.At b view w
  live : r.live = true
  phase : w.phase = 0

theorem Runner.Pulls.pending {r : Runner c.σ} (h : r.Pulls b view w) : r.Pending b view w :=
  ⟨h.at_life, h.live, fun _ _ => by rw [h.phase]; exact Nat.zero_le 1⟩

theorem Runner.triple_life_round (hc : c.Obeys (life true) (lifeRules true) view)
    (idle_tick : Option Duration) (cancel : Bool) :
    Act.Triple paced (fun s w => s.1.Pulls b view w) (Runner.round (H := H) c idle_tick cancel)
      (fun _ s w => s.1.Pulls b view w)
      (fun _ s w => s.1.Pulls b view w) fun s w => s.1.Pulls b view w := by
  intro s w h
  apply wp_paced
  apply h.at_life.wp_round h.phase hc
  intro res r' k' h' hsame
  have hpulls : r'.Pulls b view w := ⟨h', hsame.live.trans h.live, h.phase⟩
  cases res with
  | ok a => exact hpulls
  | halt e => exact hpulls
  | panic => exact hpulls

/-- A graceful end or an abort completes the teardown or panics on the way. -/
theorem Runner.triple_life_finish (hc : c.Obeys (life true) (lifeRules true) view)
    {B : H → Runner c.σ × FirstError → Life → Prop} :
    Act.Triple paced (fun s w => s.1.Pulls b view w) (Runner.finish (H := H) c)
      (fun _ s w => s.1.Over b view w) B fun s w => s.1.Left b view w := by
  intro s w h
  apply wp_paced
  apply h.at_life.wp_finish h.phase hc
  · intro r' f' w' hover
    exact hover
  · intro r' f' w' hat habortable hlive
    exact .inl ⟨hat, hlive.trans h.live, habortable⟩

theorem Runner.triple_life_abort (hc : c.Obeys (life true) (lifeRules true) view)
    {B : H → Runner c.σ × FirstError → Life → Prop} :
    Act.Triple paced (fun s w => s.1.Pulls b view w) (Runner.abort (H := H) c)
      (fun _ s w => s.1.Over b view w) B fun s w => s.1.Left b view w := by
  intro s w h
  obtain ⟨hat, hlive, habortable⟩ := h.pending
  apply wp_paced
  apply hat.wp_abort habortable hc
  · intro r' f' w' hover
    exact hover
  · intro r' f' w' hends
    obtain ⟨hat', habortable', hlive', -⟩ := hends
    exact .inl ⟨hat', hlive'.trans hlive, habortable'⟩

theorem triple_life_source_end (hc : c.Obeys (life true) (lifeRules true) view) («end» : PumpEnd)
    {B : H → Runner c.σ → Life → Prop} :
    Act.Triple paced (Runner.Pulls b view) (source_end (H := H) c «end»)
      (fun _ => Runner.Over b view) B (Runner.Left b view) := by
  apply Act.Triple.zoom (R := fun s w => s.1.Pulls b view w)
  · intro s w h
    exact h
  intro r
  cases «end»
  case' graceful | cancelled => apply (Runner.triple_life_finish hc).bind
  case' failed e =>
    apply Act.Triple.get
    intro s
    apply Act.Triple.bind (R := fun _ s w => s.1.Pulls b view w)
    · exact (triple_life_shared_offer e _).given fun _ _ h => h.2
    intro u
    apply (Runner.triple_life_abort hc).bind
  case' disconnected => apply (Runner.triple_life_abort hc).bind
  -- whatever the end was, the error of the teardown is offered last
  all_goals
    intro u
    apply Act.Triple.get
    intro s
    dsimp only
    split
    · exact (triple_life_shared_offer _ _).given fun _ _ h => h.2
    · exact Act.Triple.pure fun _ _ h => h.2

theorem triple_life_source_loop (hc : c.Obeys (life true) (lifeRules true) view)
    (idle_tick : Option Duration) (cancel : Bool)
    {B : Empty → Runner c.σ × (Nat × Nat) → Life → Prop} :
    Act.Triple paced (fun s w => s.1.Pulls b view w) (source_loop (H := Empty) c idle_tick cancel)
      (fun exit s w => (exit = none → s.1.Pulls b view w) ∧ (exit ≠ none → s.1.Left b view w)) B
      fun s w => s.1.Left b view w := by
  apply Act.Triple.bind (R := fun _ s w => s.1.Pulls b view w)
  · apply (Runner.triple_life_round hc idle_tick cancel).conseq
    · exact fun _ _ h => h
    · exact fun _ _ _ h => h
    · exact fun e => e.elim
    · exact fun _ _ h => .inl h.pending
  intro «end»
  cases «end» with
  | none =>
    apply Act.Triple.pure
    intro s w h
    exact ⟨fun _ => h, by simp⟩
  | some «end» =>
    apply Act.Triple.bind (R := fun _ s w => s.1.Pulls b view w)
    · apply Act.Triple.modify
      intro s w h
      exact ⟨h.at_life.move rfl rfl rfl rfl rfl rfl, h.live, h.phase⟩
    intro u
    apply Act.Triple.bind (R := fun _ s w => s.1.Over b view w)
    · apply Act.Triple.zoom (R := Runner.Pulls b view)
      · intro s w h
        exact h
      intro s
      exact triple_life_source_end hc «end»
    intro u
    apply Act.Triple.get
    intro s
    apply Act.Triple.pure
    intro s' w h
    exact ⟨by simp, fun _ => .inr h.2⟩

/-- A dropped source has closed all that its thread owned. -/
theorem triple_life_drop_source (hc : c.Obeys (life true) (lifeRules true) view)
    (hdlq : b.dlq = false) {B : H → Runner c.σ → Life → Prop} {U : Runner c.σ → Life → Prop} :
    Act.Triple paced (Runner.Left b view) (drop_source (H := H) c) (fun _ _ w => w.phase = 3) B
      U := by
  have hthree : finalPhase b.dlq = 3 := by
    rw [hdlq]
    rfl
  apply Act.Triple.bind (R := fun _ => Runner.Over b view)
  · intro s w h
    have hat : s.At b view w := by
      cases h with
      | inl hpending => exact hpending.1
      | inr hover => exact hover.at_end
    apply wp_paced
    apply hat.wp_drop hc
    · cases h with
      | inl hpending => exact .inl hpending.2
      | inr hover => exact .inr hover
    · intro r' w' hover
      exact hover
  intro u
  apply Act.Triple.get
  intro r
  split
  · rename_i s hs
    apply triple_life_request
    · intro r' w h
      obtain ⟨rfl, hover⟩ := h
      have hphase := hover.phase
      refine ⟨hover.at_end.link.trans (by rw [hs]; rfl), fun _ => by omega⟩
    · intro r' w a h
      exact h.2.phase.trans hthree
  · apply Act.Triple.pure
    intro r' w h
    exact h.2.phase.trans hthree

/-- The source thread, which owns the sink too if there is no segment. -/
theorem source_task_lives (hc : c.Obeys (life true) (lifeRules true) view)
    (hb : b = { b with source := true, dlq := false, crew := [], phase := 0, sender := true,
                       waited := false })
    (hinit : b.Tracks (view c.init)) (source_id : StageId) (ctx : Ctx)
    (idle_tick : Option Duration) (cancel : Bool) :
    (source_task c source_id ctx idle_tick cancel).Lives b fun w => w.phase = 3 := by
  have hphase : b.phase = 0 := by rw [hb]
  have hsource : b.source = true := by rw [hb]
  have hdlq : b.dlq = false := by rw [hb]
  refine ⟨fun s w => s.1.Pulls b view w, ⟨?_, rfl, hphase⟩, fun s w h => ?_⟩
  · refine ⟨rfl, ⟨hsource, by rw [hb]⟩, ?_, ?_, ?_, ?_, nofun, nofun, ?_, fun _ => hdlq, nofun,
      nofun, ?_⟩
    · intro s hs
      cases hs
      exact hinit
    · rw [hb]
      rfl
    · rw [hb]
      rfl
    · intro hsegments
      exact ⟨rfl, by omega⟩
    · rw [hphase]
      rfl
    · rw [hphase]
      exact Nat.zero_le _
  · refine Task.round_repeating (J := fun s w => s.1.Left b view w)
      (triple_life_source_loop hc idle_tick cancel) ?_ s w h
    apply Act.Triple.zoom (R := Runner.Left b view)
    · intro s w h
      exact h
    intro s
    exact triple_life_drop_source hc hdlq

end Source

namespace Threaded

/-- The calling thread before it finishes the dead-letter sink. -/
structure Calls (b : Life) (w : Life) : Prop where
  dlq : w.dlq = b.dlq
  crew : w.crew = b.crew
  phase : w.phase = 3

/-- The calling thread has joined all others and finished the dead-letter sink. -/
def Finished (b : Life) (w : Life) : Prop :=
  w.phase = finalPhase b.dlq ∧ ∀ i ∈ b.crew, i ∈ w.joined

theorem triple_life_spawn_segments {n m : Nat} (hn : n ≤ m) (hcrew : b.crew = List.range m)
    {σ : Type} {B : H → σ → Life → Prop} {U : σ → Life → Prop} :
    Act.Triple paced (fun _ w => Calls b w ∧ w.spawned = [])
      (spawn_segments n : Code X Y H σ Unit)
      (fun _ _ w => Calls b w ∧ ∀ i, i ∈ w.spawned ↔ i < n) B U := by
  induction n with
  | zero =>
    apply Act.Triple.pure
    intro s w h
    simp [h.1, h.2]
  | succ n ih =>
    apply (ih (Nat.le_of_succ_le hn)).bind
    intro u
    apply triple_life_request
    · intro s w h
      constructor
      · rw [h.1.crew, hcrew]
        exact List.mem_range.2 hn
      · simp [h.2]
    · intro s w a h
      refine ⟨⟨h.1.dlq, h.1.crew, h.1.phase⟩, fun i => ?_⟩
      simp only [Life.after, List.mem_cons, h.2]
      omega

/-- All threads have been spawned; the calling thread has joined the source thread and the first
`m` segments. -/
structure Joins (b : Life) (n m : Nat) (w : Life) : Prop where
  calls : Calls b w
  spawned : ∀ i ≤ n, i ∈ w.spawned
  source : n ∈ w.joined
  segments : ∀ i < m, i ∈ w.joined

theorem triple_life_join_workers {n : Nat} (m : Nat) (hm : m ≤ n)
    {B : H → Joined → Life → Prop} {U : Joined → Life → Prop} :
    Act.Triple paced (fun _ w => Joins b n 0 w) (join_workers m : Code X Y H Joined Unit)
      (fun _ _ w => Joins b n m w) B U := by
  induction m with
  | zero => exact Act.Triple.pure fun _ _ h => h
  | succ m ih =>
    apply (ih (Nat.le_of_succ_le hm)).bind
    intro u
    apply Act.Triple.bind (R := fun _ _ w => Joins b n (m + 1) w)
    · apply triple_life_request
      · intro s w h
        exact h.spawned m (Nat.le_of_succ_le hm)
      · intro s w a h
        refine ⟨⟨h.calls.dlq, h.calls.crew, h.calls.phase⟩, h.spawned,
          List.mem_cons_of_mem _ h.source, fun i hi => ?_⟩
        rcases Nat.lt_succ_iff_lt_or_eq.1 hi with hlt | heq
        · exact List.mem_cons_of_mem _ (h.segments i hlt)
        · subst heq
          exact List.mem_cons_self
    · intro exit
      exact Act.Triple.modify fun _ _ h => h

theorem triple_life_join_all (n : Nat) {B : H → Joined → Life → Prop}
    {U : Joined → Life → Prop} :
    Act.Triple paced (fun _ w => Calls b w ∧ ∀ i ≤ n, i ∈ w.spawned)
      (join_all n : Code X Y H Joined Joined) (fun _ _ w => Joins b n n w) B U := by
  apply Act.Triple.bind (R := fun _ _ w => Joins b n 0 w)
  · apply triple_life_request
    · intro s w h
      exact h.2 n (Nat.le_refl n)
    · intro s w a h
      exact ⟨⟨h.1.dlq, h.1.crew, h.1.phase⟩, h.2, List.mem_cons_self, by simp⟩
  intro exit
  apply Act.Triple.bind (R := fun _ _ w => Joins b n 0 w)
  · exact Act.Triple.modify fun _ _ h => h
  intro u
  apply (triple_life_join_workers n (Nat.le_refl n)).bind
  intro u s w h
  exact h

theorem triple_life_conclude {n : Nat} (hcrew : b.crew = List.range (n + 1)) (joined : Joined)
    (observer : Bool) {B : H → Dlq × FirstError → Life → Prop} :
    Act.Triple paced (fun s w => s.1 = Dlq.new b.dlq ∧ Joins b n n w)
      (conclude joined observer : Code X Y H (Dlq × FirstError) (Except Error RunStats))
      (fun _ _ w => Finished b w) B fun _ w => Finished b w := by
  apply Act.Triple.bind (R := fun _ _ w => Finished b w)
  · apply Act.Triple.attempt
    intro s w h
    obtain ⟨hs, hjoins⟩ := h
    obtain ⟨hdlq, hcrew', hphase⟩ := hjoins.calls
    have hall : ∀ i ∈ b.crew, i ∈ w.joined := by
      intro i hi
      rw [hcrew] at hi
      rcases Nat.lt_succ_iff_lt_or_eq.1 (List.mem_range.1 hi) with hlt | heq
      · exact hjoins.segments i hlt
      · subst heq
        exact hjoins.source
    have hletters : s.1 = dlqAt w.dlq w.phase := by
      rw [hs, hphase, hdlq]
      cases b.dlq <;> rfl
    have hdone : Finished b (w.to (finalPhase w.dlq)) := by
      rw [hdlq]
      exact ⟨rfl, hall⟩
    apply (Act.wp_zoom ..).2
    apply wp_paced
    rw [hletters]
    apply wp_life_dlq_finish (Nat.le_of_eq hphase.symm)
    · have hge := three_le_finalPhase w.dlq
      omega
    · rw [hcrew']
      exact hall
    · intro r hr
      cases r with
      | ok u => exact hdone
      | halt e => exact hdone
      | panic => exact absurd rfl hr
    · intro p hsteady
      exact Bool.noConfusion hsteady
  intro finished
  apply Act.Triple.bind (R := fun _ _ w => Finished b w)
  · intro s w h
    apply (Act.wp_zoom ..).2
    apply wp_paced
    apply wp_life_offer_result
    intro f'
    exact h
  intro u
  split
  · exact fun _ _ h => h
  · apply Act.Triple.get
    intro s
    apply Act.Triple.bind (R := fun _ _ w => Finished b w)
    · exact (triple_life_emitEvent _ _).given fun _ _ h => h.2
    · exact fun _ => Act.Triple.pure fun _ _ h => h

theorem triple_life_run {n : Nat} {built : Built} (hcrew : b.crew = List.range (n + 1))
    (hdlq : b.dlq = built.dead_letter) {B : H → Unit → Life → Prop} :
    Act.Triple paced (fun _ w => Calls b w ∧ w.spawned = [])
      (run n built : Code X Y H Unit (Option Exit)) (fun exit _ w => exit ≠ none ∧ Finished b w) B
      fun _ w => Finished b w := by
  apply Act.Triple.bind (R := fun _ _ w => Calls b w ∧ w.spawned = [])
  · exact triple_life_emitEvent _ _
  intro u
  apply (triple_life_spawn_segments (Nat.le_succ n) hcrew).bind
  intro u
  apply Act.Triple.bind (R := fun _ _ w => Calls b w ∧ ∀ i ≤ n, i ∈ w.spawned)
  · apply triple_life_request
    · intro s w h
      constructor
      · rw [h.1.crew, hcrew]
        exact List.mem_range.2 (Nat.lt_succ_self n)
      · simp [h.2]
    · intro s w a h
      refine ⟨⟨h.1.dlq, h.1.crew, h.1.phase⟩, fun i hi => ?_⟩
      simp only [Life.after, List.mem_cons, h.2]
      omega
  intro u
  apply Act.Triple.bind (R := fun _ _ w => Joins b n n w)
  · apply Act.Triple.withLocal
    intro s
    exact (triple_life_join_all n).given fun _ _ h => h.2
  intro joined
  apply Act.Triple.bind (R := fun _ _ w => Joins b n n w)
  · apply triple_life_request
    · exact fun _ _ _ => trivial
    · exact fun _ _ _ h => h
  intro first
  apply Act.Triple.bind (R := fun _ _ w => Finished b w)
  · apply Act.Triple.withLocal
    intro s
    apply (triple_life_conclude hcrew joined built.observer).given
    intro t w h
    obtain ⟨rfl, hjoins⟩ := h
    exact ⟨by rw [hdlq], hjoins⟩
  intro result
  exact Act.Triple.pure fun _ _ h => ⟨by simp, h⟩

/-- The calling thread. -/
theorem task_lives {n : Nat} {built : Built} (hcrew : b.crew = List.range (n + 1))
    (hdlq : b.dlq = built.dead_letter) (hphase : b.phase = 3) (hspawned : b.spawned = []) :
    (task n built : Task X Y).Lives b (Finished b) := by
  refine ⟨fun _ w => Calls b w ∧ w.spawned = [], ⟨⟨rfl, rfl, hphase⟩, hspawned⟩,
    fun s w h => ?_⟩
  refine Task.round_repeating (J := fun _ w => Finished b w) ?_ ?_ () w h
  · apply (triple_life_run hcrew hdlq).conseq
    · exact fun _ _ h => h
    · exact fun _ _ _ h => ⟨fun hnone => absurd hnone h.1, fun _ => h.2⟩
    · exact fun _ _ _ h => h
    · exact fun _ _ h => h
  · exact Act.Triple.pure fun _ _ h => h

end Threaded

end PipeIo
