import PipeIo.Chain

namespace PipeIo
set_option autoImplicit true

open Lib

/-- What a chain call leaves alone in its context. -/
structure Ctx.Kept (c c' : Ctx) : Prop where
  dlq : c'.dlq = c.dlq
  observer : c'.observer = c.observer
  cancel : c'.cancel = c.cancel
  items_in : c'.tally.items_in = c.tally.items_in
  items_out : c'.tally.items_out = c.tally.items_out

theorem Ctx.Kept.refl (c : Ctx) : Ctx.Kept c c := ⟨rfl, rfl, rfl, rfl, rfl⟩

theorem Ctx.Kept.trans {c c' c'' : Ctx} (h : Ctx.Kept c c') (h' : Ctx.Kept c' c'') :
    Ctx.Kept c c'' :=
  ⟨h'.dlq.trans h.dlq, h'.observer.trans h.observer, h'.cancel.trans h.cancel,
    h'.items_in.trans h.items_in, h'.items_out.trans h.items_out⟩

def Res.plus (n : Nat) : Res Halt Nat → Res Halt Nat
  | .ok m => .ok (n + m)
  | .halt h => .halt h
  | .panic => .panic

/-- The operations during which a stage may emit. -/
def Emits : Option Signal → Prop
  | none | some .tick | some .flush => True
  | some .close | some .abort => False

theorem emits_item : Emits none := trivial

theorem emits_tick : Emits (some .tick) := trivial

theorem emits_flush : Emits (some .flush) := trivial

/-- Requests a stage makes besides calling the next stage. -/
def Eff.Quiet : Eff X Y → Prop
  | .deadLetter (.write _) | .observe _ | .sleep _ | .note (.stage ..) | .note (.failed ..) => True
  | _ => False

/-- Those after which the stage goes on, whatever the answer was. -/
def Eff.Silent : Eff X Y → Prop
  | .observe _ | .sleep _ | .note (.stage ..) => True
  | _ => False

/-- A contract for chain calls: when an operation may be called and what it does, in terms
of the state `t` of the tail of the chain and of the outside world `w`. -/
structure Rules (τ : Type u) (W : Type v) where
  pre : Option Signal → τ → W → Prop
  post : Option Signal → Res Halt Nat → τ → W → τ → W → Prop

/-- What a dead-letter write makes of a chain call. -/
def Res.routed : Res Error Unit → Res Halt Nat
  | .ok () => .ok 0
  | .halt e => .halt (.failed e)
  | .panic => .panic

/-- The result of a dead-letter write. -/
def letterRes : Option (Except BoxError Unit) → Res Error Unit
  | none => .panic
  | some (.ok ()) => .ok ()
  | some (.error e) => .halt (Dlq.fail e)

/-- What a contract needs so that every stage in front of the tail keeps it. -/
structure Rules.Sound (R : Rules τ W) (Γ : Spec (Eff X Y) Ans W) : Prop where
  quiet : R.pre none t w → e.Silent → Γ.pre e w ∧
    ∀ a w', Γ.post e w a w' → R.post none (.ok 0) t w t w'
  letter : ∀ f : StageFailure, R.pre none t w → Γ.pre (.deadLetter (.write f)) w ∧
    ∀ a w', Γ.post (.deadLetter (.write f)) w a w' →
      R.post none (Res.routed (letterRes a)) t w t w'
  failed : ∀ (id : StageId) (e : BoxError), R.pre none t w → Γ.pre (.note (.failed id e)) w ∧
    ∀ w', Γ.post (.note (.failed id e)) w () w' →
      R.post none (.halt (.failed (.stage id e))) t w t w' ∧
      ∀ event, Γ.pre (.observe event) w' ∧ ∀ a w'', Γ.post (.observe event) w' a w'' →
        R.post none (.halt (.failed (.stage id e))) t w t w''
  refl : R.pre none t w → R.post none (.ok 0) t w t w
  item : Emits k → R.pre k t w → R.pre none t w
  keep : Emits k → R.pre k t w → R.post none (.ok n) t w t' w' → R.pre k t' w'
  seq : Emits k → R.post none (.ok n) t w t' w' → R.post k r t' w' t'' w'' →
    R.post k (Res.plus n r) t w t'' w''
  crash : R.post none r t w t' w' → R.post none .panic t w t' w'
  lift : Emits k → R.post none r t w t' w' → (∀ n, r ≠ .ok n) → R.post k r t w t' w'

/-- The same for a contract that does not tell failures apart. -/
structure Rules.Lawful (R : Rules τ W) (Γ : Spec (Eff X Y) Ans W) : Prop where
  quiet : R.pre none t w → e.Quiet → Γ.pre e w ∧
    ∀ a w', Γ.post e w a w' → R.post none (.ok 0) t w t w'
  refl : R.pre none t w → R.post none (.ok 0) t w t w
  item : Emits k → R.pre k t w → R.pre none t w
  keep : Emits k → R.pre k t w → R.post none (.ok n) t w t' w' → R.pre k t' w'
  seq : Emits k → R.post none (.ok n) t w t' w' → R.post k r t' w' t'' w'' →
    R.post k (Res.plus n r) t w t'' w''
  fail : R.post none (.ok n) t w t' w' → R.post none (.halt (.failed e)) t w t' w'
  crash : R.post none r t w t' w' → R.post none .panic t w t' w'
  lift : Emits k → R.post none r t w t' w' → (∀ n, r ≠ .ok n) → R.post k r t w t' w'

theorem Rules.Lawful.sound {R : Rules τ W} {Γ : Spec (Eff X Y) Ans W} (L : R.Lawful Γ) :
    R.Sound Γ where
  quiet := by
    intro t w e hp he
    refine L.quiet hp ?_
    cases e with
    | observe | sleep => exact trivial
    | note n =>
      cases n with
      | stage => exact trivial
      | call | halted | failed => exact he.elim
    | _ => exact he.elim
  letter := by
    intro t w f hp
    obtain ⟨hpre, hpost⟩ := L.quiet (e := .deadLetter (.write f)) hp trivial
    refine ⟨hpre, fun a w' ha => ?_⟩
    have hw := hpost a w' ha
    rcases a with _ | ⟨e | ⟨⟨⟩⟩⟩
    · exact L.crash hw
    · exact L.fail hw
    · exact hw
  failed := by
    intro t w id e hp
    obtain ⟨hpre, hpost⟩ := L.quiet (e := .note (.failed id e)) hp trivial
    refine ⟨hpre, fun w' ha => ⟨L.fail (hpost () w' ha), fun event => ?_⟩⟩
    have hp' := L.keep emits_item hp (hpost () w' ha)
    obtain ⟨hpre', hpost'⟩ := L.quiet (e := .observe event) hp' trivial
    exact ⟨hpre', fun a w'' ha' => L.fail (L.seq emits_item (hpost () w' ha) (hpost' a w'' ha'))⟩
  refl := L.refl
  item := L.item
  keep := L.keep
  seq := L.seq
  crash := L.crash
  lift := L.lift

/-- Code that carries out operation `k` keeps the contract. -/
def Does (Γ : Spec (Eff X Y) Ans W) (R : Rules τ W) (view : σ → τ) (k : Option Signal)
    (x : Code X Y Halt (σ × Ctx) Nat) : Prop :=
  ∀ s w, R.pre k (view s.1) w → Act.wp Γ x (fun r s' w' =>
    R.post k r (view s.1) w (view s'.1) w' ∧ Ctx.Kept s.2 s'.2) s w

/-- Every call of the chain keeps the contract. -/
def StageFn.Obeys (c : StageFn X Y T) (Γ : Spec (Eff X Y) Ans W) (R : Rules τ W)
    (view : c.σ → τ) : Prop :=
  ∀ op : StageOp T, Does Γ R view op.signal (c.call op)

section Wp

variable {Γ : Spec (Eff X Y) Ans W} {H σ α : Type} {s : σ} {w : W}

@[simp] theorem wp_outcome_some (a : α) {Q : Res H α → σ → W → Prop} :
    Act.wp Γ (outcome (some a)) Q s w ↔ Q (.ok a) s w := Iff.rfl

@[simp] theorem wp_outcome_none {Q : Res H α → σ → W → Prop} :
    Act.wp Γ (outcome none) Q s w ↔ Q .panic s w := Iff.rfl

@[simp] theorem wp_note (n : Note) {Q : Res H Unit → σ → W → Prop} :
    Act.wp Γ (note n) Q s w ↔
      Γ.pre (.note n) w ∧ ∀ a w', Γ.post (.note n) w a w' → Q (.ok a) s w' := Iff.rfl

@[simp] theorem wp_own {φ ν : Type} (x : Code X Y H φ α)
    {Q : Res H α → (φ × ν) × Ctx → W → Prop} {s : (φ × ν) × Ctx} :
    Act.wp Γ (own x) Q s w ↔
      Act.wp Γ x (fun r p => Q r ((p, s.1.2), s.2)) s.1.1 w := Act.wp_zoom ..

@[simp] theorem wp_down {φ ν : Type} (x : Code X Y H (ν × Ctx) α)
    {Q : Res H α → (φ × ν) × Ctx → W → Prop} {s : (φ × ν) × Ctx} :
    Act.wp Γ (down x) Q s w ↔
      Act.wp Γ x (fun r t => Q r ((s.1.1, t.1), t.2)) (s.1.2, s.2) w := Act.wp_zoom ..

@[simp] theorem wp_inCtx {ν : Type} (x : Code X Y H Ctx α)
    {Q : Res H α → ν × Ctx → W → Prop} {s : ν × Ctx} :
    Act.wp Γ (inCtx x) Q s w ↔ Act.wp Γ x (fun r c => Q r (s.1, c)) s.2 w := Act.wp_zoom ..

@[simp] theorem wp_onDlq (x : Code X Y H Dlq α) {Q : Res H α → Ctx → W → Prop} {c : Ctx} :
    Act.wp Γ (Ctx.onDlq x) Q c w ↔
      Act.wp Γ x (fun r d => Q r { c with dlq := d }) c.dlq w := Act.wp_zoom ..

@[simp] theorem wp_count (f : Tally → Tally) {Q : Res H Unit → Ctx → W → Prop} {c : Ctx} :
    Act.wp Γ (Ctx.count f) Q c w ↔ Q (.ok ()) { c with tally := f c.tally } w := Iff.rfl

/-- The result of a sink call. -/
def sinkRes (id : StageId) : Option (Except BoxError Unit) → Res Halt Unit
  | none => .panic
  | some (.ok ()) => .ok ()
  | some (.error e) => .halt (.failed (.sink id e))

@[simp] theorem wp_sinkCall (id : StageId) (a : Option (Except BoxError Unit))
    {Q : Res Halt Unit → σ → W → Prop} :
    Act.wp Γ (sinkCall id a) Q s w ↔ Q (sinkRes id a) s w := by
  match a with
  | none => rfl
  | some (.ok ()) => rfl
  | some (.error e) => rfl

theorem wp_flushOnce {id : StageId} {Q : Res Halt Unit → SinkFlags × Ctx → W → Prop}
    {t : SinkFlags} {ctx : Ctx} :
    Act.wp Γ (flushOnce id) Q (t, ctx) w ↔
      if t.flushed then Q (.ok ()) (t, ctx) w
      else Γ.pre .flush w ∧ ∀ a w', Γ.post .flush w a w' →
        Q (sinkRes id a) ({ t with flushed := true }, ctx) w' := by
  simp only [flushOnce, Act.wp_bind, Act.wp_get, Act.next_ok]
  split
  · rfl
  · simp only [Act.wp_bind, Act.wp_modify, Act.next_ok, Act.wp_perform, wp_sinkCall]

theorem wp_closeOnce {id : StageId} {Q : Res Halt Unit → SinkFlags × Ctx → W → Prop}
    {t : SinkFlags} {ctx : Ctx} :
    Act.wp Γ (closeOnce id) Q (t, ctx) w ↔
      if t.closed then Q (.ok ()) (t, ctx) w
      else Γ.pre .close w ∧ ∀ a w', Γ.post .close w a w' →
        Q (sinkRes id a) ({ t with closed := true }, ctx) w' := by
  simp only [closeOnce, Act.wp_bind, Act.wp_get, Act.next_ok]
  split
  · rfl
  · simp only [Act.wp_bind, Act.wp_modify, Act.next_ok, Act.wp_perform, wp_sinkCall]

end Wp

section Stage

variable {X Y T U : Type} {τ : Type u} {W : Type v} {R : Rules τ W}
  {Γ : Spec (Eff X Y) Ans W} {t : τ} {w : W}

theorem Rules.Sound.wp_quiet (L : R.Sound Γ) (hp : R.pre none t w) {e : Eff X Y}
    (he : e.Silent) {H σ : Type} {Q : Res H (Ans e) → σ → W → Prop} {s : σ}
    (hQ : ∀ a w', R.post none (.ok 0) t w t w' → R.pre none t w' → Q (.ok a) s w') :
    Act.wp Γ (request e) Q s w := by
  obtain ⟨hpre, hpost⟩ := L.quiet hp he
  refine ⟨hpre, fun a w' ha => ?_⟩
  have hw := hpost a w' ha
  exact hQ a w' hw (L.keep emits_item hp hw)

theorem Rules.Sound.wp_emitEvent (L : R.Sound Γ) (hp : R.pre none t w) {active : Bool}
    {event : Event} {H σ : Type} {Q : Res H Unit → σ → W → Prop} {s : σ}
    (hok : ∀ w', R.post none (.ok 0) t w t w' → R.pre none t w' → Q (.ok ()) s w')
    (hpanic : ∀ w', R.post none (.ok 0) t w t w' → Q .panic s w') :
    Act.wp Γ (emitEvent active event) Q s w := by
  cases active with
  | false => exact hok w (L.refl hp) hp
  | true =>
    refine (Act.wp_bind ..).2 (L.wp_quiet (e := .observe event) hp trivial ?_)
    intro a w' hw hp'
    cases a with
    | none => exact hpanic w' hw
    | some u => exact hok w' hw hp'

theorem Rules.Sound.seq0 (L : R.Sound Γ) {w' w'' : W} {t' t'' : τ} {r : Res Halt Nat}
    (h : R.post none (.ok 0) t w t' w') (h' : R.post none r t' w' t'' w'') :
    R.post none r t w t'' w'' := by
  have hs := L.seq emits_item h h'
  cases r with
  | ok n => simpa [Res.plus] using hs
  | halt | panic => exact hs

/-- A dead-letter write leaves the flags of the handle alone. -/
theorem Rules.Sound.wp_route (L : R.Sound Γ) (hp : R.pre none t w) {failure : StageFailure}
    {Q : Res Error Unit → Dlq → W → Prop} {d : Dlq}
    (hQ : ∀ r w', R.post none (Res.routed r) t w t w' → Q r d w') :
    Act.wp Γ (Dlq.route failure) Q d w := by
  cases d with
  | absent => exact hQ (.ok ()) w (L.refl hp)
  | sink flushed closed =>
    simp only [Dlq.route, Dlq.call, Act.wp_bind, Act.wp_get, Act.next_ok]
    obtain ⟨hpre, hpost⟩ := L.letter failure hp
    refine ⟨hpre, fun a w' ha => ?_⟩
    have hw := hQ _ w' (hpost a w' ha)
    rcases a with _ | ⟨e | ⟨⟨⟩⟩⟩ <;> exact hw

/-- The failure of a stage that ends the run. -/
theorem Rules.Sound.wp_fail_fast (L : R.Sound Γ) (hp : R.pre none t w) {id : StageId}
    {e : BoxError} {input : Option AnyBox} {n : Nat} {c : Ctx} :
    Act.wp Γ (handle_failure .failFast id e input n)
      (fun r c' w' => R.post none r t w t w' ∧ Ctx.Kept c c') c w := by
  obtain ⟨hpre, hpost⟩ := L.failed id e hp
  simp only [handle_failure, report_failure, Act.wp_bind, if_true, wp_note, wp_count, Act.wp_get,
    Act.next_ok, reduceCtorEq, false_and, if_false]
  refine ⟨hpre, fun _ w' ha => ?_⟩
  obtain ⟨hw, htold⟩ := hpost w' ha
  cases hobs : c.observer with
  | false => exact ⟨hw, rfl, hobs.symm, rfl, rfl, rfl⟩
  | true =>
    obtain ⟨hpre', hpost'⟩ := htold (.stageError id .failFast e)
    refine (Act.wp_bind ..).2 ⟨hpre', fun a w'' ha' => ?_⟩
    cases a with
    | none => exact ⟨L.crash (hpost' _ w'' ha'), rfl, hobs.symm, rfl, rfl, rfl⟩
    | some u => exact ⟨hpost' _ w'' ha', rfl, hobs.symm, rfl, rfl, rfl⟩

/-- Handling a failure. -/
theorem Rules.Sound.wp_handle_failure (L : R.Sound Γ) (hp : R.pre none t w)
    {policy : ErrorPolicy} {id : StageId} {e : BoxError} {input : Option AnyBox} {n : Nat}
    {c : Ctx} :
    Act.wp Γ (handle_failure policy id e input n)
      (fun r c' w' => R.post none r t w t w' ∧ Ctx.Kept c c') c w := by
  by_cases hff : policy = .failFast
  · subst hff
    exact L.wp_fail_fast hp
  simp only [handle_failure, hff, if_false, Act.wp_bind, wp_count, Act.next_ok, Act.wp_get]
  split
  · exact ⟨L.refl hp, rfl, rfl, rfl, rfl, rfl⟩
  · simp only [report_failure, Act.wp_bind, Act.wp_get, Act.next_ok]
    refine L.wp_emitEvent hp (fun w' hw hp' => ?_) fun w' hw =>
      ⟨L.crash hw, rfl, rfl, rfl, rfl, rfl⟩
    cases policy with
    | failFast => exact absurd rfl hff
    | «continue» => exact ⟨hw, rfl, rfl, rfl, rfl, rfl⟩
    | deadLetter =>
      simp only [Act.next_ok, Act.wp_bind, Act.wp_mapHalt, wp_onDlq]
      refine L.wp_route hp' fun r w'' hw' => ?_
      have hw'' := L.seq0 hw hw'
      cases r with
      | halt e => exact ⟨hw'', rfl, rfl, rfl, rfl, rfl⟩
      | panic => exact ⟨hw'', rfl, rfl, rfl, rfl, rfl⟩
      | ok u =>
        have hp'' := L.keep emits_item hp' hw'
        simp only [Res.mapHalt_ok, Act.next_ok, Act.wp_bind, wp_count]
        refine L.wp_emitEvent hp'' (fun w₃ hw₃ _ => ?_) fun w₃ hw₃ => ?_
        · exact ⟨L.seq0 hw'' hw₃, rfl, rfl, rfl, rfl, rfl⟩
        · exact ⟨L.crash (L.seq0 hw'' hw₃), rfl, rfl, rfl, rfl, rfl⟩

/-- The contract of a call on part of the state, put in front of what came before. -/
theorem Rules.Sound.after (L : R.Sound Γ) {k : Option Signal} (hk : Emits k) {σ : Type}
    {view : σ → τ} {x : Code X Y Halt (σ × Ctx) Nat} (hx : Does Γ R view k x) {n : Nat}
    {s : σ × Ctx} {c : Ctx} (hp : R.pre k t w) {w' : W}
    (hpost : R.post none (.ok n) t w (view s.1) w') (hc : Ctx.Kept c s.2) :
    Act.wp Γ x (fun r s' w'' =>
      R.post k (Res.plus n r) t w (view s'.1) w'' ∧ Ctx.Kept c s'.2) s w' :=
  Act.wp_mono (hx s w' (L.keep hk hp hpost)) fun _ _ _ h =>
    ⟨L.seq hk hpost h.1, hc.trans h.2⟩

theorem Does.down {φ ν : Type} {view : ν → τ} {k : Option Signal}
    {x : Code X Y Halt (ν × Ctx) Nat} (h : Does Γ R view k x) :
    Does Γ R (fun s : φ × ν => view s.2) k (down x) := fun s w hp =>
  (wp_down x).2 (h (s.1.2, s.2) w hp)

theorem Does.emitAll (L : R.Sound Γ) {σ : Type} {view : σ → τ}
    (next : StageOp U → Code X Y Halt (σ × Ctx) Nat)
    (hn : ∀ u, Does Γ R view none (next (.process u))) (outs : List U) :
    Does Γ R view none (emitAll next outs) := by
  induction outs with
  | nil => exact fun s w hp => ⟨L.refl hp, Ctx.Kept.refl _⟩
  | cons out outs ih =>
    intro s w hp
    simp only [PipeIo.emitAll, Act.wp_bind]
    refine Act.wp_mono (hn out s w hp) fun r s' w' h => ?_
    cases r with
    | halt | panic => exact h
    | ok n =>
      simp only [Act.next_ok, Act.wp_bind]
      refine Act.wp_mono (L.after emits_item ih hp h.1 h.2) fun r s'' w'' h' => ?_
      cases r <;> exact h'

/-- The invariant of a stage method: what was emitted so far was accepted, or the
downstream has stopped and nothing more is emitted. -/
theorem wp_drive (L : R.Sound Γ) {φ ν : Type} {view : ν → τ} {policy : ErrorPolicy}
    {id : StageId} {next : StageOp U → Code X Y Halt (ν × Ctx) Nat}
    (hn : ∀ u, Does Γ R view none (next (.process u))) (hp : R.pre none t w) {c : Ctx}
    (script : Script U φ) (halted : Option Halt) (n : Nat) (s : (φ × ν) × Ctx) (w' : W)
    (hpost : R.post none (halted.elim (.ok n) .halt) t w (view s.1.2) w')
    (hc : Ctx.Kept c s.2) :
    Act.wp Γ (drive policy id next script halted n) (fun r s' w'' =>
      R.post none r t w (view s'.1.2) w'' ∧ Ctx.Kept c s'.2) s w' := by
  induction script generalizing halted n s w' with
  | ret r st =>
    simp only [drive, Act.wp_bind, wp_own, Act.wp_modify, Act.next_ok]
    cases halted with
    | some halt => exact ⟨hpost, hc⟩
    | none =>
      cases r with
      | ok u => exact ⟨hpost, hc⟩
      | error e =>
        have hp' := L.keep emits_item hp hpost
        simp only [Act.wp_map, wp_inCtx]
        refine Act.wp_mono (L.wp_handle_failure hp') fun r c' w'' h => ?_
        have hseq := L.seq emits_item hpost h.1
        cases r with
        | ok m => exact ⟨Nat.add_comm n m ▸ hseq, hc.trans h.2⟩
        | halt | panic => exact ⟨hseq, hc.trans h.2⟩
  | panic st => exact ⟨L.crash hpost, hc⟩
  | emit item st k ih =>
    simp only [drive, Act.wp_bind, wp_own, Act.wp_modify, Act.next_ok]
    cases halted with
    | some halt => exact ih false (some halt) n _ w' hpost hc
    | none =>
      simp only [Act.wp_bind, Act.wp_attempt]
      refine Act.wp_mono (L.after emits_item (hn item).down (s := ((st, s.1.2), s.2)) hp hpost hc)
        fun r s' w'' h => ?_
      cases r with
      | ok m => exact ih true none (n + m) s' w'' h.1 h.2
      | halt halt => exact ih false (some halt) n s' w'' h.1 h.2
      | panic => exact h

theorem Does.drive (L : R.Sound Γ) {φ ν : Type} {view : ν → τ} {policy : ErrorPolicy}
    {id : StageId} {next : StageOp U → Code X Y Halt (ν × Ctx) Nat}
    (hn : ∀ u, Does Γ R view none (next (.process u))) (script : Script U φ) :
    Does Γ R (fun s : φ × ν => view s.2) none (drive policy id next script none 0) :=
  fun s w hp => wp_drive L hn hp script none 0 s w (L.refl hp) (Ctx.Kept.refl _)

theorem Does.noted (L : R.Sound Γ) {σ : Type} {view : σ → τ} {k : Option Signal}
    (hk : Emits k) {depth : Nat} {method : Option Signal} {x : Code X Y Halt (σ × Ctx) Nat}
    (hx : Does Γ R view k x) :
    Does Γ R view k (do note (.stage depth method); x) := by
  intro s w hp
  refine (Act.wp_bind ..).2 (L.wp_quiet (e := .note (.stage depth method)) (L.item hk hp)
    trivial fun a w' hw _ => ?_)
  rw [Act.next_ok]
  refine Act.wp_mono (L.after hk hx hp hw (Ctx.Kept.refl _)) fun r s' w'' h => ?_
  cases r with
  | ok n => simpa [Res.plus] using h
  | halt | panic => exact h

theorem ItemStage.call_does (L : R.Sound Γ) (st : ItemStage T U) (depth : Nat) {ν : Type}
    {view : ν → τ} {next : StageOp U → Code X Y Halt (ν × Ctx) Nat}
    (hn : ∀ op : StageOp U, Does Γ R view op.signal (next op)) (op : StageOp T) :
    Does Γ R (fun s : st.φ × ν => view s.2) op.signal (st.call depth next op) := by
  cases op with
  | tick => exact (hn .tick).down
  | flush => exact (hn .flush).down
  | close => exact (hn .close).down
  | abort => exact (hn .abort).down
  | process item =>
    refine Does.noted L emits_item fun s w hp => ?_
    have hall := Does.emitAll L (fun op => down (next op)) fun u =>
      (hn (.process u)).down (φ := st.φ)
    simp only [Act.wp_bind, wp_own, Act.wp_state, Act.next_ok]
    cases (st.react item s.1.1).1 with
    | items outs => exact hall outs ((_, s.1.2), s.2) w hp
    | fail e => exact (wp_inCtx _).2 (L.wp_handle_failure hp)
    | panic outs =>
      refine (Act.wp_bind ..).2 ?_
      refine Act.wp_mono (hall outs ((_, s.1.2), s.2) w hp) fun r s' w' h => ?_
      cases r with
      | ok n => exact ⟨L.crash h.1, h.2⟩
      | halt | panic => exact h

theorem RetryStage.attempt_does (L : R.Sound Γ) (st : RetryStage T U) (depth : Nat) (item : T)
    {ν : Type} {view : ν → τ} {next : StageOp U → Code X Y Halt (ν × Ctx) Nat}
    (hn : ∀ u, Does Γ R view none (next (.process u)))
    {retry : BoxError → Code X Y Halt (((st.φ × Jitter) × ν) × Ctx) Nat}
    (hr : ∀ e, Does Γ R (fun s : (st.φ × Jitter) × ν => view s.2) none (retry e)) :
    Does Γ R (fun s : (st.φ × Jitter) × ν => view s.2) none
      (st.attempt depth item next retry) := by
  refine Does.noted L emits_item fun s w hp => ?_
  simp only [Act.wp_bind, wp_own, Act.wp_state, Act.next_ok]
  rcases (st.f item s.1.1.1).1 with _ | ⟨e | out⟩
  · exact ⟨L.crash (L.refl hp), Ctx.Kept.refl _⟩
  · exact hr e ((_, s.1.2), s.2) w hp
  · exact (hn out).down ((_, s.1.2), s.2) w hp

theorem RetryStage.attempts_does (L : R.Sound Γ) (st : RetryStage T U) (depth : Nat) (item : T)
    {ν : Type} {view : ν → τ} {next : StageOp U → Code X Y Halt (ν × Ctx) Nat}
    (hn : ∀ u, Does Γ R view none (next (.process u))) (left attempt : Nat) :
    Does Γ R (fun s : (st.φ × Jitter) × ν => view s.2) none
      (st.attempts depth item next left attempt) := by
  induction left generalizing attempt with
  | zero =>
    exact st.attempt_does L depth item hn fun e s w hp =>
      (wp_inCtx _).2 (L.wp_handle_failure hp)
  | succ left ih =>
    refine st.attempt_does L depth item hn fun e s w hp => ?_
    simp only [Act.wp_bind, wp_own, Act.wp_state, Act.next_ok, wp_inCtx, wp_count, Act.wp_get]
    refine L.wp_emitEvent hp (fun w' hw hp' => ?_) fun w' hw =>
      ⟨L.crash hw, rfl, rfl, rfl, rfl, rfl⟩
    simp only [Act.next_ok, Act.wp_bind]
    refine L.wp_quiet (e := .sleep _) hp' trivial fun a w'' hw' hp'' => ?_
    have hw'' := L.seq0 hw hw'
    have hc : Ctx.Kept s.2 { s.2 with
        tally := { s.2.tally with retries := s.2.tally.retries + 1 } } :=
      ⟨rfl, rfl, rfl, rfl, rfl⟩
    rw [Act.next_ok]
    cases a with
    | true =>
      refine Act.wp_mono (ih (attempt + 1) _ w'' hp'') fun r s' w₃ h => ?_
      exact ⟨L.seq0 hw'' h.1, hc.trans h.2⟩
    | false =>
      refine (wp_inCtx _).2 (Act.wp_mono (L.wp_handle_failure hp'') fun r c' w₃ h => ?_)
      exact ⟨L.seq0 hw'' h.1, hc.trans h.2⟩

theorem RetryStage.call_does (L : R.Sound Γ) (st : RetryStage T U) (depth : Nat) {ν : Type}
    {view : ν → τ} {next : StageOp U → Code X Y Halt (ν × Ctx) Nat}
    (hn : ∀ op : StageOp U, Does Γ R view op.signal (next op)) (op : StageOp T) :
    Does Γ R (fun s : (st.φ × Jitter) × ν => view s.2) op.signal (st.call depth next op) := by
  cases op with
  | tick => exact (hn .tick).down
  | flush => exact (hn .flush).down
  | close => exact (hn .close).down
  | abort => exact (hn .abort).down
  | process item => exact st.attempts_does L depth item (fun u => hn (.process u)) _ _

/-- A stage method followed by the signal it was called for. -/
theorem Does.forward (L : R.Sound Γ) {σ : Type} {view : σ → τ} {k : Option Signal}
    (hk : Emits k) {x y : Code X Y Halt (σ × Ctx) Nat} (hx : Does Γ R view none x)
    (hy : Does Γ R view k y) :
    Does Γ R view k (do let emitted ← x; (emitted + ·) <$> y) := by
  intro s w hp
  refine (Act.wp_bind ..).2 (Act.wp_mono (hx s w (L.item hk hp)) fun r s' w' h => ?_)
  cases r with
  | halt | panic => exact ⟨L.lift hk h.1 (by simp), h.2⟩
  | ok n =>
    rw [Act.next_ok]
    refine (Act.wp_map ..).2 (Act.wp_mono (L.after hk hy hp h.1 h.2) fun r s'' w'' h' => ?_)
    cases r <;> exact h'

theorem Stage.call_does (L : R.Sound Γ) (st : Stage T U) (policy : ErrorPolicy) (id : StageId)
    (depth : Nat) {ν : Type} {view : ν → τ} {next : StageOp U → Code X Y Halt (ν × Ctx) Nat}
    (hn : ∀ op : StageOp U, Does Γ R view op.signal (next op)) (op : StageOp T) :
    Does Γ R (fun s : st.φ × ν => view s.2) op.signal (st.call policy id depth next op) := by
  have hdrive : ∀ script : Script U st.φ, Does Γ R (fun s : st.φ × ν => view s.2) none
      (drive policy id next script none 0) := by
    intro script
    exact Does.drive L (fun u => hn (.process u)) script
  cases op with
  | close => exact (hn .close).down
  | abort => exact (hn .abort).down
  | process item =>
    exact Does.noted L emits_item fun s w hp => hdrive (st.process item s.1.1) s w hp
  | tick =>
    refine Does.noted L emits_tick fun s w hp => ?_
    exact Does.forward L emits_tick (hdrive (st.tick s.1.1)) (hn .tick).down s w hp
  | flush =>
    refine Does.noted L emits_flush fun s w hp => ?_
    exact Does.forward L emits_flush (hdrive (st.flush s.1.1)) (hn .flush).down s w hp

theorem Node.link_obeys (L : R.Sound Γ) (node : Node T U) (depth : Nat) {next : StageFn X Y U}
    {view : next.σ → τ} (hn : next.Obeys Γ R view) :
    (node.link depth next).Obeys Γ R fun s => view s.2 := by
  cases node with
  | item st => exact st.call_does L depth hn
  | retry st => exact st.call_does L depth hn
  | stage st policy id => exact st.call_does L policy id depth hn

end Stage

/-- The state of the tail inside the state of the chain. -/
def Stages.tailState : (st : Stages T U) → {tail : StageFn X Y U} → (st.assemble tail).σ → tail.σ
  | .nil, _, s => s
  | .cons _ rest, _, s => rest.tailState s.2

theorem Stages.tailState_init (st : Stages T U) (tail : StageFn X Y U) :
    st.tailState (st.assemble tail).init = tail.init := by
  induction st with
  | nil => rfl
  | cons node rest ih => exact ih tail

/-- A chain keeps every lawful contract its tail keeps. -/
theorem Stages.assemble_obeys {R : Rules τ W} {Γ : Spec (Eff X Y) Ans W} (L : R.Sound Γ)
    (st : Stages T U) {tail : StageFn X Y U} {view : tail.σ → τ} (ht : tail.Obeys Γ R view) :
    (st.assemble tail).Obeys Γ R fun s => view (st.tailState s) := by
  induction st with
  | nil => exact ht
  | cons node rest ih => exact node.link_obeys L rest.length (ih ht)

end PipeIo
