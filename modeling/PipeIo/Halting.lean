import PipeIo.Course

namespace PipeIo
set_option autoImplicit true

open Lib

/-- The error of a failure that ends the run: a failed `sink.write`, a stage that failed under
`FailFast`, or a failed dead-letter write. -/
def halting (id : StageId) : (e : Eff X Y) → Ans e → Option Error
  | .write _, some (.error e) => some (.sink id e)
  | .deadLetter (.write _), some (.error e) => some (Dlq.fail e)
  | .note (.failed stage e), _ => some (.stage stage e)
  | _, _ => none

/-- What moves a run on: the source is pulled, an operation other than `Abort` enters the
chain, user code of a stage is entered, the sink is written to. -/
def Eff.onward : Eff X Y → Bool
  | .pull | .pullTimeout _ | .write _ | .note (.stage ..) => true
  | .note (.call op) => op != some .abort
  | _ => false

/-- The error that ended a run, if it has ended by failing. -/
def Log.halted (id : StageId) (log : Log X Y) : Option Error :=
  log.findSome? fun a => halting id a.1 a.2

/-- Nothing moved the run on after it failed. -/
def Log.Stopped (id : StageId) (log : Log X Y) : Prop :=
  log.Pairwise fun a b => halting id a.1 a.2 ≠ none → b.1.onward = false

instance (id : StageId) (log : Log X Y) : Decidable (log.Stopped id) :=
  inferInstanceAs (Decidable (List.Pairwise _ log))

/-- The error that ended the run is kept, and nothing moves on after it. -/
def halts (id : StageId) : Spec (Eff X Y) Ans (Option Error) where
  pre e w := e.onward = true → w = none
  post e w a w' := w' = w.or (halting id e a)

theorem Oracle.keeps_halts (id : StageId) (o : Oracle X Y) :
    Prog.Keeps (halts id) (fun log w => w = Log.halted id log ∧ Log.Stopped id log) o.handler := by
  rintro e log w ⟨rfl, hstop⟩ hpre
  refine ⟨_, rfl, ?_, ?_⟩
  · simp only [Log.halted, Oracle.handler, List.findSome?_append]
    cases h : halting id e (o log e) <;> simp [h]
  · refine List.pairwise_append.2 ⟨hstop, List.pairwise_singleton _ _, fun a ha b hb hne => ?_⟩
    obtain rfl := List.mem_singleton.1 hb
    by_contra hon
    have hnone : Log.halted id log = none := hpre (by simpa using hon)
    exact hne (List.findSome?_eq_none_iff.1 hnone a ha)

variable {id : StageId}

/-- A halt is what the call reports, unless it unwinds. -/
def Tells (r : Res Halt α) (w : Option Error) : Prop :=
  ∀ e, w = some e → r = .halt (.failed e) ∨ r = .panic

theorem tells_none (r : Res Halt α) : Tells r none := nofun

theorem tells_panic (w : Option Error) : Tells (.panic : Res Halt α) w := fun _ _ => .inr rfl

theorem tells_failed (e : Error) : Tells (.halt (.failed e) : Res Halt α) (some e) := by
  rintro _ ⟨⟩
  exact .inl rfl

theorem Tells.eq_none {a : α} {w : Option Error} (h : Tells (.ok a) w) : w = none := by
  cases w with
  | none => rfl
  | some e => rcases h e rfl with he | he <;> cases he

theorem Tells.halt_eq {halt : Halt} {w : Option Error} (h : Tells (.halt halt : Res Halt α) w)
    (hw : w = some e) : halt = .failed e := by
  rcases h e hw with he | he <;> cases he
  rfl

/-- Operations that let stages emit start before the run has failed; the others change
nothing. -/
def haltRules : Rules Unit (Option Error) where
  pre k _ w := k ≠ some .abort → w = none
  post k r _ w _ w' := match k with
    | none | some .tick | some .flush => w = none ∧ Tells r w'
    | some .close | some .abort => w' = w

theorem haltRules_emits {k : Option Signal} (hk : Emits k) {r : Res Halt Nat}
    {t t' : Unit} {w w' : Option Error} :
    haltRules.post k r t w t' w' ↔ w = none ∧ Tells r w' := by
  rcases k with _ | _ | _ | _ | _
  · exact Iff.rfl
  · exact Iff.rfl
  · exact Iff.rfl
  · exact hk.elim
  · exact hk.elim

theorem Emits.ne_abort {k : Option Signal} (hk : Emits k) : k ≠ some .abort := by
  rintro rfl
  exact hk

theorem haltRules_sound : haltRules.Sound (halts (X := X) (Y := Y) id) where
  quiet := by
    rintro t w e hp he
    obtain rfl : w = none := hp nofun
    refine ⟨fun _ => rfl, fun a w' ha => ⟨rfl, ?_⟩⟩
    obtain rfl : w' = halting id e a := ha
    cases e with
    | observe | sleep => exact tells_none _
    | note n =>
      cases n with
      | stage => exact tells_none _
      | call | halted | failed => exact he.elim
    | _ => exact he.elim
  letter := by
    rintro t w f hp
    obtain rfl : w = none := hp nofun
    refine ⟨fun _ => rfl, fun a w' ha => ⟨rfl, ?_⟩⟩
    obtain rfl : w' = halting id (.deadLetter (.write f)) a := ha
    rcases a with _ | ⟨e | ⟨⟨⟩⟩⟩
    · exact tells_none _
    · exact tells_failed _
    · exact tells_none _
  failed := by
    rintro t w stage e hp
    obtain rfl : w = none := hp nofun
    refine ⟨fun _ => rfl, ?_⟩
    rintro _ rfl
    refine ⟨⟨rfl, tells_failed _⟩, fun event => ⟨nofun, ?_⟩⟩
    rintro a _ rfl
    exact ⟨rfl, tells_failed _⟩
  refl := fun h => ⟨h nofun, h nofun ▸ tells_none _⟩
  item := fun hk h _ => h hk.ne_abort
  keep := fun hk h h' _ => h'.2.eq_none
  seq := by
    rintro k t w n t' w' r t'' w'' hk ⟨rfl, hok⟩ h
    rw [haltRules_emits hk] at h ⊢
    refine ⟨rfl, fun e he => ?_⟩
    rcases h.2 e he with rfl | rfl
    · exact .inl rfl
    · exact .inr rfl
  crash := fun h => ⟨h.1, tells_panic _⟩
  lift := fun hk h _ => (haltRules_emits hk).2 h

section Tail

variable {X Y H σ : Type} {w : Option Error}

/-- Requests that neither move a run on nor end it. -/
def Eff.Idle (id : StageId) (e : Eff X Y) : Prop := e.onward = false ∧ ∀ a, halting id e a = none

/-- They change nothing. -/
theorem preserves_idle {I : σ → Option Error → Prop} {B : H → Prop} {e : Eff X Y}
    (he : e.Idle id) : Act.Preserves (halts id) I B (request e) := by
  refine Act.Preserves.perform fun s w hI => ⟨fun h => absurd h (by simp [he.1]), ?_⟩
  rintro a _ rfl
  rwa [he.2, Option.or_none]

theorem preserves_outcome {Γ : Spec (Eff X Y) Ans W} {I : σ → W → Prop} {B : H → Prop} {α : Type}
    (a : Option α) : Act.Preserves Γ I B (outcome a) := by
  cases a with
  | none => exact Act.Preserves.panic
  | some a => exact Act.Preserves.pure a

theorem preserves_emitEvent {I : σ → Option Error → Prop} {B : H → Prop} (active : Bool)
    (event : Event) : Act.Preserves (halts (X := X) (Y := Y) id) I B (emitEvent active event) := by
  cases active with
  | false => exact Act.Preserves.pure ()
  | true =>
    have hidle : (Eff.observe event : Eff X Y).Idle id := ⟨rfl, fun _ => rfl⟩
    exact Act.Preserves.bind (preserves_idle hidle) fun a => preserves_outcome a

/-- The flags of the sink may change. -/
def Flagless (I : SinkFlags × Ctx → Option Error → Prop) : Prop :=
  ∀ t t' ctx w, I (t, ctx) w → I (t', ctx) w

theorem preserves_sinkCall {I : σ → Option Error → Prop} {name : StageId}
    (a : Option (Except BoxError Unit)) :
    Act.Preserves (halts (X := X) (Y := Y) id) I (fun _ => True) (sinkCall name a) := by
  refine Act.Preserves.bind (preserves_outcome a) fun r => ?_
  rcases r with e | ⟨⟨⟩⟩
  · exact Act.Preserves.halt trivial
  · exact Act.Preserves.pure ()

theorem preserves_flushOnce {I : SinkFlags × Ctx → Option Error → Prop} (hI : Flagless I)
    {name : StageId} :
    Act.Preserves (halts (X := X) (Y := Y) id) I (fun _ => True) (flushOnce name) := by
  refine Act.Preserves.bind Act.Preserves.get fun s => ?_
  split
  · exact Act.Preserves.pure ()
  · refine Act.Preserves.bind (Act.Preserves.modify fun s w => hI _ _ _ _) fun _ => ?_
    exact Act.Preserves.bind (preserves_idle ⟨rfl, fun _ => rfl⟩) preserves_sinkCall

theorem preserves_closeOnce {I : SinkFlags × Ctx → Option Error → Prop} (hI : Flagless I)
    {name : StageId} :
    Act.Preserves (halts (X := X) (Y := Y) id) I (fun _ => True) (closeOnce name) := by
  refine Act.Preserves.bind Act.Preserves.get fun s => ?_
  split
  · exact Act.Preserves.pure ()
  · refine Act.Preserves.bind (Act.Preserves.modify fun s w => hI _ _ _ _) fun _ => ?_
    exact Act.Preserves.bind (preserves_idle ⟨rfl, fun _ => rfl⟩) preserves_sinkCall

theorem preserves_sink_abort {I : SinkFlags × Ctx → Option Error → Prop} (hI : Flagless I)
    {name : StageId} :
    Act.Preserves (halts id) I (fun _ => True) ((sink_fn (X := X) (Y := Y) name).call .abort) := by
  refine Act.Preserves.bind (.attempt (preserves_flushOnce hI)) fun flush_result => ?_
  refine Act.Preserves.bind (.attempt (preserves_closeOnce hI)) fun close_result => ?_
  rcases flush_result with first | ⟨⟨⟩⟩
  · rcases close_result with (second | _) | ⟨⟨⟩⟩
    · refine Act.Preserves.bind Act.Preserves.get fun s => ?_
      exact Act.Preserves.bind (preserves_emitEvent _ _) fun _ => Act.Preserves.halt trivial
    · exact Act.Preserves.halt trivial
    · exact Act.Preserves.halt trivial
  · rcases close_result with e | ⟨⟨⟩⟩
    · exact Act.Preserves.halt trivial
    · exact Act.Preserves.pure 0

/-- The tail of the chain fails only where it writes. -/
theorem sink_fn_halts : (sink_fn (X := X) (Y := Y) id).Obeys (halts id) haltRules fun _ => () := by
  rintro op ⟨t, ctx⟩ w hp
  have hflags : Flagless fun s w' => w' = w ∧ Ctx.Kept ctx s.2 := fun _ _ _ _ h => h
  have hstart : w = w ∧ Ctx.Kept ctx ctx := ⟨rfl, .refl ctx⟩
  cases op with
  | process item =>
    obtain rfl : w = none := hp (by simp [StageOp.signal])
    simp only [sink_fn, Act.wp_bind, Act.wp_perform, Act.next_ok, wp_sinkCall]
    refine ⟨fun _ => rfl, ?_⟩
    rintro a _ rfl
    rcases a with _ | ⟨e | ⟨⟨⟩⟩⟩
    · exact ⟨⟨rfl, tells_panic _⟩, .refl ctx⟩
    · exact ⟨⟨rfl, tells_failed _⟩, .refl ctx⟩
    · exact ⟨⟨rfl, tells_none _⟩, .refl ctx⟩
  | tick =>
    obtain rfl : w = none := hp (by simp [StageOp.signal])
    exact ⟨⟨rfl, tells_none _⟩, .refl ctx⟩
  | flush =>
    obtain rfl : w = none := hp (by simp [StageOp.signal])
    have hpres : Act.Preserves (halts id) _ (fun _ => True) ((sink_fn (X := X) (Y := Y) id).call .flush) :=
      Act.Preserves.bind (preserves_flushOnce hflags) fun _ => Act.Preserves.pure 0
    refine Act.wp_mono (hpres (t, ctx) none hstart) ?_
    rintro r s _ ⟨⟨rfl, hk⟩, -⟩
    exact ⟨⟨rfl, tells_none _⟩, hk⟩
  | close =>
    have hpres : Act.Preserves (halts id) _ (fun _ => True) ((sink_fn (X := X) (Y := Y) id).call .close) :=
      Act.Preserves.bind (preserves_closeOnce hflags) fun _ => Act.Preserves.pure 0
    exact Act.wp_mono (hpres (t, ctx) w hstart) fun _ _ _ h => h.1
  | abort =>
    exact Act.wp_mono (preserves_sink_abort hflags (t, ctx) w hstart) fun _ _ _ h => h.1

end Tail

end PipeIo
