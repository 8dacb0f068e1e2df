import PipeIo.Lib.Prog

namespace PipeIo.Lib
set_option autoImplicit true

/-- How a call ends: it returns a value, it returns the error that `?` hands on, or it
unwinds. -/
inductive Res (H α : Type) where
  | ok (a : α)
  | halt (h : H)
  | panic
  deriving DecidableEq, Repr

namespace Res

def attempted : Res H α → Res H' (Except H α)
  | .ok a => .ok (.ok a)
  | .halt h => .ok (.error h)
  | .panic => .panic

def contained : Res H α → Res H (Option α)
  | .ok a => .ok (some a)
  | .halt h => .halt h
  | .panic => .ok none

def mapHalt (f : H → H') : Res H α → Res H' α
  | .ok a => .ok a
  | .halt h => .halt (f h)
  | .panic => .panic

/-- The result without its value. -/
def void : Res H α → Res H Unit
  | .ok _ => .ok ()
  | .halt h => .halt h
  | .panic => .panic

@[simp] theorem attempted_ok (a : α) : (ok a : Res H α).attempted = (ok (.ok a) : Res H' _) := rfl

@[simp] theorem attempted_halt (h : H) :
    (halt h : Res H α).attempted = (ok (.error h) : Res H' _) := rfl

@[simp] theorem attempted_panic : (panic : Res H α).attempted = (panic : Res H' _) := rfl

@[simp] theorem contained_ok (a : α) : (ok a : Res H α).contained = ok (some a) := rfl

@[simp] theorem contained_halt (h : H) : (halt h : Res H α).contained = halt h := rfl

@[simp] theorem contained_panic : (panic : Res H α).contained = ok none := rfl

@[simp] theorem mapHalt_ok (f : H → H') (a : α) : (ok a : Res H α).mapHalt f = ok a := rfl

@[simp] theorem mapHalt_halt (f : H → H') (h : H) :
    (halt h : Res H α).mapHalt f = halt (f h) := rfl

@[simp] theorem mapHalt_panic (f : H → H') : (panic : Res H α).mapHalt f = panic := rfl

end Res

/-- A computation over a state of type `σ`; the state survives however the call ends. -/
def Act (E : Type u) (A : E → Type) (H σ α : Type) : Type u :=
  σ → Prog E A (Res H α × σ)

namespace Act

variable {E : Type u} {A : E → Type} {H H' σ τ α β : Type} {W : Type w}

def bind (x : Act E A H σ α) (f : α → Act E A H σ β) : Act E A H σ β := fun s =>
  x s >>= fun
    | (.ok a, s') => f a s'
    | (.halt h, s') => .ret (.halt h, s')
    | (.panic, s') => .ret (.panic, s')

instance : Monad (Act E A H σ) where
  pure a := fun s => .ret (.ok a, s)
  bind := bind

instance : LawfulMonad (Act E A H σ) := LawfulMonad.mk' (Act E A H σ)
  (fun x => by
    funext s
    refine Eq.trans (congrArg (Prog.bind (x s)) (funext ?_)) (Prog.bind_pure _)
    rintro ⟨_ | _ | _, _⟩ <;> rfl)
  (fun _ _ => rfl)
  (fun x f g => by
    funext s
    refine (Prog.bind_assoc (x s) _ _).trans (congrArg (Prog.bind (x s)) (funext ?_))
    rintro ⟨_ | _ | _, _⟩ <;> rfl)

/-- Make a request to the outside. -/
def perform (e : E) : Act E A H σ (A e) := fun s => .vis e fun a => .ret (.ok a, s)

def get : Act E A H σ σ := fun s => .ret (.ok s, s)

def modify (f : σ → σ) : Act E A H σ Unit := fun s => .ret (.ok (), f s)

def state (f : σ → α × σ) : Act E A H σ α := fun s => .ret (.ok (f s).1, (f s).2)

/-- Return early with an error. -/
def halt (h : H) : Act E A H σ α := fun s => .ret (.halt h, s)

def panic : Act E A H σ α := fun s => .ret (.panic, s)

/-- The result as a value, as when `?` is not used. -/
def attempt (x : Act E A H σ α) : Act E A H' σ (Except H α) := fun s =>
  x s >>= fun (r, s') => .ret (r.attempted, s')

/-- `catch_unwind`. -/
def contain (x : Act E A H σ α) : Act E A H σ (Option α) := fun s =>
  x s >>= fun (r, s') => .ret (r.contained, s')

/-- Convert the error, as `?` does. -/
def mapHalt (f : H → H') (x : Act E A H σ α) : Act E A H' σ α := fun s =>
  x s >>= fun (r, s') => .ret (r.mapHalt f, s')

/-- Run on a part of the state. -/
def zoom (get : σ → τ) (set : τ → σ → σ) (x : Act E A H τ α) : Act E A H σ α := fun s =>
  x (get s) >>= fun (r, t) => .ret (r, set t s)

/-- Run with a local value; `drop` runs on what is left of it however `x` ends. -/
def withLocal (init : τ) (x : Act E A H τ α) (drop : Act E A H τ Unit) : Act E A H σ α := fun s =>
  x init >>= fun (r, t) => drop t >>= fun _ => .ret (r, s)

/-- Repeat until there is a result, at most `fuel` times. -/
def repeatUntil (x : Act E A H σ (Option α)) : (fuel : Nat) → Act E A H σ (Option α)
  | 0 => pure none
  | fuel + 1 => do
    match ← x with
    | some a => pure (some a)
    | none => repeatUntil x fuel

/-- Running a sequence whose first half returns. -/
theorem exec_bind_ok {x : Act E A H σ α} {f : α → Act E A H σ β} {S : Type v}
    {h : (e : E) → S → A e × S} {s s' : σ} {S₀ S₁ : S} {a : α}
    (hx : Prog.exec h (x s) S₀ = ((.ok a, s'), S₁)) :
    Prog.exec h ((x >>= f) s) S₀ = Prog.exec h (f a s') S₁ := by
  refine (Prog.exec_bind h (x s) _ S₀).trans ?_
  rw [hx]

/-- Running a sequence whose first half unwinds. -/
theorem exec_bind_panic {x : Act E A H σ α} {f : α → Act E A H σ β} {S : Type v}
    {h : (e : E) → S → A e × S} {s s' : σ} {S₀ S₁ : S}
    (hx : Prog.exec h (x s) S₀ = ((.panic, s'), S₁)) :
    Prog.exec h ((x >>= f) s) S₀ = ((.panic, s'), S₁) := by
  refine (Prog.exec_bind h (x s) _ S₀).trans ?_
  rw [hx]
  rfl

/-- Weakest precondition of a computation. -/
def wp (Γ : Spec E A W) (x : Act E A H σ α) (Q : Res H α → σ → W → Prop) (s : σ) (w : W) : Prop :=
  (x s).wp Γ (fun r w => Q r.1 r.2 w) w

/-- The postcondition of the first half of a sequence. -/
def next (k : α → σ → W → Prop) (Q : Res H β → σ → W → Prop) : Res H α → σ → W → Prop
  | .ok a => k a
  | .halt h => Q (.halt h)
  | .panic => Q .panic

@[simp] theorem next_ok (k : α → σ → W → Prop) (Q : Res H β → σ → W → Prop) (a : α) :
    next k Q (.ok a) = k a := rfl

@[simp] theorem next_halt (k : α → σ → W → Prop) (Q : Res H β → σ → W → Prop) (h : H) :
    next k Q (.halt h) = Q (.halt h) := rfl

@[simp] theorem next_panic (k : α → σ → W → Prop) (Q : Res H β → σ → W → Prop) :
    next k Q .panic = Q .panic := rfl

variable {Γ : Spec E A W} {Q Q' : Res H α → σ → W → Prop} {s : σ} {w : W}

theorem wp_mono {x : Act E A H σ α} (h : wp Γ x Q s w) (hQ : ∀ r s w, Q r s w → Q' r s w) :
    wp Γ x Q' s w :=
  Prog.wp_mono h fun r w => hQ r.1 r.2 w

theorem wp_and {x : Act E A H σ α} (h : wp Γ x Q s w) (h' : wp Γ x Q' s w) :
    wp Γ x (fun r s w => Q r s w ∧ Q' r s w) s w :=
  Prog.wp_and h h'

theorem wp_keep {J : W → Prop} (hpost : ∀ e w a w', J w → Γ.post e w a w' → J w')
    {x : Act E A H σ α} (h : wp Γ x Q s w) (hJ : J w) :
    wp Γ x (fun r s' w' => Q r s' w' ∧ J w') s w :=
  Prog.wp_keep hpost h hJ

theorem wp_invariant {I : W → Prop} (hpre : ∀ e w, I w → Γ.pre e w)
    (hpost : ∀ e w a w', I w → Γ.post e w a w' → I w') {x : Act E A H σ α} (h : I w) :
    wp Γ x (fun _ _ w' => I w') s w :=
  Prog.wp_invariant hpre hpost h

@[simp] theorem wp_pure (a : α) : wp Γ (pure a) Q s w ↔ Q (.ok a) s w := Iff.rfl

@[simp] theorem wp_bind (x : Act E A H σ β) (f : β → Act E A H σ α) :
    wp Γ (x >>= f) Q s w ↔ wp Γ x (next (fun b => wp Γ (f b) Q) Q) s w := by
  refine (Prog.wp_bind ..).trans ⟨fun h => ?_, fun h => ?_⟩ <;>
    refine Prog.wp_mono h ?_ <;> rintro ⟨r, s'⟩ w' hr <;> cases r <;> exact hr

@[simp] theorem wp_map (f : β → α) (x : Act E A H σ β) :
    wp Γ (f <$> x) Q s w ↔ wp Γ x (next (fun b => Q (.ok (f b))) Q) s w :=
  wp_bind x fun b => pure (f b)

@[simp] theorem wp_perform (e : E) {Q : Res H (A e) → σ → W → Prop} :
    wp Γ (perform e) Q s w ↔ Γ.pre e w ∧ ∀ a w', Γ.post e w a w' → Q (.ok a) s w' := Iff.rfl

@[simp] theorem wp_get {Q : Res H σ → σ → W → Prop} : wp Γ get Q s w ↔ Q (.ok s) s w := Iff.rfl

@[simp] theorem wp_modify (f : σ → σ) {Q : Res H Unit → σ → W → Prop} :
    wp Γ (modify f) Q s w ↔ Q (.ok ()) (f s) w := Iff.rfl

@[simp] theorem wp_state (f : σ → α × σ) :
    wp Γ (state f) Q s w ↔ Q (.ok (f s).1) (f s).2 w := Iff.rfl

@[simp] theorem wp_halt (h : H) : wp Γ (halt h) Q s w ↔ Q (.halt h) s w := Iff.rfl

@[simp] theorem wp_panic : wp Γ panic Q s w ↔ Q .panic s w := Iff.rfl

@[simp] theorem wp_attempt (x : Act E A H σ α) {Q : Res H' (Except H α) → σ → W → Prop} :
    wp Γ (attempt x) Q s w ↔ wp Γ x (fun r => Q r.attempted) s w :=
  Prog.wp_bind ..

@[simp] theorem wp_contain (x : Act E A H σ α) {Q : Res H (Option α) → σ → W → Prop} :
    wp Γ (contain x) Q s w ↔ wp Γ x (fun r => Q r.contained) s w :=
  Prog.wp_bind ..

@[simp] theorem wp_mapHalt (f : H → H') (x : Act E A H σ α) {Q : Res H' α → σ → W → Prop} :
    wp Γ (mapHalt f x) Q s w ↔ wp Γ x (fun r => Q (r.mapHalt f)) s w :=
  Prog.wp_bind ..

@[simp] theorem wp_zoom (get : σ → τ) (set : τ → σ → σ) (x : Act E A H τ α) :
    wp Γ (zoom get set x) Q s w ↔ wp Γ x (fun r t => Q r (set t s)) (get s) w :=
  Prog.wp_bind ..

@[simp] theorem wp_withLocal (init : τ) (x : Act E A H τ α) (drop : Act E A H τ Unit) :
    wp Γ (withLocal init x drop) Q s w ↔
      wp Γ x (fun r t => wp Γ drop (fun _ _ => Q r s) t) init w := by
  refine (Prog.wp_bind ..).trans ⟨fun h => ?_, fun h => ?_⟩ <;>
    refine Prog.wp_mono h ?_ <;> rintro ⟨r, t⟩ w' hr
  · exact (Prog.wp_bind ..).1 hr
  · exact (Prog.wp_bind ..).2 hr

/-- The rule for loops: `I` is the invariant. -/
theorem wp_repeatUntil {x : Act E A H σ (Option α)} {I : σ → W → Prop}
    {Q : Res H (Option α) → σ → W → Prop} (hx : ∀ s w, I s w →
      wp Γ x (next (fun a s w => match a with
        | none => I s w
        | some a => Q (.ok (some a)) s w) Q) s w)
    (hfuel : ∀ s w, I s w → Q (.ok none) s w) (fuel : Nat) {s : σ} {w : W} (h : I s w) :
    wp Γ (repeatUntil x fuel) Q s w := by
  induction fuel generalizing s w with
  | zero => exact hfuel s w h
  | succ fuel ih =>
    refine (wp_bind ..).2 (wp_mono (hx s w h) fun r s' w' hr => ?_)
    cases r with
    | halt | panic => exact hr
    | ok a =>
      cases a with
      | none => exact ih hr
      | some a => exact hr

/-- The computation keeps `I`, whatever it does and however it ends; an error it returns early
with satisfies `B`. -/
def Preserves (Γ : Spec E A W) (I : σ → W → Prop) (B : H → Prop) (x : Act E A H σ α) : Prop :=
  ∀ s w, I s w → wp Γ x (fun r s' w' => I s' w' ∧ ∀ h, r = .halt h → B h) s w

section Preserves

variable {I : σ → W → Prop} {J : τ → W → Prop} {B : H → Prop} {B' : H' → Prop}

theorem Preserves.pure (a : α) : Preserves Γ I B (pure a) := fun _ _ hI => ⟨hI, nofun⟩

theorem Preserves.get : Preserves Γ I B get := fun _ _ hI => ⟨hI, nofun⟩

theorem Preserves.halt {h : H} (hB : B h) : Preserves Γ I B (halt h : Act E A H σ α) := by
  refine fun _ _ hI => ⟨hI, ?_⟩
  rintro _ ⟨⟩
  exact hB

theorem Preserves.panic : Preserves Γ I B (panic : Act E A H σ α) := fun _ _ hI => ⟨hI, nofun⟩

theorem Preserves.modify {f : σ → σ} (hf : ∀ s w, I s w → I (f s) w) :
    Preserves Γ I B (modify f) := fun s w hI => ⟨hf s w hI, nofun⟩

theorem Preserves.perform {e : E}
    (he : ∀ s w, I s w → Γ.pre e w ∧ ∀ a w', Γ.post e w a w' → I s w') :
    Preserves Γ I B (perform e) := fun s w hI =>
  ⟨(he s w hI).1, fun a w' ha => ⟨(he s w hI).2 a w' ha, nofun⟩⟩

theorem Preserves.bind {x : Act E A H σ α} {f : α → Act E A H σ β} (hx : Preserves Γ I B x)
    (hf : ∀ a, Preserves Γ I B (f a)) : Preserves Γ I B (x >>= f) := by
  intro s w hI
  refine (wp_bind ..).2 (wp_mono (hx s w hI) fun r s' w' h => ?_)
  cases r with
  | ok a => exact hf a s' w' h.1
  | halt e =>
    refine ⟨h.1, ?_⟩
    rintro _ ⟨⟩
    exact h.2 e rfl
  | panic => exact ⟨h.1, nofun⟩

theorem Preserves.attempt {x : Act E A H σ α} (hx : Preserves Γ I B x) :
    Preserves Γ I B' (attempt x) := by
  refine fun s w hI => (wp_attempt x).2 (wp_mono (hx s w hI) fun r s' w' h => ⟨h.1, ?_⟩)
  cases r <;> nofun

theorem Preserves.contain {x : Act E A H σ α} (hx : Preserves Γ I B x) :
    Preserves Γ I B (contain x) := by
  refine fun s w hI => (wp_contain x).2 (wp_mono (hx s w hI) fun r s' w' h => ⟨h.1, ?_⟩)
  cases r with
  | ok a => nofun
  | panic => nofun
  | halt e =>
    rintro _ ⟨⟩
    exact h.2 e rfl

theorem Preserves.zoom {get : σ → τ} {set : τ → σ → σ} {x : Act E A H τ α}
    (hget : ∀ s w, I s w → J (get s) w) (hset : ∀ s t w w', I s w → J t w' → I (set t s) w')
    (hx : Preserves Γ J B x) : Preserves Γ I B (zoom get set x) := fun s w hI =>
  (wp_zoom ..).2 (wp_mono (hx (get s) w (hget s w hI)) fun _ t w' h =>
    ⟨hset s t w w' hI h.1, h.2⟩)

/-- Code on a part of the state that `I` does not depend on. -/
theorem Preserves.frame {get : σ → τ} {set : τ → σ → σ} {x : Act E A H τ α}
    (hset : ∀ s t w, I s w → I (set t s) w)
    (hx : ∀ K : W → Prop, Preserves Γ (fun _ => K) B x) : Preserves Γ I B (Act.zoom get set x) := by
  intro s w hI
  refine (wp_zoom ..).2 (wp_mono (hx (fun w' => I s w') (get s) w hI) fun _ t w' h => ?_)
  exact ⟨hset s t w' h.1, h.2⟩

theorem Preserves.state {f : σ → α × σ} (hf : ∀ s w, I s w → I (f s).2 w) :
    Preserves Γ I B (state f) := fun s w hI => ⟨hf s w hI, nofun⟩

theorem Preserves.map {x : Act E A H σ α} (f : α → β) (hx : Preserves Γ I B x) :
    Preserves Γ I B (f <$> x) :=
  hx.bind fun a => Preserves.pure (f a)

theorem Preserves.mapHalt {f : H → H'} {x : Act E A H σ α} (hx : Preserves Γ I B x)
    (hf : ∀ h, B h → B' (f h)) : Preserves Γ I B' (mapHalt f x) := by
  refine fun s w hI => (wp_mapHalt f x).2 (wp_mono (hx s w hI) fun r s' w' h => ⟨h.1, ?_⟩)
  cases r with
  | ok a => nofun
  | panic => nofun
  | halt e =>
    rintro _ ⟨⟩
    exact hf e (h.2 e rfl)

theorem Preserves.repeatUntil {x : Act E A H σ (Option α)} (hx : Preserves Γ I B x) (fuel : Nat) :
    Preserves Γ I B (repeatUntil x fuel) := by
  induction fuel with
  | zero => exact Preserves.pure none
  | succ fuel ih =>
    refine hx.bind fun a => ?_
    cases a with
    | none => exact ih
    | some a => exact Preserves.pure (some a)

/-- Code that returns no error early. -/
theorem Preserves.wp {x : Act E A H σ α} (hx : Preserves Γ I (fun _ => False) x) (hI : I s w)
    (hok : ∀ a s' w', I s' w' → Q (.ok a) s' w') (hpanic : ∀ s' w', I s' w' → Q .panic s' w') :
    wp Γ x Q s w := by
  refine wp_mono (hx s w hI) fun r s' w' h => ?_
  cases r with
  | ok a => exact hok a s' w' h.1
  | halt e => exact (h.2 e rfl).elim
  | panic => exact hpanic s' w' h.1

/-- Caught code that returns no error early. -/
theorem Preserves.wp_caught {x : Act E A H σ α} {Q : Res H (Option α) → σ → W → Prop}
    (hx : Preserves Γ I (fun _ => False) x) (hI : I s w)
    (hok : ∀ a s' w', I s' w' → Q (.ok a) s' w') : Act.wp Γ (Act.contain x) Q s w :=
  (Act.wp_contain x).2 (hx.wp hI (fun a => hok (some a)) (hok none))

end Preserves

end Act

end PipeIo.Lib
