import PipeIo.Lib.Act

namespace PipeIo.Lib
set_option autoImplicit true

namespace Act

variable {E : Type u} {A : E → Type} {H H' σ τ α β : Type} {W : Type w} {Γ : Spec E A W}
  {P P' : σ → W → Prop} {Q Q' : α → σ → W → Prop} {B B' : H → σ → W → Prop}
  {U U' : σ → W → Prop}

/-- A postcondition for each way to end. -/
def ends (Q : α → σ → W → Prop) (B : H → σ → W → Prop) (U : σ → W → Prop) :
    Res H α → σ → W → Prop
  | .ok a => Q a
  | .halt h => B h
  | .panic => U

/-- From `P` on, the code returns with `Q`, returns early with `B` or unwinds with `U`. -/
def Triple (Γ : Spec E A W) (P : σ → W → Prop) (x : Act E A H σ α) (Q : α → σ → W → Prop)
    (B : H → σ → W → Prop) (U : σ → W → Prop) : Prop :=
  ∀ s w, P s w → wp Γ x (ends Q B U) s w

/-- No early return. -/
def never : H → σ → W → Prop := fun _ _ _ => False

namespace Triple

theorem conseq {x : Act E A H σ α} (h : Triple Γ P x Q B U) (hP : ∀ s w, P' s w → P s w)
    (hQ : ∀ a s w, Q a s w → Q' a s w) (hB : ∀ e s w, B e s w → B' e s w)
    (hU : ∀ s w, U s w → U' s w) : Triple Γ P' x Q' B' U' := by
  intro s w hs
  refine wp_mono (h s w (hP s w hs)) fun r s' w' hr => ?_
  cases r with
  | ok a => exact hQ a s' w' hr
  | halt e => exact hB e s' w' hr
  | panic => exact hU s' w' hr

/-- A stronger precondition. -/
theorem given {x : Act E A H σ α} (h : Triple Γ P x Q B U) (hP : ∀ s w, P' s w → P s w) :
    Triple Γ P' x Q B U := fun s w hs => h s w (hP s w hs)

theorem pure {a : α} (h : ∀ s w, P s w → Q a s w) : Triple Γ P (Pure.pure a) Q B U := h

theorem modify {Q : Unit → σ → W → Prop} {f : σ → σ} (h : ∀ s w, P s w → Q () (f s) w) :
    Triple Γ P (modify f) Q B U := h

/-- The sequencing rule. -/
theorem bind {R : β → σ → W → Prop} {x : Act E A H σ β} {f : β → Act E A H σ α}
    (hx : Triple Γ P x R B U) (hf : ∀ b, Triple Γ (R b) (f b) Q B U) :
    Triple Γ P (x >>= f) Q B U := by
  intro s w hs
  refine (wp_bind ..).2 (wp_mono (hx s w hs) fun r s' w' hr => ?_)
  cases r with
  | ok b => exact hf b s' w' hr
  | halt e => exact hr
  | panic => exact hr

/-- Reading the state and going on. -/
theorem get {f : σ → Act E A H σ α}
    (hf : ∀ s, Triple Γ (fun s' w => s' = s ∧ P s' w) (f s) Q B U) :
    Triple Γ P (Act.get >>= f) Q B U := by
  intro s w hs
  exact (wp_bind ..).2 (hf s s w ⟨rfl, hs⟩)

theorem attempt {x : Act E A H σ α} {Q : Except H α → σ → W → Prop} {B : H' → σ → W → Prop}
    (hx : Triple Γ P x (fun a => Q (.ok a)) (fun e => Q (.error e)) U) :
    Triple Γ P (attempt x) Q B U := by
  intro s w hs
  refine (wp_attempt x).2 (wp_mono (hx s w hs) fun r s' w' hr => ?_)
  cases r with
  | ok a => exact hr
  | halt e => exact hr
  | panic => exact hr

theorem contain {x : Act E A H σ α} {Q : Option α → σ → W → Prop}
    (hx : Triple Γ P x (fun a => Q (some a)) B (Q none)) : Triple Γ P (contain x) Q B U := by
  intro s w hs
  refine (wp_contain x).2 (wp_mono (hx s w hs) fun r s' w' hr => ?_)
  cases r with
  | ok a => exact hr
  | halt e => exact hr
  | panic => exact hr

theorem zoom {get : σ → τ} {set : τ → σ → σ} {x : Act E A H τ α} {R : τ → W → Prop}
    (hP : ∀ s w, P s w → R (get s) w)
    (hx : ∀ s, Triple Γ R x (fun a t => Q a (set t s)) (fun e t => B e (set t s))
      fun t => U (set t s)) : Triple Γ P (zoom get set x) Q B U := by
  intro s w hs
  refine (wp_zoom ..).2 (wp_mono (hx s (get s) w (hP s w hs)) fun r t w' hr => ?_)
  cases r with
  | ok a => exact hr
  | halt e => exact hr
  | panic => exact hr

/-- A local value that is dropped silently. -/
theorem withLocal {init : τ} {x : Act E A H τ α}
    (hx : ∀ s, Triple Γ (fun t w => t = init ∧ P s w) x (fun a _ => Q a s) (fun e _ => B e s)
      fun _ => U s) : Triple Γ P (withLocal init x (Pure.pure ())) Q B U := by
  intro s w hs
  refine (wp_withLocal ..).2 (wp_mono (hx s init w ⟨rfl, hs⟩) fun r t w' hr => ?_)
  cases r with
  | ok a => exact hr
  | halt e => exact hr
  | panic => exact hr

end Triple

theorem Preserves.triple {I : σ → W → Prop} {B : H → Prop} {x : Act E A H σ α}
    (hx : Preserves Γ I B x) : Triple Γ I x (fun _ => I) (fun e _ _ => B e) I := by
  intro s w hs
  refine wp_mono (hx s w hs) fun r s' w' h => ?_
  cases r with
  | ok a => exact h.1
  | halt e => exact h.2 e rfl
  | panic => exact h.1

end Act

end PipeIo.Lib
