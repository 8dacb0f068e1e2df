import Mathlib.Logic.Basic
import Mathlib.Tactic.Common

namespace PipeIo.Lib
set_option autoImplicit true

/-- A program as the tree of its requests to the outside: each node asks `e` and
continues according to the answer. -/
inductive Prog (E : Type u) (A : E → Type v) (R : Type w) where
  | ret (r : R) : Prog E A R
  | vis (e : E) (k : A e → Prog E A R) : Prog E A R

/-- What is promised about each request: when it may be made, and which answers and
states may follow. -/
structure Spec (E : Type u) (A : E → Type v) (S : Type w) where
  pre : E → S → Prop
  post : (e : E) → S → A e → S → Prop

namespace Prog

variable {E : Type u} {A : E → Type v} {R R' R'' : Type w} {S : Type x} {S' : Type y}

def bind (p : Prog E A R) (f : R → Prog E A R') : Prog E A R' :=
  match p with
  | .ret r => f r
  | .vis e k => .vis e fun a => (k a).bind f

instance : Monad (Prog E A) where
  pure := .ret
  bind := bind

@[simp] theorem pure_eq (r : R) : (pure r : Prog E A R) = .ret r := rfl

@[simp] theorem bind_ret (r : R) (f : R → Prog E A R') : (Prog.ret r >>= f) = f r := rfl

@[simp] theorem bind_vis (e : E) (k : A e → Prog E A R) (f : R → Prog E A R') :
    (Prog.vis e k >>= f) = .vis e fun a => k a >>= f := rfl

theorem bind_assoc (p : Prog E A R) (f : R → Prog E A R') (g : R' → Prog E A R'') :
    (p.bind f).bind g = p.bind fun r => (f r).bind g := by
  induction p with
  | ret r => rfl
  | vis e k ih => exact congrArg (vis e) (funext ih)

theorem bind_pure (p : Prog E A R) : p.bind .ret = p := by
  induction p with
  | ret r => rfl
  | vis e k ih => exact congrArg (vis e) (funext ih)

/-- Run a program against a handler that answers each request from a state. -/
def exec (h : (e : E) → S → A e × S) : Prog E A R → S → R × S
  | .ret r, s => (r, s)
  | .vis e k, s => exec h (k (h e s).1) (h e s).2

@[simp] theorem exec_ret (h : (e : E) → S → A e × S) (r : R) (s : S) :
    exec h (.ret r) s = (r, s) := rfl

@[simp] theorem exec_vis (h : (e : E) → S → A e × S) (e : E) (k : A e → Prog E A R) (s : S) :
    exec h (.vis e k) s = exec h (k (h e s).1) (h e s).2 := rfl

theorem exec_bind (h : (e : E) → S → A e × S) (p : Prog E A R) (f : R → Prog E A R') (s : S) :
    exec h (p >>= f) s = exec h (f (exec h p s).1) (exec h p s).2 := by
  induction p generalizing s with
  | ret r => rfl
  | vis e k ih => exact ih _ _

/-- Weakest precondition: every request is permitted when it is made, and `Q` holds of the
result whatever the answers were. -/
def wp (Γ : Spec E A S) : Prog E A R → (R → S → Prop) → S → Prop
  | .ret r, Q, s => Q r s
  | .vis e k, Q, s => Γ.pre e s ∧ ∀ a s', Γ.post e s a s' → wp Γ (k a) Q s'

@[simp] theorem wp_ret (Γ : Spec E A S) (r : R) (Q : R → S → Prop) (s : S) :
    wp Γ (.ret r) Q s ↔ Q r s := Iff.rfl

@[simp] theorem wp_vis (Γ : Spec E A S) (e : E) (k : A e → Prog E A R) (Q : R → S → Prop)
    (s : S) : wp Γ (.vis e k) Q s ↔
      Γ.pre e s ∧ ∀ a s', Γ.post e s a s' → wp Γ (k a) Q s' := Iff.rfl

theorem wp_mono {Γ : Spec E A S} {p : Prog E A R} {Q Q' : R → S → Prop} {s : S}
    (h : wp Γ p Q s) (hQ : ∀ r s, Q r s → Q' r s) : wp Γ p Q' s := by
  induction p generalizing s with
  | ret r => exact hQ _ _ h
  | vis e k ih => exact ⟨h.1, fun a s' ha => ih a (h.2 a s' ha)⟩

/-- A spec that permits more and promises more. -/
theorem wp_weaken {Γ Γ' : Spec E A S} (hpre : ∀ e s, Γ.pre e s → Γ'.pre e s)
    (hpost : ∀ e s a s', Γ'.post e s a s' → Γ.post e s a s') {p : Prog E A R}
    {Q : R → S → Prop} {s : S} (h : p.wp Γ Q s) : p.wp Γ' Q s := by
  induction p generalizing s with
  | ret r => exact h
  | vis e k ih =>
    constructor
    · exact hpre e s h.1
    · intro a s' ha
      exact ih a (h.2 a s' (hpost e s a s' ha))

theorem wp_bind (Γ : Spec E A S) (p : Prog E A R) (f : R → Prog E A R') (Q : R' → S → Prop)
    (s : S) : wp Γ (p >>= f) Q s ↔ wp Γ p (fun r s => wp Γ (f r) Q s) s := by
  induction p generalizing s with
  | ret r => rfl
  | vis e k ih =>
    simp only [bind_vis, wp_vis]
    exact and_congr_right fun _ => forall_congr' fun a => forall_congr' fun s' =>
      imp_congr_right fun _ => ih a s'

theorem wp_and {Γ : Spec E A S} {p : Prog E A R} {Q Q' : R → S → Prop} {s : S}
    (h : wp Γ p Q s) (h' : wp Γ p Q' s) : wp Γ p (fun r s => Q r s ∧ Q' r s) s := by
  induction p generalizing s with
  | ret r => exact ⟨h, h'⟩
  | vis e k ih => exact ⟨h.1, fun a s' ha => ih a (h.2 a s' ha) (h'.2 a s' ha)⟩

/-- Where every request is permitted, what every answer keeps holds at the end. -/
theorem wp_invariant {Γ : Spec E A S} {I : S → Prop} (hpre : ∀ e s, I s → Γ.pre e s)
    (hpost : ∀ e s a s', I s → Γ.post e s a s' → I s') {p : Prog E A R} {s : S} (h : I s) :
    wp Γ p (fun _ s' => I s') s := by
  induction p generalizing s with
  | ret r => exact h
  | vis e k ih => exact ⟨hpre e s h, fun a s' ha => ih a (hpost e s a s' h ha)⟩

/-- What every promised answer keeps still holds at the end. -/
theorem wp_keep {Γ : Spec E A S} {J : S → Prop}
    (hpost : ∀ e s a s', J s → Γ.post e s a s' → J s') {p : Prog E A R} {Q : R → S → Prop} {s : S}
    (h : wp Γ p Q s) (hJ : J s) : wp Γ p (fun r s' => Q r s' ∧ J s') s := by
  induction p generalizing s with
  | ret r => exact ⟨h, hJ⟩
  | vis e k ih => exact ⟨h.1, fun a s' ha => ih a (h.2 a s' ha) (hpost e s a s' hJ ha)⟩

/-- Where every permitted request can be answered as promised, a program can go on to its end;
`R` is what each such answer does to the world. -/
theorem wp_ends {Γ : Spec E A S} {R : S → S → Prop} (hrefl : ∀ s, R s s)
    (htrans : ∀ {s t u}, R s t → R t u → R s u)
    (hΓ : ∀ e s, Γ.pre e s → ∃ a s', Γ.post e s a s' ∧ R s s') {p : Prog E A X}
    {Q : X → S → Prop} {s : S} (h : p.wp Γ Q s) : ∃ r s', Q r s' ∧ R s s' := by
  induction p generalizing s with
  | ret r => exact ⟨r, s, h, hrefl s⟩
  | vis e k ih =>
    obtain ⟨a, t, hpost, hR⟩ := hΓ e s h.1
    obtain ⟨r, s', hQ, hR'⟩ := ih a (h.2 a t hpost)
    exact ⟨r, s', hQ, htrans hR hR'⟩

/-- A handler on `S'` keeps a specification on `S` if every answer to a permitted request
is among the promised ones, up to the simulation `sim`. -/
def Keeps (Γ : Spec E A S) (sim : S' → S → Prop) (h : (e : E) → S' → A e × S') : Prop :=
  ∀ e s' s, sim s' s → Γ.pre e s → ∃ t, Γ.post e s (h e s').1 t ∧ sim (h e s').2 t

theorem wp_exec {Γ : Spec E A S} {sim : S' → S → Prop} {h : (e : E) → S' → A e × S'}
    (hk : Keeps Γ sim h) {p : Prog E A R} {Q : R → S → Prop} {s' : S'} {s : S}
    (hs : sim s' s) (hp : wp Γ p Q s) :
    ∃ t, sim (exec h p s').2 t ∧ Q (exec h p s').1 t := by
  induction p generalizing s' s with
  | ret r => exact ⟨s, hs, hp⟩
  | vis e k ih =>
    obtain ⟨t, ht, hsim⟩ := hk e s' s hs hp.1
    exact ih _ hsim (hp.2 _ t ht)

end Prog

end PipeIo.Lib
