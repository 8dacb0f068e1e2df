import Mathlib.Control.Basic

namespace PipeIo.Lib
set_option autoImplicit true

/-- A computation that hands values of type `W` to a receiver that takes all of them. -/
structure Emitting (W : Type u) (α : Type v) where
  val : α
  out : List W
  deriving DecidableEq

namespace Emitting

instance : Monad (Emitting W) where
  pure a := ⟨a, []⟩
  bind x f := ⟨(f x.val).val, x.out ++ (f x.val).out⟩

instance : LawfulMonad (Emitting W) := LawfulMonad.mk' (Emitting W)
  (fun x => by simp only [Functor.map]; exact congrArg (Emitting.mk x.val) (List.append_nil _))
  (fun _ _ => rfl)
  (fun x f g => by simp only [bind, List.append_assoc])

/-- Hand over one value; the receiver takes it. -/
def emit (w : W) : Emitting W Bool := ⟨true, [w]⟩

variable {W : Type u} {α β : Type v}

@[simp] theorem pure_val (a : α) : (pure a : Emitting W α).val = a := rfl

@[simp] theorem pure_out (a : α) : (pure a : Emitting W α).out = [] := rfl

@[simp] theorem bind_val (x : Emitting W α) (f : α → Emitting W β) :
    (x >>= f).val = (f x.val).val := rfl

@[simp] theorem bind_out (x : Emitting W α) (f : α → Emitting W β) :
    (x >>= f).out = x.out ++ (f x.val).out := rfl

theorem mk_bind (a : α) (out : List W) (f : α → Emitting W β) :
    ((⟨a, out⟩ : Emitting W α) >>= f) = ⟨(f a).val, out ++ (f a).out⟩ := rfl

@[simp] theorem map_val (f : α → β) (x : Emitting W α) : (f <$> x).val = f x.val := rfl

@[simp] theorem map_out (f : α → β) (x : Emitting W α) : (f <$> x).out = x.out := by
  exact List.append_nil _

@[simp] theorem emit_val (w : W) : (emit w).val = true := rfl

@[simp] theorem emit_out (w : W) : (emit w).out = [w] := rfl

/-- Only what follows an accepted value counts. -/
theorem emit_congr {β : Type} {w : W} {f g : Bool → Emitting W β} (h : f true = g true) :
    (emit w >>= f) = emit w >>= g := by
  simp only [bind, emit, h]

/-- Hand over the values of `x` under another name. -/
def renamed (f : W → W') (x : Emitting W α) : Emitting W' α := ⟨x.val, x.out.map f⟩

@[simp] theorem renamed_val (f : W → W') (x : Emitting W α) : (x.renamed f).val = x.val := rfl

@[simp] theorem renamed_out (f : W → W') (x : Emitting W α) :
    (x.renamed f).out = x.out.map f := rfl

@[simp] theorem renamed_pure (f : W → W') (a : α) :
    (pure a : Emitting W α).renamed f = pure a := rfl

@[simp] theorem renamed_bind (g : W → W') (x : Emitting W α) (f : α → Emitting W β) :
    (x >>= f).renamed g = x.renamed g >>= fun a => (f a).renamed g := by
  simp [renamed, bind, List.map_append]

@[simp] theorem renamed_map (g : W → W') (f : α → β) (x : Emitting W α) :
    (f <$> x).renamed g = f <$> x.renamed g := by
  simp [renamed, Functor.map]

@[simp] theorem renamed_emit (g : W → W') (w : W) : (emit w).renamed g = emit (g w) := rfl

end Emitting

end PipeIo.Lib
