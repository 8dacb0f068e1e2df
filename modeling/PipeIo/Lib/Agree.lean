import PipeIo.Lib.Act

namespace PipeIo.Lib
set_option autoImplicit true

/-- Requests that two programs need not have in common, and the answers that they get. -/
structure Veil (E : Type u) (A : E → Type v) where
  hidden : E → Prop
  reply : (e : E) → A e → Prop

section Prog

variable {E : Type u} {A : E → Type} {V : Veil E A} {R R' : Type}

/-- Two programs make the same requests, but for the hidden ones, and end with related results. -/
inductive Prog.Agree (V : Veil E A) (Q : R → R' → Prop) : Prog E A R → Prog E A R' → Prop where
  | ret (h : Q r r') : Agree V Q (.ret r) (.ret r')
  | vis (he : ¬V.hidden e) (h : ∀ a, Agree V Q (k a) (k' a)) : Agree V Q (.vis e k) (.vis e k')
  | left (he : V.hidden e) (h : ∀ a, V.reply e a → Agree V Q (k a) q) : Agree V Q (.vis e k) q
  | right (he : V.hidden e) (h : ∀ a, V.reply e a → Agree V Q p (k a)) : Agree V Q p (.vis e k)

namespace Prog

theorem Agree.mono {Q Q' : R → R' → Prop} {p : Prog E A R} {q : Prog E A R'} (h : Agree V Q p q)
    (hQ : ∀ r r', Q r r' → Q' r r') : Agree V Q' p q := by
  induction h with
  | ret h => exact .ret (hQ _ _ h)
  | vis he _ ih => exact .vis he ih
  | left he _ ih => exact .left he ih
  | right he _ ih => exact .right he ih

theorem Agree.bind {S S' : Type} {Q : R → R' → Prop} {Q' : S → S' → Prop} {p : Prog E A R}
    {q : Prog E A R'} {f : R → Prog E A S} {g : R' → Prog E A S'} (h : Agree V Q p q)
    (hf : ∀ r r', Q r r' → Agree V Q' (f r) (g r')) : Agree V Q' (p >>= f) (q >>= g) := by
  induction h with
  | ret h => exact hf _ _ h
  | vis he _ ih => exact .vis he ih
  | left he _ ih => exact .left he ih
  | right he _ ih => exact .right he ih

/-- A program agrees with itself where hidden requests get one answer. -/
theorem Agree.refl (hV : ∀ e a a', V.hidden e → V.reply e a → V.reply e a' → a = a') (p : Prog E A R) :
    Agree V Eq p p := by
  classical
  induction p with
  | ret r => exact .ret rfl
  | vis e k ih =>
    by_cases he : V.hidden e
    · refine .left he fun a ha => .right he fun a' ha' => ?_
      rw [hV e a a' he ha ha']
      exact ih a'
    · exact .vis he ih

end Prog

/-- Two handlers answer the shown requests alike, and the hidden ones make no difference. -/
structure Veil.Covers (V : Veil E A) {S : Type w} {S' : Type w'} (sim : S → S' → Prop)
    (h : (e : E) → S → A e × S) (h' : (e : E) → S' → A e × S') : Prop where
  shown : ¬V.hidden e → sim s s' → (h e s).1 = (h' e s').1 ∧ sim (h e s).2 (h' e s').2
  left : V.hidden e → sim s s' → V.reply e (h e s).1 ∧ sim (h e s).2 s'
  right : V.hidden e → sim s s' → V.reply e (h' e s').1 ∧ sim s (h' e s').2

/-- Programs that agree end alike against such handlers. -/
theorem Prog.Agree.exec {S : Type w} {S' : Type w'} {sim : S → S' → Prop}
    {h : (e : E) → S → A e × S} {h' : (e : E) → S' → A e × S'} (hh : V.Covers sim h h')
    {Q : R → R' → Prop} {p : Prog E A R} {q : Prog E A R'} (hpq : Agree V Q p q) {s : S} {s' : S'}
    (hs : sim s s') :
    Q (Prog.exec h p s).1 (Prog.exec h' q s').1 ∧
      sim (Prog.exec h p s).2 (Prog.exec h' q s').2 := by
  induction hpq generalizing s s' with
  | ret hQ => exact ⟨hQ, hs⟩
  | vis he _ ih =>
    obtain ⟨ha, hs⟩ := hh.shown he hs
    simp only [Prog.exec_vis, ha] at hs ⊢
    exact ih _ hs
  | left he _ ih =>
    obtain ⟨ha, hs⟩ := hh.left he hs
    exact ih _ ha hs
  | right he _ ih =>
    obtain ⟨ha, hs⟩ := hh.right he hs
    exact ih _ ha hs

end Prog

/-- Two calls end in the same way, with related values. -/
inductive Res.Related (K : α → β → Prop) : Res H α → Res H β → Prop where
  | ok (h : K a b) : Related K (.ok a) (.ok b)
  | halt (e : H) : Related K (.halt e) (.halt e)
  | panic : Related K .panic .panic

namespace Act

variable {E : Type u} {A : E → Type} {V : Veil E A} {H H' σ σ' τ τ' α β γ δ : Type}
  {R : σ → σ' → Prop} {R' : τ → τ' → Prop} {K : α → β → Prop}

/-- Two computations agree from related states, and leave related states. -/
def Agree (V : Veil E A) (R : σ → σ' → Prop) (K : α → β → Prop) (x : Act E A H σ α)
    (y : Act E A H σ' β) : Prop :=
  ∀ s s', R s s' → Prog.Agree V (fun r r' => Res.Related K r.1 r'.1 ∧ R r.2 r'.2) (x s) (y s')

theorem Agree.refl (hV : ∀ e a a', V.hidden e → V.reply e a → V.reply e a' → a = a')
    (x : Act E A H σ α) : Agree V Eq Eq x x := by
  rintro s _ rfl
  refine (Prog.Agree.refl hV (x s)).mono ?_
  rintro ⟨r, t⟩ _ rfl
  refine ⟨?_, rfl⟩
  cases r with
  | ok a => exact .ok rfl
  | halt e => exact .halt e
  | panic => exact .panic

theorem Agree.ret {a : α} {b : β} (h : K a b) :
    Agree V R K (pure a : Act E A H σ α) (pure b : Act E A H σ' β) :=
  fun _ _ hR => .ret ⟨.ok h, hR⟩

theorem Agree.value (a : α) :
    Agree V R Eq (pure a : Act E A H σ α) (pure a : Act E A H σ' α) :=
  .ret rfl

theorem Agree.bind {L : γ → δ → Prop} {x : Act E A H σ α} {y : Act E A H σ' β}
    {f : α → Act E A H σ γ} {g : β → Act E A H σ' δ} (hx : Agree V R K x y)
    (hf : ∀ a b, K a b → Agree V R L (f a) (g b)) : Agree V R L (x >>= f) (y >>= g) := by
  intro s s' hR
  refine Prog.Agree.bind (hx s s' hR) ?_
  rintro ⟨r, t⟩ ⟨r', t'⟩ ⟨hr, ht⟩
  cases hr with
  | ok h => exact hf _ _ h t t' ht
  | halt e => exact .ret ⟨.halt e, ht⟩
  | panic => exact .ret ⟨.panic, ht⟩

/-- Going on with the same value. -/
theorem Agree.next {L : γ → δ → Prop} {x : Act E A H σ α} {y : Act E A H σ' α}
    {f : α → Act E A H σ γ} {g : α → Act E A H σ' δ} (hx : Agree V R Eq x y)
    (hf : ∀ a, Agree V R L (f a) (g a)) : Agree V R L (x >>= f) (y >>= g) := by
  refine hx.bind ?_
  rintro a _ rfl
  exact hf a

theorem Agree.map {x : Act E A H σ α} {y : Act E A H σ' α} (hx : Agree V R Eq x y) (f : α → γ) :
    Agree V R Eq (f <$> x) (f <$> y) :=
  hx.next fun a => .value (f a)

theorem Agree.get : Agree V R R (get : Act E A H σ σ) (get : Act E A H σ' σ') :=
  fun _ _ hR => .ret ⟨.ok hR, hR⟩

theorem Agree.modify {f : σ → σ} {g : σ' → σ'} (h : ∀ s s', R s s' → R (f s) (g s')) :
    Agree V R Eq (modify f : Act E A H σ Unit) (modify g) :=
  fun s s' hR => .ret ⟨.ok rfl, h s s' hR⟩

theorem Agree.state {f : σ → α × σ} {g : σ' → α × σ'}
    (h : ∀ s s', R s s' → (f s).1 = (g s').1 ∧ R (f s).2 (g s').2) :
    Agree V R Eq (state f : Act E A H σ α) (state g) :=
  fun s s' hR => .ret ⟨.ok (h s s' hR).1, (h s s' hR).2⟩

theorem Agree.perform {e : E} (he : ¬V.hidden e) :
    Agree V R Eq (perform e : Act E A H σ (A e)) (perform e : Act E A H σ' (A e)) :=
  fun _ _ hR => .vis he fun _ => .ret ⟨.ok rfl, hR⟩

/-- A hidden request that only the first computation makes. -/
theorem Agree.left {e : E} (he : V.hidden e) {f : A e → Act E A H σ α} {y : Act E A H σ' β}
    (h : ∀ a, V.reply e a → Agree V R K (f a) y) : Agree V R K (Act.perform e >>= f) y :=
  fun s s' hR => .left he fun a ha => h a ha s s' hR

/-- A hidden request that only the second computation makes. -/
theorem Agree.right {e : E} (he : V.hidden e) {x : Act E A H σ α} {f : A e → Act E A H σ' β}
    (h : ∀ a, V.reply e a → Agree V R K x (f a)) : Agree V R K x (Act.perform e >>= f) :=
  fun s s' hR => .right he fun a ha => h a ha s s' hR

theorem Agree.halt (e : H) :
    Agree V R K (halt e : Act E A H σ α) (halt e : Act E A H σ' β) :=
  fun _ _ hR => .ret ⟨.halt e, hR⟩

theorem Agree.panic : Agree V R K (panic : Act E A H σ α) (panic : Act E A H σ' β) :=
  fun _ _ hR => .ret ⟨.panic, hR⟩

theorem Agree.attempt {x : Act E A H σ α} {y : Act E A H σ' α} (hx : Agree V R Eq x y) :
    Agree V R Eq (attempt x : Act E A H' σ _) (attempt y) := by
  intro s s' hR
  refine Prog.Agree.bind (hx s s' hR) ?_
  rintro ⟨r, t⟩ ⟨r', t'⟩ ⟨hr, ht⟩
  cases hr with
  | ok h => exact .ret ⟨.ok (congrArg Except.ok h), ht⟩
  | halt e => exact .ret ⟨.ok rfl, ht⟩
  | panic => exact .ret ⟨.panic, ht⟩

theorem Agree.contain {x : Act E A H σ α} {y : Act E A H σ' α} (hx : Agree V R Eq x y) :
    Agree V R Eq (contain x) (contain y) := by
  intro s s' hR
  refine Prog.Agree.bind (hx s s' hR) ?_
  rintro ⟨r, t⟩ ⟨r', t'⟩ ⟨hr, ht⟩
  cases hr with
  | ok h => exact .ret ⟨.ok (congrArg some h), ht⟩
  | halt e => exact .ret ⟨.halt e, ht⟩
  | panic => exact .ret ⟨.ok rfl, ht⟩

theorem Agree.mapHalt {x : Act E A H σ α} {y : Act E A H σ' β} (hx : Agree V R K x y)
    (f : H → H') : Agree V R K (mapHalt f x) (mapHalt f y) := by
  intro s s' hR
  refine Prog.Agree.bind (hx s s' hR) ?_
  rintro ⟨r, t⟩ ⟨r', t'⟩ ⟨hr, ht⟩
  cases hr with
  | ok h => exact .ret ⟨.ok h, ht⟩
  | halt e => exact .ret ⟨.halt (f e), ht⟩
  | panic => exact .ret ⟨.panic, ht⟩

theorem Agree.zoom {get : σ → τ} {get' : σ' → τ'} {set : τ → σ → σ} {set' : τ' → σ' → σ'}
    {x : Act E A H τ α} {y : Act E A H τ' β} (hx : Agree V R' K x y)
    (hget : ∀ s s', R s s' → R' (get s) (get' s'))
    (hset : ∀ s s' t t', R s s' → R' t t' → R (set t s) (set' t' s')) :
    Agree V R K (zoom get set x) (zoom get' set' y) := by
  intro s s' hR
  refine Prog.Agree.bind (hx _ _ (hget s s' hR)) ?_
  rintro ⟨r, t⟩ ⟨r', t'⟩ ⟨hr, ht⟩
  exact .ret ⟨hr, hset s s' t t' hR ht⟩

theorem Agree.withLocal {init : τ} {init' : τ'} {x : Act E A H τ α} {y : Act E A H τ' β}
    {drop : Act E A H τ Unit} {drop' : Act E A H τ' Unit} (hinit : R' init init')
    (hx : Agree V R' K x y) (hdrop : Agree V R' Eq drop drop') :
    Agree V R K (withLocal init x drop) (withLocal init' y drop') := by
  intro s s' hR
  refine Prog.Agree.bind (hx init init' hinit) ?_
  rintro ⟨r, t⟩ ⟨r', t'⟩ ⟨hr, ht⟩
  exact Prog.Agree.bind (hdrop t t' ht) fun _ _ _ => .ret ⟨hr, hR⟩

theorem Agree.repeatUntil {x : Act E A H σ (Option α)} {y : Act E A H σ' (Option α)}
    (hx : Agree V R Eq x y) (fuel : Nat) :
    Agree V R Eq (repeatUntil x fuel) (repeatUntil y fuel) := by
  induction fuel with
  | zero => exact .value none
  | succ fuel ih =>
    refine hx.next fun a => ?_
    cases a with
    | none => exact ih
    | some a => exact .value (some a)

end Act

end PipeIo.Lib
