import PipeIo.Meaning

namespace PipeIo
set_option autoImplicit true

open Lib

def Note.marks : Note → List (Mark Y)
  | .stage depth (some .flush) => [.flush (some depth)]
  | .stage _ none | .stage _ (some .tick) | .stage _ (some .close) | .stage _ (some .abort) => []
  | .call _ | .halted | .failed .. => []

/-- Whether failures reach a dead-letter sink. -/
def Dlq.installed : Dlq → Bool
  | .absent => false
  | .sink _ _ => true

/-- The marks of a run are kept one after the other. -/
structure Appends (record : List (Mark Y) → W → W) : Prop where
  nil (w : W) : record [] w = w
  append (xs ys : List (Mark Y)) (w : W) : record (xs ++ ys) w = record ys (record xs w)

/-- An outside where nothing fails, and where the world keeps the marks of a run. -/
structure Records (Γ : Spec (Eff X Y) Ans W) (record : List (Mark Y) → W → W) : Prop
    extends Appends record where
  note (n : Note) (w : W) : Γ.pre (.note n) w ∧
    ∀ a w', Γ.post (.note n) w a w' → w' = record n.marks w
  observe (event : Event) (w : W) : Γ.pre (.observe event) w ∧
    ∀ a w', Γ.post (.observe event) w a w' → a = some () ∧ w' = w
  letter (failure : StageFailure) (w : W) : Γ.pre (.deadLetter (.write failure)) w ∧
    ∀ a w', Γ.post (.deadLetter (.write failure)) w a w' →
      a = some (.ok ()) ∧ w' = record [.letter failure] w
  sleep (delay : Duration) (w : W) : Γ.pre (.sleep delay) w ∧
    ∀ a w', Γ.post (.sleep delay) w a w' → a = true ∧ w' = w

def Res.times (k : Nat) : Res Halt Nat → Res Halt Nat
  | .ok m => .ok (k * m)
  | .halt h => .halt h
  | .panic => .panic

theorem Res.times_one (r : Res Halt Nat) : Res.times 1 r = r := by
  cases r with
  | ok m => exact congrArg Res.ok (Nat.one_mul m)
  | halt | panic => rfl

/-- What a call that makes `zs` does: it ends where they settle, after `n` items that reached
the sink before. The tail counts `unit` for an item: only the sink has accepted it. -/
structure Makes (record : List (Mark Y) → W → W) (dlq : Bool) (unit : Nat)
    (zs : List (Y ⊕ Incident)) (n : Nat) (ctx : Ctx) (w : W) (r : Res Halt Nat) (ctx' : Ctx)
    (w' : W) : Prop where
  settled : r = Res.plus n (Res.times unit (settle zs))
  charged : ctx' = { ctx with tally := charge ctx.tally (upto zs) }
  recorded : w' = record (marks dlq (upto zs)) w

theorem Res.plus_eq_ok {r : Res Halt Nat} {n k : Nat} (h : Res.plus n r = .ok k) :
    ∃ m, r = .ok m := by
  cases r with
  | ok m => exact ⟨m, rfl⟩
  | halt | panic => cases h

theorem Res.times_eq_ok {r : Res Halt Nat} {n k : Nat} (h : Res.times n r = .ok k) :
    ∃ m, r = .ok m ∧ k = n * m := by
  cases r with
  | ok m =>
    cases h
    exact ⟨m, rfl, rfl⟩
  | halt | panic => cases h

theorem Res.times_plus (k n : Nat) (r : Res Halt Nat) :
    Res.times k (Res.plus n r) = Res.plus (k * n) (Res.times k r) := by
  cases r with
  | ok m => exact congrArg Res.ok (Nat.mul_add k n m)
  | halt | panic => rfl

section Makes

variable {X Y : Type} {W : Type w} {Γ : Spec (Eff X Y) Ans W} {record : List (Mark Y) → W → W}
  {dlq : Bool} {unit : Nat} {ctx ctx' ctx'' : Ctx} {w w' w'' : W} {xs ys : List (Y ⊕ Incident)}
  {n m : Nat} {r r' : Res Halt Nat}

theorem Appends.makes_nil (L : Appends record) (n : Nat) (ctx : Ctx) (w : W) :
    Makes record dlq unit [] n ctx w (.ok n) ctx w where
  settled := rfl
  charged := rfl
  recorded := (L.nil w).symm

theorem Makes.shift (h : Makes record dlq unit xs n ctx w r ctx' w') (m : Nat) :
    Makes record dlq unit xs (m + n) ctx w (Res.plus m r) ctx' w' where
  settled := by rw [h.settled, Res.plus_plus]
  charged := h.charged
  recorded := h.recorded

theorem Makes.same_dlq (h : Makes record dlq unit xs n ctx w r ctx' w') : ctx'.dlq = ctx.dlq := by
  rw [h.charged]

/-- A call after one that returned. -/
theorem Appends.makes_append (L : Appends record)
    (h : Makes record dlq unit xs n ctx w (.ok m) ctx' w')
    (h' : Makes record dlq unit ys m ctx' w' r ctx'' w'') :
    Makes record dlq unit (xs ++ ys) n ctx w r ctx'' w'' := by
  obtain ⟨k', hk'⟩ := Res.plus_eq_ok h.settled.symm
  obtain ⟨k, hk, hunit⟩ := Res.times_eq_ok hk'
  obtain ⟨hsettle, hupto⟩ := settle_append hk ys
  have hm : m = n + unit * k := by
    have hok := h.settled
    rw [hk', hunit] at hok
    exact Res.ok.inj hok
  constructor
  · rw [h'.settled, hsettle, Res.times_plus, Res.plus_plus, hm]
  · rw [h'.charged, h.charged, hupto, charge_append, upto_ok hk]
  · rw [h'.recorded, h.recorded, hupto, marks_append, L.append, upto_ok hk]

/-- Nothing is called after a call that did not return. -/
theorem Makes.append (h : Makes record dlq unit xs n ctx w r ctx' w') (hr : ∀ m, r ≠ .ok m)
    (ys : List (Y ⊕ Incident)) : Makes record dlq unit (xs ++ ys) n ctx w r ctx' w' := by
  have hstop : ∀ m, settle xs ≠ .ok m := by
    intro m hm
    apply hr (n + unit * m)
    rw [h.settled, hm]
    rfl
  obtain ⟨hsettle, hupto⟩ := settle_append_stopped hstop ys
  constructor
  · rw [h.settled, hsettle]
  · rw [h.charged, hupto]
  · rw [h.recorded, hupto]

end Makes

/-- The closures of a chain compute `t`: `ties` relates their state to that of the machine,
`clean` says that the sink has not been flushed and `opened` that it has not been closed. -/
structure StageFn.Computes (c : StageFn X Y T) (Γ : Spec (Eff X Y) Ans W)
    (record : List (Mark Y) → W → W) (dlq : Bool) (unit : Nat) (t : Transducer Incident T Y)
    (ties : t.φ → c.σ → Prop) (clean opened : c.σ → Prop) : Prop where
  init : ties t.init c.init
  fresh : ties p q → clean q
  process {p : t.φ} {q : c.σ} {ctx : Ctx} {w : W} {item : T} :
    ties p q → ctx.dlq.installed = dlq → Act.wp Γ (c.call (.process item))
    (fun r s w' => Makes record dlq unit (t.feed item p).1 0 ctx w r s.2 w' ∧ clean s.1 ∧
      ∀ n, r = .ok n → ties (t.feed item p).2 s.1) (q, ctx) w
  flush {p : t.φ} {q : c.σ} {ctx : Ctx} {w : W} :
    ties p q → ctx.dlq.installed = dlq → Act.wp Γ (c.call .flush)
    (fun r s w' => Makes record dlq unit (t.finish p) 0 ctx w r s.2 w' ∧
      ((∀ n, r ≠ .ok n) → clean s.1) ∧ ∀ n, r = .ok n → opened s.1) (q, ctx) w

/-- The stages hand a signal down to the tail, which does `f` to the world. -/
def StageFn.Hands (c : StageFn X Y T) (Γ : Spec (Eff X Y) Ans W) (signal : Signal)
    (ready : c.σ → Prop) (f : W → W) : Prop :=
  ∀ q ctx w, ready q → Act.wp Γ (c.call signal.op)
    (fun r s w' => r = .ok 0 ∧ s.2 = ctx ∧ w' = f w) (q, ctx) w

/-- A method that returns once an item it emits is refused. -/
def Script.GivesIn : Script U φ → Prop
  | .ret .. => True
  | .panic _ => False
  | .emit _ _ k => (k false).GivesIn

/-- A method that does not panic after an item it emits is refused. -/
def Script.Graceful : Script U φ → Prop
  | .ret .. | .panic _ => True
  | .emit _ _ k => (k true).Graceful ∧ (k false).GivesIn

def Node.Graceful : Node T U → Prop
  | .item _ | .retry _ => True
  | .stage st _ _ => (∀ item s, (st.process item s).Graceful) ∧ ∀ s, (st.flush s).Graceful

def Stages.Graceful : Stages T U → Prop
  | .nil => True
  | .cons node rest => node.Graceful ∧ rest.Graceful

section Computes

variable {X Y T U : Type} {W : Type w} {Γ : Spec (Eff X Y) Ans W}
  {record : List (Mark Y) → W → W} {dlq : Bool} {ctx : Ctx} {w : W}

theorem Records.wp_note (L : Records Γ record) (n : Note) {H σ : Type}
    {Q : Res H Unit → σ → W → Prop} {s : σ} (h : Q (.ok ()) s (record n.marks w)) :
    Act.wp Γ (PipeIo.note n) Q s w := by
  obtain ⟨hpre, hpost⟩ := L.note n w
  refine ⟨hpre, fun a w' ha => ?_⟩
  rw [hpost a w' ha]
  exact h

theorem Records.wp_emitEvent (L : Records Γ record) {active : Bool} {event : Event} {H σ : Type}
    {Q : Res H Unit → σ → W → Prop} {s : σ} (h : Q (.ok ()) s w) :
    Act.wp Γ (emitEvent active event) Q s w := by
  cases active with
  | false => exact h
  | true =>
    obtain ⟨hpre, hpost⟩ := L.observe event w
    apply (Act.wp_bind ..).2
    refine ⟨hpre, fun a w' ha => ?_⟩
    obtain ⟨ha, hw⟩ := hpost a w' ha
    rw [ha, hw]
    exact h

theorem Records.wp_sleep (L : Records Γ record) {delay : Duration} {H σ : Type}
    {Q : Res H Bool → σ → W → Prop} {s : σ} (h : Q (.ok true) s w) :
    Act.wp Γ (sleep_unless_cancelled delay) Q s w := by
  obtain ⟨hpre, hpost⟩ := L.sleep delay w
  refine ⟨hpre, fun a w' ha => ?_⟩
  obtain ⟨ha, hw⟩ := hpost a w' ha
  rw [ha, hw]
  exact h

theorem Records.wp_route (L : Records Γ record) {d : Dlq} (hd : d.installed = dlq)
    (failure : StageFailure) {Q : Res Error Unit → Dlq → W → Prop}
    (h : Q (.ok ()) d (record (Incident.marks dlq (.fault .deadLetter failure)) w)) :
    Act.wp Γ (Dlq.route failure) Q d w := by
  subst hd
  cases d with
  | absent =>
    have hnil := L.nil w
    simp only [Incident.marks, Dlq.installed, Bool.false_eq_true, if_false, hnil] at h
    exact h
  | sink flushed closed =>
    simp only [Dlq.route, Dlq.call, Act.wp_bind, Act.wp_get, Act.next_ok]
    obtain ⟨hpre, hpost⟩ := L.letter failure w
    refine ⟨hpre, fun a w' ha => ?_⟩
    obtain ⟨ha, hw⟩ := hpost a w' ha
    subst ha
    rw [hw]
    exact h

/-- Handling a failure makes one incident. -/
theorem Records.wp_handle_failure (L : Records Γ record) (unit : Nat)
    (hd : ctx.dlq.installed = dlq) (policy : ErrorPolicy) (id : StageId) (e : BoxError)
    (input : Option AnyBox) (n : Nat) :
    Act.wp Γ (handle_failure policy id e input n)
      (fun r ctx' w' =>
        Makes record dlq unit [.inr (fault policy id e input n)] 0 ctx w r ctx' w') ctx w := by
  have hnil := L.nil w
  cases policy with
  | failFast =>
    simp only [handle_failure, report_failure, if_true, reduceCtorEq, false_and, if_false]
    apply (Act.wp_bind ..).2
    apply L.wp_note
    simp only [Note.marks, hnil, Act.next_ok, Act.wp_bind, wp_count, Act.wp_get]
    apply L.wp_emitEvent
    exact ⟨rfl, rfl, hnil.symm⟩
  | «continue» =>
    simp only [handle_failure, reduceCtorEq, if_false, Act.wp_bind, wp_count, Act.next_ok,
      Act.wp_get, true_and]
    split
    · exact ⟨rfl, rfl, hnil.symm⟩
    · simp only [report_failure, Act.wp_bind, Act.wp_get, Act.next_ok]
      apply L.wp_emitEvent
      exact ⟨rfl, rfl, hnil.symm⟩
  | deadLetter =>
    simp only [handle_failure, report_failure, reduceCtorEq, false_and, if_false, Act.wp_bind,
      wp_count, Act.next_ok, Act.wp_get]
    apply L.wp_emitEvent
    simp only [Act.next_ok, Act.wp_bind, Act.wp_mapHalt, wp_onDlq]
    apply L.wp_route hd
    simp only [Res.mapHalt_ok, Act.next_ok, Act.wp_bind, wp_count]
    apply L.wp_emitEvent
    refine ⟨rfl, rfl, ?_⟩
    rw [upto_one, marks_one]
    rfl

section Links

variable {u : Transducer Incident U Y} {next : StageFn X Y U} {ties : u.φ → next.σ → Prop}
  {clean opened : next.σ → Prop} {φ : Type} {p : u.φ} {q : next.σ} {s : φ}

/-- After a call that gave the rest of the chain what makes `zs`. -/
structure Gave (record : List (Mark Y) → W → W) (dlq : Bool) (unit : Nat) (ties : ψ → σ → Prop)
    (clean : σ → Prop) (zs : List (Y ⊕ Incident) × ψ) (n : Nat) (ctx : Ctx) (w : W)
    (r : Res Halt Nat) (s' : σ × Ctx) (w' : W) : Prop where
  makes : Makes record dlq unit zs.1 n ctx w r s'.2 w'
  clean : clean s'.1
  ties : ∀ m, r = .ok m → ties zs.2 s'.1

/-- After a call of a stage that made `zs` of its own state and gave them to the rest of the
chain. -/
def Yields (record : List (Mark Y) → W → W) (dlq : Bool) (unit : Nat)
    (ties : u.φ → next.σ → Prop) (clean : next.σ → Prop) (zs : List (U ⊕ Incident) × φ) (p : u.φ)
    (n : Nat) (ctx : Ctx) (w : W) (r : Res Halt Nat) (s' : (φ × next.σ) × Ctx) (w' : W) : Prop :=
  Gave record dlq unit ties clean (u.feedAll zs.1 p) n ctx w r (s'.1.2, s'.2) w' ∧
    ∀ m, r = .ok m → s'.1.1 = zs.2

/-- The items of a list go down one by one. -/
theorem StageFn.Computes.wp_emitAll (hn : next.Computes Γ record dlq unit u ties clean opened)
    (L : Records Γ record) (hq : ties p q) (hd : ctx.dlq.installed = dlq) (outs : List U) :
    Act.wp Γ (emitAll (fun op => down (next.call op)) outs)
      (fun r s' w' => Gave record dlq unit ties clean (u.feedAll (outs.map .inl) p) 0 ctx w r
        (s'.1.2, s'.2) w' ∧ s'.1.1 = s) ((s, q), ctx) w := by
  induction outs generalizing p q ctx w with
  | nil =>
    refine ⟨⟨L.makes_nil 0 ctx w, hn.fresh hq, ?_⟩, rfl⟩
    intro _ _
    exact hq
  | cons out outs ih =>
    simp only [emitAll, Act.wp_bind, wp_down]
    apply Act.wp_mono (hn.process hq hd)
    intro r s' w' h
    obtain ⟨hmakes, hclean, hties⟩ := h
    cases r with
    | halt | panic => exact ⟨⟨hmakes.append (by simp) _, hclean, by simp⟩, rfl⟩
    | ok n =>
      simp only [Act.next_ok, Act.wp_bind]
      apply Act.wp_mono (ih (hties n rfl) (hmakes.same_dlq ▸ hd))
      intro r s'' w'' h
      obtain ⟨⟨hmakes', hclean', hties'⟩, hs⟩ := h
      have hall := L.makes_append hmakes (hmakes'.shift n)
      cases r with
      | ok m => exact ⟨⟨hall, hclean', fun _ _ => hties' m rfl⟩, hs⟩
      | halt | panic => exact ⟨⟨hall, hclean', by simp⟩, hs⟩

/-- A method whose item was refused. -/
theorem wp_drive_refused {policy : ErrorPolicy} {id : StageId}
    {next : StageOp U → Code X Y Halt (ν × Ctx) Nat} {q : ν} (script : Script U φ)
    (hscript : script.GivesIn) (halt : Halt) (n : Nat) :
    Act.wp Γ (drive policy id next script (some halt) n)
      (fun r s' w' => r = .halt halt ∧ s'.1.2 = q ∧ s'.2 = ctx ∧ w' = w) ((s, q), ctx) w := by
  induction script generalizing s with
  | ret r t => exact ⟨rfl, rfl, rfl, rfl⟩
  | panic t => exact hscript.elim
  | emit item t k ih =>
    simp only [drive, Act.wp_bind, wp_own, Act.wp_modify, Act.next_ok]
    exact ih false hscript

/-- A stage method gives the rest of the chain its products. -/
theorem StageFn.Computes.wp_drive (hn : next.Computes Γ record dlq unit u ties clean opened)
    (L : Records Γ record) (policy : ErrorPolicy) (id : StageId) (script : Script U φ)
    (hscript : script.Graceful) (hq : ties p q) (hd : ctx.dlq.installed = dlq) (n : Nat) :
    Act.wp Γ (drive policy id next.call script none n)
      (Yields record dlq unit ties clean (script.products policy id) p n ctx w)
      ((s, q), ctx) w := by
  induction script generalizing s p q ctx w n with
  | panic t =>
    refine ⟨⟨?_, hn.fresh hq, by simp⟩, by simp⟩
    refine ⟨rfl, rfl, ?_⟩
    simp only [Script.products, Transducer.feedAll_note, Transducer.feedAll_nil, upto_one,
      marks_one]
    exact (L.nil w).symm
  | ret r t =>
    simp only [drive, Act.wp_bind, wp_own, Act.wp_modify, Act.next_ok]
    cases r with
    | ok _ =>
      refine ⟨⟨L.makes_nil n ctx w, hn.fresh hq, ?_⟩, ?_⟩
      · intro _ _
        exact hq
      · intro _ _
        rfl
    | error e =>
      simp only [Act.wp_map, wp_inCtx]
      apply Act.wp_mono (L.wp_handle_failure unit hd policy id e none 1)
      intro r ctx' w' h
      have hn' := h.shift n
      cases r with
      | ok m =>
        refine ⟨⟨?_, hn.fresh hq, ?_⟩, ?_⟩
        · rw [Nat.add_comm m n]
          exact hn'
        · intro _ _
          exact hq
        · intro _ _
          rfl
      | halt | panic => exact ⟨⟨hn', hn.fresh hq, by simp⟩, by simp⟩
  | emit item t k ih =>
    simp only [drive, Act.wp_bind, wp_own, Act.wp_modify, Act.next_ok, Act.wp_attempt, wp_down]
    apply Act.wp_mono (hn.process hq hd)
    intro r s' w' h
    obtain ⟨hmakes, hclean, hties⟩ := h
    have hall := hmakes.shift n
    simp only [Script.products]
    cases r with
    | panic => exact ⟨⟨hall.append (by simp [Res.plus]) _, hclean, by simp⟩, by simp⟩
    | halt halt =>
      simp only [Res.attempted_halt, Act.next_ok]
      apply Act.wp_mono (wp_drive_refused (k false) hscript.2 halt n)
      intro r s'' w'' h'
      obtain ⟨hr, hs, hctx, hw⟩ := h'
      subst hr
      refine ⟨⟨?_, ?_, by simp⟩, by simp⟩
      · rw [hctx, hw]
        exact hall.append (by simp [Res.plus]) _
      · rw [hs]
        exact hclean
    | ok m =>
      simp only [Res.attempted_ok, Act.next_ok]
      apply Act.wp_mono (ih true hscript.1 (hties m rfl) (hmakes.same_dlq ▸ hd) (n + m))
      intro r s'' w'' h'
      obtain ⟨⟨hmakes', hclean', hties'⟩, hs⟩ := h'
      exact ⟨⟨L.makes_append hall hmakes', hclean', hties'⟩, hs⟩

/-- The state of a stage goes with that of the rest of the chain. -/
def tied (ties : ψ → σ → Prop) (p : φ × ψ) (q : φ × σ) : Prop := p.1 = q.1 ∧ ties p.2 q.2

theorem ItemStage.call_gives (st : ItemStage T U) (depth : Nat) {s : st.φ}
    (hn : next.Computes Γ record dlq unit u ties clean opened) (L : Records Γ record)
    (hq : ties p q) (hd : ctx.dlq.installed = dlq) (item : T) :
    Act.wp Γ (st.call depth next.call (.process item))
      (Yields record dlq unit ties clean (st.feed item s) p 0 ctx w) ((s, q), ctx) w := by
  have hnote : record (Note.marks (.stage depth none)) w = w := L.nil w
  apply (Act.wp_bind ..).2
  apply L.wp_note
  rw [hnote, Act.next_ok]
  simp only [Act.wp_bind, wp_own, Act.wp_state, Act.next_ok, ItemStage.feed]
  generalize st.react item s = reacted
  obtain ⟨reaction, t⟩ := reacted
  cases reaction with
  | items outs =>
    apply Act.wp_mono (hn.wp_emitAll L hq hd outs)
    intro r s' w' h
    exact ⟨h.1, fun _ _ => h.2⟩
  | fail e =>
    apply (wp_inCtx _).2
    apply Act.wp_mono (L.wp_handle_failure unit hd st.policy st.id e (st.keep item) 1)
    intro r ctx' w' h
    exact ⟨⟨h, hn.fresh hq, fun _ _ => hq⟩, fun _ _ => rfl⟩
  | panic outs =>
    apply (Act.wp_bind ..).2
    apply Act.wp_mono (hn.wp_emitAll L hq hd outs)
    intro r s' w' h
    obtain ⟨⟨hmakes, hclean, hties⟩, hs⟩ := h
    have hfeed : (u.feedAll (outs.map Sum.inl ++ [Sum.inr Incident.crashed]) p).1 =
        (u.feedAll (outs.map Sum.inl) p).1 ++ [Sum.inr Incident.crashed] := by
      simp only [Transducer.feedAll_append, Transducer.feedAll_note, Transducer.feedAll_nil]
    cases r with
    | halt | panic => exact ⟨⟨hfeed ▸ hmakes.append (by simp) _, hclean, by simp⟩, by simp⟩
    | ok n =>
      have hcrash : Makes record dlq unit [.inr .crashed] n s'.2 w' .panic s'.2 w' := by
        refine ⟨rfl, rfl, ?_⟩
        rw [upto_one, marks_one]
        exact (L.nil w').symm
      exact ⟨⟨hfeed ▸ L.makes_append hmakes hcrash, hclean, by simp⟩, by simp⟩

/-- One call of the closure of a retry stage; `zs` is what an error leads to. -/
theorem RetryStage.attempt_gives (st : RetryStage T U) (depth : Nat) {s : st.φ × Jitter}
    (hn : next.Computes Γ record dlq unit u ties clean opened) (L : Records Γ record)
    (hq : ties p q) (hd : ctx.dlq.installed = dlq) (item : T)
    {retry : BoxError → Code X Y Halt (((st.φ × Jitter) × next.σ) × Ctx) Nat}
    {zs : BoxError → st.φ → List (U ⊕ Incident) × (st.φ × Jitter)}
    (hretry : ∀ e t, Act.wp Γ (retry e) (Yields record dlq unit ties clean (zs e t) p 0 ctx w)
      (((t, s.2), q), ctx) w) :
    Act.wp Γ (st.attempt depth item next.call retry)
      (Yields record dlq unit ties clean (match st.f item s.1 with
        | (some (.ok out), t) => ([.inl out], (t, s.2))
        | (some (.error e), t) => zs e t
        | (none, t) => ([.inr .crashed], (t, s.2))) p 0 ctx w) ((s, q), ctx) w := by
  have hnote : record (Note.marks (.stage depth none)) w = w := L.nil w
  apply (Act.wp_bind ..).2
  apply L.wp_note
  rw [hnote, Act.next_ok]
  simp only [Act.wp_bind, wp_own, Act.wp_state, Act.next_ok]
  change Act.wp Γ (outcome (st.f item s.1).1) _ ((((st.f item s.1).2, s.2), q), ctx) w
  generalize st.f item s.1 = called
  obtain ⟨answer, t⟩ := called
  rcases answer with _ | e | out
  case none =>
    refine ⟨⟨⟨rfl, rfl, ?_⟩, hn.fresh hq, by simp⟩, by simp⟩
    simp only [Transducer.feedAll_note, Transducer.feedAll_nil, upto_one, marks_one]
    exact (L.nil w).symm
  case some.error => exact hretry e t
  case some.ok =>
    apply (wp_down _).2
    apply Act.wp_mono (hn.process hq hd)
    intro r s' w' h
    obtain ⟨hmakes, hclean, hties⟩ := h
    have hone : (u.feedAll [Sum.inl out] p).1 = (u.feed out p).1 := by
      simp only [Transducer.feedAll_item, Transducer.feedAll_nil, List.append_nil]
    exact ⟨⟨hone ▸ hmakes, hclean, hties⟩, fun _ _ => rfl⟩

theorem RetryStage.attempts_gives (st : RetryStage T U) (depth : Nat) {s : st.φ × Jitter}
    (hn : next.Computes Γ record dlq unit u ties clean opened) (L : Records Γ record)
    (hq : ties p q) (hd : ctx.dlq.installed = dlq) (item : T) (left attempt : Nat) :
    Act.wp Γ (st.attempts depth item next.call left attempt)
      (Yields record dlq unit ties clean (st.trying item left attempt s) p 0 ctx w)
      ((s, q), ctx) w := by
  induction left generalizing attempt s ctx w with
  | zero =>
    rw [RetryStage.attempts, RetryStage.trying]
    apply st.attempt_gives depth hn L hq hd
    intro e t
    simp only [wp_inCtx]
    apply Act.wp_mono
      (L.wp_handle_failure unit hd st.policy st.id e (keep_input st.policy item) attempt)
    intro r ctx' w' h
    exact ⟨⟨h, hn.fresh hq, fun _ _ => hq⟩, fun _ _ => rfl⟩
  | succ left ih =>
    rw [RetryStage.attempts, RetryStage.trying]
    apply st.attempt_gives depth hn L hq hd
    intro e t
    simp only [Act.wp_bind, wp_own, Act.wp_state, Act.next_ok, wp_inCtx, wp_count, Act.wp_get]
    apply L.wp_emitEvent
    simp only [Act.next_ok]
    apply (Act.wp_bind ..).2
    apply L.wp_sleep
    rw [Act.next_ok, if_pos rfl]
    have hcounted : Dlq.installed
        { ctx with tally := { ctx.tally with retries := ctx.tally.retries + 1 } }.dlq = dlq := hd
    apply Act.wp_mono (ih hcounted (attempt + 1))
    intro r s' w'' h
    obtain ⟨⟨hmakes, hclean, hties⟩, hs⟩ := h
    refine ⟨⟨?_, hclean, hties⟩, hs⟩
    -- the retry counts before what the next attempt makes
    exact ⟨hmakes.settled, hmakes.charged, hmakes.recorded⟩

theorem Stage.process_gives (st : Stage T U) (policy : ErrorPolicy) (id : StageId) (depth : Nat)
    (hst : ∀ item s, (st.process item s).Graceful) {s : st.φ}
    (hn : next.Computes Γ record dlq unit u ties clean opened) (L : Records Γ record)
    (hq : ties p q) (hd : ctx.dlq.installed = dlq) (item : T) :
    Act.wp Γ (st.call policy id depth next.call (.process item))
      (Yields record dlq unit ties clean ((st.process item s).products policy id) p 0 ctx w)
      ((s, q), ctx) w := by
  have hnote : record (Note.marks (.stage depth none)) w = w := L.nil w
  apply (Act.wp_bind ..).2
  apply L.wp_note
  rw [hnote, Act.next_ok]
  simp only [Act.wp_bind, wp_own, Act.wp_get, Act.next_ok]
  exact hn.wp_drive L policy id _ (hst item s) hq hd 0

/-- A flush of a stage, and then of the stages after it. -/
theorem Stage.flush_makes (st : Stage T U) (policy : ErrorPolicy) (id : StageId) (depth : Nat)
    (hst : ∀ s, (st.flush s).Graceful) {s : st.φ}
    (hn : next.Computes Γ record dlq unit u ties clean opened) (L : Records Γ record)
    (hq : ties p q) (hd : ctx.dlq.installed = dlq) :
    Act.wp Γ (st.call policy id depth next.call .flush)
      (fun r s' w' => Makes record dlq unit
        ((((Node.stage st policy id).machine depth).comp u).finish (s, p)) 0 ctx w r s'.2 w' ∧
          ((∀ n, r ≠ .ok n) → clean s'.1.2) ∧ ∀ n, r = .ok n → opened s'.1.2) ((s, q), ctx) w := by
  apply (Act.wp_bind ..).2
  apply L.wp_note
  simp only [Act.next_ok, Act.wp_bind, wp_own, Act.wp_get]
  apply Act.wp_mono (hn.wp_drive L policy id _ (hst s) hq hd 0)
  intro r s' w' h
  obtain ⟨⟨hmakes, hclean, hties⟩, hs⟩ := h
  have hmark : Makes record dlq unit [.inr (.flushing (some depth))] 0 ctx w (.ok 0) ctx
      (record (Note.marks (.stage depth (some .flush))) w) := by
    refine ⟨rfl, rfl, ?_⟩
    rw [upto_one, marks_one]
    rfl
  have hall := L.makes_append hmark hmakes
  cases r with
  | halt | panic => exact ⟨hall.append (by simp) _, fun _ => hclean, by simp⟩
  | ok n =>
    simp only [Act.next_ok, Act.wp_map, wp_down]
    apply Act.wp_mono (hn.flush (hties n rfl) (hmakes.same_dlq ▸ hd))
    intro r s'' w'' h'
    obtain ⟨hmakes', hclean', hopened⟩ := h'
    have hboth := L.makes_append hall (hmakes'.shift n)
    cases r with
    | ok m => exact ⟨hboth, by simp, fun _ _ => hopened m rfl⟩
    | halt | panic => exact ⟨hboth, fun _ => hclean' (by simp), by simp⟩

theorem tied_init (hn : next.Computes Γ record dlq unit u ties clean opened) (s : φ) :
    tied ties (s, u.init) (s, next.init) := ⟨rfl, hn.init⟩

/-- A stage in front of a chain that computes `u`. -/
theorem Node.link_computes (hn : next.Computes Γ record dlq unit u ties clean opened)
    (L : Records Γ record) (node : Node T U) (hnode : node.Graceful) (depth : Nat) :
    (node.link depth next).Computes Γ record dlq unit ((node.machine depth).comp u)
      (fun p q => tied ties p q) (fun q => clean q.2) (fun q => opened q.2) where
  init := tied_init hn node.init
  fresh h := hn.fresh h.2
  process {p q ctx w item} h hd := by
    obtain ⟨s, p⟩ := p
    obtain ⟨t, q⟩ := q
    obtain ⟨hs, hq⟩ := h
    cases hs
    have hgives : Act.wp Γ (node.call depth next.call (.process item))
        (Yields record dlq unit ties clean (node.feed item s) p 0 ctx w) ((s, q), ctx) w := by
      cases node with
      | item st => exact st.call_gives depth hn L hq hd item
      | retry st => exact st.attempts_gives depth hn L hq hd item _ 1
      | stage st policy id => exact st.process_gives policy id depth hnode.1 hn L hq hd item
    apply Act.wp_mono hgives
    intro r s' w' h
    obtain ⟨⟨hmakes, hclean, hties⟩, hs⟩ := h
    refine ⟨hmakes, hclean, fun n hr => ⟨?_, hties n hr⟩⟩
    exact (hs n hr).symm
  flush {p q ctx w} h hd := by
    obtain ⟨s, p⟩ := p
    obtain ⟨t, q⟩ := q
    obtain ⟨hs, hq⟩ := h
    cases hs
    cases node with
    | item st => exact (wp_down _).2 (hn.flush hq hd)
    | retry st => exact (wp_down _).2 (hn.flush hq hd)
    | stage st policy id => exact st.flush_makes policy id depth hnode.2 hn L hq hd

end Links

/-- The states of a chain go with those of its machine. -/
def Stages.tied : (stages : Stages A B) → {tail : StageFn X Y B} → {u : Transducer Incident B Y} →
    (u.φ → tail.σ → Prop) → (stages.machine u).φ → (stages.assemble tail).σ → Prop
  | .nil, _, _, ties => ties
  | .cons _ rest, _, _, ties => fun p q => PipeIo.tied (rest.tied ties) p q

theorem Stages.assemble_computes (L : Records Γ record) (stages : Stages T U)
    (hstages : stages.Graceful) {tail : StageFn X Y U} {u : Transducer Incident U Y}
    {ties : u.φ → tail.σ → Prop} {clean opened : tail.σ → Prop}
    (htail : tail.Computes Γ record dlq unit u ties clean opened) :
    (stages.assemble tail).Computes Γ record dlq unit (stages.machine u) (stages.tied ties)
      (fun q => clean (stages.tailState q)) (fun q => opened (stages.tailState q)) := by
  induction stages with
  | nil => exact htail
  | cons node rest ih => exact node.link_computes (ih hstages.2 htail) L hstages.1 rest.length

/-- `Close` and `Abort` go through all stages. -/
theorem Stages.assemble_hands (stages : Stages T U) {tail : StageFn X Y U} {signal : Signal}
    (hsignal : signal = .close ∨ signal = .abort) {ready : tail.σ → Prop} {f : W → W}
    (htail : tail.Hands Γ signal ready f) :
    (stages.assemble tail).Hands Γ signal (fun q => ready (stages.tailState q)) f := by
  induction stages with
  | nil => exact htail
  | cons node rest ih =>
    intro q ctx w hq
    obtain ⟨s, q⟩ := q
    have hrest := ih htail q ctx w hq
    rcases hsignal with rfl | rfl
    all_goals
      cases node with
      | item st => exact (wp_down _).2 hrest
      | retry st => exact (wp_down _).2 hrest
      | stage st policy id => exact (wp_down _).2 hrest

/-- An outside where the sink takes everything; closing it does `closing` to the world. -/
structure Accepts (Γ : Spec (Eff X Y) Ans W) (record : List (Mark Y) → W → W) (closing : W → W) :
    Prop where
  write (item : Y) (w : W) : Γ.pre (.write item) w ∧
    ∀ a w', Γ.post (.write item) w a w' → a = some (.ok ()) ∧ w' = record [.write item] w
  flush (w : W) : Γ.pre .flush w ∧
    ∀ a w', Γ.post .flush w a w' → a = some (.ok ()) ∧ w' = record [.flush none] w
  close (w : W) : Γ.pre .close w ∧
    ∀ a w', Γ.post .close w a w' → a = some (.ok ()) ∧ w' = closing w

section Sink

variable {closing : W → W}

theorem Accepts.wp_flush (A : Accepts Γ record closing) (id : StageId) {flags : SinkFlags}
    (h : flags.flushed = false) :
    Act.wp Γ (flushOnce id) (fun r s w' => r = .ok () ∧ s = ({ flags with flushed := true }, ctx) ∧
      w' = record [.flush none] w) (flags, ctx) w := by
  obtain ⟨hpre, hpost⟩ := A.flush w
  rw [wp_flushOnce, h, if_neg Bool.false_ne_true]
  refine ⟨hpre, fun a w' ha => ?_⟩
  obtain ⟨ha, hw⟩ := hpost a w' ha
  subst ha hw
  exact ⟨rfl, rfl, rfl⟩

theorem Accepts.wp_close (A : Accepts Γ record closing) (id : StageId) {flags : SinkFlags}
    (h : flags.closed = false ∨ closing = (fun w => w)) :
    Act.wp Γ (closeOnce id) (fun r s w' => r = .ok () ∧ s.2 = ctx ∧ w' = closing w)
      (flags, ctx) w := by
  obtain ⟨hpre, hpost⟩ := A.close w
  rw [wp_closeOnce]
  split
  · rename_i hclosed
    rcases h with h | rfl
    · exact Bool.noConfusion (hclosed.symm.trans h)
    · exact ⟨rfl, rfl, rfl⟩
  · refine ⟨hpre, fun a w' ha => ?_⟩
    obtain ⟨ha, hw⟩ := hpost a w' ha
    subst ha hw
    exact ⟨rfl, rfl, rfl⟩

theorem sink_computes (A : Accepts Γ record closing) (id : StageId) :
    (sink_fn id).Computes Γ record dlq 1 sinkMachine (fun _ flags => flags = ⟨false, false⟩)
      (fun flags => flags.flushed = false) (fun flags => flags.closed = false) where
  init := rfl
  fresh h := congrArg SinkFlags.flushed h
  process {p q ctx w item} h hd := by
    obtain ⟨hpre, hpost⟩ := A.write item w
    apply (Act.wp_bind ..).2
    refine ⟨hpre, fun a w' ha => ?_⟩
    obtain ⟨ha, hw⟩ := hpost a w' ha
    subst ha hw
    exact ⟨⟨rfl, rfl, rfl⟩, congrArg SinkFlags.flushed h, fun _ _ => h⟩
  flush {p q ctx w} h hd := by
    apply (Act.wp_bind ..).2
    apply Act.wp_mono (A.wp_flush id (congrArg SinkFlags.flushed h))
    intro r s w' hflush
    obtain ⟨hr, hs, hw⟩ := hflush
    subst hr hs hw
    refine ⟨⟨rfl, rfl, rfl⟩, fun hfail => absurd rfl (hfail 0), fun _ _ => ?_⟩
    exact congrArg SinkFlags.closed h

theorem sink_closes (A : Accepts Γ record closing) (id : StageId) :
    (sink_fn id).Hands Γ .close (fun flags => flags.closed = false) closing := by
  intro flags ctx w h
  apply (Act.wp_bind ..).2
  apply Act.wp_mono (A.wp_close id (.inl h))
  intro r s w' hclose
  obtain ⟨hr, hs, hw⟩ := hclose
  subst hr
  exact ⟨rfl, hs, hw⟩

theorem sink_aborts (A : Accepts Γ record (fun w => w)) (id : StageId) :
    (sink_fn id).Hands Γ .abort (fun flags => flags.flushed = false) (record [.flush none]) := by
  intro flags ctx w h
  apply (Act.wp_bind ..).2
  apply (Act.wp_attempt _).2
  apply Act.wp_mono (A.wp_flush id h)
  intro r s w' hflush
  obtain ⟨hr, hs, hw⟩ := hflush
  subst hr hs hw
  rw [Res.attempted_ok, Act.next_ok]
  apply (Act.wp_bind ..).2
  apply (Act.wp_attempt _).2
  apply Act.wp_mono (A.wp_close id (.inr rfl))
  intro r s' w'' hclose
  obtain ⟨hr, hs', hw⟩ := hclose
  subst hr hw
  exact ⟨rfl, hs', rfl⟩

end Sink

end Computes

end PipeIo
