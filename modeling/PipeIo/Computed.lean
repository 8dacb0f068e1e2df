import PipeIo.Computing
import PipeIo.Course

namespace PipeIo
set_option autoImplicit true

open Lib

/-- What the source has left to yield, and what a run has shown so far. -/
structure Traffic (X Y : Type) : Type 1 where
  left : List X
  marks : List (Mark Y)

def Eff.marks : Eff X Y → List (Mark Y)
  | .write item => [.write item]
  | .flush => [.flush none]
  | .deadLetter (.write failure) => [.letter failure]
  | .note n => n.marks
  | _ => []

/-- What a run shows. -/
def Log.marks (log : Log X Y) : List (Mark Y) := log.flatMap fun a => a.1.marks

namespace Traffic

def after (w : Traffic X Y) (e : Eff X Y) : Traffic X Y where
  left := if e.isPull then w.left.tail else w.left
  marks := w.marks ++ e.marks

def record (ms : List (Mark Y)) (w : Traffic X Y) : Traffic X Y :=
  { w with marks := w.marks ++ ms }

/-- The source yields what is left, and nothing fails. -/
def Answers (w : Traffic X Y) : (e : Eff X Y) → Ans e → Prop
  | .pull, a => a = some (.ok w.left.head?)
  | .closeSource, a | .write _, a | .flush, a | .close, a | .deadLetter _, a => a = some (.ok ())
  | .observe _, a => a = some ()
  | .isCancelled, a => a = false
  | .sleep _, a => a = true
  | _, _ => True

end Traffic

def served : Spec (Eff X Y) Ans (Traffic X Y) where
  pre _ _ := True
  post e w a w' := w.Answers e a ∧ w' = w.after e

section Served

variable {X Y : Type} {w : Traffic X Y} {H σ : Type} {s : σ}

theorem wp_request {e : Eff X Y} {Q : Res H (Ans e) → σ → Traffic X Y → Prop}
    (h : ∀ a, w.Answers e a → Q (.ok a) s (w.after e)) : Act.wp served (request e) Q s w := by
  refine ⟨trivial, fun a w' ha => ?_⟩
  rw [ha.2]
  exact h a ha.1

theorem served_records : Records (served : Spec (Eff X Y) Ans (Traffic X Y)) Traffic.record where
  nil w := by simp [Traffic.record]
  append xs ys w := by simp [Traffic.record]
  note n w := ⟨trivial, fun _ _ h => h.2⟩
  observe event w := by
    refine ⟨trivial, fun a w' h => ⟨h.1, h.2.trans ?_⟩⟩
    simp [Traffic.after, Eff.isPull, Eff.marks]
  letter failure w := ⟨trivial, fun _ _ h => h⟩
  sleep delay w := by
    refine ⟨trivial, fun a w' h => ⟨h.1, h.2.trans ?_⟩⟩
    simp [Traffic.after, Eff.isPull, Eff.marks]

theorem served_accepts : Accepts (served : Spec (Eff X Y) Ans (Traffic X Y)) Traffic.record
    (fun w => w) where
  write item w := ⟨trivial, fun _ _ h => h⟩
  flush w := ⟨trivial, fun _ _ h => h⟩
  close w := by
    refine ⟨trivial, fun a w' h => ⟨h.1, h.2.trans ?_⟩⟩
    simp [Traffic.after, Eff.isPull, Eff.marks]

theorem wp_note_served (n : Note) (hn : n.marks = ([] : List (Mark Y)))
    {Q : Res H Unit → σ → Traffic X Y → Prop} (h : Q (.ok ()) s w) :
    Act.wp served (note n) Q s w := by
  apply served_records.wp_note
  rw [hn, served_records.nil]
  exact h

/-- What a request that is neither a pull nor shown leaves behind. -/
theorem Traffic.after_quiet {e : Eff X Y} (hpull : e.isPull = false) (hmarks : e.marks = []) :
    w.after e = w := by
  simp [Traffic.after, hpull, hmarks]

theorem Traffic.after_pull (left : List X) (ms : List (Mark Y)) :
    (⟨left, ms⟩ : Traffic X Y).after .pull = ⟨left.tail, ms⟩ := by
  simp [Traffic.after, Eff.isPull, Eff.marks]

/-- A chain that computes `t` in front of the sink. -/
structure StageFn.Serves (c : StageFn X Y X) (dlq : Bool) (t : Transducer Incident X Y)
    (ties : t.φ → c.σ → Prop) (clean opened : c.σ → Prop) : Prop where
  computes : c.Computes served Traffic.record dlq 1 t ties clean opened
  closes : c.Hands served .close opened fun w => w
  aborts : c.Hands served .abort clean (Traffic.record [.flush none])

variable {c : StageFn X Y X} {t : Transducer Incident X Y} {ties : t.φ → c.σ → Prop}
  {clean opened : c.σ → Prop} {dlq : Bool} {r : Runner c.σ} {p : t.φ} {q : c.σ}

theorem wp_chainFn_served {op : StageOp X} {Q : Res Halt Nat → Runner c.σ → Traffic X Y → Prop}
    (hq : r.chain = some q) (h : Act.wp served (c.call op)
      (fun res s w' => Q res { r with chain := some s.1, ctx := s.2 } w') (q, r.ctx) w) :
    Act.wp served (Runner.chainFn c op) Q r w := by
  apply (Act.wp_bind ..).2
  apply wp_note_served _ rfl
  simp only [Act.next_ok, Act.wp_bind, Act.wp_get, hq, Act.wp_attempt, Act.wp_zoom]
  apply Act.wp_mono h
  intro res s' w' hQ
  cases res with
  | ok n => exact hQ
  | panic => exact hQ
  | halt halt =>
    apply (Act.wp_bind ..).2
    apply wp_note_served _ rfl
    exact hQ

/-- The marks themselves, without the rest of the world. -/
def append_marks (new ms : List (Mark Y)) : List (Mark Y) := ms ++ new

theorem appends_marks : Appends (append_marks : List (Mark Y) → _) where
  nil ms := List.append_nil ms
  append xs ys ms := (List.append_assoc ms xs ys).symm

theorem Makes.shown {zs : List (Y ⊕ Incident)} {n : Nat} {ctx ctx' : Ctx} {res : Res Halt Nat}
    {w' : Traffic X Y} (h : Makes Traffic.record dlq 1 zs n ctx w res ctx' w') :
    Makes append_marks dlq 1 zs n ctx w.marks res ctx' w'.marks := by
  refine ⟨h.settled, h.charged, ?_⟩
  rw [h.recorded]
  rfl

/-- What the pull loop makes of items: it ends where they settle. -/
structure Pumped (ties : φ → σ → Prop) (clean : σ → Prop) (dlq : Bool)
    (zs : List (Y ⊕ Incident) × φ) (pulls : Nat) (r : Runner σ) (k n : Nat) (ms : List (Mark Y))
    (res : Res H (Option PumpEnd)) (s : Runner σ × (Nat × Nat)) (ms' : List (Mark Y))
    (result : Res Halt Nat) (q : σ) : Prop where
  makes : Makes append_marks dlq 1 zs.1 n r.ctx ms result s.1.ctx ms'
  runner : s.1 = { r with chain := some q, ctx := s.1.ctx }
  clean : clean q
  ok : ∀ m, result = .ok m → res = .ok (some .graceful) ∧ s.2 = (k + pulls, m) ∧ ties zs.2 q
  halt : ∀ halt, result = .halt halt → res = .ok (some (halted halt))
  panic : result = .panic → res = .panic

theorem wp_pulls (hc : c.Serves dlq t ties clean opened) {left : List X}
    {fuel k n : Nat} {ms : List (Mark Y)} (hfuel : left.length < fuel) (hchain : r.chain = some q)
    (hq : ties p q) (hd : r.ctx.dlq.installed = dlq) :
    Act.wp served (Act.repeatUntil (Runner.pull_loop c false) fuel)
      (fun (res : Res H _) s w' => ∃ result q', Pumped ties clean dlq
        (t.feedAll (left.map .inl) p) left.length r k n ms res s w'.marks result q')
      (r, (k, n)) ⟨left, ms⟩ := by
  induction left generalizing fuel k n ms r p q with
  | nil =>
    obtain ⟨fuel, rfl⟩ := Nat.exists_eq_add_one_of_ne_zero (Nat.ne_zero_of_lt hfuel)
    rw [Act.repeatUntil, Runner.pull_loop, is_cancelled]
    simp only [Bool.false_eq_true, if_false, Act.wp_bind, Act.wp_pure, Act.next_ok]
    apply wp_request
    intro a ha
    have ha : a = some (.ok none) := ha
    subst ha
    rw [Traffic.after_pull]
    refine ⟨.ok n, q, appends_marks.makes_nil n r.ctx ms, ?_, hc.computes.fresh hq, ?_, by simp,
      by simp⟩
    · rw [← hchain]
    · intro m hm
      cases hm
      exact ⟨rfl, rfl, hq⟩
  | cons x left ih =>
    obtain ⟨fuel, rfl⟩ := Nat.exists_eq_add_one_of_ne_zero (Nat.ne_zero_of_lt hfuel)
    rw [Act.repeatUntil, Runner.pull_loop, is_cancelled]
    simp only [Bool.false_eq_true, if_false, Act.wp_bind, Act.wp_pure, Act.next_ok]
    apply wp_request
    intro a ha
    have ha : a = some (.ok (some x)) := ha
    subst ha
    rw [Traffic.after_pull]
    simp only [Act.next_ok, wp_outcome_some, Act.wp_bind, Act.wp_modify, Act.wp_attempt, Act.wp_zoom]
    apply wp_chainFn_served hchain
    apply Act.wp_mono (hc.computes.process hq hd)
    intro res s' w' h
    obtain ⟨hmakes, hclean, hties⟩ := h
    have hshown := hmakes.shown.shift n
    have hleft : w' = ⟨left, w'.marks⟩ := by
      rw [hmakes.recorded]
      rfl
    cases res with
    | panic =>
      refine ⟨.panic, s'.1, hshown.append (by simp [Res.plus]) _, rfl, hclean, by simp, by simp, ?_⟩
      intro _
      rfl
    | halt halt =>
      refine ⟨.halt halt, s'.1, hshown.append (by simp [Res.plus]) _, rfl, hclean, by simp, ?_, by simp⟩
      intro h hh
      cases hh
      rfl
    | ok m =>
      simp only [Res.attempted_ok, Act.next_ok, Act.wp_bind, Act.wp_modify, Act.wp_pure]
      have hlen : left.length < fuel := Nat.lt_of_succ_lt_succ hfuel
      rw [hleft]
      apply Act.wp_mono (ih (r := { r with chain := some s'.1, ctx := s'.2 }) (k := k + 1)
        (n := n + m) hlen rfl (hties m rfl) (hmakes.same_dlq ▸ hd))
      intro res' s'' w'' h
      obtain ⟨result, q', hp⟩ := h
      have hall := appends_marks.makes_append hshown hp.makes
      refine ⟨result, q', hall, hp.runner, hp.clean, ?_, hp.halt, hp.panic⟩
      intro m' hm'
      obtain ⟨hres, hcount, hties'⟩ := hp.ok m' hm'
      refine ⟨hres, ?_, hties'⟩
      rw [hcount, List.length_cons, Nat.add_assoc, Nat.add_comm 1]

section Teardown

variable {f : FirstError}

/-- Neither the flush nor the close of the dead-letter sink is shown. -/
theorem wp_dlq_call_served {op : DeadLetterOp} (hop : ∀ failure, op ≠ .write failure) {d : Dlq} :
    Act.wp served (Dlq.call op) (fun res _ w' => res = .ok () ∧ w' = w) d w := by
  match op, d with
  | .write failure, _ => exact absurd rfl (hop failure)
  | .flush, .absent | .close, .absent | .flush, .sink true _ | .close, .sink _ true =>
    exact ⟨rfl, rfl⟩
  | .flush, .sink false closed =>
    simp only [Dlq.call, Act.wp_bind, Act.wp_get, Act.next_ok, Act.wp_modify]
    apply wp_request
    intro a ha
    have ha : a = some (.ok ()) := ha
    subst ha
    exact ⟨rfl, Traffic.after_quiet rfl rfl⟩
  | .close, .sink flushed false =>
    simp only [Dlq.call, Act.wp_bind, Act.wp_get, Act.next_ok, Act.wp_modify]
    apply wp_request
    intro a ha
    have ha : a = some (.ok ()) := ha
    subst ha
    exact ⟨rfl, Traffic.after_quiet rfl rfl⟩

theorem wp_dlq_finish_served {observer : Bool} {d : Dlq} : Act.wp served (Dlq.finish observer)
    (fun res _ w' => res = .ok () ∧ w' = w) d w := by
  apply (Act.wp_bind ..).2
  apply (Act.wp_attempt _).2
  apply Act.wp_mono (wp_dlq_call_served (by simp))
  intro res d' w' h
  obtain ⟨hr, hw⟩ := h
  subst hr hw
  rw [Res.attempted_ok, Act.next_ok]
  apply (Act.wp_bind ..).2
  apply (Act.wp_attempt _).2
  apply Act.wp_mono (wp_dlq_call_served (by simp))
  intro res d'' w'' h
  obtain ⟨hr, hw⟩ := h
  subst hr hw
  exact ⟨rfl, rfl⟩

/-- The rest of a teardown shows nothing and counts nothing. -/
structure Runner.Keeps (r : Runner σ) (f : FirstError) (w : Traffic X Y) (res : Res H Unit)
    (s : Runner σ × FirstError) (w' : Traffic X Y) : Prop where
  ok : res = .ok ()
  first : s.2 = f
  tally : s.1.ctx.tally = r.ctx.tally
  observer : s.1.ctx.observer = r.ctx.observer
  world : w' = w

theorem wp_close_source_served : Act.wp (H := H) (α := Unit) served Runner.close_source
    (Runner.Keeps r f w) (r, f) w := by
  simp only [Runner.close_source, Act.wp_bind, Act.wp_get, Act.next_ok]
  split
  · exact ⟨rfl, rfl, rfl, rfl, rfl⟩
  · simp only [Act.wp_bind, Act.wp_modify, Act.next_ok]
    apply wp_request
    intro a ha
    have ha : a = some (.ok ()) := ha
    subst ha
    exact ⟨rfl, rfl, rfl, rfl, Traffic.after_quiet rfl rfl⟩

theorem wp_finish_dlq_served : Act.wp (H := H) (α := Unit) served Runner.finish_dlq
    (Runner.Keeps r f w) (r, f) w := by
  simp only [Runner.finish_dlq, Act.wp_bind, Act.wp_get, Act.next_ok]
  split
  · simp only [Act.wp_bind, Act.wp_attempt, Runner.onDlq, Act.wp_get, Act.next_ok, Act.wp_zoom]
    apply Act.wp_mono wp_dlq_finish_served
    intro res d w' h
    obtain ⟨hr, hw⟩ := h
    subst hr hw
    exact ⟨rfl, rfl, rfl, rfl, rfl⟩
  · exact ⟨rfl, rfl, rfl, rfl, rfl⟩

theorem wp_close_rest_served (hd : r.segments_done = false) :
    Act.wp (H := H) (α := Unit) served Runner.close_rest (Runner.Keeps r f w) (r, f) w := by
  simp only [Runner.close_rest, Runner.wait_segments, Act.wp_bind, Act.wp_get, Act.next_ok, hd,
    Bool.false_eq_true, if_false, Act.wp_pure]
  apply Act.wp_mono wp_close_source_served
  intro res s w' h
  obtain ⟨hr, hfirst, htally, hobserver, hw⟩ := h
  subst hr hw
  apply Act.wp_mono wp_finish_dlq_served
  intro res s' w' h
  exact ⟨h.ok, h.first.trans hfirst, h.tally.trans htally, h.observer.trans hobserver, h.world⟩

theorem wp_call_served {op : StageOp X} {Q : Res Halt Unit → Runner c.σ → Traffic X Y → Prop}
    (hq : r.chain = some q) (h : Act.wp served (c.call op) (fun res s w' =>
      Q res.void { r with
        chain := some s.1
        ctx := { s.2 with tally := { s.2.tally with
          items_out := s.2.tally.items_out + match res with
            | .ok n => n
            | .halt _ | .panic => 0 } } } w') (q, r.ctx) w) :
    Act.wp served (Runner.call c op) Q r w := by
  apply (Act.wp_bind ..).2
  apply wp_chainFn_served hq
  apply Act.wp_mono h
  intro res s w' hQ
  cases res <;> exact hQ

theorem wp_offer_halt_served (halt : Halt) : Act.wp (H := H) (α := Unit) served
    (Runner.onFirst (FirstError.offer_halt (.error halt))) (fun res s w' => res = .ok () ∧
      s.1 = r ∧ (∀ e, halt = .failed e → s.2 = some e) ∧ w' = w) (r, none) w := by
  cases halt with
  | disconnected => exact ⟨rfl, rfl, by simp, rfl⟩
  | failed e =>
    refine ⟨rfl, rfl, ?_, rfl⟩
    intro e' he
    cases he
    rfl

/-- An aborted chain flushes the sink if it was not flushed. -/
theorem wp_abort_served (hc : c.Serves dlq t ties clean opened)
    (hchain : r.chain = some q) (hq : clean q) (hd : r.segments_done = false) :
    Act.wp (H := H) (α := Unit) served (Runner.abort c)
      (fun res s w' => res = .ok () ∧ s.2 = f ∧ s.1.live = false ∧
        s.1.ctx.tally = r.ctx.tally ∧ w' = w.record [.flush none]) (r, f) w := by
  apply (Act.wp_bind ..).2
  apply (Act.wp_attempt _).2
  apply (Act.wp_zoom ..).2
  apply wp_call_served hchain
  apply Act.wp_mono (hc.aborts _ _ _ hq)
  intro res s w' h
  obtain ⟨hr, hs, hw⟩ := h
  subst hr hw
  simp only [Res.void, Res.attempted_ok, Act.next_ok, Act.wp_bind, Runner.onFirst, Act.wp_get,
    Act.wp_zoom, FirstError.offer_halt, Act.wp_pure]
  apply Act.wp_mono (wp_close_rest_served (by exact hd))
  intro res s' w' h
  obtain ⟨hr, hfirst, htally, hobserver, hw⟩ := h
  subst hr
  exact ⟨rfl, hfirst, rfl, htally.trans (congrArg Ctx.tally hs), hw⟩

/-- The end of a run whose pull loop ended gracefully; `zs` is what the flush makes. -/
structure Runner.Finished (dlq : Bool) (zs : List (Y ⊕ Incident)) (r : Runner σ)
    (clean : σ → Prop) (ms : List (Mark Y)) (res : Res H Unit) (s : Runner σ × FirstError)
    (ms' : List (Mark Y)) : Prop where
  ok : ∀ n, settle zs = .ok n → res = .ok () ∧ s.2 = none ∧ ms' = ms ++ marks dlq zs ∧
    s.1.live = false ∧ s.1.ctx.tally =
      { charge r.ctx.tally zs with items_out := (charge r.ctx.tally zs).items_out + n }
  halt : ∀ e, settle zs = .halt (.failed e) → res = .ok () ∧ s.2 = some e ∧
    ms' = ms ++ marks dlq (upto zs) ++ [.flush none] ∧ s.1.live = false
  panic : settle zs = .panic → res = .panic ∧ s.2 = none ∧ ms' = ms ++ marks dlq (upto zs) ∧
    s.1.segments_done = false ∧ s.1.live = r.live ∧ ∃ q, s.1.chain = some q ∧ clean q

theorem wp_finish_served (hc : c.Serves dlq t ties clean opened)
    (hchain : r.chain = some q) (hq : ties p q) (hd : r.ctx.dlq.installed = dlq)
    (hs : r.segments_done = false) :
    Act.wp (H := H) (α := Unit) served (Runner.finish c)
      (fun res s w' => Runner.Finished dlq (t.finish p) r clean w.marks res s w'.marks)
      (r, none) w := by
  apply (Act.wp_bind ..).2
  apply (Act.wp_attempt _).2
  apply (Act.wp_zoom ..).2
  apply wp_call_served hchain
  apply Act.wp_mono (hc.computes.flush hq hd)
  intro res s w' h
  obtain ⟨hmakes, hclean, hopened⟩ := h
  have hsettled : res = settle (t.finish p) :=
    hmakes.settled.trans ((Res.plus_zero _).trans (Res.times_one _))
  have hshown := hmakes.shown.recorded
  cases res with
  | panic =>
    refine ⟨?_, ?_, ?_⟩
    · intro n hn
      rw [← hsettled] at hn
      cases hn
    · intro e he
      rw [← hsettled] at he
      cases he
    · intro _
      exact ⟨rfl, rfl, hshown, hs, rfl, s.1, rfl, hclean (by simp)⟩
  | ok n =>
    have hall : upto (t.finish p) = t.finish p := upto_ok hsettled.symm
    simp only [Res.void, Res.attempted_ok, Act.next_ok, Act.wp_bind, Act.wp_attempt, Runner.onRunner,
      Act.wp_zoom]
    apply wp_call_served rfl
    apply Act.wp_mono (hc.closes _ _ _ (hopened n rfl))
    intro res s' w'' h
    obtain ⟨hr, hs', hw⟩ := h
    subst hr hw
    simp only [Res.void, Res.attempted_ok, Act.next_ok, Act.wp_bind, Runner.onFirst, Act.wp_get,
      Act.wp_zoom, FirstError.offer_halt, Act.wp_pure]
    apply Act.wp_mono (wp_close_rest_served (by exact hs))
    intro res s'' w' h
    obtain ⟨hr, hfirst, htally, hobserver, hw⟩ := h
    subst hr hw
    refine ⟨?_, ?_, ?_⟩
    · intro m hm
      rw [← hsettled] at hm
      cases hm
      refine ⟨rfl, hfirst, hall ▸ hshown, rfl, htally.trans ?_⟩
      have hcharged := hmakes.charged
      rw [hall] at hcharged
      rw [hs', hcharged]
      rfl
    · intro e he
      rw [← hsettled] at he
      cases he
    · intro he
      rw [← hsettled] at he
      cases he
  | halt halt =>
    simp only [Res.void, Res.attempted_halt, Act.next_ok, Act.wp_bind]
    apply Act.wp_mono (wp_offer_halt_served halt)
    intro res s' w'' h
    obtain ⟨hr, hrunner, hfirst, hw⟩ := h
    obtain ⟨r', f⟩ := s'
    subst hr hrunner hw
    simp only [Act.next_ok, Act.wp_bind, Act.wp_attempt, Runner.onRunner, Act.wp_zoom]
    apply wp_call_served rfl
    apply Act.wp_mono (hc.aborts _ _ _ (hclean (by simp)))
    intro res s' w' h
    obtain ⟨hr, hs', hw⟩ := h
    subst hr hw
    simp only [Res.void, Res.attempted_ok, Act.next_ok, Act.wp_bind, Runner.onFirst, Act.wp_get,
      Act.wp_zoom, FirstError.offer_halt, Act.wp_pure]
    apply Act.wp_mono (wp_close_rest_served (by exact hs))
    intro res s'' w' h
    obtain ⟨hr, hfirst', htally, hobserver, hw⟩ := h
    subst hr hw
    refine ⟨?_, ?_, ?_⟩
    · intro n hn
      rw [← hsettled] at hn
      cases hn
    · intro e he
      rw [← hsettled] at he
      cases he
      refine ⟨rfl, hfirst'.trans (hfirst e rfl), ?_, rfl⟩
      exact congrArg (fun ms => ms ++ [Mark.flush none]) hshown
    · intro he
      rw [← hsettled] at he
      cases he

/-- What dropping a runner in the middle of a run shows. -/
theorem wp_drop_served (hc : c.Serves dlq t ties clean opened)
    (hchain : r.chain = some q) (hq : clean q) (hs : r.segments_done = false)
    (hlive : r.live = true) : Act.wp (H := H) (α := Unit) served (Runner.drop c)
      (fun res _ w' => res = .ok () ∧ w' = w.record [.flush none]) r w := by
  simp only [Runner.drop, Act.wp_bind, Act.wp_get, Act.next_ok, hlive, if_true, Act.wp_zoom,
    Runner.retries, Act.wp_contain]
  apply Act.wp_mono (wp_abort_served hc hchain hq hs)
  intro res s w' h
  obtain ⟨hr, hfirst, hdead, htally, hw⟩ := h
  subst hr hw
  simp only [Res.contained_ok, Act.next_ok, Act.wp_bind, Act.wp_get, hdead, Bool.false_eq_true,
    if_false, Act.wp_pure, hfirst, FirstError.into_result]
  exact ⟨trivial, trivial⟩

/-- Dropping a runner whose run has ended does nothing. -/
theorem wp_drop_ended (hlive : r.live = false) {Q : Res H Unit → Runner c.σ → Traffic X Y → Prop}
    (h : Q (.ok ()) r w) : Act.wp served (Runner.drop c) Q r w := by
  simp only [Runner.drop, Act.wp_bind, Act.wp_get, Act.next_ok, hlive, Bool.false_eq_true, if_false]
  exact h

end Teardown

/-- The pull loop of a run, with its counters published. -/
structure Runner.Drained (ties : φ → σ → Prop) (clean : σ → Prop) (dlq : Bool)
    (zs : List (Y ⊕ Incident) × φ) (pulls : Nat) (r : Runner σ) (ms : List (Mark Y))
    (res : Res H (Option PumpEnd)) (s : Runner σ) (ms' : List (Mark Y)) : Prop where
  ok : ∀ n, settle zs.1 = .ok n → res = .ok (some .graceful) ∧ ms' = ms ++ marks dlq zs.1 ∧
    s.ctx.tally = { charge r.ctx.tally zs.1 with
      items_in := (charge r.ctx.tally zs.1).items_in + pulls
      items_out := (charge r.ctx.tally zs.1).items_out + n } ∧
    ∃ q, s.chain = some q ∧ ties zs.2 q
  halt : ∀ halt, settle zs.1 = .halt halt → res = .ok (some (halted halt)) ∧
    ms' = ms ++ marks dlq (upto zs.1) ∧ ∃ q, s.chain = some q ∧ clean q
  panic : settle zs.1 = .panic → res = .panic ∧ ms' = ms ++ marks dlq (upto zs.1) ∧
    ∃ q, s.chain = some q ∧ clean q
  runner : s = { r with chain := s.chain, ctx := s.ctx }
  letters : s.ctx.dlq = r.ctx.dlq

theorem wp_pump_served (hc : c.Serves dlq t ties clean opened) {left : List X}
    {fuel : Nat} {ms : List (Mark Y)} (hfuel : left.length < fuel) (hchain : r.chain = some q)
    (hq : ties p q) (hd : r.ctx.dlq.installed = dlq) :
    Act.wp (H := H) served (Runner.pump c fuel none false)
      (fun res s w' => Runner.Drained ties clean dlq (t.feedAll (left.map .inl) p) left.length r ms
        res s w'.marks) r ⟨left, ms⟩ := by
  apply (Act.wp_zoom ..).2
  apply (Act.wp_bind ..).2
  apply Act.wp_mono (wp_pulls hc hfuel hchain hq hd)
  intro res s w' h
  obtain ⟨result, q', hp⟩ := h
  have hsettled : settle (t.feedAll (left.map .inl) p).1 = result := by
    rw [hp.makes.settled, Res.plus_zero, Res.times_one]
  have hmarks := hp.makes.recorded
  have hcharged := hp.makes.charged
  have hrunner := hp.runner
  obtain ⟨runner, counters⟩ := s
  have hs : runner = { r with
      chain := some q'
      ctx := { r.ctx with tally := charge r.ctx.tally (upto (t.feedAll (left.map .inl) p).1) } } :=
    hrunner.trans (by rw [hcharged])
  clear hrunner hcharged
  subst hs
  cases result with
  | ok m =>
    obtain ⟨hres, hcount, hties⟩ := hp.ok m rfl
    have hcount : counters = (0 + left.length, m) := hcount
    subst hres hcount
    have hall := upto_ok hsettled
    rw [hall] at hmarks
    refine ⟨?_, ?_, ?_, ?_, ?_⟩
    · intro n hn
      cases hn.symm.trans hsettled
      refine ⟨rfl, hmarks, ?_, q', rfl, hties⟩
      simp only [hall, Nat.zero_add]
    · intro halt hh
      cases hh.symm.trans hsettled
    · intro hh
      cases hh.symm.trans hsettled
    · rfl
    · rfl
  | halt halt =>
    have hres := hp.halt halt rfl
    subst hres
    refine ⟨?_, ?_, ?_, ?_, ?_⟩
    · intro n hn
      cases hn.symm.trans hsettled
    · intro halt hh
      cases hh.symm.trans hsettled
      exact ⟨rfl, hmarks, q', rfl, hp.clean⟩
    · intro hh
      cases hh.symm.trans hsettled
    · rfl
    · rfl
  | panic =>
    have hres := hp.panic rfl
    subst hres
    refine ⟨?_, ?_, ?_, ?_, ?_⟩
    · intro n hn
      cases hn.symm.trans hsettled
    · intro halt hh
      cases hh.symm.trans hsettled
    · intro hh
      exact ⟨rfl, hmarks, q', rfl, hp.clean⟩
    · rfl
    · rfl

/-- How a run ends whose flush makes `zs`, or which had failed before. -/
structure Concluded (dlq : Bool) (zs : List (Y ⊕ Incident)) (t : Tally) (ms : List (Mark Y))
    (res : Res Error RunStats) (p : Pipeline σ) (ms' : List (Mark Y)) : Prop where
  ok : ∀ n, settle zs = .ok n → ∃ stats, res = .ok stats ∧ p.state = .ended stats true ∧
    stats = { charge t zs with items_out := (charge t zs).items_out + n }.to_stats ∧
    ms' = ms ++ marks dlq zs
  halt : ∀ e, settle zs = .halt (.failed e) → res = .halt e ∧
    (∃ stats, p.state = .ended stats false) ∧ ms' = ms ++ marks dlq (upto zs) ++ [.flush none]
  panic : settle zs = .panic → res = .panic ∧ (∃ stats, p.state = .ended stats false) ∧
    ms' = ms ++ marks dlq (upto zs) ++ [.flush none]

theorem wp_conclude_graceful (hc : c.Serves dlq t ties clean opened)
    {pipeline : Pipeline c.σ} (hstate : pipeline.state = .running r) (hchain : r.chain = some q)
    (hq : ties p q) (hd : r.ctx.dlq.installed = dlq) (hs : r.segments_done = false)
    (hlive : r.live = true) :
    Act.wp served (Pipeline.conclude c .graceful) (fun res pipeline' w' =>
      Concluded dlq (t.finish p) r.ctx.tally w.marks res pipeline' w'.marks) pipeline w := by
  simp only [Pipeline.conclude, Act.wp_bind, Act.wp_get, Act.next_ok, hstate, Pipeline.setState,
    Act.wp_modify, Act.wp_withLocal, Pipeline.conclusion, Pipeline.teardown]
  apply Act.wp_mono (wp_finish_served hc hchain hq hd hs)
  intro res s w' h
  obtain ⟨runner, first⟩ := s
  cases hz : settle (t.finish p) with
  | ok n =>
    obtain ⟨hr, hfirst, hmarks, hdead, htally⟩ := h.ok n hz
    have hfirst : first = none := hfirst
    subst hr hfirst
    simp only [Act.next_ok, Act.wp_bind, Act.wp_get]
    apply served_records.wp_emitEvent
    simp only [Act.next_ok, Act.wp_pure, Act.wp_zoom]
    apply wp_drop_ended hdead
    refine ⟨?_, ?_, ?_⟩
    · intro m hm
      cases hm.symm.trans hz
      exact ⟨_, rfl, rfl, congrArg Tally.to_stats htally, hmarks⟩
    · intro e he
      cases he.symm.trans hz
    · intro he
      cases he.symm.trans hz
  | halt halt =>
    obtain ⟨e, rfl⟩ := settle_failed hz
    obtain ⟨hr, hfirst, hmarks, hdead⟩ := h.halt e hz
    have hfirst : first = some e := hfirst
    subst hr hfirst
    simp only [Act.next_ok, Act.wp_bind, Act.wp_get]
    apply served_records.wp_emitEvent
    simp only [Act.next_ok, Act.wp_pure, Act.wp_zoom]
    apply wp_drop_ended hdead
    refine ⟨?_, ?_, ?_⟩
    · intro m hm
      cases hm.symm.trans hz
    · intro e' he
      cases he.symm.trans hz
      exact ⟨rfl, ⟨_, rfl⟩, hmarks⟩
    · intro he
      cases he.symm.trans hz
  | panic =>
    obtain ⟨hr, hfirst, hmarks, hs', hlive', q', hchain', hclean⟩ := h.panic hz
    subst hr
    simp only [Act.next_panic, Act.wp_zoom]
    apply Act.wp_mono (wp_drop_served hc hchain' hclean hs' (hlive'.trans hlive))
    intro res s' w'' hdrop
    refine ⟨?_, ?_, ?_⟩
    · intro m hm
      cases hm.symm.trans hz
    · intro e he
      cases he.symm.trans hz
    · intro _
      refine ⟨rfl, ⟨_, rfl⟩, ?_⟩
      rw [hdrop.2, ← hmarks]
      rfl

/-- A run that failed in its pull loop. -/
theorem wp_conclude_refused (hc : c.Serves dlq t ties clean opened)
    {pipeline : Pipeline c.σ} (hstate : pipeline.state = .running r) (hchain : r.chain = some q)
    (hq : clean q) (hs : r.segments_done = false) (e : Error) :
    Act.wp served (Pipeline.conclude c (.failed e)) (fun res pipeline' w' => res = .halt e ∧
      (∃ stats, pipeline'.state = .ended stats false) ∧ w'.marks = w.marks ++ [.flush none])
      pipeline w := by
  simp only [Pipeline.conclude, Act.wp_bind, Act.wp_get, Act.next_ok, hstate, Pipeline.setState,
    Act.wp_modify, Act.wp_withLocal, Pipeline.conclusion, Pipeline.teardown, Runner.onFirst,
    FirstError.offer, Act.wp_zoom]
  apply Act.wp_mono (wp_abort_served hc hchain hq hs)
  intro res s w' h
  obtain ⟨hr, hfirst, hdead, htally, hw⟩ := h
  obtain ⟨runner, first⟩ := s
  have hfirst : first = some e := hfirst
  subst hr hfirst hw
  simp only [Act.next_ok, Act.wp_bind, Act.wp_get]
  apply served_records.wp_emitEvent
  simp only [Act.next_ok, Act.wp_pure, Act.wp_zoom]
  apply wp_drop_ended hdead
  exact ⟨rfl, ⟨_, rfl⟩, rfl⟩

/-- The machine of a whole run, from the source to the sink. -/
structure Computed (dlq : Bool) (zs : List (Y ⊕ Incident)) (pulls : Nat)
    (res : Res Empty (Option (Outcome Unit))) (p : Pipeline σ) (ms : List (Mark Y)) : Prop where
  ok : ∀ n, settle zs = .ok n → res = .ok (some (.ok ())) ∧
    p.stats = { charge .zero zs with items_in := pulls, items_out := n }.to_stats ∧
    ms = marks dlq zs
  err : ∀ e, settle zs = .halt (.failed e) →
    res = .ok (some (.err e)) ∧ ms = marks dlq (upto zs) ++ [.flush none]
  panicked : settle zs = .panic →
    res = .ok (some .panicked) ∧ ms = marks dlq (upto zs) ++ [.flush none]

theorem wp_run_served {built : Built} {source_id : StageId} {xs : List X} {fuel : Nat}
    (hc : c.Serves built.dead_letter t ties clean opened)
    (hfuel : xs.length < fuel) :
    Act.wp served (Pipeline.last c (.run fuel)) (fun res p w' =>
      Computed built.dead_letter (t.outputs (xs.map .inl)) xs.length res p w'.marks)
      (Pipeline.new source_id none none built) ⟨xs, []⟩ := by
  have hd : (Dlq.new built.dead_letter).installed = built.dead_letter := by
    cases built.dead_letter <;> rfl
  simp only [Pipeline.last, Pipeline.run_sync, Act.wp_bind, wp_caught, Pipeline.ensure_started,
    Pipeline.new, Act.wp_get, Act.next_ok, Pipeline.take_built, Pipeline.setState, Act.wp_modify,
    Act.wp_pure]
  apply served_records.wp_emitEvent
  simp only [Act.next_ok, Act.wp_modify, Act.wp_bind, Act.wp_get, Pipeline.onRunner, Act.wp_zoom]
  apply Act.wp_mono (wp_pump_served hc hfuel rfl hc.computes.init hd)
  intro res s w' h
  have hrunner := h.runner
  have hletters := h.letters
  have hs : s.segments_done = false := by rw [hrunner]; rfl
  have hlive : s.live = true := by rw [hrunner]; rfl
  have houtputs : t.outputs (xs.map .inl) = (t.feedAll (xs.map .inl) t.init).1 ++
      t.finish (t.feedAll (xs.map .inl) t.init).2 := rfl
  generalize t.feedAll (xs.map .inl) t.init = fed at h houtputs
  cases hz : settle fed.1 with
  | ok n =>
    obtain ⟨hr, hmarks, htally, q, hchain, hq⟩ := h.ok n hz
    subst hr
    obtain ⟨hsettle, hupto⟩ := settle_append hz (t.finish fed.2)
    rw [← houtputs] at hsettle hupto
    simp only [Act.next_ok, Act.wp_map]
    apply Act.wp_mono (wp_conclude_graceful hc rfl hchain hq (by rw [hletters]; exact hd) hs hlive)
    intro res p' w'' hend
    cases hz' : settle (t.finish fed.2) with
    | ok m =>
      obtain ⟨stats, hr, hstate, hstats, hmarks'⟩ := hend.ok m hz'
      subst hr
      simp only [Act.next_ok, Outcome.ofResult, Act.wp_bind, Pipeline.drop, Act.wp_get, hstate,
        Act.wp_pure]
      refine ⟨?_, ?_, ?_⟩
      · intro k hk
        refine ⟨rfl, ?_, ?_⟩
        · have hk' : n + m = k := by
            rw [hsettle, hz'] at hk
            exact Res.ok.inj hk
          have hzero : s.ctx.tally = { charge .zero fed.1 with
              items_in := (charge .zero fed.1).items_in + xs.length
              items_out := (charge .zero fed.1).items_out + n } := htally
          simp only [Pipeline.stats, hstate, hstats, hzero, charge_items, houtputs, charge_append,
            charge_zero_items, Nat.zero_add, hk']
        · rw [hmarks', hmarks, houtputs, marks_append, List.nil_append]
      · intro e he
        rw [hsettle, hz'] at he
        cases he
      · intro he
        rw [hsettle, hz'] at he
        cases he
    | halt halt =>
      obtain ⟨e, rfl⟩ := settle_failed hz'
      obtain ⟨hr, ⟨stats, hstate⟩, hmarks'⟩ := hend.halt e hz'
      subst hr
      simp only [Act.next_halt, Outcome.ofResult, Act.wp_bind, Pipeline.drop, Act.wp_get, Act.next_ok,
        hstate, Act.wp_pure]
      refine ⟨?_, ?_, ?_⟩
      · intro k hk
        rw [hsettle, hz'] at hk
        cases hk
      · intro e' he
        rw [hsettle, hz'] at he
        cases he
        refine ⟨rfl, ?_⟩
        rw [hmarks', hmarks, hupto, marks_append, List.nil_append]
      · intro he
        rw [hsettle, hz'] at he
        cases he
    | panic =>
      obtain ⟨hr, ⟨stats, hstate⟩, hmarks'⟩ := hend.panic hz'
      subst hr
      simp only [Act.next_panic, Outcome.ofResult, Act.wp_bind, Pipeline.drop, Act.wp_get,
        Act.next_ok, hstate, Act.wp_pure]
      refine ⟨?_, ?_, ?_⟩
      · intro k hk
        rw [hsettle, hz'] at hk
        cases hk
      · intro e he
        rw [hsettle, hz'] at he
        cases he
      · intro _
        refine ⟨rfl, ?_⟩
        rw [hmarks', hmarks, hupto, marks_append, List.nil_append]
  | halt halt =>
    obtain ⟨e, rfl⟩ := settle_failed hz
    obtain ⟨hr, hmarks, q, hchain, hq⟩ := h.halt _ hz
    subst hr
    have hstop : ∀ n, settle fed.1 ≠ .ok n := by simp [hz]
    obtain ⟨hsettle, hupto⟩ := settle_append_stopped hstop (t.finish fed.2)
    rw [← houtputs] at hsettle hupto
    simp only [halted, Act.next_ok, Act.wp_map]
    apply Act.wp_mono (wp_conclude_refused hc rfl hchain hq hs e)
    intro res p' w'' hend
    obtain ⟨hr, ⟨stats, hstate⟩, hmarks'⟩ := hend
    subst hr
    simp only [Act.next_halt, Outcome.ofResult, Act.wp_bind, Pipeline.drop, Act.wp_get, Act.next_ok,
      hstate, Act.wp_pure]
    refine ⟨?_, ?_, ?_⟩
    · intro k hk
      rw [hsettle, hz] at hk
      cases hk
    · intro e' he
      rw [hsettle, hz] at he
      cases he
      refine ⟨rfl, ?_⟩
      rw [hmarks', hmarks, hupto, List.nil_append]
    · intro he
      rw [hsettle, hz] at he
      cases he
  | panic =>
    obtain ⟨hr, hmarks, q, hchain, hq⟩ := h.panic hz
    subst hr
    have hstop : ∀ n, settle fed.1 ≠ .ok n := by simp [hz]
    obtain ⟨hsettle, hupto⟩ := settle_append_stopped hstop (t.finish fed.2)
    rw [← houtputs] at hsettle hupto
    simp only [Act.next_panic, Outcome.ofResult, Act.wp_bind, Pipeline.drop, Act.wp_get,
      Act.next_ok, Pipeline.onRunner, Act.wp_zoom]
    apply Act.wp_mono (wp_drop_served hc hchain hq hs hlive)
    intro res s' w'' hdrop
    obtain ⟨hr, hw⟩ := hdrop
    subst hr hw
    refine ⟨?_, ?_, ?_⟩
    · intro k hk
      rw [hsettle, hz] at hk
      cases hk
    · intro e he
      rw [hsettle, hz] at he
      cases he
    · intro _
      refine ⟨rfl, ?_⟩
      rw [hupto, Traffic.record, hmarks, List.nil_append]

end Served

/-- An outside where nothing fails goes with the traffic of its log. -/
theorem serving_keeps (xs : List X) : Prog.Keeps (served : Spec (Eff X Y) Ans (Traffic X Y))
    (fun log w => w.left = xs.drop (Log.pulls log) ∧ w.marks = Log.marks log)
    (Oracle.serving xs).handler := by
  intro e log w hsim _
  obtain ⟨hleft, hmarks⟩ := hsim
  have hlog : Log.marks (log ++ [⟨e, Oracle.serving xs log e⟩]) = (w.after e).marks := by
    simp [Log.marks, Traffic.after, hmarks]
  have hpulls : (w.after e).left =
      xs.drop (Log.pulls (log ++ [⟨e, Oracle.serving xs log e⟩])) := by
    cases hpull : e.isPull with
    | false => simp [Traffic.after, Log.pulls, hpull, hleft]
    | true => simp [Traffic.after, Log.pulls, hpull, hleft]
  refine ⟨w.after e, ⟨?_, rfl⟩, hpulls, hlog.symm⟩
  have hhead : w.left.head? = xs[Log.pulls log]? := by
    rw [hleft, List.head?_drop]
  cases e with
  | pull => exact congrArg (fun x => some (Except.ok x)) hhead.symm
  | closeSource | write | flush | close | deadLetter | observe | isCancelled | sleep => exact rfl
  | pullTimeout | note | recv | send | trySend | dropReceiver | dropSender | dropDone | waitDone |
    offer | spawn | join | takeFirst => trivial

/-- A whole run over `xs`, on an outside where nothing fails. -/
def Stages.runOver (stages : Stages X Y) (sink_id source_id : StageId) (built : Built) (fuel : Nat)
    (xs : List X) : (Res Empty (Option (Outcome Unit)) ×
      Pipeline (stages.assemble (sink_fn (X := X) sink_id)).σ) × Log X Y :=
  (Oracle.serving xs).run (Pipeline.last (stages.assemble (sink_fn sink_id)) (.run fuel))
    (Pipeline.new source_id none none built)

/-- A run computes the composition of its stages. -/
theorem Stages.runOver_computed (stages : Stages X Y) (hstages : stages.Graceful)
    (sink_id source_id : StageId) (built : Built) (xs : List X) {fuel : Nat}
    (hfuel : xs.length < fuel) :
    Computed built.dead_letter (stages.outputs (xs.map .inl) ++ [.inr (.flushing none)]) xs.length
      (stages.runOver sink_id source_id built fuel xs).1.1
      (stages.runOver sink_id source_id built fuel xs).1.2
      (stages.runOver sink_id source_id built fuel xs).2.marks := by
  have htail : (sink_fn (X := X) (Y := Y) sink_id).Computes served Traffic.record
      built.dead_letter 1 sinkMachine _ _ _ := sink_computes served_accepts sink_id
  have hserves : (stages.assemble (sink_fn (X := X) (Y := Y) sink_id)).Serves built.dead_letter
      (stages.machine sinkMachine) _ _ _ :=
    ⟨stages.assemble_computes served_records hstages htail,
      stages.assemble_hands (.inl rfl) (sink_closes served_accepts sink_id),
      stages.assemble_hands (.inr rfl) (sink_aborts served_accepts sink_id)⟩
  have hrun : Act.wp served (Pipeline.last _ (.run fuel)) _
      (Pipeline.new source_id none none built) ⟨xs, []⟩ := wp_run_served hserves hfuel
  have hsim : (⟨xs, []⟩ : Traffic X Y).left = xs.drop (Log.pulls ([] : Log X Y)) ∧
      (⟨xs, []⟩ : Traffic X Y).marks = Log.marks ([] : Log X Y) := ⟨rfl, rfl⟩
  obtain ⟨w, ⟨_, hmarks⟩, h⟩ := Prog.wp_exec (serving_keeps xs) hsim hrun
  rw [hmarks, Stages.machine_outputs, sinkMachine_outputs] at h
  exact h

end PipeIo
