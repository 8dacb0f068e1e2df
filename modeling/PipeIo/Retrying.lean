import PipeIo.Life

namespace PipeIo
set_option autoImplicit true

open Lib

/-- The calls made for one item: how many, and what the last one returned. -/
structure Trial (U : Type) where
  result : Except BoxError U
  calls : Nat

namespace RetryStage

variable {X Y T U ν : Type}

/-- One call of the closure; a panic unwinds. -/
def ask (st : RetryStage T U) (depth : Nat) (item : T) :
    Code X Y Halt (((st.φ × Jitter) × ν) × Ctx) (Except BoxError U) := do
  note (.stage depth none)
  let r ← own (Act.state fun s => let (r, p) := st.f item s.1; (r, (p, s.2)))
  outcome r

/-- What happens between two calls: whether there is to be another one. -/
def backOff (st : RetryStage T U) (attempt : Nat) (error : BoxError) :
    Code X Y Halt (((st.φ × Jitter) × ν) × Ctx) Bool := do
  let delay ← own (Act.state fun s =>
    let (delay, j) := st.retry.delay_for attempt s.2; (delay, (s.1, j)))
  inCtx (Ctx.count fun t => { t with retries := t.retries + 1 })
  let ctx ← inCtx Act.get
  emitEvent ctx.observer (.retry st.id attempt delay error)
  sleep_unless_cancelled delay

/-- The calls made for one item, and the waits between them. -/
def tries (st : RetryStage T U) (depth : Nat) (item : T) :
    (left attempt : Nat) → Code X Y Halt (((st.φ × Jitter) × ν) × Ctx) (Trial U)
  | 0, attempt => do
    let r ← st.ask depth item
    pure ⟨r, attempt⟩
  | left + 1, attempt => do
    match ← st.ask depth item with
    | .ok out => pure ⟨.ok out, attempt⟩
    | .error error =>
      if ← st.backOff attempt error then st.tries depth item left (attempt + 1)
      else pure ⟨.error error, attempt⟩

/-- What follows the calls: the value goes on, or the policy is applied to the last error. -/
def conclude (st : RetryStage T U) (item : T)
    (next : StageOp U → Code X Y Halt (ν × Ctx) Nat) (t : Trial U) :
    Code X Y Halt (((st.φ × Jitter) × ν) × Ctx) Nat :=
  match t.result with
  | .ok out => down (next (.process out))
  | .error e => inCtx (handle_failure st.policy st.id e (keep_input st.policy item) t.calls)

variable (st : RetryStage T U)

theorem attempt_eq (depth : Nat) (item : T) (next : StageOp U → Code X Y Halt (ν × Ctx) Nat)
    (retry : BoxError → Code X Y Halt (((st.φ × Jitter) × ν) × Ctx) Nat) :
    st.attempt depth item next retry = (do
      match ← st.ask depth item with
      | .ok out => down (next (.process out))
      | .error e => retry e) := by
  rw [ask, bind_assoc]
  simp only [bind_assoc]
  rfl

theorem attempts_eq (depth : Nat) (item : T) (next : StageOp U → Code X Y Halt (ν × Ctx) Nat)
    (left attempt : Nat) : st.attempts depth item next left attempt =
      (do st.conclude item next (← st.tries depth item left attempt)) := by
  induction left generalizing attempt with
  | zero =>
    simp only [attempts, attempt_eq, tries, bind_assoc, pure_bind, conclude]
  | succ left ih =>
    simp only [attempts, attempt_eq, tries, bind_assoc]
    congr 1
    funext r
    cases r with
    | ok out => simp only [pure_bind, conclude]
    | error e =>
      simp only [backOff, bind_assoc]
      congr 1
      funext delay
      congr 1
      funext _
      congr 1
      funext ctx
      congr 1
      funext _
      congr 1
      funext done
      cases done with
      | true => exact ih (attempt + 1)
      | false => rfl

/-- What the first `n` calls of the closure on an item return. -/
def results (st : RetryStage T U) (item : T) : Nat → st.φ → List (Option (Except BoxError U))
  | 0, _ => []
  | n + 1, p => (st.f item p).1 :: st.results item n (st.f item p).2

/-- The handling of one item with `left` attempts after the first: `calls` calls, what the
waits between them told, and the last result. -/
inductive Tried (st : RetryStage T U) (item : T) : (left : Nat) → st.φ → (calls : Nat) →
    (waits : List Bool) → Except BoxError U → st.φ → Prop where
  | accepted (h : st.f item p = (some (.ok out), p')) : Tried st item left p 1 [] (.ok out) p'
  | exhausted (h : st.f item p = (some (.error e), p')) : Tried st item 0 p 1 [] (.error e) p'
  | cancelled (h : st.f item p = (some (.error e), p')) :
      Tried st item (left + 1) p 1 [false] (.error e) p'
  | again (h : st.f item p = (some (.error e), p')) (hrest : Tried st item left p' calls waits r p'') :
      Tried st item (left + 1) p (calls + 1) (true :: waits) r p''

namespace Tried

variable {st : RetryStage T U} {item : T} {left calls : Nat} {p p' : st.φ} {waits : List Bool}
  {r : Except BoxError U}

theorem bounds (h : Tried st item left p calls waits r p') : 1 ≤ calls ∧ calls ≤ left + 1 := by
  induction h with
  | accepted | exhausted | cancelled => omega
  | again _ _ ih => omega

/-- Every wait but a cancelled one is followed by a call. -/
theorem waits_length (h : Tried st item left p calls waits r p') :
    waits.length + 1 = calls ↔ false ∉ waits := by
  induction h with
  | accepted | exhausted => simp
  | cancelled => simp
  | again _ _ ih => simpa using ih

/-- Every call but the last one failed. -/
theorem results_eq (h : Tried st item left p calls waits r p') :
    ∃ errors : List BoxError,
      st.results item calls p = errors.map (fun e => some (.error e)) ++ [some r] := by
  induction h with
  | accepted h | exhausted h | cancelled h => exact ⟨[], by simp [results, h]⟩
  | @again _ _ e _ _ _ _ _ h _ ih =>
    obtain ⟨errors, heq⟩ := ih
    exact ⟨e :: errors, by simp [results, h, heq]⟩

/-- Giving up on an item. -/
theorem gives_up (h : Tried st item left p calls waits r p') (hr : ∀ out, r ≠ .ok out) :
    calls = left + 1 ∨ false ∈ waits := by
  induction h with
  | accepted => exact absurd rfl (hr _)
  | exhausted => exact .inl rfl
  | cancelled => exact .inr (List.mem_singleton_self _)
  | again _ _ ih =>
    rcases ih hr with h | h
    · exact .inl (by omega)
    · exact .inr (.tail _ h)

end Tried

end RetryStage

/-- The calls of the stage at `depth` on an item. -/
def Log.called (log : Log X Y) (depth : Nat) : Nat :=
  log.countP fun a => match a.1 with
    | .note (.stage d none) => d = depth
    | _ => false

/-- What the waits told: whether the whole delay passed. -/
def Log.waits (log : Log X Y) : List Bool :=
  log.filterMap fun a => match a with
    | ⟨.sleep _, done⟩ => some done
    | _ => none

/-- The context with `n` more retries counted. -/
def Ctx.retried (ctx : Ctx) (n : Nat) : Ctx :=
  { ctx with tally := { ctx.tally with retries := ctx.tally.retries + n } }

theorem Ctx.retried_add (ctx : Ctx) (m n : Nat) :
    (ctx.retried m).retried n = ctx.retried (m + n) := by
  simp only [Ctx.retried, Nat.add_assoc]

/-- The record of all requests, when the observer does not panic. -/
def recorded : Spec (Eff X Y) Ans (Log X Y) where
  pre _ _ := True
  post e log a log' := log' = log ++ [⟨e, a⟩] ∧ Calm e a

theorem Oracle.keeps_recorded {o : Oracle X Y} (ho : ∀ log ev, o log (.observe ev) = some ()) :
    Prog.Keeps recorded (fun log w => log = w) o.handler := by
  rintro e log w rfl -
  refine ⟨_, ⟨rfl, ?_⟩, rfl⟩
  cases e with
  | observe ev => exact ho log ev
  | _ => trivial

namespace RetryStage

variable {X Y T U ν : Type} {st : RetryStage T U} {depth : Nat} {item : T}

theorem wp_ask {Q : Res Halt (Except BoxError U) → ((st.φ × Jitter) × ν) × Ctx → Log X Y → Prop}
    {s : ((st.φ × Jitter) × ν) × Ctx} {log : Log X Y}
    (hf : (st.f item s.1.1.1).1 ≠ none)
    (hQ : ∀ r p, st.f item s.1.1.1 = (some r, p) →
      Q (.ok r) (((p, s.1.1.2), s.1.2), s.2) (log ++ [⟨.note (.stage depth none), ()⟩])) :
    Act.wp recorded (st.ask depth item) Q s log := by
  simp only [ask, note, own, Act.wp_bind, Act.wp_perform, Act.next_ok, Act.wp_zoom, Act.wp_state]
  refine ⟨trivial, ?_⟩
  rintro _ _ ⟨rfl, -⟩
  obtain ⟨⟨⟨p, j⟩, v⟩, ctx⟩ := s
  obtain ⟨r, hr⟩ := Option.ne_none_iff_exists'.1 hf
  have h := hQ r (st.f item p).2 (Prod.ext hr rfl)
  change Act.wp recorded (outcome (st.f item p).1) _ _ _
  rw [hr]
  exact h

theorem wp_emit_recorded {Q : Res H Unit → σ → Log X Y → Prop} {s : σ} {log : Log X Y}
    {active : Bool} {event : Event}
    (hQ : ∀ events, Log.waits events = [] → (∀ d, Log.called events d = 0) →
      Q (.ok ()) s (log ++ events)) : Act.wp recorded (emitEvent active event) Q s log := by
  cases active with
  | false =>
    have h := hQ [] rfl fun _ => rfl
    rw [List.append_nil] at h
    exact h
  | true =>
    simp only [emitEvent, if_true, Act.wp_bind, Act.wp_perform, Act.next_ok]
    refine ⟨trivial, ?_⟩
    rintro a _ ⟨rfl, ha⟩
    replace ha : a = some () := ha
    rw [ha]
    exact hQ [⟨.observe event, some ()⟩] rfl fun _ => rfl

/-- A wait: it counts as a retry before it is known whether one follows. -/
theorem wp_backOff {Q : Res Halt Bool → ((st.φ × Jitter) × ν) × Ctx → Log X Y → Prop}
    {s : ((st.φ × Jitter) × ν) × Ctx} {log : Log X Y} {attempt : Nat} {error : BoxError}
    (hQ : ∀ done j events, Log.waits events = [done] → (∀ d, Log.called events d = 0) →
      Q (.ok done)
        (((s.1.1.1, j), s.1.2), s.2.retried 1) (log ++ events)) :
    Act.wp recorded (st.backOff attempt error) Q s log := by
  obtain ⟨⟨⟨p, j⟩, v⟩, ctx⟩ := s
  simp only [backOff, own, inCtx, Ctx.count, sleep_unless_cancelled, Act.wp_bind, Act.wp_zoom,
    Act.wp_state, Act.wp_modify, Act.wp_get, Act.next_ok]
  apply wp_emit_recorded
  intro events hwaits hcalled
  refine ⟨trivial, ?_⟩
  rintro done _ ⟨rfl, -⟩
  rw [List.append_assoc]
  apply hQ
  · rw [Log.waits, List.filterMap_append, ← Log.waits, hwaits]
    rfl
  · intro d
    rw [Log.called, List.countP_append, ← Log.called, hcalled]
    rfl

theorem called_append (log log' : Log X Y) (d : Nat) :
    Log.called (log ++ log') d = Log.called log d + Log.called log' d :=
  List.countP_append

theorem waits_append (log log' : Log X Y) :
    Log.waits (log ++ log') = Log.waits log ++ Log.waits log' :=
  List.filterMap_append

/-- What the calls for one item do. -/
theorem wp_tries (hf : ∀ p, (st.f item p).1 ≠ none) (left attempt : Nat)
    (s : ((st.φ × Jitter) × ν) × Ctx) (log : Log X Y) :
    Act.wp recorded (st.tries depth item left attempt) (fun res s' log' =>
      ∃ r calls events p' j', res = .ok ⟨r, attempt + calls - 1⟩ ∧ log' = log ++ events ∧
        Log.called events depth = calls ∧
        Tried st item left s.1.1.1 calls (Log.waits events) r p' ∧
        s' = (((p', j'), s.1.2), s.2.retried (Log.waits events).length)) s log := by
  induction left generalizing attempt s log with
  | zero =>
    rw [tries, Act.wp_bind]
    apply wp_ask (hf _)
    intro r p hr
    refine ⟨r, 1, _, p, s.1.1.2, rfl, rfl, ?_, ?_, rfl⟩
    · simp [Log.called]
    · cases r with
      | ok out => exact .accepted hr
      | error e => exact .exhausted hr
  | succ left ih =>
    rw [tries, Act.wp_bind]
    apply wp_ask (hf _)
    intro r p hr
    cases r with
    | ok out =>
      refine ⟨_, 1, _, p, s.1.1.2, rfl, rfl, ?_, .accepted hr, rfl⟩
      simp [Log.called]
    | error e =>
      rw [Act.next_ok, Act.wp_bind]
      apply wp_backOff
      intro done j events hwaits hcalled
      rw [Act.next_ok]
      have hfirst : Log.called (X := X) (Y := Y) [⟨.note (.stage depth none), ()⟩] depth = 1 := by
        simp [Log.called]
      cases done with
      | false =>
        refine ⟨.error e, 1, ⟨.note (.stage depth none), ()⟩ :: events, p, j, rfl,
          List.append_assoc .., ?_, ?_, ?_⟩
        · rw [← List.singleton_append, called_append, hfirst, hcalled]
        · rw [← List.singleton_append, waits_append, hwaits]
          exact .cancelled hr
        · rw [← List.singleton_append, waits_append, hwaits]
          rfl
      | true =>
        apply Act.wp_mono (ih ..)
        intro res s' log' h
        obtain ⟨r, calls, more, p', j', rfl, rfl, hcalls, htried, rfl⟩ := h
        refine ⟨r, calls + 1, ⟨.note (.stage depth none), ()⟩ :: (events ++ more), p', j', ?_,
          ?_, ?_, ?_, ?_⟩
        · congr 2
          omega
        · simp only [List.append_assoc, List.cons_append, List.nil_append]
        · rw [← List.singleton_append, called_append, called_append, hfirst, hcalled, hcalls]
          omega
        · rw [← List.singleton_append, waits_append, waits_append, hwaits]
          exact .again hr htried
        · rw [← List.singleton_append, waits_append, waits_append, hwaits]
          simp only [Ctx.retried_add, List.length_append, Nat.add_comm]
          rfl

/-- An item in the retry stage, in whatever state the items before it and the moment of a
cancellation left the run: the closure is called until its first `Ok`, at most `max_attempts`
times; then the value is passed on, or the policy is applied to the last error with the number
of calls, once and with nothing else counted. The retries counted are the calls but the first
if and only if no wait was cancelled. -/
theorem accounting (st : RetryStage T U) (hvalid : st.retry.check = .ok ())
    (hf : ∀ item p, (st.f item p).1 ≠ none) (depth : Nat) (item : T)
    (next : StageOp U → Code X Y Halt (ν × Ctx) Nat) (o : Oracle X Y)
    (ho : ∀ log ev, o log (.observe ev) = some ()) (s : ((st.φ × Jitter) × ν) × Ctx)
    (log : Log X Y) :
    ∃ t s' events,
      Prog.exec o.handler (st.call depth next (.process item) s) log =
        Prog.exec o.handler (st.conclude item next t s') (log ++ events) ∧
      Log.called events depth = t.calls ∧ 1 ≤ t.calls ∧ t.calls ≤ st.retry.max_attempts ∧
      (∃ errors : List BoxError, st.results item t.calls s.1.1.1 =
        errors.map (fun e => some (.error e)) ++ [some t.result]) ∧
      ((∀ out, t.result ≠ .ok out) →
        t.calls = st.retry.max_attempts ∨ false ∈ Log.waits events) ∧
      (∃ n, s'.2 = s.2.retried n) ∧
      (s'.2.tally.retries = s.2.tally.retries + (t.calls - 1) ↔ false ∉ Log.waits events) := by
  have hmax : 1 ≤ st.retry.max_attempts := by
    by_contra h
    rw [RetryPolicy.check, if_pos (by omega)] at hvalid
    cases hvalid
  obtain ⟨_, rfl, r, calls, events, p', j', hres, hlog, hcalled, htried, hs⟩ :=
    Prog.wp_exec (Oracle.keeps_recorded ho) rfl
      (wp_tries (hf item) (st.retry.max_attempts - 1) 1 s log)
  obtain ⟨hone, hleft⟩ := htried.bounds
  have hle : calls ≤ st.retry.max_attempts := by omega
  have hgrown := htried.waits_length
  refine ⟨⟨r, calls⟩, (((p', j'), s.1.2), s.2.retried (Log.waits events).length), events, ?_,
    hcalled, hone, hle, htried.results_eq, ?_, ⟨_, rfl⟩, ?_⟩
  · have hrun : Prog.exec o.handler (st.tries depth item (st.retry.max_attempts - 1) 1 s) log =
        ((.ok ⟨r, calls⟩, (((p', j'), s.1.2), s.2.retried (Log.waits events).length)),
          log ++ events) := by
      rw [Nat.add_sub_cancel_left] at hres
      exact Prod.ext (Prod.ext hres hs) hlog
    have hcall : st.call depth next (.process item) = _ :=
      st.attempts_eq depth item next (st.retry.max_attempts - 1) 1
    rw [hcall]
    exact Act.exec_bind_ok hrun
  · intro hr
    exact (htried.gives_up hr).imp_left fun h => h.trans (Nat.sub_add_cancel hmax)
  · rw [← hgrown]
    change s.2.tally.retries + (Log.waits events).length = s.2.tally.retries + (calls - 1) ↔
      (Log.waits events).length + 1 = calls
    omega

/-- A stage whose closure fails its first call and counts its calls. -/
def flaky : RetryStage Nat Nat where
  φ := Nat
  init := 0
  f item n := (some (if n = 0 then .error "down" else .ok item), n + 1)
  retry := ⟨3, .fixed 5, false⟩
  hash := 0
  policy := .continue
  id := "try_map_retry"

/-- Every wait is cancelled. -/
def giving_up : Oracle Nat Nat := fun log e =>
  match e with
  | .sleep _ => false
  | e => Oracle.serving [] log e

/-- The state before the first item, in front of a sink. -/
def flaky_start : ((flaky.φ × Jitter) × SinkFlags) × Ctx :=
  (((flaky.init, Jitter.seeded flaky.hash), ⟨false, false⟩), Ctx.new .absent false true)

theorem accounting_flaky : ∃ t s' events,
    Prog.exec (Oracle.serving []).handler
        (flaky.call 0 (sink_fn "sink").call (.process 7) flaky_start) ([] : Log Nat Nat) =
      Prog.exec (Oracle.serving []).handler (flaky.conclude 7 (sink_fn "sink").call t s')
        ([] ++ events) ∧
    Log.called events 0 = t.calls ∧ t.calls ≤ 3 ∧
    (s'.2.tally.retries = 0 + (t.calls - 1) ↔ false ∉ Log.waits events) := by
  obtain ⟨t, s', events, hrun, hcalled, _, hle, _, _, _, hgrown⟩ :=
    flaky.accounting rfl (fun _ _ => Option.some_ne_none _) 0 7 (sink_fn "sink").call
      (Oracle.serving []) (fun _ _ => rfl) flaky_start []
  exact ⟨t, s', events, hrun, hcalled, hle, hgrown⟩

/-- A cancelled wait is counted as a retry though the closure was called once. -/
theorem cancelled_wait_counted :
    let run := Prog.exec giving_up.handler
      (flaky.call 0 (sink_fn "sink").call (.process 7) flaky_start) []
    Log.called run.2 0 = 1 ∧ run.1.2.2.tally.retries ≠ Log.called run.2 0 - 1 := by
  decide +kernel

end RetryStage

end PipeIo
