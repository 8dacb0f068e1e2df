import PipeIo.DutyNet
import PipeIo.LifeThreads

namespace PipeIo
set_option autoImplicit true

open Lib Function

section Streams

variable {T : Type} {ops : List (StageOp T)}

/-- How far a stream of operations has come. -/
def reach (ops : List (StageOp T)) : Nat := ops.foldl (fun p op => goes op.signal p) 0

theorem reach_concat (ops : List (StageOp T)) (op : StageOp T) :
    reach (ops ++ [op]) = goes op.signal (reach ops) := by
  rw [reach, List.foldl_append]
  rfl

/-- Every operation is permitted where it comes. -/
def Permitted (ops : List (StageOp T)) : Prop :=
  ∀ before op after, ops = before ++ op :: after → Permits op.signal (reach before)

theorem permitted_nil : Permitted ([] : List (StageOp T)) := by
  intro before op after h
  simp at h

theorem Permitted.concat (h : Permitted ops) {op : StageOp T}
    (hop : Permits op.signal (reach ops)) : Permitted (ops ++ [op]) := by
  intro before op' after happ
  rcases List.append_eq_append_iff.1 happ with ⟨l, hbefore, hlast⟩ | ⟨l, hops, hlast⟩
  · cases l with
    | nil =>
      have hsame : op = op' := by simpa using (List.cons.inj hlast).1
      rw [hbefore, List.append_nil, ← hsame]
      exact hop
    | cons a l => simp at hlast
  · cases l with
    | nil =>
      have hsame : op' = op := by simpa using (List.cons.inj hlast).1
      rw [← List.append_nil before, ← hops, hsame]
      exact hop
    | cons a l =>
      have hsame : op' = a := by simpa using (List.cons.inj hlast).1
      subst hsame
      exact h before op' l hops

theorem Permits.le {k : Option Signal} {p : Nat} (h : Permits k p) : p ≤ 1 ∧ p ≤ goes k p := by
  match k, h with
  | none, h | some .tick, h =>
    have hzero : p = 0 := h
    exact ⟨by omega, Nat.le_refl p⟩
  | some .flush, h =>
    have hzero : p = 0 := h
    have hle : p ≤ 1 := by omega
    exact ⟨hle, hle⟩
  | some .close, h =>
    have hone : p = 1 := h
    have hle : p ≤ 2 := by omega
    exact ⟨Nat.le_of_eq hone, hle⟩
  | some .abort, h => exact ⟨h, Nat.le_succ_of_le h⟩

theorem goes_le (k : Option Signal) {p : Nat} (h : p ≤ 2) : goes k p ≤ 2 := by
  match k with
  | none | some .tick => exact h
  | some .flush => exact Nat.le_succ 1
  | some .close | some .abort => exact Nat.le_refl 2

end Streams

/-- What a life does not change. -/
structure Life.Like (b w : Life) : Prop where
  sink : w.sink = b.sink
  source : w.source = b.source
  dlq : w.dlq = b.dlq
  crew : w.crew = b.crew

section After

variable {X Y : Type} {b w : Life} {e : Eff X Y}

theorem Life.Like.after (h : b.Like w) (a : Ans e) : b.Like (w.after e a) := by
  obtain ⟨hsink, hsource, hdlq, hcrew⟩ := h
  cases e with
  | send op =>
    simp only [Life.after]
    split
    · exact ⟨hsink, hsource, hdlq, hcrew⟩
    · exact ⟨hsink, hsource, hdlq, hcrew⟩
  | recv timeout =>
    cases a with
    | msg op => exact ⟨hsink, hsource, hdlq, hcrew⟩
    | timedOut | disconnected => exact ⟨hsink, hsource, hdlq, hcrew⟩
  | _ => exact ⟨hsink, hsource, hdlq, hcrew⟩

/-- Unless it sends, a thread gets further by its teardown calls only. -/
theorem Life.after_phase (hsend : ∀ op, e ≠ .send op) (a : Ans e) :
    (w.after e a).phase = w.phase + e.teardown := by
  cases e with
  | send op => exact absurd rfl (hsend op)
  | recv timeout => cases a <;> rfl
  | _ => rfl

/-- How far a send takes a thread. -/
theorem Life.after_send {op : StageOp Y} (hpre : (life (X := X) true).pre (.send op) w)
    (ok : Bool) : w.phase ≤ (w.after (.send op : Eff X Y) ok).phase ∧
      (w.after (.send op : Eff X Y) ok).phase ≤ 2 := by
  obtain ⟨hle, hgoes⟩ := hpre.2.2.le
  simp only [Life.after]
  split
  · exact ⟨hgoes, goes_le _ (Nat.le_succ_of_le hle)⟩
  · exact ⟨Nat.le_refl _, Nat.le_succ_of_le hle⟩

theorem Life.le_after (hpre : (life true).pre e w) (a : Ans e) :
    w.phase ≤ (w.after e a).phase := by
  by_cases hsend : ∀ op, e ≠ .send op
  · rw [after_phase hsend]
    exact Nat.le_add_right _ _
  · simp only [not_forall, not_not] at hsend
    obtain ⟨op, rfl⟩ := hsend
    exact (after_send hpre a).1

/-- Threads that have been joined by a thread, after a request. -/
theorem Life.after_joined {a : Ans e} {i : Nat} (h : i ∈ (w.after e a).joined) :
    i ∈ w.joined ∨ e = .join i := by
  cases e with
  | join k =>
    rcases List.mem_cons.1 h with rfl | h
    · exact .inr rfl
    · exact .inl h
  | send op =>
    simp only [Life.after] at h
    split at h
    · exact .inl h
    · exact .inl h
  | recv timeout => cases a <;> exact .inl h
  | _ => exact .inl h

theorem Life.joined_after (a : Ans e) {i : Nat} (h : i ∈ w.joined) :
    i ∈ (w.after e a).joined := by
  cases e with
  | join k => exact List.mem_cons_of_mem _ h
  | send op =>
    simp only [Life.after]
    split
    · exact h
    · exact h
  | recv timeout => cases a <;> exact h
  | _ => exact h

theorem Life.after_waited {a : Ans e} (h : (w.after e a).waited = true) :
    w.waited = true ∨ e = .waitDone := by
  cases e with
  | waitDone => exact .inr rfl
  | send op =>
    simp only [Life.after] at h
    split at h
    · exact .inl h
    · exact .inl h
  | recv timeout => cases a <;> exact .inl h
  | _ => exact .inl h

/-- How far the received stream has come changes only by a received operation. -/
theorem Life.after_inp (hrecv : ∀ timeout, e ≠ .recv timeout) (a : Ans e) :
    (w.after e a).inp = w.inp := by
  cases e with
  | recv timeout => exact absurd rfl (hrecv timeout)
  | send op =>
    simp only [Life.after]
    split
    · rfl
    · rfl
  | _ => rfl

end After

namespace ThreadedWiring

variable {Ty : Nat → Type} (w : ThreadedWiring Ty)

/-- The life that thread `j` begins with; that of the calling thread begins where those of all
others end. -/
def lifeOf (j : Nat) : Life where
  sink := decide (j = 0)
  source := decide (j = w.n)
  dlq := decide (w.n < j) && w.built.dead_letter
  crew := if w.n < j then List.range (w.n + 1) else []
  phase := if w.n < j then 3 else 0
  inp := 0
  receiver := decide (j < w.n)
  sender := decide (j ≤ w.n)
  waited := false
  done := false
  spawned := []
  joined := []

theorem chain_lives (j : Nat) : ∃ view : (w.chain j).σ → Option SinkFlags,
    (w.chain j).Obeys (life true) (lifeRules true) view ∧
      ∀ b : Life, b.sink = decide (j = 0) → b.phase = 0 → b.Tracks (view (w.chain j).init) := by
  cases j with
  | zero =>
    refine ⟨_, (w.piece 0).assemble_obeys lifeRules_lawful.sound (sink_fn_life w.sink_id),
      fun b hsink hphase => ?_⟩
    rw [Stages.tailState_init]
    refine ⟨hsink, ?_⟩
    rw [hphase]
    rfl
  | succ j =>
    exact ⟨_, (w.piece (j + 1)).assemble_obeys lifeRules_lawful.sound send_fn_life,
      fun b hsink _ => hsink⟩

/-- The life of thread `j` once it has ended. -/
structure Ended (j : Nat) (v : Life) : Prop where
  segment : j < w.n → v.phase = 2
  source : j = w.n → v.phase = 3
  caller : w.n < j → Threaded.Finished (w.lifeOf j) v

theorem task_lives (hidle : w.idle_tick = none) (j : Nat) :
    (w.task j).Lives (w.lifeOf j) (w.Ended j) := by
  have hweaken : ∀ {t : Task (Ty (j + 1)) (Ty j)} {K K' : Life → Prop}, (∀ v, K v → K' v) →
      t.Lives (w.lifeOf j) K → t.Lives (w.lifeOf j) K' := by
    intro t K K' hK h
    obtain ⟨I, hinit, hround⟩ := h
    refine ⟨I, hinit, fun s v hs => Prog.wp_mono (hround s v hs) fun r v' hr => ?_⟩
    cases r with
    | inl s => exact hr
    | inr exit => exact hK v' hr
  obtain ⟨view, hc, hinit⟩ := w.chain_lives j
  unfold task
  split
  · rename_i hlt
    have hnot : ¬w.n < j := by omega
    rw [hidle]
    refine hweaken (fun v hv => ⟨fun _ => hv, fun heq => ?_, fun hcaller => absurd hcaller hnot⟩)
      (ChannelSegment.task_lives hc ?_ (hinit _ rfl ?_) w.ctx)
    · omega
    · constructor <;> simp [lifeOf, hlt, Nat.le_of_lt hlt, hnot]
    · simp [lifeOf, hnot]
  · rename_i hge
    split
    · rename_i heq
      subst heq
      refine hweaken
        (fun v hv => ⟨fun hlt => absurd hlt hge, fun _ => hv, fun hlt => absurd hlt hge⟩)
        (source_task_lives hc ?_ (hinit _ rfl ?_) w.source_id w.ctx w.idle_tick w.cancel)
      · simp [lifeOf]
      · simp [lifeOf]
    · rename_i hne
      have hlt : w.n < j := by omega
      refine hweaken (fun v hv => ⟨fun h => absurd h hge, fun h => absurd h hne, fun _ => hv⟩)
        (Threaded.task_lives ?_ ?_ ?_ rfl)
      · simp [lifeOf, hlt]
      · simp [lifeOf, hlt]
      · simp [lifeOf, hlt]

/-- How many teardown calls the run has made, seen by the threads that make them. -/
structure Stands (v : Nat → Life) (m : Nat) : Prop where
  sink : min (v 0).phase 2 = min m 2
  source : 3 ≤ (v w.n).phase ↔ 3 ≤ m
  caller : (v (w.n + 1)).phase = max m 3

end ThreadedWiring

/-- Whose touch it is, and what the thread must have waited for. -/
def Touch.Owned (w : Life) : Touch → Prop
  | .write | .teardown .sinkFlush | .teardown .sinkClose => w.sink = true
  | .pull => w.source = true
  | .teardown .sourceClose => w.source = true ∧ w.waited = true
  | .letter => w.phase ≤ 2
  | .teardown .dlqFlush => w.dlq = true ∧ ∀ i ∈ w.crew, i ∈ w.joined
  | .teardown .dlqClose => w.dlq = true

theorem life_owned {e : Eff X Y} {w : Life} (h : (life steady).pre e w) {t : Touch}
    (ht : e.touch = some t) : t.Owned w := by
  cases e with
  | deadLetter op =>
    cases op with
    | write f =>
      cases ht
      exact h
    | flush =>
      cases ht
      exact ⟨h.1, h.2.2⟩
    | close =>
      cases ht
      exact h.1
  | write | flush | close | pull | pullTimeout =>
    cases ht
    exact h.1
  | closeSource =>
    cases ht
    exact ⟨h.1, h.2.1⟩
  | _ => cases ht

/-- A teardown call that is due moves the run on. -/
theorem ThreadedWiring.Stands.teardown {Ty : Nat → Type} {w : ThreadedWiring Ty} {v : Nat → Life}
    {v' : Life} {m j : Nat} (h : w.Stands v m)
    (howner : ((v j).sink = true → j = 0) ∧ ((v j).source = true → j = w.n) ∧
      ((v j).dlq = true → w.n < j)) (hj : j ≤ w.n + 1) {call : TeardownCall}
    (howned : (Touch.teardown call).Owned (v j)) (hat : (Touch.teardown call).Due (v j).phase)
    (hdue : (Touch.teardown call).Due m) (hphase : v'.phase = (v j).phase + 1) :
    w.Stands (update v j v') (m + 1) := by
  obtain ⟨hsink, hsource, hcaller⟩ := h
  obtain ⟨hzero, hn, hdlq⟩ := howner
  have hthread : ∀ i, (update v j v' i).phase = if i = j then v'.phase else (v i).phase := by
    intro i
    rw [update_apply]
    split
    · rfl
    · rfl
  cases call with
  | sinkFlush | sinkClose =>
    obtain rfl := hzero howned
    simp only [Touch.Due, TeardownCall.index] at hat hdue
    constructor
    · rw [hthread, if_pos rfl]
      omega
    · rw [hthread]
      split <;> omega
    · rw [hthread, if_neg (Nat.succ_ne_zero _)]
      omega
  | sourceClose =>
    obtain rfl := hn howned.1
    simp only [Touch.Due, TeardownCall.index] at hat hdue
    constructor
    · rw [hthread]
      split <;> omega
    · rw [hthread, if_pos rfl]
      omega
    · rw [hthread, if_neg (Nat.succ_ne_self _)]
      omega
  | dlqFlush | dlqClose =>
    have hlt : w.n < j := by
      first | exact hdlq howned.1 | exact hdlq howned
    obtain rfl : j = w.n + 1 := Nat.le_antisymm hj hlt
    simp only [Touch.Due, TeardownCall.index] at hat hdue
    constructor
    · rw [hthread, if_neg (Nat.succ_ne_zero _).symm]
      omega
    · rw [hthread, if_neg (Nat.succ_ne_self _).symm]
      omega
    · rw [hthread, if_pos rfl]
      omega

def After.timing : After M → Bool
  | .wait mode => mode = .timeout
  | .give _ | .drop => false

/-- The receiver's thread is inside `recv_timeout`, and may give up or has. -/
def RxPc.timing : RxPc M → Bool
  | .tryRecv mode | .waiting mode => mode = .timeout
  | .publish k | .loadWaiting k | .lock k | .notify k | .unlock k => k.timing
  | .result r =>
    match r with
    | .timedOut => true
    | .msg _ | .disconnected => false
  | .idle | .took _ | .close | .dropField | .gone => false

theorem Edge.published_timing (k : After M) : (published k).timing = k.timing := by
  cases k <;> rfl

/-- The thread is inside `recv_timeout`. -/
def Thread.Awaits {t : Task X Y} (thread : Thread t) : Prop :=
  ∃ timeout k, thread = .running (.vis (.recv (some timeout)) k)

/-- Inside an edge a `recv` without a timeout stays one. -/
theorem Edge.Inner.timing {e e' : Edge M} (h : Inner capacity e e')
    (ht : e'.rx.pc.timing = true) : e.rx.pc.timing = true := by
  cases h with
  | tx h =>
    rw [(txStep_frame h).1] at ht
    exact ht
  | spurious h =>
    simp only [Edge.spurious] at h
    split at h <;> cases h
    exact ht
  | rx h =>
    cases hpc : e.rx.pc <;> simp only [rxStep, hpc] at h
    all_goals
      repeat' (first | (cases h; done) | split at h)
      all_goals
        cases h
        simp only [take, goRx, published_timing] at ht
        first | exact ht | cases ht
  | timeOut h =>
    simp only [Edge.timeOut] at h
    split at h <;> cases h
    rename_i hpc
    rw [hpc]
    rfl

namespace Net

variable {Ty : Nat → Type} {w : ThreadedWiring Ty} {out : Outside Ty} {net net' : Net w}
  {v : Nat → Life}

/-- The lives of the threads, seen in the network. -/
structure Lived (net : Net w) (v : Nat → Life) : Prop where
  like : ∀ j, (w.lifeOf j).Like (v j)
  traced : ∃ m, Tidy net.touches m ∧ w.Stands v m
  done : ∀ i < w.n, net.done i = true → 2 ≤ (v i).phase
  waited : (v w.n).waited = true → ∀ i < w.n, 2 ≤ (v i).phase
  joined : ∀ j i, i ∈ (v j).joined → ∃ exit, net.threads i = .finished exit
  letters : 4 ≤ (v (w.n + 1)).phase → ∀ i ≤ w.n, i ∈ (v (w.n + 1)).joined
  others : ∀ j, w.n + 1 < j → net.threads j = .ready
  pushed : ∀ j, Permitted (net.edges j).pushed
  sent : ∀ j, (v (j + 1)).phase ≤ 1 → reach (net.edges j).accepted = (v (j + 1)).phase
  received : ∀ j, reach (net.edges j).returned = (v j).inp
  timed : ∀ j, (net.edges j).rx.pc.timing = true → (net.threads j).Awaits

theorem lived_init (w : ThreadedWiring Ty) : (init w).Lived w.lifeOf where
  like _ := ⟨rfl, rfl, rfl, rfl⟩
  traced := by
    refine ⟨0, .nil, ?_, ?_, ?_⟩
    · simp [ThreadedWiring.lifeOf]
    · simp [ThreadedWiring.lifeOf]
    · simp [ThreadedWiring.lifeOf]
  done i _ h := by cases h
  waited h := by cases h
  joined _ _ h := by cases h
  letters h := by
    simp [ThreadedWiring.lifeOf] at h
  others j hj := by
    have hne : j ≠ w.n + 1 := by omega
    simp [init, hne]
  pushed _ := permitted_nil
  sent j h := by
    simp only [ThreadedWiring.lifeOf] at h ⊢
    split at h
    · omega
    · rename_i hlt
      rw [if_neg hlt]
      rfl
  received _ := rfl
  timed _ h := by cases h

/-- The flags of a thread are those it began with. -/
theorem Lived.owner (h : net.Lived v) {j : Nat} :
    ((v j).sink = true → j = 0) ∧ ((v j).source = true → j = w.n) ∧
      ((v j).dlq = true → w.n < j) := by
  obtain ⟨hsink, hsource, hdlq, -⟩ := h.like j
  rw [hsink, hsource, hdlq]
  simp only [ThreadedWiring.lifeOf, Bool.and_eq_true, decide_eq_true_eq]
  exact ⟨id, id, And.left⟩

section Reply

variable {j : Nat} {e : Eff (Ty (j + 1)) (Ty j)}
  {k : Ans e → Prog (Eff (Ty (j + 1)) (Ty j)) Ans ((w.task j).S ⊕ Exit)}

theorem Lived.running_le (h : net.Lived v) (ht : net.threads j = .running (.vis e k)) :
    j ≤ w.n + 1 := by
  by_contra hlt
  rw [h.others j (by omega)] at ht
  cases ht

/-- A component is touched when its time has come in the whole run. -/
theorem Lived.due (h : net.Lived v)
    (hended : ∀ i exit, net.threads i = .finished exit → w.Ended i (v i))
    (ht : net.threads j = .running (.vis e k)) (hpre : (life true).pre e (v j)) {t : Touch}
    (htouch : e.touch = some t) {m : Nat} (hm : w.Stands v m) : t.Due m := by
  obtain ⟨hsink, hsource, hcaller⟩ := hm
  obtain ⟨hzero, hn, hdlq⟩ := h.owner (j := j)
  have hdue := life_touch hpre htouch
  have howned := life_owned hpre htouch
  have hle := h.running_le ht
  cases t with
  | write =>
    obtain rfl := hzero howned
    have hphase : (v 0).phase = 0 := hdue
    show m = 0
    omega
  | pull =>
    obtain rfl := hn howned
    have hphase : (v w.n).phase ≤ 2 := hdue
    show m ≤ 2
    omega
  | letter =>
    have hphase : (v j).phase ≤ 2 := howned
    show m ≤ 3
    by_contra hlt
    have hne : j ≠ w.n + 1 := by
      intro heq
      rw [heq] at hphase
      omega
    obtain ⟨exit, hexit⟩ := h.joined _ _ (h.letters (by omega) j (by omega))
    rw [ht] at hexit
    cases hexit
  | teardown call =>
    cases call with
    | sinkFlush =>
      obtain rfl := hzero howned
      have hphase : (v 0).phase = 0 := hdue
      show m = 0
      omega
    | sinkClose =>
      obtain rfl := hzero howned
      have hphase : (v 0).phase = 1 := hdue
      show m = 1
      omega
    | sourceClose =>
      obtain rfl := hn howned.1
      have hphase : (v w.n).phase = 2 := hdue
      have hfirst : 2 ≤ (v 0).phase := by
        rcases Nat.eq_zero_or_pos w.n with hnone | hpos
        · rw [← hnone]
          exact Nat.le_of_eq hphase.symm
        · exact h.waited howned.2 0 hpos
      show m = 2
      omega
    | dlqFlush =>
      obtain rfl : j = w.n + 1 := Nat.le_antisymm hle (hdlq howned.1)
      have hphase : (v (w.n + 1)).phase = 3 := hdue
      have hcrew : w.n ∈ (v (w.n + 1)).crew := by
        rw [(h.like (w.n + 1)).crew]
        simp [ThreadedWiring.lifeOf]
      obtain ⟨exit, hexit⟩ := h.joined _ _ (howned.2 w.n hcrew)
      have hclosed := (hended _ exit hexit).source rfl
      show m = 3
      omega
    | dlqClose =>
      obtain rfl : j = w.n + 1 := Nat.le_antisymm hle (hdlq howned)
      have hphase : (v (w.n + 1)).phase = 4 := hdue
      show m = 4
      omega

/-- A thread that sends has not closed what it feeds. -/
theorem Lived.send_stands (h : net.Lived v) {op : StageOp (Ty j)}
    (hpre : (life true).pre (.send op : Eff (Ty (j + 1)) (Ty j)) (v j)) {m : Nat}
    (hm : w.Stands v m) (ok : Bool) :
    w.Stands (update v j ((v j).after (.send op : Eff (Ty (j + 1)) (Ty j)) ok)) m := by
  obtain ⟨hsink, hsource, hcaller⟩ := hm
  obtain ⟨hone, -⟩ := hpre.2.2.le
  obtain ⟨-, htwo⟩ := Life.after_send hpre ok
  have hzero : 0 ≠ j := by
    intro hj
    have hfeeds := hpre.1
    rw [(h.like j).sink, ← hj] at hfeeds
    cases hfeeds
  have hne : w.n + 1 ≠ j := by
    intro hj
    rw [← hj] at hone
    omega
  refine ⟨?_, ?_, ?_⟩
  · rw [update_of_ne hzero]
    exact hsink
  · by_cases hn : w.n = j
    · subst hn
      rw [update_self]
      omega
    · rw [update_of_ne hn]
      exact hsource
  · rw [update_of_ne hne]
    exact hcaller

/-- Where the run stands after a request. -/
theorem Lived.stands (h : net.Lived v) (ht : net.threads j = .running (.vis e k))
    (hpre : (life true).pre e (v j)) {m : Nat} (hm : w.Stands v m)
    (hdue : ∀ t, e.touch = some t → t.Due m) (a : Ans e) :
    w.Stands (update v j ((v j).after e a)) (m + (e.touch.map Touch.weight).getD 0) := by
  by_cases hsend : ∀ op, e ≠ .send op
  · have hphase := Life.after_phase (w := v j) hsend a
    rw [Eff.teardown_touch] at hphase
    generalize (v j).after e a = v' at hphase ⊢
    have hquiet : v'.phase = (v j).phase → w.Stands (update v j v') m := by
      intro hsame
      have hall : ∀ i, (update v j v' i).phase = (v i).phase := by
        intro i
        by_cases hi : i = j
        · subst hi
          rwa [update_self]
        · rw [update_of_ne hi]
      constructor
      · rw [hall]
        exact hm.sink
      · rw [hall]
        exact hm.source
      · rw [hall]
        exact hm.caller
    cases htouch : e.touch with
    | none =>
      rw [htouch] at hphase
      exact hquiet hphase
    | some t =>
      rw [htouch] at hphase
      cases t with
      | write | letter | pull => exact hquiet hphase
      | teardown call =>
        exact hm.teardown (h.owner (j := j)) (h.running_le ht) (life_owned hpre htouch)
          (life_touch hpre htouch) (hdue _ htouch) hphase
  · simp only [not_forall, not_not] at hsend
    obtain ⟨op, rfl⟩ := hsend
    exact h.send_stands hpre hm a

/-- An answer to a request of thread `j` adds to what was sent on the edge it feeds only. -/
theorem Answers.accepted_other (ha : Answers out net j e a net') {i : Nat} (hi : i + 1 ≠ j) :
    (net'.edges i).accepted = (net.edges i).accepted := by
  cases ha with
  | @sent i' | @trySent i' =>
    have hne : i ≠ i' := by omega
    simp [Net.setEdge, hne]
  | received | droppedSender =>
    exact setEdge_edges (P := fun i e => e.accepted = (net.edges i).accepted) (by rfl)
      (fun _ => rfl) i
  | _ => rfl

theorem Answers.accepted_same (ha : Answers out net j e a net')
    (he : ∀ op, e ≠ .send op ∧ e ≠ .trySend op) (i : Nat) :
    (net'.edges i).accepted = (net.edges i).accepted := by
  cases ha with
  | @sent _ _ op => exact absurd rfl (he op).1
  | @trySent _ _ op => exact absurd rfl (he op).2
  | received | droppedSender =>
    exact setEdge_edges (P := fun i e => e.accepted = (net.edges i).accepted) (by rfl)
      (fun _ => rfl) i
  | _ => rfl

theorem Answers.returned_other (ha : Answers out net j e a net') {i : Nat} (hi : i ≠ j) :
    (net'.edges i).returned = (net.edges i).returned := by
  cases ha with
  | received => simp [Net.setEdge, hi]
  | sent | trySent | droppedSender =>
    exact setEdge_edges (P := fun i e => e.returned = (net.edges i).returned) (by rfl)
      (fun _ => rfl) i
  | _ => rfl

theorem Answers.returned_same (ha : Answers out net j e a net')
    (he : ∀ timeout, e ≠ .recv timeout) (i : Nat) :
    (net'.edges i).returned = (net.edges i).returned := by
  cases ha with
  | @received _ _ timeout => exact absurd rfl (he timeout)
  | sent | trySent | droppedSender =>
    exact setEdge_edges (P := fun i e => e.returned = (net.edges i).returned) (by rfl)
      (fun _ => rfl) i
  | _ => rfl

/-- Which threads have dropped their sender of the `done` channel. -/
theorem Answers.dropped_done (ha : Answers out net j e a net') {i : Nat}
    (h : net'.done i = true) : net.done i = true ∨ i = j ∧ e = .dropDone := by
  cases ha with
  | droppedDone =>
    by_cases hi : i = j
    · exact .inr ⟨hi, rfl⟩
    · left
      simpa [update_of_ne hi] using h
  | _ => exact .inl h

theorem Answers.segments_done {a : Unit} (ha : Answers out net j .waitDone a net') (i : Nat)
    (hi : i < w.n) : net.done i = true := by
  cases ha with
  | outside he => exact he.elim
  | segmentsDone hall => exact hall i hi

/-- The answer leaves a receiver that is inside `recv_timeout` there, unless it is the one
answered. -/
theorem Answers.timing (ha : Answers out net j e a net') {i : Nat}
    (h : (net'.edges i).rx.pc.timing = true) :
    (net.edges i).rx.pc.timing = true ∧ (i = j → ∀ timeout, e ≠ .recv timeout) := by
  cases ha with
  | @received _ _ timeout =>
    by_cases hi : i = j
    · subst hi
      rw [setEdge_self] at h
      cases h
    · simp only [Net.setEdge, update_of_ne hi] at h
      exact ⟨h, fun heq => absurd heq hi⟩
  | @sent i' | @trySent i' | @droppedSender i' =>
    refine ⟨?_, fun _ timeout => by simp⟩
    by_cases hi : i = i'
    · subst hi
      rw [setEdge_self] at h
      exact h
    · simpa only [Net.setEdge, update_of_ne hi] using h
  | outside he =>
    refine ⟨h, fun _ timeout htimeout => ?_⟩
    subst htimeout
    exact he
  | _ => exact ⟨h, fun _ timeout => by simp⟩

/-- The observer, and flush and close of the sink and of the dead-letter sink, do not panic. -/
def Unbroken (out : Outside Ty) : Prop :=
  ∀ j log (e : Eff (Ty (j + 1)) (Ty j)) a, out j log e a → Calm e a ∧ Steady e a

/-- The answers of the network are the promised ones. -/
theorem Lived.promised (h : net.Lived v) (hw : net.Wired) (hout : Unbroken out)
    (ht : net.threads j = .running (.vis e k)) (ha : Answers out net j e a net') :
    paced.post e (v j) a ((v j).after e a) := by
  cases ha with
  | outside he ha =>
    obtain ⟨hcalm, hsteady⟩ := hout j _ e a ha
    refine ⟨⟨⟨hcalm, fun _ => hsteady⟩, rfl, ?_⟩, ?_⟩
    · cases e with
      | recv => exact he.elim
      | _ => trivial
    · cases e with
      | recv => exact he.elim
      | _ => trivial
  | @received _ r timeout hpc =>
    refine ⟨⟨⟨trivial, fun _ => trivial⟩, rfl, ?_⟩, ?_⟩
    · cases r with
      | msg op =>
        have hflow := (hw.reachable j).flow
        have htaken : (net.edges j).taken = (net.edges j).returned ++ [op] := by
          rw [hflow.returned, hpc]
          rfl
        obtain ⟨rest, hrest⟩ := hflow.taken
        show Permits op.signal (v j).inp
        rw [← h.received j]
        apply h.pushed j _ op rest
        rw [← hrest, htaken, List.append_assoc]
        rfl
      | timedOut | disconnected => trivial
    · cases timeout with
      | some timeout => trivial
      | none =>
        cases r with
        | timedOut =>
          obtain ⟨timeout, k', hawaits⟩ := h.timed j (by rw [hpc]; rfl)
          rw [ht] at hawaits
          injection hawaits with hawaits
          injection hawaits with hrecv
          injection hrecv with hsame
          cases hsame
        | msg | disconnected => trivial
  | _ => exact ⟨⟨⟨trivial, fun _ => trivial⟩, rfl, trivial⟩, trivial⟩

/-- A thread that feeds an edge makes its teardown calls once it has closed that. -/
theorem Lived.teardown_late (h : net.Lived v) (hj : 0 < j) (hpre : (life true).pre e (v j))
    (he : e.teardown ≠ 0) : 2 ≤ (v j).phase := by
  rw [Eff.teardown_touch] at he
  cases htouch : e.touch with
  | none => simp [htouch] at he
  | some t =>
    have howned := life_owned hpre htouch
    have hat := life_touch hpre htouch
    cases t with
    | write | letter | pull => simp [htouch, Touch.weight] at he
    | teardown call =>
      simp only [Touch.Due] at hat
      cases call with
      | sinkFlush | sinkClose => exact absurd (h.owner.1 howned) (Nat.ne_of_gt hj)
      | sourceClose | dlqFlush | dlqClose =>
        rw [hat]
        decide

/-- How far the streams have come after an answer to a thread that feeds an edge. -/
theorem Lived.sent_after (h : net.Lived v) {i : Nat}
    {e : Eff (Ty (i + 2)) (Ty (i + 1))} {a : Ans e} (hpre : (life true).pre e (v (i + 1)))
    (ha : Answers out net (i + 1) e a net') (hphase : ((v (i + 1)).after e a).phase ≤ 1) :
    reach (net'.edges i).accepted = ((v (i + 1)).after e a).phase := by
  by_cases hsends : ∀ op, e ≠ .send op ∧ e ≠ .trySend op
  · have hafter := Life.after_phase (w := v (i + 1)) (fun op => (hsends op).1) a
    have hzero : e.teardown = 0 := by
      by_contra hne
      have hlate : 2 ≤ (v (i + 1)).phase := h.teardown_late (Nat.succ_pos i) hpre hne
      omega
    rw [hzero] at hafter
    replace hafter : ((v (i + 1)).after e a).phase = (v (i + 1)).phase := hafter
    rw [hafter] at hphase ⊢
    rw [ha.accepted_same hsends]
    exact h.sent i hphase
  · simp only [not_forall] at hsends
    obtain ⟨op, hop⟩ := hsends
    cases ha with
    | @sent _ r op' hpc =>
      obtain ⟨hone, -⟩ := hpre.2.2.le
      rw [setEdge_self]
      simp only [Life.after] at hphase ⊢
      by_cases hok : r = .ok
      · have hreach := h.sent i hone
        simp only [Edge.returnSend, hok, if_true, decide_true, Bool.true_or, reach_concat, hreach]
        rfl
      · by_cases hclosing : op'.closing = true
        · have htwo : PipeIo.goes op'.signal (v (i + 1)).phase = 2 := by
            cases op' with
            | close | abort => rfl
            | process | tick | flush => cases hclosing
          simp [hclosing, htwo] at hphase
        · simp only [Edge.returnSend, hok, hclosing, if_false, decide_false, Bool.or_false,
            Bool.false_eq_true] at hphase ⊢
          exact h.sent i hphase
    | @trySent _ r op' hpc =>
      obtain ⟨-, -, hzero, rfl⟩ := hpre
      have hreach := h.sent i (by omega)
      rw [setEdge_self]
      simp only [Edge.returnSend]
      split
      · rw [reach_concat, hreach]
        rfl
      · rw [hreach]
        rfl
    | outside he =>
      exfalso
      apply hop
      constructor
      · intro heq
        subst heq
        exact he
      · intro heq
        subst heq
        exact he
    | _ => simp at hop

/-- The phase of no thread goes back. -/
theorem Lived.le_update (hpre : (life true).pre e (v j)) (a : Ans e) (i : Nat) :
    (v i).phase ≤ (update v j ((v j).after e a) i).phase := by
  by_cases hi : i = j
  · subst hi
    rw [update_self]
    exact Life.le_after hpre a
  · exact Nat.le_of_eq (congrArg Life.phase (update_of_ne hi _ _).symm)

/-- The calling thread flushes the dead-letter sink once it has joined all others. -/
theorem Lived.letters_after (h : net.Lived v) (ht : net.threads (w.n + 1) = .running (.vis e' k'))
    (hpre : (life true).pre e' (v (w.n + 1))) (a : Ans e')
    (hlate : 4 ≤ ((v (w.n + 1)).after e' a).phase) {i : Nat} (hi : i ≤ w.n) :
    i ∈ ((v (w.n + 1)).after e' a).joined := by
  obtain ⟨m, -, hm⟩ := h.traced
  have hcaller := hm.caller
  apply Life.joined_after
  by_cases hold : 4 ≤ (v (w.n + 1)).phase
  · exact h.letters hold i hi
  · have hthree : (v (w.n + 1)).phase = 3 := by omega
    by_cases hsend : ∀ op, e' ≠ .send op
    · have hafter := Life.after_phase (w := v (w.n + 1)) hsend a
      rw [Eff.teardown_touch] at hafter
      cases htouch : e'.touch with
      | none =>
        rw [htouch] at hafter
        replace hafter : ((v (w.n + 1)).after e' a).phase = (v (w.n + 1)).phase := hafter
        omega
      | some t =>
        have hdue := life_touch hpre htouch
        have howned := life_owned hpre htouch
        cases t with
        | write | letter | pull =>
          rw [htouch] at hafter
          replace hafter : ((v (w.n + 1)).after e' a).phase = (v (w.n + 1)).phase := hafter
          omega
        | teardown call =>
          simp only [Touch.Due, hthree] at hdue
          cases call with
          | dlqFlush =>
            apply howned.2
            rw [(h.like (w.n + 1)).crew]
            simp only [ThreadedWiring.lifeOf, Nat.lt_succ_self, if_true, List.mem_range]
            omega
          | sinkFlush | sinkClose | sourceClose | dlqClose => cases hdue
    · simp only [not_forall, not_not] at hsend
      obtain ⟨op, rfl⟩ := hsend
      obtain ⟨hone, -⟩ := hpre.2.2.le
      omega

/-- The lives go on at every answer. -/
theorem Lived.reply (h : net.Lived v)
    (hended : ∀ i exit, net.threads i = .finished exit → w.Ended i (v i))
    (ht : net.threads j = .running (.vis e k)) (hpre : (life true).pre e (v j))
    (ha : Answers out net j e a net') :
    ((net'.record j ⟨e, a⟩).goes j (.running (k a))).Lived (update v j ((v j).after e a)) where
  like i := by
    by_cases hi : i = j
    · subst hi
      rw [update_self]
      exact (h.like i).after a
    · rw [update_of_ne hi]
      exact h.like i
  traced := by
    obtain ⟨m, htidy, hm⟩ := h.traced
    have hdue : ∀ t, e.touch = some t → t.Due m := fun t htouch =>
      h.due hended ht hpre htouch hm
    refine ⟨_, ?_, h.stands ht hpre hm hdue a⟩
    have htouches : ((net'.record j ⟨e, a⟩).goes j (.running (k a))).touches =
        net.touches ++ e.touch.toList := by
      simp only [Net.touches, Net.record, Net.goes, ha.history.1, List.filterMap_append]
      cases htouch : e.touch <;> simp [htouch]
    rw [htouches]
    cases htouch : e.touch with
    | none => simpa using htidy
    | some t => exact htidy.step (hdue t htouch)
  done i hi hdone := by
    rcases ha.dropped_done hdone with hold | ⟨rfl, rfl⟩
    · exact Nat.le_trans (h.done i hi hold) (le_update hpre a i)
    · exact Nat.le_trans (hpre.2.2.2 rfl) (le_update hpre a i)
  waited hwaited i hi := by
    refine Nat.le_trans ?_ (le_update hpre a i)
    by_cases hn : w.n = j
    · subst hn
      rw [update_self] at hwaited
      rcases Life.after_waited hwaited with hold | rfl
      · exact h.waited hold i hi
      · exact h.done i hi (ha.segments_done i hi)
    · rw [update_of_ne hn] at hwaited
      exact h.waited hwaited i hi
  joined i m hm := by
    have hfinished : ∃ exit, net.threads m = .finished exit := by
      by_cases hij : i = j
      · subst hij
        rw [update_self] at hm
        rcases Life.after_joined hm with hold | rfl
        · exact h.joined i m hold
        · exact ⟨a, ha.joins_ended⟩
      · rw [update_of_ne hij] at hm
        exact h.joined i m hm
    obtain ⟨exit, hexit⟩ := hfinished
    have hne : m ≠ j := by
      intro hm
      subst hm
      rw [ht] at hexit
      cases hexit
    exact ⟨exit, (update_of_ne hne ..).trans (ha.finished hexit)⟩
  letters hlate i hi := by
    by_cases hj : w.n + 1 = j
    · subst hj
      rw [update_self] at hlate ⊢
      exact h.letters_after ht hpre a hlate hi
    · rw [update_of_ne hj] at hlate ⊢
      exact h.letters hlate i hi
  others i hi := by
    have hne : i ≠ j := by
      intro hij
      subst hij
      rw [h.others i hi] at ht
      cases ht
    have hother : net'.threads i = net.threads i := by
      cases ha with
      | @spawned m _ _ =>
        have hcrew : m ∈ (v j).crew := hpre.1
        rw [(h.like j).crew] at hcrew
        simp only [ThreadedWiring.lifeOf] at hcrew
        split at hcrew
        · have hlt := List.mem_range.1 hcrew
          have hnot : i ≠ m := by omega
          simp [Net.goes, hnot]
        · cases hcrew
      | _ => rfl
    exact (update_of_ne hne ..).trans (hother.trans (h.others i hi))
  pushed i := by
    have hpushed := ha.pushed i
    simpa only [Net.goes, Net.record, hpushed] using h.pushed i
  sent i hi := by
    by_cases hij : i + 1 = j
    · subst hij
      rw [update_self] at hi ⊢
      have hreach := h.sent_after hpre ha hi
      exact hreach
    · rw [update_of_ne hij] at hi ⊢
      have hsame := ha.accepted_other hij
      simpa only [Net.goes, Net.record, hsame] using h.sent i hi
  received i := by
    by_cases hij : i = j
    · subst hij
      rw [update_self]
      by_cases hrecv : ∀ timeout, e ≠ .recv timeout
      · have hsame := ha.returned_same hrecv i
        rw [Life.after_inp hrecv]
        simpa only [Net.goes, Net.record, hsame] using h.received i
      · simp only [not_forall, not_not] at hrecv
        obtain ⟨timeout, rfl⟩ := hrecv
        cases ha with
        | outside he => exact he.elim
        | received hpc =>
          have hreach := h.received i
          simp only [Net.goes, Net.record, setEdge_self]
          cases a with
          | msg op =>
            simp only [Edge.returnRecv, reach_concat, hreach]
            rfl
          | timedOut | disconnected => exact hreach
    · rw [update_of_ne hij]
      have hsame := ha.returned_other hij
      simpa only [Net.goes, Net.record, hsame] using h.received i
  timed i hi := by
    obtain ⟨hold, hnot⟩ := ha.timing hi
    obtain ⟨timeout, k', hawaits⟩ := h.timed i hold
    have hne : i ≠ j := by
      intro hij
      subst hij
      rw [ht] at hawaits
      injection hawaits with hawaits
      injection hawaits with hrecv
      exact hnot rfl _ hrecv
    refine ⟨timeout, k', (update_of_ne hne ..).trans ?_⟩
    cases ha with
    | @spawned m _ hready =>
      have hnot : i ≠ m := by
        intro him
        subst him
        rw [hready] at hawaits
        cases hawaits
      simpa [Net.goes, Net.record, hnot] using hawaits
    | _ => exact hawaits

end Reply

/-- An edge moves on. -/
theorem Lived.setEdge (h : net.Lived v) {j : Nat} {e : Edge (StageOp (Ty (j + 1)))}
    (hpushed : Permitted e.pushed) (haccepted : e.accepted = (net.edges j).accepted)
    (hreturned : e.returned = (net.edges j).returned)
    (htimed : e.rx.pc.timing = true → (net.threads j).Awaits) : (net.setEdge j e).Lived v where
  like := h.like
  traced := h.traced
  done := h.done
  waited := h.waited
  joined := h.joined
  letters := h.letters
  others := h.others
  pushed := setEdge_edges (P := fun _ e => Permitted e.pushed) hpushed h.pushed
  sent i hi := by
    have hsame := setEdge_edges (P := fun i e => e.accepted = (net.edges i).accepted) haccepted
      (fun _ => rfl) i
    rw [hsame]
    exact h.sent i hi
  received i := by
    have hsame := setEdge_edges (P := fun i e => e.returned = (net.edges i).returned) hreturned
      (fun _ => rfl) i
    rw [hsame]
    exact h.received i
  timed := setEdge_edges (P := fun i e => e.rx.pc.timing = true → (net.threads i).Awaits) htimed
    h.timed

theorem Lived.enter (h : net.Lived v) {j : Nat} {e : Eff (Ty (j + 1)) (Ty j)}
    {k : Ans e → Prog (Eff (Ty (j + 1)) (Ty j)) Ans ((w.task j).S ⊕ Exit)}
    (ht : net.threads j = .running (.vis e k)) (he : Enters net j e net') : net'.Lived v := by
  cases he with
  | send hpc op => exact h.setEdge (h.pushed _) rfl rfl (h.timed _)
  | trySend hpc op => exact h.setEdge (h.pushed _) rfl rfl (h.timed _)
  | recv hpc timeout =>
    refine h.setEdge (h.pushed _) rfl rfl fun htiming => ?_
    cases timeout with
    | none => cases htiming
    | some timeout => exact ⟨timeout, k, ht⟩
  | dropReceiver hpc =>
    refine h.setEdge (h.pushed _) rfl rfl fun htiming => ?_
    cases htiming

/-- A thread that is at no request goes on, or ends. -/
theorem Lived.goes (h : net.Lived v) {j : Nat} {r : (w.task j).S ⊕ Exit}
    (ht : net.threads j = .running (.ret r)) (t : Thread (w.task j)) : (net.goes j t).Lived v where
  like := h.like
  traced := h.traced
  done := h.done
  waited := h.waited
  joined i m hm := by
    obtain ⟨exit, hexit⟩ := h.joined i m hm
    have hne : m ≠ j := by
      intro heq
      subst heq
      rw [ht] at hexit
      cases hexit
    exact ⟨exit, (update_of_ne hne ..).trans hexit⟩
  letters := h.letters
  others i hi := by
    have hne : i ≠ j := by
      intro heq
      subst heq
      rw [h.others i hi] at ht
      cases ht
    exact (update_of_ne hne ..).trans (h.others i hi)
  pushed := h.pushed
  sent := h.sent
  received := h.received
  timed i hi := by
    obtain ⟨timeout, k, hawaits⟩ := h.timed i hi
    have hne : i ≠ j := by
      intro heq
      subst heq
      rw [ht] at hawaits
      cases hawaits
    exact ⟨timeout, k, (update_of_ne hne ..).trans hawaits⟩

end Net

theorem Wait.pushed_length (wait : Wait M) : wait.pushed.length ≤ 1 := by
  cases wait with
  | room target msg => exact Nat.zero_le 1
  | handOff target msg => exact Nat.le_refl 1

/-- At most one message has been put into an edge whose `send` has not returned. -/
theorem TxPc.unreturned_length (pc : TxPc M) : pc.unreturned.length ≤ 1 := by
  cases pc with
  | idle | tryClosed | hasRoom | inFlight | push | gone => exact Nat.zero_le 1
  | result r msg =>
    cases r with
    | ok => exact Nat.le_refl 1
    | full | disconnected => exact Nat.zero_le 1
  | spinReceived round wait | spinClosed round wait | retract round wait | release round wait =>
    exact wait.pushed_length
  | acquire wait | announce wait | checkReceived wait | checkClosed wait | park wait
  | parked wait => exact wait.pushed_length

/-- When a message is put into an edge, all before it have been sent. -/
theorem Edge.Inner.pushes {e e' : Edge M} (h : Inner capacity e e') (hr : Reachable capacity e)
    {msg : M} (hpushed : e'.pushed = e.pushed ++ [msg]) : e.pushed = e.accepted := by
  have hbefore := hr.flow.accepted
  have hafter := (hr.step h.step).flow.accepted
  obtain ⟨-, haccepted, -⟩ := h.history
  have hlength := e'.tx.pc.unreturned_length
  have hcount := congrArg List.length hafter
  have hcount' := congrArg List.length hbefore
  rw [hpushed, haccepted] at hcount
  simp only [List.length_append, List.length_cons, List.length_nil] at hcount hcount'
  have hnone : e.tx.pc.unreturned = [] := List.eq_nil_of_length_eq_zero (by omega)
  rw [hbefore, hnone, List.append_nil]

namespace Net

variable {Ty : Nat → Type} {w : ThreadedWiring Ty} {out : Outside Ty} {net net' : Net w}

/-- The threads of a run with the lives they lead. -/
def living (w : ThreadedWiring Ty) (hidle : w.idle_tick = none) : Protocol w where
  W _ := Life
  Γ _ := paced
  start := w.lifeOf
  loop j := (w.task_lives hidle j).choose
  exits j _ := w.Ended j

theorem living_kept (w : ThreadedWiring Ty) (hidle : w.idle_tick = none) :
    (living w hidle).Kept where
  begins j := (w.task_lives hidle j).choose_spec.1
  rounds j s v hs := by
    apply Prog.wp_mono ((w.task_lives hidle j).choose_spec.2 s v hs)
    intro r v' hr
    cases r with
    | inl s => exact hr
    | inr exit => exact hr

/-- An operation on its way into an edge is permitted there. -/
theorem sends_permitted {hidle : w.idle_tick = none} {v : Nat → Life}
    (h : (living w hidle).At Lived net v) {j : Nat} {op : StageOp (Ty (j + 1))}
    (hs : (net.threads (j + 1)).Sends op) : Permits op.signal (v (j + 1)).phase := by
  have hfollows := h.follows (j + 1)
  rcases hs with ⟨k, ht⟩ | ⟨k, ht⟩
  · rw [ht] at hfollows
    have hpre : (life true).pre (.send op : Eff (Ty (j + 2)) (Ty (j + 1))) (v (j + 1)) :=
      hfollows.1
    exact hpre.2.2
  · rw [ht] at hfollows
    have hpre : (life true).pre (.trySend op : Eff (Ty (j + 2)) (Ty (j + 1))) (v (j + 1)) :=
      hfollows.1
    obtain ⟨-, -, hzero, rfl⟩ := hpre
    exact hzero

theorem living_ties (w : ThreadedWiring Ty) (hidle : w.idle_tick = none) (hout : Unbroken out) :
    (living w hidle).Ties out Lived where
  init := lived_init w
  reply := by
    intro net v j e k a net' h ht hpre ha
    have hties : net.Lived v := h.ties
    have hended : ∀ i exit, net.threads i = .finished exit → w.Ended i (v i) := by
      intro i exit hexit
      have hfollows := h.follows i
      rw [hexit] at hfollows
      exact hfollows
    exact ⟨_, hties.promised h.wired hout ht ha, hties.reply hended ht hpre ha⟩
  enter := by
    intro net v j e k net' h ht hpre he
    have hties : net.Lived v := h.ties
    exact hties.enter ht he
  inner := by
    intro net v j e h hi
    have hties : net.Lived v := h.ties
    obtain ⟨hpushed, haccepted, hreturned⟩ := hi.history
    refine hties.setEdge ?_ haccepted hreturned fun htiming => hties.timed j (hi.timing htiming)
    rcases hpushed with hsame | ⟨op, hop, hmore⟩
    · rw [hsame]
      exact hties.pushed j
    · have hpermits := sends_permitted h (h.wired.sends j op hop)
      rw [hmore]
      apply (hties.pushed j).concat
      rw [hi.pushes (h.wired.reachable j) hmore, hties.sent j hpermits.le.1]
      exact hpermits
  silent := by
    intro net v j r t h ht _
    have hties : net.Lived v := h.ties
    exact hties.goes ht t

/-- Threaded teardown, in order: in every state of every run without an idle tick, however its
threads interleave and whatever its components answer, the teardown calls made so far are the
first ones of the whole order, once each, and nothing was written, dead-lettered or pulled after
its component was flushed or closed; once the call has ended the teardown is complete. -/
theorem tears_down_in_order (hidle : w.idle_tick = none) (hout : Unbroken out)
    (hnet : net.Reachable out) :
    (∃ m, Tidy net.touches m) ∧ ∀ exit, net.threads (w.n + 1) = .finished exit →
      TornDown w.built.dead_letter net.touches := by
  obtain ⟨v, hat⟩ :=
    (living w hidle).reachable (living_kept w hidle) (living_ties w hidle hout) hnet
  have hties : net.Lived v := hat.ties
  obtain ⟨m, htidy, hm⟩ := hties.traced
  refine ⟨⟨m, htidy⟩, fun exit hexit => ?_⟩
  have hended : ∀ {i : Nat} {exit : Exit}, net.threads i = .finished exit → w.Ended i (v i) := by
    intro i exit ht
    have hfollows := hat.follows i
    rw [ht] at hfollows
    exact hfollows
  obtain ⟨hphase, hjoined⟩ := (hended hexit).caller (Nat.lt_succ_self w.n)
  have hcrew : w.n ∈ (w.lifeOf (w.n + 1)).crew := by simp [ThreadedWiring.lifeOf]
  obtain ⟨exit', hexit'⟩ := hties.joined _ _ (hjoined w.n hcrew)
  have hsource := (hended hexit').source rfl
  have hdlq : (w.lifeOf (w.n + 1)).dlq = w.built.dead_letter := by simp [ThreadedWiring.lifeOf]
  rw [hdlq, hm.caller] at hphase
  have hclosed := hm.source.1 (Nat.le_of_eq hsource.symm)
  have hall : m = finalPhase w.built.dead_letter := by omega
  rw [TornDown, ← hall]
  exact htidy

/-- A source, a sink and a dead-letter sink, without edges. -/
def direct : ThreadedWiring fun _ => Nat :=
  ⟨0, fun _ => .nil, fun _ => 0, "sink", "source", none, false, ⟨true, false⟩⟩

/-- The source yields `xs`, and nothing fails. -/
def yields (xs : List Nat) : Outside fun _ => Nat := fun _ log e a => a = Oracle.serving xs log e

theorem Reachable.answer (h : Reachable out net) (j : Nat) {e : Eff (Ty (j + 1)) (Ty j)}
    {a : Ans e} {k : Ans e → Prog (Eff (Ty (j + 1)) (Ty j)) Ans ((w.task j).S ⊕ Exit)}
    (ht : net.threads j = .running (.vis e k)) (ha : Answers out net j e a net') :
    Reachable out ((net'.record j ⟨e, a⟩).goes j (.running (k a))) := .step h (.reply ht ha)

theorem unbroken_yields (xs : List Nat) : Unbroken (yields xs) := by
  intro j log e a ha
  obtain rfl : a = Oracle.serving xs log e := ha
  cases e with
  | deadLetter op => cases op <;> exact ⟨trivial, by simp [Steady, Oracle.serving]⟩
  | flush | close => exact ⟨trivial, by simp [Steady, Oracle.serving]⟩
  | observe event => exact ⟨rfl, trivial⟩
  | _ => exact ⟨trivial, trivial⟩

/-- The run of a pipeline whose source is empty. -/
theorem tears_down_in_order_direct : ∃ net : Net direct, net.Reachable (yields []) ∧
    (∃ exit, net.threads 1 = .finished exit) ∧ TornDown true net.touches := by
  have h : (init direct).Reachable (yields []) := .init
  have h := h.answer 1 rfl (.spawned (i := 0) rfl)
  -- the source thread finds the source empty and finishes
  have h := h.answer 0 rfl (.outside trivial rfl)
  have h := h.answer 0 rfl (.outside trivial rfl)
  have h := h.answer 0 rfl (.outside trivial rfl)
  have h := h.answer 0 rfl (.outside trivial rfl)
  have h := h.answer 0 rfl (.outside trivial rfl)
  have h := h.answer 0 rfl .noSender
  have h := h.answer 0 rfl (.segmentsDone (by simp [direct]))
  have h := h.answer 0 rfl (.outside trivial rfl)
  have h := h.step (.finish (j := 0) rfl)
  -- the calling thread joins it and finishes the dead-letter sink
  have h := h.answer 1 rfl (.joined rfl)
  have h := h.answer 1 rfl .tookFirst
  have h := h.answer 1 rfl (.outside trivial rfl)
  have h := h.answer 1 rfl (.outside trivial rfl)
  have h := h.step (.finish (j := 1) rfl)
  exact ⟨_, h, ⟨_, rfl⟩, (tears_down_in_order rfl (unbroken_yields []) h).2 _ rfl⟩

end Net

end PipeIo
