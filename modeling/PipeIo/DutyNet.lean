import PipeIo.DutyThreads
import PipeIo.EdgeFlow
import PipeIo.Protocol
import PipeIo.Teardown

namespace PipeIo
set_option autoImplicit true

open Lib Function

/-- Whether a teardown call has been made. -/
def Duty.made (d : Duty) : TeardownCall → Bool
  | .sinkFlush => d.flushed
  | .sinkClose => d.closed
  | .sourceClose => d.source
  | .dlqFlush => d.dlq_flushed
  | .dlqClose => d.dlq_closed

/-- Whether a thread makes a teardown call. -/
def Role.makes (role : Role) : TeardownCall → Bool
  | .sinkFlush | .sinkClose => role.sink
  | .sourceClose => role.source
  | .dlqFlush | .dlqClose => role.dlq

theorem Duty.Complete.made {role : Role} {d : Duty} (h : d.Complete role) {k : TeardownCall}
    (hk : role.makes k = true) : d.made k = true := by
  cases k with
  | sinkFlush => exact (h.sink hk).1
  | sinkClose => exact (h.sink hk).2
  | sourceClose => exact h.source hk
  | dlqFlush => exact (h.dlq hk).1
  | dlqClose => exact (h.dlq hk).2

section Made

variable {X Y : Type} {role : Role} {d : Duty} {e : Eff X Y} {k : TeardownCall}

/-- A teardown call is made by the thread whose call it is, and was not made before. -/
theorem duties_touch (h : (duties role).pre e d) (he : e.touch = some (.teardown k)) :
    role.makes k = true ∧ d.made k = false := by
  cases e with
  | deadLetter op =>
    cases op with
    | write f => cases he
    | flush =>
      cases he
      exact h
    | close =>
      cases he
      exact h
  | flush | close | closeSource =>
    cases he
    exact h
  | write | pull | pullTimeout => cases he
  | _ => cases he

/-- The calls made after a request, on the thread whose call it is. -/
theorem Duty.after_made (h : (duties role).pre e d) (hk : k = .sinkFlush → role.sink = true)
    (a : Ans e) : (d.after e a).made k = (d.made k || decide (e.touch = some (.teardown k))) := by
  cases e with
  | deadLetter op => cases op <;> cases k <;> simp [after, made, Eff.touch]
  | flush | close | closeSource => cases k <;> simp [after, made, Eff.touch]
  | send op =>
    cases op with
    | flush =>
      cases k with
      | sinkFlush => exact Bool.noConfusion (h.1.symm.trans (hk rfl))
      | _ => simp [after, made, Eff.touch]
    | _ => simp [after, Eff.touch]
  | recv timeout =>
    cases a with
    | msg op => cases op <;> cases k <;> simp [after, made, Eff.touch]
    | _ => simp [after, Eff.touch]
  | observe event => cases k <;> simp [after, made, Eff.touch]
  | join i => cases k <;> simp [after, made, Eff.touch]
  | _ => simp [after, Eff.touch]

/-- A teardown call is counted when it is made. -/
theorem Duty.count_after (h : (duties role).pre e d) (hk : k = .sinkFlush → role.sink = true)
    (a : Ans e) : (d.made k).toNat + e.touch.toList.count (.teardown k) =
      ((d.after e a).made k).toNat := by
  rw [after_made h hk]
  by_cases htouch : e.touch = some (.teardown k)
  · rw [(duties_touch h htouch).2, htouch]
    simp
  · have hzero : e.touch.toList.count (.teardown k) = 0 := by
      rw [List.count_eq_zero]
      simpa using htouch
    rw [hzero]
    simp [htouch]

/-- A thread makes only its own teardown calls. -/
theorem Duty.makes_after (h : (duties role).pre e d) (hk : k = .sinkFlush → role.sink = true)
    (hmade : d.made k = true → role.makes k = true) {a : Ans e}
    (ha : (d.after e a).made k = true) : role.makes k = true := by
  rw [after_made h hk] at ha
  rcases Bool.or_eq_true_iff.1 ha with hold | hnew
  · exact hmade hold
  · exact (duties_touch h (of_decide_eq_true hnew)).1

theorem Duty.after_panicked {a : Ans e} (h : (d.after e a).panicked = true) :
    d.panicked = true ∨ ∃ event, (⟨e, a⟩ : Entry X Y) = ⟨.observe event, none⟩ := by
  cases e with
  | observe event =>
    cases a with
    | none => exact .inr ⟨event, rfl⟩
    | some u => exact .inl (by simpa [after] using h)
  | deadLetter op => cases op <;> exact .inl h
  | send op => cases op <;> exact .inl h
  | recv timeout =>
    cases a with
    | msg op => cases op <;> exact .inl h
    | _ => exact .inl h
  | _ => exact .inl h

theorem Duty.after_joined {a : Ans e} {i : Nat} (h : (d.after e a).joined i = true) :
    d.joined i = true ∨ e = .join i := by
  cases e with
  | join k =>
    rcases Bool.or_eq_true_iff.1 h with h | h
    · exact .inl h
    · rw [of_decide_eq_true h]
      exact .inr rfl
  | deadLetter op => cases op <;> exact .inl h
  | send op => cases op <;> exact .inl h
  | recv timeout =>
    cases a with
    | msg op => cases op <;> exact .inl h
    | _ => exact .inl h
  | _ => exact .inl h

/-- A thread that feeds an edge is done with the flush once it has been sent. -/
theorem Duty.after_flushed {a : Ans e} (hpre : (duties role).pre e d) (hs : role.sink = false)
    (h : (d.after e a).flushed = true) :
    d.flushed = true ∨ (⟨e, a⟩ : Entry X Y) = ⟨.send .flush, true⟩ := by
  cases e with
  | flush => exact Bool.noConfusion (hs.symm.trans hpre.1)
  | send op =>
    cases op with
    | flush =>
      rcases Bool.or_eq_true_iff.1 h with h | h
      · exact .inl h
      · replace h : a = true := h
        rw [h]
        exact .inr rfl
    | _ => exact .inl h
  | deadLetter op => cases op <;> exact .inl h
  | recv timeout =>
    cases a with
    | msg op => cases op <;> exact .inl h
    | _ => exact .inl h
  | _ => exact .inl h

theorem Duty.after_received (a : Ans e) (h : d.received = true) :
    (d.after e a).received = true := by
  cases e with
  | deadLetter op => cases op <;> exact h
  | send op => cases op <;> exact h
  | recv timeout =>
    cases a with
    | msg op =>
      cases op with
      | flush => rfl
      | _ => exact h
    | _ => exact h
  | _ => exact h

end Made

section Order

variable {T : Type} {ops : List (StageOp T)}

/-- No `Close` comes before a `Flush`. -/
def FlushFirst (ops : List (StageOp T)) : Prop :=
  ∀ before after, ops = before ++ .close :: after → .flush ∈ before

theorem flushFirst_nil : FlushFirst ([] : List (StageOp T)) := by
  intro before after h
  simp at h

theorem FlushFirst.concat (h : FlushFirst ops) {op : StageOp T} (hop : op = .close → .flush ∈ ops) :
    FlushFirst (ops ++ [op]) := by
  intro before after happ
  rcases List.append_eq_append_iff.1 happ with ⟨l, hbefore, hlast⟩ | ⟨l, hops, hlast⟩
  · cases l with
    | nil =>
      have hclose : op = .close := by simpa using (List.cons.inj hlast).1
      rw [hbefore, List.append_nil]
      exact hop hclose
    | cons a l => simp at hlast
  · cases l with
    | nil =>
      have hclose : op = .close := by simpa using (List.cons.inj hlast).1.symm
      rw [← List.append_nil before, ← hops]
      exact hop hclose
    | cons a l =>
      have ha : a = .close := by simpa using (List.cons.inj hlast).1.symm
      subst ha
      exact h before l hops

end Order

namespace ThreadedWiring

variable {Ty : Nat → Type} (w : ThreadedWiring Ty)

/-- What each thread has to tear down. -/
def role (j : Nat) : Role where
  sink := decide (j = 0)
  source := decide (j = w.n)
  dlq := decide (w.n < j) && w.built.dead_letter
  crew := if w.n < j then w.n + 1 else 0

theorem chain_dutiful (j : Nat) : ∃ view : (w.chain j).σ → Option SinkFlags,
    (w.chain j).Dutiful (w.role j) view ∧ Duty.start.Tracks (w.role j) (view (w.chain j).init) := by
  cases j with
  | zero =>
    refine ⟨_, (w.piece 0).assemble_obeys dutyRules_lawful.sound (sink_fn_dutiful rfl w.sink_id), ?_⟩
    rw [Stages.tailState_init]
    exact ⟨rfl, rfl⟩
  | succ j =>
    have hsink : (w.role (j + 1)).sink = false := by simp [role]
    exact ⟨_, (w.piece (j + 1)).assemble_obeys dutyRules_lawful.sound (send_fn_dutiful hsink),
      hsink⟩

/-- When thread `j` has ended, it has torn down its components; the calling thread has also joined
all others. -/
structure Done (j : Nat) (d : Duty) : Prop where
  complete : d.Complete (w.role j)
  joined : w.n < j → ∀ k ≤ w.n, d.joined k = true

theorem task_dutiful (j : Nat) : (w.task j).Dutiful (w.role j) (w.Done j) := by
  have hweaken : ∀ {t : Task (Ty (j + 1)) (Ty j)} {K K' : Duty → Prop}, (∀ d, K d → K' d) →
      t.Dutiful (w.role j) K → t.Dutiful (w.role j) K' := by
    intro t K K' hK h
    obtain ⟨I, hinit, hround⟩ := h
    refine ⟨I, hinit, fun s d hs => Prog.wp_mono (hround s d hs) fun r d' hr => ?_⟩
    cases r with
    | inl s => exact hr
    | inr exit => exact hK d' hr
  obtain ⟨view, hc, hinit⟩ := w.chain_dutiful j
  unfold task
  split
  · rename_i hlt
    have hsource : (w.role j).source = false := decide_eq_false (Nat.ne_of_lt hlt)
    refine hweaken (fun d hd => ⟨⟨hd, ?_, ?_⟩, ?_⟩)
      (ChannelSegment.task_dutiful hc hinit hsource _ _)
    · intro hs
      exact Bool.noConfusion (hsource.symm.trans hs)
    · intro hdlq
      simp [role] at hdlq
      omega
    · intro hcaller
      omega
  · rename_i hge
    split
    · rename_i heq
      subst heq
      refine hweaken (fun d hd => ⟨hd, fun hlt => absurd hlt (Nat.lt_irrefl _)⟩)
        (source_task_dutiful hc hinit (by simp [role]) (by simp [role]) _ _ _ _)
    · rename_i hne
      have hlt : w.n < j := by omega
      refine hweaken (fun d hd => ⟨⟨?_, ?_, hd.dlq⟩, fun _ => hd.joined⟩)
        (Threaded.task_dutiful (by simp [role, hlt]) (by simp [role, hlt]))
      · intro hsink
        simp [role] at hsink
        omega
      · intro hsource
        simp [role] at hsource
        omega

end ThreadedWiring

/-- The thread that makes a teardown call. -/
def ThreadedWiring.owner {Ty : Nat → Type} (w : ThreadedWiring Ty) : TeardownCall → Nat
  | .sinkFlush | .sinkClose => 0
  | .sourceClose => w.n
  | .dlqFlush | .dlqClose => w.n + 1

theorem ThreadedWiring.role_makes {Ty : Nat → Type} {w : ThreadedWiring Ty} {j : Nat}
    {k : TeardownCall} (h : (w.role j).makes k = true) (hj : j ≤ w.n + 1) : w.owner k = j := by
  cases k with
  | sinkFlush | sinkClose =>
    have hzero : j = 0 := by simpa [Role.makes, role] using h
    exact hzero.symm
  | sourceClose =>
    have hn : j = w.n := by simpa [Role.makes, role] using h
    exact hn.symm
  | dlqFlush | dlqClose =>
    have hlt : w.n < j := by
      simp [Role.makes, role] at h
      exact h.1
    exact Nat.le_antisymm hlt hj

theorem ThreadedWiring.owns_sink {Ty : Nat → Type} {w : ThreadedWiring Ty} {j : Nat}
    {k : TeardownCall} (h : w.owner k = j) : k = .sinkFlush → (w.role j).sink = true := by
  intro hk
  subst hk h
  rfl

/-- The calls of the components that are there have been made, once each. -/
def TornDownOnce (dlq : Bool) (ts : List Touch) : Prop :=
  ∀ k, ts.count (.teardown k) = if k.index < finalPhase dlq then 1 else 0

/-- A thread that is done has made the calls that it is there for. -/
theorem Duty.Complete.due {role : Role} {d : Duty} {dlq : Bool} {k : TeardownCall}
    (h : d.Complete role) (hmade : d.made k = true → role.makes k = true)
    (hrole : role.makes k = decide (k.index < finalPhase dlq)) :
    (d.made k).toNat = if k.index < finalPhase dlq then 1 else 0 := by
  by_cases hk : k.index < finalPhase dlq
  · rw [h.made (by simpa [hk] using hrole), if_pos hk]
    rfl
  · have hnot : d.made k = false := by
      by_contra hd
      have hmust := hmade (by simpa using hd)
      rw [hrole] at hmust
      exact hk (of_decide_eq_true hmust)
    rw [hnot, if_neg hk]
    rfl

/-- The observer has panicked. -/
def Log.Panicked (log : Log X Y) : Prop := ∃ event, ⟨.observe event, none⟩ ∈ log

namespace Net

variable {Ty : Nat → Type} {w : ThreadedWiring Ty} {out : Outside Ty} {net net' : Net w}
  {v : Nat → Duty}

/-- What the requests of a run did to the components, in the order they were made. -/
def touches (net : Net w) : List Touch := net.trace.filterMap fun a => a.entry.1.touch

/-- What the threads have done, seen in the network. -/
structure Accounts (net : Net w) (v : Nat → Duty) : Prop where
  calls : ∀ k, net.touches.count (.teardown k) = ((v (w.owner k)).made k).toNat
  makes : ∀ k, (v (w.owner k)).made k = true → (w.role (w.owner k)).makes k = true
  panics : ∀ j, (v j).panicked = true → (net.logs j).Panicked
  joined : ∀ j i, (v j).joined i = true → ∃ exit, net.threads i = .finished exit
  others : ∀ j, w.n + 1 < j → net.threads j = .ready
  closes : ∀ j, FlushFirst (net.edges j).pushed
  sent : ∀ j, (v (j + 1)).flushed = true → .flush ∈ (net.edges j).accepted
  received : ∀ j, .flush ∈ (net.edges j).returned → (v j).received = true

theorem accounts_init (w : ThreadedWiring Ty) : (init w).Accounts fun _ => .start where
  calls k := by cases k <;> rfl
  makes k h := by cases k <;> cases h
  panics _ h := by cases h
  joined _ _ h := by cases h
  others j hj := by
    have hne : j ≠ w.n + 1 := by omega
    simp [init, hne]
  closes _ := flushFirst_nil
  sent _ h := by cases h
  received _ h := by cases h

section Reply

variable {j : Nat} {e : Eff (Ty (j + 1)) (Ty j)} {a : Ans e}

theorem setEdge_self (net : Net w) (i : Nat) (e : Edge (StageOp (Ty (i + 1)))) :
    (net.setEdge i e).edges i = e := update_self ..

/-- What holds of every edge if it holds of the one that has changed. -/
theorem setEdge_edges {P : (i : Nat) → Edge (StageOp (Ty (i + 1))) → Prop} {i : Nat}
    {e : Edge (StageOp (Ty (i + 1)))} (hi : P i e) (h : ∀ k, P k (net.edges k)) (k : Nat) :
    P k ((net.setEdge i e).edges k) := by
  by_cases hk : k = i
  · subst hk
    rw [setEdge_self]
    exact hi
  · simpa [Net.setEdge, hk] using h k

/-- An answer leaves the history alone. -/
theorem Answers.history (ha : Answers out net j e a net') :
    net'.trace = net.trace ∧ net'.logs = net.logs := by
  cases ha <;> exact ⟨rfl, rfl⟩

theorem Answers.pushed (ha : Answers out net j e a net') (i : Nat) :
    (net'.edges i).pushed = (net.edges i).pushed := by
  cases ha with
  | sent | trySent | received | droppedSender =>
    refine setEdge_edges (P := fun i e => e.pushed = (net.edges i).pushed) ?_ (fun _ => rfl) i
    rfl
  | _ => rfl

/-- Messages that have been sent stay so. -/
theorem Answers.accepted (ha : Answers out net j e a net') (i : Nat) :
    (net.edges i).accepted ⊆ (net'.edges i).accepted := by
  cases ha with
  | sent | trySent =>
    refine setEdge_edges (P := fun i e => (net.edges i).accepted ⊆ e.accepted) ?_
      (fun _ => List.Subset.refl _) i
    simp only [Edge.returnSend]
    split
    · exact List.subset_append_left _ _
    · exact List.Subset.refl _
  | received | droppedSender =>
    refine setEdge_edges (P := fun i e => (net.edges i).accepted ⊆ e.accepted) ?_
      (fun _ => List.Subset.refl _) i
    exact List.Subset.refl _
  | _ => exact List.Subset.refl _

/-- A `Flush` has been sent when its `send` returns `Ok`. -/
theorem Answers.sent_flush {j : Nat} {e : Eff (Ty (j + 2)) (Ty (j + 1))} {a : Ans e}
    (ha : Answers out net (j + 1) e a net')
    (he : (⟨e, a⟩ : Entry (Ty (j + 2)) (Ty (j + 1))) = ⟨.send .flush, true⟩) :
    .flush ∈ (net'.edges j).accepted := by
  cases ha with
  | sent hpc =>
    injection he with he ha
    cases he
    have hok := of_decide_eq_true ha
    rw [setEdge_self, hok]
    simp [Edge.returnSend]
  | outside hout =>
    cases he
    exact hout.elim
  | _ => cases he

/-- What an answer adds to the messages that have been received. -/
theorem Answers.returned (ha : Answers out net j e a net') {i : Nat} {d : Duty}
    (hd : .flush ∈ (net.edges i).returned → d.received = true)
    (h : .flush ∈ (net'.edges i).returned) :
    i = j ∧ (d.after e a).received = true ∨ d.received = true := by
  have hother : ∀ {i' : Nat} {edge' : Edge (StageOp (Ty (i' + 1)))},
      edge'.returned = (net.edges i').returned →
        .flush ∈ ((net.setEdge i' edge').edges i).returned → d.received = true := by
    intro i' edge' hsame hmem
    refine hd ?_
    have hsame' := setEdge_edges (P := fun i e => e.returned = (net.edges i).returned) hsame
      (fun _ => rfl) i
    rwa [hsame'] at hmem
  cases ha with
  | sent | trySent | droppedSender => exact .inr (hother (by rfl) h)
  | @received _ r _ hpc =>
    by_cases hi : i = j
    · subst hi
      rw [setEdge_self] at h
      cases r with
      | msg op =>
        rcases List.mem_append.1 h with hold | hnew
        · exact .inr (hd hold)
        · obtain rfl : StageOp.flush = op := List.mem_singleton.1 hnew
          exact .inl ⟨rfl, rfl⟩
      | timedOut | disconnected => exact .inr (hd h)
    · exact .inr (hd (by simpa [Net.setEdge, hi] using h))
  | _ => exact .inr (hd h)

/-- Threads that have ended stay so. -/
theorem Answers.finished (ha : Answers out net j e a net') {i : Nat} {exit : Exit}
    (h : net.threads i = .finished exit) : net'.threads i = .finished exit := by
  cases ha with
  | @spawned k _ hready =>
    have hne : i ≠ k := by
      intro heq
      subst heq
      rw [hready] at h
      cases h
    simpa [Net.goes, hne] using h
  | _ => exact h

/-- A `Close` is received after a `Flush`. -/
theorem Accounts.close_received (h : net.Accounts v) (hw : net.Wired)
    (hpc : (net.edges j).rx.pc = .result (.msg .close)) : (v j).received = true := by
  have hflow := (hw.reachable j).flow
  have htaken : (net.edges j).taken = (net.edges j).returned ++ [.close] := by
    rw [hflow.returned, hpc]
    rfl
  obtain ⟨rest, hrest⟩ := hflow.taken
  refine h.received j (h.closes j _ rest ?_)
  rw [← hrest, htaken, List.append_assoc]
  rfl

/-- Teardown calls return; on each thread the observer panics at most once, and not on
`Started`. -/
structure Tolerable (out : Outside Ty) : Prop where
  firm : ∀ j log (e : Eff (Ty (j + 1)) (Ty j)) a, out j log e a → Firm e a
  once : ∀ j log event, out j log (.observe event) none → event ≠ .started ∧ ¬log.Panicked

/-- The answers of the network are the promised ones. -/
theorem Accounts.promised (h : net.Accounts v) (hw : net.Wired) (hout : Tolerable out)
    (ha : Answers out net j e a net') :
    (duties (w.role j)).post e (v j) a ((v j).after e a) := by
  cases ha with
  | outside he ha =>
    refine ⟨⟨hout.firm j _ e a ha, ?_⟩, rfl, ?_⟩
    · cases e with
      | observe event =>
        intro hnone
        subst hnone
        obtain ⟨hstarted, hfirst⟩ := hout.once j _ event ha
        exact ⟨hstarted, Bool.eq_false_iff.2 fun hp => hfirst (h.panics j hp)⟩
      | _ => trivial
    · cases e with
      | recv => exact he.elim
      | _ => trivial
  | @received _ r _ hpc =>
    refine ⟨⟨trivial, trivial⟩, rfl, ?_⟩
    cases r with
    | msg op =>
      cases op with
      | close => exact h.close_received hw hpc
      | _ => trivial
    | _ => trivial
  | _ => exact ⟨⟨trivial, trivial⟩, rfl, trivial⟩

theorem Answers.joins_ended {i : Nat} {exit : Exit} (ha : Answers out net j (.join i) exit net') :
    net.threads i = .finished exit := by
  cases ha with
  | outside he => exact he.elim
  | joined h => exact h

/-- Threads that do not exist are not spawned. -/
theorem Answers.others (ha : Answers out net j e a net')
    (hpre : (duties (w.role j)).pre e (v j)) {i : Nat} (hi : w.n + 1 < i) :
    net'.threads i = net.threads i := by
  cases ha with
  | @spawned m _ _ =>
    have hcrew : m < (w.role j).crew := hpre
    have hle : (w.role j).crew ≤ w.n + 1 := by
      simp only [ThreadedWiring.role]
      split <;> omega
    have hne : i ≠ m := by omega
    simp [Net.goes, hne]
  | _ => rfl

/-- A teardown call is made by its thread, once. -/
theorem Accounts.count (h : net.Accounts v) (hj : j ≤ w.n + 1)
    (hpre : (duties (w.role j)).pre e (v j)) (a : Ans e) (k : TeardownCall) :
    net.touches.count (.teardown k) + e.touch.toList.count (.teardown k) =
      ((update v j ((v j).after e a) (w.owner k)).made k).toNat := by
  rw [h.calls]
  by_cases hk : w.owner k = j
  · rw [hk, update_self]
    exact Duty.count_after hpre (ThreadedWiring.owns_sink hk) a
  · have hother : e.touch ≠ some (.teardown k) := by
      intro htouch
      exact hk (ThreadedWiring.role_makes (duties_touch hpre htouch).1 hj)
    have hzero : e.touch.toList.count (.teardown k) = 0 := by
      rw [List.count_eq_zero]
      simpa using hother
    rw [hzero, update_of_ne hk, Nat.add_zero]

/-- The accounts are kept at every answer. -/
theorem Accounts.reply (h : net.Accounts v)
    {k : Ans e → Prog (Eff (Ty (j + 1)) (Ty j)) Ans ((w.task j).S ⊕ Exit)}
    (ht : net.threads j = .running (.vis e k)) (hpre : (duties (w.role j)).pre e (v j))
    (ha : Answers out net j e a net') :
    ((net'.record j ⟨e, a⟩).goes j (.running (k a))).Accounts
      (update v j ((v j).after e a)) where
  calls i := by
    have hj : j ≤ w.n + 1 := by
      by_contra hlt
      rw [h.others j (by omega)] at ht
      cases ht
    rw [← h.count hj hpre a i, ← List.count_append]
    simp only [Net.touches, Net.record, Net.goes, ha.history.1, List.filterMap_append]
    cases htouch : e.touch <;> simp [htouch]
  makes i hi := by
    by_cases hij : w.owner i = j
    · have hmakes := h.makes i
      rw [hij] at hmakes
      rw [hij, update_self] at hi
      rw [hij]
      exact Duty.makes_after hpre (ThreadedWiring.owns_sink hij) hmakes hi
    · rw [update_of_ne hij] at hi
      exact h.makes i hi
  panics i hi := by
    simp only [Net.goes, Net.record, ha.history.2]
    by_cases hij : i = j
    · subst hij
      rw [update_self] at hi ⊢
      rcases Duty.after_panicked hi with hold | ⟨event, hnew⟩
      · obtain ⟨event, hevent⟩ := h.panics i hold
        exact ⟨event, List.mem_append_left _ hevent⟩
      · exact ⟨event, hnew ▸ List.mem_append_right _ (List.mem_singleton.2 rfl)⟩
    · rw [update_of_ne hij] at hi ⊢
      exact h.panics i hi
  joined i m hm := by
    have hfinished : ∃ exit, net.threads m = .finished exit := by
      by_cases hij : i = j
      · subst hij
        rw [update_self] at hm
        rcases Duty.after_joined hm with hold | hnew
        · exact h.joined i m hold
        · subst hnew
          exact ⟨a, ha.joins_ended⟩
      · rw [update_of_ne hij] at hm
        exact h.joined i m hm
    obtain ⟨exit, hexit⟩ := hfinished
    have hne : m ≠ j := by
      intro hm
      subst hm
      rw [ht] at hexit
      cases hexit
    exact ⟨exit, (update_of_ne hne ..).trans (ha.finished hexit)⟩
  others i hi := by
    have hne : i ≠ j := by
      intro hij
      subst hij
      rw [h.others i hi] at ht
      cases ht
    exact (update_of_ne hne ..).trans ((ha.others hpre hi).trans (h.others i hi))
  closes i := by
    have hpushed := ha.pushed i
    simpa only [Net.goes, Net.record, hpushed] using h.closes i
  sent i hi := by
    by_cases hij : i + 1 = j
    · subst hij
      have hsink : (w.role (i + 1)).sink = false := by simp [ThreadedWiring.role]
      rw [update_self] at hi
      rcases Duty.after_flushed hpre hsink hi with hold | hnew
      · exact ha.accepted i (h.sent i hold)
      · exact ha.sent_flush hnew
    · rw [update_of_ne hij] at hi
      exact ha.accepted i (h.sent i hi)
  received i hi := by
    rcases ha.returned (h.received i) hi with ⟨rfl, hnew⟩ | hold
    · rwa [update_self]
    · by_cases hij : i = j
      · subst hij
        rw [update_self]
        exact Duty.after_received a hold
      · rwa [update_of_ne hij]

end Reply

/-- An edge moves on: what is put into it is in order, and what has left it stays as it was. -/
theorem Accounts.setEdge (h : net.Accounts v) {j : Nat} {e : Edge (StageOp (Ty (j + 1)))}
    (hpushed : FlushFirst e.pushed) (haccepted : (net.edges j).accepted ⊆ e.accepted)
    (hreturned : e.returned = (net.edges j).returned) : (net.setEdge j e).Accounts v where
  calls := h.calls
  makes := h.makes
  panics := h.panics
  joined := h.joined
  others := h.others
  closes := setEdge_edges (P := fun _ e => FlushFirst e.pushed) hpushed h.closes
  sent i hi := setEdge_edges (P := fun i e => (net.edges i).accepted ⊆ e.accepted) haccepted
    (fun _ => List.Subset.refl _) i (h.sent i hi)
  received i hi := by
    have hsame := setEdge_edges (P := fun i e => e.returned = (net.edges i).returned) hreturned
      (fun _ => rfl) i
    rw [hsame] at hi
    exact h.received i hi

/-- A call that begins leaves the accounts as they are. -/
theorem Accounts.enter (h : net.Accounts v) {j : Nat} {e : Eff (Ty (j + 1)) (Ty j)}
    (he : Enters net j e net') : net'.Accounts v := by
  cases he with
  | send hpc op => exact h.setEdge (h.closes _) (List.Subset.refl _) rfl
  | trySend hpc op => exact h.setEdge (h.closes _) (List.Subset.refl _) rfl
  | recv hpc timeout => exact h.setEdge (h.closes _) (List.Subset.refl _) rfl
  | dropReceiver hpc => exact h.setEdge (h.closes _) (List.Subset.refl _) rfl

theorem Accounts.goes (h : net.Accounts v) {j : Nat} (hready : net.threads j ≠ .ready)
    (hrunning : ∀ exit, net.threads j ≠ .finished exit) (t : Thread (w.task j)) :
    (net.goes j t).Accounts v where
  calls := h.calls
  makes := h.makes
  panics := h.panics
  joined i m hm := by
    obtain ⟨exit, hexit⟩ := h.joined i m hm
    have hne : m ≠ j := by
      intro heq
      subst heq
      exact hrunning exit hexit
    exact ⟨exit, (update_of_ne hne ..).trans hexit⟩
  others i hi := by
    have hne : i ≠ j := by
      intro heq
      subst heq
      exact hready (h.others i hi)
    exact (update_of_ne hne ..).trans (h.others i hi)
  closes := h.closes
  sent := h.sent
  received := h.received

end Net

/-- Inside an edge a message may be put into it; nothing leaves it. -/
theorem Edge.Inner.history {e e' : Edge M} (h : Inner capacity e e') :
    (e'.pushed = e.pushed ∨ ∃ msg, e.tx.pc.msg = some msg ∧ e'.pushed = e.pushed ++ [msg]) ∧
      e'.accepted = e.accepted ∧ e'.returned = e.returned := by
  cases h with
  | tx h =>
    cases hpc : e.tx.pc <;> simp only [txStep, hpc] at h
    case push trying msg =>
      split at h
      · split at h <;> cases h <;> exact ⟨.inr ⟨msg, rfl, rfl⟩, rfl, rfl⟩
      · cases h
        exact ⟨.inl rfl, rfl, rfl⟩
    all_goals
      repeat' (first | (cases h; done) | (cases h; exact ⟨.inl rfl, rfl, rfl⟩) | split at h)
  | spurious h =>
    simp only [Edge.spurious] at h
    split at h <;> cases h
    exact ⟨.inl rfl, rfl, rfl⟩
  | rx h =>
    obtain ⟨-, haccepted, hpushed⟩ := rxStep_frame h
    refine ⟨.inl hpushed, haccepted, ?_⟩
    cases hpc : e.rx.pc <;> simp only [rxStep, hpc] at h
    all_goals repeat' (first | (cases h; done) | (cases h; rfl) | split at h)
  | timeOut h =>
    simp only [Edge.timeOut] at h
    split at h <;> cases h
    exact ⟨.inl rfl, rfl, rfl⟩

namespace Net

variable {Ty : Nat → Type} {w : ThreadedWiring Ty} {out : Outside Ty} {net net' : Net w}
  {v : Nat → Duty}

/-- The threads of a run with what each has to tear down. -/
def duty (w : ThreadedWiring Ty) : Protocol w where
  W _ := Duty
  Γ j := duties (w.role j)
  start _ := .start
  loop j := (w.task_dutiful j).choose
  exits j _ := w.Done j

theorem duty_kept (w : ThreadedWiring Ty) : (duty w).Kept where
  begins j := (w.task_dutiful j).choose_spec.1
  rounds j s d hs := by
    refine Prog.wp_mono ((w.task_dutiful j).choose_spec.2 s d hs) fun r d' hr => ?_
    cases r <;> exact hr

/-- A thread sends `Close` after it has sent `Flush`. -/
theorem sends_close (h : (duty w).At Accounts net v) {j : Nat}
    (hs : (net.threads (j + 1)).Sends .close) : .flush ∈ (net.edges j).pushed := by
  have hfollows := h.follows (j + 1)
  have hflushed : (v (j + 1)).flushed = true := by
    rcases hs with ⟨k, ht⟩ | ⟨k, ht⟩
    · rw [ht] at hfollows
      exact hfollows.1.2 rfl
    · rw [ht] at hfollows
      cases hfollows.1.2
  have hties : net.Accounts v := h.ties
  rw [(h.wired.reachable j).flow.accepted]
  exact List.mem_append_left _ (hties.sent j hflushed)

theorem duty_ties (w : ThreadedWiring Ty) (hout : Tolerable out) :
    (duty w).Ties out Accounts where
  init := accounts_init w
  reply := by
    intro net v j e k a net' h ht hpre ha
    have hties : net.Accounts v := h.ties
    exact ⟨_, hties.promised h.wired hout ha, hties.reply ht hpre ha⟩
  enter := by
    intro net v j e k net' h ht hpre he
    have hties : net.Accounts v := h.ties
    exact hties.enter he
  inner := by
    intro net v j e h hi
    have hties : net.Accounts v := h.ties
    obtain ⟨hpushed, haccepted, hreturned⟩ := hi.history
    refine hties.setEdge ?_ (haccepted ▸ List.Subset.refl _) hreturned
    rcases hpushed with hsame | ⟨op, hop, hmore⟩
    · rw [hsame]
      exact hties.closes j
    · rw [hmore]
      refine (hties.closes j).concat fun hclose => ?_
      subst hclose
      exact sends_close h (h.wired.sends j .close hop)
  silent := by
    intro net v j r t h hret ht
    have hties : net.Accounts v := h.ties
    exact hties.goes (by simp [hret]) (by simp [hret]) t

/-- Once the call has ended, each teardown call has been made once, however the observer and the
components behave. -/
theorem torn_down (hout : Tolerable out) (hnet : net.Reachable out) {exit : Exit}
    (hexit : net.threads (w.n + 1) = .finished exit) :
    TornDownOnce w.built.dead_letter net.touches := by
  intro k
  obtain ⟨v, hat⟩ := (duty w).reachable (duty_kept w) (duty_ties w hout) hnet
  have hties : net.Accounts v := hat.ties
  have hdone : ∀ {j : Nat} {exit : Exit}, net.threads j = .finished exit → w.Done j (v j) := by
    intro j exit ht
    have hfollows := hat.follows j
    rw [ht] at hfollows
    exact hfollows
  have howner : w.Done (w.owner k) (v (w.owner k)) := by
    by_cases hk : w.owner k = w.n + 1
    · rw [hk]
      exact hdone hexit
    · have hle : w.owner k ≤ w.n := by cases k <;> simp_all [ThreadedWiring.owner]
      have hjoined := (hdone hexit).joined (Nat.lt_succ_self _) _ hle
      obtain ⟨exit', hexit'⟩ := hties.joined _ _ hjoined
      exact hdone hexit'
  rw [hties.calls]
  refine howner.complete.due (hties.makes k) ?_
  cases hdlq : w.built.dead_letter <;> cases k <;>
    simp [ThreadedWiring.role, ThreadedWiring.owner, Role.makes, finalPhase, TeardownCall.index,
      hdlq]

end Net

end PipeIo
