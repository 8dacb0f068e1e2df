import PipeIo.EndsThreads

namespace PipeIo
set_option autoImplicit true

open Lib Function

namespace Edge

/-- Inside an edge no end is dropped, but by the receiver's `Drop`. -/
theorem Inner.gone {e e' : Edge M} (h : Inner capacity e e') :
    (e'.tx.pc = .gone ↔ e.tx.pc = .gone) ∧ (e.rx.pc = .gone → e'.rx.pc = .gone) ∧
      (e'.rx.pc = .gone → e.rx.pc = .gone ∨ e.rx.pc.dropping = true) := by
  cases h with
  | tx h =>
    rw [(txStep_frame h).1]
    refine ⟨?_, id, .inl⟩
    have hmsg := (txStep_frame h).2
    constructor
    · intro hgone
      cases hpc : e.tx.pc with
      | gone => rfl
      | idle => simp [txStep, hpc] at h
      | _ => simp [hgone, hpc, TxPc.msg] at hmsg
    · intro hgone
      simp [txStep, hgone] at h
  | spurious h =>
    simp only [Edge.spurious] at h
    split at h <;> cases h
    rename_i hpc
    refine ⟨?_, id, .inl⟩
    simp [goTx, hpc]
  | rx h =>
    rw [(rxStep_frame h).1]
    refine ⟨Iff.rfl, ?_, ?_⟩
    · intro hgone
      simp [rxStep, hgone] at h
    · intro hgone
      cases hpc : e.rx.pc <;> simp only [rxStep, hpc] at h
      all_goals
        repeat' (first | (cases h; done) | split at h)
        all_goals
          cases h
          simp_all [take, goRx, RxPc.dropping, published_ne_gone]
  | timeOut h =>
    simp only [Edge.timeOut] at h
    split at h <;> cases h
    rename_i hpc
    simp [goRx, hpc]

end Edge

namespace Net

variable {Ty : Nat → Type} {w : ThreadedWiring Ty}

/-- A step that is neither a timer nor a spurious wake-up. -/
inductive Moves (out : Outside Ty) : Net w → Net w → Prop where
  | reply (h : net.threads j = .running (.vis e k)) (ha : Answers out net j e a net') :
      Moves out net ((net'.record j ⟨e, a⟩).goes j (.running (k a)))
  | enter (h : net.threads j = .running (.vis e k)) (he : Enters net j e net') :
      Moves out net net'
  | tx {e : Edge (StageOp (Ty (j + 1)))} (h : (net.edges j).txStep (w.capacity j) = some e) :
      Moves out net (net.setEdge j e)
  | rx {e : Edge (StageOp (Ty (j + 1)))} (h : (net.edges j).rxStep (w.capacity j) = some e) :
      Moves out net (net.setEdge j e)
  | round (h : net.threads j = .running (.ret (.inl s))) :
      Moves out net (net.goes j (.running ((w.task j).round s)))
  | finish (h : net.threads j = .running (.ret (.inr exit))) :
      Moves out net (net.goes j (.finished exit))

variable {out : Outside Ty} {net net' : Net w}

theorem Moves.step (h : Moves out net net') : Step out net net' := by
  cases h with
  | reply h ha => exact .reply h ha
  | enter h he => exact .enter h he
  | tx h => exact .inner (.tx h)
  | rx h => exact .inner (.rx h)
  | round h => exact .round h
  | finish h => exact .finish h

/-- What the ends that thread `i` owns have to do with the network. -/
structure Holds (net : Net w) (i : Nat) (v : Ends) : Prop where
  sender : ∀ j, i = j + 1 → ((net.edges j).tx.pc = .gone ↔ v.sender = false)
  receiver : v.receiver = false → (net.edges i).rx.pc = .gone
  dropped : (net.edges i).rx.pc = .gone → v.receiver = false ∨ (net.threads i).DropsReceiver
  done : v.done = false → net.done i = true

/-- The threads are spawned in order by the calling one, and hold what they own. -/
structure Held (net : Net w) (v : Nat → Ends) : Prop where
  holds : ∀ i, net.Holds i (v i)
  spawned : ∀ i ≤ w.n, net.threads i = .ready ↔ (v (w.n + 1)).spawned ≤ i
  caller : net.threads (w.n + 1) ≠ .ready
  others : ∀ i, w.n + 1 < i → net.threads i = .ready

theorem held_init (w : ThreadedWiring Ty) : (init w).Held fun _ => .start where
  holds i := by
    constructor <;> simp [init, edge, Ends.start]
  spawned i hi := by
    have hne : i ≠ w.n + 1 := by omega
    simp [init, hne, Ends.start]
  caller := by simp [init]
  others i hi := by
    have hne : i ≠ w.n + 1 := by omega
    simp [init, hne]

theorem Held.record {v : Nat → Ends} (h : net.Held v) {j : Nat} (a : Entry (Ty (j + 1)) (Ty j)) :
    (net.record j a).Held v where
  holds i := ⟨(h.holds i).sender, (h.holds i).receiver, (h.holds i).dropped, (h.holds i).done⟩
  spawned := h.spawned
  caller := h.caller
  others := h.others

/-- A thread that has been spawned goes on. -/
theorem Held.goes {v : Nat → Ends} (h : net.Held v) {j : Nat} {t : Thread (w.task j)}
    (hready : net.threads j ≠ .ready) (ht : t ≠ .ready)
    (hdrop : (net.edges j).rx.pc = .gone → (v j).receiver = false) : (net.goes j t).Held v where
  holds i := by
    refine ⟨(h.holds i).sender, (h.holds i).receiver, ?_, (h.holds i).done⟩
    intro hgone
    by_cases hi : i = j
    · subst hi
      exact .inl (hdrop hgone)
    · simp only [Net.goes, update_of_ne hi]
      exact (h.holds i).dropped hgone
  spawned i hi := by
    rw [← h.spawned i hi]
    by_cases hij : i = j
    · subst hij
      simp [Net.goes, hready, ht]
    · simp [Net.goes, update_of_ne hij]
  caller := by
    by_cases hj : w.n + 1 = j
    · subst hj
      simpa [Net.goes] using ht
    · simpa [Net.goes, update_of_ne hj] using h.caller
  others i hi := by
    have hij : i ≠ j := by
      rintro rfl
      exact hready (h.others i hi)
    simpa [Net.goes, update_of_ne hij] using h.others i hi

/-- An edge moves on without losing an end. -/
theorem Held.setEdge {v : Nat → Ends} (h : net.Held v) {j : Nat}
    {e : Edge (StageOp (Ty (j + 1)))} (htx : e.tx.pc = .gone ↔ (net.edges j).tx.pc = .gone)
    (hrx : (net.edges j).rx.pc = .gone → e.rx.pc = .gone)
    (hdrop : e.rx.pc = .gone → (v j).receiver = false ∨ (net.threads j).DropsReceiver) :
    (net.setEdge j e).Held v where
  holds i := by
    constructor
    · rintro k rfl
      by_cases hk : k = j
      · subst hk
        simp only [Net.setEdge, update_self]
        exact htx.trans ((h.holds (k + 1)).sender k rfl)
      · simp only [Net.setEdge, update_of_ne hk]
        exact (h.holds (k + 1)).sender k rfl
    · intro hi
      have hgone := (h.holds i).receiver hi
      by_cases hij : i = j
      · subst hij
        simp only [Net.setEdge, update_self]
        exact hrx hgone
      · simpa only [Net.setEdge, update_of_ne hij] using hgone
    · intro hgone
      by_cases hij : i = j
      · subst hij
        simp only [Net.setEdge, update_self] at hgone
        exact hdrop hgone
      · simp only [Net.setEdge, update_of_ne hij] at hgone
        exact (h.holds i).dropped hgone
    · exact (h.holds i).done
  spawned := h.spawned
  caller := h.caller
  others := h.others

/-- A thread owns something else now. -/
theorem Held.owns {v : Nat → Ends} (h : net.Held v) {j : Nat} {v' : Ends} (hv : net.Holds j v')
    (hspawned : v'.spawned = (v j).spawned) : net.Held (update v j v') where
  holds i := by
    by_cases hi : i = j
    · subst hi
      rwa [update_self]
    · rw [update_of_ne hi]
      exact h.holds i
  spawned i hi := by
    rw [h.spawned i hi]
    by_cases hj : w.n + 1 = j
    · subst hj
      rw [update_self, hspawned]
    · rw [update_of_ne hj]
  caller := h.caller
  others := h.others

/-- The thread at a request does not drop its receiver, unless that is the request. -/
theorem not_drops {j : Nat} {e : Eff (Ty (j + 1)) (Ty j)}
    {k : Ans e → Prog (Eff (Ty (j + 1)) (Ty j)) Ans ((w.task j).S ⊕ Exit)}
    (ht : net.threads j = .running (.vis e k)) (he : e ≠ .dropReceiver) :
    ¬(net.threads j).DropsReceiver := by
  rintro ⟨k', hk⟩
  rw [ht] at hk
  injection hk with hk
  injection hk with hk
  exact he hk

/-- The sender of edge `i` is dropped by thread `i + 1`. -/
theorem Held.drop_sender {v : Nat → Ends} (h : net.Held v) (i : Nat) :
    (net.setEdge i (net.edges i).dropSender).Held
      (update v (i + 1) { v (i + 1) with sender := false }) where
  holds k := by
    by_cases hk : k = i + 1
    · subst hk
      rw [update_self]
      have hne : i + 1 ≠ i := Nat.succ_ne_self i
      constructor
      · rintro m hm
        obtain rfl : i = m := Nat.succ.inj hm
        simp [Net.setEdge, Edge.dropSender, Edge.goTx]
      · simpa [Net.setEdge, hne] using (h.holds (i + 1)).receiver
      · simpa [Net.setEdge, hne] using (h.holds (i + 1)).dropped
      · exact (h.holds (i + 1)).done
    · rw [update_of_ne hk]
      constructor
      · rintro m rfl
        have hm : m ≠ i := fun hm => hk (congrArg Nat.succ hm)
        simpa [Net.setEdge, hm] using (h.holds (m + 1)).sender m rfl
      · intro hv
        have hgone := (h.holds k).receiver hv
        by_cases hki : k = i
        · subst hki
          simpa [Net.setEdge, Edge.dropSender, Edge.goTx] using hgone
        · simpa [Net.setEdge, hki] using hgone
      · intro hgone
        apply (h.holds k).dropped
        by_cases hki : k = i
        · subst hki
          simpa [Net.setEdge, Edge.dropSender, Edge.goTx] using hgone
        · simpa [Net.setEdge, hki] using hgone
      · exact (h.holds k).done
  spawned m hm := by
    refine (h.spawned m hm).trans ?_
    by_cases hi : w.n + 1 = i + 1
    · rw [hi, update_self]
    · rw [update_of_ne hi]
  caller := h.caller
  others := h.others

/-- Thread `j` drops its sender of the `done` channel. -/
theorem Held.drop_done {v : Nat → Ends} (h : net.Held v) (j : Nat) :
    Held (w := w) { net with done := update net.done j true }
      (update v j { v j with done := false }) where
  holds i := by
    by_cases hi : i = j
    · subst hi
      rw [update_self]
      exact ⟨(h.holds i).sender, (h.holds i).receiver, (h.holds i).dropped, fun _ => update_self ..⟩
    · rw [update_of_ne hi]
      refine ⟨(h.holds i).sender, (h.holds i).receiver, (h.holds i).dropped, fun hv => ?_⟩
      exact (update_of_ne hi ..).trans ((h.holds i).done hv)
  spawned i hi := by
    refine (h.spawned i hi).trans ?_
    by_cases hj : w.n + 1 = j
    · rw [hj, update_self]
    · rw [update_of_ne hj]
  caller := h.caller
  others := h.others

/-- The calling thread spawns the next thread. -/
theorem Held.spawn {v : Nat → Ends} (h : net.Held v) {i : Nat} (hi : i ≤ w.n)
    (hnext : i = (v (w.n + 1)).spawned) {t : Thread (w.task i)} (ht : t ≠ .ready)
    (hdrop : (net.edges i).rx.pc = .gone → (v i).receiver = false) :
    (net.goes i t).Held
      (update v (w.n + 1) { v (w.n + 1) with spawned := (v (w.n + 1)).spawned + 1 }) where
  holds k := by
    have hthread : (net.goes i t).Holds k (v k) := by
      refine ⟨(h.holds k).sender, (h.holds k).receiver, fun hgone => ?_, (h.holds k).done⟩
      by_cases hk : k = i
      · subst hk
        exact .inl (hdrop hgone)
      · simp only [Net.goes, update_of_ne hk]
        exact (h.holds k).dropped hgone
    by_cases hk : k = w.n + 1
    · subst hk
      rw [update_self]
      exact ⟨hthread.sender, hthread.receiver, hthread.dropped, hthread.done⟩
    · rw [update_of_ne hk]
      exact hthread
  spawned k hk := by
    rw [update_self]
    by_cases hki : k = i
    · subst hki
      simp [Net.goes, ht, hnext]
    · simp only [Net.goes, update_of_ne hki]
      rw [h.spawned k hk]
      omega
  caller := by
    have hne : w.n + 1 ≠ i := by omega
    simpa [Net.goes, update_of_ne hne] using h.caller
  others k hk := by
    have hne : k ≠ i := by omega
    simpa [Net.goes, update_of_ne hne] using h.others k hk

/-- Where the receiver is dropped, its thread knows. -/
theorem Held.gone {v : Nat → Ends} (h : net.Held v) {j : Nat}
    (hd : ¬(net.threads j).DropsReceiver) (hgone : (net.edges j).rx.pc = .gone) :
    (v j).receiver = false :=
  ((h.holds j).dropped hgone).resolve_right hd

/-- An answered request leaves the ends as the thread believes them to be. -/
theorem Held.reply {v : Nat → Ends} (h : net.Held v) {j : Nat} {e : Eff (Ty (j + 1)) (Ty j)}
    {a : Ans e} {k : Ans e → Prog (Eff (Ty (j + 1)) (Ty j)) Ans ((w.task j).S ⊕ Exit)}
    (ht : net.threads j = .running (.vis e k)) (hpre : (owning w.n j).pre e (v j))
    (ha : Answers out net j e a net') :
    ((net'.record j ⟨e, a⟩).goes j (.running (k a))).Held (update v j ((v j).after e)) := by
  have hready : net.threads j ≠ .ready := by simp [ht]
  have hrunning : (.running (k a) : Thread (w.task j)) ≠ .ready := by simp
  have hgone : e ≠ .dropReceiver → (net.edges j).rx.pc = .gone → (v j).receiver = false :=
    fun he => h.gone (not_drops ht he)
  -- most requests leave the ends alone
  have hstay : ∀ {net' : Net w}, net'.Held v → net'.threads j ≠ .ready →
      ((net'.edges j).rx.pc = .gone → (v j).receiver = false) → (v j).after e = v j →
      ((net'.record j ⟨e, a⟩).goes j (.running (k a))).Held (update v j ((v j).after e)) := by
    intro net' h' hready' hgone' hv
    rw [hv, update_eq_self]
    exact (h'.record _).goes hready' hrunning hgone'
  cases ha with
  | outside he =>
    have hafter : (v j).after e = v j := by cases e <;> first | rfl | cases he
    refine hstay h hready (hgone ?_) hafter
    rintro rfl
    cases he
  | segmentsDone => exact hstay h hready (hgone (by simp)) rfl
  | joined => exact hstay h hready (hgone (by simp)) rfl
  | offered =>
    exact hstay ⟨fun i => ⟨(h.holds i).sender, (h.holds i).receiver, (h.holds i).dropped,
      (h.holds i).done⟩, h.spawned, h.caller, h.others⟩ hready (hgone (by simp)) rfl
  | tookFirst =>
    exact hstay ⟨fun i => ⟨(h.holds i).sender, (h.holds i).receiver, (h.holds i).dropped,
      (h.holds i).done⟩, h.spawned, h.caller, h.others⟩ hready (hgone (by simp)) rfl
  | @sent i _ _ hpc =>
    have hne : i + 1 ≠ i := Nat.succ_ne_self i
    refine hstay (h.setEdge ?_ id (h.holds i).dropped) hready ?_ rfl
    · simp [Edge.returnSend, Edge.goTx, hpc]
    · simpa [Net.setEdge, hne] using hgone (by simp)
  | @trySent i _ _ hpc =>
    have hne : i + 1 ≠ i := Nat.succ_ne_self i
    refine hstay (h.setEdge ?_ id (h.holds i).dropped) hready ?_ rfl
    · simp [Edge.returnSend, Edge.goTx, hpc]
    · simpa [Net.setEdge, hne] using hgone (by simp)
  | received hpc =>
    refine hstay (h.setEdge Iff.rfl ?_ ?_) hready ?_ rfl
    · simp [hpc]
    · simp [Edge.returnRecv, Edge.goRx]
    · simp [Net.setEdge, Edge.returnRecv, Edge.goRx]
  | droppedReceiver hpc =>
    have howns : net.Held (update v j { v j with receiver := false }) :=
      h.owns ⟨(h.holds j).sender, fun _ => hpc, fun _ => .inl rfl, (h.holds j).done⟩ rfl
    exact (howns.record _).goes hready hrunning fun _ => by simp
  | noSender =>
    have howns : net.Held (update v 0 { v 0 with sender := false }) :=
      h.owns ⟨by simp, (h.holds 0).receiver, (h.holds 0).dropped, (h.holds 0).done⟩ rfl
    refine (howns.record _).goes hready hrunning fun hrx => ?_
    rw [update_self]
    exact hgone (by simp) hrx
  | @droppedSender i hpc =>
    have hne : i + 1 ≠ i := Nat.succ_ne_self i
    refine ((h.drop_sender i).record _).goes hready hrunning fun hrx => ?_
    rw [update_self]
    refine hgone (by simp) ?_
    simpa [Net.record, Net.setEdge, hne] using hrx
  | droppedDone =>
    refine ((h.drop_done j).record _).goes hready hrunning fun hrx => ?_
    rw [update_self]
    exact hgone (by simp) hrx
  | @spawned i _ hi =>
    obtain ⟨hnext, hle, hlt⟩ := hpre
    obtain rfl : j = w.n + 1 := by
      by_contra hne
      exact hready (h.others j (by omega))
    have hne : i ≠ w.n + 1 := by omega
    have hi' : ¬(net.threads i).DropsReceiver := by
      rintro ⟨k', hk⟩
      simp [hi] at hk
    have hspawn := h.spawn hle hnext (t := .running ((w.task i).round (w.task i).init))
      (by simp) (h.gone hi')
    refine (hspawn.record _).goes ?_ hrunning fun hrx => ?_
    · simpa [Net.record, Net.goes, hne.symm] using hready
    · rw [update_self]
      exact hgone (by simp) hrx

/-- The threads of a run with the ends they own. -/
def ownership (w : ThreadedWiring Ty) : Protocol w where
  W _ := Ends
  Γ j := owning w.n j
  start _ := .start
  loop j := (w.task_owns j).choose
  exits j _ v := v.Gone w.n j

theorem ownership_kept (w : ThreadedWiring Ty) : (ownership w).Kept where
  begins j := (w.task_owns j).choose_spec.1
  rounds j s v hs := by
    refine Prog.wp_mono ((w.task_owns j).choose_spec.2 s v hs) fun r v' hr => ?_
    cases r <;> exact hr

theorem ownership_ties (w : ThreadedWiring Ty) (out : Outside Ty) :
    (ownership w).Ties out Held where
  init := held_init w
  reply h ht hpre ha := ⟨_, rfl, h.ties.reply ht hpre ha⟩
  enter := by
    intro net v j e k net' h ht hpre he
    have hties : net.Held v := h.ties
    cases he with
    | send hpc op =>
      exact hties.setEdge (by simp [Edge.callSend, Edge.goTx, hpc]) id (hties.holds _).dropped
    | trySend hpc op =>
      exact hties.setEdge (by simp [Edge.callSend, Edge.goTx, hpc]) id (hties.holds _).dropped
    | recv hpc timeout =>
      exact hties.setEdge Iff.rfl (by simp [hpc]) (by simp [Edge.callRecv, Edge.goRx])
    | dropReceiver hpc =>
      exact hties.setEdge Iff.rfl (by simp [hpc]) (by simp [Edge.dropReceiver, Edge.goRx])
  inner := by
    intro net v j e h hi
    have hties : net.Held v := h.ties
    obtain ⟨htx, hkeep, hrx⟩ := hi.gone
    refine hties.setEdge htx hkeep fun hgone => ?_
    rcases hrx hgone with hgone | hdrops
    · exact (hties.holds j).dropped hgone
    · exact .inr (h.wired.drops j hdrops)
  silent := by
    intro net v j r t h hret ht
    have hties : net.Held v := h.ties
    refine hties.goes (by simp [hret]) ht (hties.gone ?_)
    rintro ⟨k, hk⟩
    simp [hret] at hk

/-- What a thread that cannot go on waits for: room in its edge, a message, the segments, or
another thread's end. -/
inductive Waits (net : Net w) : (j : Nat) → Eff (Ty (j + 1)) (Ty j) → Prop where
  | full {e : Eff (Ty (j + 2)) (Ty (j + 1))} (he : e = .send op ∨ e = .trySend op)
      (h : (net.edges j).tx.pc = .parked wait) (hw : (net.edges j).woken = false) :
      Waits net (j + 1) e
  | empty (h : (net.edges j).rx.pc = .waiting mode) (hchan : (net.edges j).chan = [])
      (halive : (net.edges j).txAlive = true) : Waits net j (.recv timeout)
  | segments (hi : i < w.n) (h : net.done i = false) : Waits net j .waitDone
  | thread (h : ∀ exit, net.threads i ≠ .finished exit) : Waits net j (.join i)

section Stuck

variable {v : Nat → Ends}

/-- No thread can take a step, and the outside always answers. -/
structure Stuck (out : Outside Ty) (net : Net w) : Prop where
  answers : ∀ j log (e : Eff (Ty (j + 1)) (Ty j)), e.Outside → ∃ a, out j log e a
  still : ∀ net', ¬Moves out net net'

theorem Stuck.no_reply (h : Stuck out net) {j : Nat} {e : Eff (Ty (j + 1)) (Ty j)}
    {k : Ans e → Prog (Eff (Ty (j + 1)) (Ty j)) Ans ((w.task j).S ⊕ Exit)}
    (ht : net.threads j = .running (.vis e k)) {a : Ans e} : ¬Answers out net j e a net' :=
  fun ha => h.still _ (.reply ht ha)

theorem Stuck.no_enter (h : Stuck out net) {j : Nat} {e : Eff (Ty (j + 1)) (Ty j)}
    {k : Ans e → Prog (Eff (Ty (j + 1)) (Ty j)) Ans ((w.task j).S ⊕ Exit)}
    (ht : net.threads j = .running (.vis e k)) : ¬Enters net j e net' :=
  fun he => h.still _ (.enter ht he)

theorem Stuck.no_edge_step (h : Stuck out net) (j : Nat) :
    ¬((∃ e', (net.edges j).txStep (w.capacity j) = some e') ∨
      ∃ e', (net.edges j).rxStep (w.capacity j) = some e') := by
  rintro (⟨e', he⟩ | ⟨e', he⟩)
  · exact h.still _ (.tx he)
  · exact h.still _ (.rx he)

/-- A thread that has a step of its own is at a request. -/
theorem Stuck.at_request (h : Stuck out net) {j : Nat}
    {p : Prog (Eff (Ty (j + 1)) (Ty j)) Ans ((w.task j).S ⊕ Exit)}
    (ht : net.threads j = .running p) : ∃ e k, p = .vis e k := by
  cases p with
  | vis e k => exact ⟨e, k, rfl⟩
  | ret r =>
    cases r with
    | inl s => exact (h.still _ (.round ht)).elim
    | inr exit => exact (h.still _ (.finish ht)).elim

variable (h : Stuck out net) (hwired : net.Wired) (hheld : net.Held v)

include h hwired hheld in
/-- Inside a send the thread sleeps. -/
theorem Stuck.sleeps {i : Nat} {op : StageOp (Ty (i + 1))} (hs : (net.threads (i + 1)).Sends op)
    (hsender : (v (i + 1)).sender = true) :
    ∃ wait, (net.edges i).tx.pc = .parked wait ∧ (net.edges i).woken = false := by
  have hgone : (net.edges i).tx.pc ≠ .gone := by
    intro hpc
    rw [((hheld.holds (i + 1)).sender i rfl).1 hpc] at hsender
    cases hsender
  have hidle : (net.edges i).tx.pc ≠ .idle := by
    intro hpc
    rcases hs with ⟨k, ht⟩ | ⟨k, ht⟩
    · exact h.no_enter ht (.send hpc op)
    · exact h.no_enter ht (.trySend hpc op)
  have hresult : ∀ r msg, (net.edges i).tx.pc ≠ .result r msg := by
    intro r msg hpc
    have hmsg := hwired.sends i msg (by rw [hpc]; rfl)
    rcases hmsg with ⟨k, ht⟩ | ⟨k, ht⟩
    · exact h.no_reply ht (.sent hpc)
    · exact h.no_reply ht (.trySent hpc)
  rcases (hwired.reachable i).tx_progress hidle hresult hgone with hstep | hstep | hparked
  · exact (h.no_edge_step i (.inl hstep)).elim
  · exact (h.no_edge_step i (.inr hstep)).elim
  · exact hparked

include h hwired hheld in
/-- Inside a receive the thread waits on an empty edge. -/
theorem Stuck.starves {j : Nat} {timeout : Option Duration}
    {k : Ans (.recv timeout) → Prog (Eff (Ty (j + 1)) (Ty j)) Ans ((w.task j).S ⊕ Exit)}
    (ht : net.threads j = .running (.vis (.recv timeout) k)) (hreceiver : (v j).receiver = true) :
    ∃ mode, (net.edges j).rx.pc = .waiting mode ∧ (net.edges j).chan = [] ∧
      (net.edges j).txAlive = true := by
  have hgone : (net.edges j).rx.pc ≠ .gone := by
    intro hpc
    rw [hheld.gone (not_drops ht (by simp)) hpc] at hreceiver
    cases hreceiver
  have hidle : (net.edges j).rx.pc ≠ .idle := fun hpc => h.no_enter ht (.recv hpc timeout)
  have hresult : ∀ r, (net.edges j).rx.pc ≠ .result r := fun r hpc => h.no_reply ht (.received hpc)
  rcases (hwired.reachable j).rx_progress hidle hresult hgone with hstep | hstep | hwaiting
  · exact (h.no_edge_step j (.inl hstep)).elim
  · exact (h.no_edge_step j (.inr hstep)).elim
  · exact hwaiting

include h hwired in
/-- Dropping a receiver does not block. -/
theorem Stuck.no_drop {j : Nat}
    {k : Ans .dropReceiver → Prog (Eff (Ty (j + 1)) (Ty j)) Ans ((w.task j).S ⊕ Exit)}
    (ht : net.threads j = .running (.vis .dropReceiver k)) : False := by
  by_cases hgone : (net.edges j).rx.pc = .gone
  · exact h.no_reply ht (.droppedReceiver hgone)
  have hidle : (net.edges j).rx.pc ≠ .idle := fun hpc => h.no_enter ht (.dropReceiver hpc)
  have hreceives : (net.edges j).rx.pc.receiving = false := by
    apply hwired.rx_quiet
    rintro ⟨timeout, k', hk⟩
    rw [ht] at hk
    injection hk with hk
    injection hk with hk
    cases hk
  have hresult : ∀ r, (net.edges j).rx.pc ≠ .result r := by
    intro r hpc
    rw [hpc] at hreceives
    cases hreceives
  rcases (hwired.reachable j).rx_progress hidle hresult hgone with hstep | hstep | ⟨mode, hpc, -⟩
  · exact h.no_edge_step j (.inl hstep)
  · exact h.no_edge_step j (.inr hstep)
  · rw [hpc] at hreceives
    cases hreceives

include h hwired hheld in
/-- In a stuck network every thread that has not ended waits. -/
theorem Stuck.waits {j : Nat} {e : Eff (Ty (j + 1)) (Ty j)}
    {k : Ans e → Prog (Eff (Ty (j + 1)) (Ty j)) Ans ((w.task j).S ⊕ Exit)}
    (ht : net.threads j = .running (.vis e k)) (hpre : (owning w.n j).pre e (v j)) :
    net.Waits j e := by
  have hno : ∀ {a : Ans e} {net' : Net w}, ¬Answers out net j e a net' := h.no_reply ht
  have houtside : ¬e.Outside := by
    intro he
    obtain ⟨a, ha⟩ := h.answers j (net.logs j) e he
    exact hno (.outside he ha)
  cases e with
  | pull | pullTimeout | closeSource | write | flush | close | deadLetter | observe | isCancelled
  | sleep | note => exact (houtside trivial).elim
  | offer => exact (hno .offered).elim
  | takeFirst => exact (hno .tookFirst).elim
  | dropDone => exact (hno .droppedDone).elim
  | dropReceiver => exact (h.no_drop hwired ht).elim
  | recv timeout =>
    obtain ⟨mode, hpc, hchan, halive⟩ := h.starves hwired hheld ht hpre.1
    exact .empty hpc hchan halive
  | send op =>
    cases j with
    | zero => exact absurd hpre.2.1 (Nat.lt_irrefl 0)
    | succ i =>
      obtain ⟨wait, hpc, hw⟩ := h.sleeps hwired hheld (.inl ⟨k, ht⟩) hpre.1
      exact .full (.inl rfl) hpc hw
  | trySend op =>
    cases j with
    | zero => exact absurd hpre.2.1 (Nat.lt_irrefl 0)
    | succ i =>
      obtain ⟨wait, hpc, hw⟩ := h.sleeps hwired hheld (.inr ⟨k, ht⟩) hpre.1
      exact .full (.inr rfl) hpc hw
  | dropSender =>
    cases j with
    | zero => exact (hno .noSender).elim
    | succ i =>
      have hidle : (net.edges i).tx.pc = .idle := by
        have hmsg : (net.edges i).tx.pc.msg = none := by
          refine hwired.tx_quiet (fun op hs => ?_) i rfl
          rcases hs with ⟨k', hs⟩ | ⟨k', hs⟩ <;> rw [ht] at hs <;> injection hs with hs <;>
            injection hs with hs <;> cases hs
        have hgone : (net.edges i).tx.pc ≠ .gone := by
          intro hpc
          have hsender := hpre.1
          rw [((hheld.holds (i + 1)).sender i rfl).1 hpc] at hsender
          cases hsender
        cases hpc : (net.edges i).tx.pc with
        | idle => rfl
        | gone => exact absurd hpc hgone
        | _ => simp [hpc, TxPc.msg] at hmsg
      exact (hno (.droppedSender hidle)).elim
  | waitDone =>
    by_cases hdone : ∀ i < w.n, net.done i = true
    · exact (hno (.segmentsDone hdone)).elim
    · obtain ⟨i, hi⟩ := not_forall.1 hdone
      obtain ⟨hlt, hnot⟩ := Classical.not_imp.1 hi
      exact .segments hlt (Bool.eq_false_iff.2 hnot)
  | spawn i =>
    obtain ⟨hnext, hle, hlt⟩ := hpre
    have hcaller : j = w.n + 1 := by
      by_contra hne
      have hready := hheld.others j (by omega)
      simp [ht] at hready
    subst hcaller
    exact (hno (.spawned ((hheld.spawned i hle).2 (Nat.le_of_eq hnext.symm)))).elim
  | join i =>
    apply Waits.thread
    intro exit hexit
    exact hno (.joined hexit)

end Stuck

section Deadlock

variable {v : Nat → Ends} (h : Stuck out net) (hat : (ownership w).At Held net v)

include hat in
/-- What a thread has promised for the request it is at. -/
theorem promised {j : Nat} {e : Eff (Ty (j + 1)) (Ty j)}
    {k : Ans e → Prog (Eff (Ty (j + 1)) (Ty j)) Ans ((w.task j).S ⊕ Exit)}
    (ht : net.threads j = .running (.vis e k)) : (owning w.n j).pre e (v j) := by
  have hfollows := hat.follows j
  rw [ht] at hfollows
  exact hfollows.1

include hat in
theorem ended_gone {j : Nat} {exit : Exit} (ht : net.threads j = .finished exit) :
    (v j).Gone w.n j := by
  have hfollows := hat.follows j
  rwa [ht] at hfollows

include h hat in
/-- A thread that was spawned has ended or waits. -/
theorem Stuck.ended_or_waits {j : Nat} (hready : net.threads j ≠ .ready) :
    (∃ exit, net.threads j = .finished exit) ∨
      ∃ e : Eff (Ty (j + 1)) (Ty j), (owning w.n j).pre e (v j) ∧ net.Waits j e := by
  cases ht : net.threads j with
  | ready => exact absurd ht hready
  | finished exit => exact .inl ⟨exit, rfl⟩
  | running p =>
    obtain ⟨e, k, rfl⟩ := h.at_request ht
    have hpre := promised hat ht
    exact .inr ⟨e, hpre, h.waits hat.wired hat.ties ht hpre⟩

include h hat in
/-- The calling thread has spawned every other one, and joins one that has not ended. -/
theorem Stuck.joins (hcaller : ∀ exit, net.threads (w.n + 1) ≠ .finished exit) :
    (∀ i ≤ w.n, net.threads i ≠ .ready) ∧
      ∃ i ≤ w.n, ∀ exit, net.threads i ≠ .finished exit := by
  rcases h.ended_or_waits hat hat.ties.caller with ⟨exit, hexit⟩ | ⟨e, hpre, hwaits⟩
  · exact absurd hexit (hcaller exit)
  cases hwaits with
  | full he hpc hw =>
    rcases he with rfl | rfl
    · exact absurd hpre.2.2 (by omega)
    · exact absurd hpre.2.2 (by omega)
  | empty hpc hchan halive => exact absurd hpre.2 (by omega)
  | segments hi hdone => exact absurd hpre.2 (by omega)
  | @thread i _ hi =>
    obtain ⟨hspawned, hle, -⟩ := hpre
    refine ⟨fun k hk hready => ?_, i, hle, hi⟩
    have hle := (hat.ties.spawned k hk).1 hready
    omega

variable (hready : ∀ i ≤ w.n, net.threads i ≠ .ready)

include h hat hready in
/-- Where a thread sleeps in a full edge, the one that takes from the edge sleeps too. -/
theorem Stuck.sleeps_below {i : Nat} (hi : i < w.n) {wait : Wait (StageOp (Ty (i + 1)))}
    (hpc : (net.edges i).tx.pc = .parked wait) (hw : (net.edges i).woken = false) :
    ∃ k, i = k + 1 ∧ ∃ wait, (net.edges k).tx.pc = .parked wait ∧ (net.edges k).woken = false := by
  obtain ⟨hmissed, hwaiting⟩ := (hat.wired.reachable i).no_lost_wakeup hpc hw
  rcases h.ended_or_waits hat (hready i (Nat.le_of_lt hi)) with ⟨exit, hexit⟩ | ⟨e, hpre, hwaits⟩
  · have hgone := (hat.ties.holds i).receiver ((ended_gone hat hexit).receiver hi)
    have hclosed := (hat.wired.reachable i).handshake.closed
    rw [hgone] at hclosed hmissed
    rcases hmissed with ⟨-, hopen⟩ | hnotifying
    · rw [hopen] at hclosed
      cases hclosed
    · cases hnotifying
  cases hwaits with
  | @full k _ wait' _ he hpc' hw' => exact ⟨k, rfl, wait', hpc', hw'⟩
  | empty hpc' hchan halive => exact absurd hchan (hwaiting _ hpc')
  | segments hk hdone => exact absurd hpre.2 (Nat.ne_of_lt hi)
  | thread hthread => exact absurd hpre.2.2 (Nat.lt_asymm hi)

include h hat hready in
/-- No thread sleeps in a full edge: the one that takes from it would sleep too, down to the
sink. -/
theorem Stuck.no_sleep {i : Nat} (hi : i < w.n) {wait : Wait (StageOp (Ty (i + 1)))}
    (hpc : (net.edges i).tx.pc = .parked wait) (hw : (net.edges i).woken = false) : False := by
  induction i with
  | zero =>
    obtain ⟨k, hk, -⟩ := h.sleeps_below hat hready hi hpc hw
    cases hk
  | succ i ih =>
    obtain ⟨k, hk, wait', hpc', hw'⟩ := h.sleeps_below hat hready hi hpc hw
    obtain rfl : i = k := Nat.succ.inj hk
    exact ih (Nat.lt_of_succ_lt hi) hpc' hw'

include h hat hready in
/-- A segment that has not ended waits for messages, and the source for the segments. -/
theorem Stuck.worker_waits {j : Nat} (hj : j ≤ w.n) :
    (∃ exit, net.threads j = .finished exit) ∨ (j < w.n ∧ (net.edges j).txAlive = true) ∨
      (j = w.n ∧ (v j).sender = false ∧ ∃ i < w.n, net.done i = false) := by
  rcases h.ended_or_waits hat (hready j hj) with hended | ⟨e, hpre, hwaits⟩
  · exact .inl hended
  cases hwaits with
  | full he hpc hw => exact (h.no_sleep hat hready hj hpc hw).elim
  | empty hpc hchan halive => exact .inr (.inl ⟨hpre.2, halive⟩)
  | @segments i _ hi hdone => exact .inr (.inr ⟨hpre.2, hpre.1, i, hi, hdone⟩)
  | thread hthread => exact absurd hpre.2.2 (Nat.not_lt.2 hj)

include h hat hready in
/-- The source has dropped its sender. -/
theorem Stuck.source_dropped : (v w.n).sender = false := by
  rcases h.worker_waits hat hready (Nat.le_refl w.n) with ⟨exit, hexit⟩ | ⟨hlt, -⟩ | ⟨-, hsender, -⟩
  · exact (ended_gone hat hexit).sender (Nat.le_refl _)
  · exact absurd hlt (Nat.lt_irrefl _)
  · exact hsender

include h hat hready in
/-- A segment whose upstream has dropped its sender does not wait for messages. -/
theorem Stuck.ended_below {j : Nat} (hj : j < w.n) (hdropped : (v (j + 1)).sender = false) :
    ∃ exit, net.threads j = .finished exit := by
  rcases h.worker_waits hat hready (Nat.le_of_lt hj) with hended | ⟨-, halive⟩ | ⟨heq, -⟩
  · exact hended
  · have hgone := ((hat.ties.holds (j + 1)).sender j rfl).2 hdropped
    rw [(hat.wired.reachable j).handshake.txAlive.2 hgone] at halive
    cases halive
  · exact absurd heq (Nat.ne_of_lt hj)

include h hat hready in
/-- All segments have ended, from the source down. -/
theorem Stuck.segments_ended {j : Nat} (hj : j < w.n) : ∃ exit, net.threads j = .finished exit := by
  obtain ⟨k, hk⟩ := Nat.exists_eq_add_of_lt hj
  induction k generalizing j with
  | zero =>
    apply h.ended_below hat hready hj
    rw [show j + 1 = w.n from hk.symm]
    exact h.source_dropped hat hready
  | succ k ih =>
    have hlt : j + 1 < w.n := by omega
    obtain ⟨exit, hexit⟩ := ih hlt (by omega)
    exact h.ended_below hat hready hj ((ended_gone hat hexit).sender (Nat.le_of_lt hlt))

include h hat hready in
theorem Stuck.all_ended {j : Nat} (hj : j ≤ w.n) : ∃ exit, net.threads j = .finished exit := by
  rcases h.worker_waits hat hready hj with hended | ⟨hlt, -⟩ | ⟨-, -, i, hi, hdone⟩
  · exact hended
  · exact h.segments_ended hat hready hlt
  · obtain ⟨exit, hexit⟩ := h.segments_ended hat hready hi
    rw [(hat.ties.holds i).done ((ended_gone hat hexit).done hi)] at hdone
    cases hdone

end Deadlock

/-- No reachable state of a threaded run is stuck: as long as the outside answers and the call has
not ended, some thread can take a step. -/
theorem no_deadlock (hout : ∀ j log (e : Eff (Ty (j + 1)) (Ty j)), e.Outside → ∃ a, out j log e a)
    (hnet : net.Reachable out) (hcaller : ∀ exit, net.threads (w.n + 1) ≠ .finished exit) :
    ∃ net', Moves out net net' := by
  obtain ⟨v, hat⟩ := (ownership w).reachable (ownership_kept w) (ownership_ties w out) hnet
  by_contra hstill
  have h : Stuck out net := ⟨hout, fun net' hmoves => hstill ⟨net', hmoves⟩⟩
  obtain ⟨hready, i, hi, hrunning⟩ := h.joins hat hcaller
  obtain ⟨exit, hexit⟩ := h.all_ended hat hready hi
  exact hrunning exit hexit

/-- A source that feeds a sink across one hand-off edge. -/
def handoff : ThreadedWiring fun _ => Nat :=
  ⟨1, fun _ => .nil, fun _ => 0, "sink", "source", none, false, ⟨false, false⟩⟩

/-- The call that spawns the threads can take its first step. -/
theorem no_deadlock_handoff :
    ∃ net', Moves (fun _ _ _ _ => True) (init handoff) net' := by
  apply no_deadlock (fun j log e he => ?_) .init (by simp [init])
  cases e with
  | write | flush | close | deadLetter | pull | pullTimeout | closeSource | observe =>
    exact ⟨none, trivial⟩
  | isCancelled | sleep => exact ⟨false, trivial⟩
  | note => exact ⟨(), trivial⟩
  | _ => exact he.elim

end Net

end PipeIo
