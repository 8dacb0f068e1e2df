import PipeIo.Network

namespace PipeIo
set_option autoImplicit true

open Lib Function

def Wait.msg : Wait M → M
  | .room _ msg | .handOff _ msg => msg

/-- The message of the `send` or `try_send` under way. -/
def TxPc.msg : TxPc M → Option M
  | .idle | .gone => none
  | .tryClosed msg | .hasRoom _ msg | .inFlight _ msg | .push _ msg | .result _ msg => some msg
  | .spinReceived _ w | .spinClosed _ w | .acquire w | .announce w | .checkReceived w
  | .checkClosed w | .park w | .parked w | .retract _ w | .release _ w => some w.msg

def After.drops : After M → Bool
  | .drop => true
  | .give _ | .wait _ => false

/-- The receiver's thread is inside `Drop`. -/
def RxPc.dropping : RxPc M → Bool
  | .close | .dropField => true
  | .publish k | .loadWaiting k | .lock k | .notify k | .unlock k => k.drops
  | .idle | .tryRecv _ | .took _ | .waiting _ | .result _ | .gone => false

/-- The receiver's thread is inside `recv` or `recv_timeout`. -/
def RxPc.receiving : RxPc M → Bool
  | .tryRecv _ | .took _ | .waiting _ | .result _ => true
  | .publish k | .loadWaiting k | .lock k | .notify k | .unlock k => !k.drops
  | .idle | .close | .dropField | .gone => false

namespace Edge

theorem waited_msg (reached : Bool) (w : Wait M) : (waited reached w).msg = some w.msg := by
  cases reached <;> cases w <;> rfl

theorem published_dropping (k : After M) : (published k).dropping = k.drops := by
  cases k <;> rfl

theorem published_receiving (k : After M) : (published k).receiving = !k.drops := by
  cases k <;> rfl

/-- A step of the sender's thread leaves the receiver alone and keeps the message. -/
theorem txStep_frame {e e' : Edge M} (h : e.txStep capacity = some e') :
    e'.rx = e.rx ∧ e'.tx.pc.msg = e.tx.pc.msg := by
  cases hpc : e.tx.pc <;> simp only [txStep, hpc] at h
  all_goals
    repeat' (first
      | (cases h; done)
      | (cases h; exact ⟨rfl, rfl⟩)
      | (cases h; exact ⟨rfl, waited_msg ..⟩)
      | split at h)

/-- Inside the edge a call keeps its message. -/
theorem Inner.msg {e e' : Edge M} (h : Inner capacity e e') : e'.tx.pc.msg = e.tx.pc.msg := by
  cases h with
  | tx h => exact (txStep_frame h).2
  | spurious h =>
    simp only [Edge.spurious] at h
    split at h <;> cases h
    simp_all [goTx, TxPc.msg]
  | rx h => rw [(rxStep_frame h).1]
  | timeOut h =>
    simp only [Edge.timeOut] at h
    split at h <;> cases h
    rfl

/-- Inside the edge the receiver stays in the call it is in, until `Drop` is over. -/
theorem Inner.rx_calls {e e' : Edge M} (h : Inner capacity e e') :
    (e'.rx.pc.receiving → e.rx.pc.receiving) ∧ (e'.rx.pc.dropping → e.rx.pc.dropping) := by
  cases h with
  | tx h =>
    rw [(txStep_frame h).1]
    exact ⟨id, id⟩
  | spurious h =>
    simp only [Edge.spurious] at h
    split at h <;> cases h
    exact ⟨id, id⟩
  | rx h =>
    cases hpc : e.rx.pc <;> simp only [rxStep, hpc] at h
    all_goals
      repeat' (first | (cases h; done) | split at h)
      all_goals
        cases h
        simp only [take, goRx, published_receiving, published_dropping]
        simp [RxPc.receiving, RxPc.dropping, After.drops]
  | timeOut h =>
    simp only [Edge.timeOut] at h
    split at h <;> cases h
    simp_all [goRx, RxPc.receiving, RxPc.dropping]

theorem Inner.step {e e' : Edge M} (h : Inner capacity e e') : Step capacity e e' := by
  cases h with
  | tx h => exact .tx h
  | spurious h => exact .spurious h
  | rx h => exact .rx h
  | timeOut h => exact .timeOut h

end Edge

/-- The thread is inside a call that sends this operation. -/
def Thread.Sends {t : Task X Y} (thread : Thread t) (op : StageOp Y) : Prop :=
  (∃ k, thread = .running (.vis (.send op) k)) ∨ ∃ k, thread = .running (.vis (.trySend op) k)

/-- The thread is inside `recv` or `recv_timeout`. -/
def Thread.Receives {t : Task X Y} (thread : Thread t) : Prop :=
  ∃ timeout k, thread = .running (.vis (.recv timeout) k)

/-- The thread drops its receiver. -/
def Thread.DropsReceiver {t : Task X Y} (thread : Thread t) : Prop :=
  ∃ k, thread = .running (.vis .dropReceiver k)

namespace Net

variable {Ty : Nat → Type} {w : ThreadedWiring Ty} {out : Outside Ty} {net net' : Net w}

/-- The threads are where the edges say they are. -/
structure Wired (net : Net w) : Prop where
  reachable : ∀ j, Edge.Reachable (w.capacity j) (net.edges j)
  sends : ∀ j op, (net.edges j).tx.pc.msg = some op → (net.threads (j + 1)).Sends op
  receives : ∀ j, (net.edges j).rx.pc.receiving → (net.threads j).Receives
  drops : ∀ j, (net.edges j).rx.pc.dropping → (net.threads j).DropsReceiver

/-- Thread `j` is not inside any edge. -/
structure Quiet (net : Net w) (j : Nat) : Prop where
  sends : ∀ i, i + 1 = j → (net.edges i).tx.pc.msg = none
  receives : (net.edges j).rx.pc.receiving = false
  drops : (net.edges j).rx.pc.dropping = false

theorem Wired.tx_quiet (h : net.Wired) {j : Nat} (hs : ∀ op, ¬(net.threads j).Sends op) :
    ∀ i, i + 1 = j → (net.edges i).tx.pc.msg = none := by
  rintro i rfl
  cases hm : (net.edges i).tx.pc.msg with
  | none => rfl
  | some op => exact absurd (h.sends i op hm) (hs op)

theorem Wired.rx_quiet (h : net.Wired) {j : Nat} (hr : ¬(net.threads j).Receives) :
    (net.edges j).rx.pc.receiving = false := by
  simpa using mt (h.receives j) hr

theorem Wired.drop_quiet (h : net.Wired) {j : Nat} (hd : ¬(net.threads j).DropsReceiver) :
    (net.edges j).rx.pc.dropping = false := by
  simpa using mt (h.drops j) hd

/-- A thread that is not at a request is not inside any edge. -/
theorem Wired.quiet (h : net.Wired) {j : Nat} (ht : ∀ e k, net.threads j ≠ .running (.vis e k)) :
    net.Quiet j where
  sends := h.tx_quiet fun _ hs => hs.elim (fun ⟨k, hs⟩ => ht _ k hs) fun ⟨k, hs⟩ => ht _ k hs
  receives := h.rx_quiet fun ⟨_, k, hr⟩ => ht _ k hr
  drops := h.drop_quiet fun ⟨k, hd⟩ => ht _ k hd

theorem Wired.goes (h : net.Wired) {j : Nat} (hq : net.Quiet j) (t : Thread (w.task j)) :
    (net.goes j t).Wired where
  reachable := h.reachable
  sends i op hm := by
    have hne : i + 1 ≠ j := by
      rintro rfl
      have hnone := hq.sends i rfl
      exact absurd (hm.symm.trans hnone) nofun
    simp only [Net.goes, update_of_ne hne]
    exact h.sends i op hm
  receives i hm := by
    have hne : i ≠ j := by
      rintro rfl
      have hnone := hq.receives
      exact absurd (hm.symm.trans hnone) nofun
    simp only [Net.goes, update_of_ne hne]
    exact h.receives i hm
  drops i hm := by
    have hne : i ≠ j := by
      rintro rfl
      have hnone := hq.drops
      exact absurd (hm.symm.trans hnone) nofun
    simp only [Net.goes, update_of_ne hne]
    exact h.drops i hm

theorem Wired.setEdge (h : net.Wired) {j : Nat} {e : Edge (StageOp (Ty (j + 1)))}
    (hs : Edge.Step (w.capacity j) (net.edges j) e)
    (hsends : ∀ op, e.tx.pc.msg = some op → (net.threads (j + 1)).Sends op)
    (hreceives : e.rx.pc.receiving → (net.threads j).Receives)
    (hdrops : e.rx.pc.dropping → (net.threads j).DropsReceiver) : (net.setEdge j e).Wired where
  reachable i := by
    by_cases hi : i = j
    · subst hi
      simpa [Net.setEdge] using (h.reachable i).step hs
    · simpa [Net.setEdge, hi] using h.reachable i
  sends i op hm := by
    by_cases hi : i = j
    · subst hi
      simp only [Net.setEdge, update_self] at hm
      exact hsends op hm
    · simp only [Net.setEdge, update_of_ne hi] at hm
      exact h.sends i op hm
  receives i hm := by
    by_cases hi : i = j
    · subst hi
      simp only [Net.setEdge, update_self] at hm
      exact hreceives hm
    · simp only [Net.setEdge, update_of_ne hi] at hm
      exact h.receives i hm
  drops i hm := by
    by_cases hi : i = j
    · subst hi
      simp only [Net.setEdge, update_self] at hm
      exact hdrops hm
    · simp only [Net.setEdge, update_of_ne hi] at hm
      exact h.drops i hm

theorem wired_init (w : ThreadedWiring Ty) : (init w).Wired where
  reachable _ := .init
  sends _ _ h := nomatch h
  receives _ h := nomatch h
  drops _ h := nomatch h

theorem Wired.enter (h : net.Wired) {j : Nat} {e : Eff (Ty (j + 1)) (Ty j)}
    {k : Ans e → Prog (Eff (Ty (j + 1)) (Ty j)) Ans ((w.task j).S ⊕ Exit)}
    (ht : net.threads j = .running (.vis e k)) (he : Enters net j e net') : net'.Wired := by
  cases he with
  | send hpc op =>
    refine h.setEdge (.callSend hpc false op) (fun op' hm => ?_) (h.receives _) (h.drops _)
    cases hm
    exact .inl ⟨k, ht⟩
  | trySend hpc op =>
    refine h.setEdge (.callSend hpc true op) (fun op' hm => ?_) (h.receives _) (h.drops _)
    cases hm
    exact .inr ⟨k, ht⟩
  | recv hpc timeout =>
    exact h.setEdge (.callRecv hpc _) (h.sends _) (fun _ => ⟨timeout, k, ht⟩) nofun
  | dropReceiver hpc =>
    exact h.setEdge (.dropReceiver hpc) (h.sends _) nofun fun _ => ⟨k, ht⟩

theorem Wired.record (h : net.Wired) {j : Nat} (a : Entry (Ty (j + 1)) (Ty j)) :
    (net.record j a).Wired := ⟨h.reachable, h.sends, h.receives, h.drops⟩

theorem Quiet.record {j : Nat} (h : net.Quiet j) {i : Nat} (a : Entry (Ty (i + 1)) (Ty i)) :
    (net.record i a).Quiet j := ⟨h.sends, h.receives, h.drops⟩

theorem Wired.resume (h : net.Wired) {j : Nat} (hq : net.Quiet j)
    (a : Entry (Ty (j + 1)) (Ty j)) (t : Thread (w.task j)) : ((net.record j a).goes j t).Wired :=
  (h.record a).goes (hq.record a) t

/-- An answered call has left its edge. -/
theorem Wired.reply (h : net.Wired) {j : Nat} {e : Eff (Ty (j + 1)) (Ty j)} {a : Ans e}
    {k : Ans e → Prog (Eff (Ty (j + 1)) (Ty j)) Ans ((w.task j).S ⊕ Exit)}
    (ht : net.threads j = .running (.vis e k)) (ha : Answers out net j e a net') :
    ((net'.record j ⟨e, a⟩).goes j (.running (k a))).Wired := by
  have hsends : (∀ op, e ≠ .send op ∧ e ≠ .trySend op) →
      ∀ i, i + 1 = j → (net.edges i).tx.pc.msg = none := fun he => h.tx_quiet fun op hs => by
    rcases hs with ⟨k', hs⟩ | ⟨k', hs⟩ <;> rw [ht] at hs <;> injection hs with hs <;>
      injection hs with hs
    · exact (he op).1 hs
    · exact (he op).2 hs
  have hreceives : (∀ t, e ≠ .recv t) → (net.edges j).rx.pc.receiving = false := by
    refine fun he => h.rx_quiet ?_
    rintro ⟨t, k', hr⟩
    rw [ht] at hr
    injection hr with hr
    injection hr with hr
    exact he t hr
  have hdrops : e ≠ .dropReceiver → (net.edges j).rx.pc.dropping = false := by
    refine fun he => h.drop_quiet ?_
    rintro ⟨k', hd⟩
    rw [ht] at hd
    injection hd with hd
    injection hd with hd
    exact he hd
  suffices hnet' : net'.Wired ∧ net'.Quiet j from hnet'.1.resume hnet'.2 _ _
  cases ha with
  | outside he =>
    refine ⟨h, hsends fun op => ⟨?_, ?_⟩, hreceives fun t => ?_, hdrops ?_⟩ <;> rintro rfl <;>
      exact he
  | joined | segmentsDone | noSender =>
    exact ⟨h, hsends (by simp), hreceives (by simp), hdrops (by simp)⟩
  | droppedDone | offered | tookFirst =>
    exact ⟨⟨h.reachable, h.sends, h.receives, h.drops⟩, hsends (by simp),
      hreceives (by simp), hdrops (by simp)⟩
  | @spawned i _ hready =>
    have hi : net.Quiet i := h.quiet fun e k he => by simp [hready] at he
    exact ⟨h.goes hi _, hsends (by simp), hreceives (by simp), hdrops (by simp)⟩
  | @sent i _ _ hpc =>
    have hne : i + 1 ≠ i := Nat.succ_ne_self i
    refine ⟨h.setEdge (.returnSend hpc) (by simp [Edge.returnSend, Edge.goTx, TxPc.msg])
      (h.receives i) (h.drops i), ?_, ?_, ?_⟩
    · rintro i' ⟨⟩
      simp [Net.setEdge, Edge.returnSend, Edge.goTx, TxPc.msg]
    · simpa [Net.setEdge, hne] using hreceives (by simp)
    · simpa [Net.setEdge, hne] using hdrops (by simp)
  | @trySent i _ _ hpc =>
    have hne : i + 1 ≠ i := Nat.succ_ne_self i
    refine ⟨h.setEdge (.returnSend hpc) (by simp [Edge.returnSend, Edge.goTx, TxPc.msg])
      (h.receives i) (h.drops i), ?_, ?_, ?_⟩
    · rintro i' ⟨⟩
      simp [Net.setEdge, Edge.returnSend, Edge.goTx, TxPc.msg]
    · simpa [Net.setEdge, hne] using hreceives (by simp)
    · simpa [Net.setEdge, hne] using hdrops (by simp)
  | @droppedSender i hpc =>
    have hne : i + 1 ≠ i := Nat.succ_ne_self i
    refine ⟨h.setEdge (.dropSender hpc) (by simp [Edge.dropSender, Edge.goTx, TxPc.msg])
      (h.receives i) (h.drops i), ?_, ?_, ?_⟩
    · rintro i' ⟨⟩
      simp [Net.setEdge, Edge.dropSender, Edge.goTx, TxPc.msg]
    · simpa [Net.setEdge, hne] using hreceives (by simp)
    · simpa [Net.setEdge, hne] using hdrops (by simp)
  | received hpc =>
    refine ⟨h.setEdge (.returnRecv hpc) (h.sends j)
      (by simp [Edge.returnRecv, Edge.goRx, RxPc.receiving])
      (by simp [Edge.returnRecv, Edge.goRx, RxPc.dropping]), ?_, ?_, ?_⟩
    · rintro i rfl
      have hne : i ≠ i + 1 := (Nat.succ_ne_self i).symm
      simpa [Net.setEdge, hne] using hsends (by simp) i rfl
    · simp [Net.setEdge, Edge.returnRecv, Edge.goRx, RxPc.receiving]
    · simp [Net.setEdge, Edge.returnRecv, Edge.goRx, RxPc.dropping]
  | droppedReceiver hpc =>
    exact ⟨h, hsends (by simp), hreceives (by simp), by rw [hpc]; rfl⟩

theorem Wired.step (h : net.Wired) (hs : Step out net net') : net'.Wired := by
  cases hs with
  | reply ht ha => exact h.reply ht ha
  | enter ht he => exact h.enter ht he
  | inner hi =>
    have hrx := hi.rx_calls
    exact h.setEdge hi.step (fun op hm => h.sends _ op (hi.msg ▸ hm))
      (fun hm => h.receives _ (hrx.1 hm)) fun hm => h.drops _ (hrx.2 hm)
  | round ht => exact h.goes (h.quiet fun e k he => by simp [ht] at he) _
  | finish ht => exact h.goes (h.quiet fun e k he => by simp [ht] at he) _

theorem Reachable.wired (h : Reachable out net) : net.Wired := by
  induction h with
  | init => exact wired_init w
  | step _ hs ih => exact ih.step hs

end Net

/-- What each thread promises: a ghost state that its requests move, what holds of it between
rounds of the thread's loop, and what holds once the thread has ended. -/
structure Protocol {Ty : Nat → Type} (w : ThreadedWiring Ty) where
  W : Nat → Type
  Γ : (j : Nat) → Spec (Eff (Ty (j + 1)) (Ty j)) Ans (W j)
  start : (j : Nat) → W j
  loop : (j : Nat) → (w.task j).S → W j → Prop
  exits : (j : Nat) → Exit → W j → Prop

namespace Protocol

variable {Ty : Nat → Type} {w : ThreadedWiring Ty} {out : Outside Ty} (P : Protocol w)

def ends (j : Nat) : (w.task j).S ⊕ Exit → P.W j → Prop
  | .inl s, v => P.loop j s v
  | .inr exit, v => P.exits j exit v

def Follows (j : Nat) : Thread (w.task j) → P.W j → Prop
  | .ready, v => v = P.start j
  | .running p, v => p.wp (P.Γ j) (P.ends j) v
  | .finished exit, v => P.exits j exit v

/-- Every thread keeps its promise as long as the answers it gets are the promised ones. -/
structure Kept : Prop where
  begins : ∀ j, P.loop j (w.task j).init (P.start j)
  rounds : ∀ j s v, P.loop j s v → ((w.task j).round s).wp (P.Γ j) (P.ends j) v

/-- All threads keep their promises, and `G` ties their ghost states to the network. -/
structure At (G : Net w → ((j : Nat) → P.W j) → Prop) (net : Net w) (v : (j : Nat) → P.W j) :
    Prop where
  wired : net.Wired
  follows : ∀ j, P.Follows j (net.threads j) (v j)
  ties : G net v

/-- `G` holds at the start, survives every step, and makes the network give each thread the
answers it was promised. -/
structure Ties (out : Outside Ty) (G : Net w → ((j : Nat) → P.W j) → Prop) : Prop where
  init : G (Net.init w) P.start
  reply : P.At G net v → net.threads j = .running (.vis e k) → (P.Γ j).pre e (v j) →
    net.Answers out j e a net' → ∃ v', (P.Γ j).post e (v j) a v' ∧
      G ((net'.record j ⟨e, a⟩).goes j (.running (k a))) (update v j v')
  enter : P.At G net v → net.threads j = .running (.vis e k) → (P.Γ j).pre e (v j) →
    net.Enters j e net' → G net' v
  inner : P.At G net v → Edge.Inner (w.capacity j) (net.edges j) e → G (net.setEdge j e) v
  silent : P.At G net v → net.threads j = .running (.ret r) → t ≠ .ready → G (net.goes j t) v

variable {P} {G : Net w → ((j : Nat) → P.W j) → Prop} {net net' : Net w} {v : (j : Nat) → P.W j}

theorem Kept.spawn (hP : P.Kept) (j : Nat) :
    P.Follows j (.running ((w.task j).round (w.task j).init)) (P.start j) :=
  hP.rounds j _ _ (hP.begins j)

theorem follows_goes {threads : (j : Nat) → Thread (w.task j)}
    (h : ∀ i, P.Follows i (threads i) (v i)) {j : Nat} {t : Thread (w.task j)} {v' : P.W j}
    (ht : P.Follows j t v') (i : Nat) : P.Follows i (update threads j t i) (update v j v' i) := by
  by_cases hi : i = j
  · subst hi
    simpa using ht
  · simpa [hi] using h i

/-- The answer to a request leaves the other threads alone, or spawns one. -/
theorem follows_answers (hP : P.Kept) (h : ∀ i, P.Follows i (net.threads i) (v i)) {j : Nat}
    {e : Eff (Ty (j + 1)) (Ty j)} {a : Ans e} (ha : net.Answers out j e a net') :
    ∀ i, P.Follows i (net'.threads i) (v i) := by
  cases ha with
  | @spawned i _ hready =>
    intro i'
    have hi := h i
    rw [hready] at hi
    have hv : update v i (P.start i) = v := by rw [← show v i = P.start i from hi, update_eq_self]
    have hgoes := follows_goes h (hP.spawn i) i'
    rwa [hv] at hgoes
  | _ => exact h

theorem At.step (hP : P.Kept) (hG : P.Ties out G) (h : P.At G net v) (hs : net.Step out net') :
    ∃ v', P.At G net' v' := by
  have hwired := h.wired.step hs
  cases hs with
  | @reply _ j e a net₁ k ht ha =>
    have hfollows := h.follows j
    rw [ht] at hfollows
    obtain ⟨v', hpost, hties⟩ := hG.reply h ht hfollows.1 ha
    have hnext : P.Follows j (.running (k a)) v' := hfollows.2 a v' hpost
    exact ⟨_, hwired, follows_goes (follows_answers hP h.follows ha) hnext, hties⟩
  | @enter _ j e k net' ht he =>
    have hfollows := h.follows j
    rw [ht] at hfollows
    refine ⟨v, hwired, ?_, hG.enter h ht hfollows.1 he⟩
    cases he <;> exact h.follows
  | inner hi => exact ⟨v, hwired, h.follows, hG.inner h hi⟩
  | @round _ j s ht =>
    have hfollows := h.follows j
    rw [ht] at hfollows
    refine ⟨v, hwired, fun i => ?_, hG.silent h ht nofun⟩
    have hround : P.Follows j (.running ((w.task j).round s)) (v j) := hP.rounds j s (v j) hfollows
    have hgoes := follows_goes h.follows hround i
    rwa [update_eq_self] at hgoes
  | @finish _ j exit ht =>
    have hfollows := h.follows j
    rw [ht] at hfollows
    refine ⟨v, hwired, fun i => ?_, hG.silent h ht nofun⟩
    have hend : P.Follows j (.finished exit) (v j) := hfollows
    have hgoes := follows_goes h.follows hend i
    rwa [update_eq_self] at hgoes

/-- The rule for threaded runs: what ties the threads together holds in every reachable
state. -/
theorem reachable (hP : P.Kept) (hG : P.Ties out G) (h : net.Reachable out) :
    ∃ v, P.At G net v := by
  induction h with
  | init =>
    refine ⟨P.start, Net.wired_init w, fun j => ?_, hG.init⟩
    simp only [Net.init]
    split
    · exact hP.spawn j
    · rfl
  | step _ hs ih =>
    obtain ⟨v, hv⟩ := ih
    exact hv.step hP hG hs

end Protocol

end PipeIo
