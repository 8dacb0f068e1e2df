import PipeIo.EdgeFlow

namespace PipeIo
set_option autoImplicit true

/-- The sender's thread holds the gate's lock. -/
def TxPc.locked : TxPc M → Bool
  | .announce _ | .checkReceived _ | .checkClosed _ | .park _ | .retract .. | .release .. => true
  | _ => false

/-- The `waiting` flag is up on behalf of the sender's thread. -/
def TxPc.announced : TxPc M → Bool
  | .checkReceived _ | .checkClosed _ | .park _ | .parked _ | .retract .. => true
  | _ => false

/-- The receiver's thread holds the gate's lock. -/
def RxPc.locked : RxPc M → Bool
  | .notify _ | .unlock _ => true
  | _ => false

/-- Between a store to `received` or `closed` and the notification it may owe. -/
def RxPc.notifying : RxPc M → Bool
  | .loadWaiting _ | .lock _ | .notify _ => true
  | _ => false

/-- The receiver has stored `closed`. -/
def RxPc.closing : RxPc M → Bool
  | .publish .drop | .loadWaiting .drop | .lock .drop | .notify .drop | .unlock .drop
  | .dropField | .gone => true
  | _ => false

/-- The receiver has published everything it took and has taken nothing since. -/
def RxPc.caughtUp : RxPc M → Bool
  | .loadWaiting (.wait _) | .lock (.wait _) | .notify (.wait _) | .unlock (.wait _)
  | .waiting _ => true
  | _ => false

/-- Once the sender has re-checked the gate, a change it missed is still going to be
notified. -/
def TxPc.Waits (received : Nat) (closed woken notifying : Bool) : TxPc M → Prop
  | .checkClosed w => w.target ≤ received → notifying = true
  | .park w => w.target ≤ received ∨ closed = true → notifying = true
  | .parked w => woken = false → w.target ≤ received ∨ closed = true → notifying = true
  | .retract false _ | .release false _ => closed = true
  | _ => True

/-- What a capacity of 0 adds: `try_send` never gets as far as the channel, and a message
was handed over before its `send` returns. -/
def TxPc.HandsOff (sent received : Nat) (closed : Bool) : TxPc M → Prop
  | .hasRoom true _ | .inFlight true _ | .push true _ => False
  | .result .ok _ => sent ≤ received ∨ closed = true
  | _ => True

namespace Edge

/-- The handshake of `wait_until` with `publish` and `Drop`. -/
structure Handshake (capacity : Nat) (e : Edge M) : Prop where
  txLock : e.lock = some .tx ↔ e.tx.pc.locked = true
  rxLock : e.lock = some .rx ↔ e.rx.pc.locked = true
  announced : e.tx.pc.announced = true → e.waiting = true
  waits : e.tx.pc.Waits e.received e.closed e.woken e.rx.pc.notifying
  closed : e.closed = e.rx.pc.closing
  caughtUp : e.rx.pc.caughtUp = true → e.rx.published = e.rx.received
  txAlive : e.txAlive = false ↔ e.tx.pc = .gone
  rxAlive : e.rxAlive = false ↔ e.rx.pc = .gone
  drained : e.rx.pc = .result .disconnected → e.chan = [] ∧ e.txAlive = false
  handsOff : capacity = 0 → e.tx.pc.HandsOff e.tx.sent e.received e.closed

theorem handshake_edge (capacity : Nat) : Handshake capacity (edge : Edge M) := by
  constructor <;>
    simp [edge, TxPc.locked, RxPc.locked, TxPc.announced, TxPc.Waits, RxPc.closing,
      RxPc.caughtUp, TxPc.HandsOff]

theorem Handshake.goTx {e : Edge M} (h : Handshake capacity e) (pc : TxPc M)
    (hl : pc.locked = e.tx.pc.locked) (ha : pc.announced = true → e.waiting = true)
    (hw : pc.Waits e.received e.closed e.woken e.rx.pc.notifying)
    (hg : pc = .gone ↔ e.tx.pc = .gone)
    (hh : capacity = 0 → pc.HandsOff e.tx.sent e.received e.closed) :
    Handshake capacity (e.goTx pc) where
  __ := h
  txLock := h.txLock.trans (by simp only [Edge.goTx, hl])
  announced := ha
  waits := hw
  txAlive := h.txAlive.trans hg.symm
  handsOff := hh

theorem waited_locked (reached : Bool) (w : Wait M) : (waited reached w).locked = false := by
  cases reached <;> cases w <;> rfl

theorem waited_announced (reached : Bool) (w : Wait M) :
    (waited reached w).announced = false := by
  cases reached <;> cases w <;> rfl

theorem waited_waits {received : Nat} {closed woken : Bool} (reached : Bool) (w : Wait M)
    (n : Bool) : (waited reached w).Waits received closed woken n := by
  cases reached <;> cases w <;> trivial

theorem waited_ne_gone (reached : Bool) (w : Wait M) : waited reached w ≠ .gone := by
  cases reached <;> cases w <;> simp [waited]

/-- A hand-off ends because the message was taken or because the receiver is gone. -/
theorem waited_handsOff {sent received : Nat} {closed : Bool} (reached : Bool) {w : Wait M}
    (hf : w.Fits capacity sent)
    (hr : reached = true → w.target ≤ received) (hc : reached = false → closed = true) :
    (waited reached w).HandsOff sent received closed := by
  cases w with
  | room t msg => cases reached <;> trivial
  | handOff t msg =>
    obtain ⟨rfl, -⟩ := hf
    cases reached with
    | true => exact .inl (hr rfl)
    | false => exact .inr (hc rfl)

theorem Handshake.goWaited {e : Edge M} (h : Handshake capacity e) (reached : Bool) (w : Wait M)
    (hl : e.tx.pc.locked = false) (hg : e.tx.pc ≠ .gone) (hf : w.Fits capacity e.tx.sent)
    (hr : reached = true → w.target ≤ e.received) (hc : reached = false → e.closed = true) :
    Handshake capacity (e.goTx (waited reached w)) :=
  h.goTx _ (by rw [hl, waited_locked]) (by simp [waited_announced]) (waited_waits ..)
    (by simp [waited_ne_gone, hg]) (fun _ => waited_handsOff reached hf hr hc)

theorem Handshake.tx {e e' : Edge M} (h : Handshake capacity e) (hf : Flow capacity e)
    (hs : e.txStep capacity = some e') : Handshake capacity e' := by
  have hfit := hf.fits
  have hwait := h.waits
  have hann := h.announced
  have hhand := h.handsOff
  cases hpc : e.tx.pc with
  | idle | result | gone => simp [txStep, hpc] at hs
  | tryClosed msg =>
    simp only [txStep, hpc] at hs
    split at hs
    · cases hs
      exact h.goTx _ (by rw [hpc]; rfl) (by simp [TxPc.announced]) trivial (by simp [hpc])
        fun _ => trivial
    · split at hs <;> cases hs
      · exact h.goTx _ (by rw [hpc]; rfl) (by simp [TxPc.announced]) trivial (by simp [hpc])
          fun _ => trivial
      · exact h.goTx _ (by rw [hpc]; rfl) (by simp [TxPc.announced]) trivial (by simp [hpc])
          fun h0 => absurd h0 ‹_›
  | hasRoom trying msg =>
    rw [hpc] at hhand
    simp only [txStep, hpc] at hs
    split at hs <;> cases hs <;>
      exact h.goTx _ (by rw [hpc]; rfl) (by simp [TxPc.announced]) trivial (by simp [hpc])
        fun h0 => by cases trying <;> trivial
  | inFlight trying msg =>
    rw [hpc] at hhand
    have h' : Handshake capacity { e with tx := { e.tx with seen := e.received } } := { h with }
    simp only [txStep, hpc] at hs
    split at hs
    · cases hs
      exact h'.goTx _ (by simp only [hpc]; rfl) (by simp [TxPc.announced]) trivial
        (by simp [hpc]) fun h0 => by cases trying <;> trivial
    · split at hs <;> cases hs <;>
        exact h'.goTx _ (by simp only [hpc]; rfl) (by simp [TxPc.announced]) trivial
          (by simp [hpc]) fun _ => trivial
  | push trying msg =>
    rw [hpc] at hhand
    simp only [txStep, hpc] at hs
    split at hs
    · have hpush : ∀ pc : TxPc M, pc.locked = false → pc.announced = false →
          (∀ b, pc.Waits e.received e.closed e.woken b) → pc ≠ .gone →
          (capacity = 0 → pc.HandsOff (e.tx.sent + 1) e.received e.closed) →
          Handshake capacity
            { e with
              chan := e.chan ++ [msg], pushed := e.pushed ++ [msg]
              tx := { e.tx with pc := pc, sent := e.tx.sent + 1 } } := by
        intro pc hl ha hw hg hh
        have hgone : e.txAlive = true := by
          simpa [hpc] using (not_congr h.txAlive).2
        have hfree : e.lock ≠ some .tx := by simpa [hpc, TxPc.locked] using h.txLock
        exact { h with
          txLock := ⟨fun hc => absurd hc hfree, fun hc => by simp [hl] at hc⟩
          announced := by simp [ha]
          waits := hw _
          txAlive := by simp [hg, hgone]
          drained := fun hr => by simpa [hgone] using (h.drained hr).2
          handsOff := hh }
      split at hs <;> cases hs
      · exact hpush _ rfl rfl (fun _ => trivial) (by simp) fun _ => trivial
      · rename_i hc
        refine hpush _ rfl rfl (fun _ => trivial) (by simp) fun h0 => ?_
        cases trying with
        | false => exact absurd ⟨rfl, h0⟩ hc
        | true => exact absurd (hhand h0) id
    · cases hs
      exact h.goTx _ (by rw [hpc]; rfl) (by simp [TxPc.announced]) trivial (by simp [hpc])
        fun _ => trivial
  | spinReceived round w =>
    rw [hpc] at hfit
    simp only [txStep, hpc] at hs
    split at hs <;> cases hs
    · exact h.goWaited _ _ (by rw [hpc]; rfl) (by simp [hpc]) hfit (fun _ => ‹_›) (by simp)
    · exact h.goTx _ (by rw [hpc]; rfl) (by simp [TxPc.announced]) trivial (by simp [hpc])
        fun _ => trivial
  | spinClosed round w =>
    rw [hpc] at hfit
    simp only [txStep, hpc] at hs
    split at hs
    · cases hs
      exact h.goWaited _ _ (by rw [hpc]; rfl) (by simp [hpc]) hfit (by simp) (fun _ => ‹_›)
    · split at hs <;> cases hs <;>
        exact h.goTx _ (by rw [hpc]; rfl) (by simp [TxPc.announced]) trivial (by simp [hpc])
          fun _ => trivial
  | acquire w =>
    simp only [txStep, hpc] at hs
    split at hs <;> cases hs
    rename_i hfree
    have hrx : e.rx.pc.locked = false := by simpa [hfree] using h.rxLock
    exact { h with
      txLock := by simp [Edge.goTx, TxPc.locked]
      rxLock := by simp [Edge.goTx, hrx]
      announced := by simp [Edge.goTx, TxPc.announced]
      waits := trivial
      txAlive := by simpa [Edge.goTx, hpc] using h.txAlive
      handsOff := fun _ => trivial }
  | announce w =>
    simp only [txStep, hpc] at hs
    cases hs
    exact { h with
      txLock := by simpa [Edge.goTx, hpc, TxPc.locked] using h.txLock
      announced := fun _ => rfl
      waits := trivial
      txAlive := by simpa [Edge.goTx, hpc] using h.txAlive
      handsOff := fun _ => trivial }
  | checkReceived w =>
    rw [hpc] at hann
    simp only [txStep, hpc] at hs
    split at hs <;> cases hs
    · exact h.goTx _ (by rw [hpc]; rfl) (fun _ => hann rfl) trivial (by simp [hpc])
        fun _ => trivial
    · rename_i hlt
      exact h.goTx _ (by rw [hpc]; rfl) (fun _ => hann rfl) (fun hle => absurd hle hlt)
        (by simp [hpc]) fun _ => trivial
  | checkClosed w =>
    rw [hpc] at hann hwait
    simp only [txStep, hpc] at hs
    split at hs <;> cases hs
    · exact h.goTx _ (by rw [hpc]; rfl) (fun _ => hann rfl) ‹_› (by simp [hpc]) fun _ => trivial
    · rename_i hopen
      exact h.goTx _ (by rw [hpc]; rfl) (fun _ => hann rfl)
        (fun hor => hor.elim hwait fun hc => absurd hc hopen) (by simp [hpc]) fun _ => trivial
  | park w =>
    rw [hpc] at hann hwait
    have hlock : e.lock = some .tx := h.txLock.2 (by rw [hpc]; rfl)
    have hrx : e.rx.pc.locked = false := by simpa [hlock] using h.rxLock
    simp only [txStep, hpc] at hs
    cases hs
    exact { h with
      txLock := by simp [Edge.goTx, TxPc.locked]
      rxLock := by simp [Edge.goTx, hrx]
      announced := fun _ => hann rfl
      waits := fun _ hor => hwait hor
      txAlive := by simpa [Edge.goTx, hpc] using h.txAlive
      handsOff := fun _ => trivial }
  | parked w =>
    simp only [txStep, hpc] at hs
    split at hs <;> cases hs
    exact { h with
      txLock := by simpa [Edge.goTx, hpc, TxPc.locked] using h.txLock
      announced := by simp [Edge.goTx, TxPc.announced]
      waits := trivial
      txAlive := by simpa [Edge.goTx, hpc] using h.txAlive
      handsOff := fun _ => trivial }
  | retract reached w =>
    rw [hpc] at hwait
    simp only [txStep, hpc] at hs
    cases hs
    exact { h with
      txLock := by simpa [Edge.goTx, hpc, TxPc.locked] using h.txLock
      announced := by simp [Edge.goTx, TxPc.announced]
      waits := by cases reached <;> exact hwait
      txAlive := by simpa [Edge.goTx, hpc] using h.txAlive
      handsOff := fun _ => trivial }
  | release reached w =>
    rw [hpc] at hwait hfit
    have hlock : e.lock = some .tx := h.txLock.2 (by rw [hpc]; rfl)
    have hrx : e.rx.pc.locked = false := by simpa [hlock] using h.rxLock
    have hw : w.Fits capacity e.tx.sent := by
      cases reached with
      | false => exact hfit
      | true => exact hfit.1
    simp only [txStep, hpc] at hs
    cases hs
    exact { h with
      txLock := by simp [Edge.goTx, waited_locked]
      rxLock := by simp [Edge.goTx, hrx]
      announced := by simp [Edge.goTx, waited_announced]
      waits := waited_waits ..
      txAlive := by simpa [Edge.goTx, hpc, waited_ne_gone] using h.txAlive
      handsOff := fun _ => waited_handsOff reached hw (fun hr => by subst hr; exact hfit.2)
        fun hr => by subst hr; exact hwait }

theorem Handshake.goRx {e : Edge M} (h : Handshake capacity e) (pc : RxPc M)
    (hl : pc.locked = e.rx.pc.locked)
    (hw : e.tx.pc.Waits e.received e.closed e.woken pc.notifying)
    (hc : pc.closing = e.rx.pc.closing)
    (hu : pc.caughtUp = true → e.rx.published = e.rx.received)
    (hg : pc = .gone ↔ e.rx.pc = .gone)
    (hd : pc = .result .disconnected → e.chan = [] ∧ e.txAlive = false) :
    Handshake capacity (e.goRx pc) where
  __ := h
  rxLock := h.rxLock.trans (by simp only [Edge.goRx, hl])
  waits := hw
  closed := h.closed.trans hc.symm
  caughtUp := hu
  rxAlive := h.rxAlive.trans hg.symm
  drained := hd

/-- A store to `received` or `closed` is followed by a notification. -/
theorem Waits.notifying {pc : TxPc M} {received received' : Nat} {closed closed' woken n : Bool}
    (h : pc.Waits received closed woken n) (hc : closed = true → closed' = true) :
    pc.Waits received' closed' woken true := by
  cases pc with
  | checkClosed | park => exact fun _ => rfl
  | parked => exact fun _ _ => rfl
  | retract reached w | release reached w =>
    cases reached with
    | true => trivial
    | false => exact hc h
  | _ => trivial

/-- No notification is owed to a sender that did not announce its wait. -/
theorem Waits.unannounced {pc : TxPc M} {received : Nat} {closed woken n : Bool}
    (h : pc.Waits received closed woken n) (ha : pc.announced = false) (n' : Bool) :
    pc.Waits received closed woken n' := by
  cases pc with
  | checkClosed | park | parked => cases ha
  | retract reached | release reached => cases reached <;> exact h
  | _ => exact h

/-- The receiver holds the lock: the sender either sleeps or has not looked yet. -/
theorem Waits.unlocked {pc : TxPc M} {received : Nat} {closed woken : Bool}
    (hl : pc.locked = false) (hp : ∀ w, pc ≠ .parked w) (n : Bool) :
    pc.Waits received closed woken n := by
  cases pc with
  | parked w => exact absurd rfl (hp w)
  | checkClosed | park | retract | release => cases hl
  | _ => trivial

theorem HandsOff.mono {pc : TxPc M} {sent received received' : Nat} {closed closed' : Bool}
    (h : pc.HandsOff sent received closed) (hr : received ≤ received')
    (hc : closed = true → closed' = true) : pc.HandsOff sent received' closed' := by
  cases pc with
  | result r msg =>
    cases r with
    | ok => exact h.imp (fun hle => Nat.le_trans hle hr) hc
    | _ => trivial
  | hasRoom trying | inFlight trying | push trying => cases trying <;> trivial
  | _ => trivial

theorem published_locked (k : After M) : (Edge.published k).locked = false := by
  cases k <;> rfl

theorem published_notifying (k : After M) : (Edge.published k).notifying = false := by
  cases k <;> rfl

theorem published_ne_gone (k : After M) : Edge.published k ≠ .gone := by
  cases k <;> simp [Edge.published]

theorem published_not_disconnected (k : After M) :
    Edge.published k ≠ .result .disconnected := by
  cases k <;> simp [Edge.published]

theorem Handshake.take {e : Edge M} (h : Handshake capacity e) (hl : e.rx.pc.locked = false)
    (hn : e.rx.pc.notifying = false) (hc : e.rx.pc.closing = false) (hg : e.rx.pc ≠ .gone) :
    Handshake capacity (e.take msg rest) :=
  { h with
    rxLock := h.rxLock.trans (by simp only [hl]; rfl)
    waits := by
      have hw := h.waits
      rw [hn] at hw
      exact hw
    closed := h.closed.trans hc
    caughtUp := by simp [Edge.take, RxPc.caughtUp]
    rxAlive := by simpa [Edge.take, hg] using h.rxAlive
    drained := by simp [Edge.take] }

theorem Handshake.rx {e e' : Edge M} (h : Handshake capacity e) (hf : Flow capacity e)
    (hs : e.rxStep capacity = some e') : Handshake capacity e' := by
  have hwait := h.waits
  have hup := h.caughtUp
  cases hpc : e.rx.pc with
  | idle | result | gone => simp [rxStep, hpc] at hs
  | tryRecv mode =>
    rw [hpc] at hwait
    simp only [rxStep, hpc] at hs
    split at hs
    · cases hs
      exact h.take (by rw [hpc]; rfl) (by rw [hpc]; rfl) (by rw [hpc]; rfl) (by simp [hpc])
    · rename_i hempty
      split at hs
      · split at hs <;> cases hs
        · exact h.goRx _ (by rw [hpc]; rfl) hwait (by rw [hpc]; rfl) (by simp [RxPc.caughtUp])
            (by simp [hpc]) (by simp)
        · rename_i heq
          exact h.goRx _ (by rw [hpc]; rfl) hwait (by rw [hpc]; rfl)
            (fun _ => not_not.1 heq) (by simp [hpc]) (by simp)
      · rename_i hgone
        cases hs
        exact h.goRx _ (by rw [hpc]; rfl) hwait (by rw [hpc]; rfl) (by simp [RxPc.caughtUp])
          (by simp [hpc]) fun _ => ⟨hempty, by simpa using hgone⟩
  | took msg =>
    rw [hpc] at hwait
    simp only [rxStep, hpc] at hs
    split at hs <;> cases hs <;>
      exact h.goRx _ (by rw [hpc]; rfl) hwait (by rw [hpc]; rfl) (by simp [RxPc.caughtUp])
        (by simp [hpc]) (by simp)
  | publish k =>
    simp only [rxStep, hpc] at hs
    cases hs
    have hle : e.received ≤ e.rx.received := hf.published ▸ hf.published_le
    exact { h with
      rxLock := by simpa [hpc, RxPc.locked] using h.rxLock
      waits := Waits.notifying hwait id
      closed := by cases k <;> simpa [hpc, RxPc.closing] using h.closed
      caughtUp := fun _ => rfl
      rxAlive := by simpa [hpc] using h.rxAlive
      drained := by simp
      handsOff := fun h0 => HandsOff.mono (h.handsOff h0) hle id }
  | loadWaiting k =>
    rw [hpc] at hwait hup
    simp only [rxStep, hpc] at hs
    split at hs <;> cases hs
    · exact h.goRx _ (by rw [hpc]; rfl) hwait (by rw [hpc]; cases k <;> rfl)
        (by cases k <;> exact hup) (by simp [hpc]) (by simp)
    · rename_i hwaiting
      have hann : e.tx.pc.announced = false := by
        simpa [hwaiting] using mt h.announced
      exact h.goRx _ (by rw [hpc, published_locked]; rfl) (Waits.unannounced hwait hann _)
        (by rw [hpc]; cases k <;> rfl) (by cases k <;> exact hup)
        (by simp [hpc, published_ne_gone]) (by simp [published_not_disconnected])
  | lock k =>
    rw [hpc] at hwait hup
    simp only [rxStep, hpc] at hs
    split at hs <;> cases hs
    rename_i hfree
    have htx : e.tx.pc.locked = false := by simpa [hfree] using h.txLock
    exact { h with
      txLock := by simp [Edge.goRx, htx]
      rxLock := by simp [Edge.goRx, RxPc.locked]
      waits := hwait
      closed := by cases k <;> simpa [Edge.goRx, hpc, RxPc.closing] using h.closed
      caughtUp := by cases k <;> exact hup
      rxAlive := by simpa [Edge.goRx, hpc] using h.rxAlive
      drained := by simp [Edge.goRx] }
  | notify k =>
    rw [hpc] at hup
    have hlock : e.lock = some .rx := h.rxLock.2 (by rw [hpc]; rfl)
    have htx : e.tx.pc.locked = false := by simpa [hlock] using h.txLock
    simp only [rxStep, hpc] at hs
    split at hs <;> cases hs
    · rename_i w hparked
      exact { h with
        rxLock := by simpa [Edge.goRx, hpc, RxPc.locked] using h.rxLock
        waits := by
          simp only [Edge.goRx, hparked]
          exact fun hw => by cases hw
        closed := by cases k <;> simpa [Edge.goRx, hpc, RxPc.closing] using h.closed
        caughtUp := by cases k <;> exact hup
        rxAlive := by simpa [Edge.goRx, hpc] using h.rxAlive
        drained := by simp [Edge.goRx] }
    · rename_i hparked
      exact h.goRx _ (by rw [hpc]; rfl) (Waits.unlocked htx hparked _)
        (by rw [hpc]; cases k <;> rfl) (by cases k <;> exact hup) (by simp [hpc]) (by simp)
  | unlock k =>
    rw [hpc] at hwait hup
    have hlock : e.lock = some .rx := h.rxLock.2 (by rw [hpc]; rfl)
    have htx : e.tx.pc.locked = false := by simpa [hlock] using h.txLock
    simp only [rxStep, hpc] at hs
    cases hs
    exact { h with
      txLock := by simp [Edge.goRx, htx]
      rxLock := by simp [Edge.goRx, published_locked]
      waits := (published_notifying k).symm ▸ hwait
      closed := h.closed.trans (by rw [hpc]; cases k <;> rfl)
      caughtUp := by cases k <;> exact hup
      rxAlive := by simpa [Edge.goRx, hpc, published_ne_gone] using h.rxAlive
      drained := by simp [Edge.goRx, published_not_disconnected] }
  | waiting mode =>
    rw [hpc] at hwait
    simp only [rxStep, hpc] at hs
    split at hs
    · cases hs
      exact h.take (by rw [hpc]; rfl) (by rw [hpc]; rfl) (by rw [hpc]; rfl) (by simp [hpc])
    · rename_i hempty
      split at hs <;> cases hs
      rename_i hgone
      exact h.goRx _ (by rw [hpc]; rfl) hwait (by rw [hpc]; rfl) (by simp [RxPc.caughtUp])
        (by simp [hpc]) fun _ => ⟨hempty, by simpa using hgone⟩
  | close =>
    simp only [rxStep, hpc] at hs
    cases hs
    exact { h with
      rxLock := by simpa [Edge.goRx, hpc, RxPc.locked] using h.rxLock
      waits := Waits.notifying hwait fun _ => rfl
      closed := rfl
      caughtUp := by simp [Edge.goRx, RxPc.caughtUp]
      rxAlive := by simpa [Edge.goRx, hpc] using h.rxAlive
      drained := by simp [Edge.goRx]
      handsOff := fun h0 => HandsOff.mono (h.handsOff h0) (Nat.le_refl _) fun _ => rfl }
  | dropField =>
    rw [hpc] at hwait
    simp only [rxStep, hpc] at hs
    cases hs
    exact { h with
      rxLock := by simpa [Edge.goRx, hpc, RxPc.locked] using h.rxLock
      waits := hwait
      closed := by simpa [Edge.goRx, hpc, RxPc.closing] using h.closed
      caughtUp := by simp [Edge.goRx, RxPc.caughtUp]
      rxAlive := by simp [Edge.goRx]
      drained := by simp [Edge.goRx] }

theorem Handshake.step {e e' : Edge M} (h : Handshake capacity e) (hf : Flow capacity e)
    (hs : Step capacity e e') : Handshake capacity e' := by
  cases hs with
  | tx hs => exact h.tx hf hs
  | rx hs => exact h.rx hf hs
  | spurious hs =>
    simp only [spurious] at hs
    split at hs <;> cases hs
    rename_i w hpc
    exact { h with
      txLock := by simpa [Edge.goTx, hpc, TxPc.locked] using h.txLock
      announced := by simp [Edge.goTx, TxPc.announced]
      waits := trivial
      txAlive := by simpa [Edge.goTx, hpc] using h.txAlive
      handsOff := fun _ => trivial }
  | timeOut hs =>
    have hwait := h.waits
    simp only [timeOut] at hs
    split at hs <;> cases hs
    rename_i hpc
    rw [hpc] at hwait
    exact h.goRx _ (by rw [hpc]; rfl) hwait (by rw [hpc]; rfl) (by simp [RxPc.caughtUp])
      (by simp [hpc]) (by simp)
  | callSend hpc trying msg =>
    cases trying <;>
      exact h.goTx _ (by rw [hpc]; rfl) (by simp [TxPc.announced]) trivial (by simp [hpc])
        fun _ => trivial
  | returnSend hpc =>
    have hgo := h.goTx .idle (by rw [hpc]; rfl) (by simp [TxPc.announced]) trivial
      (by simp [hpc]) fun _ => trivial
    exact { hgo with }
  | dropSender hpc =>
    exact { h with
      txLock := by simpa [dropSender, Edge.goTx, hpc, TxPc.locked] using h.txLock
      announced := by simp [dropSender, Edge.goTx, TxPc.announced]
      waits := trivial
      txAlive := by simp [dropSender, Edge.goTx]
      drained := fun hr => ⟨(h.drained hr).1, rfl⟩
      handsOff := fun _ => trivial }
  | callRecv hpc mode =>
    have hwait := h.waits
    rw [hpc] at hwait
    exact h.goRx _ (by rw [hpc]; rfl) hwait (by rw [hpc]; rfl) (by simp [RxPc.caughtUp])
      (by simp [hpc]) (by simp)
  | returnRecv hpc =>
    have hwait := h.waits
    rw [hpc] at hwait
    have hgo := h.goRx .idle (by rw [hpc]; rfl) hwait (by rw [hpc]; rfl)
      (by simp [RxPc.caughtUp]) (by simp [hpc]) (by simp)
    exact { hgo with }
  | dropReceiver hpc =>
    have hwait := h.waits
    rw [hpc] at hwait
    exact h.goRx _ (by rw [hpc]; rfl) hwait (by rw [hpc]; rfl) (by simp [RxPc.caughtUp])
      (by simp [hpc]) (by simp)

theorem Reachable.handshake {e : Edge M} (h : Reachable capacity e) : Handshake capacity e := by
  induction h with
  | init => exact handshake_edge capacity
  | step hr hs ih => exact ih.step hr.flow hs

end Edge

end PipeIo
