import PipeIo.EdgeHandshake

namespace PipeIo
set_option autoImplicit true

/-- The sender's thread is inside `try_send`. -/
def TxPc.trying : TxPc M → Bool
  | .tryClosed _ | .hasRoom true _ | .inFlight true _ | .push true _ => true
  | _ => false

namespace Edge

/-- Let the sender's thread run alone for at most `n` steps. -/
def txRun (capacity : Nat) : Nat → Edge M → Edge M
  | 0, e => e
  | n + 1, e =>
    match e.txStep capacity with
    | some e' => txRun capacity n e'
    | none => e

theorem Reachable.txRun {e : Edge M} (h : Reachable capacity e) (n : Nat) :
    Reachable capacity (e.txRun capacity n) := by
  induction n generalizing e with
  | zero => exact h
  | succ n ih =>
    simp only [Edge.txRun]
    cases hs : e.txStep capacity with
    | none => exact h
    | some e' => exact ih (h.step (.tx hs))

/-- An edge of capacity 1 whose sender went to sleep in its second `send`. -/
def asleep : Edge Nat :=
  ((((edge.callSend false 7).txRun 1 9).returnSend .ok 7).callSend false 8).txRun 1 400

theorem asleep_reachable : Reachable 1 asleep := by
  have hfirst : Reachable 1 ((edge.callSend false 7).txRun 1 9) :=
    (Reachable.init.step (.callSend rfl false 7)).txRun 9
  have hsent : ((edge.callSend false 7).txRun 1 9).tx.pc = .result .ok 7 := by decide
  exact ((hfirst.step (.returnSend hsent)).step (.callSend rfl false 8)).txRun 400

theorem Reachable.pushed_le {e : Edge M} (h : Reachable capacity e) :
    e.pushed.length ≤ e.taken.length + limit capacity := by
  have hf := h.flow
  calc e.pushed.length = e.tx.sent := hf.sent.symm
    _ ≤ e.received + limit capacity := hf.bound
    _ ≤ e.taken.length + limit capacity := by
        have hle := hf.published_le
        have hr := hf.received
        have hp := hf.published
        omega

theorem Reachable.chan_le {e : Edge M} (h : Reachable capacity e) :
    e.chan.length ≤ limit capacity := by
  have hf := h.flow
  cases ha : e.rxAlive with
  | false => simp [hf.dropped ha]
  | true =>
    have hle := h.pushed_le
    rw [hf.chan ha, List.length_append] at hle
    exact Nat.le_of_add_le_add_left hle

/-- A step of the receiver's thread leaves the sender alone. -/
theorem rxStep_frame {e e' : Edge M} (hs : e.rxStep capacity = some e') :
    e'.tx = e.tx ∧ e'.accepted = e.accepted ∧ e'.pushed = e.pushed := by
  cases hpc : e.rx.pc <;> simp only [rxStep, hpc] at hs
  all_goals repeat' (first | (cases hs; done) | (cases hs; exact ⟨rfl, rfl, rfl⟩) | split at hs)

/-- A message in the channel whose call has not returned stays so until the call returns
`Ok`. -/
theorem Step.unreturned {e e' : Edge M} (hs : Step capacity e e')
    (hu : e.tx.pc.unreturned = [msg]) :
    (e'.tx.pc.unreturned = [msg] ∧ e'.accepted = e.accepted) ∨
      (e'.tx.pc = .idle ∧ e'.accepted = e.accepted ++ [msg]) := by
  cases hs with
  | tx hs =>
    refine .inl ?_
    cases hpc : e.tx.pc with
    | idle | tryClosed | hasRoom | inFlight | push | gone => simp [hpc, TxPc.unreturned] at hu
    | result => simp [txStep, hpc] at hs
    | spinReceived round w =>
      rw [hpc] at hu
      simp only [txStep, hpc] at hs
      split at hs <;> cases hs
      · exact ⟨(waited_unreturned ..).trans hu, rfl⟩
      · exact ⟨hu, rfl⟩
    | spinClosed round w =>
      rw [hpc] at hu
      simp only [txStep, hpc] at hs
      split at hs
      · cases hs
        exact ⟨(waited_unreturned ..).trans hu, rfl⟩
      · split at hs <;> cases hs <;> exact ⟨hu, rfl⟩
    | release reached w =>
      rw [hpc] at hu
      simp only [txStep, hpc] at hs
      cases hs
      exact ⟨(waited_unreturned ..).trans hu, rfl⟩
    | acquire w | parked w | checkReceived w | checkClosed w =>
      rw [hpc] at hu
      simp only [txStep, hpc] at hs
      split at hs <;> cases hs <;> exact ⟨hu, rfl⟩
    | announce w | park w | retract reached w =>
      rw [hpc] at hu
      simp only [txStep, hpc] at hs
      cases hs
      exact ⟨hu, rfl⟩
  | spurious hs =>
    simp only [Edge.spurious] at hs
    split at hs <;> cases hs
    rename_i w hpc
    rw [hpc] at hu
    exact .inl ⟨hu, rfl⟩
  | rx hs =>
    obtain ⟨htx, hacc, -⟩ := rxStep_frame hs
    exact .inl ⟨htx ▸ hu, hacc⟩
  | timeOut hs =>
    simp only [Edge.timeOut] at hs
    split at hs <;> cases hs
    exact .inl ⟨hu, rfl⟩
  | callSend hpc | dropSender hpc => simp [hpc, TxPc.unreturned] at hu
  | returnSend hpc =>
    rename_i r m
    rw [hpc] at hu
    cases r with
    | ok =>
      cases hu
      exact .inr ⟨rfl, rfl⟩
    | _ => simp [TxPc.unreturned] at hu
  | callRecv | returnRecv | dropReceiver => exact .inl ⟨hu, rfl⟩

/-- On a hand-off edge `try_send` puts nothing into the channel. -/
theorem Reachable.trying_pushed {e e' : Edge M} (h : Reachable 0 e)
    (ht : e.tx.pc.trying = true) (hs : Step 0 e e') : e'.pushed = e.pushed := by
  have hh := h.handshake.handsOff rfl
  cases hs with
  | tx hs =>
    cases hpc : e.tx.pc with
    | tryClosed msg =>
      simp only [txStep, hpc] at hs
      split at hs <;> cases hs <;> rfl
    | hasRoom trying | inFlight trying | push trying =>
      rw [hpc] at hh ht
      cases trying with
      | true => exact hh.elim
      | false => simp [TxPc.trying] at ht
    | _ => simp [hpc, TxPc.trying] at ht
  | spurious hs =>
    simp only [spurious] at hs
    split at hs <;> cases hs
    rfl
  | rx hs => exact (rxStep_frame hs).2.2
  | timeOut hs =>
    simp only [timeOut] at hs
    split at hs <;> cases hs
    rfl
  | _ => rfl

/-- The edge is a bounded FIFO: at most `max(capacity, 1)` messages are in it; what the
receiver published it has taken; it returns the accepted messages in order, all of them
before it reports the disconnect; and on a hand-off edge the message was taken before its
`send` returns. -/
theorem Reachable.bounded_fifo {e : Edge M} (h : Reachable capacity e) :
    e.chan.length ≤ max capacity 1 ∧
    e.pushed.length ≤ e.taken.length + max capacity 1 ∧
    e.received ≤ e.taken.length ∧
    e.returned <+: e.accepted ++ e.tx.pc.unreturned ∧
    (∀ msg e', e.tx.pc.unreturned = [msg] → Step capacity e e' →
      (e'.tx.pc.unreturned = [msg] ∧ e'.accepted = e.accepted) ∨
        (e'.tx.pc = .idle ∧ e'.accepted = e.accepted ++ [msg])) ∧
    (e.rx.pc = .result .disconnected → e.tx.pc = .gone ∧ e.returned = e.accepted) ∧
    (capacity = 0 →
      (∀ msg, e.tx.pc = .result .ok msg → e.taken = e.accepted ++ [msg] ∨ e.closed = true) ∧
      (∀ e', e.tx.pc.trying = true → Step capacity e e' → e'.pushed = e.pushed)) := by
  have hf := h.flow
  have hh := h.handshake
  have hreturned : e.returned <+: e.taken := ⟨_, hf.returned.symm⟩
  refine ⟨h.chan_le, h.pushed_le, ?_, ?_, fun msg e' hu hs => hs.unreturned hu, ?_, ?_⟩
  · rw [hf.published, ← hf.received]
    exact hf.published_le
  · rw [← hf.accepted]
    exact hreturned.trans hf.taken
  · intro hd
    obtain ⟨hempty, hgone⟩ := hh.drained hd
    have htx : e.tx.pc = .gone := hh.txAlive.1 hgone
    have halive : e.rxAlive = true := by simpa [hd] using mt hh.rxAlive.1
    have htaken : e.taken = e.returned := by simpa [hd, RxPc.unreturned] using hf.returned
    have hpushed : e.pushed = e.accepted := by simpa [htx, TxPc.unreturned] using hf.accepted
    refine ⟨htx, ?_⟩
    rw [← hpushed, hf.chan halive, hempty, List.append_nil, htaken]
  · rintro rfl
    refine ⟨fun msg hpc => ?_, fun e' ht hs => h.trying_pushed ht hs⟩
    have hpushed : e.pushed = e.accepted ++ [msg] := by
      simpa [hpc, TxPc.unreturned] using hf.accepted
    have hoff := hh.handsOff rfl
    rw [hpc] at hoff
    refine hoff.imp_left fun hle => ?_
    rw [← hpushed]
    refine hf.taken.eq_of_length_le ?_
    rw [← hf.sent, ← hf.received]
    exact Nat.le_trans hle (hf.published ▸ hf.published_le)

theorem asleep_bounded_fifo : asleep.chan.length ≤ max 1 1 :=
  (Reachable.bounded_fifo asleep_reachable).1

/-- No wake-up is lost: a sender asleep without a notification waits for a count that is not
published yet, or a notification is on its way; and it never sleeps while the receiver
waits on an empty channel. -/
theorem Reachable.no_lost_wakeup {e : Edge M} (h : Reachable capacity e)
    (hpc : e.tx.pc = .parked w) (hw : e.woken = false) :
    (e.received < w.target ∧ e.closed = false ∨ e.rx.pc.notifying = true) ∧
      ∀ mode, e.rx.pc = .waiting mode → e.chan ≠ [] := by
  have hf := h.flow
  have hh := h.handshake
  have hwaits := hh.waits
  have hfits := hf.fits
  rw [hpc] at hwaits hfits
  constructor
  · cases hn : e.rx.pc.notifying with
    | true => exact .inr rfl
    | false =>
      have hnot : ¬(w.target ≤ e.received ∨ e.closed = true) := fun hor => by
        have := hwaits hw hor
        simp [hn] at this
      refine .inl ⟨Nat.lt_of_not_le fun hle => hnot (.inl hle), ?_⟩
      simpa using fun hc => hnot (.inr hc)
  · intro mode hrx hempty
    have halive : e.rxAlive = true := by simpa [hrx] using mt hh.rxAlive.1
    have hup : e.rx.published = e.rx.received := hh.caughtUp (by rw [hrx]; rfl)
    -- everything pushed has been taken and published, so the target is reached
    have hle : w.target ≤ e.received := by
      have htarget := Wait.Fits.target_le hfits
      have hchan := hf.chan halive
      rw [hempty, List.append_nil] at hchan
      rw [hf.sent, hchan, ← hf.received, ← hup, ← hf.published] at htarget
      exact htarget
    have hn := hwaits hw (.inl hle)
    simp [hrx, RxPc.notifying] at hn

theorem asleep_no_lost_wakeup :
    (asleep.received < 1 ∧ asleep.closed = false ∨ asleep.rx.pc.notifying = true) ∧
      ∀ mode, asleep.rx.pc = .waiting mode → asleep.chan ≠ [] :=
  have hpc : asleep.tx.pc = .parked (.room 1 8) := by decide +kernel
  Reachable.no_lost_wakeup asleep_reachable hpc (by decide +kernel)

/-- Inside `send` or `try_send` the sender's thread can move, or it sleeps, or it waits for
a lock whose holder can move. -/
theorem Reachable.tx_progress {e : Edge M} (h : Reachable capacity e)
    (hidle : e.tx.pc ≠ .idle) (hresult : ∀ r msg, e.tx.pc ≠ .result r msg)
    (hgone : e.tx.pc ≠ .gone) :
    (∃ e', e.txStep capacity = some e') ∨ (∃ e', e.rxStep capacity = some e') ∨
      ∃ w, e.tx.pc = .parked w ∧ e.woken = false := by
  have hh := h.handshake
  cases hpc : e.tx.pc with
  | idle => exact absurd hpc hidle
  | result r msg => exact absurd hpc (hresult r msg)
  | gone => exact absurd hpc hgone
  | parked w =>
    cases hw : e.woken with
    | false => exact .inr (.inr ⟨w, rfl, rfl⟩)
    | true => exact .inl ⟨_, by simp only [txStep, hpc, hw, if_true]; rfl⟩
  | acquire w =>
    cases hl : e.lock with
    | none => exact .inl ⟨_, by simp only [txStep, hpc, hl, if_true]; rfl⟩
    | some side =>
      cases side with
      | tx =>
        have hlock := hh.txLock.1 hl
        simp [hpc, TxPc.locked] at hlock
      | rx =>
        have hlock := hh.rxLock.1 hl
        refine .inr (.inl ?_)
        cases hrx : e.rx.pc <;> simp [hrx, RxPc.locked] at hlock
        · exact ⟨_, by simp only [rxStep, hrx, hpc]; rfl⟩
        · exact ⟨_, by simp only [rxStep, hrx]; rfl⟩
  | announce | park | retract | release => exact .inl ⟨_, by simp only [txStep, hpc]; rfl⟩
  | _ =>
    refine .inl ?_
    simp only [txStep, hpc]
    split_ifs <;> exact ⟨_, rfl⟩

/-- Inside `recv`, `recv_timeout` or `Drop` the receiver's thread can move, or it waits for
a message, or it waits for a lock whose holder can move. -/
theorem Reachable.rx_progress {e : Edge M} (h : Reachable capacity e)
    (hidle : e.rx.pc ≠ .idle) (hresult : ∀ r, e.rx.pc ≠ .result r) (hgone : e.rx.pc ≠ .gone) :
    (∃ e', e.txStep capacity = some e') ∨ (∃ e', e.rxStep capacity = some e') ∨
      ∃ mode, e.rx.pc = .waiting mode ∧ e.chan = [] ∧ e.txAlive = true := by
  have hh := h.handshake
  cases hpc : e.rx.pc with
  | idle => exact absurd hpc hidle
  | result r => exact absurd hpc (hresult r)
  | gone => exact absurd hpc hgone
  | waiting mode =>
    cases hc : e.chan with
    | cons msg rest => exact .inr (.inl ⟨_, by simp only [rxStep, hpc, hc]; rfl⟩)
    | nil =>
      cases ha : e.txAlive with
      | true => exact .inr (.inr ⟨mode, rfl, rfl, rfl⟩)
      | false => exact .inr (.inl ⟨_, by simp only [rxStep, hpc, hc, ha]; rfl⟩)
  | lock k =>
    cases hl : e.lock with
    | none => exact .inr (.inl ⟨_, by simp only [rxStep, hpc, hl, if_true]; rfl⟩)
    | some side =>
      cases side with
      | rx =>
        have hlock := hh.rxLock.1 hl
        simp [hpc, RxPc.locked] at hlock
      | tx =>
        have hlock := hh.txLock.1 hl
        refine .inl ?_
        cases htx : e.tx.pc <;> simp [htx, TxPc.locked] at hlock <;>
          simp only [txStep, htx] <;> first | exact ⟨_, rfl⟩ | (split_ifs <;> exact ⟨_, rfl⟩)
  | tryRecv mode =>
    refine .inr (.inl ?_)
    simp only [rxStep, hpc]
    split
    · exact ⟨_, rfl⟩
    · split_ifs <;> exact ⟨_, rfl⟩
  | notify k =>
    refine .inr (.inl ?_)
    simp only [rxStep, hpc]
    split <;> exact ⟨_, rfl⟩
  | took | loadWaiting =>
    refine .inr (.inl ?_)
    simp only [rxStep, hpc]
    split_ifs <;> exact ⟨_, rfl⟩
  | publish | unlock | close | dropField =>
    exact .inr (.inl ⟨_, by simp only [rxStep, hpc]; rfl⟩)

end Edge

end PipeIo
