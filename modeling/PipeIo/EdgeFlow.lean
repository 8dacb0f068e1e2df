import PipeIo.Edge
import Mathlib.Tactic.Common

namespace PipeIo
set_option autoImplicit true

def Wait.pushed : Wait M → List M
  | .room .. => []
  | .handOff _ msg => [msg]

/-- The message that is in the channel although its `send` has not returned yet. -/
def TxPc.unreturned : TxPc M → List M
  | .result .ok msg => [msg]
  | .spinReceived _ w | .spinClosed _ w | .acquire w | .announce w | .checkReceived w
  | .checkClosed w | .park w | .parked w | .retract _ w | .release _ w => w.pushed
  | _ => []

def After.message : After M → List M
  | .give msg => [msg]
  | _ => []

/-- The message that was taken off the channel although the receiver has not returned it
yet. -/
def RxPc.unreturned : RxPc M → List M
  | .took msg | .result (.msg msg) => [msg]
  | .publish k | .loadWaiting k | .lock k | .notify k | .unlock k => k.message
  | _ => []

/-- A wait as `send` starts it: for room on a full edge, or for the message just pushed on
a hand-off edge. -/
def Wait.Fits (capacity sent : Nat) : Wait M → Prop
  | .room target _ => target = roomTarget capacity sent ∧ limit capacity ≤ sent
  | .handOff target _ => target = sent ∧ capacity = 0

/-- What the sender's thread knows about the counters where it stands. -/
def TxPc.Fits (capacity sent received : Nat) : TxPc M → Prop
  | .push _ _ => sent < received + limit capacity
  | .spinReceived _ w | .spinClosed _ w | .acquire w | .announce w | .checkReceived w
  | .checkClosed w | .park w | .parked w | .retract false w | .release false w =>
    w.Fits capacity sent
  | .retract true w | .release true w => w.Fits capacity sent ∧ w.target ≤ received
  | _ => True

theorem roomTarget_le (h : limit capacity ≤ sent) (hr : roomTarget capacity sent ≤ received) :
    sent < received + limit capacity := by
  have hpos : 1 ≤ max (limit capacity / 4) 1 := Nat.le_max_right _ _
  simp only [roomTarget] at hr
  omega

theorem roomTarget_le_sent (h : limit capacity ≤ sent) : roomTarget capacity sent ≤ sent := by
  have hone : 1 ≤ limit capacity := Nat.le_max_right _ _
  have hroom : max (limit capacity / 4) 1 ≤ limit capacity := Nat.max_le.2 ⟨Nat.div_le_self _ _, hone⟩
  simp only [roomTarget]
  omega

theorem Wait.Fits.target_le {w : Wait M} (h : w.Fits capacity sent) : w.target ≤ sent := by
  cases w with
  | room t msg => exact h.1 ▸ roomTarget_le_sent h.2
  | handOff t msg => exact Nat.le_of_eq h.1

theorem TxPc.Fits.mono {pc : TxPc M} (h : pc.Fits capacity sent received)
    (hr : received ≤ received') : pc.Fits capacity sent received' := by
  cases pc with
  | push => exact Nat.lt_of_lt_of_le h (Nat.add_le_add_right hr _)
  | retract b w | release b w =>
    cases b with
    | false => exact h
    | true => exact ⟨h.1, Nat.le_trans h.2 hr⟩
  | _ => exact h

namespace Edge

/-- The counters and histories of an edge agree, and the bound holds. -/
structure Flow (capacity : Nat) (e : Edge M) : Prop where
  sent : e.tx.sent = e.pushed.length
  received : e.rx.received = e.taken.length
  published : e.received = e.rx.published
  published_le : e.rx.published ≤ e.rx.received
  seen_le : e.tx.seen ≤ e.received
  chan : e.rxAlive = true → e.pushed = e.taken ++ e.chan
  dropped : e.rxAlive = false → e.chan = []
  taken : e.taken <+: e.pushed
  bound : e.tx.sent ≤ e.received + limit capacity
  fits : e.tx.pc.Fits capacity e.tx.sent e.received
  accepted : e.pushed = e.accepted ++ e.tx.pc.unreturned
  returned : e.taken = e.returned ++ e.rx.pc.unreturned

theorem flow_edge (capacity : Nat) : Flow capacity (edge : Edge M) := by
  constructor <;> simp [edge, TxPc.Fits, TxPc.unreturned, RxPc.unreturned]

theorem Flow.goTx {e : Edge M} (h : Flow capacity e) (pc : TxPc M)
    (hf : pc.Fits capacity e.tx.sent e.received)
    (hu : pc.unreturned = e.tx.pc.unreturned) : Flow capacity (e.goTx pc) where
  __ := h
  fits := hf
  accepted := hu ▸ h.accepted

theorem Flow.goRx {e : Edge M} (h : Flow capacity e) (pc : RxPc M)
    (hu : pc.unreturned = e.rx.pc.unreturned) : Flow capacity (e.goRx pc) where
  __ := h
  returned := hu ▸ h.returned

theorem waited_true_fits {sent received : Nat} {w : Wait M} (h : w.Fits capacity sent) (hr : w.target ≤ received) :
    (waited true w).Fits capacity sent received := by
  cases w with
  | room t msg =>
    obtain ⟨rfl, hl⟩ := h
    exact roomTarget_le hl hr
  | handOff t msg => trivial

theorem waited_false_fits {sent received : Nat} (w : Wait M) : (waited false w).Fits capacity sent received := by
  cases w <;> trivial

theorem waited_unreturned (reached : Bool) (w : Wait M) :
    (waited reached w).unreturned = w.pushed := by
  cases w <;> cases reached <;> rfl

theorem Flow.tx {e e' : Edge M} (h : Flow capacity e) (hs : e.txStep capacity = some e') :
    Flow capacity e' := by
  have hf := h.fits
  have hb := h.bound
  have hle := h.seen_le
  cases hpc : e.tx.pc with
  | idle | result | gone => simp [txStep, hpc] at hs
  | tryClosed msg =>
    simp only [txStep, hpc] at hs
    split at hs
    · cases hs
      exact h.goTx _ trivial (by rw [hpc]; rfl)
    · split at hs <;> cases hs <;> exact h.goTx _ trivial (by rw [hpc]; rfl)
  | hasRoom trying msg =>
    simp only [txStep, hpc] at hs
    split at hs <;> cases hs
    · exact h.goTx _ (by simp only [TxPc.Fits]; omega) (by rw [hpc]; rfl)
    · exact h.goTx _ trivial (by rw [hpc]; rfl)
  | inFlight trying msg =>
    have h' : Flow capacity { e with tx := { e.tx with seen := e.received } } :=
      { h with seen_le := Nat.le_refl _ }
    simp only [txStep, hpc] at hs
    split at hs
    · cases hs
      exact h'.goTx _ (by simp only [TxPc.Fits]; omega) (by simp only [hpc]; rfl)
    · split at hs <;> cases hs
      · exact h'.goTx _ trivial (by simp only [hpc]; rfl)
      · exact h'.goTx _ ⟨rfl, by simp only at *; omega⟩ (by simp only [hpc]; rfl)
  | push trying msg =>
    rw [hpc] at hf
    have hroom : e.tx.sent < e.received + limit capacity := hf
    have hacc : e.pushed = e.accepted := by simpa [hpc, TxPc.unreturned] using h.accepted
    simp only [txStep, hpc] at hs
    split at hs
    · have hpush : ∀ pc : TxPc M, pc.Fits capacity (e.tx.sent + 1) e.received →
          pc.unreturned = [msg] → Flow capacity
            { e with
              chan := e.chan ++ [msg], pushed := e.pushed ++ [msg]
              tx := { e.tx with pc := pc, sent := e.tx.sent + 1 } } := by
        intro pc hf hu
        exact { h with
          sent := by simp [h.sent]
          chan := fun ha => by simp only [h.chan ha, List.append_assoc]
          dropped := fun ha => by simp_all
          taken := h.taken.trans (List.prefix_append _ _)
          bound := hroom
          fits := hf
          accepted := by simp only [hacc, hu] }
      split at hs <;> cases hs
      · rename_i hc
        exact hpush _ ⟨rfl, hc.2⟩ rfl
      · exact hpush _ trivial rfl
    · cases hs
      exact h.goTx _ trivial (by rw [hpc]; rfl)
  | spinReceived round w =>
    rw [hpc] at hf
    simp only [txStep, hpc] at hs
    split at hs <;> cases hs
    · exact h.goTx _ (waited_true_fits hf ‹_›) (by rw [hpc, waited_unreturned]; rfl)
    · exact h.goTx _ hf (by rw [hpc]; rfl)
  | spinClosed round w =>
    rw [hpc] at hf
    simp only [txStep, hpc] at hs
    split at hs
    · cases hs
      exact h.goTx _ (waited_false_fits w) (by rw [hpc, waited_unreturned]; rfl)
    · split at hs <;> cases hs <;> exact h.goTx _ hf (by rw [hpc]; rfl)
  | checkReceived w =>
    rw [hpc] at hf
    simp only [txStep, hpc] at hs
    split at hs <;> cases hs
    · exact h.goTx _ ⟨hf, ‹_›⟩ (by rw [hpc]; rfl)
    · exact h.goTx _ hf (by rw [hpc]; rfl)
  | checkClosed w =>
    rw [hpc] at hf
    simp only [txStep, hpc] at hs
    split at hs <;> cases hs <;> exact h.goTx _ hf (by rw [hpc]; rfl)
  | acquire w =>
    rw [hpc] at hf
    simp only [txStep, hpc] at hs
    split at hs <;> cases hs
    exact { h.goTx (.announce w) hf (by rw [hpc]; rfl) with }
  | parked w =>
    rw [hpc] at hf
    simp only [txStep, hpc] at hs
    split at hs <;> cases hs
    exact { h.goTx (.acquire w) hf (by rw [hpc]; rfl) with }
  | announce w =>
    rw [hpc] at hf
    simp only [txStep, hpc] at hs
    cases hs
    exact { h.goTx (.checkReceived w) hf (by rw [hpc]; rfl) with }
  | park w =>
    rw [hpc] at hf
    simp only [txStep, hpc] at hs
    cases hs
    exact { h.goTx (.parked w) hf (by rw [hpc]; rfl) with }
  | retract b w =>
    rw [hpc] at hf
    simp only [txStep, hpc] at hs
    cases hs
    exact { h.goTx (.release b w) (by cases b <;> exact hf) (by rw [hpc]; rfl) with }
  | release b w =>
    rw [hpc] at hf
    simp only [txStep, hpc] at hs
    cases hs
    cases b with
    | false =>
      exact { h.goTx _ (waited_false_fits w) (by rw [hpc, waited_unreturned]; rfl) with }
    | true =>
      exact { h.goTx _ (waited_true_fits hf.1 hf.2) (by rw [hpc, waited_unreturned]; rfl) with }

theorem Flow.take {e : Edge M} (h : Flow capacity e) (hp : e.rx.pc.unreturned = [])
    (hc : e.chan = msg :: rest) : Flow capacity (e.take msg rest) := by
  have halive : e.rxAlive = true := by
    cases ha : e.rxAlive with
    | true => rfl
    | false => simp [h.dropped ha] at hc
  have hpushed : e.pushed = (e.taken ++ [msg]) ++ rest := by
    rw [h.chan halive, hc, List.append_assoc, List.singleton_append]
  exact { h with
    received := by simp [Edge.take, h.received]
    published_le := Nat.le_succ_of_le h.published_le
    chan := fun _ => hpushed
    dropped := fun ha => by simp [Edge.take, halive] at ha
    taken := ⟨rest, hpushed.symm⟩
    returned := by
      have hr := h.returned
      rw [hp, List.append_nil] at hr
      simp only [Edge.take, RxPc.unreturned, hr] }

theorem published_unreturned (k : After M) : (Edge.published k).unreturned = k.message := by
  cases k <;> rfl

theorem Flow.rx {e e' : Edge M} (h : Flow capacity e) (hs : e.rxStep capacity = some e') :
    Flow capacity e' := by
  cases hpc : e.rx.pc with
  | idle | result | gone => simp [rxStep, hpc] at hs
  | tryRecv mode =>
    simp only [rxStep, hpc] at hs
    split at hs
    · cases hs
      exact h.take (by rw [hpc]; rfl) ‹_›
    · split at hs
      · split at hs <;> cases hs <;> exact h.goRx _ (by rw [hpc]; rfl)
      · cases hs
        exact h.goRx _ (by rw [hpc]; rfl)
  | took msg =>
    simp only [rxStep, hpc] at hs
    split at hs <;> cases hs <;> exact h.goRx _ (by rw [hpc]; rfl)
  | publish k =>
    simp only [rxStep, hpc] at hs
    cases hs
    have hle : e.received ≤ e.rx.received := h.published ▸ h.published_le
    exact { h.goRx (.loadWaiting k) (by rw [hpc]; rfl) with
      published := rfl
      published_le := Nat.le_refl _
      seen_le := Nat.le_trans h.seen_le hle
      bound := Nat.le_trans h.bound (Nat.add_le_add_right hle _)
      fits := h.fits.mono hle }
  | loadWaiting k =>
    simp only [rxStep, hpc] at hs
    split at hs <;> cases hs
    · exact h.goRx _ (by rw [hpc]; rfl)
    · exact h.goRx _ (by rw [hpc, published_unreturned]; rfl)
  | lock k =>
    simp only [rxStep, hpc] at hs
    split at hs <;> cases hs
    exact { h.goRx (.notify k) (by rw [hpc]; rfl) with }
  | notify k =>
    simp only [rxStep, hpc] at hs
    split at hs <;> cases hs
    · exact { h.goRx (.unlock k) (by rw [hpc]; rfl) with }
    · exact h.goRx _ (by rw [hpc]; rfl)
  | unlock k =>
    simp only [rxStep, hpc] at hs
    cases hs
    exact { h.goRx (Edge.published k) (by rw [hpc, published_unreturned]; rfl) with }
  | waiting mode =>
    simp only [rxStep, hpc] at hs
    split at hs
    · cases hs
      exact h.take (by rw [hpc]; rfl) ‹_›
    · split at hs <;> cases hs
      exact h.goRx _ (by rw [hpc]; rfl)
  | close =>
    simp only [rxStep, hpc] at hs
    cases hs
    exact { h.goRx (.loadWaiting .drop) (by rw [hpc]; rfl) with }
  | dropField =>
    simp only [rxStep, hpc] at hs
    cases hs
    exact { h.goRx .gone (by rw [hpc]; rfl) with
      chan := fun ha => by simp at ha
      dropped := fun _ => rfl }

theorem Flow.step {e e' : Edge M} (h : Flow capacity e) (hs : Step capacity e e') :
    Flow capacity e' := by
  cases hs with
  | tx hs => exact h.tx hs
  | rx hs => exact h.rx hs
  | spurious hs =>
    simp only [spurious] at hs
    split at hs <;> cases hs
    rename_i w hpc
    have hf := h.fits
    rw [hpc] at hf
    exact { h.goTx (.acquire w) hf (by rw [hpc]; rfl) with }
  | timeOut hs =>
    simp only [timeOut] at hs
    split at hs <;> cases hs
    rename_i hpc
    exact h.goRx _ (by rw [hpc]; rfl)
  | callSend hpc trying msg =>
    cases trying <;> exact h.goTx _ trivial (by rw [hpc]; rfl)
  | returnSend hpc =>
    rename_i r msg
    have ha := h.accepted
    rw [hpc] at ha
    exact { h with
      fits := trivial
      accepted := by cases r <;> simpa [returnSend, Edge.goTx, TxPc.unreturned] using ha }
  | dropSender hpc => exact { h.goTx .gone trivial (by rw [hpc]; rfl) with }
  | callRecv hpc mode => exact h.goRx _ (by rw [hpc]; rfl)
  | returnRecv hpc =>
    rename_i r
    have hr := h.returned
    rw [hpc] at hr
    exact { h with
      returned := by cases r <;> simpa [returnRecv, Edge.goRx, RxPc.unreturned] using hr }
  | dropReceiver hpc => exact h.goRx _ (by rw [hpc]; rfl)

theorem Reachable.flow {e : Edge M} (h : Reachable capacity e) : Flow capacity e := by
  induction h with
  | init => exact flow_edge capacity
  | step _ hs ih => exact ih.step hs

end Edge

end PipeIo
