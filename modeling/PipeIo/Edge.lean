import Mathlib.Order.Basic
import Mathlib.Data.List.Basic

namespace PipeIo
set_option autoImplicit true

/-- What `EdgeSender::wait_until` is called for: to make room before pushing `msg`, or, on a
hand-off edge, for the receiver to take the `msg` just pushed. -/
inductive Wait (M : Type) where
  | room (target : Nat) (msg : M)
  | handOff (target : Nat) (msg : M)
  deriving DecidableEq, Repr

def Wait.target : Wait M → Nat
  | .room t _ => t
  | .handOff t _ => t

/-- Results of `send` (`Ok(())` or `Disconnected`) and `try_send` (`Ok(true)`, `Ok(false)`
or `Disconnected`). -/
inductive SendResult where
  | ok | full | disconnected
  deriving DecidableEq, Repr

/-- Where the sender thread stands inside `EdgeSender`; one constructor for each atomic
access. The flag `trying` tells `try_send` from `send`. -/
inductive TxPc (M : Type) where
  | idle
  | tryClosed (msg : M)
  | hasRoom (trying : Bool) (msg : M)
  | inFlight (trying : Bool) (msg : M)
  | push (trying : Bool) (msg : M)
  | spinReceived (round : Nat) (w : Wait M)
  | spinClosed (round : Nat) (w : Wait M)
  | acquire (w : Wait M)
  | announce (w : Wait M)
  | checkReceived (w : Wait M)
  | checkClosed (w : Wait M)
  | park (w : Wait M)
  | parked (w : Wait M)
  | retract (reached : Bool) (w : Wait M)
  | release (reached : Bool) (w : Wait M)
  | result (r : SendResult) (msg : M)
  | gone
  deriving DecidableEq, Repr

/-- Whether the receiver's blocking call is `recv` or `recv_timeout`. -/
inductive RecvMode where
  | block | timeout
  deriving DecidableEq, Repr

/-- What the receiver does once `publish` (or the notification in `Drop`) is over. -/
inductive After (M : Type) where
  | give (msg : M)
  | wait (mode : RecvMode)
  | drop
  deriving DecidableEq, Repr

/-- Results of `recv` and `recv_timeout`. -/
inductive RecvResult (M : Type) where
  | msg (m : M)
  | timedOut
  | disconnected
  deriving DecidableEq, Repr

/-- Where the receiver thread stands inside `EdgeReceiver`. -/
inductive RxPc (M : Type) where
  | idle
  | tryRecv (mode : RecvMode)
  | took (msg : M)
  | publish (k : After M)
  | loadWaiting (k : After M)
  | lock (k : After M)
  | notify (k : After M)
  | unlock (k : After M)
  | waiting (mode : RecvMode)
  | close
  | dropField
  | result (r : RecvResult M)
  | gone
  deriving DecidableEq, Repr

inductive Side where
  | tx | rx
  deriving DecidableEq, Repr

/-- `EdgeSender`, with the program counter of its thread. -/
structure EdgeSender (M : Type) where
  pc : TxPc M
  sent : Nat
  seen : Nat
  deriving DecidableEq, Repr

/-- `EdgeReceiver`, with the program counter of its thread. -/
structure EdgeReceiver (M : Type) where
  pc : RxPc M
  received : Nat
  published : Nat
  deriving DecidableEq, Repr

/-- One edge: the `mpsc` channel, the `Gate` both ends share (`woken` is a notification
delivered to a parked sender that has not run yet), and the two ends. The four lists at the
end are the history: everything pushed into and taken off the channel, the messages whose
`send` returned `Ok` (`try_send`: `Ok(true)`), and the messages the receiver returned. -/
structure Edge (M : Type) where
  chan : List M
  txAlive : Bool
  rxAlive : Bool
  received : Nat
  waiting : Bool
  closed : Bool
  lock : Option Side
  woken : Bool
  tx : EdgeSender M
  rx : EdgeReceiver M
  pushed : List M
  taken : List M
  accepted : List M
  returned : List M
  deriving DecidableEq, Repr

/-- `edge(capacity)`. -/
def edge : Edge M where
  chan := []
  txAlive := true
  rxAlive := true
  received := 0
  waiting := false
  closed := false
  lock := none
  woken := false
  tx := ⟨.idle, 0, 0⟩
  rx := ⟨.idle, 0, 0⟩
  pushed := []
  taken := []
  accepted := []
  returned := []

/-- `capacity.max(1)`: a capacity of 0 still lets one message in. -/
def limit (capacity : Nat) : Nat := max capacity 1

/-- The receiver publishes after this many messages. -/
def batch (capacity : Nat) : Nat := max (capacity / 16) 1

/-- The count `send` waits for: a quarter of the edge is free. -/
def roomTarget (capacity sent : Nat) : Nat := sent - limit capacity + max (limit capacity / 4) 1

namespace Edge

def goTx (e : Edge M) (pc : TxPc M) : Edge M := { e with tx := { e.tx with pc := pc } }

def goRx (e : Edge M) (pc : RxPc M) : Edge M := { e with rx := { e.rx with pc := pc } }

/-- Where `wait_until` returns to, with its result. -/
def waited : Bool → Wait M → TxPc M
  | true, .room _ msg => .push false msg
  | false, .room _ msg => .result .disconnected msg
  | _, .handOff _ msg => .result .ok msg

/-- The atomic step the sender's thread takes inside the edge; `none` while it has to wait
(for the lock, or parked without a notification) or is not inside the edge. -/
def txStep (capacity : Nat) (e : Edge M) : Option (Edge M) :=
  match e.tx.pc with
  | .idle | .result .. | .gone => none
  | .tryClosed msg =>
    if e.closed then e.goTx (.result .disconnected msg)
    else if capacity = 0 then e.goTx (.result .full msg)
    else e.goTx (.hasRoom true msg)
  | .hasRoom trying msg =>
    if e.tx.sent - e.tx.seen < limit capacity then e.goTx (.push trying msg)
    else e.goTx (.inFlight trying msg)
  | .inFlight trying msg =>
    let e := { e with tx := { e.tx with seen := e.received } }
    if e.tx.sent - e.tx.seen < limit capacity then e.goTx (.push trying msg)
    else if trying then e.goTx (.result .full msg)
    else e.goTx (.spinReceived 0 (.room (roomTarget capacity e.tx.sent) msg))
  | .push trying msg =>
    if e.rxAlive then
      let e := { e with
        chan := e.chan ++ [msg], pushed := e.pushed ++ [msg]
        tx := { e.tx with sent := e.tx.sent + 1 } }
      if trying = false ∧ capacity = 0 then e.goTx (.spinReceived 0 (.handOff e.tx.sent msg))
      else e.goTx (.result .ok msg)
    else e.goTx (.result .disconnected msg)
  | .spinReceived round w =>
    if w.target ≤ e.received then e.goTx (waited true w) else e.goTx (.spinClosed round w)
  | .spinClosed round w =>
    if e.closed then e.goTx (waited false w)
    else if round + 1 < 96 then e.goTx (.spinReceived (round + 1) w)
    else e.goTx (.acquire w)
  | .acquire w =>
    if e.lock = none then some { e.goTx (.announce w) with lock := some .tx } else none
  | .announce w => some { e.goTx (.checkReceived w) with waiting := true }
  | .checkReceived w =>
    -- re-check after announcing the wait
    if w.target ≤ e.received then e.goTx (.retract true w) else e.goTx (.checkClosed w)
  | .checkClosed w =>
    if e.closed then e.goTx (.retract false w) else e.goTx (.park w)
  | .park w =>
    -- `Condvar::wait` releases the lock and sleeps in one step
    some { e.goTx (.parked w) with lock := none, woken := false }
  | .parked w => if e.woken then some { e.goTx (.acquire w) with woken := false } else none
  | .retract reached w => some { e.goTx (.release reached w) with waiting := false }
  | .release reached w => some { e.goTx (waited reached w) with lock := none }

/-- `Condvar::wait` may also return without a notification. -/
def spurious (e : Edge M) : Option (Edge M) :=
  match e.tx.pc with
  | .parked w => some { e.goTx (.acquire w) with woken := false }
  | _ => none

/-- Where the receiver goes once a `publish` is over. -/
def published : After M → RxPc M
  | .give msg => .result (.msg msg)
  | .wait mode => .waiting mode
  | .drop => .dropField

/-- Take the front message off the channel. -/
def take (e : Edge M) (msg : M) (rest : List M) : Edge M :=
  { e with
    chan := rest, taken := e.taken ++ [msg]
    rx := { e.rx with pc := .took msg, received := e.rx.received + 1 } }

/-- The atomic step the receiver's thread takes inside the edge. -/
def rxStep (capacity : Nat) (e : Edge M) : Option (Edge M) :=
  match e.rx.pc with
  | .idle | .result _ | .gone => none
  | .tryRecv mode =>
    match e.chan with
    | msg :: rest => e.take msg rest
    | [] =>
      if e.txAlive then
        if e.rx.published ≠ e.rx.received then e.goRx (.publish (.wait mode))
        else e.goRx (.waiting mode)
      else e.goRx (.result .disconnected)
  | .took msg =>
    if batch capacity ≤ e.rx.received - e.rx.published then e.goRx (.publish (.give msg))
    else e.goRx (.result (.msg msg))
  | .publish k =>
    some { e with
      received := e.rx.received
      rx := { e.rx with pc := .loadWaiting k, published := e.rx.received } }
  | .loadWaiting k => if e.waiting then e.goRx (.lock k) else e.goRx (published k)
  | .lock k => if e.lock = none then some { e.goRx (.notify k) with lock := some .rx } else none
  | .notify k =>
    match e.tx.pc with
    | .parked _ => some { e.goRx (.unlock k) with woken := true }
    | _ => e.goRx (.unlock k)
  | .unlock k => some { e.goRx (published k) with lock := none }
  | .waiting _ =>
    match e.chan with
    | msg :: rest => e.take msg rest
    | [] => if e.txAlive then none else e.goRx (.result .disconnected)
  | .close => some { e.goRx (.loadWaiting .drop) with closed := true }
  | .dropField => some { e.goRx .gone with rxAlive := false, chan := [] }

/-- `recv_timeout` gives up. -/
def timeOut (e : Edge M) : Option (Edge M) :=
  match e.rx.pc with
  | .waiting .timeout => some (e.goRx (.result .timedOut))
  | _ => none

/-- The sender's thread enters `send` (or `try_send`). -/
def callSend (trying : Bool) (msg : M) (e : Edge M) : Edge M :=
  e.goTx (if trying then .tryClosed msg else .hasRoom false msg)

/-- The call returns to the sender's thread. -/
def returnSend (r : SendResult) (msg : M) (e : Edge M) : Edge M :=
  { e.goTx .idle with accepted := if r = .ok then e.accepted ++ [msg] else e.accepted }

/-- The sender's thread drops its end. -/
def dropSender (e : Edge M) : Edge M := { e.goTx .gone with txAlive := false }

/-- The receiver's thread enters `recv` (or `recv_timeout`). -/
def callRecv (mode : RecvMode) (e : Edge M) : Edge M := e.goRx (.tryRecv mode)

/-- The call returns to the receiver's thread. -/
def returnRecv (r : RecvResult M) (e : Edge M) : Edge M :=
  { e.goRx .idle with
    returned := match r with
      | .msg m => e.returned ++ [m]
      | _ => e.returned }

/-- The receiver's thread starts to drop its end. -/
def dropReceiver (e : Edge M) : Edge M := e.goRx .close

/-- One step of either thread: inside the edge, or entering or leaving it. -/
inductive Step (capacity : Nat) : Edge M → Edge M → Prop where
  | tx (h : e.txStep capacity = some e') : Step capacity e e'
  | spurious (h : e.spurious = some e') : Step capacity e e'
  | rx (h : e.rxStep capacity = some e') : Step capacity e e'
  | timeOut (h : e.timeOut = some e') : Step capacity e e'
  | callSend (h : e.tx.pc = .idle) (trying : Bool) (msg : M) :
      Step capacity e (e.callSend trying msg)
  | returnSend (h : e.tx.pc = .result r msg) : Step capacity e (e.returnSend r msg)
  | dropSender (h : e.tx.pc = .idle) : Step capacity e e.dropSender
  | callRecv (h : e.rx.pc = .idle) (mode : RecvMode) : Step capacity e (e.callRecv mode)
  | returnRecv (h : e.rx.pc = .result r) : Step capacity e (e.returnRecv r)
  | dropReceiver (h : e.rx.pc = .idle) : Step capacity e e.dropReceiver

/-- The states an edge of this capacity can be in, whatever its two threads call and
however they interleave. -/
inductive Reachable (capacity : Nat) : Edge M → Prop where
  | init : Reachable capacity edge
  | step (h : Reachable capacity e) (hs : Step capacity e e') : Reachable capacity e'

end Edge

end PipeIo
