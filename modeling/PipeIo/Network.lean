import Mathlib.Logic.Function.Basic
import PipeIo.EdgeSpec
import PipeIo.Threaded

namespace PipeIo
set_option autoImplicit true

open Lib Function

/-- A thread: not spawned, in the middle of its task, or ended. -/
inductive Thread (t : Task X Y) where
  | ready
  | running (p : Prog (Eff X Y) Ans (t.S ⊕ Exit))
  | finished (exit : Exit)

/-- Requests that user code, the clock or the cancellation flag answers. -/
def Eff.Outside : Eff X Y → Prop
  | .pull | .pullTimeout _ | .closeSource | .write _ | .flush | .close | .deadLetter _
  | .observe _ | .isCancelled | .sleep _ | .note _ => True
  | _ => False

/-- A thread with one of its requests and the answer. -/
structure Label (Ty : Nat → Type) where
  thread : Nat
  entry : Entry (Ty (thread + 1)) (Ty thread)

/-- A threaded run: its threads, the edges between them, the `done` senders dropped so far and
the shared first error. `logs` and `trace` are history: what each thread asked with the
answers, and all of that in the order it happened. -/
structure Net {Ty : Nat → Type} (w : ThreadedWiring Ty) where
  threads : (j : Nat) → Thread (w.task j)
  edges : (j : Nat) → Edge (StageOp (Ty (j + 1)))
  done : Nat → Bool
  first : FirstError
  logs : (j : Nat) → Log (Ty (j + 1)) (Ty j)
  trace : List (Label Ty)

/-- How the outside may answer: by thread, and by what the thread has asked before. -/
abbrev Outside (Ty : Nat → Type) :=
  (j : Nat) → Log (Ty (j + 1)) (Ty j) → (e : Eff (Ty (j + 1)) (Ty j)) → Ans e → Prop

/-- A step of one of the two threads inside an edge. -/
inductive Edge.Inner (capacity : Nat) : Edge M → Edge M → Prop where
  | tx (h : e.txStep capacity = some e') : Inner capacity e e'
  | spurious (h : e.spurious = some e') : Inner capacity e e'
  | rx (h : e.rxStep capacity = some e') : Inner capacity e e'
  | timeOut (h : e.timeOut = some e') : Inner capacity e e'

/-- The mode of `ChannelSegment::recv`. -/
def RecvMode.of : Option Duration → RecvMode
  | none => .block
  | some _ => .timeout

namespace Net

variable {Ty : Nat → Type} {w : ThreadedWiring Ty}

/-- All threads but the calling one wait to be spawned. -/
def init (w : ThreadedWiring Ty) : Net w where
  threads j := if j = w.n + 1 then .running ((w.task j).round (w.task j).init) else .ready
  edges _ := edge
  done _ := false
  first := none
  logs _ := []
  trace := []

def goes (net : Net w) (j : Nat) (t : Thread (w.task j)) : Net w :=
  { net with threads := update net.threads j t }

def setEdge (net : Net w) (j : Nat) (e : Edge (StageOp (Ty (j + 1)))) : Net w :=
  { net with edges := update net.edges j e }

def record (net : Net w) (j : Nat) (a : Entry (Ty (j + 1)) (Ty j)) : Net w :=
  { net with
    logs := update net.logs j (net.logs j ++ [a])
    trace := net.trace ++ [⟨j, a⟩] }

/-- The request of thread `j` gets an answer. -/
inductive Answers (out : Outside Ty) (net : Net w) :
    (j : Nat) → (e : Eff (Ty (j + 1)) (Ty j)) → Ans e → Net w → Prop where
  | outside (he : e.Outside) (ha : out j (net.logs j) e a) : Answers out net j e a net
  | sent (h : (net.edges j).tx.pc = .result r op) :
      Answers out net (j + 1) (.send op) (r = .ok : Bool)
        (net.setEdge j ((net.edges j).returnSend r op))
  | trySent (h : (net.edges j).tx.pc = .result r op) :
      Answers out net (j + 1) (.trySend op) r (net.setEdge j ((net.edges j).returnSend r op))
  | received (h : (net.edges j).rx.pc = .result r) :
      Answers out net j (.recv timeout) r (net.setEdge j ((net.edges j).returnRecv r))
  | droppedReceiver (h : (net.edges j).rx.pc = .gone) : Answers out net j .dropReceiver () net
  | droppedSender (h : (net.edges j).tx.pc = .idle) :
      Answers out net (j + 1) .dropSender () (net.setEdge j (net.edges j).dropSender)
  | noSender : Answers out net 0 .dropSender () net
  | droppedDone : Answers out net j .dropDone () { net with done := update net.done j true }
  | segmentsDone (h : ∀ i < w.n, net.done i = true) : Answers out net j .waitDone () net
  | offered : Answers out net j (.offer e) net.first.isNone
      { net with first := some (net.first.getD e) }
  | spawned (h : net.threads i = .ready) :
      Answers out net j (.spawn i) () (net.goes i (.running ((w.task i).round (w.task i).init)))
  | joined (h : net.threads i = .finished exit) : Answers out net j (.join i) exit net
  | tookFirst : Answers out net j .takeFirst net.first { net with first := none }

/-- A request of thread `j` that takes several steps inside an edge begins. -/
inductive Enters (net : Net w) : (j : Nat) → Eff (Ty (j + 1)) (Ty j) → Net w → Prop where
  | send (h : (net.edges j).tx.pc = .idle) (op : StageOp (Ty (j + 1))) :
      Enters net (j + 1) (.send op) (net.setEdge j ((net.edges j).callSend false op))
  | trySend (h : (net.edges j).tx.pc = .idle) (op : StageOp (Ty (j + 1))) :
      Enters net (j + 1) (.trySend op) (net.setEdge j ((net.edges j).callSend true op))
  | recv (h : (net.edges j).rx.pc = .idle) (timeout : Option Duration) :
      Enters net j (.recv timeout)
        (net.setEdge j ((net.edges j).callRecv (.of timeout)))
  | dropReceiver (h : (net.edges j).rx.pc = .idle) :
      Enters net j .dropReceiver (net.setEdge j (net.edges j).dropReceiver)

/-- One step of the run: some thread gets an answer, begins a call on an edge, moves inside
one, goes on to the next round of its loop, or ends. -/
inductive Step (out : Outside Ty) : Net w → Net w → Prop where
  | reply (h : net.threads j = .running (.vis e k)) (ha : Answers out net j e a net') :
      Step out net ((net'.record j ⟨e, a⟩).goes j (.running (k a)))
  | enter (h : net.threads j = .running (.vis e k)) (he : Enters net j e net') :
      Step out net net'
  | inner (h : Edge.Inner (w.capacity j) (net.edges j) e) : Step out net (net.setEdge j e)
  | round (h : net.threads j = .running (.ret (.inl s))) :
      Step out net (net.goes j (.running ((w.task j).round s)))
  | finish (h : net.threads j = .running (.ret (.inr exit))) :
      Step out net (net.goes j (.finished exit))

/-- The states of a threaded run under an outside, however its threads interleave. -/
inductive Reachable (out : Outside Ty) : Net w → Prop where
  | init : Reachable out (init w)
  | step (h : Reachable out net) (hs : Step out net net') : Reachable out net'

end Net

end PipeIo
