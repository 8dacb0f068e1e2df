import PipeIo.Contract
import PipeIo.Protocol

namespace PipeIo
set_option autoImplicit true

open Lib

/-- What a thread still owns of the edges it works on, and how many threads it has spawned. -/
structure Ends where
  sender : Bool
  receiver : Bool
  done : Bool
  spawned : Nat
  deriving DecidableEq, Repr

/-- A thread that has not run yet. -/
def Ends.start : Ends := ⟨true, true, true, 0⟩

/-- What is left after a request. -/
def Ends.after (v : Ends) : Eff X Y → Ends
  | .dropSender => { v with sender := false }
  | .dropReceiver => { v with receiver := false }
  | .dropDone => { v with done := false }
  | .spawn _ => { v with spawned := v.spawned + 1 }
  | _ => v

/-- When thread `j` of a run with `n` edges may make a request: it uses an end only while it owns
it, the source thread drops its sender before it waits, and the calling thread spawns every other
one before it joins any. -/
def owning (n j : Nat) : Spec (Eff X Y) Ans Ends where
  pre e v := match e with
    | .send _ | .trySend _ => v.sender = true ∧ 0 < j ∧ j ≤ n
    | .dropSender => v.sender = true ∧ j ≤ n
    | .recv _ | .dropReceiver => v.receiver = true ∧ j < n
    | .waitDone => v.sender = false ∧ j = n
    | .spawn i => i = v.spawned ∧ i ≤ n ∧ n < j
    | .join i => v.spawned = n + 1 ∧ i ≤ n ∧ n < j
    | _ => True
  post e v _ v' := v' = v.after e

/-- Requests that have nothing to do with the edges or the other threads. -/
def Eff.Apart : Eff X Y → Prop
  | .send _ | .trySend _ | .recv _ | .dropReceiver | .dropSender | .dropDone | .waitDone
  | .spawn _ | .join _ => False
  | _ => True

theorem Eff.Apart.pre {e : Eff X Y} (he : e.Apart) (n j : Nat) (v : Ends) :
    (owning n j).pre e v := by
  cases e <;> trivial

theorem Eff.Apart.post {e : Eff X Y} (he : e.Apart) {a : Ans e} {v v' : Ends}
    (h : (owning n j).post e v a v') : v' = v := by
  cases e <;> first | exact h | cases he

/-- The chain uses the sender, and leaves all ends as they are. -/
def ownRules : Rules Unit Ends where
  pre _ _ v := v.sender = true
  post _ _ _ v _ v' := v' = v

theorem ownRules_lawful (n j : Nat) : ownRules.Lawful (owning (X := X) (Y := Y) n j) where
  quiet := by
    intro t v e hv he
    have happart : e.Apart := by
      cases e <;> trivial
    exact ⟨happart.pre n j v, fun a v' h => happart.post h⟩
  refl _ := rfl
  item _ h := h
  keep := by
    intro k t v m t' v' _ hv h
    obtain rfl := h
    exact hv
  seq := by
    intro k m t v t' v' r t'' v'' _ h h'
    exact Eq.trans h' h
  fail h := h
  crash h := h
  lift _ h _ := h

/-- A chain of a thread that owns the sender it may need. -/
def StageFn.Owns (c : StageFn X Y T) (n j : Nat) : Prop :=
  c.Obeys (owning n j) ownRules fun _ => ()

variable {X Y H σ : Type} {n j : Nat}

/-- Code that keeps what holds of the ends a thread owns. -/
abbrev Retains (n j : Nat) (I : σ → Ends → Prop) (x : Code X Y H σ α) : Prop :=
  Act.Preserves (owning n j) I (fun _ => True) x

section Helpers

variable {I : σ → Ends → Prop}

theorem retains_request (e : Eff X Y) (he : e.Apart) :
    Retains n j I (request e : Code X Y H σ (Ans e)) := by
  apply Act.Preserves.perform
  intro s v hI
  refine ⟨he.pre n j v, fun a v' h => ?_⟩
  obtain rfl := he.post h
  exact hI

theorem retains_outcome (a : Option α) :
    Retains n j I (outcome a : Code X Y H σ α) := by
  cases a with
  | none => exact Act.Preserves.panic
  | some a => exact Act.Preserves.pure a

theorem retains_note (note : Note) : Retains n j I (PipeIo.note note : Code X Y H σ Unit) :=
  retains_request _ trivial

theorem retains_emitEvent (active : Bool) (event : Event) :
    Retains n j I (emitEvent active event : Code X Y H σ Unit) := by
  cases active with
  | false => exact Act.Preserves.pure ()
  | true => exact (retains_request _ (by trivial)).bind fun a => retains_outcome a

theorem retains_is_cancelled (armed : Bool) :
    Retains n j I (is_cancelled armed : Code X Y H σ Bool) := by
  cases armed with
  | false => exact Act.Preserves.pure false
  | true => exact retains_request _ trivial

theorem retains_shared_offer (error : Error) (observer : Bool) :
    Retains n j I (SharedFirst.offer error observer : Code X Y H σ Unit) := by
  refine (retains_request _ (by trivial)).bind fun first => ?_
  split
  · exact Act.Preserves.pure ()
  · exact retains_emitEvent _ _

/-- Caught code that returns no error early goes on. -/
theorem Retains.wp_caught {x : Code X Y Empty σ α} (hx : Retains n j I x) {s : σ} {v : Ends}
    (hI : I s v) {Q : Res Empty (Option α) → σ → Ends → Prop}
    (hQ : ∀ a s' v', I s' v' → Q (.ok a) s' v') :
    Act.wp (owning n j) (Act.contain x) Q s v := by
  refine Act.Preserves.wp_caught (fun s v hI => ?_) hI hQ
  refine Act.wp_mono (hx s v hI) fun r s' v' h => ⟨h.1, ?_⟩
  exact fun e _ => e.elim

end Helpers

section Tail

theorem retains_sinkCall {I : σ → Ends → Prop} (id : StageId) (e : Option (Except BoxError Unit)) :
    Retains n j I (sinkCall id e : Code X Y Halt σ Unit) := by
  refine (retains_outcome e).bind fun r => ?_
  cases r with
  | ok u => exact Act.Preserves.pure ()
  | error e => exact Act.Preserves.halt trivial

/-- The context and the ends are what they were. -/
def Untouched (ctx : Ctx) (v : Ends) (s : τ × Ctx) (v' : Ends) : Prop := s.2 = ctx ∧ v' = v

theorem retains_flushOnce {ctx : Ctx} {v : Ends} (id : StageId) :
    Retains n j (Untouched ctx v) (flushOnce id : Code X Y Halt (SinkFlags × Ctx) Unit) := by
  refine Act.Preserves.get.bind fun s => ?_
  split
  · exact Act.Preserves.pure ()
  · refine Act.Preserves.bind (Act.Preserves.modify fun _ _ h => h) fun _ => ?_
    exact (retains_request _ (by trivial)).bind fun e => retains_sinkCall id e

theorem retains_closeOnce {ctx : Ctx} {v : Ends} (id : StageId) :
    Retains n j (Untouched ctx v) (closeOnce id : Code X Y Halt (SinkFlags × Ctx) Unit) := by
  refine Act.Preserves.get.bind fun s => ?_
  split
  · exact Act.Preserves.pure ()
  · refine Act.Preserves.bind (Act.Preserves.modify fun _ _ h => h) fun _ => ?_
    exact (retains_request _ (by trivial)).bind fun e => retains_sinkCall id e

theorem retains_sink_fn {ctx : Ctx} {v : Ends} (id : StageId) (op : StageOp Y) :
    Retains n j (Untouched ctx v) ((sink_fn id : StageFn X Y Y).call op) := by
  cases op with
  | process item =>
    refine (retains_request _ (by trivial)).bind fun e => ?_
    exact (retains_sinkCall id e).bind fun _ => Act.Preserves.pure 1
  | tick => exact Act.Preserves.pure 0
  | flush => exact (retains_flushOnce id).bind fun _ => Act.Preserves.pure 0
  | close => exact (retains_closeOnce id).bind fun _ => Act.Preserves.pure 0
  | abort =>
    refine (retains_flushOnce id).attempt.bind fun flushed => ?_
    refine (retains_closeOnce id).attempt.bind fun closed => ?_
    rcases flushed with first | ⟨⟨⟩⟩
    · rcases closed with (second | _) | ⟨⟨⟩⟩
      · refine Act.Preserves.get.bind fun _ => ?_
        exact (retains_emitEvent _ _).bind fun _ => Act.Preserves.halt trivial
      · exact Act.Preserves.halt trivial
      · exact Act.Preserves.halt trivial
    · rcases closed with e | ⟨⟨⟩⟩
      · exact Act.Preserves.halt trivial
      · exact Act.Preserves.pure 0

theorem sink_fn_owns (id : StageId) : (sink_fn id : StageFn X Y Y).Owns n j := by
  intro op s v _
  have hsame : Untouched s.2 v s v := ⟨rfl, rfl⟩
  refine Act.wp_mono (retains_sink_fn id op s v hsame) ?_
  intro r s' v' h
  obtain ⟨⟨hctx, hv⟩, -⟩ := h
  exact ⟨hv, hctx ▸ Ctx.Kept.refl _⟩

theorem send_fn_owns (hj : 0 < j) (hn : j ≤ n) : (send_fn : StageFn X Y Y).Owns n j := by
  intro op s v hv
  have hkept := Ctx.Kept.refl s.2
  have hsends : (owning n j).pre (.send op : Eff X Y) v := ⟨hv, hj, hn⟩
  cases op with
  | tick =>
    refine ⟨⟨hv, hj, hn⟩, fun r v' h => ?_⟩
    obtain rfl : v' = v := h
    cases r with
    | ok => exact ⟨rfl, hkept⟩
    | full => exact ⟨rfl, hkept⟩
    | disconnected => exact ⟨rfl, hkept⟩
  | abort =>
    refine ⟨hsends, fun r v' h => ?_⟩
    obtain rfl : v' = v := h
    exact ⟨rfl, hkept⟩
  | process | flush | close =>
    refine ⟨hsends, fun r v' h => ?_⟩
    obtain rfl : v' = v := h
    cases r with
    | true => exact ⟨rfl, hkept⟩
    | false => exact ⟨rfl, hkept⟩

end Tail

theorem ThreadedWiring.chain_owns {Ty : Nat → Type} (w : ThreadedWiring Ty) {j : Nat}
    (hj : j ≤ w.n) : (w.chain j).Owns w.n j := by
  have htail : (w.tail j).Owns w.n j := by
    cases j with
    | zero => exact sink_fn_owns w.sink_id
    | succ j => exact send_fn_owns (Nat.succ_pos j) hj
  exact (w.piece j).assemble_obeys (ownRules_lawful w.n j).sound htail

end PipeIo
