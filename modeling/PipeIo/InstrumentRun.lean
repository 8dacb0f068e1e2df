import PipeIo.Instrument

namespace PipeIo
set_option autoImplicit true

open Lib

variable {X Y H σ α : Type}

section First

variable {R : FirstError → FirstError → Prop}

theorem alike_offer (error : Error) (observer observer' : Bool) :
    Alike Eq (FirstError.offer error observer : Code X Y H FirstError Unit)
      (FirstError.offer error observer') := by
  refine Act.Agree.get.bind fun first first' h => ?_
  subst h
  cases first with
  | none => exact Act.Agree.modify fun _ _ _ => rfl
  | some e => exact alike_emitEvent _ _ _ _

theorem alike_offer_result (result : Except Error Unit) (observer observer' : Bool) :
    Alike Eq (FirstError.offer_result result observer : Code X Y H FirstError Unit)
      (FirstError.offer_result result observer') := by
  rcases result with e | ⟨⟨⟩⟩
  · exact alike_offer e observer observer'
  · exact Act.Agree.value ()

theorem alike_offer_halt (result : Except Halt Unit) (observer observer' : Bool) :
    Alike Eq (FirstError.offer_halt result observer : Code X Y H FirstError Unit)
      (FirstError.offer_halt result observer') := by
  rcases result with (e | _) | ⟨⟨⟩⟩
  · exact alike_offer e observer observer'
  · exact Act.Agree.value ()
  · exact Act.Agree.value ()

end First

/-- A handle that is never fired makes no difference. -/
theorem alike_is_cancelled {R : σ → τ → Prop} (armed armed' : Bool) :
    Alike R (is_cancelled armed : Code X Y H σ Bool) (is_cancelled armed') := by
  have hfalse : Alike R (pure false : Code X Y H σ Bool) (pure false) := Act.Agree.value false
  have hright : Alike R (pure false : Code X Y H σ Bool) (is_cancelled armed') := by
    cases armed' with
    | false => exact hfalse
    | true =>
      refine fun s s' h => .right trivial fun a ha => ?_
      obtain rfl : a = false := ha
      exact hfalse s s' h
  cases armed with
  | false => exact hright
  | true =>
    refine fun s s' h => .left trivial fun a ha => ?_
    obtain rfl : a = false := ha
    exact hright s s' h

/-- Two runners of one run under different instrumentation. -/
structure Runner.Alike (r r' : Runner σ) : Prop where
  source_id : r.source_id = r'.source_id
  chain : r.chain = r'.chain
  ctx : r.ctx.Alike r'.ctx
  owns_dlq : r.owns_dlq = r'.owns_dlq
  live : r.live = r'.live
  source_closed : r.source_closed = r'.source_closed
  dlq_finished : r.dlq_finished = r'.dlq_finished
  segments_done : r.segments_done = r'.segments_done

namespace Runner

variable {c : StageFn X Y X}

/-- Two runners with the same next to them. -/
def Beside (s s' : Runner σ × ρ) : Prop := s.1.Alike s'.1 ∧ s.2 = s'.2

theorem Alike.counted {r r' : Runner σ} (h : r.Alike r') (f : Tally → Tally) :
    Alike { r with ctx.tally := f r.ctx.tally } { r' with ctx.tally := f r'.ctx.tally } :=
  { h with ctx := ⟨congrArg f h.ctx.tally, h.ctx.dlq⟩ }

theorem alike_chainFn (hc : c.Alike) (op : StageOp X) :
    PipeIo.Alike Alike (chainFn c op) (chainFn c op) := by
  refine (alike_note _).next fun _ => Act.Agree.get.bind fun r r' h => ?_
  rw [h.chain]
  cases r'.chain with
  | none => exact Act.Agree.value 0
  | some s =>
    refine Act.Agree.next (Act.Agree.attempt (Act.Agree.zoom (hc op) ?_ ?_)) fun result => ?_
    · exact fun _ _ _ => ⟨rfl, h.ctx⟩
    · exact fun _ _ t t' hs ht => { hs with chain := congrArg some ht.1, ctx := ht.2 }
    · cases result with
      | ok written => exact Act.Agree.value written
      | error halt => exact (alike_note _).next fun _ => Act.Agree.halt halt

theorem alike_call (hc : c.Alike) (op : StageOp X) :
    PipeIo.Alike Alike (call c op) (call c op) := by
  refine (alike_chainFn hc op).next fun written => Act.Agree.modify fun r r' h => ?_
  exact h.counted fun t => { t with items_out := t.items_out + written }

theorem alike_pull (idle_tick : Option Duration) :
    PipeIo.Alike Alike (pull idle_tick : Code X Y Error (Runner σ) _) (pull idle_tick) := by
  have hfail : ∀ e : BoxError, PipeIo.Alike Alike
      (do Act.halt (.source (← Act.get).source_id e) : Code X Y Error (Runner σ) (Pull X))
      (do Act.halt (.source (← Act.get).source_id e)) := by
    intro e
    refine Act.Agree.get.bind fun r r' h => ?_
    rw [h.source_id]
    exact Act.Agree.halt _
  cases idle_tick with
  | none =>
    refine (alike_request _ (by exact not_false)).next fun a => (alike_outcome a).next fun pulled => ?_
    cases pulled with
    | ok pulled => exact Act.Agree.value _
    | error e => exact hfail e
  | some timeout =>
    refine (alike_request _ (by exact not_false)).next fun a => (alike_outcome a).next fun pulled => ?_
    cases pulled with
    | ok pulled => exact Act.Agree.value pulled
    | error e => exact hfail e

theorem alike_tick (hc : c.Alike) : PipeIo.Alike Alike (tick c) (tick c) :=
  Act.Agree.get.bind fun _ _ _ => agree_emit _ _ _ _ (alike_call hc .tick)

theorem alike_step (hc : c.Alike) (idle_tick : Option Duration) :
    PipeIo.Alike Alike (step c idle_tick) (step c idle_tick) := by
  refine ((alike_pull idle_tick).mapHalt _).next fun pulled => ?_
  cases pulled with
  | done => exact Act.Agree.value _
  | idle => exact (alike_tick hc).next fun _ => Act.Agree.value _
  | item item =>
    refine Act.Agree.next (Act.Agree.modify fun r r' h => ?_) fun _ => ?_
    · exact h.counted fun t => { t with items_in := t.items_in + 1 }
    · exact (alike_call hc _).next fun _ => Act.Agree.value _

/-- Code on the runner, next to something else. -/
theorem alike_beside {x y : Code X Y H (Runner σ) α} (h : PipeIo.Alike Alike x y) :
    PipeIo.Alike Beside (Act.zoom Prod.fst (fun r s => (r, s.2)) x : Code X Y H (Runner σ × ρ) α)
      (Act.zoom Prod.fst (fun r s => (r, s.2)) y) :=
  h.zoom (fun _ _ hs => hs.1) fun _ _ _ _ hs hr => ⟨hr, hs.2⟩

theorem alike_pull_loop (hc : c.Alike) (cancel cancel' : Bool) :
    PipeIo.Alike Beside (pull_loop (H := H) c cancel) (pull_loop c cancel') := by
  refine (alike_is_cancelled cancel cancel').next fun cancelled => ?_
  split
  · exact Act.Agree.value _
  refine (alike_request _ (by exact not_false)).next fun a => (alike_outcome a).next fun pulled => ?_
  rcases pulled with e | _ | item
  · refine Act.Agree.get.bind fun s s' h => ?_
    rw [h.1.source_id]
    exact Act.Agree.value _
  · exact Act.Agree.value _
  · refine Act.Agree.next (Act.Agree.modify fun s s' h => ⟨h.1, ?_⟩) fun _ => ?_
    · rw [h.2]
    refine (alike_beside (alike_chainFn hc _)).attempt.next fun r => ?_
    cases r with
    | error halt => exact Act.Agree.value _
    | ok n =>
      refine Act.Agree.next (Act.Agree.modify fun s s' h => ⟨h.1, ?_⟩) fun _ => Act.Agree.value none
      rw [h.2]

theorem alike_round (hc : c.Alike) (idle_tick : Option Duration) (cancel cancel' : Bool) :
    PipeIo.Alike Beside (round (H := H) c idle_tick cancel) (round c idle_tick cancel') := by
  cases idle_tick with
  | none => exact alike_pull_loop hc cancel cancel'
  | some timeout =>
    refine alike_beside ((alike_is_cancelled cancel cancel').next fun cancelled => ?_)
    split
    · exact Act.Agree.value _
    refine (alike_step hc _).attempt.next fun r => ?_
    rcases r with halt | _ | _ | _ <;> exact Act.Agree.value _

theorem alike_pump (hc : c.Alike) (fuel : Nat) (idle_tick : Option Duration)
    (cancel cancel' : Bool) :
    PipeIo.Alike Alike (pump (H := H) c fuel idle_tick cancel) (pump c fuel idle_tick cancel') := by
  refine Act.Agree.zoom ?_ (fun _ _ h => show Beside _ _ from ⟨h, rfl⟩)
    fun _ _ _ _ _ h => h.1
  refine ((alike_round hc idle_tick cancel cancel').repeatUntil fuel).next fun «end» => ?_
  refine Act.Agree.next (Act.Agree.modify fun s s' h => ⟨?_, rfl⟩) fun _ => Act.Agree.value «end»
  rw [h.2]
  exact h.1.counted fun t =>
    { t with items_in := t.items_in + s'.2.1, items_out := t.items_out + s'.2.2 }

section Teardown

theorem alike_onFirst {x : Bool → Code X Y H FirstError Unit}
    (hx : ∀ b b', PipeIo.Alike Eq (x b) (x b')) :
    PipeIo.Alike Beside (onFirst (σ := σ) x) (onFirst x) :=
  Act.Agree.get.bind fun s s' _ => (hx s.1.ctx.observer s'.1.ctx.observer).zoom
    (fun _ _ h => h.2) fun _ _ _ _ h ht => ⟨h.1, ht⟩

theorem alike_onDlq {x : Bool → Code X Y H Dlq α} (hx : ∀ b b', PipeIo.Alike Eq (x b) (x b')) :
    PipeIo.Alike Beside (onDlq (σ := σ) x) (onDlq x) :=
  Act.Agree.get.bind fun s s' _ => (hx s.1.ctx.observer s'.1.ctx.observer).zoom
    (fun _ _ h => h.1.ctx.dlq)
    fun _ _ _ _ h ht => ⟨{ h.1 with ctx := ⟨h.1.ctx.tally, ht⟩ }, h.2⟩

theorem alike_wait_segments :
    PipeIo.Alike Beside (wait_segments : Code X Y H (Runner σ × FirstError) Unit)
      wait_segments := by
  refine Act.Agree.get.bind fun s s' h => ?_
  rw [h.1.segments_done]
  split
  · refine Act.Agree.next (Act.Agree.modify fun _ _ h => ⟨?_, h.2⟩) fun _ => ?_
    · exact { h.1 with segments_done := rfl, chain := rfl }
    exact (alike_request .dropSender not_false).next fun _ => alike_request .waitDone not_false
  · exact Act.Agree.value ()

theorem alike_close_source :
    PipeIo.Alike Beside (close_source : Code X Y H (Runner σ × FirstError) Unit) close_source := by
  refine Act.Agree.get.bind fun s s' h => ?_
  rw [h.1.source_closed]
  split
  · exact Act.Agree.value ()
  · refine Act.Agree.next (Act.Agree.modify fun _ _ h => ⟨?_, h.2⟩) fun _ => ?_
    · exact { h.1 with source_closed := rfl }
    refine (alike_request _ (by exact not_false)).next fun a => (alike_outcome a).next fun closed => ?_
    refine Act.Agree.get.bind fun s s' h => ?_
    rw [h.1.source_id]
    exact alike_onFirst fun b b' => alike_offer_result _ b b'

theorem alike_finish_dlq :
    PipeIo.Alike Beside (finish_dlq : Code X Y H (Runner σ × FirstError) Unit) finish_dlq := by
  refine Act.Agree.get.bind fun s s' h => ?_
  dsimp only
  rw [h.1.owns_dlq, h.1.dlq_finished]
  split
  · refine (alike_onDlq fun b b' => alike_dlq_finish b b').attempt.next fun finished => ?_
    refine Act.Agree.next (Act.Agree.modify fun _ _ h => ⟨?_, h.2⟩) fun _ => ?_
    · exact { h.1 with dlq_finished := rfl }
    exact alike_onFirst fun b b' => alike_offer_result finished b b'
  · exact Act.Agree.value ()

theorem alike_closed :
    PipeIo.Alike Beside (do
      close_rest
      Act.modify fun s => ({ s.1 with live := false }, s.2) :
        Code X Y H (Runner σ × FirstError) Unit) (do
      close_rest
      Act.modify fun s => ({ s.1 with live := false }, s.2)) := by
  have hrest : PipeIo.Alike Beside (close_rest : Code X Y H (Runner σ × FirstError) Unit)
      close_rest :=
    alike_wait_segments.next fun _ => alike_close_source.next fun _ => alike_finish_dlq
  exact hrest.next fun _ => Act.Agree.modify fun _ _ h => ⟨{ h.1 with live := rfl }, h.2⟩

theorem alike_abort (hc : c.Alike) : PipeIo.Alike Beside (abort (H := H) c) (abort c) := by
  refine (alike_beside (alike_call hc .abort)).attempt.next fun aborted => ?_
  exact (alike_onFirst fun b b' => alike_offer_halt aborted b b').next fun _ => alike_closed

theorem alike_finish (hc : c.Alike) : PipeIo.Alike Beside (finish (H := H) c) (finish c) := by
  refine (alike_beside (alike_call hc .flush)).attempt.next fun flushed => ?_
  rcases flushed with halt | ⟨⟨⟩⟩
  · refine (alike_onFirst fun b b' => alike_offer_halt (.error halt) b b').next fun _ => ?_
    refine (alike_beside (alike_call hc .abort)).attempt.next fun aborted => ?_
    exact (alike_onFirst fun b b' => alike_offer_halt aborted b b').next fun _ => alike_closed
  · refine (alike_beside (alike_call hc .close)).attempt.next fun closed => ?_
    exact (alike_onFirst fun b b' => alike_offer_halt closed b b').next fun _ => alike_closed

theorem alike_retries (hc : c.Alike) (n : Nat) :
    PipeIo.Alike Beside (retries (H := H) c n) (retries c n) := by
  induction n with
  | zero => exact Act.Agree.value ()
  | succ n ih =>
    refine Act.Agree.get.bind fun s s' h => ?_
    rw [h.1.live]
    split
    · exact (alike_abort hc).contain.next fun _ => ih
    · exact Act.Agree.value ()

theorem alike_drop (hc : c.Alike) : PipeIo.Alike Alike (drop (H := H) c) (drop c) := by
  refine Act.Agree.get.bind fun r r' h => ?_
  rw [h.live]
  split
  · refine Act.Agree.zoom ?_ (fun _ _ h => show Beside _ _ from ⟨h, rfl⟩)
      fun _ _ _ _ _ h => h.1
    refine (alike_retries hc 6).next fun _ => Act.Agree.get.bind fun s s' h => ?_
    rw [h.2]
    generalize FirstError.into_result s'.2 = result
    rcases result with e | ⟨⟨⟩⟩
    · refine Act.Agree.get.bind fun s s' h => ?_
      exact (alike_emitEvent _ _ _ _).contain.next fun _ => Act.Agree.value ()
    · exact Act.Agree.value ()
  · exact Act.Agree.value ()

end Teardown

end Runner

end PipeIo
