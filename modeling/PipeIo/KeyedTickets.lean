import Mathlib.Data.List.Dedup
import PipeIo.KeyedRun

namespace PipeIo
set_option autoImplicit true

open Lib

namespace KeyedWindowStage

section

variable [Timeline] {K T φ : Type}

/-- Whether `schedule` gives out a ticket. -/
def schedulings (s : KeyedWindowStage K T φ) (slot now : Nat) : Nat :=
  if (s.schedule slot now).tickets = s.tickets then 0 else 1

variable [DecidableEq K]

/-- The tickets that the loop of `expire` gives out. -/
def loop_schedulings (anchor now : Nat) : Nat → KeyedWindowStage K T φ → Nat
  | 0, _ => 0
  | fuel + 1, s =>
    match s.heap with
    | [] => 0
    | due :: rest =>
      if due.deadline > now then 0
      else
        let s := { s with heap := rest }
        match (s.entry due.slot).filter fun e => e.ticket = due.ticket with
        | none => loop_schedulings anchor now fuel s
        | some entry =>
          let s := s.modify due.slot fun e => { e with scheduled := none }
          if entry.core.deadline.any fun d => d > now then
            s.schedulings due.slot now + loop_schedulings anchor now fuel (s.schedule due.slot now)
          else
            let core := (entry.core.on_tick anchor now Emitting.emit).val
            let s := s.modify due.slot fun e => { e with core := core }
            if core.is_empty then loop_schedulings anchor now fuel (s.remove due.slot).2
            else
              s.schedulings due.slot now +
                loop_schedulings anchor now fuel (s.schedule due.slot now)

def expire_schedulings (s : KeyedWindowStage K T φ) (anchor now : Nat) : Nat :=
  loop_schedulings anchor now (s.heap.length + 1) s

/-- The tickets that one event gives out. -/
def step_schedulings (s : KeyedWindowStage K T φ) (key_fn : T → φ → K × φ) :
    WindowEvent T → Nat
  | (.item item, now) =>
    let anchor := s.anchor.getD (grid_origin s.policy now)
    let s := { s with anchor := some anchor }
    s.expire_schedulings anchor now + match (s.expire anchor now Emitting.emit).val with
      | none => 0
      | some s =>
        let (key, key_state) := key_fn item s.key_state
        let (slot, s) := ({ s with key_state := key_state }.touch key now Emitting.emit).val
        (s.deliver slot anchor now item Emitting.emit).val.schedulings slot now
  | (.tick, now) => (s.anchor.map fun anchor => s.expire_schedulings anchor now).getD 0
  | (.flush, _) => 0

/-- The tickets that a run gives out. -/
def run_schedulings (s : KeyedWindowStage K T φ) (key_fn : T → φ → K × φ) :
    List (WindowEvent T) → Nat
  | [] => 0
  | event :: events => s.step_schedulings key_fn event +
    ((s.step key_fn event).val.map fun s => s.run_schedulings key_fn events).getD 0

end

/-- The heap entries carry the first `n` tickets, each at most once; the one with the ticket of
a slot in use is the slot's own. -/
structure Ticketed (n : Nat) (s : KeyedWindowStage K T φ) : Prop where
  count : s.tickets = n
  distinct : s.heap.Pairwise fun a b => a.ticket ≠ b.ticket
  issued : ∀ d ∈ s.heap, 1 ≤ d.ticket ∧ d.ticket ≤ n
  known : ∀ i e, s.held i = some e → e.ticket ≤ n
  carried : ∀ i e d, s.held i = some e → d ∈ s.heap → d.ticket = e.ticket →
    d.slot = i ∧ e.scheduled = some d.deadline

section

variable {K T φ : Type} {s t : KeyedWindowStage K T φ} {slot now n : Nat} {order : List Nat}
  {e : KeyState K T}

/-- Nothing is held and nothing due. -/
theorem Ticketed.blank (hcount : s.tickets = n) (hheap : s.heap = [])
    (hheld : ∀ i, s.held i = none) : Ticketed n s where
  count := hcount
  distinct := by simp [hheap]
  issued := by simp [hheap]
  known i e he := by
    rw [hheld] at he
    cases he
  carried i e d he := by
    rw [hheld] at he
    cases he

/-- A heap with some of the entries. -/
theorem Ticketed.subperm (h : Ticketed n s) {heap : List Due} (hsub : heap.Subperm s.heap) :
    Ticketed n { s with heap := heap } where
  count := h.count
  distinct := by
    obtain ⟨l, hperm, hl⟩ := hsub
    exact (hperm.pairwise_iff fun hne => hne.symm).1 (h.distinct.sublist hl)
  issued d hd := h.issued d (hsub.subset hd)
  known := h.known
  carried i e d he hd := h.carried i e d he (hsub.subset hd)

/-- Slots are vacated, or taken by keys without a ticket. -/
theorem Ticketed.settle (h : Ticketed n s) (hcount : t.tickets = s.tickets) (hheap : t.heap = s.heap)
    (hheld : ∀ i e, t.held i = some e →
      e.ticket = 0 ∨ ∃ f, s.held i = some f ∧ f.ticket = e.ticket ∧ f.scheduled = e.scheduled) :
    Ticketed n t where
  count := hcount.trans h.count
  distinct := by
    rw [hheap]
    exact h.distinct
  issued := by
    rw [hheap]
    exact h.issued
  known i e he := by
    rcases hheld i e he with h0 | ⟨f, hf, ht, -⟩
    · rw [h0]
      exact Nat.zero_le n
    · rw [← ht]
      exact h.known i f hf
  carried i e d he hd hticket := by
    rw [hheap] at hd
    rcases hheld i e he with h0 | ⟨f, hf, ht, hs⟩
    · have := (h.issued d hd).1
      omega
    · rw [← hs]
      exact h.carried i f d hf hd (hticket.trans ht.symm)

/-- The heap entry of a slot is taken off, and with it the slot's schedule. -/
theorem Ticketed.popped (h : Ticketed n s) {d : Due} {rest : List Due} (hheap : s.heap = d :: rest)
    (he : s.held d.slot = some e) (ht : e.ticket = d.ticket) : Ticketed n (s.popped d.slot rest) := by
  have hrest : Ticketed n { s with heap := rest } := by
    apply h.subperm
    rw [hheap]
    exact (List.sublist_cons_self d rest).subperm
  have hdistinct := h.distinct
  rw [hheap] at hdistinct
  have hgone := (List.pairwise_cons.1 hdistinct).1
  refine ⟨hrest.count, hrest.distinct, hrest.issued, fun i f hf => ?_, fun i f x hf hx hticket => ?_⟩
  · rw [held_popped he, Function.update_apply] at hf
    split at hf
    · cases hf
      exact h.known d.slot e he
    · exact h.known i f hf
  · rw [held_popped he, Function.update_apply] at hf
    split at hf
    · cases hf
      exact absurd (ht.symm.trans hticket.symm) (hgone x hx)
    · exact hrest.carried i f x hf hx hticket

theorem Ticketed.pushed (h : Ticketed n s) (he : s.held slot = some e) (x : Nat)
    (hn : n + 1 < 2 ^ 64) : Ticketed (n + 1) (s.pushed slot x) := by
  have hnext : wrapping_succ s.tickets = n + 1 := by
    rw [h.count]
    exact Nat.mod_eq_of_lt hn
  have hperm : (s.pushed slot x).heap.Perm (⟨x, n + 1, slot⟩ :: s.heap) := by
    rw [← hnext]
    exact List.perm_orderedInsert _ _ _
  have hheld := held_pushed he x
  rw [hnext] at hheld
  refine ⟨hnext, ?_, fun d hd => ?_, fun i f hf => ?_, fun i f d hf hd hticket => ?_⟩
  · rw [hperm.pairwise_iff fun hne => hne.symm]
    refine List.pairwise_cons.2 ⟨fun d hd => ?_, h.distinct⟩
    have := (h.issued d hd).2
    exact Nat.ne_of_gt (Nat.lt_succ_of_le this)
  · rcases List.mem_cons.1 (hperm.mem_iff.1 hd) with rfl | hd
    · exact ⟨Nat.succ_pos n, Nat.le_refl _⟩
    · exact ⟨(h.issued d hd).1, Nat.le_succ_of_le (h.issued d hd).2⟩
  · rw [hheld, Function.update_apply] at hf
    split at hf
    · cases hf
      exact Nat.le_refl _
    · exact Nat.le_succ_of_le (h.known i f hf)
  · rw [hheld, Function.update_apply] at hf
    split at hf
    · rename_i hi
      cases hf
      rcases List.mem_cons.1 (hperm.mem_iff.1 hd) with rfl | hd
      · exact ⟨hi.symm, rfl⟩
      · have := (h.issued d hd).2
        have : d.ticket = n + 1 := hticket
        omega
    · rcases List.mem_cons.1 (hperm.mem_iff.1 hd) with rfl | hd
      · have := h.known i f hf
        have : n + 1 = f.ticket := hticket
        omega
      · exact h.carried i f d hf hd hticket

end

variable [Timeline] {K T φ : Type} [DecidableEq K] {s s' t u : KeyedWindowStage K T φ}
  {slot now anchor n : Nat} {order : List Nat} {e : KeyState K T} {policy : WindowPolicy}

/-- `schedule` gives out a new ticket or does nothing. -/
theorem Ticketed.schedule (h : Ticketed n s) (hc : Coherent s order) (he : s.held slot = some e)
    (hfresh : e.core.Fresh now) (hn : n + s.schedulings slot now < 2 ^ 64) :
    Ticketed (n + s.schedulings slot now) (s.schedule slot now) := by
  obtain ⟨f, hf, rfl⟩ := entry_of_held he
  have hsame : s.schedule slot now = s →
      Ticketed (n + s.schedulings slot now) (s.schedule slot now) := by
    intro heq
    rw [schedulings, heq, if_pos rfl]
    exact h
  cases hd : f.core.deadline with
  | none => exact hsame (schedule_idle hf hd)
  | some x =>
    have hlt : now < x := hfresh x hd
    by_cases hs : ∃ d ≤ x, f.scheduled = some d
    · obtain ⟨d, hle, hs⟩ := hs
      exact hsame (schedule_kept hf hd hlt hs hle)
    · have hs' : ∀ d, f.scheduled = some d → x < d := by
        intro d hd
        by_contra hle
        exact hs ⟨d, by omega, hd⟩
      obtain ⟨heap, heq, hsub, -⟩ := compact_heap_spec (pushed_coherent hc he x)
      have hpush := schedule_pushed hf hd hlt hs'
      rw [heq] at hpush
      have hticket : (s.schedule slot now).tickets = wrapping_succ s.tickets := by
        rw [hpush]
        rfl
      have hne : wrapping_succ s.tickets ≠ s.tickets := by
        rw [wrapping_succ]
        omega
      have hone : s.schedulings slot now = 1 := by
        rw [schedulings, hticket, if_neg hne]
      rw [hone] at hn ⊢
      rw [hpush]
      exact (h.pushed he x hn).subperm hsub

section Rounds

variable {d : Due} {rest : List Due} (fuel : Nat)

theorem count_stale (hheap : s.heap = d :: rest) (hd : ¬d.deadline > now)
    (hstale : ∀ e, s.held d.slot = some e → e.ticket ≠ d.ticket) :
    loop_schedulings anchor now (fuel + 1) s =
      loop_schedulings anchor now fuel { s with heap := rest } := by
  rw [loop_schedulings]
  simp only [hheap, hd, if_false, check_stale hstale]

theorem count_moved (hheap : s.heap = d :: rest) (hd : ¬d.deadline > now)
    (he : s.held d.slot = some e) (ht : e.ticket = d.ticket)
    (hany : e.core.deadline.any fun x => x > now) :
    loop_schedulings anchor now (fuel + 1) s = (s.popped d.slot rest).schedulings d.slot now +
      loop_schedulings anchor now fuel ((s.popped d.slot rest).schedule d.slot now) := by
  obtain ⟨f, hf, rfl⟩ := entry_of_held he
  have hany : f.core.deadline.any fun x => x > now := hany
  rw [loop_schedulings]
  simp only [hheap, hd, if_false, check_live hf ht, hany, if_true]
  rfl

theorem count_ticked (hheap : s.heap = d :: rest) (hd : ¬d.deadline > now)
    (he : s.held d.slot = some e) (ht : e.ticket = d.ticket)
    (hany : ¬e.core.deadline.any fun x => x > now) :
    loop_schedulings anchor now (fuel + 1) s =
      let c := (e.core.on_tick anchor now Emitting.emit).val
      if c.is_empty then loop_schedulings anchor now fuel ((s.ticked d.slot rest c).remove d.slot).2
      else (s.ticked d.slot rest c).schedulings d.slot now +
        loop_schedulings anchor now fuel ((s.ticked d.slot rest c).schedule d.slot now) := by
  obtain ⟨f, hf, rfl⟩ := entry_of_held he
  have hany : ¬f.core.deadline.any fun x => x > now := hany
  rw [loop_schedulings]
  simp only [hheap, hd, if_false, check_live hf ht, hany, Bool.false_eq_true]
  rfl

end Rounds

omit [Timeline] in
theorem tickets_remove (s : KeyedWindowStage K T φ) (slot : Nat) :
    (s.remove slot).2.tickets = s.tickets := by
  have hsame := (relinked_unlink (s := s) slot).same
  simp only [KeyedWindowStage.remove]
  split
  · exact hsame.2.2.2.2.2.1
  · exact hsame.2.2.2.2.2.1

omit [Timeline] in
theorem tickets_create (s : KeyedWindowStage K T φ) (key : K) :
    (s.create key).2.tickets = s.tickets := by
  simp only [create]
  rw [(relinked_push_back _).same.2.2.2.2.2.1]
  simp only [place]
  split <;> rfl

omit [Timeline] in
/-- A slot in use is vacated. -/
theorem Ticketed.remove (h : Ticketed n s) (hc : Coherent s order) (he : s.held slot = some e) :
    Ticketed n (s.remove slot).2 := by
  have htickets := tickets_remove s slot
  obtain ⟨f, t, hremove, -, -, hheld, hheap, -⟩ := remove_spec hc he
  rw [hremove] at htickets ⊢
  refine h.settle htickets hheap fun i g hg => .inr ?_
  rw [hheld, Function.update_apply] at hg
  split at hg
  · cases hg
  · exact ⟨g, hg, rfl, rfl⟩

omit [Timeline] [DecidableEq K] in
/-- Another core does not touch the tickets. -/
theorem Ticketed.recore (h : Ticketed n s) (he : s.held slot = some e) (c : Core T) :
    Ticketed n (s.modify slot fun e => { e with core := c }) := by
  have hheld := held_recore he c
  refine h.settle rfl rfl fun i f hf => .inr ?_
  rw [hheld, Function.update_apply] at hf
  split at hf
  · rename_i hi
    cases hf
    exact ⟨e, hi ▸ he, rfl, rfl⟩
  · exact ⟨f, hf, rfl, rfl⟩

omit [Timeline] [DecidableEq K] in
theorem Ticketed.ticked {d : Due} {rest : List Due} (h : Ticketed n s) (hheap : s.heap = d :: rest)
    (he : s.held d.slot = some e) (ht : e.ticket = d.ticket) (c : Core T) :
    Ticketed n (s.ticked d.slot rest c) := by
  have hpop := h.popped hheap he ht
  have hself : (s.popped d.slot rest).held d.slot = some { e with scheduled := none } := by
    rw [held_popped he, Function.update_self]
  exact hpop.recore hself c

/-- A round of the loop, with the tickets it gives out. -/
theorem Ticketed.round {d : Due} {rest : List Due} (hn : Ticketed n s)
    (h : Sound s order policy anchor) (hv : policy.Valid) (ha : anchor ≤ Timeline.horizon)
    (hnow : now ≤ Timeline.horizon) (hheap : s.heap = d :: rest) (hle : d.deadline ≤ now) :
    ∃ t ws k, Round anchor now s order policy t ws ∧
      (∀ fuel, (expire_loop anchor now Emitting.emit (fuel + 1) s).val =
        (expire_loop anchor now Emitting.emit fuel t).val) ∧
      (∀ fuel, loop_schedulings anchor now (fuel + 1) s =
        k + loop_schedulings anchor now fuel t) ∧
      (n + k < 2 ^ 64 → Ticketed (n + k) t) := by
  have hd : ¬d.deadline > now := Nat.not_lt_of_le hle
  by_cases hlive : ∃ e, s.held d.slot = some e ∧ e.ticket = d.ticket
  · obtain ⟨e, he, ht⟩ := hlive
    by_cases hany : e.core.deadline.any fun x => x > now
    · have hfresh : e.core.Fresh now := by
        intro x hx
        simpa [hx] using hany
      have hself : (s.popped d.slot rest).held d.slot = some { e with scheduled := none } := by
        rw [held_popped he, Function.update_self]
      refine ⟨_, [], _, h.round_moved hheap hle he ht hany hv hnow, fun fuel => ?_, fun fuel =>
        count_moved fuel hheap hd he ht hany, fun hlt => ?_⟩
      · rw [loop_moved fuel hheap hd he ht hany]
      · exact (hn.popped hheap he ht).schedule (h.popped_coherent hheap he) hself hfresh hlt
    · have hself : (s.ticked d.slot rest (e.core.on_tick anchor now Emitting.emit).val).held d.slot =
          some { e with
            core := (e.core.on_tick anchor now Emitting.emit).val, scheduled := none } := by
        rw [held_ticked he, Function.update_self]
      have hcoh := h.ticked_coherent hheap he (e.core.on_tick anchor now Emitting.emit).val
      have hticked := hn.ticked hheap he ht (e.core.on_tick anchor now Emitting.emit).val
      by_cases hempty : (e.core.on_tick anchor now Emitting.emit).val.is_empty
      · refine ⟨_, _, 0, h.round_released hheap hle he ht hany hv hnow hempty, fun fuel => ?_,
          fun fuel => ?_, fun _ => ?_⟩
        · rw [loop_ticked fuel hheap hd he ht hany]
          simp only [bind, Emitting.renamed_val, hempty, if_true]
        · rw [count_ticked fuel hheap hd he ht hany, Nat.zero_add]
          simp only [hempty, if_true]
        · exact hticked.remove hcoh hself
      · refine ⟨_, _, (s.ticked d.slot rest
          (e.core.on_tick anchor now Emitting.emit).val).schedulings d.slot now, h.round_kept hheap hle he ht hv ha hnow hempty, fun fuel => ?_,
          fun fuel => ?_, fun hlt => ?_⟩
        · rw [loop_ticked fuel hheap hd he ht hany]
          simp only [bind, Emitting.renamed_val, hempty, if_false, Bool.false_eq_true]
        · rw [count_ticked fuel hheap hd he ht hany]
          simp only [hempty, if_false, Bool.false_eq_true]
        · exact hticked.schedule hcoh hself (Core.fresh_on_tick (h.fits _ _ he) hv ha hnow) hlt
  · have hstale : ∀ e, s.held d.slot = some e → e.ticket ≠ d.ticket :=
      fun e he heq => hlive ⟨e, he, heq⟩
    refine ⟨_, [], 0, h.round_stale hheap hle hstale, fun fuel => ?_, fun fuel => ?_, fun _ => ?_⟩
    · rw [loop_stale fuel hheap hd hstale]
    · rw [count_stale fuel hheap hd hstale, Nat.zero_add]
    · apply hn.subperm
      rw [hheap]
      exact (List.sublist_cons_self d rest).subperm

theorem Ticketed.loop (hv : policy.Valid) (ha : anchor ≤ Timeline.horizon)
    (hnow : now ≤ Timeline.horizon) (fuel : Nat) (hn : Ticketed n s)
    (h : Sound s order policy anchor)
    (hlt : n + loop_schedulings anchor now fuel s < 2 ^ 64)
    (hval : (expire_loop anchor now Emitting.emit fuel s).val = some s') :
    Ticketed (n + loop_schedulings anchor now fuel s) s' := by
  induction fuel generalizing s order n with
  | zero => cases hval
  | succ fuel ih =>
    by_cases hdone : ∀ d, s.heap.head? = some d → now < d.deadline
    · rw [(h.done hdone).2 fuel] at hval
      injection hval with hval
      subst hval
      have hzero : loop_schedulings anchor now (fuel + 1) s = 0 := by
        rw [loop_schedulings]
        cases hheap : s.heap with
        | nil => rfl
        | cons d rest =>
          have hd := hdone d (by rw [hheap]; rfl)
          simp only [gt_iff_lt, hd, if_true]
      rw [hzero]
      exact hn
    · obtain ⟨d, hd⟩ := not_forall.1 hdone
      obtain ⟨hhead, hle⟩ := Classical.not_imp.1 hd
      obtain ⟨rest, hheap⟩ := List.head?_eq_some_iff.1 hhead
      obtain ⟨t, ws, k, hround, hloop, hcount, hticketed⟩ :=
        hn.round h hv ha hnow hheap (Nat.le_of_not_lt hle)
      obtain ⟨order', hsound, -⟩ := hround.rest
      rw [hcount fuel] at hlt ⊢
      rw [hloop fuel] at hval
      rw [← Nat.add_assoc] at hlt ⊢
      exact ih (hticketed (by omega)) hsound hlt hval

theorem Ticketed.expire (hv : policy.Valid) (ha : anchor ≤ Timeline.horizon)
    (hnow : now ≤ Timeline.horizon) (hn : Ticketed n s) (h : Sound s order policy anchor)
    (hlt : n + s.expire_schedulings anchor now < 2 ^ 64)
    (hval : (s.expire anchor now Emitting.emit).val = some s') :
    Ticketed (n + s.expire_schedulings anchor now) s' :=
  Ticketed.loop hv ha hnow _ hn h hlt hval

theorem Ticketed.make_room (hn : Ticketed n s) (h : Sound s order policy anchor) :
    Ticketed n (s.make_room now).val := by
  rw [KeyedWindowStage.make_room]
  split
  · rw [evict_one]
    cases hhead : s.lru_head with
    | none => exact hn
    | some victim =>
      have hlinked : order.head? = some victim := by
        rw [← hhead]
        exact h.coherent.linked.head.symm
      obtain ⟨e, he⟩ := (h.coherent.occupied victim).1 (List.mem_of_head? hlinked)
      have hremove := hn.remove h.coherent he
      obtain ⟨f, t, heq, -⟩ := remove_spec h.coherent he
      rw [heq] at hremove
      simp only [heq]
      exact hremove
  · exact hn

/-- `touch` gives out no ticket. -/
theorem Ticketed.touch (hn : Ticketed n s) (now : Nat) (h : Sound s order policy anchor)
    (hmax : 0 < s.max_keys) (key : K) : Ticketed n (s.touch key now Emitting.emit).val.2 := by
  cases hk : s.index.lookup key with
  | some slot =>
    have hrel : Relinked s (s.refresh slot) := refresh_relinked
    rw [touch_known key hk]
    refine hn.settle hrel.same.2.2.2.2.2.1 hrel.same.2.2.1 fun i e he => .inr ⟨e, ?_, rfl, rfl⟩
    rw [← hrel.held]
    exact he
  | none =>
    obtain ⟨u, order', hval, hroom⟩ := make_room_spec now h hmax
    have hu : Ticketed n u := hval ▸ hn.make_room h
    obtain ⟨slot, t, hcreate, -, -, hheld, hheap, -⟩ :=
      create_spec hroom.sound.coherent (hroom.lookup_none h.coherent hk)
    have htickets := tickets_create u key
    rw [touch_new key hk, Emitting.bind_val, hval, Emitting.pure_val, hcreate]
    rw [hcreate] at htickets
    refine hu.settle htickets hheap fun i e he => ?_
    rw [hheld, Function.update_apply] at he
    split at he
    · cases he
      exact .inl rfl
    · exact .inr ⟨e, he, rfl, rfl⟩

/-- The item is delivered, and its key scheduled. -/
theorem Ticketed.deliver (hn : Ticketed n s) (h : Sound s order policy anchor)
    (he : s.held slot = some e) (hv : policy.Valid) (ha : anchor ≤ Timeline.horizon)
    (hnow : now ≤ Timeline.horizon) (item : T)
    (hlt : n + (s.deliver slot anchor now item Emitting.emit).val.schedulings slot now < 2 ^ 64) :
    Ticketed (n + (s.deliver slot anchor now item Emitting.emit).val.schedulings slot now)
      ((s.deliver slot anchor now item Emitting.emit).val.schedule slot now) := by
  obtain ⟨f, hf, rfl⟩ := entry_of_held he
  have hval : (s.deliver slot anchor now item Emitting.emit).val = s.modify slot fun e =>
      { e with core := (f.core.on_item s.max_items anchor now item Emitting.emit).val } := by
    rw [deliver_eq hf]
    rfl
  rw [hval] at hlt ⊢
  have hself := congrFun (held_recore he
    (f.core.on_item s.max_items anchor now item Emitting.emit).val) slot
  rw [Function.update_self] at hself
  exact (hn.recore he _).schedule (h.coherent.recore he _) hself
    (Core.fresh_on_item (h.fits _ _ he) hv ha hnow item) hlt

/-- An event on a stage whose tickets are in order. -/
theorem Ticketed.step (hn : Ticketed n s) (h : Running s order) (key_fn : T → φ → K × φ)
    (event : WindowEvent T) (hlt : n + s.step_schedulings key_fn event < 2 ^ 64)
    (hval : (s.step key_fn event).val = some s') :
    Ticketed (n + s.step_schedulings key_fn event) s' := by
  obtain ⟨call, now, hnow⟩ := event
  cases call with
  | item item =>
    obtain ⟨hsound, ha⟩ := h.origin hnow
    obtain ⟨t, v, u, order', slot, e, _, _, _, hprocess, -, hexpire, htouch, hproc⟩ :=
      process_expired key_fn item hsound ha h.max_keys h.valid hnow
    generalize hanchor : s.anchor.getD (grid_origin s.policy now) = anchor at hsound ha hexpire hproc
    have hstate : v.key_state = s.key_state := hproc.config.2.2.1
    have hcount : s.step_schedulings key_fn (.item item, ⟨now, hnow⟩) =
        { s with anchor := some anchor }.expire_schedulings anchor now +
          (u.deliver slot anchor now item Emitting.emit).val.schedulings slot now := by
      rw [hstate] at htouch
      simp only [step_schedulings, hanchor, hexpire, hstate, htouch]
    have hresult : s' = (u.deliver slot anchor now item Emitting.emit).val.schedule slot now := by
      rw [hstate] at htouch
      simp only [KeyedWindowStage.step, process, hanchor, Emitting.bind_val, hexpire, hstate, htouch,
        Emitting.pure_val, Option.some.injEq] at hval
      exact hval.symm
    rw [hcount, ← Nat.add_assoc] at hlt ⊢
    have hstart : Ticketed n { s with anchor := some anchor } :=
      hn.settle rfl rfl fun i e he => .inr ⟨e, he, rfl, rfl⟩
    have hexpired := hstart.expire h.valid ha hnow (hsound.configured (some anchor) s.key_state)
      (by omega) hexpire
    have hkeyed : Ticketed (n + { s with anchor := some anchor }.expire_schedulings anchor now)
        { v with key_state := (key_fn item v.key_state).2 } :=
      hexpired.settle rfl rfl fun i e he => .inr ⟨e, he, rfl, rfl⟩
    have htouched := hkeyed.touch now (hproc.expire.sound.configured v.anchor _)
      (by rw [hproc.config.2.2.2]; exact h.max_keys) (key_fn item s.key_state).1
    rw [htouch] at htouched
    rw [hresult]
    exact htouched.deliver hproc.touch.sound hproc.touch.held h.valid ha hnow item hlt
  | tick =>
    cases hanchor : s.anchor with
    | none =>
      have hcount : s.step_schedulings key_fn (.tick, ⟨now, hnow⟩) = 0 := by
        simp [step_schedulings, hanchor]
      simp only [KeyedWindowStage.step, tick, hanchor, Emitting.pure_val, Option.some.injEq] at hval
      rw [hcount, ← hval]
      exact hn
    | some anchor =>
      have hsound := h.sound
      have ha := h.anchor
      rw [hanchor] at hsound ha
      have hcount : s.step_schedulings key_fn (.tick, ⟨now, hnow⟩) = s.expire_schedulings anchor now := by
        simp [step_schedulings, hanchor]
      rw [hcount] at hlt ⊢
      simp only [KeyedWindowStage.step, tick, hanchor] at hval
      exact hn.expire h.valid ha hnow hsound hlt hval
  | flush =>
    have hcount : s.step_schedulings key_fn (.flush, ⟨now, hnow⟩) = 0 := rfl
    cases hval
    rw [hcount]
    refine Ticketed.blank (s := (s.flush now Emitting.emit).val) hn.count rfl ?_
    intro i
    simp [flush, held, entry]

section Recency

variable {key_fn : T → φ → K × φ}

/-- The keys of the items of a run, one for each item. -/
def touched (key_fn : T → φ → K × φ) : φ → List (WindowEvent T) → List K
  | _, [] => []
  | x, (.item item, _) :: events => (key_fn item x).1 :: touched key_fn (key_fn item x).2 events
  | x, (.tick, _) :: events | x, (.flush, _) :: events => touched key_fn x events

/-- The keys of some slots. -/
def keys_at (s : KeyedWindowStage K T φ) (slots : List Nat) : List K :=
  slots.filterMap fun i => (s.held i).map KeyState.key

omit [Timeline] in
/-- The last occurrence of what comes last. -/
theorem dedup_snoc (l : List K) (k : K) : (l ++ [k]).dedup = l.dedup.filter (· ≠ k) ++ [k] := by
  induction l with
  | nil => rfl
  | cons a l ih =>
    rw [List.cons_append, List.dedup_cons, List.dedup_cons, ih]
    by_cases ha : a ∈ l
    · simp [ha]
    · by_cases hak : a = k
      · subst hak
        simp [ha]
      · simp [ha, hak]

omit [Timeline] in
/-- A key is touched: it is the most recent one. -/
theorem recency_snoc {keys before : List K} {k : K} (h : keys.Sublist before.dedup)
    (hk : k ∉ keys) : (keys ++ [k]).Sublist (before ++ [k]).dedup := by
  have hall : keys.filter (· ≠ k) = keys := by
    rw [List.filter_eq_self]
    intro a ha
    have hne : a ≠ k := fun heq => hk (heq ▸ ha)
    simpa using hne
  rw [dedup_snoc, ← hall]
  exact (h.filter _).append_right [k]

omit [Timeline] [DecidableEq K] in
theorem keys_at_sublist {slots : List Nat} (h : ∀ i ∈ slots, t.held i = none ∨
    (t.held i).map KeyState.key = (s.held i).map KeyState.key) :
    (t.keys_at slots).Sublist (s.keys_at slots) := by
  induction slots with
  | nil => exact .slnil
  | cons i slots ih =>
    have hrest := ih fun j hj => h j (List.mem_cons_of_mem i hj)
    simp only [keys_at, List.filterMap_cons] at hrest ⊢
    rcases h i List.mem_cons_self with hnone | heq
    · rw [hnone, Option.map_none]
      cases (s.held i).map KeyState.key with
      | none => exact hrest
      | some k => exact hrest.cons k
    · rw [heq]
      cases (s.held i).map KeyState.key with
      | none => exact hrest
      | some k => exact hrest.cons_cons k

/-- The keys that `expire` keeps stay in their order. -/
theorem Expired.recent {out : List (K × Window T)} (h : Expired anchor now s order policy t out) :
    (t.keys_at (order.filter fun i => (t.held i).isSome)).Sublist (s.keys_at order) := by
  have hfilter : t.keys_at (order.filter fun i => (t.held i).isSome) = t.keys_at order := by
    rw [keys_at, List.filterMap_filter]
    refine List.filterMap_congr fun i _ => ?_
    cases t.held i <;> rfl
  rw [hfilter]
  refine keys_at_sublist fun i _ => ?_
  cases hf : t.held i with
  | none => exact .inl rfl
  | some f =>
    cases he : s.held i with
    | none =>
      rw [h.vacant i he] at hf
      cases hf
    | some e => exact .inr (congrArg some ((h.settled i e he).kept f hf).1)

/-- The key of an item becomes the most recent one, behind the others. -/
theorem Touched.recent {key : K} {order' : List Nat} {out : List (K × Window T)}
    (h : Touched anchor now s order policy key slot t order' e out) (hs : Coherent s order) :
    (t.keys_at order').Sublist (s.keys_at order) ∧ key ∉ t.keys_at order' := by
  have hnodup := h.sound.coherent.linked.nodup
  have hslot : slot ∉ order' := by
    intro hmem
    exact (List.nodup_append.1 hnodup).2.2 slot hmem slot (List.mem_singleton_self slot) rfl
  have hsame : order'.Sublist order ∧ ∀ i ∈ order', t.held i = s.held i := by
    rcases h.cases with ⟨-, hheld, rfl, -⟩ | ⟨-, -, -, -, u, hroom, -, hheld⟩
    · exact ⟨List.erase_sublist, fun i _ => congrFun hheld i⟩
    · have hu : ∀ i ∈ order', t.held i = u.held i := by
        intro i hi
        rw [hheld, Function.update_of_ne]
        rintro rfl
        exact hslot hi
      rcases hroom.evicted with ⟨-, rfl, rfl, -⟩ | ⟨-, victim, f, rfl, -, hvacated, -⟩
      · exact ⟨.refl _, hu⟩
      · refine ⟨List.sublist_cons_self _ _, fun i hi => ?_⟩
        rw [hu i hi, hvacated, Function.update_of_ne]
        rintro rfl
        exact (List.nodup_cons.1 hs.linked.nodup).1 hi
  constructor
  · refine (keys_at_sublist fun i hi => .inr ?_).trans (hsame.1.filterMap _)
    rw [hsame.2 i hi]
  · intro hmem
    obtain ⟨i, hi, hkey⟩ := List.mem_filterMap.1 hmem
    obtain ⟨f, hf, hkey⟩ := Option.map_eq_some_iff.1 hkey
    have heq := h.sound.coherent.key_inj hf h.held (hkey.trans h.owner.symm)
    exact hslot (heq ▸ hi)

/-- The keys in use, by their last touch. -/
theorem Running.step_recent (h : Running s order) (key_fn : T → φ → K × φ)
    (event : WindowEvent T) {before : List K}
    (hrecent : (s.keys_at order).Sublist before.dedup) :
    ∃ s' order', (s.step key_fn event).val = some s' ∧ Running s' order' ∧
      (s'.keys_at order').Sublist (before ++ touched key_fn s.key_state [event]).dedup ∧
      ∀ events, touched key_fn s.key_state (event :: events) =
        touched key_fn s.key_state [event] ++ touched key_fn s'.key_state events := by
  obtain ⟨call, now, hnow⟩ := event
  cases call with
  | item item =>
    obtain ⟨hsound, ha⟩ := h.origin hnow
    obtain ⟨s', t, u, order', slot, e, _, _, _, hval, -, hproc⟩ :=
      process_spec key_fn item hsound ha h.max_keys h.valid hnow
    obtain ⟨hkeys, hfresh⟩ := hproc.touch.recent (hproc.expire.sound.configured t.anchor _).coherent
    have hexpired : (t.keys_at (order.filter fun i => (t.held i).isSome)).Sublist (s.keys_at order) :=
      hproc.expire.recent
    have hstate : s'.key_state = (key_fn item s.key_state).2 := by
      have hconfig := hproc.config
      simp only [KeyedWindowStage.config, Prod.mk.injEq] at hconfig
      rw [hconfig.1.2.2.2.1, hconfig.2.2.1]
    have hsame : s'.keys_at (order' ++ [slot]) =
        u.keys_at order' ++ [(key_fn item s.key_state).1] := by
      obtain ⟨e', hheld, hkey, -⟩ := hproc.deliver.held
      have hslot : slot ∉ order' := by
        intro hmem
        exact (List.nodup_append.1 hproc.touch.sound.coherent.linked.nodup).2.2 slot hmem slot
          (List.mem_singleton_self slot) rfl
      have hothers : s'.keys_at order' = u.keys_at order' := by
        refine List.filterMap_congr fun i hi => ?_
        rw [hheld, Function.update_of_ne]
        rintro rfl
        exact hslot hi
      have hlast : s'.keys_at [slot] = [(key_fn item s.key_state).1] := by
        simp only [keys_at, List.filterMap_cons, List.filterMap_nil, hheld, Function.update_self,
          Option.map_some, hkey, hproc.touch.owner]
      rw [← hothers, ← hlast]
      exact List.filterMap_append
    refine ⟨s', _, hval, hproc.running h ha, ?_, fun events => ?_⟩
    · rw [hsame]
      exact recency_snoc (hkeys.trans (hexpired.trans hrecent)) hfresh
    · rw [hstate]
      rfl
  | tick =>
    cases hanchor : s.anchor with
    | none =>
      refine ⟨s, order, by simp [KeyedWindowStage.step, KeyedWindowStage.tick, hanchor], h, ?_,
        fun _ => rfl⟩
      rw [touched, touched, List.append_nil]
      exact hrecent
    | some anchor =>
      have hsound := h.sound
      have ha := h.anchor
      rw [hanchor] at hsound ha
      obtain ⟨s', hval, hexp⟩ := tick_spec hsound hanchor ha h.valid hnow
      obtain ⟨hrun, hconfig⟩ := hexp.running h hanchor
      have hstate : s'.key_state = s.key_state := by
        simp only [KeyedWindowStage.config, Prod.mk.injEq] at hconfig
        exact hconfig.2.2.2.1
      refine ⟨s', _, hval, hrun, ?_, fun events => ?_⟩
      · rw [touched, touched, List.append_nil]
        exact hexp.recent.trans hrecent
      · rw [hstate]
        rfl
  | flush => exact ⟨_, [], rfl, flush_running h, List.nil_sublist _, fun _ => rfl⟩

/-- What every run keeps of the tickets and of the order of the keys. -/
theorem Running.after_recent (h : Running s order) (hn : Ticketed n s) (before : List K)
    (hrecent : (s.keys_at order).Sublist before.dedup) (events : List (WindowEvent T))
    (hlt : n + s.run_schedulings key_fn events < 2 ^ 64) :
    ∃ s' order', s.after key_fn events = some s' ∧ Running s' order' ∧
      (∃ m, Ticketed m s') ∧
        (s'.keys_at order').Sublist (before ++ touched key_fn s.key_state events).dedup := by
  induction events generalizing s order n before with
  | nil =>
    refine ⟨s, order, rfl, h, ⟨n, hn⟩, ?_⟩
    rw [touched, List.append_nil]
    exact hrecent
  | cons event events ih =>
    obtain ⟨t, order', hval, hrun, hkeys, htouched⟩ := h.step_recent key_fn event hrecent
    have hcount : s.run_schedulings key_fn (event :: events) =
        s.step_schedulings key_fn event + t.run_schedulings key_fn events := by
      simp only [run_schedulings, hval, Option.map_some, Option.getD_some]
    rw [hcount, ← Nat.add_assoc] at hlt
    have hticketed := hn.step h key_fn event (by omega) hval
    obtain ⟨s', order'', hafter, hrun', hm, hkeys'⟩ := ih hrun hticketed _ hkeys hlt
    refine ⟨s', order'', ?_, hrun', hm, ?_⟩
    · simp only [KeyedWindowStage.after, hval, Option.bind_some, hafter]
    · rw [htouched events, ← List.append_assoc]
      exact hkeys'

end Recency

/-- The heap against the slots in use: the schedule of a slot is the one heap entry with its
ticket, a slot without a schedule has none, and every other entry fails the ticket check. -/
structure Checked (s : KeyedWindowStage K T φ) : Prop where
  scheduled : ∀ i e d, s.held i = some e → e.scheduled = some d →
    (s.heap.filter fun h => h.ticket = e.ticket) = [⟨d, e.ticket, i⟩]
  unscheduled : ∀ i e, s.held i = some e → e.scheduled = none → ∀ h ∈ s.heap, h.ticket ≠ e.ticket
  stale : ∀ h ∈ s.heap, (∀ i e d, s.held i = some e → e.scheduled = some d →
    h ≠ ⟨d, e.ticket, i⟩) → (s.entry h.slot).filter (fun e => e.ticket = h.ticket) = none

omit [Timeline] in
theorem Ticketed.checked (hn : Ticketed n s) (h : Coherent s order) : Checked s where
  scheduled i e d he hd := by
    have hmem := h.armed i e d he hd
    obtain ⟨l, r, hheap⟩ := List.append_of_mem hmem
    have hdistinct := hn.distinct
    rw [hheap, List.pairwise_append, List.pairwise_cons] at hdistinct
    obtain ⟨-, ⟨hright, -⟩, hleft⟩ := hdistinct
    have hl : (l.filter fun x => x.ticket = e.ticket) = [] := by
      rw [List.filter_eq_nil_iff]
      intro x hx
      simpa using hleft x hx _ List.mem_cons_self
    have hr : (r.filter fun x => x.ticket = e.ticket) = [] := by
      rw [List.filter_eq_nil_iff]
      intro x hx
      simpa using (hright x hx).symm
    rw [hheap, List.filter_append, hl, List.filter_cons_of_pos (by simp), hr, List.nil_append]
  unscheduled i e he hnone x hx hticket := by
    have hcarried := (hn.carried i e x he hx hticket).2
    rw [hnone] at hcarried
    cases hcarried
  stale x hx hother := by
    cases hf : s.entry x.slot with
    | none => rfl
    | some f =>
      have he : s.held x.slot = some f.state := by simp [held, hf]
      by_cases ht : f.ticket = x.ticket
      · have hcarried := (hn.carried _ f.state x he hx ht.symm).2
        refine absurd ?_ (hother _ f.state x.deadline he hcarried)
        rw [show f.state.ticket = x.ticket from ht]
      · simp [Option.filter, ht]

/-- The bookkeeping stays coherent: over every run that gives out fewer tickets than a `u64` can
tell apart, the index, the slab, the free list, the recency list and the heap agree. -/
theorem bookkeeping_coherent {spec : WindowSpec} (hspec : spec.check = .ok ())
    (key_fn : T → φ → K × φ) (key_state : φ) (events : List (WindowEvent T))
    (hlt : (new spec key_state : KeyedWindowStage K T φ).run_schedulings key_fn events < 2 ^ 64) :
    ∃ (s : KeyedWindowStage K T φ) (order : List Nat),
      (new spec key_state).after key_fn events = some s ∧ Coherent s order ∧
      (s.keys_at order).Sublist (touched key_fn key_state events).dedup ∧ Checked s ∧ Covered s := by
  have hn : Ticketed 0 (new spec key_state : KeyedWindowStage K T φ) := by
    refine Ticketed.blank (s := new spec key_state) rfl rfl ?_
    intro i
    simp [new, held, entry]
  obtain ⟨s, order, hafter, hrun, ⟨m, hm⟩, hkeys⟩ := (new_running hspec key_state).after_recent hn
    [] (List.nil_sublist _) events (by rw [Nat.zero_add]; exact hlt)
  exact ⟨s, order, hafter, hrun.sound.coherent, hkeys, hm.checked hrun.sound.coherent,
    hrun.sound.covered⟩

end KeyedWindowStage

namespace KeyedWindowStage

theorem bookkeeping_coherent_tumbling : ∃ (s : KeyedWindowStage Nat Nat Unit) (order : List Nat),
    (@after smallTimeline _ _ _ _ (new ⟨.tumbling 10, some 2, some 1⟩ ()) (fun v u => (v % 2, u))
      [(.item 0, ⟨3, by decide⟩), (.item 1, ⟨5, by decide⟩)]) = some s ∧ Coherent s order ∧
    (s.keys_at order).Sublist (@touched smallTimeline _ _ _ (fun v u => (v % 2, u)) ()
      [(.item 0, ⟨3, by decide⟩), (.item 1, ⟨5, by decide⟩)]).dedup ∧ Checked s ∧
    @Covered smallTimeline _ _ _ s :=
  @bookkeeping_coherent smallTimeline Nat Nat Unit _ ⟨.tumbling 10, some 2, some 1⟩ rfl
    (fun v u => (v % 2, u)) () [(.item 0, ⟨3, by decide⟩), (.item 1, ⟨5, by decide⟩)]
    (by decide +kernel)

end KeyedWindowStage

end PipeIo
