import PipeIo.Lib.Grouping
import PipeIo.WindowAbsorb
import PipeIo.WindowRun

namespace PipeIo
set_option autoImplicit true

open Lib

/-- Two items that arrive in the same interval of the grid from `t0` on. -/
def same_interval (t0 size : Nat) (a b : T × Nat) : Bool := (a.2 - t0) / size == (b.2 - t0) / size

/-- The window of a piece of the items of one interval. If the end of the interval is not
representable, it is the instant of emission: the last arrival if the piece is full, else that of
the flush. -/
def interval_window [Timeline] (t0 size max_items flushed : Nat) (piece : List (T × Nat)) :
    Window T :=
  let first := (piece.head?.map Prod.snd).getD t0
  let last := (piece.getLast?.map Prod.snd).getD t0
  let start := t0 + (first - t0) / size * size
  ⟨piece.map Prod.fst, start,
    (checked_add start size).getD (if max_items ≤ piece.length then last else flushed)⟩

section

variable [Timeline] {T : Type} {size m t0 now last q flushed : Nat} {item : T}
  {before content piece arrived : List (T × Nat)} {out : List (Window T)} {c : Core T}

theorem interval_window_eq (hne : piece ≠ []) (hq : ∀ a ∈ piece, (a.2 - t0) / size = q) :
    interval_window t0 size m flushed piece = ⟨piece.map Prod.fst, t0 + q * size,
      (checked_add (t0 + q * size) size).getD
        (if m ≤ piece.length then (piece.getLast?.map Prod.snd).getD t0 else flushed)⟩ := by
  obtain ⟨a, rest, rfl⟩ := List.exists_cons_of_ne_nil hne
  rw [← hq a List.mem_cons_self]
  rfl

/-- Where the grouping of what has arrived stands while the interval number `q` is current: it is
the last one with items, which are `content` since the last full window, or none has come in it. -/
def Current (t0 size m flushed : Nat) (arrived : List (T × Nat)) (out : List (Window T)) (q : Nat)
    (content : List (T × Nat)) : Prop :=
  (∀ a ∈ content, (a.2 - t0) / size = q) ∧
    ((∃ before, Opened (same_interval t0 size) m
        (fun cut => interval_window t0 size m flushed cut.2) arrived out before content ∧
        ∀ b ∈ arrived.getLast?, (b.2 - t0) / size = q) ∨
      content = [] ∧ Closed (same_interval t0 size) m
        (fun cut => interval_window t0 size m flushed cut.2) arrived out ∧
        ∀ b ∈ arrived.getLast?, (b.2 - t0) / size < q)

/-- A core of a tumbling policy, with what has arrived and what it has emitted. -/
def Tumbles (t0 size m flushed : Nat) (arrived : List (T × Nat)) (last : Nat)
    (out : List (Window T)) (c : Core T) : Prop :=
  (arrived = [] ∧ out = [] ∧ c = .tumbling size none []) ∨
    ∃ q content, c = .tumbling size (some (t0 + q * size)) (content.map Prod.fst) ∧
      t0 + q * size ≤ last ∧ Current t0 size m flushed arrived out q content

/-- An interval that has ended is closed. -/
theorem Current.close (h : Current t0 size m flushed arrived out q content) (hm : 0 < m)
    (hrep : t0 + q * size + size ≤ Timeline.horizon) {q' : Nat} (hlt : q < q') :
    Closed (same_interval t0 size) m (fun cut => interval_window t0 size m flushed cut.2) arrived
      (out ++ if (content.map Prod.fst).isEmpty then [] else
        [⟨content.map Prod.fst, t0 + q * size, t0 + q * size + size⟩]) ∧
      ∀ b ∈ arrived.getLast?, (b.2 - t0) / size < q' := by
  obtain ⟨hq, ⟨before, hopened, hlast⟩ | ⟨rfl, hclosed, hlast⟩⟩ := h
  · refine ⟨?_, fun b hb => hlast b hb ▸ hlt⟩
    have hclosed := hopened.close hm
    by_cases hnil : content = []
    · subst hnil
      exact hclosed
    · have hne : ¬(content.map Prod.fst).isEmpty := by simpa using hnil
      rw [if_neg hnil, interval_window_eq hnil hq, checked_add_some hrep] at hclosed
      rw [if_neg hne]
      exact hclosed
  · refine ⟨?_, fun b hb => Nat.lt_trans (hlast b hb) hlt⟩
    rw [List.map_nil, List.isEmpty_nil, if_pos rfl, List.append_nil]
    exact hclosed

/-- An item joins the current interval. -/
theorem Current.takes (h : Current t0 size m flushed arrived out q content)
    (hnow : (now - t0) / size = q) (item : T) :
    ∃ before, Takes (same_interval t0 size) m
      (fun cut => interval_window t0 size m flushed cut.2) arrived out before content
      (item, now) := by
  obtain ⟨-, ⟨before, hopened, hlast⟩ | ⟨rfl, hclosed, hlast⟩⟩ := h
  · obtain ⟨b, hb⟩ := hopened.getLast?
    refine ⟨before, hopened.takes hb ?_⟩
    rw [same_interval, hlast b hb, hnow, beq_self_eq_true]
  · refine ⟨[], hclosed.takes fun b hb => ?_⟩
    have hlt := hlast b hb
    simp only [same_interval, hnow, beq_eq_false_iff_ne, ne_eq]
    omega

/-- An item is added to an interval. -/
theorem Tumbles.push (h : Takes (same_interval t0 size) m
      (fun cut => interval_window t0 size m flushed cut.2) arrived out before content (item, now))
    (hm : 0 < m) (hq : ∀ a ∈ content, (a.2 - t0) / size = q) (hnow : (now - t0) / size = q)
    (hstart : t0 + q * size ≤ now) :
    Tumbles t0 size m flushed (arrived ++ [(item, now)]) now
      (out ++ (Core.tumbling_push m now size (some (t0 + q * size)) (content.map Prod.fst) item
        Emitting.emit).out)
      (Core.tumbling_push m now size (some (t0 + q * size)) (content.map Prod.fst) item
        Emitting.emit).val := by
  have hitems : content.map Prod.fst ++ [item] = (content ++ [(item, now)]).map Prod.fst := by
    rw [List.map_append]
    rfl
  have hq' : ∀ a ∈ content ++ [(item, now)], (a.2 - t0) / size = q := by
    intro a ha
    rcases List.mem_append.1 ha with ha | ha
    · exact hq a ha
    · cases List.mem_singleton.1 ha
      exact hnow
  have hlast : ∀ b ∈ (arrived ++ [(item, now)]).getLast?, (b.2 - t0) / size = q := by
    intro b hb
    rw [List.getLast?_concat] at hb
    cases hb
    exact hnow
  rw [Core.tumbling_push, hitems]
  by_cases hfull : ((content ++ [(item, now)]).map Prod.fst).length ≥ m
  · have hlen : m ≤ content.length + 1 := by simpa using hfull
    have hwindow : interval_window t0 size m flushed (content ++ [(item, now)]) =
        ⟨(content ++ [(item, now)]).map Prod.fst, t0 + q * size,
          (checked_add (t0 + q * size) size).getD now⟩ := by
      rw [interval_window_eq (List.append_ne_nil_of_right_ne_nil content (List.cons_ne_nil _ [])) hq',
        if_pos (by simpa using hlen), List.getLast?_concat, Option.map_some, Option.getD_some]
    rw [if_pos hfull]
    have hopened := h.full hm hlen
    rw [hwindow] at hopened
    refine .inr ⟨q, [], rfl, hstart, fun a ha => ?_, .inl ⟨_, hopened, hlast⟩⟩
    cases ha
  · have hlen : content.length + 1 < m := by simpa using hfull
    rw [if_neg hfull, Emitting.pure_out, Emitting.pure_val, List.append_nil]
    exact .inr ⟨q, _, rfl, hstart, hq', .inl ⟨before, h.short hlen, hlast⟩⟩

omit [Timeline] in
/-- The interval number `q` lasts until the next one begins. -/
theorem interval_over (hs : 0 < size) (hle : t0 + q * size ≤ now) :
    (t0 + q * size + size ≤ now ↔ q < (now - t0) / size) ∧ q ≤ (now - t0) / size := by
  have hsucc := Nat.le_div_iff_mul_le (x := q + 1) (y := now - t0) hs
  have hself := Nat.le_div_iff_mul_le (x := q) (y := now - t0) hs
  rw [Nat.succ_mul] at hsucc
  omega

theorem align_interval (ha : t0 ≤ now) (hn : now ≤ Timeline.horizon) (hs : 0 < size) :
    align t0 now size = t0 + (now - t0) / size * size ∧ t0 + (now - t0) / size * size ≤ now := by
  refine ⟨align_eq (Nat.le_trans ha hn) hn hs, ?_⟩
  have hle := Nat.div_mul_le_self (now - t0) size
  omega

theorem Tumbles.on_item (h : Tumbles t0 size m flushed arrived last out c) (hs : 0 < size)
    (hm : 0 < m) (hlast : last ≤ now) (ha : t0 ≤ now) (hn : now ≤ Timeline.horizon) (item : T) :
    Tumbles t0 size m flushed (arrived ++ [(item, now)]) now
      (out ++ (c.on_item m t0 now item Emitting.emit).out)
      (c.on_item m t0 now item Emitting.emit).val := by
  obtain ⟨halign, hstart⟩ := align_interval ha hn hs
  rcases h with ⟨rfl, rfl, rfl⟩ | ⟨q, content, rfl, hle, hcurrent⟩
  · rw [Core.on_item_first item (Nat.le_trans ha hn) hn hs, halign]
    have htakes : Takes (same_interval t0 size) m
        (fun cut => interval_window t0 size m flushed cut.2) [] [] [] [] (item, now) :=
      Closed.nil.takes (by simp)
    exact Tumbles.push htakes hm (by simp) rfl hstart
  · obtain ⟨hover, hmono⟩ := interval_over hs (Nat.le_trans hle hlast)
    by_cases hclosed : t0 + q * size + size ≤ now
    · have hrep := Nat.le_trans hclosed hn
      obtain ⟨hnext, hbreak⟩ := hcurrent.close hm hrep (hover.1 hclosed)
      rw [Core.on_item_closed item hrep hclosed, halign, ← List.append_assoc]
      have htakes := hnext.takes (fun b hb => by
        have hlt := hbreak b hb
        simp only [same_interval, beq_eq_false_iff_ne, ne_eq]
        omega : ∀ b ∈ arrived.getLast?, same_interval t0 size b (item, now) = false)
      exact Tumbles.push htakes hm (by simp) rfl hstart
    · have hq : (now - t0) / size = q := by
        rw [hover] at hclosed
        omega
      obtain ⟨before, htakes⟩ := hcurrent.takes hq item
      rw [Core.on_item_open item fun _ => Nat.lt_of_not_le hclosed]
      exact Tumbles.push htakes hm hcurrent.1 hq (Nat.le_trans hle hlast)

theorem Tumbles.on_tick (h : Tumbles t0 size m flushed arrived last out c) (hs : 0 < size)
    (hm : 0 < m) (hlast : last ≤ now) (hn : now ≤ Timeline.horizon) :
    Tumbles t0 size m flushed arrived now (out ++ (c.on_tick t0 now Emitting.emit).out)
      (c.on_tick t0 now Emitting.emit).val := by
  rcases h with ⟨rfl, rfl, rfl⟩ | ⟨q, content, rfl, hle, hcurrent⟩
  · exact .inl ⟨rfl, rfl, rfl⟩
  · have hnow := Nat.le_trans hle hlast
    obtain ⟨halign, hstart⟩ := align_interval (Nat.le_trans (Nat.le_add_right ..) hnow) hn hs
    obtain ⟨hover, -⟩ := interval_over hs hnow
    by_cases hclosed : t0 + q * size + size ≤ now
    · have hrep := Nat.le_trans hclosed hn
      obtain ⟨hnext, hbreak⟩ := hcurrent.close hm hrep (hover.1 hclosed)
      rw [Core.on_tick_tumbling hrep hclosed, halign]
      exact .inr ⟨_, [], rfl, hstart, by simp, .inr ⟨rfl, hnext, hbreak⟩⟩
    · have hsame : (Core.tumbling size (some (t0 + q * size)) (content.map Prod.fst)).on_tick t0 now
          Emitting.emit = pure (.tumbling size (some (t0 + q * size)) (content.map Prod.fst)) := by
        have hfits : (Core.tumbling size (some (t0 + q * size)) (content.map Prod.fst)).Fits
            (.tumbling size) t0 := by
          refine ⟨rfl, fun hnone => ?_, fun s hsome => ⟨q, ?_⟩⟩
          · cases hnone
          · cases hsome
            rfl
        exact Core.on_tick_fresh hfits hs hn (Core.tumbling_fresh_some.2 fun _ =>
          Nat.lt_of_not_le hclosed)
      rw [hsame, Emitting.pure_out, Emitting.pure_val, List.append_nil]
      exact .inr ⟨q, content, rfl, hnow, hcurrent⟩

theorem Tumbles.on_flush (h : Tumbles t0 size m flushed arrived last out c) (hm : 0 < m) :
    Closed (same_interval t0 size) m (fun cut => interval_window t0 size m flushed cut.2) arrived
      (out ++ (c.on_flush flushed Emitting.emit).out) := by
  rcases h with ⟨rfl, rfl, rfl⟩ | ⟨q, content, rfl, hle, hq, ⟨before, hopened, -⟩ | ⟨rfl, hclosed, -⟩⟩
  · exact Closed.nil
  · have hclosed := hopened.close hm
    have hshort := hopened.length_lt hm
    by_cases hnil : content = []
    · subst hnil
      exact hclosed
    · have hne : ¬(content.map Prod.fst).isEmpty := by simpa using hnil
      rw [if_neg hnil, interval_window_eq hnil hq, if_neg (Nat.not_le_of_lt hshort)] at hclosed
      rw [Core.on_flush, if_neg hne]
      exact hclosed
  · rw [Core.on_flush, List.map_nil, List.isEmpty_nil, if_pos rfl, Emitting.pure_out,
      List.append_nil]
    exact hclosed

end

/-- Tumbling windows group the items by the intervals of the grid from the first arrival on, each
run cut into pieces of `max_items`; ticks make no difference. -/
theorem WindowStage.tumbling_groups [Timeline] {T : Type} {size : Nat} {spec : WindowSpec}
    (hpolicy : spec.policy = .tumbling size) (hcheck : spec.check = .ok ())
    (events : List (WindowEvent T)) (now : Reading) (hmono : NonDecreasing (events ++ [(.flush, now)]))
    (hcalls : ∀ event ∈ events, event.1 ≠ .flush) :
    let t0 := ((arrivals events).head?.map Prod.snd).getD 0
    ((new spec).run (events ++ [(.flush, now)])).out =
      (((arrivals events).splitBy (same_interval t0 size)).flatMap
        (pieces (limit_or_max spec.max_items))).map
          (interval_window t0 size (limit_or_max spec.max_items) now) := by
  intro t0
  obtain ⟨hvalid, -, -⟩ := WindowSpec.check_ok.1 hcheck
  rw [hpolicy] at hvalid
  have hm : 0 < limit_or_max spec.max_items := Nat.lt_of_lt_of_le Nat.one_pos (Nat.le_max_right ..)
  have horigin : origin spec.policy (arrivals events) = t0 := by
    rw [hpolicy]
    rfl
  obtain ⟨hmono, -, -⟩ := List.pairwise_append.1 hmono
  obtain ⟨last, out, c, hc, hout, -⟩ := run_flushed spec (· ≤ ·)
    (fun arrived last out c => (∀ a ∈ arrived, t0 ≤ a.2) →
      Tumbles t0 size (limit_or_max spec.max_items) now arrived last out c) events now
    (fun arrived last out c item now hlast hn h harrived => by
      rw [horigin]
      apply (h fun a ha => harrived a (List.mem_append_left _ ha)).on_item hvalid hm hlast _ hn item
      exact harrived (item, now) (List.mem_append_right _ List.mem_cons_self))
    (fun arrived last out c now hlast hn h harrived => by
      rw [horigin]
      exact (h harrived).on_tick hvalid hm hlast hn)
    (fun _ => .inl ⟨rfl, rfl, by rw [hpolicy]; rfl⟩) hcalls hmono fun _ _ => Nat.zero_le _
  have hclosed := (hc (first_le hmono)).on_flush hm
  rw [hout, hclosed, map_cuts]

/-- Three items in the first interval, which takes two; a tick after it; one item two intervals
later. -/
theorem WindowStage.tumbling_groups_three :
    (@run smallTimeline Nat (new ⟨.tumbling 10, some 2, none⟩)
      ([(.item 1, ⟨3, by decide⟩), (.item 2, ⟨4, by decide⟩), (.item 3, ⟨4, by decide⟩),
        (.tick, ⟨14, by decide⟩), (.item 4, ⟨25, by decide⟩)] ++ [(.flush, ⟨26, by decide⟩)])).out =
      [⟨[1, 2], 3, 13⟩, ⟨[3], 3, 13⟩, ⟨[4], 23, 33⟩] :=
  (@tumbling_groups smallTimeline Nat 10 ⟨.tumbling 10, some 2, none⟩ rfl rfl
    [(.item 1, ⟨3, by decide⟩), (.item 2, ⟨4, by decide⟩), (.item 3, ⟨4, by decide⟩),
      (.tick, ⟨14, by decide⟩), (.item 4, ⟨25, by decide⟩)] ⟨26, by decide⟩
    (by simp [NonDecreasing]) (by decide)).trans (by decide +kernel)

end PipeIo
