import PipeIo.Lib.Grouping
import PipeIo.WindowAbsorb
import PipeIo.WindowRun

namespace PipeIo
set_option autoImplicit true

open Lib

/-- The second item arrives within `idle` of the first. -/
def within (idle : Nat) (a b : T × Nat) : Bool := b.2 - a.2 ≤ idle

/-- Where the window of a cut of a session begins: at the last item of the cut before it, or at its
own first item. -/
def cut_start (cut : List (T × Nat) × List (T × Nat)) : Nat :=
  ((cut.1.getLast?.or cut.2.head?).map Prod.snd).getD 0

theorem cut_start_concat {before content : List (T × Nat)} {a : T × Nat}
    (hne : before ++ content ≠ []) : cut_start (before, content ++ [a]) = cut_start (before, content) := by
  rcases before.eq_nil_or_concat with rfl | ⟨l, b, rfl⟩
  · rw [List.nil_append] at hne
    obtain ⟨b, rest, rfl⟩ := List.exists_cons_of_ne_nil hne
    rfl
  · simp [cut_start]

/-- The window of a cut of a session. -/
def session_window (cut : List (T × Nat) × List (T × Nat)) : Window T :=
  ⟨cut.2.map Prod.fst, cut_start cut, (cut.2.getLast?.map Prod.snd).getD 0⟩

section

variable {T : Type} {idle m now last anchor : Nat} {item : T}
  {before content arrived : List (T × Nat)} {out : List (Window T)} {c : Core T}

/-- A core of a session policy, with what has arrived and what it has emitted. A session that its
limit has emptied goes on; its next window begins where the last one ended. -/
def Gathers (idle m : Nat) (arrived : List (T × Nat)) (last : Nat) (out : List (Window T))
    (c : Core T) : Prop :=
  (c = .session idle none none [] ∧ Closed (within idle) m session_window arrived out ∧
      ∀ b ∈ arrived.getLast?, idle < last - b.2) ∨
    ∃ before content b, c = .session idle (some (cut_start (before, content))) (some b.2)
        (content.map Prod.fst) ∧ arrived.getLast? = some b ∧ b.2 ≤ last ∧
      Opened (within idle) m session_window arrived out before content

/-- An item is added to a session. -/
theorem Gathers.push {start : Nat}
    (h : Takes (within idle) m session_window arrived out before content (item, now)) (hm : 0 < m)
    (hstart : start = cut_start (before, content ++ [(item, now)])) :
    Gathers idle m (arrived ++ [(item, now)]) now
      (out ++ (Core.session_push m now idle (some start) (content.map Prod.fst) item
        Emitting.emit).out)
      (Core.session_push m now idle (some start) (content.map Prod.fst) item Emitting.emit).val := by
  have hitems : content.map Prod.fst ++ [item] = (content ++ [(item, now)]).map Prod.fst := by
    rw [List.map_append]
    rfl
  rw [Core.session_push, hitems]
  by_cases hfull : ((content ++ [(item, now)]).map Prod.fst).length ≥ m
  · have hlen : m ≤ content.length + 1 := by simpa using hfull
    have hopened := h.full hm hlen
    have hwindow : session_window (before, content ++ [(item, now)]) =
        ⟨(content ++ [(item, now)]).map Prod.fst, start, now⟩ := by
      simp only [session_window, hstart, List.getLast?_concat, Option.map_some, Option.getD_some]
    rw [hwindow] at hopened
    rw [if_pos hfull]
    refine .inr ⟨_, [], (item, now), ?_, List.getLast?_concat, Nat.le_refl _, hopened⟩
    simp [cut_start, bind]
  · have hlen : content.length + 1 < m := by simpa using hfull
    rw [if_neg hfull, Emitting.pure_out, Emitting.pure_val, List.append_nil, hstart]
    exact .inr ⟨before, _, (item, now), rfl, List.getLast?_concat, Nat.le_refl _, h.short hlen⟩

/-- A session that is over is closed. -/
theorem close_session {b : T × Nat} (h : Opened (within idle) m session_window arrived out before content)
    (hm : 0 < m) (hb : arrived.getLast? = some b) :
    Closed (within idle) m session_window arrived
      (out ++ if (content.map Prod.fst).isEmpty then [] else
        [⟨content.map Prod.fst, cut_start (before, content), b.2⟩]) := by
  have hclosed := h.close hm
  by_cases hnil : content = []
  · subst hnil
    exact hclosed
  · have hne : ¬(content.map Prod.fst).isEmpty := by simpa using hnil
    have hlast : content.getLast? = some b := by
      have happend := h.getLast?_append
      rw [hb, List.getLast?_append, List.getLast?_eq_some_getLast hnil, Option.some_or] at happend
      rw [List.getLast?_eq_some_getLast hnil, happend]
    rw [if_neg hnil] at hclosed
    rw [if_neg hne]
    simp only [session_window, hlast, Option.map_some, Option.getD_some] at hclosed
    exact hclosed

variable [Timeline]

theorem Gathers.on_item (h : Gathers idle m arrived last out c) (hm : 0 < m) (hlast : last ≤ now)
    (item : T) :
    Gathers idle m (arrived ++ [(item, now)]) now
      (out ++ (c.on_item m anchor now item Emitting.emit).out)
      (c.on_item m anchor now item Emitting.emit).val := by
  rcases h with ⟨rfl, hclosed, hover⟩ | ⟨before, content, b, rfl, hb, hle, hopened⟩
  · have htakes := hclosed.takes (fun b hb => by
      have hlt := hover b hb
      rw [within, decide_eq_false_iff_not]
      omega : ∀ b ∈ arrived.getLast?, within idle b (item, now) = false)
    exact Gathers.push htakes hm rfl
  · by_cases hgap : idle < now - b.2
    · have htakes := (close_session hopened hm hb).takes (fun a ha => by
        cases hb.symm.trans ha
        rw [within, decide_eq_false_iff_not]
        omega : ∀ a ∈ arrived.getLast?, within idle a (item, now) = false)
      rw [Core.on_item_over item hgap, ← List.append_assoc]
      exact Gathers.push htakes hm rfl
    · have hsame : within idle b (item, now) = true := by
        rw [within, decide_eq_true_eq]
        omega
      rw [Core.on_item_within item hgap]
      refine Gathers.push (hopened.takes hb hsame) hm (cut_start_concat fun hnil => ?_).symm
      have happend := hopened.getLast?_append
      rw [hnil, hb] at happend
      cases happend

theorem Gathers.on_tick (h : Gathers idle m arrived last out c) (hm : 0 < m) (hlast : last ≤ now) :
    Gathers idle m arrived now (out ++ (c.on_tick anchor now Emitting.emit).out)
      (c.on_tick anchor now Emitting.emit).val := by
  rcases h with ⟨rfl, hclosed, hover⟩ | ⟨before, content, b, rfl, hb, hle, hopened⟩
  · refine .inl ⟨rfl, (List.append_nil out).symm ▸ hclosed, fun b hb => ?_⟩
    have hlt := hover b hb
    omega
  · by_cases hgap : idle < now - b.2
    · rw [Core.on_tick_session hgap]
      refine .inl ⟨rfl, close_session hopened hm hb, fun a ha => ?_⟩
      cases hb.symm.trans ha
      exact hgap
    · have hsame : (Core.session idle (some (cut_start (before, content))) (some b.2)
          (content.map Prod.fst)).on_tick anchor now Emitting.emit =
            pure (.session idle (some (cut_start (before, content))) (some b.2)
              (content.map Prod.fst)) := Core.on_tick_within hgap
      rw [hsame, Emitting.pure_out, Emitting.pure_val, List.append_nil]
      exact .inr ⟨before, content, b, rfl, hb, Nat.le_trans hle hlast, hopened⟩

theorem Gathers.on_flush (h : Gathers idle m arrived last out c) (hm : 0 < m) (now : Nat) :
    Closed (within idle) m session_window arrived (out ++ (c.on_flush now Emitting.emit).out) := by
  rcases h with ⟨rfl, hclosed, hover⟩ | ⟨before, content, b, rfl, hb, hle, hopened⟩
  · exact (List.append_nil out).symm ▸ hclosed
  · have hclosed := close_session hopened hm hb
    rw [Core.on_flush]
    split
    · rename_i hempty
      rw [if_pos hempty] at hclosed
      exact hclosed
    · rename_i hempty
      rw [if_neg hempty] at hclosed
      exact hclosed

end

namespace WindowStage

/-- What the session stage emits: a window for each cut of each run of items that follow one
another within `idle`. -/
theorem session_cuts [Timeline] {T : Type} {idle : Nat} {spec : WindowSpec}
    (hpolicy : spec.policy = .session idle) (events : List (WindowEvent T)) (now : Reading)
    (hmono : NonDecreasing (events ++ [(.flush, now)]))
    (hcalls : ∀ event ∈ events, event.1 ≠ .flush) :
    ((new spec).run (events ++ [(.flush, now)])).out =
      (((arrivals events).splitBy (within idle)).flatMap (cuts (limit_or_max spec.max_items))).map
        session_window := by
  have hm : 0 < limit_or_max spec.max_items := Nat.lt_of_lt_of_le Nat.one_pos (Nat.le_max_right ..)
  obtain ⟨hmono, -, -⟩ := List.pairwise_append.1 hmono
  obtain ⟨last, out, c, hc, hout, -⟩ := run_flushed spec (· ≤ ·)
    (Gathers idle (limit_or_max spec.max_items)) events now
    (fun arrived last out c item now hlast _ h => h.on_item hm hlast item)
    (fun arrived last out c now hlast _ h => h.on_tick hm hlast)
    (.inl ⟨by rw [hpolicy]; rfl, Closed.nil, by simp⟩) hcalls hmono fun _ _ => Nat.zero_le _
  rw [hout]
  exact hc.on_flush hm now

/-- Sessions split exactly at the gaps that are longer than `idle`, and each is cut into pieces of
`max_items`; a window ends with its last item, and ticks make no difference. -/
theorem session_groups [Timeline] {T : Type} {idle : Nat} {spec : WindowSpec}
    (hpolicy : spec.policy = .session idle) (events : List (WindowEvent T)) (now : Reading)
    (hmono : NonDecreasing (events ++ [(.flush, now)]))
    (hcalls : ∀ event ∈ events, event.1 ≠ .flush) :
    ((new spec).run (events ++ [(.flush, now)])).out.map (fun w => (w.items, w.end)) =
      (((arrivals events).splitBy (within idle)).flatMap
        (pieces (limit_or_max spec.max_items))).map
          fun piece => (piece.map Prod.fst, (piece.getLast?.map Prod.snd).getD 0) := by
  rw [session_cuts hpolicy events now hmono hcalls, List.map_map, ← map_cuts]
  rfl

/-- A tick just before the gap is too long, a cut, and a gap that is. -/
theorem session_groups_gap :
    (@run smallTimeline Nat (new ⟨.session 10, some 2, none⟩)
      ([(.item 1, ⟨3, by decide⟩), (.tick, ⟨13, by decide⟩), (.item 2, ⟨13, by decide⟩),
        (.item 3, ⟨20, by decide⟩), (.item 4, ⟨31, by decide⟩)] ++
          [(.flush, ⟨32, by decide⟩)])).out.map (fun w => (w.items, w.end)) =
      [([1, 2], 13), ([3], 20), ([4], 31)] :=
  (@session_groups smallTimeline Nat 10 ⟨.session 10, some 2, none⟩ rfl
    [(.item 1, ⟨3, by decide⟩), (.tick, ⟨13, by decide⟩), (.item 2, ⟨13, by decide⟩),
      (.item 3, ⟨20, by decide⟩), (.item 4, ⟨31, by decide⟩)] ⟨32, by decide⟩
    (by simp [NonDecreasing]) (by decide)).trans (by decide +kernel)

end WindowStage

end PipeIo
