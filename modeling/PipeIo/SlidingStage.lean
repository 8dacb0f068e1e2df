import PipeIo.SlidingCover

namespace PipeIo
set_option autoImplicit true

open Lib

namespace WindowStage

section

variable [Timeline] {T : Type} {size slide max_items anchor last : Nat} {s : WindowStage T}
  {arrived : List (T × Nat)} {out : List (Window T)}

/-- A stage over sliding windows in the middle of a run. -/
structure Sliding (size slide max_items anchor last : Nat) (arrived : List (T × Nat))
    (out : List (Window T)) (s : WindowStage T) (slots : List (Slot T)) : Prop where
  policy : s.policy = .sliding size slide
  capped : s.max_items = max_items
  core : s.core = .sliding size slide slots
  cover : Cover size slide anchor arrived out slots
  bounded : s.core.Bounded max_items anchor last
  started : s.anchor = none ↔ arrived = []
  unused : s.anchor = none → slots = []
  anchored : ∀ a, s.anchor = some a → a = anchor ∧ anchor ≤ last

theorem Sliding.on_item {slots : List (Slot T)} {now : Nat} (item : T)
    (h : Sliding size slide max_items anchor last arrived out s slots)
    (hvalid : (WindowPolicy.sliding size slide).Valid) (hm : 0 < max_items) (hlast : last ≤ now)
    (hn : now ≤ Timeline.horizon) (hrep : now + size ≤ Timeline.horizon)
    (horigin : s.anchor = none → anchor = grid_origin (.sliding size slide) now) :
    ∃ slots', Sliding size slide max_items anchor now (arrived ++ [(item, now)])
        (out ++ (s.process item now Emitting.emit).out) (s.process item now Emitting.emit).val slots' ∧
      (Ordered size last out slots →
        (∀ k, (Slot.contents slots k ++ [item]).length < max_items) →
        Ordered size now (out ++ (s.process item now Emitting.emit).out) slots') := by
  have hs := hvalid.1
  have hslide := hvalid.2.1
  have hanchor : s.anchor.getD (grid_origin s.policy now) = anchor ∧ anchor ≤ now := by
    cases ha : s.anchor with
    | none =>
      rw [Option.getD_none, h.policy, ← horigin ha]
      refine ⟨rfl, ?_⟩
      rw [horigin ha]
      exact grid_origin_le _ now
    | some a =>
      obtain ⟨rfl, hle⟩ := h.anchored a ha
      exact ⟨rfl, Nat.le_trans hle hlast⟩
  obtain ⟨horigin, hle⟩ := hanchor
  have ha : anchor ≤ Timeline.horizon := Nat.le_trans hle hn
  obtain ⟨f, hfill, hval, hout⟩ :=
    Core.on_item_filled max_items h.cover.gridded hs hslide ha hn item
  have hclose := h.cover.close hs (sliding_range anchor now size slide).1
  have hprocess : (s.process item now Emitting.emit).val =
        { s with anchor := some anchor, core := .sliding size slide f.val } ∧
      (s.process item now Emitting.emit).out =
        (emit_slots_before (sliding_range anchor now size slide).1 Emitting.emit slots).out ++
          f.out := by
    simp only [process, horigin, h.core, h.capped, Emitting.bind_val, Emitting.bind_out,
      Emitting.pure_val, Emitting.pure_out, List.append_nil, hval, hout, and_self]
  rw [hprocess.1, hprocess.2]
  refine ⟨f.val, ⟨h.policy, h.capped, rfl, ?_, ?_, by simp, nofun, ?_⟩, fun hord hcap => ?_⟩
  · rw [← List.append_assoc]
    exact hclose.fill hs hslide hle hrep hfill
  · have hfits : (Core.sliding size slide slots).Fits (.sliding size slide) anchor :=
      ⟨rfl, h.cover.gridded⟩
    have hbefore := h.bounded
    rw [h.core] at hbefore
    have hbounded := Core.bounded_on_item hbefore hlast hfits hvalid ha hn hm item
    rw [hval] at hbounded
    exact hbounded
  · rintro _ ⟨⟩
    exact ⟨rfl, hle⟩
  · rw [← List.append_assoc]
    refine (hord.close h.cover.gridded hs hle hlast).fill hs hle hfill hclose.gridded fun k => ?_
    have hsplit := (contents_split h.cover.gridded.sorted
      (sliding_range anchor now size slide).1 k).2
    rw [hsplit]
    have := hcap k
    split
    · simp at this ⊢
      omega
    · exact this

theorem Sliding.on_tick {slots : List (Slot T)} {now : Nat}
    (h : Sliding size slide max_items anchor last arrived out s slots)
    (hvalid : (WindowPolicy.sliding size slide).Valid) (hm : 0 < max_items) (hlast : last ≤ now) :
    ∃ slots', Sliding size slide max_items anchor now arrived
        (out ++ (s.tick now Emitting.emit).out) (s.tick now Emitting.emit).val slots' ∧
      (Ordered size last out slots →
        Ordered size now (out ++ (s.tick now Emitting.emit).out) slots') := by
  have hs := hvalid.1
  cases ha : s.anchor with
  | none =>
    have hslots := h.unused ha
    simp only [tick, ha, Emitting.pure_val, Emitting.pure_out, List.append_nil]
    refine ⟨slots, ⟨h.policy, h.capped, h.core, h.cover, ?_, h.started, h.unused, ?_⟩, fun hord => ?_⟩
    · rw [h.core, hslots]
      exact ⟨by simp, 0, Nat.zero_le _, by simp⟩
    · simp [ha]
    · refine ⟨hord.sorted, fun w hw => Nat.le_trans (hord.closed w hw) hlast, ?_⟩
      simp [hslots]
  | some a =>
    obtain ⟨rfl, hle⟩ := h.anchored a ha
    have htick : (s.tick now Emitting.emit).val = { s with
          core := .sliding size slide
            (slots.dropWhile fun s => s.k < (sliding_range a now size slide).1) } ∧
        (s.tick now Emitting.emit).out =
          (emit_slots_before (sliding_range a now size slide).1 Emitting.emit slots).out := by
      simp only [tick, ha, h.core, Core.on_tick, Emitting.bind_val, Emitting.bind_out,
        Emitting.map_val, Emitting.map_out, Emitting.pure_val, Emitting.pure_out, List.append_nil,
        emit_slots_before_val, and_self]
    rw [htick.1, htick.2]
    refine ⟨_, ⟨h.policy, h.capped, rfl, h.cover.close hs _, ?_, h.started, ?_, ?_⟩, fun hord => ?_⟩
    · have hbounded := Core.bounded_on_tick h.bounded hlast hm
      rw [h.core] at hbounded
      simp only [Core.on_tick, Emitting.map_val, emit_slots_before_val] at hbounded
      exact hbounded
    · simp [ha]
    · intro b hb
      obtain ⟨rfl, -⟩ := h.anchored b hb
      exact ⟨rfl, Nat.le_trans hle hlast⟩
    · exact hord.close h.cover.gridded hs (Nat.le_trans hle hlast) hlast

theorem Sliding.on_flush {slots : List (Slot T)} {now : Nat}
    (h : Sliding size slide max_items anchor last arrived out s slots)
    (hvalid : (WindowPolicy.sliding size slide).Valid) (hlast : last ≤ now) :
    Sliding size slide max_items anchor now arrived
        (out ++ (s.flush now Emitting.emit).out) (s.flush now Emitting.emit).val [] ∧
      (Ordered size last out slots →
        (out ++ (s.flush now Emitting.emit).out).Pairwise fun a b => a.start < b.start) := by
  have hs := hvalid.1
  have hflush : (s.flush now Emitting.emit).val = { s with core := .sliding size slide [] } ∧
      (s.flush now Emitting.emit).out = (Slot.live slots).map (Slot.window fun _ => now) := by
    simp only [flush, h.core, Core.on_flush, Emitting.bind_val, Emitting.bind_out,
      Emitting.pure_val, Emitting.pure_out, List.append_nil, flush_slots_out, and_self]
  rw [hflush.1, hflush.2]
  refine ⟨⟨h.policy, h.capped, rfl, ⟨.nil, fun k => ?_, by simp, fun w hw => ?_⟩, ?_, h.started,
    fun _ => rfl, ?_⟩,
    fun hord => hord.flush h.cover.gridded hs _⟩
  · rw [itemsAt_append, itemsAt_slots h.cover.gridded hs, Slot.contents_nil, List.append_nil]
    exact h.cover.content k
  · rcases List.mem_append.1 hw with hw | hw
    · exact h.cover.grid w hw
    · exact slots_on_grid h.cover.gridded h.cover.fits _ w hw
  · exact ⟨by simp, 0, Nat.zero_le _, by simp⟩
  · intro a ha
    obtain ⟨rfl, hle⟩ := h.anchored a ha
    exact ⟨rfl, Nat.le_trans hle hlast⟩

/-- The stage at one event. -/
theorem Sliding.step {slots : List (Slot T)}
    (h : Sliding size slide max_items anchor last arrived out s slots)
    (hvalid : (WindowPolicy.sliding size slide).Valid) (hm : 0 < max_items)
    (event : WindowEvent T) (hlast : last ≤ event.2.1)
    (hrep : ∀ a ∈ arrivals [event], a.2 + size ≤ Timeline.horizon)
    (horigin : arrived = [] → ∀ a, (arrivals [event]).head? = some a →
      anchor = grid_origin (.sliding size slide) a.2) :
    ∃ slots', Sliding size slide max_items anchor event.2.1 (arrived ++ arrivals [event])
        (out ++ (s.step event).out) (s.step event).val slots' ∧
      (event.1 ≠ .flush → Ordered size last out slots →
        (arrived ++ arrivals [event]).length < max_items →
        Ordered size event.2.1 (out ++ (s.step event).out) slots') := by
  obtain ⟨call, now, hn⟩ := event
  cases call with
  | item item =>
    obtain ⟨slots', hsliding, hord⟩ := Sliding.on_item item h hvalid hm hlast hn
      (hrep _ List.mem_cons_self) fun hnone => horigin (h.started.1 hnone) _ rfl
    refine ⟨slots', hsliding, fun _ ho hlen => hord ho fun k => ?_⟩
    have hle := h.cover.contents_le k
    rw [List.length_append, List.length_singleton]
    rw [List.length_append, show (arrivals [(WindowCall.item item, (⟨now, hn⟩ : Reading))]).length = 1
      from rfl] at hlen
    omega
  | tick =>
    obtain ⟨slots', hsliding, hord⟩ := h.on_tick hvalid hm hlast
    refine ⟨slots', ?_, fun _ ho _ => hord ho⟩
    rw [show arrivals [(WindowCall.tick, (⟨now, hn⟩ : Reading))] = ([] : List (T × Nat)) from rfl,
      List.append_nil]
    exact hsliding
  | flush =>
    obtain ⟨hsliding, -⟩ := h.on_flush hvalid hlast
    refine ⟨[], ?_, fun hne => absurd rfl hne⟩
    rw [show arrivals [(WindowCall.flush, (⟨now, hn⟩ : Reading))] = ([] : List (T × Nat)) from rfl,
      List.append_nil]
    exact hsliding

theorem arrivals_append (a b : List (WindowEvent T)) :
    arrivals (a ++ b) = arrivals a ++ arrivals b :=
  List.filterMap_append

/-- The stage over a run. -/
theorem Sliding.run {slots : List (Slot T)}
    (h : Sliding size slide max_items anchor last arrived out s slots)
    (hvalid : (WindowPolicy.sliding size slide).Valid) (hm : 0 < max_items)
    (events : List (WindowEvent T)) (hmono : NonDecreasing events)
    (hlast : ∀ event ∈ events, last ≤ event.2.1)
    (hrep : ∀ a ∈ arrivals events, a.2 + size ≤ Timeline.horizon)
    (horigin : arrived = [] → ∀ a, (arrivals events).head? = some a →
      anchor = grid_origin (.sliding size slide) a.2) :
    ∃ slots' last', Sliding size slide max_items anchor last' (arrived ++ arrivals events)
        (out ++ (s.run events).out) (s.run events).val slots' ∧
      last ≤ last' ∧ (last' = last ∨ ∃ event ∈ events, last' = event.2.1) ∧
      ((∀ event ∈ events, event.1 ≠ .flush) → Ordered size last out slots →
        (arrived ++ arrivals events).length < max_items →
        Ordered size last' (out ++ (s.run events).out) slots') := by
  induction events generalizing s last arrived out slots with
  | nil =>
    refine ⟨slots, last, ?_, Nat.le_refl _, .inl rfl, fun _ hord _ => ?_⟩
    · rw [WindowStage.run, Emitting.pure_out, List.append_nil, arrivals, List.filterMap_nil,
        List.append_nil]
      exact h
    · rw [WindowStage.run, Emitting.pure_out, List.append_nil]
      exact hord
  | cons event events ih =>
    obtain ⟨hle, hmono⟩ := List.pairwise_cons.1 hmono
    have hsplit : arrivals (event :: events) = arrivals [event] ++ arrivals events :=
      arrivals_append [event] events
    rw [hsplit] at hrep horigin
    obtain ⟨slots', hstep, hord⟩ := h.step hvalid hm event (hlast event List.mem_cons_self)
      (fun a ha => hrep a (List.mem_append_left _ ha)) fun hnil a ha => horigin hnil a (by
        rw [List.head?_append, ha]
        rfl)
    obtain ⟨slots'', last', hrun, hlast', hwhen, hord'⟩ := ih hstep hmono hle
      (fun a ha => hrep a (List.mem_append_right _ ha)) fun hnil a ha => by
        obtain ⟨harrived, hevent⟩ := List.append_eq_nil_iff.1 hnil
        exact horigin harrived a (by rw [hevent]; exact ha)
    rw [List.append_assoc, List.append_assoc, ← hsplit] at hrun
    refine ⟨slots'', last', hrun, Nat.le_trans (hlast event List.mem_cons_self) hlast', ?_, ?_⟩
    · rcases hwhen with rfl | ⟨f, hf, rfl⟩
      · exact .inr ⟨event, List.mem_cons_self, rfl⟩
      · exact .inr ⟨f, List.mem_cons_of_mem event hf, rfl⟩
    · intro hcalls ho hlen
      rw [hsplit, ← List.append_assoc] at hlen
      have hlen' : (arrived ++ arrivals [event]).length < max_items := by
        rw [List.length_append] at hlen
        omega
      have := hord' (fun f hf => hcalls f (List.mem_cons_of_mem event hf))
        (hord (hcalls event List.mem_cons_self) ho hlen') hlen
      rw [List.append_assoc] at this
      exact this

theorem run_append (s : WindowStage T) (a b : List (WindowEvent T)) :
    (s.run (a ++ b)).val = ((s.run a).val.run b).val ∧
      (s.run (a ++ b)).out = (s.run a).out ++ ((s.run a).val.run b).out := by
  induction a generalizing s with
  | nil => exact ⟨rfl, rfl⟩
  | cons event a ih =>
    obtain ⟨hval, hout⟩ := ih (s.step event).val
    refine ⟨hval, ?_⟩
    rw [List.cons_append, WindowStage.run, Emitting.bind_out, hout, WindowStage.run,
      Emitting.bind_out, List.append_assoc]
    rfl

/-- What a run over sliding windows emits, ended by `flush`: in each window of the grid, the items
that arrived in it; each window once, in order, if the cap is not reached; and there are never more
windows open than may overlap. -/
structure CoversExactly (spec : WindowSpec) (size slide : Nat) (events : List (WindowEvent T))
    (now : Reading) : Prop where
  content : ∀ k, let start := origin spec.policy (arrivals events) + k * slide
    itemsAt ((new spec).run (events ++ [(.flush, now)])).out start =
      arrivedIn (arrivals events) start size
  grid : ∀ w ∈ ((new spec).run (events ++ [(.flush, now)])).out,
    OnGrid (origin spec.policy (arrivals events)) size slide w
  once : (∀ event ∈ events, event.1 ≠ .flush) → (arrivals events).length < limit_or_max spec.max_items →
    ∃ ks : List Nat, ks.Pairwise (· < ·) ∧
      (∀ k, k ∈ ks ↔ arrivedIn (arrivals events) (origin spec.policy (arrivals events) + k * slide)
        size ≠ []) ∧
      ((new spec).run (events ++ [(.flush, now)])).out = ks.map fun k =>
        let start := origin spec.policy (arrivals events) + k * slide
        ⟨arrivedIn (arrivals events) start size, start, start + size⟩
  opened : ∀ before after, events = before ++ after → ∃ slots,
    ((new spec).run before : Emitting (Window T) (WindowStage T)).val.core =
      .sliding size slide slots ∧ slots.length ≤ div_ceil size slide

theorem new_sliding {spec : WindowSpec} (hpolicy : spec.policy = .sliding size slide)
    (anchor : Nat) : Sliding size slide (limit_or_max spec.max_items) anchor 0 [] []
      (new spec : WindowStage T) [] where
  policy := hpolicy
  capped := rfl
  core := by rw [new, hpolicy]; rfl
  cover := ⟨.nil, fun _ => rfl, nofun, nofun⟩
  bounded := by
    rw [new, hpolicy]
    exact ⟨nofun, 0, Nat.zero_le _, nofun⟩
  started := by simp [new]
  unused _ := rfl
  anchored := nofun

/-- What a run over sliding windows has emitted after the flush at its end. -/
theorem sliding_flushed {spec : WindowSpec} (hpolicy : spec.policy = .sliding size slide)
    (hcheck : spec.policy.check = .ok ()) (events : List (WindowEvent T)) (now : Reading)
    (hmono : NonDecreasing (events ++ [(.flush, now)]))
    (hrep : ∀ a ∈ arrivals events, a.2 + size ≤ Timeline.horizon) :
    Cover size slide (origin spec.policy (arrivals events)) (arrivals events)
        ((new spec).run (events ++ [(.flush, now)])).out [] ∧
      ((∀ event ∈ events, event.1 ≠ .flush) →
        (arrivals events).length < limit_or_max spec.max_items →
        ((new spec).run (events ++ [(.flush, now)])).out.Pairwise fun a b => a.start < b.start) := by
  have hvalid : (WindowPolicy.sliding size slide).Valid := by
    rw [← hpolicy]
    exact WindowPolicy.check_ok.1 hcheck
  have hm : 0 < limit_or_max spec.max_items := Nat.lt_of_lt_of_le Nat.one_pos (Nat.le_max_right ..)
  obtain ⟨hmono, -, hnow⟩ := List.pairwise_append.1 hmono
  obtain ⟨slots, last, hrun, -, hwhen, hord⟩ :=
    (new_sliding hpolicy (origin spec.policy (arrivals events))).run hvalid hm events hmono
      (fun _ _ => Nat.zero_le _) hrep fun _ a ha => by
        rw [origin, ha, hpolicy]
        rfl
  rw [List.nil_append, List.nil_append] at hrun
  have hlast : last ≤ now.1 := by
    rcases hwhen with rfl | ⟨event, hmem, rfl⟩
    · exact Nat.zero_le _
    · exact hnow event hmem _ List.mem_cons_self
  obtain ⟨hflush, hsorted⟩ := hrun.on_flush hvalid hlast
  have hout : ((new spec).run (events ++ [(.flush, now)])).out =
      ((new spec).run events).out ++
        (((new spec).run events).val.flush now.1 Emitting.emit : Emitting (Window T) _).out := by
    rw [(run_append _ _ _).2, WindowStage.run, Emitting.bind_out, WindowStage.run,
      Emitting.pure_out, List.append_nil]
    rfl
  rw [hout]
  refine ⟨hflush.cover, fun hcalls hlen => hsorted ?_⟩
  have hordered : Ordered size 0 ([] : List (Window T)) ([] : List (Slot T)) := by
    refine ⟨.nil, fun w hw => ?_, fun s hs => ?_⟩
    · cases hw
    · cases hs
  exact hord hcalls hordered hlen

/-- Sliding windows cover exactly. -/
theorem sliding_covers_exactly {spec : WindowSpec} (hpolicy : spec.policy = .sliding size slide)
    (hcheck : spec.policy.check = .ok ()) (events : List (WindowEvent T)) (now : Reading)
    (hmono : NonDecreasing (events ++ [(.flush, now)]))
    (hrep : ∀ a ∈ arrivals events, a.2 + size ≤ Timeline.horizon) :
    CoversExactly spec size slide events now := by
  have hvalid : (WindowPolicy.sliding size slide).Valid := by
    rw [← hpolicy]
    exact WindowPolicy.check_ok.1 hcheck
  have hm : 0 < limit_or_max spec.max_items := Nat.lt_of_lt_of_le Nat.one_pos (Nat.le_max_right ..)
  obtain ⟨hcover, hsorted⟩ := sliding_flushed hpolicy hcheck events now hmono hrep
  refine ⟨fun k => ?_, hcover.grid, fun hcalls hlen => ?_, fun before after hevents => ?_⟩
  · have hcontent := hcover.content k
    rw [Slot.contents_nil, List.append_nil] at hcontent
    exact hcontent
  · exact hcover.once hvalid.1 (hsorted hcalls hlen)
  · subst hevents
    obtain ⟨hmono, -⟩ := List.pairwise_append.1 hmono
    rw [arrivals_append] at hrep
    obtain ⟨slots, _, hbefore, -⟩ :=
      (new_sliding hpolicy (origin spec.policy (arrivals before))).run hvalid hm before
        (List.pairwise_append.1 hmono).1 (fun _ _ => Nat.zero_le _)
        (fun a ha => hrep a (List.mem_append_left _ ha)) fun _ a ha => by
          rw [origin, ha, hpolicy]
          rfl
    have hbounded := hbefore.bounded
    rw [hbefore.core] at hbounded
    obtain ⟨-, e, -, he⟩ := hbounded
    exact ⟨slots, hbefore.core, length_le_div_ceil hvalid.1 hbefore.cover.gridded.sorted he⟩

end

theorem sliding_covers_exactly_10_4 : @CoversExactly smallTimeline Nat
    ⟨.sliding 10 4, some 2, none⟩ 10 4
    [(.item 1, ⟨12, by decide⟩), (.item 2, ⟨15, by decide⟩), (.tick, ⟨30, by decide⟩)]
    ⟨40, by decide⟩ :=
  @sliding_covers_exactly smallTimeline Nat 10 4 ⟨.sliding 10 4, some 2, none⟩ rfl rfl
    [(.item 1, ⟨12, by decide⟩), (.item 2, ⟨15, by decide⟩), (.tick, ⟨30, by decide⟩)]
    ⟨40, by decide⟩ (by simp [NonDecreasing]) (by decide)

end WindowStage

end PipeIo
