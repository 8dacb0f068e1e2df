import PipeIo.SlidingStage
import PipeIo.WindowRun

namespace PipeIo
set_option autoImplicit true

open Lib

def Window.map (f : A → T) (w : Window A) : Window T := ⟨w.items.map f, w.start, w.end⟩

/-- The windows hold what has arrived, each by its position: in the order of arrival, and at most
once. `count` is what is said about the number of windows that hold it. -/
def Placed (arrived : List (T × Nat)) (out : List (Window T)) (count : T × Nat → Nat → Prop) :
    Prop :=
  ∃ placed : List (Window (T × Nat)), out = placed.map (Window.map Prod.fst) ∧
    (∀ w ∈ placed, w.items.Sublist (arrived.map Prod.fst).zipIdx) ∧
    ∀ i a, arrived[i]? = some a → count a (placed.countP fun w => i ∈ w.items.map Prod.snd)

/-- How many of the windows contain an instant that lies `elapsed` after the anchor. All but the
last of `div_ceil size slide` slides fit into `size`; what is left over decides. -/
def overlaps (size slide elapsed : Nat) : Nat :=
  if elapsed % slide < size - (div_ceil size slide - 1) * slide then div_ceil size slide
  else div_ceil size slide - 1

section

variable {size slide elapsed k : Nat}

theorem div_ceil_spec (hs : 0 < slide) (hle : slide ≤ size) :
    1 ≤ div_ceil size slide ∧ (div_ceil size slide - 1) * slide < size ∧
      size ≤ (div_ceil size slide - 1) * slide + slide := by
  have hdiv := Nat.div_add_mod' size slide
  have hmod := Nat.mod_lt size hs
  have hpos : 1 ≤ size / slide := (Nat.one_le_div_iff hs).2 hle
  rw [div_ceil]
  split
  · rename_i hzero
    have hsub : (size / slide + 0 - 1) * slide + slide = size / slide * slide := by
      rw [← Nat.succ_mul]
      congr 1
      omega
    omega
  · rename_i hzero
    rw [Nat.add_sub_cancel]
    omega

/-- If `slide` divides `size`, the number does not depend on the instant. -/
theorem overlaps_of_dvd (hs : 0 < slide) (hle : slide ≤ size) (hdvd : slide ∣ size) :
    overlaps size slide elapsed = size / slide := by
  have hmod := Nat.mod_lt elapsed hs
  have hceil : div_ceil size slide = size / slide := by
    rw [div_ceil, if_pos (Nat.mod_eq_zero_of_dvd hdvd), Nat.add_zero]
  have hpos : 1 ≤ size / slide := (Nat.one_le_div_iff hs).2 hle
  have hsub : (size / slide - 1) * slide + slide = size := by
    rw [← Nat.succ_mul, Nat.succ_eq_add_one, Nat.sub_add_cancel hpos, Nat.div_mul_cancel hdvd]
  rw [overlaps, hceil, if_pos (by omega)]

/-- The windows that contain an instant are consecutive. -/
theorem overlaps_range (hs : 0 < slide) (hle : slide ≤ size)
    (hback : (div_ceil size slide - 1) * slide ≤ elapsed) :
    k * slide ≤ elapsed ∧ elapsed < k * slide + size ↔
      elapsed / slide + 1 - overlaps size slide elapsed ≤ k ∧
        k < elapsed / slide + 1 - overlaps size slide elapsed + overlaps size slide elapsed := by
  obtain ⟨hpos, hlt, hge⟩ := div_ceil_spec hs hle
  have hmod := Nat.mod_lt elapsed hs
  have hdiv := Nat.div_add_mod' elapsed slide
  have hmax : k * slide ≤ elapsed ↔ k ≤ elapsed / slide := (Nat.le_div_iff_mul_le hs).symm
  have hq : div_ceil size slide - 1 ≤ elapsed / slide := (Nat.le_div_iff_mul_le hs).2 hback
  have hmono : ∀ {a b : Nat}, a < b → a * slide + slide ≤ b * slide := by
    intro a b hab
    rw [← Nat.succ_mul]
    exact Nat.mul_le_mul_right slide hab
  rw [hmax, overlaps]
  generalize hc : div_ceil size slide - 1 = c at *
  generalize hquot : elapsed / slide = q at *
  have hsplit : (k + c) * slide = k * slide + c * slide := Nat.add_mul ..
  rcases Nat.lt_trichotomy (k + c) q with hkc | hkc | hkc
  · have := hmono hkc
    split <;> omega
  · rw [hkc] at hsplit
    split <;> omega
  · have := hmono hkc
    split <;> omega

end

theorem countP_range {ks : List Nat} {p : Nat → Prop} [DecidablePred p] {a n : Nat}
    (hnodup : ks.Nodup) (h : ∀ k, k ∈ ks ∧ p k ↔ a ≤ k ∧ k < a + n) :
    ks.countP (fun k => p k) = n := by
  have hperm : (ks.filter fun k => p k).Perm (List.range' a n) := by
    rw [List.perm_ext_iff_of_nodup (hnodup.filter _) List.nodup_range']
    intro k
    rw [List.mem_filter, decide_eq_true_eq, h, List.mem_range'_1]
  rw [List.countP_eq_length_filter, hperm.length_eq, List.length_range']

section

variable [Timeline] {T : Type} {anchor size slide : Nat} {arrived : List (T × Nat)}
  {out : List (Window T)}

/-- What has arrived in a window, by position. -/
def arrivedAt (arrived : List (T × Nat)) (start size : Nat) : List (T × Nat) :=
  (arrived.zipIdx.filter fun a => start ≤ a.1.2 ∧ a.1.2 < start + size).map fun a => (a.1.1, a.2)

omit [Timeline] in
theorem arrivedAt_items (start : Nat) :
    (arrivedAt arrived start size).map Prod.fst = arrivedIn arrived start size := by
  have hfst : arrived = arrived.zipIdx.map Prod.fst := (List.zipIdx_map_fst 0 arrived).symm
  rw [arrivedAt, arrivedIn, List.map_map]
  conv_rhs => rw [hfst, List.filter_map, List.map_map]
  rfl

omit [Timeline] in
theorem mem_arrivedAt {i start : Nat} {a : T × Nat} (h : arrived[i]? = some a) :
    i ∈ (arrivedAt arrived start size).map Prod.snd ↔ start ≤ a.2 ∧ a.2 < start + size := by
  rw [arrivedAt, List.map_map, List.mem_map]
  constructor
  · rintro ⟨⟨b, j⟩, hmem, rfl⟩
    obtain ⟨hmem, hin⟩ := List.mem_filter.1 hmem
    cases (List.mem_zipIdx_iff_getElem?.1 hmem).symm.trans h
    exact of_decide_eq_true hin
  · intro hin
    refine ⟨(a, i), List.mem_filter.2 ⟨List.mem_zipIdx_iff_getElem?.2 h, ?_⟩, rfl⟩
    exact decide_eq_true hin

/-- If each window of the grid is there once, each item is in those that contain its arrival. -/
theorem Cover.placed (h : Cover size slide anchor arrived out []) (hs : 0 < slide)
    (hle : slide ≤ size) (hsorted : out.Pairwise fun a b => a.start < b.start)
    (hback : ∀ a ∈ arrived, anchor + (div_ceil size slide - 1) * slide ≤ a.2) :
    Placed arrived out fun a n => n = overlaps size slide (a.2 - anchor) := by
  obtain ⟨ks, hks, hmem, hout⟩ := h.once hs hsorted
  refine ⟨ks.map fun k => ⟨arrivedAt arrived (anchor + k * slide) size, anchor + k * slide,
    anchor + k * slide + size⟩, ?_, fun w hw => ?_, fun i a ha => ?_⟩
  · rw [hout, List.map_map]
    apply List.map_congr_left
    intro k _
    rw [Function.comp_apply, Window.map, arrivedAt_items]
  · obtain ⟨k, -, rfl⟩ := List.mem_map.1 hw
    rw [List.zipIdx_map]
    exact List.filter_sublist.map _
  · have hmema := List.mem_of_getElem? ha
    have hfirst := hback a hmema
    have hrange : ∀ k, k ∈ ks ∧ (anchor + k * slide ≤ a.2 ∧ a.2 < anchor + k * slide + size) ↔
        (a.2 - anchor) / slide + 1 - overlaps size slide (a.2 - anchor) ≤ k ∧
          k < (a.2 - anchor) / slide + 1 - overlaps size slide (a.2 - anchor) +
            overlaps size slide (a.2 - anchor) := by
      intro k
      rw [← overlaps_range hs hle (Nat.le_sub_of_add_le' hfirst)]
      constructor
      · rintro ⟨-, hstart, hend⟩
        omega
      · intro hpart
        have hin : anchor + k * slide ≤ a.2 ∧ a.2 < anchor + k * slide + size := by omega
        refine ⟨(hmem k).2 fun hnil => ?_, hin⟩
        have hitem : a.1 ∈ arrivedIn arrived (anchor + k * slide) size :=
          List.mem_map_of_mem (List.mem_filter.2 ⟨hmema, decide_eq_true hin⟩)
        rw [hnil] at hitem
        cases hitem
    refine Eq.trans ?_ (countP_range (hks.imp Nat.ne_of_lt) hrange)
    rw [List.countP_map]
    apply List.countP_congr
    intro k _
    rw [Function.comp_apply, decide_eq_true_eq, decide_eq_true_eq]
    exact mem_arrivedAt ha

end

/-- An item joins every window that contains its arrival: `div_ceil size slide` of them, or one
less if it arrives in the last part of a slide. -/
theorem WindowStage.sliding_joins [Timeline] {T : Type} {size slide : Nat} {spec : WindowSpec}
    (hpolicy : spec.policy = .sliding size slide) (hcheck : spec.policy.check = .ok ())
    (events : List (WindowEvent T)) (now : Reading) (hmono : NonDecreasing (events ++ [(.flush, now)]))
    (hcalls : ∀ event ∈ events, event.1 ≠ .flush)
    (hcap : (arrivals events).length < limit_or_max spec.max_items)
    (hrep : ∀ a ∈ arrivals events, a.2 + size ≤ Timeline.horizon)
    (hback : ∀ a ∈ (arrivals events).head?, (div_ceil size slide - 1) * slide ≤ a.2) :
    let t0 := ((arrivals events).head?.map Prod.snd).getD 0
    Placed (arrivals events) ((new spec).run (events ++ [(.flush, now)])).out fun a n =>
      n = overlaps size slide (a.2 - t0) := by
  intro t0
  obtain ⟨hs, hle, -⟩ : (WindowPolicy.sliding size slide).Valid := by
    rw [← hpolicy]
    exact WindowPolicy.check_ok.1 hcheck
  obtain ⟨hcover, hsorted⟩ := sliding_flushed hpolicy hcheck events now hmono hrep
  have hfirst := first_le (List.pairwise_append.1 hmono).1
  have horigin : arrivals events ≠ [] →
      origin spec.policy (arrivals events) + (div_ceil size slide - 1) * slide = t0 := by
    intro hne
    obtain ⟨a, rest, harrivals⟩ := List.exists_cons_of_ne_nil hne
    have ha := hrep a (by rw [harrivals]; exact List.mem_cons_self)
    have hfits := Timeline.fits
    have hle' : (div_ceil size slide - 1) * slide ≤ a.2 := hback a (by rw [harrivals]; rfl)
    have hmax : max slide 1 = slide := by omega
    have hmin : min ((div_ceil size slide - 1) * slide) (2 ^ 128 - 1) =
        (div_ceil size slide - 1) * slide := by
      rw [durationMax] at hfits
      omega
    have ht0 : t0 = a.2 := by
      simp only [t0, harrivals, List.head?_cons, Option.map_some, Option.getD_some]
    rw [ht0, origin, hpolicy, harrivals, List.head?_cons, Option.map_some, Option.getD_some]
    simp only [grid_origin, hmax, hmin]
    rw [duration_from_nanos_eq (by omega), checked_sub, if_pos hle', Option.getD_some,
      Nat.sub_add_cancel hle']
  have hplaced := hcover.placed hs hle (hsorted hcalls hcap) fun a ha => by
    rw [horigin (List.ne_nil_of_mem ha)]
    exact hfirst a ha
  obtain ⟨placed, hout, hsub, hcount⟩ := hplaced
  refine ⟨placed, hout, hsub, fun i a ha => (hcount i a ha).trans ?_⟩
  -- The anchor lies a whole number of slides before the first item.
  have hmem := List.mem_of_getElem? ha
  have ht0 := hfirst a hmem
  have hanchor := horigin (List.ne_nil_of_mem hmem)
  have helapsed : a.2 - origin spec.policy (arrivals events) =
      a.2 - t0 + (div_ceil size slide - 1) * slide := by
    omega
  rw [overlaps, overlaps, helapsed, Nat.add_mul_mod_self_right]

theorem WindowStage.sliding_joins_10_4 : Placed [(1, 20), (2, 22)]
    (@run smallTimeline Nat (new ⟨.sliding 10 4, none, none⟩)
      ([(.item 1, ⟨20, by decide⟩), (.item 2, ⟨22, by decide⟩)] ++ [(.flush, ⟨30, by decide⟩)])).out
    fun a n => n = overlaps 10 4 (a.2 - 20) :=
  @sliding_joins smallTimeline Nat 10 4 ⟨.sliding 10 4, none, none⟩ rfl rfl
    [(.item 1, ⟨20, by decide⟩), (.item 2, ⟨22, by decide⟩)] ⟨30, by decide⟩
    (by simp [NonDecreasing]) (by decide) (by decide) (by decide) (by decide)

/-- The item at 22 has left the window from 12 on, and the next one begins at 24. -/
theorem WindowStage.joins_fewer : ¬∀ (size slide : Nat) (spec : WindowSpec)
    (events : List (@WindowEvent smallTimeline Nat)) (now : @Reading smallTimeline),
    spec.policy = .sliding size slide → spec.check = .ok () → spec.max_items = none →
    @NonDecreasing smallTimeline Nat (events ++ [(.flush, now)]) →
    (∀ event ∈ events, event.1 ≠ .flush) →
    (∀ a ∈ @arrivals smallTimeline Nat events, a.2 + size ≤ 100 ∧ size ≤ a.2) →
    Placed (@arrivals smallTimeline Nat events)
      (@run smallTimeline Nat (new spec) (events ++ [(.flush, now)])).out fun _ n =>
        n = div_ceil size slide := by
  intro h
  obtain ⟨placed, hout, hsub, hcount⟩ := h 10 4 ⟨.sliding 10 4, none, none⟩
    [(.item 1, ⟨20, by decide⟩), (.item 2, ⟨22, by decide⟩)] ⟨30, by decide⟩ rfl rfl rfl
    (by simp [NonDecreasing]) (by decide) (by decide)
  have hrun : (@run smallTimeline Nat (new ⟨.sliding 10 4, none, none⟩)
      ([(.item 1, ⟨20, by decide⟩), (.item 2, ⟨22, by decide⟩)] ++ [(.flush, ⟨30, by decide⟩)])).out =
        [⟨[1], 12, 22⟩, ⟨[1, 2], 16, 26⟩, ⟨[1, 2], 20, 30⟩] := by
    decide +kernel
  have hmap := hrun.symm.trans hout
  have hlen : placed.length = 3 := by
    rw [← List.length_map, ← hmap]
    rfl
  have hall := List.countP_eq_length.1 ((hcount 1 (2, 22) rfl).trans hlen.symm)
  cases placed with
  | nil => cases hlen
  | cons w rest =>
    have hitems : [1] = w.items.map Prod.fst := congrArg Window.items (List.cons.inj hmap).1
    obtain ⟨⟨x, i⟩, hx, hi⟩ := List.mem_map.1 (of_decide_eq_true (hall w List.mem_cons_self))
    have hmem := (hsub w List.mem_cons_self).subset hx
    have hone : x ∈ w.items.map Prod.fst := List.mem_map_of_mem hx
    rw [← hitems] at hone
    cases hi
    cases List.mem_singleton.1 hone
    revert hmem
    decide

end PipeIo
