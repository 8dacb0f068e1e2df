import PipeIo.WindowBounds

namespace PipeIo
set_option autoImplicit true

open Lib

/-- The items of the windows that begin at `start`, one window after the other. -/
def itemsAt (out : List (Window T)) (start : Nat) : List T :=
  (out.filter fun w => w.start = start).flatMap Window.items

/-- The items that arrived in the window from `start` on. -/
def arrivedIn (arrived : List (T × Nat)) (start size : Nat) : List T :=
  (arrived.filter fun a => start ≤ a.2 ∧ a.2 < start + size).map Prod.fst

section

variable {T : Type} {anchor now size slide max_items k : Nat} {slots : List (Slot T)} {item : T}

@[simp] theorem itemsAt_nil (start : Nat) : itemsAt ([] : List (Window T)) start = [] := rfl

@[simp] theorem itemsAt_append (a b : List (Window T)) (start : Nat) :
    itemsAt (a ++ b) start = itemsAt a start ++ itemsAt b start := by
  simp [itemsAt]

theorem itemsAt_cons (w : Window T) (out : List (Window T)) (start : Nat) :
    itemsAt (w :: out) start = (if w.start = start then w.items else []) ++ itemsAt out start := by
  by_cases h : w.start = start
  · simp [itemsAt, h]
  · simp [itemsAt, h]

theorem arrivedIn_concat (arrived : List (T × Nat)) (t start : Nat) :
    arrivedIn (arrived ++ [(item, t)]) start size =
      arrivedIn arrived start size ++ if start ≤ t ∧ t < start + size then [item] else [] := by
  by_cases h : start ≤ t ∧ t < start + size
  · simp [arrivedIn, h]
  · simp [arrivedIn, h]

/-- The windows of some slots hold what the slots held. -/
theorem itemsAt_slots [Timeline] (hg : Core.Gridded anchor size slide slots) (hs : 0 < slide)
    (otherwise : Slot T → Nat) (k : Nat) :
    itemsAt ((Slot.live slots).map (Slot.window otherwise)) (anchor + k * slide) =
      Slot.contents slots k := by
  induction slots with
  | nil => rfl
  | cons s rest ih =>
    have hrest := ih (hg.sub (List.sublist_cons_self s rest))
    have hstart : s.start = anchor + k * slide ↔ s.k = k := by
      rw [hg.start s List.mem_cons_self, Nat.add_left_cancel_iff]
      exact Nat.mul_left_inj (Nat.ne_of_gt hs)
    rw [Slot.contents_cons]
    by_cases he : s.items.isEmpty
    · rw [show Slot.live (s :: rest) = Slot.live rest by simp [Slot.live, he], hrest,
        List.isEmpty_iff.1 he, ite_self, List.nil_append]
    · rw [show Slot.live (s :: rest) = s :: Slot.live rest by simp [Slot.live, he], List.map_cons,
        itemsAt_cons, hrest]
      simp only [Slot.window, hstart]

/-- The windows that an item fills. -/
theorem itemsAt_spilled [Timeline] (hs : 0 < slide) (c : Nat → List T) (n a : Nat) (k : Nat) :
    itemsAt ((List.range' a n).flatMap fun j =>
        spilled max_items anchor now size slide item j (c j)) (anchor + k * slide) =
      if (a ≤ k ∧ k < a + n) ∧ (c k ++ [item]).length ≥ max_items then c k ++ [item] else [] := by
  induction n generalizing a with
  | zero =>
    rw [if_neg (by omega)]
    rfl
  | succ n ih =>
    have hhead : itemsAt (spilled max_items anchor now size slide item a (c a))
        (anchor + k * slide) =
          if a = k ∧ (c k ++ [item]).length ≥ max_items then c k ++ [item] else [] := by
      by_cases hak : a = k
      · subst hak
        rw [spilled]
        split
        · rename_i hfull
          rw [itemsAt_cons, if_pos rfl, if_pos ⟨rfl, hfull⟩]
          exact List.append_nil _
        · rename_i hfull
          rw [if_neg fun h => hfull h.2]
          rfl
      · have hne : ¬anchor + a * slide = anchor + k * slide := by
          rw [Nat.add_left_cancel_iff, Nat.mul_left_inj (Nat.ne_of_gt hs)]
          exact hak
        rw [if_neg fun h => hak h.1, spilled]
        split
        · rw [itemsAt_cons, if_neg hne]
          rfl
        · rfl
    rw [List.range'_succ, List.flatMap_cons, itemsAt_append, hhead, ih (a + 1)]
    by_cases hfull : (c k ++ [item]).length ≥ max_items
    · by_cases hak : a = k
      · rw [if_pos ⟨hak, hfull⟩, if_neg (by omega), if_pos ⟨by omega, hfull⟩, List.append_nil]
      · rw [if_neg fun h => hak h.1, List.nil_append]
        by_cases hk : a + 1 ≤ k ∧ k < a + 1 + n
        · rw [if_pos ⟨hk, hfull⟩, if_pos ⟨by omega, hfull⟩]
        · rw [if_neg fun h => hk h.1, if_neg fun h => hk (by omega)]
    · rw [if_neg fun h => hfull h.2, if_neg fun h => hfull h.2, if_neg fun h => hfull h.2]
      rfl

/-- Splitting the slots at a number splits their contents. -/
theorem contents_split (hsorted : slots.Pairwise fun a b => a.k < b.k) (k_min k : Nat) :
    Slot.contents (slots.takeWhile fun s => s.k < k_min) k =
        (if k < k_min then Slot.contents slots k else []) ∧
      Slot.contents (slots.dropWhile fun s => s.k < k_min) k =
        if k < k_min then [] else Slot.contents slots k := by
  have happend := Slot.contents_append (slots.takeWhile fun s => s.k < k_min)
    (slots.dropWhile fun s => s.k < k_min) k
  rw [List.takeWhile_append_dropWhile] at happend
  by_cases hk : k < k_min
  · have hdrop : Slot.contents (slots.dropWhile fun s => s.k < k_min) k = [] := by
      apply Slot.contents_absent
      intro s hs
      have := le_dropWhile hsorted hs
      omega
    rw [hdrop, List.append_nil] at happend
    rw [if_pos hk, if_pos hk]
    exact ⟨happend.symm, hdrop⟩
  · have htake : Slot.contents (slots.takeWhile fun s => s.k < k_min) k = [] := by
      apply Slot.contents_absent
      intro s hs
      have := takeWhile_lt hs
      omega
    rw [htake, List.nil_append] at happend
    rw [if_neg hk, if_neg hk]
    exact ⟨htake, happend.symm⟩

end

/-- A window of the grid, with items in it. -/
def OnGrid (anchor size slide : Nat) (w : Window T) : Prop :=
  w.items ≠ [] ∧ ∃ k, w.start = anchor + k * slide ∧ w.end = w.start + size

/-- What has been emitted, and what is still held, of the items that have arrived. -/
structure Cover [Timeline] (size slide anchor : Nat) (arrived : List (T × Nat))
    (out : List (Window T)) (slots : List (Slot T)) : Prop where
  gridded : Core.Gridded anchor size slide slots
  content : ∀ k, itemsAt out (anchor + k * slide) ++ Slot.contents slots k =
    arrivedIn arrived (anchor + k * slide) size
  fits : ∀ s ∈ slots, s.start + size ≤ Timeline.horizon
  grid : ∀ w ∈ out, OnGrid anchor size slide w

/-- What has been emitted ends before what is still held. -/
structure Ordered (size last : Nat) (out : List (Window T)) (slots : List (Slot T)) : Prop where
  sorted : out.Pairwise fun a b => a.start < b.start
  closed : ∀ w ∈ out, w.start + size ≤ last
  opened : ∀ s ∈ slots, last < s.start + size

section

variable [Timeline] {T : Type} {anchor now last size slide max_items : Nat}
  {slots part : List (Slot T)} {item : T} {arrived : List (T × Nat)} {out : List (Window T)}

theorem slots_on_grid (hg : Core.Gridded anchor size slide slots)
    (hfits : ∀ s ∈ slots, s.start + size ≤ Timeline.horizon) (otherwise : Slot T → Nat) :
    ∀ w ∈ (Slot.live slots).map (Slot.window otherwise), OnGrid anchor size slide w := by
  intro w hw
  obtain ⟨s, hs, rfl⟩ := List.mem_map.1 hw
  obtain ⟨hmem, hlive⟩ := List.mem_filter.1 hs
  refine ⟨?_, s.k, hg.start s hmem, ?_⟩
  · intro hnil
    rw [show s.items = [] from hnil] at hlive
    cases hlive
  · rw [Slot.window, hg.stop s hmem, checked_add_some (hfits s hmem)]
    rfl

theorem slots_sorted (hg : Core.Gridded anchor size slide slots) (hs : 0 < slide)
    (otherwise : Slot T → Nat) :
    ((Slot.live slots).map (Slot.window otherwise)).Pairwise fun a b => a.start < b.start := by
  refine List.pairwise_map.2 (List.Pairwise.imp_of_mem ?_ (hg.sorted.sublist List.filter_sublist))
  intro a b ha hb hlt
  have hmul := Nat.mul_lt_mul_of_pos_right hlt hs
  rw [Slot.window, Slot.window, hg.start a (List.mem_of_mem_filter ha),
    hg.start b (List.mem_of_mem_filter hb)]
  exact Nat.add_lt_add_left hmul anchor

/-- No window holds more than has arrived. -/
theorem Cover.contents_le {slots : List (Slot T)} (h : Cover size slide anchor arrived out slots)
    (k : Nat) : (Slot.contents slots k).length ≤ arrived.length := by
  have hlen := congrArg List.length (h.content k)
  have hfilter := List.length_filter_le
    (fun a => anchor + k * slide ≤ a.2 ∧ a.2 < anchor + k * slide + size) arrived
  rw [List.length_append, arrivedIn, List.length_map] at hlen
  omega

/-- Windows that expire move from what is held to what is emitted. -/
theorem Cover.close (h : Cover size slide anchor arrived out slots) (hs : 0 < slide)
    (k_min : Nat) :
    Cover size slide anchor arrived (out ++ (emit_slots_before k_min Emitting.emit slots).out)
      (slots.dropWhile fun s => s.k < k_min) where
  gridded := h.gridded.sub (slots.dropWhile_sublist _)
  content k := by
    obtain ⟨htake, hdrop⟩ := contents_split h.gridded.sorted k_min k
    rw [itemsAt_append, emit_slots_before_out,
      itemsAt_slots (h.gridded.sub (slots.takeWhile_sublist _)) hs, htake, hdrop, ← h.content k]
    split <;> simp
  fits s hmem := h.fits s ((slots.dropWhile_sublist _).subset hmem)
  grid w hw := by
    rcases List.mem_append.1 hw with hw | hw
    · exact h.grid w hw
    · rw [emit_slots_before_out] at hw
      have hsub := slots.takeWhile_sublist fun s => s.k < k_min
      exact slots_on_grid (h.gridded.sub hsub) (fun s hs => h.fits s (hsub.subset hs)) _ w hw

/-- An item goes into the windows that contain its arrival. -/
theorem Cover.fill {f : Emitting (Window T) (List (Slot T))}
    (h : Cover size slide anchor arrived out slots) (hs : 0 < slide) (hslide : slide ≤ size)
    (hle : anchor ≤ now) (hrep : now + size ≤ Timeline.horizon)
    (hfill : let r := sliding_range anchor now size slide
      Filled max_items anchor now size slide item (r.2 + 1 - r.1) r.1 slots f) :
    Cover size slide anchor (arrived ++ [(item, now)]) (out ++ f.out) f.val := by
  have hrange : (sliding_range anchor now size slide).1 ≤ (sliding_range anchor now size slide).2 :=
    k_min_le_k_max hs hslide
  have hin : ∀ k, ((sliding_range anchor now size slide).1 ≤ k ∧
      k < (sliding_range anchor now size slide).1 + ((sliding_range anchor now size slide).2 + 1 -
        (sliding_range anchor now size slide).1)) ↔
      anchor + k * slide ≤ now ∧ now < anchor + k * slide + size := by
    intro k
    rw [k_min_le hs]
    have hmax : k ≤ (sliding_range anchor now size slide).2 ↔ k * slide ≤ now - anchor := le_k_max hs
    omega
  refine ⟨hfill.gridded, fun k => ?_, fun s hmem => ?_, fun w hw => ?_⟩
  · rw [itemsAt_append, hfill.out, itemsAt_spilled hs, hfill.contents k, arrivedIn_concat,
      ← h.content k, List.append_assoc, List.append_assoc]
    simp only [hin]
    by_cases hk : anchor + k * slide ≤ now ∧ now < anchor + k * slide + size
    · rw [if_pos hk, if_pos hk]
      by_cases hfull : (Slot.contents slots k ++ [item]).length ≥ max_items
      · rw [if_pos ⟨hk, hfull⟩, stored, if_pos hfull, List.append_nil]
      · rw [if_neg fun h => hfull h.2, stored, if_neg hfull, List.nil_append]
    · rw [if_neg fun h => hk h.1, if_neg hk, if_neg hk, List.append_nil, List.nil_append]
  · rcases hfill.numbers s hmem with ⟨t, ht, hts⟩ | hk
    · rw [hfill.gridded.start s hmem, ← hts, ← h.gridded.start t ht]
      exact h.fits t ht
    · have := ((hin s.k).1 hk).1
      rw [hfill.gridded.start s hmem]
      omega
  · rcases List.mem_append.1 hw with hw | hw
    · exact h.grid w hw
    · rw [hfill.out, List.mem_flatMap] at hw
      obtain ⟨k, hk, hw⟩ := hw
      have hstart := ((hin k).1 (List.mem_range'_1.1 hk)).1
      rw [spilled] at hw
      split at hw
      · rw [List.mem_singleton] at hw
        subst hw
        refine ⟨by simp, k, rfl, ?_⟩
        rw [checked_add_some (by omega)]
        rfl
      · cases hw

theorem Ordered.close (h : Ordered size last out slots)
    (hg : Core.Gridded anchor size slide slots) (hs : 0 < slide) (hle : anchor ≤ now)
    (hlast : last ≤ now) :
    let k_min := (sliding_range anchor now size slide).1
    Ordered size now (out ++ (emit_slots_before k_min Emitting.emit slots).out)
      (slots.dropWhile fun s => s.k < k_min) := by
  intro k_min
  have htake := slots.takeWhile_sublist fun s => s.k < k_min
  have hdrop := slots.dropWhile_sublist fun s => s.k < k_min
  refine ⟨?_, fun w hw => ?_, fun s hmem => ?_⟩
  · rw [emit_slots_before_out, List.pairwise_append]
    refine ⟨h.sorted, slots_sorted (hg.sub htake) hs _, fun a ha b hb => ?_⟩
    obtain ⟨s, hmem, rfl⟩ := List.mem_map.1 hb
    have hclosed := h.closed a ha
    have hopen := h.opened s (htake.subset (List.mem_of_mem_filter hmem))
    show a.start < s.start
    omega
  · rcases List.mem_append.1 hw with hw | hw
    · exact Nat.le_trans (h.closed w hw) hlast
    · rw [emit_slots_before_out] at hw
      obtain ⟨s, hmem, rfl⟩ := List.mem_map.1 hw
      have hmem := List.mem_of_mem_filter hmem
      have hlt : ¬k_min ≤ s.k := Nat.not_le_of_lt (takeWhile_lt hmem)
      rw [k_min_le hs] at hlt
      show s.start + size ≤ now
      rw [hg.start s (htake.subset hmem)]
      omega
  · have hk : k_min ≤ s.k := le_dropWhile hg.sorted hmem
    rw [k_min_le hs] at hk
    rw [hg.start s (hdrop.subset hmem)]
    omega

/-- Without a cap an item emits nothing but what has expired. -/
theorem Ordered.fill {f : Emitting (Window T) (List (Slot T))} (h : Ordered size now out slots)
    (hs : 0 < slide) (hle : anchor ≤ now)
    (hfill : let r := sliding_range anchor now size slide
      Filled max_items anchor now size slide item (r.2 + 1 - r.1) r.1 slots f)
    (hg : Core.Gridded anchor size slide slots)
    (hcap : ∀ k, (Slot.contents slots k ++ [item]).length < max_items) :
    Ordered size now (out ++ f.out) f.val := by
  have hnone : f.out = [] := by
    rw [hfill.out, List.flatMap_eq_nil_iff]
    intro k _
    rw [spilled, if_neg (Nat.not_le_of_lt (hcap k))]
  rw [hnone, List.append_nil]
  refine ⟨h.sorted, h.closed, fun s hmem => ?_⟩
  rcases hfill.numbers s hmem with ⟨t, ht, hts⟩ | hk
  · rw [hfill.gridded.start s hmem, ← hts, ← hg.start t ht]
    exact h.opened t ht
  · have hk := hk.1
    rw [k_min_le hs] at hk
    rw [hfill.gridded.start s hmem]
    omega

/-- At the end what is still held follows what has been emitted. -/
theorem Ordered.flush (h : Ordered size last out slots)
    (hg : Core.Gridded anchor size slide slots) (hs : 0 < slide) (otherwise : Slot T → Nat) :
    (out ++ (Slot.live slots).map (Slot.window otherwise)).Pairwise fun a b => a.start < b.start := by
  refine List.pairwise_append.2 ⟨h.sorted, slots_sorted hg hs _, fun a ha b hb => ?_⟩
  obtain ⟨s, hmem, rfl⟩ := List.mem_map.1 hb
  have hclosed := h.closed a ha
  have hopen := h.opened s (List.mem_of_mem_filter hmem)
  show a.start < s.start
  omega

omit [Timeline] in
theorem itemsAt_sorted {w : Window T} (hsorted : out.Pairwise fun a b => a.start < b.start)
    (hw : w ∈ out) : itemsAt out w.start = w.items := by
  have hothers : ∀ l : List (Window T), (∀ v ∈ l, v.start ≠ w.start) → itemsAt l w.start = [] := by
    intro l hl
    have hnil : l.filter (fun v => v.start = w.start) = [] := by
      rw [List.filter_eq_nil_iff]
      intro v hv
      simpa using hl v hv
    rw [itemsAt, hnil]
    rfl
  obtain ⟨a, b, rfl⟩ := List.append_of_mem hw
  obtain ⟨-, hb, hab⟩ := List.pairwise_append.1 hsorted
  rw [itemsAt_append, itemsAt_cons, if_pos rfl,
    hothers a fun v hv => Nat.ne_of_lt (hab v hv w List.mem_cons_self),
    hothers b fun v hv => (Nat.ne_of_lt ((List.pairwise_cons.1 hb).1 v hv)).symm]
  simp

/-- Windows that begin one after the other are those in which something arrived. -/
theorem Cover.once (h : Cover size slide anchor arrived out []) (hs : 0 < slide)
    (hsorted : out.Pairwise fun a b => a.start < b.start) :
    ∃ ks : List Nat, ks.Pairwise (· < ·) ∧
      (∀ k, k ∈ ks ↔ arrivedIn arrived (anchor + k * slide) size ≠ []) ∧
      out = ks.map fun k => ⟨arrivedIn arrived (anchor + k * slide) size, anchor + k * slide,
        anchor + k * slide + size⟩ := by
  have hcontent : ∀ k, itemsAt out (anchor + k * slide) = arrivedIn arrived (anchor + k * slide) size := by
    intro k
    have := h.content k
    rw [Slot.contents_nil, List.append_nil] at this
    exact this
  have hindex : ∀ w ∈ out, w.start = anchor + (w.start - anchor) / slide * slide := by
    intro w hw
    obtain ⟨-, k, hstart, -⟩ := h.grid w hw
    rw [hstart, Nat.add_sub_cancel_left, Nat.mul_div_cancel k hs]
  have hitems : ∀ w ∈ out, arrivedIn arrived w.start size = w.items := by
    intro w hw
    have hw' := itemsAt_sorted hsorted hw
    obtain ⟨-, k, hstart, -⟩ := h.grid w hw
    rw [hstart, hcontent] at hw'
    rw [hstart, hw']
  refine ⟨out.map fun w => (w.start - anchor) / slide, ?_, fun k => ?_, ?_⟩
  · refine List.pairwise_map.2 (List.Pairwise.imp_of_mem ?_ hsorted)
    intro a b ha hb hlt
    rw [hindex a ha, hindex b hb] at hlt
    exact Nat.lt_of_mul_lt_mul_right (Nat.lt_of_add_lt_add_left hlt)
  · rw [List.mem_map]
    constructor
    · rintro ⟨w, hw, rfl⟩
      rw [← hindex w hw, hitems w hw]
      exact (h.grid w hw).1
    · intro hne
      rw [← hcontent k] at hne
      by_contra hnone
      apply hne
      have hnil : out.filter (fun w => w.start = anchor + k * slide) = [] := by
        rw [List.filter_eq_nil_iff]
        intro w hw heq
        apply hnone
        refine ⟨w, hw, ?_⟩
        rw [of_decide_eq_true heq, Nat.add_sub_cancel_left, Nat.mul_div_cancel k hs]
      rw [itemsAt, hnil]
      rfl
  · rw [List.map_map]
    conv_lhs => rw [← List.map_id out]
    apply List.map_congr_left
    intro w hw
    obtain ⟨-, _, -, hend⟩ := h.grid w hw
    simp only [Function.comp_apply, ← hindex w hw, hitems w hw, ← hend, id]

end

end PipeIo
