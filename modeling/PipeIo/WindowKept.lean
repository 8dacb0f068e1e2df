import PipeIo.SlidingJoins

namespace PipeIo
set_option autoImplicit true

open Lib

/-- What has arrived went into the windows, one after the other, but for the items still buffered. -/
structure Buffered (max_items : Nat) (arrived : List T) (out : List (Window T)) (items : List T) :
    Prop where
  windows : ∀ w ∈ out, w.items ≠ [] ∧ w.items.length ≤ max_items
  content : out.flatMap Window.items ++ items = arrived
  short : items.length < max_items

section

variable {T : Type} {max_items : Nat} {arrived items : List T} {out : List (Window T)}

theorem Buffered.close (h : Buffered max_items arrived out items) (hne : items ≠ []) (s e : Nat) :
    Buffered max_items arrived (out ++ [⟨items, s, e⟩]) [] where
  windows w hw := by
    rcases List.mem_append.1 hw with hw | hw
    · exact h.windows w hw
    · cases List.mem_singleton.1 hw
      exact ⟨hne, Nat.le_of_lt h.short⟩
  content := by
    rw [← h.content]
    simp
  short := Nat.lt_of_le_of_lt (Nat.zero_le _) h.short

theorem Buffered.full (h : Buffered max_items arrived out items) (item : T) (s e : Nat) :
    Buffered max_items (arrived ++ [item]) (out ++ [⟨items ++ [item], s, e⟩]) [] where
  windows w hw := by
    rcases List.mem_append.1 hw with hw | hw
    · exact h.windows w hw
    · cases List.mem_singleton.1 hw
      have hshort := h.short
      refine ⟨by simp, ?_⟩
      rw [List.length_append, List.length_singleton]
      omega
  content := by
    rw [← h.content]
    simp
  short := Nat.lt_of_le_of_lt (Nat.zero_le _) h.short

theorem Buffered.add (h : Buffered max_items arrived out items) (item : T)
    (hfull : ¬(items ++ [item]).length ≥ max_items) :
    Buffered max_items (arrived ++ [item]) out (items ++ [item]) where
  windows := h.windows
  content := by
    rw [← h.content, List.append_assoc]
  short := Nat.lt_of_not_le hfull

end

/-- How many of some lists hold what arrived at position `i`. -/
def copies (i : Nat) (lists : List (List (T × Nat))) : Nat :=
  lists.countP fun l => i ∈ l.map Prod.snd

section

variable {T : Type} {i : Nat} {a b : List (List (T × Nat))}

@[simp] theorem copies_nil : copies i ([] : List (List (T × Nat))) = 0 := rfl

@[simp] theorem copies_append : copies i (a ++ b) = copies i a + copies i b :=
  List.countP_append

theorem copies_cons (l : List (T × Nat)) :
    copies i (l :: a) = (if i ∈ l.map Prod.snd then 1 else 0) + copies i a := by
  rw [copies, List.countP_cons, Nat.add_comm]
  simp only [decide_eq_true_eq]
  rfl

/-- Empty windows hold nothing. -/
theorem copies_live (slots : List (Slot (T × Nat))) (otherwise : Slot (T × Nat) → Nat) :
    copies i (((Slot.live slots).map (Slot.window otherwise)).map Window.items) =
      copies i (slots.map Slot.items) := by
  induction slots with
  | nil => rfl
  | cons s rest ih =>
    by_cases he : s.items.isEmpty
    · have hnil := List.isEmpty_iff.1 he
      rw [show Slot.live (s :: rest) = Slot.live rest by simp [Slot.live, he], ih, List.map_cons,
        copies_cons, hnil]
      simp
    · rw [show Slot.live (s :: rest) = s :: Slot.live rest by simp [Slot.live, he], List.map_cons,
        List.map_cons, List.map_cons, copies_cons, copies_cons, ih]
      rfl

end

def Slot.map (f : A → T) (s : Slot A) : Slot T := ⟨s.k, s.start, s.end, s.items.map f⟩

section

variable {A T : Type} {f : A → T} {k_min now : Nat} {slots : List (Slot A)}

theorem live_map : Slot.live (slots.map (Slot.map f)) = (Slot.live slots).map (Slot.map f) := by
  rw [Slot.live, Slot.live, List.filter_map]
  congr 1
  apply List.filter_congr
  intro s _
  simp [Slot.map]

/-- The windows do not depend on what the items are. -/
theorem emit_slots_before_map (f : A → T) (k_min : Nat) (slots : List (Slot A)) :
    (emit_slots_before k_min Emitting.emit (slots.map (Slot.map f))).val =
        (emit_slots_before k_min Emitting.emit slots).val.map (Slot.map f) ∧
      (emit_slots_before k_min Emitting.emit (slots.map (Slot.map f))).out =
        (emit_slots_before k_min Emitting.emit slots).out.map (Window.map f) := by
  rw [emit_slots_before_val, emit_slots_before_val, emit_slots_before_out, emit_slots_before_out,
    List.takeWhile_map, List.dropWhile_map, live_map, List.map_map, List.map_map]
  exact ⟨rfl, rfl⟩

theorem flush_slots_map (f : A → T) (now : Nat) (slots : List (Slot A)) :
    (Core.flush_slots now Emitting.emit (slots.map (Slot.map f))).out =
      (Core.flush_slots now Emitting.emit slots).out.map (Window.map f) := by
  rw [flush_slots_out, flush_slots_out, live_map, List.map_map, List.map_map]
  rfl

theorem stored_map (max_items : Nat) (items : List A) (a : A) :
    stored max_items (items.map f) (f a) = (stored max_items items a).map f := by
  have hitems : items.map f ++ [f a] = (items ++ [a]).map f := by simp
  rw [stored, stored, hitems, List.length_map]
  split <;> rfl

theorem Slot.push_map (f : A → T) (max_items now : Nat) (a : A) (s : Slot A) :
    ((s.map f).push max_items now (f a) Emitting.emit).val =
        ((s.push max_items now a Emitting.emit).val).map f ∧
      ((s.map f).push max_items now (f a) Emitting.emit).out =
        (s.push max_items now a Emitting.emit).out.map (Window.map f) := by
  have hitems : s.items.map f ++ [f a] = (s.items ++ [a]).map f := by simp
  rw [Slot.push_val, Slot.push_val, Slot.push_out, Slot.push_out]
  refine ⟨?_, ?_⟩
  · simp only [Slot.map, stored_map]
  · simp only [Slot.map, hitems, List.length_map]
    split <;> rfl

variable [Timeline] {anchor size slide : Nat}

theorem Slot.at_map (f : A → T) (size slide anchor now k : Nat) (slots : List (Slot A)) :
    Slot.at size slide anchor now k (slots.map (Slot.map f)) =
      ((Slot.at size slide anchor now k slots).1.map f,
        (Slot.at size slide anchor now k slots).2.map (Slot.map f)) := by
  cases slots with
  | nil => rfl
  | cons s rest =>
    have hsame : (s.map f).k = s.k := rfl
    simp only [Slot.at, List.map_cons, hsame]
    by_cases hk : s.k = k
    · simp only [hk, ne_eq, not_true_eq_false, if_false]
    · simp only [hk, ne_eq, not_false_eq_true, if_true]
      rfl

theorem sliding_fill_map (f : A → T) (max_items size slide anchor now : Nat) (a : A) (n k : Nat)
    (slots : List (Slot A)) :
    (sliding_fill max_items size slide anchor now (f a) Emitting.emit n k
        (slots.map (Slot.map f))).val =
      (sliding_fill max_items size slide anchor now a Emitting.emit n k slots).val.map
        (Slot.map f) ∧
    (sliding_fill max_items size slide anchor now (f a) Emitting.emit n k
        (slots.map (Slot.map f))).out =
      (sliding_fill max_items size slide anchor now a Emitting.emit n k slots).out.map
        (Window.map f) := by
  induction n generalizing k slots with
  | zero => exact ⟨rfl, rfl⟩
  | succ n ih =>
    rw [sliding_fill_succ, sliding_fill_succ, List.takeWhile_map, List.dropWhile_map]
    have hat := Slot.at_map f size slide anchor now k (slots.dropWhile fun s => s.k < k)
    have hpush := Slot.push_map f max_items now a
      (Slot.at size slide anchor now k (slots.dropWhile fun s => s.k < k)).1
    have hrest := ih (k + 1) (Slot.at size slide anchor now k (slots.dropWhile fun s => s.k < k)).2
    have hcomp : ((fun s : Slot T => decide (s.k < k)) ∘ Slot.map f) =
        fun s : Slot A => decide (s.k < k) := rfl
    simp only [hcomp, hat, Emitting.bind_val, Emitting.bind_out, Emitting.pure_val,
      Emitting.pure_out, hpush.1, hpush.2, hrest.1, hrest.2, List.map_append, List.map_cons,
      List.append_nil, and_self]

end

section

variable [Timeline] {T : Type} {anchor now size slide k max_items i : Nat}

theorem Slot.at_cases (size slide anchor now k : Nat) (slots : List (Slot T)) :
    ((Slot.at size slide anchor now k slots).1.items = [] ∧
      (Slot.at size slide anchor now k slots).2 = slots) ∨
    slots = (Slot.at size slide anchor now k slots).1 :: (Slot.at size slide anchor now k slots).2 := by
  cases slots with
  | nil => exact .inl ⟨rfl, rfl⟩
  | cons s rest =>
    simp only [Slot.at]
    split
    · exact .inl ⟨rfl, rfl⟩
    · exact .inr rfl

omit [Timeline] in
/-- An item makes one copy of itself in a slot, and leaves the others. -/
theorem Slot.push_copies (i max_items now : Nat) {x : T × Nat} {s : Slot (T × Nat)} (hnew : x.2 ∉ s.items.map Prod.snd) :
    copies i ((s.push max_items now x Emitting.emit).out.map Window.items) +
        copies i [(s.push max_items now x Emitting.emit).val.items] =
      copies i [s.items] + if i = x.2 then 1 else 0 := by
  have hadded : copies i [s.items ++ [x]] = copies i [s.items] + if i = x.2 then 1 else 0 := by
    rw [copies_cons, copies_cons, copies_nil, Nat.add_zero, Nat.add_zero, List.map_append,
      List.map_singleton]
    by_cases hi : i = x.2
    · subst hi
      rw [if_pos (by simp), if_neg hnew, if_pos rfl]
    · have hmem : i ∈ s.items.map Prod.snd ++ [x.2] ↔ i ∈ s.items.map Prod.snd := by simp [hi]
      rw [if_neg hi, Nat.add_zero, if_congr hmem rfl rfl]
  rw [Slot.push_val, Slot.push_out, ← hadded, stored]
  split
  · simp [copies]
  · exact Nat.zero_add _

/-- The pass of an item over the slots copies it into each of its windows. -/
theorem fill_copies (x : T × Nat) (n k : Nat) (slots : List (Slot (T × Nat)))
    (hnew : ∀ s ∈ slots, x.2 ∉ s.items.map Prod.snd) :
    copies i ((sliding_fill max_items size slide anchor now x Emitting.emit n k slots).out.map
        Window.items) +
      copies i ((sliding_fill max_items size slide anchor now x Emitting.emit n k slots).val.map
        Slot.items) =
      copies i (slots.map Slot.items) + if i = x.2 then n else 0 := by
  induction n generalizing k slots with
  | zero => simp [sliding_fill]
  | succ n ih =>
    rw [sliding_fill_succ]
    have hcases := Slot.at_cases size slide anchor now k (slots.dropWhile fun s => s.k < k)
    generalize Slot.at size slide anchor now k (slots.dropWhile fun s => s.k < k) = r at hcases
    have hdrop : ∀ s ∈ slots.dropWhile fun s => s.k < k, x.2 ∉ s.items.map Prod.snd :=
      fun s hs => hnew s ((slots.dropWhile_sublist _).subset hs)
    have hsame : copies i [r.1.items] + copies i (r.2.map Slot.items) =
          copies i ((slots.dropWhile fun s => s.k < k).map Slot.items) ∧
        x.2 ∉ r.1.items.map Prod.snd ∧ ∀ s ∈ r.2, x.2 ∉ s.items.map Prod.snd := by
      rcases hcases with ⟨hnil, hrest⟩ | hcons
      · rw [hnil, hrest]
        exact ⟨by simp [copies], by simp, hdrop⟩
      · simp only [hcons, List.map_cons, copies_cons, copies_nil, Nat.add_zero]
        rw [hcons] at hdrop
        exact ⟨trivial, hdrop r.1 List.mem_cons_self, fun s hs => hdrop s (List.mem_cons_of_mem _ hs)⟩
    obtain ⟨hcopies, hfirst, hrest⟩ := hsame
    have hpush := Slot.push_copies i max_items now hfirst
    have hfill := ih (k + 1) r.2 hrest
    have hslots : copies i (slots.map Slot.items) =
        copies i ((slots.takeWhile fun s => s.k < k).map Slot.items) +
          copies i ((slots.dropWhile fun s => s.k < k).map Slot.items) := by
      rw [← copies_append, ← List.map_append, List.takeWhile_append_dropWhile]
    simp only [Emitting.bind_val, Emitting.bind_out, Emitting.pure_val, Emitting.pure_out,
      List.append_nil, List.map_append, List.map_cons, copies_append] at hpush hfill ⊢
    rw [← List.singleton_append, copies_append, hslots, ← hcopies]
    split at hfill
    · rename_i hi
      rw [if_pos hi] at hpush ⊢
      omega
    · rename_i hi
      rw [if_neg hi] at hpush ⊢
      omega

/-- What the windows and the slots hold after the pass of an item, they held before or with it. -/
theorem fill_all {P : List T → Prop} (hnil : P []) (item : T) (n k : Nat) (slots : List (Slot T))
    (hslots : ∀ s ∈ slots, P s.items) :
    (∀ w ∈ (sliding_fill max_items size slide anchor now item Emitting.emit n k slots).out,
      ∃ l, P l ∧ w.items = l ++ [item]) ∧
    ∀ s ∈ (sliding_fill max_items size slide anchor now item Emitting.emit n k slots).val,
      P s.items ∨ ∃ l, P l ∧ s.items = stored max_items l item := by
  induction n generalizing k slots with
  | zero =>
    refine ⟨fun w hw => ?_, fun s hs => .inl (hslots s hs)⟩
    cases hw
  | succ n ih =>
    rw [sliding_fill_succ]
    have hcases := Slot.at_cases size slide anchor now k (slots.dropWhile fun s => s.k < k)
    generalize Slot.at size slide anchor now k (slots.dropWhile fun s => s.k < k) = r at hcases
    have hdrop : ∀ s ∈ slots.dropWhile fun s => s.k < k, P s.items :=
      fun s hs => hslots s ((slots.dropWhile_sublist _).subset hs)
    have hr : P r.1.items ∧ ∀ s ∈ r.2, P s.items := by
      rcases hcases with ⟨hitems, hrest⟩ | hcons
      · rw [hitems, hrest]
        exact ⟨hnil, hdrop⟩
      · rw [hcons] at hdrop
        exact ⟨hdrop r.1 List.mem_cons_self, fun s hs => hdrop s (List.mem_cons_of_mem _ hs)⟩
    obtain ⟨hout, hval⟩ := ih (k + 1) r.2 hr.2
    simp only [Emitting.bind_val, Emitting.bind_out, Emitting.pure_val, Emitting.pure_out,
      List.append_nil, Slot.push_val, Slot.push_out]
    refine ⟨fun w hw => ?_, fun s hs => ?_⟩
    · rcases List.mem_append.1 hw with hw | hw
      · split at hw
        · cases List.mem_singleton.1 hw
          exact ⟨r.1.items, hr.1, rfl⟩
        · cases hw
      · exact hout w hw
    · rcases List.mem_append.1 hs with hs | hs
      · exact .inl (hslots s ((slots.takeWhile_sublist _).subset hs))
      · cases hs with
        | head => exact .inr ⟨r.1.items, hr.1, rfl⟩
        | tail _ hs => exact hval s hs

omit [Timeline] in
/-- An item joins at least one window, and no more than may overlap, whatever the clock reads. -/
theorem sliding_range_count (anchor now : Nat) (hs : 0 < slide) (hle : slide ≤ size) :
    1 ≤ (sliding_range anchor now size slide).2 + 1 - (sliding_range anchor now size slide).1 ∧
      (sliding_range anchor now size slide).2 + 1 - (sliding_range anchor now size slide).1 ≤
        div_ceil size slide := by
  have hrange : (sliding_range anchor now size slide).1 ≤ (sliding_range anchor now size slide).2 :=
    k_min_le_k_max hs hle
  have hmin : now - anchor < (sliding_range anchor now size slide).1 * slide + size :=
    (k_min_le hs).1 (Nat.le_refl _)
  have hmax : (sliding_range anchor now size slide).2 * slide ≤ now - anchor :=
    (le_k_max hs).1 (Nat.le_refl _)
  have hlt : ((sliding_range anchor now size slide).2 - (sliding_range anchor now size slide).1) *
      slide < size := by
    rw [Nat.sub_mul]
    omega
  have := lt_div_ceil hs hlt
  omega

end

end PipeIo
