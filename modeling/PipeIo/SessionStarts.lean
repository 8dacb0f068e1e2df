import PipeIo.Session
import PipeIo.KeyedEach

namespace PipeIo
set_option autoImplicit true

open Lib

/-- The windows take what has arrived one after the other, and each starts when the first of its
items arrived. -/
def StartAtFirst : List (Window T) → List (T × Nat) → Prop
  | [], arrived => arrived = []
  | w :: out, arrived => w.items ≠ [] ∧ w.items = (arrived.take w.items.length).map Prod.fst ∧
    (∀ a ∈ arrived.head?, w.start = a.2) ∧ StartAtFirst out (arrived.drop w.items.length)

instance StartAtFirst.decidable [DecidableEq T] :
    (out : List (Window T)) → (arrived : List (T × Nat)) → Decidable (StartAtFirst out arrived)
  | [], arrived => inferInstanceAs (Decidable (arrived = []))
  | w :: out, arrived =>
    have := StartAtFirst.decidable out (arrived.drop w.items.length)
    inferInstanceAs (Decidable (_ ∧ _ ∧ _ ∧ _))

/-- A window and the arrivals it holds. -/
def Holds (p : Window T × List (T × Nat)) : Prop := p.2 ≠ [] ∧ p.1.items = p.2.map Prod.fst

/-- The window starts when the first of its items arrived. -/
def StartsAtFirst (p : Window T × List (T × Nat)) : Prop := ∀ a ∈ p.2.head?, p.1.start = a.2

theorem start_at_first_iff {ps : List (Window T × List (T × Nat))} (h : ∀ p ∈ ps, Holds p) :
    StartAtFirst (ps.map Prod.fst) (ps.flatMap Prod.snd) ↔ ∀ p ∈ ps, StartsAtFirst p := by
  induction ps with
  | nil => simp [StartAtFirst]
  | cons p ps ih =>
    obtain ⟨hne, hitems⟩ := h p List.mem_cons_self
    have hlen : p.1.items.length = p.2.length := by rw [hitems, List.length_map]
    have hhead : (p.2 ++ ps.flatMap Prod.snd).head? = p.2.head? := by
      rw [List.head?_append]
      obtain ⟨a, rest, hcons⟩ := List.exists_cons_of_ne_nil hne
      rw [hcons]
      rfl
    have hrest := ih fun q hq => h q (List.mem_cons_of_mem _ hq)
    rw [List.map_cons, List.flatMap_cons, StartAtFirst, List.forall_mem_cons, hlen,
      List.take_left' rfl, List.drop_left' rfl, hrest, hhead]
    constructor
    · rintro ⟨-, -, hstart, hall⟩
      exact ⟨hstart, hall⟩
    · rintro ⟨hstart, hall⟩
      refine ⟨fun hnil => hne ?_, hitems, hstart, hall⟩
      rw [hitems] at hnil
      exact List.map_eq_nil_iff.1 hnil

/-- In a session that `max_items` cuts, an item that follows a cut arrives at the same reading as
the one before it. -/
def Seamless (idle m : Nat) (arrived : List (T × Nat)) : Prop :=
  ∀ run ∈ arrived.splitBy (within idle), ∀ cut ∈ cuts m run, ∀ a ∈ cut.1.getLast?,
    ∀ b ∈ cut.2.head?, a.2 = b.2

theorem cut_start_iff {cut : List (T × Nat) × List (T × Nat)} (hne : cut.2 ≠ []) :
    StartsAtFirst (session_window cut, cut.2) ↔ ∀ a ∈ cut.1.getLast?, ∀ b ∈ cut.2.head?, a.2 = b.2 := by
  obtain ⟨b, rest, hcons⟩ := List.exists_cons_of_ne_nil hne
  rw [StartsAtFirst, session_window, cut_start, hcons, List.head?_cons]
  cases hlast : cut.1.getLast? with
  | none => simp
  | some a => simp

theorem WindowStage.session_starts [Timeline] {T : Type} {idle : Nat} {spec : WindowSpec}
    (hpolicy : spec.policy = .session idle) (events : List (WindowEvent T)) (now : Reading)
    (hmono : NonDecreasing (events ++ [(.flush, now)]))
    (hcalls : ∀ event ∈ events, event.1 ≠ .flush) :
    StartAtFirst ((new spec).run (events ++ [(.flush, now)])).out (arrivals events) ↔
      Seamless idle (limit_or_max spec.max_items) (arrivals events) := by
  have hm : 0 < limit_or_max spec.max_items := Nat.lt_of_lt_of_le Nat.one_pos (Nat.le_max_right ..)
  let cs := ((arrivals events).splitBy (within idle)).flatMap (cuts (limit_or_max spec.max_items))
  have hne : ∀ cut ∈ cs, cut.2 ≠ [] := by
    intro cut hcut
    obtain ⟨run, -, hcut⟩ := List.mem_flatMap.1 hcut
    exact cuts_ne_nil hm hcut
  have harrived : cs.flatMap Prod.snd = arrivals events := by
    rw [List.flatMap_assoc]
    simp only [cuts_flatMap hm]
    rw [List.flatMap_id', List.flatten_splitBy]
  have hout := session_cuts hpolicy events now hmono hcalls
  have hps : (cs.map fun cut => (session_window cut, cut.2)).map Prod.fst =
      ((new spec).run (events ++ [(.flush, now)])).out := by
    rw [hout, List.map_map]
    rfl
  have harrived' : (cs.map fun cut => (session_window cut, cut.2)).flatMap Prod.snd =
      arrivals events := by
    rw [List.flatMap_map]
    exact harrived
  rw [← hps, ← harrived', start_at_first_iff, harrived']
  · rw [List.forall_mem_map]
    constructor
    · intro h run hrun cut hcut
      have hmem : cut ∈ cs := List.mem_flatMap.2 ⟨run, hrun, hcut⟩
      exact (cut_start_iff (hne cut hmem)).1 (h cut hmem)
    · intro h cut hcut
      obtain ⟨run, hrun, hmem⟩ := List.mem_flatMap.1 hcut
      exact (cut_start_iff (hne cut hcut)).2 (h run hrun cut hmem)
  · rw [List.forall_mem_map]
    exact fun cut hcut => ⟨hne cut hcut, rfl⟩

/-- An item would go into a session that its limit has emptied, and which goes on as if its next
window had started at the item before. -/
def Core.Lapsed (c : Core T) (now : Nat) : Prop :=
  ∃ idle start last, c = .session idle (some start) (some last) [] ∧ start ≠ now ∧
    ¬idle < now - last

instance (c : Core T) (now : Nat) : Decidable (c.Lapsed now) :=
  match c with
  | .session idle (some start) (some last) [] =>
    decidable_of_iff (start ≠ now ∧ ¬idle < now - last) <| by
      constructor
      · intro h
        exact ⟨idle, start, last, rfl, h⟩
      · rintro ⟨_, _, _, heq, h⟩
        cases heq
        exact h
  | .session _ (some _) (some _) (_ :: _) => isFalse fun ⟨_, _, _, heq, _⟩ => by cases heq
  | .session _ none _ _ => isFalse fun ⟨_, _, _, heq, _⟩ => by cases heq
  | .session _ (some _) none _ => isFalse fun ⟨_, _, _, heq, _⟩ => by cases heq
  | .tumbling _ _ _ => isFalse fun ⟨_, _, _, heq, _⟩ => by cases heq
  | .sliding _ _ _ => isFalse fun ⟨_, _, _, heq, _⟩ => by cases heq

/-- What the windows of a session hold, and what the session still holds, when each window has
started with its first item. -/
structure Opening (arrived : List (T × Nat)) (out : List (Window T)) (start : Option Nat)
    (items : List T) (ps : List (Window T × List (T × Nat))) (rest : List (T × Nat)) : Prop where
  out : out = ps.map Prod.fst
  arrived : arrived = ps.flatMap Prod.snd ++ rest
  holds : ∀ p ∈ ps, Holds p ∧ StartsAtFirst p
  items : items = rest.map Prod.fst
  start : ∀ a ∈ rest.head?, start = some a.2

/-- The windows of a session core start with their first items. -/
def Core.Opens (arrived : List (T × Nat)) (out : List (Window T)) : Core T → Prop
  | .session _ start last items => (last ≠ none → start ≠ none) ∧
    ∃ ps rest, Opening arrived out start items ps rest
  | _ => False

section

variable {T : Type} {arrived : List (T × Nat)} {out : List (Window T)} {start : Option Nat}
  {items : List T} {ps : List (Window T × List (T × Nat))} {rest : List (T × Nat)}

/-- The session is closed. -/
theorem Opening.close (h : Opening arrived out start items ps rest) (s e : Nat) (start' : Option Nat) :
    ∃ ps', Opening arrived
      (out ++ if items.isEmpty then [] else [⟨items, start.getD s, e⟩]) start' [] ps' [] := by
  by_cases hnil : rest = []
  · have hempty : items.isEmpty := by rw [h.items, hnil, List.map_nil, List.isEmpty_nil]
    rw [if_pos hempty, List.append_nil]
    refine ⟨ps, h.out, ?_, h.holds, rfl, by simp⟩
    rw [h.arrived, hnil]
  · have hne : ¬items.isEmpty := by simpa [h.items] using hnil
    rw [if_neg hne]
    refine ⟨ps ++ [(⟨items, start.getD s, e⟩, rest)], ?_, ?_, fun p hp => ?_, rfl, by simp⟩
    · rw [h.out, List.map_append]
      rfl
    · rw [h.arrived]
      simp
    · rcases List.mem_append.1 hp with hp | hp
      · exact h.holds p hp
      · cases List.mem_singleton.1 hp
        refine ⟨⟨hnil, h.items⟩, fun a ha => ?_⟩
        rw [h.start a ha]
        rfl

/-- An item is added to the session. -/
theorem Opening.push {idle max_items now : Nat} {item : T}
    (h : Opening arrived out start items ps rest)
    (hstart : rest = [] → start = some now) :
    Core.Opens (arrived ++ [(item, now)])
      (out ++ (Core.session_push max_items now idle start items item Emitting.emit).out)
      (Core.session_push max_items now idle start items item Emitting.emit).val := by
  have hadded : Opening (arrived ++ [(item, now)]) out start (items ++ [item]) ps
      (rest ++ [(item, now)]) := by
    refine ⟨h.out, ?_, h.holds, ?_, fun a ha => ?_⟩
    · rw [h.arrived, List.append_assoc]
    · rw [h.items, List.map_append]
      rfl
    · rcases rest with _ | ⟨b, rest⟩
      · cases ha
        exact hstart rfl
      · cases ha
        exact h.start _ rfl
  have hsome : start ≠ none := by
    rcases rest with _ | ⟨b, rest⟩
    · rw [hstart rfl]
      exact Option.some_ne_none now
    · rw [h.start b rfl]
      exact Option.some_ne_none b.2
  simp only [Core.session_push]
  split
  · obtain ⟨ps', hclose⟩ := hadded.close now now (some now)
    rw [if_neg (by simp)] at hclose
    exact ⟨fun _ => Option.some_ne_none now, ps', [], hclose⟩
  · rw [Emitting.pure_out, List.append_nil]
    exact ⟨fun _ => hsome, ps, _, hadded⟩

end

section

variable [Timeline] {T : Type} {idle max_items anchor now : Nat} {arrived : List (T × Nat)}
  {out : List (Window T)} {c : Core T}

theorem Core.Opens.on_item (h : c.Opens arrived out) (hf : c.Fits (.session idle) anchor)
    (hnot : ¬c.Lapsed now) (item : T) :
    Core.Opens (arrived ++ [(item, now)])
      (out ++ (c.on_item max_items anchor now item Emitting.emit).out)
      (c.on_item max_items anchor now item Emitting.emit).val := by
  cases c with
  | session idle' start last items =>
    obtain ⟨hsome, ps, rest, h⟩ := h
    cases last with
    | none =>
      obtain ⟨-, hnil⟩ := hf.2 rfl
      have hrest : rest = [] := List.map_eq_nil_iff.1 (h.items.symm.trans hnil)
      subst hrest
      have hfirst : Opening arrived out (some now) items ps [] :=
        ⟨h.out, h.arrived, h.holds, h.items, by simp⟩
      exact hfirst.push fun _ => rfl
    | some last =>
      by_cases hgap : idle' < now - last
      · obtain ⟨ps', hclose⟩ := h.close last last (some now)
        rw [Core.on_item_over item hgap, ← List.append_assoc]
        exact hclose.push fun _ => rfl
      · rw [Core.on_item_within item hgap]
        refine h.push fun hnil => ?_
        obtain ⟨b, hb⟩ := Option.ne_none_iff_exists'.1 (hsome (Option.some_ne_none last))
        rw [hb]
        by_contra hne
        apply hnot
        refine ⟨idle', b, last, ?_, fun heq => hne (congrArg some heq), hgap⟩
        rw [hb, h.items, hnil, List.map_nil]
  | tumbling size start items => cases hf.1
  | sliding size slide slots => cases hf.1

theorem Core.Opens.on_tick (h : c.Opens arrived out) (hf : c.Fits (.session idle) anchor) :
    Core.Opens arrived (out ++ (c.on_tick anchor now Emitting.emit).out)
      (c.on_tick anchor now Emitting.emit).val := by
  cases c with
  | session idle' start last items =>
    cases last with
    | none =>
      have hsame : (Core.session idle' start none items).on_tick anchor now Emitting.emit =
        pure (.session idle' start none items) := rfl
      rw [hsame, Emitting.pure_out, List.append_nil]
      exact h
    | some last =>
      by_cases hgap : idle' < now - last
      · obtain ⟨-, ps, rest, h⟩ := h
        obtain ⟨ps', hclose⟩ := h.close last last none
        rw [Core.on_tick_session hgap]
        exact ⟨fun hne => absurd rfl hne, ps', [], hclose⟩
      · have hsame : (Core.session idle' start (some last) items).on_tick anchor now Emitting.emit =
            pure (.session idle' start (some last) items) := Core.on_tick_within hgap
        rw [hsame, Emitting.pure_out, List.append_nil]
        exact h
  | tumbling size start items => cases hf.1
  | sliding size slide slots => cases hf.1

theorem Core.Opens.on_flush (h : c.Opens arrived out) (hf : c.Fits (.session idle) anchor) :
    Core.Opens arrived (out ++ (c.on_flush now Emitting.emit).out) (Core.new (.session idle)) := by
  cases c with
  | session idle' start last items =>
    obtain ⟨-, ps, rest, h⟩ := h
    obtain ⟨ps', hclose⟩ := h.close (last.getD now) (last.getD now) none
    have hout : ((Core.session idle' start last items).on_flush now Emitting.emit).out =
        if items.isEmpty then [] else [⟨items, start.getD (last.getD now), last.getD now⟩] := by
      simp only [Core.on_flush]
      split <;> rfl
    rw [hout]
    exact ⟨fun hne => absurd rfl hne, ps', [], hclose⟩
  | tumbling size start items => cases hf.1
  | sliding size slide slots => cases hf.1

theorem opens_lasting (idle max_items : Nat) :
    Core.Lasting (.session idle) max_items (fun (c : Core T) now => c.Lapsed now)
      fun arrived out c => c.Opens arrived out where
  start := by
    refine ⟨fun hne => absurd rfl hne, [], [], rfl, rfl, fun p hp => ?_, rfl, by simp⟩
    cases hp
  on_item item _ _ hf hnot h := h.on_item hf hnot item
  on_tick hf h := h.on_tick hf
  on_flush hf h := h.on_flush hf
  late_new := by
    rintro now ⟨_, _, _, hnew, -⟩
    cases hnew
  late_on_tick {c anchor now} hf hlate := by
    obtain ⟨idle', start, last, hval, hne, hgap⟩ := hlate
    cases c with
    | session idle'' start' last' items =>
      cases last' with
      | none => cases hval
      | some l =>
        by_cases hover : idle'' < now - l
        · rw [Core.on_tick_session hover] at hval
          cases hval
        · have hsame : (Core.session idle'' start' (some l) items).on_tick anchor now Emitting.emit =
            pure (.session idle'' start' (some l) items) := Core.on_tick_within hover
          rw [hsame] at hval
          cases hval
          exact ⟨⟨_, start, last, rfl, hne, hgap⟩, rfl⟩
    | tumbling size start items => cases hf.1
    | sliding size slide slots => cases hf.1

end

/-- Each window of a session starts with its first item exactly if the cuts of `max_items` leave no
time between the items; and with keys, if no item of the key finds its session just emptied. -/
theorem sessions_start [Timeline] {K T φ : Type} [DecidableEq K] {idle : Nat} {spec : WindowSpec}
    (hspec : spec.check = .ok ()) (hpolicy : spec.policy = .session idle)
    (events : List (WindowEvent T)) (now : Reading) (hmono : NonDecreasing (events ++ [(.flush, now)]))
    (hcalls : ∀ event ∈ events, event.1 ≠ .flush) :
    (StartAtFirst ((WindowStage.new spec).run (events ++ [(.flush, now)])).out (arrivals events) ↔
      Seamless idle (limit_or_max spec.max_items) (arrivals events)) ∧
    ∀ (key_fn : T → φ → K × φ) (key_state : φ) (k : K),
      (KeyedWindowStage.new spec key_state).AllInTime Core.Lapsed key_fn k events →
      StartAtFirst (forKey k ((KeyedWindowStage.new spec key_state).trace key_fn
        (events ++ [(.flush, now)])).flatten) (items_of key_fn k key_state events) := by
  refine ⟨WindowStage.session_starts hpolicy events now hmono hcalls, ?_⟩
  intro key_fn key_state k hintime
  have hlasting := opens_lasting (T := T) idle (limit_or_max spec.max_items)
  rw [← hpolicy] at hlasting
  have hopens := KeyedWindowStage.Lasting.keyed hspec hlasting key_fn key_state events now k hcalls
    fun before item now rest t hevents hafter hkey i e he hk hlate =>
      hintime before item now rest t hevents hafter hkey i e he hk hlate
  rw [hpolicy] at hopens
  obtain ⟨-, ps, rest, hout, harrived, hholds, hitems, -⟩ := hopens
  obtain rfl := List.map_eq_nil_iff.1 hitems.symm
  rw [hout, harrived, List.append_nil, start_at_first_iff fun p hp => (hholds p hp).1]
  exact fun p hp => (hholds p hp).2

theorem sessions_start_same_reading :
    (StartAtFirst (@WindowStage.run smallTimeline Nat (.new ⟨.session 10, some 2, none⟩)
        ([(.item 1, ⟨3, by decide⟩), (.item 2, ⟨5, by decide⟩), (.item 3, ⟨5, by decide⟩)] ++
          [(.flush, ⟨9, by decide⟩)])).out [(1, 3), (2, 5), (3, 5)] ↔
      Seamless 10 2 [(1, 3), (2, 5), (3, 5)]) ∧
    StartAtFirst (forKey 0 (@KeyedWindowStage.trace smallTimeline Nat Nat Unit _
        (.new ⟨.session 10, some 2, none⟩ ()) (fun _ u => (0, u))
        ([(.item 1, ⟨3, by decide⟩), (.item 2, ⟨5, by decide⟩), (.item 3, ⟨5, by decide⟩)] ++
          [(.flush, ⟨9, by decide⟩)])).flatten) [(1, 3), (2, 5), (3, 5)] := by
  obtain ⟨hunkeyed, hkeyed⟩ := @sessions_start smallTimeline Nat Nat Unit _ 10
    ⟨.session 10, some 2, none⟩ rfl rfl
    [(.item 1, ⟨3, by decide⟩), (.item 2, ⟨5, by decide⟩), (.item 3, ⟨5, by decide⟩)]
    ⟨9, by decide⟩ (by simp [NonDecreasing]) (by decide)
  refine ⟨hunkeyed, hkeyed (fun _ u => (0, u)) () 0 ?_⟩
  have hall : ∀ n < 3, ∀ t ∈ @KeyedWindowStage.after smallTimeline Nat Nat Unit _
      (.new ⟨.session 10, some 2, none⟩ ()) (fun _ u => (0, u))
      ([(.item 1, ⟨3, by decide⟩), (.item 2, ⟨5, by decide⟩), (.item 3, ⟨5, by decide⟩)].take n),
      @KeyedWindowStage.InTime smallTimeline _ _ _ Core.Lapsed t 0 ([3, 5, 5].getD n 0) := by
    decide +kernel
  intro before item now rest t hevents ht _
  rcases before with _ | ⟨a, _ | ⟨b, _ | ⟨c, before⟩⟩⟩
  · cases hevents
    exact hall 0 (by decide) t ht
  · cases hevents
    exact hall 1 (by decide) t ht
  · cases hevents
    exact hall 2 (by decide) t ht
  · simp at hevents

/-- The third item opens a window that starts with the second. -/
theorem starts_before_first : ¬∀ (idle : Nat) (spec : WindowSpec)
    (events : List (@WindowEvent smallTimeline Nat)) (now : @Reading smallTimeline),
    spec.check = .ok () → spec.policy = .session idle →
    @NonDecreasing smallTimeline Nat (events ++ [(.flush, now)]) →
    (∀ event ∈ events, event.1 ≠ .flush) →
    StartAtFirst (@WindowStage.run smallTimeline Nat (.new spec) (events ++ [(.flush, now)])).out
      (@arrivals smallTimeline Nat events) := by
  intro h
  have hstarts := h 10 ⟨.session 10, some 2, none⟩
    [(.item 1, ⟨0, by decide⟩), (.item 2, ⟨1, by decide⟩), (.item 3, ⟨5, by decide⟩)]
    ⟨9, by decide⟩ rfl rfl (by simp [NonDecreasing]) (by decide)
  revert hstarts
  decide +kernel

end PipeIo
