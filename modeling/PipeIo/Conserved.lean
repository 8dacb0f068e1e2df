import PipeIo.WindowConserved
import PipeIo.KeyedEach

namespace PipeIo
set_option autoImplicit true

open Lib

section

variable [Timeline] {T : Type} {policy : WindowPolicy} {max_items : Nat}

theorem keeps_lasting (hv : policy.Valid) (hm : 0 < max_items) :
    Core.Lasting policy max_items (fun (_ : Core T) _ => False)
      fun arrived out c => c.Keeps max_items arrived out where
  start := Core.keeps_new policy hm
  on_item item _ _ hf _ h := h.on_item hf hv hm item
  on_tick _ h := h.on_tick
  on_flush hf h := h.on_flush hf
  late_new := id
  late_on_tick _ := False.elim

theorem origin_le_horizon (policy : WindowPolicy) (events : List (WindowEvent T)) :
    WindowStage.origin policy (arrivals events) ≤ Timeline.horizon := by
  refine Nat.le_trans (grid_origin_le policy _) ?_
  cases harrivals : arrivals events with
  | nil => exact Nat.zero_le _
  | cons a rest =>
    have hmem : a ∈ arrivals events := by
      rw [harrivals]
      exact List.mem_cons_self
    obtain ⟨⟨call, now, hn⟩, -, ha⟩ := List.mem_filterMap.1 hmem
    cases call with
    | item item =>
      cases ha
      exact hn
    | tick => cases ha
    | flush => cases ha

/-- What holds of every core holds of the unkeyed stage over a whole run. -/
theorem WindowStage.lasting {spec : WindowSpec} (hspec : spec.check = .ok ())
    {I : List (T × Nat) → List (Window T) → Core T → Prop}
    (hI : Core.Lasting spec.policy (limit_or_max spec.max_items) (fun _ _ => False) I)
    (events : List (WindowEvent T)) (now : Reading) (hcalls : ∀ event ∈ events, event.1 ≠ .flush) :
    I (arrivals events) ((new spec).run (events ++ [(.flush, now)])).out (Core.new spec.policy) := by
  obtain ⟨hv, -, -⟩ := WindowSpec.check_ok.1 hspec
  have ha := origin_le_horizon spec.policy events
  obtain ⟨_, out, c, ⟨h, hf⟩, hout, -⟩ := run_flushed spec (fun _ _ => True)
    (fun arrived _ out c => I arrived out c ∧ c.Fits spec.policy (origin spec.policy (arrivals events)))
    events now
    (fun arrived _ out c item now _ hn h =>
      ⟨hI.on_item item ha hn h.2 not_false h.1, Core.fits_on_item h.2 hv ha hn item⟩)
    (fun arrived _ out c now _ hn h => ⟨hI.on_tick h.2 h.1, Core.fits_on_tick h.2 hv ha hn⟩)
    ⟨hI.start, Core.fits_new spec.policy⟩ hcalls (List.pairwise_of_forall fun _ _ => trivial)
    fun _ _ => trivial
  rw [hout]
  exact hI.on_flush hf h

end

/-- Windowing loses nothing, whatever the clock reads, without keys and for every key. -/
theorem nothing_lost [Timeline] {K T φ : Type} [DecidableEq K] {spec : WindowSpec}
    (hspec : spec.check = .ok ()) (events : List (WindowEvent T)) (now : Reading)
    (hcalls : ∀ event ∈ events, event.1 ≠ .flush) :
    Conserved spec.policy (limit_or_max spec.max_items) (arrivals events)
      ((WindowStage.new spec).run (events ++ [(.flush, now)])).out ∧
    ∀ (key_fn : T → φ → K × φ) (key_state : φ) (k : K),
      Conserved spec.policy (limit_or_max spec.max_items) (items_of key_fn k key_state events)
        (forKey k ((KeyedWindowStage.new spec key_state).trace key_fn
          (events ++ [(.flush, now)])).flatten) := by
  have hv : spec.policy.Valid := (WindowSpec.check_ok.1 hspec).1
  have hm : 0 < limit_or_max spec.max_items := Nat.lt_of_lt_of_le Nat.one_pos (Nat.le_max_right ..)
  have hlasting := keeps_lasting (T := T) hv hm
  refine ⟨(WindowStage.lasting hspec hlasting events now hcalls).conserved, ?_⟩
  intro key_fn key_state k
  refine (KeyedWindowStage.Lasting.keyed hspec hlasting key_fn key_state events now k hcalls
    ?_).conserved
  intro before item now rest t hevents hafter hkey i e he hk hlate
  exact absurd hlate not_false

/-- The clock goes back between two items, and the key of the first has to make room. -/
theorem nothing_lost_sliding : Conserved (.sliding 10 4) 1 [(1, 20), (2, 3)]
    (@WindowStage.run smallTimeline Nat (.new ⟨.sliding 10 4, some 1, some 1⟩)
      ([(.item 1, ⟨20, by decide⟩), (.item 2, ⟨3, by decide⟩)] ++ [(.flush, ⟨30, by decide⟩)])).out ∧
    Conserved (.sliding 10 4) 1 [(1, 20)] (forKey 1 (@KeyedWindowStage.trace smallTimeline Nat Nat
      Unit _ (.new ⟨.sliding 10 4, some 1, some 1⟩ ()) (fun v u => (v, u))
      ([(.item 1, ⟨20, by decide⟩), (.item 2, ⟨3, by decide⟩)] ++
        [(.flush, ⟨30, by decide⟩)])).flatten) := by
  obtain ⟨hunkeyed, hkeyed⟩ := @nothing_lost smallTimeline Nat Nat Unit _
    ⟨.sliding 10 4, some 1, some 1⟩ rfl
    [(.item 1, ⟨20, by decide⟩), (.item 2, ⟨3, by decide⟩)] ⟨30, by decide⟩ (by decide)
  exact ⟨hunkeyed, hkeyed (fun v u => (v, u)) () 1⟩

end PipeIo
