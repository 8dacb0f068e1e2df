import PipeIo.Course
import PipeIo.RunnerLife

namespace PipeIo
set_option autoImplicit true

open Lib

/-- The calls of a teardown, in the order they are due. -/
inductive TeardownCall where
  | sinkFlush | sinkClose | sourceClose | dlqFlush | dlqClose
  deriving DecidableEq, Repr

def TeardownCall.due : List TeardownCall :=
  [.sinkFlush, .sinkClose, .sourceClose, .dlqFlush, .dlqClose]

def TeardownCall.index : TeardownCall → Nat
  | .sinkFlush => 0
  | .sinkClose => 1
  | .sourceClose => 2
  | .dlqFlush => 3
  | .dlqClose => 4

theorem TeardownCall.due_succ (k : TeardownCall) :
    due.take (k.index + 1) = due.take k.index ++ [k] := by
  cases k <;> rfl

theorem TeardownCall.index_lt {k : TeardownCall} {n : Nat} (h : k ∈ due.take n) : k.index < n := by
  rcases Nat.lt_or_ge k.index n with hlt | hge
  · exact hlt
  · have hmem := (List.take_sublist_take_left hge).subset h
    cases k <;> simp [due, index] at hmem

/-- What a request does to the components of a run. -/
inductive Touch where
  | teardown (k : TeardownCall)
  | write | letter | pull
  deriving DecidableEq, Repr

def Touch.call : Touch → Option TeardownCall
  | .teardown k => some k
  | .write | .letter | .pull => none

def Eff.touch : Eff X Y → Option Touch
  | .flush => some (.teardown .sinkFlush)
  | .close => some (.teardown .sinkClose)
  | .closeSource => some (.teardown .sourceClose)
  | .deadLetter .flush => some (.teardown .dlqFlush)
  | .deadLetter .close => some (.teardown .dlqClose)
  | .deadLetter (.write _) => some .letter
  | .write _ => some .write
  | .pull | .pullTimeout _ => some .pull
  | _ => none

def Log.touches (log : Log X Y) : List Touch := log.filterMap fun a => a.1.touch

/-- After `n` teardown calls, each made once and in order: nothing was written, dead-lettered
or pulled after its component was flushed or closed. -/
structure Tidy (ts : List Touch) (n : Nat) : Prop where
  calls : ts.filterMap Touch.call = TeardownCall.due.take n
  writes : ts.Pairwise fun a b => a = .teardown .sinkFlush → b ≠ .write
  letters : ts.Pairwise fun a b => a = .teardown .dlqFlush → b ≠ .letter
  pulls : ts.Pairwise fun a b => a = .teardown .sourceClose → b ≠ .pull

/-- A complete teardown. -/
def TornDown (dlq : Bool) (ts : List Touch) : Prop := Tidy ts (finalPhase dlq)

/-- When a component may be touched. -/
def Touch.Due (n : Nat) : Touch → Prop
  | .teardown k => n = k.index
  | .write => n = 0
  | .letter => n ≤ 3
  | .pull => n ≤ 2

def Touch.weight : Touch → Nat
  | .teardown _ => 1
  | .write | .letter | .pull => 0

theorem Tidy.nil : Tidy [] 0 := ⟨rfl, .nil, .nil, .nil⟩

theorem Tidy.lt {ts : List Touch} (h : Tidy ts n) {k : TeardownCall}
    (hk : .teardown k ∈ ts) : k.index < n := by
  refine TeardownCall.index_lt ?_
  rw [← h.calls]
  exact List.mem_filterMap.2 ⟨_, hk, rfl⟩

theorem pairwise_snoc {R : α → α → Prop} {l : List α} {b : α} (h : l.Pairwise R)
    (hb : ∀ a ∈ l, R a b) : (l ++ [b]).Pairwise R :=
  List.pairwise_append.2 ⟨h, List.pairwise_singleton R b, by simpa using hb⟩

theorem Tidy.step {ts : List Touch} (h : Tidy ts n) {t : Touch} (ht : t.Due n) :
    Tidy (ts ++ [t]) (n + t.weight) where
  calls := by
    rw [List.filterMap_append, h.calls]
    cases t with
    | teardown k =>
      obtain rfl : n = k.index := ht
      exact (k.due_succ).symm
    | write | letter | pull => exact List.append_nil _
  writes := pairwise_snoc h.writes fun a ha hflush hw => by
    subst hflush hw
    have hlt := h.lt ha
    obtain rfl : n = 0 := ht
    cases hlt
  letters := pairwise_snoc h.letters fun a ha hflush hw => by
    subst hflush hw
    have hlt : 3 < n := h.lt ha
    have hle : n ≤ 3 := ht
    omega
  pulls := pairwise_snoc h.pulls fun a ha hclose hw => by
    subst hclose hw
    have hlt : 2 < n := h.lt ha
    have hle : n ≤ 2 := ht
    omega

/-- The requests of a log, after one more. -/
theorem touches_snoc (log : Log X Y) (a : Entry X Y) :
    Log.touches (log ++ [a]) = log.touches ++ a.1.touch.toList := by
  simp only [Log.touches, List.filterMap_append]
  cases h : a.1.touch <;> simp [h]

section Pipeline

variable {X Y H : Type} {c : StageFn X Y X} {view : c.σ → Option SinkFlags} {steady : Bool}
  {b w : Life} {r : Runner c.σ} {ce : Option ConfigError}

theorem Runner.At.wp_pump (h : r.At b view w) (hp : w.phase = 0)
    (hc : c.Obeys (life steady) (lifeRules steady) view) {fuel : Nat}
    {idle_tick : Option Duration} {cancel : Bool}
    {Q : Res H (Option PumpEnd) → Runner c.σ → Life → Prop}
    (hQ : ∀ res r', r'.At b view w → r.Same r' → Q res r' w) :
    Act.wp (life steady) (Runner.pump c fuel idle_tick cancel) Q r w := by
  simp only [Runner.pump, Act.wp_zoom, Act.wp_bind]
  refine Act.wp_repeatUntil (I := fun s v => v = w ∧ s.1.At b view w ∧ r.Same s.1)
    ?_ ?_ fuel ⟨rfl, h, .refl r⟩
  · intro s v hI
    obtain ⟨rfl, h₁, hs₁⟩ := hI
    refine h₁.wp_round hp hc fun res r₂ k₂ h₂ hs₂ => ?_
    have hs := hs₁.trans hs₂
    cases res with
    | ok e =>
      cases e with
      | none => exact ⟨rfl, h₂, hs⟩
      | some e =>
        exact hQ _ _ (h₂.move rfl rfl rfl rfl rfl rfl) ⟨hs.live, hs.segments, hs.owns⟩
    | halt e => exact hQ _ _ h₂ hs
    | panic => exact hQ _ _ h₂ hs
  · intro s v hI
    obtain ⟨rfl, h₁, hs₁⟩ := hI
    exact hQ _ _ (h₁.move rfl rfl rfl rfl rfl rfl) ⟨hs₁.live, hs₁.segments, hs₁.owns⟩

theorem Runner.At.wp_teardown (h : r.At b view w) (hp : w.phase = 0)
    (hc : c.Obeys (life steady) (lifeRules steady) view) («end» : PumpEnd) {f : FirstError}
    {Q : Res H Unit → Runner c.σ × FirstError → Life → Prop}
    (hok : ∀ r' f' w', r'.Over b view w' → Q (.ok ()) (r', f') w')
    (hpanic : ∀ r' f' w', r'.At b view w' → r'.Abortable w' → r'.live = r.live →
      Q .panic (r', f') w') :
    Act.wp (life steady) (Pipeline.teardown c «end») Q (r, f) w := by
  have habort : ∀ f', Act.wp (life steady) (Runner.abort c) Q (r, f') w := fun f' =>
    h.wp_abort (fun _ _ => by omega) hc hok fun r' f' w' ⟨h', ha', hl', _⟩ => hpanic r' f' w' h' ha' hl'
  cases «end» with
  | graceful | cancelled => exact h.wp_finish hp hc hok hpanic
  | failed e | disconnected =>
    exact (Act.wp_bind ..).2 (wp_life_onFirst (fun b Q f hQ => wp_life_offer hQ) habort)

theorem Runner.At.wp_conclusion (h : r.At b view w) (hp : w.phase = 0)
    (hc : c.Obeys (life steady) (lifeRules steady) view) («end» : PumpEnd) {f : FirstError}
    {Q : Res H (RunStats × Except Error RunStats) → Runner c.σ × FirstError → Life → Prop}
    (hok : ∀ x r' f' w', r'.Over b view w' → Q (.ok x) (r', f') w')
    (hpanic : ∀ r' f' w', r'.At b view w' → r'.Abortable w' → r'.live = r.live →
      Q .panic (r', f') w') :
    Act.wp (life steady) (Pipeline.conclusion c «end») Q (r, f) w := by
  simp only [Pipeline.conclusion, Act.wp_bind]
  refine h.wp_teardown hp hc «end» (fun r' f' w' ho => ?_) hpanic
  simp only [Act.next_ok, Act.wp_get, Act.wp_bind]
  exact wp_life_emitEvent (hok _ r' f' w' ho)

/-- The life of a single thread that owns everything. -/
def Life.single (dlq : Bool) : Life where
  sink := true
  source := true
  dlq := dlq
  crew := []
  phase := 0
  inp := 0
  receiver := false
  sender := true
  waited := true
  done := true
  spawned := []
  joined := []

/-- The course of a run in terms of the teardown calls made. -/
def lifeCourse (view : σ → Option SinkFlags) (dlq : Bool) (ce : Option ConfigError) :
    Course σ Life where
  built b w := b.dead_letter = dlq ∧ w = .single dlq
  running r w := r.At (.single dlq) view w ∧ r.live = true ∧ ce = none ∧ w.phase = 0 ∧
    r.segments_done = false
  ended _ w := w.phase = if ce = none then finalPhase dlq else 0

/-- Every part of a run keeps to its life, and its end makes all the teardown calls, also when
one of them panics. -/
theorem lifeCourse_kept (hinit : view c.init = some (flagsAt 0))
    (hc : c.Obeys (life steady) (lifeRules steady) view) (dlq : Bool)
    (ce : Option ConfigError) : (lifeCourse view dlq ce).Kept (life steady) ce where
  refused := by
    rintro _ _ hce ⟨-, rfl⟩
    simp only [lifeCourse, if_neg hce]
    rfl
  started := by
    rintro built _ rfl ⟨rfl, rfl⟩ Q s hrun -
    refine wp_life_emitEvent (hrun _ fun source_id cancel => ⟨?_, rfl, rfl, rfl, rfl⟩)
    refine ⟨rfl, ⟨rfl, rfl⟩, ?_, rfl, rfl, nofun, nofun, nofun, rfl, nofun, ?_, nofun, Nat.zero_le _⟩
    · rintro s hs
      cases hs
      rw [hinit]
      exact ⟨rfl, rfl⟩
    · rintro -
      cases built.dead_letter <;> rfl
  asked := ⟨trivial, fun _ _ ha => ha.2.1⟩
  step := by
    rintro r w ⟨hat, hl, rfl, hp, hd⟩ idle_tick
    exact hat.wp_step hp hc fun _ _ hat' hs => ⟨hat', hs.live.trans hl, rfl, hp, hs.segments.trans hd⟩
  tick := by
    rintro r w ⟨hat, hl, rfl, hp, hd⟩
    exact hat.wp_tick hp hc fun _ _ hat' hs => ⟨hat', hs.live.trans hl, rfl, hp, hs.segments.trans hd⟩
  pump := by
    rintro r w ⟨hat, hl, rfl, hp, hd⟩ fuel idle_tick cancel
    exact hat.wp_pump hp hc fun _ _ hat' hs =>
      ⟨hat', hs.live.trans hl, rfl, hp, hs.segments.trans hd⟩
  conclude := by
    rintro r w ⟨hat, hl, rfl, hp, hd⟩ «end»
    refine hat.wp_conclusion hp hc «end» (fun x r' f' w' ho => ?_) fun r' f' w' h' ha' hl' => ?_
    · exact ho.at_end.wp_drop hc (.inr ho) fun _ _ ho' => ho'.phase
    · exact h'.wp_drop hc (.inl ⟨hl'.trans hl, ha'⟩) fun _ _ ho' => ho'.phase
  drop := by
    rintro r w ⟨hat, hl, rfl, hp, hd⟩
    exact hat.wp_drop hc (.inl ⟨hl, Runner.abortable hd⟩) fun _ _ ho => ⟨rfl, .default, ho.phase⟩

end Pipeline

/-- What a thread may ask for touches its components when they are due. -/
theorem life_touch {e : Eff X Y} {w : Life} (h : (life steady).pre e w) {t : Touch}
    (ht : e.touch = some t) : t.Due w.phase := by
  cases e with
  | deadLetter op =>
    cases op with
    | write f =>
      cases ht
      exact Nat.le_succ_of_le h
    | flush =>
      cases ht
      exact h.2.1
    | close =>
      cases ht
      exact h.2
  | write | flush | close =>
    cases ht
    exact h.2
  | closeSource =>
    cases ht
    exact h.2.2
  | pull | pullTimeout =>
    cases ht
    exact h.2
  | _ => cases ht

theorem Eff.teardown_touch (e : Eff X Y) : e.teardown = (e.touch.map Touch.weight).getD 0 := by
  cases e with
  | deadLetter op => cases op <;> rfl
  | _ => rfl

/-- A run on a single thread: it owns the sink and receives from no edge. -/
structure Life.Alone (w : Life) : Prop where
  sink : w.sink = true
  receiver : w.receiver = false

theorem Life.Alone.after {w : Life} (h : w.Alone) {e : Eff X Y} (hp : (life steady).pre e w)
    (a : Ans e) : (w.after e a).Alone ∧ (w.after e a).phase = w.phase + e.teardown := by
  cases e with
  | send op => cases h.sink.symm.trans hp.1
  | recv timeout => cases h.receiver.symm.trans hp.1
  | dropReceiver => exact ⟨⟨h.sink, rfl⟩, rfl⟩
  | _ => exact ⟨⟨h.sink, h.receiver⟩, rfl⟩

/-- Answers of a calm observer keep the life of the run. -/
theorem Oracle.keeps_life {o : Oracle X Y} (ho : ∀ log ev, o log (.observe ev) = some ()) :
    Prog.Keeps (life false) (fun log w => w.Alone ∧ Tidy (Log.touches log) w.phase) o.handler := by
  rintro e log w ⟨halone, htidy⟩ hp
  obtain ⟨halone', hphase⟩ := halone.after hp (o log e)
  refine ⟨w.after e (o log e), ⟨⟨?_, nofun⟩, rfl, ?_⟩, halone', ?_⟩
  · cases e with
    | observe ev => exact ho log ev
    | _ => trivial
  · cases e with
    | recv timeout => cases halone.receiver.symm.trans hp.1
    | _ => trivial
  · rw [hphase, Eff.teardown_touch]
    simp only [Oracle.handler, touches_snoc]
    cases ht : e.touch with
    | none => simpa using htidy
    | some t => exact htidy.step (life_touch hp ht)

/-- Single-threaded teardown on every exit path: whatever public calls are made on a
pipeline, in whatever order, and however every call of the source, the stages, the sink and
the dead-letter sink ends, once the pipeline is consumed the teardown is complete if the
run was started, and no component was torn down if it was not. -/
theorem Pipeline.teardown_once (stages : Stages X Y) (sink_id source_id : StageId)
    (idle_tick : Option Duration) (config_error : Option ConfigError) (built : Built)
    (o : Oracle X Y) (ho : ∀ log ev, o log (.observe ev) = some ()) (xs : List Call)
    (l : LastCall) :
    let c := stages.assemble (sink_fn sink_id)
    let run := o.run (Pipeline.session c xs l)
      (Pipeline.new source_id idle_tick config_error built)
    ∃ outcomes last, run.1.1 = .ok (outcomes, last) ∧ (last ≠ none →
      if config_error = none ∧ Starts xs l then TornDown built.dead_letter run.2.touches
      else run.2.touches.filterMap Touch.call = []) := by
  intro c run
  have hc : c.Obeys (life (X := X) (Y := Y) false) (lifeRules false)
      fun s => some (stages.tailState s) :=
    stages.assemble_obeys lifeRules_lawful.sound (sink_fn_life sink_id)
  have hinit : some (stages.tailState c.init) = some (flagsAt 0) := by
    rw [stages.tailState_init]
    rfl
  have hkept := lifeCourse_kept hinit hc built.dead_letter config_error
  have hstart : (lifeCourse (fun s => some (stages.tailState s)) built.dead_letter config_error).At
      config_error (Pipeline.new source_id idle_tick config_error built : Pipeline c.σ)
      (.single built.dead_letter) := ⟨rfl, rfl, rfl⟩
  have hb : ¬(Pipeline.new source_id idle_tick config_error built : Pipeline c.σ).Begun :=
    fun h => h built rfl
  have halone : (Life.single built.dead_letter).Alone ∧
      Tidy (Log.touches ([] : Log X Y)) (Life.single built.dead_letter).phase :=
    ⟨⟨rfl, rfl⟩, .nil⟩
  obtain ⟨w, ⟨-, ht⟩, outcomes, last, hres, hn⟩ := Prog.wp_exec (Oracle.keeps_life ho) halone
    (hkept.wp_session hstart hb xs l)
  refine ⟨outcomes, last, hres, fun hlast => ?_⟩
  have hn' := hn hlast
  by_cases hs : Starts xs l
  · rw [if_pos hs] at hn'
    obtain ⟨_, hend⟩ := hn'
    replace hend : w.phase = _ := hend
    rw [hend] at ht
    cases config_error with
    | none =>
      rw [if_pos ⟨rfl, hs⟩]
      exact ht
    | some e =>
      rw [if_neg (fun h => nomatch h.1)]
      exact ht.calls
  · rw [if_neg hs] at hn'
    obtain ⟨-, -, rfl⟩ := hn'
    rw [if_neg fun h => hs h.2]
    exact ht.calls

theorem Pipeline.teardown_once_dropped :
    TornDown true (Oracle.run (Oracle.serving [1, 2, 3])
      (Pipeline.session ((Stages.nil : Stages Nat Nat).assemble (sink_fn "sink")) [.step] .drop)
      (Pipeline.new "source" none none ⟨true, true⟩)).2.touches := by
  obtain ⟨_, last, hres, htorn⟩ := Pipeline.teardown_once (.nil : Stages Nat Nat) "sink" "source"
    none none ⟨true, true⟩ (Oracle.serving [1, 2, 3]) (fun _ _ => rfl) [.step] .drop
  have hlast : last = some (.ok ()) := by
    cases hres
    rfl
  subst hlast
  exact htorn nofun

end PipeIo
