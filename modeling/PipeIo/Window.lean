import Mathlib.Order.Basic
import PipeIo.Error
import PipeIo.Lib.Emitting

namespace PipeIo
set_option autoImplicit true

open Lib

/-- The longest `Duration`. Durations are counted in nanoseconds, and so are instants, from
the first one the platform represents. -/
def durationMax : Nat := 2 ^ 64 * 1000000000 - 1

/-- The instants of a platform reach up to a horizon; the time between two of them is a
`Duration`. -/
class Timeline where
  horizon : Nat
  fits : horizon ≤ durationMax

/-- A platform whose instants reach up to 100 nanoseconds. -/
@[reducible] def smallTimeline : Timeline := ⟨100, by simp [durationMax]⟩

section Time

variable [Timeline]

/-- What a clock reads. -/
abbrev Reading := { now : Nat // now ≤ Timeline.horizon }

def checked_add (t : Nat) (d : Nat) : Option Nat :=
  if t + d ≤ Timeline.horizon then some (t + d) else none

def checked_sub (t : Nat) (d : Nat) : Option Nat :=
  if d ≤ t then some (t - d) else none

/-- `duration_since`, zero if `earlier` is later. -/
def saturating_duration_since (now earlier : Nat) : Nat := now - earlier

def duration_from_nanos (nanos : Nat) : Nat :=
  min (nanos / 1000000000) (2 ^ 64 - 1) * 1000000000 + nanos % 1000000000

/-- `origin + n * step`, or `fallback` if it is not representable. -/
def offset (origin : Nat) (n : Nat) (step : Nat) (fallback : Nat) : Nat :=
  let nanos := min (n * step) (2 ^ 128 - 1)
  (checked_add origin (duration_from_nanos nanos)).getD fallback

end Time

inductive WindowPolicy where
  | tumbling (size : Nat)
  | sliding (size slide : Nat)
  | session (idle : Nat)
  deriving DecidableEq, Repr

/-- `div_ceil` on `u128`. -/
def div_ceil (a b : Nat) : Nat := a / b + if a % b = 0 then 0 else 1

def MAX_SLIDING_OVERLAP : Nat := 1024

def nonzero (d : Nat) (field : String) : Except ConfigErrorKind Unit :=
  if d = 0 then .error (.zeroDuration field) else .ok ()

def WindowPolicy.check : WindowPolicy → Except ConfigErrorKind Unit
  | .tumbling size => nonzero size "size"
  | .session idle => nonzero idle "idle"
  | .sliding size slide => do
    nonzero size "size"
    nonzero slide "slide"
    if slide > size then throw .slideExceedsSize
    let overlap := div_ceil size slide
    if overlap > MAX_SLIDING_OVERLAP then
      throw (.tooManyOverlappingWindows (min overlap (2 ^ 64 - 1)) MAX_SLIDING_OVERLAP)

structure WindowSpec where
  policy : WindowPolicy
  max_items : Option Nat
  max_keys : Option Nat
  deriving DecidableEq, Repr

def WindowSpec.check (spec : WindowSpec) : Except ConfigErrorKind Unit := do
  spec.policy.check
  if spec.max_items = some 0 then throw (.zeroLimit "max_items")
  if spec.max_keys = some 0 then throw (.zeroLimit "max_keys")

/-- `usize::MAX`. -/
def usizeMax : Nat := 2 ^ 64 - 1

/-- The limit a stage works with. -/
def limit_or_max (n : Option Nat) : Nat := max (n.getD usizeMax) 1

/-- A closed window: its items in arrival order and its interval. -/
structure Window (T : Type) where
  items : List T
  start : Nat
  «end» : Nat
  deriving DecidableEq, Repr

/-- An open sliding window, the `k`-th from the anchor. -/
structure Slot (T : Type) where
  k : Nat
  start : Nat
  «end» : Option Nat
  items : List T
  deriving DecidableEq, Repr

/-- The windows of one key, or of an unkeyed stage. -/
inductive Core (T : Type) where
  | tumbling (size : Nat) (start : Option Nat) (items : List T)
  | sliding (size slide : Nat) (slots : List (Slot T))
  | session (idle : Nat) (start last : Option Nat) (items : List T)
  deriving DecidableEq, Repr

/-- Where the window grid of a stage begins whose first item arrives at `first`. -/
def grid_origin (policy : WindowPolicy) (first : Nat) : Nat :=
  match policy with
  | .sliding size slide =>
    let overlap := div_ceil size (max slide 1)
    let back := min ((overlap - 1) * slide) (2 ^ 128 - 1)
    (checked_sub first (duration_from_nanos back)).getD first
  | .tumbling _ | .session _ => first

section Windows

variable [Timeline] {T : Type} {m : Type → Type u} [Monad m]

/-- Start of the tumbling window that contains `now`. -/
def align (anchor now : Nat) (size : Nat) : Nat :=
  let elapsed := saturating_duration_since now anchor
  let step := max size 1
  offset anchor (elapsed / step) size now

/-- The indices of the sliding windows that contain `now`, both ends included. -/
def sliding_range (anchor now : Nat) (size slide : Nat) : Nat × Nat :=
  let e := saturating_duration_since now anchor
  let slide_n := max slide 1
  let k_max := e / slide_n
  let k_min := if e ≥ size then (e - size) / slide_n + 1 else 0
  (k_min, k_max)

def emit_slots_before (k_min : Nat) (out : Window T → m Bool) :
    List (Slot T) → m (List (Slot T))
  | [] => pure []
  | s :: rest =>
    if s.k < k_min then
      if s.items.isEmpty then emit_slots_before k_min out rest
      else do
        if ← out ⟨s.items, s.start, s.end.getD s.start⟩ then emit_slots_before k_min out rest
        else pure rest
    else pure (s :: rest)

/-- Add an item to a slot; a full one is emitted. -/
def Slot.push (max_items : Nat) (now : Nat) (item : T) (out : Window T → m Bool)
    (s : Slot T) : m (Slot T) :=
  let items := s.items ++ [item]
  if items.length ≥ max_items then do
    let _open ← out ⟨items, s.start, s.end.getD now⟩
    pure { s with items := [] }
  else pure { s with items := items }

def Slot.new (size slide : Nat) (anchor now : Nat) (k : Nat) : Slot T :=
  let start := offset anchor k slide now
  ⟨k, start, checked_add start size, []⟩

/-- The pass over the slots that puts an item into `n` of them, from `k` on. What lies before
the current position is not looked at again. -/
def sliding_fill (max_items : Nat) (size slide : Nat) (anchor now : Nat) (item : T)
    (out : Window T → m Bool) : (n k : Nat) → List (Slot T) → m (List (Slot T))
  | 0, _, slots => pure slots
  | n + 1, k, slots => do
    let before := slots.takeWhile fun s => s.k < k
    let (slot, after) :=
      match slots.dropWhile fun s => s.k < k with
      | [] => (Slot.new size slide anchor now k, [])
      | s :: rest =>
        if s.k ≠ k then (Slot.new size slide anchor now k, s :: rest) else (s, rest)
    let slot ← slot.push max_items now item out
    let filled ← sliding_fill max_items size slide anchor now item out n (k + 1) after
    pure (before ++ slot :: filled)

def sliding_on_item (slots : List (Slot T)) (max_items : Nat) (size slide : Nat)
    (anchor now : Nat) (item : T) (out : Window T → m Bool) : m (List (Slot T)) := do
  let (k_min, k_max) := sliding_range anchor now size slide
  let slots ← emit_slots_before k_min out slots
  sliding_fill max_items size slide anchor now item out (k_max + 1 - k_min) k_min slots

namespace Core

def new : WindowPolicy → Core T
  | .tumbling size => .tumbling size none []
  | .sliding size slide => .sliding size slide []
  | .session idle => .session idle none none []

def is_empty : Core T → Bool
  | .tumbling _ _ items | .session _ _ _ items => items.isEmpty
  | .sliding _ _ slots => slots.all fun s => s.items.isEmpty

/-- The end of `on_item` for tumbling windows. -/
def tumbling_push (max_items : Nat) (now : Nat) (size : Nat) (start : Option Nat)
    (items : List T) (item : T) (out : Window T → m Bool) : m (Core T) :=
  let items := items ++ [item]
  if items.length ≥ max_items then do
    let s := start.getD now
    let e := (checked_add s size).getD now
    let _still_open ← out ⟨items, s, e⟩
    pure (.tumbling size start [])
  else pure (.tumbling size start items)

/-- The end of `on_item` for sessions. -/
def session_push (max_items : Nat) (now : Nat) (idle : Nat) (start : Option Nat)
    (items : List T) (item : T) (out : Window T → m Bool) : m (Core T) :=
  let items := items ++ [item]
  if items.length ≥ max_items then do
    let s := start.getD now
    let _still_open ← out ⟨items, s, now⟩
    pure (.session idle (some now) (some now) [])
  else pure (.session idle start (some now) items)

/-- Add `item` arriving at `now`. -/
def on_item (max_items : Nat) (anchor now : Nat) (item : T) (out : Window T → m Bool) :
    Core T → m (Core T)
  | .tumbling size start items =>
    let current := start.getD (align anchor now size)
    match (checked_add current size).filter fun e => now ≥ e with
    | some e =>
      if items.isEmpty then
        tumbling_push max_items now size (some (align anchor now size)) [] item out
      else do
        if ← out ⟨items, current, e⟩ then
          tumbling_push max_items now size (some (align anchor now size)) [] item out
        else pure (.tumbling size (some current) [])
    | none => tumbling_push max_items now size (some current) items item out
  | .session idle start last items =>
    match last with
    | some prev =>
      if saturating_duration_since now prev > idle then
        let s := start.getD prev
        if items.isEmpty then session_push max_items now idle (some now) [] item out
        else do
          if ← out ⟨items, s, prev⟩ then session_push max_items now idle (some now) [] item out
          else pure (.session idle start last [])
      else session_push max_items now idle start items item out
    | none => session_push max_items now idle (some now) items item out
  | .sliding size slide slots =>
    .sliding size slide <$> sliding_on_item slots max_items size slide anchor now item out

/-- Emit every window whose end has passed at `now`. -/
def on_tick (anchor now : Nat) (out : Window T → m Bool) : Core T → m (Core T)
  | .tumbling size start items =>
    let expired := (start.bind fun s => (checked_add s size).map fun e => (s, e)).filter
      fun (_, e) => now ≥ e
    match expired with
    | some (s, e) =>
      if items.isEmpty then pure (.tumbling size (some (align anchor now size)) items)
      else do
        let _still_open ← out ⟨items, s, e⟩
        pure (.tumbling size (some (align anchor now size)) [])
    | none => pure (.tumbling size start items)
  | .session idle start last items =>
    match last.filter fun prev => saturating_duration_since now prev > idle with
    | some prev =>
      if items.isEmpty then pure (.session idle none none items)
      else do
        let s := start.getD prev
        let _still_open ← out ⟨items, s, prev⟩
        pure (.session idle none none [])
    | none => pure (.session idle start last items)
  | .sliding size slide slots =>
    let (k_min, _) := sliding_range anchor now size slide
    .sliding size slide <$> emit_slots_before k_min out slots

/-- The loop of `on_flush` over sliding windows. -/
def flush_slots (now : Nat) (out : Window T → m Bool) : List (Slot T) → m Unit
  | [] => pure ()
  | s :: rest =>
    if s.items.isEmpty then flush_slots now out rest
    else do
      if ← out ⟨s.items, s.start, s.end.getD now⟩ then flush_slots now out rest
      else pure ()

/-- Emit everything that is still open. -/
def on_flush (now : Nat) (out : Window T → m Bool) : Core T → m (Core T)
  | .tumbling size start items =>
    if items.isEmpty then pure (.tumbling size none items)
    else do
      let s := start.getD now
      let e := (checked_add s size).getD now
      let _still_open ← out ⟨items, s, e⟩
      pure (.tumbling size none [])
  | .session idle start last items =>
    if items.isEmpty then pure (.session idle none none items)
    else do
      let e := last.getD now
      let s := start.getD e
      let _still_open ← out ⟨items, s, e⟩
      pure (.session idle none none [])
  | .sliding size slide slots => do
    flush_slots now out slots
    pure (.sliding size slide [])

/-- Earliest instant at which `on_tick` would emit or reset something. -/
def deadline : Core T → Option Nat
  | .tumbling size start _ => start.bind fun s => checked_add s size
  | .session idle _ last _ =>
    (last.bind fun l => checked_add l idle).bind fun d => checked_add d 1
  | .sliding _ _ slots => slots.head?.bind fun s => s.end

end Core

/-- A call of the driver on a window stage. -/
inductive WindowCall (T : Type) where
  | item (item : T)
  | tick
  | flush
  deriving DecidableEq, Repr

/-- A call, and what the clock reads then. -/
abbrev WindowEvent (T : Type) := WindowCall T × Reading

/-- The clock does not go back. -/
def NonDecreasing (events : List (WindowEvent T)) : Prop :=
  events.Pairwise fun a b => a.2.1 ≤ b.2.1

/-- The items of some events, with their arrival times. -/
def arrivals (events : List (WindowEvent T)) : List (T × Nat) :=
  events.filterMap fun
    | (.item item, now) => some (item, now.1)
    | _ => none

/-- The unkeyed stage. -/
structure WindowStage (T : Type) where
  policy : WindowPolicy
  max_items : Nat
  anchor : Option Nat
  core : Core T
  deriving DecidableEq, Repr

namespace WindowStage

/-- Where the grid of a stage begins, given what arrives. -/
def origin (policy : WindowPolicy) (arrived : List (T × Nat)) : Nat :=
  grid_origin policy ((arrived.head?.map Prod.snd).getD 0)

def new (spec : WindowSpec) : WindowStage T :=
  ⟨spec.policy, limit_or_max spec.max_items, none, Core.new spec.policy⟩

/-- `process`, when the clock reads `now`. -/
def process (item : T) (now : Nat) (out : Window T → m Bool) (s : WindowStage T) :
    m (WindowStage T) := do
  let anchor := s.anchor.getD (grid_origin s.policy now)
  let core ← s.core.on_item s.max_items anchor now item out
  pure { s with anchor := some anchor, core := core }

def tick (now : Nat) (out : Window T → m Bool) (s : WindowStage T) : m (WindowStage T) :=
  match s.anchor with
  | some anchor => do
    let core ← s.core.on_tick anchor now out
    pure { s with core := core }
  | none => pure s

def flush (now : Nat) (out : Window T → m Bool) (s : WindowStage T) :
    m (WindowStage T) := do
  let core ← s.core.on_flush now out
  pure { s with core := core }

/-- One event, with a downstream that takes every window. -/
def step (s : WindowStage T) : WindowEvent T → Emitting (Window T) (WindowStage T)
  | (.item item, now) => s.process item now Emitting.emit
  | (.tick, now) => s.tick now Emitting.emit
  | (.flush, now) => s.flush now Emitting.emit

def run (s : WindowStage T) : List (WindowEvent T) → Emitting (Window T) (WindowStage T)
  | [] => pure s
  | event :: events => do
    let s ← s.step event
    s.run events

end WindowStage

end Windows

end PipeIo
