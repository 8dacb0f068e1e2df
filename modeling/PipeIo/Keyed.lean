import Mathlib.Data.List.AList
import Mathlib.Data.List.Sort
import PipeIo.Window

namespace PipeIo
set_option autoImplicit true

/-- `wrapping_add(1)` on `u64`. -/
def wrapping_succ (n : Nat) : Nat := (n + 1) % 2 ^ 64

/-- The state of one key. `none` stands for `NIL` in the links. -/
structure KeyEntry (K T : Type) where
  key : K
  core : Core T
  created : Nat
  prev : Option Nat
  next : Option Nat
  ticket : Nat
  scheduled : Option Nat
  deriving DecidableEq, Repr

/-- A heap entry. -/
structure Due where
  deadline : Nat
  ticket : Nat
  slot : Nat
  deriving DecidableEq, Repr

/-- Heap entries are ordered by deadline, then ticket, then slot. -/
def Due.le (a b : Due) : Prop :=
  a.deadline < b.deadline ∨ a.deadline = b.deadline ∧
    (a.ticket < b.ticket ∨ a.ticket = b.ticket ∧ a.slot ≤ b.slot)

instance : DecidableRel Due.le := fun _ _ => by
  unfold Due.le
  infer_instance

/-- The keyed stage. The heap is the list of its entries, least first; the free list has its
top first. `key_state` is what the key function keeps between calls. `fallbacks` counts how
often `schedule` has met a deadline that had passed. -/
structure KeyedWindowStage (K T φ : Type) where
  policy : WindowPolicy
  max_items : Nat
  max_keys : Nat
  key_state : φ
  anchor : Option Nat
  index : AList fun _ : K => Nat
  slab : List (Option (KeyEntry K T))
  free : List Nat
  lru_head : Option Nat
  lru_tail : Option Nat
  heap : List Due
  seq : Nat
  tickets : Nat
  fallbacks : Nat

namespace KeyedWindowStage

section

variable {K T φ : Type}

def new (spec : WindowSpec) (key_state : φ) : KeyedWindowStage K T φ where
  policy := spec.policy
  max_items := limit_or_max spec.max_items
  max_keys := limit_or_max spec.max_keys
  key_state := key_state
  anchor := none
  index := ∅
  slab := []
  free := []
  lru_head := none
  lru_tail := none
  heap := []
  seq := 0
  tickets := 0
  fallbacks := 0

/-- What `entry_mut` finds. -/
def entry (s : KeyedWindowStage K T φ) (slot : Nat) : Option (KeyEntry K T) :=
  (s.slab[slot]?).join

/-- Write through the reference `entry_mut` gives. -/
def modify (s : KeyedWindowStage K T φ) (slot : Nat) (f : KeyEntry K T → KeyEntry K T) :
    KeyedWindowStage K T φ :=
  { s with slab := s.slab.modify slot (Option.map f) }

/-- Point `slot`'s `next` link at `next`; for `NIL`, move the head. -/
def set_next (s : KeyedWindowStage K T φ) (slot next : Option Nat) : KeyedWindowStage K T φ :=
  match slot.filter fun i => (s.entry i).isSome with
  | some i => s.modify i fun e => { e with next := next }
  | none => { s with lru_head := next }

/-- Point `slot`'s `prev` link at `prev`; for `NIL`, move the tail. -/
def set_prev (s : KeyedWindowStage K T φ) (slot prev : Option Nat) : KeyedWindowStage K T φ :=
  match slot.filter fun i => (s.entry i).isSome with
  | some i => s.modify i fun e => { e with prev := prev }
  | none => { s with lru_tail := prev }

def unlink (s : KeyedWindowStage K T φ) (slot : Nat) : KeyedWindowStage K T φ :=
  match s.entry slot with
  | some e => (s.set_next e.prev e.next).set_prev e.next e.prev
  | none => s

def push_back (s : KeyedWindowStage K T φ) (slot : Nat) : KeyedWindowStage K T φ :=
  let tail := s.lru_tail
  let s := s.modify slot fun e => { e with prev := tail, next := none }
  { s.set_next tail (some slot) with lru_tail := some slot }

def compact_heap (s : KeyedWindowStage K T φ) : KeyedWindowStage K T φ :=
  let live := s.index.keys.length
  if s.heap.length ≤ live * 2 + 64 then s
  else
    let entries := s.slab.zipIdx.filterMap fun (e, slot) =>
      e.bind fun e => e.scheduled.map fun d => (⟨d, e.ticket, slot⟩ : Due)
    { s with heap := entries.insertionSort Due.le }

def remove [DecidableEq K] (s : KeyedWindowStage K T φ) (slot : Nat) :
    Option (KeyEntry K T) × KeyedWindowStage K T φ :=
  let s := s.unlink slot
  match s.entry slot with
  | some entry =>
    (some entry, { s with
      slab := s.slab.set slot none
      index := s.index.erase entry.key
      free := slot :: s.free })
  | none => (none, s)

/-- Make sure the heap holds an entry no later than this key's deadline. -/
def schedule [Timeline] (s : KeyedWindowStage K T φ) (slot now : Nat) :
    KeyedWindowStage K T φ :=
  let ticket := wrapping_succ s.tickets
  match s.entry slot with
  | none => s
  | some entry =>
    match entry.core.deadline with
    | none => s
    | some deadline =>
      let s := if deadline > now then s else { s with fallbacks := s.fallbacks + 1 }
      match if deadline > now then some deadline else checked_add now 1 with
      | none => s
      | some deadline =>
        if entry.scheduled.any fun d => d ≤ deadline then s
        else
          let s := s.modify slot fun e => { e with ticket := ticket, scheduled := some deadline }
          { s with
            tickets := ticket
            heap := s.heap.orderedInsert Due.le ⟨deadline, ticket, slot⟩ }.compact_heap

end

section

variable [Timeline] {K T φ : Type} [DecidableEq K] {m : Type → Type u} [Monad m]

def keyed_emit (key : K) (out : K × Window T → m Bool) (w : Window T) : m Bool := out (key, w)

/-- The loop of `expire`, for at most `fuel` rounds. -/
def expire_loop (anchor now : Nat) (out : K × Window T → m Bool) :
    Nat → KeyedWindowStage K T φ → m (Option (KeyedWindowStage K T φ))
  | 0, _ => pure none
  | fuel + 1, s =>
    match s.heap with
    | [] => pure (some s)
    | due :: rest =>
      if due.deadline > now then pure (some s)
      else
        let s := { s with heap := rest }
        match (s.entry due.slot).filter fun e => e.ticket = due.ticket with
        | none => expire_loop anchor now out fuel s
        | some entry =>
          let s := s.modify due.slot fun e => { e with scheduled := none }
          if entry.core.deadline.any fun d => d > now then
            expire_loop anchor now out fuel (s.schedule due.slot now)
          else do
            let core ← entry.core.on_tick anchor now (keyed_emit entry.key out)
            let s := s.modify due.slot fun e => { e with core := core }
            if core.is_empty then expire_loop anchor now out fuel (s.remove due.slot).2
            else expire_loop anchor now out fuel (s.schedule due.slot now)

/-- Emit the expired windows of every key whose deadline has passed. A round takes an entry
off the heap; `none` if the entries there were at first are not enough. -/
def expire (s : KeyedWindowStage K T φ) (anchor now : Nat) (out : K × Window T → m Bool) :
    m (Option (KeyedWindowStage K T φ)) :=
  expire_loop anchor now out (s.heap.length + 1) s

/-- Flush and remove the least recently active key. -/
def evict_one (s : KeyedWindowStage K T φ) (now : Nat) (out : K × Window T → m Bool) :
    m (KeyedWindowStage K T φ) :=
  match s.lru_head with
  | none => pure s
  | some victim =>
    match s.remove victim with
    | (none, s) => pure s
    | (some entry, s) => do
      let _core ← entry.core.on_flush now (keyed_emit entry.key out)
      pure s

/-- Put `entry` into a free slot, or into a new one at the end of the slab. -/
def place (s : KeyedWindowStage K T φ) (entry : KeyEntry K T) : Nat × KeyedWindowStage K T φ :=
  match s.free with
  | slot :: free => (slot, { s with slab := s.slab.set slot (some entry), free := free })
  | [] => (s.slab.length, { s with slab := s.slab ++ [some entry] })

/-- The end of `touch`: state for a key that has none. -/
def create (s : KeyedWindowStage K T φ) (key : K) : Nat × KeyedWindowStage K T φ :=
  let s := { s with seq := wrapping_succ s.seq }
  let (slot, s) := s.place ⟨key, Core.new s.policy, s.seq, none, none, 0, none⟩
  let s := { s with index := s.index.insert key slot }
  (slot, s.push_back slot)

/-- The slot of `key`, which becomes the most recently active one. -/
def touch (s : KeyedWindowStage K T φ) (key : K) (now : Nat) (out : K × Window T → m Bool) :
    m (Nat × KeyedWindowStage K T φ) :=
  match s.index.lookup key with
  | some slot =>
    if some slot ≠ s.lru_tail then pure (slot, (s.unlink slot).push_back slot)
    else pure (slot, s)
  | none => do
    let s ← if s.index.keys.length ≥ s.max_keys then s.evict_one now out else pure s
    pure (s.create key)

/-- The end of `process`: the key of the item gets it. -/
def deliver (s : KeyedWindowStage K T φ) (slot : Nat) (anchor now : Nat) (item : T)
    (out : K × Window T → m Bool) : m (KeyedWindowStage K T φ) :=
  match s.entry slot with
  | some entry => do
    let core ← entry.core.on_item s.max_items anchor now item (keyed_emit entry.key out)
    pure (s.modify slot fun e => { e with core := core })
  | none => pure s

/-- `process`, when the clock reads `now`. -/
def process (key_fn : T → φ → K × φ) (item : T) (now : Nat) (out : K × Window T → m Bool)
    (s : KeyedWindowStage K T φ) : m (Option (KeyedWindowStage K T φ)) := do
  let anchor := s.anchor.getD (grid_origin s.policy now)
  match ← { s with anchor := some anchor }.expire anchor now out with
  | none => pure none
  | some s =>
    let (key, key_state) := key_fn item s.key_state
    let (slot, s) ← { s with key_state := key_state }.touch key now out
    let s ← s.deliver slot anchor now item out
    pure (some (s.schedule slot now))

def tick (now : Nat) (out : K × Window T → m Bool) (s : KeyedWindowStage K T φ) :
    m (Option (KeyedWindowStage K T φ)) :=
  match s.anchor with
  | some anchor => s.expire anchor now out
  | none => pure (some s)

/-- The loop at the end of `flush`. -/
def flush_entries (now : Nat) (out : K × Window T → m Bool) : List (KeyEntry K T) → m Unit
  | [] => pure ()
  | entry :: rest => do
    let _core ← entry.core.on_flush now (keyed_emit entry.key out)
    flush_entries now out rest

def flush (now : Nat) (out : K × Window T → m Bool) (s : KeyedWindowStage K T φ) :
    m (KeyedWindowStage K T φ) := do
  let entries := s.slab.filterMap id
  flush_entries now out (entries.insertionSort fun a b => a.created ≤ b.created)
  pure { s with
    slab := [], index := ∅, free := [], heap := [], lru_head := none, lru_tail := none }

end

end KeyedWindowStage

end PipeIo
