import Mathlib.Algebra.GroupWithZero.Nat
import Mathlib.Control.Monad.Basic
import PipeIo.Error

namespace PipeIo
set_option autoImplicit true

inductive IoErrorKind where
  | interrupted
  | other (name : String)
  deriving DecidableEq, Repr

/-- `io::Error`. -/
structure IoError where
  kind : IoErrorKind
  text : String
  deriving DecidableEq, Repr

/-- `b'\n'`. -/
def LF : UInt8 := 10

/-- `b'\r'`. -/
def CR : UInt8 := 13

/-- `BufReader`: the part of its buffer that is not consumed yet, and what the reads of the
underlying reader will return, one after the other. After them it is at its end. -/
structure BufReader where
  buf : List UInt8
  reads : List (Except IoError (List UInt8))
  deriving DecidableEq

namespace BufReader

def new (reads : List (Except IoError (List UInt8))) : BufReader := ⟨[], reads⟩

/-- The buffer is filled only when it is empty. -/
def fill_buf (r : BufReader) : Except IoError (List UInt8) × BufReader :=
  if r.buf.isEmpty then
    match r.reads with
    | [] => (.ok [], r)
    | .ok chunk :: reads => (.ok chunk, ⟨chunk, reads⟩)
    | .error e :: reads => (.error e, ⟨[], reads⟩)
  else (.ok r.buf, r)

def consume (n : Nat) (r : BufReader) : BufReader := { r with buf := r.buf.drop n }

/-- A bound on the reads and bytes that are left. -/
def weight (r : BufReader) : Nat :=
  r.buf.length + (r.reads.map fun
    | .ok chunk => chunk.length + 1
    | .error _ => 1).sum

theorem fill_buf_error {r t : BufReader} (h : r.fill_buf = (.error e, t)) : t.weight < r.weight := by
  obtain ⟨buf, reads⟩ := r
  rcases buf with _ | ⟨b, buf⟩
  · rcases reads with _ | ⟨chunk | e, reads⟩
    · cases h
    · cases h
      simp [weight]
    · cases h
  · cases h

theorem fill_buf_ok {r t : BufReader} (h : r.fill_buf = (.ok available, t)) :
    t.buf = available ∧ t.weight ≤ r.weight := by
  obtain ⟨buf, reads⟩ := r
  rcases buf with _ | ⟨b, buf⟩
  · rcases reads with _ | ⟨chunk | e, reads⟩
    · cases h
      exact ⟨rfl, Nat.le_refl _⟩
    · cases h
    · cases h
      simp [weight]
  · cases h
    exact ⟨rfl, Nat.le_refl _⟩

theorem weight_consume {r : BufReader} {n : Nat} (hn : 0 < n) (hb : r.buf ≠ []) :
    (r.consume n).weight < r.weight := by
  have hpos : 0 < r.buf.length := List.length_pos_iff.2 hb
  simp only [consume, weight, List.length_drop]
  omega

end BufReader

/-- What a line reader does with a line longer than its limit. -/
inductive LineOverflow where
  | error | skip | truncate
  deriving DecidableEq, Repr

inductive ReaderError where
  | io (e : IoError)
  | lineTooLong (line limit : Nat)
  | invalidUtf8 (line : Nat)
  deriving DecidableEq, Repr

/-- How a call on a reader source fails: with an error, or with the panic of a subtraction that
underflows. -/
inductive Failure where
  | error (e : ReaderError)
  | underflow
  deriving DecidableEq, Repr

inductive ReadLine where
  | eof
  | skipped
  | line (line : List UInt8)
  deriving DecidableEq, Repr

/-- `DEFAULT_MAX_LINE_LEN`: 1 MiB. -/
def DEFAULT_MAX_LINE_LEN : Nat := 1 * 2 ^ 20

structure LineReader where
  reader : BufReader
  max_len : Nat
  overflow : LineOverflow
  line_no : Nat
  deriving DecidableEq

namespace LineReader

def new (reader : BufReader) : LineReader := ⟨reader, DEFAULT_MAX_LINE_LEN, .error, 0⟩

/-- What `read_one` does after its loop. -/
def read_end (line : List UInt8) (overflowed : Bool) (r : LineReader) :
    Except Failure ReadLine × LineReader :=
  let r := { r with line_no := r.line_no + 1 }
  if overflowed && r.overflow = .skip then (.ok .skipped, r)
  else if !overflowed && line.getLast? = some CR then (.ok (.line line.dropLast), r)
  else (.ok (.line line), r)

/-- What the loop of `read_one` makes of the next bytes of the line. -/
def read_chunk (r : LineReader) (chunk line : List UInt8) (overflowed : Bool) :
    Except Failure (List UInt8 × Bool) :=
  if overflowed then .ok (line, overflowed)
  else if r.max_len < line.length then .error .underflow
  else
    let room := r.max_len - line.length
    if chunk.length ≤ room then .ok (line ++ chunk, overflowed)
    else
      match r.overflow with
      | .error => .error (.error (.lineTooLong (r.line_no + 1) r.max_len))
      | .truncate => .ok (line ++ chunk.take room, true)
      | .skip => .ok ([], true)

/-- The loop of `read_one`. -/
def read_loop (r : LineReader) (line : List UInt8) (saw_bytes overflowed : Bool) :
    Except Failure ReadLine × LineReader :=
  match _ : r.reader.fill_buf with
  | (.error e, reader) =>
    if e.kind = .interrupted then { r with reader := reader }.read_loop line saw_bytes overflowed
    else (.error (.error (.io e)), { r with reader := reader })
  | (.ok available, reader) =>
    if _ : available = [] then
      if !saw_bytes then (.ok .eof, { r with reader := reader })
      else { r with reader := reader }.read_end line overflowed
    else
      match available.findIdx? (· == LF) with
      | some i =>
        match r.read_chunk (available.take i) line overflowed with
        | .error e => (.error e, { r with reader := reader, line_no := r.line_no + 1 })
        | .ok (line, overflowed) =>
          { r with reader := reader.consume (i + 1) }.read_end line overflowed
      | none =>
        match r.read_chunk available line overflowed with
        | .error e => (.error e, { r with reader := reader, line_no := r.line_no + 1 })
        | .ok (line, overflowed) =>
          { r with reader := reader.consume available.length }.read_loop line true overflowed
termination_by r.reader.weight
decreasing_by
  · exact BufReader.fill_buf_error ‹_›
  · obtain ⟨hbuf, hle⟩ := BufReader.fill_buf_ok ‹_›
    have hempty : available ≠ [] := ‹_›
    apply Nat.lt_of_lt_of_le (BufReader.weight_consume _ _) hle
    · exact List.length_pos_iff.2 hempty
    · rw [hbuf]
      exact hempty

def read_one (r : LineReader) : Except Failure ReadLine × LineReader := r.read_loop [] false false

@[simp] theorem read_end_reader (r : LineReader) (line : List UInt8) (overflowed : Bool) :
    (r.read_end line overflowed).2.reader = r.reader := by
  unfold read_end
  dsimp only
  repeat' split
  all_goals rfl

/-- A line that is read makes what is left shorter. -/
theorem read_loop_weight (r : LineReader) (line : List UInt8) (saw_bytes overflowed : Bool) :
    (r.read_loop line saw_bytes overflowed).2.reader.weight ≤ r.reader.weight ∧
      ∀ x, (r.read_loop line saw_bytes overflowed).1 = .ok x → x ≠ .eof → saw_bytes = false →
        (r.read_loop line saw_bytes overflowed).2.reader.weight < r.reader.weight := by
  fun_induction read_loop r line saw_bytes overflowed with
  | case1 r line saw_bytes overflowed e reader hfill hkind ih =>
    have hlt := BufReader.fill_buf_error hfill
    obtain ⟨hle, -⟩ := ih
    have hless := Nat.lt_of_le_of_lt hle hlt
    exact ⟨Nat.le_of_lt hless, fun _ _ _ _ => hless⟩
  | case2 r line saw_bytes overflowed e reader hfill hkind =>
    have hlt := BufReader.fill_buf_error hfill
    exact ⟨Nat.le_of_lt hlt, fun _ _ _ _ => hlt⟩
  | case3 r line saw_bytes overflowed reader hfill hnone =>
    obtain ⟨-, hle⟩ := BufReader.fill_buf_ok hnone
    refine ⟨hle, fun x hx hne => ?_⟩
    cases hx
    exact absurd rfl hne
  | case4 r line saw_bytes overflowed reader hsaw hfill =>
    obtain ⟨-, hle⟩ := BufReader.fill_buf_ok hfill
    rw [read_end_reader]
    refine ⟨hle, fun _ _ _ hnot => ?_⟩
    rw [hnot] at hsaw
    exact absurd rfl hsaw
  | case5 r line saw_bytes overflowed available reader hfill hempty i hi e he =>
    obtain ⟨-, hle⟩ := BufReader.fill_buf_ok hfill
    refine ⟨hle, fun x hx => ?_⟩
    cases hx
  | case6 r line saw_bytes overflowed available reader hfill hempty i hi line' overflowed' he =>
    obtain ⟨hbuf, hle⟩ := BufReader.fill_buf_ok hfill
    have hlt := Nat.lt_of_lt_of_le
      (BufReader.weight_consume (Nat.succ_pos i) (hbuf.symm ▸ hempty)) hle
    rw [read_end_reader]
    exact ⟨Nat.le_of_lt hlt, fun _ _ _ _ => hlt⟩
  | case7 r line saw_bytes overflowed available reader hfill hempty hi e he =>
    obtain ⟨-, hle⟩ := BufReader.fill_buf_ok hfill
    refine ⟨hle, fun x hx => ?_⟩
    cases hx
  | case8 r line saw_bytes overflowed available reader hfill hempty hi line' overflowed' he ih =>
    obtain ⟨hbuf, hle⟩ := BufReader.fill_buf_ok hfill
    have hlt := Nat.lt_of_lt_of_le
      (BufReader.weight_consume (List.length_pos_iff.2 hempty) (hbuf.symm ▸ hempty)) hle
    have hless := Nat.lt_of_le_of_lt ih.1 hlt
    exact ⟨Nat.le_of_lt hless, fun _ _ _ _ => hless⟩

theorem read_one_weight {r t : LineReader} {x : ReadLine} (h : r.read_one = (.ok x, t))
    (hx : x ≠ .eof) : t.reader.weight < r.reader.weight := by
  obtain ⟨-, hlt⟩ := read_loop_weight r [] false false
  rw [read_one] at h
  rw [h] at hlt
  exact hlt x rfl hx rfl

/-- The next line without its terminator. -/
def next_line (r : LineReader) : Except Failure (Option (List UInt8)) × LineReader :=
  match _ : r.read_one with
  | (.error e, r) => (.error e, r)
  | (.ok .eof, r) => (.ok none, r)
  | (.ok .skipped, r) => r.next_line
  | (.ok (.line line), r) => (.ok (some line), r)
termination_by r.reader.weight
decreasing_by
  exact read_one_weight ‹_› (by intro h; cases h)

theorem next_line_weight {r t : LineReader} {line : List UInt8}
    (h : r.next_line = (.ok (some line), t)) : t.reader.weight < r.reader.weight := by
  fun_induction next_line r with
  | case1 r e t' hread => cases h
  | case2 r t' hread => cases h
  | case3 r t' hread ih =>
    have hlt := read_one_weight hread (by intro h; cases h)
    exact Nat.lt_trans (ih h) hlt
  | case4 r line' t' hread =>
    cases h
    exact read_one_weight hread (by intro h; cases h)

/-- What the calls of `next_line` give, up to the end or the first failure. -/
def lines (r : LineReader) : List (Except Failure (List UInt8)) :=
  match _ : r.next_line with
  | (.error e, _) => [.error e]
  | (.ok none, _) => []
  | (.ok (some line), r) => .ok line :: r.lines
termination_by r.reader.weight
decreasing_by
  exact next_line_weight ‹_›

end LineReader

/-- `String::as_bytes`. -/
def as_bytes (s : String) : List UInt8 := s.toUTF8.data.toList

/-- `String::from_utf8`. -/
def from_utf8 (bytes : List UInt8) : Option String := String.fromUTF8? ⟨bytes.toArray⟩

/-- Two bytes that a character of three or four bytes may begin with. -/
def utf8_lead (a b : UInt8) : Bool :=
  (a = 0xE0 && 0xA0 ≤ b && b ≤ 0xBF) || (0xE1 ≤ a && a ≤ 0xEC && 0x80 ≤ b && b ≤ 0xBF) ||
    (a = 0xED && 0x80 ≤ b && b ≤ 0x9F) || (0xEE ≤ a && a ≤ 0xEF && 0x80 ≤ b && b ≤ 0xBF) ||
    (a = 0xF0 && 0x90 ≤ b && b ≤ 0xBF) || (0xF1 ≤ a && a ≤ 0xF3 && 0x80 ≤ b && b ≤ 0xBF) ||
    (a = 0xF4 && 0x80 ≤ b && b ≤ 0x8F)

/-- How many bytes one replacement character stands for, where no character begins. -/
def ill_formed_len : List UInt8 → Nat
  | a :: b :: rest =>
    if utf8_lead a b then
      match rest with
      | c :: _ => if 0xF0 ≤ a ∧ 0x80 ≤ c ∧ c ≤ 0xBF then 3 else 2
      | [] => 2
    else 1
  | _ => 1

/-- The characters of `from_utf8_lossy`; `n` bounds the bytes. -/
def lossy_chars : Nat → List UInt8 → List Char
  | 0, _ => []
  | _, [] => []
  | n + 1, bytes =>
    match ByteArray.utf8DecodeChar? ⟨bytes.toArray⟩ 0 with
    | some c => c :: lossy_chars n (bytes.drop c.utf8Size)
    | none => '\uFFFD' :: lossy_chars n (bytes.drop (ill_formed_len bytes))

/-- `String::from_utf8_lossy`. -/
def from_utf8_lossy (bytes : List UInt8) : String := String.ofList (lossy_chars bytes.length bytes)

/-- A `Source` of the lines of a reader, as strings. -/
structure ReaderSource where
  lines : LineReader
  lossy : Bool
  deriving DecidableEq

namespace ReaderSource

def new (reader : BufReader) : ReaderSource := ⟨LineReader.new reader, false⟩

def max_line_len (limit : Nat) (s : ReaderSource) : ReaderSource :=
  { s with lines := { s.lines with max_len := max limit 1 } }

def on_overflow (policy : LineOverflow) (s : ReaderSource) : ReaderSource :=
  { s with lines := { s.lines with overflow := policy } }

def with_lossy (lossy : Bool) (s : ReaderSource) : ReaderSource := { s with lossy := lossy }

def pull (s : ReaderSource) : Except Failure (Option String) × ReaderSource :=
  match s.lines.next_line with
  | (.error e, lines) => (.error e, { s with lines := lines })
  | (.ok none, lines) => (.ok none, { s with lines := lines })
  | (.ok (some bytes), lines) =>
    match from_utf8 bytes with
    | some line => (.ok (some line), { s with lines := lines })
    | none =>
      if s.lossy then (.ok (some (from_utf8_lossy bytes)), { s with lines := lines })
      else (.error (.error (.invalidUtf8 lines.line_no)), { s with lines := lines })

theorem pull_weight {s t : ReaderSource} {line : String} (h : s.pull = (.ok (some line), t)) :
    t.lines.reader.weight < s.lines.reader.weight := by
  rw [pull] at h
  split at h
  · cases h
  · cases h
  · rename_i bytes lines hline
    have hlt := LineReader.next_line_weight hline
    split at h
    · cases h
      exact hlt
    · split at h
      · cases h
        exact hlt
      · cases h

/-- What the pulls give, up to the end or the first failure. -/
def pulls (s : ReaderSource) : List (Except Failure String) :=
  match _ : s.pull with
  | (.error e, _) => [.error e]
  | (.ok none, _) => []
  | (.ok (some line), s) => .ok line :: s.pulls
termination_by s.lines.reader.weight
decreasing_by
  exact pull_weight ‹_›

end ReaderSource

/-- A `Source` of the lines of a reader, as bytes. -/
structure ByteLinesSource where
  lines : LineReader
  deriving DecidableEq

namespace ByteLinesSource

def new (reader : BufReader) : ByteLinesSource := ⟨LineReader.new reader⟩

def max_line_len (limit : Nat) (s : ByteLinesSource) : ByteLinesSource :=
  ⟨{ s.lines with max_len := max limit 1 }⟩

def on_overflow (policy : LineOverflow) (s : ByteLinesSource) : ByteLinesSource :=
  ⟨{ s.lines with overflow := policy }⟩

def pull (s : ByteLinesSource) : Except Failure (Option (List UInt8)) × ByteLinesSource :=
  let (line, lines) := s.lines.next_line
  (line, ⟨lines⟩)

end ByteLinesSource

/-- `io::Write`, as far as a sink uses it. -/
structure Writer (W : Type) where
  write_all : List UInt8 → W → Except IoError Unit × W
  flush : W → Except IoError Unit × W

namespace WriterSink

variable {W : Type} (writer : Writer W)

def write (item : String) (w : W) : Except IoError Unit × W :=
  match writer.write_all (as_bytes item) w with
  | (.error e, w) => (.error e, w)
  | (.ok (), w) => writer.write_all [LF] w

def flush (w : W) : Except IoError Unit × W := writer.flush w

def close (w : W) : Except IoError Unit × W := writer.flush w

/-- Write some items, up to the first error. -/
def writes : List String → W → Except IoError Unit × W
  | [], w => (.ok (), w)
  | item :: items, w =>
    match write writer item w with
    | (.error e, w) => (.error e, w)
    | (.ok (), w) => writes items w

end WriterSink

end PipeIo
