import PipeIo.Lines

namespace PipeIo
set_option autoImplicit true

/-- A stretch of the input between two line feeds. The last one may not be ended. -/
structure Segment where
  content : List UInt8
  ended : Bool
  deriving DecidableEq, Repr

/-- The segment that goes on with `cur`, and what follows it. -/
def cut (cur : List UInt8) : List UInt8 → Option (Segment × List UInt8)
  | [] => if cur = [] then none else some (⟨cur, false⟩, [])
  | b :: rest => if b = LF then some (⟨cur, true⟩, rest) else cut (cur ++ [b]) rest

/-- The segments of an input of which `cur` has been looked at. -/
def segments_from (cur : List UInt8) : List UInt8 → List Segment
  | [] => if cur = [] then [] else [⟨cur, false⟩]
  | b :: rest => if b = LF then ⟨cur, true⟩ :: segments_from [] rest else segments_from (cur ++ [b]) rest

/-- The input, split at each line feed. -/
def segments (bytes : List UInt8) : List Segment := segments_from [] bytes

/-- A line without one trailing carriage return. -/
def strip_cr (line : List UInt8) : List UInt8 :=
  if line.getLast? = some CR then line.dropLast else line

/-- What a segment counts as: a line, nothing, or an error. -/
def read_segment (max_len : Nat) (overflow : LineOverflow) (line_no : Nat) (content : List UInt8) :
    Except ReaderError (Option (List UInt8)) :=
  if content.length ≤ max_len then .ok (some (strip_cr content))
  else
    match overflow with
    | .error => .error (.lineTooLong line_no max_len)
    | .skip => .ok none
    | .truncate => .ok (some (content.take max_len))

/-- A segment that is not an error, as `read_one` returns it. -/
def ReadLine.of : Option (List UInt8) → ReadLine
  | none => .skipped
  | some bytes => .line bytes

/-- The lines of some segments, up to the first error. -/
def split_lines (max_len : Nat) (overflow : LineOverflow) :
    Nat → List Segment → List (Except ReaderError (List UInt8))
  | _, [] => []
  | n, s :: rest =>
    match read_segment max_len overflow (n + 1) s.content with
    | .error e => [.error e]
    | .ok none => split_lines max_len overflow (n + 1) rest
    | .ok (some line) => .ok line :: split_lines max_len overflow (n + 1) rest

section Cut

theorem newline_none {l : List UInt8} (h : l.findIdx? (· == LF) = none) : LF ∉ l := by
  intro hmem
  have := List.findIdx?_eq_none_iff.1 h LF hmem
  simp at this

theorem newline_some {l : List UInt8} {i : Nat} (h : l.findIdx? (· == LF) = some i) :
    LF ∉ l.take i ∧ l = l.take i ++ LF :: l.drop (i + 1) := by
  induction l generalizing i with
  | nil => cases h
  | cons b l ih =>
    rw [List.findIdx?_cons] at h
    by_cases hb : b = LF
    · subst hb
      rw [if_pos (by simp)] at h
      cases h
      exact ⟨by simp, rfl⟩
    · rw [if_neg (by simpa using hb)] at h
      obtain ⟨j, hj, rfl⟩ := Option.map_eq_some_iff.1 h
      obtain ⟨hnot, hl⟩ := ih hj
      refine ⟨?_, ?_⟩
      · rw [List.take_succ_cons, List.mem_cons, not_or]
        exact ⟨Ne.symm hb, hnot⟩
      · rw [List.take_succ_cons, List.cons_append, List.drop_succ_cons, ← hl]

variable {cur a rest : List UInt8} {s : Segment}

theorem cut_append (ha : LF ∉ a) : cut cur (a ++ rest) = cut (cur ++ a) rest := by
  induction a generalizing cur with
  | nil => rw [List.nil_append, List.append_nil]
  | cons b a ih =>
    rw [List.mem_cons, not_or] at ha
    rw [List.cons_append, cut, if_neg (Ne.symm ha.1), ih ha.2, List.append_assoc]
    rfl

theorem cut_line : cut cur (LF :: rest) = some (⟨cur, true⟩, rest) := by
  rw [cut, if_pos rfl]

theorem cut_newline (cur rest : List UInt8) {i : Nat} (hi : a.findIdx? (· == LF) = some i) :
    cut cur (a ++ rest) = some (⟨cur ++ a.take i, true⟩, a.drop (i + 1) ++ rest) := by
  obtain ⟨hnot, ha⟩ := newline_some hi
  have hsplit : a ++ rest = a.take i ++ LF :: (a.drop (i + 1) ++ rest) := by
    rw [← List.cons_append, ← List.append_assoc, ← ha]
  rw [hsplit, cut_append hnot, cut_line]

theorem cut_end (hcur : cur ≠ []) : cut cur [] = some (⟨cur, false⟩, []) := by
  rw [cut, if_neg hcur]

/-- A segment that has begun goes on. -/
theorem cut_prefix (hcur : cur ≠ []) (bytes : List UInt8) :
    ∃ s rest, cut cur bytes = some (s, rest) ∧ cur <+: s.content := by
  induction bytes generalizing cur with
  | nil => exact ⟨_, _, cut_end hcur, List.prefix_rfl⟩
  | cons b bytes ih =>
    by_cases hb : b = LF
    · subst hb
      exact ⟨_, _, cut_line, List.prefix_rfl⟩
    · have hnext : cur ++ [b] ≠ [] := by simp
      obtain ⟨s, rest, hcut, hpre⟩ := ih hnext
      rw [cut, if_neg hb]
      exact ⟨s, rest, hcut, (List.prefix_append cur [b]).trans hpre⟩

theorem segments_from_cut (cur bytes : List UInt8) :
    segments_from cur bytes = ((cut cur bytes).map fun r => r.1 :: segments r.2).getD [] := by
  induction bytes generalizing cur with
  | nil =>
    rw [segments_from, cut]
    split
    · rfl
    · rfl
  | cons b bytes ih =>
    rw [segments_from, cut]
    split
    · rfl
    · exact ih _

theorem segments_cons (hcut : cut [] a = some (s, rest)) : segments a = s :: segments rest := by
  rw [segments, segments_from_cut, hcut]
  rfl

theorem segments_none (hcut : cut [] a = none) : segments a = [] := by
  rw [segments, segments_from_cut, hcut]
  rfl

end Cut

/-- What a read may give: some bytes, or an interruption. -/
def Smooth : Except IoError (List UInt8) → Prop
  | .ok chunk => chunk ≠ []
  | .error e => e.kind = .interrupted

instance : DecidablePred Smooth
  | .ok chunk => inferInstanceAs (Decidable (chunk ≠ []))
  | .error e => inferInstanceAs (Decidable (e.kind = .interrupted))

/-- The bytes some reads give. -/
def read_bytes (reads : List (Except IoError (List UInt8))) : List UInt8 :=
  reads.flatMap fun
    | .ok chunk => chunk
    | .error _ => []

namespace BufReader

variable {r t : BufReader} {available : List UInt8}

/-- The bytes that are left. -/
def bytes (r : BufReader) : List UInt8 := r.buf ++ read_bytes r.reads

theorem fill_buf_interrupted {e : IoError} (h : r.fill_buf = (.error e, t))
    (hs : ∀ x ∈ r.reads, Smooth x) :
    e.kind = .interrupted ∧ t.bytes = r.bytes ∧ ∀ x ∈ t.reads, Smooth x := by
  obtain ⟨buf, reads⟩ := r
  rcases buf with _ | ⟨b, buf⟩
  · rcases reads with _ | ⟨e' | chunk, reads⟩
    · cases h
    · cases h
      exact ⟨hs _ List.mem_cons_self, rfl, fun x hx => hs x (List.mem_cons_of_mem _ hx)⟩
    · cases h
  · cases h

theorem fill_buf_bytes (h : r.fill_buf = (.ok available, t)) (hs : ∀ x ∈ r.reads, Smooth x) :
    r.bytes = available ++ read_bytes t.reads ∧ (available = [] → t.bytes = [] ∧ r.bytes = []) ∧
      ∀ x ∈ t.reads, Smooth x := by
  obtain ⟨buf, reads⟩ := r
  rcases buf with _ | ⟨b, buf⟩
  · rcases reads with _ | ⟨e' | chunk, reads⟩
    · cases h
      exact ⟨rfl, fun _ => ⟨rfl, rfl⟩, hs⟩
    · cases h
    · cases h
      have hchunk := hs _ List.mem_cons_self
      refine ⟨rfl, fun hnil => absurd hnil hchunk, fun x hx => hs x (List.mem_cons_of_mem _ hx)⟩
  · cases h
    exact ⟨rfl, fun hnil => absurd hnil (List.cons_ne_nil b buf), hs⟩

end BufReader

namespace LineReader

variable {r : LineReader} {pre chunk line : List UInt8} {overflowed : Bool}

/-- What the loop of `read_one` keeps of the bytes of a line. -/
def Kept (max_len : Nat) (overflow : LineOverflow) (pre line : List UInt8) (overflowed : Bool) :
    Prop :=
  (overflowed = false ∧ line = pre ∧ pre.length ≤ max_len) ∨
    (overflowed = true ∧ max_len < pre.length ∧
      (overflow = .skip ∧ line = [] ∨ overflow = .truncate ∧ line = pre.take max_len))

theorem Kept.extend (h : Kept m policy pre line true) (chunk : List UInt8) :
    Kept m policy (pre ++ chunk) line true := by
  rcases h with ⟨hnot, -⟩ | ⟨-, hlong, hline⟩
  · cases hnot
  · refine .inr ⟨rfl, by rw [List.length_append]; omega, ?_⟩
    rw [List.take_append_of_le_length (Nat.le_of_lt hlong)]
    exact hline

/-- The bytes of a chunk go on with the line, or the line is too long. -/
theorem read_chunk_kept (h : Kept r.max_len r.overflow pre line overflowed) (chunk : List UInt8) :
    (∃ line' overflowed', r.read_chunk chunk line overflowed = .ok (line', overflowed') ∧
      Kept r.max_len r.overflow (pre ++ chunk) line' overflowed') ∨
    (r.read_chunk chunk line overflowed =
        .error (.error (.lineTooLong (r.line_no + 1) r.max_len)) ∧
      r.overflow = .error ∧ r.max_len < (pre ++ chunk).length) := by
  cases overflowed with
  | true => exact .inl ⟨line, true, rfl, h.extend chunk⟩
  | false =>
    obtain ⟨hline, hle⟩ : line = pre ∧ pre.length ≤ r.max_len := by
      rcases h with ⟨-, hline, hle⟩ | ⟨hnot, -⟩
      · exact ⟨hline, hle⟩
      · cases hnot
    subst hline
    rw [read_chunk, if_neg Bool.false_ne_true, if_neg (Nat.not_lt_of_le hle)]
    by_cases hroom : chunk.length ≤ r.max_len - line.length
    · rw [if_pos hroom]
      refine .inl ⟨_, _, rfl, .inl ⟨rfl, rfl, ?_⟩⟩
      rw [List.length_append]
      omega
    · have hlong : r.max_len < (line ++ chunk).length := by
        rw [List.length_append]
        omega
      rw [if_neg hroom]
      cases hpolicy : r.overflow with
      | error => exact .inr ⟨rfl, rfl, hlong⟩
      | skip => exact .inl ⟨_, _, rfl, .inr ⟨rfl, hlong, .inl ⟨rfl, rfl⟩⟩⟩
      | truncate =>
        refine .inl ⟨_, _, rfl, .inr ⟨rfl, hlong, .inr ⟨rfl, ?_⟩⟩⟩
        rw [List.take_append, List.take_of_length_le hle]

/-- At its end the line counts as what the segment counts as. -/
theorem read_end_kept (h : Kept r.max_len r.overflow pre line overflowed) :
    ∃ x, read_segment r.max_len r.overflow (r.line_no + 1) pre = .ok x ∧
      r.read_end line overflowed = (.ok (ReadLine.of x), { r with line_no := r.line_no + 1 }) := by
  rcases h with ⟨rfl, rfl, hle⟩ | ⟨rfl, hlong, ⟨hpolicy, rfl⟩ | ⟨hpolicy, rfl⟩⟩
  · refine ⟨_, if_pos hle, ?_⟩
    rw [strip_cr]
    by_cases hcr : line.getLast? = some CR
    · simp [read_end, hcr, ReadLine.of]
    · simp [read_end, hcr, ReadLine.of]
  · refine ⟨none, ?_, ?_⟩
    · simp only [read_segment, if_neg (Nat.not_le_of_lt hlong), hpolicy]
    · simp [read_end, hpolicy, ReadLine.of]
  · refine ⟨some (pre.take r.max_len), ?_, ?_⟩
    · simp only [read_segment, if_neg (Nat.not_le_of_lt hlong), hpolicy]
    · simp [read_end, hpolicy, ReadLine.of]

/-- What `read_one` does with the segment that goes on with `pre`. -/
def Reads (r : LineReader) (pre : List UInt8) (result : Except Failure ReadLine × LineReader) :
    Prop :=
  match cut pre r.reader.bytes with
  | none => result.1 = .ok .eof
  | some (s, rest) =>
    match read_segment r.max_len r.overflow (r.line_no + 1) s.content with
    | .error e => result.1 = .error (.error e)
    | .ok x => ∃ reader : BufReader,
      result = (.ok (ReadLine.of x), ⟨reader, r.max_len, r.overflow, r.line_no + 1⟩) ∧
        reader.bytes = rest ∧ ∀ x ∈ reader.reads, Smooth x

theorem reads_end (h : Kept r.max_len r.overflow pre line overflowed) {reader : BufReader}
    {s : Segment} {rest : List UInt8} (hcut : cut pre' r.reader.bytes = some (s, rest))
    (hs : s.content = pre) (hrest : reader.bytes = rest) (hsmooth : ∀ x ∈ reader.reads, Smooth x) :
    r.Reads pre' ({ r with reader := reader }.read_end line overflowed) := by
  obtain ⟨x, hread, hend⟩ := read_end_kept (r := { r with reader := reader }) h
  simp only [Reads, hcut, hs, hread]
  exact ⟨reader, hend, hrest, hsmooth⟩

theorem reads_too_long {e : Failure} {t : LineReader} {s : Segment} {rest : List UInt8}
    (hcut : cut pre' r.reader.bytes = some (s, rest)) (hpre : pre <+: s.content)
    (hlong : r.max_len < pre.length) (hpolicy : r.overflow = .error)
    (he : e = .error (.lineTooLong (r.line_no + 1) r.max_len)) : r.Reads pre' (.error e, t) := by
  have hnot : ¬s.content.length ≤ r.max_len := by
    have := hpre.length_le
    omega
  simp only [Reads, hcut, read_segment, if_neg hnot, hpolicy, he]

/-- However the bytes of a line come in, `read_one` reads it. -/
theorem read_loop_reads (r : LineReader) (line : List UInt8) (saw_bytes overflowed : Bool)
    (h : Kept r.max_len r.overflow pre line overflowed) (hsaw : saw_bytes = true ↔ pre ≠ [])
    (hs : ∀ x ∈ r.reader.reads, Smooth x) :
    r.Reads pre (r.read_loop line saw_bytes overflowed) := by
  fun_induction read_loop r line saw_bytes overflowed generalizing pre with
  | case1 r line saw_bytes overflowed e reader hfill hkind ih =>
    obtain ⟨-, hbytes, hsmooth⟩ := BufReader.fill_buf_interrupted hfill hs
    have hrest := ih h hsaw hsmooth
    unfold Reads at hrest ⊢
    rw [hbytes] at hrest
    exact hrest
  | case2 r line saw_bytes overflowed e reader hfill hkind =>
    obtain ⟨hinterrupted, -⟩ := BufReader.fill_buf_interrupted hfill hs
    exact absurd hinterrupted hkind
  | case3 r line saw_bytes overflowed reader hnot hfill =>
    obtain ⟨-, hend, -⟩ := BufReader.fill_buf_bytes hfill hs
    have hpre : pre = [] := by
      by_contra hne
      rw [hsaw.2 hne] at hnot
      cases hnot
    simp only [Reads, hpre, (hend rfl).2, cut, if_pos]
  | case4 r line saw_bytes overflowed reader hsome hfill =>
    obtain ⟨-, hend, hsmooth⟩ := BufReader.fill_buf_bytes hfill hs
    have hpre : pre ≠ [] := by
      apply hsaw.1
      simpa using hsome
    have hcut : cut pre r.reader.bytes = some (⟨pre, false⟩, []) := by
      rw [(hend rfl).2, cut_end hpre]
    exact reads_end h hcut rfl (hend rfl).1 hsmooth
  | case5 r line saw_bytes overflowed available reader hfill hempty i hi e he =>
    obtain ⟨hbytes, -, -⟩ := BufReader.fill_buf_bytes hfill hs
    have hcut := cut_newline pre (read_bytes reader.reads) hi
    rw [← hbytes] at hcut
    rcases read_chunk_kept h (available.take i) with ⟨_, _, hok, -⟩ | ⟨herror, hpolicy, hlong⟩
    · rw [hok] at he
      cases he
    · rw [herror] at he
      cases he
      exact reads_too_long hcut List.prefix_rfl hlong hpolicy rfl
  | case6 r line saw_bytes overflowed available reader hfill hempty i hi line' overflowed' he =>
    obtain ⟨hbytes, -, hsmooth⟩ := BufReader.fill_buf_bytes hfill hs
    obtain ⟨hbuf, -⟩ := BufReader.fill_buf_ok hfill
    have hcut := cut_newline pre (read_bytes reader.reads) hi
    rw [← hbytes] at hcut
    rcases read_chunk_kept h (available.take i) with ⟨_, _, hok, hkept⟩ | ⟨herror, -⟩
    · rw [hok] at he
      cases he
      exact reads_end hkept hcut rfl (by rw [← hbuf]; rfl) hsmooth
    · rw [herror] at he
      cases he
  | case7 r line saw_bytes overflowed available reader hfill hempty hi e he =>
    obtain ⟨hbytes, -, -⟩ := BufReader.fill_buf_bytes hfill hs
    have hnot := newline_none hi
    obtain ⟨s, rest, hcut, hpre⟩ := cut_prefix (List.append_ne_nil_of_right_ne_nil pre hempty)
      (read_bytes reader.reads)
    rw [← cut_append hnot, ← hbytes] at hcut
    rcases read_chunk_kept h available with ⟨_, _, hok, -⟩ | ⟨herror, hpolicy, hlong⟩
    · rw [hok] at he
      cases he
    · rw [herror] at he
      cases he
      exact reads_too_long hcut hpre hlong hpolicy rfl
  | case8 r line saw_bytes overflowed available reader hfill hempty hi line' overflowed' he ih =>
    obtain ⟨hbytes, -, hsmooth⟩ := BufReader.fill_buf_bytes hfill hs
    obtain ⟨hbuf, -⟩ := BufReader.fill_buf_ok hfill
    have hnot := newline_none hi
    have hne := List.append_ne_nil_of_right_ne_nil pre hempty
    rcases read_chunk_kept h available with ⟨_, _, hok, hkept⟩ | ⟨herror, -⟩
    · rw [hok] at he
      cases he
      have hrest := ih hkept ⟨fun _ => hne, fun _ => rfl⟩ hsmooth
      have hleft : (reader.consume available.length).bytes = read_bytes reader.reads := by
        rw [BufReader.consume, BufReader.bytes, hbuf, List.drop_length]
        rfl
      unfold Reads at hrest ⊢
      rw [hleft, ← cut_append hnot, ← hbytes] at hrest
      exact hrest
    · rw [herror] at he
      cases he

theorem next_line_error {t : LineReader} {e : Failure} (h : r.read_one = (.error e, t)) :
    r.next_line = (.error e, t) := by
  rw [next_line]
  split
  all_goals
    rename_i hread
    cases h.symm.trans hread
  rfl

theorem next_line_eof {t : LineReader} (h : r.read_one = (.ok .eof, t)) :
    r.next_line = (.ok none, t) := by
  rw [next_line]
  split
  all_goals
    rename_i hread
    cases h.symm.trans hread
  rfl

theorem next_line_skipped {t : LineReader} (h : r.read_one = (.ok .skipped, t)) :
    r.next_line = t.next_line := by
  rw [next_line]
  split
  all_goals
    rename_i hread
    cases h.symm.trans hread
  rfl

theorem next_line_line {t : LineReader} {bytes : List UInt8}
    (h : r.read_one = (.ok (.line bytes), t)) : r.next_line = (.ok (some bytes), t) := by
  rw [next_line]
  split
  all_goals
    rename_i hread
    cases h.symm.trans hread
  rfl

theorem lines_error {t : LineReader} {e : Failure} (h : r.next_line = (.error e, t)) :
    r.lines = [.error e] := by
  rw [lines]
  split
  all_goals
    rename_i hline
    cases h.symm.trans hline
  rfl

theorem lines_end {t : LineReader} (h : r.next_line = (.ok none, t)) : r.lines = [] := by
  rw [lines]
  split
  all_goals
    rename_i hline
    cases h.symm.trans hline
  rfl

theorem lines_line {t : LineReader} {bytes : List UInt8} (h : r.next_line = (.ok (some bytes), t)) :
    r.lines = .ok bytes :: t.lines := by
  rw [lines]
  split
  all_goals
    rename_i hline
    cases h.symm.trans hline
  rfl

theorem lines_skipped {t : LineReader} (h : r.next_line = t.next_line) : r.lines = t.lines := by
  obtain ⟨result, u, hu⟩ : ∃ result u, t.next_line = (result, u) := ⟨_, _, rfl⟩
  rw [hu] at h
  rcases result with e | ⟨_ | bytes⟩
  · rw [lines_error h, lines_error hu]
  · rw [lines_end h, lines_end hu]
  · rw [lines_line h, lines_line hu]

/-- `read_one` at the segments of what is left. -/
theorem read_one_segments (r : LineReader) (hs : ∀ x ∈ r.reader.reads, Smooth x) :
    (segments r.reader.bytes = [] ∧ ∃ t, r.read_one = (.ok .eof, t)) ∨
      ∃ s rest, segments r.reader.bytes = s :: rest ∧
        ((∃ e t, read_segment r.max_len r.overflow (r.line_no + 1) s.content = .error e ∧
          r.read_one = (.error (.error e), t)) ∨
        ∃ x reader, read_segment r.max_len r.overflow (r.line_no + 1) s.content = .ok x ∧
          r.read_one = (.ok (ReadLine.of x), ⟨reader, r.max_len, r.overflow, r.line_no + 1⟩) ∧
          segments reader.bytes = rest ∧ ∀ x ∈ reader.reads, Smooth x) := by
  have hreads := read_loop_reads r [] false false (.inl ⟨rfl, rfl, Nat.zero_le _⟩) (by simp) hs
  rw [← read_one] at hreads
  cases hcut : cut [] r.reader.bytes with
  | none =>
    simp only [Reads, hcut] at hreads
    exact .inl ⟨segments_none hcut, r.read_one.2, Prod.ext hreads rfl⟩
  | some c =>
    obtain ⟨s, rest⟩ := c
    simp only [Reads, hcut] at hreads
    refine .inr ⟨s, segments rest, segments_cons hcut, ?_⟩
    cases hread : read_segment r.max_len r.overflow (r.line_no + 1) s.content with
    | error e =>
      simp only [hread] at hreads
      exact .inl ⟨e, r.read_one.2, rfl, Prod.ext hreads rfl⟩
    | ok x =>
      simp only [hread] at hreads
      obtain ⟨reader, hone, hrest, hsmooth⟩ := hreads
      exact .inr ⟨x, reader, rfl, hone, by rw [hrest], hsmooth⟩

/-- The lines of a reader are those of its input, however the bytes come in. -/
theorem lines_split (segs : List Segment) (r : LineReader) (hs : ∀ x ∈ r.reader.reads, Smooth x)
    (hsegs : segments r.reader.bytes = segs) :
    r.lines = (split_lines r.max_len r.overflow r.line_no segs).map (Except.mapError .error) := by
  induction segs generalizing r with
  | nil =>
    rcases r.read_one_segments hs with ⟨-, t, hone⟩ | ⟨s, rest, hsplit, -⟩
    · rw [lines_end (next_line_eof hone)]
      rfl
    · rw [hsplit] at hsegs
      cases hsegs
  | cons s segs ih =>
    rcases r.read_one_segments hs with ⟨hsplit, -⟩ | ⟨s', rest, hsplit, hone⟩
    · rw [hsplit] at hsegs
      cases hsegs
    · rw [hsplit] at hsegs
      cases hsegs
      rw [split_lines]
      rcases hone with ⟨e, t, hread, hone⟩ | ⟨x, reader, hread, hone, hrest, hsmooth⟩
      · rw [hread, lines_error (next_line_error hone)]
        rfl
      · have hmore := ih ⟨reader, r.max_len, r.overflow, r.line_no + 1⟩ hsmooth hrest
        rw [hread]
        cases x with
        | none => rw [lines_skipped (next_line_skipped hone), hmore]
        | some bytes =>
          rw [lines_line (next_line_line hone), hmore]
          rfl

end LineReader

/-- No line that a segment counts as is longer than the limit. -/
theorem read_segment_le {m n : Nat} {policy : LineOverflow} {content line : List UInt8}
    (h : read_segment m policy n content = .ok (some line)) : line.length ≤ m := by
  simp only [read_segment] at h
  split at h
  · rename_i hle
    cases h
    rw [strip_cr]
    split
    · rw [List.length_dropLast]
      omega
    · exact hle
  · split at h
    · cases h
    · cases h
    · cases h
      exact List.length_take_le ..

theorem split_lines_le {m : Nat} {policy : LineOverflow} (segs : List Segment) (n : Nat) :
    ∀ line, .ok line ∈ split_lines m policy n segs → line.length ≤ m := by
  induction segs generalizing n with
  | nil =>
    intro line h
    cases h
  | cons s segs ih =>
    intro line h
    rw [split_lines] at h
    split at h
    · cases h with
      | tail _ h => cases h
    · exact ih _ line h
    · rename_i bytes hread
      cases h with
      | head => exact read_segment_le hread
      | tail _ h => exact ih _ line h

namespace LineReader

/-- What a reader yields depends on its bytes only, not on how they come in; no line is longer than
the limit, and no subtraction underflows. -/
theorem lines_of_bytes (reads : List (Except IoError (List UInt8)))
    (hs : ∀ x ∈ reads, Smooth x) (max_len : Nat) (overflow : LineOverflow) :
    let r : LineReader := ⟨BufReader.new reads, max_len, overflow, 0⟩
    r.lines = (split_lines max_len overflow 0 (segments (read_bytes reads))).map
        (Except.mapError .error) ∧
      (∀ line, .ok line ∈ r.lines → line.length ≤ max_len) ∧ .error .underflow ∉ r.lines := by
  intro r
  have hlines : r.lines = _ := lines_split _ r hs rfl
  refine ⟨hlines, fun line hmem => ?_, fun hmem => ?_⟩
  · rw [hlines] at hmem
    obtain ⟨x, hx, hline⟩ := List.mem_map.1 hmem
    cases x with
    | error e => cases hline
    | ok bytes =>
      cases hline
      exact split_lines_le _ _ _ hx
  · rw [hlines] at hmem
    obtain ⟨x, -, hline⟩ := List.mem_map.1 hmem
    cases x with
    | error e => cases hline
    | ok bytes => cases hline

/-- A carriage return before the limit, one at the limit, and a line that goes on. -/
theorem lines_of_bytes_chunks :
    let r : LineReader := ⟨BufReader.new
      [.ok [65, 66, 67], .ok [CR], .error ⟨.interrupted, ""⟩, .ok [LF, 68], .ok [CR, LF]],
      3, .truncate, 0⟩
    r.lines = (split_lines 3 .truncate 0 (segments [65, 66, 67, CR, LF, 68, CR, LF])).map
        (Except.mapError .error) ∧
      (∀ line, .ok line ∈ r.lines → line.length ≤ 3) ∧ .error .underflow ∉ r.lines :=
  lines_of_bytes [.ok [65, 66, 67], .ok [CR], .error ⟨.interrupted, ""⟩, .ok [LF, 68],
    .ok [CR, LF]] (by decide) 3 .truncate

end LineReader

end PipeIo
