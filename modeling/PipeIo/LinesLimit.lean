import PipeIo.LinesSplit

namespace PipeIo
set_option autoImplicit true

namespace LineReader

/-- What the calls of `read_one` give, up to the end or the first failure. -/
def read_ones (r : LineReader) : List (Except Failure ReadLine) :=
  match _ : r.read_one with
  | (.error e, _) => [.error e]
  | (.ok .eof, _) => []
  | (.ok .skipped, r) => .ok .skipped :: r.read_ones
  | (.ok (.line line), r) => .ok (.line line) :: r.read_ones
termination_by r.reader.weight
decreasing_by
  all_goals exact read_one_weight ‹_› (by intro h; cases h)

end LineReader

/-- What `read_one` makes of some segments, up to the first error. -/
def read_segments (max_len : Nat) (overflow : LineOverflow) :
    Nat → List Segment → List (Except Failure ReadLine)
  | _, [] => []
  | n, s :: rest =>
    match read_segment max_len overflow (n + 1) s.content with
    | .error e => [.error (.error e)]
    | .ok x => .ok (ReadLine.of x) :: read_segments max_len overflow (n + 1) rest

/-- The line that a terminated segment stands for is not longer than the limit. -/
def Segment.Short (max_len : Nat) (s : Segment) : Prop := (strip_cr s.content).length ≤ max_len

instance (max_len : Nat) : DecidablePred (Segment.Short max_len) := fun s =>
  inferInstanceAs (Decidable ((strip_cr s.content).length ≤ max_len))

/-- Every terminated line that is not longer than the limit without its terminator is read as it
is. A line that is really too long may end the run before it. -/
def Intact (max_len : Nat) (overflow : LineOverflow) (segs : List Segment)
    (results : List (Except Failure ReadLine)) : Prop :=
  ∀ before s after, segs = before ++ s :: after → s.ended = true → s.Short max_len →
    (overflow = .error → ∀ t ∈ before, t.Short max_len) →
    results[before.length]? = some (.ok (.line (strip_cr s.content)))

/-- A line of exactly `max_len` bytes that ends in a carriage return and a line feed. -/
def Segment.Brim (max_len : Nat) (s : Segment) : Prop :=
  s.ended = true ∧ s.content.length = max_len + 1 ∧ s.content.getLast? = some CR

/-- No line is one byte too long only because of its carriage return. -/
def Roomy (max_len : Nat) (overflow : LineOverflow) (segs : List Segment) : Prop :=
  overflow = .truncate ∨ ∀ before s after, segs = before ++ s :: after →
    (overflow = .error → ∀ t ∈ before, t.Short max_len) → ¬s.Brim max_len

section

variable {m n : Nat} {policy : LineOverflow} {s : Segment}

theorem strip_cr_length (line : List UInt8) :
    (strip_cr line).length = line.length ∧ line.getLast? ≠ some CR ∨
      (strip_cr line).length + 1 = line.length ∧ line.getLast? = some CR := by
  rw [strip_cr]
  split
  · rename_i hcr
    have hne : line ≠ [] := by
      rintro rfl
      cases hcr
    have hpos := List.length_pos_iff.2 hne
    rw [List.length_dropLast]
    exact .inr ⟨by omega, hcr⟩
  · rename_i hcr
    exact .inl ⟨rfl, hcr⟩

/-- A short line is read as it is unless it is at the brim. -/
theorem read_segment_short (hended : s.ended = true) (hshort : s.Short m)
    (hbrim : policy = .truncate ∨ ¬s.Brim m) :
    read_segment m policy n s.content = .ok (some (strip_cr s.content)) := by
  rw [Segment.Short] at hshort
  by_cases hle : s.content.length ≤ m
  · exact if_pos hle
  · rcases strip_cr_length s.content with ⟨hlen, -⟩ | ⟨hlen, hcr⟩
    · omega
    · rcases hbrim with rfl | hbrim
      · -- The bytes that are cut off are the carriage return.
        have htake : s.content.take m = strip_cr s.content := by
          rw [strip_cr, if_pos hcr, List.dropLast_eq_take]
          congr 1
          omega
        simp only [read_segment, if_neg hle, htake]
      · exact absurd ⟨hended, by omega, hcr⟩ hbrim

theorem read_segment_brim (hbrim : s.Brim m) (hpolicy : policy ≠ .truncate) :
    read_segment m policy n s.content ≠ .ok (some (strip_cr s.content)) := by
  obtain ⟨-, hlen, -⟩ := hbrim
  intro hread
  have hnot : ¬s.content.length ≤ m := by omega
  cases policy with
  | error =>
    simp only [read_segment, if_neg hnot] at hread
    cases hread
  | skip =>
    simp only [read_segment, if_neg hnot] at hread
    cases hread
  | truncate => exact hpolicy rfl

/-- A segment that is not an error does not stop the reader. -/
theorem read_segment_ok (h : policy = .error → s.content.length ≤ m) :
    ∃ x, read_segment m policy n s.content = .ok x := by
  by_cases hle : s.content.length ≤ m
  · exact ⟨_, if_pos hle⟩
  · cases policy with
    | error => exact absurd (h rfl) hle
    | skip => exact ⟨none, by simp only [read_segment, if_neg hle]⟩
    | truncate => exact ⟨some (s.content.take m), by simp only [read_segment, if_neg hle]⟩

/-- The reader gets to a segment if none of those before is an error. -/
theorem read_segments_reach (before after : List Segment)
    (hbefore : policy = .error → ∀ t ∈ before, t.content.length ≤ m) {x : Option (List UInt8)}
    (hread : read_segment m policy (n + before.length + 1) s.content = .ok x) :
    (read_segments m policy n (before ++ s :: after))[before.length]? =
      some (.ok (ReadLine.of x)) := by
  induction before generalizing n with
  | nil =>
    rw [List.nil_append, read_segments, show n + 1 = n + ([] : List Segment).length + 1 from rfl,
      hread]
    rfl
  | cons t before ih =>
    obtain ⟨y, hy⟩ : ∃ y, read_segment m policy (n + 1) t.content = .ok y :=
      read_segment_ok fun hp => hbefore hp t List.mem_cons_self
    have hrest := ih (n := n + 1) (fun hp u hu => hbefore hp u (List.mem_cons_of_mem t hu)) (by
      rw [List.length_cons] at hread
      rw [← hread]
      congr 1
      omega)
    rw [List.cons_append, read_segments, hy]
    exact hrest

/-- What the reader gives at the place of a segment is what it makes of the segment. -/
theorem read_segments_get (before after : List Segment) {y : ReadLine}
    (h : (read_segments m policy n (before ++ s :: after))[before.length]? = some (.ok y)) :
    ∃ x, read_segment m policy (n + before.length + 1) s.content = .ok x ∧ y = ReadLine.of x := by
  induction before generalizing n with
  | nil =>
    rw [List.nil_append, read_segments] at h
    split at h
    · cases h
    · rename_i x hread
      cases h
      exact ⟨x, hread, rfl⟩
  | cons t before ih =>
    rw [List.cons_append, read_segments] at h
    split at h
    · cases h
    · obtain ⟨x, hread, hy⟩ := ih h
      refine ⟨x, ?_, hy⟩
      rw [← hread]
      congr 1
      rw [List.length_cons]
      omega

/-- Lines are intact exactly if there is room for their carriage returns. -/
theorem intact_iff_roomy (segs : List Segment) (hended : ∀ before s after,
    segs = before ++ s :: after → ∀ t ∈ before, t.ended = true) :
    Intact m policy segs (read_segments m policy n segs) ↔ Roomy m policy segs := by
  constructor
  · intro hintact
    by_cases hpolicy : policy = .truncate
    · exact .inl hpolicy
    · refine .inr fun before s after hsegs hbefore hbrim => ?_
      have hshort : s.Short m := by
        obtain ⟨-, hlen, hcr⟩ := hbrim
        rw [Segment.Short, strip_cr, if_pos hcr, List.length_dropLast]
        omega
      have hresult := hintact before s after hsegs hbrim.1 hshort hbefore
      rw [hsegs] at hresult
      obtain ⟨x, hread, hx⟩ := read_segments_get before after hresult
      cases x with
      | none => cases hx
      | some line =>
        cases hx
        exact read_segment_brim hbrim hpolicy hread
  · intro hroomy before s after hsegs hs hshort hbefore
    rw [hsegs]
    have hbrim : policy = .truncate ∨ ¬s.Brim m :=
      hroomy.imp_right fun h => h before s after hsegs hbefore
    refine read_segments_reach before after (fun hp t ht => ?_)
      (read_segment_short hs hshort hbrim)
    -- A line before that is short has room too, so it is no error.
    obtain ⟨a, b, rfl⟩ := List.append_of_mem ht
    have hshort' := hbefore hp t ht
    have hended' := hended _ s after hsegs t ht
    rw [List.append_assoc, List.cons_append] at hsegs
    have hnot : ¬t.Brim m := by
      rcases hroomy with hp' | h
      · rw [hp] at hp'
        cases hp'
      · exact h a t _ hsegs fun hp u hu => hbefore hp u (List.mem_append_left _ hu)
    by_contra hlong
    rw [Segment.Short] at hshort'
    rcases strip_cr_length t.content with ⟨hlen, -⟩ | ⟨hlen, hcr⟩
    · omega
    · exact hnot ⟨hended', by omega, hcr⟩

/-- Only the last segment may lack its line feed. -/
theorem segments_ended (bytes cur : List UInt8) (before after : List Segment)
    (h : segments_from cur bytes = before ++ s :: after) : ∀ t ∈ before, t.ended = true := by
  induction bytes generalizing cur before with
  | nil =>
    rw [segments_from] at h
    split at h
    · simp at h
    · rcases before with _ | ⟨t, before⟩
      · intro t ht
        cases ht
      · simp at h
  | cons b bytes ih =>
    rw [segments_from] at h
    split at h
    · rcases before with _ | ⟨t, before⟩
      · intro t ht
        cases ht
      · rw [List.cons_append, List.cons.injEq] at h
        intro u hu
        cases hu with
        | head => rw [← h.1]
        | tail _ hu => exact ih [] before h.2 u hu
    · exact ih _ before h

end

namespace LineReader

variable {r t : LineReader}

theorem read_ones_error {e : Failure} (h : r.read_one = (.error e, t)) : r.read_ones = [.error e] := by
  rw [read_ones]
  split
  all_goals
    rename_i hread
    cases h.symm.trans hread
  rfl

theorem read_ones_eof (h : r.read_one = (.ok .eof, t)) : r.read_ones = [] := by
  rw [read_ones]
  split
  all_goals
    rename_i hread
    cases h.symm.trans hread
  rfl

theorem read_ones_of {x : Option (List UInt8)} (h : r.read_one = (.ok (ReadLine.of x), t)) :
    r.read_ones = .ok (ReadLine.of x) :: t.read_ones := by
  cases x with
  | none =>
    rw [read_ones]
    split
    all_goals
      rename_i hread
      cases h.symm.trans hread
    rfl
  | some line =>
    rw [read_ones]
    split
    all_goals
      rename_i hread
      cases h.symm.trans hread
    rfl

theorem read_ones_segments (segs : List Segment) (r : LineReader)
    (hs : ∀ x ∈ r.reader.reads, Smooth x) (hsegs : segments r.reader.bytes = segs) :
    r.read_ones = read_segments r.max_len r.overflow r.line_no segs := by
  induction segs generalizing r with
  | nil =>
    rcases r.read_one_segments hs with ⟨-, t, hone⟩ | ⟨s, rest, hsplit, -⟩
    · rw [read_ones_eof hone]
      rfl
    · rw [hsplit] at hsegs
      cases hsegs
  | cons s segs ih =>
    rcases r.read_one_segments hs with ⟨hsplit, -⟩ | ⟨s', rest, hsplit, hone⟩
    · rw [hsplit] at hsegs
      cases hsegs
    · rw [hsplit] at hsegs
      cases hsegs
      rw [read_segments]
      rcases hone with ⟨e, t, hread, hone⟩ | ⟨x, reader, hread, hone, hrest, hsmooth⟩
      · rw [hread, read_ones_error hone]
      · rw [hread, read_ones_of hone,
          ih ⟨reader, r.max_len, r.overflow, r.line_no + 1⟩ hsmooth hrest]

/-- What a reader yields of what `read_one` returns. -/
def yielded : Except Failure ReadLine → Option (Except Failure (List UInt8))
  | .error e => some (.error e)
  | .ok (.line line) => some (.ok line)
  | .ok .skipped => none
  | .ok .eof => none

/-- The lines are what `read_one` does not skip. -/
theorem lines_eq_read_ones (r : LineReader) (hs : ∀ x ∈ r.reader.reads, Smooth x) :
    r.lines = r.read_ones.filterMap yielded := by
  rw [lines_split _ r hs rfl, read_ones_segments _ r hs rfl]
  generalize segments r.reader.bytes = segs
  generalize r.line_no = n
  induction segs generalizing n with
  | nil => rfl
  | cons s segs ih =>
    rw [split_lines, read_segments]
    cases read_segment r.max_len r.overflow (n + 1) s.content with
    | error e => rfl
    | ok x =>
      cases x with
      | none => exact ih (n + 1)
      | some line => exact congrArg _ (ih (n + 1))

/-- The limit on a line does not count its terminator, exactly if no line of as many bytes ends in
a carriage return too. -/
theorem limit_excludes_terminator (reads : List (Except IoError (List UInt8)))
    (hs : ∀ x ∈ reads, Smooth x) (max_len : Nat) (overflow : LineOverflow) :
    Intact max_len overflow (segments (read_bytes reads))
        (LineReader.mk (BufReader.new reads) max_len overflow 0).read_ones ↔
      Roomy max_len overflow (segments (read_bytes reads)) := by
  rw [read_ones_segments _ ⟨BufReader.new reads, max_len, overflow, 0⟩ hs rfl]
  exact intact_iff_roomy _ fun before s after h => segments_ended _ _ before after h

theorem limit_excludes_terminator_skip :
    Intact 2 .skip (segments (read_bytes [.ok [65, CR], .ok [LF, 65, 66, 67, LF]]))
        (LineReader.mk (BufReader.new [.ok [65, CR], .ok [LF, 65, 66, 67, LF]]) 2 .skip 0).read_ones ↔
      Roomy 2 .skip (segments (read_bytes [.ok [65, CR], .ok [LF, 65, 66, 67, LF]])) :=
  limit_excludes_terminator [.ok [65, CR], .ok [LF, 65, 66, 67, LF]] (by decide) 2 .skip

/-- The carriage return of a line of exactly `max_len` bytes makes it too long. -/
theorem limit_counts_carriage_return : ¬∀ (reads : List (Except IoError (List UInt8)))
    (max_len : Nat) (overflow : LineOverflow), (∀ x ∈ reads, Smooth x) → 1 ≤ max_len →
    Intact max_len overflow (segments (read_bytes reads))
      (LineReader.mk (BufReader.new reads) max_len overflow 0).read_ones := by
  intro h
  have hintact := h [.ok [65, 66, CR, LF]] 2 .error (by decide) (by decide)
  have hline := hintact [] ⟨[65, 66, CR], true⟩ [] (by decide) rfl (by decide) fun _ _ ht => by
    cases ht
  revert hline
  decide +kernel

end LineReader

end PipeIo
