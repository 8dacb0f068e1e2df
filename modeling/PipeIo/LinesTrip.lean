import PipeIo.LinesSplit

namespace PipeIo
set_option autoImplicit true

section Utf8

variable {s : String} {c : Char} {b : UInt8}

theorem as_bytes_eq (s : String) : as_bytes s = s.toList.flatMap String.utf8EncodeChar := by
  rw [as_bytes, String.toUTF8_eq_toByteArray, ← String.utf8Encode_toList, List.utf8Encode,
    List.toList_data_toByteArray]

theorem from_utf8_as_bytes (s : String) : from_utf8 (as_bytes s) = some s := by
  rw [from_utf8, as_bytes, Array.toArray_toList]
  exact dif_pos s.isValidUTF8

/-- A byte below 128 is a character of its own. -/
theorem encode_ascii (hb : b ∈ String.utf8EncodeChar c) (hlt : b.toNat < 128) :
    String.utf8EncodeChar c = [b] ∧ b.toNat = c.toNat := by
  by_cases hv : c.val.toNat ≤ 0x7f
  · rw [String.utf8EncodeChar, if_pos hv] at hb ⊢
    cases List.mem_singleton.1 hb
    refine ⟨rfl, ?_⟩
    rw [UInt8.toNat_ofNat']
    exact Nat.mod_eq_of_lt (by omega)
  · -- The other bytes of UTF-8 are at least 128.
    rw [String.utf8EncodeChar, if_neg hv] at hb
    split at hb
    · simp only [List.mem_cons, List.not_mem_nil, or_false] at hb
      rcases hb with rfl | rfl
      all_goals
        rw [UInt8.toNat_ofNat'] at hlt
        omega
    · split at hb
      · simp only [List.mem_cons, List.not_mem_nil, or_false] at hb
        rcases hb with rfl | rfl | rfl
        all_goals
          rw [UInt8.toNat_ofNat'] at hlt
          omega
      · simp only [List.mem_cons, List.not_mem_nil, or_false] at hb
        rcases hb with rfl | rfl | rfl | rfl
        all_goals
          rw [UInt8.toNat_ofNat'] at hlt
          omega

theorem encode_ne_nil (c : Char) : String.utf8EncodeChar c ≠ [] := by
  intro hnil
  have hlen := congrArg List.length hnil
  rw [String.length_utf8EncodeChar] at hlen
  have := c.utf8Size_pos
  exact absurd hlen (Nat.ne_of_gt this)

theorem lf_notMem_as_bytes (h : '\n' ∉ s.toList) : LF ∉ as_bytes s := by
  intro hmem
  rw [as_bytes_eq, List.mem_flatMap] at hmem
  obtain ⟨c, hc, hb⟩ := hmem
  obtain ⟨-, hval⟩ := encode_ascii hb (by decide)
  have hlf : c = '\n' := Char.toNat_inj.1 hval.symm
  rw [hlf] at hc
  exact h hc

theorem as_bytes_getLast (h : s.toList.getLast? ≠ some '\r') : (as_bytes s).getLast? ≠ some CR := by
  rw [as_bytes_eq]
  rcases List.eq_nil_or_concat s.toList with hnil | ⟨l, c, hl⟩
  · rw [hnil]
    simp
  · rw [hl] at h ⊢
    rw [List.concat_eq_append, List.flatMap_append, List.flatMap_singleton, List.getLast?_append,
      List.getLast?_eq_some_getLast (encode_ne_nil c), Option.some_or]
    intro hlast
    rw [Option.some.injEq] at hlast
    have hmem := List.getLast_mem (encode_ne_nil c)
    rw [hlast] at hmem
    obtain ⟨-, hval⟩ := encode_ascii hmem (by decide)
    have hcr : c = '\r' := Char.toNat_inj.1 hval.symm
    apply h
    rw [hcr, List.concat_eq_append, List.getLast?_concat]

end Utf8

/-- The bytes of some lines, each ended by a line feed. -/
def lines_bytes (items : List String) : List UInt8 := items.flatMap fun item => as_bytes item ++ [LF]

/-- A writer that takes all bytes, seen through what has been written to it. -/
def Writer.TakesAll (writer : Writer W) (written : W → List UInt8) : Prop :=
  ∀ bytes w, ∃ w', writer.write_all bytes w = (.ok (), w') ∧ written w' = written w ++ bytes

theorem WriterSink.writes_bytes {writer : Writer W} {written : W → List UInt8}
    (h : writer.TakesAll written) (items : List String) (w : W) :
    ∃ w', writes writer items w = (.ok (), w') ∧ written w' = written w ++ lines_bytes items := by
  induction items generalizing w with
  | nil => exact ⟨w, rfl, (List.append_nil _).symm⟩
  | cons item items ih =>
    obtain ⟨w₁, hitem, hw₁⟩ := h (as_bytes item) w
    obtain ⟨w₂, hend, hw₂⟩ := h [LF] w₁
    obtain ⟨w', hrest, hw'⟩ := ih w₂
    refine ⟨w', ?_, ?_⟩
    · rw [writes, write, hitem]
      simp only [hend, hrest]
    · rw [hw', hw₂, hw₁, lines_bytes, lines_bytes, List.flatMap_cons, List.append_assoc,
        List.append_assoc, List.append_assoc]

theorem segments_lines {items : List String} (h : ∀ item ∈ items, '\n' ∉ item.toList) :
    segments (lines_bytes items) = items.map fun item => ⟨as_bytes item, true⟩ := by
  induction items with
  | nil => rfl
  | cons item items ih =>
    have hcut : cut [] (lines_bytes (item :: items)) =
        some (⟨as_bytes item, true⟩, lines_bytes items) := by
      rw [lines_bytes, List.flatMap_cons, List.append_assoc,
        cut_append (lf_notMem_as_bytes (h item List.mem_cons_self)), List.nil_append]
      exact cut_line
    rw [segments_cons hcut, ih fun i hi => h i (List.mem_cons_of_mem item hi)]
    rfl

namespace LineReader

/-- Short lines that do not end in a carriage return are read as they were written. -/
theorem lines_of_items {items : List String} {r : LineReader}
    (hlf : ∀ item ∈ items, '\n' ∉ item.toList)
    (hcr : ∀ item ∈ items, item.toList.getLast? ≠ some '\r')
    (hlen : ∀ item ∈ items, (as_bytes item).length ≤ r.max_len)
    (hs : ∀ x ∈ r.reader.reads, Smooth x) (hbytes : r.reader.bytes = lines_bytes items) :
    r.lines = items.map fun item => .ok (as_bytes item) := by
  rw [lines_split _ r hs rfl, hbytes, segments_lines hlf]
  generalize r.line_no = n
  clear hlf hs hbytes
  induction items generalizing n with
  | nil => rfl
  | cons item items ih =>
    have hread : read_segment r.max_len r.overflow (n + 1) (as_bytes item) =
        .ok (some (as_bytes item)) := by
      have hstrip : strip_cr (as_bytes item) = as_bytes item :=
        if_neg (as_bytes_getLast (hcr item List.mem_cons_self))
      simp only [read_segment, if_pos (hlen item List.mem_cons_self), hstrip]
    rw [List.map_cons, split_lines, hread]
    exact congrArg _ (ih (fun i hi => hcr i (List.mem_cons_of_mem item hi))
      (fun i hi => hlen i (List.mem_cons_of_mem item hi)) (n + 1))

end LineReader

namespace ReaderSource

variable {s : ReaderSource}

theorem pulls_end {t : ReaderSource} (h : s.pull = (.ok none, t)) : s.pulls = [] := by
  rw [pulls]
  split
  all_goals
    rename_i hpull
    cases h.symm.trans hpull
  rfl

theorem pulls_line {t : ReaderSource} {line : String} (h : s.pull = (.ok (some line), t)) :
    s.pulls = .ok line :: t.pulls := by
  rw [pulls]
  split
  all_goals
    rename_i hpull
    cases h.symm.trans hpull
  rfl

/-- A source whose lines are strings yields them. -/
theorem pulls_of_lines (items : List String) (s : ReaderSource)
    (h : s.lines.lines = items.map fun item => .ok (as_bytes item)) :
    s.pulls = items.map .ok := by
  obtain ⟨result, t, hline⟩ : ∃ result t, s.lines.next_line = (result, t) := ⟨_, _, rfl⟩
  induction items generalizing s result t with
  | nil =>
    rcases result with e | ⟨_ | bytes⟩
    · rw [LineReader.lines_error hline] at h
      cases h
    · apply pulls_end
      rw [pull, hline]
    · rw [LineReader.lines_line hline] at h
      cases h
  | cons item items ih =>
    rcases result with e | ⟨_ | bytes⟩
    · rw [LineReader.lines_error hline] at h
      cases h
    · rw [LineReader.lines_end hline] at h
      cases h
    · rw [LineReader.lines_line hline, List.map_cons, List.cons.injEq, Except.ok.injEq] at h
      obtain ⟨rfl, hrest⟩ := h
      have hpull : s.pull = (.ok (some item), { s with lines := t }) := by
        simp only [pull, hline, from_utf8_as_bytes]
      rw [pulls_line hpull, ih { s with lines := t } hrest _ _ rfl]
      rfl

end ReaderSource

/-- What a `WriterSink` has written to a writer that takes all bytes, a `ReaderSource` reads back,
however the bytes come in. -/
theorem written_lines_read_back {W : Type} (writer : Writer W) (written : W → List UInt8)
    (htakes : writer.TakesAll written) (w : W) (hw : written w = []) (items : List String)
    (max_len : Nat) (hlf : ∀ item ∈ items, '\n' ∉ item.toList)
    (hcr : ∀ item ∈ items, item.toList.getLast? ≠ some '\r')
    (hlen : ∀ item ∈ items, (as_bytes item).length ≤ max_len) :
    ∃ w', WriterSink.writes writer items w = (.ok (), w') ∧
      ∀ (reads : List (Except IoError (List UInt8))), (∀ x ∈ reads, Smooth x) →
        read_bytes reads = written w' → ∀ (overflow : LineOverflow) (lossy : Bool),
          ((ReaderSource.new (BufReader.new reads)).max_line_len max_len |>.on_overflow overflow
            |>.with_lossy lossy).pulls = items.map .ok := by
  obtain ⟨w', hwrites, hbytes⟩ := WriterSink.writes_bytes htakes items w
  rw [hw, List.nil_append] at hbytes
  refine ⟨w', hwrites, fun reads hs hreads overflow lossy => ReaderSource.pulls_of_lines items _ ?_⟩
  refine LineReader.lines_of_items hlf hcr (fun item hitem => ?_) hs (hreads.trans hbytes)
  exact Nat.le_trans (hlen item hitem) (Nat.le_max_left max_len 1)

/-- `Vec<u8>` as a writer. -/
def vec_writer : Writer (List UInt8) where
  write_all bytes w := (.ok (), w ++ bytes)
  flush w := (.ok (), w)

theorem vec_writer_takes_all : vec_writer.TakesAll id := fun bytes w => ⟨w ++ bytes, rfl, rfl⟩

theorem written_lines_read_back_vec :
    ∃ w', WriterSink.writes vec_writer ["a\rb", "", "c"] [] = (.ok (), w') ∧
      ∀ (reads : List (Except IoError (List UInt8))), (∀ x ∈ reads, Smooth x) →
        read_bytes reads = w' → ∀ (overflow : LineOverflow) (lossy : Bool),
          ((ReaderSource.new (BufReader.new reads)).max_line_len 3 |>.on_overflow overflow
            |>.with_lossy lossy).pulls = ["a\rb", "", "c"].map .ok :=
  written_lines_read_back vec_writer id vec_writer_takes_all [] rfl ["a\rb", "", "c"] 3 (by decide)
    (by decide) (by decide)

end PipeIo
