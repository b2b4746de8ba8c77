import MmapZstd.Rust

/-!
# Parsing `/proc/meminfo`

`read_hugepages_free` of `src/decoder.rs`, and the functions on strings that it calls. A string is
a list of characters. `none` stands for a file that cannot be read, or not as UTF-8.
-/

namespace MmapZstd

/-- `char::is_whitespace`: the characters with the Unicode property `White_Space`. -/
def isWhitespace (c : Char) : Bool :=
  let n := c.toNat
  (0x09 ≤ n && n ≤ 0x0D) || n == 0x20 || n == 0x85 || n == 0xA0 || n == 0x1680 ||
    (0x2000 ≤ n && n ≤ 0x200A) || n == 0x2028 || n == 0x2029 || n == 0x202F || n == 0x205F ||
    n == 0x3000

/-- A line without the carriage return before its line feed. -/
def stripReturn (line : List Char) : List Char :=
  if line.getLast? = some '\r' then line.dropLast else line

/-- `str::lines`: the lines without their line feeds; the last may lack one. -/
def lines (s : List Char) : List (List Char) :=
  let pieces := s.splitOn '\n'
  let ended := pieces.dropLast.map stripReturn
  match pieces.getLast? with
  | some (c :: rest) => ended ++ [c :: rest]
  | _ => ended

/-- `str::split_whitespace`: the pieces between white space, without the empty ones. -/
def splitWhitespace (s : List Char) : List (List Char) :=
  (s.splitOnP isWhitespace).filter fun piece => !piece.isEmpty

/-- The value of a string of digits, most significant first, when all are digits. -/
def digits (s : List Char) : Option ℕ :=
  if s.all Char.isDigit then some (Nat.ofDigitChars 10 s 0) else none

/-- `str::parse::<u64>`: digits, at least one, with an optional plus sign, of a value below
`2^64`. -/
def parseU64 (s : List Char) : Option ℕ :=
  let s := if s.head? = some '+' then s.tail else s
  if s.isEmpty then none
  else (digits s).filter fun n => n < 2 ^ 64

/-- The start of the line that reports the free hugepages. -/
def freeLabel : List Char := "HugePages_Free:".toList

/-- `read_hugepages_free`. -/
def readHugepagesFree (meminfo : Option (List Char)) : Option ℕ := do
  let text ← meminfo
  let line ← (lines text).find? fun l => freeLabel.isPrefixOf l
  let field ← (splitWhitespace line)[1]?
  parseU64 field

/-! ## What the kernel writes -/

/-- A line: it holds no line feed, and does not end in a carriage return. -/
def IsLine (l : List Char) : Prop := '\n' ∉ l ∧ l.getLast? ≠ some '\r'

/-- A text of lines, each with its line feed. -/
def unlines (ls : List (List Char)) : List Char := ls.flatMap (· ++ ['\n'])

/-- A text has the lines that it was written from. -/
theorem lines_unlines {ls : List (List Char)} (h : ∀ l ∈ ls, IsLine l) :
    lines (unlines ls) = ls := by
  -- The last line feed leaves an empty piece, which is no line.
  have hsplit : (unlines ls).splitOn '\n' = ls ++ [[]] := by
    induction ls with
    | nil => rfl
    | cons l ls ih =>
      have hl := h l List.mem_cons_self
      have hcons : unlines (l :: ls) = l ++ '\n' :: unlines ls := by simp [unlines]
      rw [hcons, List.splitOn_append_cons_self_of_not_mem hl.1,
        ih fun l hl => h l (List.mem_cons_of_mem _ hl), List.cons_append]
  have hstrip : ls.map stripReturn = ls :=
    (List.map_congr_left fun l hl => if_neg (h l hl).2).trans (List.map_id ls)
  simp [lines, hsplit, hstrip]

/-- A word, white space, and a word split into the two words. -/
theorem splitWhitespace_pair {word word' space : List Char} (hspace : space ≠ [])
    (hall : ∀ c ∈ space, isWhitespace c = true) (hword : ∀ c ∈ word, isWhitespace c = false)
    (hword' : ∀ c ∈ word', isWhitespace c = false) (hne : word ≠ []) (hne' : word' ≠ []) :
    splitWhitespace (word ++ space ++ word') = [word, word'] := by
  obtain ⟨c, space, rfl⟩ := List.exists_cons_of_ne_nil hspace
  -- White space in front of a word adds only empty pieces.
  have hlead : ∀ space : List Char, (∀ c ∈ space, isWhitespace c = true) →
      splitWhitespace (space ++ word') = [word'] := by
    intro space hall
    induction space with
    | nil => simp [splitWhitespace, List.splitOnP_eq_singleton hword', hne']
    | cons c space ih =>
      have hsplit : (c :: (space ++ word')).splitOnP isWhitespace =
          [] :: (space ++ word').splitOnP isWhitespace :=
        List.splitOnP_append_cons [] _ (hall c List.mem_cons_self)
      have hrest := ih fun c hc => hall c (List.mem_cons_of_mem _ hc)
      unfold splitWhitespace at hrest ⊢
      rw [List.cons_append]
      simpa [hsplit] using hrest
  have hrest := hlead space fun c hc => hall c (List.mem_cons_of_mem _ hc)
  have hsplit := List.splitOnP_append_cons_of_forall_mem hword c (hall c List.mem_cons_self)
    (space ++ word')
  unfold splitWhitespace at hrest ⊢
  rw [List.append_assoc, List.cons_append, hsplit]
  simpa [hne] using hrest

/-- Decimal digits are digits. -/
theorem isDigit_of_mem_decimal {c : Char} {n : ℕ} (hc : c ∈ Nat.toDigits 10 n) :
    c.isDigit = true :=
  Nat.isDigit_of_mem_toDigits (by decide) (by decide) hc

/-- A `u64` is parsed from its decimal digits. -/
theorem parseU64_toDigits {n : ℕ} (hn : n < 2 ^ 64) : parseU64 (Nat.toDigits 10 n) = some n := by
  have hplus : (Nat.toDigits 10 n).head? ≠ some '+' := fun h =>
    absurd (isDigit_of_mem_decimal (List.mem_of_head? h)) (by decide)
  have hvalue : digits (Nat.toDigits 10 n) = some n := by
    rw [digits, if_pos (List.all_eq_true.mpr fun c => isDigit_of_mem_decimal),
      Nat.ofDigitChars_ten_toDigits]
  simpa [parseU64, hplus, hvalue, Nat.toDigits_ne_nil] using hn

/-- The line of `/proc/meminfo` that reports `n` free hugepages. -/
def freeLine (spaces n : ℕ) : List Char := freeLabel ++ .replicate spaces ' ' ++ Nat.toDigits 10 n

/-- `/proc/meminfo` reports `n` free hugepages: its first line with that label has, after spaces,
the number in decimal. -/
def ReportsFree (meminfo : Option (List Char)) (n : ℕ) : Prop :=
  ∃ before after spaces, meminfo = some (unlines (before ++ freeLine spaces n :: after)) ∧
    0 < spaces ∧ (∀ l ∈ before, ¬ freeLabel <+: l) ∧ ∀ l ∈ before ++ after, IsLine l

/-- Digits are not white space. -/
theorem isWhitespace_digit {c : Char} (h : c.isDigit = true) : isWhitespace c = false := by
  have hrange : 48 ≤ c.toNat ∧ c.toNat ≤ 57 := by
    simpa [Char.isDigit, UInt32.le_iff_toNat_le] using h
  simp only [isWhitespace, Bool.or_eq_false_iff, Bool.and_eq_false_iff, decide_eq_false_iff_not,
    beq_eq_false_iff_ne]
  omega

/-- The reporting line is a line. -/
theorem freeLine_isLine (spaces n : ℕ) : IsLine (freeLine spaces n) := by
  constructor
  · simp only [freeLine, List.mem_append, not_or]
    refine ⟨⟨by decide, by simp⟩, fun hc => absurd (isDigit_of_mem_decimal hc) (by decide)⟩
  · rw [freeLine, List.getLast?_append_of_ne_nil _ Nat.toDigits_ne_nil]
    exact fun hc => absurd (isDigit_of_mem_decimal (List.mem_of_getLast? hc)) (by decide)

/-- The label is one word. -/
theorem isWhitespace_freeLabel {c : Char} (hc : c ∈ freeLabel) : isWhitespace c = false := by
  have hall : freeLabel.all (fun c => isWhitespace c == false) = true := by decide
  exact eq_of_beq (List.all_eq_true.mp hall c hc)

/-- The words of the reporting line. -/
theorem splitWhitespace_freeLine {spaces : ℕ} (hspaces : 0 < spaces) (n : ℕ) :
    splitWhitespace (freeLine spaces n) = [freeLabel, Nat.toDigits 10 n] := by
  refine splitWhitespace_pair (by simp; omega) ?_ (fun c => isWhitespace_freeLabel) ?_ (by decide)
    Nat.toDigits_ne_nil
  · intro c hc
    rw [List.eq_of_mem_replicate hc]
    rfl
  · exact fun c hc => isWhitespace_digit (isDigit_of_mem_decimal hc)

/-- The number that `/proc/meminfo` reports is the one that is read. -/
theorem ReportsFree.read {meminfo : Option (List Char)} {n : ℕ} (h : ReportsFree meminfo n)
    (hn : n < 2 ^ 64) : readHugepagesFree meminfo = some n := by
  obtain ⟨before, after, spaces, rfl, hspaces, hbefore, hlines⟩ := h
  have hall : ∀ l ∈ before ++ freeLine spaces n :: after, IsLine l := by
    intro l hl
    rcases List.mem_append.mp hl with hl | hl
    · exact hlines l (List.mem_append_left _ hl)
    rcases List.mem_cons.mp hl with rfl | hl
    · exact freeLine_isLine _ _
    · exact hlines l (List.mem_append_right _ hl)
  have hlabel : freeLabel.isPrefixOf (freeLine spaces n) = true := by
    rw [List.isPrefixOf_iff_prefix, freeLine, List.append_assoc]
    exact List.prefix_append _ _
  have hfind : (before ++ freeLine spaces n :: after).find? (fun l => freeLabel.isPrefixOf l) =
      some (freeLine spaces n) := by
    have hnone : before.find? (fun l => freeLabel.isPrefixOf l) = none :=
      List.find?_eq_none.mpr fun l hl hp => hbefore l hl (List.isPrefixOf_iff_prefix.mp hp)
    rw [List.find?_append, hnone, List.find?_cons_of_pos hlabel]
    rfl
  simp [readHugepagesFree, lines_unlines hall, hfind, splitWhitespace_freeLine hspaces,
    parseU64_toDigits hn]

example : readHugepagesFree (some "HugePages_Total:      16\nHugePages_Free:       12\n".toList) =
    some 12 := by decide

end MmapZstd
