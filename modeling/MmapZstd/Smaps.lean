import MmapZstd.Lib.Sections
import MmapZstd.ProcStat

/-!
# Parsing `/proc/self/smaps`

The kernel writes a section for each mapping: a header with its range of addresses, and a line for
each of its counters. Three functions of the benchmarks look for the counters of one mapping.
`read_smaps_for_addr` of `measure_mmap_hugepage.rs` takes a line for a header when its first word is
a range, and sums the counters of the mapping (`read_smaps_sums`). `smaps_hugepage_totals` of
`benches/levels.rs` looks at no header, and sums two counters over all mappings
(`smaps_totals_sums`). The sums are of machine words; while they fit, both are exact.

The other two functions of `benches/levels.rs` take a line for a header when it starts with a
hexadecimal digit, and so do some names of counters. `AnonHugePages` and `FilePmdMapped` are among
them, so `smaps_at`, which looks for them, never reports them (`smaps_at_reports`). And
`smaps_for_file` takes `Anonymous` for the header of a mapping of another file: what it looks for
comes after that line, and it never reports anything (`smaps_for_file_reports_nothing`).
-/

namespace MmapZstd

open Sections

/-! ## Functions on strings -/

/-- `char::is_ascii_hexdigit`. -/
def isAsciiHexdigit (c : Char) : Bool :=
  c.isDigit || ('a' ≤ c && c ≤ 'f') || ('A' ≤ c && c ≤ 'F')

/-- The value of a hexadecimal digit. -/
def hexDigit (c : Char) : Option ℕ :=
  if c.isDigit then some (c.toNat - '0'.toNat)
  else if 'a' ≤ c ∧ c ≤ 'f' then some (c.toNat - 'a'.toNat + 10)
  else if 'A' ≤ c ∧ c ≤ 'F' then some (c.toNat - 'A'.toNat + 10)
  else none

/-- The value of a string of hexadecimal digits, most significant first, when all are digits. -/
def hexDigits (s : List Char) : Option ℕ :=
  s.foldlM (fun n c => (hexDigit c).map fun d => 16 * n + d) 0

/-- `usize::from_str_radix(s, 16)`. -/
def parseHex (s : List Char) : Option ℕ :=
  let s := if s.head? = some '+' then s.tail else s
  if s.isEmpty then none
  else (hexDigits s).filter fun n => n < usizeSize

/-- `str::split_once`, at a character. -/
def splitOnce (c : Char) (s : List Char) : Option (List Char × List Char) :=
  match s.dropWhile (· ≠ c) with
  | _ :: rest => some (s.takeWhile (· ≠ c), rest)
  | [] => none

/-- `str::trim`. -/
def trim (s : List Char) : List Char :=
  ((s.dropWhile isWhitespace).reverse.dropWhile isWhitespace).reverse

/-- `str::strip_prefix`. -/
def stripPrefix (label s : List Char) : Option (List Char) :=
  if label.isPrefixOf s then some (s.drop label.length) else none

/-! ## The readers -/

/-- The names that the functions look for. -/
def filePmdMapped : List Char := "FilePmdMapped:".toList
def anonHugePages : List Char := "AnonHugePages:".toList
def thpEligible : List Char := "THPeligible:".toList
def sizeLabel : List Char := "Size:".toList
def rssLabel : List Char := "Rss:".toList
def privateHugetlb : List Char := "Private_Hugetlb:".toList

/-- What `smaps_at` takes a line for. -/
def markAt (addr : ℕ) (line : List Char) : Mark :=
  if (line.head?.map isAsciiHexdigit).getD false then
    match splitOnce '-' line with
    | some (start_hex, tail) =>
      let end_hex := (splitWhitespace tail).head?.getD ['0']
      match parseHex start_hex, parseHex end_hex with
      | some s, some e => .opens (s ≤ addr && addr < e)
      | _, _ => .skip
    | none => .skip
  else .body

/-- What `smaps_for_file` takes a line for. -/
def markFile (path line : List Char) : Mark :=
  if (line.head?.map isAsciiHexdigit).getD false then .opens (path <:+: line) else .body

/-- The range of addresses that `read_smaps_for_addr` reads off a header. -/
def headerRange (line : List Char) : Option (ℕ × ℕ) := do
  let (range, _) ← splitOnce ' ' line
  let (start_hex, end_hex) ← splitOnce '-' range
  let s ← parseHex start_hex
  let e ← parseHex end_hex
  pure (s, e)

/-- Whether a line is the header of a mapping that holds an address. -/
def holdsAddr (addr : ℕ) (line : List Char) : Bool :=
  (headerRange line).any fun (s, e) => s ≤ addr && addr < e

/-- What `read_smaps_for_addr` takes a line for, when `limit` is the sum that it compares the end of
a mapping with. -/
def markAddr (addr limit : ℕ) (line : List Char) : Mark :=
  match headerRange line with
  | some (s, e) => .opens (s ≤ addr && addr < e && e ≤ limit)
  | none => .body

/-- The lines that `smaps_at` and `smaps_for_file` report. -/
def Reported (line : List Char) : Prop :=
  anonHugePages <+: line ∨ filePmdMapped <+: line ∨ thpEligible <+: line

instance : DecidablePred Reported := fun line => by
  unfold Reported
  infer_instance

/-- What they print of these lines, or a text that there are none. -/
def report (none : List Char) (parts : List (List Char)) : List Char :=
  if parts.isEmpty then none else "; ".toList.intercalate (parts.map trim)

/-- `smaps_at`. -/
def smapsAt (addr : ℕ) (smaps : Option (List Char)) : List Char :=
  report "(no hugepage smaps fields)".toList
    ((scan (markAt addr) false (lines (smaps.getD []))).filter Reported)

/-- `smaps_for_file`. -/
def smapsForFile (path : List Char) (smaps : Option (List Char)) : List Char :=
  report ("(no file mapping found for ".toList ++ path ++ [')'])
    ((scan (markFile path) false (lines (smaps.getD []))).filter Reported)

/-- `SmapsStats`. -/
structure SmapsStats where
  file_pmd_mapped_kb : ℕ
  anon_huge_pages_kb : ℕ
  thp_eligible : Option ℕ
  size_kb : ℕ
  rss_kb : ℕ
  deriving DecidableEq

/-- `parse_kb`. -/
def parseKb (s : List Char) : ℕ := fieldValue (splitWhitespace s)[0]?

/-- `str::parse::<u8>`. -/
def parseU8 (s : List Char) : Option ℕ := (parseU64 s).filter fun n => n < 256

/-- What `read_smaps_for_addr` makes of a line of the mapping. -/
def SmapsStats.add (b : Build) (stats : SmapsStats) (line : List Char) : Outcome SmapsStats :=
  match stripPrefix filePmdMapped line with
  | some rest => do
    let kb ← b.add stats.file_pmd_mapped_kb (parseKb rest)
    pure { stats with file_pmd_mapped_kb := kb }
  | none =>
  match stripPrefix anonHugePages line with
  | some rest => do
    let kb ← b.add stats.anon_huge_pages_kb (parseKb rest)
    pure { stats with anon_huge_pages_kb := kb }
  | none =>
  match stripPrefix thpEligible line with
  | some rest => pure { stats with thp_eligible := parseU8 (trim rest) }
  | none =>
  match stripPrefix sizeLabel line with
  | some rest => do
    let kb ← b.add stats.size_kb (parseKb rest)
    pure { stats with size_kb := kb }
  | none =>
  match stripPrefix rssLabel line with
  | some rest => do
    let kb ← b.add stats.rss_kb (parseKb rest)
    pure { stats with rss_kb := kb }
  | none => pure stats

/-- `read_smaps_for_addr`. -/
def readSmapsForAddr (b : Build) (addr len : ℕ) (smaps : Option (List Char)) :
    Outcome SmapsStats := do
  let end_addr ← b.add addr len
  let ls := lines (smaps.getD [])
  -- `end_addr + 4096` is only evaluated at the header of a mapping that holds the address.
  let limit ← if ls.any (holdsAddr addr) then b.add end_addr 4096 else pure 0
  (scan (markAddr addr limit) false ls).foldlM (SmapsStats.add b) ⟨0, 0, none, 0, 0⟩

/-- What `smaps_hugepage_totals` makes of a line. -/
def addTotals (b : Build) (totals : ℕ × ℕ) (line : List Char) : Outcome (ℕ × ℕ) :=
  match stripPrefix privateHugetlb line with
  | some rest => do
    let private_hugetlb ← b.add totals.1 (parseKb rest)
    pure (private_hugetlb, totals.2)
  | none =>
  match stripPrefix anonHugePages line with
  | some rest => do
    let anon_huge ← b.add totals.2 (parseKb rest)
    pure (totals.1, anon_huge)
  | none => pure totals

/-- `smaps_hugepage_totals`. It looks at all lines, and at no header. -/
def smapsHugepageTotals (b : Build) (smaps : Option (List Char)) : Outcome (ℕ × ℕ) :=
  (lines (smaps.getD [])).foldlM (addTotals b) (0, 0)

/-! ## What the kernel writes -/

/-- A section: the range of the mapping, what else its header says, and the lines of its
counters. -/
structure Vma where
  start : ℕ
  stop : ℕ
  info : List Char
  counters : List (List Char)

/-- An address, in at least eight hexadecimal digits. -/
def showHex (n : ℕ) : List Char :=
  .replicate (8 - (Nat.toDigits 16 n).length) '0' ++ Nat.toDigits 16 n

/-- The header of a section. -/
def Vma.header (v : Vma) : List Char := showHex v.start ++ '-' :: (showHex v.stop ++ ' ' :: v.info)

/-- The text of `/proc/self/smaps`. -/
def smapsText (vmas : List Vma) : List Char :=
  unlines (vmas.flatMap fun v => v.header :: v.counters)

/-- The addresses of a section are machine words, and its counters are lines without a dash and
without a slash. -/
structure Vma.Written (v : Vma) : Prop where
  start_lt : v.start < usizeSize
  stop_lt : v.stop < usizeSize
  info : IsLine v.info
  counters : ∀ l ∈ v.counters, IsLine l ∧ '-' ∉ l ∧ '/' ∉ l

/-- Whether the counters are such lines can be computed. -/
theorem Vma.Written.of_all {v : Vma} (hstart : v.start < usizeSize) (hstop : v.stop < usizeSize)
    (hinfo : IsLine v.info) (hall : (v.counters.all fun l =>
      (l.all fun c => c != '\n' && c != '-' && c != '/') && l.getLast? != some '\r') = true) :
    v.Written where
  start_lt := hstart
  stop_lt := hstop
  info := hinfo
  counters := by
    intro l hl
    have hline := List.all_eq_true.mp hall l hl
    simp only [Bool.and_eq_true, List.all_eq_true, bne_iff_ne] at hline
    obtain ⟨hchars, hlast⟩ := hline
    exact ⟨⟨fun hc => (hchars _ hc).1.1 rfl, hlast⟩, fun hc => (hchars _ hc).1.2 rfl,
      fun hc => (hchars _ hc).2 rfl⟩

/-- The section of a fixture that is mapped with huge pages. -/
def fixtureVma : Vma where
  start := 0x7F5A40000000
  stop := 0x7F5A48200000
  info := "r--p 00000000 08:01 131 /work/l3.zst".toList
  counters := ["Size:             133120 kB".toList, "Rss:              133120 kB".toList,
    "Anonymous:             0 kB".toList, "AnonHugePages:         0 kB".toList,
    "FilePmdMapped:    131072 kB".toList, "THPeligible:           1".toList]

/-- It is as the kernel writes it. -/
theorem fixtureVma_written : fixtureVma.Written :=
  .of_all (by decide) (by decide) ⟨by decide, by decide⟩ (by decide)

/-! ### Hexadecimal numbers -/

/-- The codes of the hexadecimal digits. -/
theorem toNat_of_isAsciiHexdigit {c : Char} (h : isAsciiHexdigit c = true) :
    48 ≤ c.toNat ∧ c.toNat ≤ 57 ∨ 97 ≤ c.toNat ∧ c.toNat ≤ 102 ∨
      65 ≤ c.toNat ∧ c.toNat ≤ 70 := by
  simp only [isAsciiHexdigit, Char.isDigit, Bool.or_eq_true, Bool.and_eq_true, decide_eq_true_eq,
    Char.le_def, UInt32.le_iff_toNat_le] at h
  rcases h with (h | h) | h
  · exact .inl h
  · exact .inr (.inl h)
  · exact .inr (.inr h)

/-- A hexadecimal digit is not white space. -/
theorem isWhitespace_hexdigit {c : Char} (h : isAsciiHexdigit c = true) :
    isWhitespace c = false := by
  have hrange := toNat_of_isAsciiHexdigit h
  simp only [isWhitespace, Bool.or_eq_false_iff, Bool.and_eq_false_iff, decide_eq_false_iff_not,
    beq_eq_false_iff_ne]
  omega

/-- The digits of a number. -/
theorem hexDigit_digitChar : ∀ d < 16, hexDigit d.digitChar = some d ∧
    isAsciiHexdigit d.digitChar = true := by
  decide

/-- A number is the value of its hexadecimal digits. -/
theorem hexDigits_toDigits (n : ℕ) : hexDigits (Nat.toDigits 16 n) = some n ∧
    ∀ c ∈ Nat.toDigits 16 n, isAsciiHexdigit c = true := by
  induction n using Nat.strong_induction_on with
  | _ n ih =>
    rcases Nat.lt_or_ge n 16 with hlt | hge
    · obtain ⟨hvalue, hdigit⟩ := hexDigit_digitChar n hlt
      rw [Nat.toDigits_of_lt_base hlt]
      refine ⟨?_, by simpa using hdigit⟩
      simp [hexDigits, hvalue]
    · obtain ⟨hvalue, hdigit⟩ := ih (n / 16) (by omega)
      obtain ⟨hlast, hlastdigit⟩ := hexDigit_digitChar (n % 16) (Nat.mod_lt n (by decide))
      rw [Nat.toDigits_of_base_le (by decide) hge]
      constructor
      · unfold hexDigits at hvalue ⊢
        rw [List.foldlM_append, hvalue]
        simp [hlast, Nat.div_add_mod]
      · intro c hc
        rcases List.mem_append.mp hc with hc | hc
        · exact hdigit c hc
        · rw [List.mem_singleton.mp hc]
          exact hlastdigit

/-- An address is written in hexadecimal digits. -/
theorem isAsciiHexdigit_showHex (n : ℕ) : ∀ c ∈ showHex n, isAsciiHexdigit c = true := by
  intro c hc
  rcases List.mem_append.mp hc with hc | hc
  · rw [List.eq_of_mem_replicate hc]
    decide
  · exact (hexDigits_toDigits n).2 c hc

/-- An address is written in some digits. -/
theorem showHex_ne_nil (n : ℕ) : showHex n ≠ [] :=
  List.append_ne_nil_of_right_ne_nil _ Nat.toDigits_ne_nil

/-- An address is parsed from its digits. -/
theorem parseHex_showHex {n : ℕ} (hn : n < usizeSize) : parseHex (showHex n) = some n := by
  have hplus : (showHex n).head? ≠ some '+' := fun h =>
    absurd (isAsciiHexdigit_showHex n _ (List.mem_of_head? h)) (by decide)
  have hzeros : ∀ k s, hexDigits (.replicate k '0' ++ s) = hexDigits s := by
    intro k s
    induction k with
    | zero => rfl
    | succ k ih => exact ih
  have hvalue : hexDigits (showHex n) = some n := by
    rw [showHex, hzeros, (hexDigits_toDigits n).1]
  simpa [parseHex, hplus, hvalue, showHex_ne_nil] using hn

/-- A character that is no digit does not stand in an address. -/
theorem not_mem_showHex {c : Char} (hc : isAsciiHexdigit c = false) (n : ℕ) : c ∉ showHex n := by
  intro hmem
  rw [isAsciiHexdigit_showHex n c hmem] at hc
  cases hc

/-! ### Lines of a section -/

/-- A text is split at the first separator. -/
theorem splitOnce_append {c : Char} {front : List Char} (h : c ∉ front) (back : List Char) :
    splitOnce c (front ++ c :: back) = some (front, back) := by
  have hfront : ∀ x ∈ front, decide (x ≠ c) = true := by
    intro x hx
    rw [decide_eq_true_iff]
    rintro rfl
    exact h hx
  have hdrop : (front ++ c :: back).dropWhile (· ≠ c) = c :: back := by
    rw [List.dropWhile_append_of_pos hfront, List.dropWhile_cons_of_neg (by simp)]
  have htake : (front ++ c :: back).takeWhile (· ≠ c) = front := by
    rw [List.takeWhile_append_of_pos hfront, List.takeWhile_cons_of_neg (by simp), List.append_nil]
  simp only [splitOnce, hdrop, htake]

/-- A text without the separator is not split. -/
theorem splitOnce_eq_none {c : Char} {s : List Char} (h : c ∉ s) : splitOnce c s = none := by
  have hall : ∀ x ∈ s, decide (x ≠ c) = true := by
    intro x hx
    rw [decide_eq_true_iff]
    rintro rfl
    exact h hx
  have hdrop : s.dropWhile (· ≠ c) = [] := by
    rw [← List.append_nil s, List.dropWhile_append_of_pos hall]
    rfl
  simp only [splitOnce, hdrop]

/-- A header starts with a hexadecimal digit. -/
theorem Vma.header_head (v : Vma) : (v.header.head?.map isAsciiHexdigit).getD false = true := by
  obtain ⟨c, rest, hshow⟩ := List.exists_cons_of_ne_nil (showHex_ne_nil v.start)
  have hc := isAsciiHexdigit_showHex v.start c (by simp [hshow])
  simp [Vma.header, hshow, hc]

namespace Vma.Written

variable {v : Vma}

/-- `smaps_at` wants the section of a mapping when the address is in it. -/
theorem markAt_header (h : v.Written) (addr : ℕ) :
    markAt addr v.header = .opens (v.start ≤ addr && addr < v.stop) := by
  have hsplit : splitOnce '-' v.header = some (showHex v.start, showHex v.stop ++ ' ' :: v.info) :=
    splitOnce_append (not_mem_showHex (by decide) _) _
  have hword : IsWord (showHex v.stop) :=
    ⟨showHex_ne_nil _, fun c hc => isWhitespace_hexdigit (isAsciiHexdigit_showHex _ c hc)⟩
  have hend : ((splitWhitespace (showHex v.stop ++ ' ' :: v.info)).head?.getD ['0']) =
      showHex v.stop := by
    rw [splitWhitespace_append _ _ (by decide), hword.split]
    rfl
  unfold markAt
  simp only [v.header_head, if_true, hsplit, hend, parseHex_showHex h.start_lt,
    parseHex_showHex h.stop_lt]

/-- `smaps_for_file` wants the section of a mapping when the path is in its header. -/
theorem markFile_header (v : Vma) (path : List Char) :
    markFile path v.header = .opens (path <:+: v.header) :=
  if_pos v.header_head

/-- `read_smaps_for_addr` reads the range of a mapping off its header. -/
theorem headerRange_header (h : v.Written) : headerRange v.header = some (v.start, v.stop) := by
  have hsplit : splitOnce ' ' v.header =
      some (showHex v.start ++ '-' :: showHex v.stop, v.info) := by
    have hrange : v.header = (showHex v.start ++ '-' :: showHex v.stop) ++ ' ' :: v.info := by
      simp [Vma.header]
    rw [hrange]
    apply splitOnce_append
    simp only [List.mem_append, List.mem_cons, not_or]
    exact ⟨not_mem_showHex (by decide) _, by decide, not_mem_showHex (by decide) _⟩
  have hsplit' := splitOnce_append (c := '-') (not_mem_showHex (by decide) v.start)
    (showHex v.stop)
  simp [headerRange, hsplit, hsplit', parseHex_showHex h.start_lt, parseHex_showHex h.stop_lt]

/-- It wants the section of a mapping when the address is in it, and the mapping does not end behind
the limit. -/
theorem markAddr_header (h : v.Written) (addr limit : ℕ) : markAddr addr limit v.header =
    .opens (v.start ≤ addr && addr < v.stop && v.stop ≤ limit) := by
  unfold markAddr
  rw [h.headerRange_header]

/-- For `smaps_at`, a counter opens no section; it is not a line of a section either when its name
starts with a hexadecimal digit. -/
theorem markAt_counter (h : v.Written) (addr : ℕ) {l : List Char} (hl : l ∈ v.counters) :
    markAt addr l = if (l.head?.map isAsciiHexdigit).getD false then .skip else .body := by
  unfold markAt
  rw [splitOnce_eq_none (h.counters l hl).2.1]

/-- For `smaps_for_file`, a counter is of no wanted section, or a line. -/
theorem markFile_counter (h : v.Written) {path : List Char} (hpath : '/' ∈ path) {l : List Char}
    (hl : l ∈ v.counters) : markFile path l =
      if (l.head?.map isAsciiHexdigit).getD false then .opens false else .body := by
  have hno : ¬ path <:+: l := fun hin => (h.counters l hl).2.2 (hin.subset hpath)
  unfold markFile
  rw [decide_eq_false hno]

/-- A counter has no range of addresses. -/
theorem headerRange_counter (h : v.Written) {l : List Char} (hl : l ∈ v.counters) :
    headerRange l = none := by
  have hdash := (h.counters l hl).2.1
  by_cases hspace : ' ' ∈ l
  · obtain ⟨front, back, rfl, hfront⟩ := List.eq_append_cons_of_mem hspace
    simp [headerRange, splitOnce_append hfront,
      splitOnce_eq_none fun hmem => hdash (List.mem_append_left _ hmem)]
  · simp [headerRange, splitOnce_eq_none hspace]

/-- For `read_smaps_for_addr`, a counter is a line. -/
theorem markAddr_counter (h : v.Written) (addr limit : ℕ) {l : List Char} (hl : l ∈ v.counters) :
    markAddr addr limit l = .body := by
  unfold markAddr
  rw [h.headerRange_counter hl]

/-- The header is a line. -/
theorem header_isLine (h : v.Written) : IsLine v.header := by
  obtain ⟨hfeed, hreturn⟩ := h.info
  constructor
  · simp only [header, List.mem_append, List.mem_cons, not_or]
    exact ⟨not_mem_showHex (by decide) _, by decide, not_mem_showHex (by decide) _, by decide,
      hfeed⟩
  · have hfront : v.header = (showHex v.start ++ '-' :: showHex v.stop) ++ ' ' :: v.info := by
      simp [header]
    rw [hfront, List.getLast?_append_of_ne_nil _ (List.cons_ne_nil _ _)]
    cases hinfo : v.info with
    | nil => decide
    | cons c rest =>
      rw [List.getLast?_cons_cons, ← hinfo]
      exact hreturn

end Vma.Written

/-- The lines of the text. -/
theorem lines_smapsText {vmas : List Vma} (h : ∀ v ∈ vmas, v.Written) :
    lines (smapsText vmas) = vmas.flatMap fun v => v.header :: v.counters := by
  apply lines_unlines
  intro l hl
  obtain ⟨v, hv, hl⟩ := List.mem_flatMap.mp hl
  rcases List.mem_cons.mp hl with rfl | hl
  · exact (h v hv).header_isLine
  · exact ((h v hv).counters l hl).1

/-! ## What the readers report -/

/-- A name that starts with a hexadecimal digit is that of a counter that `smaps_at` and
`smaps_for_file` take for a header; of the three that they look for, one is not. -/
theorem reported_of_body {l : List Char}
    (hl : (l.head?.map isAsciiHexdigit).getD false = false) : Reported l ↔ thpEligible <+: l := by
  constructor
  · rintro (⟨rest, rfl⟩ | ⟨rest, rfl⟩ | h)
    · cases hl
    · cases hl
    · exact h
  · exact fun h => .inr (.inr h)

/-- `smaps_at` reports of the mapping at an address whether it is eligible for huge pages, and never
the huge pages that it has, though it looks for them. -/
theorem smaps_at_reports (vmas : List Vma) (h : ∀ v ∈ vmas, v.Written) (addr : ℕ) :
    smapsAt addr (some (smapsText vmas)) = report "(no hugepage smaps fields)".toList
      ((vmas.filter fun v => v.start ≤ addr && addr < v.stop).flatMap fun v =>
        v.counters.filter fun l => thpEligible <+: l) := by
  have hscan : scan (markAt addr) false (lines (smapsText vmas)) =
      (vmas.filter fun v => v.start ≤ addr && addr < v.stop).flatMap fun v =>
        v.counters.filter fun l => markAt addr l = .body := by
    rw [lines_smapsText h]
    apply scan_wanted_sections fun v hv => (h v hv).markAt_header addr
    intro v hv l hl w
    rw [(h v hv).markAt_counter addr hl]
    split_ifs <;> simp
  unfold smapsAt
  rw [Option.getD_some, hscan, List.filter_flatMap]
  congr 1
  apply List.flatMap_congr
  intro v hv
  rw [List.filter_filter]
  apply List.filter_congr
  intro l hl
  have hmark := (h v (List.mem_of_mem_filter hv)).markAt_counter addr hl
  have hname : thpEligible <+: l → (l.head?.map isAsciiHexdigit).getD false = false := by
    rintro ⟨rest, rfl⟩
    rfl
  cases hhead : (l.head?.map isAsciiHexdigit).getD false with
  | true =>
    have hno : ¬ thpEligible <+: l := fun hthp => by simp [hname hthp] at hhead
    simp [hmark, hhead, hno]
  | false => simp [hmark, hhead, reported_of_body hhead]

/-- Of the fixture it reports only that it is eligible. -/
theorem smaps_at_reports_fixture :
    smapsAt 0x7F5A40000000 (some (smapsText [fixtureVma])) = "THPeligible:           1".toList :=
  (smaps_at_reports [fixtureVma] (by simpa using fixtureVma_written) 0x7F5A40000000).trans
    (by decide)

/-- `smaps_for_file` never reports anything of an absolute path, when in every section a counter
whose name starts with a hexadecimal digit, such as `Anonymous`, comes before the line that says
whether the mapping is eligible for huge pages. -/
theorem smaps_for_file_reports_nothing (vmas : List Vma) (h : ∀ v ∈ vmas, v.Written)
    (path : List Char) (hpath : '/' ∈ path)
    (horder : ∀ v ∈ vmas, ∃ front l back, v.counters = front ++ l :: back ∧
      (l.head?.map isAsciiHexdigit).getD false = true ∧ ∀ x ∈ front, ¬ thpEligible <+: x) :
    smapsForFile path (some (smapsText vmas)) =
      "(no file mapping found for ".toList ++ path ++ [')'] := by
  have hnone : (scan (markFile path) false (lines (smapsText vmas))).filter Reported = [] := by
    rw [lines_smapsText h, scan_sections fun v _ => Vma.Written.markFile_header v path,
      List.filter_flatMap, List.flatMap_eq_nil_iff]
    intro v hv
    rw [List.filter_eq_nil_iff]
    intro l hl hreported
    obtain ⟨front, l', back, hcounters, hhead, hfront⟩ := horder v hv
    have hcounter : ∀ x ∈ v.counters, markFile path x =
        if (x.head?.map isAsciiHexdigit).getD false then .opens false else .body :=
      fun x hx => (h v hv).markFile_counter hpath hx
    -- The scanner leaves the section at that counter.
    have hcut : markFile path l' = .opens false := by
      rw [hcounter l' (by simp [hcounters]), if_pos hhead]
    have hback : ∀ x ∈ back, markFile path x ≠ .opens true := by
      intro x hx
      rw [hcounter x (by simp [hcounters, hx])]
      split_ifs <;> simp
    rw [hcounters, scan_cut hcut hback] at hl
    obtain ⟨hmem, hbody⟩ := of_mem_scan hl
    rw [hcounter l (by simp [hcounters, hmem])] at hbody
    split_ifs at hbody with hdigit
    rw [Bool.not_eq_true] at hdigit
    exact hfront l hmem ((reported_of_body hdigit).mp (of_decide_eq_true hreported))
  unfold smapsForFile
  rw [Option.getD_some, hnone]
  rfl

/-- It does not find the fixture. -/
theorem smaps_for_file_fixture : smapsForFile "/work/l3.zst".toList
    (some (smapsText [fixtureVma])) = "(no file mapping found for /work/l3.zst)".toList := by
  refine (smaps_for_file_reports_nothing [fixtureVma] (by simpa using fixtureVma_written)
    "/work/l3.zst".toList (by decide) ?_).trans (by decide)
  intro v hv
  rw [List.mem_singleton.mp hv]
  exact ⟨fixtureVma.counters.take 2, "Anonymous:             0 kB".toList,
    fixtureVma.counters.drop 3, rfl, by decide, by decide⟩

/-! ### The sums -/

/-- The kilobytes of a counter, over some lines. -/
def kbSum (label : List Char) (ls : List (List Char)) : ℕ :=
  ((ls.filterMap (stripPrefix label)).map parseKb).sum

/-- The last eligibility in some lines. -/
def lastEligible (ls : List (List Char)) : Option (Option ℕ) :=
  (ls.filterMap (stripPrefix thpEligible)).getLast?.map fun rest => parseU8 (trim rest)

/-- A line has one label. -/
theorem stripPrefix_other {label l rest : List Char} (h : stripPrefix label l = some rest)
    (label' : List Char) (hne : ¬ label <+: label') (hne' : ¬ label' <+: label) :
    stripPrefix label' l = none := by
  unfold stripPrefix at h ⊢
  split_ifs at h with hlabel
  rw [if_neg]
  intro hlabel'
  rw [List.isPrefixOf_iff_prefix] at hlabel hlabel'
  rcases List.prefix_or_prefix_of_prefix hlabel hlabel' with hin | hin
  · exact hne hin
  · exact hne' hin

/-- The lines of a list are summed one by one. -/
theorem kbSum_cons (label l : List Char) (ls : List (List Char)) :
    kbSum label (l :: ls) = kbSum label [l] + kbSum label ls := by
  unfold kbSum
  rw [← List.singleton_append, List.filterMap_append, List.map_append, List.sum_append]

/-- The last eligibility is that of the first line only when no other line has one. -/
theorem lastEligible_cons (l : List Char) (ls : List (List Char)) :
    lastEligible (l :: ls) = (lastEligible ls).or (lastEligible [l]) := by
  unfold lastEligible
  rw [← List.singleton_append, List.filterMap_append, List.getLast?_append, Option.map_or]

/-- The stats with the counters of some lines added to them. -/
def SmapsStats.summed (stats : SmapsStats) (ls : List (List Char)) : SmapsStats where
  file_pmd_mapped_kb := stats.file_pmd_mapped_kb + kbSum filePmdMapped ls
  anon_huge_pages_kb := stats.anon_huge_pages_kb + kbSum anonHugePages ls
  thp_eligible := (lastEligible ls).getD stats.thp_eligible
  size_kb := stats.size_kb + kbSum sizeLabel ls
  rss_kb := stats.rss_kb + kbSum rssLabel ls

/-- The sums are machine words. -/
structure SmapsStats.Fits (stats : SmapsStats) : Prop where
  file_pmd_mapped_kb : stats.file_pmd_mapped_kb < usizeSize
  anon_huge_pages_kb : stats.anon_huge_pages_kb < usizeSize
  size_kb : stats.size_kb < usizeSize
  rss_kb : stats.rss_kb < usizeSize

/-- A line is added before the others. -/
theorem SmapsStats.summed_cons (stats : SmapsStats) (l : List Char) (ls : List (List Char)) :
    stats.summed (l :: ls) = (stats.summed [l]).summed ls := by
  have hlast : (lastEligible (l :: ls)).getD stats.thp_eligible =
      (lastEligible ls).getD ((lastEligible [l]).getD stats.thp_eligible) := by
    rw [lastEligible_cons]
    cases lastEligible ls with
    | none => rfl
    | some last => rfl
  simp only [summed, kbSum_cons _ l ls, hlast, Nat.add_assoc]

/-- Sums only grow. -/
theorem SmapsStats.Fits.of_summed {stats : SmapsStats} {ls : List (List Char)}
    (h : (stats.summed ls).Fits) : stats.Fits where
  file_pmd_mapped_kb := (Nat.le_add_right _ _).trans_lt h.file_pmd_mapped_kb
  anon_huge_pages_kb := (Nat.le_add_right _ _).trans_lt h.anon_huge_pages_kb
  size_kb := (Nat.le_add_right _ _).trans_lt h.size_kb
  rss_kb := (Nat.le_add_right _ _).trans_lt h.rss_kb

/-- A line adds to the counter that it names. -/
theorem SmapsStats.add_eq (b : Build) {stats : SmapsStats} {l : List Char}
    (h : (stats.summed [l]).Fits) : stats.add b l = .ok (stats.summed [l]) := by
  obtain ⟨hpmd, hanon, hsize, hrss⟩ := h
  cases h1 : stripPrefix filePmdMapped l with
  | some rest =>
    have h2 := stripPrefix_other h1 anonHugePages (by decide) (by decide)
    have h3 := stripPrefix_other h1 thpEligible (by decide) (by decide)
    have h4 := stripPrefix_other h1 sizeLabel (by decide) (by decide)
    have h5 := stripPrefix_other h1 rssLabel (by decide) (by decide)
    have hsum := b.add_of_lt (x := stats.file_pmd_mapped_kb) (y := parseKb rest)
      (by simpa [summed, kbSum, h1] using hpmd)
    simp [add, summed, kbSum, lastEligible, h1, h2, h3, h4, h5, hsum]
  | none =>
  cases h2 : stripPrefix anonHugePages l with
  | some rest =>
    have h3 := stripPrefix_other h2 thpEligible (by decide) (by decide)
    have h4 := stripPrefix_other h2 sizeLabel (by decide) (by decide)
    have h5 := stripPrefix_other h2 rssLabel (by decide) (by decide)
    have hsum := b.add_of_lt (x := stats.anon_huge_pages_kb) (y := parseKb rest)
      (by simpa [summed, kbSum, h2] using hanon)
    simp [add, summed, kbSum, lastEligible, h1, h2, h3, h4, h5, hsum]
  | none =>
  cases h3 : stripPrefix thpEligible l with
  | some rest =>
    have h4 := stripPrefix_other h3 sizeLabel (by decide) (by decide)
    have h5 := stripPrefix_other h3 rssLabel (by decide) (by decide)
    simp [add, summed, kbSum, lastEligible, h1, h2, h3, h4, h5]
  | none =>
  cases h4 : stripPrefix sizeLabel l with
  | some rest =>
    have h5 := stripPrefix_other h4 rssLabel (by decide) (by decide)
    have hsum := b.add_of_lt (x := stats.size_kb) (y := parseKb rest)
      (by simpa [summed, kbSum, h4] using hsize)
    simp [add, summed, kbSum, lastEligible, h1, h2, h3, h4, h5, hsum]
  | none =>
  cases h5 : stripPrefix rssLabel l with
  | some rest =>
    have hsum := b.add_of_lt (x := stats.rss_kb) (y := parseKb rest)
      (by simpa [summed, kbSum, h5] using hrss)
    simp [add, summed, kbSum, lastEligible, h1, h2, h3, h4, h5, hsum]
  | none => simp [add, summed, kbSum, lastEligible, h1, h2, h3, h4, h5]

/-- The loop sums the counters. -/
theorem foldlM_add (b : Build) {ls : List (List Char)} {stats : SmapsStats}
    (h : (stats.summed ls).Fits) : ls.foldlM (SmapsStats.add b) stats = .ok (stats.summed ls) := by
  induction ls generalizing stats with
  | nil => rfl
  | cons l ls ih =>
    rw [SmapsStats.summed_cons] at h ⊢
    rw [List.foldlM_cons, SmapsStats.add_eq b h.of_summed, Outcome.ok_bind, ih h]

/-- The lines that `read_smaps_for_addr` keeps. -/
theorem scan_markAddr {vmas : List Vma} (h : ∀ v ∈ vmas, v.Written) (addr limit : ℕ) :
    scan (markAddr addr limit) false (lines (smapsText vmas)) =
      (vmas.filter fun v => v.start ≤ addr && addr < v.stop && v.stop ≤ limit).flatMap
        Vma.counters := by
  rw [lines_smapsText h, scan_wanted_sections fun v hv => (h v hv).markAddr_header addr limit]
  · apply List.flatMap_congr
    intro v hv
    rw [List.filter_eq_self]
    intro l hl
    rw [(h v (List.mem_of_mem_filter hv)).markAddr_counter addr limit hl]
    rfl
  · intro v hv l hl w
    rw [(h v hv).markAddr_counter addr limit hl]
    simp

/-- When no mapping holds the address, no limit makes a difference. -/
theorem filter_holds_none {vmas : List Vma} (h : ∀ v ∈ vmas, v.Written) {addr : ℕ}
    (hnone : (lines (smapsText vmas)).any (holdsAddr addr) = false) (limit : ℕ) :
    (vmas.filter fun v => v.start ≤ addr && addr < v.stop && v.stop ≤ limit) = [] := by
  rw [List.filter_eq_nil_iff]
  intro v hv hin
  have hmem : v.header ∈ lines (smapsText vmas) := by
    rw [lines_smapsText h]
    exact List.mem_flatMap.mpr ⟨v, hv, List.mem_cons_self⟩
  have hholds := List.any_eq_false.mp hnone v.header hmem
  rw [holdsAddr, (h v hv).headerRange_header] at hholds
  simp only [Bool.and_eq_true] at hin
  exact hholds (by simpa using hin.1)

/-- `read_smaps_for_addr` sums the counters of the mapping that the address is in, and takes its
eligibility, when that mapping does not end more than a page behind the region. The end of the
region is far from the top of the address space, and the sums fit. -/
theorem read_smaps_sums (b : Build) (vmas : List Vma) (h : ∀ v ∈ vmas, v.Written) (addr len : ℕ)
    (haddr : addr + len + 4096 < usizeSize) :
    let counters := (vmas.filter fun v => v.start ≤ addr && addr < v.stop &&
      v.stop ≤ addr + len + 4096).flatMap Vma.counters
    let stats : SmapsStats :=
      { file_pmd_mapped_kb := kbSum filePmdMapped counters
        anon_huge_pages_kb := kbSum anonHugePages counters
        thp_eligible := (lastEligible counters).getD none
        size_kb := kbSum sizeLabel counters
        rss_kb := kbSum rssLabel counters }
    stats.Fits → readSmapsForAddr b addr len (some (smapsText vmas)) = .ok stats := by
  intro counters stats hfits
  have hstats : SmapsStats.summed ⟨0, 0, none, 0, 0⟩ counters = stats := by
    simp only [SmapsStats.summed, Nat.zero_add, stats]
  have hend : b.add addr len = .ok (addr + len) := b.add_of_lt (by omega)
  have hlimit : b.add (addr + len) 4096 = .ok (addr + len + 4096) := b.add_of_lt haddr
  unfold readSmapsForAddr
  rw [Option.getD_some, hend, Outcome.ok_bind]
  -- The limit is computed when a mapping holds the address, and only then it is looked at.
  cases hany : (lines (smapsText vmas)).any (holdsAddr addr) with
  | true =>
    simp only [hany, if_true, hlimit, Outcome.ok_bind]
    rw [scan_markAddr h, foldlM_add b (hstats ▸ hfits), hstats]
  | false =>
    have hnone := filter_holds_none h hany
    simp only [hany, Bool.false_eq_true, if_false, Outcome.pure_eq, Outcome.ok_bind]
    rw [scan_markAddr h, hnone 0, ← hnone (addr + len + 4096), foldlM_add b (hstats ▸ hfits),
      hstats]

/-- Of the fixture it sums all counters. -/
theorem read_smaps_fixture :
    readSmapsForAddr .debug 0x7F5A40000000 0x8200000 (some (smapsText [fixtureVma])) =
      .ok ⟨131072, 0, some 1, 133120, 133120⟩ :=
  (read_smaps_sums .debug [fixtureVma] (by simpa using fixtureVma_written) 0x7F5A40000000 0x8200000
    (by decide) ⟨by decide, by decide, by decide, by decide⟩).trans (by decide)

/-! ### The totals -/

/-- A header has no label whose second character is no digit. -/
theorem Vma.stripPrefix_header (v : Vma) {label : List Char}
    (hlabel : label[1]?.map isAsciiHexdigit = some false) : stripPrefix label v.header = none := by
  unfold stripPrefix
  rw [if_neg]
  intro hin
  obtain ⟨c, hc, hdigit⟩ := Option.map_eq_some_iff.mp hlabel
  obtain ⟨rest, hheader⟩ := List.isPrefixOf_iff_prefix.mp hin
  -- The address in front has at least eight digits, the second of which would be `c`.
  have hlen : 1 < (showHex v.start).length := by
    rw [showHex, List.length_append, List.length_replicate]
    omega
  have hfront : v.header[1]? = (showHex v.start)[1]? := List.getElem?_append_left hlen
  have hsecond : v.header[1]? = some c := by
    rw [← hheader, List.getElem?_append_left (List.getElem?_eq_some_iff.mp hc).1, hc]
  have hmem : c ∈ showHex v.start := List.mem_of_getElem? (hfront.symm.trans hsecond)
  exact not_mem_showHex hdigit v.start hmem

/-- A header adds nothing to such a counter. -/
theorem kbSum_sections {label : List Char} (hlabel : label[1]?.map isAsciiHexdigit = some false)
    (vmas : List Vma) :
    kbSum label (vmas.flatMap fun v => v.header :: v.counters) =
      kbSum label (vmas.flatMap Vma.counters) := by
  unfold kbSum
  congr 2
  rw [List.filterMap_flatMap, List.filterMap_flatMap]
  apply List.flatMap_congr
  intro v _
  exact List.filterMap_cons_none (v.stripPrefix_header hlabel)

/-- The loop sums both counters. -/
theorem foldlM_addTotals (b : Build) {ls : List (List Char)} {totals : ℕ × ℕ}
    (hprivate : totals.1 + kbSum privateHugetlb ls < usizeSize)
    (hanon : totals.2 + kbSum anonHugePages ls < usizeSize) :
    ls.foldlM (addTotals b) totals =
      .ok (totals.1 + kbSum privateHugetlb ls, totals.2 + kbSum anonHugePages ls) := by
  induction ls generalizing totals with
  | nil => rfl
  | cons l ls ih =>
    rw [kbSum_cons, ← Nat.add_assoc] at hprivate hanon
    have hline : addTotals b totals l =
        .ok (totals.1 + kbSum privateHugetlb [l], totals.2 + kbSum anonHugePages [l]) := by
      cases h1 : stripPrefix privateHugetlb l with
      | some rest =>
        have h2 := stripPrefix_other h1 anonHugePages (by decide) (by decide)
        have hsum := b.add_of_lt (x := totals.1) (y := parseKb rest)
          (by simpa [kbSum, h1] using (Nat.le_add_right _ _).trans_lt hprivate)
        simp [addTotals, kbSum, h1, h2, hsum]
      | none =>
      cases h2 : stripPrefix anonHugePages l with
      | some rest =>
        have hsum := b.add_of_lt (x := totals.2) (y := parseKb rest)
          (by simpa [kbSum, h2] using (Nat.le_add_right _ _).trans_lt hanon)
        simp [addTotals, kbSum, h1, h2, hsum]
      | none => simp [addTotals, kbSum, h1, h2]
    rw [List.foldlM_cons, hline, Outcome.ok_bind, ih hprivate hanon]
    simp only [kbSum_cons _ l ls, Nat.add_assoc]

/-- `smaps_hugepage_totals` sums both counters over all mappings, and takes no header for one of
them, when the sums fit. -/
theorem smaps_totals_sums (b : Build) (vmas : List Vma) (h : ∀ v ∈ vmas, v.Written)
    (hprivate : kbSum privateHugetlb (vmas.flatMap Vma.counters) < usizeSize)
    (hanon : kbSum anonHugePages (vmas.flatMap Vma.counters) < usizeSize) :
    smapsHugepageTotals b (some (smapsText vmas)) =
      .ok (kbSum privateHugetlb (vmas.flatMap Vma.counters),
        kbSum anonHugePages (vmas.flatMap Vma.counters)) := by
  rw [← kbSum_sections (by decide), ← kbSum_sections (by decide)] at *
  unfold smapsHugepageTotals
  rw [Option.getD_some, lines_smapsText h, foldlM_addTotals b (by simpa using hprivate)
    (by simpa using hanon)]
  simp only [Nat.zero_add]

/-- The section of two hugepages. -/
def hugetlbVma : Vma where
  start := 0x7F5A50000000
  stop := 0x7F5A50400000
  info := "rw-p 00000000 00:0f 42 /anon_hugepage (deleted)".toList
  counters := ["Size:               4096 kB".toList, "AnonHugePages:         0 kB".toList,
    "Private_Hugetlb:    4096 kB".toList]

/-- With the fixture it has four megabytes of them, and the fixture has none. -/
theorem smaps_totals_hugetlb :
    smapsHugepageTotals .debug (some (smapsText [fixtureVma, hugetlbVma])) = .ok (4096, 0) := by
  have hwritten : hugetlbVma.Written :=
    .of_all (by decide) (by decide) ⟨by decide, by decide⟩ (by decide)
  have hboth : ∀ v ∈ [fixtureVma, hugetlbVma], v.Written :=
    List.forall_mem_cons.mpr ⟨fixtureVma_written, List.forall_mem_singleton.mpr hwritten⟩
  exact (smaps_totals_sums .debug _ hboth (by decide) (by decide)).trans (by decide)

end MmapZstd
