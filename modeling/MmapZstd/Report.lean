import MmapZstd.Lib.Rank
import MmapZstd.Measure

/-!
# The report of the benchmark

What `main` of `src/bin/bench.rs` prints of its results. With `--csv` it prints a line of values for
each; the smoke test reads them back, and gets the values that were printed (`csv_round_trip`).
Without, it groups the digits of large numbers with commas (`with_commas_groups`), and prints the
median of the run times, the upper one when their number is even (`median_u64_eq_iff`).

How a floating-point number is printed is a parameter; it has no comma and no line feed.
-/

namespace MmapZstd

variable {F : Type}

/-! ## Pieces with a separator between them -/

section Pieces

variable {α : Type}

/-- What stands in the joined pieces stands in a piece, or is the separator. -/
theorem mem_intercalate {x c : α} {pieces : List (List α)} (hc : c ∈ [x].intercalate pieces) :
    c = x ∨ ∃ piece ∈ pieces, c ∈ piece := by
  induction pieces with
  | nil => cases hc
  | cons piece pieces ih =>
    rcases List.eq_nil_or_concat pieces with rfl | ⟨_, _, rfl⟩
    · rw [List.intercalate_singleton] at hc
      exact .inr ⟨piece, List.mem_cons_self, hc⟩
    · rw [List.intercalate_cons_of_ne_nil (by simp)] at hc
      simp only [List.mem_append, List.mem_singleton] at hc
      rcases hc with (hc | hc) | hc
      · exact .inr ⟨piece, List.mem_cons_self, hc⟩
      · exact .inl hc
      · refine (ih hc).imp_right ?_
        rintro ⟨piece', hpiece', hc⟩
        exact ⟨piece', List.mem_cons_of_mem _ hpiece', hc⟩

/-- A piece at the end. -/
theorem intercalate_concat (x : α) {pieces : List (List α)} (hne : pieces ≠ [])
    (last : List α) : [x].intercalate (pieces ++ [last]) = [x].intercalate pieces ++ x :: last := by
  induction pieces with
  | nil => exact absurd rfl hne
  | cons piece pieces ih =>
    rcases eq_or_ne pieces [] with rfl | hne
    · simp [List.intercalate]
    · rw [List.cons_append, List.intercalate_cons_of_ne_nil (by simp), ih hne,
        List.intercalate_cons_of_ne_nil hne]
      simp only [List.append_assoc]

/-- Joined pieces, backwards. -/
theorem reverse_intercalate (x : α) (pieces : List (List α)) :
    ([x].intercalate pieces).reverse = [x].intercalate (pieces.map List.reverse).reverse := by
  induction pieces with
  | nil => rfl
  | cons piece pieces ih =>
    rcases eq_or_ne pieces [] with rfl | hne
    · simp [List.intercalate_singleton]
    · rw [List.intercalate_cons_of_ne_nil hne, List.map_cons, List.reverse_cons,
        intercalate_concat x (by simpa using hne), ← ih]
      simp

end Pieces

/-! ## The CSV report -/

/-- `mode_name`. -/
def Mode.name : Mode → List Char
  | .hugepageAnon => "hugepage-anon".toList
  | .hugepageMemfd => "hugepage-memfd".toList
  | .bufreader => "bufreader".toList

/-- An `i64` in decimal. -/
def showI64 : ℤ → List Char
  | .ofNat n => Nat.toDigits 10 n
  | .negSucc n => '-' :: Nat.toDigits 10 (n + 1)

/-- The names of the columns. -/
def csvHeader : List Char :=
  "mode,run,wall_ns,decompressed_bytes,throughput_mbps,drss_kib,minfaults".toList

section Csv

variable (fmt : F → List Char)

/-- The values of a result, in the order of the columns. -/
def csvFields (mode : Mode) (run : ℕ) (r : RunResult F) : List (List Char) :=
  [mode.name, Nat.toDigits 10 run, Nat.toDigits 10 r.wall_ns, Nat.toDigits 10 r.decompressed_bytes,
    fmt r.throughput_mbps, showI64 r.drss_kib, Nat.toDigits 10 r.minfaults]

/-- What `main --csv` prints of its results. -/
def csvReport (mode : Mode) (results : List (ℕ × RunResult F)) : List Char :=
  unlines (csvHeader :: results.map fun r => [','].intercalate (csvFields fmt mode r.1 r.2))

/-- A result with its throughput as it is printed. -/
def RunResult.shown (r : RunResult F) : RunResult (List Char) :=
  ⟨r.wall_ns, r.decompressed_bytes, fmt r.throughput_mbps, r.drss_kib, r.minfaults⟩

end Csv

/-- The rows that `run_bench` of the smoke test reads from the output of the binary. -/
def parseRows (stdout : List Char) : List (List (List Char)) :=
  (((lines stdout).drop 1).filter fun l => !l.isEmpty).map fun l => l.splitOn ','

/-- A character that a number or a name of the report has none of. -/
def Plain (c : Char) : Prop := c ≠ ',' ∧ c ≠ '\n'

/-- The digits of a number are plain. -/
theorem plain_toDigits (n : ℕ) : ∀ c ∈ Nat.toDigits 10 n, Plain c := by
  intro c hc
  have hdigit := isDigit_of_mem_decimal hc
  constructor
  · rintro rfl
    exact absurd hdigit (by decide)
  · rintro rfl
    exact absurd hdigit (by decide)

/-- A signed number is plain. -/
theorem plain_showI64 (n : ℤ) : ∀ c ∈ showI64 n, Plain c := by
  cases n with
  | ofNat n => exact plain_toDigits n
  | negSucc n => exact List.forall_mem_cons.mpr ⟨by unfold Plain; decide, plain_toDigits _⟩

/-- The names of the modes are plain. -/
theorem plain_name (mode : Mode) : ∀ c ∈ mode.name, Plain c := by
  have hall : (mode.name.all fun c => c != ',' && c != '\n') = true := by cases mode <;> decide
  intro c hc
  have hplain := List.all_eq_true.mp hall c hc
  simpa [Plain] using hplain

/-- A number is read off its digits. -/
theorem toDigits_injective : Function.Injective (Nat.toDigits 10) := by
  intro m n h
  rw [← Nat.ofDigitChars_ten_toDigits (n := m), h, Nat.ofDigitChars_ten_toDigits]

/-- A signed number is read off its decimal. -/
theorem showI64_injective : Function.Injective showI64 := by
  have hsign : ∀ m n, Nat.toDigits 10 m ≠ '-' :: Nat.toDigits 10 n := by
    intro m n h
    have hdigit : '-' ∈ Nat.toDigits 10 m := h ▸ List.mem_cons_self
    exact absurd (isDigit_of_mem_decimal hdigit) (by decide)
  intro m n h
  cases m with
  | ofNat m =>
    cases n with
    | ofNat n => exact congrArg Int.ofNat (toDigits_injective h)
    | negSucc n => exact absurd h (hsign _ _)
  | negSucc m =>
    cases n with
    | ofNat n => exact absurd h.symm (hsign _ _)
    | negSucc n =>
      have htail := toDigits_injective (List.cons.inj h).2
      rw [Nat.succ_injective htail]

/-- The mode is read off its name. -/
theorem name_injective : Function.Injective Mode.name := by
  intro mode mode' h
  cases mode <;> cases mode' <;> first | rfl | exact absurd h (by decide)

section RoundTrip

variable {fmt : F → List Char}

/-- The values of a result are plain. -/
theorem plain_csvFields (hfmt : ∀ x, ∀ c ∈ fmt x, Plain c) (mode : Mode) (run : ℕ)
    (r : RunResult F) : ∀ field ∈ csvFields fmt mode run r, ∀ c ∈ field, Plain c := by
  unfold csvFields
  simp only [List.forall_mem_cons]
  exact ⟨plain_name mode, plain_toDigits _, plain_toDigits _, plain_toDigits _, hfmt _,
    plain_showI64 _, plain_toDigits _, by simp⟩

/-- A result is read off its values. -/
theorem csvFields_injective {mode mode' : Mode} {r r' : ℕ × RunResult F}
    (h : csvFields fmt mode r.1 r.2 = csvFields fmt mode' r'.1 r'.2) :
    mode = mode' ∧ (r.1, r.2.shown fmt) = (r'.1, r'.2.shown fmt) := by
  obtain ⟨run, wall_ns, bytes, mbps, drss, minfaults⟩ := r
  obtain ⟨run', wall_ns', bytes', mbps', drss', minfaults'⟩ := r'
  simp only [csvFields, List.cons.injEq, and_true] at h
  obtain ⟨hmode, hrun, hwall, hbytes, hmbps, hdrss, hminfaults⟩ := h
  obtain rfl := name_injective hmode
  obtain rfl := toDigits_injective hrun
  obtain rfl := toDigits_injective hwall
  obtain rfl := toDigits_injective hbytes
  obtain rfl := showI64_injective hdrss
  obtain rfl := toDigits_injective hminfaults
  simp only [RunResult.shown, hmbps, and_self]

/-- A line of values is a line. -/
theorem csvLine_isLine (hfmt : ∀ x, ∀ c ∈ fmt x, Plain c) (mode : Mode) (run : ℕ)
    (r : RunResult F) : IsLine ([','].intercalate (csvFields fmt mode run r)) := by
  -- It ends in a digit.
  have hend : ∃ front, [','].intercalate (csvFields fmt mode run r) =
      front ++ Nat.toDigits 10 r.minfaults := by
    refine ⟨[','].intercalate [mode.name, Nat.toDigits 10 run, Nat.toDigits 10 r.wall_ns,
      Nat.toDigits 10 r.decompressed_bytes, fmt r.throughput_mbps, showI64 r.drss_kib, []], ?_⟩
    simp [csvFields, List.intercalate]
  constructor
  · intro hfeed
    rcases mem_intercalate hfeed with hc | ⟨field, hfield, hc⟩
    · exact absurd hc (by decide)
    · exact (plain_csvFields hfmt mode run r field hfield _ hc).2 rfl
  · obtain ⟨front, hfront⟩ := hend
    rw [hfront, List.getLast?_append_of_ne_nil _ Nat.toDigits_ne_nil]
    exact fun hc => absurd (isDigit_of_mem_decimal (List.mem_of_getLast? hc)) (by decide)

end RoundTrip

/-- The rows that are read from the CSV report are the values of the results, in order. -/
theorem parseRows_csvReport {fmt : F → List Char} (hfmt : ∀ x, ∀ c ∈ fmt x, Plain c) (mode : Mode)
    (results : List (ℕ × RunResult F)) :
    parseRows (csvReport fmt mode results) = results.map fun r => csvFields fmt mode r.1 r.2 := by
  have hlines : ∀ l ∈ csvHeader :: results.map fun r =>
      [','].intercalate (csvFields fmt mode r.1 r.2), IsLine l := by
    rw [List.forall_mem_cons, List.forall_mem_map]
    exact ⟨⟨by decide, by decide⟩, fun r _ => csvLine_isLine hfmt mode r.1 r.2⟩
  unfold parseRows csvReport
  rw [lines_unlines hlines, List.drop_one, List.tail_cons, List.filter_map, List.map_map]
  -- No line of values is empty, so none is filtered out.
  have hall : results.filter ((fun l => !l.isEmpty) ∘ fun r =>
      [','].intercalate (csvFields fmt mode r.1 r.2)) = results := by
    rw [List.filter_eq_self]
    intro r _
    simp [csvFields, List.intercalate]
  rw [hall]
  apply List.map_congr_left
  intro r _
  apply List.splitOn_intercalate
  · intro field hfield hcomma
    exact (plain_csvFields hfmt mode r.1 r.2 field hfield _ hcomma).1 rfl
  · exact List.cons_ne_nil _ _

/-- Every CSV report gives its results back, and when there are any also its mode: the rows that are
read from it are their values, in order. -/
theorem csv_round_trip (fmt : F → List Char) (hfmt : ∀ x, ∀ c ∈ fmt x, Plain c) (mode : Mode)
    (results : List (ℕ × RunResult F)) :
    parseRows (csvReport fmt mode results) = results.map (fun r => csvFields fmt mode r.1 r.2) ∧
      ∀ mode' results', csvReport fmt mode' results' = csvReport fmt mode results →
        results'.map (fun r => (r.1, r.2.shown fmt)) = results.map (fun r => (r.1, r.2.shown fmt)) ∧
          (results ≠ [] → mode' = mode) := by
  refine ⟨parseRows_csvReport hfmt mode results, fun mode' results' heq => ?_⟩
  -- Equal reports have equal rows, and a row determines its result.
  have hrows : results'.map (fun r => csvFields fmt mode' r.1 r.2) =
      results.map fun r => csvFields fmt mode r.1 r.2 := by
    rw [← parseRows_csvReport hfmt, ← parseRows_csvReport hfmt, heq]
  rw [← List.forall₂_eq_eq_eq, List.forall₂_map_left_iff, List.forall₂_map_right_iff] at hrows
  constructor
  · rw [← List.forall₂_eq_eq_eq, List.forall₂_map_left_iff, List.forall₂_map_right_iff]
    exact hrows.imp fun r' r h => (csvFields_injective h).2
  · intro hne
    cases hrows with
    | nil => exact absurd rfl hne
    | cons h _ => exact (csvFields_injective h).1

/-- A whole number with two decimals. -/
def showWhole (n : ℕ) : List Char := Nat.toDigits 10 n ++ ".00".toList

/-- It is plain. -/
theorem plain_showWhole (n : ℕ) : ∀ c ∈ showWhole n, Plain c := by
  have hall : (".00".toList.all fun c => c != ',' && c != '\n') = true := by decide
  intro c hc
  rcases List.mem_append.mp hc with hc | hc
  · exact plain_toDigits n c hc
  · simpa [Plain] using List.all_eq_true.mp hall c hc

/-- A report of one run, whose throughput is a whole number. -/
theorem csv_round_trip_one :
    parseRows (csvReport showWhole .bufreader [(1, ⟨1000, 5, 4768, -4, 0⟩)]) =
      [["bufreader".toList, "1".toList, "1000".toList, "5".toList, "4768.00".toList, "-4".toList,
        "0".toList]] :=
  (csv_round_trip showWhole plain_showWhole .bufreader [(1, ⟨1000, 5, 4768, -4, 0⟩)]).1.trans
    (by decide)

/-! ## Numbers with commas -/

/-- `with_commas`. -/
def withCommas (n : ℕ) : List Char :=
  let s := Nat.toDigits 10 n
  let out := s.reverse.zipIdx.flatMap fun (c, i) => if 0 < i ∧ i % 3 = 0 then [',', c] else [c]
  out.reverse

/-- Groups of three, the last of which may be shorter. -/
def groups {α : Type} : List α → List (List α)
  | a :: b :: c :: d :: rest => [a, b, c] :: groups (d :: rest)
  | l => [l]

/-- There is a group. -/
theorem groups_ne_nil {α : Type} (l : List α) : groups l ≠ [] := by
  unfold groups
  split <;> exact List.cons_ne_nil _ _

/-- All groups but the last have three members, and no member is lost. -/
theorem groups_spec {α : Type} {l : List α} (hl : l ≠ []) :
    ∃ front last, groups l = front ++ [last] ∧ front.flatten ++ last = l ∧
      (∀ g ∈ front, g.length = 3) ∧ 0 < last.length ∧ last.length ≤ 3 := by
  fun_induction groups l with
  | case1 a b c d rest ih =>
    obtain ⟨front, last, hgroups, hflat, hfront, hlast⟩ := ih (List.cons_ne_nil _ _)
    refine ⟨[a, b, c] :: front, last, by rw [hgroups]; rfl, ?_, ?_, hlast⟩
    · rw [List.flatten_cons, List.append_assoc, hflat]
      rfl
    · exact List.forall_mem_cons.mpr ⟨rfl, hfront⟩
  | case2 l hshort =>
    -- At most three are left, and make the last group.
    refine ⟨[], l, rfl, rfl, by simp, List.length_pos_of_ne_nil hl, ?_⟩
    match l, hshort with
    | [], _ => simp
    | [_], _ => simp
    | [_, _], _ => simp
    | [_, _, _], _ => simp
    | a :: b :: c :: d :: rest, hshort => exact absurd rfl (hshort a b c d rest)

/-- The loop of `with_commas` writes a comma between the groups. -/
theorem intercalate_groups (l : List Char) :
    (l.zipIdx.flatMap fun (c, i) => if 0 < i ∧ i % 3 = 0 then [',', c] else [c]) =
      [','].intercalate (groups l) := by
  -- Behind the first character, three places further is the same.
  have hshift : ∀ (l : List Char) (k : ℕ), 0 < k →
      ((l.zipIdx (k + 3)).flatMap fun (c, i) => if 0 < i ∧ i % 3 = 0 then [',', c] else [c]) =
        (l.zipIdx k).flatMap fun (c, i) => if 0 < i ∧ i % 3 = 0 then [',', c] else [c] := by
    intro l k hk
    induction l generalizing k with
    | nil => rfl
    | cons c l ih =>
      have hiff : (0 < k + 3 ∧ (k + 3) % 3 = 0) ↔ (0 < k ∧ k % 3 = 0) := by omega
      have hrest := ih (k + 1) k.succ_pos
      rw [Nat.add_right_comm] at hrest
      simp only [List.zipIdx_cons, List.flatMap_cons, hiff, hrest]
  fun_induction groups l with
  | case1 a b c d rest ih =>
    have hrest := hshift rest 1 one_pos
    simp only [List.zipIdx_cons, List.flatMap_cons] at ih hrest ⊢
    rw [List.intercalate_cons_of_ne_nil (groups_ne_nil _), ← ih]
    simpa using hrest
  | case2 l hshort =>
    match l, hshort with
    | [], _ => rfl
    | [_], _ => rfl
    | [_, _], _ => rfl
    | [_, _, _], _ => rfl
    | a :: b :: c :: d :: rest, hshort => exact absurd rfl (hshort a b c d rest)

/-- `with_commas` cuts the decimal digits into groups of three, the first of which may be shorter:
between the commas stand those groups, and without the commas the digits of the number. -/
theorem with_commas_groups (n : ℕ) :
    ∃ first rest, (withCommas n).splitOn ',' = first :: rest ∧
      first ++ rest.flatten = Nat.toDigits 10 n ∧ 0 < first.length ∧ first.length ≤ 3 ∧
      ∀ g ∈ rest, g.length = 3 := by
  have hne : (Nat.toDigits 10 n).reverse ≠ [] := by simp [Nat.toDigits_ne_nil]
  obtain ⟨front, last, hgroups, hflat, hfront, hpos, hle⟩ := groups_spec hne
  -- The groups are made from the back.
  have hwrites : withCommas n = [','].intercalate
      (last.reverse :: (front.map List.reverse).reverse) := by
    simp only [withCommas, intercalate_groups, hgroups, reverse_intercalate]
    simp
  have hdigits : last.reverse ++ (front.map List.reverse).reverse.flatten = Nat.toDigits 10 n := by
    rw [← List.reverse_reverse (Nat.toDigits 10 n), ← hflat]
    simp [List.reverse_flatten]
  have hplain : ∀ g ∈ last.reverse :: (front.map List.reverse).reverse, ',' ∉ g := by
    intro g hg hcomma
    have hc : ',' ∈ Nat.toDigits 10 n := by
      rw [← hdigits, ← List.flatten_cons]
      exact List.mem_flatten.mpr ⟨g, hg, hcomma⟩
    exact (plain_toDigits n _ hc).1 rfl
  refine ⟨last.reverse, (front.map List.reverse).reverse, ?_, hdigits, ?_, ?_, ?_⟩
  · rw [hwrites, List.splitOn_intercalate ',' hplain (List.cons_ne_nil _ _)]
  · rwa [List.length_reverse]
  · rwa [List.length_reverse]
  · intro g hg
    simp only [List.mem_reverse, List.mem_map] at hg
    obtain ⟨g', hg', rfl⟩ := hg
    rw [List.length_reverse, hfront g' hg']

example : withCommas 1234567 = "1,234,567".toList := by decide

/-! ## The median -/

/-- `median_u64`. -/
def medianU64 (v : List ℕ) : Outcome ℕ :=
  match (v.insertionSort (· ≤ ·))[v.length / 2]? with
  | some m => .ok m
  | none => .panic

/-- The median is the number that no more than half of the numbers are below, and less than half of
them above; there is one unless there are no numbers. So it does not depend on their order, and of
the two in the middle of an even number it is the upper one. -/
theorem median_u64_eq_iff (v : List ℕ) (m : ℕ) :
    medianU64 v = .ok m ↔
      v.countP (· < m) ≤ v.length / 2 ∧ v.countP (m < ·) + v.length / 2 < v.length := by
  rcases eq_or_ne v [] with rfl | hne
  · simp [medianU64]
  · have hmiddle : v.length / 2 < v.length :=
      Nat.div_lt_self (List.length_pos_of_ne_nil hne) one_lt_two
    rw [← Rank.insertionSort_getElem?_eq_iff v hmiddle]
    unfold medianU64
    cases (v.insertionSort (· ≤ ·))[v.length / 2]? with
    | none => simp
    | some x => simp

end MmapZstd
