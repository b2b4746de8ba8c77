import MmapZstd.Meminfo

/-!
# Parsing `/proc/self`

The benchmarks read counters of their own process. The resident set and its relatives are labelled
lines of `/proc/self/status`: each reader takes the first line of its own name, and no other line is
mistaken for it (`status_readers_read`). The page faults are a field of the one line of
`/proc/self/stat`, behind the name of the command, which the kernel writes in parentheses as it is,
with whatever white space and parentheses it holds.

`mmapzstd-bench` skips to the first closing parenthesis and counts fields from there, and all other
programs count from the start of the line. `statLine_readMinflt` and `statLine_readProcStat` say
which field each of them takes. Among the names without a closing parenthesis, they agree on
exactly those without white space (`minflt_readers_agree_iff`).
-/

namespace MmapZstd

/-! ## Words -/

/-- White space splits a text in two. -/
theorem splitWhitespace_append (s t : List Char) {c : Char} (hc : isWhitespace c = true) :
    splitWhitespace (s ++ c :: t) = splitWhitespace s ++ splitWhitespace t := by
  unfold splitWhitespace
  rw [List.splitOnP_append_cons s t hc, List.filter_append]

/-- No text has no words. -/
@[simp]
theorem splitWhitespace_nil : splitWhitespace [] = [] := rfl

/-- A word: a text without white space, and not empty. -/
structure IsWord (w : List Char) : Prop where
  ne_nil : w ≠ []
  all : ∀ c ∈ w, isWhitespace c = false

/-- A word has one word. -/
theorem IsWord.split {w : List Char} (h : IsWord w) : splitWhitespace w = [w] := by
  unfold splitWhitespace
  rw [List.splitOnP_eq_singleton h.all]
  simp [h.ne_nil]

/-- A text has a word unless it is white space. -/
theorem splitWhitespace_ne_nil {s : List Char} {c : Char} (hc : c ∈ s)
    (hword : isWhitespace c = false) : splitWhitespace s ≠ [] := by
  by_cases hs : ∃ x ∈ s, isWhitespace x = true
  · -- The character is on one side of the white space.
    obtain ⟨x, hx, hspace⟩ := hs
    obtain ⟨front, back, rfl⟩ := List.append_of_mem hx
    rw [splitWhitespace_append front back hspace]
    rcases List.mem_append.mp hc with hfront | hback
    · exact List.append_ne_nil_of_left_ne_nil (splitWhitespace_ne_nil hfront hword) _
    rcases List.mem_cons.mp hback with rfl | hback
    · rw [hword] at hspace
      cases hspace
    · exact List.append_ne_nil_of_right_ne_nil _ (splitWhitespace_ne_nil hback hword)
  · have hall : IsWord s := by
      refine ⟨List.ne_nil_of_mem hc, fun x hx => ?_⟩
      rw [← Bool.not_eq_true]
      exact fun hspace => hs ⟨x, hx, hspace⟩
    rw [hall.split]
    exact List.cons_ne_nil _ _
termination_by s.length
decreasing_by
  all_goals
    subst_vars
    simp only [List.length_append, List.length_cons]
    omega

/-- Words with a space behind each are those words. -/
theorem splitWhitespace_words {ws : List (List Char)} (h : ∀ w ∈ ws, IsWord w) :
    splitWhitespace (ws.flatMap (· ++ [' '])) = ws := by
  induction ws with
  | nil => rfl
  | cons w ws ih =>
    obtain ⟨hw, hws⟩ := List.forall_mem_cons.mp h
    have hcons : (w :: ws).flatMap (· ++ [' ']) = w ++ ' ' :: ws.flatMap (· ++ [' ']) := by simp
    rw [hcons, splitWhitespace_append _ _ (by decide), hw.split, ih hws, List.singleton_append]

/-- A number in decimal is a word. -/
theorem isWord_toDigits (n : ℕ) : IsWord (Nat.toDigits 10 n) where
  ne_nil := Nat.toDigits_ne_nil
  all _ hc := isWhitespace_digit (isDigit_of_mem_decimal hc)

/-! ## `/proc/self/status` -/

/-- The number on the first line that starts with `label`, or zero: its second word. -/
def labelled (label : List Char) (text : Option (List Char)) : ℕ :=
  let value := do
    let line ← (lines (text.getD [])).find? fun l => label.isPrefixOf l
    let field ← (splitWhitespace line)[1]?
    parseU64 field
  value.getD 0

/-- `read_vmrss_kib`. -/
def readVmrssKib (status : Option (List Char)) : ℕ := labelled "VmRSS:".toList status

/-- `read_vm_hwm_kb`. -/
def readVmHwmKb (status : Option (List Char)) : ℕ := labelled "VmHWM:".toList status

/-- `read_vm_pte_kb`. -/
def readVmPteKb (status : Option (List Char)) : ℕ := labelled "VmPTE:".toList status

/-- The number in a field, or zero. -/
def fieldValue (field : Option (List Char)) : ℕ := (field.bind parseU64).getD 0

/-- A line of `/proc/self/status`: a name, a colon and a tab, and what the kernel writes behind
them. -/
structure StatusLine where
  name : List Char
  value : List Char

def StatusLine.text (l : StatusLine) : List Char := l.name ++ ':' :: '\t' :: l.value

/-- The text of `/proc/self/status`. -/
def statusText (ls : List StatusLine) : List Char := unlines (ls.map StatusLine.text)

/-- The name is a word without a colon, and the value a line. -/
structure StatusLine.Written (l : StatusLine) : Prop where
  name : IsWord l.name
  colon : ':' ∉ l.name
  value : IsLine l.value

/-- The value of a memory counter: spaces, the number, and the unit. -/
def kilobytes (spaces n : ℕ) : List Char :=
  .replicate spaces ' ' ++ (Nat.toDigits 10 n ++ " kB".toList)

namespace StatusLine.Written

variable {l : StatusLine}

/-- It is a line. -/
theorem isLine (h : l.Written) : IsLine l.text := by
  obtain ⟨hfeed, hreturn⟩ := h.value
  constructor
  · simp only [text, List.mem_append, List.mem_cons, not_or]
    exact ⟨fun hc => absurd (h.name.all _ hc) (by decide), by decide, by decide, hfeed⟩
  · unfold text
    rw [List.getLast?_append_of_ne_nil _ (List.cons_ne_nil _ _), List.getLast?_cons_cons]
    cases hvalue : l.value with
    | nil => decide
    | cons c rest =>
      rw [List.getLast?_cons_cons, ← hvalue]
      exact hreturn

/-- It starts with the label of a name when that is its name. -/
theorem label_isPrefixOf (h : l.Written) {name : List Char} (hname : ':' ∉ name) :
    (name ++ [':']).isPrefixOf l.text = true ↔ l.name = name := by
  rw [List.isPrefixOf_iff_prefix]
  constructor
  · rintro ⟨rest, hrest⟩
    -- Neither name holds a colon, so the first colons are at the same place.
    have hcolons : name ++ ':' :: rest = l.name ++ ':' :: '\t' :: l.value := by
      rw [List.append_cons]
      exact hrest
    have hfront : ∀ (front back : List Char), ':' ∉ front →
        (front ++ ':' :: back).takeWhile (· ≠ ':') = front := by
      intro front back hcolon
      rw [List.takeWhile_append_of_pos, List.takeWhile_cons_of_neg (by simp), List.append_nil]
      intro c hc
      rw [decide_eq_true_iff]
      rintro rfl
      exact hcolon hc
    have htake := congrArg (List.takeWhile (· ≠ ':')) hcolons
    rw [hfront _ _ hname, hfront _ _ h.colon] at htake
    exact htake.symm
  · rintro rfl
    exact ⟨'\t' :: l.value, by simp [text]⟩

/-- Its second word is the first of its value. -/
theorem split_one (h : l.Written) :
    (splitWhitespace l.text)[1]? = (splitWhitespace l.value)[0]? := by
  have hlabel : IsWord (l.name ++ [':']) := by
    refine ⟨by simp, fun c hc => ?_⟩
    rcases List.mem_append.mp hc with hc | hc
    · exact h.name.all c hc
    · rw [List.mem_singleton.mp hc]
      decide
  have htext : l.text = (l.name ++ [':']) ++ '\t' :: l.value := by simp [text]
  rw [htext, splitWhitespace_append _ _ (by decide), hlabel.split, List.singleton_append,
    List.getElem?_cons_succ]

end StatusLine.Written

/-- The reader of a label takes the value of the first line of its name. -/
theorem labelled_statusText {ls : List StatusLine} (h : ∀ l ∈ ls, l.Written) {name : List Char}
    (hname : ':' ∉ name) :
    labelled (name ++ [':']) (some (statusText ls)) =
      match ls.find? fun l => l.name = name with
      | some l => fieldValue (splitWhitespace l.value)[0]?
      | none => 0 := by
  have hlines : lines (statusText ls) = ls.map StatusLine.text := by
    refine lines_unlines fun l hl => ?_
    obtain ⟨l, hmem, rfl⟩ := List.mem_map.mp hl
    exact (h l hmem).isLine
  have hfind : (ls.map StatusLine.text).find? (fun l => (name ++ [':']).isPrefixOf l) =
      (ls.find? fun l => l.name = name).map StatusLine.text := by
    rw [List.find?_map]
    congr 1
    refine List.find?_congr fun l hl => ?_
    rw [Bool.eq_iff_iff, decide_eq_true_iff]
    exact (h l hl).label_isPrefixOf hname
  unfold labelled
  rw [Option.getD_some, hlines, hfind]
  cases hl : ls.find? fun l => l.name = name with
  | none => rfl
  | some l =>
    have hwritten := h l (List.mem_of_find?_eq_some hl)
    rw [Option.map_some]
    simp only [Option.bind_eq_bind, Option.bind_some, hwritten.split_one, fieldValue]

/-- The number of a memory counter. -/
theorem fieldValue_kilobytes (spaces : ℕ) {n : ℕ} (hn : n < 2 ^ 64) :
    fieldValue (splitWhitespace (kilobytes spaces n))[0]? = n := by
  have hspaces : ∀ t, splitWhitespace (.replicate spaces ' ' ++ t) = splitWhitespace t := by
    intro t
    induction spaces with
    | zero => rfl
    | succ spaces ih =>
      have hspace := splitWhitespace_append [] (.replicate spaces ' ' ++ t) (c := ' ') (by decide)
      exact hspace.trans ih
  have hunit : splitWhitespace (Nat.toDigits 10 n ++ " kB".toList) =
      [Nat.toDigits 10 n, "kB".toList] := by
    have hsplit := splitWhitespace_append (Nat.toDigits 10 n) "kB".toList (c := ' ') (by decide)
    rw [(isWord_toDigits n).split] at hsplit
    exact hsplit
  unfold kilobytes
  rw [hspaces, hunit]
  simp [fieldValue, parseU64_toDigits hn]

/-- A reader of `/proc/self/status` reads the memory counter with a name. -/
structure ReadsCounter (reader : Option (List Char) → ℕ) (name : List Char)
    (ls : List StatusLine) : Prop where
  /-- The first line with the name says how many kilobytes there are. -/
  first : ∀ before spaces n after, ls = before ++ ⟨name, kilobytes spaces n⟩ :: after →
    (∀ l ∈ before, l.name ≠ name) → n < 2 ^ 64 → reader (some (statusText ls)) = n
  /-- There are none when no line has the name. -/
  missing : (∀ l ∈ ls, l.name ≠ name) → reader (some (statusText ls)) = 0

/-- The reader of a label reads the counter of its name. -/
theorem labelled_reads {ls : List StatusLine} (h : ∀ l ∈ ls, l.Written) {name : List Char}
    (hname : ':' ∉ name) : ReadsCounter (labelled (name ++ [':'])) name ls where
  first before spaces n after hls hbefore hn := by
    have hnone : before.find? (fun l => l.name = name) = none :=
      List.find?_eq_none.mpr fun l hl => by simpa using hbefore l hl
    rw [labelled_statusText h hname, hls, List.find?_append, hnone,
      List.find?_cons_of_pos (by simp)]
    exact fieldValue_kilobytes spaces hn
  missing hnone := by
    rw [labelled_statusText h hname,
      List.find?_eq_none.mpr fun l hl => by simpa using hnone l hl]

/-- Each reader of the memory counters reads the counter of its own name, in every text of
`/proc/self/status` as the kernel writes it. -/
theorem status_readers_read (ls : List StatusLine) (h : ∀ l ∈ ls, l.Written) :
    ReadsCounter readVmrssKib "VmRSS".toList ls ∧ ReadsCounter readVmHwmKb "VmHWM".toList ls ∧
      ReadsCounter readVmPteKb "VmPTE".toList ls := by
  have hreads : ∀ name, ':' ∉ name → ReadsCounter (labelled (name ++ [':'])) name ls :=
    fun name hname => labelled_reads h hname
  exact ⟨hreads "VmRSS".toList (by decide), hreads "VmHWM".toList (by decide),
    hreads "VmPTE".toList (by decide)⟩

/-- The status of a process whose command is called like a counter. -/
def mimic : List StatusLine :=
  [⟨"Name".toList, "VmRSS: 7 kB".toList⟩, ⟨"VmHWM".toList, kilobytes 4 5120⟩,
    ⟨"VmRSS".toList, kilobytes 4 4096⟩]

/-- Its name is not taken for the counter, and it has no page tables. -/
theorem status_readers_mimic : readVmrssKib (some (statusText mimic)) = 4096 ∧
    readVmHwmKb (some (statusText mimic)) = 5120 ∧ readVmPteKb (some (statusText mimic)) = 0 := by
  have hwritten : ∀ l ∈ mimic, l.Written := by
    have hall : (mimic.all fun l =>
        !l.name.isEmpty && l.name.all (fun c => !isWhitespace c) && !l.name.contains ':' &&
          !l.value.contains '\n' && l.value.getLast? != some '\r') = true := by decide
    intro l hl
    have hline := List.all_eq_true.mp hall l hl
    simp only [Bool.and_eq_true, Bool.not_eq_true', List.all_eq_true, bne_iff_ne,
      List.isEmpty_eq_false_iff, List.contains_eq_mem, decide_eq_false_iff_not] at hline
    obtain ⟨⟨⟨⟨hne, hspace⟩, hcolon⟩, hfeed⟩, hreturn⟩ := hline
    exact ⟨⟨hne, hspace⟩, hcolon, hfeed, hreturn⟩
  obtain ⟨hrss, hhwm, hpte⟩ := status_readers_read mimic hwritten
  exact ⟨hrss.first (mimic.take 2) 4 4096 [] rfl (by decide) (by decide),
    hhwm.first (mimic.take 1) 4 5120 (mimic.drop 2) rfl (by decide) (by decide),
    hpte.missing (by decide)⟩

/-! ## `/proc/self/stat` -/

/-- `read_minflt` of `src/bin/bench.rs`. -/
def readMinflt (stat : Option (List Char)) : ℕ :=
  let stat := stat.getD []
  let after_comm := match stat.dropWhile (· ≠ ')') with
    | _ :: rest => rest
    | [] => stat
  fieldValue (splitWhitespace after_comm)[7]?

/-- `read_proc_stat` of the examples, and the `minflt` of `ProcSnapshot::now`: the minor and the
major page faults. -/
def readProcStat (stat : Option (List Char)) : ℕ × ℕ :=
  let fields := splitWhitespace (stat.getD [])
  (fieldValue fields[9]?, fieldValue fields[11]?)

/-- The line of `/proc/self/stat`: the process id, the name of the command in parentheses, and the
other fields. -/
def statLine (pid : ℕ) (comm : List Char) (fields : List (List Char)) : List Char :=
  Nat.toDigits 10 pid ++ ' ' :: ('(' :: comm ++ [')']) ++ ' ' :: fields.flatMap (· ++ [' '])

/-- How many words the name of the command makes, with its parentheses. -/
def nameWords (comm : List Char) : ℕ := (splitWhitespace ('(' :: comm ++ [')'])).length

section Stat

variable {pid : ℕ} {comm : List Char} {fields : List (List Char)}

/-- The words of the line. -/
theorem splitWhitespace_statLine (hfields : ∀ f ∈ fields, IsWord f) :
    splitWhitespace (statLine pid comm fields) =
      Nat.toDigits 10 pid :: splitWhitespace ('(' :: comm ++ [')']) ++ fields := by
  unfold statLine
  rw [splitWhitespace_append _ _ (by decide), splitWhitespace_words hfields,
    splitWhitespace_append _ _ (by decide), (isWord_toDigits pid).split, List.singleton_append]

/-- The benchmark takes the eighth of the other fields, when the name of the command holds no
closing parenthesis. -/
theorem statLine_readMinflt (hcomm : ')' ∉ comm) (hfields : ∀ f ∈ fields, IsWord f) :
    readMinflt (some (statLine pid comm fields)) = fieldValue fields[7]? := by
  -- The first closing parenthesis is the one behind the name.
  have hfront : ∀ c ∈ Nat.toDigits 10 pid ++ ' ' :: '(' :: comm, decide (c ≠ ')') = true := by
    intro c hc
    rw [decide_eq_true_iff]
    rintro rfl
    simp only [List.mem_append, List.mem_cons] at hc
    rcases hc with hc | hc | hc | hc
    · exact absurd (isDigit_of_mem_decimal hc) (by decide)
    · exact absurd hc (by decide)
    · exact absurd hc (by decide)
    · exact hcomm hc
  have hline : statLine pid comm fields = (Nat.toDigits 10 pid ++ ' ' :: '(' :: comm) ++
      ')' :: ' ' :: fields.flatMap (· ++ [' ']) := by
    simp [statLine]
  have hdrop : (statLine pid comm fields).dropWhile (· ≠ ')') =
      ')' :: ' ' :: fields.flatMap (· ++ [' ']) := by
    rw [hline, List.dropWhile_append_of_pos hfront]
    rfl
  have hwords : splitWhitespace (' ' :: fields.flatMap (· ++ [' '])) = fields :=
    (splitWhitespace_append [] _ (by decide)).trans (splitWhitespace_words hfields)
  simp only [readMinflt, Option.getD_some, hdrop, hwords]

/-- The other programs take the eighth field, and the tenth, only when the name of the command is
one word; every further word of the name moves them one field to the front. -/
theorem statLine_readProcStat (hfields : ∀ f ∈ fields, IsWord f) (hname : nameWords comm ≤ 8) :
    readProcStat (some (statLine pid comm fields)) =
      (fieldValue fields[8 - nameWords comm]?, fieldValue fields[10 - nameWords comm]?) := by
  unfold nameWords at hname ⊢
  simp only [readProcStat, Option.getD_some, splitWhitespace_statLine hfields]
  rw [List.cons_append, List.getElem?_cons_succ, List.getElem?_cons_succ,
    List.getElem?_append_right (by omega), List.getElem?_append_right (by omega)]

end Stat

/-- The name of a command is one word when it holds no white space. -/
theorem nameWords_eq_one_iff (comm : List Char) :
    nameWords comm = 1 ↔ ∀ c ∈ comm, isWhitespace c = false := by
  unfold nameWords
  constructor
  · intro hone c hc
    by_contra hspace
    rw [Bool.not_eq_false] at hspace
    obtain ⟨front, back, rfl⟩ := List.append_of_mem hc
    -- The parentheses are on the two sides of the white space.
    have hopen : splitWhitespace ('(' :: front) ≠ [] :=
      splitWhitespace_ne_nil List.mem_cons_self (by decide)
    have hclose : splitWhitespace (back ++ [')']) ≠ [] :=
      splitWhitespace_ne_nil (List.mem_append_right _ List.mem_cons_self) (by decide)
    have hsplit : splitWhitespace ('(' :: (front ++ c :: back) ++ [')']) =
        splitWhitespace ('(' :: front) ++ splitWhitespace (back ++ [')']) := by
      rw [← splitWhitespace_append _ _ hspace]
      simp
    have hlen := congrArg List.length hsplit
    rw [List.length_append] at hlen
    have h1 := List.length_pos_of_ne_nil hopen
    have h2 := List.length_pos_of_ne_nil hclose
    omega
  · intro hcomm
    have hword : IsWord ('(' :: comm ++ [')']) := by
      refine ⟨by simp, fun c hc => ?_⟩
      simp only [List.mem_append, List.mem_cons, List.not_mem_nil, or_false] at hc
      rcases hc with (rfl | hc) | rfl
      · decide
      · exact hcomm c hc
      · decide
    rw [hword.split]
    rfl

/-- The two readers of the minor page faults agree on every line of a process exactly when the name
of its command holds no white space, among the names without a closing parenthesis. -/
theorem minflt_readers_agree_iff (comm : List Char) (hcomm : ')' ∉ comm) :
    (∀ pid fields, (∀ f ∈ fields, IsWord f) → readMinflt (some (statLine pid comm fields)) =
        (readProcStat (some (statLine pid comm fields))).1) ↔
      ∀ c ∈ comm, isWhitespace c = false := by
  rw [← nameWords_eq_one_iff]
  constructor
  · intro hagree
    by_contra hne
    have hpos : 0 < nameWords comm := List.length_pos_of_ne_nil
      (splitWhitespace_ne_nil (c := '(') (by simp) (by decide))
    -- Two lines that differ in the eighth field only: the benchmark reads that field, and the other
    -- programs a word before it.
    have hfields : ∀ n, ∀ f ∈ List.replicate 7 ['0'] ++ [Nat.toDigits 10 n], IsWord f := by
      intro n f hf
      rw [List.mem_append, List.mem_singleton] at hf
      rcases hf with hf | rfl
      · rw [List.eq_of_mem_replicate hf]
        exact isWord_toDigits 0
      · exact isWord_toDigits n
    have hbench : ∀ n < 2 ^ 64, readMinflt (some (statLine 1 comm
        (List.replicate 7 ['0'] ++ [Nat.toDigits 10 n]))) = n := by
      intro n hn
      rw [statLine_readMinflt hcomm (hfields n)]
      simp [fieldValue, parseU64_toDigits hn]
    have hothers : ∀ n, (readProcStat (some (statLine 1 comm
        (List.replicate 7 ['0'] ++ [Nat.toDigits 10 n])))).1 = fieldValue
        (Nat.toDigits 10 1 :: splitWhitespace ('(' :: comm ++ [')']) ++
          List.replicate 7 ['0'])[9]? := by
      intro n
      simp only [readProcStat, Option.getD_some, splitWhitespace_statLine (hfields n)]
      rw [← List.append_assoc, List.getElem?_append_left]
      unfold nameWords at hne hpos
      simp only [List.length_append, List.length_cons, List.length_replicate] at hne hpos ⊢
      omega
    have h0 := hagree 1 _ (hfields 0)
    have h1 := hagree 1 _ (hfields 1)
    rw [hbench _ (by decide), hothers] at h0 h1
    omega
  · intro hone pid fields hfields
    rw [statLine_readMinflt hcomm hfields, statLine_readProcStat hfields (by omega), hone]

/-- They agree on the lines of `mmapzstd-bench`, and not on those of `tmux: server`. -/
theorem minflt_readers_agree_bench :
    (∀ pid fields, (∀ f ∈ fields, IsWord f) →
        readMinflt (some (statLine pid "mmapzstd-bench".toList fields)) =
          (readProcStat (some (statLine pid "mmapzstd-bench".toList fields))).1) ∧
      ¬ ∀ pid fields, (∀ f ∈ fields, IsWord f) →
        readMinflt (some (statLine pid "tmux: server".toList fields)) =
          (readProcStat (some (statLine pid "tmux: server".toList fields))).1 := by
  have hword : ("mmapzstd-bench".toList.all fun c => isWhitespace c == false) = true := by decide
  refine ⟨(minflt_readers_agree_iff "mmapzstd-bench".toList (by decide)).mpr fun c hc => ?_,
    fun h => ?_⟩
  · exact eq_of_beq (List.all_eq_true.mp hword c hc)
  · have hspace := (minflt_readers_agree_iff "tmux: server".toList (by decide)).mp h ' ' (by decide)
    exact absurd hspace (by decide)

end MmapZstd
