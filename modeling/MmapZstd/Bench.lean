import MmapZstd.Open
import MmapZstd.Reference

/-!
# The pages that a file needs

`src/bin/bench.rs` checks, before it opens a file in a hugepage mode, that the kernel has as many
free hugepages as the file needs, `ceil(len / 2 MiB)`; the constructors round the length up with a
bit mask and ask the kernel for the result. `PagesAgree` says that the two counts agree: a
constructor opens the file exactly when the pages are free, it reports that it is out of memory
otherwise, and the check stops the program exactly when the constructor would fail.

They agree on every file that is not empty (`pages_agree_iff`). An empty file needs no page, but a
mapping of length zero is refused, so it passes the check and then fails to open.
-/

namespace MmapZstd

/-- `Mode`. -/
inductive Mode
  | hugepageAnon
  | hugepageMemfd
  | bufreader
  deriving DecidableEq

/-- `hugepages_free`. -/
def hugepagesFree (meminfo : Option (List Char)) : ℕ :=
  let free := do
    let line ← (lines (meminfo.getD [])).find? fun l => freeLabel.isPrefixOf l
    let field ← (splitWhitespace line)[1]?
    parseU64 field
  free.getD 0

/-- `needed_hugepages`. -/
def neededHugepages (compressed_len : ℕ) : ℕ := compressed_len ⌈/⌉ hugepage

/-- The check that `main` makes before it opens the file: the lines that it prints before it exits
with code 1, or `none` when it goes on. -/
def preCheck (mode : Mode) (meminfo : Option (List Char)) (file_size : ℕ) : Option (List String) :=
  if mode = .hugepageAnon ∨ mode = .hugepageMemfd then
    let free := hugepagesFree meminfo
    let needed := neededHugepages file_size
    if free < needed then
      some ["error: insufficient hugepages (HugePages_Free=" ++ toString free ++ ", need " ++
          toString needed ++ ").",
        "  Reserve hugepages with: sudo sysctl vm.nr_hugepages=" ++ toString needed,
        "  See README §System requirements for details."]
    else none
  else none

section Constructors

variable {σ : Type}

/-- `open_reader_hugepage_anon`. -/
def openReaderHugepageAnon (b : Build) (env : AnonEnv σ) : Act (Decoder σ) := openHugepage b env

/-- `open_reader_hugepage_memfd`. -/
def openReaderHugepageMemfd (b : Build) (env : MemfdEnv σ) : Act (Decoder σ) :=
  openHugepageMemfd b env

end Constructors

/-! ## The kernel -/

/-- The kernel has `free` hugepages: it grants a mapping of whole hugepages when they are free, and
refuses an empty one. -/
structure GrantsPages (mmap : ℕ → Option ℕ) (free : ℕ) : Prop where
  empty : mmap 0 = none
  pages : ∀ c, 0 < c → hugepage ∣ c → ((mmap c).isSome ↔ c / hugepage ≤ free)

section Serves

variable {σ : Type}

/-- The file has `len` bytes and the kernel has `free` hugepages, and all other steps of
`open_hugepage` succeed. -/
structure AnonEnv.Serves (env : AnonEnv σ) (len free : ℕ) : Prop where
  read : ∃ bytes, env.read = .ok bytes ∧ bytes.length = len
  mmap : GrantsPages env.mmap free
  zstd : ∃ s, env.zstd = .ok s

/-- The file has `len` bytes and the kernel has `free` hugepages, and all other steps of
`open_hugepage_memfd` succeed. -/
structure MemfdEnv.Serves (env : MemfdEnv σ) (len free : ℕ) : Prop where
  metadata : env.metadata = .ok len
  memfd_create : ∃ fd, env.memfd_create = some fd
  ftruncate : ∀ c, env.ftruncate c = .ok ()
  mmap : GrantsPages env.mmap free
  file : ∃ file, env.file = .ok file
  read_exact : ∃ bytes, env.read_exact len = .ok bytes ∧ bytes.length = len
  zstd : ∃ s, env.zstd = .ok s

/-- What a constructor and the check before it are to do on a file of `len` bytes, when the kernel
has `free` hugepages. -/
structure Agrees (mode : Mode) (meminfo : Option (List Char)) (len free : ℕ) (a : Act (Decoder σ)) :
    Prop where
  opens : (∃ d, a.outcome = .ok d) ↔ len ⌈/⌉ hugepage ≤ free
  fails : free < len ⌈/⌉ hugepage → ∃ e, a.outcome = .err e ∧ e.kind = .outOfMemory
  check : (preCheck mode meminfo len).isSome ↔ ¬ ∃ d, a.outcome = .ok d

end Serves

/-- On a file of `len` bytes, when the kernel has `free` hugepages and `/proc/meminfo` reports them,
the hugepage modes open exactly what they can, and the check knows. -/
structure PagesAgree (σ : Type) (b : Build) (len free : ℕ) : Prop where
  anon : ∀ meminfo, ReportsFree meminfo free → ∀ env : AnonEnv σ, env.Serves len free →
    Agrees .hugepageAnon meminfo len free (openReaderHugepageAnon b env)
  memfd : ∀ meminfo, ReportsFree meminfo free → ∀ env : MemfdEnv σ, env.Serves len free →
    Agrees .hugepageMemfd meminfo len free (openReaderHugepageMemfd b env)

/-! ## The check -/

/-- The benchmark reads the same number as the decoder, with zero for none. -/
theorem hugepagesFree_eq (meminfo : Option (List Char)) :
    hugepagesFree meminfo = (readHugepagesFree meminfo).getD 0 := by
  cases meminfo with
  | none => rfl
  | some text => rfl

/-- In a hugepage mode, the check rejects a file that needs more pages than are reported. -/
theorem preCheck_isSome {mode : Mode} (hmode : mode ≠ .bufreader) {meminfo : Option (List Char)}
    {free : ℕ} (hmeminfo : ReportsFree meminfo free) (hfree : free < 2 ^ 64) (len : ℕ) :
    (preCheck mode meminfo len).isSome ↔ free < len ⌈/⌉ hugepage := by
  have hhuge : mode = .hugepageAnon ∨ mode = .hugepageMemfd := by
    cases mode with
    | hugepageAnon => exact .inl rfl
    | hugepageMemfd => exact .inr rfl
    | bufreader => exact absurd rfl hmode
  have hcount : hugepagesFree meminfo = free := by
    rw [hugepagesFree_eq, hmeminfo.read hfree, Option.getD_some]
  by_cases hlt : free < len ⌈/⌉ hugepage
  · simp [preCheck, hhuge, hcount, neededHugepages, hlt]
  · simp [preCheck, hhuge, hcount, neededHugepages, hlt]

/-! ## The constructors -/

section Constructors

variable {σ : Type}

/-- The outcome of a constructor hinges on the kernel's answer to its mapping. -/
def Act.HingesOn (a : Act (Decoder σ)) (answer : Option ℕ) : Prop :=
  match answer with
  | some _ => ∃ d, a.outcome = .ok d
  | none => ∃ e, a.outcome = .err e ∧ e.kind = .outOfMemory

/-- When all else succeeds, `open_hugepage` hinges on the mapping of its capacity. -/
theorem AnonEnv.Serves.hingesOn {env : AnonEnv σ} {len free capacity : ℕ} {b : Build}
    (h : env.Serves len free) (hround : roundToHugepage b len = .ok capacity) :
    (openReaderHugepageAnon b env).HingesOn (env.mmap capacity) := by
  obtain ⟨bytes, hread, rfl⟩ := h.read
  obtain ⟨s, hzstd⟩ := h.zstd
  cases hmmap : env.mmap capacity with
  | none => simp [Act.HingesOn, openReaderHugepageAnon, openHugepage, hread, hround, hmmap,
      mapHugetlbFailed]
  | some ptr => simp [Act.HingesOn, openReaderHugepageAnon, openHugepage, hread, hround, hmmap,
      hzstd]

/-- When all else succeeds, `open_hugepage_memfd` hinges on the mapping of its capacity. -/
theorem MemfdEnv.Serves.hingesOn {env : MemfdEnv σ} {len free capacity : ℕ} {b : Build}
    (h : env.Serves len free) (hround : roundToHugepage b len = .ok capacity) :
    (openReaderHugepageMemfd b env).HingesOn (env.mmap capacity) := by
  have hmeta := h.metadata
  have htruncate := h.ftruncate capacity
  obtain ⟨fd, hfd⟩ := h.memfd_create
  obtain ⟨file, hfile⟩ := h.file
  obtain ⟨bytes, hexact, -⟩ := h.read_exact
  obtain ⟨s, hzstd⟩ := h.zstd
  cases hmmap : env.mmap capacity with
  | none => simp [Act.HingesOn, openReaderHugepageMemfd, openHugepageMemfd, hmeta, hround, hfd,
      htruncate, hmmap, mapHugetlbFailed]
  | some ptr => simp [Act.HingesOn, openReaderHugepageMemfd, openHugepageMemfd, hmeta, hround, hfd,
      htruncate, hmmap, hfile, hexact, hzstd]

/-- A constructor that hinges on the mapping of a whole number of pages agrees with the check. -/
theorem Act.HingesOn.agrees {a : Act (Decoder σ)} {mmap : ℕ → Option ℕ} {mode : Mode}
    {meminfo : Option (List Char)} {len free : ℕ}
    (h : a.HingesOn (mmap (Align.up hugepage len))) (hmmap : GrantsPages mmap free)
    (hmode : mode ≠ .bufreader) (hmeminfo : ReportsFree meminfo free) (hfree : free < 2 ^ 64)
    (hlen : 0 < len) : Agrees mode meminfo len free a := by
  have hpage : 0 < hugepage := by decide
  have hgrants := hmmap.pages (Align.up hugepage len)
    (lt_of_lt_of_le hlen (Align.le_up hpage len)) (Align.dvd_up _ _)
  have hcheck := preCheck_isSome hmode hmeminfo hfree len
  rw [Align.up_div hpage] at hgrants
  cases hanswer : mmap (Align.up hugepage len) with
  | none =>
    rw [hanswer] at h hgrants
    have hfew : free < len ⌈/⌉ hugepage := by simpa using hgrants
    obtain ⟨e, he, hkind⟩ := h
    have hfails : ¬ ∃ d, a.outcome = .ok d := by simp [he]
    exact ⟨iff_of_false hfails (Nat.not_le.mpr hfew), fun _ => ⟨e, he, hkind⟩,
      iff_of_true (hcheck.mpr hfew) hfails⟩
  | some ptr =>
    rw [hanswer] at h hgrants
    have henough : len ⌈/⌉ hugepage ≤ free := by simpa using hgrants
    exact ⟨iff_of_true h henough, fun hfew => absurd henough (Nat.not_le.mpr hfew),
      iff_of_false (fun hsome => absurd henough (Nat.not_le.mpr (hcheck.mp hsome)))
        (not_not_intro h)⟩

end Constructors

/-! ## Agreement -/

/-- A kernel with `free` hugepages, which maps everything at one address. -/
def grant (free c : ℕ) : Option ℕ :=
  if 0 < c ∧ c / hugepage ≤ free then some hugepage else none

/-- It grants its pages. -/
theorem grant_grantsPages (free : ℕ) : GrantsPages (grant free) free where
  empty := rfl
  pages c hc _ := by
    by_cases hle : c / hugepage ≤ free
    · simp [grant, hc, hle]
    · simp [grant, hle]

/-- The steps of `open_hugepage` on a file of `len` bytes, under that kernel. -/
def AnonEnv.served {σ : Type} (zstd : σ) (len free : ℕ) : AnonEnv σ where
  read := .ok (.replicate len 0)
  mmap := grant free
  meminfo := some (unlines [freeLine 1 free])
  zstd := .ok zstd

/-- They serve the file. -/
theorem AnonEnv.served_serves {σ : Type} (zstd : σ) (len free : ℕ) :
    (AnonEnv.served zstd len free).Serves len free where
  read := ⟨_, rfl, List.length_replicate⟩
  mmap := grant_grantsPages free
  zstd := ⟨zstd, rfl⟩

/-- A file with one line reports it. -/
theorem reportsFree_one (free : ℕ) : ReportsFree (some (unlines [freeLine 1 free])) free :=
  ⟨[], [], 1, rfl, Nat.one_pos, by simp, by simp⟩

/-- On an empty file, `open_hugepage` fails though no page is needed. -/
theorem not_pagesAgree_zero {σ : Type} (zstd : σ) (b : Build) (free : ℕ) :
    ¬ PagesAgree σ b 0 free := by
  intro h
  have hserves := AnonEnv.served_serves zstd 0 free
  obtain ⟨d, hd⟩ := (h.anon _ (reportsFree_one free) _ hserves).opens.mpr (by simp)
  -- The capacity is zero, and the kernel refuses the mapping.
  have hround : roundToHugepage b 0 = .ok 0 := roundToHugepage_eq b (by decide)
  obtain ⟨e, he, -⟩ := hserves.hingesOn hround
  cases hd.symm.trans he

/-- The page counts agree exactly on the files that are not empty. -/
theorem pages_agree_iff {σ : Type} (zstd : σ) (b : Build) {len free : ℕ} (hlen : len < 2 ^ 63)
    (hfree : free < 2 ^ 64) : PagesAgree σ b len free ↔ len ≠ 0 := by
  constructor
  · rintro h rfl
    exact not_pagesAgree_zero zstd b free h
  · intro hne
    have hpos := Nat.pos_of_ne_zero hne
    have hround : roundToHugepage b len = .ok (Align.up hugepage len) := by
      refine roundToHugepage_eq b ?_
      simp only [hugepage, usizeSize]
      omega
    exact ⟨fun meminfo hmeminfo env h =>
        (h.hingesOn hround).agrees h.mmap (by decide) hmeminfo hfree hpos,
      fun meminfo hmeminfo env h =>
        (h.hingesOn hround).agrees h.mmap (by decide) hmeminfo hfree hpos⟩

/-- One byte past a hugepage, with two pages free. -/
theorem pages_agree_past_boundary : PagesAgree RefState .debug (hugepage + 1) 2 :=
  (pages_agree_iff (.start [rawFrame hello]) .debug (by decide) (by decide)).mpr (by decide)

/-- The empty file, with one page free. -/
theorem pages_disagree_empty : ¬ PagesAgree RefState .release 0 1 := by
  intro h
  have hserves := AnonEnv.served_serves (RefState.start [rawFrame hello]) 0 1
  obtain ⟨d, hd⟩ := (h.anon _ (reportsFree_one 1) _ hserves).opens.mpr (by simp)
  cases hd

end MmapZstd
