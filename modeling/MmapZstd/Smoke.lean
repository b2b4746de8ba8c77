import MmapZstd.Corpus
import MmapZstd.Report

/-!
# The smoke tests

`tests/cli_smoke.rs` compresses a corpus, runs the benchmark on it once in each mode, and checks the
row that it prints. The test of the memfd mode is skipped unless four hugepages are free, and the
test of the anonymous mode is not.

So when nothing fails but the mapping, the test of the anonymous mode passes exactly when the pages
of the fixture are free and the run is fast. A fixture of at most four pages never makes the test of
the memfd mode find too few of them: it can only fail on a slow run, as the test of the third mode
does (`smoke_tests_pass_iff`).
-/

namespace MmapZstd

open Frames

variable {σ F ρ : Type}

/-- What the benchmark writes to its output with `--csv`, when it exits with code 0. -/
def Act.stdout (fmt : F → List Char) (mode : Mode) (act : Act (Exit F)) : Option (List Char) :=
  match act.outcome with
  | .ok (.reported results) => some (csvReport fmt mode results)
  | _ => none

/-- `run_bench`: it panics unless the binary succeeds. -/
def runBench (stdout : Option (List Char)) : Outcome (List (List (List Char))) :=
  match stdout with
  | some text => .ok (parseRows text)
  | none => .panic

/-- `assert_row`, for a corpus of `corpus_size` bytes; `fast` tells whether a text is a number above
100.0. -/
def assertRow (fast : List Char → Bool) (corpus_size : ℕ) (rows : List (List (List Char))) :
    Outcome Unit :=
  match rows with
  | [row] =>
    match row[3]?.bind parseU64, row[4]? with
    | some decompressed, some throughput =>
      if decompressed = corpus_size ∧ fast throughput = true then .ok () else .panic
    | _, _ => .panic
  | _ => .panic

section Tests

variable (b : Build) (z : RawDecoder σ) (k : Kernel) (mbps : ℕ → ℕ → F) (fmt : F → List Char)
  (fast : List Char → Bool) (corpus_size fuel : ℕ) (fixture : List UInt8)
  (meminfo : Option (List Char)) (env : RunEnv σ)

/-- A test of a mode: one run of the benchmark on the fixture, without a warm-up run. -/
def smokeTest (mode : Mode) : Option (Outcome Unit) :=
  (benchMain b z k mbps fuel mode 0 1 (.ok fixture.length) meminfo fun _ _ => env).map fun act => do
    let rows ← runBench (act.stdout fmt mode)
    assertRow fast corpus_size rows

/-- `smoke_hugepage_anon`. -/
def smokeHugepageAnon : Option (Outcome Unit) :=
  smokeTest b z k mbps fmt fast corpus_size fuel fixture meminfo env .hugepageAnon

/-- `smoke_bufreader`. -/
def smokeBufreader : Option (Outcome Unit) :=
  smokeTest b z k mbps fmt fast corpus_size fuel fixture meminfo env .bufreader

/-- `smoke_hugepage_memfd`. -/
def smokeHugepageMemfd : Option (Outcome Unit) :=
  if hugepagesFree meminfo < 4 then some (.ok ())
  else smokeTest b z k mbps fmt fast corpus_size fuel fixture meminfo env .hugepageMemfd

end Tests

/-- The throughput of a run is that of its bytes and its time. -/
theorem runResult_throughput {b : Build} {mbps : ℕ → ℕ → F} {env : RunEnv σ} {bytes : ℕ}
    {r : RunResult F} (h : runResult b mbps env bytes = .ok r) :
    r.throughput_mbps = mbps r.decompressed_bytes (env.nanos % 2 ^ 64) := by
  obtain ⟨drss, -, h⟩ := Outcome.bind_eq_ok.mp h
  obtain ⟨minfaults, -, h⟩ := Outcome.bind_eq_ok.mp h
  cases h
  rfl

/-- A result comes from a copy. -/
theorem measureRun_throughput {b : Build} {z : RawDecoder σ} {k : Kernel} {mbps : ℕ → ℕ → F}
    {fuel : ℕ} {mode : Mode} {env : RunEnv σ} {calls : List Syscall} {r : RunResult F}
    (h : measureRun b z k mbps fuel mode env = some ⟨calls, .ok r⟩) :
    r.throughput_mbps = mbps r.decompressed_bytes (env.nanos % 2 ^ 64) := by
  unfold measureRun at h
  cases ho : (openReader b mode env).outcome with
  | ok reader =>
    simp only [ho] at h
    obtain ⟨copied, -, hcopied⟩ := Option.map_eq_some_iff.mp h
    obtain ⟨bytes, -, hresult⟩ := Outcome.bind_eq_ok.mp (congrArg Act.outcome hcopied)
    exact runResult_throughput hresult
  | err e => simp [ho] at h
  | panic => simp [ho] at h

section Passes

variable {b : Build} {z : RawDecoder σ} {fmt : F → List Char} (fast : List Char → Bool)
  {mode : Mode} {size free : ℕ} {meminfo : Option (List Char)} {env : RunEnv σ}

/-- The check of the report of one run. -/
theorem assertRow_report (hfmt : ∀ x, ∀ c ∈ fmt x, Plain c) (mode : Mode) (r : ℕ × RunResult F)
    (hsize : r.2.decompressed_bytes = size) (hlt : size < 2 ^ 64) :
    (runBench (some (csvReport fmt mode [r])) >>= assertRow fast size) = .ok () ↔
      fast (fmt r.2.throughput_mbps) = true := by
  have hrows : parseRows (csvReport fmt mode [r]) = [csvFields fmt mode r.1 r.2] :=
    parseRows_csvReport hfmt mode [r]
  simp only [runBench, hrows, Outcome.ok_bind, assertRow, csvFields, List.getElem?_cons_succ,
    List.getElem?_cons_zero, Option.bind_some, hsize, parseU64_toDigits hlt, true_and]
  by_cases hfast : fast (fmt r.2.throughput_mbps) = true
  · simp [hfast]
  · simp [hfast]

/-- A test whose run succeeds passes when the run is fast. -/
theorem smokeTest_run (hfmt : ∀ x, ∀ c ∈ fmt x, Plain c) {k : Kernel} {mbps : ℕ → ℕ → F} {fuel : ℕ}
    {fixture : List UInt8} {calls : List Syscall} {r : RunResult F}
    (hnone : preCheck mode meminfo fixture.length = none)
    (hrun : measureRun b z k mbps fuel mode env = some ⟨calls, .ok r⟩)
    (hsize : r.decompressed_bytes = size) (hlt : size < 2 ^ 64) :
    ∃ outcome, smokeTest b z k mbps fmt fast size fuel fixture meminfo env mode = some outcome ∧
      (outcome = .ok () ↔ fast (fmt (mbps size (env.nanos % 2 ^ 64))) = true) := by
  have hmain : benchMain b z k mbps fuel mode 0 1 (.ok fixture.length) meminfo (fun _ _ => env) =
      some ⟨calls, .ok (.reported [(1, r)])⟩ := by
    simp [benchMain, hnone, runLoop, hrun]
  have hreport := assertRow_report fast hfmt mode (1, r) hsize hlt
  have hmbps := measureRun_throughput hrun
  rw [hsize] at hmbps
  rw [hmbps] at hreport
  unfold smokeTest
  rw [hmain]
  exact ⟨_, rfl, hreport⟩

/-- A test of a hugepage mode passes when the pages of its fixture are free and the run is fast. -/
theorem smokeTest_iff (b : Build) (mbps : ℕ → ℕ → F) (hmode : mode ≠ .bufreader)
    (hfmt : ∀ x, ∀ c ∈ fmt x, Plain c) {fs : List ZstdFrame} (hfs : ¬ Hidden fs)
    (hlen : (encoded fs).length ≤ isizeMax) (hpos : 0 < (encoded fs).length)
    (hsize : (decoded fs).length = size) (hlt : size < 2 ^ 64) (hfree : free < 2 ^ 64)
    (hmeminfo : ReportsFree meminfo free)
    (h : env.Serves mode (encoded fs) free fun s => DecodesEagerly z s fs) :
    ∃ bound, ∀ fuel, bound < fuel → ∃ outcome,
      smokeTest b z .file mbps fmt fast size fuel (encoded fs) meminfo env mode = some outcome ∧
        (outcome = .ok () ↔ (encoded fs).length ⌈/⌉ hugepage ≤ free ∧
          fast (fmt (mbps size (env.nanos % 2 ^ 64))) = true) := by
  have hcheck := preCheck_isSome hmode hmeminfo hfree (encoded fs).length
  by_cases hpages : (encoded fs).length ⌈/⌉ hugepage ≤ free
  · -- The check passes, and the one run decodes the fixture.
    have hnone : preCheck mode meminfo (encoded fs).length = none := by
      rw [← Option.not_isSome_iff_eq_none, hcheck]
      omega
    obtain ⟨bound, calls, hrun⟩ := measureRun_ok (b := b) mbps hmode hfs hlen hpos hpages h
    refine ⟨bound, fun fuel hfuel => ?_⟩
    obtain ⟨r, hr, hbytes⟩ := hrun fuel hfuel
    obtain ⟨outcome, houtcome, hiff⟩ :=
      smokeTest_run fast hfmt hnone hr (hbytes.trans hsize) hlt
    exact ⟨outcome, houtcome, hiff.trans (and_iff_right hpages).symm⟩
  · -- The check stops the benchmark.
    obtain ⟨lines, hlines⟩ := Option.isSome_iff_exists.mp (hcheck.mpr (Nat.lt_of_not_le hpages))
    refine ⟨0, fun fuel _ => ⟨.panic, ?_, ?_⟩⟩
    · simp [smokeTest, benchMain, hlines, Act.stdout, runBench]
    · simp [hpages]

end Passes

/-- When the smoke tests pass, on a fixture that decodes to the corpus, if all other steps of the
runs succeed and the counters of the process neither overflow nor go back. The test of the anonymous
mode passes exactly when the pages of the fixture are free and the run is fast. The test of the
memfd mode passes exactly when fewer than four pages are free, and it is skipped, or the pages of
the fixture are free and the run is fast; on a fixture of at most four pages its guard leaves no run
that finds too few of them. The test of the third mode passes exactly when the run is fast. -/
theorem smoke_tests_pass_iff (b : Build) (z : RawDecoder σ) (mbps : ℕ → ℕ → F) (fmt : F → List Char)
    (hfmt : ∀ x, ∀ c ∈ fmt x, Plain c) (fast : List Char → Bool) (r : Rng ρ) (rng : ρ) (size : ℕ)
    (hlt : size < 2 ^ 64) (f : ZstdFrame) (hcontent : f.content = (generateCorpus r rng size).2)
    (hlen : f.bytes.length ≤ isizeMax) (free : ℕ) (hfree : free < 2 ^ 64)
    (meminfo : Option (List Char)) (hmeminfo : ReportsFree meminfo free)
    (anon memfd bufreader : RunEnv σ)
    (hanon : anon.Serves .hugepageAnon f.bytes free fun s => DecodesEagerly z s [f])
    (hmemfd : memfd.Serves .hugepageMemfd f.bytes free fun s => DecodesEagerly z s [f])
    (hbufreader : bufreader.Streams size) :
    ∃ bound, ∀ fuel, bound < fuel →
      (∃ outcome, smokeHugepageAnon b z .file mbps fmt fast size fuel f.bytes meminfo anon =
          some outcome ∧ (outcome = .ok () ↔ f.bytes.length ⌈/⌉ hugepage ≤ free ∧
            fast (fmt (mbps size (anon.nanos % 2 ^ 64))) = true)) ∧
      (∃ outcome, smokeHugepageMemfd b z .file mbps fmt fast size fuel f.bytes meminfo memfd =
          some outcome ∧
        (outcome = .ok () ↔ free < 4 ∨ f.bytes.length ⌈/⌉ hugepage ≤ free ∧
          fast (fmt (mbps size (memfd.nanos % 2 ^ 64))) = true) ∧
        (f.bytes.length ≤ 4 * hugepage → (outcome = .ok () ↔ free < 4 ∨
          fast (fmt (mbps size (memfd.nanos % 2 ^ 64))) = true))) ∧
      ∃ outcome, smokeBufreader b z .file mbps fmt fast size fuel f.bytes meminfo bufreader =
          some outcome ∧
        (outcome = .ok () ↔ fast (fmt (mbps size (bufreader.nanos % 2 ^ 64))) = true) := by
  have hstream : encoded [f] = f.bytes := by simp
  have hsize : (decoded [f]).length = size := by
    rw [decoded_cons, hcontent, generateCorpus_eq]
    simp [decoded]
  have hhidden : ¬ Hidden [f] := by simp [Hidden]
  rw [← hstream] at hanon hmemfd hlen
  have hpos : 0 < (encoded [f]).length := hstream ▸ f.length_pos
  obtain ⟨bound, htest⟩ := smokeTest_iff fast b mbps (by decide) hfmt hhidden hlen hpos hsize hlt
    hfree hmeminfo hanon
  obtain ⟨bound', htest'⟩ := smokeTest_iff fast b mbps (by decide) hfmt hhidden hlen hpos hsize hlt
    hfree hmeminfo hmemfd
  obtain ⟨calls, hrun⟩ := measureRun_bufreader b z .file mbps hbufreader
  rw [hstream] at htest htest'
  refine ⟨max bound bound', fun fuel hfuel => ⟨htest fuel (by omega), ?_, ?_⟩⟩
  · have hcount : hugepagesFree meminfo = free := by
      rw [hugepagesFree_eq, hmeminfo.read hfree, Option.getD_some]
    unfold smokeHugepageMemfd
    rw [hcount]
    by_cases hguard : free < 4
    · exact ⟨.ok (), if_pos hguard, by simp [hguard], by simp [hguard]⟩
    · obtain ⟨outcome, houtcome, hiff⟩ := htest' fuel (by omega)
      rw [if_neg hguard]
      refine ⟨outcome, houtcome, hiff.trans (by simp [hguard]), fun hshort => hiff.trans ?_⟩
      -- Past the guard, four pages are free, and a short fixture needs no more.
      have hpages : f.bytes.length ⌈/⌉ hugepage ≤ free := by
        rw [ceilDiv_le_iff_le_mul (by decide)]
        calc f.bytes.length
            ≤ hugepage * 4 := by rwa [Nat.mul_comm]
          _ ≤ hugepage * free := Nat.mul_le_mul_left _ (Nat.le_of_not_lt hguard)
      simp [hpages, hguard]
  · obtain ⟨result, hresult, hbytes⟩ := hrun fuel
    have hnone : preCheck .bufreader meminfo f.bytes.length = none := rfl
    exact smokeTest_run fast hfmt hnone hresult hbytes hlt

/-- A generator that always writes `hello`, and zeros behind it. -/
def helloRng : Rng Unit where
  fill_bytes rng n := (rng, overwrite (.replicate n 0) hello)
  length_fill rng n := by simp

/-- The corpus of five bytes. -/
theorem helloRng_corpus : (generateCorpus helloRng () 5).2 = hello := by
  have hrest : 5 - 2 * blockSize = 0 := rfl
  rw [generateCorpus_eq, alternate_of_pos _ _ _ (by decide), hrest, alternate_zero]
  rfl

/-- The throughput in whole megabytes. -/
def wholeMbps (bytes wall_ns : ℕ) : ℕ := bytes * 1000000000 / wall_ns / (1024 * 1024)

/-- Whether a number with decimals is above 100. -/
def aboveHundred (text : List Char) : Bool :=
  100 < ((parseU64 (text.takeWhile (· ≠ '.'))).getD 0)

section Hello

variable (free nanos fuel : ℕ)

/-- The tests on a run of `nanos` nanoseconds, with `free` pages. -/
def helloAnonTest : Option (Outcome Unit) :=
  smokeHugepageAnon .debug reference .file wholeMbps showWhole aboveHundred 5 fuel
    (rawFrame hello).bytes (some (unlines [freeLine 1 free])) (helloRun free nanos)

def helloMemfdTest : Option (Outcome Unit) :=
  smokeHugepageMemfd .debug reference .file wholeMbps showWhole aboveHundred 5 fuel
    (rawFrame hello).bytes (some (unlines [freeLine 1 free])) (helloRun free nanos)

def helloBufreaderTest : Option (Outcome Unit) :=
  smokeBufreader .debug reference .file wholeMbps showWhole aboveHundred 5 fuel
    (rawFrame hello).bytes (some (unlines [freeLine 1 free])) (helloRun free nanos)

end Hello

/-- With four pages free, all tests pass on a fast run. With one page free, on a slow run, the test
of the anonymous mode fails, that of the memfd mode is skipped, and that of the third mode fails. -/
theorem smoke_tests_pass_hello :
    (∃ fuel, helloAnonTest 4 10 fuel = some (.ok ()) ∧ helloMemfdTest 4 10 fuel = some (.ok ()) ∧
      helloBufreaderTest 4 10 fuel = some (.ok ())) ∧
    ∃ fuel, (∃ outcome, helloAnonTest 1 1000 fuel = some outcome ∧ outcome ≠ .ok ()) ∧
      helloMemfdTest 1 1000 fuel = some (.ok ()) ∧
      ∃ outcome, helloBufreaderTest 1 1000 fuel = some outcome ∧ outcome ≠ .ok () := by
  have htests : ∀ free nanos, free < 2 ^ 64 → _ := fun free nanos hfree =>
    smoke_tests_pass_iff .debug reference wholeMbps showWhole plain_showWhole aboveHundred helloRng
      () 5 (by decide) (rawFrame hello) helloRng_corpus.symm (by decide) free hfree
      (some (unlines [freeLine 1 free])) (reportsFree_one free) (helloRun free nanos)
      (helloRun free nanos) (helloRun free nanos) (helloRun_serves _ free nanos)
      (helloRun_serves _ free nanos) (helloRun_streams free nanos)
  constructor
  · obtain ⟨bound, h⟩ := htests 4 10 (by decide)
    obtain ⟨⟨_, hanon, hiff⟩, ⟨_, hmemfd, hiff', -⟩, _, hbufreader, hiff''⟩ :=
      h (bound + 1) (Nat.lt_succ_self _)
    rw [hiff.mpr (by decide)] at hanon
    rw [hiff'.mpr (by decide)] at hmemfd
    rw [hiff''.mpr (by decide)] at hbufreader
    exact ⟨bound + 1, hanon, hmemfd, hbufreader⟩
  · obtain ⟨bound, h⟩ := htests 1 1000 (by decide)
    obtain ⟨⟨_, hanon, hiff⟩, ⟨_, hmemfd, hiff', -⟩, _, hbufreader, hiff''⟩ :=
      h (bound + 1) (Nat.lt_succ_self _)
    rw [hiff'.mpr (by decide)] at hmemfd
    exact ⟨bound + 1, ⟨_, hanon, fun hok => absurd (hiff.mp hok) (by decide)⟩, hmemfd,
      _, hbufreader, fun hok => absurd (hiff''.mp hok) (by decide)⟩

end MmapZstd
