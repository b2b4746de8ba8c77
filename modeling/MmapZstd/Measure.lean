import Mathlib.Algebra.BigOperators.Group.Multiset.Defs
import MmapZstd.Bench
import MmapZstd.Opening
import MmapZstd.Ownership
import MmapZstd.ProcStat

/-!
# Runs of the benchmark

`main` of `src/bin/bench.rs`: one check of the free hugepages, warm-up runs whose results are
discarded, and measured runs. A run opens a reader in the mode at hand, copies it to a sink, and
drops it.

A run leaves nothing held but what a constructor loses, and it loses something only when it fails,
which ends the program (`bench_holds_nothing`). So every run finds all the pages free that were free
at the check: one check is enough for all the runs. When nothing else fails and no frame before the
last is empty, each of them decodes the whole file, and the results are numbered from one
(`bench_runs`).

What a run sees of the system may depend on the system calls made before it; so the kernel can keep
a pool of hugepages that shrinks with what the program holds. `zstd::stream::Decoder`, the reader of
the third mode, is not part of the repository: what `io::copy` makes of it is a parameter. The
throughput is a floating-point number, and only carried along.
-/

namespace MmapZstd

open Frames Ledger

variable {σ F α : Type}

/-! ## One run -/

/-- `RunResult`. -/
structure RunResult (F : Type) where
  wall_ns : ℕ
  decompressed_bytes : ℕ
  throughput_mbps : F
  drss_kib : ℤ
  minfaults : ℕ

/-- What the steps of `open_reader_bufreader` answer, and `io::copy` from its reader. -/
structure BufreaderEnv where
  /-- `File::open`. -/
  file : Except IoError ℕ
  /-- `zstd::stream::Decoder::new`. -/
  decoder : Except IoError Unit
  copy : Except IoError ℕ

/-- What a run sees. -/
structure RunEnv (σ : Type) where
  status_before : Option (List Char)
  stat_before : Option (List Char)
  anon : AnonEnv σ
  memfd : MemfdEnv σ
  bufreader : BufreaderEnv
  /-- The buffers of `io::copy`. -/
  bufs : ℕ → List UInt8
  /-- `t0.elapsed().as_nanos()`. -/
  nanos : ℕ
  status_after : Option (List Char)
  stat_after : Option (List Char)

/-- `Box<dyn Read>`: a decoder of the crate, or the reader of the third mode over an open file. -/
inductive BoxedReader (σ : Type)
  | decoder (d : Decoder σ)
  | stream (fd : ℕ)

/-- `open_reader_bufreader`. The file moves into the reader. -/
def openReaderBufreader (env : BufreaderEnv) : Act ℕ := do
  let file ← Act.result env.file
  Act.call (.acquire (.fd file))
  Act.moving (.fd file) (do
    Act.result env.decoder
    pure file)

/-- The reader of a mode. -/
def openReader (b : Build) (mode : Mode) (env : RunEnv σ) : Act (BoxedReader σ) :=
  match mode with
  | .hugepageAnon => do
    let d ← openReaderHugepageAnon b env.anon
    pure (.decoder d)
  | .hugepageMemfd => do
    let d ← openReaderHugepageMemfd b env.memfd
    pure (.decoder d)
  | .bufreader => do
    let fd ← openReaderBufreader env.bufreader
    pure (.stream fd)

/-- What a reader owns. -/
def BoxedReader.owned : BoxedReader σ → List Resource
  | decoder d => d.buf.owned
  | stream fd => [.fd fd]

/-- `io::copy` from a reader: the number of bytes, whichever the sink, and the reader after it;
`none` when `fuel` is not enough. The errors of a decoder are none that `io::copy` would retry. -/
def BoxedReader.copy (z : RawDecoder σ) (k : Kernel) (fuel : ℕ) (env : RunEnv σ) :
    BoxedReader σ → Option (BoxedReader σ × Outcome ℕ)
  | decoder d => (drain z (.madvise σ k) fuel d env.bufs).map fun r =>
    (decoder r.decoder, match r.last with
      | .ok _ => .ok r.delivered.length
      | .err e => .err e
      | .panic => .panic)
  | stream fd => some (stream fd, match env.bufreader.copy with
      | .ok n => .ok n
      | .error e => .err e)

/-- `x as i64` for a `u64`. -/
def asI64 (x : ℕ) : ℤ := if x < 2 ^ 63 then x else x - 2 ^ 64

/-- `x - y` on `i64`. -/
def Build.subI64 (b : Build) (x y : ℤ) : Outcome ℤ :=
  if -2 ^ 63 ≤ x - y ∧ x - y < 2 ^ 63 then .ok (x - y)
  else match b with
    | .debug => .panic
    | .release => .ok (Int.bmod (x - y) (2 ^ 64))

/-- The result of a run that has copied `bytes` bytes. -/
def runResult (b : Build) (mbps : ℕ → ℕ → F) (env : RunEnv σ) (bytes : ℕ) :
    Outcome (RunResult F) := do
  let wall_ns := env.nanos % 2 ^ 64
  let drss_kib ← b.subI64 (asI64 (readVmrssKib env.status_after))
    (asI64 (readVmrssKib env.status_before))
  let minfaults ← b.sub (readMinflt env.stat_after) (readMinflt env.stat_before)
  pure ⟨wall_ns, bytes, mbps bytes wall_ns, drss_kib, minfaults⟩

section Run

variable (b : Build) (z : RawDecoder σ) (k : Kernel) (mbps : ℕ → ℕ → F) (fuel : ℕ)

/-- `measure_run`. The reader is dropped when the function returns, also by a `?`. -/
def measureRun (mode : Mode) (env : RunEnv σ) : Option (Act (RunResult F)) :=
  let opened := openReader b mode env
  match opened.outcome with
  | .ok reader => (reader.copy z k fuel env).map fun copied =>
    ⟨opened.calls ++ copied.1.owned.map .release, copied.2 >>= runResult b mbps env⟩
  | .err e => some ⟨opened.calls, .err e⟩
  | .panic => some ⟨opened.calls, .panic⟩

/-- A loop of `n` runs, the first of them the run `i`, when the system calls `calls` were made
before it; it ends at the first run that fails. -/
def runLoop (measure : ℕ → List Syscall → Option (Act α)) :
    ℕ → ℕ → List Syscall → Option (Act (List (ℕ × α)))
  | 0, _, _ => some ⟨[], .ok []⟩
  | n + 1, i, calls =>
    (measure i calls).bind fun run =>
      match run.outcome with
      | .ok r => (runLoop measure n (i + 1) (calls ++ run.calls)).map fun rest =>
        ⟨run.calls ++ rest.calls, do
          let results ← rest.outcome
          pure ((i + 1, r) :: results)⟩
      | .err e => some ⟨run.calls, .err e⟩
      | .panic => some ⟨run.calls, .panic⟩

/-- How `main` ends without an error: it exits after the check with code 1, or it reports its
results. -/
inductive Exit (F : Type)
  | stopped (lines : List String)
  | reported (results : List (ℕ × RunResult F))

/-- `main`, after its arguments are parsed; `envs i calls` is what the run `i` sees, warm-up runs
included, when the system calls `calls` were made before it. -/
def benchMain (mode : Mode) (warmup runs : ℕ) (metadata : Except IoError ℕ)
    (meminfo : Option (List Char)) (envs : ℕ → List Syscall → RunEnv σ) : Option (Act (Exit F)) :=
  match metadata with
  | .error e => some ⟨[], .err e⟩
  | .ok file_size =>
    match preCheck mode meminfo file_size with
    | some lines => some ⟨[], .ok (.stopped lines)⟩
    | none =>
      let measure i calls := measureRun b z k mbps fuel mode (envs i calls)
      (runLoop measure warmup 0 []).bind fun warm =>
        match warm.outcome with
        | .ok _ => (runLoop (fun i => measure (warmup + i)) runs 0 warm.calls).map fun measured =>
          ⟨warm.calls ++ measured.calls, do
            let results ← measured.outcome
            pure (.reported results)⟩
        | .err e => some ⟨warm.calls, .err e⟩
        | .panic => some ⟨warm.calls, .panic⟩

end Run

/-! ## What a run leaves held -/

/-- A constructor of the mode at hand fails between mapping its hugepages and owning them. -/
def RunEnv.Leaks (b : Build) (mode : Mode) (env : RunEnv σ) : Prop :=
  match mode with
  | .hugepageAnon => env.anon.Leaks b
  | .hugepageMemfd => env.memfd.Leaks b
  | .bufreader => False

/-- The system calls release only what they have acquired, and leave `lost` held. -/
def Leaves (calls : List Syscall) (lost : Multiset Resource) : Prop :=
  ∀ start, Sound start (ledger calls) ∧ heldFrom start (ledger calls) = lost + start

/-- A piece of code leaves nothing when it returns a value, and when no constructor leaks. -/
def Act.LeavesBut (a : Act α) (leaks : Prop) : Prop :=
  ∃ lost, Leaves a.calls lost ∧ ((∃ x, a.outcome = .ok x) ∨ ¬ leaks → lost = 0)

/-- No system call leaves nothing. -/
theorem leaves_nil : Leaves [] 0 := fun start => ⟨trivial, (zero_add start).symm⟩

/-- System calls after others leave what both leave. -/
theorem Leaves.append {calls calls' : List Syscall} {lost lost' : Multiset Resource}
    (h : Leaves calls lost) (h' : Leaves calls' lost') :
    Leaves (calls ++ calls') (lost + lost') := by
  intro start
  obtain ⟨hsound, hheld⟩ := h start
  obtain ⟨hsound', hheld'⟩ := h' (lost + start)
  rw [ledger_append, sound_append, heldFrom_append, hheld, hheld']
  exact ⟨⟨hsound, hsound'⟩, by ac_rfl⟩

/-- Code that passes an error on leaves what it left before. -/
theorem Act.LeavesBut.fail {β : Type} {a : Act α} {whole : Act β} {leaks : Prop}
    (h : a.LeavesBut leaks) (hcalls : whole.calls = a.calls) (hfails : ∀ x, whole.outcome ≠ .ok x) :
    whole.LeavesBut leaks := by
  obtain ⟨lost, hleaves, hzero⟩ := h
  refine ⟨lost, hcalls ▸ hleaves, ?_⟩
  rintro (⟨x, hx⟩ | hleaks)
  · exact absurd hx (hfails x)
  · exact hzero (.inr hleaks)

/-- Code that goes on after a value leaves what the rest leaves. -/
theorem Act.LeavesBut.andThen {β γ : Type} {first : Act α} {rest : Act β} {whole : Act γ}
    {leaks : Prop} (h : first.LeavesBut leaks) (h' : rest.LeavesBut leaks)
    (hfirst : ∃ x, first.outcome = .ok x) (hcalls : whole.calls = first.calls ++ rest.calls)
    (hrest : ∀ x, whole.outcome = .ok x → ∃ y, rest.outcome = .ok y) : whole.LeavesBut leaks := by
  obtain ⟨lost, hleaves, hzero⟩ := h
  obtain ⟨lost', hleaves', hzero'⟩ := h'
  obtain rfl := hzero (.inl hfirst)
  refine ⟨0 + lost', hcalls ▸ hleaves.append hleaves', fun hend => ?_⟩
  rw [zero_add]
  apply hzero'
  rcases hend with ⟨x, hx⟩ | hleaks
  · exact .inl (hrest x hx)
  · exact .inr hleaks

/-- The ledger of releases. -/
theorem ledger_releases (rs : List Resource) : ledger (rs.map .release) = rs.map .release := by
  unfold ledger
  rw [List.filterMap_map]
  exact congrFun List.filterMap_eq_map' _

/-- Releasing what is left takes it out. -/
theorem Leaves.release {calls : List Syscall} {lost : Multiset Resource} {rs : List Resource}
    (h : Leaves calls (rs + lost)) : Leaves (calls ++ rs.map .release) lost := by
  intro start
  obtain ⟨hsound, hheld⟩ := h start
  have hle : (rs : Multiset Resource) ≤ rs + lost + start := by
    rw [add_assoc]
    exact Multiset.le_add_right _ _
  rw [ledger_append, sound_append, heldFrom_append, ledger_releases, hheld, heldFrom_releases]
  refine ⟨⟨hsound, sound_releases _ _ hle⟩, ?_⟩
  rw [add_assoc, add_tsub_cancel_left]

/-- A run of reads keeps what the decoder owns. -/
theorem drain_owned {z : RawDecoder σ} {k : Kernel} {fuel : ℕ} {d : Decoder σ}
    {bufs : ℕ → List UInt8} {r : Drained σ}
    (h : drain z (.madvise σ k) fuel d bufs = some r) : r.decoder.buf.owned = d.buf.owned :=
  drain_invariant (P := fun _ d' => d'.buf.owned = d.buf.owned) (fun _ => True)
    (fun _ d' fuel buf hd _ => (read_owned z k d' fuel buf).trans hd) h (fun _ => trivial)
    [] rfl

section Balance

variable {b : Build} {z : RawDecoder σ} {k : Kernel} {mbps : ℕ → ℕ → F} {fuel : ℕ} {mode : Mode}
  {env : RunEnv σ}

/-- A copy keeps what the reader owns. -/
theorem BoxedReader.copy_owned {reader : BoxedReader σ} {copied : BoxedReader σ × Outcome ℕ}
    (h : reader.copy z k fuel env = some copied) : copied.1.owned = reader.owned := by
  cases reader with
  | decoder d =>
    obtain ⟨r, hr, rfl⟩ := Option.map_eq_some_iff.mp h
    exact drain_owned hr
  | stream fd =>
    cases h
    rfl

/-- What the reader that a mode opens owns. -/
def Act.readerOwned (a : Act (BoxedReader σ)) : Multiset Resource :=
  match a.outcome with
  | .ok reader => reader.owned
  | _ => 0

/-- The reader around a decoder. -/
theorem reader_leaves {a : Act (Decoder σ)} {lost : Multiset Resource} (h : a.Loses lost) :
    Leaves (a >>= fun d => (pure (.decoder d) : Act (BoxedReader σ))).calls
      ((a >>= fun d => (pure (.decoder d) : Act (BoxedReader σ))).readerOwned + lost) := by
  obtain ⟨calls, outcome⟩ := a
  cases outcome with
  | ok d =>
    have hok : Leaves calls (d.buf.owned + lost) := h
    simpa [Act.readerOwned, BoxedReader.owned] using hok
  | err e =>
    have herr : Leaves calls (0 + lost) := h
    simpa [Act.readerOwned] using herr
  | panic =>
    have hpanic : Leaves calls (0 + lost) := h
    simpa [Act.readerOwned] using hpanic

/-- A constructor that leaks returns no decoder. -/
theorem AnonEnv.Leaks.fails {env : AnonEnv σ} (h : env.Leaks b) (d : Decoder σ) :
    (openHugepage b env).outcome ≠ .ok d := by
  obtain ⟨bytes, capacity, ptr, e, hread, hround, hmmap, hzstd⟩ := h
  simp [openHugepage, hread, hround, hmmap, hzstd]

theorem MemfdEnv.Leaks.fails {env : MemfdEnv σ} (h : env.Leaks b) (d : Decoder σ) :
    (openHugepageMemfd b env).outcome ≠ .ok d := by
  obtain ⟨len, capacity, fd, ptr, hmeta, hround, hfd, htruncate, hmmap, hlate⟩ := h
  rcases hlate with ⟨e, hfile⟩ | ⟨file, bytes, e, hfile, hexact, hzstd⟩
  · simp [openHugepageMemfd, hmeta, hround, hfd, htruncate, hmmap, hfile]
  · simp [openHugepageMemfd, hmeta, hround, hfd, htruncate, hmmap, hfile, hexact, hzstd]

/-- The reader of the third mode owns its file, and a failed opening closes it. -/
theorem openReaderBufreader_leaves (env : RunEnv σ) :
    Leaves (openReader b .bufreader env).calls ((openReader b .bufreader env).readerOwned) := by
  cases hfile : env.bufreader.file with
  | error e => simpa [openReader, openReaderBufreader, hfile, Act.readerOwned] using leaves_nil
  | ok fd =>
    cases hdecoder : env.bufreader.decoder with
    | error e =>
      intro start
      simp [openReader, openReaderBufreader, hfile, hdecoder, Act.readerOwned]
    | ok =>
      intro start
      simp [openReader, openReaderBufreader, hfile, hdecoder, Act.readerOwned, BoxedReader.owned]

/-- What the opening of a reader leaves: what the reader owns, and what a constructor loses. -/
theorem openReader_leaves (b : Build) (mode : Mode) (env : RunEnv σ) :
    ∃ lost, Leaves (openReader b mode env).calls ((openReader b mode env).readerOwned + lost) ∧
      ((∃ reader, (openReader b mode env).outcome = .ok reader) ∨ ¬ env.Leaks b mode →
        lost = 0) := by
  cases mode with
  | hugepageAnon =>
    obtain ⟨lost, hloses, hzero⟩ := openHugepage_loses b env.anon
    refine ⟨lost, reader_leaves hloses, ?_⟩
    rintro (⟨reader, hreader⟩ | hleaks)
    · obtain ⟨d, hd, -⟩ := Outcome.bind_eq_ok.mp ((Act.outcome_bind _ _).symm.trans hreader)
      exact hzero.mpr fun hleaks => hleaks.fails d hd
    · exact hzero.mpr hleaks
  | hugepageMemfd =>
    obtain ⟨lost, hloses, hzero⟩ := openHugepageMemfd_loses b env.memfd
    refine ⟨lost, reader_leaves hloses, ?_⟩
    rintro (⟨reader, hreader⟩ | hleaks)
    · obtain ⟨d, hd, -⟩ := Outcome.bind_eq_ok.mp ((Act.outcome_bind _ _).symm.trans hreader)
      exact hzero.mpr fun hleaks => hleaks.fails d hd
    · exact hzero.mpr hleaks
  | bufreader => exact ⟨0, by simpa using openReaderBufreader_leaves env, fun _ => rfl⟩

/-- A run leaves nothing held, unless its constructor leaks and the run fails. -/
theorem measureRun_leaves {act : Act (RunResult F)}
    (h : measureRun b z k mbps fuel mode env = some act) : act.LeavesBut (env.Leaks b mode) := by
  obtain ⟨lost, hleaves, hzero⟩ := openReader_leaves b mode env
  have hfailed : (openReader b mode env).readerOwned = 0 →
      (openReader b mode env).LeavesBut (env.Leaks b mode) := by
    intro hnone
    rw [hnone, zero_add] at hleaves
    exact ⟨lost, hleaves, hzero⟩
  unfold measureRun at h
  cases ho : (openReader b mode env).outcome with
  | ok reader =>
    simp only [ho] at h
    obtain ⟨copied, hcopied, rfl⟩ := Option.map_eq_some_iff.mp h
    -- The reader is dropped with what it owned when it was opened.
    have howned := BoxedReader.copy_owned hcopied
    simp only [Act.readerOwned, ho, ← howned] at hleaves
    exact ⟨lost, hleaves.release, fun _ => hzero (.inl ⟨reader, ho⟩)⟩
  | err e =>
    simp only [ho, Option.some.injEq] at h
    subst h
    exact (hfailed (by rw [Act.readerOwned, ho])).fail rfl (by simp)
  | panic =>
    simp only [ho, Option.some.injEq] at h
    subst h
    exact (hfailed (by rw [Act.readerOwned, ho])).fail rfl (by simp)

/-- A loop of runs leaves nothing held, unless a constructor leaks and the loop fails. -/
theorem runLoop_leaves {measure : ℕ → List Syscall → Option (Act α)} {leaks : Prop}
    (hmeasure : ∀ i calls run, measure i calls = some run → run.LeavesBut leaks) {n i : ℕ}
    {calls : List Syscall} {act : Act (List (ℕ × α))}
    (h : runLoop measure n i calls = some act) : act.LeavesBut leaks := by
  induction n generalizing i calls act with
  | zero =>
    cases h
    exact ⟨0, leaves_nil, fun _ => rfl⟩
  | succ n ih =>
    obtain ⟨run, hrun, hnext⟩ := Option.bind_eq_some_iff.mp h
    have hleaves := hmeasure i calls run hrun
    cases ho : run.outcome with
    | ok r =>
      simp only [ho] at hnext
      obtain ⟨rest, hrest, rfl⟩ := Option.map_eq_some_iff.mp hnext
      apply hleaves.andThen (ih hrest) ⟨r, ho⟩ rfl
      intro x hx
      obtain ⟨results, hresults, -⟩ := Outcome.bind_eq_ok.mp hx
      exact ⟨results, hresults⟩
    | err e =>
      simp only [ho, Option.some.injEq] at hnext
      subst hnext
      exact hleaves.fail rfl (by simp)
    | panic =>
      simp only [ho, Option.some.injEq] at hnext
      subst hnext
      exact hleaves.fail rfl (by simp)

/-- `main` leaves nothing held, unless a constructor leaks and `main` fails. -/
theorem benchMain_leaves {warmup runs : ℕ} {metadata : Except IoError ℕ}
    {meminfo : Option (List Char)} {envs : ℕ → List Syscall → RunEnv σ} {act : Act (Exit F)}
    (h : benchMain b z k mbps fuel mode warmup runs metadata meminfo envs = some act) :
    act.LeavesBut (∃ i calls, (envs i calls).Leaks b mode) := by
  have hmeasure : ∀ j calls run, measureRun b z k mbps fuel mode (envs j calls) = some run →
      run.LeavesBut (∃ i calls, (envs i calls).Leaks b mode) := by
    intro j calls run hrun
    obtain ⟨lost, hleaves, hzero⟩ := measureRun_leaves hrun
    exact ⟨lost, hleaves, fun h => hzero (h.imp_right fun hnone hleaks => hnone ⟨_, _, hleaks⟩)⟩
  unfold benchMain at h
  cases metadata with
  | error e =>
    cases h
    exact ⟨0, leaves_nil, fun _ => rfl⟩
  | ok size =>
    cases hcheck : preCheck mode meminfo size with
    | some lines =>
      simp only [hcheck, Option.some.injEq] at h
      subst h
      exact ⟨0, leaves_nil, fun _ => rfl⟩
    | none =>
      simp only [hcheck] at h
      obtain ⟨warm, hwarm, hnext⟩ := Option.bind_eq_some_iff.mp h
      have hleaves := runLoop_leaves hmeasure hwarm
      cases ho : warm.outcome with
      | ok r =>
        simp only [ho] at hnext
        obtain ⟨measured, hmeasured, rfl⟩ := Option.map_eq_some_iff.mp hnext
        have hleaves' := runLoop_leaves (fun i => hmeasure (warmup + i)) hmeasured
        apply hleaves.andThen hleaves' ⟨r, ho⟩ rfl
        intro x hx
        obtain ⟨results, hresults, -⟩ := Outcome.bind_eq_ok.mp hx
        exact ⟨results, hresults⟩
      | err e =>
        simp only [ho, Option.some.injEq] at hnext
        subst hnext
        exact hleaves.fail rfl (by simp)
      | panic =>
        simp only [ho, Option.some.injEq] at hnext
        subst hnext
        exact hleaves.fail rfl (by simp)

end Balance

/-- The benchmark holds nothing when it ends. Whatever fails and wherever, it releases only what it
has acquired; and nothing is held when `main` ends without an error, nor when it ends with one, if
no constructor fails between mapping its hugepages and owning them. -/
theorem bench_holds_nothing (b : Build) (z : RawDecoder σ) (k : Kernel) (mbps : ℕ → ℕ → F)
    (fuel : ℕ) (mode : Mode) (warmup runs : ℕ) (metadata : Except IoError ℕ)
    (meminfo : Option (List Char)) (envs : ℕ → List Syscall → RunEnv σ) (act : Act (Exit F))
    (hact : benchMain b z k mbps fuel mode warmup runs metadata meminfo envs = some act) :
    Sound 0 (ledger act.calls) ∧
      ((∃ exit, act.outcome = .ok exit) ∨ (∀ i calls, ¬ (envs i calls).Leaks b mode) →
        held (ledger act.calls) = 0) := by
  obtain ⟨lost, hleaves, hzero⟩ := benchMain_leaves hact
  obtain ⟨hsound, hheld⟩ := hleaves 0
  refine ⟨hsound, fun h => ?_⟩
  rw [held, hheld, add_zero]
  simpa using hzero (by simpa using h)

/-! ## Runs that succeed -/

/-- The hugepages that a resource takes. -/
def Resource.pages : Resource → ℕ
  | .hugepages _ len => len / hugepage
  | .file _ _ => 0
  | .fd _ => 0

/-- The hugepages that the program holds after its system calls. -/
def pagesHeld (calls : List Syscall) : ℕ := ((held (ledger calls)).map Resource.pages).sum

/-- Nothing is held in no pages. -/
theorem pagesHeld_eq_zero {calls : List Syscall} (h : held (ledger calls) = 0) :
    pagesHeld calls = 0 := by
  rw [pagesHeld, h, Multiset.map_zero, Multiset.sum_zero]

/-- The counters of the process that a run reads neither overflow nor go back. -/
structure RunEnv.Counts (env : RunEnv σ) : Prop where
  rss : readVmrssKib env.status_before < 2 ^ 63 ∧ readVmrssKib env.status_after < 2 ^ 63
  minflt : readMinflt env.stat_before ≤ readMinflt env.stat_after

/-- A run in a hugepage mode sees the file, the kernel has `free` hugepages left for it, all other
steps succeed, and the counters of the process neither overflow nor go back. -/
structure RunEnv.Serves (mode : Mode) (env : RunEnv σ) (file : List UInt8) (free : ℕ)
    (Starts : σ → Prop) : Prop where
  anon : mode = .hugepageAnon → env.anon.Serves file.length free ∧
    (∀ bytes, env.anon.read = .ok bytes → bytes = file) ∧ ∀ s, env.anon.zstd = .ok s → Starts s
  memfd : mode = .hugepageMemfd → env.memfd.Serves file.length free ∧ env.memfd.Sees file Starts
  bufs : ∀ i, env.bufs i ≠ []
  counts : env.Counts

/-- A run in the third mode opens the file, and its reader delivers `bytes` bytes. -/
structure RunEnv.Streams (env : RunEnv σ) (bytes : ℕ) : Prop where
  file : ∃ fd, env.bufreader.file = .ok fd
  decoder : env.bufreader.decoder = .ok ()
  copy : env.bufreader.copy = .ok bytes
  counts : env.Counts

section Succeeds

variable {b : Build} {z : RawDecoder σ} {mode : Mode} {fs : List ZstdFrame} {free : ℕ}

/-- A run that has copied its bytes has a result. -/
theorem runResult_ok (b : Build) (mbps : ℕ → ℕ → F) {env : RunEnv σ} (h : env.Counts) (bytes : ℕ) :
    ∃ r, runResult b mbps env bytes = .ok r ∧ r.decompressed_bytes = bytes := by
  obtain ⟨hbefore, hafter⟩ := h.rss
  have hdrss : b.subI64 (asI64 (readVmrssKib env.status_after))
      (asI64 (readVmrssKib env.status_before)) =
        .ok (readVmrssKib env.status_after - readVmrssKib env.status_before) := by
    unfold asI64 Build.subI64
    rw [if_pos hafter, if_pos hbefore]
    apply if_pos
    omega
  have hminflt : b.sub (readMinflt env.stat_after) (readMinflt env.stat_before) =
      .ok (readMinflt env.stat_after - readMinflt env.stat_before) := if_pos h.minflt
  unfold runResult
  simp only [hdrss, hminflt, Outcome.ok_bind, Outcome.pure_eq]
  exact ⟨_, rfl, rfl⟩

/-- When enough pages are free, a run opens a decoder at the start of the file. -/
theorem openReader_ok {env : RunEnv σ} (hmode : mode ≠ .bufreader) {file : List UInt8}
    {Starts : σ → Prop} (h : env.Serves mode file free Starts) (hlen : file.length ≤ isizeMax)
    (hpos : 0 < file.length) (hfree : file.length ⌈/⌉ hugepage ≤ free) :
    ∃ d, (openReader b mode env).outcome = .ok (.decoder d) ∧ d.Opened file Starts := by
  have hround := roundToHugepage_length b hlen
  have hpage : 0 < hugepage := by decide
  -- The kernel grants the capacity.
  have hgrant : ∀ mmap, GrantsPages mmap free → ∃ ptr,
      mmap (Align.up hugepage file.length) = some ptr := by
    intro mmap hmmap
    rw [← Option.isSome_iff_exists, hmmap.pages _ (hpos.trans_le (Align.le_up hpage _))
      (Align.dvd_up _ _), Align.up_div hpage]
    exact hfree
  cases mode with
  | hugepageAnon =>
    obtain ⟨hserves, hread, hzstd⟩ := h.anon rfl
    obtain ⟨ptr, hptr⟩ := hgrant _ hserves.mmap
    have hopens := hserves.hingesOn hround
    rw [hptr] at hopens
    obtain ⟨d, hd⟩ := hopens
    refine ⟨d, ?_, openHugepage_opened hread hzstd hlen hd⟩
    unfold openReader
    rw [Act.outcome_bind, hd]
    rfl
  | hugepageMemfd =>
    obtain ⟨hserves, hsees⟩ := h.memfd rfl
    obtain ⟨ptr, hptr⟩ := hgrant _ hserves.mmap
    have hopens := hserves.hingesOn hround
    rw [hptr] at hopens
    obtain ⟨d, hd⟩ := hopens
    refine ⟨d, ?_, openHugepageMemfd_opened hsees hlen hd⟩
    unfold openReader
    rw [Act.outcome_bind, hd]
    rfl
  | bufreader => exact absurd rfl hmode

/-- A run that is served decodes the whole file, and its system calls do not depend on the bound
of its reads. -/
theorem measureRun_ok (mbps : ℕ → ℕ → F) {env : RunEnv σ} (hmode : mode ≠ .bufreader)
    (hfs : ¬ Hidden fs) (hlen : (encoded fs).length ≤ isizeMax) (hpos : 0 < (encoded fs).length)
    (hfree : (encoded fs).length ⌈/⌉ hugepage ≤ free)
    (h : env.Serves mode (encoded fs) free fun s => DecodesEagerly z s fs) :
    ∃ bound calls, ∀ fuel, bound < fuel → ∃ r,
      measureRun b z .file mbps fuel mode env = some ⟨calls, .ok r⟩ ∧
        r.decompressed_bytes = (decoded fs).length := by
  obtain ⟨d, hd, hopened⟩ := openReader_ok (b := b) hmode h hlen hpos hfree
  obtain ⟨bound, hdrain⟩ := hopened.decodes hfs h.bufs
  refine ⟨bound, (openReader b mode env).calls ++ d.buf.owned.map .release, fun fuel hfuel => ?_⟩
  obtain ⟨r, hr, hlast, hdelivered⟩ := hdrain fuel hfuel
  obtain ⟨result, hresult, hbytes⟩ := runResult_ok b mbps h.counts (decoded fs).length
  refine ⟨result, ?_, hbytes⟩
  unfold measureRun
  simp only [hd, BoxedReader.copy, hr, Option.map_some, hlast, hdelivered, Outcome.ok_bind, hresult,
    BoxedReader.owned, drain_owned hr]

/-- A run in the third mode holds its file only. -/
theorem measureRun_bufreader (b : Build) (z : RawDecoder σ) (k : Kernel) (mbps : ℕ → ℕ → F)
    {env : RunEnv σ} {bytes : ℕ} (h : env.Streams bytes) :
    ∃ calls, ∀ fuel, ∃ r, measureRun b z k mbps fuel .bufreader env = some ⟨calls, .ok r⟩ ∧
      r.decompressed_bytes = bytes := by
  obtain ⟨fd, hfile⟩ := h.file
  obtain ⟨r, hr, hbytes⟩ := runResult_ok b mbps h.counts bytes
  refine ⟨[.acquire (.fd fd), .release (.fd fd)], fun fuel => ⟨r, ?_, hbytes⟩⟩
  simp [measureRun, openReader, openReaderBufreader, hfile, h.decoder, BoxedReader.copy, h.copy, hr,
    BoxedReader.owned]

/-- A run that returns a value holds nothing more than what was held before it. -/
theorem measureRun_held {k : Kernel} {mbps : ℕ → ℕ → F} {fuel : ℕ} {env : RunEnv σ}
    {calls done : List Syscall} {r : RunResult F}
    (h : measureRun b z k mbps fuel mode env = some ⟨done, .ok r⟩)
    (hheld : held (ledger calls) = 0) : held (ledger (calls ++ done)) = 0 := by
  obtain ⟨lost, hleaves, hzero⟩ := measureRun_leaves h
  obtain rfl := hzero (.inl ⟨r, rfl⟩)
  rw [ledger_append, held_append, hheld]
  exact (hleaves 0).2.trans (add_zero 0)

/-- Runs that succeed one by one whenever nothing is held succeed in a loop. `measure` also depends
on a bound, and each run needs only that it is large enough. -/
theorem runLoop_ok {measure : ℕ → ℕ → List Syscall → Option (Act α)} {Good : α → Prop}
    (hmeasure : ∀ i calls, held (ledger calls) = 0 → ∃ bound done,
      held (ledger (calls ++ done)) = 0 ∧ ∀ fuel, bound < fuel →
        ∃ r, measure fuel i calls = some ⟨done, .ok r⟩ ∧ Good r)
    (n i : ℕ) (calls : List Syscall) (hheld : held (ledger calls) = 0) :
    ∃ bound done, held (ledger (calls ++ done)) = 0 ∧ ∀ fuel, bound < fuel →
      ∃ results, runLoop (measure fuel) n i calls = some ⟨done, .ok results⟩ ∧
        results.map Prod.fst = List.range' (i + 1) n ∧ ∀ r ∈ results, Good r.2 := by
  induction n generalizing i calls with
  | zero =>
    refine ⟨0, [], by rwa [List.append_nil], fun fuel _ => ⟨[], rfl, rfl, by simp⟩⟩
  | succ n ih =>
    obtain ⟨bound, done, hdone, hrun⟩ := hmeasure i calls hheld
    obtain ⟨bound', done', hdone', hrest⟩ := ih (i + 1) (calls ++ done) hdone
    refine ⟨max bound bound', done ++ done', by rwa [← List.append_assoc], fun fuel hfuel => ?_⟩
    obtain ⟨r, hr, hgood⟩ := hrun fuel (by omega)
    obtain ⟨results, hresults, hnumbers, hall⟩ := hrest fuel (by omega)
    refine ⟨(i + 1, r) :: results, ?_, ?_, ?_⟩
    · unfold runLoop
      simp only [hr, Option.bind_some, hresults, Option.map_some, Outcome.ok_bind, Outcome.pure_eq]
    · rw [List.map_cons, hnumbers, List.range'_succ]
    · exact List.forall_mem_cons.mpr ⟨hgood, hall⟩

/-- When the check passes, and every run that finds nothing held succeeds, `main` reports one result
for each measured run. -/
theorem benchMain_ok {k : Kernel} {mbps : ℕ → ℕ → F} {size : ℕ} {meminfo : Option (List Char)}
    {envs : ℕ → List Syscall → RunEnv σ} {Good : RunResult F → Prop}
    (hnone : preCheck mode meminfo size = none)
    (hmeasure : ∀ i calls, held (ledger calls) = 0 → ∃ bound done, ∀ fuel, bound < fuel →
      ∃ r, measureRun b z k mbps fuel mode (envs i calls) = some ⟨done, .ok r⟩ ∧ Good r)
    (warmup runs : ℕ) :
    ∃ bound calls, ∀ fuel, bound < fuel → ∃ results,
      benchMain b z k mbps fuel mode warmup runs (.ok size) meminfo envs =
          some ⟨calls, .ok (.reported results)⟩ ∧
        results.map Prod.fst = List.range' 1 runs ∧ ∀ r ∈ results, Good r.2 := by
  have hruns : ∀ shift i calls, held (ledger calls) = 0 → ∃ bound done,
      held (ledger (calls ++ done)) = 0 ∧ ∀ fuel, bound < fuel → ∃ r,
        measureRun b z k mbps fuel mode (envs (shift + i) calls) = some ⟨done, .ok r⟩ ∧
          Good r := by
    intro shift i calls hheld
    obtain ⟨bound, done, hrun⟩ := hmeasure (shift + i) calls hheld
    obtain ⟨r, hr, -⟩ := hrun (bound + 1) (Nat.lt_succ_self _)
    exact ⟨bound, done, measureRun_held hr hheld, hrun⟩
  obtain ⟨bound, done, hdone, hwarm⟩ := runLoop_ok
    (fun i calls h => by simpa only [Nat.zero_add] using hruns 0 i calls h) warmup 0 [] rfl
  obtain ⟨bound', done', -, hmeasured⟩ := runLoop_ok (hruns warmup) runs 0 done hdone
  refine ⟨max bound bound', done ++ done', fun fuel hfuel => ?_⟩
  obtain ⟨discarded, hdiscarded, -, -⟩ := hwarm fuel (by omega)
  obtain ⟨results, hresults, hnumbers, hall⟩ := hmeasured fuel (by omega)
  refine ⟨results, ?_, hnumbers, hall⟩
  unfold benchMain
  simp only [hnone, hdiscarded, Option.bind_some, hresults, Option.map_some, Outcome.ok_bind,
    Outcome.pure_eq]

end Succeeds

/-- One check is enough for all runs. In a hugepage mode, on a file that is a stream with no frame
without content before the last, with a kernel that has `free` hugepages when the program holds none
and reports them, and when all other steps of the runs succeed and the counters of the process
neither overflow nor go back: when the check passes, every run succeeds, warm-up runs included,
`main` reports one result for each measured run, numbered from one, and each has decompressed the
whole file. When the check does not pass, nothing is mapped. -/
theorem bench_runs (b : Build) (z : RawDecoder σ) (mbps : ℕ → ℕ → F) (mode : Mode)
    (hmode : mode ≠ .bufreader) (warmup runs : ℕ) (fs : List ZstdFrame)
    (hfs : ∀ f ∈ fs.dropLast, f.content ≠ []) (hlen : (encoded fs).length ≤ isizeMax)
    (hpos : encoded fs ≠ []) (free : ℕ) (hfree : free < 2 ^ 64) (meminfo : Option (List Char))
    (hmeminfo : ReportsFree meminfo free) (envs : ℕ → List Syscall → RunEnv σ)
    (hserves : ∀ i calls, (envs i calls).Serves mode (encoded fs) (free - pagesHeld calls)
      fun s => DecodesEagerly z s fs) :
    ∃ bound, ∀ fuel, bound < fuel → ∃ act, benchMain b z .file mbps fuel mode warmup runs
        (.ok (encoded fs).length) meminfo envs = some act ∧
      if (encoded fs).length ⌈/⌉ hugepage ≤ free then
        ∃ results, act.outcome = .ok (.reported results) ∧
          results.map Prod.fst = List.range' 1 runs ∧
          ∀ r ∈ results, r.2.decompressed_bytes = (decoded fs).length
      else act.calls = [] ∧ ∃ lines, act.outcome = .ok (.stopped lines) := by
  have hcheck := preCheck_isSome hmode hmeminfo hfree (encoded fs).length
  by_cases hpages : (encoded fs).length ⌈/⌉ hugepage ≤ free
  · have hnone : preCheck mode meminfo (encoded fs).length = none := by
      rw [← Option.not_isSome_iff_eq_none, hcheck]
      omega
    have hhidden : ¬ Hidden fs := fun ⟨f, hf, hempty⟩ => hfs f hf hempty
    -- Before a run nothing is held, so all pages are free.
    have hmeasure : ∀ i calls, held (ledger calls) = 0 → ∃ bound done, ∀ fuel, bound < fuel →
        ∃ r, measureRun b z .file mbps fuel mode (envs i calls) = some ⟨done, .ok r⟩ ∧
          r.decompressed_bytes = (decoded fs).length := by
      intro i calls hheld
      have hserved := hserves i calls
      rw [pagesHeld_eq_zero hheld, Nat.sub_zero] at hserved
      exact measureRun_ok mbps hmode hhidden hlen (List.length_pos_of_ne_nil hpos) hpages hserved
    obtain ⟨bound, calls, hmain⟩ := benchMain_ok hnone hmeasure warmup runs
    refine ⟨bound, fun fuel hfuel => ?_⟩
    obtain ⟨results, hreported, hnumbers, hall⟩ := hmain fuel hfuel
    refine ⟨_, hreported, ?_⟩
    rw [if_pos hpages]
    exact ⟨results, rfl, hnumbers, hall⟩
  · obtain ⟨lines, hlines⟩ := Option.isSome_iff_exists.mp (hcheck.mpr (Nat.lt_of_not_le hpages))
    refine ⟨0, fun fuel _ => ⟨⟨[], .ok (.stopped lines)⟩, ?_, ?_⟩⟩
    · unfold benchMain
      simp only [hlines]
    · rw [if_neg hpages]
      exact ⟨rfl, lines, rfl⟩

/-! ## A file with one frame -/

/-- What a run of `nanos` nanoseconds sees of a file with one frame, when the kernel has `free`
hugepages besides those that the program holds. -/
def helloRun (free nanos : ℕ) : RunEnv RefState where
  status_before := none
  stat_before := none
  anon :=
    { read := .ok (encoded [rawFrame hello])
      mmap := grant free
      meminfo := none
      zstd := .ok (.start [rawFrame hello]) }
  memfd := { helloEnv.memfd with mmap := grant free }
  bufreader := ⟨.ok 3, .ok (), .ok 5⟩
  bufs _ := [0, 0]
  nanos := nanos
  status_after := none
  stat_after := none

/-- Its counters stay at zero. -/
theorem helloRun_counts (free nanos : ℕ) : (helloRun free nanos).Counts where
  rss := by
    have hnone : readVmrssKib none < 2 ^ 63 := by decide
    exact ⟨hnone, hnone⟩
  minflt := le_rfl

/-- What it sees serves it. -/
theorem helloRun_serves (mode : Mode) (free nanos : ℕ) :
    (helloRun free nanos).Serves mode (encoded [rawFrame hello]) free
      fun s => DecodesEagerly reference s [rawFrame hello] where
  anon _ := by
    refine ⟨⟨⟨_, rfl, rfl⟩, grant_grantsPages free, ⟨_, rfl⟩⟩, ?_, helloEnv_sees.memfd.zstd⟩
    rintro bytes ⟨⟩
    rfl
  memfd _ := by
    refine ⟨⟨rfl, ⟨4, rfl⟩, fun _ => rfl, grant_grantsPages free, ⟨3, rfl⟩, ⟨_, rfl, rfl⟩,
      ⟨_, rfl⟩⟩, ⟨?_, ?_, helloEnv_sees.memfd.zstd⟩⟩
    · rintro len ⟨⟩
      rfl
    · rintro len bytes ⟨⟩
      rfl
  bufs _ := List.cons_ne_nil _ _
  counts := helloRun_counts free nanos

/-- In the third mode its reader delivers the content. -/
theorem helloRun_streams (free nanos : ℕ) : (helloRun free nanos).Streams 5 :=
  ⟨⟨3, rfl⟩, rfl, rfl, helloRun_counts free nanos⟩

/-- A warm-up run and two measured runs, with one page in the system. -/
def helloBench (fuel : ℕ) (mode : Mode) : Option (Act (Exit Unit)) :=
  benchMain .release reference .file (fun _ _ => ()) fuel mode 1 2 (.ok 14)
    (some (unlines [freeLine 1 1])) fun _ calls => helloRun (1 - pagesHeld calls) 1000

/-- They end with a report in every mode. -/
theorem helloBench_reports (mode : Mode) : ∃ fuel calls results,
    helloBench fuel mode = some ⟨calls, .ok (.reported results)⟩ := by
  have hmeasure : ∀ (_ : ℕ) calls, held (ledger calls) = 0 → ∃ bound done, ∀ fuel, bound < fuel →
      ∃ r, measureRun .release reference .file (fun _ _ => ()) fuel mode
        (helloRun (1 - pagesHeld calls) 1000) = some ⟨done, .ok r⟩ ∧ r.decompressed_bytes = 5 := by
    intro _ calls hheld
    by_cases hmode : mode = .bufreader
    · obtain ⟨done, hrun⟩ := measureRun_bufreader .release reference .file (fun _ _ => ())
        (helloRun_streams (1 - pagesHeld calls) 1000)
      exact ⟨0, done, fun fuel _ => hmode ▸ hrun fuel⟩
    · rw [pagesHeld_eq_zero hheld]
      exact measureRun_ok _ hmode (by simp [Hidden]) (by decide) (by decide) (by decide)
        (helloRun_serves mode 1 1000)
  have hnone : preCheck mode (some (unlines [freeLine 1 1])) 14 = none := by
    by_cases hmode : mode = .bufreader
    · rw [hmode]
      rfl
    · rw [← Option.not_isSome_iff_eq_none, preCheck_isSome hmode (reportsFree_one 1) (by decide)]
      decide
  obtain ⟨bound, calls, hmain⟩ := benchMain_ok hnone hmeasure 1 2
  obtain ⟨results, hreported, -, -⟩ := hmain (bound + 1) (Nat.lt_succ_self bound)
  exact ⟨bound + 1, calls, results, hreported⟩

/-- In each mode they hold nothing when they end. -/
theorem bench_holds_nothing_hello :
    (∃ fuel act, helloBench fuel .hugepageAnon = some act ∧
      Sound 0 (ledger act.calls) ∧ held (ledger act.calls) = 0) ∧
    (∃ fuel act, helloBench fuel .hugepageMemfd = some act ∧
      Sound 0 (ledger act.calls) ∧ held (ledger act.calls) = 0) ∧
    ∃ fuel act, helloBench fuel .bufreader = some act ∧
      Sound 0 (ledger act.calls) ∧ held (ledger act.calls) = 0 := by
  have hends : ∀ mode, ∃ fuel act, helloBench fuel mode = some act ∧
      Sound 0 (ledger act.calls) ∧ held (ledger act.calls) = 0 := by
    intro mode
    obtain ⟨fuel, calls, results, hreports⟩ := helloBench_reports mode
    obtain ⟨hsound, hheld⟩ := bench_holds_nothing _ _ _ _ _ _ _ _ _ _ _ _ hreports
    exact ⟨fuel, _, hreports, hsound, hheld (.inl ⟨_, rfl⟩)⟩
  exact ⟨hends _, hends _, hends _⟩

/-- In the memfd mode, both results are of the whole file. -/
theorem bench_runs_hello : ∃ fuel act results, helloBench fuel .hugepageMemfd = some act ∧
    act.outcome = .ok (.reported results) ∧ results.map Prod.fst = [1, 2] ∧
    ∀ r ∈ results, r.2.decompressed_bytes = 5 := by
  obtain ⟨bound, h⟩ := bench_runs .release reference (fun _ _ => ()) .hugepageMemfd (by decide) 1 2
    [rawFrame hello] (by simp) (by decide) (by decide) 1 (by decide) (some (unlines [freeLine 1 1]))
    (reportsFree_one 1) (fun _ calls => helloRun (1 - pagesHeld calls) 1000)
    (fun _ calls => helloRun_serves .hugepageMemfd (1 - pagesHeld calls) 1000)
  obtain ⟨act, hact, hend⟩ := h (bound + 1) (Nat.lt_succ_self bound)
  rw [if_pos (by decide)] at hend
  obtain ⟨results, hout, hnumbers, hbytes⟩ := hend
  exact ⟨bound + 1, act, results, hact, hout, hnumbers, hbytes⟩

end MmapZstd
