import Mathlib.Algebra.BigOperators.Group.Multiset.Basic
import MmapZstd.Lib.Pool
import MmapZstd.Measure

/-!
# The hugepages of a run

Decoders share the hugepages that the kernel has reserved. Here each operation of a run of the crate
finds free what the run does not hold yet, and any of its other steps may fail. `crate_refines_pool`
says that the run then behaves like a pool (`Lib/Pool.lean`) in which an operation asks for what
`Op.request` says: the pages of each live decoder, and the pages that are held in all, are those of
the pool, and they are never more than the kernel has. A request is for what the build makes of a
size when it rounds it, so a window that overflows there is covered as well.

A decoder with a window that does not overflow asks for no more pages than its window has, nor than
its file needs. So any number of them can be open at once exactly when these pages are no more than
the kernel has, whatever the files are (`windows_share_pool`).
-/

namespace MmapZstd

open Ledger Pool

variable {σ : Type}

/-! ## What is asked for -/

/-- What becomes of the pages of `open_hugepage`. -/
def AnonEnv.fate (env : AnonEnv σ) : Fate :=
  match env.zstd with
  | .ok _ => .kept
  | .error _ => .lost

/-- A request for a capacity. Nothing is asked for when rounding to it panics. -/
def askFor (capacity : Outcome ℕ) (ask : ℕ → Request) : Request :=
  match capacity with
  | .ok capacity => ask capacity
  | .err _ => .keep
  | .panic => .keep

@[simp]
theorem askFor_ok (capacity : ℕ) (ask : ℕ → Request) : askFor (.ok capacity) ask = ask capacity :=
  rfl

@[simp]
theorem askFor_err (e : IoError) (ask : ℕ → Request) : askFor (.err e) ask = .keep := rfl

@[simp]
theorem askFor_panic (ask : ℕ → Request) : askFor .panic ask = .keep := rfl

/-- What `open_hugepage` asks for. -/
def AnonEnv.request (b : Build) (env : AnonEnv σ) : Request :=
  match env.read with
  | .ok bytes =>
    askFor (roundToHugepage b bytes.length) fun capacity =>
      .take (capacity / hugepage) env.fate
  | .error _ => .keep

/-- What becomes of the pages of `open_hugepage_memfd`, for a file of `len` bytes. -/
def MemfdEnv.fate (env : MemfdEnv σ) (len : ℕ) : Fate :=
  match env.file, env.read_exact len, env.zstd with
  | .error _, _, _ => .lost
  | .ok _, .error _, _ => .returned
  | .ok _, .ok _, .error _ => .lost
  | .ok _, .ok _, .ok _ => .kept

/-- What `open_hugepage_memfd` asks for. -/
def MemfdEnv.request (b : Build) (env : MemfdEnv σ) : Request :=
  match env.metadata with
  | .ok len =>
    askFor (roundToHugepage b len) fun capacity =>
      match env.memfd_create, env.ftruncate capacity with
      | some _, .ok () => .take (capacity / hugepage) (env.fate len)
      | some _, .error _ => .keep
      | none, _ => .keep
  | .error _ => .keep

/-- What becomes of the scratch of `open_hugepage_streaming`. -/
def StreamingEnv.fate (env : StreamingEnv σ) : Fate :=
  match env.file, env.map, env.advise, env.zstd with
  | .ok _, .ok _, .ok (), .ok _ => .kept
  | _, _, _, _ => .returned

/-- What `open_hugepage_streaming` asks for. -/
def StreamingEnv.request (b : Build) (window : ℕ) (env : StreamingEnv σ) : Request :=
  if window < hugepage then .keep
  else
    askFor (roundToHugepage b window) fun capacity =>
      match env.metadata with
      | .ok size =>
        if size ≤ capacity then env.memfd.request b else .take (capacity / hugepage) env.fate
      | .error _ => .keep

/-- What an operation asks for. -/
def Op.request (b : Build) : Op σ → Request
  | .openHugepage env => env.request b
  | .openHugepageMemfd env => env.request b
  | .openHugepageStreaming window env => env.request b window
  | .read _ _ _ => .keep
  | .drop i => .give i

/-! ## What is granted -/

/-- The kernel has `free` hugepages for an operation. All other steps of the operation may answer
anything. -/
def Op.DrawsOn (free : ℕ) : Op σ → Prop
  | .openHugepage env => GrantsPages env.mmap free
  | .openHugepageMemfd env => GrantsPages env.mmap free
  | .openHugepageStreaming _ env => GrantsPages env.mmap free ∧ GrantsPages env.memfd.mmap free
  | .read _ _ _ => True
  | .drop _ => True

/-- The hugepages of resources. -/
def pagesOf (rs : Multiset Resource) : ℕ := (rs.map Resource.pages).sum

@[simp]
theorem pagesOf_zero : pagesOf 0 = 0 := rfl

@[simp]
theorem pagesOf_add (rs rs' : Multiset Resource) :
    pagesOf (rs + rs') = pagesOf rs + pagesOf rs' := by
  unfold pagesOf
  rw [Multiset.map_add, Multiset.sum_add]

/-- The hugepages of a decoder. -/
def Decoder.pages (d : Decoder σ) : ℕ := pagesOf d.buf.owned

/-- The hugepages of the decoder that a constructor returns, as a list of at most one. -/
def Act.live (a : Act (Decoder σ)) : List ℕ :=
  match a.outcome with
  | .ok d => [d.pages]
  | _ => []

/-- A constructor does what a request does to a pool in which `free` units are free. -/
def Act.Meets (a : Act (Decoder σ)) (free : ℕ) : Request → Prop
  | .keep => a.live = [] ∧ pagesOf a.lost = 0
  | .take n fate =>
    if 0 < n ∧ n ≤ free then a.live = fate.live n ∧ pagesOf a.lost = fate.gone n
    else a.live = [] ∧ pagesOf a.lost = 0
  | .give _ => False

/-- The kernel answers a mapping of whole hugepages as a pool answers their number. -/
theorem GrantsPages.isSome_iff {mmap : ℕ → Option ℕ} {free : ℕ} (h : GrantsPages mmap free)
    {capacity : ℕ} (hdvd : hugepage ∣ capacity) :
    (mmap capacity).isSome ↔ 0 < capacity / hugepage ∧ capacity / hugepage ≤ free := by
  have hpage : 0 < hugepage := by decide
  rcases capacity.eq_zero_or_pos with rfl | hpos
  · simp [h.empty]
  · rw [h.pages _ hpos hdvd]
    exact (and_iff_right (Nat.div_pos (Nat.le_of_dvd hpos hdvd) hpage)).symm

/-! ## The constructors -/

/-- `open_hugepage` does what its request does. -/
theorem openHugepage_meets (b : Build) {env : AnonEnv σ} {free : ℕ}
    (hmmap : GrantsPages env.mmap free) : (openHugepage b env).Meets free (env.request b) := by
  cases hread : env.read with
  | error e =>
    simp [AnonEnv.request, hread, openHugepage, Act.Meets, Act.live, Act.lost, Act.owned, held]
  | ok bytes =>
    cases hround : roundToHugepage b bytes.length with
    | ok capacity =>
      simp only [AnonEnv.request, askFor_ok, hread, hround, Act.Meets,
        ← hmmap.isSome_iff (roundToHugepage_dvd hround)]
      -- The mapping is made exactly when its pages are free; after it, only zstd can fail.
      cases hanswer : env.mmap capacity with
      | none =>
        simp [openHugepage, hread, hround, hanswer, Act.live, Act.lost, Act.owned, held]
      | some ptr =>
        cases hzstd : env.zstd with
        | error e =>
          simp [openHugepage, hread, hround, hanswer, hzstd, Act.live, Act.lost, Act.owned, held,
            AnonEnv.fate, Fate.live, Fate.gone, pagesOf, Resource.pages]
        | ok s =>
          simp [openHugepage, hread, hround, hanswer, hzstd, Act.live, Act.lost, Act.owned, held,
            AnonEnv.fate, Fate.live, Fate.gone, pagesOf, Resource.pages, Decoder.pages,
            Decoder.new, DecoderBuf.owned, HugepageBuf.loaded]
    | err e =>
      simp [AnonEnv.request, hread, hround, openHugepage, Act.Meets, Act.live, Act.lost, Act.owned,
        held]
    | panic =>
      simp [AnonEnv.request, hread, hround, openHugepage, Act.Meets, Act.live, Act.lost, Act.owned,
        held]

/-- `open_hugepage_memfd` does what its request does. -/
theorem openHugepageMemfd_meets (b : Build) {env : MemfdEnv σ} {free : ℕ}
    (hmmap : GrantsPages env.mmap free) :
    (openHugepageMemfd b env).Meets free (env.request b) := by
  cases hmeta : env.metadata with
  | error e =>
    simp [MemfdEnv.request, hmeta, openHugepageMemfd, Act.Meets, Act.live, Act.lost, Act.owned,
      held]
  | ok len =>
    cases hround : roundToHugepage b len with
    | err e =>
      simp [MemfdEnv.request, hmeta, hround, openHugepageMemfd, Act.Meets, Act.live, Act.lost,
        Act.owned, held]
    | panic =>
      simp [MemfdEnv.request, hmeta, hround, openHugepageMemfd, Act.Meets, Act.live, Act.lost,
        Act.owned, held]
    | ok capacity =>
      cases hfd : env.memfd_create with
      | none =>
        simp [MemfdEnv.request, hmeta, hround, hfd, openHugepageMemfd, Act.Meets, Act.live,
          Act.lost, Act.owned, held]
      | some fd =>
        cases htruncate : env.ftruncate capacity with
        | error e =>
          simp [MemfdEnv.request, hmeta, hround, hfd, htruncate, openHugepageMemfd, Act.Meets,
            Act.live, Act.lost, Act.owned, held]
        | ok =>
          simp only [MemfdEnv.request, askFor_ok, hmeta, hround, hfd, htruncate, Act.Meets,
            ← hmmap.isSome_iff (roundToHugepage_dvd hround)]
          cases hanswer : env.mmap capacity with
          | none =>
            simp [openHugepageMemfd, hmeta, hround, hfd, htruncate, hanswer, Act.live, Act.lost,
              Act.owned, held]
          | some ptr =>
            -- The mapping is made, and its fate is that of the steps after it.
            cases hfile : env.file with
            | error e =>
              simp [openHugepageMemfd, hmeta, hround, hfd, htruncate, hanswer, hfile, Act.live,
                Act.lost, Act.owned, held, Multiset.erase_cons_tail, MemfdEnv.fate, Fate.live,
                Fate.gone, pagesOf, Resource.pages]
            | ok file =>
              cases hexact : env.read_exact len with
              | error e =>
                simp [openHugepageMemfd, hmeta, hround, hfd, htruncate, hanswer, hfile, hexact,
                  Act.live, Act.lost, Act.owned, held, Multiset.erase_cons_tail, MemfdEnv.fate,
                  Fate.live, Fate.gone]
              | ok bytes =>
                cases hzstd : env.zstd with
                | error e =>
                  simp [openHugepageMemfd, hmeta, hround, hfd, htruncate, hanswer, hfile, hexact,
                    hzstd, Act.live, Act.lost, Act.owned, held, Multiset.erase_cons_tail,
                    MemfdEnv.fate, Fate.live, Fate.gone, pagesOf, Resource.pages]
                | ok s =>
                  simp [openHugepageMemfd, hmeta, hround, hfd, htruncate, hanswer, hfile, hexact,
                    hzstd, Act.live, Act.lost, Act.owned, held, Multiset.erase_cons_tail,
                    MemfdEnv.fate, Fate.live, Fate.gone, pagesOf, Resource.pages,
                    Decoder.pages, Decoder.new, DecoderBuf.owned, HugepageBuf.loaded]

/-- The sliding branch of `open_hugepage_streaming` gives its pages back, whichever step fails. -/
theorem openHugepageStreaming_slides_meets {b : Build} {env : StreamingEnv σ}
    {window size capacity free : ℕ} (hmmap : GrantsPages env.mmap free)
    (hwindow : ¬ window < hugepage) (hround : roundToHugepage b window = .ok capacity)
    (hmeta : env.metadata = .ok size) (hcover : ¬ size ≤ capacity) :
    (openHugepageStreaming b window env).Meets free (.take (capacity / hugepage) env.fate) := by
  simp only [Act.Meets, ← hmmap.isSome_iff (roundToHugepage_dvd hround)]
  cases hanswer : env.mmap capacity with
  | none =>
    simp [openHugepageStreaming, hwindow, hround, hmeta, hcover, hanswer, Act.live, Act.lost,
      Act.owned, held]
  | some ptr =>
    -- Whichever of the later steps fails, the scratch is dropped.
    cases hfile : env.file with
    | error e =>
      simp [openHugepageStreaming, hwindow, hround, hmeta, hcover, hanswer, hfile, Act.live,
        Act.lost, Act.owned, held, StreamingEnv.fate, Fate.live, Fate.gone]
    | ok file =>
      cases hmap : env.map with
      | error e =>
        simp [openHugepageStreaming, hwindow, hround, hmeta, hcover, hanswer, hfile, hmap, Act.live,
          Act.lost, Act.owned, held, StreamingEnv.fate, Fate.live, Fate.gone]
      | ok src =>
        cases hadvise : env.advise with
        | error e =>
          simp [openHugepageStreaming, hwindow, hround, hmeta, hcover, hanswer, hfile, hmap,
            hadvise, Act.live, Act.lost, Act.owned, held, StreamingEnv.fate, Fate.live, Fate.gone]
        | ok =>
          cases hzstd : env.zstd with
          | error e =>
            simp [openHugepageStreaming, hwindow, hround, hmeta, hcover, hanswer, hfile, hmap,
              hadvise, hzstd, Act.live, Act.lost, Act.owned, held, StreamingEnv.fate, Fate.live,
              Fate.gone]
          | ok s =>
            simp [openHugepageStreaming, hwindow, hround, hmeta, hcover, hanswer, hfile, hmap,
              hadvise, hzstd, Act.live, Act.lost, Act.owned, held, Multiset.erase_cons_tail,
              StreamingEnv.fate, Fate.live, Fate.gone, pagesOf, Resource.pages, Decoder.pages,
              Decoder.new, DecoderBuf.owned, StreamingState.new, HugepageBuf.scratch,
              ← Multiset.cons_coe]

/-- `open_hugepage_streaming` does what its request does. -/
theorem openHugepageStreaming_meets (b : Build) (window : ℕ) {env : StreamingEnv σ} {free : ℕ}
    (hmmap : GrantsPages env.mmap free) (hmemfd : GrantsPages env.memfd.mmap free) :
    (openHugepageStreaming b window env).Meets free (env.request b window) := by
  unfold StreamingEnv.request
  by_cases hwindow : window < hugepage
  · rw [if_pos hwindow]
    simp [openHugepageStreaming, hwindow, Act.Meets, Act.live, Act.lost, Act.owned, held]
  · rw [if_neg hwindow]
    cases hround : roundToHugepage b window with
    | err e =>
      simp [openHugepageStreaming, hwindow, hround, Act.Meets, Act.live, Act.lost, Act.owned, held]
    | panic =>
      simp [openHugepageStreaming, hwindow, hround, Act.Meets, Act.live, Act.lost, Act.owned, held]
    | ok capacity =>
      cases hmeta : env.metadata with
      | error e =>
        simp [openHugepageStreaming, hwindow, hround, hmeta, Act.Meets, Act.live, Act.lost,
          Act.owned, held]
      | ok size =>
        simp only [askFor_ok]
        by_cases hcover : size ≤ capacity
        · -- The scratch would hold the file: the call is one of `open_hugepage_memfd`.
          have hdelegates :=
            openHugepageStreaming_delegates (Nat.not_lt.mp hwindow) hround hmeta hcover
          rw [if_pos hcover, hdelegates]
          exact openHugepageMemfd_meets b hmemfd
        · rw [if_neg hcover]
          exact openHugepageStreaming_slides_meets hmmap hwindow hround hmeta hcover

/-! ## Runs -/

/-- The world holds what the pool says: the pages of its live decoders, and those that are lost. -/
def World.Accounts (w : World σ) (p : Pool) : Prop :=
  w.live.map Decoder.pages = p.live ∧ ∃ rest, w.held = w.owned + rest ∧ pagesOf rest = p.lost

/-- The pages of what the live decoders own. -/
theorem World.pagesOf_owned (w : World σ) : pagesOf w.owned = (w.live.map Decoder.pages).sum := by
  unfold World.owned
  induction w.live with
  | nil => rfl
  | cons d live ih =>
    rw [List.map_cons, List.map_cons, List.sum_cons, List.sum_cons, pagesOf_add, ih]
    rfl

/-- The pages that are held are those that the pool has given out. -/
theorem World.Accounts.pagesHeld_eq {w : World σ} {p : Pool} (h : w.Accounts p) :
    pagesHeld w.calls = p.used := by
  obtain ⟨hlive, rest, hheld, hlost⟩ := h
  calc pagesHeld w.calls = pagesOf w.held := rfl
    _ = (w.live.map Decoder.pages).sum + pagesOf rest := by
      rw [hheld, pagesOf_add, World.pagesOf_owned]
    _ = p.used := by rw [hlive, hlost]; rfl

/-- A constructor that does what a request does keeps the accounts. -/
theorem World.Accounts.opened {w : World σ} {p : Pool} {a : Act (Decoder σ)} {total : ℕ}
    {r : Request} (h : w.Accounts p) (hmeets : a.Meets (total - p.used) r)
    (hbalance : ∀ rest, w.held = w.owned + rest →
      (w.opened a).held = (w.opened a).owned + (rest + a.lost)) :
    (w.opened a).Accounts (Pool.step total p r) := by
  obtain ⟨hlive, rest, hheld, hlost⟩ := h
  have hlive' : (w.opened a).live.map Decoder.pages = p.live ++ a.live := by
    unfold World.opened Act.live
    cases a.outcome with
    | ok d => simp [hlive]
    | err e => simp [hlive]
    | panic => simp [hlive]
  -- So it is enough that the pool changes by what the constructor keeps and loses.
  suffices hstep : Pool.step total p r = ⟨p.live ++ a.live, p.lost + pagesOf a.lost⟩ by
    rw [hstep]
    exact ⟨hlive', rest + a.lost, hbalance rest hheld, by rw [pagesOf_add, hlost]⟩
  cases r with
  | keep =>
    obtain ⟨hnone, hzero⟩ := hmeets
    rw [hnone, hzero, List.append_nil, add_zero]
    rfl
  | take n fate =>
    by_cases hfree : 0 < n ∧ n ≤ total - p.used
    · obtain ⟨hkept, hgone⟩ := (if_pos hfree).mp hmeets
      rw [step_take hfree, hkept, hgone, granted]
    · obtain ⟨hnone, hzero⟩ := (if_neg hfree).mp hmeets
      rw [step_refuse hfree, hnone, hzero, List.append_nil, add_zero]
  | give i => exact hmeets.elim

/-- A read keeps the pages of each decoder. -/
theorem World.read_pages (b : Build) (z : RawDecoder σ) (k : Kernel) (w : World σ) (i fuel : ℕ)
    (buf : List UInt8) :
    (w.step b z k (.read i fuel buf)).live.map Decoder.pages = w.live.map Decoder.pages := by
  cases hi : w.live[i]? with
  | none => simp only [World.step, hi]
  | some d =>
    have hpages : (d.read z (.madvise σ k) fuel buf).state.pages = d.pages := by
      unfold Decoder.pages
      rw [read_owned]
    obtain ⟨hlt, rfl⟩ := List.getElem?_eq_some_iff.mp hi
    simp only [World.step, hi, List.map_set, hpages]
    rw [← List.getElem_map Decoder.pages (h := by rwa [List.length_map]), List.set_getElem_self]

/-- A drop takes out those of its decoder. -/
theorem World.drop_pages (b : Build) (z : RawDecoder σ) (k : Kernel) (w : World σ) (i : ℕ) :
    (w.step b z k (.drop i)).live.map Decoder.pages = (w.live.map Decoder.pages).eraseIdx i := by
  cases hi : w.live[i]? with
  | none =>
    have hle : (w.live.map Decoder.pages).length ≤ i := by
      rw [List.length_map]
      exact List.getElem?_eq_none_iff.mp hi
    simp only [World.step, hi, List.eraseIdx_of_length_le hle]
  | some d => simp only [World.step, hi, List.eraseIdx_map]

/-- An operation keeps the accounts. -/
theorem World.step_accounts (b : Build) (z : RawDecoder σ) (k : Kernel) (total : ℕ) (w : World σ)
    (p : Pool) (op : Op σ) (h : w.Accounts p) (hdraws : op.DrawsOn (total - pagesHeld w.calls)) :
    (w.step b z k op).Accounts (Pool.step total p (op.request b)) := by
  have hbalance := World.step_balance b z k w op
  rw [h.pagesHeld_eq] at hdraws
  cases op with
  | openHugepage env => exact h.opened (openHugepage_meets b hdraws) hbalance
  | openHugepageMemfd env => exact h.opened (openHugepageMemfd_meets b hdraws) hbalance
  | openHugepageStreaming window env =>
    obtain ⟨hmmap, hmemfd⟩ := hdraws
    exact h.opened (openHugepageStreaming_meets b window hmmap hmemfd) hbalance
  | read i fuel buf =>
    obtain ⟨hlive, rest, hheld, hlost⟩ := h
    have hkept := (hbalance rest hheld).trans (congrArg _ (add_zero rest))
    exact ⟨(World.read_pages b z k w i fuel buf).trans hlive, rest, hkept, hlost⟩
  | drop i =>
    obtain ⟨hlive, rest, hheld, hlost⟩ := h
    have hkept := (hbalance rest hheld).trans (congrArg _ (add_zero rest))
    refine ⟨?_, rest, hkept, hlost⟩
    rw [World.drop_pages, hlive]
    rfl

/-- Each operation of a run finds free what the run does not hold, of `total` hugepages. -/
def DrawsOnPool (b : Build) (z : RawDecoder σ) (k : Kernel) (total : ℕ) (ops : List (Op σ)) :
    Prop :=
  Pool.Draws (World.step b z k) (fun w op => op.DrawsOn (total - pagesHeld w.calls)) ⟨[], []⟩ ops

/-- A run has the accounts of the pool. -/
theorem run_accounts {b : Build} {z : RawDecoder σ} {k : Kernel} {total : ℕ} {ops : List (Op σ)}
    (hdraws : DrawsOnPool b z k total ops) :
    (run b z k ops).Accounts (Pool.run total (ops.map (Op.request b))) :=
  run_simulates (World.step_accounts b z k total) ops ⟨[], []⟩ ⟨[], 0⟩
    ⟨rfl, 0, by rfl, pagesOf_zero⟩ hdraws

/-- The crate refines the pool. In every run of opens, reads and drops, any steps of which may fail,
with a kernel that has `total` hugepages: the live decoders have the pages of the pool's live
clients, and the crate holds the pages that the pool has given out, which are no more than the
kernel has. This holds for all windows, also for those that overflow when they are rounded. -/
theorem crate_refines_pool (b : Build) (z : RawDecoder σ) (k : Kernel) (total : ℕ)
    (ops : List (Op σ)) (hdraws : DrawsOnPool b z k total ops) :
    (run b z k ops).live.map Decoder.pages = (Pool.run total (ops.map (Op.request b))).live ∧
      pagesHeld (run b z k ops).calls = (Pool.run total (ops.map (Op.request b))).used ∧
      pagesHeld (run b z k ops).calls ≤ total := by
  have h := run_accounts hdraws
  have hheld := h.pagesHeld_eq
  exact ⟨h.1, hheld, hheld.trans_le (used_run_le total _)⟩

/-- A file of fourteen bytes is opened twice and dropped, and opened again, with one hugepage. The
second open finds none free. -/
def oneByOne : List (Op RefState) :=
  [.openHugepage (.served (.start [rawFrame hello]) 14 1),
    .openHugepage (.served (.start [rawFrame hello]) 14 0), .drop 0,
    .openHugepage (.served (.start [rawFrame hello]) 14 1)]

/-- What a run of them finds free. -/
theorem oneByOne_draws : DrawsOnPool .release reference .file 1 oneByOne :=
  ⟨grant_grantsPages 1, grant_grantsPages 0, trivial, grant_grantsPages 1, trivial⟩

/-- At its end, the last decoder has the one page. -/
theorem crate_refines_pool_oneByOne :
    (run .release reference .file oneByOne).live.map Decoder.pages = [1] ∧
      pagesHeld (run .release reference .file oneByOne).calls = 1 := by
  obtain ⟨hlive, hheld, -⟩ := crate_refines_pool .release reference .file 1 oneByOne oneByOne_draws
  exact ⟨hlive.trans rfl, hheld.trans rfl⟩

/-! ## Windows -/

/-- All steps of `open_hugepage_memfd` but its mapping succeed, on a file of `len` bytes. -/
structure MemfdEnv.Succeeds (env : MemfdEnv σ) (len : ℕ) : Prop where
  metadata : env.metadata = .ok len
  memfd_create : ∃ fd, env.memfd_create = some fd
  ftruncate : ∀ c, env.ftruncate c = .ok ()
  file : ∃ file, env.file = .ok file
  read_exact : ∃ bytes, env.read_exact len = .ok bytes
  zstd : ∃ s, env.zstd = .ok s

/-- All steps of `open_hugepage_streaming` but its mapping succeed, on a file of `size` bytes. -/
structure StreamingEnv.Succeeds (env : StreamingEnv σ) (size : ℕ) : Prop where
  metadata : env.metadata = .ok size
  file : ∃ file, env.file = .ok file
  map : ∃ src, env.map = .ok src
  advise : env.advise = .ok ()
  zstd : ∃ s, env.zstd = .ok s
  memfd : env.memfd.Succeeds size

/-- Then `open_hugepage_memfd` keeps the pages of the file. -/
theorem MemfdEnv.Succeeds.request_eq (b : Build) {env : MemfdEnv σ} {len : ℕ}
    (h : env.Succeeds len) (hlen : len ≤ isizeMax) :
    env.request b = .take (len ⌈/⌉ hugepage) .kept := by
  obtain ⟨hmeta, ⟨fd, hfd⟩, htruncate, ⟨file, hfile⟩, ⟨bytes, hexact⟩, s, hzstd⟩ := h
  have hround := roundToHugepage_length b hlen
  have hpages : Align.up hugepage len / hugepage = len ⌈/⌉ hugepage := Align.up_div (by decide) _
  simp only [MemfdEnv.request, askFor_ok, MemfdEnv.fate, hmeta, hround, hfd, htruncate, hfile,
    hexact, hzstd, hpages]

/-- Then `open_hugepage_streaming` keeps the pages of its window or of its file, whichever are
fewer. -/
theorem StreamingEnv.Succeeds.request_eq (b : Build) {env : StreamingEnv σ} {window size : ℕ}
    (h : env.Succeeds size) (hwindow : hugepage ≤ window) (hfits : window + hugepage < usizeSize)
    (hsize : size ≤ isizeMax) :
    env.request b window = .take (min (window ⌈/⌉ hugepage) (size ⌈/⌉ hugepage)) .kept := by
  have hpage : 0 < hugepage := by decide
  have hround := roundToHugepage_eq b hfits
  obtain ⟨hmeta, ⟨file, hfile⟩, ⟨src, hmap⟩, hadvise, ⟨s, hzstd⟩, hmemfd⟩ := h
  unfold StreamingEnv.request
  rw [if_neg (Nat.not_lt.mpr hwindow)]
  simp only [hround, askFor_ok, hmeta]
  by_cases hcover : size ≤ Align.up hugepage window
  · have hfew : size ⌈/⌉ hugepage ≤ window ⌈/⌉ hugepage := by
      rw [← Align.up_div hpage, ← Align.up_div hpage]
      exact Nat.div_le_div_right (Align.up_le_of_dvd hpage (Align.dvd_up _ _) hcover)
    rw [if_pos hcover, hmemfd.request_eq b hsize, Nat.min_eq_right hfew]
  · have hfew : window ⌈/⌉ hugepage ≤ size ⌈/⌉ hugepage := by
      rw [← Align.up_div hpage, ← Align.up_div hpage]
      refine Nat.div_le_div_right ?_
      exact (Nat.le_of_not_le hcover).trans (Align.le_up hpage size)
    rw [if_neg hcover, Align.up_div hpage, Nat.min_eq_left hfew]
    simp only [StreamingEnv.fate, hfile, hmap, hadvise, hzstd]

/-- A call of `open_hugepage_streaming` on a file of `size` bytes. -/
structure Stream (σ : Type) where
  window : ℕ
  size : ℕ
  env : StreamingEnv σ

/-- The call. -/
def Stream.op (s : Stream σ) : Op σ := .openHugepageStreaming s.window s.env

/-- The hugepages that its decoder has. -/
def Stream.pages (s : Stream σ) : ℕ := min (s.window ⌈/⌉ hugepage) (s.size ⌈/⌉ hugepage)

/-- Any number of decoders with a window, over files that are not empty, are open at once exactly
when their windows, or their files where these are smaller, fit into the kernel's hugepages. A
window has at least one hugepage, and rounding it does not overflow. -/
theorem windows_share_pool (b : Build) (z : RawDecoder σ) (k : Kernel) (total : ℕ)
    (streams : List (Stream σ)) (hwindow : ∀ s ∈ streams, hugepage ≤ s.window)
    (hfits : ∀ s ∈ streams, s.window + hugepage < usizeSize)
    (hsize : ∀ s ∈ streams, 0 < s.size ∧ s.size ≤ isizeMax)
    (hsucceeds : ∀ s ∈ streams, s.env.Succeeds s.size)
    (hdraws : DrawsOnPool b z k total (streams.map Stream.op)) :
    (run b z k (streams.map Stream.op)).live.length = streams.length ↔
      (streams.map Stream.pages).sum ≤ total := by
  have hpage : 0 < hugepage := by decide
  have hrequests : (streams.map Stream.op).map (Op.request b) =
      (streams.map Stream.pages).map (Request.take · .kept) := by
    rw [List.map_map, List.map_map]
    refine List.map_congr_left fun s hs => ?_
    exact (hsucceeds s hs).request_eq b (hwindow s hs) (hfits s hs) (hsize s hs).2
  have hpages : ∀ n ∈ streams.map Stream.pages, 0 < n := by
    intro n hn
    obtain ⟨s, hs, rfl⟩ := List.mem_map.mp hn
    have hblocks : ∀ m, 0 < m → 0 < m ⌈/⌉ hugepage := by
      intro m hm
      rw [Nat.ceilDiv_eq_add_pred_div]
      exact Nat.div_pos (by omega) hpage
    exact lt_min (hblocks _ (hpage.trans_le (hwindow s hs))) (hblocks _ (hsize s hs).1)
  -- So the crate does what a pool does with clients that keep what they take.
  have hlive := (run_accounts hdraws).1
  rw [hrequests] at hlive
  calc (run b z k (streams.map Stream.op)).live.length = streams.length
      ↔ (Pool.run total ((streams.map Stream.pages).map (Request.take · .kept))).live.length =
          (streams.map Stream.pages).length := by rw [← hlive, List.length_map, List.length_map]
    _ ↔ (streams.map Stream.pages).sum ≤ total := run_takes_iff hpages

/-- A window of one hugepage over a file of 3 MiB, with `free` hugepages. -/
def narrow (free : ℕ) : Stream RefState where
  window := hugepage
  size := 3 * 1024 * 1024
  env :=
    { metadata := .ok (3 * 1024 * 1024)
      mmap := grant free
      meminfo := none
      file := .ok 3
      map := .ok ⟨0x7F0000000000, .replicate (3 * 1024 * 1024) 0, by
        rw [List.length_replicate]
        decide⟩
      advise := .ok ()
      zstd := .ok (.start [])
      memfd :=
        { metadata := .ok (3 * 1024 * 1024)
          memfd_create := some 4
          ftruncate := fun _ => .ok ()
          mmap := grant free
          meminfo := none
          file := .ok 3
          read_exact := fun len => .ok (.replicate len 0)
          zstd := .ok (.start []) } }

/-- Two hugepages are enough for two of them, though each of the files needs two. -/
theorem windows_share_pool_narrow :
    (run .release reference .file ([narrow 2, narrow 1].map Stream.op)).live.length = 2 := by
  have hmemfd : ∀ free, (narrow free).env.memfd.Succeeds (narrow free).size := fun free =>
    ⟨rfl, ⟨4, rfl⟩, fun _ => rfl, ⟨3, rfl⟩, ⟨_, rfl⟩, ⟨_, rfl⟩⟩
  have hsucceeds : ∀ free, (narrow free).env.Succeeds (narrow free).size := fun free =>
    ⟨rfl, ⟨3, rfl⟩, ⟨_, rfl⟩, rfl, ⟨_, rfl⟩, hmemfd free⟩
  have hdraws : ∀ free, (narrow free).op.DrawsOn free := fun free =>
    ⟨grant_grantsPages free, grant_grantsPages free⟩
  have hboth : ∀ {P : Stream RefState → Prop}, P (narrow 2) → P (narrow 1) →
      ∀ s ∈ [narrow 2, narrow 1], P s := by
    intro P h2 h1
    exact List.forall_mem_cons.mpr ⟨h2, List.forall_mem_singleton.mpr h1⟩
  exact (windows_share_pool .release reference .file 2 [narrow 2, narrow 1] (hboth le_rfl le_rfl)
    (hboth (by decide) (by decide)) (hboth (by decide) (by decide))
    (hboth (hsucceeds 2) (hsucceeds 1)) ⟨hdraws 2, hdraws 1, trivial⟩).mpr (by decide)

end MmapZstd
