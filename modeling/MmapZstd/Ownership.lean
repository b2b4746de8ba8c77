import MmapZstd.Open
import MmapZstd.Reference
import MmapZstd.Retirement

/-!
# Ownership of mappings and descriptors

What the crate holds from the system should be what its live decoders own. `openHugepage_loses` and
its two siblings say, for every combination of steps that fail, what a constructor leaves held that
no decoder owns: a hugepage mapping, when `open_hugepage` or `open_hugepage_memfd` fails between
mapping it and building the decoder, and nothing otherwise. A read keeps what its decoder owns
(`read_owned`), and a drop releases it.

So the books of a run of the crate balance after every operation exactly when no constructor of the
run fails in one of these places (`ownership_exact_iff`).
-/

namespace MmapZstd

open Ledger

variable {σ : Type}

/-- The resources that the result of a constructor owns. -/
def Act.owned (a : Act (Decoder σ)) : Multiset Resource :=
  match a.outcome with
  | .ok d => d.buf.owned
  | _ => 0

/-- The resources `lost` are acquired by a constructor and neither released nor owned by its
result, whatever was held before; and it releases only what it has acquired. -/
def Act.Loses (a : Act (Decoder σ)) (lost : Multiset Resource) : Prop :=
  ∀ start, Sound start (ledger a.calls) ∧
    heldFrom start (ledger a.calls) = a.owned + lost + start

/-- The resources that a constructor loses. -/
def Act.lost (a : Act (Decoder σ)) : Multiset Resource := held (ledger a.calls) - a.owned

/-- What is lost is determined. -/
theorem Act.Loses.lost_eq {a : Act (Decoder σ)} {lost : Multiset Resource} (h : a.Loses lost) :
    a.lost = lost := by
  unfold Act.lost held
  rw [(h 0).2, add_zero, add_tsub_cancel_left]

/-- `open_hugepage` fails after it has mapped its hugepages. -/
def AnonEnv.Leaks (b : Build) (env : AnonEnv σ) : Prop :=
  ∃ bytes capacity ptr e, env.read = .ok bytes ∧ roundToHugepage b bytes.length = .ok capacity ∧
    env.mmap capacity = some ptr ∧ env.zstd = .error e

/-- `open_hugepage_memfd` fails in `File::open` or in `ZstdDecoder::new` after it has mapped its
hugepages. -/
def MemfdEnv.Leaks (b : Build) (env : MemfdEnv σ) : Prop :=
  ∃ len capacity fd ptr, env.metadata = .ok len ∧ roundToHugepage b len = .ok capacity ∧
    env.memfd_create = some fd ∧ env.ftruncate capacity = .ok () ∧ env.mmap capacity = some ptr ∧
    ((∃ e, env.file = .error e) ∨
      ∃ file bytes e, env.file = .ok file ∧ env.read_exact len = .ok bytes ∧ env.zstd = .error e)

/-- `open_hugepage_streaming` delegates to `open_hugepage_memfd`, which fails so. -/
def StreamingEnv.Leaks (b : Build) (window : ℕ) (env : StreamingEnv σ) : Prop :=
  hugepage ≤ window ∧ ∃ rounded size, roundToHugepage b window = .ok rounded ∧
    env.metadata = .ok size ∧ size ≤ rounded ∧ env.memfd.Leaks b

/-- What `open_hugepage` loses: its mapping, when it fails after it has mapped. -/
theorem openHugepage_loses (b : Build) (env : AnonEnv σ) :
    ∃ lost, (openHugepage b env).Loses lost ∧ (lost = 0 ↔ ¬ env.Leaks b) := by
  cases hread : env.read with
  | error e =>
    refine ⟨0, fun start => ?_, by simp [AnonEnv.Leaks, hread]⟩
    simp [openHugepage, hread, Act.owned]
  | ok bytes =>
    cases hround : roundToHugepage b bytes.length with
    | err e =>
      refine ⟨0, fun start => ?_, by simp [AnonEnv.Leaks, hread, hround]⟩
      simp [openHugepage, hread, hround, Act.owned]
    | panic =>
      refine ⟨0, fun start => ?_, by simp [AnonEnv.Leaks, hread, hround]⟩
      simp [openHugepage, hread, hround, Act.owned]
    | ok capacity =>
      cases hmmap : env.mmap capacity with
      | none =>
        refine ⟨0, fun start => ?_, by simp [AnonEnv.Leaks, hread, hround, hmmap]⟩
        simp [openHugepage, hread, hround, hmmap, Act.owned]
      | some ptr =>
        cases hzstd : env.zstd with
        | error e =>
          -- The mapping is not owned by anything yet.
          refine ⟨{.hugepages ptr capacity}, fun start => ?_, by
            simp [AnonEnv.Leaks, hread, hround, hmmap, hzstd]⟩
          simp [openHugepage, hread, hround, hmmap, hzstd, Act.owned]
        | ok zstd =>
          refine ⟨0, fun start => ?_, by simp [AnonEnv.Leaks, hzstd]⟩
          simp [openHugepage, hread, hround, hmmap, hzstd, Act.owned, Decoder.new,
            DecoderBuf.owned, HugepageBuf.loaded]

/-- What `open_hugepage_memfd` loses: its mapping, when it fails in `File::open` or in
`ZstdDecoder::new`. The memfd is closed on every path, and the mapping is unmapped when
`read_exact` fails. -/
theorem openHugepageMemfd_loses (b : Build) (env : MemfdEnv σ) :
    ∃ lost, (openHugepageMemfd b env).Loses lost ∧ (lost = 0 ↔ ¬ env.Leaks b) := by
  cases hmeta : env.metadata with
  | error e =>
    refine ⟨0, fun start => ?_, by simp [MemfdEnv.Leaks, hmeta]⟩
    simp [openHugepageMemfd, hmeta, Act.owned]
  | ok len =>
    cases hround : roundToHugepage b len with
    | err e =>
      refine ⟨0, fun start => ?_, by simp [MemfdEnv.Leaks, hmeta, hround]⟩
      simp [openHugepageMemfd, hmeta, hround, Act.owned]
    | panic =>
      refine ⟨0, fun start => ?_, by simp [MemfdEnv.Leaks, hmeta, hround]⟩
      simp [openHugepageMemfd, hmeta, hround, Act.owned]
    | ok capacity =>
      cases hfd : env.memfd_create with
      | none =>
        refine ⟨0, fun start => ?_, by simp [MemfdEnv.Leaks, hfd]⟩
        simp [openHugepageMemfd, hmeta, hround, hfd, Act.owned]
      | some fd =>
        cases htruncate : env.ftruncate capacity with
        | error e =>
          refine ⟨0, fun start => ?_, by simp [MemfdEnv.Leaks, hmeta, hround, htruncate]⟩
          simp [openHugepageMemfd, hmeta, hround, hfd, htruncate, Act.owned]
        | ok =>
          cases hmmap : env.mmap capacity with
          | none =>
            refine ⟨0, fun start => ?_, by simp [MemfdEnv.Leaks, hmeta, hround, hmmap]⟩
            simp [openHugepageMemfd, hmeta, hround, hfd, htruncate, hmmap, Act.owned]
          | some ptr =>
            cases hfile : env.file with
            | error e =>
              -- The `?` on `File::open` returns before the `if let` that unmaps.
              refine ⟨{.hugepages ptr capacity}, fun start => ?_, by
                simp [MemfdEnv.Leaks, hmeta, hround, hfd, htruncate, hmmap, hfile]⟩
              simp [openHugepageMemfd, hmeta, hround, hfd, htruncate, hmmap, hfile, Act.owned,
                Multiset.erase_cons_tail]
            | ok file =>
              cases hexact : env.read_exact len with
              | error e =>
                refine ⟨0, fun start => ?_, by simp [MemfdEnv.Leaks, hmeta, hfile, hexact]⟩
                simp [openHugepageMemfd, hmeta, hround, hfd, htruncate, hmmap, hfile, hexact,
                  Act.owned, Multiset.erase_cons_tail]
              | ok bytes =>
                cases hzstd : env.zstd with
                | error e =>
                  -- The mapping is filled, and still a raw pointer.
                  refine ⟨{.hugepages ptr capacity}, fun start => ?_, by
                    simp [MemfdEnv.Leaks, hmeta, hround, hfd, htruncate, hmmap, hfile, hexact,
                      hzstd]⟩
                  simp [openHugepageMemfd, hmeta, hround, hfd, htruncate, hmmap, hfile, hexact,
                    hzstd, Act.owned, Multiset.erase_cons_tail]
                | ok zstd =>
                  refine ⟨0, fun start => ?_, by simp [MemfdEnv.Leaks, hfile, hzstd]⟩
                  simp [openHugepageMemfd, hmeta, hround, hfd, htruncate, hmmap, hfile, hexact,
                    hzstd, Act.owned, Multiset.erase_cons_tail, Decoder.new, DecoderBuf.owned,
                    HugepageBuf.loaded]

/-- The sliding branch of `open_hugepage_streaming` loses nothing, whichever step fails. -/
theorem openHugepageStreaming_loses (b : Build) (window : ℕ) (env : StreamingEnv σ) :
    ∃ lost, (openHugepageStreaming b window env).Loses lost ∧
      (lost = 0 ↔ ¬ env.Leaks b window) := by
  by_cases hsmall : window < hugepage
  · refine ⟨0, fun start => ?_, by simp [StreamingEnv.Leaks, hsmall]⟩
    simp [openHugepageStreaming, hsmall, Act.owned]
  · cases hround : roundToHugepage b window with
    | err e =>
      refine ⟨0, fun start => ?_, by simp [StreamingEnv.Leaks, hround]⟩
      simp [openHugepageStreaming, hsmall, hround, Act.owned]
    | panic =>
      refine ⟨0, fun start => ?_, by simp [StreamingEnv.Leaks, hround]⟩
      simp [openHugepageStreaming, hsmall, hround, Act.owned]
    | ok rounded =>
      cases hmeta : env.metadata with
      | error e =>
        refine ⟨0, fun start => ?_, by simp [StreamingEnv.Leaks, hmeta]⟩
        simp [openHugepageStreaming, hsmall, hround, hmeta, Act.owned]
      | ok size =>
        by_cases hcover : rounded ≥ size
        · obtain ⟨lost, hloses, hzero⟩ := openHugepageMemfd_loses b env.memfd
          rw [openHugepageStreaming_delegates (by omega) hround hmeta hcover]
          refine ⟨lost, hloses, hzero.trans ?_⟩
          simp only [StreamingEnv.Leaks, hround, hmeta, Outcome.ok.injEq, Except.ok.injEq,
            exists_and_left, exists_eq_left', hcover, true_and, Nat.le_of_not_lt hsmall]
        · -- The scratch owns the mapping from the start, so every early return drops it.
          refine ⟨0, fun start => ?_, by simp [StreamingEnv.Leaks, hround, hmeta, hcover]⟩
          cases hmmap : env.mmap rounded with
          | none => simp [openHugepageStreaming, hsmall, hround, hmeta, hcover, hmmap, Act.owned]
          | some ptr =>
            cases hfile : env.file with
            | error e =>
              simp [openHugepageStreaming, hsmall, hround, hmeta, hcover, hmmap, hfile, Act.owned]
            | ok file =>
              cases hmap : env.map with
              | error e =>
                simp [openHugepageStreaming, hsmall, hround, hmeta, hcover, hmmap, hfile, hmap,
                  Act.owned]
              | ok src =>
                cases hadvise : env.advise with
                | error e =>
                  simp [openHugepageStreaming, hsmall, hround, hmeta, hcover, hmmap, hfile, hmap,
                    hadvise, Act.owned]
                | ok =>
                  cases hzstd : env.zstd with
                  | error e =>
                    simp [openHugepageStreaming, hsmall, hround, hmeta, hcover, hmmap, hfile,
                      hmap, hadvise, hzstd, Act.owned]
                  | ok zstd =>
                    simp [openHugepageStreaming, hsmall, hround, hmeta, hcover, hmmap, hfile,
                      hmap, hadvise, hzstd, Act.owned, Multiset.erase_cons_tail, Decoder.new,
                      DecoderBuf.owned, StreamingState.new, HugepageBuf.scratch,
                      ← Multiset.cons_coe]

/-! ## Reads -/

/-- The retirement of the `Mmap` variant keeps what is owned. -/
theorem maybeRetire_owned (k : Kernel) (d : Decoder σ) :
    (maybeRetire k d).1.buf.owned = d.buf.owned := by
  cases hd : d.buf with
  | mmap m =>
    rcases maybeRetire_cases k d hd _ rfl with ⟨heq, -⟩ | ⟨heq, -⟩
    · rw [heq, hd]
    · rw [heq]
      simp only [DecoderBuf.owned, k.ptr_eq, k.len_eq]
  | slice s => simp only [maybeRetire, hd]
  | hugepage h => simp only [maybeRetire, hd]
  | streaming s => simp only [maybeRetire, hd]

/-- A call of zstd on the scratch moves a cursor and nothing else. -/
theorem feed_frame (z : RawDecoder σ) (state : StreamingState) (zstd : σ) (buf : List UInt8) :
    ∃ pos, (feed z state zstd buf).state.1 = { state with scratch_in_pos := pos } := by
  cases hslice : slice state.scratch.deref state.scratch_in_pos state.scratch_len with
  | ok input =>
    cases hcall : (z.run_on_buffers zstd input buf).result with
    | error e => exact ⟨_, by rw [feed_error hslice hcall]⟩
    | ok status => exact ⟨_, by rw [feed_ok hslice hcall]⟩
  | err e => exact ⟨state.scratch_in_pos, by simp only [feed, hslice]⟩
  | panic => exact ⟨state.scratch_in_pos, by simp only [feed, hslice]⟩

/-- An iteration of the loop of the streaming variant keeps what is owned. -/
theorem readStreamingBody_owned (z : RawDecoder σ) (k : Kernel) (state : StreamingState) (zstd : σ)
    (buf : List UInt8) :
    (DecoderBuf.streaming (readStreamingBody z (.madvise σ k) state zstd buf).state.1).owned =
      (DecoderBuf.streaming state).owned := by
  rcases refill_cases (Retirement.madvise σ k) state with ⟨heq, -⟩ | ⟨heq, -⟩ | ⟨heq, -⟩
  · simp only [readStreamingBody, heq]
  · obtain ⟨pos, hfeed⟩ := feed_frame z state zstd buf
    simp only [readStreamingBody, heq, Reading.after, hfeed, DecoderBuf.owned]
  · obtain ⟨m, r, hretire, hptr, hlen⟩ := retireSrc_frame k (load state)
    obtain ⟨pos, hfeed⟩ := feed_frame z (retireSrc k (load state)).1 zstd buf
    have hbody : (readStreamingBody z (.madvise σ k) state zstd buf).state.1 =
        { load state with src_mmap := m, retire_pos := r, scratch_in_pos := pos } := by
      simp only [readStreamingBody, heq, Reading.after]
      exact hfeed.trans (by rw [hretire])
    simp only [hbody, DecoderBuf.owned, hptr, hlen]
    rfl

/-- A read keeps what the decoder owns. -/
theorem read_owned (z : RawDecoder σ) (k : Kernel) (d : Decoder σ) (fuel : ℕ) (buf : List UInt8) :
    (d.read z (.madvise σ k) fuel buf).state.buf.owned = d.buf.owned := by
  rcases eq_or_ne buf [] with rfl | hbuf
  · rw [read_nil]
  -- The buffers that dereference are the whole-buffer variants.
  cases hderef : d.buf.deref with
  | ok bytes =>
    rw [read_whole hderef hbuf]
    by_cases hpos : d.in_pos ≤ bytes.length
    · cases hcall : (z.run_on_buffers d.zstd (bytes.drop d.in_pos) buf).result with
      | error e => rw [readWhole_error hderef hpos hcall]
      | ok status =>
        rw [readWhole_ok hderef hpos hcall rfl]
        exact maybeRetire_owned k _
    · simp only [readWhole, hderef, Outcome.bind, sliceFrom, if_neg hpos]
  | err e => cases hd : d.buf <;> rw [hd] at hderef <;> cases hderef
  | panic =>
    cases hd : d.buf with
    | streaming state =>
      rw [read_streaming hd hbuf]
      exact (readStreaming_rule
        (Q := fun _ s _ => (DecoderBuf.streaming s).owned = (DecoderBuf.streaming state).owned)
        (fun _ => True) (fun _ s zstd buf _ hs =>
          ⟨(readStreamingBody_owned z k s zstd buf).trans hs, fun _ _ => trivial⟩)
        fuel [] state d.zstd hbuf rfl).1
    | mmap m => rw [hd] at hderef; cases hderef
    | slice s => rw [hd] at hderef; cases hderef
    | hugepage h => rw [hd] at hderef; cases hderef

/-! ## Runs -/

/-- The state of a run of the crate: the system calls that it has made, and the decoders that were
returned as `Ok` and are not dropped. -/
structure World (σ : Type) where
  calls : List Syscall
  live : List (Decoder σ)

/-- An operation of a run. Reads and drops are of the live decoder at an index. -/
inductive Op (σ : Type)
  | openHugepage (env : AnonEnv σ)
  | openHugepageMemfd (env : MemfdEnv σ)
  | openHugepageStreaming (window : ℕ) (env : StreamingEnv σ)
  | read (i fuel : ℕ) (buf : List UInt8)
  | drop (i : ℕ)

/-- The world after a constructor. -/
def World.opened (w : World σ) (a : Act (Decoder σ)) : World σ where
  calls := w.calls ++ a.calls
  live := match a.outcome with
    | .ok d => w.live ++ [d]
    | _ => w.live

/-- The world after an operation. -/
def World.step (b : Build) (z : RawDecoder σ) (k : Kernel) (w : World σ) : Op σ → World σ
  | .openHugepage env => w.opened (MmapZstd.openHugepage b env)
  | .openHugepageMemfd env => w.opened (MmapZstd.openHugepageMemfd b env)
  | .openHugepageStreaming window env => w.opened (MmapZstd.openHugepageStreaming b window env)
  | .read i fuel buf =>
    match w.live[i]? with
    | some d => { w with live := w.live.set i (d.read z (.madvise σ k) fuel buf).state }
    | none => w
  | .drop i =>
    match w.live[i]? with
    | some d => ⟨w.calls ++ d.drop, w.live.eraseIdx i⟩
    | none => w

/-- A run, from the start of the program. -/
def run (b : Build) (z : RawDecoder σ) (k : Kernel) (ops : List (Op σ)) : World σ :=
  ops.foldl (World.step b z k) ⟨[], []⟩

/-- The mappings and descriptors that the crate holds. -/
def World.held (w : World σ) : Multiset Resource := Ledger.held (ledger w.calls)

/-- The mappings and descriptors that the live decoders own. -/
def World.owned (w : World σ) : Multiset Resource :=
  (w.live.map fun d => (d.buf.owned : Multiset Resource)).sum

/-- The crate holds exactly what its live decoders own, and has released nothing twice, nor with
another length than it was mapped with. -/
def World.Exact (w : World σ) : Prop := Sound 0 (ledger w.calls) ∧ w.held = w.owned

/-- What an operation loses. -/
def Op.lost (b : Build) : Op σ → Multiset Resource
  | .openHugepage env => (MmapZstd.openHugepage b env).lost
  | .openHugepageMemfd env => (MmapZstd.openHugepageMemfd b env).lost
  | .openHugepageStreaming window env => (MmapZstd.openHugepageStreaming b window env).lost
  | .read _ _ _ => 0
  | .drop _ => 0

/-- The operation is a constructor that fails between mapping its hugepages and owning them. -/
def Op.Leaks (b : Build) : Op σ → Prop
  | .openHugepage env => env.Leaks b
  | .openHugepageMemfd env => env.Leaks b
  | .openHugepageStreaming window env => env.Leaks b window
  | .read _ _ _ => False
  | .drop _ => False

/-! ## The books of a run -/

/-- What an operation loses is nothing exactly when it does not leak. -/
theorem Op.lost_eq_zero_iff (b : Build) (op : Op σ) : op.lost b = 0 ↔ ¬ op.Leaks b := by
  cases op with
  | openHugepage env =>
    obtain ⟨lost, hloses, hzero⟩ := openHugepage_loses b env
    rw [Op.lost, hloses.lost_eq, hzero]
    rfl
  | openHugepageMemfd env =>
    obtain ⟨lost, hloses, hzero⟩ := openHugepageMemfd_loses b env
    rw [Op.lost, hloses.lost_eq, hzero]
    rfl
  | openHugepageStreaming window env =>
    obtain ⟨lost, hloses, hzero⟩ := openHugepageStreaming_loses b window env
    rw [Op.lost, hloses.lost_eq, hzero]
    rfl
  | read i fuel buf => exact iff_of_true rfl not_false
  | drop i => exact iff_of_true rfl not_false

/-- The live decoders own what one of them owns and what the others own. -/
theorem World.owned_eq {w : World σ} {i : ℕ} {d : Decoder σ} (hi : w.live[i]? = some d) :
    w.owned = d.buf.owned + World.owned ⟨w.calls, w.live.eraseIdx i⟩ := by
  obtain ⟨hlt, rfl⟩ := List.getElem?_eq_some_iff.mp hi
  have hperm := (List.getElem_cons_eraseIdx_perm hlt).map
    fun d : Decoder σ => (d.buf.owned : Multiset Resource)
  exact hperm.sum_eq.symm.trans List.sum_cons

/-- A decoder that replaces another owns what it owns besides the others. -/
theorem World.owned_set {w : World σ} {i : ℕ} {d : Decoder σ} (hi : w.live[i]? = some d)
    (d' : Decoder σ) :
    World.owned ⟨w.calls, w.live.set i d'⟩ =
      d'.buf.owned + World.owned ⟨w.calls, w.live.eraseIdx i⟩ := by
  obtain ⟨hlt, -⟩ := List.getElem?_eq_some_iff.mp hi
  have hperm := (List.set_perm_cons_eraseIdx hlt d').map
    fun d : Decoder σ => (d.buf.owned : Multiset Resource)
  exact hperm.sum_eq.trans List.sum_cons

/-- A constructor adds what its result owns to what the live decoders own. -/
theorem World.owned_opened (w : World σ) (a : Act (Decoder σ)) :
    (w.opened a).owned = w.owned + a.owned := by
  obtain ⟨calls, outcome⟩ := a
  cases outcome with
  | ok d => simp [World.owned, World.opened, Act.owned]
  | err e => simp [World.owned, World.opened, Act.owned]
  | panic => simp [World.owned, World.opened, Act.owned]

/-- What an operation does: a constructor opens, a read replaces a decoder by one that owns the
same, a drop releases what a decoder owns, and a read or a drop of no decoder does nothing. -/
theorem World.step_cases (b : Build) (z : RawDecoder σ) (k : Kernel) (w : World σ) (op : Op σ) :
    (∃ a lost, w.step b z k op = w.opened a ∧ a.Loses lost ∧ op.lost b = lost) ∨
      (∃ i d d', w.live[i]? = some d ∧ w.step b z k op = ⟨w.calls, w.live.set i d'⟩ ∧
        d'.buf.owned = d.buf.owned ∧ op.lost b = 0) ∨
      (∃ i d, w.live[i]? = some d ∧
        w.step b z k op = ⟨w.calls ++ d.drop, w.live.eraseIdx i⟩ ∧ op.lost b = 0) ∨
      (w.step b z k op = w ∧ op.lost b = 0) := by
  cases op with
  | openHugepage env =>
    obtain ⟨lost, hloses, -⟩ := openHugepage_loses b env
    exact .inl ⟨_, lost, rfl, hloses, hloses.lost_eq⟩
  | openHugepageMemfd env =>
    obtain ⟨lost, hloses, -⟩ := openHugepageMemfd_loses b env
    exact .inl ⟨_, lost, rfl, hloses, hloses.lost_eq⟩
  | openHugepageStreaming window env =>
    obtain ⟨lost, hloses, -⟩ := openHugepageStreaming_loses b window env
    exact .inl ⟨_, lost, rfl, hloses, hloses.lost_eq⟩
  | read i fuel buf =>
    rw [World.step]
    cases hi : w.live[i]? with
    | none => exact .inr (.inr (.inr ⟨rfl, rfl⟩))
    | some d => exact .inr (.inl ⟨i, d, _, hi, rfl, read_owned z k d fuel buf, rfl⟩)
  | drop i =>
    rw [World.step]
    cases hi : w.live[i]? with
    | none => exact .inr (.inr (.inr ⟨rfl, rfl⟩))
    | some d => exact .inr (.inr (.inl ⟨i, d, hi, rfl, rfl⟩))

/-- An operation keeps the books, up to what it loses. -/
theorem World.step_balance (b : Build) (z : RawDecoder σ) (k : Kernel) (w : World σ) (op : Op σ)
    (rest : Multiset Resource) (hw : w.held = w.owned + rest) :
    (w.step b z k op).held = (w.step b z k op).owned + (rest + op.lost b) := by
  rcases World.step_cases b z k w op with ⟨a, lost, hstep, hloses, hlost⟩ |
    ⟨i, d, d', hi, hstep, howned, hlost⟩ | ⟨i, d, hi, hstep, hlost⟩ | ⟨hstep, hlost⟩
  · have hheld : (w.opened a).held = heldFrom w.held (ledger a.calls) := by
      unfold World.held World.opened
      rw [ledger_append, held_append]
    rw [hstep, hlost]
    calc (w.opened a).held = a.owned + lost + (w.owned + rest) := by rw [hheld, (hloses _).2, hw]
      _ = w.owned + a.owned + (rest + lost) := by ac_rfl
      _ = (w.opened a).owned + (rest + lost) := by rw [World.owned_opened]
  · rw [hstep, hlost, add_zero, World.owned_set hi, howned, ← World.owned_eq hi]
    exact hw
  · -- What the decoder owned leaves both sides.
    let w' : World σ := ⟨w.calls ++ d.drop, w.live.eraseIdx i⟩
    have hheld : w'.held = w.held - d.buf.owned := by
      unfold World.held
      rw [ledger_append, held_append, Decoder.ledger_drop, heldFrom_releases]
    have howned : w.owned = d.buf.owned + w'.owned := World.owned_eq hi
    rw [hstep, hlost, add_zero]
    calc w'.held = d.buf.owned + w'.owned + rest - d.buf.owned := by rw [hheld, hw, howned]
      _ = w'.owned + rest := by rw [add_assoc, add_tsub_cancel_left]
  · rw [hstep, hlost, add_zero]
    exact hw

/-- An operation releases only what is held, when all that the live decoders own is held. -/
theorem World.step_sound (b : Build) (z : RawDecoder σ) (k : Kernel) (w : World σ) (op : Op σ)
    (hsound : Sound 0 (ledger w.calls)) (hw : w.owned ≤ w.held) :
    Sound 0 (ledger (w.step b z k op).calls) := by
  rcases World.step_cases b z k w op with ⟨a, lost, hstep, hloses, -⟩ |
    ⟨i, d, d', -, hstep, -⟩ | ⟨i, d, hi, hstep, -⟩ | ⟨hstep, -⟩
  · rw [hstep]
    unfold World.opened
    rw [ledger_append, sound_append]
    exact ⟨hsound, (hloses _).1⟩
  · rw [hstep]
    exact hsound
  · have hheld : d.buf.owned ≤ w.held := by
      rw [World.owned_eq hi] at hw
      exact (Multiset.le_add_right _ _).trans hw
    rw [hstep, ledger_append, sound_append, Decoder.ledger_drop]
    exact ⟨hsound, sound_releases _ _ hheld⟩
  · rw [hstep]
    exact hsound

/-- A run releases nothing twice, and holds at least what its live decoders own. -/
theorem run_sound (b : Build) (z : RawDecoder σ) (k : Kernel) (ops : List (Op σ)) :
    Sound 0 (ledger (run b z k ops).calls) ∧ (run b z k ops).owned ≤ (run b z k ops).held := by
  -- On the last operation of the run: what was held before it suffices for what it releases.
  induction ops using List.reverseRecOn with
  | nil => exact ⟨trivial, le_rfl⟩
  | append_singleton ops op ih =>
    obtain ⟨hsound, hle⟩ := ih
    obtain ⟨rest, hrest⟩ := exists_add_of_le hle
    unfold run
    rw [List.foldl_append]
    refine ⟨World.step_sound b z k _ op hsound hle, ?_⟩
    exact le_of_le_of_eq (Multiset.le_add_right _ _)
      (World.step_balance b z k _ op rest hrest).symm

/-- In a run, the crate holds exactly what its live decoders own after every operation, if and only
if no constructor of the run fails between mapping its hugepages and owning them. -/
theorem ownership_exact_iff (b : Build) (z : RawDecoder σ) (k : Kernel) (ops : List (Op σ)) :
    (∀ past future, ops = past ++ future → (run b z k past).Exact) ↔
      ∀ op ∈ ops, ¬ op.Leaks b := by
  have hexact := exact_iff (World.step_balance b z k) ops ⟨[], []⟩ rfl
  simp only [Op.lost_eq_zero_iff] at hexact
  constructor
  · exact fun h => hexact.mp fun past future heq => (h past future heq).2
  · exact fun h past future heq => ⟨(run_sound b z k past).1, hexact.mpr h past future heq⟩

/-- The steps of `open_hugepage_memfd` on a file of fourteen bytes that can be stat'ed but not
opened. -/
def unopenable : MemfdEnv RefState where
  metadata := .ok 14
  memfd_create := some 3
  ftruncate _ := .ok ()
  mmap _ := some 0x7F0000000000
  meminfo := none
  file := .error ⟨.other, "Permission denied (os error 13)"⟩
  read_exact _ := .error ⟨.other, "not opened"⟩
  zstd := .ok (.start [rawFrame hello])

/-- After the one operation of this run, no decoder is live, and a hugepage is held. -/
theorem ownership_leaks_hugepage :
    ¬ (run .release reference .file [.openHugepageMemfd unopenable]).Exact := by
  rintro ⟨-, hheld⟩
  have hleak : (run .release reference .file [.openHugepageMemfd unopenable]).held =
      {.hugepages 0x7F0000000000 2097152} := by decide
  have hnone : (run .release reference .file [.openHugepageMemfd unopenable]).owned = 0 := by decide
  rw [hleak, hnone] at hheld
  exact Multiset.singleton_ne_zero _ hheld

end MmapZstd
