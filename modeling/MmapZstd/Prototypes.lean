import MmapZstd.Measure
import MmapZstd.Variants

/-!
# The measured prototypes of the hugepage modes

The hugepage constructors were measured before they were written: `measure_h3b` and `measure_h3c` of
`examples/measure_mmap_hugepage.rs`, and the one-shot runs of `benches/levels.rs`, allocate a region
of hugepages by hand, fill it with the file, and decode it as a slice. These measurements speak of
the crate: each of them decodes `n` bytes exactly when copying from the decoder of the constructor
delivers `n` bytes (`prototypes_decode_iff`), and one that ends without a panic holds nothing.
-/

namespace MmapZstd

open Frames Ledger

variable {σ α : Type}

/-! ## The prototypes -/

/-- `expect`: the value, or a panic. -/
def Act.expect (r : Except IoError α) : Act α :=
  match r with
  | .ok a => ⟨[], .ok a⟩
  | .error _ => ⟨[], .panic⟩

/-- A region of hugepages: its address, its length, and the length of the file in it. -/
structure Region where
  ptr : ℕ
  aligned : ℕ
  len : ℕ

/-- `alloc_hugepage_anon`. -/
def allocHugepageAnon (b : Build) (mmap : ℕ → Option ℕ) (data_len : ℕ) : Act (Option Region) := do
  let aligned ← Act.lift (roundToHugepage b data_len)
  Act.call (.mmap aligned (mmap aligned))
  pure ((mmap aligned).map fun ptr => ⟨ptr, aligned, data_len⟩)

/-- `alloc_memfd_hugepage`. -/
def allocMemfdHugepage (b : Build) (env : MemfdEnv σ) (data_len : ℕ) : Act (Option Region) := do
  let aligned ← Act.lift (roundToHugepage b data_len)
  match env.memfd_create with
  | none => pure none
  | some fd =>
    Act.call (.acquire (.fd fd))
    match env.ftruncate aligned with
    | .error _ =>
      Act.call (.release (.fd fd))
      pure none
    | .ok () =>
      Act.call (.mmap aligned (env.mmap aligned))
      Act.call (.release (.fd fd))
      pure ((env.mmap aligned).map fun ptr => ⟨ptr, aligned, data_len⟩)

/-- `fill_hugepage`. The file is a temporary, dropped at the end of the statement. -/
def fillHugepage (env : MemfdEnv σ) (len : ℕ) : Act (List UInt8) := do
  let file ← Act.expect env.file
  Act.call (.acquire (.fd file))
  Act.closing (.fd file) (Act.expect (env.read_exact len))

/-- How a measurement ends without a panic. -/
inductive Measured
  | skipped
  | decoded (n : ℕ)

/-- `expect` on what `io::copy` returns after it has copied `delivered`. -/
def expectCopied (delivered : List UInt8) : Outcome ℕ → Outcome ℕ
  | .ok _ => .ok delivered.length
  | .err _ => .panic
  | .panic => .panic

section Prototypes

variable (b : Build) (z : RawDecoder σ) (k : Kernel) (fuel : ℕ) (bufs : ℕ → List UInt8)

/-- `io::copy(..).expect("copy")` from a decoder; `none` when `fuel` is not enough. -/
def copyExpect (d : Decoder σ) : Option (Outcome ℕ) :=
  (drain z (.madvise σ k) fuel d bufs).map fun r => expectCopied r.delivered r.last

/-- A measurement on a region: it is filled, decoded as a slice, and unmapped. -/
def measureRegion (env : MemfdEnv σ) (region : Region) : Option (Act Measured) :=
  let filled := fillHugepage env region.len
  match filled.outcome with
  | .ok bytes =>
    let slice := (HugepageBuf.loaded region.ptr region.len region.aligned bytes).deref
    match (fromSlice slice env.zstd).outcome with
    | .ok d => (copyExpect z k fuel bufs d).map fun copied =>
      match copied with
      | .ok n =>
        ⟨filled.calls ++ [.release (.hugepages region.ptr region.aligned)], .ok (.decoded n)⟩
      | .err _ => ⟨filled.calls, .panic⟩
      | .panic => ⟨filled.calls, .panic⟩
    | .err _ => some ⟨filled.calls, .panic⟩
    | .panic => some ⟨filled.calls, .panic⟩
  | .err _ => some ⟨filled.calls, .panic⟩
  | .panic => some ⟨filled.calls, .panic⟩

/-- A measurement, when its region is allocated so. -/
def measureIn (env : MemfdEnv σ) (alloc : Act (Option Region)) : Option (Act Measured) :=
  match alloc.outcome with
  | .ok (some region) => (measureRegion z k fuel bufs env region).map fun rest =>
    ⟨alloc.calls ++ rest.calls, rest.outcome⟩
  | .ok none => some ⟨alloc.calls, .ok .skipped⟩
  | .err _ => some ⟨alloc.calls, .panic⟩
  | .panic => some ⟨alloc.calls, .panic⟩

/-- `measure_h3b`, and the one-shot run `hugepage-anon`. `mmap` is the kernel's answer to an
anonymous mapping. -/
def measureH3b (env : MemfdEnv σ) (mmap : ℕ → Option ℕ) : Option (Act Measured) :=
  measureIn z k fuel bufs env (Act.expect env.metadata >>= allocHugepageAnon b mmap)

/-- The one-shot run `hugepage-memfd`. -/
def hugepageMemfdStats (env : MemfdEnv σ) : Option (Act Measured) :=
  measureIn z k fuel bufs env (Act.expect env.metadata >>= allocMemfdHugepage b env)

/-- The region of `measure_h3c`. The memfd is created before the file is looked at. -/
def h3cRegion (env : MemfdEnv σ) : Act (Option Region) :=
  match env.memfd_create with
  | none => pure none
  | some fd => do
    Act.call (.acquire (.fd fd))
    let compressed_len ← Act.expect env.metadata
    let aligned_len ← Act.lift (roundToHugepage b compressed_len)
    match env.ftruncate aligned_len with
    | .error _ =>
      Act.call (.release (.fd fd))
      pure none
    | .ok () =>
      Act.call (.mmap aligned_len (env.mmap aligned_len))
      Act.call (.release (.fd fd))
      pure ((env.mmap aligned_len).map fun ptr => ⟨ptr, aligned_len, compressed_len⟩)

/-- `measure_h3c`. -/
def measureH3c (env : MemfdEnv σ) : Option (Act Measured) :=
  measureIn z k fuel bufs env (h3cRegion b env)

end Prototypes

/-! ## What they allocate -/

/-- An allocation returns the regions of which `P` holds, and leaves them held and nothing else. -/
structure Act.Allocates (a : Act (Option Region)) (P : Region → Prop) : Prop where
  some_iff : ∀ r, a.outcome = .ok (some r) ↔ P r
  leaves_some : ∀ r, a.outcome = .ok (some r) → Leaves a.calls {.hugepages r.ptr r.aligned}
  leaves_none : a.outcome = .ok none → Leaves a.calls 0

/-- A region that an anonymous mapping gives. -/
structure MemfdEnv.AnonRegion (b : Build) (env : MemfdEnv σ) (mmap : ℕ → Option ℕ) (r : Region) :
    Prop where
  metadata : env.metadata = .ok r.len
  round : roundToHugepage b r.len = .ok r.aligned
  mmap : mmap r.aligned = some r.ptr

/-- A region that a memfd gives. -/
structure MemfdEnv.MemfdRegion (b : Build) (env : MemfdEnv σ) (r : Region) : Prop where
  metadata : env.metadata = .ok r.len
  round : roundToHugepage b r.len = .ok r.aligned
  memfd_create : ∃ fd, env.memfd_create = some fd
  ftruncate : env.ftruncate r.aligned = .ok ()
  mmap : env.mmap r.aligned = some r.ptr

/-- A step that is expected to succeed returns what it holds. -/
theorem Act.outcome_expect {r : Except IoError α} {a : α} :
    (Act.expect r).outcome = .ok a ↔ r = .ok a := by
  cases r with
  | ok a => simp [Act.expect]
  | error e => simp [Act.expect]

/-- Earlier system calls have no say in the outcome. -/
theorem Act.outcome_after (calls : List Syscall) (x : Act α) :
    (Act.after calls x).outcome = x.outcome := rfl

/-- The allocation of `measure_h3b`. -/
theorem anon_allocates (b : Build) (env : MemfdEnv σ) (mmap : ℕ → Option ℕ) :
    (Act.expect env.metadata >>= allocHugepageAnon b mmap).Allocates (env.AnonRegion b mmap) := by
  -- The steps before the mapping have succeeded when there is an outcome.
  have hsteps : ∀ o, (Act.expect env.metadata >>= allocHugepageAnon b mmap).outcome = .ok o →
      ∃ len aligned, env.metadata = .ok len ∧ roundToHugepage b len = .ok aligned ∧
        (mmap aligned).map (fun ptr => (⟨ptr, aligned, len⟩ : Region)) = o := by
    intro o ho
    simp only [allocHugepageAnon, Act.outcome_bind, Outcome.bind_eq_ok, Act.outcome_expect] at ho
    obtain ⟨len, hmeta, aligned, hround, -, -, ho⟩ := ho
    exact ⟨len, aligned, hmeta, hround, Outcome.ok.inj ho⟩
  have hact : ∀ len aligned, env.metadata = .ok len → roundToHugepage b len = .ok aligned →
      Act.expect env.metadata >>= allocHugepageAnon b mmap = ⟨[.mmap aligned (mmap aligned)],
        .ok ((mmap aligned).map fun ptr => ⟨ptr, aligned, len⟩)⟩ := by
    intro len aligned hmeta hround
    simp [allocHugepageAnon, Act.expect, hmeta, hround]
  refine ⟨fun r => ⟨fun h => ?_, fun h => ?_⟩, fun r h => ?_, fun h => ?_⟩
  · obtain ⟨len, aligned, hmeta, hround, ho⟩ := hsteps _ h
    obtain ⟨ptr, hptr, rfl⟩ := Option.map_eq_some_iff.mp ho
    exact ⟨hmeta, hround, hptr⟩
  · rw [hact _ _ h.metadata h.round, h.mmap]
    rfl
  · obtain ⟨len, aligned, hmeta, hround, ho⟩ := hsteps _ h
    obtain ⟨ptr, hptr, rfl⟩ := Option.map_eq_some_iff.mp ho
    rw [hact _ _ hmeta hround, hptr]
    exact fun start => ⟨trivial, rfl⟩
  · obtain ⟨len, aligned, hmeta, hround, ho⟩ := hsteps _ h
    rw [hact _ _ hmeta hround, Option.map_eq_none_iff.mp ho]
    exact leaves_nil

/-- An allocation that ends with an error or a panic. -/
theorem Act.Allocates.fails {a : Act (Option Region)} {P : Region → Prop}
    (ha : ∀ o, a.outcome ≠ .ok o) (hP : ∀ r, ¬ P r) : a.Allocates P where
  some_iff r := iff_of_false (ha _) (hP r)
  leaves_some _ h := absurd h (ha _)
  leaves_none h := absurd h (ha _)

/-- What the allocations through a memfd do, when the length of the file is known. -/
def MemfdEnv.mapped (env : MemfdEnv σ) (len aligned : ℕ) : Act (Option Region) :=
  match env.memfd_create with
  | none => ⟨[], .ok none⟩
  | some fd =>
    match env.ftruncate aligned with
    | .error _ => ⟨[.acquire (.fd fd), .release (.fd fd)], .ok none⟩
    | .ok () => ⟨[.acquire (.fd fd), .mmap aligned (env.mmap aligned), .release (.fd fd)],
        .ok ((env.mmap aligned).map fun ptr => ⟨ptr, aligned, len⟩)⟩

/-- They return the region of the memfd. -/
theorem MemfdEnv.mapped_allocates {b : Build} {env : MemfdEnv σ} {len aligned : ℕ}
    (hmeta : env.metadata = .ok len) (hround : roundToHugepage b len = .ok aligned) :
    (env.mapped len aligned).Allocates (env.MemfdRegion b) := by
  -- A region of the memfd has the length of the file.
  have hregion : ∀ r, env.MemfdRegion b r → r.len = len ∧ r.aligned = aligned := by
    intro r h
    have hlen : r.len = len := Except.ok.inj (h.metadata.symm.trans hmeta)
    refine ⟨hlen, Outcome.ok.inj (h.round.symm.trans ?_)⟩
    rw [hlen, hround]
  unfold MemfdEnv.mapped
  cases hfd : env.memfd_create with
  | none =>
    refine ⟨fun r => ⟨by simp, fun h => ?_⟩, by simp, fun _ => leaves_nil⟩
    obtain ⟨fd, hsome⟩ := h.memfd_create
    cases hfd.symm.trans hsome
  | some fd =>
    cases htruncate : env.ftruncate aligned with
    | error e =>
      refine ⟨fun r => ⟨by simp, fun h => ?_⟩, by simp, fun _ start => by simp⟩
      have hok := h.ftruncate
      rw [(hregion r h).2, htruncate] at hok
      cases hok
    | ok =>
      refine ⟨fun r => ⟨fun h => ?_, fun h => ?_⟩, fun r h => ?_, fun h => ?_⟩
      · obtain ⟨ptr, hptr, rfl⟩ := Option.map_eq_some_iff.mp (Outcome.ok.inj h)
        exact ⟨hmeta, hround, ⟨fd, hfd⟩, htruncate, hptr⟩
      · obtain ⟨rfl, rfl⟩ := hregion r h
        simp only [h.mmap, Option.map_some]
      · obtain ⟨ptr, hptr, rfl⟩ := Option.map_eq_some_iff.mp (Outcome.ok.inj h)
        intro start
        simp [hptr, Multiset.erase_cons_tail]
      · intro start
        simp [Option.map_eq_none_iff.mp (Outcome.ok.inj h)]

/-- There is no region when the length of the file cannot be rounded. -/
theorem MemfdEnv.no_region {b : Build} {env : MemfdEnv σ} {len : ℕ} (hmeta : env.metadata = .ok len)
    (hfails : ∀ aligned, roundToHugepage b len ≠ .ok aligned) (r : Region) :
    ¬ env.MemfdRegion b r := by
  intro h
  obtain rfl := Except.ok.inj (hmeta.symm.trans h.metadata)
  exact hfails _ h.round

/-- The allocation of the one-shot run `hugepage-memfd`. -/
theorem memfd_allocates (b : Build) (env : MemfdEnv σ) :
    (Act.expect env.metadata >>= allocMemfdHugepage b env).Allocates (env.MemfdRegion b) := by
  cases hmeta : env.metadata with
  | error e =>
    refine .fails (fun o => by simp [Act.expect]) fun r h => ?_
    cases hmeta.symm.trans h.metadata
  | ok len =>
    cases hround : roundToHugepage b len with
    | err e =>
      refine .fails (fun o => ?_) (MemfdEnv.no_region hmeta (by simp [hround]))
      simp [Act.expect, allocMemfdHugepage, hround]
    | panic =>
      refine .fails (fun o => ?_) (MemfdEnv.no_region hmeta (by simp [hround]))
      simp [Act.expect, allocMemfdHugepage, hround]
    | ok aligned =>
      -- From here on it is what both memfd allocations do.
      convert MemfdEnv.mapped_allocates hmeta hround using 1
      simp only [Act.expect, Act.ok_bind, Act.after_nil, allocMemfdHugepage, hround, Act.lift_eq,
        MemfdEnv.mapped]
      cases env.memfd_create with
      | none => rfl
      | some fd =>
        cases env.ftruncate aligned with
        | error e => rfl
        | ok => rfl

/-- The region of `measure_h3c`. -/
theorem h3c_allocates (b : Build) (env : MemfdEnv σ) :
    (h3cRegion b env).Allocates (env.MemfdRegion b) := by
  unfold h3cRegion
  cases hfd : env.memfd_create with
  | none =>
    refine ⟨fun r => ⟨by simp, fun h => ?_⟩, by simp, fun _ => leaves_nil⟩
    obtain ⟨fd, hsome⟩ := h.memfd_create
    cases hfd.symm.trans hsome
  | some fd =>
    cases hmeta : env.metadata with
    | error e =>
      -- The panic comes while the memfd is open.
      refine .fails (fun o => by simp [Act.expect]) fun r h => ?_
      cases hmeta.symm.trans h.metadata
    | ok len =>
      cases hround : roundToHugepage b len with
      | err e =>
        refine .fails (fun o => ?_) (MemfdEnv.no_region hmeta (by simp [hround]))
        simp [Act.expect, hround]
      | panic =>
        refine .fails (fun o => ?_) (MemfdEnv.no_region hmeta (by simp [hround]))
        simp [Act.expect, hround]
      | ok aligned =>
        convert MemfdEnv.mapped_allocates hmeta hround using 1
        simp only [Act.call_eq, Act.expect, Act.ok_bind, Act.after_nil, hround, Act.lift_eq,
          MemfdEnv.mapped, hfd]
        cases env.ftruncate aligned with
        | error e => rfl
        | ok => rfl

/-! ## What they measure -/

/-- A filled region leaves nothing held but itself. -/
theorem fillHugepage_leaves (env : MemfdEnv σ) (len : ℕ) :
    Leaves (fillHugepage env len).calls 0 := by
  intro start
  cases hfile : env.file with
  | error e => simp [fillHugepage, Act.expect, hfile]
  | ok file =>
    cases hexact : env.read_exact len with
    | error e => simp [fillHugepage, Act.expect, hfile, hexact]
    | ok bytes => simp [fillHugepage, Act.expect, hfile, hexact]

/-- It holds what was read. -/
theorem fillHugepage_ok {env : MemfdEnv σ} {len : ℕ} {bytes : List UInt8} :
    (fillHugepage env len).outcome = .ok bytes ↔
      (∃ file, env.file = .ok file) ∧ env.read_exact len = .ok bytes := by
  simp [fillHugepage, Act.outcome_bind, Outcome.bind_eq_ok, Act.outcome_expect, Act.outcome_after]

/-- The steps after the allocation succeed: the region `r` is filled with `bytes`, and zstd starts
from `s`. -/
structure MemfdEnv.Fills (env : MemfdEnv σ) (r : Region) (bytes : List UInt8) (s : σ) : Prop where
  file : ∃ file, env.file = .ok file
  read_exact : env.read_exact r.len = .ok bytes
  zstd : env.zstd = .ok s

/-- The hugepages that a region is, filled with the file. -/
def Region.filled (r : Region) (bytes : List UInt8) : HugepageBuf :=
  .loaded r.ptr r.len r.aligned bytes

section Measure

variable {z : RawDecoder σ} {k : Kernel} {fuel : ℕ} {bufs : ℕ → List UInt8} {env : MemfdEnv σ}
  {alloc : Act (Option Region)} {P : Region → Prop}

/-- What a measurement on a region does, when it ends without a panic. -/
theorem measureRegion_ok {r : Region} {act : Act Measured} {m : Measured}
    (h : measureRegion z k fuel bufs env r = some act) (hm : act.outcome = .ok m) :
    ∃ bytes s n, env.Fills r bytes s ∧ m = .decoded n ∧
      act.calls = (fillHugepage env r.len).calls ++ [.release (.hugepages r.ptr r.aligned)] ∧
      copyExpect z k fuel bufs (.new (.slice (r.filled bytes).deref) s) = some (.ok n) := by
  unfold measureRegion at h
  cases hfilled : (fillHugepage env r.len).outcome with
  | err e =>
    simp only [hfilled, Option.some.injEq] at h
    subst h
    cases hm
  | panic =>
    simp only [hfilled, Option.some.injEq] at h
    subst h
    cases hm
  | ok bytes =>
    obtain ⟨hfile, hexact⟩ := fillHugepage_ok.mp hfilled
    cases hzstd : env.zstd with
    | error e =>
      simp only [hfilled, hzstd, fromSlice, Act.result_error, Act.err_bind, Option.some.injEq] at h
      subst h
      cases hm
    | ok s =>
      simp only [hfilled, hzstd, fromSlice, Act.result_ok, Act.ok_bind, Act.after_nil,
        Act.pure_eq] at h
      obtain ⟨copied, hcopied, rfl⟩ := Option.map_eq_some_iff.mp h
      cases copied with
      | ok n =>
        obtain rfl := Outcome.ok.inj hm
        exact ⟨bytes, s, n, ⟨hfile, hexact, hzstd⟩, rfl, rfl, hcopied⟩
      | err e => cases hm
      | panic => cases hm

/-- A measurement on a region that is filled and copied. -/
theorem measureRegion_of_copied {r : Region} {bytes : List UInt8} {s : σ} {n : ℕ}
    (h : env.Fills r bytes s)
    (hcopied : copyExpect z k fuel bufs (.new (.slice (r.filled bytes).deref) s) = some (.ok n)) :
    ∃ act, measureRegion z k fuel bufs env r = some act ∧ act.outcome = .ok (.decoded n) := by
  have hfilled := fillHugepage_ok.mpr ⟨h.file, h.read_exact⟩
  unfold measureRegion
  unfold Region.filled at hcopied
  simp only [hfilled, h.zstd, fromSlice, Act.result_ok, Act.ok_bind, Act.after_nil, Act.pure_eq,
    hcopied, Option.map_some]
  exact ⟨_, rfl, rfl⟩

/-- A measurement decodes `n` bytes exactly when its region is allocated and filled, and copying
from the slice gives `n` bytes. -/
theorem measureIn_decodes_iff (h : alloc.Allocates P) (n : ℕ) :
    (∃ act, measureIn z k fuel bufs env alloc = some act ∧ act.outcome = .ok (.decoded n)) ↔
      ∃ r bytes s, P r ∧ env.Fills r bytes s ∧
        copyExpect z k fuel bufs (.new (.slice (r.filled bytes).deref) s) = some (.ok n) := by
  unfold measureIn
  constructor
  · rintro ⟨act, hact, hm⟩
    cases halloc : alloc.outcome with
    | err e =>
      simp only [halloc, Option.some.injEq] at hact
      subst hact
      cases hm
    | panic =>
      simp only [halloc, Option.some.injEq] at hact
      subst hact
      cases hm
    | ok o =>
      cases o with
      | none =>
        simp only [halloc, Option.some.injEq] at hact
        subst hact
        cases hm
      | some r =>
        simp only [halloc] at hact
        obtain ⟨rest, hrest, rfl⟩ := Option.map_eq_some_iff.mp hact
        obtain ⟨bytes, s, n', hfills, hn, -, hcopied⟩ := measureRegion_ok hrest hm
        obtain rfl := Measured.decoded.inj hn
        exact ⟨r, bytes, s, (h.some_iff r).mp halloc, hfills, hcopied⟩
  · rintro ⟨r, bytes, s, hP, hfills, hcopied⟩
    obtain ⟨rest, hrest, hn⟩ := measureRegion_of_copied hfills hcopied
    simp only [(h.some_iff r).mpr hP, hrest, Option.map_some]
    exact ⟨_, rfl, hn⟩

/-- A measurement that ends without a panic holds nothing. -/
theorem measureIn_leaves (h : alloc.Allocates P) {act : Act Measured} {m : Measured}
    (hact : measureIn z k fuel bufs env alloc = some act) (hm : act.outcome = .ok m) :
    Leaves act.calls 0 := by
  unfold measureIn at hact
  cases halloc : alloc.outcome with
  | err e =>
    simp only [halloc, Option.some.injEq] at hact
    subst hact
    cases hm
  | panic =>
    simp only [halloc, Option.some.injEq] at hact
    subst hact
    cases hm
  | ok o =>
    cases o with
    | none =>
      simp only [halloc, Option.some.injEq] at hact
      subst hact
      exact h.leaves_none halloc
    | some r =>
      simp only [halloc] at hact
      obtain ⟨rest, hrest, rfl⟩ := Option.map_eq_some_iff.mp hact
      obtain ⟨bytes, s, n, -, -, hcalls, -⟩ := measureRegion_ok hrest hm
      -- The region is held while it is filled, and unmapped last.
      have hfilled := (h.leaves_some r halloc).append (fillHugepage_leaves env r.len)
      have hreleased : Leaves ((alloc.calls ++ (fillHugepage env r.len).calls) ++
          [.hugepages r.ptr r.aligned].map .release) 0 := hfilled.release
      rw [hcalls, ← List.append_assoc]
      exact hreleased

end Measure

/-! ## The constructors -/

/-- `open_hugepage_memfd` returns hugepages that a memfd gives, filled with the file. -/
theorem openHugepageMemfd_ok_iff {b : Build} {env : MemfdEnv σ} {d : Decoder σ} :
    (openHugepageMemfd b env).outcome = .ok d ↔ ∃ r bytes s, env.MemfdRegion b r ∧
      env.Fills r bytes s ∧ d = .new (.hugepage (r.filled bytes)) s := by
  constructor
  · intro hd
    simp only [openHugepageMemfd, Act.outcome_bind, Outcome.bind_eq_ok, Act.outcome_result] at hd
    obtain ⟨len, hmeta, capacity, hround, hd⟩ := hd
    cases hfd : env.memfd_create with
    | none => simp [hfd] at hd
    | some fd =>
      cases htruncate : env.ftruncate capacity with
      | error e => simp [hfd, htruncate] at hd
      | ok =>
        cases hmmap : env.mmap capacity with
        | none => simp [hfd, htruncate, hmmap] at hd
        | some ptr =>
          simp only [hfd, htruncate, hmmap, Act.outcome_bind, Outcome.bind_eq_ok,
            Act.outcome_result, Act.outcome_closing] at hd
          obtain ⟨-, -, -, -, -, -, file, hfile, -, -, bytes, hbytes, s, hs, hd⟩ := hd
          cases hexact : env.read_exact len with
          | error e => simp [hexact] at hbytes
          | ok read =>
            simp only [hexact, Act.pure_eq, Outcome.ok.injEq] at hbytes
            subst hbytes
            exact ⟨⟨ptr, capacity, len⟩, read, s, ⟨hmeta, hround, ⟨fd, hfd⟩, htruncate, hmmap⟩,
              ⟨⟨file, hfile⟩, hexact, hs⟩, (Outcome.ok.inj hd).symm⟩
  · rintro ⟨r, bytes, s, ⟨hmeta, hround, ⟨fd, hfd⟩, htruncate, hmmap⟩, ⟨⟨file, hfile⟩, hexact, hs⟩,
      rfl⟩
    simp [openHugepageMemfd, hmeta, hround, hfd, htruncate, hmmap, hfile, hexact, hs, Region.filled]

/-- `open_hugepage` sees the file that the measurements see, and the same zstd. -/
structure AnonEnv.SameFile (anon : AnonEnv σ) (env : MemfdEnv σ) : Prop where
  read_iff : ∀ bytes, anon.read = .ok bytes ↔ env.metadata = .ok bytes.length ∧
    (∃ file, env.file = .ok file) ∧ env.read_exact bytes.length = .ok bytes
  read_exact : ∀ len bytes, env.metadata = .ok len → env.read_exact len = .ok bytes →
    bytes.length = len
  zstd : anon.zstd = env.zstd

/-- `open_hugepage` returns hugepages that an anonymous mapping gives, filled with the file. -/
theorem openHugepage_ok_iff {b : Build} {env : MemfdEnv σ} {anon : AnonEnv σ}
    (h : anon.SameFile env) {d : Decoder σ} :
    (openHugepage b anon).outcome = .ok d ↔ ∃ r bytes s, env.AnonRegion b anon.mmap r ∧
      env.Fills r bytes s ∧ d = .new (.hugepage (r.filled bytes)) s := by
  constructor
  · intro hd
    simp only [openHugepage, Act.outcome_bind, Outcome.bind_eq_ok, Act.outcome_result] at hd
    obtain ⟨bytes, hread, capacity, hround, -, -, hd⟩ := hd
    obtain ⟨hmeta, hfile, hexact⟩ := (h.read_iff bytes).mp hread
    cases hmmap : anon.mmap capacity with
    | none => simp [hmmap] at hd
    | some ptr =>
      simp only [hmmap, Act.outcome_bind, Outcome.bind_eq_ok, Act.outcome_result] at hd
      obtain ⟨s, hs, hd⟩ := hd
      exact ⟨⟨ptr, capacity, bytes.length⟩, bytes, s, ⟨hmeta, hround, hmmap⟩,
        ⟨hfile, hexact, h.zstd ▸ hs⟩, (Outcome.ok.inj hd).symm⟩
  · rintro ⟨⟨ptr, capacity, len⟩, bytes, s, ⟨hmeta, hround, hmmap⟩, ⟨hfile, hexact, hs⟩, rfl⟩
    -- The file read at once is the one read into the region.
    obtain rfl := h.read_exact len bytes hmeta hexact
    have hread := (h.read_iff bytes).mpr ⟨hmeta, hfile, hexact⟩
    rw [← h.zstd] at hs
    simp [openHugepage, hread, hround, hmmap, hs, Region.filled]

/-! ## Agreement -/

/-- Hugepages are copied as the slice that they dereference to. -/
theorem copyExpect_hugepage (z : RawDecoder σ) (fuel : ℕ) (bufs : ℕ → List UInt8) (h : HugepageBuf)
    (s : σ) : copyExpect z .file fuel bufs (.new (.hugepage h) s) =
      copyExpect z .file fuel bufs (.new (.slice h.deref) s) := by
  have hfile : Kernel.file.DestroysPages 1 := fun m offset len i _ => rfl
  have hsame : SameView (Decoder.new (.hugepage h) s) (.new (.slice h.deref) s) :=
    ⟨⟨h.deref.length, h.deref, ⟨h.deref, rfl, rfl, rfl⟩, ⟨h.deref, rfl, rfl, rfl⟩⟩, rfl, rfl⟩
  have hdrain := drain_lockstep (z := z)
    (fun _ _ fuel buf h => h.read hfile (by decide) (by decide) hfile (by decide) (by decide) fuel
      buf) fuel _ _ bufs hsame
  have hcopied := congrArg (Option.map fun r => expectCopied r.1 r.2) hdrain
  rw [Option.map_map, Option.map_map] at hcopied
  exact hcopied

/-- The measurement speaks of the constructor: it decodes `n` bytes exactly when copying from the
constructor's decoder delivers `n` bytes, and when it ends without a panic, it has released only
what it had acquired, and holds nothing. -/
structure PrototypeOf (z : RawDecoder σ) (fuel : ℕ) (bufs : ℕ → List UInt8) (a : Act (Decoder σ))
    (measured : Option (Act Measured)) : Prop where
  decodes_iff : ∀ n, (∃ act, measured = some act ∧ act.outcome = .ok (.decoded n)) ↔
    ∃ d, a.outcome = .ok d ∧ copyExpect z .file fuel bufs d = some (.ok n)
  holds_nothing : ∀ act m, measured = some act → act.outcome = .ok m →
    Sound 0 (ledger act.calls) ∧ held (ledger act.calls) = 0

/-- A measurement is a prototype of the constructor that returns its region as hugepages. -/
theorem measureIn_prototypeOf {z : RawDecoder σ} {fuel : ℕ} {bufs : ℕ → List UInt8}
    {env : MemfdEnv σ} {alloc : Act (Option Region)} {P : Region → Prop} {a : Act (Decoder σ)}
    (halloc : alloc.Allocates P) (ha : ∀ d, a.outcome = .ok d ↔ ∃ r bytes s, P r ∧
      env.Fills r bytes s ∧ d = .new (.hugepage (r.filled bytes)) s) :
    PrototypeOf z fuel bufs a (measureIn z .file fuel bufs env alloc) where
  decodes_iff n := by
    rw [measureIn_decodes_iff halloc]
    constructor
    · rintro ⟨r, bytes, s, hP, hfills, hcopied⟩
      refine ⟨_, (ha _).mpr ⟨r, bytes, s, hP, hfills, rfl⟩, ?_⟩
      rw [copyExpect_hugepage, hcopied]
    · rintro ⟨d, hd, hcopied⟩
      obtain ⟨r, bytes, s, hP, hfills, rfl⟩ := (ha d).mp hd
      rw [copyExpect_hugepage] at hcopied
      exact ⟨r, bytes, s, hP, hfills, hcopied⟩
  holds_nothing act m hact hm := measureIn_leaves halloc hact hm 0

/-- What was measured is what the crate does. On a file that both see, whatever any of their steps
answers, `measure_h3b` is a prototype of `open_hugepage`, and `measure_h3c` and the one-shot run of
the benchmark are prototypes of `open_hugepage_memfd`. -/
theorem prototypes_decode_iff (b : Build) (z : RawDecoder σ) (fuel : ℕ) (bufs : ℕ → List UInt8)
    (env : MemfdEnv σ) (anon : AnonEnv σ) (h : anon.SameFile env) :
    PrototypeOf z fuel bufs (openHugepage b anon)
        (measureH3b b z .file fuel bufs env anon.mmap) ∧
      PrototypeOf z fuel bufs (openHugepageMemfd b env)
        (hugepageMemfdStats b z .file fuel bufs env) ∧
      PrototypeOf z fuel bufs (openHugepageMemfd b env) (measureH3c b z .file fuel bufs env) :=
  ⟨measureIn_prototypeOf (anon_allocates b env anon.mmap) fun _ => openHugepage_ok_iff h,
    measureIn_prototypeOf (memfd_allocates b env) fun _ => openHugepageMemfd_ok_iff,
    measureIn_prototypeOf (h3c_allocates b env) fun _ => openHugepageMemfd_ok_iff⟩

/-- The steps of `open_hugepage` on the file that `helloEnv` sees. -/
def helloAnon : AnonEnv RefState where
  read := .ok (encoded [rawFrame hello])
  mmap := helloEnv.mmap
  meminfo := none
  zstd := .ok (.start [rawFrame hello])

/-- They see the same file. -/
theorem helloAnon_sameFile : helloAnon.SameFile helloEnv.memfd where
  read_iff bytes := by
    constructor
    · rintro ⟨⟩
      exact ⟨rfl, ⟨3, rfl⟩, rfl⟩
    · rintro ⟨hmeta, -, hexact⟩
      rw [← Except.ok.inj hmeta] at hexact
      exact hexact
  read_exact len bytes hmeta hexact := by
    cases hmeta
    cases hexact
    rfl
  zstd := rfl

/-- `measure_h3c` decodes the five bytes of the file, as the constructor does. -/
theorem prototypes_decode_iff_hello :
    ∃ act, measureH3c .release reference .file 20 (fun _ => [0, 0]) helloEnv.memfd = some act ∧
      act.outcome = .ok (.decoded 5) := by
  obtain ⟨-, -, h⟩ := prototypes_decode_iff .release reference 20 (fun _ => [0, 0]) helloEnv.memfd
    helloAnon helloAnon_sameFile
  have hslice : copyExpect reference .file 20 (fun _ => [0, 0])
      (.new (.slice (encoded [rawFrame hello])) (.start [rawFrame hello])) = some (.ok 5) := rfl
  have hderef : (HugepageBuf.loaded hugepage (encoded [rawFrame hello]).length hugepage
      ((encoded [rawFrame hello]).take 14)).deref = encoded [rawFrame hello] :=
    HugepageBuf.deref_loaded hugepage (by decide)
  refine (h.decodes_iff 5).mpr ⟨_, rfl, (copyExpect_hugepage _ _ _ _ _).trans ?_⟩
  rw [← hderef] at hslice
  exact hslice

end MmapZstd
