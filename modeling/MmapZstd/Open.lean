import MmapZstd.Lib.Ledger
import MmapZstd.Meminfo
import MmapZstd.Session

/-!
# Opening and dropping hugepage decoders

The three constructors of `src/decoder.rs` that map hugepages, and the drop of a decoder. What each
fallible step of a constructor answers is a parameter, an environment, so that any of them may
succeed or fail. A constructor returns the system calls that it made, in order, and its outcome.

The hugepage mapping of `open_hugepage` and of `open_hugepage_memfd` is a raw pointer until the
decoder is built: an early return unmaps it only where the source says so. In
`open_hugepage_streaming` the scratch is a `HugepageBuf` from the start, and its drop unmaps it on
every early return.
-/

namespace MmapZstd

open Ledger

/-- What a constructor acquires from the system. -/
inductive Resource
  /-- A mapping of hugepages. -/
  | hugepages (ptr len : ℕ)
  /-- A mapping of a file. -/
  | file (ptr len : ℕ)
  /-- An open file descriptor. -/
  | fd (n : ℕ)
  deriving DecidableEq

/-- A system call on resources. -/
inductive Syscall
  /-- `mmap` of `len` bytes of hugepages, and its answer; `none` is `MAP_FAILED`. -/
  | mmap (len : ℕ) (answer : Option ℕ)
  /-- A resource was acquired by another call that succeeded. -/
  | acquire (r : Resource)
  /-- `munmap` of a mapping, or `close` of a descriptor. -/
  | release (r : Resource)

/-- The ledger entry that a system call makes. -/
def Syscall.entry : Syscall → Option (Entry Resource)
  | .mmap len (some ptr) => some (.acquire (.hugepages ptr len))
  | .mmap _ none => none
  | .acquire r => some (.acquire r)
  | .release r => some (.release r)

/-- The ledger of a sequence of system calls. -/
def ledger (calls : List Syscall) : List (Entry Resource) := calls.filterMap Syscall.entry

@[simp]
theorem ledger_nil : ledger [] = [] := rfl

@[simp]
theorem ledger_append (calls calls' : List Syscall) :
    ledger (calls ++ calls') = ledger calls ++ ledger calls' := by
  simp [ledger]

@[simp]
theorem ledger_mmap_some (len ptr : ℕ) (calls : List Syscall) :
    ledger (.mmap len (some ptr) :: calls) = .acquire (.hugepages ptr len) :: ledger calls := rfl

@[simp]
theorem ledger_mmap_none (len : ℕ) (calls : List Syscall) :
    ledger (.mmap len none :: calls) = ledger calls := rfl

@[simp]
theorem ledger_acquire (r : Resource) (calls : List Syscall) :
    ledger (.acquire r :: calls) = .acquire r :: ledger calls := rfl

@[simp]
theorem ledger_release (r : Resource) (calls : List Syscall) :
    ledger (.release r :: calls) = .release r :: ledger calls := rfl

/-- The length of the hugepage mapping that a system call asks for. -/
def Syscall.request : Syscall → Option ℕ
  | .mmap len _ => some len
  | _ => none

/-- The lengths of the hugepage mappings that were asked for. -/
def requests (calls : List Syscall) : List ℕ := calls.filterMap Syscall.request

@[simp]
theorem requests_nil : requests [] = [] := rfl

@[simp]
theorem requests_mmap (len : ℕ) (answer : Option ℕ) (calls : List Syscall) :
    requests (.mmap len answer :: calls) = len :: requests calls := rfl

@[simp]
theorem requests_acquire (r : Resource) (calls : List Syscall) :
    requests (.acquire r :: calls) = requests calls := rfl

@[simp]
theorem requests_release (r : Resource) (calls : List Syscall) :
    requests (.release r :: calls) = requests calls := rfl

/-! ## Code that makes system calls -/

/-- What a piece of code did: its system calls, and how it ended. -/
structure Act (α : Type) where
  calls : List Syscall
  outcome : Outcome α

namespace Act

variable {α β : Type}

/-- The same, after the system calls `calls`. -/
def after (calls : List Syscall) (x : Act α) : Act α := ⟨calls ++ x.calls, x.outcome⟩

/-- One piece of code after another, with `?` between them. -/
def bind (x : Act α) (f : α → Act β) : Act β :=
  match x.outcome with
  | .ok a => after x.calls (f a)
  | .err e => ⟨x.calls, .err e⟩
  | .panic => ⟨x.calls, .panic⟩

instance : Monad Act where
  pure a := ⟨[], .ok a⟩
  bind := bind

/-- A step that makes no system call on resources. -/
def lift (o : Outcome α) : Act α := ⟨[], o⟩

/-- A step that answers a `Result`. -/
def result (r : Except IoError α) : Act α :=
  match r with
  | .ok a => ⟨[], .ok a⟩
  | .error e => ⟨[], .err e⟩

/-- `return Err(e)`. -/
def fail (e : IoError) : Act α := ⟨[], .err e⟩

/-- A system call. -/
def call (c : Syscall) : Act Unit := ⟨[c], .ok ()⟩

/-- The resource `r` is owned by a local variable until the end of the block, which drops it. -/
def closing (r : Resource) (x : Act α) : Act α := ⟨x.calls ++ [.release r], x.outcome⟩

/-- The resource `r` is owned by a local variable that moves into the result, and is dropped when
the block is left early. -/
def moving (r : Resource) (x : Act α) : Act α :=
  match x.outcome with
  | .ok _ => x
  | _ => closing r x

/-- The outcome of one piece of code after another. -/
theorem outcome_bind (x : Act α) (f : α → Act β) :
    (x >>= f).outcome = x.outcome >>= fun a => (f a).outcome := by
  obtain ⟨calls, outcome⟩ := x
  cases outcome with
  | ok a => rfl
  | err e => rfl
  | panic => rfl

@[simp]
theorem pure_eq (a : α) : (pure a : Act α) = ⟨[], .ok a⟩ := rfl

@[simp]
theorem ok_bind (calls : List Syscall) (a : α) (f : α → Act β) :
    ((⟨calls, .ok a⟩ : Act α) >>= f) = after calls (f a) := rfl

@[simp]
theorem after_mk (calls calls' : List Syscall) (o : Outcome α) :
    after calls ⟨calls', o⟩ = ⟨calls ++ calls', o⟩ := rfl

@[simp]
theorem err_bind (calls : List Syscall) (e : IoError) (f : α → Act β) :
    ((⟨calls, .err e⟩ : Act α) >>= f) = ⟨calls, .err e⟩ := rfl

@[simp]
theorem panic_bind (calls : List Syscall) (f : α → Act β) :
    ((⟨calls, .panic⟩ : Act α) >>= f) = ⟨calls, .panic⟩ := rfl

@[simp]
theorem after_nil (x : Act α) : after [] x = x := rfl

@[simp]
theorem lift_eq (o : Outcome α) : lift o = ⟨[], o⟩ := rfl

@[simp]
theorem result_ok (a : α) : result (.ok a) = ⟨[], .ok a⟩ := rfl

@[simp]
theorem result_error (e : IoError) : (result (.error e) : Act α) = ⟨[], .err e⟩ := rfl

@[simp]
theorem fail_eq (e : IoError) : (fail e : Act α) = ⟨[], .err e⟩ := rfl

@[simp]
theorem call_eq (c : Syscall) : call c = ⟨[c], .ok ()⟩ := rfl

@[simp]
theorem closing_eq (r : Resource) (calls : List Syscall) (o : Outcome α) :
    closing r ⟨calls, o⟩ = ⟨calls ++ [.release r], o⟩ := rfl

@[simp]
theorem moving_ok (r : Resource) (calls : List Syscall) (a : α) :
    moving r ⟨calls, .ok a⟩ = ⟨calls, .ok a⟩ := rfl

@[simp]
theorem moving_err (r : Resource) (calls : List Syscall) (e : IoError) :
    (moving r ⟨calls, .err e⟩ : Act α) = ⟨calls ++ [.release r], .err e⟩ := rfl

end Act

/-! ## The constructors -/

/-- `(n + HUGEPAGE - 1) & !(HUGEPAGE - 1)`. -/
def roundToHugepage (b : Build) (n : ℕ) : Outcome ℕ := do
  let sum ← b.add n hugepage
  let sum ← b.sub sum 1
  pure (sum &&& usizeNot (hugepage - 1))

/-- The mask `!(HUGEPAGE - 1)` rounds a `usize` down to a multiple of the hugepage size. -/
theorem land_hugepage {x : ℕ} (hx : x < usizeSize) :
    x &&& usizeNot (hugepage - 1) = Align.down hugepage x :=
  land_usizeNot (k := 21) (by decide) hx

/-- Whatever overflows on the way, what is left is a multiple of the hugepage size. -/
theorem roundToHugepage_dvd {b : Build} {n capacity : ℕ} (h : roundToHugepage b n = .ok capacity) :
    hugepage ∣ capacity := by
  obtain ⟨sum, -, h⟩ := Outcome.bind_eq_ok.mp h
  obtain ⟨less, -, h⟩ := Outcome.bind_eq_ok.mp h
  -- The mask has no bits below those of a multiple.
  have hmask : usizeNot (hugepage - 1) % 2 ^ 21 = 0 := by decide
  have hdvd : 2 ^ 21 ∣ less &&& usizeNot (hugepage - 1) := by
    rw [Nat.dvd_iff_mod_eq_zero, Nat.and_mod_two_pow, hmask, Nat.and_zero]
  rwa [Outcome.ok.inj h] at hdvd

/-- Away from the top of the range, it rounds up to the next multiple of the hugepage size. -/
theorem roundToHugepage_eq (b : Build) {n : ℕ} (h : n + hugepage < usizeSize) :
    roundToHugepage b n = .ok (Align.up hugepage n) := by
  have hadd := b.add_of_lt h
  have hsub : b.sub (n + hugepage) 1 = .ok (n + hugepage - 1) :=
    if_pos (Nat.le_add_left_of_le (by decide))
  have hmask : (n + hugepage - 1) &&& usizeNot (hugepage - 1) = Align.up hugepage n :=
    land_hugepage (by omega)
  unfold roundToHugepage
  rw [hadd, Outcome.ok_bind, hsub, Outcome.ok_bind, hmask, Outcome.pure_eq]

/-- At the top of the range, a debug build panics. -/
theorem roundToHugepage_debug {n : ℕ} (h : usizeSize ≤ n + hugepage) :
    roundToHugepage .debug n = .panic := by
  have hadd : Build.debug.add n hugepage = .panic := if_neg (Nat.not_lt.mpr h)
  unfold roundToHugepage
  rw [hadd, Outcome.panic_bind]

/-- Past the last multiple of the hugepage size, a release build wraps and rounds to zero. -/
theorem roundToHugepage_release {n : ℕ} (h : usizeSize < n + hugepage) (hn : n < usizeSize) :
    roundToHugepage .release n = .ok 0 := by
  -- The sum has wrapped to a number below the hugepage size, which the mask clears.
  have hadd : Build.release.add n hugepage = .ok (n + hugepage - usizeSize) :=
    if_neg (Nat.not_lt.mpr h.le)
  have hsub : Build.release.sub (n + hugepage - usizeSize) 1 =
      .ok (n + hugepage - usizeSize - 1) := if_pos (by omega)
  have hmask : (n + hugepage - usizeSize - 1) &&& usizeNot (hugepage - 1) = 0 := by
    have hlt : n + hugepage - usizeSize - 1 < hugepage := by omega
    rw [land_hugepage (hlt.trans (by decide)), Align.down_eq_zero hlt]
  unfold roundToHugepage
  rw [hadd, Outcome.ok_bind, hsub, Outcome.ok_bind, hmask, Outcome.pure_eq]

/-- The error after a failed hugepage mapping. -/
def mapHugetlbFailed (meminfo : Option (List Char)) : IoError where
  kind := .outOfMemory
  message := "MAP_HUGETLB failed (HugePages_Free=" ++
    toString ((readHugepagesFree meminfo).getD 0) ++
    "); reserve hugepages with `sudo sysctl vm.nr_hugepages=N` " ++
    "(see README §System requirements)"

/-- A hugepage mapping of `capacity` bytes with `bytes` copied to its start. -/
def HugepageBuf.loaded (ptr len capacity : ℕ) (bytes : List UInt8) : HugepageBuf where
  ptr := ptr
  mem := overwrite (.replicate capacity 0) bytes
  len := len
  capacity := capacity
  mem_length := by simp

variable {σ : Type}

/-- What the steps of `open_hugepage` answer. -/
structure AnonEnv (σ : Type) where
  /-- `std::fs::read`. -/
  read : Except IoError (List UInt8)
  /-- `mmap(MAP_ANONYMOUS | MAP_HUGETLB)`, by length. -/
  mmap : ℕ → Option ℕ
  meminfo : Option (List Char)
  /-- `ZstdDecoder::new`. -/
  zstd : Except IoError σ

/-- `Decoder::open_hugepage`. -/
def openHugepage (b : Build) (env : AnonEnv σ) : Act (Decoder σ) := do
  let compressed ← Act.result env.read
  let len := compressed.length
  let capacity ← Act.lift (roundToHugepage b len)
  Act.call (.mmap capacity (env.mmap capacity))
  match env.mmap capacity with
  | none => Act.fail (mapHugetlbFailed env.meminfo)
  | some ptr =>
    -- The mapping is a raw pointer here, so the `?` does not unmap it.
    let zstd ← Act.result env.zstd
    pure (.new (.hugepage (.loaded ptr len capacity compressed)) zstd)

/-- What the steps of `open_hugepage_memfd` answer. -/
structure MemfdEnv (σ : Type) where
  /-- The file's length, in its metadata. -/
  metadata : Except IoError ℕ
  memfd_create : Option ℕ
  /-- `ftruncate` of the memfd, by length. -/
  ftruncate : ℕ → Except IoError Unit
  /-- `mmap` of the memfd, by length. -/
  mmap : ℕ → Option ℕ
  meminfo : Option (List Char)
  /-- `File::open`. -/
  file : Except IoError ℕ
  /-- `read_exact`, by length. -/
  read_exact : ℕ → Except IoError (List UInt8)
  /-- `ZstdDecoder::new`. -/
  zstd : Except IoError σ

/-- `Decoder::open_hugepage_memfd`. -/
def openHugepageMemfd (b : Build) (env : MemfdEnv σ) : Act (Decoder σ) := do
  let len ← Act.result env.metadata
  let capacity ← Act.lift (roundToHugepage b len)
  match env.memfd_create with
  | none => Act.fail (mapHugetlbFailed env.meminfo)
  | some fd =>
    Act.call (.acquire (.fd fd))
    match env.ftruncate capacity with
    | .error e =>
      Act.call (.release (.fd fd))
      Act.fail e
    | .ok () =>
      -- The memfd is closed before the mapping is looked at: a mapping keeps its file.
      Act.call (.mmap capacity (env.mmap capacity))
      Act.call (.release (.fd fd))
      match env.mmap capacity with
      | none => Act.fail (mapHugetlbFailed env.meminfo)
      | some ptr =>
        -- The mapping is a raw pointer here. The `?` on `File::open` does not unmap it, and
        -- neither does the one on `ZstdDecoder::new`; only a failed `read_exact` does.
        let file ← Act.result env.file
        Act.call (.acquire (.fd file))
        let bytes ← Act.closing (.fd file) (do
          match env.read_exact len with
          | .error e =>
            Act.call (.release (.hugepages ptr capacity))
            Act.fail e
          | .ok bytes => pure bytes)
        let zstd ← Act.result env.zstd
        pure (.new (.hugepage (.loaded ptr len capacity bytes)) zstd)

/-- What the steps of `open_hugepage_streaming` answer. -/
structure StreamingEnv (σ : Type) where
  /-- The file's length, in its metadata. -/
  metadata : Except IoError ℕ
  /-- `mmap(MAP_ANONYMOUS | MAP_HUGETLB)`, by length. -/
  mmap : ℕ → Option ℕ
  meminfo : Option (List Char)
  /-- `File::open`. -/
  file : Except IoError ℕ
  /-- `MmapOptions::map`. -/
  map : Except IoError Mmap
  /-- `advise(Sequential)`. -/
  advise : Except IoError Unit
  /-- `ZstdDecoder::new`. -/
  zstd : Except IoError σ
  /-- The steps of `open_hugepage_memfd`, when the call delegates to it. -/
  memfd : MemfdEnv σ

/-- `Decoder::open_hugepage_streaming`. -/
def openHugepageStreaming (b : Build) (window : ℕ) (env : StreamingEnv σ) : Act (Decoder σ) := do
  if window < hugepage then
    Act.fail ⟨.invalidInput, "window must be at least 2 MiB (2 097 152 bytes)"⟩
  else
    let window ← Act.lift (roundToHugepage b window)
    let file_size ← Act.result env.metadata
    -- The comparison is with the rounded window, not with the caller's.
    if window ≥ file_size then openHugepageMemfd b env.memfd
    else
      Act.call (.mmap window (env.mmap window))
      match env.mmap window with
      | none => Act.fail (mapHugetlbFailed env.meminfo)
      | some ptr =>
        -- The scratch owns the mapping from here on.
        Act.moving (.hugepages ptr window) (do
          let file ← Act.result env.file
          Act.call (.acquire (.fd file))
          Act.closing (.fd file) (do
            let src_mmap ← Act.result env.map
            Act.call (.acquire (.file src_mmap.ptr src_mmap.len))
            Act.moving (.file src_mmap.ptr src_mmap.len) (do
              Act.result env.advise
              let zstd ← Act.result env.zstd
              pure (.new (.streaming (.new src_mmap (.scratch ptr (.replicate window 0)))) zstd))))

/-- When the rounded window covers the file, the call delegates to `open_hugepage_memfd`. -/
theorem openHugepageStreaming_delegates {b : Build} {window rounded size : ℕ}
    {env : StreamingEnv σ} (hwindow : hugepage ≤ window)
    (hround : roundToHugepage b window = .ok rounded) (hmeta : env.metadata = .ok size)
    (hcover : size ≤ rounded) :
    openHugepageStreaming b window env = openHugepageMemfd b env.memfd := by
  simp [openHugepageStreaming, Nat.not_lt.mpr hwindow, hround, hmeta, hcover]

/-! ## What the constructors ask for -/

/-- Once its memfd has the capacity, `open_hugepage_memfd` asks for that capacity. -/
theorem openHugepageMemfd_asks {b : Build} {env : MemfdEnv σ} {len capacity fd : ℕ}
    (hmeta : env.metadata = .ok len) (hround : roundToHugepage b len = .ok capacity)
    (hfd : env.memfd_create = some fd) (htruncate : env.ftruncate capacity = .ok ()) :
    requests (openHugepageMemfd b env).calls = [capacity] := by
  cases hmmap : env.mmap capacity with
  | none => simp [openHugepageMemfd, hmeta, hround, hfd, htruncate, hmmap]
  | some ptr =>
    cases hfile : env.file with
    | error e => simp [openHugepageMemfd, hmeta, hround, hfd, htruncate, hmmap, hfile]
    | ok file =>
      cases hexact : env.read_exact len with
      | error e => simp [openHugepageMemfd, hmeta, hround, hfd, htruncate, hmmap, hfile, hexact]
      | ok bytes =>
        cases hzstd : env.zstd with
        | error e =>
          simp [openHugepageMemfd, hmeta, hround, hfd, htruncate, hmmap, hfile, hexact, hzstd]
        | ok zstd =>
          simp [openHugepageMemfd, hmeta, hround, hfd, htruncate, hmmap, hfile, hexact, hzstd]

/-- `open_hugepage_memfd` asks for nothing but its capacity. -/
theorem openHugepageMemfd_requests {b : Build} {env : MemfdEnv σ} {len capacity : ℕ}
    (hmeta : env.metadata = .ok len) (hround : roundToHugepage b len = .ok capacity) :
    ∀ c ∈ requests (openHugepageMemfd b env).calls, c = capacity := by
  cases hfd : env.memfd_create with
  | none => simp [openHugepageMemfd, hmeta, hround, hfd]
  | some fd =>
    cases htruncate : env.ftruncate capacity with
    | error e => simp [openHugepageMemfd, hmeta, hround, hfd, htruncate]
    | ok =>
      rw [openHugepageMemfd_asks hmeta hround hfd htruncate]
      simp

/-- When the rounded window does not cover the file, the call asks for the window, and the decoder
that it returns slides it over the file. -/
theorem openHugepageStreaming_slides {b : Build} {window rounded size : ℕ}
    {env : StreamingEnv σ} (hwindow : hugepage ≤ window)
    (hround : roundToHugepage b window = .ok rounded) (hmeta : env.metadata = .ok size)
    (hshort : rounded < size) :
    requests (openHugepageStreaming b window env).calls = [rounded] ∧
      ∀ d, (openHugepageStreaming b window env).outcome = .ok d → ∃ src ptr,
        d.buf = .streaming (.new src (.scratch ptr (.replicate rounded 0))) := by
  have hsmall := Nat.not_lt.mpr hwindow
  have hcover := Nat.not_le.mpr hshort
  cases hmmap : env.mmap rounded with
  | none => simp [openHugepageStreaming, hsmall, hround, hmeta, hcover, hmmap]
  | some ptr =>
    cases hfile : env.file with
    | error e => simp [openHugepageStreaming, hsmall, hround, hmeta, hcover, hmmap, hfile]
    | ok file =>
      cases hmap : env.map with
      | error e => simp [openHugepageStreaming, hsmall, hround, hmeta, hcover, hmmap, hfile, hmap]
      | ok src =>
        cases hadvise : env.advise with
        | error e =>
          simp [openHugepageStreaming, hsmall, hround, hmeta, hcover, hmmap, hfile, hmap, hadvise]
        | ok =>
          cases hzstd : env.zstd with
          | error e =>
            simp [openHugepageStreaming, hsmall, hround, hmeta, hcover, hmmap, hfile, hmap,
              hadvise, hzstd]
          | ok zstd =>
            have hopen : (openHugepageStreaming b window env).outcome =
                .ok (.new (.streaming (.new src (.scratch ptr (.replicate rounded 0)))) zstd) := by
              simp [openHugepageStreaming, hsmall, hround, hmeta, hcover, hmmap, hfile, hmap,
                hadvise, hzstd]
            refine ⟨by simp [openHugepageStreaming, hsmall, hround, hmeta, hcover, hmmap, hfile,
              hmap, hadvise, hzstd], fun d hd => ⟨src, ptr, ?_⟩⟩
            cases hopen.symm.trans hd
            rfl

/-- The decoder that `open_hugepage_memfd` returns reads the hugepages that it mapped. -/
theorem openHugepageMemfd_hugepage {b : Build} {env : MemfdEnv σ} {d : Decoder σ}
    (hd : (openHugepageMemfd b env).outcome = .ok d) : ∃ h, d.buf = .hugepage h := by
  -- Every step has returned a value, up to the last, which builds the decoder.
  simp only [openHugepageMemfd, Act.outcome_bind, Outcome.bind_eq_ok] at hd
  obtain ⟨len, -, capacity, -, hd⟩ := hd
  cases hfd : env.memfd_create with
  | none => simp [hfd] at hd
  | some fd =>
    cases htruncate : env.ftruncate capacity with
    | error e => simp [hfd, htruncate] at hd
    | ok =>
      cases hmmap : env.mmap capacity with
      | none => simp [hfd, htruncate, hmmap] at hd
      | some ptr =>
        simp only [hfd, htruncate, hmmap, Act.outcome_bind, Outcome.bind_eq_ok] at hd
        obtain ⟨-, -, -, -, -, -, file, -, -, -, bytes, -, zstd, -, hd⟩ := hd
        cases hd
        exact ⟨_, rfl⟩

/-! ## Ownership -/

/-- The mappings that a buffer owns, in the order in which its drop unmaps them. -/
def DecoderBuf.owned : DecoderBuf → List Resource
  | .mmap m => [.file m.ptr m.len]
  | .slice _ => []
  | .hugepage h => [.hugepages h.ptr h.capacity]
  | .streaming s =>
    [.file s.src_mmap.ptr s.src_mmap.len, .hugepages s.scratch.ptr s.scratch.capacity]

/-- The system calls of the drop of a decoder. -/
def Decoder.drop (d : Decoder σ) : List Syscall := d.buf.owned.map .release

/-- The ledger entries of a drop. -/
theorem Decoder.ledger_drop (d : Decoder σ) : ledger d.drop = d.buf.owned.map .release := by
  unfold ledger drop
  rw [List.filterMap_map]
  exact congrFun List.filterMap_eq_map' _

end MmapZstd
