import MmapZstd.Open
import MmapZstd.Sliding
import MmapZstd.WholeBuffer

/-!
# From a file to its content

The five constructors together, and what becomes of a decoder that one of them has returned. What a
constructor sees of the file system is its environment; `Opening.Sees` says that it sees one file.
Then a decoder that was returned holds that file, in hugepages or behind a scratch window
(`Opening.opened`), and reading it to the end delivers the file's content (`opened_decodes`), for
every constructor, every window that a caller may ask for, and both builds.

A kernel refuses to map nothing. The one constructor that relies on it is `open_hugepage_streaming`:
in a release build the largest windows wrap around to zero when they are rounded up.
-/

namespace MmapZstd

open Frames

variable {σ : Type}

/-! ## The constructors without hugepages -/

/-- What the steps of `from_mmap` answer. -/
structure MmapEnv (σ : Type) where
  /-- `advise(Sequential)`. -/
  sequential : Except IoError Unit
  /-- `advise(HugePage)`. -/
  hugePage : Except IoError Unit
  /-- `ZstdDecoder::new`. -/
  zstd : Except IoError σ

/-- `apply_madvise`. -/
def applyMadvise (env : MmapEnv σ) : Act Unit := do
  Act.result env.sequential
  Act.result env.hugePage

/-- `Decoder::from_mmap`. It owns the mapping, and an early return unmaps it. -/
def fromMmap (mmap : Mmap) (env : MmapEnv σ) : Act (Decoder σ) :=
  Act.moving (.file mmap.ptr mmap.len) (do
    applyMadvise env
    let zstd ← Act.result env.zstd
    pure (.new (.mmap mmap) zstd))

/-- `Decoder::from_slice`; `zstd` is what `ZstdDecoder::new` answers. -/
def fromSlice (data : List UInt8) (zstd : Except IoError σ) : Act (Decoder σ) := do
  let zstd ← Act.result zstd
  pure (.new (.slice data) zstd)

/-- A call of a constructor. -/
inductive Opening (σ : Type)
  | fromMmap (mmap : Mmap) (env : MmapEnv σ)
  | fromSlice (data : List UInt8) (zstd : Except IoError σ)
  | openHugepage (env : AnonEnv σ)
  | openHugepageMemfd (env : MemfdEnv σ)
  | openHugepageStreaming (window : ℕ) (env : StreamingEnv σ)

namespace Opening

/-- What the call does. -/
def act (b : Build) : Opening σ → Act (Decoder σ)
  | fromMmap mmap env => MmapZstd.fromMmap mmap env
  | fromSlice data zstd => MmapZstd.fromSlice data zstd
  | openHugepage env => MmapZstd.openHugepage b env
  | openHugepageMemfd env => MmapZstd.openHugepageMemfd b env
  | openHugepageStreaming window env => MmapZstd.openHugepageStreaming b window env

end Opening

/-! ## What they see -/

/-- The steps of `open_hugepage_memfd` see the file. -/
structure MemfdEnv.Sees (env : MemfdEnv σ) (file : List UInt8) (Starts : σ → Prop) : Prop where
  metadata : ∀ len, env.metadata = .ok len → len = file.length
  read_exact : ∀ len bytes, env.read_exact len = .ok bytes → bytes = file.take len
  zstd : ∀ s, env.zstd = .ok s → Starts s

/-- The steps of `open_hugepage_streaming` see the file, and the kernel maps no empty range. -/
structure StreamingEnv.Sees (env : StreamingEnv σ) (file : List UInt8) (Starts : σ → Prop) :
    Prop where
  mmap_zero : env.mmap 0 = none
  map : ∀ m, env.map = .ok m → m.bytes = file
  zstd : ∀ s, env.zstd = .ok s → Starts s
  memfd : env.memfd.Sees file Starts

/-- The steps of the call see the file, so far as they succeed, and a zstd decoder that they create
is in a state of which `Starts` holds. -/
def Opening.Sees (file : List UInt8) (Starts : σ → Prop) : Opening σ → Prop
  | fromMmap mmap env => mmap.bytes = file ∧ ∀ s, env.zstd = .ok s → Starts s
  | fromSlice data zstd => data = file ∧ ∀ s, zstd = .ok s → Starts s
  | openHugepage env => (∀ bytes, env.read = .ok bytes → bytes = file) ∧
      ∀ s, env.zstd = .ok s → Starts s
  | openHugepageMemfd env => env.Sees file Starts
  | openHugepageStreaming _ env => env.Sees file Starts

/-! ## What they return -/

/-- A decoder at the start of the file: a whole buffer that holds it, or a window over a mapping of
it. -/
inductive Decoder.Opened (file : List UInt8) (Starts : σ → Prop) : Decoder σ → Prop
  | whole (buf : DecoderBuf) (zstd : σ) (holds : buf.deref = .ok file) (starts : Starts zstd) :
      Opened file Starts (.new buf zstd)
  | window (src : Mmap) (ptr : ℕ) (mem : List UInt8) (zstd : σ) (holds : src.bytes = file)
      (room : 0 < mem.length) (starts : Starts zstd) :
      Opened file Starts (.new (.streaming (.new src (.scratch ptr mem))) zstd)

/-- The hugepages loaded with a file dereference to it. -/
theorem HugepageBuf.deref_loaded (ptr : ℕ) {capacity : ℕ} {bytes : List UInt8}
    (h : bytes.length ≤ capacity) :
    (HugepageBuf.loaded ptr bytes.length capacity bytes).deref = bytes := by
  unfold HugepageBuf.deref HugepageBuf.loaded
  exact take_overwrite _ _ (by rwa [List.length_replicate])

/-- The length of a file is rounded without an overflow, in either build. -/
theorem roundToHugepage_length (b : Build) {len : ℕ} (hlen : len ≤ isizeMax) :
    roundToHugepage b len = .ok (Align.up hugepage len) := by
  apply roundToHugepage_eq
  unfold isizeMax at hlen
  unfold hugepage usizeSize
  omega

/-- The capacity for a file holds it. -/
theorem le_roundToHugepage {b : Build} {len capacity : ℕ} (hlen : len ≤ isizeMax)
    (h : roundToHugepage b len = .ok capacity) : len ≤ capacity := by
  rw [Outcome.ok.inj (h.symm.trans (roundToHugepage_length b hlen))]
  exact Align.le_up (by decide) len

/-- A step that answers a `Result` returns what it holds. -/
theorem Act.outcome_result {α : Type} {r : Except IoError α} {a : α} :
    (Act.result r).outcome = .ok a ↔ r = .ok a := by
  cases r with
  | ok a => simp
  | error e => simp

/-- A local variable is dropped without a say in the outcome. -/
@[simp]
theorem Act.outcome_closing {α : Type} (r : Resource) (x : Act α) :
    (Act.closing r x).outcome = x.outcome := rfl

@[simp]
theorem Act.outcome_moving {α : Type} (r : Resource) (x : Act α) :
    (Act.moving r x).outcome = x.outcome := by
  obtain ⟨calls, outcome⟩ := x
  cases outcome with
  | ok a => rfl
  | err e => rfl
  | panic => rfl

section Opened

variable {file : List UInt8} {Starts : σ → Prop} {b : Build} {d : Decoder σ}

/-- What `from_mmap` returns. -/
theorem fromMmap_opened {mmap : Mmap} {env : MmapEnv σ} (hmap : mmap.bytes = file)
    (hzstd : ∀ s, env.zstd = .ok s → Starts s) (hd : (fromMmap mmap env).outcome = .ok d) :
    d.Opened file Starts := by
  cases hseq : env.sequential with
  | error e => simp [fromMmap, applyMadvise, hseq] at hd
  | ok =>
    cases hhuge : env.hugePage with
    | error e => simp [fromMmap, applyMadvise, hseq, hhuge] at hd
    | ok =>
      cases hs : env.zstd with
      | error e => simp [fromMmap, applyMadvise, hseq, hhuge, hs] at hd
      | ok s =>
        simp only [fromMmap, applyMadvise, hseq, hhuge, hs, Act.result_ok, Act.ok_bind,
          Act.after_nil, Act.pure_eq, Act.moving_ok, Outcome.ok.injEq] at hd
        subst hd
        exact .whole _ s (congrArg Outcome.ok hmap) (hzstd s hs)

/-- What `from_slice` returns. -/
theorem fromSlice_opened {zstd : Except IoError σ} (hzstd : ∀ s, zstd = .ok s → Starts s)
    (hd : (fromSlice file zstd).outcome = .ok d) : d.Opened file Starts := by
  cases zstd with
  | error e => simp [fromSlice] at hd
  | ok s =>
    simp only [fromSlice, Act.result_ok, Act.ok_bind, Act.after_nil, Act.pure_eq,
      Outcome.ok.injEq] at hd
    subst hd
    exact .whole _ s rfl (hzstd s rfl)

/-- What `open_hugepage` returns. -/
theorem openHugepage_opened {env : AnonEnv σ}
    (hread : ∀ bytes, env.read = .ok bytes → bytes = file)
    (hzstd : ∀ s, env.zstd = .ok s → Starts s) (hlen : file.length ≤ isizeMax)
    (hd : (openHugepage b env).outcome = .ok d) : d.Opened file Starts := by
  simp only [openHugepage, Act.outcome_bind, Outcome.bind_eq_ok, Act.outcome_result] at hd
  obtain ⟨bytes, hbytes, capacity, hround, -, -, hd⟩ := hd
  obtain rfl := hread bytes hbytes
  cases hmmap : env.mmap capacity with
  | none => simp [hmmap] at hd
  | some ptr =>
    simp only [hmmap, Act.outcome_bind, Outcome.bind_eq_ok, Act.outcome_result] at hd
    obtain ⟨s, hs, hd⟩ := hd
    obtain rfl := Outcome.ok.inj hd
    have hholds := HugepageBuf.deref_loaded ptr (le_roundToHugepage hlen hround)
    exact .whole _ s (congrArg Outcome.ok hholds) (hzstd s hs)

/-- What `open_hugepage_memfd` returns. -/
theorem openHugepageMemfd_opened {env : MemfdEnv σ} (h : env.Sees file Starts)
    (hlen : file.length ≤ isizeMax) (hd : (openHugepageMemfd b env).outcome = .ok d) :
    d.Opened file Starts := by
  simp only [openHugepageMemfd, Act.outcome_bind, Outcome.bind_eq_ok, Act.outcome_result] at hd
  obtain ⟨len, hmeta, capacity, hround, hd⟩ := hd
  obtain rfl := h.metadata len hmeta
  cases hfd : env.memfd_create with
  | none => simp [hfd] at hd
  | some fd =>
    cases htruncate : env.ftruncate capacity with
    | error e => simp [hfd, htruncate] at hd
    | ok =>
      cases hmmap : env.mmap capacity with
      | none => simp [hfd, htruncate, hmmap] at hd
      | some ptr =>
        simp only [hfd, htruncate, hmmap, Act.outcome_bind, Outcome.bind_eq_ok,
          Act.outcome_result, Act.outcome_closing] at hd
        obtain ⟨-, -, -, -, -, -, file', -, -, -, bytes, hbytes, s, hs, hd⟩ := hd
        obtain rfl := Outcome.ok.inj hd
        -- The read fills the first `len` bytes, which are the whole file.
        cases hexact : env.read_exact file.length with
        | error e => simp [hexact] at hbytes
        | ok read =>
          simp only [hexact, Act.pure_eq, Outcome.ok.injEq] at hbytes
          have hread := h.read_exact _ _ hexact
          rw [List.take_length] at hread
          rw [← hbytes, hread]
          have hholds := HugepageBuf.deref_loaded ptr (le_roundToHugepage hlen hround)
          exact .whole _ s (congrArg Outcome.ok hholds) (h.zstd s hs)

/-- What `open_hugepage_streaming` returns. -/
theorem openHugepageStreaming_opened {window : ℕ} {env : StreamingEnv σ}
    (h : env.Sees file Starts) (hlen : file.length ≤ isizeMax)
    (hd : (openHugepageStreaming b window env).outcome = .ok d) : d.Opened file Starts := by
  by_cases hsmall : window < hugepage
  · simp [openHugepageStreaming, hsmall] at hd
  simp only [openHugepageStreaming, if_neg hsmall, Act.outcome_bind, Outcome.bind_eq_ok,
    Act.outcome_result] at hd
  obtain ⟨rounded, -, size, -, hd⟩ := hd
  by_cases hcover : rounded ≥ size
  · rw [if_pos hcover] at hd
    exact openHugepageMemfd_opened h.memfd hlen hd
  rw [if_neg hcover] at hd
  cases hmmap : env.mmap rounded with
  | none => simp [hmmap] at hd
  | some ptr =>
    simp only [hmmap, Act.outcome_bind, Outcome.bind_eq_ok, Act.outcome_result,
      Act.outcome_closing, Act.outcome_moving] at hd
    obtain ⟨-, -, file', -, -, -, src, hmap, -, -, -, -, s, hs, hd⟩ := hd
    obtain rfl := Outcome.ok.inj hd
    -- The kernel maps no empty range, so the window has room.
    have hroom : rounded ≠ 0 := by
      rintro rfl
      rw [h.mmap_zero] at hmmap
      cases hmmap
    refine .window src ptr _ s (h.map src hmap) ?_ (h.zstd s hs)
    rw [List.length_replicate]
    exact Nat.pos_of_ne_zero hroom

/-- A decoder that a constructor returns is at the start of the file that the constructor sees. -/
theorem Opening.opened {o : Opening σ} (h : o.Sees file Starts) (hlen : file.length ≤ isizeMax)
    (hd : (o.act b).outcome = .ok d) : d.Opened file Starts := by
  cases o with
  | fromMmap mmap env => exact fromMmap_opened h.1 h.2 hd
  | fromSlice data zstd =>
    obtain ⟨rfl, hzstd⟩ := h
    exact fromSlice_opened hzstd hd
  | openHugepage env => exact openHugepage_opened h.1 h.2 hlen hd
  | openHugepageMemfd env => exact openHugepageMemfd_opened h hlen hd
  | openHugepageStreaming window env => exact openHugepageStreaming_opened h hlen hd

end Opened

/-! ## Reading them to the end -/

section Decodes

variable {z : RawDecoder σ} {fs : List ZstdFrame} {bufs : ℕ → List UInt8}

/-- A whole buffer that holds a stream is decoded to the end, when no frame without content comes
before the last. -/
theorem whole_decodes (hfs : ¬ Hidden fs) {buf : DecoderBuf} (hbuf : buf.deref = .ok (encoded fs))
    {zstd : σ} (hz : DecodesEagerly z zstd fs) (hbufs : ∀ i, bufs i ≠ []) :
    DrainsTo z (.madvise σ .file) (.new buf zstd) bufs fun r =>
      r.last = .ok 0 ∧ r.delivered = decoded fs := by
  obtain ⟨D, heager, hs, hstalls⟩ := hz
  have hrun := whole_drains (D := D)
    (Y := fun c left => c.Unfinished left ∧ left = c.bytes.length ∧ ¬ Hidden c.frames)
    (List.prefix_refl _)
    (fun s s' left room remaining read written hy hw hadv =>
      ⟨hadv.unfinished (heager s'), by rw [hadv.bytes_eq, List.length_drop, ← hy.2.1],
        fun hhidden => hy.2.2 ((hadv.hidden_iff hw).mp hhidden)⟩)
    (.new hbuf hs) hstalls
    ⟨hs ▸ Cursor.start_unfinished _ _, by simp [Decoder.new, hs],
      by simpa [Decoder.new, hs, Cursor.start] using hfs⟩ hbufs
  refine hrun.mono ?_
  rintro r ⟨hlast, rest, htotal, -, hrest, c, left, room, remaining, read,
    ⟨hunfinished, rfl, hhidden⟩, hroom, hadv, -⟩
  -- The call without output has come to the end of the stream.
  have hframes := (hadv.ends_iff hroom hunfinished).mpr hhidden
  have hnone : rest = [] := hrest.trans (Cursor.reach_of_frames hframes _)
  rw [hnone, List.append_nil] at htotal
  refine ⟨hlast, htotal.symm.trans ?_⟩
  simp [WholeAt.rest, Decoder.new, hs, decodedBy_of_le]

/-- A scratch window over a stream is decoded to the end. -/
theorem window_decodes {src : Mmap} (hsrc : src.bytes = encoded fs) (ptr : ℕ) {mem : List UInt8}
    (hroom : 0 < mem.length) {zstd : σ} (hz : Decodes z zstd fs) (hbufs : ∀ i, bufs i ≠ []) :
    DrainsTo z (.madvise σ .file) (.new (.streaming (.new src (.scratch ptr mem))) zstd) bufs
      fun r => r.last = .ok 0 ∧ r.delivered = decoded fs := by
  obtain ⟨D, hs, hstalls⟩ := hz
  have hrun := streaming_drains D src (hsrc ▸ List.prefix_refl _) ptr hroom (keptByCalls_true D _ _)
    hs hstalls trivial hbufs fun _ => trivial
  refine hrun.mono ?_
  rintro r ⟨hlast, rest, htotal, -, hbytes, -, hrest⟩
  rw [hsrc, List.drop_length] at hbytes
  rw [hrest, Cursor.reach_of_frames (Cursor.frames_of_bytes hbytes), List.append_nil, Mmap.len,
    hsrc, decodedBy_of_le le_rfl] at htotal
  exact ⟨hlast, htotal.symm⟩

/-- An opened decoder is decoded to the end. -/
theorem Decoder.Opened.decodes {d : Decoder σ}
    (h : d.Opened (encoded fs) fun s => DecodesEagerly z s fs) (hfs : ¬ Hidden fs)
    (hbufs : ∀ i, bufs i ≠ []) :
    DrainsTo z (.madvise σ .file) d bufs fun r => r.last = .ok 0 ∧ r.delivered = decoded fs := by
  cases h with
  | whole buf zstd hbuf hz => exact whole_decodes hfs hbuf hz hbufs
  | window src ptr mem zstd hsrc hroom hz => exact window_decodes hsrc ptr hroom hz.decodes hbufs

end Decodes

/-- From a file to its content. Whichever constructor is called on a file that is a stream, with
whichever window and in whichever build, a decoder that it returns delivers the content of the
file, with any buffers of the caller, and ends with `Ok(0)`; provided that no frame without content
comes before the last one. -/
theorem opened_decodes (b : Build) (z : RawDecoder σ) (fs : List ZstdFrame)
    (hfs : ∀ f ∈ fs.dropLast, f.content ≠ []) (hlen : (encoded fs).length ≤ isizeMax)
    (o : Opening σ) (hsees : o.Sees (encoded fs) fun s => DecodesEagerly z s fs) (d : Decoder σ)
    (hd : (o.act b).outcome = .ok d) (bufs : ℕ → List UInt8) (hbufs : ∀ i, bufs i ≠ []) :
    DrainsTo z (.madvise σ .file) d bufs fun r => r.last = .ok 0 ∧ r.delivered = decoded fs := by
  have hopened := Opening.opened hsees hlen hd
  apply hopened.decodes _ hbufs
  rintro ⟨f, hf, hempty⟩
  exact hfs f hf hempty

/-- The steps of `open_hugepage_streaming` on a file with one frame, which delegates. -/
def helloEnv : StreamingEnv RefState where
  metadata := .ok 14
  mmap c := if c = 0 then none else some hugepage
  meminfo := none
  file := .ok 3
  map := .ok ⟨0x7F0000000000, encoded [rawFrame hello], by decide⟩
  advise := .ok ()
  zstd := .ok (.start [rawFrame hello])
  memfd :=
    { metadata := .ok 14
      memfd_create := some 4
      ftruncate := fun _ => .ok ()
      mmap := fun c => if c = 0 then none else some hugepage
      meminfo := none
      file := .ok 3
      read_exact := fun len => .ok ((encoded [rawFrame hello]).take len)
      zstd := .ok (.start [rawFrame hello]) }

/-- They see the file. -/
theorem helloEnv_sees : helloEnv.Sees (encoded [rawFrame hello])
    fun s => DecodesEagerly reference s [rawFrame hello] := by
  have hzstd : ∀ s, (.ok (.start [rawFrame hello]) : Except IoError RefState) = .ok s →
      DecodesEagerly reference s [rawFrame hello] := by
    rintro s ⟨⟩
    exact reference_decodes _
  refine ⟨rfl, ?_, hzstd, ⟨?_, ?_, hzstd⟩⟩
  · rintro m ⟨⟩
    rfl
  · rintro len ⟨⟩
    rfl
  · rintro len bytes ⟨⟩
    rfl

/-- The call returns a decoder, and the decoder delivers `hello`. -/
theorem opened_decodes_hello :
    ∃ d, (openHugepageStreaming .release hugepage helloEnv).outcome = .ok d ∧
      DrainsTo reference (.madvise RefState .file) d (fun _ => [0, 0]) fun r =>
        r.last = .ok 0 ∧ r.delivered = decoded [rawFrame hello] := by
  have hd : (openHugepageStreaming .release hugepage helloEnv).outcome =
      .ok (.new (.hugepage (.loaded hugepage 14 hugepage (encoded [rawFrame hello])))
        (.start [rawFrame hello])) := rfl
  exact ⟨_, hd, opened_decodes .release reference [rawFrame hello] (by simp) (by decide)
    (.openHugepageStreaming hugepage helloEnv) helloEnv_sees _ hd (fun _ => [0, 0]) (by simp)⟩

end MmapZstd
