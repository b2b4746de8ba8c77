import MmapZstd.Lib.Reader
import MmapZstd.Zstd

/-!
# Reading a file through a scratch buffer

`ScratchReader` of `examples/measure_bufreader_hugepage.rs` puts a hugepage where `BufReader` has
its buffer, and reads the file with `read` or with `pread`. What the kernel answers to a read of the
file is a parameter: any call may be short, or fail.

Both readers refine the buffered reader of `Lib/Reader.lean` over the file, with different requests
to refill (`ScratchReader.step_refines`, `BufReader.step_refines`). So the two variants of a
`ScratchReader` cannot be told apart (`scratch_pread_agrees`), every session of reads is accounted
for (`scratch_reads_file`), and a copy through a `ScratchReader` gives what a copy through a
`BufReader` gives (`scratch_copies_as_bufReader`).
-/

namespace MmapZstd

open Reader

/-- A copy leaves what is behind it alone. -/
theorem drop_overwrite (dst src : List UInt8) :
    (overwrite dst src).drop src.length = dst.drop src.length := by
  have hlen : (dst.drop src.length).length = dst.length - src.length := List.length_drop
  rw [overwrite, List.drop_take, List.drop_left, List.take_of_length_le hlen.le]

/-! ## Files -/

/-- The bytes of a file, and what the kernel answers to the `i`-th read of it, of `count` bytes at
`offset`. -/
structure FileReads where
  bytes : List UInt8
  answer : (i offset count : ℕ) → Except IoError (List UInt8)
  /-- A read answers the bytes at its offset, as many as it asks for or fewer. -/
  answer_prefix : ∀ i offset count data, answer i offset count = .ok data →
    data <+: (bytes.drop offset).take count
  /-- It answers no bytes only when it asks for none, or at the end of the file. -/
  answer_nil : ∀ i offset count, answer i offset count = .ok [] →
    count = 0 ∨ bytes.length ≤ offset

/-- An open `std::fs::File`. -/
structure File where
  reads : FileReads
  /-- The file offset of the descriptor. -/
  pos : ℕ
  /-- The number of reads that were made. -/
  calls : ℕ

namespace File

/-- `File::open`. -/
def «open» (reads : FileReads) : File := ⟨reads, 0, 0⟩

/-- `pread(fd, buf, count, offset)`: it leaves the file offset of the descriptor alone. -/
def pread (f : File) (count offset : ℕ) : Answer File UInt8 IoError :=
  ⟨{ f with calls := f.calls + 1 }, f.reads.answer f.calls offset count⟩

/-- `File::read`, into a buffer of `count` bytes. -/
def read (f : File) (count : ℕ) : Answer File UInt8 IoError :=
  match f.reads.answer f.calls f.pos count with
  | .ok data => ⟨{ f with pos := f.pos + data.length, calls := f.calls + 1 }, .ok data⟩
  | .error e => ⟨{ f with calls := f.calls + 1 }, .error e⟩

/-- The descriptor is of the file `reads`, at an offset within it. -/
structure At (reads : FileReads) (f : File) : Prop where
  reads_eq : f.reads = reads
  pos_le : f.pos ≤ reads.bytes.length

/-- The rest of the file. -/
def left (f : File) : List UInt8 := f.reads.bytes.drop f.pos

/-- A read that succeeds moves past the bytes that it answers, which are the next ones. -/
theorem read_ok {f : File} {count : ℕ} {data : List UInt8}
    (h : (f.read count).result = .ok data) :
    f.reads.answer f.calls f.pos count = .ok data ∧ data.length ≤ count ∧
      (f.read count).state = { f with pos := f.pos + data.length, calls := f.calls + 1 } := by
  unfold read at h ⊢
  cases hanswer : f.reads.answer f.calls f.pos count with
  | error e =>
    rw [hanswer] at h
    cases h
  | ok data' =>
    rw [hanswer] at h
    obtain rfl : data' = data := Except.ok.inj h
    have hlen := (f.reads.answer_prefix _ _ _ _ hanswer).length_le
    rw [List.length_take] at hlen
    exact ⟨rfl, hlen.trans (Nat.min_le_left _ _), rfl⟩

/-- A read that fails only counts. -/
theorem read_error {f : File} {count : ℕ} {e : IoError} (h : (f.read count).result = .error e) :
    f.reads.answer f.calls f.pos count = .error e ∧
      (f.read count).state = { f with calls := f.calls + 1 } := by
  unfold read at h ⊢
  cases hanswer : f.reads.answer f.calls f.pos count with
  | error e' =>
    rw [hanswer] at h
    obtain rfl : e' = e := Except.error.inj h
    exact ⟨rfl, rfl⟩
  | ok data =>
    rw [hanswer] at h
    cases h

/-- Reads deliver the rest of the file. -/
theorem view (reads : FileReads) : View read (At reads) left where
  keep f count h := by
    obtain ⟨rfl, hpos⟩ := h
    cases hr : (f.read count).result with
    | ok data =>
      obtain ⟨hanswer, -, hstate⟩ := read_ok hr
      have hlen := (f.reads.answer_prefix _ _ _ _ hanswer).length_le
      rw [List.length_take, List.length_drop] at hlen
      rw [hstate]
      exact ⟨rfl, by simp only; omega⟩
    | error e =>
      rw [(read_error hr).2]
      exact ⟨rfl, hpos⟩
  ok f count data h hr := by
    obtain ⟨hanswer, -, hstate⟩ := read_ok hr
    obtain ⟨rest, hrest⟩ := (f.reads.answer_prefix _ _ _ _ hanswer).trans (List.take_prefix _ _)
    rw [hstate]
    unfold left
    rw [← List.drop_drop, ← hrest, List.drop_left]
  error f count e h hr := by
    rw [(read_error hr).2]
    rfl

/-- A read of at least one byte answers none only at the end of the file. -/
theorem prompt (reads : FileReads) : Prompt read (At reads) left fun count => 0 < count := by
  intro f count h hcount hr
  obtain ⟨hanswer, -, -⟩ := read_ok hr
  unfold left
  rw [List.drop_eq_nil_iff]
  rcases f.reads.answer_nil _ _ _ hanswer with hzero | hend
  · omega
  · exact hend

end File

/-- The reads of the file that fail are among the first `n`, and were interrupted. -/
def FileReads.FailsFor (reads : FileReads) (interrupted : IoError → Bool) (n : ℕ) : Prop :=
  ∀ i offset count e, reads.answer i offset count = .error e → interrupted e = true ∧ i < n

/-- Such a file falters. -/
theorem File.falters {reads : FileReads} {interrupted : IoError → Bool} {n : ℕ}
    (h : reads.FailsFor interrupted n) :
    Falters File.read interrupted (File.At reads) fun f => n - f.calls where
  ok f count data _ hr := by
    rw [(File.read_ok hr).2.2]
    simp only
    omega
  error f count e hf hr := by
    obtain ⟨hanswer, hstate⟩ := File.read_error hr
    rw [hf.reads_eq] at hanswer
    obtain ⟨hretry, hlt⟩ := h _ _ _ _ hanswer
    rw [hstate]
    refine ⟨hretry, ?_⟩
    simp only
    omega

/-! ## Reading into a buffer -/

/-- What `read(&mut self, dst)` leaves: the reader, the caller's buffer, and the result. -/
structure IntoBuf (τ : Type) where
  state : τ
  dst : List UInt8
  result : Except IoError ℕ

/-- The bytes that a read into a buffer has delivered. -/
def IntoBuf.answer {τ : Type} (r : IntoBuf τ) : Answer τ UInt8 IoError :=
  ⟨r.state, r.result.map fun n => r.dst.take n⟩

/-- The bytes of a buffer from `start` to `stop`. -/
def unread (mem : List UInt8) (start stop : ℕ) : List UInt8 := (mem.take stop).drop start

/-- Copying `min (stop - start) dst.length` bytes out of a buffer delivers the front of what is
unread there, as much as fits, and leaves the rest. -/
theorem unread_copy {mem : List UInt8} {start stop : ℕ} (hstart : start ≤ stop)
    (hstop : stop ≤ mem.length) (dst : List UInt8) :
    (overwrite dst ((mem.drop start).take (min (stop - start) dst.length))).take
        (min (stop - start) dst.length) = (unread mem start stop).take dst.length ∧
      unread mem (start + min (stop - start) dst.length) stop =
        (unread mem start stop).drop dst.length := by
  have hlen : (unread mem start stop).length = stop - start := by
    unfold unread
    rw [List.length_drop, List.length_take]
    omega
  have hsrc : (mem.drop start).take (min (stop - start) dst.length) =
      (unread mem start stop).take dst.length := by
    unfold unread
    rw [List.drop_take, List.take_take, Nat.min_comm]
  have hcopied : ((unread mem start stop).take dst.length).length =
      min (stop - start) dst.length := by
    rw [List.length_take, hlen, Nat.min_comm]
  refine ⟨?_, ?_⟩
  · rw [hsrc, ← hcopied]
    exact take_overwrite dst _ (by omega)
  · unfold unread at hlen ⊢
    rw [List.drop_drop]
    -- Either all that is unread fits, or the caller's buffer is filled.
    rcases Nat.le_total (stop - start) dst.length with hle | hle
    · rw [Nat.min_eq_left hle, List.drop_eq_nil_of_le (by simp; omega),
        List.drop_eq_nil_of_le (by simp; omega)]
    · rw [Nat.min_eq_right hle]

/-! ## `ScratchReader` -/

/-- `HugepageAlloc`: a mapping of `len` bytes, with its bytes. -/
structure HugepageAlloc where
  ptr : ℕ
  mem : List UInt8
  len : ℕ
  mem_length : mem.length = len

/-- A read of the kernel into the start of the mapping. -/
def HugepageAlloc.fill (a : HugepageAlloc) (data : List UInt8) : HugepageAlloc where
  ptr := a.ptr
  mem := overwrite a.mem data
  len := a.len
  mem_length := by rw [length_overwrite, a.mem_length]

/-- `ScratchReader`. -/
structure ScratchReader where
  inner : File
  alloc : HugepageAlloc
  chunk_size : ℕ
  start : ℕ
  «end» : ℕ
  file_offset : ℕ
  use_pread : Bool

namespace ScratchReader

/-- `ScratchReader::new`. -/
def new (file : File) (alloc : HugepageAlloc) (chunk_size : ℕ) (use_pread : Bool) :
    ScratchReader where
  inner := file
  alloc := alloc
  chunk_size := chunk_size
  start := 0
  «end» := 0
  file_offset := 0
  use_pread := use_pread

/-- `ScratchReader::refill`. -/
def refill (s : ScratchReader) : ScratchReader × Except IoError Unit :=
  let to_read := min s.chunk_size s.alloc.len
  if s.use_pread then
    let rc := s.inner.pread to_read s.file_offset
    match rc.result with
    | .error e => ({ s with inner := rc.state }, .error e)
    | .ok data =>
      ({ s with
          inner := rc.state
          alloc := s.alloc.fill data
          file_offset := s.file_offset + data.length
          start := 0
          «end» := data.length }, .ok ())
  else
    let n := s.inner.read to_read
    match n.result with
    | .error e => ({ s with inner := n.state }, .error e)
    | .ok data =>
      ({ s with
          inner := n.state
          alloc := s.alloc.fill data
          start := 0
          «end» := data.length }, .ok ())

/-- The part of `read` after the refill: copy out of the scratch. -/
def copyOut (s : ScratchReader) (dst : List UInt8) : IntoBuf ScratchReader :=
  if s.start ≥ s.end then ⟨s, dst, .ok 0⟩
  else
    let available := s.end - s.start
    let to_copy := min available dst.length
    let src := (s.alloc.mem.drop s.start).take to_copy
    ⟨{ s with start := s.start + to_copy }, overwrite dst src, .ok to_copy⟩

/-- `<ScratchReader as io::Read>::read`. -/
def read (s : ScratchReader) (dst : List UInt8) : IntoBuf ScratchReader :=
  match if s.start ≥ s.end then s.refill else (s, .ok ()) with
  | (s, .error e) => ⟨s, dst, .error e⟩
  | (s, .ok ()) => s.copyOut dst

/-- One request to the reader. -/
def step (s : ScratchReader) (dst : List UInt8) : Answer ScratchReader UInt8 IoError :=
  (s.read dst).answer

/-- The offset in the file that the next refill reads at. -/
def position (s : ScratchReader) : ℕ := if s.use_pread then s.file_offset else s.inner.pos

/-- The bytes in the scratch that were not copied out yet. -/
def buffered (s : ScratchReader) : List UInt8 := unread s.alloc.mem s.start s.end

/-- The reader as a buffered reader: a file that moves by `position`, and the buffer. -/
def abs (s : ScratchReader) : File × List UInt8 :=
  ({ s.inner with pos := s.position }, s.buffered)

/-- The cursors of a reader with a scratch of `n` bytes and chunks of `c`. -/
structure Cursors (n c : ℕ) (s : ScratchReader) : Prop where
  len_eq : s.alloc.len = n
  chunk_size_eq : s.chunk_size = c
  start_le : s.start ≤ s.end
  end_le : s.end ≤ min c n

/-- A new reader is at the start of its file, with nothing in its scratch. -/
theorem abs_new (reads : FileReads) (alloc : HugepageAlloc) (c : ℕ) (use_pread : Bool) :
    abs (new (.open reads) alloc c use_pread) = (.open reads, []) := by
  cases use_pread with
  | true => simp [abs, position, buffered, unread, new, File.open]
  | false => simp [abs, position, buffered, unread, new, File.open]

/-- The reader after a refill that answered `data`. -/
def filled (s : ScratchReader) (data : List UInt8) : ScratchReader :=
  { s with
    inner := { s.inner with
      pos := if s.use_pread then s.inner.pos else s.inner.pos + data.length
      calls := s.inner.calls + 1 }
    alloc := s.alloc.fill data
    file_offset := if s.use_pread then s.file_offset + data.length else s.file_offset
    start := 0
    «end» := data.length }

/-- The reader after a refill that failed. -/
def failed (s : ScratchReader) : ScratchReader :=
  { s with inner := { s.inner with calls := s.inner.calls + 1 } }

/-- A refill is a read of the file at `position`, in both variants; they differ only in which offset
they move. -/
theorem refill_cases (s : ScratchReader) :
    (∃ e, s.abs.1.read (min s.chunk_size s.alloc.len) = ⟨s.failed.abs.1, .error e⟩ ∧
        s.refill = (s.failed, .error e)) ∨
      ∃ data, s.abs.1.read (min s.chunk_size s.alloc.len) = ⟨(s.filled data).abs.1, .ok data⟩ ∧
        s.refill = (s.filled data, .ok ()) := by
  obtain ⟨inner, alloc, chunk_size, start, stop, file_offset, use_pread⟩ := s
  -- `pread` reads at `file_offset` and moves that, `read` at the offset of the descriptor.
  cases use_pread with
  | true =>
    cases hanswer : inner.reads.answer inner.calls file_offset (min chunk_size alloc.len) with
    | ok data => exact .inr ⟨data, by
        simp [refill, filled, abs, position, File.read, File.pread, hanswer]⟩
    | error e => exact .inl ⟨e, by
        simp [refill, failed, abs, position, File.read, File.pread, hanswer]⟩
  | false =>
    cases hanswer : inner.reads.answer inner.calls inner.pos (min chunk_size alloc.len) with
    | ok data => exact .inr ⟨data, by
        simp [refill, filled, abs, position, File.read, hanswer]⟩
    | error e => exact .inl ⟨e, by
        simp [refill, failed, abs, position, File.read, hanswer]⟩

/-- Copying out of the scratch delivers the front of what is in it, as much as fits, and writes no
more than that to the caller's buffer. -/
theorem copyOut_spec {n c : ℕ} {s : ScratchReader} (h : Cursors n c s) (dst : List UInt8) :
    Cursors n c (s.copyOut dst).state ∧ (s.copyOut dst).state.abs.1 = s.abs.1 ∧
      (s.copyOut dst).state.buffered = s.buffered.drop dst.length ∧
      (s.copyOut dst).answer.result = .ok (s.buffered.take dst.length) ∧
      ∃ k, (s.copyOut dst).result = .ok k ∧ k ≤ dst.length ∧
        (s.copyOut dst).dst.drop k = dst.drop k := by
  obtain ⟨hlen, hchunk, hstart, hend⟩ := h
  have hmem := s.alloc.mem_length
  by_cases hempty : s.start ≥ s.end
  · have hnil : s.buffered = [] := by
      unfold buffered unread
      rw [List.drop_eq_nil_iff, List.length_take]
      omega
    unfold copyOut
    rw [if_pos hempty, hnil, List.drop_nil, List.take_nil]
    exact ⟨⟨hlen, hchunk, hstart, hend⟩, rfl, rfl, rfl, 0, rfl, Nat.zero_le _, rfl⟩
  · obtain ⟨htake, hdrop⟩ := unread_copy hstart (by omega : s.end ≤ s.alloc.mem.length) dst
    have hsrc : ((s.alloc.mem.drop s.start).take (min (s.end - s.start) dst.length)).length =
        min (s.end - s.start) dst.length := by
      rw [List.length_take, List.length_drop]
      omega
    unfold copyOut
    rw [if_neg hempty]
    refine ⟨⟨hlen, hchunk, by simp only; omega, hend⟩, rfl, hdrop, ?_,
      min (s.end - s.start) dst.length, rfl, Nat.min_le_right _ _, ?_⟩
    · exact congrArg Except.ok htake
    · conv_lhs => rw [← hsrc]
      conv_rhs => rw [← hsrc]
      exact drop_overwrite dst _

/-- The scratch is exhausted exactly when it holds nothing to copy out. -/
theorem Cursors.buffered_nil {n c : ℕ} {s : ScratchReader} (h : Cursors n c s) :
    s.buffered = [] ↔ s.start ≥ s.end := by
  have hlen := h.len_eq
  have hend := h.end_le
  have hmem := s.alloc.mem_length
  unfold buffered unread
  rw [List.drop_eq_nil_iff, List.length_take]
  omega

/-- A refill that answers no more than it was asked for keeps the cursors, and the scratch holds its
answer. -/
theorem Cursors.filled {n c : ℕ} {s : ScratchReader} (h : Cursors n c s) {data : List UInt8}
    (hdata : data.length ≤ min c n) :
    Cursors n c (s.filled data) ∧ (s.filled data).buffered = data := by
  have hlen := h.len_eq
  have hmem := s.alloc.mem_length
  refine ⟨⟨hlen, h.chunk_size_eq, Nat.zero_le _, hdata⟩, ?_⟩
  exact take_overwrite s.alloc.mem data (by omega)

/-- A read fails as its refill does, or copies out of a scratch that holds what the buffered reader
delivers from. -/
theorem read_cases {n c : ℕ} {s : ScratchReader} (h : Cursors n c s) (dst : List UInt8) :
    (∃ e, s.read dst = ⟨s.failed, dst, .error e⟩ ∧ Cursors n c s.failed ∧
        Reader.buffered File.read (fun _ => min c n) List.length s.abs dst =
          ⟨s.failed.abs, .error e⟩) ∨
      ∃ s₁, s.read dst = s₁.copyOut dst ∧ Cursors n c s₁ ∧
        Reader.buffered File.read (fun _ => min c n) List.length s.abs dst =
          ⟨(s₁.abs.1, s₁.buffered.drop dst.length), .ok (s₁.buffered.take dst.length)⟩ := by
  have habs : s.abs = (s.abs.1, s.buffered) := rfl
  have hask : min s.chunk_size s.alloc.len = min c n := by rw [h.chunk_size_eq, h.len_eq]
  have hcases := buffered_cases File.read (fun _ => min c n) List.length s.abs.1 s.buffered dst
  by_cases hempty : s.start ≥ s.end
  · -- The scratch is exhausted: what the refill answers decides.
    have hnil := h.buffered_nil.mpr hempty
    rcases s.refill_cases with ⟨e, hread, hrefill⟩ | ⟨data, hread, hrefill⟩
    · rw [hask] at hread
      refine .inl ⟨e, ?_, ⟨h.len_eq, h.chunk_size_eq, h.start_le, h.end_le⟩, ?_⟩
      · simp only [ScratchReader.read, if_pos hempty, hrefill]
      · rw [habs, hnil]
        simp only [Reader.buffered, hread]
        exact congrArg (fun w => (⟨(s.failed.abs.1, w), .error e⟩ : Answer _ _ _)) hnil.symm
    · rw [hask] at hread
      have hle : data.length ≤ min c n :=
        (File.read_ok (congrArg Answer.result hread)).2.1
      obtain ⟨hfilled, hbuffered⟩ := h.filled hle
      refine .inr ⟨s.filled data, ?_, hfilled, ?_⟩
      · simp only [ScratchReader.read, if_pos hempty, hrefill]
      · rw [habs, hnil, hbuffered]
        simp only [Reader.buffered, hread]
  · -- There is something to copy out, and the file is not read.
    have hfull := mt h.buffered_nil.mp hempty
    refine .inr ⟨s, ?_, h, ?_⟩
    · simp only [ScratchReader.read, if_neg hempty]
    · rcases hcases with ⟨-, hnil, -⟩ | ⟨-, hnil, -⟩ | ⟨-, heq⟩
      · exact absurd hnil hfull
      · exact absurd hnil hfull
      · exact heq

/-- A request to the reader is one to the buffered reader that it stands for. -/
theorem step_refines {n c : ℕ} {s : ScratchReader} (h : Cursors n c s) (dst : List UInt8) :
    Cursors n c (step s dst).state ∧
      (step s dst).state.abs =
        (Reader.buffered File.read (fun _ => min c n) List.length s.abs dst).state ∧
      (step s dst).result =
        (Reader.buffered File.read (fun _ => min c n) List.length s.abs dst).result := by
  unfold step
  rcases read_cases h dst with ⟨e, hread, hfailed, heq⟩ | ⟨s₁, hread, h₁, heq⟩
  · rw [hread, heq]
    exact ⟨hfailed, rfl, rfl⟩
  · obtain ⟨hcopy, hfile, hrest, hresult, -⟩ := copyOut_spec h₁ dst
    rw [hread, heq]
    exact ⟨hcopy, Prod.ext hfile hrest, hresult⟩

/-- A session on a reader is one on the buffered reader that it stands for. -/
theorem session_refines {n c : ℕ} {s : ScratchReader} (h : Cursors n c s)
    (dsts : List (List UInt8)) :
    (Cursors n c (after step s dsts) ∧ (after step s dsts).abs =
        after (Reader.buffered File.read (fun _ => min c n) List.length) s.abs dsts) ∧
      results step s dsts =
        results (Reader.buffered File.read (fun _ => min c n) List.length) s.abs dsts := by
  refine results_lockstep (fun s t => Cursors n c s ∧ s.abs = t) ?_ ⟨h, rfl⟩ dsts
  rintro s t dst ⟨h, rfl⟩
  obtain ⟨hcursors, habs, hresult⟩ := step_refines h dst
  exact ⟨⟨hcursors, habs⟩, hresult⟩

/-- The cursors of a new reader. -/
theorem Cursors.new (file : File) (alloc : HugepageAlloc) (c : ℕ) (use_pread : Bool) :
    Cursors alloc.len c (.new file alloc c use_pread) :=
  ⟨rfl, rfl, le_rfl, Nat.zero_le _⟩

/-- A read writes to the caller's buffer no more than it reports. -/
theorem Cursors.read_frame {n c : ℕ} {s : ScratchReader} (h : Cursors n c s) {dst : List UInt8}
    {k : ℕ} (hk : (s.read dst).result = .ok k) :
    k ≤ dst.length ∧ (s.read dst).dst.drop k = dst.drop k := by
  rcases read_cases h dst with ⟨e, hread, -⟩ | ⟨s₁, hread, h₁, -⟩
  · rw [hread] at hk
    cases hk
  · obtain ⟨-, -, -, -, k', hk', hle, hframe⟩ := copyOut_spec h₁ dst
    rw [hread] at hk ⊢
    obtain rfl := Except.ok.inj (hk.symm.trans hk')
    exact ⟨hle, hframe⟩

end ScratchReader

/-- After any session of reads, with any errors and short reads of the kernel: what was delivered,
followed by what is in the scratch, is the file up to the reader's position, and the scratch stays
within the mapping. A further read reports no more than it was asked for and writes no more than it
reports, and when it reports the end of the file, the whole file was delivered. -/
theorem scratch_reads_file (reads : FileReads) (alloc : HugepageAlloc) (chunk_size : ℕ)
    (use_pread : Bool) (dsts : List (List UInt8)) :
    let s₀ := ScratchReader.new (.open reads) alloc chunk_size use_pread
    let s := after ScratchReader.step s₀ dsts
    let out := delivered (results ScratchReader.step s₀ dsts)
    out ++ s.buffered = reads.bytes.take s.position ∧ s.position ≤ reads.bytes.length ∧
      s.start ≤ s.end ∧ s.end ≤ min chunk_size alloc.len ∧
      ∀ dst k, (s.read dst).result = .ok k →
        k ≤ dst.length ∧ (s.read dst).dst.drop k = dst.drop k ∧
          (0 < alloc.len → 0 < chunk_size → dst ≠ [] → k = 0 → out = reads.bytes) := by
  intro s₀ s out
  obtain ⟨⟨h, habs⟩, hresults⟩ := ScratchReader.session_refines
    (ScratchReader.Cursors.new (.open reads) alloc chunk_size use_pread) dsts
  rw [ScratchReader.abs_new] at habs hresults
  have hstart : File.At reads (.open reads) := ⟨rfl, Nat.zero_le _⟩
  have hview := buffered_view (fun _ : List UInt8 => min chunk_size alloc.len) List.length
    (File.view reads)
  obtain ⟨hat, hleft⟩ := session_left hview (s := (.open reads, [])) hstart dsts
  rw [← habs] at hat hleft
  rw [← hresults] at hleft
  -- The file is what was delivered, what is in the scratch, and the rest of it.
  have htotal : reads.bytes = out ++ (s.buffered ++ reads.bytes.drop s.position) := by
    have hrest : s.abs.1.left = reads.bytes.drop s.position := by
      unfold File.left
      rw [hat.reads_eq]
      rfl
    exact hrest ▸ hleft
  refine ⟨?_, hat.pos_le, h.start_le, h.end_le, fun dst k hk => ?_⟩
  · have hsplit : out ++ s.buffered ++ reads.bytes.drop s.position =
        reads.bytes.take s.position ++ reads.bytes.drop s.position := by
      rw [List.take_append_drop, List.append_assoc]
      exact htotal.symm
    exact List.append_cancel_right hsplit
  · obtain ⟨hle, hframe⟩ := h.read_frame hk
    refine ⟨hle, hframe, fun hlen hchunk hdst hzero => ?_⟩
    -- A read that reports no byte is one of the buffered reader, which is prompt.
    have hnil : (ScratchReader.step s dst).result = .ok [] := by
      unfold ScratchReader.step IntoBuf.answer
      rw [hk, hzero]
      rfl
    rw [(ScratchReader.step_refines h dst).2.2] at hnil
    have hprompt := buffered_prompt (fun _ : List UInt8 => min chunk_size alloc.len) List.length
      (File.prompt reads) (fun dst => dst ≠ []) (fun _ _ => by omega)
      fun dst => List.length_pos_of_ne_nil
    have hend : s.abs.2 ++ s.abs.1.left = [] := hprompt s.abs dst hat hdst hnil
    rw [hend, List.append_nil] at hleft
    exact hleft.symm

/-- Reading with `pread` and with `read` cannot be told apart: in every session, every read has the
same result. -/
theorem scratch_pread_agrees (reads : FileReads) (alloc : HugepageAlloc) (chunk_size : ℕ)
    (dsts : List (List UInt8)) :
    results ScratchReader.step (.new (.open reads) alloc chunk_size true) dsts =
      results ScratchReader.step (.new (.open reads) alloc chunk_size false) dsts := by
  have hsession := fun use_pread => (ScratchReader.session_refines
    (ScratchReader.Cursors.new (.open reads) alloc chunk_size use_pread) dsts).2
  rw [hsession true, hsession false, ScratchReader.abs_new, ScratchReader.abs_new]

/-! ## `BufReader` -/

/-- `std::io::BufReader<File>`: the file, and a buffer whose bytes from `pos` to `filled` are
unread. -/
structure BufReader where
  inner : File
  buf : List UInt8
  pos : ℕ
  filled : ℕ

namespace BufReader

/-- `BufReader::with_capacity`. -/
def withCapacity (capacity : ℕ) (inner : File) : BufReader := ⟨inner, .replicate capacity 0, 0, 0⟩

/-- `BufReader::fill_buf`. -/
def fillBuf (s : BufReader) : BufReader × Except IoError Unit :=
  if s.pos ≥ s.filled then
    let n := s.inner.read s.buf.length
    match n.result with
    | .error e => ({ s with inner := n.state, pos := 0, filled := 0 }, .error e)
    | .ok data =>
      ({ inner := n.state, buf := overwrite s.buf data, pos := 0, filled := data.length }, .ok ())
  else (s, .ok ())

/-- The end of `read`: copy out of the buffer and consume what was copied. -/
def copyOut (s : BufReader) (dst : List UInt8) : IntoBuf BufReader :=
  let nread := min (s.filled - s.pos) dst.length
  ⟨{ s with pos := s.pos + nread }, overwrite dst ((s.buf.drop s.pos).take nread), .ok nread⟩

/-- `<BufReader as io::Read>::read`. -/
def read (s : BufReader) (dst : List UInt8) : IntoBuf BufReader :=
  if s.pos = s.filled ∧ dst.length ≥ s.buf.length then
    -- A read that is no smaller than the buffer goes past it.
    let n := s.inner.read dst.length
    match n.result with
    | .error e => ⟨{ s with inner := n.state, pos := 0, filled := 0 }, dst, .error e⟩
    | .ok data =>
      ⟨{ s with inner := n.state, pos := 0, filled := 0 }, overwrite dst data, .ok data.length⟩
  else
    match s.fillBuf with
    | (s, .error e) => ⟨s, dst, .error e⟩
    | (s, .ok ()) => s.copyOut dst

/-- One request to the reader. -/
def step (s : BufReader) (dst : List UInt8) : Answer BufReader UInt8 IoError := (s.read dst).answer

/-- The reader as a buffered reader. -/
def abs (s : BufReader) : File × List UInt8 := (s.inner, unread s.buf s.pos s.filled)

/-- What a reader with `capacity` asks its file for, to fill the buffer or to go past it. -/
def ask (capacity : ℕ) (dst : List UInt8) : ℕ := max capacity dst.length

/-- The cursors of a reader with that capacity. -/
structure Cursors (capacity : ℕ) (s : BufReader) : Prop where
  buf_length : s.buf.length = capacity
  pos_le : s.pos ≤ s.filled
  filled_le : s.filled ≤ capacity

variable {capacity : ℕ} {s : BufReader}

/-- The cursors of a new reader. -/
theorem Cursors.withCapacity (capacity : ℕ) (file : File) :
    Cursors capacity (.withCapacity capacity file) :=
  ⟨List.length_replicate, le_rfl, Nat.zero_le _⟩

/-- Copying out of the buffer delivers the front of what is unread, as much as fits. -/
theorem copyOut_spec (h : Cursors capacity s) (dst : List UInt8) :
    Cursors capacity (s.copyOut dst).state ∧
      (s.copyOut dst).answer =
        ⟨(s.copyOut dst).state, .ok ((unread s.buf s.pos s.filled).take dst.length)⟩ ∧
      (s.copyOut dst).state.abs =
        (s.inner, (unread s.buf s.pos s.filled).drop dst.length) := by
  obtain ⟨hbuf, hpos, hfilled⟩ := h
  obtain ⟨htake, hdrop⟩ := unread_copy hpos (hfilled.trans_eq hbuf.symm) dst
  refine ⟨⟨hbuf, ?_, hfilled⟩, ?_, ?_⟩
  · simp only [copyOut]
    omega
  · exact congrArg (fun data => (⟨(s.copyOut dst).state, .ok data⟩ : Answer _ _ _)) htake
  · exact congrArg (Prod.mk s.inner) hdrop

/-- A request to the reader is one to the buffered reader that it stands for: to go past the buffer
is to fill it and to take all of it. -/
theorem step_refines (h : Cursors capacity s) (dst : List UInt8) :
    Cursors capacity (step s dst).state ∧
      (step s dst).state.abs =
        (buffered File.read (ask capacity) List.length s.abs dst).state ∧
      (step s dst).result =
        (buffered File.read (ask capacity) List.length s.abs dst).result := by
  obtain ⟨hbuf, hpos, hfilled⟩ := h
  by_cases hempty : s.filled ≤ s.pos
  · have hnil : unread s.buf s.pos s.filled = [] := by
      unfold unread
      rw [List.drop_eq_nil_iff, List.length_take]
      omega
    have hzero : ∀ buf : List UInt8, unread buf 0 0 = [] := fun buf => by simp [unread]
    unfold abs
    rw [hnil]
    by_cases hbig : dst.length ≥ s.buf.length
    · -- The read goes past the buffer.
      have hask : ask capacity dst = dst.length := Nat.max_eq_right (hbuf ▸ hbig)
      cases hread : (s.inner.read dst.length).result with
      | error e =>
        have heq : s.read dst =
            ⟨⟨(s.inner.read dst.length).state, s.buf, 0, 0⟩, dst, .error e⟩ := by
          unfold read
          rw [if_pos ⟨by omega, hbig⟩]
          simp only [hread]
        unfold step
        rw [heq]
        simp only [buffered, hask, hread]
        exact ⟨⟨hbuf, le_rfl, Nat.zero_le _⟩, Prod.ext rfl (hzero s.buf), rfl⟩
      | ok data =>
        have hle : data.length ≤ dst.length := (File.read_ok hread).2.1
        have heq : s.read dst = ⟨⟨(s.inner.read dst.length).state, s.buf, 0, 0⟩,
            overwrite dst data, .ok data.length⟩ := by
          unfold read
          rw [if_pos ⟨by omega, hbig⟩]
          simp only [hread]
        unfold step
        rw [heq]
        simp only [buffered, hask, hread, List.drop_eq_nil_of_le hle, List.take_of_length_le hle]
        refine ⟨⟨hbuf, le_rfl, Nat.zero_le _⟩, Prod.ext rfl (hzero s.buf), ?_⟩
        exact congrArg Except.ok (take_overwrite dst data hle)
    · -- The read fills the buffer.
      have hask : ask capacity dst = s.buf.length := by
        unfold ask
        omega
      cases hread : (s.inner.read s.buf.length).result with
      | error e =>
        have heq : s.read dst = ⟨⟨(s.inner.read s.buf.length).state, s.buf, 0, 0⟩, dst,
            .error e⟩ := by
          unfold read fillBuf
          rw [if_neg (by omega), if_pos (by omega)]
          simp only [hread]
        unfold step
        rw [heq]
        simp only [buffered, hask, hread]
        exact ⟨⟨hbuf, le_rfl, Nat.zero_le _⟩, Prod.ext rfl (hzero s.buf), rfl⟩
      | ok data =>
        have hle : data.length ≤ s.buf.length := (File.read_ok hread).2.1
        have heq : s.read dst = copyOut ⟨(s.inner.read s.buf.length).state,
            overwrite s.buf data, 0, data.length⟩ dst := by
          unfold read fillBuf
          rw [if_neg (by omega), if_pos (by omega)]
          simp only [hread]
        have hfresh : unread (overwrite s.buf data) 0 data.length = data := take_overwrite _ _ hle
        have hfilled : Cursors capacity ⟨(s.inner.read s.buf.length).state,
            overwrite s.buf data, 0, data.length⟩ :=
          ⟨by rw [length_overwrite, hbuf], Nat.zero_le _, hbuf ▸ hle⟩
        obtain ⟨hcursors, hanswer, habs⟩ := copyOut_spec hfilled dst
        unfold step
        rw [heq]
        simp only [buffered, hask, hread]
        rw [hfresh] at hanswer habs
        rw [hanswer]
        exact ⟨hcursors, habs, rfl⟩
  · -- There is something unread, and the file is not read.
    have hfull : unread s.buf s.pos s.filled ≠ [] := by
      unfold unread
      rw [Ne, List.drop_eq_nil_iff, List.length_take]
      omega
    have heq : s.read dst = s.copyOut dst := by
      unfold read fillBuf
      rw [if_neg (by omega), if_neg (by omega)]
    obtain ⟨hcursors, hanswer, habs⟩ := copyOut_spec ⟨hbuf, hpos, hfilled⟩ dst
    unfold step
    rw [heq, hanswer]
    rcases buffered_cases File.read (ask capacity) List.length s.inner
      (unread s.buf s.pos s.filled) dst with ⟨-, hnil, -⟩ | ⟨-, hnil, -⟩ | ⟨-, hbuffered⟩
    · exact absurd hnil hfull
    · exact absurd hnil hfull
    · unfold abs at habs ⊢
      rw [hbuffered]
      exact ⟨hcursors, habs, rfl⟩

end BufReader

/-! ## Copies -/

section Copies

variable {reads : FileReads} {interrupted : IoError → Bool} {n : ℕ} {ask : List UInt8 → ℕ}

/-- A copy through a buffered reader of a file that falters gets the whole file, when the requests
for the file are for at least one byte. -/
theorem buffered_copies (h : reads.FailsFor interrupted n)
    (hask : ∀ dst : List UInt8, dst ≠ [] → 0 < ask dst) {dsts : ℕ → List UInt8}
    (hdsts : ∀ i, dsts i ≠ []) {fuel : ℕ} (hfuel : reads.bytes.length + n < fuel) :
    (copy (buffered File.read ask List.length) interrupted fuel (.open reads, []) dsts).map
      (fun r => (r.data, r.result)) = some (reads.bytes, .ok ()) := by
  have hprompt := buffered_prompt ask List.length (File.prompt reads) (fun dst => dst ≠ []) hask
    fun dst => List.length_pos_of_ne_nil
  have hstart : File.At reads (.open reads) := ⟨rfl, Nat.zero_le _⟩
  obtain ⟨r, hr, hdata, hresult⟩ := copy_all (s := (.open reads, []))
    (buffered_view ask List.length (File.view reads)) hprompt
    (buffered_falters ask List.length (File.falters h)) hstart hdsts
    (by simpa [File.left, File.open] using hfuel)
  rw [hr, Option.map_some, hdata, hresult]
  rfl

end Copies

/-- A `ScratchReader` stands in for a `BufReader`. When the reads of the file that fail were
interrupted, and are among the first `n`, a copy of the file through either gets the whole file,
whatever the reads answer, and whatever the sizes of the scratch, of its chunks, of the buffer and
of the caller's buffers are. -/
theorem scratch_copies_as_bufReader (reads reads' : FileReads) (hbytes : reads.bytes = reads'.bytes)
    (interrupted : IoError → Bool) (n : ℕ) (hreads : reads.FailsFor interrupted n)
    (hreads' : reads'.FailsFor interrupted n) (alloc : HugepageAlloc) (hlen : 0 < alloc.len)
    (chunk_size : ℕ) (hchunk : 0 < chunk_size) (use_pread : Bool) (capacity : ℕ)
    (dsts dsts' : ℕ → List UInt8) (hdsts : ∀ i, dsts i ≠ []) (hdsts' : ∀ i, dsts' i ≠ [])
    (fuel : ℕ) (hfuel : reads.bytes.length + n < fuel) :
    (copy ScratchReader.step interrupted fuel
        (.new (.open reads) alloc chunk_size use_pread) dsts).map (fun r => (r.data, r.result)) =
      some (reads.bytes, .ok ()) ∧
    (copy BufReader.step interrupted fuel (.withCapacity capacity (.open reads')) dsts').map
      (fun r => (r.data, r.result)) = some (reads.bytes, .ok ()) := by
  constructor
  · rw [copy_lockstep (fun s t => ScratchReader.Cursors alloc.len chunk_size s ∧ s.abs = t)
      (fun s t dst h => by
        obtain ⟨h, rfl⟩ := h
        obtain ⟨hcursors, habs, hresult⟩ := ScratchReader.step_refines h dst
        exact ⟨⟨hcursors, habs⟩, hresult⟩)
      fuel ⟨ScratchReader.Cursors.new (.open reads) alloc chunk_size use_pread, rfl⟩ dsts,
      ScratchReader.abs_new]
    exact buffered_copies hreads (fun dst _ => by omega) hdsts hfuel
  · have habs : (BufReader.withCapacity capacity (.open reads')).abs = (.open reads', []) := by
      simp [BufReader.abs, BufReader.withCapacity, unread]
    rw [copy_lockstep (fun s t => BufReader.Cursors capacity s ∧ s.abs = t)
      (fun s t dst h => by
        obtain ⟨h, rfl⟩ := h
        obtain ⟨hcursors, habs, hresult⟩ := BufReader.step_refines h dst
        exact ⟨⟨hcursors, habs⟩, hresult⟩)
      fuel ⟨BufReader.Cursors.withCapacity capacity (.open reads'), rfl⟩ dsts', habs, hbytes]
    have hask : ∀ dst : List UInt8, dst ≠ [] → 0 < BufReader.ask capacity dst := by
      intro dst hdst
      have hpos := List.length_pos_of_ne_nil hdst
      unfold BufReader.ask
      omega
    exact buffered_copies hreads' hask hdsts' (hbytes ▸ hfuel)

/-- The error of a read that a signal interrupts. -/
def interruptedRead : IoError := ⟨.other, "Interrupted system call (os error 4)"⟩

/-- Reads of a file of which the first is interrupted, and the others answer two bytes at most. -/
def shortReads (bytes : List UInt8) : FileReads where
  bytes := bytes
  answer i offset count :=
    if i = 0 then .error interruptedRead else .ok ((bytes.drop offset).take (min count 2))
  answer_prefix i offset count data h := by
    by_cases hi : i = 0
    · rw [if_pos hi] at h
      cases h
    · rw [if_neg hi] at h
      rw [← Except.ok.inj h]
      exact List.take_prefix_take_left (Nat.min_le_left _ _)
  answer_nil i offset count h := by
    by_cases hi : i = 0
    · rw [if_pos hi] at h
      cases h
    · rw [if_neg hi] at h
      rcases List.take_eq_nil_iff.mp (Except.ok.inj h) with hzero | hnil
      · omega
      · exact .inr (List.drop_eq_nil_iff.mp hnil)

/-- Such a file, through a scratch of four bytes in chunks of three with `pread`, and through a
buffer of one byte. -/
theorem scratch_copies_hello :
    (copy ScratchReader.step (fun e => e = interruptedRead) 7
        (.new (.open (shortReads hello)) ⟨0, [0, 0, 0, 0], 4, rfl⟩ 3 true) fun _ => [0, 0]).map
      (fun r => (r.data, r.result)) = some (hello, .ok ()) ∧
    (copy BufReader.step (fun e => e = interruptedRead) 7
        (.withCapacity 1 (.open (shortReads hello))) fun _ => [0, 0, 0]).map
      (fun r => (r.data, r.result)) = some (hello, .ok ()) := by
  have hfails : (shortReads hello).FailsFor (fun e => e = interruptedRead) 1 := by
    intro i offset count e h
    unfold shortReads at h
    by_cases hi : i = 0
    · simp only [if_pos hi] at h
      exact ⟨by simpa using (Except.error.inj h).symm, by omega⟩
    · simp only [if_neg hi] at h
      cases h
  exact scratch_copies_as_bufReader (shortReads hello) (shortReads hello) rfl
    (fun e => e = interruptedRead) 1 hfails hfails ⟨0, [0, 0, 0, 0], 4, rfl⟩ (by decide) 3
    (by decide) true 1 (fun _ => [0, 0]) (fun _ => [0, 0, 0]) (by simp) (by simp) 7 (by decide)

end MmapZstd
