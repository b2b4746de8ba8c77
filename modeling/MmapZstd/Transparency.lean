import MmapZstd.Lib.Pages
import MmapZstd.Residency

/-!
# Page retirement is transparent

`MADV_DONTNEED` acts on whole pages of the system, which may be larger than the 4096 bytes that the
crate rounds to and need not be aligned to the mapping's first byte, and what it leaves in them is
taken here to be arbitrary. A retirement still cannot be seen: every page that it touches lies
below the bytes that are left to be read, because both retirements lag by at least 2 MiB.

The proof runs the code next to the same code without its retirement. `SameAhead` and `SameStream`
relate the states of the two runs: they agree on everything but the retired part of the source.
-/

namespace MmapZstd

open Frames Pages

/-- On a system with pages of `P` bytes, `MADV_DONTNEED` leaves arbitrary bytes in the pages that
hold a byte of the range, and leaves the others alone. -/
def Kernel.DestroysPages (k : Kernel) (P : ℕ) : Prop :=
  ∀ m offset len i, ¬ Touches P m.ptr offset len i →
    (k.dontNeed m offset len).bytes[i]? = m.bytes[i]?

/-- The kernel's `MADV_DONTNEED` on anonymous memory, which leaves zeros. -/
def Kernel.anonymous (P : ℕ) : Kernel where
  dontNeed m offset len :=
    { ptr := m.ptr
      bytes := m.bytes.mapIdx fun i b => if Touches P m.ptr offset len i then 0 else b
      length_le := by simpa using m.length_le }
  ptr_eq _ _ _ := rfl
  len_eq m offset len := by simp [Mmap.len]

/-- It leaves alone what it does not touch. -/
theorem anonymous_destroysPages (P : ℕ) : (Kernel.anonymous P).DestroysPages P := by
  intro m offset len i h
  simp [Kernel.anonymous, h]

/-- A range that ends at least a page before `pos` leaves the bytes from `pos` on alone. -/
theorem Kernel.DestroysPages.drop_eq {k : Kernel} {P : ℕ} (hk : k.DestroysPages P) (hP : 0 < P)
    (m : Mmap) {offset len pos : ℕ} (h : offset + len + P ≤ pos) :
    (k.dontNeed m offset len).bytes.drop pos = m.bytes.drop pos := by
  apply List.ext_getElem?
  intro i
  rw [List.getElem?_drop, List.getElem?_drop]
  apply hk
  intro htouch
  have := htouch.lt hP
  omega

variable {σ : Type} {z : RawDecoder σ} {k : Kernel} {P : ℕ}

/-! ## The `Mmap` variant -/

/-- Two decoders over mappings agree, except on the bytes of the mappings before `in_pos` and on
`retire_pos`. -/
structure SameAhead (d e : Decoder σ) : Prop where
  mappings : ∃ m n, d.buf = .mmap m ∧ e.buf = .mmap n ∧
    m.len = n.len ∧ m.bytes.drop d.in_pos = n.bytes.drop d.in_pos
  in_pos : d.in_pos = e.in_pos
  zstd : d.zstd = e.zstd

/-- `maybe_retire` cannot be seen by the decoder that runs without it. -/
theorem SameAhead.retire (hk : k.DestroysPages P) (hP : 0 < P) (hle : P ≤ hugepage)
    {d e : Decoder σ} (h : SameAhead d e) : SameAhead (maybeRetire k d).1 e := by
  obtain ⟨⟨m, n, hd, he, hlen, hahead⟩, hpos, hzstd⟩ := h
  rcases maybeRetire_cases k d hd _ rfl with ⟨heq, -⟩ | ⟨heq, hlt⟩
  · rw [heq]
    exact ⟨⟨m, n, hd, he, hlen, hahead⟩, hpos, hzstd⟩
  · rw [heq]
    refine ⟨⟨_, n, rfl, he, (k.len_eq _ _ _).trans hlen, ?_⟩, hpos, hzstd⟩
    refine (hk.drop_eq hP m ?_).trans hahead
    -- The range ends at the frontier, 4 MiB behind `in_pos`, and a page is at most 2 MiB.
    have hfrontier := land_usizeNot_le (d.in_pos - retireWindow) (4096 - 1)
    have hlag : hugepage ≤ retireWindow := by decide
    simp only
    omega

/-- A read keeps the two decoders in agreement, and returns the same. -/
theorem SameAhead.read (hk : k.DestroysPages P) (hP : 0 < P) (hle : P ≤ hugepage)
    {d e : Decoder σ} (h : SameAhead d e) (fuel : ℕ) (buf : List UInt8) :
    Agree SameAhead (d.read z (.madvise σ k) fuel buf) (e.read z (.removed σ) fuel buf) := by
  rcases eq_or_ne buf [] with rfl | hbuf
  · rw [read_nil, read_nil]
    exact ⟨h, rfl, rfl⟩
  obtain ⟨⟨m, n, hd, he, hlen, hahead⟩, hpos, hzstd⟩ := h
  have hderef : d.buf.deref = .ok m.bytes := by rw [hd]; rfl
  have hderef' : e.buf.deref = .ok n.bytes := by rw [he]; rfl
  unfold Mmap.len at hlen
  rw [read_whole hderef hbuf, read_whole hderef' hbuf]
  by_cases hin : d.in_pos ≤ m.bytes.length
  · have hin' : e.in_pos ≤ n.bytes.length := by omega
    -- Both offer the same bytes, so zstd answers the same.
    have hcalls : z.run_on_buffers e.zstd (n.bytes.drop e.in_pos) buf =
        z.run_on_buffers d.zstd (m.bytes.drop d.in_pos) buf := by
      rw [← hpos, ← hahead, hzstd]
    cases hcall : (z.run_on_buffers d.zstd (m.bytes.drop d.in_pos) buf).result with
    | error err =>
      rw [readWhole_error hderef hin hcall, readWhole_error hderef' hin' (hcalls ▸ hcall), hcalls]
      exact ⟨⟨⟨m, n, hd, he, hlen, hahead⟩, hpos, rfl⟩, rfl, rfl⟩
    | ok status =>
      rw [readWhole_ok hderef hin hcall rfl, readWhole_ok hderef' hin' (hcalls ▸ hcall) rfl, hcalls]
      have hpos' : d.in_pos + status.bytes_read = e.in_pos + status.bytes_read := by rw [hpos]
      have hahead' : m.bytes.drop (d.in_pos + status.bytes_read) =
          n.bytes.drop (d.in_pos + status.bytes_read) := by
        rw [← List.drop_drop, hahead, List.drop_drop]
      exact ⟨SameAhead.retire hk hP hle ⟨⟨m, n, hd, he, hlen, hahead'⟩, hpos', rfl⟩, rfl, rfl⟩
  · -- Only a decoder that reports more than it was offered gets here.
    have hout : ¬ e.in_pos ≤ n.bytes.length := by omega
    simp only [readWhole, hderef, hderef', Outcome.bind, sliceFrom, if_neg hin, if_neg hout]
    exact ⟨⟨⟨m, n, hd, he, hlen, hahead⟩, hpos, hzstd⟩, rfl, rfl⟩

/-! ## The streaming variant -/

/-- Two states of the streaming variant agree, except on the bytes of the source before `src_pos`
and on `retire_pos`. The scratch has at least a hugepage. -/
structure SameStream (s t : StreamingState) : Prop where
  scratch : s.scratch = t.scratch
  capacity : hugepage ≤ s.scratch.capacity
  src_pos : s.src_pos = t.src_pos
  scratch_in_pos : s.scratch_in_pos = t.scratch_in_pos
  scratch_len : s.scratch_len = t.scratch_len
  source_len : s.src_mmap.len = t.src_mmap.len
  ahead : s.src_mmap.bytes.drop s.src_pos = t.src_mmap.bytes.drop t.src_pos

/-- The copy of a refill keeps the two states in agreement. -/
theorem SameStream.load {s t : StreamingState} (h : SameStream s t) :
    SameStream (load s) (load t) := by
  obtain ⟨hscratch, hcap, hpos, hin, hlen, hsource, hahead⟩ := h
  refine ⟨?_, hcap, ?_, rfl, ?_, hsource, ?_⟩
  · simp only [MmapZstd.load]
    rw [hahead, hscratch, hpos, hsource]
  · simp only [MmapZstd.load, hscratch, hpos, hsource]
  · simp only [MmapZstd.load, hscratch, hpos, hsource]
  · simp only [MmapZstd.load]
    rw [← List.drop_drop, hahead, List.drop_drop, hscratch, hpos, hsource]

/-- `retire_src` cannot be seen by the state that runs without it. -/
theorem SameStream.retire (hk : k.DestroysPages P) (hP : 0 < P) (hle : P ≤ hugepage)
    {s t : StreamingState} (h : SameStream s t) : SameStream (retireSrc k s).1 t := by
  rcases retireSrc_cases k s _ rfl with ⟨heq, -⟩ | ⟨heq, hlt⟩
  · rw [heq]
    exact h
  · rw [heq]
    have hcap := h.capacity
    refine ⟨h.scratch, hcap, h.src_pos, h.scratch_in_pos, h.scratch_len,
      (k.len_eq _ _ _).trans h.source_len, ?_⟩
    refine (hk.drop_eq hP s.src_mmap ?_).trans h.ahead
    -- The range ends at the frontier, a scratch capacity behind `src_pos`.
    have hfrontier := land_usizeNot_le (s.src_pos - s.scratch.capacity) (4096 - 1)
    simp only
    omega

/-- A call of zstd keeps the two states in agreement, and returns the same: it was offered the same
input. -/
theorem SameStream.feed {s t : StreamingState} (h : SameStream s t) (zstd : σ)
    (buf : List UInt8) :
    Agree (fun p q => SameStream p.1 q.1 ∧ p.2 = q.2) (feed z s zstd buf)
      (feed z t zstd buf) := by
  have hslices : slice t.scratch.deref t.scratch_in_pos t.scratch_len =
      slice s.scratch.deref s.scratch_in_pos s.scratch_len := by
    rw [h.scratch, h.scratch_in_pos, h.scratch_len]
  cases hslice : slice s.scratch.deref s.scratch_in_pos s.scratch_len with
  | panic =>
    simp only [MmapZstd.feed, hslices, hslice]
    exact ⟨⟨h, rfl⟩, rfl, rfl⟩
  | err e =>
    simp only [MmapZstd.feed, hslices, hslice]
    exact ⟨⟨h, rfl⟩, rfl, rfl⟩
  | ok input =>
    cases hcall : (z.run_on_buffers zstd input buf).result with
    | error e =>
      rw [feed_error hslice hcall, feed_error (hslices.trans hslice) hcall]
      exact ⟨⟨h, rfl⟩, rfl, rfl⟩
    | ok status =>
      rw [feed_ok hslice hcall, feed_ok (hslices.trans hslice) hcall]
      refine ⟨⟨⟨h.scratch, h.capacity, h.src_pos, ?_, h.scratch_len, h.source_len, h.ahead⟩, rfl⟩,
        rfl, rfl⟩
      simp only [h.scratch_in_pos]

/-- One iteration of the loop keeps the two states in agreement, and returns the same. -/
theorem SameStream.body (hk : k.DestroysPages P) (hP : 0 < P) (hle : P ≤ hugepage)
    {s t : StreamingState} (h : SameStream s t) (zstd : σ) (buf : List UInt8) :
    Agree (fun p q => SameStream p.1 q.1 ∧ p.2 = q.2)
      (readStreamingBody z (.madvise σ k) s zstd buf)
      (readStreamingBody z (.removed σ) t zstd buf) := by
  have hin := h.scratch_in_pos
  have hlen := h.scratch_len
  have hpos := h.src_pos
  have hsource := h.source_len
  -- The two states take the same branch, as they agree on what the branches test.
  rcases refill_cases (Retirement.madvise σ k) s with ⟨heq, hs⟩ | ⟨heq, hs⟩ | ⟨heq, hs⟩ <;>
    rcases refill_cases (Retirement.removed σ) t with ⟨heq', ht⟩ | ⟨heq', ht⟩ | ⟨heq', ht⟩ <;>
    try omega
  · simp only [readStreamingBody, heq, heq']
    exact ⟨⟨h, rfl⟩, rfl, rfl⟩
  · simp only [readStreamingBody, heq, heq']
    exact (h.feed zstd buf).after _ _
  · simp only [readStreamingBody, heq, heq']
    exact ((h.load.retire hk hP hle).feed zstd buf).after _ _

/-! ## Runs -/

/-- Page retirement is transparent. On a system with pages of any size up to 2 MiB, in sessions of
reads with any decoder, over a mapping at any address, both variants return the same results and
the same bytes as the code without its retirement. -/
theorem retirement_transparent (z : RawDecoder σ) (hk : k.DestroysPages P) (hP : 0 < P)
    (hle : P ≤ hugepage) (src : Mmap) (ptr : ℕ) (mem : List UInt8) (hW : hugepage ∣ mem.length)
    (hmem : 0 < mem.length) (zstd : σ) (reads : List (ℕ × List UInt8)) :
    (session z (.madvise σ k) reads (.new (.mmap src) zstd)).results =
        (session z (.removed σ) reads (.new (.mmap src) zstd)).results ∧
      (session z (.madvise σ k) reads
          (.new (.streaming (.new src (.scratch ptr mem))) zstd)).results =
        (session z (.removed σ) reads
          (.new (.streaming (.new src (.scratch ptr mem))) zstd)).results := by
  constructor
  · have hstart : SameAhead (Decoder.new (.mmap src) zstd) (.new (.mmap src) zstd) :=
      ⟨⟨src, src, rfl, rfl, rfl, rfl⟩, rfl, rfl⟩
    exact session_lockstep (fun _ _ fuel buf h => SameAhead.read hk hP hle h fuel buf) reads _ _
      hstart
  · have hstart : SameStream (.new src (.scratch ptr mem)) (.new src (.scratch ptr mem)) :=
      ⟨rfl, Nat.le_of_dvd hmem hW, rfl, rfl, rfl, rfl, rfl⟩
    exact session_streaming_lockstep SameStream
      (fun _ _ zstd buf h => SameStream.body hk hP hle h zstd buf) reads _ _ zstd hstart

/-- Two reads of a source of 5 MiB in anonymous memory, with pages of 2 MiB: over its mapping and
through a scratch of 4 MiB, its first MiB is retired. -/
theorem retirement_transparent_long :
    let s := session swallow (.madvise Unit (.anonymous hugepage)) [(1, [0]), (1, [0])]
      (.new (.mmap longSource) ())
    let s' := session swallow (.madvise Unit (.anonymous hugepage)) [(1, [0]), (1, [0])]
      (.new (.streaming (.new longSource (.scratch 0 longScratch))) ())
    (s.results = (session swallow (.removed Unit) [(1, [0]), (1, [0])]
          (.new (.mmap longSource) ())).results ∧
        s'.results = (session swallow (.removed Unit) [(1, [0]), (1, [0])]
          (.new (.streaming (.new longSource (.scratch 0 longScratch))) ())).results) ∧
      s.decoder.retire_pos = 1024 * 1024 ∧
      ∃ state, s'.decoder.buf = .streaming state ∧ state.retire_pos = 1024 * 1024 :=
  ⟨retirement_transparent swallow (anonymous_destroysPages hugepage) (by decide) le_rfl longSource
    0 longScratch (longScratch_length ▸ by decide) (longScratch_length ▸ by decide) ()
    [(1, [0]), (1, [0])], swallow_retires (.anonymous hugepage)⟩

end MmapZstd
