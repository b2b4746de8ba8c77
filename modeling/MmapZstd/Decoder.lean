import MmapZstd.Zstd

/-!
# The decoder

The data types of `src/decoder.rs` and its `Read` implementation. `Decoder.read` dispatches on the
buffer: the whole-buffer variants hand zstd everything that is left of the input, and the streaming
variant runs the loop of `readStreaming` over the scratch window. Both retire pages of the source
behind their cursors.

The parts of the system that the code calls are parameters: the raw zstd decoder, and the kernel's
`MADV_DONTNEED`, which may change the bytes of a mapping. `Retirement` is the pair of functions
that retire pages, so that the same code can be run with the retirement taken out.

Every call returns the events that it caused, in order: the calls of `run_on_buffers`, the refills
of the scratch, and the ranges passed to `madvise`. They are not part of the program's state; they
are what the theorems about runs speak of.
-/

namespace MmapZstd

/-- The size of a hugepage. -/
def hugepage : ℕ := 2 * 1024 * 1024

/-- A hugepage mapping, with its bytes. -/
structure HugepageBuf where
  ptr : ℕ
  /-- The bytes of the mapping at `ptr`. -/
  mem : List UInt8
  len : ℕ
  capacity : ℕ
  /-- The mapping has `capacity` bytes. -/
  mem_length : mem.length = capacity

/-- The slice that a `HugepageBuf` dereferences to. -/
def HugepageBuf.deref (h : HugepageBuf) : List UInt8 := h.mem.take h.len

/-- `copy_nonoverlapping(src, ptr, src.len())`. -/
def HugepageBuf.copyFrom (h : HugepageBuf) (src : List UInt8) : HugepageBuf where
  ptr := h.ptr
  mem := overwrite h.mem src
  len := h.len
  capacity := h.capacity
  mem_length := by rw [length_overwrite, h.mem_length]

/-- `memmap2::Mmap`: a mapping of a file, at any address. -/
structure Mmap where
  ptr : ℕ
  bytes : List UInt8
  /-- A mapping is a slice, so it has at most `isize::MAX` bytes. -/
  length_le : bytes.length ≤ isizeMax

/-- The length of a mapping. -/
def Mmap.len (m : Mmap) : ℕ := m.bytes.length

/-- `StreamingState`. -/
structure StreamingState where
  src_mmap : Mmap
  scratch : HugepageBuf
  src_pos : ℕ
  scratch_in_pos : ℕ
  scratch_len : ℕ
  retire_pos : ℕ

/-- `DecoderBuf`. -/
inductive DecoderBuf
  | mmap (m : Mmap)
  | slice (s : List UInt8)
  | hugepage (h : HugepageBuf)
  | streaming (s : StreamingState)

/-- The slice that a `DecoderBuf` dereferences to; `unreachable!` for the streaming variant. -/
def DecoderBuf.deref : DecoderBuf → Outcome (List UInt8)
  | .mmap m => .ok m.bytes
  | .slice s => .ok s
  | .hugepage h => .ok h.deref
  | .streaming _ => .panic

/-- `Decoder`. -/
structure Decoder (σ : Type) where
  buf : DecoderBuf
  in_pos : ℕ
  retire_pos : ℕ
  zstd : σ

/-- What a read did. -/
inductive Event
  /-- `run_on_buffers(input, buf)` with `buf.len() = room`, called while the decoder's buffer was
  `site`. -/
  | call (site : DecoderBuf) (input : List UInt8) (room : ℕ) (result : Except IoError Status)
  /-- A refill of the scratch: the state after the copy, and the state after `retire_src`. -/
  | refill (loaded retired : StreamingState)
  /-- `unchecked_advise_range(DontNeed, offset, len)` on the source. -/
  | advise (offset len : ℕ)

/-- The kernel's `MADV_DONTNEED` on a range of a mapping. -/
structure Kernel where
  dontNeed : Mmap → ℕ → ℕ → Mmap
  /-- The mapping stays where it is. -/
  ptr_eq : ∀ m offset len, (dontNeed m offset len).ptr = m.ptr
  /-- The mapping keeps its length. -/
  len_eq : ∀ m offset len, (dontNeed m offset len).len = m.len

/-- On a mapping of a file that does not change, a page that was released is read again from the
file when it is touched. -/
def Kernel.file : Kernel where
  dontNeed m _ _ := m
  ptr_eq _ _ _ := rfl
  len_eq _ _ _ := rfl

/-- `RETIRE_WINDOW`. -/
def retireWindow : ℕ := 4 * 1024 * 1024

section Retire

variable {σ : Type} (k : Kernel)

/-- `maybe_retire`. -/
def maybeRetire (d : Decoder σ) : Decoder σ × List Event :=
  match d.buf with
  | .mmap mmap =>
    let new_frontier := d.in_pos - retireWindow
    let new_frontier := new_frontier &&& usizeNot (4096 - 1)
    if new_frontier > d.retire_pos then
      ({ d with
          buf := .mmap (k.dontNeed mmap d.retire_pos (new_frontier - d.retire_pos))
          retire_pos := new_frontier },
        [.advise d.retire_pos (new_frontier - d.retire_pos)])
    else (d, [])
  | _ => (d, [])

/-- `retire_src`. -/
def retireSrc (state : StreamingState) : StreamingState × List Event :=
  let frontier := state.src_pos - state.scratch.capacity
  let new_frontier := frontier &&& usizeNot (4096 - 1)
  if new_frontier > state.retire_pos then
    ({ state with
        src_mmap := k.dontNeed state.src_mmap state.retire_pos (new_frontier - state.retire_pos)
        retire_pos := new_frontier },
      [.advise state.retire_pos (new_frontier - state.retire_pos)])
  else (state, [])

end Retire

/-- The two functions that retire pages of the source. -/
structure Retirement (σ : Type) where
  maybeRetire : Decoder σ → Decoder σ × List Event
  retireSrc : StreamingState → StreamingState × List Event

/-- Retirement as the crate does it. -/
def Retirement.madvise (σ : Type) (k : Kernel) : Retirement σ where
  maybeRetire := MmapZstd.maybeRetire k
  retireSrc := MmapZstd.retireSrc k

/-- The crate without its retirement. -/
def Retirement.removed (σ : Type) : Retirement σ where
  maybeRetire d := (d, [])
  retireSrc state := (state, [])

/-- What a read leaves: the state, the caller's buffer, how it ended (`none` while it still runs),
and its events. -/
structure Reading (τ : Type) where
  state : τ
  buf : List UInt8
  outcome : Option (Outcome ℕ)
  events : List Event

/-- A reading with more events before it. -/
def Reading.after {τ : Type} (r : Reading τ) (events : List Event) : Reading τ :=
  { r with events := events ++ r.events }

section Read

variable {σ : Type} (z : RawDecoder σ) (R : Retirement σ)

/-- The first half of an iteration of `read_streaming`. -/
inductive Refill
  /-- `return Ok(0)`: the scratch and the source are exhausted. -/
  | eof
  /-- An index or a subtraction was out of bounds. -/
  | panic
  /-- Go on with the scratch. -/
  | ready (state : StreamingState) (events : List Event)

/-- The first half of an iteration of `read_streaming`: refill the scratch when it is exhausted. -/
def refill (state : StreamingState) : Refill :=
  if state.scratch_in_pos = state.scratch_len then
    if state.src_pos ≥ state.src_mmap.len then .eof
    else
      match Build.debug.sub state.src_mmap.len state.src_pos,
        sliceFrom state.src_mmap.bytes state.src_pos with
      | .ok remaining, .ok src =>
        let chunk := min remaining state.scratch.capacity
        let loaded := { state with
          scratch := state.scratch.copyFrom (src.take chunk)
          src_pos := state.src_pos + chunk
          scratch_len := chunk
          scratch_in_pos := 0 }
        let retired := R.retireSrc loaded
        .ready retired.1 (.refill loaded retired.1 :: retired.2)
      | _, _ => .panic
  else .ready state []

/-- The second half of an iteration of `read_streaming`: feed the scratch to zstd. -/
def feed (state : StreamingState) (zstd : σ) (buf : List UInt8) :
    Reading (StreamingState × σ) :=
  match slice state.scratch.deref state.scratch_in_pos state.scratch_len with
  | .ok input =>
    let call := z.run_on_buffers zstd input buf
    let event := Event.call (.streaming state) input buf.length call.result
    match call.result with
    | .error e =>
      ⟨(state, call.zstd), call.buf, some (.err (.wrap .invalidData e)), [event]⟩
    | .ok status =>
      let state := { state with scratch_in_pos := state.scratch_in_pos + status.bytes_read }
      if status.bytes_written > 0 then
        ⟨(state, call.zstd), call.buf, some (.ok status.bytes_written), [event]⟩
      else
        -- zstd consumed input without producing output: loop to refill or detect the end.
        ⟨(state, call.zstd), call.buf, none, [event]⟩
  | _ => ⟨(state, zstd), buf, some .panic, []⟩

/-- One iteration of the loop of `read_streaming`. -/
def readStreamingBody (state : StreamingState) (zstd : σ) (buf : List UInt8) :
    Reading (StreamingState × σ) :=
  match refill R state with
  | .eof => ⟨(state, zstd), buf, some (.ok 0), []⟩
  | .panic => ⟨(state, zstd), buf, some .panic, []⟩
  | .ready state events => (feed z state zstd buf).after events

/-- `read_streaming`, for at most `fuel` iterations of its loop. -/
def readStreaming : ℕ → StreamingState → σ → List UInt8 → Reading (StreamingState × σ)
  | 0, state, zstd, buf => ⟨(state, zstd), buf, none, []⟩
  | fuel + 1, state, zstd, buf =>
    let r := readStreamingBody z R state zstd buf
    match r.outcome with
    | some _ => r
    | none => (readStreaming fuel r.state.1 r.state.2 r.buf).after r.events

/-- `<Decoder as io::Read>::read` on a whole-buffer variant. -/
def readWhole (d : Decoder σ) (buf : List UInt8) : Reading (Decoder σ) :=
  match d.buf.deref.bind fun bytes => sliceFrom bytes d.in_pos with
  | .ok input =>
    let call := z.run_on_buffers d.zstd input buf
    let event := Event.call d.buf input buf.length call.result
    match call.result with
    | .error e =>
      ⟨{ d with zstd := call.zstd }, call.buf, some (.err (.wrap .invalidData e)), [event]⟩
    | .ok status =>
      let retired := R.maybeRetire
        { d with zstd := call.zstd, in_pos := d.in_pos + status.bytes_read }
      ⟨retired.1, call.buf, some (.ok status.bytes_written), event :: retired.2⟩
  | _ => ⟨d, buf, some .panic, []⟩

/-- `<Decoder as io::Read>::read`; `fuel` bounds the loop of the streaming variant. -/
def Decoder.read (fuel : ℕ) (d : Decoder σ) (buf : List UInt8) : Reading (Decoder σ) :=
  if buf.isEmpty then ⟨d, buf, some (.ok 0), []⟩
  else
    match d.buf with
    | .streaming state =>
      let r := readStreaming z R fuel state d.zstd buf
      ⟨{ d with buf := .streaming r.state.1, zstd := r.state.2 }, r.buf, r.outcome, r.events⟩
    | _ => readWhole z R d buf

end Read

end MmapZstd
