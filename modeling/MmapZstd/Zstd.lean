import MmapZstd.Lib.Frames
import MmapZstd.Rust

/-!
# The raw zstd decoder

The crate drives `zstd::stream::raw::Decoder` through one method, `run_on_buffers`. The method is
not part of the repository, so the model takes it as a parameter: a `RawDecoder` is any function
from the decoder's state, the input slice and the output buffer to an answer. What follows from
the bounds that every `Operation` keeps is stated for `Lawful` decoders, and the rest for decoders
that carry a `Decoding`, the streaming contract of `ZSTD_decompressStream` on the stream at hand.
-/

namespace MmapZstd

open Frames

/-- zstd frames: bytes that stand for bytes. -/
abbrev ZstdFrame := Frame UInt8 UInt8

/-- The frame with one raw block: a frame header with the content's size, a block header, and the
content itself, which the decoder passes on byte by byte. -/
def rawFrame (content : List UInt8) : ZstdFrame where
  bytes := [0x28, 0xB5, 0x2F, 0xFD, 0x20, .ofNat content.length, .ofNat (8 * content.length + 1),
    0x00, 0x00] ++ content
  content := content
  determined k := min (k - 9) content.length
  bytes_ne := by simp
  determined_zero := by simp
  determined_mono k l h := by
    simp only
    omega
  determined_length := by simp

/-- `hello`, in ASCII. -/
def hello : List UInt8 := [0x68, 0x65, 0x6C, 0x6C, 0x6F]

/-- The `Status` that `run_on_buffers` answers. -/
structure Status where
  remaining : ℕ
  bytes_read : ℕ
  bytes_written : ℕ
  deriving DecidableEq, Repr

/-- What one call of `run_on_buffers` leaves: the decoder's state, the output buffer, and the
answer. -/
structure Call (σ : Type) where
  zstd : σ
  buf : List UInt8
  result : Except IoError Status

/-- `zstd::stream::raw::Decoder`, with states in `σ`. -/
structure RawDecoder (σ : Type) where
  /-- `run_on_buffers(&mut self, input, output)`. -/
  run_on_buffers : σ → List UInt8 → List UInt8 → Call σ
  /-- A call writes into the output buffer and cannot change its length. -/
  buf_length : ∀ s input buf, (run_on_buffers s input buf).buf.length = buf.length

variable {σ : Type}

/-- The bounds on an answer: it consumes no more than the input and writes no more than the
output buffer. -/
structure RawDecoder.Lawful (z : RawDecoder σ) : Prop where
  read_le : ∀ s input buf status, (z.run_on_buffers s input buf).result = .ok status →
    status.bytes_read ≤ input.length
  written_le : ∀ s input buf status, (z.run_on_buffers s input buf).result = .ok status →
    status.bytes_written ≤ buf.length

/-- Inside a frame, past its header, libzstd fails a call when it and the fifteen before it made no
progress. -/
def stallLimit : ℕ := 16

/-- A reading of the decoder's states as positions in a stream of frames, under which every call
keeps the streaming contract. -/
structure Decoding (z : RawDecoder σ) where
  /-- Where a state stands in the stream. -/
  cursor : σ → Cursor UInt8 UInt8
  /-- The number of calls in a row without progress that zstd has counted. -/
  stalls : σ → ℕ
  /-- A call that is offered the next bytes of the stream, with at least those that the call
  before it left unread, answers as `Advance` says, writes the next bytes of the content, and
  counts at most one more call without progress: zstd counts none between two frames and in a frame
  header. -/
  answers : ∀ s input buf, input <+: (cursor s).bytes → (cursor s).owed ≤ input.length →
    buf ≠ [] → stalls s + 1 < stallLimit →
    ∃ status, (z.run_on_buffers s input buf).result = .ok status ∧
      Advance (cursor s) input.length buf.length status.remaining status.bytes_read
        status.bytes_written (cursor (z.run_on_buffers s input buf).zstd) ∧
      (z.run_on_buffers s input buf).buf.take status.bytes_written =
        (cursor s).content.take status.bytes_written ∧
      stalls (z.run_on_buffers s input buf).zstd ≤
        if status.bytes_read = 0 ∧ status.bytes_written = 0 then stalls s + 1 else 0

/-- From the state `s` on, the decoder decodes the stream `fs`. -/
def Decodes (z : RawDecoder σ) (s : σ) (fs : List ZstdFrame) : Prop :=
  ∃ D : Decoding z, D.cursor s = Cursor.start fs ∧ D.stalls s = 0

/-- From the state `s` on, the decoder decodes the stream `fs` and is eager: once it has flushed
what it held, `ZSTD_decompressStream` goes back to reading, and returns with input unread only at
the end of a frame or with output pending again. -/
def DecodesEagerly (z : RawDecoder σ) (s : σ) (fs : List ZstdFrame) : Prop :=
  ∃ D : Decoding z, (∀ s, (D.cursor s).Eager) ∧ D.cursor s = Cursor.start fs ∧ D.stalls s = 0

/-- An eager decoder decodes. -/
theorem DecodesEagerly.decodes {z : RawDecoder σ} {s : σ} {fs : List ZstdFrame}
    (h : DecodesEagerly z s fs) : Decodes z s fs := by
  obtain ⟨D, -, hs⟩ := h
  exact ⟨D, hs⟩

/-- One call, when the input at hand is `src`, a prefix of the stream, and `c` bytes of it have been
consumed. What the call writes is taken from the front of the reach. -/
theorem Decoding.call {z : RawDecoder σ} (D : Decoding z) {fs : List ZstdFrame}
    {src input buf : List UInt8} {c : ℕ} {s : σ} (hsrc : src <+: encoded fs)
    (hsync : (D.cursor s).bytes = (encoded fs).drop c) (hinput : input <+: src.drop c)
    (howed : (D.cursor s).owed ≤ input.length) (hbuf : buf ≠ [])
    (hstalls : D.stalls s + 1 < stallLimit) :
    ∃ status, (z.run_on_buffers s input buf).result = .ok status ∧
      Advance (D.cursor s) input.length buf.length status.remaining status.bytes_read
        status.bytes_written (D.cursor (z.run_on_buffers s input buf).zstd) ∧
      (D.cursor (z.run_on_buffers s input buf).zstd).bytes =
        (encoded fs).drop (c + status.bytes_read) ∧
      (D.cursor s).reach (src.length - c) =
        (z.run_on_buffers s input buf).buf.take status.bytes_written ++
          (D.cursor (z.run_on_buffers s input buf).zstd).reach
            (src.length - (c + status.bytes_read)) ∧
      D.stalls (z.run_on_buffers s input buf).zstd ≤
        if status.bytes_read = 0 ∧ status.bytes_written = 0 then D.stalls s + 1 else 0 := by
  have hnext : input <+: (D.cursor s).bytes := hsync ▸ hinput.trans (hsrc.drop c)
  have hlen : input.length ≤ src.length - c := by
    simpa using hinput.length_le
  obtain ⟨status, hresult, hadv, hwritten, hcount⟩ := D.answers s input buf hnext howed hbuf hstalls
  obtain ⟨-, hreach⟩ := hadv.reach_eq hlen
  refine ⟨status, hresult, hadv, ?_, ?_, hcount⟩
  · rw [hadv.bytes_eq, hsync, List.drop_drop]
  · rw [hwritten, hadv.take_eq hlen, ← Nat.sub_sub, hreach, List.take_append_drop]

end MmapZstd
