import MmapZstd.Rust

/-!
# The corpus of the fixtures

The benchmarks, the example `gen_fixture` and the smoke test compress the same kind of corpus:
blocks of 4096 bytes, in turns random and constant. All but one fill one buffer of the size of the
corpus; `ensure_1gib_fixture` fills a buffer of 4 MiB again and again, and hands it to the encoder
each time. The bytes are the same (`chunks_are_corpus`): a chunk ends where a pair of blocks does,
and a chunk overwrites all that the buffer held before.

The loops take the sizes of a block and of a chunk as parameters, and all but the last theorem are
about any sizes.
-/

namespace MmapZstd

variable {ρ : Type}

/-- `rand::RngCore`: `fill_bytes` writes all bytes of a buffer of the given length. -/
structure Rng (ρ : Type) where
  fill_bytes : ρ → ℕ → ρ × List UInt8
  length_fill : ∀ rng n, (fill_bytes rng n).2.length = n

/-- The buffer after `bytes` was written to `data[offset..]`. -/
def writeAt (data : List UInt8) (offset : ℕ) (bytes : List UInt8) : List UInt8 :=
  data.take offset ++ overwrite (data.drop offset) bytes

/-- The loop that fills `data[offset..total]`: the generator and the buffer after it. -/
def fillBlocks (r : Rng ρ) (block : ℕ) [NeZero block] (total : ℕ) (rng : ρ) (data : List UInt8)
    (offset : ℕ) : ρ × List UInt8 :=
  if offset < total then
    let stop := min (offset + block) total
    let filled := r.fill_bytes rng (stop - offset)
    let data := writeAt data offset filled.2
    let offset := stop
    let stop := min (offset + block) total
    let data := writeAt data offset (.replicate (stop - offset) 0xAB)
    fillBlocks r block total filled.1 data stop
  else (rng, data)
termination_by total - offset
decreasing_by
  have hblock := NeZero.pos block
  omega

/-- The loop of `ensure_1gib_fixture`, when `generated` of `total` bytes are written: the generator
after it, and what it hands to the encoder. -/
def writeChunks (r : Rng ρ) (block chunk : ℕ) [NeZero block] [NeZero chunk] (total : ℕ) (rng : ρ)
    (buf : List UInt8) (generated : ℕ) : ρ × List (List UInt8) :=
  if generated < total then
    let chunk_len := min chunk (total - generated)
    let filled := fillBlocks r block chunk_len rng buf 0
    let rest := writeChunks r block chunk total filled.1 filled.2 (generated + chunk_len)
    (rest.1, filled.2.take chunk_len :: rest.2)
  else (rng, [])
termination_by total - generated
decreasing_by
  have hchunk := NeZero.pos chunk
  omega

/-- `BLOCK`. -/
def blockSize : ℕ := 4096

/-- `CHUNK`. -/
def chunkSize : ℕ := 4 * 1024 * 1024

instance : NeZero blockSize := ⟨by decide⟩

instance : NeZero chunkSize := ⟨by decide⟩

/-- `generate_corpus`, of `total` bytes. -/
def generateCorpus (r : Rng ρ) (rng : ρ) (total : ℕ) : ρ × List UInt8 :=
  fillBlocks r blockSize total rng (.replicate total 0) 0

/-- What `ensure_1gib_fixture` hands to the encoder, of `total` bytes. -/
def chunkedCorpus (r : Rng ρ) (rng : ρ) (total : ℕ) : ρ × List (List UInt8) :=
  writeChunks r blockSize chunkSize total rng (.replicate chunkSize 0) 0

/-! ## What the loops write -/

/-- `n` bytes of the corpus, and the generator after them. -/
def alternate (r : Rng ρ) (block : ℕ) [NeZero block] (rng : ρ) (n : ℕ) : ρ × List UInt8 :=
  if n = 0 then (rng, [])
  else
    let filled := r.fill_bytes rng (min block n)
    let rest := alternate r block filled.1 (n - 2 * block)
    (rest.1, filled.2 ++ .replicate (min block (n - block)) 0xAB ++ rest.2)
termination_by n
decreasing_by
  have hblock := NeZero.pos block
  omega

section Blocks

variable (r : Rng ρ) (block : ℕ) [NeZero block]

/-- No bytes. -/
@[simp]
theorem alternate_zero (rng : ρ) : alternate r block rng 0 = (rng, []) := by
  rw [alternate, if_pos rfl]

/-- A random block, a constant one, and the rest. -/
theorem alternate_of_pos (rng : ρ) {n : ℕ} (hn : 0 < n) :
    alternate r block rng n =
      ((alternate r block (r.fill_bytes rng (min block n)).1 (n - 2 * block)).1,
        (r.fill_bytes rng (min block n)).2 ++ .replicate (min block (n - block)) 0xAB ++
          (alternate r block (r.fill_bytes rng (min block n)).1 (n - 2 * block)).2) := by
  rw [alternate, if_neg hn.ne']

/-- There are `n` bytes. -/
@[simp]
theorem length_alternate (rng : ρ) (n : ℕ) : (alternate r block rng n).2.length = n := by
  induction n using Nat.strong_induction_on generalizing rng with
  | _ n ih =>
    rcases Nat.eq_zero_or_pos n with rfl | hn
    · simp
    · have hblock := NeZero.pos block
      have hrest := ih (n - 2 * block) (by omega) (r.fill_bytes rng (min block n)).1
      rw [alternate_of_pos r block rng hn]
      simp only [List.length_append, r.length_fill, List.length_replicate, hrest]
      omega

/-- Whole pairs of blocks can be split off. -/
theorem alternate_add (rng : ρ) (k n : ℕ) :
    alternate r block rng (2 * block * k + n) =
      ((alternate r block (alternate r block rng (2 * block * k)).1 n).1,
        (alternate r block rng (2 * block * k)).2 ++
          (alternate r block (alternate r block rng (2 * block * k)).1 n).2) := by
  have hblock := NeZero.pos block
  induction k generalizing rng with
  | zero => simp
  | succ k ih =>
    -- The first pair of blocks is whole, with the rest of the bytes and without.
    have hpair : ∀ m, min block (2 * block * (k + 1) + m) = block ∧
        min block (2 * block * (k + 1) + m - block) = block ∧
        2 * block * (k + 1) + m - 2 * block = 2 * block * k + m := by
      intro m
      rw [Nat.mul_succ]
      omega
    obtain ⟨hfirst, hsecond, hrest⟩ := hpair n
    obtain ⟨hfirst', hsecond', hrest'⟩ := hpair 0
    rw [Nat.add_zero] at hfirst' hsecond' hrest'
    have hpos : 0 < 2 * block * (k + 1) := Nat.mul_pos (Nat.mul_pos two_pos hblock) k.succ_pos
    rw [alternate_of_pos r block rng (Nat.add_pos_left hpos n), hfirst, hsecond, hrest, ih,
      alternate_of_pos r block rng hpos, hfirst', hsecond', hrest', Nat.add_zero]
    simp only [List.append_assoc]

/-- The odd blocks are constant. -/
theorem alternate_odd (rng : ρ) {n i : ℕ} (hi : i < n) (hodd : i / block % 2 = 1) :
    (alternate r block rng n).2[i]? = some 0xAB := by
  have hblock := NeZero.pos block
  induction n using Nat.strong_induction_on generalizing rng i with
  | _ n ih =>
    have hfill := r.length_fill rng (min block n)
    have hdiv := Nat.div_add_mod i block
    rw [alternate_of_pos r block rng (by omega)]
    rcases Nat.lt_or_ge i (2 * block) with hlt | hge
    · -- The second block of the first pair.
      have hone : i / block = 1 := by
        have htwo : i / block < 2 := Nat.div_lt_of_lt_mul (by omega)
        generalize i / block = q at hodd htwo ⊢
        omega
      rw [hone, Nat.mul_one] at hdiv
      rw [List.getElem?_append_left, List.getElem?_append_right, List.getElem?_replicate, if_pos]
      · omega
      · omega
      · simp only [List.length_append, hfill, List.length_replicate]
        omega
    · -- A later pair: the same byte of the rest.
      have hshift : (i - 2 * block) / block % 2 = 1 := by
        have hsub : i - 2 * block + 2 * block = i := Nat.sub_add_cancel hge
        rw [← hsub, Nat.add_mul_div_right _ _ hblock] at hodd
        omega
      have hpair : min block n + min block (n - block) = 2 * block := by omega
      rw [List.getElem?_append_right, List.length_append, hfill, List.length_replicate, hpair]
      · exact ih _ (by omega) _ (by omega) hshift
      · simp only [List.length_append, hfill, List.length_replicate]
        omega

/-- A write replaces the bytes from its offset on. -/
theorem writeAt_eq {front rest bytes : List UInt8} (h : bytes.length ≤ rest.length) :
    writeAt (front ++ rest) front.length bytes = front ++ (bytes ++ rest.drop bytes.length) := by
  unfold writeAt overwrite
  rw [List.take_left, List.drop_left, List.take_of_length_le]
  simp only [List.length_append, List.length_drop]
  omega

/-- The loop fills its part of the buffer with bytes of the corpus. -/
theorem fillBlocks_eq (rng : ρ) (front rest : List UInt8) {n : ℕ} (hlen : n ≤ rest.length) :
    fillBlocks r block (front.length + n) rng (front ++ rest) front.length =
      ((alternate r block rng n).1, front ++ ((alternate r block rng n).2 ++ rest.drop n)) := by
  have hblock := NeZero.pos block
  -- On the bytes still to fill; an iteration takes two blocks of them.
  induction n using Nat.strong_induction_on generalizing rng front rest with
  | _ n ih =>
    rcases Nat.eq_zero_or_pos n with rfl | hn
    · rw [fillBlocks, if_neg (by omega)]
      simp
    · -- Both writes go behind the front, which then grows by them.
      generalize hfilled : r.fill_bytes rng (min block n) = filled
      have hlength := r.length_fill rng (min block n)
      rw [hfilled] at hlength
      have hstop : min (front.length + block) (front.length + n) = front.length + min block n :=
        Nat.add_min_add_left _ _ _
      have hstop' : min (front.length + min block n + block) (front.length + n) =
          front.length + min block n + min block (n - block) := by omega
      have hrandom : writeAt (front ++ rest) front.length filled.2 =
          (front ++ filled.2) ++ rest.drop (min block n) := by
        rw [writeAt_eq (by omega), hlength, List.append_assoc]
      have hfront : front.length + min block n = (front ++ filled.2).length := by
        rw [List.length_append, hlength]
      have hconst : writeAt ((front ++ filled.2) ++ rest.drop (min block n))
          (front ++ filled.2).length (.replicate (min block (n - block)) 0xAB) =
            (front ++ (filled.2 ++ .replicate (min block (n - block)) 0xAB)) ++
              rest.drop (min (2 * block) n) := by
        have hdrop : min block n + min block (n - block) = min (2 * block) n := by omega
        rw [writeAt_eq, List.drop_drop, List.length_replicate, hdrop]
        · simp only [List.append_assoc]
        · rw [List.length_replicate, List.length_drop]
          omega
      have hnext := ih (n - 2 * block) (by omega) filled.1
        (front ++ (filled.2 ++ .replicate (min block (n - block)) 0xAB))
        (rest.drop (min (2 * block) n)) (by rw [List.length_drop]; omega)
      have hgrown : (front ++ (filled.2 ++ .replicate (min block (n - block)) 0xAB)).length =
          front.length + min block n + min block (n - block) := by
        simp only [List.length_append, hlength, List.length_replicate]
        omega
      have htotal : front.length + min block n + min block (n - block) + (n - 2 * block) =
          front.length + n := by omega
      have hback : min (2 * block) n + (n - 2 * block) = n := by omega
      rw [hgrown, htotal] at hnext
      rw [fillBlocks, if_pos (by omega)]
      simp only [hstop, Nat.add_sub_cancel_left, hfilled, hstop', hrandom]
      rw [hfront, hconst, ← hfront, hnext, alternate_of_pos r block rng hn, hfilled]
      simp only [List.append_assoc, List.drop_drop, hback]

/-- A buffer that is filled from its start holds bytes of the corpus, and behind them what it held
before. -/
theorem fillBlocks_zero (rng : ρ) {n : ℕ} {buf : List UInt8} (hlen : n ≤ buf.length) :
    fillBlocks r block n rng buf 0 =
      ((alternate r block rng n).1, (alternate r block rng n).2 ++ buf.drop n) := by
  have hfill := fillBlocks_eq r block rng [] buf hlen
  rwa [List.length_nil, Nat.zero_add, List.nil_append, List.nil_append] at hfill

/-- The chunks are bytes of the corpus too, when a chunk is made of whole pairs of blocks. -/
theorem writeChunks_eq (chunk : ℕ) [NeZero chunk] {k : ℕ} (hpairs : chunk = 2 * block * k)
    (rng : ρ) (total generated : ℕ) (buf : List UInt8) (hbuf : buf.length = chunk) :
    (writeChunks r block chunk total rng buf generated).1 =
        (alternate r block rng (total - generated)).1 ∧
      (writeChunks r block chunk total rng buf generated).2.flatten =
        (alternate r block rng (total - generated)).2 := by
  have hchunk := NeZero.pos chunk
  -- On the bytes still to write, whatever the last chunk has left in the buffer.
  induction hleft : total - generated using Nat.strong_induction_on
    generalizing rng buf generated with
  | _ left ih =>
    rw [writeChunks]
    rcases Nat.eq_zero_or_pos left with rfl | hpos
    · rw [if_neg (by omega)]
      simp
    · rw [if_pos (by omega), hleft]
      have htake : ((alternate r block rng (min chunk left)).2 ++ buf.drop (min chunk left)).take
          (min chunk left) = (alternate r block rng (min chunk left)).2 :=
        List.take_left' (length_alternate r block rng _)
      have hnext := ih (left - min chunk left) (by omega) (alternate r block rng (min chunk left)).1
        (generated + min chunk left)
        ((alternate r block rng (min chunk left)).2 ++ buf.drop (min chunk left))
        (by simp only [List.length_append, length_alternate, List.length_drop]; omega) (by omega)
      have hlen : min chunk left ≤ buf.length := by omega
      have hfill := fillBlocks_zero r block rng hlen
      simp only [hfill, htake, List.flatten_cons, hnext]
      rcases Nat.le_total left chunk with hle | hle
      · -- The last chunk.
        rw [Nat.min_eq_right hle, Nat.sub_self]
        simp
      · -- A whole chunk, after which the buffer is filled again from its start.
        have hsplit := alternate_add r block rng k (left - chunk)
        rw [← hpairs, Nat.add_sub_cancel' hle] at hsplit
        rw [Nat.min_eq_left hle, hsplit]
        exact ⟨rfl, rfl⟩

end Blocks

/-- The corpus is made of alternating blocks. -/
theorem generateCorpus_eq (r : Rng ρ) (rng : ρ) (total : ℕ) :
    generateCorpus r rng total = alternate r blockSize rng total := by
  have hzeros : total = (List.replicate total (0 : UInt8)).length := List.length_replicate.symm
  unfold generateCorpus
  rw [fillBlocks_zero r blockSize rng hzeros.le, List.drop_of_length_le hzeros.ge, List.append_nil]

/-- The fixture that is written in chunks holds the same corpus as one that is generated at once,
from the same random numbers and of any size. Every byte of an odd block is `0xAB`. -/
theorem chunks_are_corpus (r : Rng ρ) (rng : ρ) (total : ℕ) :
    (chunkedCorpus r rng total).1 = (generateCorpus r rng total).1 ∧
      (chunkedCorpus r rng total).2.flatten = (generateCorpus r rng total).2 ∧
      (generateCorpus r rng total).2.length = total ∧
      ∀ i < total, i / blockSize % 2 = 1 → (generateCorpus r rng total).2[i]? = some 0xAB := by
  obtain ⟨hrng, hbytes⟩ := writeChunks_eq r blockSize chunkSize (k := 512) (by decide) rng total 0
    (.replicate chunkSize 0) List.length_replicate
  rw [Nat.sub_zero] at hrng hbytes
  rw [generateCorpus_eq]
  exact ⟨hrng, hbytes, length_alternate r blockSize rng total,
    fun i hi hodd => alternate_odd r blockSize rng hi hodd⟩

end MmapZstd
