import MmapZstd.Session

/-!
# What the retirements do

`maybe_retire` and `retire_src` have the same two cases: nothing, or one call of `madvise` on the
range from `retire_pos` to a new frontier. Every fact about the retirements is taken from these
cases. Both leave the cursors, the scratch and the length of the source alone.
-/

namespace MmapZstd

variable {σ : Type}

/-- What `maybe_retire` does on the `Mmap` variant: nothing, or it advises the range from
`retire_pos` to the new frontier and moves `retire_pos` there. -/
theorem maybeRetire_cases (k : Kernel) (d : Decoder σ) {m : Mmap}
    (hd : d.buf = .mmap m) (frontier : ℕ)
    (hf : frontier = (d.in_pos - retireWindow) &&& usizeNot (4096 - 1)) :
    (maybeRetire k d = (d, []) ∧ frontier ≤ d.retire_pos) ∨
      (maybeRetire k d = ({ d with
          buf := .mmap (k.dontNeed m d.retire_pos (frontier - d.retire_pos))
          retire_pos := frontier }, [.advise d.retire_pos (frontier - d.retire_pos)]) ∧
        d.retire_pos < frontier) := by
  subst hf
  by_cases hlt : d.retire_pos < (d.in_pos - retireWindow) &&& usizeNot (4096 - 1)
  · refine .inr ⟨?_, hlt⟩
    simp only [maybeRetire, hd]
    exact if_pos hlt
  · refine .inl ⟨?_, Nat.le_of_not_lt hlt⟩
    simp only [maybeRetire, hd]
    exact if_neg hlt

/-- On a file, it moves `retire_pos` and nothing else, on every variant. -/
theorem maybeRetire_file (d : Decoder σ) :
    ∃ r, (maybeRetire .file d).1 = { d with retire_pos := r } := by
  obtain ⟨buf, in_pos, retire_pos, zstd⟩ := d
  cases buf with
  | mmap m =>
    rcases maybeRetire_cases .file ⟨.mmap m, in_pos, retire_pos, zstd⟩ rfl _ rfl with
      ⟨heq, -⟩ | ⟨heq, -⟩
    · exact ⟨_, by rw [heq]⟩
    · exact ⟨_, by rw [heq]; rfl⟩
  | slice s => exact ⟨_, rfl⟩
  | hugepage h => exact ⟨_, rfl⟩
  | streaming s => exact ⟨_, rfl⟩

/-- Its events are at most one range for `madvise`, on every variant. -/
theorem maybeRetire_events (k : Kernel) (d : Decoder σ) :
    (maybeRetire k d).2 = [] ∨ ∃ offset len, (maybeRetire k d).2 = [.advise offset len] := by
  obtain ⟨buf, in_pos, retire_pos, zstd⟩ := d
  cases buf with
  | mmap m =>
    rcases maybeRetire_cases k ⟨.mmap m, in_pos, retire_pos, zstd⟩ rfl _ rfl with
      ⟨heq, -⟩ | ⟨heq, -⟩
    · exact .inl (by rw [heq])
    · exact .inr ⟨_, _, by rw [heq]⟩
  | slice s => exact .inl rfl
  | hugepage h => exact .inl rfl
  | streaming s => exact .inl rfl

/-- What `retire_src` does: nothing, or it advises the range from `retire_pos` to the new frontier
and moves `retire_pos` there. -/
theorem retireSrc_cases (k : Kernel) (state : StreamingState) (frontier : ℕ)
    (hf : frontier = (state.src_pos - state.scratch.capacity) &&& usizeNot (4096 - 1)) :
    (retireSrc k state = (state, []) ∧ frontier ≤ state.retire_pos) ∨
      (retireSrc k state = ({ state with
          src_mmap := k.dontNeed state.src_mmap state.retire_pos (frontier - state.retire_pos)
          retire_pos := frontier }, [.advise state.retire_pos (frontier - state.retire_pos)]) ∧
        state.retire_pos < frontier) := by
  subst hf
  by_cases hlt :
      state.retire_pos < (state.src_pos - state.scratch.capacity) &&& usizeNot (4096 - 1)
  · exact .inr ⟨if_pos hlt, hlt⟩
  · exact .inl ⟨if_neg hlt, Nat.le_of_not_lt hlt⟩

/-- It leaves the cursors and the scratch alone, and the place and the length of the source. -/
theorem retireSrc_frame (k : Kernel) (state : StreamingState) :
    ∃ m r, (retireSrc k state).1 = { state with src_mmap := m, retire_pos := r } ∧
      m.ptr = state.src_mmap.ptr ∧ m.len = state.src_mmap.len := by
  rcases retireSrc_cases k state _ rfl with ⟨heq, -⟩ | ⟨heq, -⟩
  · exact ⟨_, _, by rw [heq], rfl, rfl⟩
  · exact ⟨_, _, by rw [heq], k.ptr_eq _ _ _, k.len_eq _ _ _⟩

/-- On a file, the retirement moves `retire_pos` and nothing else. -/
theorem retireSrc_file (state : StreamingState) :
    ∃ r, (retireSrc .file state).1 = { state with retire_pos := r } := by
  rcases retireSrc_cases .file state _ rfl with ⟨heq, -⟩ | ⟨heq, -⟩
  · exact ⟨_, by rw [heq]⟩
  · exact ⟨_, by rw [heq]; rfl⟩

/-- The retirement's events are ranges for `madvise`. -/
theorem retireSrc_events (k : Kernel) (state : StreamingState) :
    ∀ e ∈ (retireSrc k state).2, ∃ offset len, e = .advise offset len := by
  rcases retireSrc_cases k state _ rfl with ⟨heq, -⟩ | ⟨heq, -⟩
  · simp [heq]
  · simp [heq]

end MmapZstd
