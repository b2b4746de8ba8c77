import MmapZstd.Open
import MmapZstd.Reference

/-!
# The window as a budget of hugepages

`open_hugepage_streaming` takes its window as a memory budget: it rounds the window up to whole
hugepages, delegates to `open_hugepage_memfd` when the window covers the file, and maps a scratch of
the rounded window otherwise. `HonestBudget` says what a caller relies on, for one window and one
file.

The rounding computes `window + HUGEPAGE - 1` on `usize`. Where that sum does not fit, a debug build
panics and a release build rounds the window to zero, slides it over the file, and asks the kernel
for an empty mapping. `budget_honest_iff` shows that every other window is an honest budget.
-/

namespace MmapZstd

/-- The window is an honest budget for a file of `size` bytes. -/
structure HonestBudget (σ : Type) (b : Build) (window size : ℕ) : Prop where
  /-- It is rounded to the least multiple of the hugepage size above it, when a `usize` holds it. -/
  rounds : ∀ m, IsLeast {m | hugepage ∣ m ∧ window ≤ m} m → m < usizeSize →
    roundToHugepage b window = .ok m
  /-- A window that covers the file delegates. -/
  delegates : size ≤ window → ∀ env : StreamingEnv σ, env.metadata = .ok size →
    openHugepageStreaming b window env = openHugepageMemfd b env.memfd
  /-- Every request is of whole hugepages, of at least one, and of no more than cover the window. -/
  within : 0 < size → ∀ env : StreamingEnv σ, env.metadata = .ok size →
    env.memfd.metadata = .ok size →
    ∀ c ∈ requests (openHugepageStreaming b window env).calls,
      hugepage ∣ c ∧ 1 ≤ c / hugepage ∧ c / hugepage ≤ window ⌈/⌉ hugepage
  /-- There is one request, when a delegate's memfd could be made. -/
  asks : 0 < size → ∀ env : StreamingEnv σ, env.metadata = .ok size →
    env.memfd.metadata = .ok size → env.memfd.memfd_create.isSome →
    (∀ c, env.memfd.ftruncate c = .ok ()) →
    (requests (openHugepageStreaming b window env).calls).length = 1
  /-- A scratch is smaller than the file, and is not empty. -/
  slides : ∀ env : StreamingEnv σ, env.metadata = .ok size →
    ∀ d state, (openHugepageStreaming b window env).outcome = .ok d → d.buf = .streaming state →
    0 < state.scratch.capacity ∧ state.scratch.capacity < size

section Honest

variable {σ : Type} {window size : ℕ}

/-- A window whose rounding does not overflow is an honest budget. -/
theorem honestBudget (b : Build) (hwindow : hugepage ≤ window)
    (hfits : window + hugepage < usizeSize) (hsize : size < 2 ^ 63) :
    HonestBudget σ b window size := by
  have hpage : 0 < hugepage := by decide
  have hround := roundToHugepage_eq b hfits
  have hround' : roundToHugepage b size = .ok (Align.up hugepage size) := by
    refine roundToHugepage_eq b ?_
    simp only [hugepage, usizeSize]
    omega
  have hle := Align.le_up hpage window
  -- The call delegates when the rounded window covers the file, which may be more than the window
  -- does; the file then rounds up to no more than the window.
  constructor
  case rounds =>
    intro m hm _
    rw [hround, (Align.up_isLeast hpage window).unique hm]
  case delegates =>
    intro hcover env hmeta
    exact openHugepageStreaming_delegates hwindow hround hmeta (hcover.trans hle)
  case within =>
    intro hpos env hmeta hmemfd c hc
    by_cases hcover : size ≤ Align.up hugepage window
    · rw [openHugepageStreaming_delegates hwindow hround hmeta hcover] at hc
      rw [openHugepageMemfd_requests hmemfd hround' c hc]
      exact ⟨Align.dvd_up _ _, Align.up_blocks hpage hpos hcover⟩
    · rw [(openHugepageStreaming_slides hwindow hround hmeta (Nat.lt_of_not_le hcover)).1] at hc
      rw [List.mem_singleton.mp hc]
      exact ⟨Align.dvd_up _ _, Align.up_blocks hpage (hpage.trans_le hwindow) hle⟩
  case asks =>
    intro hpos env hmeta hmemfd hfd htruncate
    obtain ⟨fd, hfd⟩ := Option.isSome_iff_exists.mp hfd
    by_cases hcover : size ≤ Align.up hugepage window
    · rw [openHugepageStreaming_delegates hwindow hround hmeta hcover,
        openHugepageMemfd_asks hmemfd hround' hfd (htruncate _)]
      rfl
    · rw [(openHugepageStreaming_slides hwindow hround hmeta (Nat.lt_of_not_le hcover)).1]
      rfl
  case slides =>
    intro env hmeta d state hd hbuf
    by_cases hcover : size ≤ Align.up hugepage window
    · rw [openHugepageStreaming_delegates hwindow hround hmeta hcover] at hd
      obtain ⟨h, hd⟩ := openHugepageMemfd_hugepage hd
      cases hd.symm.trans hbuf
    · have hshort := Nat.lt_of_not_le hcover
      obtain ⟨src, ptr, hd⟩ := (openHugepageStreaming_slides hwindow hround hmeta hshort).2 d hd
      cases hd.symm.trans hbuf
      simp only [StreamingState.new, HugepageBuf.scratch, List.length_replicate]
      exact ⟨lt_of_lt_of_le hpage (hwindow.trans hle), hshort⟩

end Honest

/-- The steps for a file whose length can be read, and for which every other step fails. -/
def StreamingEnv.statOnly (σ : Type) (size : ℕ) : StreamingEnv σ where
  metadata := .ok size
  mmap _ := none
  meminfo := none
  file := .error ⟨.other, "not opened"⟩
  map := .error ⟨.other, "not mapped"⟩
  advise := .error ⟨.other, "not advised"⟩
  zstd := .error ⟨.other, "no decoder"⟩
  memfd :=
    { metadata := .ok size
      memfd_create := none
      ftruncate _ := .error ⟨.other, "not truncated"⟩
      mmap _ := none
      meminfo := none
      file := .error ⟨.other, "not opened"⟩
      read_exact _ := .error ⟨.other, "not read"⟩
      zstd := .error ⟨.other, "no decoder"⟩ }

/-- There, `open_hugepage_memfd` fails without a request. -/
theorem openHugepageMemfd_statOnly (σ : Type) (b : Build) {size : ℕ}
    (hsize : size + hugepage < usizeSize) :
    openHugepageMemfd b (StreamingEnv.statOnly σ size).memfd =
      ⟨[], .err (mapHugetlbFailed none)⟩ := by
  simp [openHugepageMemfd, StreamingEnv.statOnly, roundToHugepage_eq b hsize]

/-- At the top of the range, a debug build panics before it has looked at the file. -/
theorem openHugepageStreaming_panics {σ : Type} {window : ℕ} (hwindow : hugepage ≤ window)
    (hover : usizeSize ≤ window + hugepage) (env : StreamingEnv σ) :
    openHugepageStreaming .debug window env = ⟨[], .panic⟩ := by
  simp [openHugepageStreaming, Nat.not_lt.mpr hwindow, roundToHugepage_debug hover]

/-- Past the last multiple of the hugepage size, a release build asks for an empty mapping. -/
theorem openHugepageStreaming_wraps {σ : Type} {window size : ℕ} (hwindow : hugepage ≤ window)
    (hover : usizeSize < window + hugepage) (hmax : window < usizeSize) (env : StreamingEnv σ)
    (hmeta : env.metadata = .ok size) (hsize : 0 < size) :
    requests (openHugepageStreaming .release window env).calls = [0] :=
  (openHugepageStreaming_slides hwindow (roundToHugepage_release hover hmax) hmeta hsize).1

/-- A window is an honest budget, in every build, exactly when the sum that rounds it fits in a
`usize`. -/
theorem budget_honest_iff (σ : Type) {window size : ℕ} (hwindow : hugepage ≤ window)
    (hmax : window < usizeSize) (hsize : size < 2 ^ 63) :
    (∀ b, HonestBudget σ b window size) ↔ window + hugepage < usizeSize := by
  refine ⟨fun h => ?_, fun hfits b => honestBudget b hwindow hfits hsize⟩
  by_contra hover
  rw [Nat.not_lt] at hover
  -- So large a window covers every file, but a debug build does not get as far as delegating.
  have hcover : size ≤ window := by
    simp only [hugepage, usizeSize] at hover hmax
    omega
  have hdelegates := (h .debug).delegates hcover (.statOnly σ size) rfl
  have hfits : size + hugepage < usizeSize := by
    simp only [hugepage, usizeSize]
    omega
  rw [openHugepageMemfd_statOnly σ .debug hfits] at hdelegates
  cases (openHugepageStreaming_panics hwindow hover _).symm.trans hdelegates

/-- A window of 8 MiB, the default, for a file of 20 MiB. -/
theorem budget_honest_default :
    HonestBudget RefState .release (8 * 1024 * 1024) (20 * 1024 * 1024) :=
  (budget_honest_iff RefState (by decide) (by decide) (by decide)).mpr (by decide) .release

/-- With `usize::MAX` as the window, no build treats it as covering a file of fourteen bytes. -/
theorem budget_max_wraps : ¬ HonestBudget RefState .debug (usizeSize - 1) 14 ∧
    ¬ HonestBudget RefState .release (usizeSize - 1) 14 := by
  constructor
  · intro h
    have hdelegates := h.delegates (by decide) (.statOnly RefState 14) rfl
    rw [openHugepageMemfd_statOnly _ _ (by decide)] at hdelegates
    cases (openHugepageStreaming_panics (by decide) (by decide) _).symm.trans hdelegates
  · intro h
    have hdelegates := h.delegates (by decide) (.statOnly RefState 14) rfl
    rw [openHugepageMemfd_statOnly _ _ (by decide)] at hdelegates
    have hasks : requests
        (openHugepageStreaming .release (usizeSize - 1) (.statOnly RefState 14)).calls = [0] :=
      openHugepageStreaming_wraps (by decide) (by decide) (by decide) _ rfl (by decide)
    rw [hdelegates] at hasks
    cases hasks

end MmapZstd
