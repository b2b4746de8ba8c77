/-!
# Texts in sections

A scanner goes through a text that is divided into sections, each with a header, and keeps the lines
of the sections that it wants. It has one bit of memory: whether it wants the section that it is in.
`Mark` is what it takes a line for. It may be wrong about lines of a section; what it keeps of a
section depends only on the header and on the lines of that section (`scan_sections`).
-/

namespace MmapZstd.Sections

variable {L : Type}

/-- What a scanner takes a line for. -/
inductive Mark
  /-- A header, of a section that it wants or not. -/
  | opens (wanted : Bool)
  /-- A header that says nothing. -/
  | skip
  /-- A line of a section. -/
  | body
  deriving DecidableEq

/-- The lines that the scanner keeps, when it wants the section at hand or not. -/
def scan (mark : L → Mark) (wanted : Bool) : List L → List L
  | [] => []
  | l :: ls =>
    match mark l with
    | .opens w => scan mark w ls
    | .skip => scan mark wanted ls
    | .body => if wanted then l :: scan mark wanted ls else scan mark wanted ls

/-- Whether the scanner wants the section that it is in after some lines. -/
def wantedAfter (mark : L → Mark) (wanted : Bool) : List L → Bool
  | [] => wanted
  | l :: ls =>
    match mark l with
    | .opens w => wantedAfter mark w ls
    | _ => wantedAfter mark wanted ls

section Scan

variable {mark : L → Mark}

/-- A header that opens a section. -/
theorem scan_opens {l : L} {w : Bool} (h : mark l = .opens w) (wanted : Bool) (ls : List L) :
    scan mark wanted (l :: ls) = scan mark w ls := by
  simp only [scan, h]

/-- A scan goes on after some lines. -/
theorem scan_append (wanted : Bool) (ls ls' : List L) :
    scan mark wanted (ls ++ ls') =
      scan mark wanted ls ++ scan mark (wantedAfter mark wanted ls) ls' := by
  induction ls generalizing wanted with
  | nil => rfl
  | cons l ls ih =>
    rw [List.cons_append]
    cases hl : mark l with
    | opens w => simp only [scan, wantedAfter, hl, ih]
    | skip => simp only [scan, wantedAfter, hl, ih]
    | body =>
      cases wanted with
      | true => simp only [scan, wantedAfter, hl, ih, if_true, List.cons_append]
      | false => simp only [scan, wantedAfter, hl, ih, Bool.false_eq_true, if_false]

/-- Every section is scanned for itself. -/
theorem scan_sections {S : Type} {header : S → L} {body : S → List L} {want : S → Bool}
    {sections : List S} (h : ∀ s ∈ sections, mark (header s) = .opens (want s)) (wanted : Bool) :
    scan mark wanted (sections.flatMap fun s => header s :: body s) =
      sections.flatMap fun s => scan mark (want s) (body s) := by
  induction sections generalizing wanted with
  | nil => rfl
  | cons s sections ih =>
    obtain ⟨hs, hsections⟩ := List.forall_mem_cons.mp h
    rw [List.flatMap_cons, List.flatMap_cons, List.cons_append, scan_opens hs, scan_append,
      ih hsections]

/-- Nothing is kept of an unwanted section, when none of its lines is taken for the header of a
wanted one. -/
theorem scan_unwanted {ls : List L} (h : ∀ l ∈ ls, mark l ≠ .opens true) :
    scan mark false ls = [] := by
  induction ls with
  | nil => rfl
  | cons l ls ih =>
    obtain ⟨hl, hls⟩ := List.forall_mem_cons.mp h
    have hrest := ih hls
    cases hm : mark l with
    | opens w =>
      -- A line that is taken for a header opens an unwanted section again.
      cases w with
      | true => exact absurd hm hl
      | false => rw [scan_opens hm, hrest]
    | skip => simp only [scan, hm, hrest]
    | body => simp only [scan, hm, hrest, Bool.false_eq_true, if_false]

/-- Of a wanted section the lines are kept that are taken for its lines, when none is taken for a
header that opens a section. -/
theorem scan_wanted {ls : List L} (h : ∀ l ∈ ls, ∀ w, mark l ≠ .opens w) :
    scan mark true ls = ls.filter fun l => mark l = .body := by
  induction ls with
  | nil => rfl
  | cons l ls ih =>
    obtain ⟨hl, hls⟩ := List.forall_mem_cons.mp h
    have hrest := ih hls
    cases hm : mark l with
    | opens w => exact absurd hm (hl w)
    | skip => simp [scan, hm, hrest]
    | body => simp [scan, hm, hrest]

/-- When no line of a section is taken for a header that opens one, the lines of the wanted sections
are kept that are taken for lines. -/
theorem scan_wanted_sections {S : Type} {header : S → L} {body : S → List L} {want : S → Bool}
    {sections : List S} (h : ∀ s ∈ sections, mark (header s) = .opens (want s))
    (hbody : ∀ s ∈ sections, ∀ l ∈ body s, ∀ w, mark l ≠ .opens w) (wanted : Bool) :
    scan mark wanted (sections.flatMap fun s => header s :: body s) =
      (sections.filter want).flatMap fun s => (body s).filter fun l => mark l = .body := by
  rw [scan_sections h]
  clear h
  -- On the sections, each of which is now scanned for itself.
  induction sections with
  | nil => rfl
  | cons s sections ih =>
    obtain ⟨hs, hsections⟩ := List.forall_mem_cons.mp hbody
    rw [List.flatMap_cons, ih hsections]
    cases hw : want s with
    | true => rw [List.filter_cons_of_pos hw, List.flatMap_cons, scan_wanted hs]
    | false =>
      rw [List.filter_cons_of_neg (by simp [hw]), scan_unwanted fun l hl => hs l hl true,
        List.nil_append]

/-- A line that is taken for the header of an unwanted section ends a section early. -/
theorem scan_cut {front back : List L} {l : L} (hl : mark l = .opens false)
    (hback : ∀ l ∈ back, mark l ≠ .opens true) (wanted : Bool) :
    scan mark wanted (front ++ l :: back) = scan mark wanted front := by
  rw [scan_append, scan_opens hl, scan_unwanted hback, List.append_nil]

/-- What is kept are lines of the text that are taken for lines of a section. -/
theorem of_mem_scan {wanted : Bool} {ls : List L} {l : L} (h : l ∈ scan mark wanted ls) :
    l ∈ ls ∧ mark l = .body := by
  induction ls generalizing wanted with
  | nil => cases h
  | cons l' ls ih =>
    unfold scan at h
    cases hm : mark l' with
    | opens w =>
      rw [hm] at h
      exact (ih h).imp_left (List.mem_cons_of_mem _)
    | skip =>
      rw [hm] at h
      exact (ih h).imp_left (List.mem_cons_of_mem _)
    | body =>
      rw [hm] at h
      cases wanted with
      | true =>
        rcases List.mem_cons.mp h with rfl | h
        · exact ⟨List.mem_cons_self, hm⟩
        · exact (ih h).imp_left (List.mem_cons_of_mem _)
      | false => exact (ih h).imp_left (List.mem_cons_of_mem _)

end Scan

end MmapZstd.Sections
