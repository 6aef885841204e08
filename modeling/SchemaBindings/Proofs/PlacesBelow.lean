import SchemaBindings.Proofs.PathSteps
import SchemaBindings.Proofs.DiskWrites

/-! # Places below a directory

The path of a planned file is a row of names. Seen from a directory it leads to
a place below the place of the directory, by these names. -/

namespace SchemaBindings

namespace Path

theorem innerStep?_name {piece : List Char} (hidle : isIdle piece = false)
    (hup : piece ≠ ['.', '.']) : innerStep? piece = some (.name (String.ofList piece)) := by
  simp only [isIdle, Bool.or_eq_false_iff, decide_eq_false_iff_not] at hidle
  simp [innerStep?, hidle.1, hidle.2, hup]

/-- A plain path goes down by names only. -/
theorem Plain.steps {rel : String} (h : Plain rel) :
    (Path.mk rel).steps = (Path.mk rel).pieces.map fun piece => .name (String.ofList piece) := by
  have hname (piece : List Char) (hp : piece ∈ (Path.mk rel).pieces) :
      innerStep? piece = some (.name (String.ofList piece)) :=
    innerStep?_name (h piece hp).1 (h piece hp).2
  cases hpieces : (Path.mk rel).pieces with
  | nil => exact absurd hpieces (pieces_ne_nil _)
  | cons first rest =>
    rw [hpieces] at hname
    have hfirst : firstStep? first = some (.name (String.ofList first)) := by
      have hidle := (h first (by rw [hpieces]; exact List.mem_cons_self ..)).1
      simp only [isIdle, Bool.or_eq_false_iff, decide_eq_false_iff_not] at hidle
      rw [firstStep?, if_neg hidle.2]
      exact hname first (List.mem_cons_self ..)
    have hrest : rest.filterMap innerStep? = rest.map fun piece => .name (String.ofList piece) := by
      rw [← List.filterMap_eq_map]
      exact List.filterMap_congr fun piece hp => hname piece (List.mem_cons_of_mem _ hp)
    simp [Path.steps, hpieces, h.not_absolute, hfirst, hrest]

end Path

namespace FileTree

variable {t t' : FileTree} {dir : Path} {rel : String} {place : Place}

/-! ## Places below a directory -/

theorem hasNul_join (hrel : (Path.mk rel).isAbsolute = false) :
    hasNul (dir.join rel) = (hasNul dir || hasNul ⟨rel⟩) := by
  unfold Path.join
  rw [hrel, if_neg Bool.false_ne_true]
  by_cases he : dir.text.isEmpty = true
  · have hdir : hasNul dir = false := by simp [hasNul, String.isEmpty_iff.mp he]
    rw [if_pos he, hdir, Bool.false_or]
  · rw [if_neg he]
    split <;> simp [hasNul]

theorem hasNul_dot (hrel : (Path.mk rel).isAbsolute = false) (h : hasNul (dir.join rel) = false) :
    hasNul (dir.join ".") = false := by
  rw [hasNul_join hrel, Bool.or_eq_false_iff] at h
  rw [hasNul_join (by decide), h.1]
  decide

/-- Paths from one directory start at one place. -/
theorem startOf_dot (t : FileTree) (dir : Path) (hrel : Path.Plain rel) :
    t.startOf (dir.join ".") = t.startOf (dir.join rel) := by
  obtain ⟨_, _, hjoin⟩ := Path.join_relative dir
  obtain ⟨-, habs, -⟩ := hjoin rel hrel.not_absolute hrel.ne_empty
  obtain ⟨-, habsDot, -⟩ := hjoin "." (by decide) (by decide)
  unfold startOf
  rw [habsDot, habs]

/-- A plain path below a directory leads below the place of the directory. -/
theorem resolve_below (hrel : Path.Plain rel) (h : t.resolve (dir.join rel) = .ok place) :
    ∃ root, t.resolve (dir.join ".") = .ok root ∧ place = root ++ namesOf rel := by
  obtain ⟨above, absolute, hjoin⟩ := Path.join_relative dir
  obtain ⟨hpieces, -, -⟩ := hjoin rel hrel.not_absolute hrel.ne_empty
  obtain ⟨hpiecesDot, -, hemptyDot⟩ := hjoin "." (by decide) (by decide)
  obtain ⟨hnul, -, hwalk⟩ := resolve_eq_ok.mp h
  rw [hpieces] at hwalk
  obtain ⟨root, hroot, hbelow⟩ := walk_append.mp hwalk
  have hdir : t.isDirectoryAt root = true := by
    obtain ⟨first, rest, hsplit⟩ := List.exists_cons_of_ne_nil (Path.pieces_ne_nil ⟨rel⟩)
    rw [hsplit] at hbelow
    obtain ⟨next, hstep, -⟩ := walk_cons_eq_ok_iff.mp hbelow
    exact isDirectoryAt_of_step hstep
  refine ⟨root, resolve_eq_ok.mpr ⟨hasNul_dot hrel.not_absolute hnul, hemptyDot, ?_⟩,
    walk_plain hrel hbelow⟩
  rw [hpiecesDot, t.startOf_dot dir hrel]
  refine walk_append.mpr ⟨root, hroot, ?_⟩
  show t.step root ['.'] >>= pure = .ok root
  simp [step, hdir, Path.isIdle]

end FileTree

end SchemaBindings
