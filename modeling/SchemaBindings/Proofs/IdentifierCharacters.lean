import SchemaBindings.Code.NameScope
import SchemaBindings.Proofs.EmittedNames

/-! # The characters of identifiers

Whatever text an identifier is made of, it holds letters, numbers and
underscores only, and so do the names that are counted up from it. It can stand
in a line of code without ending the line or the word. -/

namespace SchemaBindings.Code

/-- A text of letters, numbers and underscores. -/
def IsWord (cs : List Char) : Prop := ∀ c ∈ cs, isIdentChar c = true

namespace IsWord

theorem of_all {cs : List Char} (h : cs.all isIdentChar = true) : IsWord cs := List.all_eq_true.mp h

theorem not_mem {cs : List Char} (h : IsWord cs) {c : Char} (hc : isIdentChar c = false) :
    c ∉ cs := by
  intro hmem
  rw [h c hmem] at hc
  cases hc

theorem append {cs ds : List Char} (hc : IsWord cs) (hd : IsWord ds) : IsWord (cs ++ ds) := by
  intro c hmem
  rcases List.mem_append.mp hmem with hmem | hmem
  · exact hc c hmem
  · exact hd c hmem

theorem masked (word : String) : IsWord (masked word) := by
  intro c hc
  obtain ⟨d, -, rfl⟩ := List.mem_map.mp hc
  split
  · assumption
  · rfl

theorem guardStart {cs : List Char} (h : IsWord cs) : IsWord (guardStart cs) := by
  cases cs with
  | nil => exact h
  | cons c cs =>
    rw [guardStart_cons]
    split
    · have hunderscore : IsWord ['_'] := of_all rfl
      exact hunderscore.append h
    · exact h

theorem mended {words : List String} {empty : String} {cs : List Char} (hempty : IsWord empty.toList)
    (h : IsWord cs) : IsWord (mended words empty cs) := by
  unfold Code.mended
  split
  · exact hempty
  · split
    · exact append h.guardStart (of_all rfl)
    · exact h.guardStart

theorem sanitize {empty : String} (hempty : IsWord empty.toList) (word : String) :
    IsWord (sanitize word empty).toList := by
  rw [toList_sanitize]
  exact mended hempty (masked word)

theorem typeIdent (name : String) : IsWord (typeIdent name).toList := by
  rw [toList_typeIdent]
  exact mended (of_all rfl) (masked name)

theorem moduleIdent (stem : String) : IsWord (ModuleName.ofStem stem).ident.toList := by
  simp only [ModuleName.ofStem]
  exact sanitize (of_all rfl) stem

theorem fieldIdent (name : String) : IsWord (fieldIdent name).toList :=
  sanitize (of_all rfl) (snakeCase name)

theorem functionStem (canonical : String) : IsWord (functionStem canonical).toList := by
  unfold Code.functionStem
  rw [String.toList_ofList]
  intro c hc
  exact sanitize (of_all rfl) (snakeCase canonical) c
    ((List.dropWhile_sublist _).subset hc)

theorem parseFunction (canonical : String) : IsWord (parseFunction canonical).toList := by
  unfold Code.parseFunction
  rw [String.toList_append]
  exact append (of_all rfl) (functionStem canonical)

end IsWord

end SchemaBindings.Code
