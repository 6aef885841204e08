import SchemaBindings.Proofs.FreshNames
import SchemaBindings.Proofs.IdentifierCharacters
import SchemaBindings.Proofs.ModuleTypeNames
import SchemaBindings.Proofs.PointerTexts

/-! # Identifiers are usable and stay so

An identifier is made of any text in steps: signs become underscores, a blank
becomes a fixed word, a number at the start gets a guard, a word that the
language or the written code has taken gets an underscore behind it, and a name
that is taken in a scope gets a number behind it. No step undoes an earlier one.
What matters is how the taken words end: in a letter, so neither an underscore
nor a number makes one of them. -/

namespace SchemaBindings.Code

/-- Whether a character may stand first in an identifier. -/
def isIdentStart (c : Char) : Bool := c = '_' || Text.isAlphabetic c

theorem isIdentChar_of_isIdentStart {c : Char} (h : isIdentStart c = true) :
    isIdentChar c = true := by
  unfold isIdentStart at h
  unfold isIdentChar isAlphanumeric
  rw [← Bool.or_assoc, h, Bool.true_or]

theorem isIdentifier_iff {word : String} : isIdentifier word = true ↔
    word.toList.head?.any isIdentStart = true ∧ IsWord word.toList ∧ word ≠ "_" ∧
      word ∉ keywords := by
  have hkeyword : isKeyword word = decide (word ∈ keywords) := List.contains_eq_mem ..
  unfold isIdentifier
  rw [hkeyword]
  cases hword : word.toList with
  | nil => simp
  | cons c rest =>
    have hchars : (isIdentStart c = true ∧ IsWord (c :: rest)) ↔
        ((decide (c = '_') || Text.isAlphabetic c) && rest.all isIdentChar) = true := by
      rw [Bool.and_eq_true_iff, List.all_eq_true]
      refine ⟨fun ⟨hc, h⟩ => ⟨hc, fun d hd => h d (List.mem_cons_of_mem _ hd)⟩, ?_⟩
      intro ⟨hc, h⟩
      refine ⟨hc, fun d hd => ?_⟩
      rcases List.mem_cons.mp hd with rfl | hd
      · exact isIdentChar_of_isIdentStart hc
      · exact h d hd
    rw [Bool.and_eq_true_iff, Bool.and_eq_true_iff, ← hchars, List.head?_cons, Option.any_some]
    simp only [Bool.not_eq_true', decide_eq_true_eq, decide_eq_false_iff_not, and_assoc, ne_eq]

/-! ## Mending -/

theorem head?_guardStart {cs : List Char} (hne : cs ≠ []) (h : IsWord cs) :
    (guardStart cs).head?.any isIdentStart = true := by
  obtain ⟨c, rest, rfl⟩ := List.exists_cons_of_ne_nil hne
  rw [guardStart_cons]
  split
  · rfl
  · rename_i hnumber
    have hc := h c (List.mem_cons_self ..)
    rw [Bool.not_eq_true] at hnumber
    unfold isIdentChar isAlphanumeric at hc
    rw [hnumber, Bool.or_false] at hc
    exact hc

/-- What is mended is an identifier, if the words that are avoided are fit for it. -/
theorem isIdentifier_mended {words : List String} {empty : String} (hfit : Fit words empty)
    (hkeywords : ∀ w ∈ keywords, w ∈ words) (hempty : isIdentifier empty = true) {cs : List Char}
    (h : IsWord cs) : isIdentifier (String.ofList (mended words empty cs)) = true := by
  cases hblank : isBlank cs with
  | true => rwa [mended_of_isBlank hblank, String.ofList_toList]
  | false =>
    have hne : cs ≠ [] := by
      rintro rfl
      cases hblank
    have hhead := head?_guardStart hne h
    have hguard : guardStart cs ≠ [] := by
      intro hnil
      rw [hnil] at hhead
      cases hhead
    rw [isIdentifier_iff]
    by_cases hword : String.ofList (guardStart cs) ∈ words
    · rw [mended_of_mem hblank hword, String.toList_ofList]
      refine ⟨?_, h.guardStart.append (.of_all (by decide)), fun heq => ?_, fun hkeyword => ?_⟩
      · rwa [List.head?_append_of_ne_nil _ hguard]
      · have hlen := congrArg (fun s => s.toList.length) heq
        simp [hguard] at hlen
      · exact hfit.not_mem (by simp) (hkeywords _ hkeyword)
    · rw [mended_of_not_mem hblank hword, String.toList_ofList]
      refine ⟨hhead, h.guardStart, fun heq => ?_, fun hkeyword => hword (hkeywords _ hkeyword)⟩
      have hguarded := congrArg (fun s => isBlank s.toList) heq
      simp only [String.toList_ofList, isBlank_guardStart, hblank] at hguarded
      exact absurd hguarded (by decide)

/-- What is mended is none of the words that are avoided. -/
theorem mended_not_mem {words : List String} {empty : String} (hfit : Fit words empty)
    (cs : List Char) : String.ofList (mended words empty cs) ∉ words := by
  cases hblank : isBlank cs with
  | true =>
    rw [mended_of_isBlank hblank, String.ofList_toList]
    exact hfit.2
  | false =>
    by_cases hword : String.ofList (guardStart cs) ∈ words
    · rw [mended_of_mem hblank hword]
      exact hfit.not_mem (by simp)
    · rwa [mended_of_not_mem hblank hword]

theorem isIdentifier_sanitize {empty : String} (hfit : Fit keywords empty)
    (hempty : isIdentifier empty = true) (word : String) :
    isIdentifier (sanitize word empty) = true := by
  have h := isIdentifier_mended hfit (fun _ hw => hw) hempty (IsWord.masked word)
  rwa [← toList_sanitize, String.ofList_toList] at h

theorem isIdentifier_typeIdent (name : String) : isIdentifier (typeIdent name) = true := by
  have h := isIdentifier_mended fit_types (fun _ hw => List.mem_append_left _ hw) (by decide)
    (IsWord.masked name)
  rwa [← toList_typeIdent, String.ofList_toList] at h

theorem typeIdent_not_mem (name : String) : typeIdent name ∉ typeWords := by
  have h := mended_not_mem fit_types (masked name)
  rwa [← toList_typeIdent, String.ofList_toList] at h

/-! ## Numbering -/

theorem isIdentChar_of_isDigit {c : Char} (h : c.isDigit = true) : isIdentChar c = true :=
  Text.forall_small (P := fun c => c.isDigit = true → isIdentChar c = true) (by decide +kernel)
    (Text.lt_of_isAlphanum (by simp [Char.isAlphanum, h])) h

/-- A name with a number behind it ends in a digit. -/
theorem exists_digit_of_numbered (name : String) (n : Nat) :
    ∃ c, (NameScope.numbered name n).toList.getLast? = some c ∧ c.isDigit = true := by
  have hne : (toString n).toList ≠ [] := by
    rw [Pointer.toList_toString]
    exact Nat.toDigits_ne_nil
  have hdigit := Pointer.isDigit_of_mem_toString (List.getLast_mem hne)
  refine ⟨(toString n).toList.getLast hne, ?_, hdigit⟩
  rw [NameScope.numbered, String.toList_append, List.getLast?_append_of_ne_nil _ hne,
    List.getLast?_eq_some_getLast hne]

/-- None of the words that are avoided ends in a digit. -/
theorem numbered_not_mem (name : String) (n : Nat) : NameScope.numbered name n ∉ typeWords := by
  have hwords : ∀ w ∈ typeWords, w.toList.getLast?.any Char.isDigit = false := by decide
  intro hmem
  obtain ⟨c, hlast, hdigit⟩ := exists_digit_of_numbered name n
  have hword := hwords _ hmem
  rw [hlast, Option.any_some, hdigit] at hword
  cases hword

theorem isIdentifier_numbered {ident : String} (h : isIdentifier ident = true) (n : Nat) :
    isIdentifier (NameScope.numbered ident n) = true := by
  obtain ⟨hhead, hword, -, -⟩ := isIdentifier_iff.mp h
  have hne : ident.toList ≠ [] := by
    intro hnil
    rw [hnil] at hhead
    cases hhead
  refine isIdentifier_iff.mpr ⟨?_, ?_, fun heq => ?_, fun hkeyword => ?_⟩
  · rwa [NameScope.numbered, String.toList_append, List.head?_append_of_ne_nil _ hne]
  · rw [NameScope.numbered, String.toList_append]
    exact hword.append fun c hc => isIdentChar_of_isDigit (Pointer.isDigit_of_mem_toString hc)
  · obtain ⟨c, hlast, hdigit⟩ := exists_digit_of_numbered ident n
    rw [heq] at hlast
    cases hlast
    cases hdigit
  · exact numbered_not_mem ident n (List.mem_append_left _ hkeyword)

namespace NameScope

theorem claim_eq (s : NameScope) (candidate : String) :
    (s.claim candidate).1 = candidate ∨ ∃ n, (s.claim candidate).1 = numbered candidate n := by
  change s.freshName candidate = candidate ∨ ∃ n, s.freshName candidate = numbered candidate n
  unfold freshName
  split
  · exact Or.inr ⟨_, rfl⟩
  · exact Or.inl rfl

/-- A name is an identifier, and so is the one that is handed out for it. -/
structure Usable (s : NameScope) (name : String) : Prop where
  alone : isIdentifier name = true
  claimed : isIdentifier (s.claim name).1 = true

theorem Usable.of_isIdentifier {name : String} (h : isIdentifier name = true) (s : NameScope) :
    s.Usable name := by
  refine ⟨h, ?_⟩
  rcases s.claim_eq name with heq | ⟨n, heq⟩
  · rwa [heq]
  · rw [heq]
    exact isIdentifier_numbered h n

theorem claim_not_mem (s : NameScope) {name : String} (h : name ∉ typeWords) :
    (s.claim name).1 ∉ typeWords := by
  rcases s.claim_eq name with heq | ⟨n, heq⟩
  · rwa [heq]
  · rw [heq]
    exact numbered_not_mem name n

end NameScope

/-- Whatever text the identifiers are made of, and whatever names a scope has taken, they are
identifiers there, and the types' are none of the names that the written code uses. -/
theorem identifiers_usable (name : String) (s : NameScope) :
    s.Usable (typeIdent name) ∧ s.Usable (fieldIdent name) ∧ s.Usable (functionIdent name) ∧
      s.Usable (ModuleName.ofStem name).ident ∧
      typeIdent name ∉ reservedTypeNames ∧ (s.claim (typeIdent name)).1 ∉ reservedTypeNames := by
  have hfields : Fit keywords "field" := by decide
  have htype := typeIdent_not_mem name
  refine ⟨.of_isIdentifier (isIdentifier_typeIdent name) s, .of_isIdentifier ?_ s,
    .of_isIdentifier ?_ s, .of_isIdentifier ?_ s, fun hreserved => ?_, fun hreserved => ?_⟩
  · exact isIdentifier_sanitize hfields (by decide) (snakeCase name)
  · exact isIdentifier_sanitize fit_functions (by decide) (snakeCase name)
  · exact isIdentifier_sanitize fit_modules (by decide) name
  · exact htype (List.mem_append_right _ hreserved)
  · exact s.claim_not_mem htype (List.mem_append_right _ hreserved)

end SchemaBindings.Code
