import Mathlib.Data.List.TakeWhile
import SchemaBindings.Naming
import SchemaBindings.Proofs.Pieces

/-! # Names of types and words of files

A file name is a directory, a stem and the schema ending; a stem is words with
separators between them, and maybe at both ends. Only the words count for the
name of the type, not the directory and not the separators. The ending is taken
off once, so that it may occur in a word. -/

namespace SchemaBindings

/-- A word of a stem and the separators behind it. The word has no separators and no slashes. -/
structure StemWord where
  first : Char
  rest : List Char
  behind : List Char
  free : ∀ c ∈ first :: rest, c ≠ '-' ∧ c ≠ '_' ∧ c ≠ '/' ∧ c ≠ '\\'
  separators : ∀ c ∈ behind, c = '-' ∨ c = '_'

/-- A stem as it is spelled: separators, if any, and words that are apart from each other. -/
structure SpelledStem where
  front : List Char
  words : List StemWord
  separators : ∀ c ∈ front, c = '-' ∨ c = '_'
  apart : ∀ w ∈ words.dropLast, w.behind ≠ []

namespace StemWord

/-- The characters of the word. -/
def chars (w : StemWord) : List Char := w.first :: w.rest

/-- The word and the separators behind it. -/
def spelled (w : StemWord) : List Char := w.chars ++ w.behind

theorem isStemSeparator_chars (w : StemWord) : ∀ c ∈ w.chars, isStemSeparator c = false := by
  intro c hc
  obtain ⟨hdash, hunderscore, -⟩ := w.free c hc
  simp [isStemSeparator, hdash, hunderscore]

end StemWord

namespace SpelledStem

/-- The text of the stem. -/
def text (s : SpelledStem) : List Char := s.front ++ s.words.flatMap StemWord.spelled

end SpelledStem

theorem isStemSeparator_iff {c : Char} : isStemSeparator c = true ↔ c = '-' ∨ c = '_' := by
  simp [isStemSeparator]

/-! ## The stem of a file name -/

/-- A directory in front of a file name is empty, or ends in one of the two slashes. -/
def IsDirectoryPrefix (directory : String) : Prop :=
  ∀ c ∈ directory.toList.getLast?, c = '/' ∨ c = '\\'

instance (directory : String) : Decidable (IsDirectoryPrefix directory) :=
  decidable_of_iff (directory.toList.getLast?.all (fun c => c = '/' || c = '\\') = true)
    (by simp [IsDirectoryPrefix, Option.all_eq_true])

/-- A directory in front of a file name leaves no trace. -/
theorem baseName_append {directory : String} (h : IsDirectoryPrefix directory) {base : List Char}
    (hbase : ∀ c ∈ base, c ≠ '/' ∧ c ≠ '\\') : baseName (directory.toList ++ base) = base := by
  have hcut : directory.toList.reverse.takeWhile (fun c => c ≠ '/' && c ≠ '\\') = [] := by
    unfold IsDirectoryPrefix at h
    rw [← List.head?_reverse] at h
    cases hcs : directory.toList.reverse with
    | nil => rfl
    | cons c cs =>
      rw [hcs] at h
      have hc := h c rfl
      exact List.takeWhile_cons_of_neg (by simpa using fun hne => hc.resolve_left hne)
  unfold baseName
  rw [List.reverse_append, List.takeWhile_append_of_pos, hcut, List.append_nil, List.reverse_reverse]
  intro c hc
  simpa using hbase c (List.mem_reverse.mp hc)

theorem dropEnding?_append (cs ending : List Char) : dropEnding? ending (cs ++ ending) = some cs := by
  unfold dropEnding?
  rw [if_pos (List.isSuffixOf_iff_suffix.mpr (List.suffix_append ..)), List.length_append,
    Nat.add_sub_cancel, List.take_left]

theorem not_slash_of_mem_schemaSuffix : ∀ c ∈ schemaSuffix.toList, c ≠ '/' ∧ c ≠ '\\' := by
  simp [schemaSuffix]

/-- The stem of a file name is what stands between the directory and the last ending. -/
theorem schemaStem_append {directory : String} (h : IsDirectoryPrefix directory) {stem : List Char}
    (hstem : ∀ c ∈ stem, c ≠ '/' ∧ c ≠ '\\') :
    schemaStem (directory ++ String.ofList stem ++ schemaSuffix) = String.ofList stem := by
  have hbase : ∀ c ∈ stem ++ schemaSuffix.toList, c ≠ '/' ∧ c ≠ '\\' := by
    intro c hc
    rcases List.mem_append.mp hc with hc | hc
    · exact hstem c hc
    · exact not_slash_of_mem_schemaSuffix c hc
  unfold schemaStem
  rw [String.toList_append, String.toList_append, String.toList_ofList, List.append_assoc,
    baseName_append h hbase]
  dsimp only
  rw [dropEnding?_append, Option.getD_some]

/-! ## The words of a stem -/

/-- The pieces between the separators of a stem that are not empty. -/
def piecesOfStem (cs : List Char) : List (List Char) :=
  (Text.splitWhere isStemSeparator cs).filter (!·.isEmpty)

/-- Separators in front are nothing. -/
theorem piecesOfStem_front {front : List Char} (h : ∀ c ∈ front, c = '-' ∨ c = '_')
    (cs : List Char) : piecesOfStem (front ++ cs) = piecesOfStem cs := by
  induction front with
  | nil => rfl
  | cons c front ih =>
    have hothers := ih fun d hd => h d (List.mem_cons_of_mem _ hd)
    unfold piecesOfStem at hothers ⊢
    rw [List.cons_append, Text.splitWhere, if_pos (isStemSeparator_iff.mpr (h c (List.mem_cons_self ..)))]
    exact hothers

/-- A word is a piece if a separator follows, or nothing. -/
theorem piecesOfStem_word (w : StemWord) {cs : List Char} (h : w.behind = [] → cs = []) :
    piecesOfStem (w.spelled ++ cs) = w.chars :: piecesOfStem cs := by
  unfold StemWord.spelled
  cases hbehind : w.behind with
  | nil =>
    rw [h hbehind, List.append_nil, List.append_nil]
    unfold piecesOfStem
    rw [Text.splitWhere_of_not w.isStemSeparator_chars]
    rfl
  | cons c behind =>
    have hseparators : ∀ d ∈ c :: behind, d = '-' ∨ d = '_' := hbehind ▸ w.separators
    have hrest := piecesOfStem_front (fun d hd => hseparators d (List.mem_cons_of_mem _ hd)) cs
    have hc := isStemSeparator_iff.mpr (hseparators c (List.mem_cons_self ..))
    unfold piecesOfStem at hrest ⊢
    rw [List.append_assoc, List.cons_append, Text.splitWhere_append _ _ hc,
      Text.splitWhere_of_not w.isStemSeparator_chars, List.singleton_append, List.filter_cons, hrest]
    rfl

theorem piecesOfStem_words {words : List StemWord} (apart : ∀ w ∈ words.dropLast, w.behind ≠ []) :
    piecesOfStem (words.flatMap StemWord.spelled) = words.map StemWord.chars := by
  induction words with
  | nil => rfl
  | cons w words ih =>
    have hrest : ∀ v ∈ words.dropLast, v.behind ≠ [] := by
      intro v hv
      refine apart v ?_
      rw [List.dropLast_cons_of_ne_nil fun hnil => by simp [hnil] at hv]
      exact List.mem_cons_of_mem w hv
    have hlast : w.behind = [] → words.flatMap StemWord.spelled = [] := by
      intro hbehind
      cases words with
      | nil => rfl
      | cons v words => exact absurd hbehind (apart w (List.mem_cons_self ..))
    rw [List.flatMap_cons, piecesOfStem_word w hlast, ih hrest, List.map_cons]

/-- The name that a stem stands for is put together from its words. -/
theorem canonicalOfStem_text (s : SpelledStem) :
    canonicalOfStem (String.ofList s.text) =
      String.ofList (s.words.flatMap fun w => Text.upperChar w.first ++ w.rest) := by
  have hpieces : piecesOfStem s.text = s.words.map StemWord.chars :=
    (piecesOfStem_front s.separators _).trans (piecesOfStem_words s.apart)
  unfold piecesOfStem at hpieces
  unfold canonicalOfStem
  rw [String.toList_ofList, hpieces, List.flatMap_map]
  rfl

theorem not_slash_of_mem_text {s : SpelledStem} {c : Char} (h : c ∈ s.text) :
    c ≠ '/' ∧ c ≠ '\\' := by
  have hseparator (hc : c = '-' ∨ c = '_') : c ≠ '/' ∧ c ≠ '\\' := by
    rcases hc with rfl | rfl <;> decide
  rcases List.mem_append.mp h with hc | hc
  · exact hseparator (s.separators c hc)
  · obtain ⟨w, -, hc⟩ := List.mem_flatMap.mp hc
    rcases List.mem_append.mp hc with hc | hc
    · exact (w.free c hc).2.2
    · exact hseparator (w.separators c hc)

/-- The name of the type of a schema file is made of the words of its stem, the first character of
each in upper case. The directory and the separators do not count, and the ending is taken off
once. -/
theorem canonicalName_of_words {directory : String} (h : IsDirectoryPrefix directory)
    (s : SpelledStem) :
    canonicalName (directory ++ String.ofList s.text ++ schemaSuffix) =
      String.ofList (s.words.flatMap fun w => Text.upperChar w.first ++ w.rest) := by
  unfold canonicalName
  rw [schemaStem_append h fun _ hc => not_slash_of_mem_text hc, canonicalOfStem_text]

/-- A stem with two words, of which the second ends like a schema file. -/
def streetStem : SpelledStem where
  front := ['_']
  words := [
    ⟨'ß', ['t', 'r', 'e', 'e', 't'], ['-', '_'], by simp, by simp⟩,
    ⟨'v', "1.schema.json".toList, [], by simp, by simp⟩]
  separators := by simp
  apart := by simp

theorem canonicalName_of_words_street :
    canonicalName ("C:\\my-schemas/" ++ "_ßtreet-_v1.schema.json" ++ ".schema.json") =
      "SStreetV1.schema.json" :=
  (canonicalName_of_words (by decide +kernel) streetStem).trans (by decide +kernel)

end SchemaBindings
