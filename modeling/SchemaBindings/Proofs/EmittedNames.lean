import SchemaBindings.Manifest
import SchemaBindings.Proofs.CaseChanges
import SchemaBindings.Proofs.TypeSets

/-! # Which names are written alike

The check of a set of types looks at the names as they are and at their
lower-case forms. The written code has identifiers in their place, and making
an identifier forgets: a sign becomes an underscore, a number at the start gets
one in front, a keyword one behind, and what is left blank becomes one fixed
word. `Alike` lists these ways for two names to become one identifier. They are
all there are, so accepted types have distinct identifiers exactly if no two of
their names are alike. -/

namespace SchemaBindings

namespace Code

/-- A word with underscores for the characters that cannot stand in an identifier. -/
def masked (word : String) : List Char :=
  word.toList.map fun c => if isIdentChar c then c else '_'

/-- Whether nothing but underscores is left of a word. -/
def isBlank (cs : List Char) : Bool := cs.all (· = '_')

/-- A masked word as an identifier: some words get an underscore behind them. -/
def mended (words : List String) (empty : String) (cs : List Char) : List Char :=
  if isBlank cs then empty.toList
  else if String.ofList (guardStart cs) ∈ words then guardStart cs ++ ['_']
  else guardStart cs

/-- The words that are no names of types. -/
def typeWords : List String := keywords ++ reservedTypeNames

theorem toList_sanitize (word empty : String) :
    (sanitize word empty).toList = mended keywords empty (masked word) := by
  have hkeyword (ident : String) : isKeyword ident = decide (ident ∈ keywords) := by
    unfold isKeyword
    rw [List.contains_eq_mem]
  unfold sanitize mended
  change (if isBlank (masked word) = true then empty
    else if isKeyword (String.ofList (guardStart (masked word))) = true
      then String.ofList (guardStart (masked word)) ++ "_"
      else String.ofList (guardStart (masked word))).toList = _
  rw [hkeyword]
  split
  · rfl
  · simp only [decide_eq_true_eq]
    split
    · rw [String.toList_append, String.toList_ofList]
      rfl
    · rw [String.toList_ofList]

theorem typeIdent_eq (name : String) : typeIdent name =
    if sanitize name "Unnamed" ∈ reservedTypeNames then sanitize name "Unnamed" ++ "_"
    else sanitize name "Unnamed" := by
  unfold typeIdent
  simp only [List.contains_eq_mem, decide_eq_true_eq]

theorem toList_typeIdent (name : String) :
    (typeIdent name).toList = mended typeWords "Unnamed" (masked name) := by
  have hs := toList_sanitize name "Unnamed"
  rw [typeIdent_eq]
  unfold mended at hs ⊢
  unfold typeWords
  split at hs
  · rename_i hb
    have hname : sanitize name "Unnamed" = "Unnamed" := String.toList_inj.mp hs
    rw [if_pos hb, hname, if_neg (by decide)]
  · rename_i hb
    rw [if_neg hb]
    split at hs
    · rename_i hk
      have hkept : ∀ w ∈ keywords, w ++ "_" ∉ reservedTypeNames := by decide
      have hname : sanitize name "Unnamed" = String.ofList (guardStart (masked name)) ++ "_" := by
        rw [← String.toList_inj, hs, String.toList_append, String.toList_ofList]
        rfl
      rw [if_pos (List.mem_append_left _ hk), ← hs, if_neg]
      rw [hname]
      exact hkept _ hk
    · rename_i hk
      have hname : sanitize name "Unnamed" = String.ofList (guardStart (masked name)) := by
        rw [← String.toList_inj, hs, String.toList_ofList]
      rw [hname]
      by_cases hr : String.ofList (guardStart (masked name)) ∈ reservedTypeNames
      · rw [if_pos hr, if_pos (List.mem_append_right _ hr), String.toList_append,
          String.toList_ofList]
        rfl
      · rw [if_neg hr, if_neg fun h => (List.mem_append.mp h).elim hk hr, String.toList_ofList]

theorem guardStart_cons (c : Char) (cs : List Char) :
    guardStart (c :: cs) = if Text.isNumeric c then '_' :: c :: cs else c :: cs := rfl

/-- One of two masked words becomes the identifier of the other. -/
inductive Alike (words : List String) (empty : String) : List Char → List Char → Prop where
  | same (cs : List Char) : Alike words empty cs cs
  | blank {cs ds : List Char} (hc : isBlank cs = true) (hd : isBlank ds = true) :
      Alike words empty cs ds
  | empty {cs : List Char} (hc : isBlank cs = true) : Alike words empty cs empty.toList
  | number {c : Char} (hc : Text.isNumeric c = true) (cs : List Char) :
      Alike words empty (c :: cs) ('_' :: c :: cs)
  | word {w : String} (hw : w ∈ words) : Alike words empty w.toList (w.toList ++ ['_'])

/-- Whether a word starts with a letter and does not end in an underscore. -/
def isSound (w : String) : Bool :=
  w.toList.head?.any (fun c => c ≠ '_' && !Text.isNumeric c) && w.toList.getLast? ≠ some '_'

/-- The words that are mended, and the word for a blank, are identifiers that mending does not
make. -/
def Fit (words : List String) (empty : String) : Prop :=
  (∀ w ∈ empty :: words, isSound w = true) ∧ empty ∉ words

instance (words : List String) (empty : String) : Decidable (Fit words empty) :=
  inferInstanceAs (Decidable (_ ∧ _))

theorem isSound_cons {w : String} (h : isSound w = true) :
    ∃ c cs, w.toList = c :: cs ∧ c ≠ '_' ∧ Text.isNumeric c = false := by
  unfold isSound at h
  cases hw : w.toList with
  | nil =>
    rw [hw] at h
    cases h
  | cons c cs =>
    rw [hw] at h
    simp only [List.head?_cons, Option.any_some, Bool.and_eq_true, decide_eq_true_eq,
      Bool.not_eq_true'] at h
    exact ⟨c, cs, rfl, h.1⟩

theorem not_isBlank_of_isSound {w : String} (h : isSound w = true) (cs : List Char) :
    isBlank (w.toList ++ cs) = false := by
  obtain ⟨c, ds, hw, hc, -⟩ := isSound_cons h
  simp [isBlank, hw, hc]

theorem guardStart_of_isSound {w : String} (h : isSound w = true) (cs : List Char) :
    guardStart (w.toList ++ cs) = w.toList ++ cs := by
  obtain ⟨c, ds, hw, -, hc⟩ := isSound_cons h
  simp [guardStart, hw, hc]

/-- What is guarded to a word that needs no guard is that word. -/
theorem eq_of_guardStart_eq {w : String} (h : isSound w = true) {cs : List Char}
    (ds : List Char) (hg : guardStart cs = w.toList ++ ds) : cs = w.toList ++ ds := by
  obtain ⟨c, es, hw, hc, -⟩ := isSound_cons h
  cases cs with
  | nil =>
    rw [hw] at hg
    cases hg
  | cons d cs =>
    rw [guardStart_cons] at hg
    split at hg
    · rw [hw] at hg
      exact absurd (List.cons.inj hg).1.symm hc
    · exact hg

/-- Two words are guarded to the same if they are the same or one is guarded to the other. -/
theorem alike_of_guardStart_eq {words : List String} {empty : String} {cs ds : List Char}
    (h : guardStart cs = guardStart ds) : Alike words empty cs ds ∨ Alike words empty ds cs := by
  cases cs with
  | nil =>
    cases ds with
    | nil => exact Or.inl (.same _)
    | cons d ds =>
      rw [guardStart_cons] at h
      split at h <;> exact absurd h (List.cons_ne_nil _ _).symm
  | cons c cs =>
    cases ds with
    | nil =>
      rw [guardStart_cons] at h
      split at h <;> exact absurd h (List.cons_ne_nil _ _)
    | cons d ds =>
      rw [guardStart_cons, guardStart_cons] at h
      split at h
      · rename_i hc
        split at h
        · cases h
          exact Or.inl (.same _)
        · cases h
          exact Or.inl (.number hc cs)
      · split at h
        · rename_i hd
          cases h
          exact Or.inr (.number hd ds)
        · cases h
          exact Or.inl (.same _)

theorem underscore_not_numeric : Text.isNumeric '_' = false := rfl

theorem mended_of_isBlank {words : List String} {empty : String} {cs : List Char}
    (h : isBlank cs = true) : mended words empty cs = empty.toList := if_pos h

theorem mended_of_not_mem {words : List String} {empty : String} {cs : List Char}
    (hb : isBlank cs = false) (hw : String.ofList (guardStart cs) ∉ words) :
    mended words empty cs = guardStart cs := by
  unfold mended
  rw [hb, if_neg Bool.false_ne_true, if_neg hw]

theorem mended_of_mem {words : List String} {empty : String} {cs : List Char}
    (hb : isBlank cs = false) (hw : String.ofList (guardStart cs) ∈ words) :
    mended words empty cs = guardStart cs ++ ['_'] := by
  unfold mended
  rw [hb, if_neg Bool.false_ne_true, if_pos hw]

/-- A word with an underscore behind it is none of the words that are mended. -/
theorem Fit.not_mem {words : List String} {empty w : String} (hf : Fit words empty)
    (h : w.toList.getLast? = some '_') : w ∉ words := by
  intro hw
  have hs := hf.1 w (List.mem_cons_of_mem _ hw)
  unfold isSound at hs
  rw [h] at hs
  simp at hs

theorem mended_of_alike {words : List String} {empty : String} (hf : Fit words empty)
    {cs ds : List Char} (h : Alike words empty cs ds) :
    mended words empty cs = mended words empty ds := by
  cases h with
  | same => rfl
  | blank hc hd => rw [mended_of_isBlank hc, mended_of_isBlank hd]
  | empty hc =>
    have hs := hf.1 empty (List.mem_cons_self ..)
    have hg := guardStart_of_isSound hs []
    have hb := not_isBlank_of_isSound hs []
    rw [List.append_nil] at hg hb
    rw [mended_of_isBlank hc, mended_of_not_mem hb, hg]
    rw [hg, String.ofList_toList]
    exact hf.2
  | @number c hc cs =>
    have hne : c ≠ '_' := fun h => by
      rw [h, underscore_not_numeric] at hc
      cases hc
    have hg : guardStart (c :: cs) = guardStart ('_' :: c :: cs) := by
      rw [guardStart_cons, guardStart_cons, hc, underscore_not_numeric]
      rfl
    have hb : isBlank (c :: cs) = isBlank ('_' :: c :: cs) := by simp [isBlank, hne]
    unfold mended
    rw [hg, hb]
  | @word w hw =>
    have hs := hf.1 w (List.mem_cons_of_mem _ hw)
    have hg := guardStart_of_isSound hs []
    have hb := not_isBlank_of_isSound hs []
    rw [List.append_nil] at hg hb
    have hlast : String.ofList (w.toList ++ ['_']) ∉ words := hf.not_mem (by simp)
    rw [mended_of_mem hb, mended_of_not_mem (not_isBlank_of_isSound hs _),
      guardStart_of_isSound hs, hg]
    · rwa [guardStart_of_isSound hs]
    · rwa [hg, String.ofList_toList]

/-- A word that becomes the word for a blank is that word or a blank. -/
theorem alike_of_mended_eq_empty {words : List String} {empty : String} (hf : Fit words empty)
    {cs ds : List Char} (hb : isBlank ds = true) (h : mended words empty cs = empty.toList) :
    Alike words empty ds cs := by
  have hs := hf.1 empty (List.mem_cons_self ..)
  by_cases hc : isBlank cs = true
  · exact .blank hb hc
  · rw [Bool.not_eq_true] at hc
    by_cases hw : String.ofList (guardStart cs) ∈ words
    · rw [mended_of_mem hc hw] at h
      unfold isSound at hs
      rw [← h] at hs
      simp at hs
    · rw [mended_of_not_mem hc hw] at h
      have he := eq_of_guardStart_eq hs [] (by rwa [List.append_nil])
      rw [he, List.append_nil]
      exact .empty hb

/-- A word that gets an underscore behind it and another one with the same identifier. -/
theorem alike_of_mem {words : List String} {empty : String} (hf : Fit words empty)
    {cs ds : List Char} (hc : isBlank cs = false) (hd : isBlank ds = false)
    (hw : String.ofList (guardStart cs) ∈ words)
    (h : mended words empty cs = mended words empty ds) : Alike words empty cs ds := by
  have hs := hf.1 _ (List.mem_cons_of_mem _ hw)
  have hself : cs = _ := eq_of_guardStart_eq hs [] (by rw [String.toList_ofList, List.append_nil])
  rw [mended_of_mem hc hw] at h
  by_cases hw' : String.ofList (guardStart ds) ∈ words
  · rw [mended_of_mem hd hw'] at h
    have hg := List.append_cancel_right h
    have he : ds = _ := eq_of_guardStart_eq hs [] (by rw [String.toList_ofList, List.append_nil, hg])
    have hsame : cs = ds := hself.trans he.symm
    subst hsame
    exact .same cs
  · rw [mended_of_not_mem hd hw'] at h
    have he : ds = _ := eq_of_guardStart_eq hs ['_'] (by rw [String.toList_ofList, h])
    have hword : Alike words empty _ _ := .word hw
    rwa [← he, ← List.append_nil (String.ofList _).toList, ← hself] at hword

theorem alike_of_mended {words : List String} {empty : String} (hf : Fit words empty)
    {cs ds : List Char} (h : mended words empty cs = mended words empty ds) :
    Alike words empty cs ds ∨ Alike words empty ds cs := by
  cases hc : isBlank cs with
  | true =>
    rw [mended_of_isBlank hc] at h
    exact Or.inl (alike_of_mended_eq_empty hf hc h.symm)
  | false =>
    cases hd : isBlank ds with
    | true =>
      rw [mended_of_isBlank hd] at h
      exact Or.inr (alike_of_mended_eq_empty hf hd h)
    | false =>
      by_cases hw : String.ofList (guardStart cs) ∈ words
      · exact Or.inl (alike_of_mem hf hc hd hw h)
      · by_cases hw' : String.ofList (guardStart ds) ∈ words
        · exact Or.inr (alike_of_mem hf hd hc hw' h.symm)
        · rw [mended_of_not_mem hc hw, mended_of_not_mem hd hw'] at h
          exact alike_of_guardStart_eq h

/-! ## Functions -/

theorem wordsFrom_alphanumeric {current cs : List Char}
    (hc : ∀ c ∈ current, isAlphanumeric c = true) {w : List Char} (hw : w ∈ wordsFrom current cs) :
    w ≠ [] ∧ ∀ c ∈ w, isAlphanumeric c = true := by
  induction cs generalizing current with
  | nil =>
    unfold wordsFrom at hw
    split at hw
    · cases hw
    · rename_i hne
      rw [List.mem_singleton.mp hw]
      exact ⟨by simpa using hne, fun c hm => hc c (List.mem_reverse.mp hm)⟩
  | cons c rest ih =>
    unfold wordsFrom at hw
    split at hw
    · rename_i halnum
      have hone : ∀ d ∈ [c], isAlphanumeric d = true := by simpa using halnum
      split at hw
      · exact ih hone hw
      · rename_i prev before
        split at hw
        · rcases List.mem_cons.mp hw with rfl | hw
          · exact ⟨by simp, fun d hm => hc d (List.mem_reverse.mp hm)⟩
          · exact ih hone hw
        · refine ih (fun d hm => ?_) hw
          rcases List.mem_cons.mp hm with rfl | hm
          · exact halnum
          · exact hc d hm
    · split at hw
      · exact ih (fun d hm => by cases hm) hw
      · rename_i hne
        rcases List.mem_cons.mp hw with rfl | hw
        · exact ⟨by simpa using hne, fun d hm => hc d (List.mem_reverse.mp hm)⟩
        · exact ih (fun d hm => by cases hm) hw

theorem words_alphanumeric {name : String} {w : List Char} (hw : w ∈ words name) :
    w ≠ [] ∧ ∀ c ∈ w, isAlphanumeric c = true :=
  wordsFrom_alphanumeric (fun c hm => by cases hm) hw

/-- A word in lower case starts with a letter or a number. -/
theorem lower_head {w : List Char} (hne : w ≠ []) (hw : ∀ c ∈ w, isAlphanumeric c = true) :
    ∃ d ds, (Text.lower (String.ofList w)).toList = d :: ds ∧ isAlphanumeric d = true := by
  obtain ⟨c, rest, rfl⟩ := List.exists_cons_of_ne_nil hne
  have hc := hw c (List.mem_cons_self ..)
  obtain ⟨d, ds, hd, hletter, hnumber⟩ := Text.lower_cons hc rest
  refine ⟨d, ds, hd, ?_⟩
  rw [isAlphanumeric, hletter, hnumber]
  exact hc

theorem isAlphanumeric_words_cons {name : String} {c : Char} {rest : List Char}
    {ws : List (List Char)} (h : words name = (c :: rest) :: ws) : isAlphanumeric c = true :=
  (words_alphanumeric (h ▸ List.mem_cons_self ..)).2 c (List.mem_cons_self ..)

/-- The words in lower case start with a letter or a number as the first word does. -/
theorem snakeCase_cons {name : String} {c : Char} {rest : List Char} {ws : List (List Char)}
    (h : words name = (c :: rest) :: ws) : ∃ d ds, (snakeCase name).toList = d :: ds ∧
      Text.isAlphabetic d = Text.isAlphabetic c ∧ Text.isNumeric d = Text.isNumeric c := by
  obtain ⟨d, ds, hd, hkind⟩ := Text.lower_cons (isAlphanumeric_words_cons h) rest
  unfold snakeCase
  rw [String.toList_intercalate, h, List.map_cons, List.map_cons, hd]
  cases ws with
  | nil => exact ⟨d, ds, by simp, hkind⟩
  | cons v vs => exact ⟨d, _, by rw [List.map_cons, List.map_cons, List.intercalate_cons_cons]; rfl, hkind⟩

/-- The words in lower case, masked, start as they are. -/
theorem masked_snakeCase_cons {name : String} {c : Char} {rest : List Char} {ws : List (List Char)}
    (h : words name = (c :: rest) :: ws) : ∃ d ds, masked (snakeCase name) = d :: ds ∧
      isAlphanumeric d = true ∧ Text.isAlphabetic d = Text.isAlphabetic c := by
  obtain ⟨d, ds, hd, hletter, hnumber⟩ := snakeCase_cons h
  have halnum : isAlphanumeric d = true := by
    rw [isAlphanumeric, hletter, hnumber]
    exact isAlphanumeric_words_cons h
  have hkept : (if isIdentChar d then d else '_') = d :=
    if_pos (by rw [isIdentChar, halnum, Bool.or_true])
  exact ⟨d, _, by rw [masked, hd, List.map_cons, hkept], halnum, hletter⟩

theorem ne_underscore {c : Char} (h : isAlphanumeric c = true) : c ≠ '_' := by
  rintro rfl
  exact Bool.false_ne_true h

/-- The identifier of a function never has an underscore of the name in front. -/
theorem masked_snakeCase_head (name : String) : (masked (snakeCase name)).head? ≠ some '_' := by
  cases hws : words name with
  | nil => simp [masked, snakeCase, hws]
  | cons w ws =>
    obtain ⟨c, rest, rfl⟩ := List.exists_cons_of_ne_nil
      (words_alphanumeric (hws ▸ List.mem_cons_self ..)).1
    obtain ⟨d, ds, hd, halnum, -⟩ := masked_snakeCase_cons hws
    rw [hd, List.head?_cons]
    exact fun h => ne_underscore halnum (Option.some.inj h)

/-- Without the underscores in front, a mended word is the word again, but for the underscore that
may be behind it. -/
theorem dropWhile_mended {cs : List Char} (hb : isBlank cs = false) (hh : cs.head? ≠ some '_') :
    ∃ tail, (∀ c ∈ tail, c = '_') ∧ mended keywords "unnamed" cs = guardStart cs ++ tail ∧
      (mended keywords "unnamed" cs).dropWhile (· = '_') = cs ++ tail := by
  cases cs with
  | nil => cases hb
  | cons c rest =>
    have hc : c ≠ '_' := by simpa using hh
    have hdrop (tail : List Char) :
        (guardStart (c :: rest) ++ tail).dropWhile (· = '_') = c :: rest ++ tail := by
      rw [guardStart_cons]
      split <;> simp [hc]
    by_cases hw : String.ofList (guardStart (c :: rest)) ∈ keywords
    · rw [mended_of_mem hb hw]
      exact ⟨['_'], fun d hd => List.mem_singleton.mp hd, rfl, hdrop ['_']⟩
    · have hplain := hdrop []
      rw [List.append_nil] at hplain
      rw [mended_of_not_mem hb hw, hplain]
      exact ⟨[], fun d hd => (by cases hd), (List.append_nil _).symm, rfl⟩

/-- Guarding the start again makes up for the underscores that were taken off. -/
theorem guardStart_dropWhile_mended {cs : List Char} (hh : cs.head? ≠ some '_') :
    guardStart ((mended keywords "unnamed" cs).dropWhile (· = '_')) =
      mended keywords "unnamed" cs := by
  cases hb : isBlank cs with
  | true =>
    rw [mended_of_isBlank hb]
    rfl
  | false =>
    obtain ⟨tail, -, hmended, hdrop⟩ := dropWhile_mended hb hh
    rw [hdrop, hmended]
    cases cs with
    | nil => cases hb
    | cons c rest =>
      rw [List.cons_append, guardStart_cons, guardStart_cons]
      split <;> rfl

/-- Parsing functions differ as the identifiers do that they are made of. -/
theorem parseFunction_inj {a b : String} :
    parseFunction a = parseFunction b ↔ functionIdent a = functionIdent b := by
  have hback (name : String) : guardStart ((functionIdent name).toList.dropWhile (· = '_')) =
      (functionIdent name).toList := by
    unfold functionIdent
    rw [toList_sanitize]
    exact guardStart_dropWhile_mended (masked_snakeCase_head name)
  unfold parseFunction functionStem
  constructor
  · intro h
    have hlist := congrArg String.toList h
    simp only [String.toList_append, String.toList_ofList] at hlist
    have hstem := congrArg guardStart (List.append_cancel_left hlist)
    rw [hback, hback] at hstem
    exact String.toList_inj.mp hstem
  · intro h
    rw [h]

/-! ## Plain names -/

/-- What is left of a word without its underscores. -/
def bare (cs : List Char) : List Char := cs.filter (· ≠ '_')

/-- Names that are alike differ in underscores at most, unless one of them is blank. -/
theorem Alike.bare_eq {words : List String} {empty : String} {cs ds : List Char}
    (h : Alike words empty cs ds) (hb : bare cs ≠ []) : bare cs = bare ds := by
  have hblank (h : isBlank cs = true) : bare cs = [] := by
    unfold bare
    rw [List.filter_eq_nil_iff]
    intro c hc
    simpa using List.all_eq_true.mp h c hc
  cases h with
  | same => rfl
  | blank hc => exact absurd (hblank hc) hb
  | empty hc => exact absurd (hblank hc) hb
  | number => simp [bare]
  | word => simp [bare]

/-- The letters and the numbers that are in every alphabet. -/
def IsPlain (name : String) : Prop := ∀ c ∈ name.toList, c.isAlphanum = true

instance (name : String) : Decidable (IsPlain name) := List.decidableBAll _ _

theorem plain_lower {c : Char} (h : c.isAlphanum = true) :
    isAlphanumeric c = true ∧ c ≠ '_' ∧ c ≠ 'Σ' ∧
      ∃ d, Text.lowerChar c = [d] ∧ d.isAlphanum = true := by
  obtain ⟨halnum, hne, hsigma, hlen, hd⟩ := Text.forall_small
    (P := fun c => c.isAlphanum = true → isAlphanumeric c = true ∧ c ≠ '_' ∧ c ≠ 'Σ' ∧
      (Text.lowerChar c).length = 1 ∧ (Text.lowerChar c).all Char.isAlphanum = true)
    (by decide +kernel) (Text.lt_of_isAlphanum h) h
  obtain ⟨d, heq⟩ := List.length_eq_one_iff.mp hlen
  rw [heq] at hd
  exact ⟨halnum, hne, hsigma, d, heq, by simpa using hd⟩

theorem lowerFrom_plain {before cs : List Char} (h : ∀ c ∈ cs, c.isAlphanum = true) :
    Text.lowerFrom before cs = cs.flatMap Text.lowerChar := by
  induction cs generalizing before with
  | nil => rfl
  | cons c rest ih =>
    unfold Text.lowerFrom
    dsimp only
    rw [if_neg (plain_lower (h c (List.mem_cons_self ..))).2.2.1, List.flatMap_cons,
      ih fun d hd => h d (List.mem_cons_of_mem _ hd)]

theorem isPlain_lower {name : String} (h : IsPlain name) : IsPlain (Text.lower name) := by
  intro d hd
  unfold Text.lower at hd
  rw [String.toList_ofList, lowerFrom_plain h] at hd
  obtain ⟨c, hc, hd⟩ := List.mem_flatMap.mp hd
  obtain ⟨-, -, -, e, he, halnum⟩ := plain_lower (h c hc)
  rw [he] at hd
  rwa [List.mem_singleton.mp hd]

/-- A plain word stands in an identifier as it is. -/
theorem bare_mask_plain {cs : List Char} (h : ∀ c ∈ cs, c.isAlphanum = true) :
    bare (cs.map fun c => if isIdentChar c then c else '_') = cs := by
  have hkept : (cs.map fun c => if isIdentChar c then c else '_') = cs.map id := by
    refine List.map_congr_left fun c hc => if_pos ?_
    unfold isIdentChar
    rw [(plain_lower (h c hc)).1, Bool.or_true]
  rw [hkept, List.map_id, bare, List.filter_eq_self]
  intro c hc
  simpa using (plain_lower (h c hc)).2.1

theorem bare_masked_plain {name : String} (h : IsPlain name) : bare (masked name) = name.toList :=
  bare_mask_plain h

/-- Cutting a text into words leaves its letters and numbers, in order. -/
theorem wordsFrom_flatten (current cs : List Char) :
    (wordsFrom current cs).flatten = current.reverse ++ cs.filter isAlphanumeric := by
  induction cs generalizing current with
  | nil =>
    unfold wordsFrom
    split
    · rename_i he
      simp [List.isEmpty_iff.mp he]
    · simp
  | cons c rest ih =>
    unfold wordsFrom
    by_cases hc : isAlphanumeric c = true
    · rw [if_pos hc, List.filter_cons_of_pos hc]
      split
      · rw [ih]
        rfl
      · split
        · rw [List.flatten_cons, ih]
          rfl
        · rw [ih]
          simp
    · rw [if_neg hc, List.filter_cons_of_neg hc]
      split
      · rename_i he
        rw [ih, List.isEmpty_iff.mp he]
      · rw [List.flatten_cons, ih]
        rfl

theorem words_flatten (name : String) :
    (words name).flatten = name.toList.filter isAlphanumeric := wordsFrom_flatten [] name.toList

theorem bare_mask_intercalate {ws : List (List Char)}
    (h : ∀ w ∈ ws, ∀ c ∈ w, c.isAlphanum = true) :
    bare ((['_'].intercalate ws).map fun c => if isIdentChar c then c else '_') = ws.flatten := by
  induction ws with
  | nil => rfl
  | cons w ws ih =>
    have ih := ih fun v hv => h v (List.mem_cons_of_mem _ hv)
    have hw := bare_mask_plain (h w (List.mem_cons_self ..))
    cases ws with
    | nil => simpa using hw
    | cons v vs =>
      rw [List.intercalate_cons_cons, List.map_append, List.map_append, List.flatten_cons, ← ih]
      unfold bare at hw ⊢
      rw [List.filter_append, List.filter_append, hw]
      simp [isIdentChar]

/-- The words of a plain name are the name, cut. -/
theorem bare_masked_snakeCase {name : String} (h : IsPlain name) :
    bare (masked (snakeCase name)) = (Text.lower name).toList := by
  have hflat : (words name).flatten = name.toList :=
    (words_flatten name).trans (List.filter_eq_self.mpr fun c hc => (plain_lower (h c hc)).1)
  have hmem {w : List Char} (hw : w ∈ words name) : ∀ c ∈ w, c.isAlphanum = true := fun c hc =>
    h c (hflat ▸ List.mem_flatten_of_mem hw hc)
  have hlower : (words name).map (String.toList ∘ fun w => Text.lower (String.ofList w)) =
      (words name).map (·.flatMap Text.lowerChar) := by
    refine List.map_congr_left fun w hw => ?_
    rw [Function.comp_apply, Text.lower, String.toList_ofList, String.toList_ofList,
      lowerFrom_plain (hmem hw)]
  unfold masked snakeCase
  rw [String.toList_intercalate, List.map_map, hlower]
  refine (bare_mask_intercalate fun v hv d hd => ?_).trans ?_
  · obtain ⟨w, hw, rfl⟩ := List.mem_map.mp hv
    obtain ⟨c, hc, hd⟩ := List.mem_flatMap.mp hd
    obtain ⟨-, -, -, e, he, halnum⟩ := plain_lower (hmem hw c hc)
    rw [he] at hd
    rwa [List.mem_singleton.mp hd]
  · rw [Text.lower, String.toList_ofList, lowerFrom_plain h, ← hflat]
    rw [List.flatMap_def, List.map_flatten, List.flatten_flatten, List.map_map]
    rfl

/-- No of two names becomes the identifier of the other, as a part of the code reads them. -/
def Apart (words : List String) (empty : String) (read : String → List Char) (a b : String) : Prop :=
  ¬ (Alike words empty (read a) (read b) ∨ Alike words empty (read b) (read a))

theorem mended_eq_iff {words : List String} {empty : String} (hf : Fit words empty)
    {cs ds : List Char} : mended words empty cs = mended words empty ds ↔
      Alike words empty cs ds ∨ Alike words empty ds cs :=
  ⟨alike_of_mended hf, fun h =>
    h.elim (mended_of_alike hf) fun h => (mended_of_alike hf h).symm⟩

theorem fit_types : Fit typeWords "Unnamed" := by decide

theorem fit_modules : Fit keywords "module" := by decide

theorem fit_functions : Fit keywords "unnamed" := by decide

theorem typeIdent_ne_iff {a b : String} :
    typeIdent a ≠ typeIdent b ↔ Apart typeWords "Unnamed" masked a b := by
  rw [Apart, ← mended_eq_iff fit_types, ← toList_typeIdent, ← toList_typeIdent, String.toList_inj]

theorem moduleIdent_ne_iff {a b : String} :
    (ModuleName.ofStem a).ident ≠ (ModuleName.ofStem b).ident ↔
      Apart keywords "module" masked a b := by
  rw [Apart, ← mended_eq_iff fit_modules, ← toList_sanitize, ← toList_sanitize, String.toList_inj]
  rfl

theorem parseFunction_ne_iff {a b : String} : parseFunction a ≠ parseFunction b ↔
    Apart keywords "unnamed" (fun name => masked (snakeCase name)) a b := by
  rw [ne_eq, parseFunction_inj, Apart, ← mended_eq_iff fit_functions, ← toList_sanitize,
    ← toList_sanitize, String.toList_inj]
  rfl

/-- Names that differ in more than underscores are apart. -/
theorem apart_of_bare {words : List String} {empty : String} {read : String → List Char}
    {a b : String} (ha : bare (read a) ≠ []) (hb : bare (read b) ≠ [])
    (h : bare (read a) ≠ bare (read b)) : Apart words empty read a b := by
  rintro (hab | hba)
  · exact h (hab.bare_eq ha)
  · exact h (hba.bare_eq hb).symm

/-- Names are apart if what is left of them without underscores tells them apart. -/
theorem pairwise_apart {words : List String} {empty : String} {read : String → List Char}
    {key : String → String} {names : List String}
    (hread : ∀ name ∈ names, bare (read name) = (key name).toList)
    (hne : ∀ name ∈ names, (key name).toList ≠ [])
    (hkeys : names.Pairwise fun a b => key a ≠ key b) :
    names.Pairwise (Apart words empty read) := by
  refine List.Pairwise.imp_of_mem (fun ha hb hab => apart_of_bare ?_ ?_ ?_) hkeys
  · rw [hread _ ha]
    exact hne _ ha
  · rw [hread _ hb]
    exact hne _ hb
  · rw [hread _ ha, hread _ hb]
    exact fun heq => hab (String.toList_inj.mp heq)

end Code

open Code

/-- Accepted types have distinct identifiers, modules and parsing functions exactly if no two of
their names are alike where these are made of. No two plain names ever are. -/
theorem emitted_names_distinct_iff {ds : List TypeDescriptor} {types : TypeSet}
    (h : TypeSet.ofList ds = .ok types) :
    let names := types.canonicalNames
    let entries := names.map ManifestEntry.ofCanonical
    ((entries.map (·.typeName)).Nodup ↔ names.Pairwise (Apart typeWords "Unnamed" masked)) ∧
    ((entries.map (·.module.ident)).Nodup ↔
      names.Pairwise (Apart keywords "module" fun name => masked (moduleFileStem name))) ∧
    ((entries.map (·.parseFunction)).Nodup ↔
      names.Pairwise (Apart keywords "unnamed" fun name => masked (snakeCase name))) ∧
    ((∀ name ∈ names, IsPlain name) → (entries.map (·.typeName)).Nodup ∧
      (entries.map (·.module.ident)).Nodup ∧ (entries.map (·.parseFunction)).Nodup) := by
  intro names entries
  have htypes : (entries.map (·.typeName)).Nodup ↔
      names.Pairwise (Apart typeWords "Unnamed" masked) := by
    rw [List.map_map, List.Nodup, List.pairwise_map]
    exact List.Pairwise.iff fun _ _ => typeIdent_ne_iff
  have hmodules : (entries.map (·.module.ident)).Nodup ↔
      names.Pairwise (Apart keywords "module" fun name => masked (moduleFileStem name)) := by
    rw [List.map_map, List.Nodup, List.pairwise_map]
    exact List.Pairwise.iff fun _ _ => moduleIdent_ne_iff
  have hfunctions : (entries.map (·.parseFunction)).Nodup ↔
      names.Pairwise (Apart keywords "unnamed" fun name => masked (snakeCase name)) := by
    rw [List.map_map, List.Nodup, List.pairwise_map]
    exact List.Pairwise.iff fun _ _ => parseFunction_ne_iff
  refine ⟨htypes, hmodules, hfunctions, fun hplain => ?_⟩
  obtain ⟨rfl, hempty, hnames, hstems⟩ := TypeSet.ofList_eq_ok.mp h
  have hne : ∀ name ∈ names, name.toList ≠ [] := by
    intro name hname
    obtain ⟨d, hd, rfl⟩ := List.mem_map.mp hname
    simpa using hempty d hd
  have hlower : ∀ name ∈ names, (moduleFileStem name).toList ≠ [] := by
    intro name hname
    have halnum : ∀ c ∈ name.toList, isAlphanumeric c = true := fun c hc =>
      (plain_lower (hplain name hname c hc)).1
    obtain ⟨d, rest, heq, -⟩ := lower_head (hne name hname) halnum
    rw [String.ofList_toList] at heq
    exact heq ▸ List.cons_ne_nil d rest
  have hstems : names.Pairwise fun a b => moduleFileStem a ≠ moduleFileStem b := by
    have hmap : ds.map (·.fileStem) = names.map moduleFileStem := (List.map_map ..).symm
    rw [hmap, List.Nodup, List.pairwise_map] at hstems
    exact hstems
  refine ⟨htypes.mpr ?_, hmodules.mpr ?_, hfunctions.mpr ?_⟩
  · exact pairwise_apart (fun name hname => bare_masked_plain (hplain name hname)) hne hnames
  · exact pairwise_apart
      (fun name hname => bare_masked_plain (isPlain_lower (hplain name hname))) hlower hstems
  · exact pairwise_apart (fun name hname => bare_masked_snakeCase (hplain name hname)) hlower hstems

/-- The files of a user and of an address, whose names stay apart. -/
theorem emitted_names_distinct_two :
    let ds := ["user-profile.schema.json", "2address.schema.json"].map (TypeDescriptor.ofFile · .null)
    let entries := (ds.map (·.canonicalName)).map ManifestEntry.ofCanonical
    (entries.map (·.typeName)).Nodup ∧ (entries.map (·.module.ident)).Nodup ∧
      (entries.map (·.parseFunction)).Nodup := by
  intro ds entries
  have hok : TypeSet.ofList ds = .ok ⟨ds⟩ :=
    TypeSet.ofList_eq_ok.mpr ⟨rfl, by decide +kernel⟩
  exact (emitted_names_distinct_iff hok).2.2.2 (by decide +kernel)

/-- Signs that become underscores give two accepted types one name of each kind. -/
theorem emitted_names_signs :
    let ds := ["a.b.schema.json", "a!b.schema.json"].map (TypeDescriptor.ofFile · .null)
    let entries := (ds.map (·.canonicalName)).map ManifestEntry.ofCanonical
    TypeSet.ofList ds = .ok ⟨ds⟩ ∧ ¬ (entries.map (·.typeName)).Nodup ∧
      ¬ (entries.map (·.module.ident)).Nodup ∧ ¬ (entries.map (·.parseFunction)).Nodup := by
  intro ds entries
  exact ⟨TypeSet.ofList_eq_ok.mpr ⟨rfl, by decide +kernel⟩, by decide +kernel⟩

end SchemaBindings
