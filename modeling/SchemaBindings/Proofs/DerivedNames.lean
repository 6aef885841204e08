import SchemaBindings.Proofs.UsableIdentifiers

/-! # Names that are derived behind the mending

The function that parses a type and the constant that holds its schema are named
after the identifier of a function, without the underscores in front; the
constant is in upper case. A variant whose text starts with a number gets a
letter in front and nothing else. So the guard before a number is lost in the
constants, and some letters have capitals with marks, which are no characters of
an identifier, and no mending follows. Otherwise these names are identifiers. -/

namespace SchemaBindings.Code

/-- The letters whose capitals are letters with marks behind them. -/
def splitCapitals : List Nat :=
  [
    0x1F0, 0x390, 0x3B0, 0x1E96, 0x1E97, 0x1E98, 0x1E99, 0x1F50, 0x1F52, 0x1F54, 0x1F56, 0x1FB6,
    0x1FB7, 0x1FC6, 0x1FC7, 0x1FD2, 0x1FD3, 0x1FD6, 0x1FD7, 0x1FE2, 0x1FE3, 0x1FE4, 0x1FE6, 0x1FE7,
    0x1FF6, 0x1FF7
  ]

theorem splitCapitals_expand : ∀ n ∈ splitCapitals, Text.moved? Text.upperRuns n = none ∧
    ((Text.upperExpansions.lookup n).any fun ns =>
      ns.any fun m => !isIdentChar (Char.ofNat m)) = true := by decide +kernel

theorem upperExpansions_letters : (Text.upperExpansions.all fun e =>
    splitCapitals.contains e.1 ||
      e.2.all fun n => Text.covers Text.alphabeticRanges n n) = true := by decide +kernel

theorem splitCapitals_lower : ∀ n ∈ splitCapitals, isAlphanumeric (Char.ofNat n) = true ∧
    Text.lowerChar (Char.ofNat n) = [Char.ofNat n] ∧ n ≠ 0x3A3 ∧ n ≠ 0x3C2 := by decide +kernel

theorem lowerRuns_unsplit : (Text.lowerRuns.all fun r => splitCapitals.all fun n =>
    Nat.blt n r.image || Nat.blt (r.image + (r.last - r.first)) n ||
      !Nat.beq ((n - r.image) % r.step) 0) = true := by decide +kernel

/-- A character of an identifier has a capital of such characters unless it is one of those. -/
theorem isWord_upperChar_iff {c : Char} (hc : isIdentChar c = true) :
    IsWord (Text.upperChar c) ↔ c.toNat ∉ splitCapitals := by
  have hletter {d : Char} (h : Text.isAlphabetic d = true) : isIdentChar d = true :=
    isIdentChar_of_isIdentStart (Bool.or_eq_true_iff.mpr (.inr h))
  unfold Text.upperChar Text.recased
  split
  · rename_i m hm
    have hplain : c.toNat ∉ splitCapitals := by
      intro hsplit
      rw [(splitCapitals_expand _ hsplit).1] at hm
      cases hm
    refine iff_of_true (fun d hd => ?_) hplain
    rw [List.mem_singleton.mp hd]
    exact hletter (Text.upper_keepsKind.moved hm).1
  · split
    · rename_i ns hns
      constructor
      · intro h hsplit
        have hmarks := (splitCapitals_expand _ hsplit).2
        rw [hns, Option.any_some, List.any_eq_true] at hmarks
        obtain ⟨m, hm, hmark⟩ := hmarks
        rw [h _ (List.mem_map_of_mem hm)] at hmark
        cases hmark
      · intro hplain d hd
        obtain ⟨m, hm, rfl⟩ := List.mem_map.mp hd
        obtain ⟨before, after, hentries, -⟩ := List.lookup_eq_some_iff.mp hns
        have hmem : (c.toNat, ns) ∈ Text.upperExpansions := by simp [hentries]
        have hexpanded := List.all_eq_true.mp upperExpansions_letters _ hmem
        rw [List.contains_eq_mem, decide_eq_false hplain, Bool.false_or] at hexpanded
        have hcovers := List.all_eq_true.mp hexpanded m hm
        have hvalid := Text.toNat_ofNat (Or.inl (Text.upperExpansions_land _ hmem m hm).2)
        refine hletter ?_
        rw [Text.isAlphabetic, hvalid]
        exact Text.inRanges_of_covers Text.alphabeticRanges_inOrder hcovers (Nat.le_refl _)
          (Nat.le_refl _)
    · rename_i hnone
      have hplain : c.toNat ∉ splitCapitals := by
        intro hsplit
        have hmarks := (splitCapitals_expand _ hsplit).2
        rw [hnone] at hmarks
        cases hmarks
      refine iff_of_true (fun d hd => ?_) hplain
      rwa [List.mem_singleton.mp hd]

theorem isAlphanumeric_of_split {c : Char} (h : c.toNat ∈ splitCapitals) :
    isAlphanumeric c = true := by
  have hc := (splitCapitals_lower _ h).1
  rwa [Char.ofNat_toNat] at hc

/-- Lower-casing makes a letter with a split capital of itself alone. -/
theorem eq_of_mem_lowerChar_split {c d : Char} (h : c.toNat ∈ splitCapitals)
    (hc : c ∈ Text.lowerChar d) : c = d := by
  unfold Text.lowerChar Text.recased at hc
  split at hc
  · rename_i m hm
    obtain ⟨r, hr, himage⟩ := Text.image?_of_moved? hm
    obtain ⟨hfirst, hlast, heq⟩ := Text.eq_of_image? himage
    have hvalid := (Text.moved?_lands Text.lowerRuns_land hm).2
    rw [List.mem_singleton.mp hc, Text.toNat_ofNat hvalid] at h
    -- The run would have to hit the code point, and every run steps over it or ends before it.
    have hclear := List.all_eq_true.mp (List.all_eq_true.mp lowerRuns_unsplit r hr) m h
    have hback : m - r.image = d.toNat - r.first := by omega
    rw [hback, Text.step_of_image? himage] at hclear
    simp only [Bool.or_eq_true, Nat.blt_eq] at hclear
    rcases hclear with (hlt | hlt) | hstep
    · omega
    · omega
    · cases hstep
  · split at hc
    · rename_i ns hns
      have hexpansions : ∀ e ∈ Text.lowerExpansions, ∀ n ∈ e.2,
          (Char.ofNat n).toNat ∉ splitCapitals := by decide +kernel
      obtain ⟨n, hn, rfl⟩ := List.mem_map.mp hc
      obtain ⟨before, after, hentries, -⟩ := List.lookup_eq_some_iff.mp hns
      exact absurd h (hexpansions (d.toNat, ns) (by simp [hentries]) n hn)
    · exact List.mem_singleton.mp hc

/-- A letter with a split capital is in a text in lower case exactly if it is in the text. -/
theorem mem_lower_split {c : Char} (h : c.toNat ∈ splitCapitals) {w : List Char} :
    c ∈ (Text.lower (String.ofList w)).toList ↔ c ∈ w := by
  obtain ⟨-, hlower, hsigma, hfinal⟩ := splitCapitals_lower _ h
  rw [Char.ofNat_toNat] at hlower
  unfold Text.lower
  rw [String.toList_ofList, String.toList_ofList]
  constructor
  · intro hmem
    rcases Text.mem_lowerFrom hmem with rfl | ⟨d, hd, hc⟩
    · exact absurd rfl hfinal
    · rwa [eq_of_mem_lowerChar_split h hc]
  · intro hmem
    refine Text.mem_lowerFrom_of_mem hmem ?_ (by rw [hlower]; exact List.mem_singleton_self c)
    rintro rfl
    exact hsigma rfl

/-! ## The stem of a function -/

theorem mem_words_iff {name : String} {c : Char} :
    (∃ w ∈ words name, c ∈ w) ↔ c ∈ name.toList ∧ isAlphanumeric c = true := by
  rw [← List.mem_filter, ← words_flatten, List.mem_flatten]

/-- The first letter or number of a name is the first of its first word. -/
theorem find?_of_words {name : String} {c : Char} {rest : List Char} {ws : List (List Char)}
    (h : words name = (c :: rest) :: ws) : name.toList.find? isAlphanumeric = some c := by
  rw [← List.head?_filter, ← words_flatten, h]
  rfl

theorem find?_of_words_nil {name : String} (h : words name = []) :
    name.toList.find? isAlphanumeric = none := by
  rw [← List.head?_filter, ← words_flatten, h]
  rfl

theorem exists_words_cons {name : String} (h : words name ≠ []) :
    ∃ c rest ws, words name = (c :: rest) :: ws := by
  obtain ⟨w, ws, hws⟩ := List.exists_cons_of_ne_nil h
  obtain ⟨c, rest, rfl⟩ := List.exists_cons_of_ne_nil
    (words_alphanumeric (hws ▸ List.mem_cons_self ..)).1
  exact ⟨c, rest, ws, hws⟩

theorem mem_masked_split {word : String} {c : Char} (h : c.toNat ∈ splitCapitals) :
    c ∈ masked word ↔ c ∈ word.toList := by
  have hc : isIdentChar c = true := by
    rw [isIdentChar, isAlphanumeric_of_split h, Bool.or_true]
  constructor
  · intro hmem
    refine (mem_masked hmem).resolve_left ?_
    rintro rfl
    exact absurd h (by decide)
  · intro hmem
    exact List.mem_map.mpr ⟨c, hmem, if_pos hc⟩

theorem mem_snakeCase_split {name : String} {c : Char} (h : c.toNat ∈ splitCapitals) :
    c ∈ (snakeCase name).toList ↔ c ∈ name.toList := by
  have hbetween : c ∉ "_".toList := by
    intro hmem
    rw [List.mem_singleton.mp hmem] at h
    exact absurd h (by decide)
  have hwords : (∃ w ∈ words name, c ∈ w) ↔ c ∈ name.toList :=
    mem_words_iff.trans (and_iff_left (isAlphanumeric_of_split h))
  rw [snakeCase, String.toList_intercalate, Text.mem_intercalate_iff hbetween, List.map_map,
    ← hwords]
  simp only [List.mem_map, Function.comp_apply, exists_exists_and_eq_and, mem_lower_split h]

theorem functionStem_of_words_nil {name : String} (h : words name = []) :
    functionStem name = "unnamed" := by
  unfold functionStem functionIdent snakeCase
  rw [h]
  decide

/-- The stem of a name that has letters or numbers starts as the first of these does, and the
letters with split capitals in it are those of the name. -/
theorem exists_functionStem {name : String} {c : Char} {rest : List Char} {ws : List (List Char)}
    (h : words name = (c :: rest) :: ws) :
    ∃ d ds, (functionStem name).toList = d :: ds ∧ isAlphanumeric d = true ∧
      Text.isAlphabetic d = Text.isAlphabetic c ∧
      ∀ e : Char, e.toNat ∈ splitCapitals → (e ∈ d :: ds ↔ e ∈ name.toList) := by
  obtain ⟨d, ds, hd, halnum, hletter⟩ := masked_snakeCase_cons h
  have hne := ne_underscore halnum
  have hblank : isBlank (masked (snakeCase name)) = false := by simp [hd, isBlank, hne]
  obtain ⟨tail, htail, -, hdrop⟩ := dropWhile_mended hblank (masked_snakeCase_head name)
  have hstem : (functionStem name).toList = masked (snakeCase name) ++ tail := by
    unfold functionStem functionIdent
    rw [String.toList_ofList, toList_sanitize, hdrop]
  refine ⟨d, ds ++ tail, by rw [hstem, hd]; rfl, halnum, hletter, fun e he => ?_⟩
  rw [← List.cons_append, ← hd, List.mem_append, mem_masked_split he, mem_snakeCase_split he]
  refine or_iff_left fun hmem => ?_
  rw [htail e hmem] at he
  exact absurd he (by decide)

/-! ## Which derived names are identifiers -/

/-- A capital starts an identifier exactly if the character is a letter. -/
theorem head?_upperChar {c : Char} (hc : isAlphanumeric c = true) :
    ∃ d ds, Text.upperChar c = d :: ds ∧ isIdentStart d = Text.isAlphabetic c := by
  obtain ⟨d, ds, hd, hletter, hnumber⟩ := Text.upper_keepsKind.head hc
  have hne : d ≠ '_' := by
    refine ne_underscore ?_
    rw [isAlphanumeric, hletter, hnumber]
    exact hc
  refine ⟨d, ds, hd, ?_⟩
  rw [isIdentStart, decide_eq_false hne, Bool.false_or, hletter]

theorem isWord_flatMap_iff {α : Type} {xs : List α} {write : α → List Char} :
    IsWord (xs.flatMap write) ↔ ∀ x ∈ xs, IsWord (write x) := by
  simp only [IsWord, List.mem_flatMap]
  exact ⟨fun h x hx c hc => h c ⟨x, hx, hc⟩, fun h c ⟨x, hx, hc⟩ => h x hx c hc⟩

theorem isWord_append_iff {cs ds : List Char} : IsWord (cs ++ ds) ↔ IsWord cs ∧ IsWord ds := by
  refine ⟨fun h => ⟨fun c hc => h c ?_, fun c hc => h c ?_⟩, fun h => h.1.append h.2⟩
  · exact List.mem_append_left _ hc
  · exact List.mem_append_right _ hc

theorem isIdentifier_parseFunction (canonical : String) :
    isIdentifier (parseFunction canonical) = true := by
  have hchars : (parseFunction canonical).toList =
      "parse_".toList ++ (functionStem canonical).toList := String.toList_append
  refine isIdentifier_iff.mpr ⟨?_, IsWord.parseFunction canonical, fun heq => ?_, fun hmem => ?_⟩
  · rw [hchars]
    rfl
  · rw [heq] at hchars
    exact absurd (congrArg List.head? hchars) (by simp)
  · have hkeywords : ∀ w ∈ keywords, w.toList.take 6 ≠ "parse_".toList := by decide
    refine hkeywords _ hmem ?_
    rw [hchars, List.take_left' (by decide)]

/-- The name of a constant is an identifier if nothing but its characters speaks against it. -/
theorem isIdentifier_constant_iff {c : Char} {cs : List Char} :
    isIdentifier (String.ofList (c :: cs) ++ "_SCHEMA") = true ↔
      isIdentStart c = true ∧ IsWord (c :: cs) := by
  have hchars : (String.ofList (c :: cs) ++ "_SCHEMA").toList = c :: cs ++ "_SCHEMA".toList := by
    rw [String.toList_append, String.toList_ofList]
  rw [isIdentifier_iff, hchars, isWord_append_iff]
  refine ⟨fun ⟨hhead, ⟨hword, _⟩, _⟩ => ⟨hhead, hword⟩, fun ⟨hhead, hword⟩ => ?_⟩
  refine ⟨hhead, ⟨hword, .of_all (by decide)⟩, fun heq => ?_, fun hmem => ?_⟩
  · rw [heq] at hchars
    exact absurd (congrArg List.length hchars) (by simp)
  · have hkeywords : ∀ w ∈ keywords, w.toList.getLast? ≠ some 'A' := by decide
    refine hkeywords _ hmem ?_
    rw [hchars, List.getLast?_append_of_ne_nil _ (by decide)]
    rfl

theorem isIdentifier_schemaConstant_iff (canonical : String) :
    isIdentifier (schemaConstant canonical) = true ↔
      (canonical.toList.find? isAlphanumeric).all Text.isAlphabetic = true ∧
        ∀ c ∈ canonical.toList, c.toNat ∉ splitCapitals := by
  by_cases hwords : words canonical = []
  · have hnone := find?_of_words_nil hwords
    have hplain : ∀ c ∈ canonical.toList, c.toNat ∉ splitCapitals := fun c hc hsplit =>
      List.find?_eq_none.mp hnone c hc (isAlphanumeric_of_split hsplit)
    refine iff_of_true ?_ ⟨by rw [hnone, Option.all_none], hplain⟩
    rw [schemaConstant, functionStem_of_words_nil hwords]
    decide +kernel
  · obtain ⟨c, rest, ws, hws⟩ := exists_words_cons hwords
    obtain ⟨d, ds, hstem, halnum, hletter, hsplit⟩ := exists_functionStem hws
    obtain ⟨e, es, hupper, hstart⟩ := head?_upperChar halnum
    have hchars : schemaConstant canonical =
        String.ofList (e :: (es ++ ds.flatMap Text.upperChar)) ++ "_SCHEMA" := by
      rw [schemaConstant, Text.upper, hstem, List.flatMap_cons, hupper]
      rfl
    have hcapitals : e :: (es ++ ds.flatMap Text.upperChar) = (d :: ds).flatMap Text.upperChar := by
      rw [List.flatMap_cons, hupper]
      rfl
    have hstemword : IsWord (d :: ds) := hstem ▸ IsWord.functionStem canonical
    rw [hchars, isIdentifier_constant_iff, hstart, hletter, find?_of_words hws, Option.all_some,
      hcapitals, isWord_flatMap_iff]
    refine and_congr_right fun _ => ⟨fun h x hx hxsplit => ?_, fun h x hx => ?_⟩
    · have hmem := (hsplit x hxsplit).mpr hx
      exact (isWord_upperChar_iff (hstemword x hmem)).mp (h x hmem) hxsplit
    · refine (isWord_upperChar_iff (hstemword x hx)).mpr fun hxsplit => ?_
      exact h x ((hsplit x hxsplit).mp hx) hxsplit

/-- Behind the letter that is put before a number nothing but the characters can be wrong. -/
theorem isIdentifier_capitalV_iff {text : String} :
    isIdentifier ("V" ++ text) = true ↔ IsWord text.toList := by
  have hchars : ("V" ++ text).toList = 'V' :: text.toList := by rw [String.toList_append]; rfl
  rw [isIdentifier_iff, hchars]
  refine ⟨fun ⟨_, hword, _⟩ c hc => hword c (List.mem_cons_of_mem _ hc), fun hword => ?_⟩
  refine ⟨rfl, ?_, fun heq => ?_, fun hmem => ?_⟩
  · intro c hc
    rcases List.mem_cons.mp hc with rfl | hc
    · decide
    · exact hword c hc
  · rw [heq] at hchars
    exact absurd (congrArg List.head? hchars) (by simp)
  · have hkeywords : ∀ w ∈ keywords, w.toList.head? ≠ some 'V' := by decide
    exact hkeywords _ hmem (by rw [hchars, List.head?_cons])

/-- A word with a capital is made of characters of an identifier unless its capital is split. -/
theorem isWord_upperFirst_iff {w : List Char} (hw : ∀ c ∈ w, isAlphanumeric c = true) :
    IsWord (upperFirst w) ↔ ∀ c ∈ w.head?, c.toNat ∉ splitCapitals := by
  have hword : IsWord w := fun c hc => by rw [isIdentChar, hw c hc, Bool.or_true]
  cases w with
  | nil => exact iff_of_true hword fun c hc => by cases hc
  | cons c rest =>
    have hrest : IsWord rest := fun d hd => hword d (List.mem_cons_of_mem _ hd)
    rw [upperFirst, isWord_append_iff, isWord_upperChar_iff (hword c (List.mem_cons_self ..))]
    simp [hrest]

theorem isIdentifier_variantIdent_iff (value : String) :
    isIdentifier (variantIdent value) = true ↔
      ((value.toList.find? isAlphanumeric).any Text.isNumeric = true →
        ∀ w ∈ words value, ∀ c ∈ w.head?, c.toNat ∉ splitCapitals) := by
  by_cases hwords : words value = []
  · refine iff_of_true ?_ fun _ w hw => ?_
    · rw [variantIdent, pascalCase, hwords]
      decide
    · rw [hwords] at hw
      cases hw
  · obtain ⟨c, rest, ws, hws⟩ := exists_words_cons hwords
    obtain ⟨d, ds, hupper, -, hnumber⟩ :=
      Text.upper_keepsKind.head (isAlphanumeric_words_cons hws)
    have hpascal : (pascalCase value).toList = d :: (ds ++ (rest ++ ws.flatMap upperFirst)) := by
      rw [pascalCase, String.toList_ofList, hws, List.flatMap_cons, upperFirst]
      change Text.recased _ _ c ++ rest ++ _ = _
      rw [hupper]
      simp
    rw [find?_of_words hws, Option.any_some, ← hnumber]
    unfold variantIdent
    dsimp only
    rw [hpascal]
    dsimp only
    -- The text is mended unless it starts with a number.
    cases hd : Text.isNumeric d with
    | false =>
      refine iff_of_true ?_ fun h => by cases h
      rw [if_neg Bool.false_ne_true]
      exact isIdentifier_sanitize (by decide) (by decide) _
    | true =>
      rw [if_pos rfl, isIdentifier_capitalV_iff, pascalCase, String.toList_ofList,
        isWord_flatMap_iff, forall_prop_of_true rfl]
      exact forall₂_congr fun w hw => isWord_upperFirst_iff (words_alphanumeric hw).2

/-- The names of parsing functions are identifiers. The name of the constant that holds a schema is
one exactly if the first letter or number of the type's name is a letter and no letter of it has a
split capital; the name of a variant, unless its text has a number first and a word that starts
with a letter whose capital is split. -/
theorem derived_names_identifiers_iff (canonical value : String) :
    isIdentifier (parseFunction canonical) = true ∧
    (isIdentifier (schemaConstant canonical) = true ↔
      (canonical.toList.find? isAlphanumeric).all Text.isAlphabetic = true ∧
        ∀ c ∈ canonical.toList, c.toNat ∉ splitCapitals) ∧
    (isIdentifier (variantIdent value) = true ↔
      ((value.toList.find? isAlphanumeric).any Text.isNumeric = true →
        ∀ w ∈ words value, ∀ c ∈ w.head?, c.toNat ∉ splitCapitals)) :=
  ⟨isIdentifier_parseFunction canonical, isIdentifier_schemaConstant_iff canonical,
    isIdentifier_variantIdent_iff value⟩

/-- The constant of a schema whose file name starts with a number is no identifier. -/
theorem derived_names_guardless :
    isIdentifier (schemaConstant (canonicalName "2user-profile.schema.json")) = false ∧
      isIdentifier (variantIdent "2 \u0390") = false := by decide +kernel

end SchemaBindings.Code
