import SchemaBindings.Proofs.EmittedNames

/-! # Where names are cut into words

The words of a name hold its letters and numbers in order. Two of them that
follow each other stand in different words exactly if something else is between
them or the case changes. A text that is in snake case has no capitals, so it
is cut at its underscores only and stays as it is. -/

namespace SchemaBindings.Code

/-- Which of some words holds the character at a place, counted through all words. -/
def wordAt : List (List Char) → (place : Nat) → Nat
  | [], _ => 0
  | w :: ws, place => if place < w.length then 0 else wordAt ws (place - w.length) + 1

/-! ## Places in words -/

theorem wordAt_append (ws vs : List (List Char)) (place : Nat) :
    wordAt (ws ++ vs) (ws.flatten.length + place) = ws.length + wordAt vs place := by
  induction ws with
  | nil => simp
  | cons w ws ih =>
    rw [List.cons_append, wordAt, List.flatten_cons, List.length_append, List.length_cons,
      if_neg (by omega), show w.length + ws.flatten.length + place - w.length =
        ws.flatten.length + place by omega, ih]
    omega

theorem wordAt_of_lt {w : List Char} {place : Nat} (h : place < w.length) (ws : List (List Char)) :
    wordAt (w :: ws) place = 0 := if_pos h

theorem wordAt_pos {w : List Char} {n : Nat} (h : w.length ≤ n) (ws : List (List Char)) :
    0 < wordAt (w :: ws) n := by
  rw [wordAt, if_neg (Nat.not_lt.mpr h)]
  exact Nat.succ_pos _

/-! ## The scan -/

/-- A word that is being read comes out with more characters behind it, or with none. -/
theorem wordsFrom_current {current : List Char} (hne : current ≠ []) (cs : List Char) :
    ∃ more ws, wordsFrom current cs = (current.reverse ++ more) :: ws := by
  induction cs generalizing current with
  | nil =>
    obtain ⟨c, rest, rfl⟩ := List.exists_cons_of_ne_nil hne
    exact ⟨[], [], by simp [wordsFrom]⟩
  | cons c rest ih =>
    obtain ⟨prev, before, rfl⟩ := List.exists_cons_of_ne_nil hne
    rw [wordsFrom]
    split
    · split
      · exact ⟨[], _, by rw [List.append_nil]⟩
      · obtain ⟨more, ws, heq⟩ := ih (List.cons_ne_nil c (prev :: before))
        exact ⟨c :: more, ws, by rw [heq, List.reverse_cons, List.append_assoc]; rfl⟩
    · exact ⟨[], _, by rw [List.append_nil]; rfl⟩

/-- One character of the scan: words may be done with, the letters are kept, and a letter is the last
one of the word that is being read next. -/
theorem wordsFrom_step (current : List Char) (c : Char) (rest : List Char) :
    ∃ done next, wordsFrom current (c :: rest) = done ++ wordsFrom next rest ∧
      done.flatten.length + next.length = current.length + [c].countP isAlphanumeric ∧
      (isAlphanumeric c = true → ∃ word, next = c :: word) := by
  by_cases hc : isAlphanumeric c = true
  · rw [List.countP_cons_of_pos hc]
    cases current with
    | nil =>
      rw [wordsFrom, if_pos hc]
      exact ⟨[], [c], rfl, rfl, fun _ => ⟨[], rfl⟩⟩
    | cons prev current =>
      rw [wordsFrom, if_pos hc]
      split
      · exact ⟨[(prev :: current).reverse], [c], rfl, by simp, fun _ => ⟨[], rfl⟩⟩
      · exact ⟨[], c :: prev :: current, rfl, by simp, fun _ => ⟨_, rfl⟩⟩
  · rw [List.countP_cons_of_neg hc]
    cases current with
    | nil =>
      rw [wordsFrom, if_neg hc]
      exact ⟨[], [], rfl, rfl, fun h => absurd h hc⟩
    | cons prev current =>
      rw [wordsFrom, if_neg hc]
      exact ⟨[(prev :: current).reverse], [], rfl, by simp, fun h => absurd h hc⟩

/-- When a part of a text has been read, its letters are in the words that are done and in the one
that is being read. -/
theorem wordsFrom_append (current before rest : List Char) :
    ∃ done next, wordsFrom current (before ++ rest) = done ++ wordsFrom next rest ∧
      done.flatten.length + next.length = current.length + before.countP isAlphanumeric := by
  induction before generalizing current with
  | nil => exact ⟨[], current, rfl, by simp⟩
  | cons c before ih =>
    obtain ⟨done, next, hstep, hlen, -⟩ := wordsFrom_step current c (before ++ rest)
    obtain ⟨more, last, hrun, hrest⟩ := ih next
    refine ⟨done ++ more, last, by rw [List.cons_append, hstep, hrun, List.append_assoc], ?_⟩
    rw [List.flatten_append, List.length_append, ← List.singleton_append, List.countP_append]
    omega

/-- When a letter has been read, it is the last one of the word that is being read, and the letters
before it are in that word and in those that are done. -/
theorem wordsFrom_reaches {a : Char} (ha : isAlphanumeric a = true) (before rest : List Char) :
    ∃ done word, wordsFrom [] (before ++ a :: rest) = done ++ wordsFrom (a :: word) rest ∧
      done.flatten.length + word.length = before.countP isAlphanumeric := by
  obtain ⟨done, next, hrun, hlen⟩ := wordsFrom_append [] before (a :: rest)
  obtain ⟨more, last, hstep, hletter, hlast⟩ := wordsFrom_step next a rest
  obtain ⟨word, rfl⟩ := hlast ha
  refine ⟨done ++ more, word, by rw [hrun, hstep, List.append_assoc], ?_⟩
  rw [List.countP_cons_of_pos ha, List.length_cons, List.countP_nil] at hletter
  rw [List.length_nil, Nat.zero_add] at hlen
  rw [List.flatten_append, List.length_append]
  omega

theorem startsWord_iff {a b : Char} {rest : List Char} : startsWord a b rest = true ↔
    Text.isUppercase b = true ∧ (Text.isLowercase a = true ∨ Text.isNumeric a = true ∨
      Text.isUppercase a = true ∧ ∃ c more, rest = c :: more ∧ Text.isLowercase c = true) := by
  unfold startsWord
  cases rest with
  | nil => simp
  | cons c more => simp [or_assoc]

/-- Of two letters that follow each other in the words, the second starts a word exactly if they were
apart or the case changes between them. -/
theorem wordsFrom_cut {a b : Char} (word : List Char) {gap : List Char} (rest : List Char)
    (hb : isAlphanumeric b = true) (hgap : ∀ c ∈ gap, isAlphanumeric c = false) :
    (gap ≠ [] ∨ startsWord a b rest = true) ∧
        (∃ ws, wordsFrom (a :: word) (gap ++ b :: rest) = (a :: word).reverse :: ws) ∨
      ¬ (gap ≠ [] ∨ startsWord a b rest = true) ∧
        ∃ more ws, wordsFrom (a :: word) (gap ++ b :: rest) =
          ((b :: a :: word).reverse ++ more) :: ws := by
  cases gap with
  | nil =>
    rw [List.nil_append, wordsFrom, if_pos hb]
    split
    · rename_i hstarts
      exact .inl ⟨.inr hstarts, _, rfl⟩
    · rename_i hstays
      refine .inr ⟨fun h => h.elim (fun hne => hne rfl) hstays, ?_⟩
      exact wordsFrom_current (List.cons_ne_nil b (a :: word)) rest
  | cons c gap =>
    have hc : ¬ isAlphanumeric c = true := by
      rw [hgap c (List.mem_cons_self ..)]
      exact Bool.false_ne_true
    refine .inl ⟨.inl (List.cons_ne_nil c gap), ?_⟩
    rw [List.cons_append, wordsFrom, if_neg hc]
    exact ⟨_, rfl⟩

/-- Two letters that follow each other stand in different words exactly if they were apart or the case
changes between them. -/
theorem wordAt_words_ne_iff {name : String} {before gap after : List Char} {a b : Char}
    (hname : name.toList = before ++ a :: (gap ++ b :: after)) (ha : isAlphanumeric a = true)
    (hb : isAlphanumeric b = true) (hgap : ∀ c ∈ gap, isAlphanumeric c = false) :
    wordAt (words name) (before.countP isAlphanumeric) ≠
        wordAt (words name) (before.countP isAlphanumeric + 1) ↔
      gap ≠ [] ∨ startsWord a b after = true := by
  obtain ⟨done, word, hwords, hlen⟩ := wordsFrom_reaches ha before (gap ++ b :: after)
  rw [words, hname, hwords, ← hlen, Nat.add_assoc, wordAt_append, wordAt_append, ne_eq,
    Nat.add_left_cancel_iff]
  rcases wordsFrom_cut (a := a) word after hb hgap with
    ⟨hcut, ws, heq⟩ | ⟨hwhole, more, ws, heq⟩
  · have hlast : word.length < (a :: word).reverse.length := by simp
    have hnext := wordAt_pos (w := (a :: word).reverse) (n := word.length + 1) (by simp) ws
    rw [heq, wordAt_of_lt hlast]
    exact iff_of_true (Nat.ne_of_lt hnext) hcut
  · have hlast : word.length < ((b :: a :: word).reverse ++ more).length := by
      rw [List.length_append, List.length_reverse, List.length_cons, List.length_cons]
      omega
    have hnext : word.length + 1 < ((b :: a :: word).reverse ++ more).length := by
      rw [List.length_append, List.length_reverse, List.length_cons, List.length_cons]
      omega
    rw [heq, wordAt_of_lt hlast, wordAt_of_lt hnext]
    exact iff_of_false (fun h => h rfl) hwhole

/-! ## Snake case again -/

/-- Letters and numbers without capitals go on with the word that is being read. -/
theorem wordsFrom_append_of_small {w : List Char} (hw : ∀ c ∈ w, isAlphanumeric c = true ∧
    Text.isUppercase c = false) {current : List Char} (hne : current ≠ []) (rest : List Char) :
    wordsFrom current (w ++ rest) = wordsFrom (w.reverse ++ current) rest := by
  induction w generalizing current with
  | nil => rfl
  | cons c w ih =>
    obtain ⟨halnum, hsmall⟩ := hw c (List.mem_cons_self ..)
    obtain ⟨prev, before, rfl⟩ := List.exists_cons_of_ne_nil hne
    have hstays : ¬ startsWord prev c (w ++ rest) = true := by simp [startsWord, hsmall]
    rw [List.cons_append, wordsFrom, if_pos halnum, if_neg hstays,
      ih (fun d hd => hw d (List.mem_cons_of_mem _ hd)) (List.cons_ne_nil c _), List.reverse_cons,
      List.append_assoc]
    rfl

/-- A word without capitals is read in one piece. -/
theorem wordsFrom_small {w : List Char} (hne : w ≠ []) (hw : ∀ c ∈ w, isAlphanumeric c = true ∧
    Text.isUppercase c = false) (rest : List Char) :
    wordsFrom [] (w ++ rest) = wordsFrom w.reverse rest := by
  obtain ⟨c, w, rfl⟩ := List.exists_cons_of_ne_nil hne
  rw [List.cons_append, wordsFrom, if_pos (hw c (List.mem_cons_self ..)).1,
    wordsFrom_append_of_small (fun d hd => hw d (List.mem_cons_of_mem _ hd))
    (List.cons_ne_nil c []), List.reverse_cons]

theorem wordsFrom_intercalate {ws : List (List Char)} (hne : ∀ w ∈ ws, w ≠ [])
    (hws : ∀ w ∈ ws, ∀ c ∈ w, isAlphanumeric c = true ∧ Text.isUppercase c = false) :
    wordsFrom [] (['_'].intercalate ws) = ws := by
  induction ws with
  | nil => rfl
  | cons w ws ih =>
    rw [List.forall_mem_cons] at hne hws
    have ih := ih hne.2 hws.2
    obtain ⟨last, front, hw⟩ := List.exists_cons_of_ne_nil (List.reverse_ne_nil_iff.mpr hne.1)
    have hback : (last :: front).reverse = w := by rw [← hw, List.reverse_reverse]
    cases ws with
    | nil =>
      have hread := wordsFrom_small hne.1 hws.1 []
      rw [List.append_nil] at hread
      rw [List.intercalate_singleton, hread, hw, wordsFrom, hback]
      rfl
    | cons v vs =>
      have hmark : ¬ isAlphanumeric '_' = true := fun h => ne_underscore h rfl
      rw [List.intercalate_cons_cons, List.append_assoc, wordsFrom_small hne.1 hws.1,
        List.singleton_append, hw, wordsFrom, if_neg hmark, hback, ih]
      rfl

theorem isAlphanum_of_small {c : Char} (hlt : c.toNat < 128) (h : isAlphanumeric c = true) :
    c.isAlphanum = true ∧ (Text.lowerChar c).all (fun d => !Text.isUppercase d) = true := by
  have hall : (List.range 128).all (fun n => !isAlphanumeric (Char.ofNat n) ||
      (Char.ofNat n).isAlphanum &&
        (Text.lowerChar (Char.ofNat n)).all fun d => !Text.isUppercase d) = true := rfl
  have hc := List.all_eq_true.mp hall c.toNat (List.mem_range.mpr hlt)
  rw [Char.ofNat_toNat, h, Bool.not_true, Bool.false_or] at hc
  exact Bool.and_eq_true_iff.mp hc

/-- A letter or number of one byte becomes one that is no capital and stays as it is. -/
theorem lowerChar_plain {c : Char} (h : c.isAlphanum = true) :
    ∃ d, Text.lowerChar c = [d] ∧ Text.lowerChar d = [d] ∧ d.isAlphanum = true ∧
      Text.isUppercase d = false := by
  obtain ⟨hletter, -, -, d, hd, halnum⟩ := plain_lower h
  have hsmall := (isAlphanum_of_small (Text.lt_of_isAlphanum h) hletter).2
  rw [hd] at hsmall
  exact ⟨d, hd, Text.lowerChar_of_mem_lowerChar (c := c) (by simp [hd]), halnum,
    by simpa using hsmall⟩

/-- The characters of a word in lower case. -/
theorem flatMap_lowerChar {w : List Char} (h : ∀ c ∈ w, c.isAlphanum = true) :
    (w ≠ [] → w.flatMap Text.lowerChar ≠ []) ∧
      (∀ d ∈ w.flatMap Text.lowerChar, d.isAlphanum = true ∧ Text.isUppercase d = false) ∧
      (w.flatMap Text.lowerChar).flatMap Text.lowerChar = w.flatMap Text.lowerChar := by
  induction w with
  | nil => simp
  | cons c w ih =>
    obtain ⟨hc, hw⟩ := List.forall_mem_cons.mp h
    obtain ⟨d, hd, hagain, halnum, hsmall⟩ := lowerChar_plain hc
    obtain ⟨-, hrest, hstays⟩ := ih hw
    rw [List.flatMap_cons, hd, List.singleton_append]
    refine ⟨fun _ => List.cons_ne_nil _ _, List.forall_mem_cons.mpr ⟨⟨halnum, hsmall⟩, hrest⟩, ?_⟩
    rw [List.flatMap_cons, hagain, hstays, List.singleton_append]

theorem toList_snakeCase {name : String} (h : ∀ w ∈ words name, ∀ c ∈ w, c.isAlphanum = true) :
    (snakeCase name).toList = ['_'].intercalate ((words name).map (·.flatMap Text.lowerChar)) := by
  unfold snakeCase
  rw [String.toList_intercalate, List.map_map]
  refine congrArg (List.intercalate ['_']) (List.map_congr_left fun w hw => ?_)
  rw [Function.comp_apply, Text.lower, String.toList_ofList, String.toList_ofList,
    lowerFrom_plain (h w hw)]

/-- A name whose words hold letters and numbers of one byte is put into snake case once. -/
theorem snakeCase_snakeCase {name : String}
    (h : ∀ w ∈ words name, ∀ c ∈ w, c.isAlphanum = true) :
    snakeCase (snakeCase name) = snakeCase name := by
  have hwords : words (snakeCase name) = (words name).map (·.flatMap Text.lowerChar) := by
    rw [words, toList_snakeCase h]
    refine wordsFrom_intercalate (fun v hv => ?_) fun v hv d hd => ?_
    · obtain ⟨w, hw, rfl⟩ := List.mem_map.mp hv
      exact (flatMap_lowerChar (h w hw)).1 (words_alphanumeric hw).1
    · obtain ⟨w, hw, rfl⟩ := List.mem_map.mp hv
      obtain ⟨halnum, hsmall⟩ := (flatMap_lowerChar (h w hw)).2.1 d hd
      exact ⟨(plain_lower halnum).1, hsmall⟩
  have hplain : ∀ v ∈ words (snakeCase name), ∀ c ∈ v, c.isAlphanum = true := by
    rw [hwords]
    intro v hv d hd
    obtain ⟨w, hw, rfl⟩ := List.mem_map.mp hv
    exact ((flatMap_lowerChar (h w hw)).2.1 d hd).1
  have hagain : ((words name).map (·.flatMap Text.lowerChar)).map (·.flatMap Text.lowerChar) =
      (words name).map (·.flatMap Text.lowerChar) := by
    rw [List.map_map]
    exact List.map_congr_left fun w hw => (flatMap_lowerChar (h w hw)).2.2
  rw [← String.toList_inj, toList_snakeCase hplain, hwords, hagain, toList_snakeCase h]

/-- The words of a name are its letters and numbers, in order and cut into pieces that are not empty.
Two letters with nothing but other characters between them stand in different words exactly if there
are such characters, or if the second is a capital and the first is small or a number, or is a capital
too and a small letter follows. So a name of one-byte characters is put into snake case once. -/
theorem words_partition (name : String) :
    (words name).flatten = name.toList.filter isAlphanumeric ∧
    (∀ w ∈ words name, w ≠ [] ∧ ∀ c ∈ w, isAlphanumeric c = true) ∧
    (∀ before a gap b after, name.toList = before ++ a :: (gap ++ b :: after) →
      isAlphanumeric a = true → isAlphanumeric b = true → (∀ c ∈ gap, isAlphanumeric c = false) →
      (wordAt (words name) (before.countP isAlphanumeric) ≠
          wordAt (words name) (before.countP isAlphanumeric + 1) ↔
        gap ≠ [] ∨ Text.isUppercase b = true ∧
          (Text.isLowercase a = true ∨ Text.isNumeric a = true ∨
            Text.isUppercase a = true ∧
              ∃ c more, after = c :: more ∧ Text.isLowercase c = true))) ∧
    ((∀ c ∈ name.toList, c.toNat < 128) → snakeCase (snakeCase name) = snakeCase name) := by
  refine ⟨words_flatten name, fun w hw => words_alphanumeric hw,
    fun before a gap b after hname ha hb hgap => ?_, fun hsmall => snakeCase_snakeCase ?_⟩
  · rw [wordAt_words_ne_iff hname ha hb hgap, startsWord_iff]
  · intro w hw c hc
    have hin : c ∈ name.toList.filter isAlphanumeric :=
      words_flatten name ▸ List.mem_flatten_of_mem hw hc
    obtain ⟨hmem, halnum⟩ := List.mem_filter.mp hin
    exact (isAlphanum_of_small (hsmall c hmem) halnum).1

/-- The last of several capitals starts a word if a small letter follows it. -/
theorem words_partition_capitals :
    wordAt (words "HTTPServer") 3 ≠ wordAt (words "HTTPServer") 4 ∧
      snakeCase (snakeCase "HTTPServer") = snakeCase "HTTPServer" := by
  obtain ⟨-, -, hcuts, hagain⟩ := words_partition "HTTPServer"
  have hsmall : "HTTPServer".toList.all (·.toNat < 128) = true := rfl
  simp only [List.all_eq_true, decide_eq_true_eq] at hsmall
  refine ⟨?_, hagain hsmall⟩
  exact (hcuts ['H', 'T', 'T'] 'P' [] 'S' "erver".toList rfl rfl rfl
    (fun _ h => absurd h List.not_mem_nil)).mpr
    (.inr ⟨rfl, .inr (.inr ⟨rfl, 'e', "rver".toList, rfl, rfl⟩)⟩)

/-- Of other characters, one may become a letter with a sign behind it, which is lost the second
time. -/
example : snakeCase "İd" = "i\u0307d" ∧ snakeCase "i\u0307d" = "i_d" := ⟨rfl, rfl⟩

end SchemaBindings.Code
