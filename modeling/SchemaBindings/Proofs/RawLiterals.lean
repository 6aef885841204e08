import SchemaBindings.PackageFiles
import SchemaBindings.Proofs.ParserRows

/-! # Schemas as raw literals

A raw literal is read up to the first quote that has as many hash signs behind
it as the literal has in front. The writer takes one hash sign more than the
longest run behind a quote of the text, so no quote of the text ends the
literal. JSON escapes carriage returns, and a text is written at depth zero as
it is; so the constants of the parsers hold the schemas character by
character. -/

namespace SchemaBindings

namespace Code

/-! ## Reading -/

/-- Reads hash signs. -/
def readHashes : Nat → List Char → Option (List Char)
  | 0, cs => some cs
  | n + 1, '#' :: cs => readHashes n cs
  | _ + 1, _ => none

/-- Reads a raw literal from behind its first quote: the text, and what follows. A carriage return
cannot stand in the text. -/
def readRawBody (hashes : Nat) : List Char → Option (List Char × List Char)
  | [] => none
  | c :: cs =>
    if c = '"' then
      match readHashes hashes cs with
      | some more => some ([], more)
      | none => (readRawBody hashes cs).map (Prod.map (c :: ·) id)
    else if c = '\r' then none
    else (readRawBody hashes cs).map (Prod.map (c :: ·) id)

/-- Reads a raw literal with any number of hash signs. That a compiler takes 255 of them at most is left
out. -/
def readRaw? : List Char → Option (List Char × List Char)
  | 'r' :: cs =>
    match cs.dropWhile (· = '#') with
    | '"' :: body => readRawBody (cs.takeWhile (· = '#')).length body
    | _ => none
  | _ => none

/-- What stands behind a text where a line starts with it for the first time. -/
def afterHead (head : List Char) : (atStart : Bool) → List Char → Option (List Char)
  | _, [] => none
  | atStart, c :: cs =>
    if atStart && head.isPrefixOf (c :: cs) then some ((c :: cs).drop head.length)
    else afterHead head (c = '\n') cs

/-- The text that a constant of some code holds as a raw literal, and what follows. -/
def embedded? (name code : String) : Option (List Char × List Char) :=
  (afterHead (constantHead name).toList true code.toList).bind readRaw?

/-! ## No quote of the text ends the literal -/

theorem readHashes_replicate (n : Nat) (more : List Char) :
    readHashes n (List.replicate n '#' ++ more) = some more := by
  induction n with
  | zero => rfl
  | succ n ih => exact ih

/-- Behind a quote of the text there are too few hash signs. `run` counts those that are read. -/
theorem readHashes_eq_none {cs more : List Char} {run n : Nat}
    (h : longestHashRun (some run) cs < run + n) : readHashes n (cs ++ '"' :: more) = none := by
  induction cs generalizing run n with
  | nil =>
    simp only [longestHashRun, Option.getD_some] at h
    cases n with
    | zero => omega
    | succ n => rfl
  | cons c cs ih =>
    rw [longestHashRun, Option.getD_some] at h
    cases n with
    | zero => omega
    | succ n =>
      by_cases hc : c = '#'
      · subst hc
        simp only [Char.reduceEq, if_false, if_true, Option.map_some] at h
        have hrest : longestHashRun (some (run + 1)) cs < run + 1 + n := by omega
        exact ih hrest
      · rw [List.cons_append, readHashes]
        intro _ he
        exact hc (List.cons.inj he).1

theorem readRawBody_eq {cs more : List Char} {run : Option Nat} {hashes : Nat}
    (hreturn : '\r' ∉ cs) (h : longestHashRun run cs < hashes) :
    readRawBody hashes (cs ++ '"' :: (List.replicate hashes '#' ++ more)) = some (cs, more) := by
  induction cs generalizing run with
  | nil =>
    rw [List.nil_append, readRawBody, if_pos rfl, readHashes_replicate]
  | cons c cs ih =>
    obtain ⟨hc, hcs⟩ := List.ne_and_not_mem_of_not_mem_cons hreturn
    rw [longestHashRun] at h
    rw [List.cons_append, readRawBody]
    split
    · rename_i hquote
      rw [if_pos hquote] at h
      have hrest : longestHashRun (some 0) cs < 0 + hashes := by omega
      rw [readHashes_eq_none hrest, ih hcs (Nat.zero_add hashes ▸ hrest)]
      rfl
    · rw [if_neg hc.symm, ih hcs (Nat.lt_of_le_of_lt (Nat.le_max_right ..) h)]
      rfl

/-- A raw literal is read as the text that it was made of. -/
theorem readRaw?_rawLiteral {text : String} (h : '\r' ∉ text.toList) (more : List Char) :
    readRaw? ((rawLiteral text).toList ++ more) = some (text.toList, more) := by
  have hhash : ∀ c ∈ List.replicate (hashCount text) '#', decide (c = '#') = true := by
    intro c hc
    rw [(List.mem_replicate.mp hc).2]
    rfl
  have hshape : (rawLiteral text).toList ++ more =
      'r' :: (List.replicate (hashCount text) '#' ++
        '"' :: (text.toList ++ '"' :: (List.replicate (hashCount text) '#' ++ more))) := by
    unfold rawLiteral
    simp
  rw [hshape, readRaw?, List.dropWhile_append_of_pos hhash, List.takeWhile_append_of_pos hhash]
  simp only [Char.reduceEq, decide_false, Bool.false_eq_true, not_false_eq_true,
    List.dropWhile_cons_of_neg, List.takeWhile_cons_of_neg, List.append_nil,
    List.length_replicate]
  exact readRawBody_eq h (Nat.lt_succ_self _)

/-! ## Where the constant stands -/

theorem isPrefixOf_append (head more : List Char) : head.isPrefixOf (head ++ more) = true :=
  List.isPrefixOf_iff_prefix.mpr (List.prefix_append head more)

theorem afterHead_self {head : List Char} (hne : head ≠ []) (more : List Char) :
    afterHead head true (head ++ more) = some more := by
  cases head with
  | nil => exact absurd rfl hne
  | cons c head =>
    rw [List.cons_append, afterHead, ← List.cons_append, isPrefixOf_append, Bool.and_true,
      if_pos rfl, List.drop_left]

/-- Within a line nothing is found. -/
theorem afterHead_line (head : List Char) {row : List Char} (hrow : '\n' ∉ row) (more : List Char) :
    afterHead head false (row ++ '\n' :: more) = afterHead head true more := by
  induction row with
  | nil => rfl
  | cons c row ih =>
    obtain ⟨hc, hrow⟩ := List.ne_and_not_mem_of_not_mem_cons hrow
    rw [List.cons_append, afterHead, Bool.false_and, if_neg Bool.false_ne_true,
      decide_eq_false hc.symm, ih hrow]

theorem prefix_of_prefix_line {head row tail : List Char} {c : Char} (hc : c ∉ head)
    (h : head <+: row ++ c :: tail) : head <+: row := by
  induction row generalizing head with
  | nil =>
    cases head with
    | nil => exact List.nil_prefix
    | cons d head =>
      obtain ⟨rfl, -⟩ := List.cons_prefix_cons.mp h
      exact absurd (List.mem_cons_self ..) hc
  | cons r row ih =>
    cases head with
    | nil => exact List.nil_prefix
    | cons d head =>
      obtain ⟨rfl, hrest⟩ := List.cons_prefix_cons.mp h
      exact List.cons_prefix_cons.mpr ⟨rfl, ih (fun hd => hc (List.mem_cons_of_mem _ hd)) hrest⟩

/-- What follows a row's line feed does not make it the start of a constant. -/
theorem PlainRow.not_head {row : List Char} (h : PlainRow row) (head tail : List Char) :
    (constantMark ++ head).isPrefixOf (row ++ '\n' :: tail) = false := by
  obtain ⟨-, hplain⟩ := h
  rw [Bool.eq_false_iff]
  intro hstarts
  have hmark := (List.prefix_append _ _).trans (List.isPrefixOf_iff_prefix.mp hstarts)
  have hstart := prefix_of_prefix_line (by decide) hmark
  unfold behind? at hplain
  rw [if_pos (List.isPrefixOf_iff_prefix.mpr hstart)] at hplain
  cases hplain

/-- Lines that start no constant are passed over. -/
theorem afterHead_joined (head : List Char) {rows : List (List Char)}
    (hrows : ∀ row ∈ rows, PlainRow row) (more : List Char) :
    afterHead (constantMark ++ head) true (Writer.joined rows ++ more) =
      afterHead (constantMark ++ head) true more := by
  induction rows with
  | nil => rfl
  | cons row rows ih =>
    have hplain := hrows row (List.mem_cons_self ..)
    have hrest := ih fun r hr => hrows r (List.mem_cons_of_mem _ hr)
    have hno := hplain.not_head head (Writer.joined rows ++ more)
    have hrow := hplain.1
    rw [Writer.joined_cons, List.append_assoc, List.cons_append]
    cases row with
    | nil =>
      rw [List.nil_append] at hno ⊢
      rw [afterHead, hno, Bool.and_false, if_neg Bool.false_ne_true]
      exact hrest
    | cons d row =>
      obtain ⟨hd, hrow⟩ := List.ne_and_not_mem_of_not_mem_cons hrow
      rw [List.cons_append] at hno ⊢
      rw [afterHead, hno, Bool.and_false, if_neg Bool.false_ne_true, decide_eq_false hd.symm,
        afterHead_line _ hrow]
      exact hrest

end Code

/-! ## JSON holds no carriage return -/

namespace Decimal

theorem return_not_mem_digits (n : Nat) : '\r' ∉ digits n := by
  intro h
  have hdigit := Nat.isDigit_of_mem_toDigits (by decide) (Nat.le_refl 10) h
  cases hdigit

theorem return_not_mem_shortest (x : Binary64) : '\r' ∉ (shortest x).digits := by
  have hhit : ∀ hit, '\r' ∉ (ofHit hit).digits := by
    rintro (_ | ⟨a, k⟩)
    · decide
    · intro h
      have hmem : '\r' ∈ ((digits a).reverse.dropWhile (· = '0')).reverse := h
      rw [List.mem_reverse] at hmem
      exact return_not_mem_digits a (List.mem_reverse.mp ((List.dropWhile_sublist _).subset hmem))
  unfold shortest
  exact hhit _

theorem return_not_mem_positional {s : Scientific} (h : '\r' ∉ s.digits) :
    '\r' ∉ positional s := by
  have hzeros (n : Nat) : '\r' ∉ List.replicate n '0' := by
    rw [List.mem_replicate]
    rintro ⟨-, he⟩
    cases he
  unfold positional
  split
  · simp only [List.mem_append, not_or]
    exact ⟨⟨by decide, hzeros _⟩, h⟩
  · simp only [List.mem_append, List.mem_cons, not_or]
    refine ⟨fun hmem => ?_, by decide, ?_⟩
    · rcases List.mem_append.mp (List.mem_of_mem_take hmem) with hmem | hmem
      · exact h hmem
      · exact hzeros _ hmem
    · split
      · decide
      · exact fun hmem => h (List.mem_of_mem_drop hmem)

theorem return_not_mem_scientific {style : Style} {s : Scientific}
    (hmark : '\r' ∉ style.mark.toList) (hplus : '\r' ∉ style.plus.toList) (h : '\r' ∉ s.digits) :
    '\r' ∉ scientific style s := by
  unfold scientific
  simp only [List.mem_append, not_or]
  refine ⟨⟨⟨⟨fun hmem => h (List.mem_of_mem_take hmem), ?_⟩, hmark⟩, ?_⟩, return_not_mem_digits _⟩
  · split
    · exact List.not_mem_nil
    · rw [List.mem_cons, not_or]
      exact ⟨by decide, fun hmem => h (List.mem_of_mem_drop hmem)⟩
  · split
    · decide
    · exact hplus

theorem return_not_mem_text {style : Style} (hmark : '\r' ∉ style.mark.toList)
    (hplus : '\r' ∉ style.plus.toList) (x : Binary64) : '\r' ∉ (text style x).toList := by
  have hmagnitude : '\r' ∉ (if x.mantissa = 0 then "0.0".toList
      else if style.leastPositional ≤ (shortest x).exponent ∧
          (shortest x).exponent ≤ style.greatestPositional then positional (shortest x)
        else scientific style (shortest x)) := by
    split
    · decide
    · split
      · exact return_not_mem_positional (return_not_mem_shortest x)
      · exact return_not_mem_scientific hmark hplus (return_not_mem_shortest x)
  unfold text
  rw [String.toList_ofList]
  split
  · rw [List.mem_cons, not_or]
    exact ⟨by decide, hmagnitude⟩
  · exact hmagnitude

end Decimal

namespace Json

theorem return_not_mem_append {a b : String} (ha : '\r' ∉ a.toList) (hb : '\r' ∉ b.toList) :
    '\r' ∉ (a ++ b).toList := by
  rw [String.toList_append, List.mem_append, not_or]
  exact ⟨ha, hb⟩

theorem return_not_mem_numberText (n : JsonNumber) : '\r' ∉ (numberText n).toList := by
  cases n with
  | integer n =>
    have hnat (n : Nat) : '\r' ∉ (Nat.repr n).toList := by
      rw [show Nat.repr n = toString n from rfl, Nat.toString_eq_ofList_toDigits,
        String.toList_ofList]
      exact Decimal.return_not_mem_digits n
    cases n with
    | ofNat n => exact hnat n
    | negSucc n => exact return_not_mem_append (by decide) (hnat (n + 1))
  | float x => exact Decimal.return_not_mem_text (by decide) (by decide) x

theorem return_not_mem_escapeChar (c : Char) : '\r' ∉ escapeChar c := by
  unfold escapeChar
  split
  · decide
  split
  · decide
  split
  · decide
  split
  · decide
  split
  · decide
  split
  · decide
  split
  · decide
  rename_i hreturn _
  split
  · rename_i hlow
    have hhigh : ∀ n < 16, '\r' ≠ hexDigit n := by decide
    have hfirst := hhigh (c.toNat / 16) (by omega)
    have hsecond := hhigh (c.toNat % 16) (by omega)
    simp only [List.mem_cons, Char.reduceEq, List.not_mem_nil, or_false, false_or, not_or]
    exact ⟨hfirst, hsecond⟩
  · rw [List.mem_singleton]
    exact fun he => hreturn he.symm

theorem return_not_mem_quote (s : String) : '\r' ∉ (quote s).toList := by
  unfold quote
  rw [String.toList_ofList]
  intro h
  rcases List.mem_append.mp h with h | h
  · rcases List.mem_cons.mp h with h | h
    · cases h
    · obtain ⟨c, -, hc⟩ := List.mem_flatMap.mp h
      exact return_not_mem_escapeChar c hc
  · revert h
    decide

theorem return_not_mem_newline (depth : Nat) : '\r' ∉ (newline depth).toList := by
  refine return_not_mem_append (by decide) ?_
  rw [String.toList_ofList, List.mem_replicate]
  rintro ⟨-, he⟩
  cases he

theorem return_not_mem_block (depth : Nat) {opening closing : String} {pieces : List String}
    (hopening : '\r' ∉ opening.toList) (hclosing : '\r' ∉ closing.toList)
    (h : ∀ piece ∈ pieces, '\r' ∉ piece.toList) :
    '\r' ∉ (block depth opening closing pieces).toList := by
  unfold block
  split
  · exact return_not_mem_append hopening hclosing
  · have hbetween := return_not_mem_append (a := ",") (by decide) (return_not_mem_newline (depth + 1))
    exact return_not_mem_append (return_not_mem_append (return_not_mem_append
      (return_not_mem_append hopening (return_not_mem_newline _))
      (Text.not_mem_intercalate hbetween h)) (return_not_mem_newline _)) hclosing

mutual
theorem return_not_mem_prettyAt (depth : Nat) (v : Json) : '\r' ∉ (prettyAt depth v).toList := by
  cases v with
  | null =>
    rw [prettyAt]
    decide
  | bool b =>
    rw [prettyAt]
    cases b <;> decide
  | number n =>
    rw [prettyAt]
    exact return_not_mem_numberText n
  | string s =>
    rw [prettyAt]
    exact return_not_mem_quote s
  | array xs =>
    rw [prettyAt]
    exact return_not_mem_block depth (by decide) (by decide) (return_not_mem_prettyItems (depth + 1) xs)
  | object ms =>
    rw [prettyAt]
    exact return_not_mem_block depth (by decide) (by decide)
      (return_not_mem_prettyMembers (depth + 1) ms)

theorem return_not_mem_prettyItems (depth : Nat) (xs : List Json) :
    ∀ piece ∈ prettyItems depth xs, '\r' ∉ piece.toList := by
  cases xs with
  | nil => exact fun piece h => absurd h List.not_mem_nil
  | cons x xs =>
    rw [prettyItems]
    intro piece h
    rcases List.mem_cons.mp h with rfl | h
    · exact return_not_mem_prettyAt depth x
    · exact return_not_mem_prettyItems depth xs piece h

theorem return_not_mem_prettyMembers (depth : Nat) (ms : List (String × Json)) :
    ∀ piece ∈ prettyMembers depth ms, '\r' ∉ piece.toList := by
  cases ms with
  | nil => exact fun piece h => absurd h List.not_mem_nil
  | cons m ms =>
    obtain ⟨k, v⟩ := m
    rw [prettyMembers]
    intro piece h
    rcases List.mem_cons.mp h with rfl | h
    · exact return_not_mem_append (return_not_mem_append (return_not_mem_quote k) (by decide))
        (return_not_mem_prettyAt depth v)
    · exact return_not_mem_prettyMembers depth ms piece h
end

theorem return_not_mem_pretty (v : Json) : '\r' ∉ v.pretty.toList := return_not_mem_prettyAt 0 v

end Json

/-! ## The constants of the parsers -/

section

open Code (Writer embedded? constantHead constantMark rawLiteral)

/-- In a module that is one constant the constant is found, and its literal is read. -/
theorem IsConstantModule.exists_embedded? {w : Writer} {name value : String}
    {before after : List Code.ScopeEntry} (h : IsConstantModule w name value before after)
    (hreturn : '\r' ∉ value.toList) :
    ∃ rest, embedded? name w.text = some (value.toList, ';' :: rest) := by
  obtain ⟨rows, tail, htext, hplain, -⟩ := h.exists_rows
  refine ⟨'\n' :: Writer.joined tail, ?_⟩
  have hhead : (constantHead name).toList = constantMark ++ (name.toList ++ ": &str = ".toList) := by
    unfold constantHead
    rw [String.toList_append, String.toList_append, List.append_assoc]
    rfl
  have hne : (constantHead name).toList ≠ [] := by
    rw [hhead]
    exact List.cons_ne_nil _ _
  have hfound : Code.afterHead (constantHead name).toList true w.text.toList =
      some ((rawLiteral value).toList ++ ';' :: '\n' :: Writer.joined tail) := by
    rw [htext]
    conv_lhs => rw [hhead]
    rw [Code.afterHead_joined _ hplain, ← hhead]
    exact Code.afterHead_self hne _
  unfold embedded?
  rw [hfound, Option.bind_some, Code.readRaw?_rawLiteral hreturn]

/-- Every parser holds its schema as it is printed: the raw literal behind the name of the schema's
constant is the pretty schema, and what follows is the end of the declaration. For a bundle this is
the file of the bundle but for the line feed at its end. -/
theorem parsers_embed_schemas :
    (∀ (canonical : String) (schema : Json), ∃ rest,
      embedded? (Code.schemaConstant canonical) (ParserModule.ofSchema canonical schema).text =
        some (schema.pretty.toList, ';' :: rest)) ∧
    ∀ (b : Bundle) (parsers : Artifact), BundledParser.ofBundle b = some parsers →
      ∃ literal rest, embedded? "BUNDLED_SCHEMA" parsers.text = some (literal, ';' :: rest) ∧
        literal ++ ['\n'] = (PackageFiles.bundledSchema b).text.toList := by
  constructor
  · intro canonical schema
    obtain ⟨w, htext, hmodule⟩ := ParserModule.isConstantModule canonical schema
    rw [htext]
    exact hmodule.exists_embedded? (Json.return_not_mem_pretty schema)
  · intro b parsers h
    obtain ⟨items, -, hparsers⟩ := Option.map_eq_some_iff.mp h
    obtain ⟨w, htext, hmodule⟩ := BundledParser.isConstantModule b.document
      (BundledParser.variants_ofMember items b.members)
    obtain ⟨rest, hread⟩ := hmodule.exists_embedded? (Json.return_not_mem_pretty b.document)
    refine ⟨b.document.pretty.toList, rest, ?_, ?_⟩
    · rw [← hparsers, htext, hread]
    · have hfile : (PackageFiles.bundledSchema b).text = b.document.pretty ++ "\n" := rfl
      rw [hfile, String.toList_append]
      rfl

/-- A bundle whose text has hash signs behind quotes. -/
def hashedBundle : Bundle where
  document := Bundle.documentOf [("note", .object [("description", .string "a \"#\"## sign")])]
  members := [BundleMember.ofFile "note.schema.json"]

theorem parsers_embed_schemas_hashed :
    ∃ parsers, BundledParser.ofBundle hashedBundle = some parsers ∧
      ∃ literal rest, embedded? "BUNDLED_SCHEMA" parsers.text = some (literal, ';' :: rest) ∧
        literal ++ ['\n'] = (PackageFiles.bundledSchema hashedBundle).text.toList := by
  have hsome : (BundledParser.ofBundle hashedBundle).isSome = true := by decide +kernel
  obtain ⟨parsers, h⟩ := Option.isSome_iff_exists.mp hsome
  exact ⟨parsers, h, parsers_embed_schemas.2 hashedBundle parsers h⟩

end

end SchemaBindings
