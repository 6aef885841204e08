import SchemaBindings.BundledParser
import SchemaBindings.Proofs.IdentifierCharacters
import SchemaBindings.Proofs.WrittenLines

/-! # The rows of the parser modules

Both parser modules are one constant, the schema, between rows that start no
constant. A row at the margin may bring a name into scope: it imports names, or
declares a type. `Adds` says of two states of the writer which names the rows
between them bring, and is composed as the writer's operations are. Rows further
in and comments bring none. -/

namespace SchemaBindings

namespace Code

/-- What stands behind a text at the start of a row. -/
def behind? (head row : List Char) : Option (List Char) :=
  if head.isPrefixOf row then some (row.drop head.length) else none

/-- The words of letters, numbers and underscores. -/
def wordsOf (cs : List Char) : List (List Char) :=
  (Text.splitWhere (fun c => !isIdentChar c) cs).filter (!·.isEmpty)

/-- A name in scope, and the pieces of the path that it is imported from. A declared one has no
path. -/
structure ScopeEntry where
  path : List (List Char)
  name : List Char
deriving DecidableEq, Repr

/-- What an import brings: every word behind the last colon. -/
def importEntries (path : List Char) : List ScopeEntry :=
  let pieces := Text.splitWhere (· = ':') path
  (wordsOf (pieces.getLastD [])).map fun name => ⟨pieces.dropLast, name⟩

/-- How an import starts. -/
def useMark : List Char := ['u', 's', 'e', ' ']

/-- How a declaration starts that others may use. -/
def publicMark : List Char := ['p', 'u', 'b', ' ']

/-- The words that declare types, traits and modules. -/
def typeKeywords : List (List Char) := [
  ['s', 't', 'r', 'u', 'c', 't', ' '], ['e', 'n', 'u', 'm', ' '], ['u', 'n', 'i', 'o', 'n', ' '],
  ['t', 'r', 'a', 'i', 't', ' '], ['t', 'y', 'p', 'e', ' '], ['m', 'o', 'd', ' ']]

/-- The type that a row declares. -/
def declaredType? (row : List Char) : Option (List Char) :=
  let body := (behind? publicMark row).getD row
  (typeKeywords.findSome? fun word => behind? word body).map (List.takeWhile isIdentChar)

/-- The names of types, traits and modules, and all imported names, that a row brings. -/
def rowEntries (row : List Char) : List ScopeEntry :=
  match behind? useMark row with
  | some path => importEntries path
  | none => (declaredType? row).toList.map fun name => ⟨[], name⟩

/-- How the declaration of a constant starts. -/
def constantMark : List Char := ['p', 'u', 'b', ' ', 'c', 'o', 'n', 's', 't', ' ']

/-- How the declaration of a text constant starts. -/
def constantHead (name : String) : String := "pub const " ++ name ++ ": &str = "

/-- A line that starts no constant. -/
def PlainRow (row : List Char) : Prop := '\n' ∉ row ∧ behind? constantMark row = none

instance (row : List Char) : Decidable (PlainRow row) :=
  inferInstanceAs (Decidable (_ ∧ _))

theorem behind?_cons {c d : Char} (head row : List Char) (hne : c ≠ d) :
    behind? (d :: head) (c :: row) = none := by
  unfold behind?
  rw [List.isPrefixOf, beq_false_of_ne hne.symm, Bool.false_and]
  rfl

/-- The letters that a row starts with if it brings names or starts a constant. -/
def openers : List Char := ['u', 's', 'e', 't', 'm', 'p']

/-- A row that is empty or starts otherwise. -/
def Quiet (row : List Char) : Prop := ∀ c ∈ row.head?, c ∉ openers

theorem Quiet.behind? {row : List Char} (h : Quiet row) {d : Char} (hd : d ∈ openers)
    (head : List Char) : behind? (d :: head) row = none := by
  cases row with
  | nil => rfl
  | cons c row =>
    refine behind?_cons head row ?_
    rintro rfl
    exact h c rfl hd

theorem Quiet.rowEntries {row : List Char} (h : Quiet row) : rowEntries row = [] := by
  have huse : Code.behind? useMark row = none := h.behind? (by decide) _
  have hpub : Code.behind? publicMark row = none := h.behind? (by decide) _
  have hwords : (typeKeywords.findSome? fun word => Code.behind? word row) = none := by
    rw [List.findSome?_eq_none_iff]
    intro word hword
    simp only [typeKeywords, List.mem_cons, List.not_mem_nil, or_false] at hword
    rcases hword with rfl | rfl | rfl | rfl | rfl | rfl
    all_goals exact h.behind? (by decide) _
  unfold Code.rowEntries declaredType?
  simp only [huse, hpub, Option.getD_none, hwords, Option.map_none, Option.toList_none,
    List.map_nil]

theorem Quiet.plain {row : List Char} (h : Quiet row) (hfeed : '\n' ∉ row) : PlainRow row :=
  ⟨hfeed, h.behind? (by decide) _⟩

theorem quiet_indented {depth : Nat} (hdepth : depth ≠ 0) (cs : List Char) :
    Quiet (Writer.indented depth cs) := by
  intro c hc
  have hblank : c = ' ' := by
    unfold Writer.indented at hc
    split at hc
    · cases hc
    · obtain ⟨n, rfl⟩ := Nat.exists_eq_succ_of_ne_zero hdepth
      rw [Nat.mul_succ, Nat.add_succ, List.replicate_succ] at hc
      exact (Option.mem_some_iff.mp hc).symm
  subst hblank
  decide

theorem quiet_of_mem_docRows {depth : Nat} {text : String} {row : List Char}
    (h : row ∈ Writer.docRows depth text) : Quiet row := by
  obtain ⟨-, more, rfl⟩ := Writer.exists_of_mem_docRows h
  intro c hc
  cases depth with
  | zero =>
    have hslash : c = '/' := (Option.mem_some_iff.mp hc).symm
    subst hslash
    decide
  | succ n =>
    rw [Nat.mul_succ, Nat.add_succ, List.replicate_succ] at hc
    have hblank : c = ' ' := (Option.mem_some_iff.mp hc).symm
    subst hblank
    decide

end Code

namespace Code

/-- A row that starts no constant and brings nothing. -/
def StillRow (row : List Char) : Prop := PlainRow row ∧ rowEntries row = []

instance (row : List Char) : Decidable (StillRow row) :=
  inferInstanceAs (Decidable (_ ∧ _))

/-- Some texts spelled out. What is said of the characters is then seen without decoding a text. -/
def Spelled (rows : List (List Char)) (texts : List String) : Prop := texts = rows.map String.ofList

theorem Spelled.nil : Spelled [] [] := rfl

theorem Spelled.cons {row : List Char} {rows : List (List Char)} {texts : List String}
    (h : Spelled rows texts) : Spelled (row :: rows) (String.ofList row :: texts) :=
  congrArg (String.ofList row :: ·) h

/-- A text that is spelled out in two pieces. -/
theorem Spelled.cons_append {row more : List Char} {rows : List (List Char)} {texts : List String}
    (h : Spelled rows texts) :
    Spelled ((row ++ more) :: rows) ((String.ofList row ++ String.ofList more) :: texts) := by
  rw [← String.ofList_append]
  exact h.cons

end Code

namespace Code.Writer

/-- Between two states of the writer stand rows that start no constant and bring some names. -/
def Adds (entries : List ScopeEntry) (w w' : Writer) : Prop :=
  ∃ rows, w'.rows = w.rows ++ rows ∧ (∀ row ∈ rows, PlainRow row) ∧
    rows.flatMap rowEntries = entries

namespace Adds

variable {w u w' : Writer} {entries more : List ScopeEntry}

theorem refl (w : Writer) : Adds [] w w :=
  ⟨[], (List.append_nil _).symm, fun _ h => absurd h List.not_mem_nil, rfl⟩

theorem trans (h : Adds entries w u) (h' : Adds more u w') : Adds (entries ++ more) w w' := by
  obtain ⟨rows, hu, hplain, rfl⟩ := h
  obtain ⟨others, hw', hothers, rfl⟩ := h'
  refine ⟨rows ++ others, ?_, ?_, List.flatMap_append⟩
  · rw [hw', hu, List.append_assoc]
  · intro row hrow
    rcases List.mem_append.mp hrow with hrow | hrow
    · exact hplain row hrow
    · exact hothers row hrow

/-- What brings no names adds none. -/
theorem still (h : Adds entries w u) (h' : Adds [] u w') : Adds entries w w' :=
  List.append_nil entries ▸ h.trans h'

theorem skip (h : Adds [] w u) (h' : Adds entries u w') : Adds entries w w' := h.trans h'

theorem of_quiet {rows : List (List Char)} (hrows : w'.rows = w.rows ++ rows)
    (h : ∀ row ∈ rows, '\n' ∉ row ∧ Quiet row) : Adds [] w w' := by
  refine ⟨rows, hrows, fun row hrow => (h row hrow).2.plain (h row hrow).1, ?_⟩
  rw [List.flatMap_eq_nil_iff]
  exact fun row hrow => (h row hrow).2.rowEntries

theorem blank (w : Writer) : Adds [] w w.blank := by
  refine of_quiet (rows_blank w) fun row hrow => ?_
  rw [List.mem_singleton.mp hrow]
  exact ⟨List.not_mem_nil, fun c hc => by cases hc⟩

theorem doc (w : Writer) (text : String) : Adds [] w (w.doc text) :=
  of_quiet (rows_doc w text) fun _ hrow =>
    ⟨(exists_of_mem_docRows hrow).1, quiet_of_mem_docRows hrow⟩

/-- A row further in than the margin brings nothing. -/
theorem inner (hdepth : w.depth ≠ 0) (text : String) : Adds [] w (w.line text) := by
  refine of_quiet (rows_line w text) fun row hrow => ⟨not_mem_of_mem_rowsOf hrow, ?_⟩
  obtain ⟨piece, -, rfl⟩ := List.mem_map.mp hrow
  exact quiet_indented hdepth piece

theorem innerLines (hdepth : w.depth ≠ 0) (texts : List String) : Adds [] w (w.linesOf texts) := by
  refine of_quiet (rows_linesOf w texts) fun row hrow => ?_
  obtain ⟨text, -, hrow⟩ := List.mem_flatMap.mp hrow
  refine ⟨not_mem_of_mem_rowsOf hrow, ?_⟩
  obtain ⟨piece, -, rfl⟩ := List.mem_map.mp hrow
  exact quiet_indented hdepth piece

theorem innerClosing (hdepth : 1 < w.depth) (text : String) : Adds [] w (w.closing text) :=
  inner (w := { w with depth := w.depth - 1 }) (Nat.sub_ne_zero_of_lt hdepth) text

theorem innerOpening (hdepth : w.depth ≠ 0) (text : String) : Adds [] w (w.opening text) :=
  inner hdepth text

/-- Rows at the margin, one for each text. -/
theorem lines (hdepth : w.depth = 0) {texts : List String}
    (hplain : ∀ text ∈ texts, PlainRow text.toList)
    (hentries : (texts.flatMap fun text => rowEntries text.toList) = entries) :
    Adds entries w (w.linesOf texts) := by
  have hrows : texts.flatMap (rowsOf 0) = texts.map String.toList := by
    rw [List.map_eq_flatMap]
    refine List.flatMap_congr fun text htext => ?_
    rw [rowsOf_eq (hplain text htext).1, indented_zero]
  refine ⟨texts.map String.toList, ?_, ?_, ?_⟩
  · rw [rows_linesOf, hdepth, hrows]
  · intro row hrow
    obtain ⟨text, htext, rfl⟩ := List.mem_map.mp hrow
    exact hplain text htext
  · rw [List.flatMap_map, hentries]

theorem margin (hdepth : w.depth = 0) {text : String} (hplain : PlainRow text.toList)
    (hentries : rowEntries text.toList = entries) : Adds entries w (w.line text) := by
  have hall : ∀ t ∈ [text], PlainRow t.toList := by
    intro t ht
    rwa [List.mem_singleton.mp ht]
  refine lines hdepth hall ?_
  rw [List.flatMap_singleton, hentries]

theorem marginOpening (hdepth : w.depth = 0) {text : String} (hplain : PlainRow text.toList)
    (hentries : rowEntries text.toList = entries) : Adds entries w (w.opening text) :=
  margin hdepth hplain hentries

/-- A row that is spelled out. -/
theorem fixed (hdepth : w.depth = 0) {row : List Char} (hplain : PlainRow row)
    (hentries : rowEntries row = entries) : Adds entries w (w.line (String.ofList row)) := by
  refine margin hdepth ?_ ?_
  · rwa [String.toList_ofList]
  · rwa [String.toList_ofList]

theorem fixedOpening (hdepth : w.depth = 0) {row : List Char} (hplain : PlainRow row)
    (hentries : rowEntries row = entries) : Adds entries w (w.opening (String.ofList row)) :=
  fixed hdepth hplain hentries

/-- Rows that are spelled out. -/
theorem spelled (hdepth : w.depth = 0) {rows : List (List Char)} {texts : List String}
    (h : Spelled rows texts) (hplain : ∀ row ∈ rows, PlainRow row)
    (hentries : rows.flatMap rowEntries = entries) : Adds entries w (w.linesOf texts) := by
  rw [h]
  refine lines hdepth ?_ ?_
  · intro text htext
    obtain ⟨row, hrow, rfl⟩ := List.mem_map.mp htext
    rw [String.toList_ofList]
    exact hplain row hrow
  · simp only [List.flatMap_map, String.toList_ofList, hentries]

/-- Rows that are spelled out and bring nothing. -/
theorem still_spelled (hdepth : w.depth = 0) {rows : List (List Char)} {texts : List String}
    (h : Spelled rows texts) (hstill : ∀ row ∈ rows, StillRow row) :
    Adds [] w (w.linesOf texts) :=
  spelled hdepth h (fun row hrow => (hstill row hrow).1)
    (List.flatMap_eq_nil_iff.mpr fun row hrow => (hstill row hrow).2)

/-- The bracket that closes a block at the margin. -/
theorem marginClosing (hdepth : w.depth = 1) : Adds [] w (w.closing "\x7d") :=
  fixed (w := { w with depth := w.depth - 1 }) (by rw [hdepth]) (by decide)
    (by decide)

end Adds

end Code.Writer

open Code (Writer ScopeEntry rowEntries PlainRow Quiet wordsOf importEntries)
open Code.Writer (Adds)

/-! ## What an import brings -/

namespace Code

theorem importEntries_last {path tail : List Char} (h : ':' ∉ tail) :
    importEntries (path ++ ':' :: tail) =
      (wordsOf tail).map fun name => ⟨Text.splitWhere (· = ':') path, name⟩ := by
  unfold importEntries
  rw [Text.splitWhere_append _ _ (by decide), Text.splitWhere_of_not_mem h]
  simp only [List.getLastD_concat, List.dropLast_concat]

theorem wordsOf_append (xs ys : List Char) {c : Char} (hc : isIdentChar c = false) :
    wordsOf (xs ++ c :: ys) = wordsOf xs ++ wordsOf ys := by
  unfold wordsOf
  rw [Text.splitWhere_append _ _ (by simp [hc]), List.filter_append]

theorem IsWord.wordsOf {cs : List Char} (h : IsWord cs) (hne : cs ≠ []) : wordsOf cs = [cs] := by
  unfold Code.wordsOf
  rw [Text.splitWhere_of_not fun c hc => by rw [h c hc]; rfl]
  simp [hne]

/-- A name that is imported from a path. -/
def importedFrom (path name : String) : ScopeEntry :=
  ⟨Text.splitWhere (· = ':') (path ++ ":").toList, name.toList⟩

theorem behind?_self (head rest : List Char) : behind? head (head ++ rest) = some rest := by
  unfold behind?
  rw [if_pos (List.isPrefixOf_iff_prefix.mpr (List.prefix_append _ _)), List.drop_left]

theorem rowEntries_use {path tail : String} (h : ':' ∉ tail.toList) :
    rowEntries ("use " ++ path ++ "::" ++ tail).toList =
      (wordsOf tail.toList).map fun name => importedFrom path (String.ofList name) := by
  have hrow : ("use " ++ path ++ "::" ++ tail).toList =
      useMark ++ ((path ++ ":").toList ++ ':' :: tail.toList) := by
    simp only [String.toList_append, List.append_assoc]
    rfl
  unfold rowEntries
  rw [hrow, behind?_self]
  simp only
  rw [importEntries_last h]
  refine List.map_congr_left fun name _ => ?_
  rw [importedFrom, String.toList_ofList]

/-- The import of one name. -/
theorem rowEntries_useOne (path : String) {name : String} (h : IsWord name.toList)
    (hne : name.toList ≠ []) :
    rowEntries ("use " ++ path ++ "::" ++ (name ++ ";")).toList = [importedFrom path name] := by
  have hcolon : ':' ∉ (name ++ ";").toList := by
    rw [String.toList_append, List.mem_append, not_or]
    exact ⟨h.not_mem (by decide), by decide⟩
  rw [rowEntries_use hcolon, String.toList_append, show ";".toList = ';' :: [] from rfl,
    wordsOf_append _ _ (by decide), h.wordsOf hne]
  simp [wordsOf, Text.splitWhere]

theorem wordsOf_intercalate {names : List String}
    (h : ∀ name ∈ names, IsWord name.toList ∧ name.toList ≠ []) :
    wordsOf (", ".intercalate names).toList = names.map String.toList := by
  have hblank (cs : List Char) : wordsOf (' ' :: cs) = wordsOf cs := wordsOf_append [] cs (by decide)
  rw [String.toList_intercalate, show ", ".toList = [',', ' '] from rfl]
  induction names with
  | nil => rfl
  | cons name names ih =>
    obtain ⟨hword, hne⟩ := h name (List.mem_cons_self ..)
    have hrest := ih fun n hn => h n (List.mem_cons_of_mem _ hn)
    cases names with
    | nil =>
      rw [List.map_singleton, List.intercalate_singleton]
      exact hword.wordsOf hne
    | cons second names =>
      rw [List.map_cons] at hrest
      rw [List.map_cons, List.map_cons, List.intercalate_cons_cons, List.append_assoc,
        List.cons_append, wordsOf_append _ _ (by decide), hword.wordsOf hne, List.singleton_append,
        List.singleton_append, hblank, hrest]

/-- The import of several names. -/
theorem rowEntries_useAll (path : String) {names : List String}
    (h : ∀ name ∈ names, IsWord name.toList ∧ name.toList ≠ []) :
    rowEntries ("use " ++ path ++ "::" ++ ("\x7b" ++ ", ".intercalate names ++ "\x7d;")).toList =
      names.map (importedFrom path) := by
  have hcolon : ':' ∉ ("\x7b" ++ ", ".intercalate names ++ "\x7d;").toList := by
    rw [String.toList_append, String.toList_append, List.mem_append, List.mem_append, not_or, not_or]
    refine ⟨⟨by decide, Text.not_mem_intercalate (by decide) fun name hname => ?_⟩, by decide⟩
    exact (h name hname).1.not_mem (by decide)
  have hwords : wordsOf ("\x7b" ++ ", ".intercalate names ++ "\x7d;").toList =
      names.map String.toList := by
    rw [String.toList_append, String.toList_append, show "\x7b".toList = [] ++ ['\x7b'] from rfl,
      show "\x7d;".toList = '\x7d' :: [';'] from rfl, wordsOf_append _ _ (by decide),
      List.append_assoc, List.singleton_append, wordsOf_append _ _ (by decide),
      wordsOf_intercalate h, show wordsOf [';'] = [] by decide, List.append_nil]
    rfl
  rw [rowEntries_use hcolon, hwords, List.map_map]
  refine List.map_congr_left fun name _ => ?_
  rw [Function.comp_apply, String.ofList_toList]

theorem typeIdent_ne_nil (name : String) : (typeIdent name).toList ≠ [] := by
  rw [toList_typeIdent]
  unfold mended
  split
  · decide
  · rename_i hblank
    have hne : guardStart (masked name) ≠ [] := by
      intro he
      cases hm : masked name with
      | nil =>
        rw [hm] at hblank
        exact hblank rfl
      | cons c cs =>
        rw [hm, guardStart_cons] at he
        split at he <;> cases he
    split
    · exact List.append_ne_nil_of_left_ne_nil hne _
    · exact hne

end Code

/-! ## The modules -/

section

open Code (importedFrom IsWord constantHead rawLiteral)

/-- Some code is one text constant between rows that start none and bring names before and after
it. -/
def IsConstantModule (w : Writer) (name value : String) (before after : List ScopeEntry) : Prop :=
  ∃ u, u.depth = 0 ∧ Adds before .empty u ∧
    Adds after (u.line (constantHead name ++ rawLiteral value ++ ";")) w

/-- The rows of code before a constant, and those behind it. -/
theorem rows_around_constant {u w : Writer} {name value : String} {before after : List ScopeEntry}
    (hdepth : u.depth = 0) (hu : Adds before .empty u)
    (hw : Adds after (u.line (constantHead name ++ rawLiteral value ++ ";")) w) :
    ∃ tail, w.rows = (u.line (constantHead name ++ rawLiteral value ++ ";")).rows ++ tail ∧
      w.text.toList = Writer.joined u.rows ++ ((constantHead name).toList ++
        ((rawLiteral value).toList ++ ';' :: '\n' :: Writer.joined tail)) ∧
      (∀ row ∈ u.rows, PlainRow row) ∧ u.rows.flatMap rowEntries = before ∧
      (∀ row ∈ tail, PlainRow row) ∧ tail.flatMap rowEntries = after := by
  obtain ⟨rows, hrows, hplain, hbefore⟩ := hu
  obtain ⟨tail, hw, htail, hafter⟩ := hw
  obtain rfl : u.rows = rows := hrows
  refine ⟨tail, hw, ?_, hplain, hbefore, htail, hafter⟩
  rw [Writer.toList_text, hw, Writer.rows_line, hdepth, Writer.joined_append,
    Writer.joined_append, Writer.joined_rowsOf]
  simp only [String.toList_append, List.append_assoc]
  rfl

/-- The text of such a module, row by row but for the literal. -/
theorem IsConstantModule.exists_rows {w : Writer} {name value : String}
    {before after : List ScopeEntry} (h : IsConstantModule w name value before after) :
    ∃ rows tail, w.text.toList = Writer.joined rows ++ ((constantHead name).toList ++
        ((rawLiteral value).toList ++ ';' :: '\n' :: Writer.joined tail)) ∧
      (∀ row ∈ rows, PlainRow row) ∧ rows.flatMap rowEntries = before ∧
      (∀ row ∈ tail, PlainRow row) ∧ tail.flatMap rowEntries = after := by
  obtain ⟨u, hdepth, hu, hw⟩ := h
  obtain ⟨tail, -, htext⟩ := rows_around_constant hdepth hu hw
  exact ⟨u.rows, tail, htext⟩

theorem Code.Writer.Adds.marked : Adds [] .empty Writer.marked :=
  (Adds.fixed rfl (by decide) (by decide)).still (Adds.blank _)

namespace ParserModule

/-- The imports that are the same in every module. -/
def fixedImports : List String := [
  "use std::sync::OnceLock;", "", "use serde_json::Value;", "",
  "use crate::parsing_types::\x7bparse_compiled, CompiledSchema, ParsingResult\x7d;"]

/-- What they bring. -/
def fixedEntries : List ScopeEntry := [
  importedFrom "std::sync" "OnceLock", importedFrom "serde_json" "Value",
  importedFrom "crate::parsing_types" "parse_compiled",
  importedFrom "crate::parsing_types" "CompiledSchema",
  importedFrom "crate::parsing_types" "ParsingResult"]

/-- The type itself. -/
def typeEntry (canonical : String) : ScopeEntry :=
  importedFrom ("crate::types::" ++ (Code.ModuleName.ofStem (moduleFileStem canonical)).ident)
    (Code.typeIdent canonical)

/-- The line that imports a type from its module. -/
theorem plain_typeImport {module name : String} (hmodule : IsWord module.toList)
    (hname : IsWord name.toList) (hne : name.toList ≠ []) :
    PlainRow ("use crate::types::" ++ module ++ "::" ++ name ++ ";").toList ∧
      rowEntries ("use crate::types::" ++ module ++ "::" ++ name ++ ";").toList =
        [importedFrom ("crate::types::" ++ module) name] := by
  have hfeed : Code.isIdentChar '\n' = false := by decide
  have htext : "use crate::types::" ++ module ++ "::" ++ name ++ ";" =
      "use " ++ ("crate::types::" ++ module) ++ "::" ++ (name ++ ";") := by
    rw [← String.toList_inj]
    simp only [String.toList_append, List.append_assoc]
    rfl
  refine ⟨⟨?_, ?_⟩, ?_⟩
  · simp only [String.toList_append, List.mem_append, not_or]
    exact ⟨⟨⟨⟨by decide, hmodule.not_mem hfeed⟩, by decide⟩, hname.not_mem hfeed⟩, by decide⟩
  · simp only [String.toList_append, List.append_assoc]
    exact Code.behind?_cons _ _ (by decide)
  · rw [htext, Code.rowEntries_useOne _ hname hne]

theorem brings_fixedImports : ∃ rows, Code.Spelled rows fixedImports ∧
    (∀ row ∈ rows, PlainRow row) ∧ rows.flatMap rowEntries = fixedEntries := by
  apply Exists.intro
  refine And.intro ?spelled (And.intro ?plain ?entries)
  case spelled =>
    unfold fixedImports
    repeat apply Code.Spelled.cons
    exact Code.Spelled.nil
  case plain => decide
  case entries => rfl

theorem adds_imports (canonical : String) :
    Adds (fixedEntries ++ [typeEntry canonical]) .empty (writeImports Writer.marked canonical) := by
  obtain ⟨hplain, hentries⟩ := plain_typeImport
    (IsWord.moduleIdent (moduleFileStem canonical)) (IsWord.typeIdent canonical)
    (Code.typeIdent_ne_nil canonical)
  obtain ⟨rows, hspelled, hfixed, hnames⟩ := brings_fixedImports
  have htexts (line : String) : Writer.marked.linesOf (fixedImports ++ [line, ""]) =
      ((Writer.marked.linesOf fixedImports).line line).line "" := by
    simp only [Writer.linesOf, List.foldl_append, List.foldl_cons, List.foldl_nil]
  have himports := (Adds.marked.trans (Adds.spelled Writer.depth_marked hspelled hfixed hnames)).trans
    (Adds.margin (by simp) hplain hentries)
  show Adds _ _ (Writer.marked.linesOf (fixedImports ++ [_, ""]))
  rw [htexts]
  exact himports.still (Adds.margin (by simp) (by decide) (by decide))

theorem adds_validator {w : Writer} (hdepth : w.depth = 0) (canonical : String) :
    Adds [] w (writeValidator w canonical) := by
  unfold writeValidator
  exact (Adds.fixedOpening hdepth (by decide) (by decide)).still <|
    (Adds.inner (by simp) _).still <| (Adds.innerOpening (by simp) _).still <|
    (Adds.innerLines (by simp) _).still <| (Adds.innerClosing (by simp) _).still <|
    (Adds.marginClosing (by simp [hdepth])).still <| Adds.blank _

/-- The head of a public function starts no constant and brings no type. -/
theorem plain_function {rest : List Char} (h : '\n' ∉ rest) :
    PlainRow ("pub fn ".toList ++ rest) ∧ rowEntries ("pub fn ".toList ++ rest) = [] := by
  refine ⟨⟨?_, rfl⟩, rfl⟩
  rw [List.mem_append, not_or]
  exact ⟨by decide, h⟩

theorem adds_parse {w : Writer} (hdepth : w.depth = 0) (canonical : String) :
    Adds [] w (writeParser w canonical) := by
  have hfeed : Code.isIdentChar '\n' = false := by decide
  have hrow : ("pub fn " ++ Code.parseFunction canonical ++ "(data: &Value) -> ParsingResult<" ++
      Code.typeIdent canonical ++ "> \x7b").toList = "pub fn ".toList ++
        ((Code.parseFunction canonical).toList ++ "(data: &Value) -> ParsingResult<".toList ++
          (Code.typeIdent canonical).toList ++ "> \x7b".toList) := by
    simp only [String.toList_append, List.append_assoc]
  have hrest : '\n' ∉ (Code.parseFunction canonical).toList ++
      "(data: &Value) -> ParsingResult<".toList ++ (Code.typeIdent canonical).toList ++
      "> \x7b".toList := by
    simp only [List.mem_append, not_or]
    exact ⟨⟨⟨(IsWord.parseFunction canonical).not_mem hfeed, by decide⟩,
      (IsWord.typeIdent canonical).not_mem hfeed⟩, by decide⟩
  obtain ⟨hplain, hentries⟩ := plain_function hrest
  rw [← hrow] at hplain hentries
  simp only [writeParser]
  exact (Adds.doc _ _).still <| (Adds.marginOpening (by simp [hdepth]) hplain hentries).still <|
    (Adds.inner (by simp) _).still <| Adds.marginClosing (by simp [hdepth])

theorem isConstantModule (canonical : String) (schema : Json) :
    ∃ w, (ofSchema canonical schema).text = w.text ∧
      IsConstantModule w (Code.schemaConstant canonical) schema.pretty
        (fixedEntries ++ [typeEntry canonical]) [] := by
  refine ⟨writeParser (writeValidator (writeConstant (writeImports Writer.marked canonical)
    canonical schema) canonical) canonical, by simp only [ofSchema], (writeImports Writer.marked
    canonical).doc ("JSON Schema of [`" ++ Code.typeIdent canonical ++
      "`] with every reference inlined."), ?_, ?_, ?_⟩
  · simp [writeImports]
  · exact (adds_imports canonical).still (Adds.doc _ _)
  · unfold writeConstant
    exact (Adds.blank _).still <| (adds_validator (by simp [writeImports]) canonical).still <|
      adds_parse (by simp [writeImports, writeValidator]) canonical

end ParserModule

namespace BundledParser

/-- The imports that are the same in every module. -/
def fixedImports : List String := [
  "use std::sync::OnceLock;", "", "use serde::de::DeserializeOwned;", "use serde_json::Value;", "",
  "use crate::parsing_types::\x7bparse_compiled, validate_compiled, CompiledSchema, " ++
    "ParsingError, ParsingResult\x7d;"]

/-- What they bring. -/
def fixedEntries : List ScopeEntry := [
  importedFrom "std::sync" "OnceLock", importedFrom "serde::de" "DeserializeOwned",
  importedFrom "serde_json" "Value", importedFrom "crate::parsing_types" "parse_compiled",
  importedFrom "crate::parsing_types" "validate_compiled",
  importedFrom "crate::parsing_types" "CompiledSchema",
  importedFrom "crate::parsing_types" "ParsingError",
  importedFrom "crate::parsing_types" "ParsingResult"]

/-- The types that can be parsed, as the module imports them. -/
def parsedNames (members : List KeyedMember) : List String :=
  (members.filter (·.parsed)).map (·.variant)

/-- What the module declares. -/
def declaredEntries : List ScopeEntry :=
  [⟨[], "TypeKey".toList⟩, ⟨[], "ParseAs".toList⟩, ⟨[], "ValidatorCache".toList⟩]

/-- The members of a bundle have words for keys. -/
theorem variants_ofMember (items : List Item) (members : List BundleMember) :
    ∀ m ∈ members.map (KeyedMember.ofMember items), IsWord m.variant.toList ∧
      m.variant.toList ≠ [] := by
  intro m hm
  obtain ⟨member, -, rfl⟩ := List.mem_map.mp hm
  simp only [KeyedMember.ofMember]
  exact ⟨IsWord.typeIdent member.canonicalName, Code.typeIdent_ne_nil member.canonicalName⟩

theorem adds_typeImport {w : Writer} (hdepth : w.depth = 0) {names : List String}
    (h : ∀ name ∈ names, IsWord name.toList ∧ name.toList ≠ []) :
    Adds (names.map (importedFrom "crate::types")) w (w.linesOf (typeImport names)) := by
  have hfeed : Code.isIdentChar '\n' = false := by decide
  have htext (tail : String) :
      "use crate::types::" ++ tail = "use " ++ "crate::types" ++ "::" ++ tail := rfl
  have hplain (tail : String) (htail : '\n' ∉ tail.toList) :
      PlainRow ("use crate::types::" ++ tail).toList := by
    rw [String.toList_append]
    refine ⟨?_, rfl⟩
    rw [List.mem_append, not_or]
    exact ⟨by decide, htail⟩
  unfold typeImport
  split
  · exact .refl w
  · rename_i name
    obtain ⟨hword, hne⟩ := h name (List.mem_cons_self ..)
    rw [String.append_assoc]
    refine .margin hdepth (hplain _ ?_) ?_
    · rw [String.toList_append, List.mem_append, not_or]
      exact ⟨hword.not_mem hfeed, by decide⟩
    · rw [htext, Code.rowEntries_useOne _ hword hne]
      rfl
  · have hbraces : "use crate::types::\x7b" ++ ", ".intercalate names ++ "\x7d;" =
        "use crate::types::" ++ ("\x7b" ++ ", ".intercalate names ++ "\x7d;") := by
      rw [← String.append_assoc, ← String.append_assoc]
      rfl
    rw [hbraces]
    refine .margin hdepth (hplain _ ?_) ?_
    · rw [String.toList_append, String.toList_append, List.mem_append, List.mem_append, not_or,
        not_or]
      exact ⟨⟨by decide, Text.not_mem_intercalate (by decide)
        fun n hn => (h n hn).1.not_mem hfeed⟩, by decide⟩
    · rw [htext, Code.rowEntries_useAll _ h]

theorem brings_fixedImports : ∃ rows, Code.Spelled rows fixedImports ∧
    (∀ row ∈ rows, PlainRow row) ∧ rows.flatMap rowEntries = fixedEntries := by
  apply Exists.intro
  refine And.intro ?spelled (And.intro ?plain ?entries)
  case spelled =>
    unfold fixedImports
    repeat apply Code.Spelled.cons
    exact Code.Spelled.nil.cons_append
  case plain => decide
  case entries => rfl

theorem adds_imports {members : List KeyedMember}
    (h : ∀ m ∈ members, IsWord m.variant.toList ∧ m.variant.toList ≠ []) :
    Adds (fixedEntries ++ (parsedNames members).map (importedFrom "crate::types")) .empty
      (writeImports Writer.marked members) := by
  obtain ⟨rows, hspelled, hfixed, hnames⟩ := brings_fixedImports
  have hparsed : ∀ name ∈ parsedNames members, IsWord name.toList ∧ name.toList ≠ [] := by
    intro name hname
    obtain ⟨m, hm, rfl⟩ := List.mem_map.mp hname
    exact h m (List.mem_of_mem_filter hm)
  simp only [writeImports]
  exact (Adds.marked.trans (Adds.spelled Writer.depth_marked hspelled hfixed hnames)).trans
    (adds_typeImport (by simp) hparsed) |>.still (Adds.blank _)

theorem adds_keyMatch {w : Writer} (hdepth : w.depth ≠ 0) (doc signature : String)
    (members : List KeyedMember) (value : KeyedMember → String) :
    Adds [] w (writeKeyMatch w doc signature members value) := by
  simp only [writeKeyMatch]
  exact (Adds.doc _ _).still <| (Adds.innerOpening (by simpa using hdepth) _).still <|
    (Adds.innerOpening (by simp) _).still <| (Adds.innerLines (by simp) _).still <|
    (Adds.innerClosing (by simp) _).still <| Adds.innerClosing (by simp; omega) _

@[simp] theorem depth_writeKeyMatch (w : Writer) (doc signature : String)
    (members : List KeyedMember) (value : KeyedMember → String) :
    (writeKeyMatch w doc signature members value).depth = w.depth := by
  simp [writeKeyMatch]

theorem adds_index {w : Writer} (hdepth : w.depth ≠ 0) (members : List KeyedMember) :
    Adds [] w (writeIndex w members) := by
  simp only [writeIndex]
  exact (Adds.innerOpening hdepth _).still <| (Adds.innerOpening (by simp) _).still <|
    (Adds.innerLines (by simp) _).still <| (Adds.innerClosing (by simp) _).still <|
    Adds.innerClosing (by simp; omega) _

@[simp] theorem depth_writeIndex (w : Writer) (members : List KeyedMember) :
    (writeIndex w members).depth = w.depth := by
  simp [writeIndex]

theorem adds_typeKey {w : Writer} (hdepth : w.depth = 0) (members : List KeyedMember) :
    Adds [⟨[], "TypeKey".toList⟩] w (writeTypeKey w members) := by
  simp only [writeTypeKey]
  exact (Adds.doc _ _).skip <|
    (Adds.fixed (by simp [hdepth]) (by decide) (by decide)).skip <|
    (Adds.fixedOpening (by simp [hdepth]) (by decide) (by decide)).still <|
    (Adds.innerLines (by simp) _).still <| (Adds.marginClosing (by simp [hdepth])).still <|
    (Adds.blank _).still <|
    (Adds.fixedOpening (by simp [hdepth]) (by decide) (by decide)).still <|
    (Adds.doc _ _).still <| (Adds.inner (by simp) _).still <| (Adds.blank _).still <|
    (adds_keyMatch (by simp) _ _ _ _).still <| (Adds.blank _).still <|
    (adds_keyMatch (by simp) _ _ _ _).still <| (Adds.blank _).still <|
    (adds_keyMatch (by simp) _ _ _ _).still <| (Adds.blank _).still <|
    (adds_index (by simp) _).still <| (Adds.marginClosing (by simp [hdepth])).still <|
    Adds.blank _

@[simp] theorem depth_writeTypeKey (w : Writer) (members : List KeyedMember) :
    (writeTypeKey w members).depth = w.depth := by
  simp [writeTypeKey]

theorem adds_parseAs {w : Writer} (hdepth : w.depth = 0) {members : List KeyedMember}
    (h : ∀ m ∈ members, IsWord m.variant.toList) :
    Adds [] w (members.foldl writeParseAs w) ∧ (members.foldl writeParseAs w).depth = 0 := by
  induction members generalizing w with
  | nil => exact ⟨.refl w, hdepth⟩
  | cons m members ih =>
    have hfeed : '\n' ∉ ("impl ParseAs for " ++ m.variant ++ " \x7b").toList := by
      simp only [String.toList_append, List.mem_append, not_or]
      exact ⟨⟨by decide, (h m (List.mem_cons_self ..)).not_mem (by decide)⟩, by decide⟩
    have hquiet : Quiet ("impl ParseAs for " ++ m.variant ++ " \x7b").toList := by
      rw [String.toList_append, String.toList_append, String.toList_ofList]
      intro c hc
      have hletter : c = 'i' := (Option.mem_some_iff.mp hc).symm
      subst hletter
      decide
    have hfirst : Adds [] w (writeParseAs w m) := by
      simp only [writeParseAs]
      exact (Adds.blank _).still <|
        (Adds.marginOpening (by simp [hdepth]) (hquiet.plain hfeed) hquiet.rowEntries).still <|
        (Adds.inner (by simp) _).still <| Adds.marginClosing (by simp [hdepth])
    have hzero : (writeParseAs w m).depth = 0 := by simp [writeParseAs, hdepth]
    obtain ⟨hrest, hend⟩ := ih hzero fun n hn => h n (List.mem_cons_of_mem _ hn)
    rw [List.foldl_cons]
    exact ⟨hfirst.still hrest, hend⟩

theorem adds_trait {w : Writer} (hdepth : w.depth = 0) {members : List KeyedMember}
    (h : ∀ m ∈ members, IsWord m.variant.toList) :
    Adds [⟨[], "ParseAs".toList⟩] w (writeTrait w members) ∧ (writeTrait w members).depth = 0 := by
  have hparsed : ∀ m ∈ members.filter (·.parsed), IsWord m.variant.toList := fun m hm =>
    h m (List.mem_of_mem_filter hm)
  simp only [writeTrait]
  obtain ⟨hadds, hend⟩ := adds_parseAs (w := ((((w.doc
    "Generated types that [`ValidatorCache::parse`] can produce.").opening
      "pub trait ParseAs: DeserializeOwned \x7b").doc "Key of the type's schema.").line
        "const KEY: TypeKey;").closing "\x7d") (by simp [hdepth]) hparsed
  refine ⟨?_, by rw [Writer.depth_blank, hend]⟩
  exact (Adds.doc _ _).skip <|
    (Adds.fixedOpening (by simp [hdepth]) (by decide) (by decide)).still <|
    (Adds.doc _ _).still <| (Adds.inner (by simp) _).still <|
    (Adds.marginClosing (by simp [hdepth])).still <| hadds.still <| Adds.blank _

theorem still_cacheMethods :
    ∃ rows, Code.Spelled rows cacheMethods ∧ ∀ row ∈ rows, Code.StillRow row := by
  apply Exists.intro
  refine And.intro ?spelled ?still
  case spelled =>
    unfold cacheMethods
    repeat apply Code.Spelled.cons
    exact Code.Spelled.nil
  case still => decide

theorem adds_cacheRecord {w : Writer} (hdepth : w.depth = 0) (doc field : String) :
    Adds [⟨[], "ValidatorCache".toList⟩] w
      ((((w.doc doc).opening "pub struct ValidatorCache \x7b").line field).closing "\x7d") :=
  (Adds.doc _ _).skip <|
    (Adds.fixedOpening (by simp [hdepth]) (by decide) (by decide)).still <|
    (Adds.inner (by simp) _).still <| Adds.marginClosing (by simp [hdepth])

theorem adds_cache {w : Writer} (hdepth : w.depth = 0) (size : Nat) :
    Adds [⟨[], "ValidatorCache".toList⟩] w (writeCache w size) := by
  obtain ⟨rows, hspelled, hstill⟩ := still_cacheMethods
  simp only [writeCache, -String.reduceAppend]
  have hend (doc field : String) : ((((w.doc doc).opening "pub struct ValidatorCache \x7b").line
      field).closing "\x7d").blank.depth = 0 := by simp [hdepth]
  exact (adds_cacheRecord hdepth _ _).still <| (Adds.blank _).still <|
    Adds.still_spelled (hend _ _) hspelled hstill

theorem constantHead_bundled :
    constantHead "BUNDLED_SCHEMA" = "pub const BUNDLED_SCHEMA: &str = " := by
  decide

theorem adds_constant (w : Writer) (document : Json) :
    Adds [] ((w.doc "Every schema of the package under `$defs`, keyed by file stem.").line
      (constantHead "BUNDLED_SCHEMA" ++ rawLiteral document.pretty ++ ";"))
      (writeConstant w document) := by
  rw [constantHead_bundled]
  exact Adds.blank _

theorem still_loaders :
    ∃ rows, Code.Spelled rows loaders ∧ ∀ row ∈ rows, Code.StillRow row := by
  apply Exists.intro
  refine And.intro ?spelled ?still
  case spelled =>
    unfold loaders
    repeat apply Code.Spelled.cons
    exact Code.Spelled.nil
  case still => decide

/-- Behind the constant the module declares its own types. -/
theorem adds_rest {w : Writer} (hdepth : w.depth = 0) {members : List KeyedMember}
    (h : ∀ m ∈ members, IsWord m.variant.toList) :
    Adds declaredEntries w (writeCache ((writeTrait (writeTypeKey w members) members).linesOf
      loaders).blank members.length) := by
  have hkeyDepth : (writeTypeKey w members).depth = 0 := by rw [depth_writeTypeKey, hdepth]
  obtain ⟨htrait, htraitDepth⟩ := adds_trait hkeyDepth h
  obtain ⟨rows, hspelled, hstill⟩ := still_loaders
  have hload := (Adds.still_spelled htraitDepth hspelled hstill).still (Adds.blank _)
  have hcache := adds_cache (w := ((writeTrait (writeTypeKey w members) members).linesOf
    loaders).blank) (by simp [htraitDepth]) members.length
  exact ((adds_typeKey hdepth members).trans htrait).trans (hload.skip hcache)

theorem text_eq (document : Json) (members : List KeyedMember) :
    text document members = (writeCache ((writeTrait (writeTypeKey (writeConstant
      (writeImports Writer.marked members) document) members) members).linesOf loaders).blank
      members.length).text := by
  simp only [text]

theorem isConstantModule (document : Json) {members : List KeyedMember}
    (h : ∀ m ∈ members, IsWord m.variant.toList ∧ m.variant.toList ≠ []) :
    ∃ w, text document members = w.text ∧
      IsConstantModule w "BUNDLED_SCHEMA" document.pretty
        (fixedEntries ++ (parsedNames members).map (importedFrom "crate::types"))
        declaredEntries := by
  have hdepth : (writeImports Writer.marked members).depth = 0 := by simp [writeImports]
  have hconstant : (writeConstant (writeImports Writer.marked members) document).depth = 0 := by
    simp [writeConstant, hdepth]
  refine ⟨_, text_eq document members, _, ?_, (adds_imports h).still (Adds.doc _ _),
    (adds_constant _ document).skip (adds_rest hconstant fun m hm => (h m hm).1)⟩
  rw [Writer.depth_doc, hdepth]

end BundledParser

end

end SchemaBindings
