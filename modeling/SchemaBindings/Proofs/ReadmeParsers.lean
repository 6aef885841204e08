import SchemaBindings.Proofs.LoweringNames
import SchemaBindings.Proofs.ParserScopes
import SchemaBindings.Proofs.PlannedPaths

/-! # What readers are told beside what is implemented

The text for readers tells of every type how it is parsed, the module of a
bundle implements this for members whose types are items of their own. Both are
read line by line. The lines for readers name every type whatever it becomes, so
the two agree exactly if no member became a mere alias. -/

namespace SchemaBindings

namespace Code

/-- How a type starts to be made one that can be parsed. -/
def implMark : List Char :=
  ['i', 'm', 'p', 'l', ' ', 'P', 'a', 'r', 's', 'e', 'A', 's', ' ', 'f', 'o', 'r', ' ']

/-- The type that a row makes one that can be parsed. -/
def implemented? (row : List Char) : Option String :=
  (behind? implMark row).map fun body => String.ofList (body.takeWhile isIdentChar)

/-- The types that code makes ones that can be parsed. -/
def implementedTypes (code : String) : List String :=
  (codeRows code.toList).filterMap implemented?

/-- A row that starts otherwise makes no type one that can be parsed. -/
theorem implemented?_cons {c : Char} (row : List Char) (hc : c ≠ 'i') :
    implemented? (c :: row) = none := by
  rw [implemented?, implMark, behind?_cons _ _ hc]
  rfl

end Code

namespace Code.Writer

/-- Between two states of the writer stand rows that make some types ones that can be parsed. -/
def Implements (names : List String) (w w' : Writer) : Prop :=
  ∃ rows, w'.rows = w.rows ++ rows ∧ rows.filterMap implemented? = names

namespace Implements

variable {w u w' : Writer} {names names' : List String}

theorem refl (w : Writer) : Implements [] w w := ⟨[], (List.append_nil _).symm, rfl⟩

theorem trans (h : Implements names w u) (h' : Implements names' u w') :
    Implements (names ++ names') w w' := by
  obtain ⟨rows, hu, rfl⟩ := h
  obtain ⟨others, hw', rfl⟩ := h'
  refine ⟨rows ++ others, ?_, List.filterMap_append⟩
  rw [hw', hu, List.append_assoc]

theorem still (h : Implements names w u) (h' : Implements [] u w') : Implements names w w' :=
  List.append_nil names ▸ h.trans h'

theorem skip (h : Implements [] w u) (h' : Implements names u w') : Implements names w w' :=
  h.trans h'

theorem none {rows : List (List Char)} (hrows : w'.rows = w.rows ++ rows)
    (h : ∀ row ∈ rows, implemented? row = .none) : Implements [] w w' :=
  ⟨rows, hrows, List.filterMap_eq_nil_iff.mpr h⟩

theorem blank (w : Writer) : Implements [] w w.blank := by
  refine none (rows_blank w) fun row hrow => ?_
  rw [List.mem_singleton.mp hrow]
  rfl

theorem doc (w : Writer) (text : String) : Implements [] w (w.doc text) := by
  refine none (rows_doc w text) fun row hrow => ?_
  obtain ⟨-, more, rfl⟩ := exists_of_mem_docRows hrow
  cases 4 * w.depth with
  | zero => exact implemented?_cons _ (by decide)
  | succ n => exact implemented?_cons _ (by decide)

/-- A row further in than the margin. -/
theorem implemented?_indented {depth : Nat} (hdepth : depth ≠ 0) (cs : List Char) :
    implemented? (indented depth cs) = .none := by
  unfold indented
  split
  · rfl
  · obtain ⟨n, rfl⟩ := Nat.exists_eq_succ_of_ne_zero hdepth
    rw [Nat.mul_succ, Nat.add_succ, List.replicate_succ]
    exact implemented?_cons _ (by decide)

theorem innerLines (hdepth : w.depth ≠ 0) (texts : List String) :
    Implements [] w (w.linesOf texts) := by
  refine none (rows_linesOf w texts) fun row hrow => ?_
  obtain ⟨text, -, hrow⟩ := List.mem_flatMap.mp hrow
  obtain ⟨piece, -, rfl⟩ := List.mem_map.mp hrow
  exact implemented?_indented hdepth piece

theorem inner (hdepth : w.depth ≠ 0) (text : String) : Implements [] w (w.line text) :=
  innerLines hdepth [text]

theorem innerOpening (hdepth : w.depth ≠ 0) (text : String) : Implements [] w (w.opening text) :=
  inner hdepth text

theorem innerClosing (hdepth : 1 < w.depth) (text : String) : Implements [] w (w.closing text) :=
  inner (w := { w with depth := w.depth - 1 }) (Nat.sub_ne_zero_of_lt hdepth) text

/-- Rows at the margin, each of which is one line. -/
theorem lines (hdepth : w.depth = 0) {texts : List String} (h : ∀ text ∈ texts, '\n' ∉ text.toList) :
    Implements (texts.filterMap fun text => implemented? text.toList) w (w.linesOf texts) := by
  have hrows : texts.flatMap (rowsOf 0) = texts.map String.toList := by
    rw [List.map_eq_flatMap]
    refine List.flatMap_congr fun text htext => ?_
    rw [rowsOf_eq (h text htext), indented_zero]
  refine ⟨texts.map String.toList, ?_, List.filterMap_map⟩
  rw [rows_linesOf, hdepth, hrows]

/-- Rows at the margin that make no types ones that can be parsed. -/
theorem quietLines (hdepth : w.depth = 0) {texts : List String}
    (h : ∀ text ∈ texts, '\n' ∉ text.toList ∧ implemented? text.toList = .none) :
    Implements [] w (w.linesOf texts) := by
  have hlines := lines hdepth fun text htext => (h text htext).1
  rwa [List.filterMap_eq_nil_iff.mpr fun text htext => (h text htext).2] at hlines

/-- Rows that are spelled out. -/
theorem spelled (hdepth : w.depth = 0) {rows : List (List Char)} {texts : List String}
    (h : Spelled rows texts) (hquiet : ∀ row ∈ rows, '\n' ∉ row ∧ implemented? row = .none) :
    Implements [] w (w.linesOf texts) := by
  rw [h]
  refine quietLines hdepth fun text htext => ?_
  obtain ⟨row, hrow, rfl⟩ := List.mem_map.mp htext
  rw [String.toList_ofList]
  exact hquiet row hrow

theorem margin (hdepth : w.depth = 0) {text : String}
    (h : '\n' ∉ text.toList ∧ implemented? text.toList = .none) :
    Implements [] w (w.line text) := by
  have hline : Implements [] w (w.linesOf [text]) := quietLines hdepth fun t ht => by
    rwa [List.mem_singleton.mp ht]
  exact hline

theorem marginOpening (hdepth : w.depth = 0) {text : String}
    (h : '\n' ∉ text.toList ∧ implemented? text.toList = .none) :
    Implements [] w (w.opening text) := margin hdepth h

/-- The bracket that closes a block at the margin. -/
theorem marginClosing (hdepth : w.depth = 1) : Implements [] w (w.closing "\x7d") :=
  margin (w := { w with depth := w.depth - 1 }) (by rw [hdepth]) (by decide)

end Implements

end Code.Writer

open Code (Writer IsWord implemented? implementedTypes)
open Code.Writer (Implements)

namespace BundledParser

variable {w : Writer} {members : List KeyedMember}

theorem implements_typeImport (hdepth : w.depth = 0) {names : List String}
    (h : ∀ name ∈ names, IsWord name.toList) : Implements [] w (w.linesOf (typeImport names)) := by
  have hrow {tail : String} (htail : '\n' ∉ tail.toList) :
      '\n' ∉ ("use crate::types::" ++ tail).toList ∧
        implemented? ("use crate::types::" ++ tail).toList = none := by
    rw [String.toList_append, List.mem_append, not_or]
    exact ⟨⟨by decide, htail⟩, Code.implemented?_cons _ (by decide)⟩
  have hfeed {name : String} (hname : name ∈ names) : '\n' ∉ name.toList :=
    (h name hname).not_mem (by decide)
  refine .quietLines hdepth fun text htext => ?_
  unfold typeImport at htext
  split at htext
  · cases htext
  · rename_i name
    rw [List.mem_singleton.mp htext, String.append_assoc]
    refine hrow ?_
    rw [String.toList_append, List.mem_append, not_or]
    exact ⟨hfeed (List.mem_cons_self ..), by decide⟩
  · have hbraces : "use crate::types::\x7b" ++ ", ".intercalate names ++ "\x7d;" =
        "use crate::types::" ++ ("\x7b" ++ ", ".intercalate names ++ "\x7d;") := by
      rw [← String.append_assoc, ← String.append_assoc]
      rfl
    rw [List.mem_singleton.mp htext, hbraces]
    refine hrow ?_
    rw [String.toList_append, String.toList_append, List.mem_append, List.mem_append, not_or,
      not_or]
    exact ⟨⟨by decide, Text.not_mem_intercalate (by decide) fun _ => hfeed⟩, by decide⟩

theorem implements_marked : Implements [] .empty Writer.marked :=
  (Implements.margin rfl (by decide)).still (.blank _)

theorem quiet_fixedImports : ∃ rows, Code.Spelled rows fixedImports ∧
    ∀ row ∈ rows, '\n' ∉ row ∧ implemented? row = none := by
  apply Exists.intro
  refine And.intro ?spelled ?quiet
  case spelled =>
    unfold fixedImports
    repeat apply Code.Spelled.cons
    exact Code.Spelled.nil.cons_append
  case quiet => decide

theorem implements_imports (h : ∀ m ∈ members, IsWord m.variant.toList) :
    Implements [] .empty (writeImports Writer.marked members) := by
  obtain ⟨rows, hspelled, hquiet⟩ := quiet_fixedImports
  have hparsed : ∀ name ∈ parsedNames members, IsWord name.toList := by
    intro name hname
    obtain ⟨m, hm, rfl⟩ := List.mem_map.mp hname
    exact h m (List.mem_of_mem_filter hm)
  simp only [writeImports]
  exact ((implements_marked.still (.spelled Writer.depth_marked hspelled hquiet)).still
    (implements_typeImport (by simp) hparsed)).still (.blank _)

theorem implements_keyMatch (hdepth : w.depth ≠ 0) (doc signature : String)
    (members : List KeyedMember) (value : KeyedMember → String) :
    Implements [] w (writeKeyMatch w doc signature members value) := by
  simp only [writeKeyMatch]
  exact (Implements.doc _ _).still <| (Implements.innerOpening (by simpa using hdepth) _).still <|
    (Implements.innerOpening (by simp) _).still <| (Implements.innerLines (by simp) _).still <|
    (Implements.innerClosing (by simp) _).still <| Implements.innerClosing (by simp; omega) _

theorem implements_index (hdepth : w.depth ≠ 0) (members : List KeyedMember) :
    Implements [] w (writeIndex w members) := by
  simp only [writeIndex]
  exact (Implements.innerOpening hdepth _).still <| (Implements.innerOpening (by simp) _).still <|
    (Implements.innerLines (by simp) _).still <| (Implements.innerClosing (by simp) _).still <|
    Implements.innerClosing (by simp; omega) _

theorem implements_typeKey (hdepth : w.depth = 0) (members : List KeyedMember) :
    Implements [] w (writeTypeKey w members) := by
  simp only [writeTypeKey]
  exact (Implements.doc _ _).still <|
    (Implements.margin (by simp [hdepth]) (by decide +kernel)).still <|
    (Implements.marginOpening (by simp [hdepth]) (by decide)).still <|
    (Implements.innerLines (by simp) _).still <| (Implements.marginClosing (by simp [hdepth])).still <|
    (Implements.blank _).still <|
    (Implements.marginOpening (by simp [hdepth]) (by decide)).still <|
    (Implements.doc _ _).still <| (Implements.inner (by simp) _).still <| (Implements.blank _).still <|
    (implements_keyMatch (by simp) _ _ _ _).still <| (Implements.blank _).still <|
    (implements_keyMatch (by simp) _ _ _ _).still <| (Implements.blank _).still <|
    (implements_keyMatch (by simp) _ _ _ _).still <| (Implements.blank _).still <|
    (implements_index (by simp) _).still <| (Implements.marginClosing (by simp [hdepth])).still <|
    Implements.blank _

/-- A type is made one that can be parsed. -/
theorem implements_parseAs (hdepth : w.depth = 0) {m : KeyedMember} (h : IsWord m.variant.toList) :
    Implements [m.variant] w (writeParseAs w m) := by
  have hrow : ("impl ParseAs for " ++ m.variant ++ " \x7b").toList =
      Code.implMark ++ (m.variant.toList ++ ' ' :: ['\x7b']) := by
    simp [Code.implMark]
  have htake : (m.variant.toList ++ ' ' :: ['\x7b']).takeWhile Code.isIdentChar =
      m.variant.toList := by
    rw [List.takeWhile_append_of_pos h, List.takeWhile_cons_of_neg (by decide), List.append_nil]
  have hopening {w : Writer} (hdepth : w.depth = 0) : Implements [m.variant] w
      (w.opening ("impl ParseAs for " ++ m.variant ++ " \x7b")) := by
    refine ⟨_, Writer.rows_opening w _, ?_⟩
    rw [hdepth, Writer.rowsOf_eq, Writer.indented_zero, List.filterMap_cons, implemented?, hrow,
      Code.behind?_self, Option.map_some, htake, String.ofList_toList]
    · rfl
    · rw [hrow, List.mem_append, List.mem_append, not_or, not_or]
      exact ⟨by decide, h.not_mem (by decide), by decide⟩
  simp only [writeParseAs]
  exact (Implements.blank _).skip <| (hopening (by simp [hdepth])).still <|
    (Implements.inner (by simp) _).still <| Implements.marginClosing (by simp [hdepth])

theorem implements_parsed (hdepth : w.depth = 0) (h : ∀ m ∈ members, IsWord m.variant.toList) :
    Implements (members.map (·.variant)) w (members.foldl writeParseAs w) := by
  induction members generalizing w with
  | nil => exact .refl w
  | cons m members ih =>
    have hzero : (writeParseAs w m).depth = 0 := by simp [writeParseAs, hdepth]
    rw [List.foldl_cons, List.map_cons]
    exact (implements_parseAs hdepth (h m (List.mem_cons_self ..))).trans
      (ih hzero fun n hn => h n (List.mem_cons_of_mem _ hn))

theorem implements_trait (hdepth : w.depth = 0) (h : ∀ m ∈ members, IsWord m.variant.toList) :
    Implements (parsedNames members) w (writeTrait w members) := by
  have hparsed : ∀ m ∈ members.filter (·.parsed), IsWord m.variant.toList := fun m hm =>
    h m (List.mem_of_mem_filter hm)
  simp only [writeTrait]
  exact (Implements.doc _ _).skip <|
    (Implements.marginOpening (by simp [hdepth]) (by decide)).skip <|
    (Implements.doc _ _).skip <| (Implements.inner (by simp) _).skip <|
    (Implements.marginClosing (by simp [hdepth])).skip <|
    (implements_parsed (by simp [hdepth]) hparsed).still <| Implements.blank _

theorem quiet_cacheMethods : ∃ rows, Code.Spelled rows cacheMethods ∧
    ∀ row ∈ rows, '\n' ∉ row ∧ implemented? row = none := by
  apply Exists.intro
  refine And.intro ?spelled ?quiet
  case spelled =>
    unfold cacheMethods
    repeat apply Code.Spelled.cons
    exact Code.Spelled.nil
  case quiet => decide

theorem quiet_loaders : ∃ rows, Code.Spelled rows loaders ∧
    ∀ row ∈ rows, '\n' ∉ row ∧ implemented? row = none := by
  apply Exists.intro
  refine And.intro ?spelled ?quiet
  case spelled =>
    unfold loaders
    repeat apply Code.Spelled.cons
    exact Code.Spelled.nil
  case quiet => decide

theorem implements_cache (hdepth : w.depth = 0) (size : Nat) :
    Implements [] w (writeCache w size) := by
  obtain ⟨rows, hspelled, hquiet⟩ := quiet_cacheMethods
  simp only [writeCache, -String.reduceAppend]
  exact (Implements.doc _ _).still <|
    (Implements.marginOpening (by simp [hdepth]) (by decide)).still <|
    (Implements.inner (by simp) _).still <| (Implements.marginClosing (by simp [hdepth])).still <|
    (Implements.blank _).still <| Implements.spelled (by simp [hdepth]) hspelled hquiet

/-- Behind the constant the module makes the nominal members types that can be parsed. -/
theorem implements_rest (hdepth : w.depth = 0) (h : ∀ m ∈ members, IsWord m.variant.toList) :
    Implements (parsedNames members) w (writeCache ((writeTrait (writeTypeKey w members)
      members).linesOf loaders).blank members.length) := by
  have hkeyDepth : (writeTypeKey w members).depth = 0 := by rw [depth_writeTypeKey, hdepth]
  obtain ⟨rows, hspelled, hquiet⟩ := quiet_loaders
  have htraitDepth := (adds_trait hkeyDepth h).2
  exact (implements_typeKey hdepth members).skip <| (implements_trait hkeyDepth h).still <|
    (Implements.spelled htraitDepth hspelled hquiet).still <| (Implements.blank _).still <|
    implements_cache (by simp [htraitDepth]) members.length

/-- The module makes exactly the nominal members types that can be parsed. -/
theorem implementedTypes_text (document : Json)
    (h : ∀ m ∈ members, IsWord m.variant.toList ∧ m.variant.toList ≠ []) :
    implementedTypes (text document members) = parsedNames members := by
  have hwords : ∀ m ∈ members, IsWord m.variant.toList := fun m hm => (h m hm).1
  have himports : (writeImports Writer.marked members).depth = 0 := by simp [writeImports]
  have hconstant : (writeConstant (writeImports Writer.marked members) document).depth = 0 := by
    simp [writeConstant, himports]
  obtain ⟨tail, hrows, hcode, -⟩ := codeRows_around_constant
    (u := (writeImports Writer.marked members).doc
      "Every schema of the package under `$defs`, keyed by file stem.")
    (by rw [Writer.depth_doc, himports]) ((adds_imports h).still (.doc _ _))
    ((adds_constant _ document).skip (adds_rest hconstant hwords)) (by decide)
    (Json.return_not_mem_pretty document)
  obtain ⟨rows, hbefore, hnone⟩ := (implements_imports hwords).still
    (.doc (writeImports Writer.marked members)
      "Every schema of the package under `$defs`, keyed by file stem.")
  have hblank : Implements [] (((writeImports Writer.marked members).doc
      "Every schema of the package under `$defs`, keyed by file stem.").line
        (Code.constantHead "BUNDLED_SCHEMA" ++ Code.rawLiteral document.pretty ++ ";"))
      (writeConstant (writeImports Writer.marked members) document) := by
    rw [constantHead_bundled]
    exact Implements.blank _
  obtain ⟨others, hafter, hnames⟩ := hblank.skip (implements_rest hconstant hwords)
  obtain rfl := List.append_cancel_left (hrows.symm.trans hafter)
  have hend : implemented? [';'] = none := rfl
  unfold implementedTypes
  rw [text_eq, hcode, List.filterMap_append, hbefore, List.filterMap_append, hnone,
    List.filterMap_cons_none hend, hnames]
  rfl

end BundledParser

/-! ## What readers are told -/

namespace PackageFiles

/-- How a line of the table starts. -/
def tableMark : List Char := ['|', ' ', '`']

/-- How a line of the table ends, the last character first. -/
def tableEnd : List Char := ['|', ' ', '`']

/-- How the line starts that shows the use of a type. -/
def usageMark : List Char :=
  ['l', 'e', 't', ' ', 'r', 'e', 's', 'u', 'l', 't', ':', ' ',
    'P', 'a', 'r', 's', 'i', 'n', 'g', 'R', 'e', 's', 'u', 'l', 't', '<']

/-- How a call starts that parses by type. -/
def callMark : List Char := ['p', 'a', 'r', 's', 'e', ':', ':', '<']

/-- The type that a call parses. -/
def calledType? (call : List Char) : Option String :=
  (Code.behind? callMark call).map fun body => String.ofList (body.takeWhile (· ≠ '>'))

/-- The call in the last column of a line of the table. -/
def tableCall? (line : List Char) : Option (List Char) :=
  (Code.behind? tableMark line).bind fun _ =>
    (Code.behind? tableEnd line.reverse).map fun back => (back.takeWhile (· ≠ '`')).reverse

/-- The call in the line that shows the use of a type. -/
def usageCall? (line : List Char) : Option (List Char) :=
  (Code.behind? usageMark line).map fun body => (body.dropWhile (· ≠ '=')).drop 2

/-- The type that a line tells to parse. -/
def toldType? (line : String) : Option String :=
  ((tableCall? line.toList).or (usageCall? line.toList)).bind calledType?

/-- The types that lines tell to parse. -/
def toldTypes (lines : List String) : List String := lines.filterMap toldType?

theorem calledType?_call {name : String} (h : IsWord name.toList) (rest : List Char) :
    calledType? (callMark ++ (name.toList ++ '>' :: rest)) = some name := by
  have hkept : ∀ c ∈ name.toList, decide (c ≠ '>') = true := by
    intro c hc
    rw [decide_eq_true_iff]
    rintro rfl
    exact h.not_mem (by decide) hc
  unfold calledType?
  rw [Code.behind?_self, Option.map_some, List.takeWhile_append_of_pos hkept,
    List.takeWhile_cons_of_neg (by decide), List.append_nil, String.ofList_toList]

/-- How a type of a bundle is parsed. -/
theorem toList_parseCall (e : ManifestEntry) : (parseCall .bundled e).toList =
    callMark ++ (e.typeName.toList ++ '>' :: "(&value)".toList) := by
  have hcall : parseCall .bundled e = "parse::<" ++ e.typeName ++ ">(&value)" := rfl
  rw [hcall]
  simp [callMark]

theorem toldType?_tableLine {e : ManifestEntry} (h : IsWord e.typeName.toList) :
    toldType? (tableLine .bundled e) = some e.typeName := by
  have hline : (tableLine .bundled e).toList = tableMark ++ (e.typeName.toList ++
      "` | `".toList ++ e.canonicalName.toList ++ "` | ".toList ++ '`' ::
        ((parseCall .bundled e).toList ++ tableEnd.reverse)) := by
    unfold tableLine
    simp [tableMark, tableEnd]
  have hkept : ∀ c ∈ (parseCall .bundled e).toList.reverse, decide (c ≠ '`') = true := by
    intro c hc
    rw [List.mem_reverse, toList_parseCall, List.mem_append, List.mem_append, List.mem_cons] at hc
    rw [decide_eq_true_iff]
    rintro rfl
    rcases hc with hc | hc | hc | hc
    · revert hc
      decide
    · exact h.not_mem (by decide) hc
    · revert hc
      decide
    · revert hc
      decide
  have hcall : tableCall? (tableLine .bundled e).toList = some (parseCall .bundled e).toList := by
    unfold tableCall?
    rw [hline, Code.behind?_self, Option.bind_some]
    simp only [List.reverse_append, List.reverse_cons, List.reverse_reverse, List.append_assoc]
    rw [Code.behind?_self, Option.map_some, List.takeWhile_append_of_pos hkept]
    simp
  unfold toldType?
  rw [hcall, Option.some_or, Option.bind_some, toList_parseCall, calledType?_call h]

theorem toldTypes_append (xs ys : List String) :
    toldTypes (xs ++ ys) = toldTypes xs ++ toldTypes ys := List.filterMap_append

/-- A line that starts as neither kind of line does tells nothing. -/
theorem toldType?_cons {line : String} {c : Char} {cs : List Char} (hline : line.toList = c :: cs)
    (htable : c ≠ '|') (husage : c ≠ 'l') : toldType? line = none := by
  have husageMark : usageMark = 'l' :: usageMark.tail := rfl
  unfold toldType? tableCall? usageCall?
  rw [hline, tableMark, Code.behind?_cons _ _ htable, husageMark, Code.behind?_cons _ _ husage]
  simp only [Option.bind_none, Option.map_none, Option.or_none]

/-- The line that shows the use of a type. -/
def resultLine (e : ManifestEntry) : String :=
  "let result: ParsingResult<" ++ e.typeName ++ "> = " ++ parseCall .bundled e ++ ";"

theorem toldType?_resultLine {e : ManifestEntry} (h : IsWord e.typeName.toList) :
    toldType? (resultLine e) = some e.typeName := by
  have hline : (resultLine e).toList = usageMark ++ (e.typeName.toList ++ ['>', ' '] ++
      '=' :: ' ' :: ((parseCall .bundled e).toList ++ [';'])) := by
    unfold resultLine
    simp [usageMark]
  have hkept : ∀ c ∈ e.typeName.toList ++ ['>', ' '], decide (c ≠ '=') = true := by
    intro c hc
    rw [decide_eq_true_iff]
    rintro rfl
    rcases List.mem_append.mp hc with hc | hc
    · exact h.not_mem (by decide) hc
    · revert hc
      decide
  have hcall : usageCall? (resultLine e).toList = some ((parseCall .bundled e).toList ++ [';']) := by
    unfold usageCall?
    rw [hline, Code.behind?_self, Option.map_some, List.dropWhile_append_of_pos hkept,
      List.dropWhile_cons_of_neg (by decide)]
    rfl
  have htable : tableCall? (resultLine e).toList = none := by
    have hmark : usageMark = 'l' :: usageMark.tail := rfl
    unfold tableCall?
    rw [hline, tableMark, hmark, List.cons_append, Code.behind?_cons _ _ (by decide)]
    rfl
  unfold toldType?
  rw [htable, hcall, Option.none_or, Option.bind_some, toList_parseCall, List.append_assoc,
    List.append_assoc, List.cons_append, calledType?_call h]

/-- The lines behind the one that shows the use of a type. -/
def outcomeLines : List String := [
  "match result \x7b",
  "    ParsingResult::Success \x7b data \x7d => println!(\"\x7bdata:?\x7d\"),",
  "    ParsingResult::Failure \x7b errors \x7d => \x7b",
  "        for error in errors \x7b",
  "            eprintln!(\"\x7berror\x7d\");",
  "        \x7d",
  "    \x7d",
  "\x7d",
  "```"]

theorem usage_eq (name : String) (e : ManifestEntry) : ∃ library,
    usage name .bundled e = ["", "## Usage", "", "```rust,ignore"] ++
      (("use " ++ library ++ "::\x7b" ++ parseImports .bundled e ++ ", ParsingResult\x7d;") ::
        "" :: resultLine e :: outcomeLines) := ⟨_, rfl⟩

/-- The use of a type tells how it is parsed, and nothing else. -/
theorem toldTypes_usage (name : String) {e : ManifestEntry} (h : IsWord e.typeName.toList) :
    toldTypes (usage name .bundled e) = [e.typeName] := by
  have hbefore : toldTypes ["", "## Usage", "", "```rust,ignore"] = [] := by decide +kernel
  have hafter : toldTypes outcomeLines = [] := by decide +kernel
  have himport (library : String) : toldType? ("use " ++ library ++ "::\x7b" ++
      parseImports .bundled e ++ ", ParsingResult\x7d;") = none := by
    rw [String.append_assoc, String.append_assoc, String.append_assoc]
    exact toldType?_cons String.toList_append (by decide) (by decide)
  have hblank : toldType? "" = none := rfl
  obtain ⟨library, hlines⟩ := usage_eq name e
  rw [hlines, toldTypes_append, hbefore, List.nil_append, toldTypes,
    List.filterMap_cons_none (himport library), List.filterMap_cons_none hblank,
    List.filterMap_cons_some (toldType?_resultLine h)]
  exact congrArg _ hafter

/-- Of every type the lines tell how it is parsed, and of the first one twice. -/
theorem toldTypes_typeLines (name : String) {entries : List ManifestEntry}
    (h : ∀ e ∈ entries, IsWord e.typeName.toList) :
    toldTypes (typeLines name .bundled entries) =
      entries.map (·.typeName) ++ (entries.head?.map (·.typeName)).toList := by
  cases entries with
  | nil =>
    change toldTypes ["No schemas were found."] = []
    decide +kernel
  | cons e rest =>
    have hhead : toldTypes ["| Type | Schema | Parse with |", "|---|---|---|"] = [] := by
      decide +kernel
    have htable : toldTypes ((e :: rest).map (tableLine .bundled)) =
        (e :: rest).map (·.typeName) := by
      unfold toldTypes
      rw [List.filterMap_map, ← List.filterMap_eq_map]
      exact List.filterMap_congr fun x hx => toldType?_tableLine (h x hx)
    unfold typeLines
    rw [toldTypes_append, toldTypes_append, hhead, htable, List.nil_append,
      toldTypes_usage name (h e (List.mem_cons_self ..))]
    rfl

end PackageFiles

open PackageFiles (toldTypes typeLines)

/-! ## Plans for bundles -/

theorem isNominal_iff {items : List Item} {name : String} :
    BundledParser.isNominal items name = true ↔
      ∃ x ∈ items, x.name = name ∧ x.isAlias = false := by
  simp [BundledParser.isNominal]

/-- What a plan for a bundle is made of. -/
theorem files_of_bundledPlan {judge : SchemaJudge} {t : FileTree} {o : GenerateOptions} {plan : Plan}
    (hlayout : o.layout = .bundled) (h : Plan.withJudge judge t o = .ok plan) :
    ∃ documents types b items parser, loadSchemas t o.schemasDir o.exclude = .ok documents ∧
      typesOfDocuments documents = .ok types ∧ Bundle.ofDocuments t documents = .ok b ∧
      lowerBundle b = some items ∧
      plan.typeNames = (types.canonicalNames.map ManifestEntry.ofCanonical).map (·.typeName) ∧
      PackageFiles.readme o.packageName .bundled
        (types.canonicalNames.map ManifestEntry.ofCanonical) ∈ plan.artifacts ∧
      parser ∈ plan.artifacts ∧ parser.path = PackageLayout.bundledParsers ∧
      parser.text = BundledParser.text b.document
        (b.members.map (BundledParser.KeyedMember.ofMember items)) := by
  unfold Plan.withJudge Plan.ofSource at h
  obtain ⟨documents, hload, h⟩ := bind_eq_ok.mp h
  obtain ⟨types, htypes, h⟩ := bind_eq_ok.mp h
  obtain ⟨files, hfiles, h⟩ := bind_eq_ok.mp h
  rw [hlayout] at hfiles h
  cases h
  obtain ⟨b, hb, hfiles⟩ := bind_eq_ok.mp hfiles
  split at hfiles
  · cases hfiles
  · obtain ⟨module, -, hfiles⟩ := bind_eq_ok.mp hfiles
    obtain ⟨parsers, hparsers, hfiles⟩ := bind_eq_ok.mp hfiles
    cases hfiles
    obtain ⟨items, hitems, hmade⟩ := Option.map_eq_some_iff.mp (orEndless_eq_ok.mp hparsers)
    refine ⟨documents, types, b, items, parsers, hload, htypes, hb, hitems, rfl, ?_, ?_, ?_, ?_⟩
    · exact List.mem_append_right _ (List.mem_singleton_self _)
    · simp
    · rw [← hmade]
    · rw [← hmade]

/-- The types that the members of a bundle stand for are the types of the run. -/
theorem mem_typeNames_iff {t : FileTree} {documents : List SchemaDocument} {types : TypeSet}
    {b : Bundle} (htypes : typesOfDocuments documents = .ok types)
    (hb : Bundle.ofDocuments t documents = .ok b) (name : String) :
    name ∈ (types.canonicalNames.map ManifestEntry.ofCanonical).map (·.typeName) ↔
      ∃ m ∈ b.members, Code.typeIdent m.canonicalName = name := by
  obtain ⟨rfl, -⟩ := TypeSet.ofList_eq_ok.mp htypes
  obtain ⟨a, ha, rfl⟩ := Bundle.ofDocuments_eq_ok hb
  rw [Bundle.members_of_assemble ha]
  simp only [TypeSet.canonicalNames, List.map_map, List.mem_map, Function.comp_apply,
    List.mem_mergeSort, Bundle.sortDocuments, Lowering.typeName_ofCanonical,
    Lowering.canonicalName_ofFile, exists_exists_and_eq_and]

/-- The text for readers of a package that is planned as a bundle tells of every type that it is
parsed by type, and of the first one once more. The module of the parser implements this for the
members whose items are no aliases. -/
theorem told_of_bundledPlan {judge : SchemaJudge} {t : FileTree} {o : GenerateOptions} {plan : Plan}
    (hlayout : o.layout = .bundled) (h : Plan.withJudge judge t o = .ok plan) :
    ∃ documents b items entries parser, loadSchemas t o.schemasDir o.exclude = .ok documents ∧
      Bundle.ofDocuments t documents = .ok b ∧ lowerBundle b = some items ∧
      PackageFiles.readme o.packageName .bundled entries ∈ plan.artifacts ∧
      parser ∈ plan.artifacts ∧ parser.path = PackageLayout.bundledParsers ∧
      toldTypes (typeLines o.packageName .bundled entries) =
        plan.typeNames ++ plan.typeNames.head?.toList ∧
      implementedTypes parser.text = nominalNames items b ∧
      ∀ name, name ∈ toldTypes (typeLines o.packageName .bundled entries) ↔
        ∃ m ∈ b.members, Code.typeIdent m.canonicalName = name := by
  obtain ⟨documents, types, b, items, parser, hload, htypes, hb, hitems, hnames, hreadme, hparser,
    hpath, htext⟩ := files_of_bundledPlan hlayout h
  have htold : toldTypes (typeLines o.packageName .bundled
      (types.canonicalNames.map ManifestEntry.ofCanonical)) =
        plan.typeNames ++ plan.typeNames.head?.toList := by
    rw [PackageFiles.toldTypes_typeLines, hnames, ← List.head?_map]
    intro e he
    obtain ⟨canonical, -, rfl⟩ := List.mem_map.mp he
    rw [Lowering.typeName_ofCanonical]
    exact IsWord.typeIdent canonical
  have himplemented : implementedTypes parser.text = nominalNames items b := by
    rw [htext, BundledParser.implementedTypes_text _
      (BundledParser.variants_ofMember items b.members), parsedNames_ofMember]
  refine ⟨documents, b, items, _, parser, hload, hb, hitems, hreadme, hparser, hpath, htold,
    himplemented, fun name => ?_⟩
  rw [htold, List.mem_append, or_iff_left_of_imp, hnames, mem_typeNames_iff htypes hb]
  exact fun hfirst => List.mem_of_head? (Option.mem_toList.mp hfirst)

/-- A disk whose directory `s` holds one schema file. -/
def nameFolder (content : String) : FileTree where
  entries := [([.text "s"], .directory),
    ([.text "s", .text "name.schema.json"], .file (.text content))]
  workingPlace := []

/-- A run over the directory `s` that plans a bundle. -/
def bundledOptions : GenerateOptions := { plainOptions with layout := .bundled }

/-- A schema of objects. -/
def recordText : String := "\x7b\"properties\": \x7b\x7d\x7d"

/-- A schema of strings. -/
def stringText : String := "\x7b\"type\": \"string\"\x7d"

/-- The items that a run compiles for a bundle, and the members. -/
def bundledItems (t : FileTree) (o : GenerateOptions) : Option (List Item × List BundleMember) :=
  (loadSchemas t o.schemasDir o.exclude).toOption.bind fun documents =>
    (Bundle.ofDocuments t documents).toOption.bind fun b =>
      (lowerBundle b).map fun items => (items, b.members)

theorem bundledItems_eq {t : FileTree} {o : GenerateOptions} {documents : List SchemaDocument}
    {b : Bundle} {items : List Item} (hload : loadSchemas t o.schemasDir o.exclude = .ok documents)
    (hb : Bundle.ofDocuments t documents = .ok b) (hitems : lowerBundle b = some items) :
    bundledItems t o = some (items, b.members) := by
  rw [bundledItems, toOption_eq_some.mpr hload, Option.bind_some, toOption_eq_some.mpr hb,
    Option.bind_some, hitems, Option.map_some]

end SchemaBindings
