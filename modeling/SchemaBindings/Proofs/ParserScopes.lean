import SchemaBindings.Proofs.LoweringBoxes
import SchemaBindings.Proofs.RawLiterals
import SchemaBindings.Proofs.UsableIdentifiers
import SchemaBindings.ResultModule

/-! # The names in scope of a parser

A parser module is read row by row, its constant as one literal, for the types
and traits that it imports or declares. The names that the writer uses itself
are meant to be reserved, so that no generated type has one of them. Two of them
are not: the cell that holds a validator, and, in the module of a bundle, the
trait of the types that can be read. A generated type stands for itself alone
unless it has one of these names, or comes twice. -/

namespace SchemaBindings

namespace Code

/-! ## Reading a module -/

theorem length_readHashes {n : Nat} {cs more : List Char} (h : readHashes n cs = some more) :
    more.length ≤ cs.length := by
  fun_induction readHashes n cs with
  | case1 cs =>
    cases h
    exact Nat.le_refl _
  | case2 n cs ih => exact Nat.le_succ_of_le (ih h)
  | case3 => cases h

theorem length_readRawBody {hashes : Nat} {cs text more : List Char}
    (h : readRawBody hashes cs = some (text, more)) : more.length < cs.length := by
  induction cs generalizing text with
  | nil => cases h
  | cons c cs ih =>
    have hrest (hmap : (readRawBody hashes cs).map (Prod.map (c :: ·) id) = some (text, more)) :
        more.length < (c :: cs).length := by
      obtain ⟨⟨t, m⟩, hread, hp⟩ := Option.map_eq_some_iff.mp hmap
      cases hp
      exact Nat.lt_succ_of_lt (ih hread)
    rw [readRawBody] at h
    split at h
    · split at h
      · rename_i hhashes
        cases h
        exact Nat.lt_succ_of_le (length_readHashes hhashes)
      · exact hrest h
    · split at h
      · cases h
      · exact hrest h

theorem length_readRaw? {cs text more : List Char} (h : readRaw? cs = some (text, more)) :
    more.length < cs.length := by
  unfold readRaw? at h
  split at h
  · rename_i cs
    split at h
    · rename_i body hbody
      have hlength := (List.dropWhile_sublist (· = '#') (l := cs)).length_le
      rw [hbody] at hlength
      have hmore := length_readRawBody h
      simp only [List.length_cons] at hlength ⊢
      omega
    · cases h
  · cases h

/-- What follows the literal of a constant, if code starts with one. -/
def afterConstant? (code : List Char) : Option (List Char) :=
  (behind? constantMark code).bind fun body =>
    (readRaw? ((body.dropWhile (· ≠ '=')).drop 2)).map Prod.snd

theorem length_afterConstant? {code more : List Char} (h : afterConstant? code = some more) :
    more.length < code.length := by
  unfold afterConstant? behind? at h
  split at h
  · obtain ⟨⟨text, rest⟩, hread, rfl⟩ := Option.map_eq_some_iff.mp h
    have hlength := length_readRaw? hread
    have hdrop := (List.dropWhile_sublist (fun c : Char => decide (c ≠ '='))
      (l := code.drop constantMark.length)).length_le
    simp only [List.length_drop] at hlength hdrop
    change rest.length < code.length
    omega
  · cases h

/-- What code brings into scope, row by row; a literal is one token. -/
def scopeEntries (code : List Char) : List ScopeEntry :=
  match code with
  | [] => []
  | c :: cs =>
    match _ : afterConstant? (c :: cs) with
    | some more => scopeEntries more
    | none =>
      rowEntries ((c :: cs).takeWhile (· ≠ '\n')) ++
        scopeEntries (((c :: cs).dropWhile (· ≠ '\n')).drop 1)
termination_by code.length
decreasing_by
  · exact length_afterConstant? ‹_›
  · have hlength := (List.dropWhile_sublist (fun d : Char => decide (d ≠ '\n')) (l := c :: cs)).length_le
    simp only [List.length_drop, List.length_cons] at hlength ⊢
    omega

/-- The rows of code. A literal is one token and no row. -/
def codeRows (code : List Char) : List (List Char) :=
  match code with
  | [] => []
  | c :: cs =>
    match _ : afterConstant? (c :: cs) with
    | some more => codeRows more
    | none =>
      (c :: cs).takeWhile (· ≠ '\n') :: codeRows (((c :: cs).dropWhile (· ≠ '\n')).drop 1)
termination_by code.length
decreasing_by
  · exact length_afterConstant? ‹_›
  · have hlength := (List.dropWhile_sublist (fun d : Char => decide (d ≠ '\n')) (l := c :: cs)).length_le
    simp only [List.length_drop, List.length_cons] at hlength ⊢
    omega

theorem scopeEntries_eq_codeRows (code : List Char) :
    scopeEntries code = (codeRows code).flatMap rowEntries := by
  fun_induction scopeEntries code with
  | case1 =>
    rw [codeRows]
    rfl
  | case2 c cs more hmore ih =>
    rw [codeRows]
    split
    · rename_i rest hrest
      rw [hmore] at hrest
      rw [ih, Option.some.inj hrest]
    · rename_i hnone
      rw [hmore] at hnone
      cases hnone
  | case3 c cs hnone ih =>
    rw [codeRows]
    split
    · rename_i rest hrest
      rw [hnone] at hrest
      cases hrest
    · rw [List.flatMap_cons, ih]

theorem codeRows_constant {code more : List Char} (h : afterConstant? code = some more) :
    codeRows code = codeRows more := by
  cases code with
  | nil => cases h
  | cons c cs =>
    rw [codeRows]
    split
    · rename_i rest hrest
      rw [h] at hrest
      rw [Option.some.inj hrest]
    · rename_i hrest
      rw [h] at hrest
      cases hrest

/-- A row that starts no constant is read for itself. -/
theorem codeRows_row {row : List Char} (h : PlainRow row) (more : List Char) :
    codeRows (row ++ '\n' :: more) = row :: codeRows more := by
  have hnone : afterConstant? (row ++ '\n' :: more) = none := by
    have hno := h.not_head [] more
    rw [List.append_nil] at hno
    unfold afterConstant? behind?
    rw [hno, if_neg Bool.false_ne_true, Option.bind_none]
  have hkept : ∀ c ∈ row, decide (c ≠ '\n') = true := by
    intro c hc
    rw [decide_eq_true_iff]
    rintro rfl
    exact h.1 hc
  have htake : (row ++ '\n' :: more).takeWhile (· ≠ '\n') = row := by
    rw [List.takeWhile_append_of_pos hkept, List.takeWhile_cons_of_neg (by decide),
      List.append_nil]
  have hdrop : ((row ++ '\n' :: more).dropWhile (· ≠ '\n')).drop 1 = more := by
    rw [List.dropWhile_append_of_pos hkept, List.dropWhile_cons_of_neg (by decide), List.drop_one,
      List.tail_cons]
  obtain ⟨c, cs, hcode⟩ : ∃ c cs, row ++ '\n' :: more = c :: cs :=
    List.exists_cons_of_ne_nil (List.append_ne_nil_of_right_ne_nil _ (List.cons_ne_nil _ _))
  rw [hcode] at hnone htake hdrop ⊢
  rw [codeRows]
  split
  · rename_i rest hrest
    rw [hnone] at hrest
    cases hrest
  · rw [htake, hdrop]

theorem codeRows_joined {rows : List (List Char)} (h : ∀ row ∈ rows, PlainRow row)
    (more : List Char) : codeRows (Writer.joined rows ++ more) = rows ++ codeRows more := by
  induction rows with
  | nil => rfl
  | cons row rows ih =>
    rw [Writer.joined_cons, List.append_assoc, List.cons_append,
      codeRows_row (h row (List.mem_cons_self ..)),
      ih fun r hr => h r (List.mem_cons_of_mem _ hr), List.cons_append]

/-- What is left of the declaration of a constant is the sign at its end. -/
theorem codeRows_declaration {name value : String} (hname : '=' ∉ name.toList)
    (hreturn : '\r' ∉ value.toList) (more : List Char) :
    codeRows ((constantHead name).toList ++ ((rawLiteral value).toList ++ ';' :: '\n' :: more)) =
      [';'] :: codeRows more := by
  have hkept : ∀ c ∈ name.toList ++ ": &str ".toList, decide (c ≠ '=') = true := by
    intro c hc
    rw [decide_eq_true_iff]
    rintro rfl
    rcases List.mem_append.mp hc with hc | hc
    · exact hname hc
    · revert hc
      decide
  have hshape (rest : List Char) : (constantHead name).toList ++ rest =
      constantMark ++ (name.toList ++ ": &str ".toList ++ '=' :: ' ' :: rest) := by
    unfold constantHead
    simp only [String.toList_append, List.append_assoc]
    rfl
  have hafter : afterConstant? ((constantHead name).toList ++
      ((rawLiteral value).toList ++ ';' :: '\n' :: more)) = some (';' :: '\n' :: more) := by
    unfold afterConstant?
    rw [hshape, behind?_self, Option.bind_some, List.dropWhile_append_of_pos hkept,
      List.dropWhile_cons_of_neg (by decide)]
    change (readRaw? ((rawLiteral value).toList ++ ';' :: '\n' :: more)).map Prod.snd = _
    rw [readRaw?_rawLiteral hreturn, Option.map_some]
  have hend : PlainRow [';'] := by decide
  rw [codeRows_constant hafter]
  exact codeRows_row hend more

end Code

section

open Code (ScopeEntry scopeEntries importedFrom typeIdent reservedTypeNames)

/-- The rows of a module that is one constant are those around it. -/
theorem codeRows_around_constant {u w : Code.Writer} {name value : String}
    {before after : List ScopeEntry} (hdepth : u.depth = 0)
    (hu : Code.Writer.Adds before .empty u)
    (hw : Code.Writer.Adds after
      (u.line (Code.constantHead name ++ Code.rawLiteral value ++ ";")) w)
    (hname : '=' ∉ name.toList) (hreturn : '\r' ∉ value.toList) :
    ∃ tail, w.rows = (u.line (Code.constantHead name ++ Code.rawLiteral value ++ ";")).rows ++ tail ∧
      Code.codeRows w.text.toList = u.rows ++ [';'] :: tail ∧
      u.rows.flatMap Code.rowEntries = before ∧ tail.flatMap Code.rowEntries = after := by
  obtain ⟨tail, hrows, htext, hplain, hbefore, htail, hafter⟩ := rows_around_constant hdepth hu hw
  refine ⟨tail, hrows, ?_, hbefore, hafter⟩
  rw [← List.append_nil (Code.Writer.joined tail)] at htext
  rw [htext, Code.codeRows_joined hplain, Code.codeRows_declaration hname hreturn,
    Code.codeRows_joined htail, show Code.codeRows [] = [] by rw [Code.codeRows], List.append_nil]

/-- A module that is one constant brings what its rows bring. -/
theorem IsConstantModule.scopeEntries_eq {w : Code.Writer} {name value : String}
    {before after : List ScopeEntry} (h : IsConstantModule w name value before after)
    (hname : '=' ∉ name.toList) (hreturn : '\r' ∉ value.toList) :
    scopeEntries w.text.toList = before ++ after := by
  obtain ⟨u, hdepth, hu, hw⟩ := h
  obtain ⟨tail, -, hcode, rfl, rfl⟩ := codeRows_around_constant hdepth hu hw hname hreturn
  have hend : Code.rowEntries [';'] = [] := by decide
  rw [Code.scopeEntries_eq_codeRows, hcode, List.flatMap_append, List.flatMap_cons, hend,
    List.nil_append]

theorem equals_not_mem_schemaConstant (canonical : String) :
    '=' ∉ (Code.schemaConstant canonical).toList := by
  have hstem := (Code.IsWord.functionStem canonical).not_mem (show Code.isIdentChar '=' = false by decide)
  unfold Code.schemaConstant Text.upper
  rw [String.toList_append, String.toList_ofList, List.mem_append, not_or]
  refine ⟨fun h => ?_, by decide⟩
  obtain ⟨c, hc, hmem⟩ := List.mem_flatMap.mp h
  rcases Text.eq_or_le_of_mem_upperChar hmem with rfl | hle
  · exact hstem hc
  · revert hle
    decide

/-! ## The types in scope -/

/-- The functions that the parsers import. Functions and types of one name do not clash. -/
def importedFunctions : List ScopeEntry := [
  importedFrom "crate::parsing_types" "parse_compiled",
  importedFrom "crate::parsing_types" "validate_compiled"]

/-- How the result module declares the functions that parsers use. -/
def functionMark : List Char := "pub(crate) fn ".toList

theorem importedFunctions_declared : ∀ e ∈ importedFunctions, ∃ line ∈ ResultModule.body,
    ∃ rest, Code.behind? functionMark line.toList = some rest ∧
      rest.takeWhile Code.isIdentChar = e.name := by
  intro e he
  simp only [importedFunctions, List.mem_cons, List.not_mem_nil, or_false] at he
  rcases he with rfl | rfl
  · refine ⟨"pub(crate) fn parse_compiled<T: DeserializeOwned>(", ?_, _, rfl, by decide⟩
    simp [ResultModule.body, ResultModule.parseCompiled]
  · refine ⟨"pub(crate) fn validate_compiled(", ?_, _, rfl, by decide⟩
    simp [ResultModule.body, ResultModule.validateCompiled]

/-- The types, traits and modules that some code imports or declares. -/
def typeNames (code : String) : List String :=
  ((scopeEntries code.toList).filter (· ∉ importedFunctions)).map fun e => String.ofList e.name

/-- A name stands for one thing only. -/
def Alone (code name : String) : Prop := (typeNames code).count name = 1

theorem typeNames_eq {code : String} {before after : List ScopeEntry}
    (h : scopeEntries code.toList = before ++ after) :
    typeNames code = ((before ++ after).filter (· ∉ importedFunctions)).map
      fun e => String.ofList e.name := by
  rw [typeNames, h]

/-- What is imported from elsewhere is no function of the result module. -/
theorem not_mem_importedFunctions {path name : String}
    (h : Text.splitWhere (· = ':') (path ++ ":").toList ≠
      Text.splitWhere (· = ':') "crate::parsing_types:".toList) :
    importedFrom path name ∉ importedFunctions := by
  intro hmem
  simp only [importedFunctions, List.mem_cons, List.not_mem_nil, or_false] at hmem
  rcases hmem with hmem | hmem
  · exact h (congrArg ScopeEntry.path hmem)
  · exact h (congrArg ScopeEntry.path hmem)

theorem ParserModule.typeNames_ofSchema (canonical : String) (schema : Json) :
    typeNames (ofSchema canonical schema).text =
      ["OnceLock", "Value", "CompiledSchema", "ParsingResult", typeIdent canonical] := by
  obtain ⟨w, htext, hmodule⟩ := isConstantModule canonical schema
  have hentries := hmodule.scopeEntries_eq (equals_not_mem_schemaConstant canonical)
    (Json.return_not_mem_pretty schema)
  rw [← htext] at hentries
  have hfixed : (fixedEntries.filter (· ∉ importedFunctions)).map
      (fun e => String.ofList e.name) = ["OnceLock", "Value", "CompiledSchema", "ParsingResult"] := by
    decide
  have hother : typeEntry canonical ∉ importedFunctions := by
    refine not_mem_importedFunctions fun he => ?_
    have hpath (tail : String) : ("crate::types::" ++ tail ++ ":").toList =
        "crate::types:".toList ++ ':' :: (tail ++ ":").toList := by
      simp only [String.toList_append, List.append_assoc]
      rfl
    rw [hpath, Text.splitWhere_append _ _ (by decide)] at he
    have hthird := congrArg (fun pieces => pieces[2]?) he
    rw [List.getElem?_append_left (by decide)] at hthird
    revert hthird
    decide
  rw [typeNames_eq hentries, List.append_nil, List.filter_append, List.map_append, hfixed,
    List.filter_cons_of_pos (by simpa using hother), List.filter_nil, List.map_singleton]
  simp only [typeEntry, importedFrom, String.ofList_toList, List.cons_append, List.nil_append]

theorem BundledParser.typeNames_text (document : Json) {members : List KeyedMember}
    (h : ∀ m ∈ members, Code.IsWord m.variant.toList ∧ m.variant.toList ≠ []) :
    typeNames (text document members) =
      ["OnceLock", "DeserializeOwned", "Value", "CompiledSchema", "ParsingError",
        "ParsingResult"] ++ parsedNames members ++ ["TypeKey", "ParseAs", "ValidatorCache"] := by
  obtain ⟨w, htext, hmodule⟩ := isConstantModule document h
  have hentries := hmodule.scopeEntries_eq (by decide) (Json.return_not_mem_pretty document)
  rw [← htext] at hentries
  have hfixed : (fixedEntries.filter (· ∉ importedFunctions)).map
      (fun e => String.ofList e.name) = ["OnceLock", "DeserializeOwned", "Value", "CompiledSchema",
        "ParsingError", "ParsingResult"] := by
    decide
  have hdeclared : (declaredEntries.filter (· ∉ importedFunctions)).map
      (fun e => String.ofList e.name) = ["TypeKey", "ParseAs", "ValidatorCache"] := by
    decide
  have hparsed : (((parsedNames members).map (importedFrom "crate::types")).filter
      (· ∉ importedFunctions)).map (fun e => String.ofList e.name) = parsedNames members := by
    rw [List.filter_eq_self.mpr, List.map_map]
    · simp [Function.comp_def, importedFrom]
    · intro e he
      obtain ⟨name, -, rfl⟩ := List.mem_map.mp he
      simpa using not_mem_importedFunctions (by decide)
  rw [typeNames_eq hentries, List.filter_append, List.filter_append, List.map_append,
    List.map_append, hfixed, hparsed, hdeclared]

/-! ## Which types stand alone -/

theorem typeIdent_not_reserved (name : String) : typeIdent name ∉ reservedTypeNames := fun h =>
  Code.typeIdent_not_mem name (List.mem_append_right _ h)

/-- A name that is a type as it is, and has no underscore, is the identifier of itself alone. -/
theorem typeIdent_eq_iff {w : String} (hw : typeIdent w = w) (hsound : Code.isSound w = true)
    (hmark : '_' ∉ w.toList) (hblank : w ≠ "Unnamed") {name : String} :
    typeIdent name = w ↔ name = w := by
  constructor
  · intro h
    have hmended := congrArg String.toList h
    rw [Code.toList_typeIdent] at hmended
    unfold Code.mended at hmended
    split at hmended
    · exact absurd (String.toList_inj.mp hmended).symm hblank
    · split at hmended
      · exact absurd (hmended ▸ List.mem_append_right _ (List.mem_singleton_self '_')) hmark
      · have hmasked := Code.eq_of_guardStart_eq hsound [] (by rwa [List.append_nil])
        rw [List.append_nil] at hmasked
        rw [← String.toList_inj, ← hmasked]
        unfold Code.masked at hmasked ⊢
        refine (List.map_id _).symm.trans (List.map_congr_left fun c hc => ?_)
        split
        · rfl
        · rename_i hother
          refine absurd (hmasked ▸ List.mem_map.mpr ⟨c, hc, ?_⟩) hmark
          rw [if_neg hother]
  · rintro rfl
    exact hw

/-- The types of a bundle that its parsers import. -/
def nominalNames (items : List Item) (b : Bundle) : List String :=
  (b.members.map fun m => typeIdent m.canonicalName).filter (BundledParser.isNominal items)

theorem parsedNames_ofMember (items : List Item) (b : Bundle) :
    BundledParser.parsedNames (b.members.map (BundledParser.KeyedMember.ofMember items)) =
      nominalNames items b := by
  unfold BundledParser.parsedNames nominalNames
  rw [List.filter_map, List.filter_map, List.map_map]
  simp only [BundledParser.KeyedMember.ofMember, Function.comp_def]

theorem typeNames_ofBundle {b : Bundle} {items : List Item} {parsers : Artifact}
    (hitems : lowerBundle b = some items) (hparsers : BundledParser.ofBundle b = some parsers) :
    typeNames parsers.text = ["OnceLock", "DeserializeOwned", "Value", "CompiledSchema",
      "ParsingError", "ParsingResult"] ++ nominalNames items b ++
        ["TypeKey", "ParseAs", "ValidatorCache"] := by
  have htext : parsers.text = BundledParser.text b.document
      (b.members.map (BundledParser.KeyedMember.ofMember items)) := by
    unfold BundledParser.ofBundle at hparsers
    rw [hitems, Option.map_some] at hparsers
    rw [← Option.some.inj hparsers]
  rw [htext, BundledParser.typeNames_text b.document
    (BundledParser.variants_ofMember items b.members), parsedNames_ofMember]

theorem reserved_unlike {name : String} (h : name ∉ reservedTypeNames) :
    name ≠ "Value" ∧ name ≠ "CompiledSchema" ∧ name ≠ "ParsingError" ∧ name ≠ "ParsingResult" ∧
      name ≠ "TypeKey" ∧ name ≠ "ParseAs" ∧ name ≠ "ValidatorCache" := by
  simp only [reservedTypeNames, List.mem_cons, List.not_mem_nil, or_false, not_or] at h
  obtain ⟨-, hcompiled, -, -, -, -, -, hparse, herror, hresult, -, -, -, -, hkey, hcache, hvalue, -⟩ := h
  exact ⟨hvalue, hcompiled, herror, hresult, hkey, hparse, hcache⟩

/-- A type stands alone among fixed names and others if it is none of the fixed ones and once among
the others. -/
theorem count_eq_one_iff {name : String} {before names after : List String} (h : name ∈ names) :
    (before ++ names ++ after).count name = 1 ↔
      (name ∉ before ∧ name ∉ after) ∧ names.count name = 1 := by
  have hsome := List.count_pos_iff.mpr h
  rw [List.count_append, List.count_append, ← List.count_eq_zero, ← List.count_eq_zero]
  omega

/-- The type that a parser module imports is unlike every other type, trait and module in its scope,
unless the type has the name of the cell for validators. -/
theorem imported_type_alone_iff (canonical : String) (schema : Json) :
    Alone (ParserModule.ofSchema canonical schema).text (typeIdent canonical) ↔
      canonical ≠ "OnceLock" := by
  have hcell : typeIdent canonical = "OnceLock" ↔ canonical = "OnceLock" :=
    typeIdent_eq_iff (by decide) (by decide) (by decide) (by decide)
  have hreserved := typeIdent_not_reserved canonical
  have hfixed : typeIdent canonical ∉ ["OnceLock", "Value", "CompiledSchema", "ParsingResult"] ↔
      typeIdent canonical ≠ "OnceLock" := by
    have hothers := reserved_unlike hreserved
    simp only [List.mem_cons, List.not_mem_nil, or_false, not_or]
    exact ⟨fun h => h.1, fun h => ⟨h, hothers.1, hothers.2.1, hothers.2.2.2.1⟩⟩
  have hlist : ["OnceLock", "Value", "CompiledSchema", "ParsingResult", typeIdent canonical] =
      ["OnceLock", "Value", "CompiledSchema", "ParsingResult"] ++ [typeIdent canonical] ++ [] :=
    rfl
  unfold Alone
  rw [ParserModule.typeNames_ofSchema, hlist, count_eq_one_iff (List.mem_singleton_self _), hfixed,
    Ne, hcell]
  simp

/-- A type that the module of a bundle imports is unlike every other one in its scope, unless it has
the name of the cell for validators or of the trait of the types that can be read, or two of the
bundle's types have one name. -/
theorem imported_member_alone_iff {b : Bundle} {items : List Item} {parsers : Artifact}
    (hitems : lowerBundle b = some items) (hparsers : BundledParser.ofBundle b = some parsers)
    {name : String} (hname : name ∈ nominalNames items b) :
    Alone parsers.text name ↔ name ≠ "OnceLock" ∧ name ≠ "DeserializeOwned" ∧
      (nominalNames items b).count name = 1 := by
  obtain ⟨hmember, -⟩ := List.mem_filter.mp hname
  obtain ⟨m, -, rfl⟩ := List.mem_map.mp hmember
  obtain ⟨hvalue, hcompiled, herror, hresult, hkey, hparse, hcache⟩ :=
    reserved_unlike (typeIdent_not_reserved m.canonicalName)
  unfold Alone
  rw [typeNames_ofBundle hitems hparsers, count_eq_one_iff hname]
  simp only [List.mem_cons, List.not_mem_nil, or_false, not_or]
  constructor
  · rintro ⟨⟨⟨hcell, hread, -⟩, -⟩, honce⟩
    exact ⟨hcell, hread, honce⟩
  · rintro ⟨hcell, hread, honce⟩
    exact ⟨⟨⟨hcell, hread, hvalue, hcompiled, herror, hresult⟩, hkey, hparse, hcache⟩, honce⟩

/-- The types that parsers import are alone in their scopes but for these names, in a module for one
type as in the module of a bundle. -/
theorem imported_types_alone_iff (canonical : String) (schema : Json) (b : Bundle) :
    (Alone (ParserModule.ofSchema canonical schema).text (typeIdent canonical) ↔
      canonical ≠ "OnceLock") ∧
    ∀ (items : List Item) (parsers : Artifact), lowerBundle b = some items →
      BundledParser.ofBundle b = some parsers → ∀ name ∈ nominalNames items b,
        (Alone parsers.text name ↔ name ≠ "OnceLock" ∧ name ≠ "DeserializeOwned" ∧
          (nominalNames items b).count name = 1) :=
  ⟨imported_type_alone_iff canonical schema, fun _ _ hitems hparsers _ hname =>
    imported_member_alone_iff hitems hparsers hname⟩

theorem imported_types_alone_forest :
    ∃ parsers, lowerBundle Lowering.forest = some Lowering.forestItems ∧
      BundledParser.ofBundle Lowering.forest = some parsers ∧
      Alone (ParserModule.ofSchema "Tree" (.object [])).text (typeIdent "Tree") ∧
      "Tree" ∈ nominalNames Lowering.forestItems Lowering.forest ∧ Alone parsers.text "Tree" := by
  have hitems : lowerBundle Lowering.forest = some Lowering.forestItems := by decide +kernel
  have hparsers : (BundledParser.ofBundle Lowering.forest).isSome = true := by decide +kernel
  have hname : "Tree" ∈ nominalNames Lowering.forestItems Lowering.forest := by decide +kernel
  obtain ⟨parsers, hparsers⟩ := Option.isSome_iff_exists.mp hparsers
  obtain ⟨hone, hall⟩ := imported_types_alone_iff "Tree" (.object []) Lowering.forest
  refine ⟨parsers, hitems, hparsers, hone.mpr (by decide), hname,
    (hall _ _ hitems hparsers "Tree" hname).mpr ?_⟩
  exact ⟨by decide, by decide, by decide +kernel⟩

/-- A bundle with a type that has the name of the trait. -/
def traitBundle : Bundle where
  document := Bundle.documentOf [("DeserializeOwned", .object [("properties", .object [])])]
  members := [BundleMember.ofFile "DeserializeOwned.schema.json"]

/-- The module of a type with the name of the cell brings two types of that name, and the module of
a bundle can bring a type beside the trait of its name. -/
theorem imported_types_clash :
    ¬ Alone (ParserModule.ofSchema "OnceLock" (.object [])).text (typeIdent "OnceLock") ∧
    ∃ items parsers, lowerBundle traitBundle = some items ∧
      BundledParser.ofBundle traitBundle = some parsers ∧
      "DeserializeOwned" ∈ nominalNames items traitBundle ∧
      ¬ Alone parsers.text "DeserializeOwned" := by
  constructor
  · unfold Alone
    rw [ParserModule.typeNames_ofSchema]
    decide +kernel
  · have hitems : lowerBundle traitBundle =
        some [⟨"DeserializeOwned", none, .record [] false none⟩] := by decide +kernel
    have hparsers : (BundledParser.ofBundle traitBundle).isSome = true := by decide +kernel
    obtain ⟨parsers, hparsers⟩ := Option.isSome_iff_exists.mp hparsers
    refine ⟨_, parsers, hitems, hparsers, by decide +kernel, ?_⟩
    unfold Alone
    rw [typeNames_ofBundle hitems hparsers]
    decide +kernel

end

end SchemaBindings
