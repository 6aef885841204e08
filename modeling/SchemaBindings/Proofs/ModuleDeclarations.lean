import SchemaBindings.ParserModule
import SchemaBindings.Proofs.ParserRows
import SchemaBindings.Proofs.PlannedPaths
import SchemaBindings.Proofs.QuotedLiterals
import SchemaBindings.Proofs.UsableIdentifiers
import SchemaBindings.TypeModule

/-! # The files of declared modules

Each of the two indexes declares a module for every type. The file of a module
is called like the module, or has its name in a quoted literal before the
declaration; there the name stands as it is, without escapes. A reader of
declarations finds the files that are written unless a name holds a quote or a
carriage return. Other characters cannot harm: a backslash is taken for the end
of a directory and never comes into a name, and a line feed may stand in a
literal. -/

namespace SchemaBindings

namespace Code

/-- What stands before the name of a file. -/
def pathMark : List Char := ['#', '[', 'p', 'a', 't', 'h', ' ', '=', ' ']

/-- What stands behind the name of a file. -/
def pathEnd : List Char := [']', '\n']

/-- How the declaration of a module starts. -/
def moduleMark : List Char := ['p', 'u', 'b', ' ', 'm', 'o', 'd', ' ']

/-- How the declaration of a module ends. -/
def moduleEnd : List Char := [';', '\n']

/-- How the files of modules end. -/
def moduleEnding : List Char := ['.', 'r', 's']

/-- Reads `pub mod name;` and the end of the line: the name, and what follows. -/
def readPlainModule? (cs : List Char) : Option (List Char × List Char) := do
  let body ← behind? moduleMark cs
  let name := body.takeWhile isIdentChar
  let rest ← behind? moduleEnd (body.dropWhile isIdentChar)
  if isIdentifier (String.ofList name) then some (name, rest) else none

/-- Reads the declaration of a module: the name of its file, and what follows. -/
def readModule? (cs : List Char) : Option (List Char × List Char) :=
  match behind? pathMark cs with
  | some body => (readQuoted? body).bind fun read =>
    ((behind? pathEnd read.2).bind readPlainModule?).map fun plain => (read.1, plain.2)
  | none => (readPlainModule? cs).map fun read => (read.1 ++ moduleEnding, read.2)

/-- Reads several declarations: the names of the files, and what follows. -/
def readModules? : (count : Nat) → List Char → Option (List (List Char) × List Char)
  | 0, cs => some ([], cs)
  | count + 1, cs => (readModule? cs).bind fun read =>
    (readModules? count read.2).map fun more => (read.1 :: more.1, more.2)

/-- What stands above the declarations of an index. -/
def indexHead : List Char := Writer.mark.toList ++ ['\n', '\n']

/-- Reads the declarations of an index, up to the empty line below them: the names of the files. -/
def declaredFiles? (count : Nat) (index : String) : Option (List (List Char)) :=
  (behind? indexHead index.toList).bind fun body => (readModules? count body).bind fun read =>
    (behind? ['\n'] read.2).map fun _ => read.1

/-! ## Literals without escapes -/

/-- A text can stand in a literal as it is. -/
def StandsPlain (cs : List Char) : Prop := '"' ∉ cs ∧ '\r' ∉ cs

instance (cs : List Char) : Decidable (StandsPlain cs) := inferInstanceAs (Decidable (_ ∧ _))

theorem standsPlain_cons {c : Char} {cs : List Char} :
    StandsPlain (c :: cs) ↔ (c ≠ '"' ∧ c ≠ '\r') ∧ StandsPlain cs := by
  simp only [StandsPlain, List.mem_cons, not_or, eq_comm (b := c)]
  tauto

theorem standsPlain_append {cs ds : List Char} :
    StandsPlain (cs ++ ds) ↔ StandsPlain cs ∧ StandsPlain ds := by
  simp only [StandsPlain, List.mem_append, not_or]
  tauto

/-- Between quotes, a text without backslashes is read as itself exactly if it can stand as it is. -/
theorem readLiteral_plain_iff {cs rest after : List Char} (hslash : '\\' ∉ cs) :
    readLiteral .outside (cs ++ '"' :: rest) = some (cs, after) ↔ StandsPlain cs ∧ after = rest := by
  induction cs with
  | nil =>
    have hend : readLiteral .outside ([] ++ '"' :: rest) = some ([], rest) := rfl
    rw [hend, Option.some_inj, Prod.mk.injEq]
    exact and_congr (by simp [StandsPlain]) eq_comm
  | cons c cs ih =>
    rw [List.mem_cons, not_or] at hslash
    have hne : c ≠ '\\' := fun h => hslash.1 h.symm
    rw [standsPlain_cons, and_assoc, ← ih hslash.2, List.cons_append, readLiteral]
    simp only [LiteralPlace.before, reduceCtorEq, false_and, if_false]
    by_cases hquote : c = '"'
    · simp [hquote]
    · by_cases hreturn : c = '\r'
      · simp [hreturn]
      · simp [hquote, hreturn, hne, prepend, Prod.ext_iff]

/-! ## Declarations -/

variable {stem : String}

theorem readPlainModule?_ident (stem : String) (rest : List Char) :
    readPlainModule? (moduleMark ++ ((ModuleName.ofStem stem).ident.toList ++ (moduleEnd ++ rest))) =
      some ((ModuleName.ofStem stem).ident.toList, rest) := by
  have hword : ∀ c ∈ (ModuleName.ofStem stem).ident.toList, isIdentChar c = true :=
    IsWord.moduleIdent stem
  have hident : isIdentifier (ModuleName.ofStem stem).ident = true :=
    isIdentifier_sanitize fit_modules (by decide) stem
  have hend : moduleEnd ++ rest = ';' :: '\n' :: rest := rfl
  have hstop : ¬ isIdentChar ';' = true := by decide +kernel
  unfold readPlainModule?
  rw [behind?_self, Option.bind_eq_bind, Option.bind_some, List.takeWhile_append_of_pos hword,
    List.dropWhile_append_of_pos hword]
  rw [hend, List.takeWhile_cons_of_neg hstop, List.dropWhile_cons_of_neg hstop, ← hend,
    behind?_self]
  simp only [Option.bind_some, List.append_nil, String.ofList_toList, hident, if_true]

theorem ident_of_not_needsPath (h : (ModuleName.ofStem stem).needsPath = false) :
    (ModuleName.ofStem stem).ident = stem := by
  unfold ModuleName.needsPath at h
  rwa [decide_eq_false_iff_not, not_not] at h

/-- A module that is called like its file has a name without quotes. -/
theorem standsPlain_of_not_needsPath (h : (ModuleName.ofStem stem).needsPath = false) :
    StandsPlain stem.toList := by
  have hword := IsWord.moduleIdent stem
  rw [ident_of_not_needsPath h] at hword
  exact ⟨hword.not_mem (by decide +kernel), hword.not_mem (by decide +kernel)⟩

theorem toList_declaration (h : (ModuleName.ofStem stem).needsPath = false) (rest : List Char) :
    (ModuleName.ofStem stem).declaration.toList ++ '\n' :: rest =
      moduleMark ++ ((ModuleName.ofStem stem).ident.toList ++ (moduleEnd ++ rest)) := by
  unfold ModuleName.declaration
  rw [h, if_neg Bool.false_ne_true]
  simp only [String.toList_append, List.append_assoc]
  rfl

theorem toList_declaration_path (h : (ModuleName.ofStem stem).needsPath = true)
    (rest : List Char) :
    (ModuleName.ofStem stem).declaration.toList ++ '\n' :: rest =
      pathMark ++ '"' :: ((stem.toList ++ moduleEnding) ++ '"' :: (pathEnd ++
        (moduleMark ++ ((ModuleName.ofStem stem).ident.toList ++ (moduleEnd ++ rest))))) := by
  unfold ModuleName.declaration
  rw [h, if_pos rfl]
  simp only [String.toList_append, List.append_assoc]
  rfl

theorem readModule?_path (body : List Char) :
    readModule? (pathMark ++ '"' :: body) = (readLiteral .outside body).bind fun read =>
      ((behind? pathEnd read.2).bind readPlainModule?).map fun plain => (read.1, plain.2) := by
  unfold readModule?
  rw [behind?_self]
  rfl

/-- A declaration is read as one of the file that the stem stands for exactly if the stem can stand
in a literal as it is. -/
theorem readModule?_declaration_iff {rest after : List Char} (hslash : '\\' ∉ stem.toList) :
    readModule? ((ModuleName.ofStem stem).declaration.toList ++ '\n' :: rest) =
        some (stem.toList ++ moduleEnding, after) ↔
      StandsPlain stem.toList ∧ after = rest := by
  cases hpath : (ModuleName.ofStem stem).needsPath with
  | false =>
    have hmark (more : List Char) : behind? pathMark (moduleMark ++ more) = none :=
      behind?_cons _ _ (by decide)
    rw [toList_declaration hpath]
    unfold readModule?
    rw [hmark, readPlainModule?_ident, ident_of_not_needsPath hpath]
    simp [standsPlain_of_not_needsPath hpath, eq_comm]
  | true =>
    have hfile : '\\' ∉ stem.toList ++ moduleEnding := by
      rw [List.mem_append, not_or]
      exact ⟨hslash, by decide⟩
    have hending : StandsPlain moduleEnding := by decide
    rw [toList_declaration_path hpath, readModule?_path]
    constructor
    · intro h
      obtain ⟨⟨file, left⟩, hliteral, h⟩ := Option.bind_eq_some_iff.mp h
      obtain ⟨plain, hplain, heq⟩ := Option.map_eq_some_iff.mp h
      obtain ⟨rfl, rfl⟩ := Prod.mk.inj heq
      obtain ⟨hstands, hleft⟩ := (readLiteral_plain_iff hfile).mp hliteral
      rw [hleft, behind?_self, Option.bind_some, readPlainModule?_ident] at hplain
      cases hplain
      exact ⟨(standsPlain_append.mp hstands).1, rfl⟩
    · rintro ⟨hplain, rfl⟩
      rw [(readLiteral_plain_iff hfile).mpr ⟨standsPlain_append.mpr ⟨hplain, hending⟩, rfl⟩,
        Option.bind_some, behind?_self, Option.bind_some, readPlainModule?_ident, Option.map_some]

theorem readModules?_declarations_iff {stems : List String}
    (hslash : ∀ stem ∈ stems, '\\' ∉ stem.toList) {rest after : List Char} :
    readModules? stems.length
        ((stems.flatMap fun stem => (ModuleName.ofStem stem).declaration.toList ++ ['\n']) ++ rest) =
        some (stems.map fun stem => stem.toList ++ moduleEnding, after) ↔
      (∀ stem ∈ stems, StandsPlain stem.toList) ∧ after = rest := by
  induction stems with
  | nil => simp [readModules?, eq_comm]
  | cons stem stems ih =>
    rw [List.forall_mem_cons] at hslash ⊢
    obtain ⟨hstem, hstems⟩ := hslash
    rw [List.flatMap_cons, List.append_assoc, List.append_assoc, List.singleton_append,
      List.length_cons, List.map_cons, readModules?, and_assoc, ← ih hstems]
    constructor
    · intro h
      obtain ⟨⟨file, left⟩, hread, h⟩ := Option.bind_eq_some_iff.mp h
      obtain ⟨⟨files, last⟩, hmore, heq⟩ := Option.map_eq_some_iff.mp h
      cases heq
      obtain ⟨hplain, rfl⟩ := (readModule?_declaration_iff hstem).mp hread
      exact ⟨hplain, hmore⟩
    · rintro ⟨hplain, hmore⟩
      rw [(readModule?_declaration_iff hstem).mpr ⟨hplain, rfl⟩, Option.bind_some, hmore,
        Option.map_some]

/-! ## Indexes -/

theorem joined_marked : Writer.joined Writer.marked.rows = indexHead := by
  rw [Writer.marked, Writer.rows_blank, Writer.rows_line, Writer.joined_append,
    Writer.joined_append, show Writer.empty.depth = 0 from rfl, Writer.joined_rowsOf]
  rfl

theorem toList_index (entries : List ManifestEntry) (exported : ManifestEntry → String) :
    ∃ rest, (Manifest.index entries exported).toList = indexHead ++
      ((entries.flatMap fun e => e.module.declaration.toList ++ ['\n']) ++ '\n' :: rest) := by
  generalize hw : (Writer.marked.linesOf (entries.map (·.module.declaration))).blank = w
  have hrows : Writer.joined w.rows = indexHead ++
      ((entries.flatMap fun e => e.module.declaration.toList ++ ['\n']) ++ ['\n']) := by
    rw [← hw, Writer.rows_blank, Writer.rows_linesOf, Writer.joined_append, Writer.joined_append,
      joined_marked, Writer.depth_marked, Writer.joined_flatMap_rowsOf, List.flatMap_map,
      List.append_assoc]
    rfl
  unfold Manifest.index
  rw [hw, Writer.toList_text, Writer.rows_linesOf, Writer.joined_append, hrows]
  exact ⟨_, by simp only [List.append_assoc, List.singleton_append]; rfl⟩

/-- The index over modules with these stems declares the files of the stems exactly if all stems can
stand in literals as they are. -/
theorem declaredFiles?_index_iff {entries : List ManifestEntry} {stems : List String}
    (hmodules : entries.map (·.module) = stems.map ModuleName.ofStem)
    (hslash : ∀ stem ∈ stems, '\\' ∉ stem.toList) (exported : ManifestEntry → String) :
    declaredFiles? stems.length (Manifest.index entries exported) =
        some (stems.map fun stem => stem.toList ++ moduleEnding) ↔
      ∀ stem ∈ stems, StandsPlain stem.toList := by
  obtain ⟨rest, htext⟩ := toList_index entries exported
  have hdeclarations : (entries.flatMap fun e => e.module.declaration.toList ++ ['\n']) =
      stems.flatMap fun stem => (ModuleName.ofStem stem).declaration.toList ++ ['\n'] := by
    have h := congrArg (List.flatMap fun m => m.declaration.toList ++ ['\n']) hmodules
    rwa [List.flatMap_map, List.flatMap_map] at h
  unfold declaredFiles?
  rw [htext, behind?_self, Option.bind_some, hdeclarations]
  constructor
  · intro h
    obtain ⟨⟨files, left⟩, hread, h⟩ := Option.bind_eq_some_iff.mp h
    obtain ⟨_, -, rfl⟩ := Option.map_eq_some_iff.mp h
    exact ((readModules?_declarations_iff hslash).mp hread).1
  · intro hplain
    rw [(readModules?_declarations_iff hslash).mpr ⟨hplain, rfl⟩, Option.bind_some,
      show '\n' :: rest = ['\n'] ++ rest from rfl, behind?_self, Option.map_some]

end Code

/-- The file of a type beside an index. -/
def TypeDescriptor.moduleFile (d : TypeDescriptor) : String := d.fileStem ++ ".rs"

theorem TypeDescriptor.toList_moduleFile (d : TypeDescriptor) :
    d.moduleFile.toList = d.fileStem.toList ++ Code.moduleEnding :=
  String.toList_append

theorem exists_exported_of_mem_artifacts {entries : List ManifestEntry} {index : Artifact}
    (hmem : index ∈ Manifest.artifacts .perType entries)
    (hpath : index.path = PackageLayout.typeIndex ∨ index.path = PackageLayout.parserIndex) :
    ∃ exported, index.text = Manifest.index entries exported := by
  have hroot : ¬ (PackageLayout.rootModule = PackageLayout.typeIndex ∨
      PackageLayout.rootModule = PackageLayout.parserIndex) := by decide
  unfold Manifest.artifacts at hmem
  split at hmem
  · rw [List.mem_singleton.mp hmem] at hpath
    exact absurd hpath hroot
  · simp only [List.mem_cons, List.not_mem_nil, or_false] at hmem
    rcases hmem with rfl | rfl | rfl
    · exact absurd hpath hroot
    · exact ⟨_, rfl⟩
    · exact ⟨_, rfl⟩

/-- The modules of accepted types are written beside the indexes, to the files that are called like
the types. A declaration is read as one of this file, and an index as one of all these files, exactly
if no name has a quote or a carriage return in it. -/
theorem declared_files_iff {files : List (String × Json)} {types : TypeSet}
    (h : TypeSet.ofList (TypeSet.typesOf files) = .ok types) :
    (∀ d ∈ types.descriptors,
      (∀ schema, (ParserModule.ofSchema d.canonicalName schema).path =
          "src/parsers/" ++ d.moduleFile ∧
        ∀ module ∈ TypeModule.ofSchema d.canonicalName schema,
          module.path = "src/types/" ++ d.moduleFile) ∧
      ∀ rest, Code.readModule? ((ManifestEntry.ofCanonical d.canonicalName).module.declaration.toList
          ++ '\n' :: rest) = some (d.moduleFile.toList, rest) ↔
        Code.StandsPlain d.fileStem.toList) ∧
    ∀ index ∈ Manifest.artifacts .perType (types.canonicalNames.map .ofCanonical),
      index.path = PackageLayout.typeIndex ∨ index.path = PackageLayout.parserIndex →
        (Code.declaredFiles? types.size index.text =
            some (types.descriptors.map (·.moduleFile.toList)) ↔
          ∀ d ∈ types.descriptors, Code.StandsPlain d.fileStem.toList) := by
  obtain ⟨rfl, -⟩ := TypeSet.ofList_eq_ok.mp h
  have hslash : ∀ d ∈ TypeSet.typesOf files, '\\' ∉ d.fileStem.toList := by
    intro d hd
    obtain ⟨file, -, rfl⟩ := List.mem_map.mp hd
    exact slash_not_mem_fileStem (.inr rfl) file.1
  constructor
  · intro d hd
    refine ⟨fun schema => ⟨String.append_assoc .., fun module hmodule => ?_⟩, fun rest => ?_⟩
    · obtain ⟨items, -, rfl⟩ := Option.map_eq_some_iff.mp hmodule
      exact String.append_assoc ..
    · rw [d.toList_moduleFile]
      exact (Code.readModule?_declaration_iff (hslash d hd)).trans (and_iff_left rfl)
  · intro index hmem hpath
    obtain ⟨exported, htext⟩ := exists_exported_of_mem_artifacts hmem hpath
    have hmodules : ((TypeSet.canonicalNames ⟨TypeSet.typesOf files⟩).map
        ManifestEntry.ofCanonical).map (·.module) =
          ((TypeSet.typesOf files).map (·.fileStem)).map Code.ModuleName.ofStem := by
      rw [TypeSet.canonicalNames, List.map_map, List.map_map, List.map_map]
      rfl
    have hindex := Code.declaredFiles?_index_iff hmodules (List.forall_mem_map.mpr hslash) exported
    rw [List.length_map, List.map_map, List.forall_mem_map] at hindex
    rw [htext, ← hindex]
    simp only [TypeDescriptor.toList_moduleFile]
    rfl

/-- The files of a user and of an address, whose module is not called like its file. -/
theorem declared_files_numbered :
    let files : List (String × Json) := [("user.schema.json", .null), ("2nd.schema.json", .null)]
    let types : TypeSet := ⟨TypeSet.typesOf files⟩
    let entries := types.canonicalNames.map ManifestEntry.ofCanonical
    TypeSet.ofList (TypeSet.typesOf files) = .ok types ∧
      ⟨PackageLayout.typeIndex, Manifest.index entries (·.typeName)⟩ ∈
        Manifest.artifacts .perType entries ∧
      Code.declaredFiles? 2 (Manifest.index entries (·.typeName)) =
        some ["user.rs".toList, "2nd.rs".toList] := by
  intro files types entries
  have hok : TypeSet.ofList (TypeSet.typesOf files) = .ok types :=
    TypeSet.ofList_eq_ok.mpr ⟨rfl, by decide +kernel⟩
  have hmem : ⟨PackageLayout.typeIndex, Manifest.index entries (·.typeName)⟩ ∈
      Manifest.artifacts .perType entries := by
    unfold Manifest.artifacts
    rw [if_neg (by decide +kernel)]
    exact .tail _ (.head _)
  have hplain : ∀ d ∈ types.descriptors, Code.StandsPlain d.fileStem.toList := by decide +kernel
  have hnames : types.descriptors.map (·.moduleFile.toList) =
      ["user.rs".toList, "2nd.rs".toList] := by decide +kernel
  have hsize : types.size = 2 := rfl
  have hread := ((declared_files_iff hok).2 _ hmem (.inl rfl)).mpr hplain
  simp only [hnames, hsize] at hread
  exact ⟨hok, hmem, hread⟩

/-- A quote in the name of a schema file ends the literal too early. -/
theorem declared_files_quote :
    let files : List (String × Json) := [("a\"b.schema.json", .null)]
    let types : TypeSet := ⟨TypeSet.typesOf files⟩
    let entries := types.canonicalNames.map ManifestEntry.ofCanonical
    TypeSet.ofList (TypeSet.typesOf files) = .ok types ∧
      entries.map (·.module.declaration) = ["#[path = \"a\"b.rs\"]\npub mod a_b;"] ∧
      Code.declaredFiles? 1 (Manifest.index entries (·.typeName)) = none ∧
      Code.declaredFiles? 1 (Manifest.index entries (·.parseFunction)) = none := by
  intro files types entries
  exact ⟨TypeSet.ofList_eq_ok.mpr ⟨rfl, by decide +kernel⟩, by decide +kernel⟩

end SchemaBindings
