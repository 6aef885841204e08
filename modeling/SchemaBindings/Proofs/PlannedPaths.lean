import Mathlib.Data.List.Nodup
import Mathlib.Data.List.Perm.Basic
import Mathlib.Data.List.TakeWhile
import SchemaBindings.Proofs.CaseChanges
import SchemaBindings.Proofs.DiskWrites
import SchemaBindings.Proofs.Outcomes
import SchemaBindings.Proofs.TypeSets

/-! # The paths of a planned package

The files of a type are called after the lower-case form of its name, and no
two types of a plan share that form. In the per-type layout one name is taken
all the same: the index of a directory of modules is its `mod.rs`. So the paths
of a plan are distinct unless a type is called `mod`, and whatever has no later
file at its path can be read back once the package is written. -/

namespace SchemaBindings

/-- The stem of the files that are written for the type of a schema file. -/
def stemOf (d : SchemaDocument) : String := moduleFileStem (canonicalName d.fileName)

/-! ## Stems -/

theorem slash_not_mem_baseName {c : Char} (hc : c = '/' ∨ c = '\\') (cs : List Char) :
    c ∉ baseName cs := by
  intro h
  have hs := List.mem_takeWhile_imp (List.mem_reverse.mp h)
  rcases hc with rfl | rfl <;> cases hs

theorem slash_not_mem_schemaStem {c : Char} (hc : c = '/' ∨ c = '\\') (name : String) :
    c ∉ (schemaStem name).toList := by
  unfold schemaStem
  rw [String.toList_ofList]
  intro h
  unfold dropEnding? at h
  split at h
  · exact slash_not_mem_baseName hc _ (List.mem_of_mem_take h)
  · exact slash_not_mem_baseName hc _ h

theorem slash_not_mem_canonicalOfStem {c : Char} (hc : c = '/' ∨ c = '\\') {stem : String}
    (hs : c ∉ stem.toList) : c ∉ (canonicalOfStem stem).toList := by
  unfold canonicalOfStem
  rw [String.toList_ofList]
  intro h
  obtain ⟨word, hw, h⟩ := List.mem_flatMap.mp h
  have hword : c ∉ word := fun hm =>
    hs (Text.mem_of_mem_splitWhere (List.mem_of_mem_filter hw) hm)
  cases word with
  | nil => cases h
  | cons first rest =>
    rcases List.mem_append.mp h with h | h
    · rw [Text.eq_of_slash_mem_upperChar hc h] at hword
      exact hword (List.mem_cons_self ..)
    · exact hword (List.mem_cons_of_mem _ h)

theorem slash_not_mem_fileStem {c : Char} (hc : c = '/' ∨ c = '\\') (fileName : String) :
    c ∉ (moduleFileStem (canonicalName fileName)).toList := fun h =>
  slash_not_mem_canonicalOfStem hc (slash_not_mem_schemaStem hc fileName)
    (Text.slash_mem_of_mem_lower hc h)

/-- The stem of the files of a type is one name, whatever the schema file is called. -/
theorem slash_not_mem_stemOf (d : SchemaDocument) : '/' ∉ (stemOf d).toList :=
  slash_not_mem_fileStem (.inl rfl) d.fileName

/-! ## Paths -/

namespace PackageLayout

/-- The files of a type. -/
def typePaths (stem : String) : List String :=
  [typeModule stem, parserModule stem, schemaCopy stem]

/-- The files of every package. -/
def fixedPaths : List String := [packageFile, resultModule, rootModule, readmeFile]

/-- The files that depend on the schemas. -/
def schemaPaths : PackageLayout → List String → List String
  | .perType, stems => stems.flatMap typePaths
  | .bundled, _ => [bundledTypes, bundledParsers, bundledSchema]

/-- The files that tie a package together. -/
def indexPaths : PackageLayout → List String
  | .perType => [rootModule, typeIndex, parserIndex]
  | .bundled => [rootModule]

/-- The files of a package with types of some stems, in the order in which they are written. -/
def plannedPaths (layout : PackageLayout) (stems : List String) : List String :=
  [packageFile, resultModule] ++ schemaPaths layout stems ++ indexPaths layout ++ [readmeFile]

theorem not_mem_fixedPaths {stem path : String} (h : path ∈ typePaths stem) :
    path ∉ fixedPaths := by
  simp only [typePaths, List.mem_cons, List.not_mem_nil, or_false] at h
  simp only [fixedPaths, List.mem_cons, List.not_mem_nil, or_false, not_or]
  rcases h with rfl | rfl | rfl <;>
    refine ⟨fun h => ?_, fun h => ?_, fun h => ?_, fun h => ?_⟩ <;>
    simpa [typeModule, parserModule, schemaCopy, packageFile, resultModule, rootModule,
      readmeFile] using congrArg String.toList h

/-- A file belongs to one type. -/
theorem stem_unique {stem other path : String} (h : path ∈ typePaths stem)
    (h' : path ∈ typePaths other) : stem = other := by
  simp only [typePaths, List.mem_cons, List.not_mem_nil, or_false] at h h'
  refine String.toList_inj.mp ?_
  rcases h with rfl | rfl | rfl <;> rcases h' with h' | h' | h' <;>
    simpa [typeModule, parserModule, schemaCopy] using congrArg String.toList h'

theorem nodup_typePaths (stem : String) : (typePaths stem).Nodup := by
  have hmodules : typeModule stem ≠ parserModule stem := fun h => by
    simpa [typeModule, parserModule] using congrArg String.toList h
  have htype : typeModule stem ≠ schemaCopy stem := fun h => by
    simpa [typeModule, schemaCopy] using congrArg String.toList h
  have hparser : parserModule stem ≠ schemaCopy stem := fun h => by
    simpa [parserModule, schemaCopy] using congrArg String.toList h
  simp [typePaths, hmodules, htype, hparser]

theorem nodup_flatMap_typePaths {stems : List String} (h : stems.Nodup) :
    (stems.flatMap typePaths).Nodup := by
  refine List.nodup_flatMap.mpr ⟨fun stem _ => nodup_typePaths stem, ?_⟩
  refine h.imp fun hne => ?_
  exact fun path hp hq => hne (stem_unique hp hq)

theorem typeIndex_mem : typeIndex ∈ typePaths "mod" := by decide

theorem parserIndex_mem : parserIndex ∈ typePaths "mod" := by decide

/-- The paths of a package are distinct unless the files of a type are called as an index is. -/
theorem nodup_plannedPaths {layout : PackageLayout} {stems : List String} (h : stems.Nodup) :
    (plannedPaths layout stems).Nodup ↔ ¬(layout = .perType ∧ "mod" ∈ stems) := by
  cases layout with
  | bundled => exact iff_of_true (by decide : [packageFile, resultModule, bundledTypes, bundledParsers,
      bundledSchema, rootModule, readmeFile].Nodup) (by simp)
  | perType =>
    have hperm : (plannedPaths .perType stems).Perm
        ((fixedPaths ++ [typeIndex, parserIndex]) ++ stems.flatMap typePaths) := by
      refine List.perm_iff_count.mpr fun path => ?_
      simp only [plannedPaths, schemaPaths, indexPaths, fixedPaths, List.count_append, List.count_cons, List.count_nil]
      omega
    rw [hperm.nodup_iff, List.nodup_append]
    constructor
    · rintro ⟨-, -, hne⟩ ⟨-, hmod⟩
      exact hne typeIndex (by decide) typeIndex (List.mem_flatMap.mpr ⟨"mod", hmod, typeIndex_mem⟩)
        rfl
    · intro hmod
      refine ⟨by decide, nodup_flatMap_typePaths h, fun path hp other ho => ?_⟩
      rintro rfl
      obtain ⟨stem, hs, hstem⟩ := List.mem_flatMap.mp ho
      rcases List.mem_append.mp hp with hp | hp
      · exact not_mem_fixedPaths hstem hp
      · have hname : stem = "mod" := by
          simp only [List.mem_cons, List.not_mem_nil, or_false] at hp
          rcases hp with rfl | rfl
          · exact stem_unique hstem typeIndex_mem
          · exact stem_unique hstem parserIndex_mem
        exact hmod ⟨rfl, hname ▸ hs⟩

/-- A folder and a name below it. -/
theorem plain_below {folder name : String} (hf : Path.Plain folder) (hs : '/' ∉ name.toList)
    (hl : 3 ≤ name.toList.length) : Path.Plain (folder ++ "/" ++ name) := by
  have htext : (folder ++ "/" ++ name).toList = folder.toList ++ '/' :: name.toList := by simp
  have hone : Text.splitWhere (· = '/') name.toList = [name.toList] :=
    Text.splitWhere_of_not fun c hc => by simpa using fun h : c = '/' => hs (h ▸ hc)
  intro piece hp
  rw [Path.pieces_below htext, hone] at hp
  rcases List.mem_append.mp hp with hp | hp
  · exact hf piece hp
  · rw [List.mem_singleton.mp hp]
    constructor
    · unfold Path.isIdle
      rw [Bool.or_eq_false_iff, decide_eq_false_iff_not, decide_eq_false_iff_not]
      constructor <;> intro h <;> rw [h] at hl <;> simp at hl
    · intro h
      rw [h] at hl
      simp at hl

theorem plain_typePaths {stem path : String} (hs : '/' ∉ stem.toList)
    (h : path ∈ typePaths stem) : Path.Plain path := by
  have hfile (folder ending : String) (hf : Path.Plain folder) (he : '/' ∉ ending.toList)
      (hl : 3 ≤ ending.toList.length) : Path.Plain (folder ++ "/" ++ (stem ++ ending)) := by
    refine plain_below hf ?_ ?_
    · rw [String.toList_append, List.mem_append, not_or]
      exact ⟨hs, he⟩
    · rw [String.toList_append, List.length_append]
      omega
  have htype : typeModule stem = "src/types" ++ "/" ++ (stem ++ ".rs") := by
    simp [typeModule, String.append_assoc]
  have hparser : parserModule stem = "src/parsers" ++ "/" ++ (stem ++ ".rs") := by
    simp [parserModule, String.append_assoc]
  have hschema : schemaCopy stem = "schemas" ++ "/" ++ (stem ++ ".json") := by
    simp [schemaCopy, String.append_assoc]
  simp only [typePaths, List.mem_cons, List.not_mem_nil, or_false] at h
  rcases h with rfl | rfl | rfl
  · exact htype ▸ hfile _ _ (by decide) (by decide) (by decide)
  · exact hparser ▸ hfile _ _ (by decide) (by decide) (by decide)
  · exact hschema ▸ hfile _ _ (by decide) (by decide) (by decide)

/-- A package has plain paths only. -/
theorem plain_plannedPaths {layout : PackageLayout} {stems : List String}
    (hs : ∀ stem ∈ stems, '/' ∉ stem.toList) {path : String}
    (h : path ∈ plannedPaths layout stems) : Path.Plain path := by
  have hrest : ∀ path ∈ fixedPaths ++ [typeIndex, parserIndex, bundledTypes, bundledParsers,
      bundledSchema], Path.Plain path := by decide
  by_cases hp : path ∈ stems.flatMap typePaths
  · obtain ⟨stem, hstem, hp⟩ := List.mem_flatMap.mp hp
    exact plain_typePaths (hs stem hstem) hp
  · refine hrest path ?_
    cases layout <;>
      simp only [plannedPaths, schemaPaths, indexPaths, fixedPaths, List.mem_append, List.mem_cons,
        List.not_mem_nil, or_false, hp] at h ⊢ <;>
      tauto

end PackageLayout

/-! ## Plans -/

theorem orEndless_eq_ok {α : Type} {a? : Option α} {a : α} :
    Plan.orEndless a? = .ok a ↔ a? = some a := by
  cases a? with
  | none => exact ⟨fun h => (by cases h), fun h => (by cases h)⟩
  | some b =>
    unfold Plan.orEndless
    rw [Except.ok.injEq, Option.some.injEq]

theorem paths_of_typeFiles {judge : SchemaJudge} {d : TypeDescriptor} {schema : Json}
    {files : List Artifact} (h : Plan.typeFiles judge d schema = .ok files) :
    files.map (·.path) = PackageLayout.typePaths d.fileStem := by
  unfold Plan.typeFiles at h
  split at h
  · obtain ⟨module, hm, h⟩ := bind_eq_ok.mp h
    cases h
    obtain ⟨items, -, rfl⟩ := Option.map_eq_some_iff.mp (orEndless_eq_ok.mp hm)
    rfl
  · cases h

theorem paths_of_perTypeFiles {judge : SchemaJudge} {source : SchemaSource}
    {documents : List SchemaDocument} {types : TypeSet} {files : List Artifact}
    (h : Plan.perTypeFiles judge source documents types = .ok files)
    (hlen : documents.length = types.descriptors.length) :
    files.map (·.path) =
      (types.descriptors.map (·.fileStem)).flatMap PackageLayout.typePaths := by
  unfold Plan.perTypeFiles at h
  obtain ⟨groups, hgroups, h⟩ := bind_eq_ok.mp h
  cases h
  have hpaths : groups.flatten.map (·.path) =
      (documents.zip types.descriptors).flatMap fun x => PackageLayout.typePaths x.2.fileStem := by
    have hall := mapM_eq_ok hgroups
    clear hgroups hlen h
    generalize documents.zip types.descriptors = pairs at hall ⊢
    induction hall with
    | nil => rfl
    | cons hx _ ih =>
      obtain ⟨schema, -, hfiles⟩ := bind_eq_ok.mp hx
      rw [List.flatten_cons, List.map_append, List.flatMap_cons, ih, paths_of_typeFiles hfiles]
  have hsnd := List.map_snd_zip (Nat.le_of_eq hlen.symm)
  calc groups.flatten.map (·.path)
      = ((documents.zip types.descriptors).map Prod.snd).flatMap
          fun d => PackageLayout.typePaths d.fileStem := by rw [hpaths, List.flatMap_map]
    _ = (types.descriptors.map (·.fileStem)).flatMap PackageLayout.typePaths := by
      rw [hsnd, List.flatMap_map]

theorem paths_of_bundledFiles {judge : SchemaJudge} {source : SchemaSource}
    {documents : List SchemaDocument} {files : List Artifact}
    (h : Plan.bundledFiles judge source documents = .ok files) :
    files.map (·.path) = [PackageLayout.bundledTypes, PackageLayout.bundledParsers,
      PackageLayout.bundledSchema] := by
  unfold Plan.bundledFiles at h
  obtain ⟨b, -, h⟩ := bind_eq_ok.mp h
  split at h
  · cases h
  · obtain ⟨types, ht, h⟩ := bind_eq_ok.mp h
    obtain ⟨parsers, hp, h⟩ := bind_eq_ok.mp h
    cases h
    obtain ⟨items, -, rfl⟩ := Option.map_eq_some_iff.mp (orEndless_eq_ok.mp ht)
    obtain ⟨items, -, rfl⟩ := Option.map_eq_some_iff.mp (orEndless_eq_ok.mp hp)
    rfl

theorem paths_of_schemaFiles {judge : SchemaJudge} {source : SchemaSource} {layout : PackageLayout}
    {documents : List SchemaDocument} {types : TypeSet} {files : List Artifact}
    (h : Plan.schemaFiles judge source layout documents types = .ok files)
    (hlen : documents.length = types.descriptors.length) :
    files.map (·.path) = layout.schemaPaths (types.descriptors.map (·.fileStem)) := by
  cases layout with
  | perType => exact paths_of_perTypeFiles h hlen
  | bundled => exact paths_of_bundledFiles h

theorem paths_of_manifest {layout : PackageLayout} {entries : List ManifestEntry}
    (h : entries ≠ []) : (Manifest.artifacts layout entries).map (·.path) = layout.indexPaths := by
  unfold Manifest.artifacts
  rw [if_neg (by simpa using h)]
  cases layout <;> rfl

/-- The paths of a plan, by the stems of the schema files that it is made for. -/
theorem paths_of_plan {judge : SchemaJudge} {source : SchemaSource} {o : GenerateOptions}
    {plan : Plan} (h : Plan.ofSource judge source o = .ok plan) :
    ∃ documents, source.documents = .ok documents ∧ (documents.map stemOf).Nodup ∧
      plan.artifacts.map (·.path) = PackageLayout.plannedPaths o.layout (documents.map stemOf) := by
  unfold Plan.ofSource at h
  obtain ⟨documents, hload, h⟩ := bind_eq_ok.mp h
  obtain ⟨types, htypes, h⟩ := bind_eq_ok.mp h
  obtain ⟨files, hfiles, h⟩ := bind_eq_ok.mp h
  cases h
  obtain ⟨rfl, -, -, hstems⟩ := TypeSet.ofList_eq_ok.mp htypes
  have hstemOf : (documents.map fun d => TypeDescriptor.ofFile d.fileName d.value).map
      (·.fileStem) = documents.map stemOf := by
    rw [List.map_map]
    rfl
  rw [hstemOf] at hstems
  refine ⟨documents, hload, hstems, ?_⟩
  have hpaths := paths_of_schemaFiles hfiles (List.length_map _).symm
  rw [List.map_append, List.map_append, List.map_append, hpaths, hstemOf, paths_of_manifest]
  · rfl
  · simpa [TypeSet.canonicalNames] using source.documents_ne_nil documents hload

/-- The files of a plan have plain paths, whatever the schema files are called. -/
theorem plain_of_plan {judge : SchemaJudge} {source : SchemaSource} {o : GenerateOptions}
    {plan : Plan} (h : Plan.ofSource judge source o = .ok plan) {a : Artifact}
    (ha : a ∈ plan.artifacts) : Path.Plain a.path := by
  obtain ⟨documents, -, -, hpaths⟩ := paths_of_plan h
  have hmem : a.path ∈ PackageLayout.plannedPaths o.layout (documents.map stemOf) :=
    hpaths ▸ List.mem_map_of_mem ha
  refine PackageLayout.plain_plannedPaths (fun stem hs => ?_) hmem
  obtain ⟨d, -, rfl⟩ := List.mem_map.mp hs
  exact slash_not_mem_stemOf d

/-- Two files of a planned package have one path exactly if the package has a module per type and a
type whose module is called as the index of the modules. Once the package is written, a file that
no later one of its path replaces can be read back. -/
theorem planned_paths_distinct_iff {judge : SchemaJudge} {t : FileTree} {o : GenerateOptions}
    {plan : Plan} (h : Plan.withJudge judge t o = .ok plan) :
    ((plan.artifacts.map (·.path)).Nodup ↔
      ¬(o.layout = .perType ∧ ∃ documents, loadSchemas t o.schemasDir o.exclude = .ok documents ∧
        ∃ d ∈ documents, moduleFileStem (canonicalName d.fileName) = "mod")) ∧
    ∀ t' report, generateWithJudge judge t o = (t', .ok report) →
      ∀ before a after, plan.artifacts = before ++ a :: after → (∀ b ∈ after, b.path ≠ a.path) →
        t'.readText (o.outputDir.join a.path) = .ok a.text := by
  obtain ⟨documents, hload, hstems, hpaths⟩ := paths_of_plan h
  constructor
  · rw [hpaths, PackageLayout.nodup_plannedPaths hstems]
    refine not_congr (and_congr_right fun _ => ?_)
    constructor
    · intro hm
      obtain ⟨d, hd, hmod⟩ := List.mem_map.mp hm
      exact ⟨documents, hload, d, hd, hmod⟩
    · rintro ⟨documents', hload', d, hd, hmod⟩
      cases hload.symm.trans hload'
      exact List.mem_map.mpr ⟨d, hd, hmod⟩
  · intro t' report hrun before a after hsplit hlast
    obtain ⟨plan', hplan', hwritten, -⟩ := plan_of_generateFrom hrun
    cases hplan'.symm.trans h
    rw [hsplit] at hwritten
    refine writeArtifacts_readText (fun b hb => plain_of_plan h ?_) hlast hwritten
    rwa [hsplit]

/-! ## A type called `mod` -/

/-- A judge that lets every schema pass. -/
def SchemaJudge.lenient : SchemaJudge := ⟨fun _ => true, fun _ => true⟩

/-- A disk whose directory `s` holds one file with an empty schema. -/
def folderWith (name : String) : FileTree where
  entries := [([.text "s"], .directory), ([.text "s", .text name], .file (.text "\x7b\x7d"))]
  workingPlace := []

/-- A run over the directory `s` that asks for nothing special. -/
def plainOptions : GenerateOptions := { schemasDir := ⟨"s"⟩ }

theorem planned_paths_distinct_one :
    ∃ plan, Plan.withJudge .lenient (folderWith "one.schema.json") plainOptions = .ok plan ∧
      (plan.artifacts.map (·.path)).Nodup := by
  have hisSome : (Plan.withJudge .lenient (folderWith "one.schema.json")
      plainOptions).toOption.isSome = true := by decide +kernel
  obtain ⟨plan, hplan⟩ := Option.isSome_iff_exists.mp hisSome
  rw [toOption_eq_some] at hplan
  refine ⟨plan, hplan, (planned_paths_distinct_iff hplan).1.mpr ?_⟩
  rintro ⟨-, documents, hload, d, hd, hmod⟩
  have hstems : (loadSchemas (folderWith "one.schema.json") ⟨"s"⟩ []).toOption.map
      (fun documents => documents.map stemOf) = some ["one"] := by decide +kernel
  have hload' : (loadSchemas (folderWith "one.schema.json") ⟨"s"⟩ []).toOption = some documents :=
    toOption_eq_some.mpr hload
  rw [hload'] at hstems
  have hone : stemOf d ∈ ["one"] := Option.some.inj hstems ▸ List.mem_map_of_mem hd
  have hname : stemOf d = "mod" := hmod
  rw [hname] at hone
  exact absurd (List.mem_singleton.mp hone) (by decide)

/-- The module of the type of `mod.schema.json` and the index of the modules have one path. -/
theorem planned_paths_mod :
    ∃ plan, Plan.withJudge .lenient (folderWith "mod.schema.json") plainOptions = .ok plan ∧
      ¬ (plan.artifacts.map (·.path)).Nodup := by
  have hplan : (Plan.withJudge .lenient (folderWith "mod.schema.json")
      plainOptions).toOption.any (fun plan => decide (¬ (plan.artifacts.map (·.path)).Nodup)) =
        true := by decide +kernel
  obtain ⟨plan, hsome, hnodup⟩ := (Option.any_eq_true _ _).mp hplan
  exact ⟨plan, toOption_eq_some.mp hsome, of_decide_eq_true hnodup⟩

end SchemaBindings
