import SchemaBindings.Proofs.PlacesBelow
import SchemaBindings.Proofs.SecondPlans

/-! # Running once more

A run writes what it has planned from the schemas and the documents that they
refer to. If these are what they were when it is done, the next run plans the
same files and writes them over themselves. Nothing keeps the two apart, though:
the copy of a schema may be taken for a schema, and a file may be written over a
document that a schema refers to. Then the next run sees something else. -/

namespace SchemaBindings

open Dereference (Points Reached)
open FileTree (Extends Stays mem_of_entry? nameBelow? nameBelow?_eq_some resolve_below resolve_reaches)

variable {judge : SchemaJudge} {t t' : FileTree} {o : GenerateOptions} {ds : List SchemaDocument}
  {d : SchemaDocument} {plan : Plan} {lost : List Place}

/-! ## What a plan is made from -/

/-- The documents that a plan is made from: the schemas, and those that references lead to which are
reached from a schema. -/
inductive Consulted (t : FileTree) (ds : List SchemaDocument) : Path → Prop where
  | schema {d : SchemaDocument} (hd : d ∈ ds) : Consulted t ds (documentKey t d.path)
  | target {d : SchemaDocument} {doc : Path} {reference : String} {x : Target} {n : Json} (hd : d ∈ ds)
      (hr : Reached t .empty (documentKey t d.path) d.value doc reference)
      (hp : Points t .empty doc reference x n) : Consulted t ds x.document

/-- What a plan is made from is the same on a second disk: the directory has the same schema files, and
all documents are what they were. -/
structure Undisturbed (t t' : FileTree) (o : GenerateOptions) : Prop where
  schemas : discoverSchemas t' o.schemasDir o.exclude = discoverSchemas t o.schemasDir o.exclude
  documents : ∀ ds, loadSchemas t o.schemasDir o.exclude = .ok ds → ∀ p, Consulted t ds p →
    ∀ v, readDocument t p = .ok v → readDocument t' p = .ok v

/-! ## Schemas that are loaded -/

theorem loadDocument_eq_ok {p : Path} : loadDocument t p = .ok d ↔
    ∃ v, readDocument t p = .ok v ∧ d = .ofPath p v := by
  unfold loadDocument
  dsimp only
  constructor
  · intro h
    split at h
    · cases h
    · cases h
    · rename_i v hv
      cases h
      exact ⟨v, hv, rfl⟩
  · rintro ⟨v, hv, rfl⟩
    rw [hv]
    rfl

theorem loadSchemas_eq_ok {dir : Path} {exclude : List String}
    (h : loadSchemas t dir exclude = .ok ds) :
    ∃ paths, discoverSchemas t dir exclude = .ok paths ∧ paths.mapM (loadDocument t) = .ok ds := by
  unfold loadSchemas at h
  split at h
  · cases h
  · cases h
  · rename_i paths _ hpaths
    exact ⟨paths, hpaths, h⟩

/-- A schema that is loaded can be read where it is. -/
theorem read_of_loadSchemas {dir : Path} {exclude : List String}
    (h : loadSchemas t dir exclude = .ok ds) (hd : d ∈ ds) : readDocument t d.path = .ok d.value := by
  obtain ⟨paths, -, hload⟩ := loadSchemas_eq_ok h
  obtain ⟨p, -, hp⟩ := exists_of_mem_mapM hload hd
  obtain ⟨v, hv, rfl⟩ := loadDocument_eq_ok.mp hp
  exact hv

/-- The files that depend on the schemas are planned again. -/
theorem schemaFiles_again (ht : t.Real) (ht' : t'.Real) (hstays : Stays t t')
    (hds : ∀ d ∈ ds, Persists t t' d) {layout : PackageLayout} {types : TypeSet}
    {files : List Artifact}
    (hfiles : Plan.schemaFiles judge (.ofTree t o) layout ds types = .ok files) :
    Plan.schemaFiles judge (.ofTree t' o) layout ds types = .ok files := by
  unfold Plan.schemaFiles at hfiles ⊢
  cases layout with
  | perType =>
    dsimp only at hfiles ⊢
    unfold Plan.perTypeFiles at hfiles ⊢
    obtain ⟨rows, hrows, hflat⟩ := bind_eq_ok.mp hfiles
    refine bind_eq_ok.mpr ⟨rows, mapM_eq_ok_congr hrows fun ⟨document, d⟩ hmem row hrow => ?_, hflat⟩
    obtain ⟨schema, hschema, hrow⟩ := bind_eq_ok.mp hrow
    have hpersists := hds document (List.of_mem_zip hmem).1
    exact bind_eq_ok.mpr ⟨schema, hpersists.dereferenceDocument_eq ht ht' hstays hschema, hrow⟩
  | bundled =>
    dsimp only at hfiles ⊢
    unfold Plan.bundledFiles at hfiles ⊢
    obtain ⟨b, hb, hrest⟩ := bind_eq_ok.mp hfiles
    refine bind_eq_ok.mpr ⟨b, ?_, hrest⟩
    change Bundle.ofDocuments t ds = .ok b at hb
    change Bundle.ofDocuments t' ds = .ok b
    unfold Bundle.ofDocuments at hb ⊢
    cases ha : Bundle.assemble t ds with
    | error e =>
      rw [ha] at hb
      cases hb
    | ok a =>
      rw [ha] at hb
      rw [Bundle.assemble_again ht ht' hstays hds ha]
      exact hb

namespace Undisturbed

/-- A schema that is loaded persists. -/
theorem persists (ht : t.Real) (h : Undisturbed t t' o)
    (hload : loadSchemas t o.schemasDir o.exclude = .ok ds) (hd : d ∈ ds) : Persists t t' d where
  read := read_of_loadSchemas hload hd
  again := by
    obtain ⟨-, -, hread⟩ := readDocument_canonical ht (read_of_loadSchemas hload hd)
    exact h.documents ds hload _ (.schema hd) _ hread
  kept _ _ _ _ hr hp := h.documents ds hload _ (.target hd hr hp)

theorem loadSchemas_eq (ht : t.Real) (hstays : Stays t t') (h : Undisturbed t t' o)
    (hload : loadSchemas t o.schemasDir o.exclude = .ok ds) :
    loadSchemas t' o.schemasDir o.exclude = .ok ds := by
  obtain ⟨paths, hpaths, hall⟩ := loadSchemas_eq_ok hload
  have hall' : paths.mapM (loadDocument t') = .ok ds := by
    refine mapM_eq_ok_congr hall fun p hp d hd => ?_
    have hread := (h.persists ht hload (mem_of_mapM hall hp hd)).read_again ht hstays
    obtain ⟨v, -, rfl⟩ := loadDocument_eq_ok.mp hd
    exact loadDocument_eq_ok.mpr ⟨v, hread, rfl⟩
  unfold loadSchemas at hload ⊢
  rw [h.schemas]
  rw [hpaths] at hload ⊢
  cases paths with
  | nil => cases hload
  | cons p paths => exact hall'

/-- A plan that was made is made again. -/
theorem plan_eq (ht : t.Real) (ht' : t'.Real) (hstays : Stays t t') (h : Undisturbed t t' o)
    (hplan : Plan.withJudge judge t o = .ok plan) : Plan.withJudge judge t' o = .ok plan := by
  unfold Plan.withJudge Plan.ofSource at hplan ⊢
  obtain ⟨documents, hload, hplan⟩ := bind_eq_ok.mp hplan
  obtain ⟨types, htypes, hplan⟩ := bind_eq_ok.mp hplan
  obtain ⟨files, hfiles, hplan⟩ := bind_eq_ok.mp hplan
  refine bind_eq_ok.mpr ⟨documents, h.loadSchemas_eq ht hstays hload, ?_⟩
  refine bind_eq_ok.mpr ⟨types, htypes, bind_eq_ok.mpr ⟨files, ?_, hplan⟩⟩
  exact schemaFiles_again ht ht' hstays (fun d hd => h.persists ht hload hd) hfiles

end Undisturbed

/-! ## Packages that lie apart -/

/-- The files of a plan lie apart from what it was made from: none is where a schema would be taken
from, and none is where a document was. -/
structure LiesApart (t t' : FileTree) (o : GenerateOptions) (plan : Plan) : Prop where
  schemas : ∀ a ∈ plan.artifacts, ∀ root name, t'.resolve o.schemasDir = .ok root →
    t'.resolve (o.outputDir.join a.path) = .ok (root ++ [.text name]) →
      (isSchemaFileName name && !o.exclude.contains name) = false
  documents : ∀ a ∈ plan.artifacts, ∀ place, t'.resolve (o.outputDir.join a.path) = .ok place →
    ∀ ds, loadSchemas t o.schemasDir o.exclude = .ok ds → ∀ p, Consulted t ds p →
      t.resolve p ≠ .ok place

/-- Schema files are looked for in a directory that is there. -/
theorem exists_root_of_discoverSchemas {dir : Path} {exclude : List String} {paths : List Path}
    (h : discoverSchemas t dir exclude = .ok paths) :
    ∃ root, t.resolve dir = .ok root ∧ t.isDirectoryAt root = true := by
  unfold discoverSchemas FileTree.list at h
  cases hroot : t.resolve dir with
  | error e =>
    rw [hroot] at h
    cases h
  | ok root =>
    rw [hroot] at h
    cases hdir : t.isDirectoryAt root with
    | true => exact ⟨root, rfl, hdir⟩
    | false => simp [hdir] at h

/-- Writing a package leaves the schema files of a directory the same, if none of its files is taken
for one. -/
theorem discoverSchemas_eq (hextends : Extends t t' lost) {dir : Path} {exclude : List String}
    {root : Place} (hroot : t.resolve dir = .ok root) (hdir : t.isDirectoryAt root = true)
    (hlost : ∀ name, root ++ [.text name] ∈ lost →
      (isSchemaFileName name && !exclude.contains name) = false) :
    discoverSchemas t' dir exclude = discoverSchemas t dir exclude := by
  have hnames :
      (t'.entries.filterMap fun e => (nameBelow? root e.1).map fun name => (name, e.2)).filterMap
          (schemaFileName? exclude) =
        (t.entries.filterMap fun e => (nameBelow? root e.1).map fun name => (name, e.2)).filterMap
          (schemaFileName? exclude) := by
    rw [List.filterMap_filterMap, List.filterMap_filterMap]
    refine hextends.filterMap_eq (fun p => ?_) fun p hp c => ?_
    · cases nameBelow? root p with
      | none => rfl
      | some name => cases name <;> rfl
    · cases hname : nameBelow? root p with
      | none => simp
      | some name =>
        cases name with
        | bytes bs => rfl
        | text name =>
          rw [nameBelow?_eq_some.mp hname] at hp
          simpa [schemaFileName?] using hlost name hp
  have hkeeps := hextends.keeps
  unfold discoverSchemas FileTree.list
  rw [hroot, hkeeps.resolve hroot]
  simp only [hdir, hkeeps.directories _ hdir, if_true, hnames]

/-- A run leaves what its plan was made from as it was, if the files of the plan lie apart from it. -/
theorem LiesApart.undisturbed (hplan : Plan.withJudge judge t o = .ok plan)
    (hwritten : writeArtifacts t o.outputDir plan.artifacts = (t', .ok ()))
    (h : LiesApart t t' o plan) : Undisturbed t t' o := by
  obtain ⟨lost, hextends, hlost⟩ :=
    writeArtifacts_extends (fun a ha => plain_of_plan hplan ha) hwritten
  constructor
  · unfold Plan.withJudge Plan.ofSource at hplan
    obtain ⟨documents, hload, -⟩ := bind_eq_ok.mp hplan
    obtain ⟨paths, hpaths, -⟩ := loadSchemas_eq_ok hload
    obtain ⟨root, hroot, hdir⟩ := exists_root_of_discoverSchemas hpaths
    refine discoverSchemas_eq hextends hroot hdir fun name hname => ?_
    obtain ⟨a, ha, hr⟩ := hlost _ hname
    exact h.schemas a ha root name (hextends.keeps.resolve hroot) hr
  · intro ds hload p hp v hv
    obtain ⟨s, hs, hread⟩ := readDocument_eq_ok.mp hv
    refine readDocument_eq_ok.mpr ⟨s, hextends.keeps.readText (fun place hplace hr => ?_) hs, hread⟩
    obtain ⟨a, ha, hra⟩ := hlost place hplace
    exact h.documents a ha place hra ds hload p hp hr

/-! ## Running once more -/

/-- A disk whose directory `s` holds a schema and a document that it refers to. -/
def linkedFolder : FileTree where
  entries := [([.text "s"], .directory),
    ([.text "s", .text "user.schema.json"],
      .file (.text "\x7b\"items\": \x7b\"$ref\": \"name.json\"\x7d\x7d")),
    ([.text "s", .text "name.json"], .file (.text "\x7b\x7d"))]
  workingPlace := []

/-- A run that writes beside the schemas. -/
def besideOptions : GenerateOptions := { schemasDir := ⟨"s"⟩, outputDir := ⟨"out"⟩ }

/-- A plan names a type for each schema file. -/
theorem length_typeNames (h : Plan.withJudge judge t o = .ok plan) :
    ∃ paths, discoverSchemas t o.schemasDir o.exclude = .ok paths ∧
      plan.typeNames.length = paths.length := by
  unfold Plan.withJudge Plan.ofSource at h
  obtain ⟨documents, hload, h⟩ := bind_eq_ok.mp h
  obtain ⟨types, htypes, h⟩ := bind_eq_ok.mp h
  obtain ⟨files, -, h⟩ := bind_eq_ok.mp h
  cases h
  obtain ⟨rfl, -⟩ := TypeSet.ofList_eq_ok.mp htypes
  obtain ⟨paths, hpaths, hall⟩ := loadSchemas_eq_ok hload
  refine ⟨paths, hpaths, ?_⟩
  have hlength := (mapM_eq_ok hall).length_eq
  simp [TypeSet.canonicalNames, hlength]

/-- A disk whose output directory holds the schemas. The copy of the one that is there is to have the
name of a schema file. -/
def sharedFolder : FileTree where
  entries := [([.text "out"], .directory), ([.text "out", .text "schemas"], .directory),
    ([.text "out", .text "schemas", .text "a.schema.schema.json"], .file (.text "\x7b\x7d"))]
  workingPlace := []

/-- A run that writes the copies of schemas among these. -/
def sharedOptions : GenerateOptions := { schemasDir := ⟨"out/schemas"⟩, outputDir := ⟨"out"⟩ }

end SchemaBindings
