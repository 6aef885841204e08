import Mathlib.Data.List.Nodup
import Mathlib.Data.List.Perm.Basic
import SchemaBindings.Plan
import SchemaBindings.Proofs.BundleOrder
import SchemaBindings.Proofs.Outcomes
import SchemaBindings.Proofs.RealTrees

/-! # The order of entries does not count

A disk gives the entries of a directory in an order of its own, and a list of
files to leave out may name them in any order and more than once. A path leads
to the same entry whatever the order is. Schema files are sorted by their
names, no two of which are the same, so one list alone is the sorted one, and
all that is made from it, failures too, is the same. -/

namespace SchemaBindings

variable {t t' : FileTree}

namespace FileTree

/-- One disk read twice: the same entries, each at a place of its own, in any two orders. -/
structure Reordered (t t' : FileTree) : Prop where
  working : t'.workingPlace = t.workingPlace
  entries : t'.entries.Perm t.entries
  apart : (t.entries.map (·.1)).Nodup

/-- Where no two entries share a place, what is found at a place is what is there. -/
theorem lookup_eq_some_iff_mem {entries : List (Place × Entry)} (hd : (entries.map (·.1)).Nodup)
    {p : Place} {entry : Entry} : entries.lookup p = some entry ↔ (p, entry) ∈ entries := by
  induction entries with
  | nil => simp
  | cons first rest ih =>
    obtain ⟨q, old⟩ := first
    obtain ⟨hfirst, hrest⟩ := List.nodup_cons.mp hd
    rw [List.lookup_cons, List.mem_cons]
    by_cases hp : p = q
    · subst hp
      have hnot : (p, entry) ∉ rest := fun h =>
        hfirst (List.mem_map.mpr ⟨_, h, rfl⟩)
      simp [hnot, eq_comm]
    · have hne : (p, entry) ≠ (q, old) := fun h => hp (congrArg Prod.fst h)
      rw [beq_false_of_ne hp]
      simp [hne, ih hrest]

theorem entry?_eq_some_iff (hd : (t.entries.map (·.1)).Nodup) {p : Place} (hp : p ≠ [])
    {entry : Entry} : t.entry? p = some entry ↔ (p, entry) ∈ t.entries := by
  unfold entry?
  rw [if_neg hp, lookup_eq_some_iff_mem hd]

namespace Reordered

theorem entry?_eq (h : Reordered t t') : t'.entry? = t.entry? := by
  have hd' : (t'.entries.map (·.1)).Nodup := (h.entries.map _).nodup_iff.mpr h.apart
  funext p
  by_cases hp : p = []
  · rw [hp]
    rfl
  · refine Option.ext fun entry => ?_
    rw [entry?_eq_some_iff hd' hp, entry?_eq_some_iff h.apart hp, h.entries.mem_iff]

theorem isDirectoryAt_eq (h : Reordered t t') : t'.isDirectoryAt = t.isDirectoryAt := by
  funext p
  unfold isDirectoryAt
  rw [h.entry?_eq]

theorem resolve_eq (h : Reordered t t') : t'.resolve = t.resolve := by
  have hstep : t'.step = t.step := by
    funext here piece
    unfold step
    rw [h.entry?_eq, h.isDirectoryAt_eq]
  funext p
  unfold resolve walk startOf
  rw [hstep, h.working]

theorem canonical?_eq (h : Reordered t t') : t'.canonical? = t.canonical? := by
  funext p
  unfold canonical?
  rw [h.resolve_eq]

theorem readText_eq (h : Reordered t t') : t'.readText = t.readText := by
  funext p
  unfold readText
  rw [h.resolve_eq, h.entry?_eq]

end Reordered

end FileTree

open FileTree (Reordered entry?_eq_some_iff nameBelow? nameBelow?_eq_some isFit_text)

/-! ## The files of a directory -/

theorem schemaFileName?_eq_some {exclude : List String} {e : EntryName × Entry} {name : String} :
    schemaFileName? exclude e = some name ↔ e.1 = .text name ∧ (∃ c, e.2 = .file c) ∧
      isSchemaFileName name = true ∧ name ∉ exclude := by
  obtain ⟨first, entry⟩ := e
  cases first with
  | bytes bs => simp [schemaFileName?]
  | text s =>
    cases entry with
    | directory => simp [schemaFileName?]
    | file c =>
      simp only [schemaFileName?, Option.ite_none_right_eq_some, Option.some.injEq,
        EntryName.text.injEq, Bool.and_eq_true, Bool.not_eq_true', List.contains_eq_mem,
        decide_eq_false_iff_not]
      constructor
      · rintro ⟨h, rfl⟩
        exact ⟨rfl, ⟨c, rfl⟩, h⟩
      · rintro ⟨rfl, -, h⟩
        exact ⟨h, rfl⟩

/-- The name of a schema file that lies in a directory and is not left out. -/
def IsSchemaFile (t : FileTree) (root : Place) (exclude : List String) (name : String) : Prop :=
  (∃ c, t.entry? (root ++ [.text name]) = some (.file c)) ∧ isSchemaFileName name = true ∧
    name ∉ exclude

/-- The names of the schema files among some entries of a disk. -/
def schemaNames (root : Place) (exclude : List String) (entries : List (Place × Entry)) :
    List String :=
  (entries.filterMap fun e => (nameBelow? root e.1).map fun name => (name, e.2)).filterMap
    (schemaFileName? exclude)

theorem discoverSchemas_of_directory {dir : Path} {root : Place} (hroot : t.resolve dir = .ok root)
    (hdir : t.isDirectoryAt root = true) (exclude : List String) : discoverSchemas t dir exclude =
      .ok ((sortTexts (schemaNames root exclude t.entries)).map dir.join) := by
  unfold discoverSchemas FileTree.list
  rw [hroot]
  dsimp only
  rw [if_pos hdir]
  rfl

theorem mem_schemaNames {root : Place} {exclude : List String} {entries : List (Place × Entry)}
    {name : String} : name ∈ schemaNames root exclude entries ↔
      (∃ c, (root ++ [.text name], .file c) ∈ entries) ∧ isSchemaFileName name = true ∧
        name ∉ exclude := by
  unfold schemaNames
  simp only [List.mem_filterMap, Option.map_eq_some_iff, nameBelow?_eq_some,
    schemaFileName?_eq_some]
  constructor
  · rintro ⟨_, ⟨⟨p, entry⟩, hmem, _, rfl, rfl⟩, rfl, ⟨c, rfl⟩, h⟩
    exact ⟨⟨c, hmem⟩, h⟩
  · rintro ⟨⟨c, hmem⟩, h⟩
    exact ⟨_, ⟨_, hmem, _, rfl, rfl⟩, rfl, ⟨c, rfl⟩, h⟩

/-- Entries at places of their own give names of their own. -/
theorem nodup_schemaNames {root : Place} {exclude : List String} {entries : List (Place × Entry)}
    (hd : (entries.map (·.1)).Nodup) : (schemaNames root exclude entries).Nodup := by
  have hplaces : entries.Pairwise fun e f => e.1 ≠ f.1 := List.pairwise_map.mp hd
  unfold schemaNames
  rw [List.filterMap_filterMap]
  refine hplaces.filterMap _ fun e f hne a ha b hb => ?_
  simp only [Option.bind_eq_some_iff, Option.map_eq_some_iff, nameBelow?_eq_some,
    schemaFileName?_eq_some] at ha hb
  obtain ⟨_, ⟨_, hp, rfl⟩, rfl, -⟩ := ha
  obtain ⟨_, ⟨_, hq, rfl⟩, rfl, -⟩ := hb
  rintro rfl
  exact hne (hp.trans hq.symm)

theorem schemaNames_exclude {exclude exclude' : List String}
    (h : ∀ name, name ∈ exclude' ↔ name ∈ exclude) (root : Place) (entries : List (Place × Entry)) :
    schemaNames root exclude' entries = schemaNames root exclude entries := by
  unfold schemaNames
  congr 1
  funext e
  refine Option.ext fun name => ?_
  rw [schemaFileName?_eq_some, schemaFileName?_eq_some, h]

/-- What is put below a directory under two names is at two paths. -/
theorem join_injective (dir : Path) {a b : String} (ha : (EntryName.text a).isFit = true)
    (hb : (EntryName.text b).isFit = true) (h : dir.join a = dir.join b) : a = b := by
  obtain ⟨above, _, hjoin⟩ := Path.join_relative dir
  have hpieces {s : String} (hs : (EntryName.text s).isFit = true) :
      (dir.join s).pieces = above ++ (Path.mk s).pieces := by
    obtain ⟨hidle, -, hslash, -⟩ := isFit_text hs
    refine (hjoin s ?_ ?_).1
    · unfold Path.isAbsolute
      rw [decide_eq_false_iff_not]
      exact fun hhead => hslash (List.mem_of_mem_head? hhead)
    · rintro hnil
      rw [hnil] at hidle
      cases hidle
  have heq : above ++ (Path.mk a).pieces = above ++ (Path.mk b).pieces := by
    rw [← hpieces ha, ← hpieces hb, h]
  exact congrArg Path.text (Path.pieces_injective (List.append_cancel_left heq))

/-- In a directory of a disk all schema files that are not left out are found, each once, in the
strict order of their names. -/
theorem exists_schemaNames (ht : t.Real) (hd : (t.entries.map (·.1)).Nodup) {dir : Path}
    {root : Place} (hroot : t.resolve dir = .ok root) (hdir : t.isDirectoryAt root = true)
    (exclude : List String) : ∃ names : List String,
      discoverSchemas t dir exclude = .ok (names.map dir.join) ∧ names.Pairwise (· < ·) ∧
      (names.map dir.join).Nodup ∧ ∀ name, name ∈ names ↔ IsSchemaFile t root exclude name := by
  have hperm : (sortTexts (schemaNames root exclude t.entries)).Perm
      (schemaNames root exclude t.entries) := List.mergeSort_perm _ _
  have hnodup : (sortTexts (schemaNames root exclude t.entries)).Nodup :=
    hperm.nodup_iff.mpr (nodup_schemaNames hd)
  refine ⟨_, discoverSchemas_of_directory hroot hdir exclude,
    pairwise_lt_of_le (pairwise_sorted id _) hnodup, ?_, fun name => ?_⟩
  · have hfit : ∀ name ∈ sortTexts (schemaNames root exclude t.entries),
        (EntryName.text name).isFit = true := by
      intro name hname
      obtain ⟨⟨c, hmem⟩, -⟩ := mem_schemaNames.mp (hperm.mem_iff.mp hname)
      exact ht.names _ hmem _ (List.mem_append_right _ (List.mem_singleton_self _))
    exact hnodup.map_on fun a ha b hb h => join_injective dir (hfit a ha) (hfit b hb) h
  · rw [hperm.mem_iff, mem_schemaNames, IsSchemaFile]
    simp only [entry?_eq_some_iff hd (List.append_ne_nil_of_right_ne_nil root (List.cons_ne_nil _ _))]

namespace FileTree.Reordered

theorem discoverSchemas_eq (h : Reordered t t') {exclude exclude' : List String}
    (hsame : ∀ name, name ∈ exclude' ↔ name ∈ exclude) (dir : Path) :
    discoverSchemas t' dir exclude' = discoverSchemas t dir exclude := by
  cases hroot : t.resolve dir with
  | error cause =>
    unfold discoverSchemas list
    rw [h.resolve_eq, hroot]
  | ok root =>
    have hroot' : t'.resolve dir = .ok root := h.resolve_eq ▸ hroot
    cases hdir : t.isDirectoryAt root with
    | false =>
      unfold discoverSchemas list
      rw [hroot, hroot', h.isDirectoryAt_eq]
      simp [hdir]
    | true =>
      have hdir' : t'.isDirectoryAt root = true := h.isDirectoryAt_eq ▸ hdir
      have hnames : (schemaNames root exclude t'.entries).Perm
          (schemaNames root exclude t.entries) := (h.entries.filterMap _).filterMap _
      rw [discoverSchemas_of_directory hroot hdir, discoverSchemas_of_directory hroot' hdir',
        schemaNames_exclude hsame]
      exact congrArg (fun names => Except.ok (names.map dir.join))
        (sorted_eq_of_perm id (fun _ _ _ _ => id) hnames.symm)

/-! ## Documents -/

theorem documentKey_eq (h : Reordered t t') : documentKey t' = documentKey t := by
  funext p
  unfold documentKey
  rw [h.canonical?_eq]

theorem readDocument_eq (h : Reordered t t') : readDocument t' = readDocument t := by
  funext p
  unfold readDocument
  rw [h.readText_eq]

theorem loadDocument_eq (h : Reordered t t') : loadDocument t' = loadDocument t := by
  funext p
  unfold loadDocument
  rw [h.readDocument_eq]

theorem locate_eq (h : Reordered t t') : DocumentCache.locate t' = DocumentCache.locate t := by
  funext c reference referrer file
  unfold DocumentCache.locate
  rw [h.canonical?_eq]

theorem resolveTarget_eq (h : Reordered t t') :
    DocumentCache.resolve t' = DocumentCache.resolve t := by
  have hfetch : DocumentCache.fetch t' = DocumentCache.fetch t := by
    funext reference key
    unfold DocumentCache.fetch
    rw [h.readDocument_eq]
  funext reference referrer target
  unfold DocumentCache.resolve
  rw [h.locate_eq, hfetch]

/-- How many references can be open at once is a sum over the documents in reach, in any order. -/
theorem allowance_eq (h : Reordered t t') (c : DocumentCache) : c.allowance t' = c.allowance t := by
  have hreach : (DocumentCache.inReach t' c).Perm (DocumentCache.inReach t c) :=
    (h.entries.filterMap _).append_left _
  refine hreach.foldl_eq' (fun v _ w _ n => ?_) 1
  omega

/-! ## Dereferencing and bundling -/

theorem expandRef_eq (h : Reordered t t') (depth : Nat) (stack : List Target) :
    Dereference.expandRef t' depth stack = Dereference.expandRef t depth stack := by
  induction depth generalizing stack with
  | zero => rfl
  | succ depth ih =>
    funext reference doc
    rw [Dereference.expandRef, Dereference.expandRef, h.resolveTarget_eq]
    simp only [ih]

theorem dereferenceDocument_eq (h : Reordered t t') :
    dereferenceDocument t' = dereferenceDocument t := by
  funext d
  unfold dereferenceDocument dereferenceValue DocumentCache.seed Dereference.expandFrom
  rw [h.documentKey_eq]
  simp only [h.allowance_eq, h.expandRef_eq]

theorem followRef_eq (h : Reordered t t') (depth : Nat) :
    Bundle.followRef t' depth = Bundle.followRef t depth := by
  induction depth with
  | zero => rfl
  | succ depth ih =>
    funext reference doc spot
    rw [Bundle.followRef, Bundle.followRef, h.resolveTarget_eq, h.locate_eq, h.documentKey_eq, ih]

theorem enterAll_eq (h : Reordered t t') (s : Bundle.State) (ds : List SchemaDocument) :
    Bundle.enterAll t' s ds = Bundle.enterAll t s ds := by
  induction ds generalizing s with
  | nil => rfl
  | cons d ds ih =>
    have henter : Bundle.enter t' s d = Bundle.enter t s d := by
      unfold Bundle.enter DocumentCache.seed
      rw [h.documentKey_eq]
    rw [Bundle.enterAll, Bundle.enterAll, henter]
    simp only [ih]

theorem relocateParts_eq (h : Reordered t t') (depth : Nat) (s : Bundle.State)
    (parts : List Bundle.Part) :
    Bundle.relocateParts t' depth s parts = Bundle.relocateParts t depth s parts := by
  induction parts generalizing s with
  | nil => rfl
  | cons part parts ih =>
    rw [Bundle.relocateParts, Bundle.relocateParts, h.followRef_eq]
    simp only [ih]

theorem assemble_eq (h : Reordered t t') : Bundle.assemble t' = Bundle.assemble t := by
  funext ds
  unfold Bundle.assemble
  rw [h.enterAll_eq]
  simp only [h.allowance_eq, h.relocateParts_eq]

/-! ## Plans -/

theorem loadSchemas_eq (h : Reordered t t') {exclude exclude' : List String}
    (hsame : ∀ name, name ∈ exclude' ↔ name ∈ exclude) (dir : Path) :
    loadSchemas t' dir exclude' = loadSchemas t dir exclude := by
  unfold loadSchemas
  rw [h.discoverSchemas_eq hsame, h.loadDocument_eq]

theorem source_eq (h : Reordered t t') (o : GenerateOptions) {exclude' : List String}
    (hsame : ∀ name, name ∈ exclude' ↔ name ∈ o.exclude) :
    SchemaSource.ofTree t' { o with exclude := exclude' } = .ofTree t o := by
  have hbundle : Bundle.ofDocuments t' = Bundle.ofDocuments t := by
    funext ds
    unfold Bundle.ofDocuments
    rw [h.assemble_eq]
  unfold SchemaSource.ofTree
  rw [SchemaSource.mk.injEq]
  exact ⟨h.loadSchemas_eq hsame _, h.dereferenceDocument_eq, hbundle⟩

theorem plan_eq (h : Reordered t t') (judge : SchemaJudge) (o : GenerateOptions)
    {exclude' : List String} (hsame : ∀ name, name ∈ exclude' ↔ name ∈ o.exclude) :
    Plan.withJudge judge t' { o with exclude := exclude' } = Plan.withJudge judge t o := by
  unfold Plan.withJudge
  rw [h.source_eq o hsame]
  rfl

end FileTree.Reordered

/-- A run does not depend on the order in which a disk gives the entries of its directories, nor on the
order and the repetitions of the names to leave out. The schema files of a directory that can be listed
are those in it that are not left out, each once, in the strict order of their names; a directory that
cannot be listed is told with the cause. Schemas, types and plans, and the first failure where there
is one, are the same. -/
theorem plan_reordered (ht : t.Real) (h : Reordered t t') (judge : SchemaJudge) (o : GenerateOptions)
    {exclude' : List String} (hsame : ∀ name, name ∈ exclude' ↔ name ∈ o.exclude) :
    let o' := { o with exclude := exclude' }
    discoverSchemas t' o.schemasDir exclude' = discoverSchemas t o.schemasDir o.exclude ∧
    loadSchemas t' o.schemasDir exclude' = loadSchemas t o.schemasDir o.exclude ∧
    (loadSchemas t' o.schemasDir exclude' >>= typesOfDocuments) =
      (loadSchemas t o.schemasDir o.exclude >>= typesOfDocuments) ∧
    Plan.withJudge judge t' o' = Plan.withJudge judge t o ∧
    (∀ cause, t.list o.schemasDir = .error cause →
      discoverSchemas t o.schemasDir o.exclude = .error (.unreadable o.schemasDir cause)) ∧
    ∀ root, t.resolve o.schemasDir = .ok root → t.isDirectoryAt root = true →
      ∃ names : List String,
        discoverSchemas t o.schemasDir o.exclude = .ok (names.map o.schemasDir.join) ∧
        names.Pairwise (· < ·) ∧ (names.map o.schemasDir.join).Nodup ∧
        ∀ name, name ∈ names ↔ IsSchemaFile t root o.exclude name := by
  have hload := h.loadSchemas_eq hsame o.schemasDir
  refine ⟨h.discoverSchemas_eq hsame _, hload, by rw [hload], h.plan_eq judge o hsame,
    fun cause hcause => ?_, ?_⟩
  · unfold discoverSchemas
    rw [hcause]
  · exact fun root hroot hdir => exists_schemaNames ht h.apart hroot hdir o.exclude

/-- A disk with two schemas in `s` that no run takes together: the one is called like the other. -/
def namesakes : FileTree where
  entries := [([.text "s"], .directory),
    ([.text "s", .text "user-name.schema.json"], .file (.text "\x7b\x7d")),
    ([.text "s", .text "notes.txt"], .file (.text "")),
    ([.text "s", .text "broken.schema.json"], .file (.text "\x7b")),
    ([.text "s", .text "user_name.schema.json"], .file (.text "\x7b\x7d"))]
  workingPlace := []

/-- The same disk with its entries the other way around. -/
def namesakesTurned : FileTree := { namesakes with entries := namesakes.entries.reverse }

/-- What to do with the schemas in `s` but the broken one. -/
def unbrokenOptions : GenerateOptions :=
  { schemasDir := ⟨"s"⟩, exclude := ["broken.schema.json"] }

/-- Both runs find the two files in one order and fail alike. -/
theorem plan_reordered_namesakes :
    let again := { unbrokenOptions with exclude := ["broken.schema.json", "broken.schema.json"] }
    Plan.ofOptions namesakesTurned again =
        .error (.duplicateName "UserName" "user-name.schema.json" "user_name.schema.json") ∧
      Plan.ofOptions namesakesTurned again = Plan.ofOptions namesakes unbrokenOptions := by
  intro again
  have h : Reordered namesakes namesakesTurned :=
    ⟨rfl, List.reverse_perm _, by decide +kernel⟩
  have hsame : ∀ name, name ∈ again.exclude ↔ name ∈ unbrokenOptions.exclude := by
    simp [again, unbrokenOptions]
  have hplan := (plan_reordered (by decide +kernel) h .standard unbrokenOptions hsame).2.2.2.1
  have hfound : discoverSchemas namesakes unbrokenOptions.schemasDir unbrokenOptions.exclude =
      .ok [⟨"s/user-name.schema.json"⟩, ⟨"s/user_name.schema.json"⟩] := by
    have hroot : namesakes.resolve unbrokenOptions.schemasDir = .ok [.text "s"] :=
      toOption_eq_some.mp (by decide +kernel)
    rw [discoverSchemas_of_directory hroot (by decide +kernel), sortTexts,
      List.mergeSort_of_pairwise (by decide +kernel)]
    decide +kernel
  have hload : loadSchemas namesakes unbrokenOptions.schemasDir unbrokenOptions.exclude =
      [⟨"s/user-name.schema.json"⟩, ⟨"s/user_name.schema.json"⟩].mapM (loadDocument namesakes) := by
    unfold loadSchemas
    rw [hfound]
  refine ⟨hplan.trans ?_, hplan⟩
  change loadSchemas namesakes unbrokenOptions.schemasDir unbrokenOptions.exclude >>= _ = _
  rw [hload]
  decide +kernel

end SchemaBindings
