import Mathlib.Data.List.Perm.Basic
import SchemaBindings.Proofs.BundleReferences

/-! # The order of a bundle

Documents are sorted by their file names before anything is done with them.
Where no two files share a name, one list alone is the sorted one, so whatever
depends on the order of the work (which files come to be known, where a file is
copied in, which failure comes first) is the same for every order in which the
documents are given. The definitions stand in the order of the file names. -/

namespace SchemaBindings

/-! ## Sorting -/

section Sorting

variable {α : Type} {xs ys : List α}

theorem pairwise_sorted (key : α → String) (xs : List α) :
    (xs.mergeSort fun a b => decide (key a ≤ key b)).Pairwise fun a b => key a ≤ key b := by
  have hsorted : (xs.mergeSort fun a b => decide (key a ≤ key b)).Pairwise
      fun a b => decide (key a ≤ key b) = true := by
    refine List.pairwise_mergeSort ?_ ?_ xs
    · intro a b c hab hbc
      simp only [decide_eq_true_eq] at hab hbc ⊢
      exact String.le_trans hab hbc
    · intro a b
      simp only [Bool.or_eq_true, decide_eq_true_eq]
      exact String.le_total (key a) (key b)
  exact hsorted.imp fun h => of_decide_eq_true h

/-- Items that their texts tell apart are sorted in one way only. -/
theorem sorted_eq_of_perm (key : α → String) (hkeys : ∀ a ∈ xs, ∀ b ∈ xs, key a = key b → a = b)
    (h : xs.Perm ys) :
    (ys.mergeSort fun a b => decide (key a ≤ key b)) =
      xs.mergeSort fun a b => decide (key a ≤ key b) := by
  have hperm := (List.mergeSort_perm ys fun a b => decide (key a ≤ key b)).trans
    (h.symm.trans (List.mergeSort_perm xs fun a b => decide (key a ≤ key b)).symm)
  refine hperm.eq_of_pairwise ?_ (pairwise_sorted key ys) (pairwise_sorted key xs)
  intro a b ha hb hab hba
  have ha : a ∈ xs := h.mem_iff.mpr (List.mem_mergeSort.mp ha)
  exact hkeys a ha b (List.mem_mergeSort.mp hb) (String.le_antisymm hab hba)

/-- Texts in order, none of them twice, are in strict order. -/
theorem pairwise_lt_of_le {names : List String} (h : names.Pairwise (· ≤ ·)) (hd : names.Nodup) :
    names.Pairwise (· < ·) := by
  refine h.imp₂ ?_ hd
  intro a b hab hne
  exact String.not_le.mp fun hba => hne (String.le_antisymm hab hba)

end Sorting

namespace Bundle

variable {t : FileTree} {ds ds' : List SchemaDocument}

/-- Documents with names of their own are sorted in one way only. -/
theorem sortDocuments_eq_of_perm (hnames : (ds.map (·.fileName)).Nodup) (h : ds.Perm ds') :
    sortDocuments ds' = sortDocuments ds :=
  sorted_eq_of_perm SchemaDocument.fileName (fun _ ha _ hb => List.inj_on_of_nodup_map hnames ha hb) h

/-- Sorted documents with names of their own come in the strict order of these. -/
theorem fileNames_sortDocuments (hnames : (ds.map (·.fileName)).Nodup) :
    ((sortDocuments ds).map (·.fileName)).Pairwise (· < ·) :=
  pairwise_lt_of_le (List.pairwise_map.mpr (pairwise_sorted (·.fileName) ds))
    (((sortDocuments_perm ds).map _).nodup_iff.mpr hnames)

/-! ## Bundling -/

/-- All that a bundling does with its documents it does with the sorted ones. -/
theorem assemble_congr (h : sortDocuments ds = sortDocuments ds') :
    assemble t ds = assemble t ds' := by
  unfold assemble
  rw [h]

/-- The definitions of a bundle stand under the keys of its members, in their order. -/
theorem names_of_ofDocuments {b : Bundle} (hstems : (ds.map fun d => schemaStem d.fileName).Nodup)
    (h : ofDocuments t ds = .ok b) : ∃ definitions, b.definitions? = some definitions ∧
      definitions.names = b.members.map (·.key) := by
  obtain ⟨a, ha, rfl⟩ := ofDocuments_eq_ok h
  obtain ⟨definitions, s', hrun, hdocument, -⟩ := assemble_eq_ok ha
  have hnames : definitions.names = a.bundle.members.map (·.key) := by
    rw [names_of_relocateParts hrun, members_of_assemble ha, List.map_map, List.map_map]
    rfl
  have hd := distinct_of_relocateParts hstems hrun
  refine ⟨definitions, ?_, hnames⟩
  unfold definitions?
  rw [hdocument, documentOf, OrderedMap.insertAll_nil hd]
  rfl

/-- A bundle of documents with names and stems of their own does not depend on the order in which
they are given: it is the same bundle with the same places, or the same failure. Its definitions
are one for each document, under the stems, in the order of the file names, and so are its
members. -/
theorem bundle_order (t : FileTree) (hnames : (ds.map (·.fileName)).Nodup)
    (hstems : (ds.map fun d => schemaStem d.fileName).Nodup) (hperm : ds.Perm ds') :
    assemble t ds' = assemble t ds ∧ ofDocuments t ds' = ofDocuments t ds ∧
    ∀ b, ofDocuments t ds = .ok b → ∃ definitions, b.definitions? = some definitions ∧
      definitions.names = b.members.map (·.key) ∧ definitions.names.Nodup ∧
      definitions.names.Perm (ds.map fun d => schemaStem d.fileName) ∧
      (b.members.map (·.fileName)).Perm (ds.map (·.fileName)) ∧
      (b.members.map (·.fileName)).Pairwise (· < ·) ∧
      ∀ m ∈ b.members, m = .ofFile m.fileName := by
  have hsame : assemble t ds' = assemble t ds :=
    assemble_congr (sortDocuments_eq_of_perm hnames hperm)
  refine ⟨hsame, ?_, ?_⟩
  · unfold ofDocuments
    rw [hsame]
  · intro b hb
    obtain ⟨definitions, hdefinitions, hkeys⟩ := names_of_ofDocuments hstems hb
    obtain ⟨a, ha, rfl⟩ := ofDocuments_eq_ok hb
    have hmembers := members_of_assemble ha
    have hfiles : a.bundle.members.map (·.fileName) = (sortDocuments ds).map (·.fileName) := by
      rw [hmembers, List.map_map]
      rfl
    have hstemsOf : a.bundle.members.map (·.key) =
        (sortDocuments ds).map fun d => schemaStem d.fileName := by
      rw [hmembers, List.map_map]
      rfl
    refine ⟨definitions, hdefinitions, hkeys, ?_, ?_, ?_, ?_, ?_⟩
    · rw [hkeys]
      exact (members_of_ofDocuments hstems hb).1
    · rw [hkeys, hstemsOf]
      exact (sortDocuments_perm ds).map _
    · rw [hfiles]
      exact (sortDocuments_perm ds).map _
    · rw [hfiles]
      exact fileNames_sortDocuments hnames
    · intro m hm
      rw [hmembers] at hm
      obtain ⟨d, -, rfl⟩ := List.mem_map.mp hm
      rfl

/-! ## A file that two schemas refer to -/

/-- A schema that has the name as a property, and one that is the name. -/
def namesakes : List SchemaDocument := [
  .ofPath ⟨"s/a.schema.json"⟩ (.object [("properties", .object [
    ("name", .object [("$ref", .string "../name.json")])])]),
  .ofPath ⟨"s/b.schema.json"⟩ (.object [("$ref", .string "../name.json")])]

/-- The file is copied into the schema whose own file comes first, from either order. -/
theorem bundle_order_namesakes : ∃ b, ofDocuments namesFolder namesakes.reverse = .ok b ∧
    b.document.at? ⟨["$defs", "b", "$ref"]⟩ = some (.string "#/$defs/a/properties/name") ∧
    (b.members.map (·.fileName)).Pairwise (· < ·) := by
  have hsorted : sortDocuments namesakes = namesakes :=
    List.mergeSort_of_pairwise (by decide +kernel)
  have hrun : (ofDocuments namesFolder namesakes).toOption.any (fun b =>
      decide (b.document.at? ⟨["$defs", "b", "$ref"]⟩ =
        some (.string "#/$defs/a/properties/name"))) = true := by
    unfold ofDocuments assemble
    rw [hsorted]
    decide +kernel
  obtain ⟨b, hsome, hplace⟩ := (Option.any_eq_true _ _).mp hrun
  have hb := toOption_eq_some.mp hsome
  obtain ⟨-, hsame, hbundle⟩ := bundle_order namesFolder (by decide +kernel) (by decide +kernel)
    namesakes.reverse_perm.symm
  obtain ⟨definitions, -, -, -, -, -, hnames, -⟩ := hbundle b hb
  exact ⟨b, hsame.trans hb, of_decide_eq_true hplace, hnames⟩

end Bundle

end SchemaBindings
