import Mathlib.Data.List.Nodup
import Mathlib.Order.Bounds.Basic
import SchemaBindings.TypeSet

/-! # Which types are taken together

The check goes through the types in order and looks at those before. Whether it
takes them does not depend on the order: every type has a name, and no two share
a name or the lower-case form of one. If it does not, the order says which type
is to blame: the first that has no name or collides with one before it. Those
before that one are fit, so there is only one that it collides with. -/

namespace SchemaBindings.TypeSet

theorem find?_eq_none {α : Type} [DecidableEq α] {f : TypeDescriptor → α} {a : α}
    {ds : List TypeDescriptor} : ds.find? (fun d => decide (f d = a)) = none ↔ a ∉ ds.map f := by
  rw [List.find?_eq_none, List.mem_map]
  constructor
  · rintro h ⟨d, hd, hf⟩
    exact h d hd (decide_eq_true hf)
  · intro h d hd hf
    exact h ⟨d, hd, of_decide_eq_true hf⟩

theorem conflict?_eq_none {earlier : List TypeDescriptor} {d : TypeDescriptor} :
    conflict? earlier d = none ↔ d.canonicalName.isEmpty = false ∧
      d.canonicalName ∉ earlier.map (·.canonicalName) ∧ d.fileStem ∉ earlier.map (·.fileStem) := by
  unfold conflict?
  by_cases he : d.canonicalName.isEmpty = true
  · simp [he]
  · rw [if_neg he, Bool.eq_false_iff, ← find?_eq_none, ← find?_eq_none]
    cases earlier.find? fun e => decide (e.canonicalName = d.canonicalName) with
    | some first => simp
    | none => simp [he]

/-- The types before and those to come are fit together. -/
theorem firstConflict?_eq_none {earlier ds : List TypeDescriptor}
    (hnames : (earlier.map (·.canonicalName)).Nodup) (hstems : (earlier.map (·.fileStem)).Nodup) :
    firstConflict? earlier ds = none ↔ (∀ d ∈ ds, d.canonicalName.isEmpty = false) ∧
      ((earlier ++ ds).map (·.canonicalName)).Nodup ∧ ((earlier ++ ds).map (·.fileStem)).Nodup := by
  induction ds generalizing earlier with
  | nil => simp [firstConflict?, hnames, hstems]
  | cons d rest ih =>
    have hsnoc {f : TypeDescriptor → String} (hf : (earlier.map f).Nodup) :
        ((earlier ++ [d]).map f).Nodup ↔ f d ∉ earlier.map f := by
      rw [List.map_append, List.map_singleton, ← List.concat_eq_append, List.nodup_concat]
      exact and_iff_left hf
    have hfront {f : TypeDescriptor → String} (h : ((earlier ++ d :: rest).map f).Nodup) :
        ((earlier ++ [d]).map f).Nodup := by
      refine h.sublist (List.Sublist.map f ?_)
      rw [List.append_cons earlier d rest]
      exact List.sublist_append_left _ _
    unfold firstConflict?
    cases hc : conflict? earlier d with
    | some e =>
      refine ⟨fun h => absurd h (Option.some_ne_none e), fun ⟨hempty, hn, hs⟩ => ?_⟩
      have hnone : conflict? earlier d = none := conflict?_eq_none.mpr
        ⟨hempty d (List.mem_cons_self ..), (hsnoc hnames).mp (hfront hn),
          (hsnoc hstems).mp (hfront hs)⟩
      rw [hc] at hnone
      cases hnone
    | none =>
      obtain ⟨hempty, hn, hs⟩ := conflict?_eq_none.mp hc
      dsimp only
      rw [ih ((hsnoc hnames).mpr hn) ((hsnoc hstems).mpr hs), List.append_assoc,
        List.singleton_append, List.forall_mem_cons]
      exact ⟨fun ⟨h, hn, hs⟩ => ⟨⟨hempty, h⟩, hn, hs⟩, fun ⟨⟨_, h⟩, hn, hs⟩ => ⟨h, hn, hs⟩⟩

/-- Types are taken if each has a name and no two share one, in lower case or not. -/
theorem ofList_eq_ok {ds : List TypeDescriptor} {types : TypeSet} :
    ofList ds = .ok types ↔ types = ⟨ds⟩ ∧ (∀ d ∈ ds, d.canonicalName.isEmpty = false) ∧
      (ds.map (·.canonicalName)).Nodup ∧ (ds.map (·.fileStem)).Nodup := by
  have hfit : firstConflict? [] ds = none ↔ _ :=
    firstConflict?_eq_none List.nodup_nil List.nodup_nil
  rw [List.nil_append] at hfit
  unfold ofList
  cases hc : firstConflict? [] ds with
  | some e =>
    refine ⟨fun h => (by cases h), fun ⟨_, h⟩ => ?_⟩
    rw [hfit.mpr h] at hc
    cases hc
  | none =>
    constructor
    · intro h
      cases h
      exact ⟨rfl, hfit.mp hc⟩
    · rintro ⟨rfl, -⟩
      rfl

/-! ## Which type is to blame -/

section

variable {earlier before after ds : List TypeDescriptor} {d : TypeDescriptor} {e : GenerationError}

theorem conflict?_eq_some (h : conflict? earlier d = some e) :
    (d.canonicalName = "" ∧ e = .emptyName d.sourceFileName) ∨
      d.canonicalName ≠ "" ∧ ∃ first ∈ earlier, first.fileStem = d.fileStem ∧
        e = .duplicateName (if first.canonicalName = d.canonicalName then d.canonicalName
          else d.fileStem) first.sourceFileName d.sourceFileName := by
  unfold conflict? at h
  split at h
  · rename_i hempty
    cases h
    exact .inl ⟨String.isEmpty_iff.mp hempty, rfl⟩
  · rename_i hempty
    refine .inr ⟨fun hname => hempty (String.isEmpty_iff.mpr hname), ?_⟩
    split at h
    · rename_i first hfind
      cases h
      have hname : first.canonicalName = d.canonicalName := by simpa using List.find?_some hfind
      refine ⟨first, List.mem_of_find?_eq_some hfind, congrArg moduleFileStem hname, ?_⟩
      rw [if_pos hname]
    · rename_i hnone
      obtain ⟨first, hfind, rfl⟩ := Option.map_eq_some_iff.mp h
      have hmem := List.mem_of_find?_eq_some hfind
      have hstem : first.fileStem = d.fileStem := by simpa using List.find?_some hfind
      refine ⟨first, hmem, hstem, ?_⟩
      rw [if_neg fun hname => find?_eq_none.mp hnone (List.mem_map.mpr ⟨first, hmem, hname⟩)]

/-- The types before the one that is to blame have no conflict. -/
theorem firstConflict?_eq_some (h : firstConflict? earlier ds = some e) :
    ∃ before d after, ds = before ++ d :: after ∧ firstConflict? earlier before = none ∧
      conflict? (earlier ++ before) d = some e := by
  induction ds generalizing earlier with
  | nil => cases h
  | cons d rest ih =>
    unfold firstConflict? at h
    cases hc : conflict? earlier d with
    | some e' =>
      rw [hc] at h
      cases h
      exact ⟨[], d, rest, rfl, rfl, by rwa [List.append_nil]⟩
    | none =>
      rw [hc] at h
      obtain ⟨before, d', after, rfl, hnone, hsome⟩ := ih h
      refine ⟨d :: before, d', after, rfl, ?_, by rwa [List.append_cons]⟩
      unfold firstConflict?
      rw [hc]
      exact hnone

/-- A type has no name, or the file stem of one before it. -/
def AtFault (ds : List TypeDescriptor) (i : Nat) : Prop :=
  ∃ d, ds[i]? = some d ∧ (d.canonicalName = "" ∨
    ∃ j < i, ∃ first, ds[j]? = some first ∧ first.fileStem = d.fileStem)

/-- What is said of a type that is at fault: it has no name, or there is one type before it that has
its file stem, and maybe its name. -/
inductive Blames (ds : List TypeDescriptor) (i : Nat) : GenerationError → Prop where
  | nameless {d : TypeDescriptor} (hd : ds[i]? = some d) (hname : d.canonicalName = "") :
      Blames ds i (.emptyName d.sourceFileName)
  | collides {d first : TypeDescriptor} {j : Nat} (hd : ds[i]? = some d)
      (hname : d.canonicalName ≠ "") (hj : j < i) (hfirst : ds[j]? = some first)
      (hstem : first.fileStem = d.fileStem)
      (honly : ∀ k < i, ∀ other, ds[k]? = some other → other.fileStem = d.fileStem → k = j) :
      Blames ds i (.duplicateName (if first.canonicalName = d.canonicalName then d.canonicalName
        else d.fileStem) first.sourceFileName d.sourceFileName)

theorem Blames.unique {e' : GenerationError} {i : Nat} (h : Blames ds i e) (h' : Blames ds i e') :
    e = e' := by
  cases h with
  | nameless hd hname =>
    cases h' with
    | nameless hd' => rw [Option.some.inj (hd.symm.trans hd')]
    | collides hd' hname' =>
      cases hd.symm.trans hd'
      exact absurd hname hname'
  | collides hd hname hj hfirst hstem honly =>
    cases h' with
    | nameless hd' hname' =>
      cases hd.symm.trans hd'
      exact absurd hname' hname
    | collides hd' _ hj' hfirst' hstem' =>
      cases hd.symm.trans hd'
      obtain rfl := honly _ hj' _ hfirst' hstem'
      cases hfirst.symm.trans hfirst'
      rfl

/-- Among types with different file stems, the stem tells the index. -/
theorem index_eq_of_fileStem (h : (ds.map (·.fileStem)).Nodup) {j k : Nat}
    {first other : TypeDescriptor} (hj : ds[j]? = some first) (hk : ds[k]? = some other)
    (hstem : first.fileStem = other.fileStem) : j = k := by
  obtain ⟨hlt, -⟩ := List.getElem?_eq_some_iff.mp hj
  refine (List.getElem?_inj (by rwa [List.length_map]) h).mp ?_
  rw [List.getElem?_map, List.getElem?_map, hj, hk]
  exact congrArg some hstem

/-- No type at the front is at fault if those at the front are fit together. -/
theorem not_atFault (hnames : ∀ d ∈ before, d.canonicalName.isEmpty = false)
    (hstems : (before.map (·.fileStem)).Nodup) {i : Nat} (hi : i < before.length) :
    ¬ AtFault (before ++ after) i := by
  rintro ⟨d, hd, hfault⟩
  rw [List.getElem?_append_left hi] at hd
  rcases hfault with hname | ⟨j, hj, first, hfirst, hstem⟩
  · have hempty := hnames d (List.mem_of_getElem? hd)
    rw [hname] at hempty
    cases hempty
  · rw [List.getElem?_append_left (hj.trans hi)] at hfirst
    exact hj.ne (index_eq_of_fileStem hstems hfirst hd hstem)

/-- A type that is not taken after others that are fit is the first at fault. -/
theorem blames_of_conflict? (hnames : ∀ d ∈ before, d.canonicalName.isEmpty = false)
    (hstems : (before.map (·.fileStem)).Nodup) (h : conflict? before d = some e) :
    IsLeast {i | AtFault (before ++ d :: after) i} before.length ∧
      Blames (before ++ d :: after) before.length e := by
  have hd : (before ++ d :: after)[before.length]? = some d := by simp
  have hfront {k : Nat} (hk : k < before.length) :
      (before ++ d :: after)[k]? = before[k]? := List.getElem?_append_left hk
  have hleast (hfault : AtFault (before ++ d :: after) before.length) :
      IsLeast {i | AtFault (before ++ d :: after) i} before.length :=
    ⟨hfault, fun i hi => Nat.le_of_not_lt fun hlt => not_atFault hnames hstems hlt hi⟩
  rcases conflict?_eq_some h with ⟨hname, rfl⟩ | ⟨hname, first, hmem, hstem, rfl⟩
  · exact ⟨hleast ⟨d, hd, .inl hname⟩, .nameless hd hname⟩
  · obtain ⟨j, hj, hfirst⟩ := List.getElem_of_mem hmem
    have hfirst := List.getElem?_eq_some_iff.mpr ⟨hj, hfirst⟩
    refine ⟨hleast ⟨d, hd, .inr ⟨j, hj, first, (hfront hj).trans hfirst, hstem⟩⟩, ?_⟩
    refine .collides hd hname hj ((hfront hj).trans hfirst) hstem fun k hk other hother hother' => ?_
    exact index_eq_of_fileStem hstems ((hfront hk).symm.trans hother) hfirst (hother'.trans hstem.symm)

/-- Types that are not taken have a first one that is at fault, and it is blamed. -/
theorem ofList_eq_error : ofList ds = .error e ↔ ∃ i, IsLeast {i | AtFault ds i} i ∧ Blames ds i e := by
  have hforward {e : GenerationError} (h : ofList ds = .error e) :
      ∃ i, IsLeast {i | AtFault ds i} i ∧ Blames ds i e := by
    unfold ofList at h
    split at h
    · rename_i hconflict
      cases h
      obtain ⟨before, d, after, rfl, hnone, hsome⟩ := firstConflict?_eq_some hconflict
      have hfit : firstConflict? [] before = none ↔ _ :=
        firstConflict?_eq_none List.nodup_nil List.nodup_nil
      obtain ⟨hnames, -, hstems⟩ := hfit.mp hnone
      exact ⟨_, blames_of_conflict? hnames hstems hsome⟩
    · cases h
  refine ⟨hforward, fun ⟨i, hleast, hblames⟩ => ?_⟩
  cases hrun : ofList ds with
  | error e' =>
    obtain ⟨i', hleast', hblames'⟩ := hforward hrun
    obtain rfl := hleast.unique hleast'
    rw [hblames'.unique hblames]
  | ok types =>
    obtain ⟨-, hnames, -, hstems⟩ := ofList_eq_ok.mp hrun
    obtain ⟨d, hd, -⟩ := hleast.1
    obtain ⟨hlt, -⟩ := List.getElem?_eq_some_iff.mp hd
    have hfault : AtFault (ds ++ []) i := (List.append_nil ds).symm ▸ hleast.1
    exact absurd hfault (not_atFault hnames hstems hlt)

end

/-! ## Types of schema files -/

/-- The types that some schema files stand for. -/
def typesOf (files : List (String × Json)) : List TypeDescriptor :=
  files.map fun file => .ofFile file.1 file.2

theorem canonicalName_of_mem_typesOf {files : List (String × Json)} {d : TypeDescriptor}
    (h : d ∈ typesOf files) : d.canonicalName = canonicalOfStem d.stem := by
  obtain ⟨file, -, rfl⟩ := List.mem_map.mp h
  rfl

/-- In a set of types, the stem of a schema file leads to the type of the file. -/
theorem byStem?_stem {files : List (String × Json)} {types : TypeSet}
    (h : ofList (typesOf files) = .ok types) {d : TypeDescriptor} (hd : d ∈ typesOf files) :
    types.byStem? d.stem = some d := by
  obtain ⟨rfl, -, hnames, -⟩ := ofList_eq_ok.mp h
  have hsome : ((typesOf files).find? fun other => decide (other.stem = d.stem)).isSome = true :=
    List.find?_isSome.mpr ⟨d, hd, decide_eq_true rfl⟩
  obtain ⟨found, hfind⟩ := Option.isSome_iff_exists.mp hsome
  have hmem := List.mem_of_find?_eq_some hfind
  have hstem : found.stem = d.stem := by simpa using List.find?_some hfind
  have hname : found.canonicalName = d.canonicalName := by
    rw [canonicalName_of_mem_typesOf hmem, canonicalName_of_mem_typesOf hd, hstem]
  exact hfind.trans (congrArg some (List.inj_on_of_nodup_map hnames hmem hd hname))

/-- The types of schema files are taken, in their order, just if each has a name and no two names are
one in lower case. Otherwise the first type without a name, or with the lower-case name of one before
it, is to blame, and so is the one before it. In a set that is taken, the stem of every file leads to
its type. -/
theorem ofList_decides (files : List (String × Json)) :
    (∀ types, ofList (typesOf files) = .ok types ↔ types.descriptors = typesOf files ∧
      (∀ d ∈ typesOf files, d.canonicalName ≠ "") ∧
      ((typesOf files).map fun d => Text.lower d.canonicalName).Nodup) ∧
    (∀ e, ofList (typesOf files) = .error e ↔
      ∃ i, IsLeast {i | AtFault (typesOf files) i} i ∧ Blames (typesOf files) i e) ∧
    ∀ types, ofList (typesOf files) = .ok types →
      ∀ d ∈ typesOf files, types.byStem? d.stem = some d := by
  refine ⟨fun types => ?_, fun e => ofList_eq_error, fun types h d hd => byStem?_stem h hd⟩
  have hname (d : TypeDescriptor) : d.canonicalName.isEmpty = false ↔ d.canonicalName ≠ "" := by
    rw [Bool.eq_false_iff, ne_eq, String.isEmpty_iff]
  rw [ofList_eq_ok]
  simp only [hname]
  constructor
  · rintro ⟨rfl, hnames, -, hstems⟩
    exact ⟨rfl, hnames, hstems⟩
  · rintro ⟨hdescriptors, hnames, hstems⟩
    refine ⟨congrArg TypeSet.mk hdescriptors, hnames, ?_, hstems⟩
    refine List.Nodup.of_map Text.lower ?_
    rwa [List.map_map]

/-- Schema files of which the last but one takes the lower-case name of the first. -/
def profiles : List (String × Json) :=
  [("user-profile.schema.json", .null), ("address.schema.json", .null),
    ("userprofile.schema.json", .null), ("user_profile.schema.json", .null)]

theorem ofList_decides_profiles :
    (∀ d ∈ typesOf (profiles.take 2), (TypeSet.mk (typesOf (profiles.take 2))).byStem? d.stem = some d) ∧
    ∃ i, IsLeast {i | AtFault (typesOf profiles) i} i ∧ Blames (typesOf profiles) i
      (.duplicateName "userprofile" "user-profile.schema.json" "userprofile.schema.json") := by
  have htaken : firstConflict? [] (typesOf (profiles.take 2)) = none := by decide +kernel
  have hblamed : firstConflict? [] (typesOf profiles) = some (.duplicateName "userprofile"
      "user-profile.schema.json" "userprofile.schema.json") := by decide +kernel
  constructor
  · refine (ofList_decides (profiles.take 2)).2.2 _ ?_
    unfold ofList
    rw [htaken]
  · refine ((ofList_decides profiles).2.1 _).mp ?_
    unfold ofList
    rw [hblamed]

end SchemaBindings.TypeSet
