import SchemaBindings.Proofs.EmittedNames

/-! # Modules beside the types they export

The index of the type modules declares a module for every type and exports the
type from it, so modules and types have their names in one scope. Both names
are made of the name of the type, the module's of its lower-case form. A
character that has a lower-case form tells a type from every module, and of the
words that are mended each starts with a letter that one of the two cannot
start with. What is left are names without such characters: there the module
and the type are the same word, put behind the same guard. -/

namespace SchemaBindings

namespace Code

/-- Whether a word starts with a letter that has no marks. -/
def startsPlain (cs : List Char) : Bool := cs.head?.any Char.isAlpha

theorem startsPlain_append {cs : List Char} (h : startsPlain cs = true) (ds : List Char) :
    startsPlain (cs ++ ds) = true := by
  cases cs with
  | nil => cases h
  | cons c cs => exact h

/-- A word does not start plain if it starts with neither a capital nor a small letter. -/
theorem startsPlain_eq_false {cs : List Char} (hupper : ∀ c ∈ cs.head?, c.isUpper = false)
    (hlower : ∀ c ∈ cs.head?, c.isLower = false) : startsPlain cs = false := by
  cases cs with
  | nil => rfl
  | cons c cs =>
    have hu := hupper c rfl
    have hl := hlower c rfl
    exact Bool.or_eq_false_iff.mpr ⟨hu, hl⟩

theorem mem_guardStart {cs : List Char} {d : Char} (h : d ∈ guardStart cs) : d = '_' ∨ d ∈ cs := by
  cases cs with
  | nil => cases h
  | cons c cs =>
    rw [guardStart_cons] at h
    split at h
    · exact List.mem_cons.mp h
    · exact Or.inr h

theorem mem_guardStart_of_mem {cs : List Char} {d : Char} (h : d ∈ cs) : d ∈ guardStart cs := by
  cases cs with
  | nil => cases h
  | cons c cs =>
    rw [guardStart_cons]
    split
    · exact List.mem_cons_of_mem _ h
    · exact h

theorem mem_head?_guardStart {cs : List Char} {d : Char} (h : d ∈ (guardStart cs).head?) :
    d = '_' ∨ d ∈ cs.head? := by
  cases cs with
  | nil => cases h
  | cons c cs =>
    rw [guardStart_cons] at h
    split at h
    · exact Or.inl (Option.some.inj h).symm
    · exact Or.inr h

theorem mem_head?_mended {words : List String} {empty : String} {cs : List Char} {d : Char}
    (h : d ∈ (mended words empty cs).head?) :
    d = '_' ∨ d ∈ cs.head? ∨ d ∈ empty.toList.head? := by
  cases hb : isBlank cs with
  | true =>
    rw [mended_of_isBlank hb] at h
    exact Or.inr (Or.inr h)
  | false =>
    have hguarded : d = '_' ∨ d ∈ (guardStart cs).head? := by
      by_cases hw : String.ofList (guardStart cs) ∈ words
      · rw [mended_of_mem hb hw, List.head?_append] at h
        rcases Option.or_eq_some_iff.mp h with h | ⟨-, h⟩
        · exact Or.inr h
        · exact Or.inl (Option.some.inj h).symm
      · rw [mended_of_not_mem hb hw] at h
        exact Or.inr h
    rcases hguarded with h | h
    · exact Or.inl h
    · exact (mem_head?_guardStart h).imp_right Or.inl

/-- A word that does not start plain gets nothing but a guard. -/
theorem mended_eq_guardStart {words : List String} {empty : String}
    (hw : ∀ w ∈ empty :: words, startsPlain w.toList = true) {cs : List Char}
    (h : startsPlain (guardStart cs) = false) (hb : isBlank cs = false) :
    mended words empty cs = guardStart cs := by
  refine mended_of_not_mem hb fun hmem => ?_
  have hword := hw _ (List.mem_cons_of_mem _ hmem)
  rw [String.toList_ofList, h] at hword
  cases hword

/-- An identifier that does not start plain is a word that got nothing but a guard. -/
theorem guardStart_of_mended {words : List String} {empty : String}
    (hw : ∀ w ∈ empty :: words, startsPlain w.toList = true) {cs : List Char}
    (h : startsPlain (mended words empty cs) = false) :
    isBlank cs = false ∧ mended words empty cs = guardStart cs := by
  have hb : isBlank cs = false := by
    rw [← Bool.not_eq_true]
    intro hb
    rw [mended_of_isBlank hb, hw empty (List.mem_cons_self ..)] at h
    cases h
  refine ⟨hb, mended_of_not_mem hb fun hmem => ?_⟩
  have hword := hw _ (List.mem_cons_of_mem _ hmem)
  rw [String.toList_ofList] at hword
  rw [mended_of_mem hb hmem, startsPlain_append hword] at h
  cases h

theorem startsPlain_moduleWords : ∀ w ∈ "module" :: keywords, startsPlain w.toList = true := by
  decide

theorem startsPlain_typeWords : ∀ w ∈ "Unnamed" :: typeWords, startsPlain w.toList = true := by
  decide

theorem isBlank_guardStart (cs : List Char) : isBlank (guardStart cs) = isBlank cs := by
  cases cs with
  | nil => rfl
  | cons c cs =>
    rw [guardStart_cons]
    split <;> simp [isBlank]

/-- A word that starts with no capital and one that starts with no small letter become one
identifier exactly if they are not blank and the guards make them the same. -/
theorem mended_module_eq_type {cs ds : List Char} (hc : ∀ c ∈ cs.head?, c.isUpper = false)
    (hd : ∀ d ∈ ds.head?, d.isLower = false) :
    mended keywords "module" cs = mended typeWords "Unnamed" ds ↔
      isBlank ds = false ∧ guardStart cs = guardStart ds := by
  constructor
  · intro h
    have hupper : ∀ c ∈ (mended keywords "module" cs).head?, c.isUpper = false := by
      intro c hm
      rcases mem_head?_mended hm with rfl | hm | hm
      · rfl
      · exact hc c hm
      · rw [← Option.some.inj hm]
        rfl
    have hlower : ∀ d ∈ (mended typeWords "Unnamed" ds).head?, d.isLower = false := by
      intro d hm
      rcases mem_head?_mended hm with rfl | hm | hm
      · rfl
      · exact hd d hm
      · rw [← Option.some.inj hm]
        rfl
    have hplain := startsPlain_eq_false hupper (h ▸ hlower)
    obtain ⟨-, hmodule⟩ := guardStart_of_mended startsPlain_moduleWords hplain
    rw [h] at hplain
    obtain ⟨hblank, htype⟩ := guardStart_of_mended startsPlain_typeWords hplain
    exact ⟨hblank, hmodule.symm.trans (h.trans htype)⟩
  · rintro ⟨hblank, h⟩
    have hplain : startsPlain (guardStart cs) = false := by
      refine startsPlain_eq_false (fun c hm => ?_) fun c hm => ?_
      · rcases mem_head?_guardStart hm with rfl | hm
        · rfl
        · exact hc c hm
      · rcases mem_head?_guardStart (h ▸ hm) with rfl | hm
        · rfl
        · exact hd c hm
    have hblank' : isBlank cs = false := by rw [← isBlank_guardStart, h, isBlank_guardStart, hblank]
    rw [mended_eq_guardStart startsPlain_moduleWords hplain hblank', h,
      mended_eq_guardStart startsPlain_typeWords (h ▸ hplain) hblank]

/-- Masking keeps a character or makes it an underscore. -/
theorem mem_masked {name : String} {c : Char} (h : c ∈ masked name) : c = '_' ∨ c ∈ name.toList := by
  obtain ⟨d, hd, rfl⟩ := List.mem_map.mp h
  split
  · exact Or.inr hd
  · exact Or.inl rfl

theorem mem_head?_masked {name : String} {c : Char} (h : c ∈ (masked name).head?) :
    c = '_' ∨ c ∈ name.toList.head? := by
  unfold masked at h
  rw [List.head?_map] at h
  obtain ⟨d, hd, rfl⟩ := Option.map_eq_some_iff.mp h
  split
  · exact Or.inr hd
  · exact Or.inl rfl

/-- The word that a module is made of has no characters with a lower-case form. -/
theorem lowerChar_of_mem_masked {canonical : String} {c : Char}
    (h : c ∈ masked (moduleFileStem canonical)) : Text.lowerChar c = [c] := by
  rcases mem_masked h with rfl | h
  · rfl
  · exact Text.lowerChar_of_mem_lower h

/-- A capital letter without marks has a lower-case form. -/
theorem isUpper_eq_false {c : Char} (h : Text.lowerChar c = [c]) : c.isUpper = false := by
  rw [← Bool.not_eq_true]
  intro hupper
  have hletter : c.isAlpha = true := Bool.or_eq_true_iff.mpr (.inl hupper)
  have hlt := Text.lt_of_isAlphanum (c := c) (Bool.or_eq_true_iff.mpr (.inl hletter))
  exact Text.forall_small (P := fun c => c.isUpper = true → Text.lowerChar c ≠ [c])
    (by decide +kernel) hlt hupper h

end Code

open Code

/-- The name of a type starts with none of the small letters that have no marks. -/
theorem isLower_canonicalName {fileName : String} {c : Char}
    (h : c ∈ (canonicalName fileName).toList.head?) : c.isLower = false := by
  unfold canonicalName canonicalOfStem at h
  rw [String.toList_ofList] at h
  cases hwords : (Text.splitWhere isStemSeparator (schemaStem fileName).toList).filter
      (!·.isEmpty) with
  | nil =>
    rw [hwords] at h
    cases h
  | cons w ws =>
    have hw : w ∈ (Text.splitWhere isStemSeparator (schemaStem fileName).toList).filter
        (!·.isEmpty) := hwords ▸ List.mem_cons_self ..
    rw [hwords, List.flatMap_cons] at h
    cases w with
    | nil => simpa using (List.mem_filter.mp hw).2
    | cons d rest =>
      obtain ⟨e, es, heq, hlower⟩ := Text.upperChar_head d
      have hfirst : upperFirst (d :: rest) = Text.upperChar d ++ rest := rfl
      rw [hfirst, heq] at h
      rw [← Option.some.inj h]
      exact hlower

/-- The module of one file has the name of the type of another exactly if the name of the type has
letters or numbers and, guarded, is the guarded lower-case form of the other. -/
theorem moduleIdent_eq_typeName {name fileName : String} :
    (ManifestEntry.ofCanonical name).module.ident =
        (ManifestEntry.ofCanonical (canonicalName fileName)).typeName ↔
      isBlank (masked (canonicalName fileName)) = false ∧
        guardStart (masked (moduleFileStem name)) = guardStart (masked (canonicalName fileName)) := by
  have hmodule : ∀ c ∈ (masked (moduleFileStem name)).head?, c.isUpper = false := fun c hc =>
    isUpper_eq_false (lowerChar_of_mem_masked (List.mem_of_mem_head? hc))
  have htype : ∀ d ∈ (masked (canonicalName fileName)).head?, d.isLower = false := by
    intro d hd
    rcases mem_head?_masked hd with rfl | hd
    · rfl
    · exact isLower_canonicalName hd
  unfold ManifestEntry.ofCanonical ModuleName.ofStem
  dsimp only
  rw [← mended_module_eq_type hmodule htype, ← toList_sanitize, ← toList_typeIdent,
    String.toList_inj]

/-- The types of some files that are accepted are exported beside modules of other names exactly if
no name of a type becomes, by the guard before a number, the lower-case form of one. Names in which a
character has a lower-case form never do. -/
theorem module_names_apart_iff {files : List (String × Json)} {types : TypeSet}
    (h : TypeSet.ofList (files.map fun f => TypeDescriptor.ofFile f.1 f.2) = .ok types) :
    let names := types.canonicalNames
    let entries := names.map ManifestEntry.ofCanonical
    ((∀ e ∈ entries, ∀ f ∈ entries, e.module.ident ≠ f.typeName) ↔
      ∀ a ∈ names, ∀ b ∈ names, isBlank (masked b) = false →
        guardStart (masked (moduleFileStem a)) ≠ guardStart (masked b)) ∧
    ((∀ name ∈ names, ∃ c ∈ masked name, Text.lowerChar c ≠ [c]) →
      ∀ e ∈ entries, ∀ f ∈ entries, e.module.ident ≠ f.typeName) := by
  intro names entries
  obtain ⟨rfl, -⟩ := TypeSet.ofList_eq_ok.mp h
  have hclash {a b : String} (hb : b ∈ names) :
      (ManifestEntry.ofCanonical a).module.ident = (ManifestEntry.ofCanonical b).typeName ↔
        isBlank (masked b) = false ∧
          guardStart (masked (moduleFileStem a)) = guardStart (masked b) := by
    obtain ⟨d, hd, rfl⟩ := List.mem_map.mp hb
    obtain ⟨f, -, rfl⟩ := List.mem_map.mp hd
    exact moduleIdent_eq_typeName
  have hiff : (∀ e ∈ entries, ∀ f ∈ entries, e.module.ident ≠ f.typeName) ↔
      ∀ a ∈ names, ∀ b ∈ names, isBlank (masked b) = false →
        guardStart (masked (moduleFileStem a)) ≠ guardStart (masked b) := by
    simp only [entries, List.forall_mem_map]
    refine forall₂_congr fun a ha => forall₂_congr fun b hb => ?_
    rw [ne_eq, hclash hb, not_and]
  refine ⟨hiff, fun hcapital => hiff.mpr fun a ha b hb hblank hguard => ?_⟩
  obtain ⟨c, hc, hlower⟩ := hcapital b hb
  have hmem : c ∈ guardStart (masked (moduleFileStem a)) := by
    rw [hguard]
    exact mem_guardStart_of_mem hc
  rcases mem_guardStart hmem with rfl | hmem
  · exact hlower (by decide +kernel)
  · exact hlower (lowerChar_of_mem_masked hmem)

/-- The types of a user and of a second address. -/
theorem module_names_apart_two :
    let files := [("user-profile.schema.json", Json.null), ("2nd-address.schema.json", Json.null)]
    let names := files.map fun f => canonicalName f.1
    let entries := names.map ManifestEntry.ofCanonical
    ∀ e ∈ entries, ∀ f ∈ entries, e.module.ident ≠ f.typeName := by
  intro files names entries
  have hok : TypeSet.ofList (files.map fun f => TypeDescriptor.ofFile f.1 f.2) = .ok ⟨_⟩ :=
    TypeSet.ofList_eq_ok.mpr ⟨rfl, by decide +kernel⟩
  have hcapital : names.all (fun name => (masked name).any fun c =>
      decide (Text.lowerChar c ≠ [c])) = true := by decide +kernel
  refine (module_names_apart_iff hok).2 fun b hb => ?_
  obtain ⟨c, hc, hlower⟩ := List.any_eq_true.mp (List.all_eq_true.mp hcapital b hb)
  exact ⟨c, hc, of_decide_eq_true hlower⟩

/-- A number has no capital: the index declares a module and exports a type of one name. -/
theorem module_names_number :
    let d := TypeDescriptor.ofFile "2.schema.json" .null
    let entry := ManifestEntry.ofCanonical d.canonicalName
    TypeSet.ofList [d] = .ok ⟨[d]⟩ ∧ entry.module.ident = entry.typeName ∧
      Manifest.index [entry] (·.typeName) =
        "// @generated by schemagen\n\n#[path = \"2.rs\"]\npub mod _2;\n\npub use _2::_2;\n" := by
  intro d entry
  exact ⟨TypeSet.ofList_eq_ok.mpr ⟨rfl, by decide +kernel⟩, by decide +kernel⟩

end SchemaBindings
