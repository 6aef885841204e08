import SchemaBindings.Proofs.PlannedPaths
import SchemaBindings.Proofs.TreeVolumes
import SchemaBindings.Proofs.VolumeWrites

/-! # The files that a run changes

A run that has no plan leaves the disk alone. A run with a plan writes its files
in order until one cannot be written: then those before it have been written,
and of that one a beginning at most. All paths that are written are rows of
names below the output directory, whatever the schema files are called. So what
changes lies where such paths lead: below the output directory, unless a link
or a second name leads out of it. -/

namespace SchemaBindings

open Volume
open FileTree (namesOf namesOf_injective)

variable {v v' : Volume} {root place : Place}

namespace Volume

theorem file?_eq_some {p : Place} {c : Content} :
    v.file? p = some c ↔ v.tree.entry? (v.homeOf p) = some (.file c) := by
  unfold file?
  split
  · rename_i heq
    rw [heq, Option.some.injEq, Option.some.injEq, Entry.file.injEq]
  · rename_i hno
    simp only [reduceCtorEq, false_iff]
    exact hno c

theorem file?_keeps {lost : List Place} (h : Leaves v v' lost) {p : Place}
    (hp : v.homeOf p ∉ lost) : v'.file? p = v.file? p := by
  ext c
  rw [file?_eq_some, file?_eq_some, h.homeOf]
  exact h.tree.file_iff hp c

/-- Below a directory that has neither links nor second names, a plain path leads down by its names. -/
theorem resolve_bare {dir : Path} {rel : String} (hrel : Path.Plain rel)
    (hroot : v.resolve (dir.join ".") = .ok root) (hbare : v.IsBare root)
    (h : v.resolve (dir.join rel) = .ok place) : place = root ++ namesOf rel := by
  obtain ⟨root', links, hroot', hwalk⟩ := resolve_join hrel h
  cases hroot.symm.trans hroot'
  exact (walk_names hbare.encloses (List.prefix_refl _) hrel hwalk).2 hbare

end Volume

/-- What writing files below a directory does, of which the last may be a beginning. Each path leads to
what was put there, unless a later one leads to the same file; in a directory without links and second
names that is one of the same path. No other file is another than before: none that no path leads to
which was written, so none outside the directory as long as no link and no second name leads out of
it, and none of a path that was not written. An empty path stands for the working directory. -/
structure Wrote (v v' : Volume) (dir : Path) (writes : List (String × Content)) : Prop where
  contents : ∀ before w after, writes = before ++ w :: after →
    (∀ x ∈ after, v'.resolve (dir.join x.1) ≠ v'.resolve (dir.join w.1)) →
      v'.content? (dir.join w.1) = some w.2
  below : ∀ w ∈ writes, ∃ root place, v'.resolve (dir.join ".") = .ok root ∧
    v'.resolve (dir.join w.1) = .ok place ∧ (v.Encloses root → root <+: place)
  others : ∀ p, (∀ w ∈ writes, v'.resolve (dir.join w.1) ≠ .ok (v.homeOf p)) →
    v'.file? p = v.file? p
  outside : ∀ p, (∀ root, v'.resolve (dir.join ".") = .ok root →
    v.Encloses root ∧ ¬ root <+: p) → v'.file? p = v.file? p
  ownContents : ∀ root, v'.resolve (dir.join ".") = .ok root → v.IsBare root →
    ∀ before w after, writes = before ++ w :: after → (∀ x ∈ after, x.1 ≠ w.1) →
      v'.content? (dir.join w.1) = some w.2
  unwritten : ∀ root, v'.resolve (dir.join ".") = .ok root → v.IsBare root →
    ∀ path, Path.Plain path → path ∉ writes.map (·.1) →
      ∀ place, v'.resolve (dir.join path) = .ok place → v'.file? place = v.file? place

/-! ## Files below a directory -/

section

variable {dir : Path} {writes : List (String × Content)} {w : String × Content}

theorem content?_of_puts {before after : List (String × Content)}
    (h : Puts v v' (putsBelow dir (before ++ w :: after)))
    (hlast : ∀ x ∈ after, v'.resolve (dir.join x.1) ≠ v'.resolve (dir.join w.1)) :
    v'.content? (dir.join w.1) = some w.2 := by
  unfold putsBelow at h
  rw [List.map_append, List.map_cons] at h
  refine h.content? fun x hx => ?_
  obtain ⟨y, hy, rfl⟩ := List.mem_map.mp hx
  exact hlast y hy

theorem places_of_puts (h : Puts v v' (putsBelow dir writes)) (hw : w ∈ writes)
    (hplain : Path.Plain w.1) : ∃ root place, v'.resolve (dir.join ".") = .ok root ∧
      v'.resolve (dir.join w.1) = .ok place ∧ (v.Encloses root → root <+: place) := by
  have hput : (dir.join w.1, w.2) ∈ putsBelow dir writes := List.mem_map_of_mem hw
  obtain ⟨place, hr⟩ := h.resolves hput
  obtain ⟨root, links, hroot, hwalk⟩ := resolve_join hplain hr
  obtain ⟨lost, hleaves, -⟩ := h.leaves
  refine ⟨root, place, hroot, hr, fun henc => ?_⟩
  exact (walk_names (henc.after hleaves) (List.prefix_refl _) hplain hwalk).1

theorem file?_of_puts (h : Puts v v' (putsBelow dir writes))
    (hp : ∀ w ∈ writes, v'.resolve (dir.join w.1) ≠ .ok (v.homeOf place)) :
    v'.file? place = v.file? place := by
  obtain ⟨lost, hleaves, hlost⟩ := h.leaves
  refine file?_keeps hleaves fun hmem => ?_
  obtain ⟨x, hx, hr⟩ := hlost _ hmem
  obtain ⟨w, hw, rfl⟩ := List.mem_map.mp hx
  exact hp w hw hr

/-- Without links and second names, plain paths that lead to one place are one path. -/
theorem plain_path_unique {path path' : String} (hroot : v.resolve (dir.join ".") = .ok root)
    (hbare : v.IsBare root) (hpath : Path.Plain path) (hpath' : Path.Plain path')
    (hr : v.resolve (dir.join path) = .ok place) (hr' : v.resolve (dir.join path') = .ok place) :
    path = path' := by
  have hplace := resolve_bare hpath hroot hbare hr
  have hplace' := resolve_bare hpath' hroot hbare hr'
  exact namesOf_injective (List.append_cancel_left (hplace.symm.trans hplace'))

theorem wrote_of_puts (hplain : ∀ w ∈ writes, Path.Plain w.1)
    (h : Puts v v' (putsBelow dir writes)) : Wrote v v' dir writes := by
  obtain ⟨lost, hleaves, -⟩ := h.leaves
  have hbelow (w : String × Content) (hw : w ∈ writes) := places_of_puts h hw (hplain w hw)
  have hunique : ∀ root, v'.resolve (dir.join ".") = .ok root → v.IsBare root → ∀ w ∈ writes,
      ∀ path, Path.Plain path → v'.resolve (dir.join w.1) = v'.resolve (dir.join path) →
        w.1 = path := by
    intro root hroot hbare w hw path hpath hsame
    obtain ⟨_, place, -, hr, -⟩ := hbelow w hw
    exact plain_path_unique hroot (hbare.after hleaves) (hplain w hw) hpath hr (hsame.symm.trans hr)
  constructor
  case contents =>
    rintro before w after rfl hlast
    exact content?_of_puts h hlast
  case below => exact hbelow
  case others => exact fun p hp => file?_of_puts h hp
  case outside =>
    refine fun p hp => file?_of_puts h fun w hw hr => ?_
    obtain ⟨root, place, hroot, hr', hinside⟩ := hbelow w hw
    cases hr.symm.trans hr'
    obtain ⟨henc, hout⟩ := hp root hroot
    exact hout (henc.homeOf_iff.mp (hinside henc))
  case ownContents =>
    rintro root hroot hbare before w after rfl hlast
    refine content?_of_puts h fun x hx hsame => hlast x hx ?_
    exact hunique root hroot hbare x (List.mem_append_right _ (List.mem_cons_of_mem _ hx)) w.1
      (hplain w (List.mem_append_right _ (List.mem_cons_self ..))) hsame
  case unwritten =>
    intro root hroot hbare path hpath hnot place hr
    have hinside : root <+: place := by
      rw [resolve_bare hpath hroot (hbare.after hleaves) hr]
      exact List.prefix_append ..
    refine file?_of_puts h fun w hw hrw => hnot ?_
    rw [hbare.homeOf_eq hinside] at hrw
    rw [← hunique root hroot hbare w hw path hpath (hrw.trans hr.symm)]
    exact List.mem_map_of_mem hw

end

/-! ## Runs that change files -/

/-- A run without a plan changes nothing, whatever the schemas come from and whatever disk it writes to.
With a plan, the paths of its files are neither absolute nor lead up, and the run writes all of them,
or those before the first that cannot be written, which it tells with the path of the file or of the
directory above it. Of that file a beginning is put if the call was broken off, and nothing
otherwise. What it puts is all that it changes. -/
theorem generated_files (judge : SchemaJudge) (source : SchemaSource) (v : Volume)
    (o : GenerateOptions) :
    (∀ e, Plan.ofSource judge source o = .error e →
      generateFrom judge source v o = (v, .error e)) ∧
    ∀ plan, Plan.ofSource judge source o = .ok plan →
      (∀ a ∈ plan.artifacts, Path.Plain a.path ∧ (Path.mk a.path).isAbsolute = false ∧
        ∀ s ∈ (Path.mk a.path).steps, ∃ name, s = .name name) ∧
      ((∃ v', generateFrom judge source v o = (v', .ok ⟨o.outputDir, plan.layout, plan.typeNames,
          plan.artifacts.map (·.path)⟩) ∧
          Wrote v v' o.outputDir (plan.artifacts.map (·.whole))) ∨
        ∃ v' before a after e left, plan.artifacts = before ++ a :: after ∧
          generateFrom judge source v o = (v', .error e) ∧ Fails v o.outputDir a e left ∧
          Wrote v v' o.outputDir (before.map (·.whole) ++ left)) := by
  constructor
  · intro e he
    unfold generateFrom
    rw [he]
  · intro plan hplan
    have hplain (a : Artifact) (ha : a ∈ plan.artifacts) := plain_of_plan hplan ha
    constructor
    · intro a ha
      refine ⟨hplain a ha, (hplain a ha).not_absolute, fun s hs => ?_⟩
      rw [(hplain a ha).steps] at hs
      obtain ⟨piece, -, rfl⟩ := List.mem_map.mp hs
      exact ⟨_, rfl⟩
    · cases hw : writeArtifacts v o.outputDir plan.artifacts with
      | mk v' written =>
        have hgenerate := generateFrom_of_plan hplan hw
        cases written with
        | ok _ =>
          refine .inl ⟨v', hgenerate, wrote_of_puts (fun w hmem => ?_) (writeArtifacts_puts hw)⟩
          obtain ⟨a, ha, rfl⟩ := List.mem_map.mp hmem
          exact hplain a ha
        | error e =>
          obtain ⟨before, a, after, left, hsplit, hfails, hputs⟩ := writeArtifacts_fails hw
          refine .inr ⟨v', before, a, after, e, left, hsplit, hgenerate, hfails,
            wrote_of_puts (fun w hmem => ?_) hputs⟩
          rw [hsplit] at hplain
          rcases List.mem_append.mp hmem with hmem | hmem
          · obtain ⟨b, hb, rfl⟩ := List.mem_map.mp hmem
            exact hplain b (List.mem_append_left _ hb)
          · rw [hfails.path_eq hmem]
            exact hplain a (List.mem_append_right _ (List.mem_cons_self ..))

/-! ## A package that leads elsewhere -/

theorem artifacts_of_plan {judge : SchemaJudge} {source : SchemaSource} {o : GenerateOptions}
    {plan : Plan} (h : Plan.ofSource judge source o = .ok plan) : ∃ rest, plan.artifacts =
      PackageFiles.packageFile o.packageName o.packageVersion :: ResultModule.artifact :: rest := by
  unfold Plan.ofSource at h
  obtain ⟨documents, -, h⟩ := bind_eq_ok.mp h
  obtain ⟨types, -, h⟩ := bind_eq_ok.mp h
  obtain ⟨files, -, h⟩ := bind_eq_ok.mp h
  cases h
  exact ⟨_, rfl⟩

theorem Content.upTo_zero (s : String) : Content.upTo 0 s = .text "" := by
  simp [Content.upTo, Content.ofBytes, Text.Utf8.strict?, Text.Utf8.characters]

/-- What a disk without room tells. -/
def diskFull : DiskError := .refused "No space left on device" 28

/-- A disk whose directory `s` holds one schema. Where the modules of a package are to be is a link to
a directory with a file of the same name as one of them, and there is no more room when that one is
written. -/
def strayVolume : Volume where
  tree := {
    entries := (folderWith "one.schema.json").entries ++ [
      ([.text "generated"], .directory), ([.text "generated", .text "rust"], .directory),
      ([.text "elsewhere"], .directory),
      ([.text "elsewhere", .text "parsing_types.rs"], .file (.text "mine"))]
    workingPlace := [] }
  links := [([.text "generated", .text "rust", .text "src"], ⟨"/elsewhere"⟩)]
  names := []
  faults := [none, none, none, none, none, some (.brokenOff 0 diskFull)]

/-- The schemas of that disk. -/
def straySource : SchemaSource := .ofTree strayVolume.tree plainOptions

/-- The run stops at the second file, which is put elsewhere and has nothing in it any more. -/
theorem generateFrom_stray : ∃ plan v', Plan.ofSource .lenient straySource plainOptions = .ok plan ∧
    generateFrom .lenient straySource strayVolume plainOptions =
      (v', .error (.unwritable ⟨"generated/rust/src/parsing_types.rs"⟩ diskFull)) ∧
    plan.artifacts[1]? = some ResultModule.artifact ∧
    v'.file? [.text "elsewhere", .text "parsing_types.rs"] = some (.text "") := by
  have hplanned : (Plan.ofSource .lenient straySource plainOptions).toOption.isSome = true := by
    decide +kernel
  obtain ⟨plan, hplan⟩ := Option.isSome_iff_exists.mp hplanned
  rw [toOption_eq_some] at hplan
  obtain ⟨rest, hartifacts⟩ := artifacts_of_plan hplan
  have hstops (rest : List Artifact) : (writeArtifacts strayVolume plainOptions.outputDir
      (PackageFiles.packageFile plainOptions.packageName plainOptions.packageVersion ::
        ResultModule.artifact :: rest)).2 =
          .error (.unwritable ⟨"generated/rust/src/parsing_types.rs"⟩ diskFull) := rfl
  have hfile (rest : List Artifact) : (writeArtifacts strayVolume plainOptions.outputDir
      (PackageFiles.packageFile plainOptions.packageName plainOptions.packageVersion ::
        ResultModule.artifact :: rest)).1.file? [.text "elsewhere", .text "parsing_types.rs"] =
          some (.upTo 0 ResultModule.artifact.text) := rfl
  have hwrites : writeArtifacts strayVolume plainOptions.outputDir plan.artifacts =
      ((writeArtifacts strayVolume plainOptions.outputDir plan.artifacts).1,
        .error (.unwritable ⟨"generated/rust/src/parsing_types.rs"⟩ diskFull)) := by
    rw [hartifacts]
    exact Prod.ext rfl (hstops rest)
  refine ⟨plan, _, hplan, generateFrom_of_plan hplan hwrites, ?_, ?_⟩
  · rw [hartifacts]
    rfl
  · rw [hartifacts, hfile, Content.upTo_zero]

/-- The file that is emptied is not in the output directory, and it belongs to the file at which the run
stops. -/
theorem generated_files_astray : ∃ plan v',
    Plan.ofSource .lenient straySource plainOptions = .ok plan ∧
    plan.artifacts[1]? = some ResultModule.artifact ∧
    generateFrom .lenient straySource strayVolume plainOptions =
      (v', .error (.unwritable (plainOptions.outputDir.join ResultModule.artifact.path) diskFull)) ∧
    strayVolume.resolve plainOptions.outputDir = .ok [.text "generated", .text "rust"] ∧
    strayVolume.file? [.text "elsewhere", .text "parsing_types.rs"] = some (.text "mine") ∧
    v'.file? [.text "elsewhere", .text "parsing_types.rs"] = some (.text "") := by
  obtain ⟨plan, v', hplan, hrun, hsecond, hfile⟩ := generateFrom_stray
  exact ⟨plan, v', hplan, hsecond, hrun, rfl, rfl, hfile⟩

/-- The run on that disk puts the first file and a beginning of the second one, and changes nothing
else. -/
theorem generated_files_stray : ∃ plan v' before a after left,
    Plan.ofSource .lenient straySource plainOptions = .ok plan ∧
    plan.artifacts = before ++ a :: after ∧
    generateFrom .lenient straySource strayVolume plainOptions =
      (v', .error (.unwritable ⟨"generated/rust/src/parsing_types.rs"⟩ diskFull)) ∧
    Fails strayVolume plainOptions.outputDir a
      (.unwritable ⟨"generated/rust/src/parsing_types.rs"⟩ diskFull) left ∧
    Wrote strayVolume v' plainOptions.outputDir (before.map (·.whole) ++ left) := by
  obtain ⟨plan, v', hplan, hrun, -, -⟩ := generateFrom_stray
  obtain ⟨-, hruns⟩ :=
    (generated_files .lenient straySource strayVolume plainOptions).2 plan hplan
  rcases hruns with ⟨_, hall, -⟩ | ⟨_, before, a, after, _, left, hsplit, hstops, hfails, hwrote⟩
  · cases hall.symm.trans hrun
  · cases hstops.symm.trans hrun
    exact ⟨plan, v', before, a, after, left, hplan, hsplit, hrun, hfails, hwrote⟩

end SchemaBindings
