import SchemaBindings.Generation

/-! # Runs that write, on any disk

All that a run does to a disk it does by calls. So whatever every call that
makes a directory, or asks for one, keeps is kept by making all directories
that a file needs, and then one call writes the file. Files are written in
order up to the first that cannot be written. -/

namespace SchemaBindings

variable {δ : Type} [Disk δ]

namespace Disk

/-- A relation between a disk and a later one that holds across the calls for directories. -/
structure DirectoryCalls (R : δ → δ → Prop) : Prop where
  refl : ∀ d, R d d
  trans : ∀ {d u v}, R d u → R u v → R d v
  makeDirectory : ∀ d p, R d (Disk.makeDirectory d p).1
  isDirectory : ∀ d p, R d (Disk.isDirectory d p).1

namespace DirectoryCalls

variable {R : δ → δ → Prop}

theorem passIfThere (h : DirectoryCalls R) (d : δ) (p : Path) (cause : DiskError) :
    R d (Disk.passIfThere d p cause).1 := by
  have hasked := h.isDirectory d p
  unfold Disk.passIfThere
  split
  · rename_i heq
    rwa [heq] at hasked
  · rename_i heq
    rwa [heq] at hasked

theorem ensureDirectory (h : DirectoryCalls R) (d : δ) (p : Path) :
    R d (Disk.ensureDirectory d p).1 := by
  have hmade := h.makeDirectory d p
  unfold Disk.ensureDirectory
  split
  · rename_i heq
    rwa [heq] at hmade
  · rename_i heq
    rw [heq] at hmade
    exact h.trans hmade (h.passIfThere ..)

theorem makeDirectories (h : DirectoryCalls R) (levels : Nat) (d : δ) (p : Path) :
    R d (Disk.makeDirectories levels d p).1 := by
  induction levels generalizing d p with
  | zero => exact h.refl d
  | succ levels ih =>
    have hmade := h.makeDirectory d p
    unfold Disk.makeDirectories
    split
    · exact h.refl d
    · split
      · rename_i heq
        rwa [heq] at hmade
      · rename_i u heq
        rw [heq] at hmade
        split
        · exact hmade
        · rename_i above _
          have habove := ih u above
          split
          · rename_i heq'
            rw [heq'] at habove
            exact h.trans hmade habove
          · rename_i heq'
            rw [heq'] at habove
            exact h.trans (h.trans hmade habove) (h.ensureDirectory ..)
      · rename_i heq
        rw [heq] at hmade
        exact h.trans hmade (h.passIfThere ..)

theorem ensureDirectories (h : DirectoryCalls R) (d : δ) (p : Path) :
    R d (Disk.ensureDirectories d p).1 := h.makeDirectories _ d p

end DirectoryCalls

end Disk

/-! ## One file -/

/-- A file is written by one call, once the directories for it are made. What fails is told with the
path that it is about. -/
theorem writeArtifact_cases {R : δ → δ → Prop} (hR : Disk.DirectoryCalls R) (d : δ) (dir : Path)
    (a : Artifact) : ∃ u, R d u ∧
      ((∃ above cause, (dir.join a.path).parent? = some above ∧
          writeArtifact d dir a = (u, .error (.unwritable above cause))) ∨
        writeArtifact d dir a = ((Disk.writeText u (dir.join a.path) a.text).1,
          (Disk.writeText u (dir.join a.path) a.text).2.mapError (.unwritable (dir.join a.path)))) := by
  unfold writeArtifact
  dsimp only
  cases (dir.join a.path).parent? with
  | none => exact ⟨d, hR.refl d, .inr rfl⟩
  | some above =>
    have hmade := hR.ensureDirectories d above
    dsimp only
    generalize Disk.ensureDirectories d above = made at hmade ⊢
    obtain ⟨u, cause | _⟩ := made
    · exact ⟨u, hmade, .inl ⟨above, cause, rfl, rfl⟩⟩
    · exact ⟨u, hmade, .inr rfl⟩

/-! ## Files in order -/

variable {d d' : δ} {dir : Path} {a : Artifact} {files : List Artifact}

theorem writeArtifacts_cons (h : writeArtifacts d dir (a :: files) = (d', .ok ())) :
    ∃ u, writeArtifact d dir a = (u, .ok ()) ∧ writeArtifacts u dir files = (d', .ok ()) := by
  unfold writeArtifacts at h
  split at h
  · cases h
  · rename_i u hu
    exact ⟨u, hu, h⟩

/-- A row of files that cannot all be written is written up to the first that cannot. -/
theorem writeArtifacts_stops {e : GenerationError}
    (h : writeArtifacts d dir files = (d', .error e)) :
    ∃ before a after u, files = before ++ a :: after ∧
      writeArtifacts d dir before = (u, .ok ()) ∧ writeArtifact u dir a = (d', .error e) := by
  induction files generalizing d with
  | nil => cases h
  | cons b rest ih =>
    unfold writeArtifacts at h
    split at h
    · rename_i hb
      rw [Prod.mk.injEq, Except.error.injEq] at h
      obtain ⟨rfl, rfl⟩ := h
      exact ⟨[], b, rest, d, rfl, rfl, hb⟩
    · rename_i u hb
      obtain ⟨before, a, after, u', hsplit, hbefore, ha⟩ := ih h
      refine ⟨b :: before, a, after, u', by rw [hsplit]; rfl, ?_, ha⟩
      unfold writeArtifacts
      rw [hb]
      exact hbefore

/-! ## Runs -/

variable {judge : SchemaJudge} {source : SchemaSource} {o : GenerateOptions} {plan : Plan}

theorem generateFrom_of_plan {written : Except GenerationError Unit}
    (h : Plan.ofSource judge source o = .ok plan)
    (hw : writeArtifacts d o.outputDir plan.artifacts = (d', written)) :
    generateFrom judge source d o = (d', written.map fun () =>
      ⟨o.outputDir, plan.layout, plan.typeNames, plan.artifacts.map (·.path)⟩) := by
  unfold generateFrom
  rw [h]
  dsimp only
  rw [hw]

/-- A run that comes to a report has a plan and has written it. -/
theorem plan_of_generateFrom {report : GenerationReport}
    (h : generateFrom judge source d o = (d', .ok report)) :
    ∃ plan, Plan.ofSource judge source o = .ok plan ∧
      writeArtifacts d o.outputDir plan.artifacts = (d', .ok ()) ∧
      report = ⟨o.outputDir, plan.layout, plan.typeNames, plan.artifacts.map (·.path)⟩ := by
  cases hplan : Plan.ofSource judge source o with
  | error e =>
    unfold generateFrom at h
    rw [hplan] at h
    cases h
  | ok plan =>
    cases hw : writeArtifacts d o.outputDir plan.artifacts with
    | mk u written =>
      rw [generateFrom_of_plan hplan hw] at h
      cases written with
      | error e => cases h
      | ok _ =>
        cases h
        exact ⟨plan, rfl, hw, rfl⟩

/-! ## Disks that answer alike -/

/-- A view of disks in which every call answers as on the disk itself and leaves the view of what the
disk is then. -/
structure Disk.Agrees {ε : Type} [Disk ε] (view : δ → ε) : Prop where
  makeDirectory : ∀ d p, Disk.makeDirectory (view d) p = (Disk.makeDirectory d p).map view id
  isDirectory : ∀ d p, Disk.isDirectory (view d) p = (Disk.isDirectory d p).map view id
  writeText : ∀ d p s, Disk.writeText (view d) p s = (Disk.writeText d p s).map view id

namespace Disk.Agrees

variable {ε : Type} [Disk ε] {view : δ → ε}

theorem passIfThere (h : Agrees view) (d : δ) (p : Path) (cause : DiskError) :
    Disk.passIfThere (view d) p cause = (Disk.passIfThere d p cause).map view id := by
  unfold Disk.passIfThere
  rw [h.isDirectory]
  obtain ⟨u, there⟩ := Disk.isDirectory d p
  cases there <;> rfl

theorem ensureDirectory (h : Agrees view) (d : δ) (p : Path) :
    Disk.ensureDirectory (view d) p = (Disk.ensureDirectory d p).map view id := by
  unfold Disk.ensureDirectory
  rw [h.makeDirectory]
  obtain ⟨u, cause | _⟩ := Disk.makeDirectory d p
  · exact h.passIfThere u p cause
  · rfl

theorem makeDirectories (h : Agrees view) (levels : Nat) (d : δ) (p : Path) :
    Disk.makeDirectories levels (view d) p = (Disk.makeDirectories levels d p).map view id := by
  induction levels generalizing d p with
  | zero => rfl
  | succ levels ih =>
    unfold Disk.makeDirectories
    split
    · rfl
    · rw [h.makeDirectory]
      obtain ⟨u, cause | _⟩ := Disk.makeDirectory d p
      · cases cause with
        | notFound =>
          cases p.parent? with
          | none => rfl
          | some above =>
            simp only [Prod.map_apply, id_eq, ih]
            obtain ⟨w, cause | _⟩ := Disk.makeDirectories levels u above
            · rfl
            · exact h.ensureDirectory w p
        | _ => exact h.passIfThere u p _
      · rfl

theorem writeArtifact (h : Agrees view) (d : δ) (dir : Path) (a : Artifact) :
    SchemaBindings.writeArtifact (view d) dir a =
      (SchemaBindings.writeArtifact d dir a).map view id := by
  unfold SchemaBindings.writeArtifact Disk.ensureDirectories
  dsimp only
  cases (dir.join a.path).parent? with
  | none =>
    dsimp only
    rw [h.writeText]
    rfl
  | some above =>
    dsimp only
    rw [h.makeDirectories]
    obtain ⟨u, cause | _⟩ := Disk.makeDirectories (above.steps.length + 1) d above
    · rfl
    · dsimp only [Prod.map_apply, id_eq]
      rw [h.writeText]
      rfl

theorem writeArtifacts (h : Agrees view) (d : δ) (dir : Path) (files : List Artifact) :
    SchemaBindings.writeArtifacts (view d) dir files =
      (SchemaBindings.writeArtifacts d dir files).map view id := by
  induction files generalizing d with
  | nil => rfl
  | cons a rest ih =>
    unfold SchemaBindings.writeArtifacts
    rw [h.writeArtifact]
    obtain ⟨u, e | _⟩ := SchemaBindings.writeArtifact d dir a
    · rfl
    · exact ih u

/-- A run on a view is a run on the disk. -/
theorem generateFrom (h : Agrees view) (judge : SchemaJudge) (source : SchemaSource) (d : δ)
    (o : GenerateOptions) : SchemaBindings.generateFrom judge source (view d) o =
      (SchemaBindings.generateFrom judge source d o).map view id := by
  unfold SchemaBindings.generateFrom
  cases Plan.ofSource judge source o with
  | error e => rfl
  | ok plan =>
    dsimp only
    rw [h.writeArtifacts]
    rfl

end Disk.Agrees

end SchemaBindings
