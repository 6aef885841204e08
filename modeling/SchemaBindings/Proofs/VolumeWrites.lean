import SchemaBindings.Proofs.VolumeWalks
import SchemaBindings.Proofs.WritingRuns

/-! # What writing leaves on a volume

A call puts one entry in its place or none. Making directories changes no file.
Writing a file changes the one that its path leads to: it holds the text then,
or a beginning of it if the call was broken off. So after a run each path that
was written leads to what was written last there, and every file that none of
these paths leads to is as it was. -/

namespace SchemaBindings

namespace Volume

variable {v v' u : Volume} {lost : List Place} {place : Place} {p : Path}

/-! ## Calls -/

theorem fault?_mem {fault : Fault} (h : v.fault? = some fault) : some fault ∈ v.faults := by
  unfold fault? at h
  cases hf : v.faults with
  | nil =>
    rw [hf] at h
    cases h
  | cons first rest =>
    rw [hf] at h
    cases first with
    | none => cases h
    | some _ =>
      cases h
      exact List.mem_cons_self ..

theorem leaves_served (v : Volume) : Leaves v v.served [] :=
  ⟨rfl, rfl, List.tail_suffix _, .refl _⟩

theorem leaves_putting {e : Entry} (h : FileTree.Keeps v.tree (v.tree.put place e) lost) :
    Leaves v (v.putting place e) lost := ⟨rfl, rfl, List.tail_suffix _, h⟩

theorem entry?_of_placeForDirectory (h : v.placeForDirectory p = .ok place) :
    v.tree.entry? place = none := by
  unfold placeForDirectory at h
  split at h
  · cases h
  · split at h
    · cases h
    · split at h
      · cases h
      · split at h
        · cases h
        · rename_i hfree
          cases h
          simp only [isTaken, Bool.or_eq_true, not_or, Option.not_isSome_iff_eq_none] at hfree
          exact hfree.2

theorem makeDirectory_leaves (v : Volume) (p : Path) : Leaves v (v.makeDirectory p).1 [] := by
  unfold makeDirectory
  split
  · exact v.leaves_served
  · exact v.leaves_served
  · rename_i hplace
    exact leaves_putting (.put_directory (entry?_of_placeForDirectory hplace))

theorem isDirectory_leaves (v : Volume) (p : Path) : Leaves v (v.isDirectory p).1 [] := by
  unfold isDirectory
  split
  · exact v.leaves_served
  · exact v.leaves_served

/-- All calls for directories leave every file. -/
theorem directoryCalls_leaves : Disk.DirectoryCalls fun v v' : Volume => Leaves v v' [] where
  refl := .refl
  trans h h' := h.trans h'
  makeDirectory := makeDirectory_leaves
  isDirectory := isDirectory_leaves

theorem placeForFile_eq_ok (h : v.placeForFile p = .ok place) :
    v.reach true p = .ok place ∧ v.tree.isDirectoryAt place = false := by
  unfold placeForFile at h
  split at h
  · cases h
  · split at h
    · cases h
    · split at h
      · cases h
      · rename_i hreach
        split at h
        · cases h
        · rename_i hdir
          cases h
          exact ⟨hreach, by simpa using hdir⟩

/-- A file that is put where a path leads is what the path leads to. -/
theorem putting_spec (c : Content) (h : v.placeForFile p = .ok place) :
    Leaves v (v.putting place (.file c)) [place] ∧
      (v.putting place (.file c)).resolve p = .ok place ∧
      (v.putting place (.file c)).tree.entry? place = some (.file c) := by
  obtain ⟨hreach, hdir⟩ := placeForFile_eq_ok h
  have hroot : place ≠ [] := by
    rintro rfl
    cases hdir
  have hentry : (v.putting place (.file c)).tree.entry? place = some (.file c) :=
    FileTree.entry?_put_self _ hroot
  have hleaves : Leaves v (v.putting place (.file c)) [place] :=
    leaves_putting (.put_file c hdir)
  refine ⟨hleaves, resolve_keeps hleaves (fun _ => ?_) hreach, hentry⟩
  rw [hentry]
  rfl

/-- What a call to write a file comes to: nothing, the file, or a file that was broken off. -/
theorem writeText_cases (v : Volume) (p : Path) (s : String) :
    (∃ cause, v.writeText p s = (v.served, .error cause)) ∨
      ∃ place, v.placeForFile p = .ok place ∧
        (v.writeText p s = (v.putting place (.file (.text s)), .ok ()) ∨
          ∃ kept cause, some (.brokenOff kept cause) ∈ v.faults ∧
            v.writeText p s = (v.putting place (.file (.upTo kept s)), .error cause)) := by
  unfold writeText
  cases hfault : v.fault? with
  | none =>
    cases hplace : v.placeForFile p with
    | error cause => exact .inl ⟨cause, rfl⟩
    | ok place => exact .inr ⟨place, rfl, .inl rfl⟩
  | some fault =>
    cases fault with
    | refused cause => exact .inl ⟨cause, rfl⟩
    | brokenOff kept cause =>
      cases hplace : v.placeForFile p with
      | error cause => exact .inl ⟨cause, rfl⟩
      | ok place => exact .inr ⟨place, rfl, .inr ⟨kept, cause, fault?_mem hfault, rfl⟩⟩

/-! ## Files that come one after the other -/

/-- How files come on a volume, in order, each where its path leads. -/
inductive Puts : Volume → Volume → List (Path × Content) → Prop
  | done {v v' : Volume} (h : Leaves v v' []) : Puts v v' []
  | put {v u v' : Volume} {place : Place} {p : Path} {c : Content} {rest : List (Path × Content)}
      (h : Leaves v u [place]) (hr : u.resolve p = .ok place)
      (he : u.tree.entry? place = some (.file c)) (hrest : Puts u v' rest) :
      Puts v v' ((p, c) :: rest)

namespace Puts

variable {puts more : List (Path × Content)}

theorem after (h : Leaves v u []) (hputs : Puts u v' puts) : Puts v v' puts := by
  cases hputs with
  | done h' => exact .done (h.trans h')
  | put h' hr he hrest => exact .put (h.trans h') hr he hrest

theorem append (h : Puts v u puts) (h' : Puts u v' more) : Puts v v' (puts ++ more) := by
  induction h with
  | done hleaves => exact h'.after hleaves
  | put hleaves hr he _ ih => exact .put hleaves hr he (ih h')

/-- What is changed in the end are files that paths lead to which were written. -/
theorem leaves (h : Puts v v' puts) : ∃ lost, Leaves v v' lost ∧
    ∀ place ∈ lost, ∃ w ∈ puts, v'.resolve w.1 = .ok place := by
  induction h with
  | done h => exact ⟨[], h, fun _ hp => absurd hp List.not_mem_nil⟩
  | @put v u v' place p c rest h hr he hrest ih =>
    obtain ⟨lost, hleaves, hlost⟩ := ih
    refine ⟨[place] ++ lost, h.trans hleaves, fun q hq => ?_⟩
    rcases List.mem_append.mp hq with hq | hq
    · rw [List.mem_singleton.mp hq]
      exact ⟨(p, c), List.mem_cons_self .., resolve_keeps hleaves (fun hno => by cases hno) hr⟩
    · obtain ⟨w, hw, hrw⟩ := hlost q hq
      exact ⟨w, List.mem_cons_of_mem _ hw, hrw⟩

theorem resolves (h : Puts v v' puts) {w : Path × Content} (hw : w ∈ puts) :
    ∃ place, v'.resolve w.1 = .ok place := by
  induction h with
  | done => cases hw
  | put h hr he hrest ih =>
    rcases List.mem_cons.mp hw with rfl | hw
    · obtain ⟨lost, hleaves, -⟩ := hrest.leaves
      exact ⟨_, resolve_keeps hleaves (fun hno => by cases hno) hr⟩
    · exact ih hw

/-- A path leads to what was put there last. -/
theorem content? {before after : List (Path × Content)} {w : Path × Content}
    (h : Puts v v' (before ++ w :: after))
    (hlast : ∀ x ∈ after, v'.resolve x.1 ≠ v'.resolve w.1) : v'.content? w.1 = some w.2 := by
  generalize hall : before ++ w :: after = puts at h
  induction h generalizing before with
  | done => cases before <;> cases hall
  | @put v u v' place p c rest h hr he hrest ih =>
    cases before with
    | cons b before =>
      obtain ⟨-, rfl⟩ := List.cons.inj hall
      exact ih hlast rfl
    | nil =>
      obtain ⟨rfl, rfl⟩ := List.cons.inj hall
      obtain ⟨lost, hleaves, hlost⟩ := hrest.leaves
      have hr' : v'.resolve p = .ok place := resolve_keeps hleaves (fun hno => by cases hno) hr
      have hkept : place ∉ lost := fun hmem => by
        obtain ⟨x, hx, hrx⟩ := hlost place hmem
        exact hlast x hx (hrx.trans hr'.symm)
      unfold Volume.content?
      rw [hr']
      dsimp only
      rw [hleaves.tree.entries place _ hkept he]

end Puts

end Volume

open Volume

variable {v v' : Volume} {dir : Path} {a : Artifact} {files : List Artifact} {e : GenerationError}

/-! ## Files of a package -/

/-- What a file puts at its path when it is written as a whole. -/
def Artifact.whole (a : Artifact) : String × Content := (a.path, .text a.text)

/-- What is put below a directory, by the paths from there. -/
def putsBelow (dir : Path) (writes : List (String × Content)) : List (Path × Content) :=
  writes.map fun w => (dir.join w.1, w.2)

/-- How a file cannot be written, and what is put at its path all the same: there is no directory for
it, or the call fails, or the call is broken off and leaves a beginning of the text. -/
inductive Fails (v : Volume) (dir : Path) (a : Artifact) :
    GenerationError → List (String × Content) → Prop
  | above {above : Path} {cause : DiskError} (h : (dir.join a.path).parent? = some above) :
      Fails v dir a (.unwritable above cause) []
  | unwritten {cause : DiskError} : Fails v dir a (.unwritable (dir.join a.path) cause) []
  | brokenOff {kept : Nat} {cause : DiskError} (h : some (.brokenOff kept cause) ∈ v.faults) :
      Fails v dir a (.unwritable (dir.join a.path) cause) [(a.path, .upTo kept a.text)]

theorem Fails.mono {u : Volume} {left : List (String × Content)} (h : v.faults <:+ u.faults)
    (hf : Fails v dir a e left) : Fails u dir a e left := by
  cases hf with
  | above hparent => exact .above hparent
  | unwritten => exact .unwritten
  | brokenOff hfault => exact .brokenOff (h.subset hfault)

theorem Fails.path_eq {left : List (String × Content)} (hf : Fails v dir a e left)
    {w : String × Content} (hw : w ∈ left) : w.1 = a.path := by
  cases hf with
  | above => cases hw
  | unwritten => cases hw
  | brokenOff =>
    rw [List.mem_singleton.mp hw]

/-- What writing one file comes to. -/
theorem writeArtifact_puts (v : Volume) (dir : Path) (a : Artifact) : ∃ v',
    (writeArtifact v dir a = (v', .ok ()) ∧ Puts v v' (putsBelow dir [a.whole])) ∨
      ∃ e left, writeArtifact v dir a = (v', .error e) ∧ Fails v dir a e left ∧
        Puts v v' (putsBelow dir left) := by
  obtain ⟨u, hleaves, ⟨above, cause, hparent, hfails⟩ | hwrites⟩ :=
    writeArtifact_cases directoryCalls_leaves v dir a
  · exact ⟨u, .inr ⟨_, [], hfails, .above hparent, .done hleaves⟩⟩
  · rcases u.writeText_cases (dir.join a.path) a.text with ⟨cause, hw⟩ |
      ⟨place, hplace, hw | ⟨kept, cause, hfault, hw⟩⟩ <;>
      (change Disk.writeText u _ _ = _ at hw; rw [hw] at hwrites)
    · exact ⟨u.served, .inr ⟨_, [], hwrites, .unwritten, .done (hleaves.trans u.leaves_served)⟩⟩
    · obtain ⟨hput, hr, he⟩ := putting_spec (.text a.text) hplace
      exact ⟨_, .inl ⟨hwrites, .after hleaves (.put hput hr he (.done (.refl _)))⟩⟩
    · obtain ⟨hput, hr, he⟩ := putting_spec (.upTo kept a.text) hplace
      exact ⟨_, .inr ⟨_, _, hwrites, .brokenOff (hleaves.faults.subset hfault),
        .after hleaves (.put hput hr he (.done (.refl _)))⟩⟩

/-- Files that are all written are put in order. -/
theorem writeArtifacts_puts (h : writeArtifacts v dir files = (v', .ok ())) :
    Puts v v' (putsBelow dir (files.map (·.whole))) := by
  induction files generalizing v with
  | nil =>
    cases h
    exact .done (.refl _)
  | cons a rest ih =>
    obtain ⟨u, hu, hrest⟩ := writeArtifacts_cons h
    obtain ⟨u', ⟨hok, hputs⟩ | ⟨e, left, hfails, -⟩⟩ := writeArtifact_puts v dir a
    · cases hok.symm.trans hu
      exact hputs.append (ih hrest)
    · cases hfails.symm.trans hu

/-- Files that are not all written are put in order up to one of them, of which a beginning may be put
as well. -/
theorem writeArtifacts_fails (h : writeArtifacts v dir files = (v', .error e)) :
    ∃ before a after left, files = before ++ a :: after ∧ Fails v dir a e left ∧
      Puts v v' (putsBelow dir (before.map (·.whole) ++ left)) := by
  obtain ⟨before, a, after, u, hsplit, hbefore, hfails⟩ := writeArtifacts_stops h
  have hputs := writeArtifacts_puts hbefore
  obtain ⟨u', ⟨hok, -⟩ | ⟨e', left, hfails', hleft, hputs'⟩⟩ := writeArtifact_puts u dir a
  · cases hok.symm.trans hfails
  · cases hfails'.symm.trans hfails
    obtain ⟨lost, hleaves, -⟩ := hputs.leaves
    refine ⟨before, a, after, left, hsplit, hleft.mono hleaves.faults, ?_⟩
    unfold putsBelow
    rw [List.map_append]
    exact hputs.append hputs'

end SchemaBindings
