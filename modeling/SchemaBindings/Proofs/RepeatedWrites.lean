import SchemaBindings.Proofs.PathSteps
import SchemaBindings.Proofs.PlannedPaths

/-! # Writing the same files again

A disk that files were written to is as real as before, and holds each entry
that it held, in the same order, but for the files that were replaced. All
directories that the files need are there by then. So writing the same files
again makes no entry, and each file that is replaced is replaced by the last
text that was written there: the disk stays the very same. -/

namespace SchemaBindings

namespace FileTree

variable {t t' u : FileTree} {lost : List Place}

/-! ## The entries of a disk -/

theorem mem_put {p : Place} {e : Entry} {x : Place × Entry} (h : x ∈ (t.put p e).entries) :
    x ∈ t.entries ∨ x = (p, e) := by
  unfold put at h
  split at h
  · obtain ⟨old, hold, rfl⟩ := List.mem_map.mp h
    split
    · exact .inr rfl
    · exact .inl hold
  · rcases List.mem_append.mp h with h | h
    · exact .inl h
    · exact .inr (List.mem_singleton.mp h)

/-- An entry may be put in a directory under a fit name, if that takes no directory away. -/
theorem Real.put (ht : t.Real) {here : Place} {name : EntryName} {e : Entry}
    (hdir : t.isDirectoryAt here = true) (hfit : name.isFit = true)
    (hstays : Stays t (t.put (here ++ [name]) e)) : (t.put (here ++ [name]) e).Real where
  working := by
    rw [hstays.workingPlace]
    exact hstays.directories _ ht.working
  workingNames := by
    rw [hstays.workingPlace]
    exact ht.workingNames
  above x hx := by
    rcases mem_put hx with hx | rfl
    · exact hstays.directories _ (ht.above x hx)
    · rw [List.dropLast_concat]
      exact hstays.directories _ hdir
  names x hx other hother := by
    rcases mem_put hx with hx | rfl
    · exact ht.names x hx other hother
    · rcases List.mem_append.mp hother with hother | hother
      · exact ht.isFit_of_mem (isSome_of_isDirectoryAt hdir) hother
      · rwa [List.mem_singleton.mp hother]

/-- All entries that a disk has for a place, of which the first counts, are of a kind. -/
def AllAt (t : FileTree) (p : Place) (Kind : Entry → Prop) : Prop :=
  ∀ x ∈ t.entries, x.1 = p → Kind x.2

theorem allAt_put {p : Place} {e : Entry} (hp : p ≠ []) : (t.put p e).AllAt p (· = e) := by
  intro x hx hxp
  unfold put entry? at hx
  rw [if_neg hp] at hx
  split at hx
  · obtain ⟨old, -, rfl⟩ := List.mem_map.mp hx
    split at hxp
    · rw [if_pos ‹_›]
    · exact absurd hxp ‹_›
  · rename_i hnone
    rcases List.mem_append.mp hx with hx | hx
    · rw [Option.not_isSome_iff_eq_none, List.lookup_eq_none_iff] at hnone
      exact absurd hxp.symm (by simpa using hnone x hx)
    · rw [List.mem_singleton.mp hx]

namespace Extends

theorem real (h : Extends t t' lost) (ht : t.Real) : t'.Real := by
  induction h with
  | refl => exact ht
  | directory _ hdir hfit hnone ih => exact ih.put hdir hfit (Keeps.put_directory hnone).toStays
  | file _ hdir hfit hnodir c ih => exact ih.put hdir hfit (Keeps.put_file c hnodir).toStays

/-- Entries for a place that was taken stay of a kind if files are of the kind or the place is not
written. -/
theorem allAt (h : Extends t t' lost) {p : Place} {Kind : Entry → Prop}
    (hsome : (t.entry? p).isSome = true) (hfile : p ∈ lost → ∀ c, Kind (.file c))
    (hall : t.AllAt p Kind) : t'.AllAt p Kind := by
  induction h with
  | refl => exact hall
  | directory h _ _ hnone ih =>
    intro x hx hxp
    rcases mem_put hx with hx | rfl
    · exact ih hfile x hx hxp
    · have hthere := h.keeps.present p hsome
      rw [← hxp, hnone] at hthere
      cases hthere
  | file h _ _ _ c ih =>
    intro x hx hxp
    rcases mem_put hx with hx | rfl
    · exact ih (fun hp => hfile (List.mem_append_left _ hp)) x hx hxp
    · refine hfile (List.mem_append_right _ ?_) c
      rw [← hxp]
      exact List.mem_singleton_self _

/-- What is picked from the entries stays if directories and files at the places that are written are
never picked. -/
theorem filterMap_eq {α : Type} {pick : Place × Entry → Option α} (h : Extends t t' lost)
    (hdirectory : ∀ p, pick (p, .directory) = none)
    (hfile : ∀ p ∈ lost, ∀ c, pick (p, .file c) = none) :
    t'.entries.filterMap pick = t.entries.filterMap pick := by
  have hput {u : FileTree} {p : Place} {e : Entry} (hnew : pick (p, e) = none)
      (hold : ∀ f, u.entry? p = some f → ∀ x ∈ u.entries, x.1 = p → pick x = none) :
      (u.put p e).entries.filterMap pick = u.entries.filterMap pick := by
    unfold put
    cases hentry : u.entry? p with
    | none => simp [hnew]
    | some f =>
      rw [Option.isSome_some, if_pos rfl, List.filterMap_map]
      refine List.filterMap_congr fun x hx => ?_
      by_cases hxp : x.1 = p
      · rw [Function.comp_apply, if_pos hxp, hnew, hold f hentry x hx hxp]
      · rw [Function.comp_apply, if_neg hxp]
  induction h with
  | refl => rfl
  | directory _ _ _ hnone ih =>
    refine (hput (hdirectory _) fun f hf => ?_).trans (ih hfile)
    rw [hnone] at hf
    cases hf
  | file _ _ _ hnodir c ih =>
    have hp := hfile _ (List.mem_append_right _ (List.mem_singleton_self _))
    refine (hput (hp c) fun f _ x hx hxp => ?_).trans
      (ih fun p hmem => hfile p (List.mem_append_left _ hmem))
    obtain ⟨q, e⟩ := x
    subst hxp
    cases e with
    | directory => exact hdirectory _
    | file c => exact hp c

end Extends

/-! ## Disks that differ in files -/

/-- Two disks have the same entries in the same order, but for what is in the files at some places. -/
structure AlikeBut (t u : FileTree) (places : Place → Prop) : Prop where
  workingPlace : t.workingPlace = u.workingPlace
  entries : List.Forall₂ (fun x y => x.1 = y.1 ∧
    (x.2 = y.2 ∨ places x.1 ∧ (∃ c, x.2 = .file c) ∧ ∃ c, y.2 = .file c)) t.entries u.entries

namespace AlikeBut

variable {places places' : Place → Prop}

theorem refl (t : FileTree) : AlikeBut t t places :=
  ⟨rfl, List.forall₂_same.mpr fun _ _ => ⟨rfl, .inl rfl⟩⟩

theorem eq (h : AlikeBut t u places) (hnone : ∀ p, ¬ places p) : t = u := by
  obtain ⟨entries, workingPlace⟩ := t
  obtain ⟨entries', workingPlace'⟩ := u
  obtain ⟨hworking, hentries⟩ := h
  obtain rfl : workingPlace = workingPlace' := hworking
  have hsame : entries = entries' := by
    refine List.forall₂_eq_eq_eq ▸ hentries.imp fun x y ⟨hkey, hvalue⟩ => Prod.ext hkey ?_
    exact hvalue.resolve_right fun ⟨hp, _⟩ => hnone _ hp
  rw [hsame]

/-- At a place both have the same entry, or both have a file. -/
theorem entry_cases (h : AlikeBut t u places) (p : Place) :
    t.entry? p = u.entry? p ∨ ∃ c c', t.entry? p = some (.file c) ∧ u.entry? p = some (.file c') := by
  have hentries := h.entries
  unfold entry?
  split
  · exact .inl rfl
  · generalize t.entries = old, u.entries = new at hentries ⊢
    induction hentries with
    | nil => exact .inl rfl
    | @cons x y _ _ hxy _ ih =>
      obtain ⟨q, e⟩ := x
      obtain ⟨q', e'⟩ := y
      obtain ⟨hkey, hvalue⟩ := hxy
      obtain rfl : q = q' := hkey
      rw [List.lookup_cons, List.lookup_cons]
      cases p == q with
      | false => exact ih
      | true =>
        rcases hvalue with hvalue | ⟨-, ⟨c, hc⟩, c', hc'⟩
        · exact .inl (congrArg some hvalue)
        · exact .inr ⟨c, c', congrArg some hc, congrArg some hc'⟩

theorem stays (h : AlikeBut t u places) : Stays t u where
  workingPlace := h.workingPlace.symm
  present p hp := by
    rcases h.entry_cases p with hsame | ⟨_, c, -, hc⟩
    · rwa [← hsame]
    · rw [hc]
      rfl
  directories p hp := by
    unfold isDirectoryAt at hp ⊢
    rcases h.entry_cases p with hsame | ⟨c, _, hc, -⟩
    · rwa [← hsame]
    · rw [hc] at hp
      simp at hp

/-- Where one of the disks has nothing but files, the other has no directory. -/
theorem isDirectoryAt_eq_false (h : AlikeBut t u places) {p : Place} (hp : p ≠ [])
    (hsome : (t.entry? p).isSome = true) (hfile : t.AllAt p fun e => ∃ c, e = .file c) :
    u.isDirectoryAt p = false := by
  obtain ⟨e, he⟩ := Option.isSome_iff_exists.mp hsome
  obtain ⟨c, hc⟩ := hfile _ (mem_of_entry?_eq_some hp he) rfl
  obtain rfl : e = .file c := hc
  unfold isDirectoryAt
  rcases h.entry_cases p with hsame | ⟨_, c', -, hc'⟩
  · rw [← hsame, he]
    simp
  · rw [hc']
    simp

/-- The file at one of the places may be replaced. The place need not be told any more if all entries
for it are then the same. -/
theorem put (h : AlikeBut t u places) {p : Place} {c : Content} (hsome : (u.entry? p).isSome = true)
    (hfile : t.AllAt p fun e => ∃ c, e = .file c) (hp : places' p ∨ t.AllAt p (· = .file c))
    (hothers : ∀ q, places q → q = p ∨ places' q) : AlikeBut t (u.put p (.file c)) places' where
  workingPlace := by
    rw [h.workingPlace]
    unfold FileTree.put
    split <;> rfl
  entries := by
    unfold FileTree.put
    rw [if_pos hsome, List.forall₂_map_right_iff]
    have hentries := (List.forall₂_and_left (p := (· ∈ t.entries)) _ _).mpr ⟨fun _ hx => hx, h.entries⟩
    refine hentries.imp fun x y ⟨hx, hkey, hvalue⟩ => ?_
    by_cases hyp : y.1 = p
    · rw [if_pos hyp]
      have hxp := hkey.trans hyp
      refine ⟨hxp, ?_⟩
      rcases hp with hp | hall
      · exact .inr ⟨hxp ▸ hp, hfile x hx hxp, c, rfl⟩
      · exact .inl (hall x hx hxp)
    · rw [if_neg hyp]
      refine ⟨hkey, hvalue.imp_right fun ⟨hq, hfiles⟩ => ⟨?_, hfiles⟩⟩
      exact (hothers _ hq).resolve_left fun h => hyp (hkey.symm.trans h)

end AlikeBut

/-! ## Directories that are there -/

/-- A path with a parent takes its last step with a piece of its own, if the parent takes any. -/
theorem exists_last_piece {p above : Path} (hp : p.parent? = some above) (hne : above.steps ≠ []) :
    ∃ s piece, p.steps = above.steps ++ [s] ∧ s ≠ .root ∧ s.piece? = some piece := by
  have hsteps : above.steps = p.steps.dropLast := by
    rw [← Path.directory_steps]
    unfold Path.directory
    rw [hp]
    rfl
  obtain ⟨first, rest, hpieces⟩ := p.exists_pieces
  have hall := Path.steps_of_pieces hpieces
  rcases List.eq_nil_or_concat' (Path.innerSteps rest) with hrest | ⟨before, s, hrest⟩
  · -- One step at most is left, and the parent takes none.
    rw [hrest, List.append_nil] at hall
    rw [hall] at hsteps
    split at hsteps
    · exact absurd hsteps hne
    · cases hfirst : Path.firstStep? first <;> exact absurd (by simpa [hfirst] using hsteps) hne
  · have hs : s ∈ Path.innerSteps rest := by
      rw [hrest]
      exact List.mem_append_right _ (List.mem_singleton_self _)
    obtain ⟨piece, -, hstep⟩ := List.mem_filterMap.mp hs
    refine ⟨s, ?_⟩
    rw [hrest, ← List.append_assoc] at hall
    rw [hall, List.dropLast_concat] at hsteps
    cases hidle : Path.isIdle piece with
    | true =>
      rw [Path.innerStep?_of_isIdle hidle] at hstep
      cases hstep
    | false =>
      obtain ⟨s', hs', hroot, hpiece⟩ := Path.exists_innerStep? hidle
      cases hstep.symm.trans hs'
      exact ⟨piece, by rw [hall, hsteps], hroot, hpiece⟩

/-- What the parent of a path leads to is a directory. -/
theorem isDirectory_parent {p above : Path} {place : Place} (h : t.resolve p = .ok place)
    (hp : p.parent? = some above) : above.text.isEmpty = true ∨ t.isDirectory above = true := by
  rcases Decidable.em (above.steps = []) with hnil | hne
  · left
    rw [String.isEmpty_iff, ← String.toList_eq_nil_iff, Path.text_eq_nil_iff, hnil]
  right
  obtain ⟨s, piece, hsteps, hroot, hpiece⟩ := exists_last_piece hp hne
  obtain ⟨hnul, -, hwalk⟩ := resolve_eq_ok.mp h
  have hstart : t.startOf above = t.startOf p := by
    have habs : above.isAbsolute = p.isAbsolute := by
      rw [Bool.eq_iff_iff, Path.isAbsolute_iff, Path.isAbsolute_iff, hsteps]
      simp [Ne.symm hroot]
    unfold startOf
    rw [habs]
  have hpieces : p.pieces.filter (!Path.isIdle ·) = above.pieces.filter (!Path.isIdle ·) ++ [piece] := by
    rw [Path.filter_pieces, Path.filter_pieces, hsteps, List.filterMap_append]
    simp [hpiece]
  have hcore := (walk_eq_ok_iff.mp hwalk).1
  rw [hpieces] at hcore
  obtain ⟨here, habove, hlast⟩ := walk_append.mp hcore
  obtain ⟨next, hstep, -⟩ := walk_cons_eq_ok_iff.mp hlast
  have hdir := isDirectoryAt_of_step hstep
  have hresolve : t.resolve above = .ok here := by
    refine resolve_eq_ok.mpr ⟨?_, ?_, ?_⟩
    · rw [hasNul_eq, hsteps, List.filterMap_append, List.any_append, Bool.or_eq_false_iff,
        ← hasNul_eq] at hnul
      exact hnul.1
    · rw [String.isEmpty_eq_false_iff]
      intro hempty
      exact hne (Path.text_eq_nil_iff.mp (String.toList_eq_nil_iff.mpr hempty))
    · rw [hstart]
      exact walk_eq_ok_iff.mpr ⟨habove, fun _ => hdir⟩
  unfold isDirectory find?
  rw [hresolve]
  exact hdir

/-- A directory that is there is not made. -/
theorem makeDirectory_of_isDirectory {p : Path} (h : t.isDirectory p = true) :
    t.makeDirectory p = .error .alreadyExists := by
  unfold isDirectory find? at h
  split at h
  · rename_i place hplace
    obtain ⟨hnul, hempty, hwalk⟩ := resolve_eq_ok.mp hplace
    unfold makeDirectory lastStep
    rw [hnul, hempty, if_neg Bool.false_ne_true, if_neg Bool.false_ne_true]
    cases hdrop : p.pieces.reverse.dropWhile (·.isEmpty) with
    | nil => rfl
    | cons last before =>
      have hpieces : ∃ slashes, p.pieces = before.reverse ++ last :: slashes := by
        have hsplit := List.takeWhile_append_dropWhile (p := (·.isEmpty)) (l := p.pieces.reverse)
        rw [hdrop] at hsplit
        refine ⟨(p.pieces.reverse.takeWhile (·.isEmpty)).reverse, ?_⟩
        simpa using (congrArg List.reverse hsplit).symm
      obtain ⟨slashes, hpieces⟩ := hpieces
      rw [hpieces] at hwalk
      obtain ⟨here, hbefore, hrest⟩ := walk_append.mp hwalk
      obtain ⟨next, hstep, -⟩ := walk_cons_eq_ok_iff.mp hrest
      have hdir := isDirectoryAt_of_step hstep
      simp only [hbefore, hdir, if_true]
      split
      · rfl
      · rename_i hname
        simp only [Bool.or_eq_true, decide_eq_true_eq, not_or, Bool.not_eq_true] at hname
        simp only [step, hdir, hname, Bool.not_true, Bool.false_eq_true, if_false] at hstep
        split at hstep
        · cases hstep
        · rename_i hlong
          rw [if_neg hlong]
          split at hstep
          · rename_i hthere
            exact if_pos hthere
          · cases hstep
  · cases h

/-- A directory that is there is made by doing nothing. -/
theorem ensureDirectories_of_isDirectory {p : Path}
    (h : p.text.isEmpty = true ∨ t.isDirectory p = true) :
    Disk.ensureDirectories t p = (t, .ok ()) := by
  unfold Disk.ensureDirectories Disk.makeDirectories
  by_cases hempty : p.text.isEmpty = true
  · exact if_pos hempty
  · have hthere := h.resolve_left hempty
    have hmake : Disk.makeDirectory t p = (t, .error .alreadyExists) :=
      congrArg t.after (makeDirectory_of_isDirectory hthere)
    have hask : Disk.isDirectory t p = (t, true) := congrArg (Prod.mk t) hthere
    rw [if_neg hempty, hmake]
    dsimp only [Disk.passIfThere]
    rw [hask]

end FileTree

open FileTree

/-! ## Files that were written before -/

variable {t t' u : FileTree} {dir : Path} {a : Artifact}

/-- Where a file was written, it can be written again, and no directory has to be made for it. -/
theorem writeArtifact_again (ha : Path.Plain a.path) (h : writeArtifact t dir a = (t', .ok ())) :
    ∃ place, t'.resolve (dir.join a.path) = .ok place ∧
      t'.entry? place = some (.file (.text a.text)) ∧ t'.AllAt place (· = .file (.text a.text)) ∧
      ∀ u, Stays t' u → u.isDirectoryAt place = false →
        writeArtifact u dir a = (u.put place (.file (.text a.text)), .ok ()) := by
  obtain ⟨v, -, hw⟩ := writeText_of_writeArtifact h
  obtain ⟨here, last, hstep, hidle, hup, hslash, hlong, hnodir, hput⟩ := writeText_eq_ok.mp hw
  obtain ⟨here', last', hstep', -, -, -, hresolve⟩ := writeText_puts ha hw
  cases hstep.symm.trans hstep'
  have hroot := List.append_ne_nil_of_right_ne_nil here
    (List.cons_ne_nil (EntryName.text (String.ofList last)) [])
  refine ⟨_, hresolve, ?_, ?_, fun u hstays hfile => ?_⟩
  · rw [hput]
    exact entry?_put_self _ hroot
  · rw [hput]
    exact allAt_put hroot
  · have hkept : Stays v t' := by
      rw [hput]
      exact (Keeps.put_file _ hnodir).toStays
    have hwrite : Disk.writeText u (dir.join a.path) a.text =
        (u.put (here ++ [.text (String.ofList last)]) (.file (.text a.text)), .ok ()) :=
      after_eq_ok.mpr (writeText_eq_ok.mpr ⟨here, last, (hkept.trans hstays).lastStep hstep, hidle,
        hup, hslash, hlong, hfile, rfl⟩)
    unfold writeArtifact
    dsimp only
    cases hparent : (dir.join a.path).parent? with
    | none =>
      dsimp only
      rw [hwrite]
      rfl
    | some above =>
      have habove := isDirectory_parent (hstays.resolve hresolve) hparent
      dsimp only
      rw [ensureDirectories_of_isDirectory habove]
      dsimp only
      rw [hwrite]
      rfl

/-- Files are written again over the last ones of them. -/
theorem writeArtifacts_over {files : List Artifact} (hplain : ∀ a ∈ files, Path.Plain a.path)
    (h : writeArtifacts t dir files = (t', .ok ()))
    (hu : AlikeBut t' u fun p => ∃ a ∈ files, t'.resolve (dir.join a.path) = .ok p) :
    writeArtifacts u dir files = (t', .ok ()) := by
  induction files generalizing t u with
  | nil =>
    rw [hu.eq fun _ ⟨_, ha, _⟩ => List.not_mem_nil ha]
    rfl
  | cons a rest ih =>
    obtain ⟨v, hv, hrest⟩ := writeArtifacts_cons h
    have hplain' (b : Artifact) (hb : b ∈ rest) := hplain b (List.mem_cons_of_mem _ hb)
    obtain ⟨lost, hextends, hlost⟩ := writeArtifacts_extends hplain' hrest
    obtain ⟨place, hrv, hentry, hallv, hagain⟩ :=
      writeArtifact_again (hplain a (List.mem_cons_self ..)) hv
    have hr := hextends.keeps.resolve hrv
    have hsome : (v.entry? place).isSome = true := by
      rw [hentry]
      rfl
    have hfiles : t'.AllAt place fun e => ∃ c, e = .file c :=
      hextends.allAt hsome (fun _ c => ⟨c, rfl⟩) fun x hx hxp => ⟨_, hallv x hx hxp⟩
    have hthere := hu.stays.present _ (hextends.keeps.present _ hsome)
    have hfile : u.isDirectoryAt place = false := hu.isDirectoryAt_eq_false (fun h => by
      rw [h] at hentry
      cases hentry) (hextends.keeps.present _ hsome) hfiles
    have hwrite := hagain u (hextends.keeps.toStays.trans hu.stays) hfile
    have hover := ih hplain' hrest (u := u.put place (.file (.text a.text)))
      (hu.put hthere hfiles ?_ ?_)
    · unfold writeArtifacts
      rw [hwrite]
      exact hover
    · by_cases hp : place ∈ lost
      · exact .inl (hlost place hp)
      · exact .inr (hextends.allAt hsome (fun h => absurd h hp) hallv)
    · rintro q ⟨b, hb, hrb⟩
      rcases List.mem_cons.mp hb with rfl | hb
      · exact .inl (Except.ok.inj (hrb.symm.trans hr))
      · exact .inr ⟨b, hb, hrb⟩

/-- Files that were all written can be written again, which changes nothing. -/
theorem writeArtifacts_again {files : List Artifact} (hplain : ∀ a ∈ files, Path.Plain a.path)
    (h : writeArtifacts t dir files = (t', .ok ())) :
    writeArtifacts t' dir files = (t', .ok ()) :=
  writeArtifacts_over hplain h (.refl t')

end SchemaBindings
