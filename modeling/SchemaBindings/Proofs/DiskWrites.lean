import SchemaBindings.Proofs.RealTrees
import SchemaBindings.Proofs.WritingRuns

/-! # What writing leaves on the disk

Making directories adds entries and changes none. Writing a file changes the
entry at one place, which is no directory. So paths that led somewhere lead
there still, and a file keeps its text until a path that leads to its own place
is written. Below one directory, plain paths lead to one place only if they are
the same. -/

namespace SchemaBindings

namespace FileTree

variable {t t' t'' : FileTree}

theorem entry?_put_of_ne {p q : Place} (e : Entry) (h : q ≠ p) :
    entry? (t.put p e) q = t.entry? q := by
  unfold entry?
  split
  · rfl
  · unfold put
    have hb : (q == p) = false := by simpa using h
    split
    · induction t.entries with
      | nil => rfl
      | cons old rest ih =>
        obtain ⟨r, f⟩ := old
        rw [List.map_cons, List.lookup_cons]
        by_cases hr : r = p
        · rw [if_pos hr, List.lookup_cons, hb, hr, hb]
          exact ih
        · rw [if_neg hr, List.lookup_cons]
          cases hq : q == r with
          | true => rfl
          | false => exact ih
    · rw [List.lookup_append, List.lookup_cons, hb]
      simp

theorem lookup_replace {p : Place} {e : Entry} {entries : List (Place × Entry)}
    (h : (entries.lookup p).isSome) :
    (entries.map fun old => if old.1 = p then (p, e) else old).lookup p = some e := by
  induction entries with
  | nil => cases h
  | cons old rest ih =>
    obtain ⟨q, f⟩ := old
    rw [List.map_cons]
    by_cases hq : q = p
    · rw [if_pos hq, List.lookup_cons_self]
    · have hb : (p == q) = false := by simpa using Ne.symm hq
      rw [List.lookup_cons, hb] at h
      rw [if_neg hq, List.lookup_cons, hb]
      exact ih h

theorem entry?_put_self {p : Place} (e : Entry) (hp : p ≠ []) :
    entry? (t.put p e) p = some e := by
  have hentry (u : FileTree) : u.entry? p = u.entries.lookup p := by
    unfold entry?
    rw [if_neg hp]
  rw [hentry]
  unfold put
  rw [hentry]
  split
  · rename_i hsome
    exact lookup_replace hsome
  · rename_i hnone
    rw [List.lookup_append, Option.not_isSome_iff_eq_none.mp hnone, List.lookup_cons_self]
    rfl

/-- What is on a disk can still be reached on another one: nothing is gone, and directories are
directories still. -/
structure Stays (t t' : FileTree) : Prop where
  workingPlace : t'.workingPlace = t.workingPlace
  present : ∀ p, (t.entry? p).isSome → (t'.entry? p).isSome
  directories : ∀ p, t.isDirectoryAt p = true → t'.isDirectoryAt p = true

namespace Stays

theorem refl (t : FileTree) : Stays t t := ⟨rfl, fun _ h => h, fun _ h => h⟩

theorem trans (h : Stays t t') (h' : Stays t' t'') : Stays t t'' where
  workingPlace := h'.workingPlace.trans h.workingPlace
  present p hp := h'.present p (h.present p hp)
  directories p hp := h'.directories p (h.directories p hp)

theorem startOf (h : Stays t t') (p : Path) : t'.startOf p = t.startOf p := by
  unfold FileTree.startOf
  rw [h.workingPlace]

theorem step {here next : Place} {piece : List Char} (h : Stays t t')
    (hs : t.step here piece = .ok next) : t'.step here piece = .ok next := by
  have hd := isDirectoryAt_of_step hs
  simp only [FileTree.step, hd, h.directories here hd, Bool.not_true, Bool.false_eq_true,
    if_false] at hs ⊢
  by_cases hidle : Path.isIdle piece = true
  · rw [if_pos hidle] at hs ⊢
    exact hs
  · rw [if_neg hidle] at hs ⊢
    by_cases hup : piece = ['.', '.']
    · rw [if_pos hup] at hs ⊢
      exact hs
    · rw [if_neg hup] at hs ⊢
      split at hs
      · cases hs
      · rename_i hlong
        rw [if_neg hlong]
        split at hs
        · rename_i hsome
          rw [if_pos (h.present _ hsome)]
          exact hs
        · cases hs

theorem walk {start place : Place} {pieces : List (List Char)} (h : Stays t t')
    (hw : t.walk start pieces = .ok place) : t'.walk start pieces = .ok place := by
  unfold FileTree.walk at hw ⊢
  induction pieces generalizing start with
  | nil => exact hw
  | cons piece pieces ih =>
    rw [List.foldlM_cons] at hw ⊢
    cases hs : t.step start piece with
    | error e =>
      rw [hs] at hw
      cases hw
    | ok next =>
      rw [hs] at hw
      rw [h.step hs]
      exact ih hw

/-- A path that led somewhere leads there still. -/
theorem resolve {p : Path} {place : Place} (h : Stays t t') (hr : t.resolve p = .ok place) :
    t'.resolve p = .ok place := by
  unfold FileTree.resolve at hr ⊢
  split at hr
  · cases hr
  · split at hr
    · cases hr
    · rename_i hnul hempty
      rw [if_neg hnul, if_neg hempty, h.startOf]
      exact h.walk hr

theorem lastStep {p : Path} {here : Place} {last : List Char} (h : Stays t t')
    (hs : t.lastStep p = .ok (here, last)) : t'.lastStep p = .ok (here, last) := by
  unfold FileTree.lastStep at hs ⊢
  split at hs
  · cases hs
  · rename_i hnul
    rw [if_neg hnul]
    split at hs
    · cases hs
    · rename_i hempty
      rw [if_neg hempty, h.startOf]
      split at hs
      · exact hs
      · split at hs
        · cases hs
        · rename_i hwalk
          rw [h.walk hwalk]
          split at hs
          · rename_i hdir
            cases hs
            exact if_pos (h.directories _ hdir)
          · cases hs

end Stays

/-- What a change of the disk leaves: everything but the entries at the places in `lost`, where
entries and directories stay all the same. No file comes in at another place. -/
structure Keeps (t t' : FileTree) (lost : List Place) : Prop extends Stays t t' where
  entries : ∀ p e, p ∉ lost → t.entry? p = some e → t'.entry? p = some e
  files : ∀ p c, p ∉ lost → t'.entry? p = some (.file c) → t.entry? p = some (.file c)

namespace Keeps

variable {lost more : List Place}

theorem refl (t : FileTree) : Keeps t t [] := ⟨.refl t, fun _ _ _ h => h, fun _ _ _ h => h⟩

theorem trans (h : Keeps t t' lost) (h' : Keeps t' t'' more) : Keeps t t'' (lost ++ more) where
  toStays := h.toStays.trans h'.toStays
  entries p e hp he := by
    rw [List.mem_append, not_or] at hp
    exact h'.entries p e hp.2 (h.entries p e hp.1 he)
  files p c hp he := by
    rw [List.mem_append, not_or] at hp
    exact h.files p c hp.1 (h'.files p c hp.2 he)

/-- A directory may be put where nothing is. -/
theorem put_directory {p : Place} (hp : t.entry? p = none) : Keeps t (t.put p .directory) [] := by
  have hentry : ∀ q f, t.entry? q = some f → entry? (t.put p .directory) q = some f := fun q f hq => by
    rw [entry?_put_of_ne _ fun h => by rw [h, hp] at hq; cases hq]
    exact hq
  have hroot : p ≠ [] := by
    rintro rfl
    cases hp
  refine ⟨⟨?_, fun q hq => ?_, fun q hq => ?_⟩, fun q f _ hq => hentry q f hq, fun q c _ hq => ?_⟩
  · unfold put
    split <;> rfl
  · obtain ⟨f, hf⟩ := Option.isSome_iff_exists.mp hq
    rw [hentry q f hf]
    rfl
  · unfold isDirectoryAt at hq ⊢
    rw [decide_eq_true_eq] at hq ⊢
    exact hentry q _ hq
  · by_cases h : q = p
    · rw [h, entry?_put_self _ hroot] at hq
      cases hq
    · rwa [entry?_put_of_ne _ h] at hq

/-- A file may be put where no directory is. -/
theorem put_file {p : Place} (c : Content) (hp : t.isDirectoryAt p = false) :
    Keeps t (t.put p (.file c)) [p] := by
  have hne : ∀ {q}, t.isDirectoryAt q = true → q ≠ p := fun hq h => by
    rw [h, hp] at hq
    cases hq
  have hroot : p ≠ [] := (hne (by rfl : t.isDirectoryAt [] = true)).symm
  refine ⟨⟨?_, fun q hq => ?_, fun q hq => ?_⟩, fun q f hqp hq => ?_, fun q f hqp hq => ?_⟩
  · unfold put
    split <;> rfl
  · by_cases h : q = p
    · rw [h, entry?_put_self _ hroot]
      rfl
    · rw [entry?_put_of_ne _ h]
      exact hq
  · unfold isDirectoryAt at hq ⊢
    rw [entry?_put_of_ne _ (hne hq)]
    exact hq
  · rw [entry?_put_of_ne _ fun h => hqp (List.mem_singleton.mpr h)]
    exact hq
  · rwa [entry?_put_of_ne _ fun h => hqp (List.mem_singleton.mpr h)] at hq

/-- At the places that are not lost the files are the same. -/
theorem file_iff (h : Keeps t t' lost) {p : Place} (hp : p ∉ lost) (c : Content) :
    t'.entry? p = some (.file c) ↔ t.entry? p = some (.file c) :=
  ⟨h.files p c hp, h.entries p (.file c) hp⟩

/-- A text can be read as before if it is at none of the places. -/
theorem readText {p : Path} {s : String} (h : Keeps t t' lost)
    (hlost : ∀ place ∈ lost, t.resolve p ≠ .ok place) (hs : t.readText p = .ok s) :
    t'.readText p = .ok s := by
  obtain ⟨place, hr, he⟩ := readText_eq_ok.mp hs
  have hkept : place ∉ lost := fun hmem => hlost place hmem hr
  exact readText_eq_ok.mpr ⟨place, h.resolve hr, h.entries place _ hkept he⟩

end Keeps

/-! ## Entries that are put -/

/-- How a disk comes from another one: directories are made where nothing was, and files are written
where no directory was, at the places in the list. What is put is put in a directory, under a name
that a path can spell. -/
inductive Extends (t : FileTree) : FileTree → List Place → Prop where
  | refl : Extends t t []
  | directory {u : FileTree} {lost : List Place} {here : Place} {name : EntryName}
      (h : Extends t u lost) (hdir : u.isDirectoryAt here = true) (hfit : name.isFit = true)
      (hnone : u.entry? (here ++ [name]) = none) :
      Extends t (u.put (here ++ [name]) .directory) lost
  | file {u : FileTree} {lost : List Place} {here : Place} {name : EntryName} (h : Extends t u lost)
      (hdir : u.isDirectoryAt here = true) (hfit : name.isFit = true)
      (hnodir : u.isDirectoryAt (here ++ [name]) = false) (c : Content) :
      Extends t (u.put (here ++ [name]) (.file c)) (lost ++ [here ++ [name]])

namespace Extends

variable {lost more : List Place}

theorem trans (h : Extends t t' lost) (h' : Extends t' t'' more) : Extends t t'' (lost ++ more) := by
  induction h' with
  | refl => rwa [List.append_nil]
  | directory _ hdir hfit hnone ih => exact ih.directory hdir hfit hnone
  | file _ hdir hfit hnodir c ih =>
    rw [← List.append_assoc]
    exact ih.file hdir hfit hnodir c

theorem keeps (h : Extends t t' lost) : Keeps t t' lost := by
  induction h with
  | refl => exact .refl t
  | directory _ _ _ hnone ih =>
    have hput := ih.trans (.put_directory hnone)
    rwa [List.append_nil] at hput
  | file _ _ _ hnodir c ih => exact ih.trans (.put_file c hnodir)

end Extends

/-- The last piece of a path is to be put in a directory, and has nothing in it that no name has. -/
theorem lastStep_spec {p : Path} {here : Place} {last : List Char}
    (h : t.lastStep p = .ok (here, last)) :
    t.isDirectoryAt here = true ∧ '/' ∉ last ∧ '\x00' ∉ last := by
  unfold lastStep at h
  split at h
  · cases h
  · rename_i hnul
    split at h
    · cases h
    · split at h
      · cases h
        exact ⟨rfl, List.not_mem_nil, List.not_mem_nil⟩
      · rename_i piece before hdrop
        split at h
        · cases h
        · split at h
          · rename_i hdir
            cases h
            have hmem : last ∈ p.pieces := by
              refine List.mem_reverse.mp ((List.dropWhile_sublist (·.isEmpty)).mem ?_)
              rw [hdrop]
              exact List.mem_cons_self ..
            refine ⟨hdir, fun hslash => ?_, fun hmemNul => hnul ?_⟩
            · exact absurd (Text.not_of_mem_splitWhere hmem _ hslash) (by simp)
            · simpa [hasNul] using Text.mem_of_mem_splitWhere hmem hmemNul
          · cases h

theorem isFit_ofList {piece : List Char} (hidle : Path.isIdle piece = false)
    (hup : piece ≠ ['.', '.']) (hlong : isTooLong piece = false) (hslash : '/' ∉ piece)
    (hnul : '\x00' ∉ piece) : (EntryName.text (String.ofList piece)).isFit = true := by
  simp [EntryName.isFit, hidle, hup, hlong, hslash, hnul]

/-! ## Directories -/

theorem makeDirectory_extends {p : Path} (h : t.makeDirectory p = .ok t') : Extends t t' [] := by
  unfold makeDirectory at h
  split at h
  · cases h
  · rename_i here last hstep
    obtain ⟨hdir, hslash, hnul⟩ := lastStep_spec hstep
    split at h
    · cases h
    · rename_i hname
      split at h
      · cases h
      · rename_i hlong
        dsimp only at h
        split at h
        · cases h
        · rename_i hnone
          cases h
          simp only [Bool.or_eq_true, decide_eq_true_eq, not_or, Bool.not_eq_true] at hname hlong
          have hfit := isFit_ofList hname.1 hname.2 hlong hslash hnul
          exact Extends.refl.directory hdir hfit (Option.not_isSome_iff_eq_none.mp hnone)

theorem after_eq_ok {made : Except DiskError FileTree} :
    t.after made = (t', .ok ()) ↔ made = .ok t' := by
  cases made with
  | error cause => simp [after]
  | ok u => simp [after]

/-- All calls for directories only add directories. -/
theorem directoryCalls_extends : Disk.DirectoryCalls fun t t' : FileTree => Extends t t' [] where
  refl _ := .refl
  trans h h' := h.trans h'
  makeDirectory t p := by
    change Extends t (t.after (t.makeDirectory p)).1 []
    unfold after
    split
    · rename_i hm
      exact makeDirectory_extends hm
    · exact .refl
  isDirectory _ _ := .refl

/-! ## Files -/

/-- Going along names alone puts them behind the place where one starts. -/
theorem walk_plain {start place : Place} {pieces : List (List Char)}
    (hp : ∀ piece ∈ pieces, Path.isIdle piece = false ∧ piece ≠ ['.', '.'])
    (h : t.walk start pieces = .ok place) :
    place = start ++ pieces.map fun piece => .text (String.ofList piece) := by
  unfold walk at h
  induction pieces generalizing start with
  | nil =>
    cases h
    simp
  | cons piece pieces ih =>
    rw [List.foldlM_cons] at h
    obtain ⟨hidle, hup⟩ := hp piece (List.mem_cons_self ..)
    cases hs : t.step start piece with
    | error e =>
      rw [hs] at h
      cases h
    | ok next =>
      rw [hs] at h
      have hnext : next = start ++ [.text (String.ofList piece)] := by
        unfold step at hs
        split at hs
        · cases hs
        · rw [hidle, if_neg Bool.false_ne_true] at hs
          split at hs
          · cases hs
          · dsimp only at hs
            split at hs
            · cases hs
              rfl
            · cases hs
      rw [ih (fun q hq => hp q (List.mem_cons_of_mem _ hq)) h, hnext]
      simp

theorem walk_append {start place : Place} {pieces more : List (List Char)} :
    t.walk start (pieces ++ more) = .ok place ↔
      ∃ between, t.walk start pieces = .ok between ∧ t.walk between more = .ok place := by
  unfold walk
  rw [List.foldlM_append]
  cases h : pieces.foldlM t.step start with
  | error e =>
    constructor
    · intro hb
      cases hb
    · rintro ⟨_, hb, _⟩
      cases hb
  | ok between =>
    constructor
    · intro hb
      exact ⟨between, rfl, hb⟩
    · rintro ⟨_, hb, hm⟩
      cases hb
      exact hm

theorem resolve_eq_ok {p : Path} {place : Place} :
    t.resolve p = .ok place ↔
      hasNul p = false ∧ p.text.isEmpty = false ∧ t.walk (t.startOf p) p.pieces = .ok place := by
  unfold resolve
  cases hasNul p with
  | true => simp
  | false => cases p.text.isEmpty <;> simp

/-- Below one directory, two plain paths to one place are the same. -/
theorem resolve_join_injective {dir : Path} {a b : String} {place : Place} (ha : Path.Plain a)
    (hb : Path.Plain b) (hra : t.resolve (dir.join a) = .ok place)
    (hrb : t.resolve (dir.join b) = .ok place) : a = b := by
  obtain ⟨above, absolute, hjoin⟩ := Path.join_plain dir
  obtain ⟨hpa, hsa, -⟩ := hjoin a ha
  obtain ⟨hpb, hsb, -⟩ := hjoin b hb
  obtain ⟨-, -, hwa⟩ := resolve_eq_ok.mp hra
  obtain ⟨-, -, hwb⟩ := resolve_eq_ok.mp hrb
  have hstart : t.startOf (dir.join b) = t.startOf (dir.join a) := by
    unfold startOf
    rw [hsa, hsb]
  rw [hpa] at hwa
  rw [hpb, hstart] at hwb
  obtain ⟨here, hda, hwa⟩ := walk_append.mp hwa
  obtain ⟨here', hdb, hwb⟩ := walk_append.mp hwb
  cases hda.symm.trans hdb
  have hnames := (walk_plain ha hwa).symm.trans (walk_plain hb hwb)
  exact namesOf_injective (List.append_cancel_left hnames)

/-- The last piece of a plain path is a name, and those before it lead to a directory. -/
theorem lastStep_join {dir : Path} {rel : String} {here : Place} {last : List Char}
    (hrel : Path.Plain rel) (h : t.lastStep (dir.join rel) = .ok (here, last)) :
    ∃ before, (dir.join rel).pieces = before ++ [last] ∧
      t.walk (t.startOf (dir.join rel)) before = .ok here ∧ t.isDirectoryAt here = true ∧
      hasNul (dir.join rel) = false ∧ Path.isIdle last = false ∧ last ≠ ['.', '.'] := by
  obtain ⟨above, absolute, hjoin⟩ := Path.join_plain dir
  obtain ⟨hpieces, -, hempty⟩ := hjoin rel hrel
  have hne := Path.pieces_ne_nil ⟨rel⟩
  have hsplit := List.dropLast_concat_getLast hne
  obtain ⟨hidle, hup⟩ := hrel _ (List.getLast_mem hne)
  have hlast : ((Path.mk rel).pieces.getLast hne).isEmpty = false := by
    rw [List.isEmpty_eq_false_iff]
    intro he
    rw [he] at hidle
    cases hidle
  have hall : (dir.join rel).pieces =
      (above ++ (Path.mk rel).pieces.dropLast) ++ [(Path.mk rel).pieces.getLast hne] := by
    rw [hpieces, List.append_assoc, hsplit]
  unfold lastStep at h
  split at h
  · cases h
  · rename_i hnul
    rw [hempty, if_neg Bool.false_ne_true, hall, List.reverse_append, List.reverse_singleton,
      List.singleton_append, List.dropWhile_cons_of_neg (by simp [hlast])] at h
    dsimp only at h
    rw [List.reverse_reverse] at h
    split at h
    · cases h
    · rename_i hwalk
      split at h
      · rename_i hdir
        cases h
        exact ⟨_, hall, hwalk, hdir, by simpa using hnul, hidle, hup⟩
      · cases h

/-- When a file can be written: its last piece is a name, and there is a directory for it and none at
its place. -/
theorem writeText_eq_ok {p : Path} {s : String} :
    t.writeText p s = .ok t' ↔ ∃ here last, t.lastStep p = .ok (here, last) ∧
      Path.isIdle last = false ∧ last ≠ ['.', '.'] ∧ endsInSlash p = false ∧
      isTooLong last = false ∧ t.isDirectoryAt (here ++ [.text (String.ofList last)]) = false ∧
      t' = t.put (here ++ [.text (String.ofList last)]) (.file (.text s)) := by
  unfold writeText
  constructor
  · intro h
    split at h
    · cases h
    · rename_i here last hstep
      split at h
      · cases h
      · rename_i hname
        split at h
        · cases h
        · rename_i hlong
          dsimp only at h
          split at h
          · cases h
          · rename_i hnodir
            cases h
            simp only [Bool.or_eq_true, decide_eq_true_eq, not_or, Bool.not_eq_true] at hname
            exact ⟨here, last, hstep, hname.1.1, hname.1.2, hname.2, by simpa using hlong,
              by simpa using hnodir, rfl⟩
  · rintro ⟨here, last, hstep, hidle, hup, hslash, hlong, hnodir, rfl⟩
    simp [hstep, hidle, hup, hslash, hlong, hnodir]

/-- A file that is written is put at one place, where its path then leads. -/
theorem writeText_puts {dir : Path} {rel text : String} (hrel : Path.Plain rel)
    (h : t.writeText (dir.join rel) text = .ok t') :
    ∃ here last, t.lastStep (dir.join rel) = .ok (here, last) ∧ isTooLong last = false ∧
      t.isDirectoryAt (here ++ [.text (String.ofList last)]) = false ∧
      t' = t.put (here ++ [.text (String.ofList last)]) (.file (.text text)) ∧
      t'.resolve (dir.join rel) = .ok (here ++ [.text (String.ofList last)]) := by
  obtain ⟨here, last, hstep, hidle, hup, -, hlong, hnodir, rfl⟩ := writeText_eq_ok.mp h
  obtain ⟨before, hpieces, hwalk, hdir, hnul, -, -⟩ := lastStep_join hrel hstep
  have hkeeps := Keeps.put_file (.text text) hnodir
  have hentry := entry?_put_self (t := t) (.file (.text text))
    (List.append_ne_nil_of_right_ne_nil here
      (List.cons_ne_nil (EntryName.text (String.ofList last)) []))
  refine ⟨here, last, hstep, hlong, hnodir, rfl, resolve_eq_ok.mpr ⟨hnul, ?_, ?_⟩⟩
  · obtain ⟨above, absolute, hjoin⟩ := Path.join_plain dir
    exact (hjoin rel hrel).2.2
  · rw [hkeeps.startOf, hpieces]
    refine walk_append.mpr ⟨here, hkeeps.walk hwalk, ?_⟩
    have hlast := step_name (hkeeps.directories here hdir) hidle hup hlong (by rw [hentry]; rfl)
    unfold walk
    rw [List.foldlM_cons, hlast]
    rfl

/-- A file that is written is at the place where its path then leads. -/
theorem writeText_spec {dir : Path} {rel text : String} (hrel : Path.Plain rel)
    (h : t.writeText (dir.join rel) text = .ok t') :
    ∃ place, t'.resolve (dir.join rel) = .ok place ∧
      t'.entry? place = some (.file (.text text)) ∧ Extends t t' [place] := by
  obtain ⟨here, last, hstep, hlong, hnodir, rfl, hresolve⟩ := writeText_puts hrel h
  obtain ⟨hdir, hslash, hnul⟩ := lastStep_spec hstep
  obtain ⟨-, -, -, -, -, hidle, hup⟩ := lastStep_join hrel hstep
  refine ⟨_, hresolve, entry?_put_self _ (List.append_ne_nil_of_right_ne_nil here
    (List.cons_ne_nil _ [])), ?_⟩
  exact Extends.refl.file hdir (isFit_ofList hidle hup hlong hslash hnul) hnodir (.text text)

end FileTree

open FileTree

/-- A file that is written is written once directories are made. -/
theorem writeText_of_writeArtifact {t t' : FileTree} {dir : Path} {a : Artifact}
    (h : writeArtifact t dir a = (t', .ok ())) :
    ∃ u, Extends t u [] ∧ u.writeText (dir.join a.path) a.text = .ok t' := by
  obtain ⟨u, hextends, ⟨_, _, -, hfails⟩ | hwrites⟩ :=
    writeArtifact_cases directoryCalls_extends t dir a
  · cases hfails.symm.trans h
  · rw [h, Prod.mk.injEq] at hwrites
    have hok : (Disk.writeText u (dir.join a.path) a.text).2 = .ok () := by
      cases hr : (Disk.writeText u (dir.join a.path) a.text).2 with
      | error cause =>
        rw [hr] at hwrites
        cases hwrites.2
      | ok _ => rfl
    exact ⟨u, hextends, after_eq_ok.mp (Prod.ext hwrites.1.symm hok)⟩

theorem writeArtifact_spec {t t' : FileTree} {dir : Path} {a : Artifact}
    (ha : Path.Plain a.path) (h : writeArtifact t dir a = (t', .ok ())) :
    ∃ place, t'.resolve (dir.join a.path) = .ok place ∧
      t'.entry? place = some (.file (.text a.text)) ∧ Extends t t' [place] := by
  obtain ⟨u, hextends, hw⟩ := writeText_of_writeArtifact h
  obtain ⟨place, hr, he, hplace⟩ := writeText_spec ha hw
  exact ⟨place, hr, he, hextends.trans hplace⟩

theorem writeArtifacts_extends {t t' : FileTree} {dir : Path} {files : List Artifact}
    (hplain : ∀ a ∈ files, Path.Plain a.path) (h : writeArtifacts t dir files = (t', .ok ())) :
    ∃ lost, Extends t t' lost ∧
      ∀ place ∈ lost, ∃ a ∈ files, t'.resolve (dir.join a.path) = .ok place := by
  induction files generalizing t with
  | nil =>
    cases h
    exact ⟨[], .refl, fun _ hp => absurd hp List.not_mem_nil⟩
  | cons a rest ih =>
    obtain ⟨u, hu, hrest⟩ := writeArtifacts_cons h
    obtain ⟨place, hr, -, hplace⟩ := writeArtifact_spec (hplain a (List.mem_cons_self ..)) hu
    obtain ⟨lost, hextends, hlost⟩ := ih (fun b hb => hplain b (List.mem_cons_of_mem _ hb)) hrest
    refine ⟨[place] ++ lost, hplace.trans hextends, fun q hq => ?_⟩
    rcases List.mem_append.mp hq with hq | hq
    · rw [List.mem_singleton.mp hq]
      exact ⟨a, List.mem_cons_self .., hextends.keeps.resolve hr⟩
    · obtain ⟨b, hb, hrb⟩ := hlost q hq
      exact ⟨b, List.mem_cons_of_mem _ hb, hrb⟩

/-- After files are written, each can be read back unless a later one has its path. -/
theorem writeArtifacts_readText {t t' : FileTree} {dir : Path} {before after : List Artifact}
    {a : Artifact} (hplain : ∀ b ∈ before ++ a :: after, Path.Plain b.path)
    (hlast : ∀ b ∈ after, b.path ≠ a.path)
    (h : writeArtifacts t dir (before ++ a :: after) = (t', .ok ())) :
    t'.readText (dir.join a.path) = .ok a.text := by
  induction before generalizing t with
  | nil =>
    obtain ⟨u, hu, hrest⟩ := writeArtifacts_cons h
    have ha := hplain a (List.mem_cons_self ..)
    have hafter (b : Artifact) (hb : b ∈ after) := hplain b (List.mem_cons_of_mem _ hb)
    obtain ⟨place, hr, he, -⟩ := writeArtifact_spec ha hu
    obtain ⟨lost, hextends, hlost⟩ := writeArtifacts_extends hafter hrest
    have hkeeps := hextends.keeps
    have hr' := hkeeps.resolve hr
    have hkept : place ∉ lost := fun hp => by
      obtain ⟨b, hb, hrb⟩ := hlost place hp
      exact hlast b hb (resolve_join_injective (hafter b hb) ha hrb hr')
    exact readText_eq_ok.mpr ⟨place, hr', hkeeps.entries place _ hkept he⟩
  | cons b before ih =>
    obtain ⟨u, -, hrest⟩ := writeArtifacts_cons h
    exact ih (fun c hc => hplain c (List.mem_cons_of_mem _ hc)) hrest

end SchemaBindings
