import Mathlib.Data.List.Induction
import SchemaBindings.FileTree
import SchemaBindings.Proofs.Pieces

/-! # Trees that a disk can hold

In a tree of a disk every entry lies in a directory, and a name that is text
has neither slashes nor anything else that a path could not spell. Then the one
path of an entry leads to the entry, so it is its own one path, and its steps
alone tell it from all others. -/

namespace SchemaBindings

/-- Whether a name, if it is text, can be spelled in a path. -/
def EntryName.isFit : EntryName → Bool
  | .text s => !Path.isIdle s.toList && s.toList ≠ ['.', '.'] && !s.toList.contains '/' &&
      !s.toList.contains '\x00' && !FileTree.isTooLong s.toList
  | .bytes _ => true

/-- Whether a name is text. -/
def EntryName.isText : EntryName → Bool
  | .text _ => true
  | .bytes _ => false

namespace FileTree

variable {t : FileTree}

/-- Entries lie in directories and have fit names, and the path of the working directory is
text. -/
structure Real (t : FileTree) : Prop where
  working : t.isDirectoryAt t.workingPlace = true
  workingNames : ∀ name ∈ t.workingPlace, name.isText = true
  above : ∀ e ∈ t.entries, t.isDirectoryAt e.1.dropLast = true
  names : ∀ e ∈ t.entries, ∀ name ∈ e.1, name.isFit = true

instance (t : FileTree) : Decidable t.Real :=
  decidable_of_iff (t.isDirectoryAt t.workingPlace = true ∧
      (∀ name ∈ t.workingPlace, name.isText = true) ∧
      (∀ e ∈ t.entries, t.isDirectoryAt e.1.dropLast = true) ∧
      ∀ e ∈ t.entries, ∀ name ∈ e.1, name.isFit = true)
    ⟨fun ⟨w, wn, a, n⟩ => ⟨w, wn, a, n⟩, fun ⟨w, wn, a, n⟩ => ⟨w, wn, a, n⟩⟩

theorem isSome_of_isDirectoryAt {p : Place} (h : t.isDirectoryAt p = true) :
    (t.entry? p).isSome = true := by
  unfold isDirectoryAt at h
  rw [of_decide_eq_true h]
  rfl

theorem mem_of_lookup {α : Type} {entries : List (Place × α)} {p : Place} {a : α}
    (h : entries.lookup p = some a) : (p, a) ∈ entries := by
  obtain ⟨before, after, hsplit, -⟩ := List.lookup_eq_some_iff.mp h
  rw [hsplit]
  exact List.mem_append_right _ (List.mem_cons_self ..)

theorem mem_of_entry?_eq_some {p : Place} (hp : p ≠ []) {entry : Entry}
    (h : t.entry? p = some entry) : (p, entry) ∈ t.entries := by
  unfold entry? at h
  rw [if_neg hp] at h
  exact mem_of_lookup h

theorem mem_of_entry? {p : Place} (hp : p ≠ []) (h : (t.entry? p).isSome = true) :
    ∃ e ∈ t.entries, e.1 = p := by
  obtain ⟨entry, hentry⟩ := Option.isSome_iff_exists.mp h
  exact ⟨(p, entry), mem_of_entry?_eq_some hp hentry, rfl⟩

theorem nameBelow?_eq_some {dir place : Place} {name : EntryName} :
    nameBelow? dir place = some name ↔ place = dir ++ [name] := by
  unfold nameBelow?
  constructor
  · intro h
    split at h
    · rename_i last hlast
      split at h
      · rename_i hdir
        cases h
        rw [← hdir, List.dropLast_append_getLast? _ hlast]
      · cases h
    · cases h
  · rintro rfl
    simp

theorem readText_eq_ok {p : Path} {s : String} : t.readText p = .ok s ↔
    ∃ place, t.resolve p = .ok place ∧ t.entry? place = some (.file (.text s)) := by
  unfold readText
  constructor
  · intro h
    split at h
    · cases h
    · rename_i place hplace
      split at h
      · rename_i hentry
        cases h
        exact ⟨place, hplace, hentry⟩
      all_goals cases h
  · rintro ⟨place, hplace, hentry⟩
    rw [hplace]
    dsimp only
    rw [hentry]

/-- A text that is read is in a file of the tree, at the place that the path leads to. -/
theorem mem_of_readText {p : Path} {s : String} (h : t.readText p = .ok s) :
    ∃ place, t.resolve p = .ok place ∧ (place, .file (.text s)) ∈ t.entries := by
  obtain ⟨place, hplace, hentry⟩ := readText_eq_ok.mp h
  refine ⟨place, hplace, mem_of_entry?_eq_some ?_ hentry⟩
  rintro rfl
  cases hentry

namespace Real

theorem isDirectoryAt_dropLast (ht : t.Real) {p : Place} (h : (t.entry? p).isSome = true) :
    t.isDirectoryAt p.dropLast = true := by
  by_cases hp : p = []
  · subst hp
    rfl
  · obtain ⟨e, he, rfl⟩ := mem_of_entry? hp h
    exact ht.above e he

theorem isFit_of_mem (ht : t.Real) {p : Place} (h : (t.entry? p).isSome = true) {name : EntryName}
    (hn : name ∈ p) : name.isFit = true := by
  obtain ⟨e, he, rfl⟩ := mem_of_entry? (List.ne_nil_of_mem hn) h
  exact ht.names e he name hn

/-- What lies above an entry is a directory. -/
theorem isDirectoryAt_of_append (ht : t.Real) {above below : Place} (hb : below ≠ [])
    (h : (t.entry? (above ++ below)).isSome = true) : t.isDirectoryAt above = true := by
  induction below using List.reverseRecOn with
  | nil => exact absurd rfl hb
  | append_singleton below name ih =>
    have hparent := ht.isDirectoryAt_dropLast h
    rw [← List.append_assoc, List.dropLast_concat] at hparent
    by_cases hnil : below = []
    · rwa [hnil, List.append_nil] at hparent
    · exact ih hnil (isSome_of_isDirectoryAt hparent)

end Real

/-- The names are texts. -/
def IsText (p : Place) : Prop := ∀ name ∈ p, name.isText = true

theorem step_reaches (ht : t.Real) {here next : Place} {piece : List Char} (hhere : IsText here)
    (h : t.step here piece = .ok next) : IsText next ∧ (t.entry? next).isSome = true := by
  unfold step at h
  split at h
  · cases h
  · rename_i hdir
    rw [Bool.not_eq_true, Bool.not_eq_false'] at hdir
    have hsome := isSome_of_isDirectoryAt hdir
    split at h
    · cases h
      exact ⟨hhere, hsome⟩
    · split at h
      · cases h
        exact ⟨fun name hn => hhere name ((List.dropLast_sublist _).mem hn),
          isSome_of_isDirectoryAt (ht.isDirectoryAt_dropLast hsome)⟩
      · split at h
        · cases h
        · dsimp only at h
          split at h
          · rename_i hnext
            cases h
            refine ⟨fun name hn => ?_, hnext⟩
            rcases List.mem_append.mp hn with hn | hn
            · exact hhere name hn
            · rw [List.mem_singleton.mp hn]
              rfl
          · cases h

theorem walk_reaches (ht : t.Real) {start place : Place} {pieces : List (List Char)}
    (hstart : IsText start) (hsome : (t.entry? start).isSome = true)
    (h : t.walk start pieces = .ok place) : IsText place ∧ (t.entry? place).isSome = true := by
  induction pieces generalizing start with
  | nil =>
    cases h
    exact ⟨hstart, hsome⟩
  | cons piece pieces ih =>
    unfold walk at h
    rw [List.foldlM_cons] at h
    cases hs : t.step start piece with
    | error e =>
      rw [hs] at h
      cases h
    | ok next =>
      rw [hs] at h
      obtain ⟨hnext, hthere⟩ := step_reaches ht hstart hs
      exact ih hnext hthere h

/-- A path leads to an entry that has a path. -/
theorem resolve_reaches (ht : t.Real) {p : Path} {place : Place} (h : t.resolve p = .ok place) :
    IsText place ∧ (t.entry? place).isSome = true := by
  unfold resolve at h
  split at h
  · cases h
  · split at h
    · cases h
    · refine walk_reaches ht ?_ ?_ h
      · unfold startOf
        split
        · exact fun name hn => by cases hn
        · exact ht.workingNames
      · unfold startOf
        split
        · rfl
        · exact isSome_of_isDirectoryAt ht.working

/-! ## The one path of an entry -/

/-- A name as a piece of a path. -/
def piece : EntryName → List Char
  | .text s => s.toList
  | .bytes bs => (Text.Utf8.lossy bs).toList

theorem toList_path (p : Place) :
    p.path.text.toList = '/' :: ['/'].intercalate (p.map piece) := by
  unfold Place.path
  rw [String.toList_append, String.toList_intercalate, List.map_map]
  change '/' :: ['/'].intercalate _ = _
  congr 2
  refine List.map_congr_left fun name _ => ?_
  cases name <;> rfl

theorem isAbsolute_path (p : Place) : p.path.isAbsolute = true := by
  unfold Path.isAbsolute
  rw [toList_path]
  rfl

theorem mem_intercalate {pieces : List (List Char)} {c : Char} (hc : c ≠ '/')
    (h : c ∈ ['/'].intercalate pieces) : ∃ cs ∈ pieces, c ∈ cs :=
  (Text.mem_intercalate_iff (by simpa using hc)).mp h

theorem isFit_text {s : String} (h : (EntryName.text s).isFit = true) :
    Path.isIdle s.toList = false ∧ s.toList ≠ ['.', '.'] ∧ '/' ∉ s.toList ∧
      '\x00' ∉ s.toList ∧ isTooLong s.toList = false := by
  simpa [EntryName.isFit, and_assoc] using h

/-- The pieces of the one path: nothing before the first slash, then the names. -/
theorem pieces_path {p : Place} (hp : p ≠ []) (hfit : ∀ name ∈ p, name.isFit = true)
    (htext : IsText p) : p.path.pieces = [] :: p.map piece := by
  have hplain : ∀ name ∈ p, ∀ c ∈ piece name, decide (c = '/') = false := by
    intro name hn c hc
    cases name with
    | text s =>
      have hslash := (isFit_text (hfit _ hn)).2.2.1
      exact decide_eq_false fun h => hslash (h ▸ hc)
    | bytes bs => cases htext _ hn
  have hnames : Text.splitWhere (· = '/') (['/'].intercalate (p.map piece)) = p.map piece := by
    clear hfit htext
    induction p with
    | nil => exact absurd rfl hp
    | cons name rest ih =>
      have hfirst : Text.splitWhere (· = '/') (piece name) = [piece name] :=
        Text.splitWhere_of_not (hplain name (List.mem_cons_self ..))
      cases rest with
      | nil => rw [List.map_cons, List.map_nil, List.intercalate_singleton, hfirst]
      | cons next rest =>
        have hrest := ih (List.cons_ne_nil _ _) fun n hn => hplain n (List.mem_cons_of_mem _ hn)
        rw [List.map_cons, List.map_cons, List.intercalate_cons_cons, List.append_assoc,
          List.singleton_append, Text.splitWhere_append _ _ (by rfl), hfirst, ← List.map_cons, hrest]
        rfl
  unfold Path.pieces
  rw [toList_path, Text.splitWhere, if_pos (by rfl), hnames]

theorem pieces_path_nil : (Place.path []).pieces = [[], []] := by decide

/-- From the root, the names of an entry lead to it one by one. -/
theorem walk_names (ht : t.Real) {done todo : Place} (htext : IsText (done ++ todo))
    (h : (t.entry? (done ++ todo)).isSome = true) :
    t.walk done (todo.map piece) = .ok (done ++ todo) := by
  induction todo generalizing done with
  | nil =>
    rw [List.append_nil]
    rfl
  | cons name rest ih =>
    have hmem : name ∈ done ++ name :: rest := List.mem_append_right _ (List.mem_cons_self ..)
    have hsplit : done ++ name :: rest = (done ++ [name]) ++ rest := by simp
    have hdir := ht.isDirectoryAt_of_append (List.cons_ne_nil name rest) h
    have hnext : (t.entry? (done ++ [name])).isSome = true := by
      by_cases hr : rest = []
      · rwa [hr] at h
      · rw [hsplit] at h
        exact isSome_of_isDirectoryAt (ht.isDirectoryAt_of_append hr h)
    have hstep : t.step done (piece name) = .ok (done ++ [name]) := by
      cases name with
      | bytes bs => cases htext _ hmem
      | text s =>
        obtain ⟨hidle, hup, -, -, hlong⟩ := isFit_text (ht.isFit_of_mem h hmem)
        rw [← String.ofList_toList (s := s)] at hnext
        refine (step_name hdir hidle hup hlong hnext).trans ?_
        rw [String.ofList_toList]
    unfold walk
    rw [List.map_cons, List.foldlM_cons, hstep, hsplit]
    rw [hsplit] at h htext
    exact ih htext h

/-- The one path of an entry leads to the entry. -/
theorem resolve_path (ht : t.Real) {p : Place} (htext : IsText p)
    (h : (t.entry? p).isSome = true) : t.resolve p.path = .ok p := by
  have hempty : p.path.text.isEmpty = false := by
    rw [String.isEmpty_eq_false_iff]
    intro he
    have hlist := toList_path p
    rw [he] at hlist
    cases hlist
  have hnul : hasNul p.path = false := by
    unfold hasNul
    rw [toList_path, List.contains_eq_mem, decide_eq_false_iff_not, List.mem_cons, not_or]
    refine ⟨by decide, fun hc => ?_⟩
    obtain ⟨cs, hcs, hmem⟩ := mem_intercalate (by decide) hc
    obtain ⟨name, hn, rfl⟩ := List.mem_map.mp hcs
    cases name with
    | bytes bs => cases htext _ hn
    | text s => exact (isFit_text (ht.isFit_of_mem h hn)).2.2.2.1 hmem
  unfold resolve startOf
  rw [hnul, hempty, isAbsolute_path]
  simp only [Bool.false_eq_true, if_false, if_true]
  by_cases hp : p = []
  · rw [hp, pieces_path_nil]
    rfl
  · rw [pieces_path hp (fun name => ht.isFit_of_mem h) htext]
    have hwalk : t.walk [] (p.map piece) = .ok ([] ++ p) := walk_names ht htext h
    exact hwalk

theorem canonical?_eq_some {p q : Path} :
    t.canonical? p = some q ↔ ∃ place, t.resolve p = .ok place ∧ place.path = q := by
  unfold canonical?
  cases t.resolve p with
  | ok place => simp
  | error e => simp

/-- The one path of an entry is its own one path. -/
theorem canonical?_canonical (ht : t.Real) {p q : Path} (h : t.canonical? p = some q) :
    t.canonical? q = some q := by
  obtain ⟨place, hplace, rfl⟩ := canonical?_eq_some.mp h
  obtain ⟨htext, hthere⟩ := resolve_reaches ht hplace
  exact canonical?_eq_some.mpr ⟨place, resolve_path ht htext hthere, rfl⟩

/-- A file that is read has one path, and is read by that too. -/
theorem readText_canonical (ht : t.Real) {p : Path} {s : String} (h : t.readText p = .ok s) :
    ∃ q, t.canonical? p = some q ∧ t.readText q = .ok s := by
  obtain ⟨place, hplace, hentry⟩ := readText_eq_ok.mp h
  obtain ⟨htext, hthere⟩ := resolve_reaches ht hplace
  exact ⟨place.path, canonical?_eq_some.mpr ⟨place, hplace, rfl⟩,
    readText_eq_ok.mpr ⟨place, resolve_path ht htext hthere, hentry⟩⟩

theorem steps_path {p : Place} (hfit : ∀ name ∈ p, name.isFit = true) (htext : IsText p) :
    p.path.steps = .root :: p.map fun name => .name (String.ofList (piece name)) := by
  unfold Path.steps
  by_cases hp : p = []
  · rw [hp, pieces_path_nil]
    rfl
  · rw [pieces_path hp hfit htext]
    dsimp only
    rw [isAbsolute_path, if_pos rfl, List.filterMap_map, List.filterMap_eq_map_iff_forall_eq_some.mpr]
    intro name hn
    cases name with
    | bytes bs => cases htext _ hn
    | text s =>
      obtain ⟨hidle, hup, -⟩ := isFit_text (hfit _ hn)
      have hne : ¬ (s.toList = [] ∨ s.toList = ['.']) := by simpa [Path.isIdle] using hidle
      rw [Function.comp_apply, Path.innerStep?, piece, if_neg hne, if_neg hup]

/-- The steps of a one path tell which it is. -/
theorem eq_of_canonical? (ht : t.Real) {p q : Path} (hp : t.canonical? p = some p)
    (hq : t.canonical? q = some q) (h : p.steps = q.steps) : p = q := by
  have hplace {r : Path} (hr : t.canonical? r = some r) : ∃ place : Place, r = place.path ∧
      IsText place ∧ (t.entry? place).isSome = true := by
    obtain ⟨place, hresolve, hpath⟩ := canonical?_eq_some.mp hr
    exact ⟨place, hpath.symm, resolve_reaches ht hresolve⟩
  obtain ⟨a, rfl, hatext, hathere⟩ := hplace hp
  obtain ⟨b, rfl, hbtext, hbthere⟩ := hplace hq
  rw [steps_path (fun name => ht.isFit_of_mem hathere) hatext,
    steps_path (fun name => ht.isFit_of_mem hbthere) hbtext, List.cons.injEq] at h
  have hpieces : a.map piece = b.map piece := by
    have hspell : ∀ cs ds : List Char,
        PathStep.name (String.ofList cs) = .name (String.ofList ds) → cs = ds :=
      fun _ _ heq => String.ofList_inj.mp (PathStep.name.inj heq)
    refine (List.map_inj_right hspell).mp ?_
    rw [List.map_map, List.map_map]
    exact h.2
  have htexts : a.path.text = b.path.text := by
    rw [← String.toList_inj, toList_path, toList_path, hpieces]
  exact congrArg Path.mk htexts

end FileTree

end SchemaBindings
