import SchemaBindings.Proofs.Outcomes
import SchemaBindings.Proofs.RealTrees

/-! # Paths that take the same steps

A path can be spelled in many ways. The steps of a directory and of what is
joined to it come from the steps of its parts, however these are spelled, and
so does the entry that a path leads to, but for one thing: a slash or a dot at
the end is kept, and only a directory can be meant by it. -/

namespace SchemaBindings

/-- The piece that a step is spelled by, if the step goes anywhere. -/
def PathStep.piece? : PathStep → Option (List Char)
  | .up => some ['.', '.']
  | .name s => some s.toList
  | _ => none

namespace Text

/-- Pieces without slashes are found again when slashes are put between them. -/
theorem splitWhere_intercalate {pieces : List (List Char)} (hne : pieces ≠ [])
    (h : ∀ piece ∈ pieces, ∀ c ∈ piece, decide (c = '/') = false) :
    splitWhere (· = '/') (['/'].intercalate pieces) = pieces := by
  induction pieces with
  | nil => exact absurd rfl hne
  | cons first rest ih =>
    have hfirst := splitWhere_of_not (h first (List.mem_cons_self ..))
    cases rest with
    | nil => rw [List.intercalate_singleton, hfirst]
    | cons next rest =>
      have hrest := ih (List.cons_ne_nil _ _) fun piece hp => h piece (List.mem_cons_of_mem _ hp)
      rw [List.intercalate_cons_cons, List.append_assoc, List.singleton_append,
        splitWhere_append _ _ (by rfl), hfirst, hrest]
      rfl

theorem intercalate_append {before after : List (List Char)} (hb : before ≠ []) (ha : after ≠ []) :
    ['/'].intercalate (before ++ after) =
      ['/'].intercalate before ++ '/' :: ['/'].intercalate after := by
  induction before with
  | nil => exact absurd rfl hb
  | cons first rest ih =>
    cases rest with
    | nil =>
      obtain ⟨next, others, rfl⟩ := List.exists_cons_of_ne_nil ha
      simp [List.intercalate_cons_cons]
    | cons next rest =>
      have hrest := ih (List.cons_ne_nil _ _)
      simp only [List.cons_append, List.intercalate_cons_cons] at hrest ⊢
      rw [hrest]
      simp

end Text

namespace Path

/-- The steps of the pieces that follow the first one. -/
def innerSteps (pieces : List (List Char)) : List PathStep := pieces.filterMap innerStep?

@[simp] theorem innerSteps_append (as bs : List (List Char)) :
    innerSteps (as ++ bs) = innerSteps as ++ innerSteps bs := List.filterMap_append ..

theorem innerStep?_of_isIdle {piece : List Char} (h : isIdle piece = true) :
    innerStep? piece = none := by
  have hidle : piece = [] ∨ piece = ['.'] := by simpa [isIdle] using h
  simp [innerStep?, hidle]

theorem exists_innerStep? {piece : List Char} (h : isIdle piece = false) :
    ∃ s, innerStep? piece = some s ∧ s ≠ .root ∧ s.piece? = some piece := by
  have hidle : ¬ (piece = [] ∨ piece = ['.']) := by simpa [isIdle] using h
  unfold innerStep?
  rw [if_neg hidle]
  by_cases hup : piece = ['.', '.']
  · exact ⟨.up, by rw [if_pos hup], by simp, by simp [PathStep.piece?, hup]⟩
  · exact ⟨.name (String.ofList piece), by rw [if_neg hup], by simp, by simp [PathStep.piece?]⟩

theorem filterMap_piece?_innerSteps (pieces : List (List Char)) :
    (innerSteps pieces).filterMap PathStep.piece? = pieces.filter (!isIdle ·) := by
  induction pieces with
  | nil => rfl
  | cons piece pieces ih =>
    change (innerSteps ([piece] ++ pieces)).filterMap PathStep.piece? = _
    rw [innerSteps_append, List.filterMap_append, ih]
    cases hidle : isIdle piece with
    | true => simp [innerSteps, innerStep?_of_isIdle hidle, hidle]
    | false =>
      obtain ⟨s, hs, -, hpiece⟩ := exists_innerStep? hidle
      simp [innerSteps, hs, hpiece, hidle]

theorem root_not_mem_innerSteps (pieces : List (List Char)) : .root ∉ innerSteps pieces := by
  intro h
  obtain ⟨piece, -, hs⟩ := List.mem_filterMap.mp h
  cases hidle : isIdle piece with
  | true => simp [innerStep?_of_isIdle hidle] at hs
  | false =>
    obtain ⟨s, hs', hne, -⟩ := exists_innerStep? hidle
    exact hne (Option.some.inj (hs'.symm.trans hs))

/-! ## The steps of a path -/

variable {p q : Path}

theorem steps_of_pieces {first : List Char} {rest : List (List Char)}
    (h : p.pieces = first :: rest) : p.steps =
      (if p.isAbsolute then [.root] else (firstStep? first).toList) ++ innerSteps rest := by
  unfold steps
  rw [h]
  dsimp only
  split
  · rfl
  · rfl

theorem pieces_of_isAbsolute (h : p.isAbsolute = true) :
    ∃ cs, p.text.toList = '/' :: cs ∧ p.pieces = [] :: Text.splitWhere (· = '/') cs := by
  obtain ⟨cs, hcs⟩ := List.head?_eq_some_iff.mp (of_decide_eq_true h)
  refine ⟨cs, hcs, ?_⟩
  unfold pieces
  rw [hcs, Text.splitWhere, if_pos (by rfl)]

theorem firstStep?_ne_root {piece : List Char} : firstStep? piece ≠ some .root := by
  intro h
  unfold firstStep? at h
  split at h
  · cases h
  · cases hidle : isIdle piece with
    | true => simp [innerStep?_of_isIdle hidle] at h
    | false =>
      obtain ⟨s, hs, hne, -⟩ := exists_innerStep? hidle
      exact hne (Option.some.inj (hs.symm.trans h))

theorem firstStep?_eq_none {piece : List Char} (h : firstStep? piece = none) : piece = [] := by
  unfold firstStep? at h
  split at h
  · cases h
  · rename_i hdot
    cases hidle : isIdle piece with
    | true => simpa [isIdle, hdot] using hidle
    | false =>
      obtain ⟨s, hs, -⟩ := exists_innerStep? hidle
      cases hs.symm.trans h

theorem exists_pieces (p : Path) : ∃ first rest, p.pieces = first :: rest :=
  List.exists_cons_of_ne_nil p.pieces_ne_nil

theorem isAbsolute_iff : p.isAbsolute = true ↔ .root ∈ p.steps := by
  obtain ⟨first, rest, hp⟩ := p.exists_pieces
  rw [steps_of_pieces hp]
  cases p.isAbsolute with
  | true => simp
  | false =>
    simp only [Bool.false_eq_true, if_false, List.mem_append, Option.mem_toList, false_iff, not_or]
    exact ⟨firstStep?_ne_root, root_not_mem_innerSteps rest⟩

/-- The pieces that go anywhere are those of the steps. -/
theorem filter_pieces (p : Path) :
    p.pieces.filter (!isIdle ·) = p.steps.filterMap PathStep.piece? := by
  obtain ⟨first, rest, hp⟩ := p.exists_pieces
  rw [steps_of_pieces hp, List.filterMap_append, filterMap_piece?_innerSteps, hp]
  cases habs : p.isAbsolute with
  | true =>
    obtain ⟨cs, -, hp'⟩ := pieces_of_isAbsolute habs
    obtain ⟨rfl, -⟩ := List.cons.inj (hp.symm.trans hp')
    rfl
  | false =>
    rw [List.filter_cons]
    by_cases hdot : first = ['.']
    · subst hdot
      rfl
    · have hinner : firstStep? first = innerStep? first := if_neg hdot
      cases hidle : isIdle first with
      | true => simp [hinner, innerStep?_of_isIdle hidle]
      | false =>
        obtain ⟨s, hs, -, hpiece⟩ := exists_innerStep? hidle
        simp [hinner, hs, hpiece]

theorem isAbsolute_of_pieces {rest : List (List Char)} (h : p.pieces = [] :: rest)
    (hne : p.text.toList ≠ []) : p.isAbsolute = true := by
  obtain ⟨c, cs, htext⟩ := List.exists_cons_of_ne_nil hne
  unfold pieces at h
  rw [htext, Text.splitWhere] at h
  split at h
  · rename_i hc
    simp [isAbsolute, htext, of_decide_eq_true hc]
  · cases hs : Text.splitWhere (· = '/') cs with
    | nil => exact absurd hs (Text.splitWhere_ne_nil _ _)
    | cons next others =>
      rw [hs] at h
      cases (List.cons.inj h).1

theorem text_eq_nil_iff : p.text.toList = [] ↔ p.steps = [] := by
  constructor
  · intro h
    have hp : p.pieces = [[]] := by
      unfold pieces
      rw [h]
      rfl
    rw [steps_of_pieces hp]
    simp [isAbsolute, h, firstStep?, innerStep?, innerSteps]
  · intro h
    obtain ⟨first, rest, hp⟩ := p.exists_pieces
    rw [steps_of_pieces hp] at h
    obtain ⟨hfirst, -⟩ := List.append_eq_nil_iff.mp h
    by_contra hne
    cases habs : p.isAbsolute with
    | true => simp [habs] at hfirst
    | false =>
      -- The first piece takes no step, so it is empty, and the text starts with a slash.
      rw [habs] at hfirst
      have hnil : first = [] := firstStep?_eq_none (by simpa using hfirst)
      rw [hnil] at hp
      rw [isAbsolute_of_pieces hp hne] at habs
      cases habs

/-- Whether a path ends in a slash or in a dot of its own. -/
def endsIdle (p : Path) : Bool := p.pieces.getLast?.any isIdle

end Path

namespace FileTree

variable {t : FileTree} {p q : Path}

theorem walk_cons_eq_ok_iff {start place : Place} {piece : List Char} {rest : List (List Char)} :
    t.walk start (piece :: rest) = .ok place ↔
      ∃ next, t.step start piece = .ok next ∧ t.walk next rest = .ok place := by
  unfold walk
  rw [List.foldlM_cons]
  exact bind_eq_ok

/-- Pieces that go nowhere only ask for a directory, and all but the last one are on the way into
one anyhow. -/
theorem walk_eq_ok_iff {start place : Place} {pieces : List (List Char)} :
    t.walk start pieces = .ok place ↔ t.walk start (pieces.filter (!Path.isIdle ·)) = .ok place ∧
      (pieces.getLast?.any Path.isIdle = true → t.isDirectoryAt place = true) := by
  induction pieces generalizing start with
  | nil => simp
  | cons piece rest ih =>
    rw [walk_cons_eq_ok_iff]
    cases hidle : Path.isIdle piece with
    | false =>
      have hlast : (piece :: rest).getLast?.any Path.isIdle = rest.getLast?.any Path.isIdle := by
        cases rest with
        | nil => simp [hidle]
        | cons next rest => rw [List.getLast?_cons_cons]
      simp only [hlast, List.filter_cons, hidle, Bool.not_false, if_true, walk_cons_eq_ok_iff, ih]
      constructor
      · rintro ⟨next, hstep, hwalk, hdir⟩
        exact ⟨⟨next, hstep, hwalk⟩, hdir⟩
      · rintro ⟨⟨next, hstep, hwalk⟩, hdir⟩
        exact ⟨next, hstep, hwalk, hdir⟩
    | true =>
      have hstep (next : Place) : t.step start piece = .ok next ↔
          t.isDirectoryAt start = true ∧ next = start := by
        unfold step
        cases t.isDirectoryAt start <;> simp [hidle, eq_comm]
      simp only [hstep, ih, List.filter_cons, hidle, Bool.not_true, Bool.false_eq_true, if_false]
      constructor
      · rintro ⟨_, ⟨hdir, rfl⟩, hwalk, hlast⟩
        refine ⟨hwalk, fun h => ?_⟩
        cases rest with
        | nil =>
          cases hwalk
          exact hdir
        | cons next rest => exact hlast (by rwa [List.getLast?_cons_cons] at h)
      · rintro ⟨hwalk, hlast⟩
        refine ⟨start, ⟨?_, rfl⟩, hwalk, fun h => hlast ?_⟩
        · cases hrest : rest.filter (!Path.isIdle ·) with
          | nil =>
            rw [hrest] at hwalk
            cases hwalk
            refine hlast ?_
            rw [List.getLast?_eq_some_getLast (List.cons_ne_nil _ _), Option.any_some]
            rcases List.mem_cons.mp (List.getLast_mem (List.cons_ne_nil piece rest)) with h | h
            · rw [h, hidle]
            · simpa using List.filter_eq_nil_iff.mp hrest _ h
          | cons next others =>
            rw [hrest] at hwalk
            obtain ⟨_, hnext, -⟩ := walk_cons_eq_ok_iff.mp hwalk
            exact isDirectoryAt_of_step hnext
        · cases rest with
          | nil => cases h
          | cons next rest => rwa [List.getLast?_cons_cons]

theorem hasNul_eq (p : Path) :
    hasNul p = (p.steps.filterMap PathStep.piece?).any (·.contains '\x00') := by
  rw [← Path.filter_pieces, Bool.eq_iff_iff]
  unfold hasNul
  simp only [List.any_eq_true, List.contains_eq_mem, decide_eq_true_eq, List.mem_filter]
  constructor
  · intro h
    rw [← Text.intercalate_splitWhere p.text.toList] at h
    obtain ⟨piece, hp, hnul⟩ := mem_intercalate (by decide) h
    refine ⟨piece, ⟨hp, ?_⟩, hnul⟩
    rw [Bool.not_eq_true', ← Bool.not_eq_true]
    intro hidle
    have hidle : piece = [] ∨ piece = ['.'] := by simpa [Path.isIdle] using hidle
    rcases hidle with rfl | rfl <;> simp at hnul
  · rintro ⟨piece, ⟨hp, -⟩, hnul⟩
    exact Text.mem_of_mem_splitWhere hp hnul

/-- A path leads where another spelling of its steps leads, if it asks for a directory only where that
does. -/
theorem resolve_of_steps (hsteps : p.steps = q.steps)
    (hidle : p.endsIdle = true → q.endsIdle = true) {place : Place} (h : t.resolve q = .ok place) :
    t.resolve p = .ok place := by
  have hstart : t.startOf p = t.startOf q := by
    unfold startOf
    have habs : p.isAbsolute = q.isAbsolute := by
      rw [Bool.eq_iff_iff, Path.isAbsolute_iff, Path.isAbsolute_iff, hsteps]
    rw [habs]
  have hempty : p.text.isEmpty = q.text.isEmpty := by
    rw [Bool.eq_iff_iff, String.isEmpty_iff, String.isEmpty_iff, ← String.toList_eq_nil_iff,
      ← String.toList_eq_nil_iff, Path.text_eq_nil_iff, Path.text_eq_nil_iff, hsteps]
  unfold resolve at h ⊢
  rw [hasNul_eq, hsteps, ← hasNul_eq, hempty]
  split at h
  · cases h
  · rename_i hnul
    split at h
    · cases h
    · rename_i hne
      rw [if_neg hnul, if_neg hne]
      obtain ⟨hwalk, hdir⟩ := walk_eq_ok_iff.mp h
      rw [Path.filter_pieces] at hwalk
      refine walk_eq_ok_iff.mpr ⟨?_, fun h => hdir (hidle h)⟩
      rwa [Path.filter_pieces, hsteps, hstart]

/-- Where a path leads, it leads however its steps are spelled. -/
theorem resolve_eq_ok_congr (hsteps : p.steps = q.steps) (hidle : p.endsIdle = q.endsIdle)
    {place : Place} : t.resolve p = .ok place ↔ t.resolve q = .ok place := by
  constructor
  · exact resolve_of_steps hsteps.symm fun h => hidle.trans h
  · exact resolve_of_steps hsteps fun h => hidle.symm.trans h

/-- What a path that asks for a directory leads to is one. -/
theorem isDirectoryAt_of_endsIdle {place : Place} (h : t.resolve p = .ok place)
    (hidle : p.endsIdle = true) : t.isDirectoryAt place = true := by
  unfold resolve at h
  split at h
  · cases h
  · split at h
    · cases h
    · exact (walk_eq_ok_iff.mp h).2 hidle

theorem canonical?_congr (hsteps : p.steps = q.steps) (hidle : p.endsIdle = q.endsIdle) :
    t.canonical? p = t.canonical? q := by
  unfold canonical?
  cases hp : t.resolve p with
  | ok place => rw [(resolve_eq_ok_congr hsteps hidle).mp hp]
  | error e =>
    cases hq : t.resolve q with
    | error e' => rfl
    | ok place =>
      rw [(resolve_eq_ok_congr hsteps hidle).mpr hq] at hp
      cases hp

end FileTree

namespace Path

variable {p q base base' : Path}

/-! ## Joined paths -/

theorem steps_below {a : Path} {above rel : List Char} (h : a.text.toList = above ++ '/' :: rel) :
    a.steps = (Path.mk (String.ofList (above ++ ['/']))).steps ++
      innerSteps (Text.splitWhere (· = '/') rel) := by
  have habove : (Path.mk (String.ofList (above ++ ['/']))).text.toList = above ++ '/' :: [] := by
    simp
  have habs := (isAbsolute_below h).trans (isAbsolute_below habove).symm
  have hnil : innerSteps (Text.splitWhere (· = '/') []) = [] := rfl
  cases hs : Text.splitWhere (· = '/') above with
  | nil => exact absurd hs (Text.splitWhere_ne_nil _ _)
  | cons first rest =>
    have hp := pieces_below h
    have hp' := pieces_below habove
    rw [hs, List.cons_append] at hp hp'
    rw [steps_of_pieces hp, steps_of_pieces hp', habs, innerSteps_append, innerSteps_append, hnil,
      List.append_nil, List.append_assoc]

theorem endsIdle_below {a : Path} {above rel : List Char}
    (h : a.text.toList = above ++ '/' :: rel) :
    a.endsIdle = (Text.splitWhere (· = '/') rel).getLast?.any isIdle := by
  unfold endsIdle
  rw [pieces_below h, List.getLast?_append_of_ne_nil _ (Text.splitWhere_ne_nil _ _)]

/-- A slash at the end takes no step. -/
theorem steps_slash (h : p.text.toList ≠ []) :
    (Path.mk (String.ofList (p.text.toList ++ ['/']))).steps = p.steps := by
  have hslash : (Path.mk (String.ofList (p.text.toList ++ ['/']))).text.toList =
      p.text.toList ++ '/' :: [] := by simp
  have habs : (Path.mk (String.ofList (p.text.toList ++ ['/']))).isAbsolute = p.isAbsolute := by
    rw [isAbsolute_below hslash]
    unfold isAbsolute
    obtain ⟨c, cs, hc⟩ := List.exists_cons_of_ne_nil h
    simp [hc]
  obtain ⟨first, rest, hp⟩ := p.exists_pieces
  have hp' := pieces_below hslash
  change _ = p.pieces ++ [[]] at hp'
  rw [hp, List.cons_append] at hp'
  rw [steps_of_pieces hp', steps_of_pieces hp, habs, innerSteps_append]
  exact congrArg _ (List.append_nil _)

/-- What is joined to a path with steps comes after these. -/
theorem join_below {rel : String} (hrel : (Path.mk rel).isAbsolute = false)
    (hbase : base.steps ≠ []) : ∃ above, (base.join rel).text.toList = above ++ '/' :: rel.toList ∧
      (Path.mk (String.ofList (above ++ ['/']))).steps = base.steps := by
  have htext : base.text.toList ≠ [] := fun h => hbase (text_eq_nil_iff.mp h)
  have hempty : base.text.isEmpty = false := by
    rw [String.isEmpty_eq_false_iff]
    rintro he
    exact htext (by rw [he]; rfl)
  by_cases hl : base.text.toList.getLast? = some '/'
  · refine ⟨base.text.toList.dropLast, ?_, ?_⟩
    · have hj : base.join rel = ⟨base.text ++ rel⟩ := by
        simp only [join, hrel, Bool.false_eq_true, if_false, hempty, hl, if_true]
      rw [hj, String.toList_append, ← List.dropLast_append_getLast? _ hl]
      simp
    · rw [List.dropLast_append_getLast? _ hl, String.ofList_toList]
  · refine ⟨base.text.toList, ?_, steps_slash htext⟩
    have hj : base.join rel = ⟨base.text ++ "/" ++ rel⟩ := by
      simp only [join, hrel, Bool.false_eq_true, if_false, hempty, hl]
    rw [hj, String.toList_append, String.toList_append, List.append_assoc]
    rfl

theorem join_congr (h : base.steps = base'.steps) (rel : String) :
    (base.join rel).steps = (base'.join rel).steps ∧
      (base.join rel).endsIdle = (base'.join rel).endsIdle := by
  by_cases hrel : (Path.mk rel).isAbsolute = true
  · simp only [join, hrel, if_true, and_self]
  rw [Bool.not_eq_true] at hrel
  by_cases hbase : base.steps = []
  · have hjoin {b : Path} (hb : b.steps = []) : b.join rel = ⟨rel⟩ := by
      have hempty : b.text.isEmpty = true := by
        rw [String.isEmpty_iff, ← String.toList_eq_nil_iff, text_eq_nil_iff, hb]
      simp only [join, hrel, Bool.false_eq_true, if_false, hempty, if_true]
    rw [hjoin hbase, hjoin (h ▸ hbase)]
    exact ⟨rfl, rfl⟩
  · obtain ⟨above, htext, hsteps⟩ := join_below hrel hbase
    obtain ⟨above', htext', hsteps'⟩ := join_below hrel (h ▸ hbase : base'.steps ≠ [])
    rw [steps_below htext, steps_below htext', hsteps, hsteps', h, endsIdle_below htext,
      endsIdle_below htext']
    exact ⟨rfl, rfl⟩

/-! ## The directory of a path -/

/-- The pieces, given from the end, that are left when idle ones are dropped. -/
theorem exists_dropIdle (pieces : List (List Char)) :
    (dropIdle pieces.reverse = [] ∧ innerSteps pieces = []) ∨
      ∃ above last idle s, pieces = above ++ last :: idle ∧
        dropIdle pieces.reverse = last :: above.reverse ∧ innerStep? last = some s ∧ s ≠ .root ∧
          innerSteps pieces = innerSteps above ++ [s] := by
  induction pieces using List.reverseRecOn with
  | nil => exact .inl ⟨rfl, rfl⟩
  | append_singleton pieces piece ih =>
    rw [List.reverse_append, List.reverse_singleton, List.singleton_append, dropIdle,
      List.dropWhile_cons]
    cases hidle : isIdle piece with
    | false =>
      obtain ⟨s, hs, hne, -⟩ := exists_innerStep? hidle
      exact .inr ⟨pieces, piece, [], s, rfl, by simp, hs, hne, by simp [innerSteps, hs]⟩
    | true =>
      have hnone : innerSteps [piece] = [] := by simp [innerSteps, innerStep?_of_isIdle hidle]
      rw [innerSteps_append, hnone, List.append_nil]
      rcases ih with ⟨hdrop, hsteps⟩ | ⟨above, last, idle, s, rfl, hdrop, hs, hne, hsteps⟩
      · exact .inl ⟨hdrop, hsteps⟩
      · exact .inr ⟨above, last, idle ++ [piece], s, by simp, hdrop, hs, hne, hsteps⟩

theorem innerSteps_dropIdle (pieces : List (List Char)) :
    innerSteps (dropIdle pieces.reverse).reverse = innerSteps pieces := by
  rcases exists_dropIdle pieces with ⟨hdrop, hsteps⟩ | ⟨above, last, idle, s, -, hdrop, hs, -, hsteps⟩
  · rw [hdrop, hsteps]
    rfl
  · rw [hdrop, hsteps]
    simp [innerSteps, hs]

/-- The step that the kept start of a spelling takes. -/
def leadOf (cs : List Char) : List PathStep :=
  match cs with
  | '/' :: _ => [.root]
  | ['.'] => [.here]
  | '.' :: '/' :: _ => [.here]
  | _ => []

/-- How a spelling starts: with a slash, with a dot alone, or with a name. -/
theorem start_cases (cs : List Char) :
    (∃ rest, cs = '/' :: rest ∧ leadOf cs = [.root] ∧ keptLength cs = 1) ∨
    (∃ rest, cs = '.' :: rest ∧ (rest = [] ∨ ∃ more, rest = '/' :: more) ∧
      leadOf cs = [.here] ∧ keptLength cs = 1) ∨
    ((∀ rest, cs ≠ '/' :: rest) ∧ cs ≠ ['.'] ∧ (∀ rest, cs ≠ '.' :: '/' :: rest) ∧
      leadOf cs = [] ∧ keptLength cs = 0) := by
  unfold leadOf keptLength
  split <;> simp_all

theorem steps_eq (cs : List Char) : (Path.mk (String.ofList cs)).steps =
    leadOf cs ++ innerSteps (Text.splitWhere (· = '/') (cs.drop (keptLength cs))) := by
  have htext : (Path.mk (String.ofList cs)).text.toList = cs := String.toList_ofList
  obtain ⟨first, rest, hp⟩ := (Path.mk (String.ofList cs)).exists_pieces
  rw [steps_of_pieces hp, isAbsolute, htext]
  unfold pieces at hp
  rw [htext] at hp
  rcases start_cases cs with ⟨cs, rfl, hlead, hkept⟩ | ⟨cs, rfl, hcs, hlead, hkept⟩ |
    ⟨hslash, hdot, hdots, hlead, hkept⟩
  · rw [hlead, hkept]
    rw [Text.splitWhere, if_pos (by rfl)] at hp
    obtain ⟨-, rfl⟩ := List.cons.inj hp
    rfl
  · rw [hlead, hkept]
    rcases hcs with rfl | ⟨more, rfl⟩
    · obtain ⟨rfl, rfl⟩ := List.cons.inj hp
      rfl
    · have hpieces : Text.splitWhere (· = '/') ('.' :: '/' :: more) =
          ['.'] :: Text.splitWhere (· = '/') more := by
        simp [Text.splitWhere]
      obtain ⟨rfl, rfl⟩ := List.cons.inj (hpieces.symm.trans hp)
      simp [firstStep?, Text.splitWhere, innerSteps, innerStep?]
  · have habs : ¬ cs.head? = some '/' := by
      intro h
      obtain ⟨more, rfl⟩ := List.head?_eq_some_iff.mp h
      exact hslash more rfl
    have hfirst : first ≠ ['.'] := by
      rintro rfl
      have hcs := Text.intercalate_splitWhere cs
      rw [hp] at hcs
      cases rest with
      | nil => exact hdot hcs.symm
      | cons next rest => exact hdots _ hcs.symm
    rw [hlead, hkept, List.drop_zero, hp, List.nil_append, decide_eq_false habs]
    have hcons : innerSteps (first :: rest) = (innerStep? first).toList ++ innerSteps rest := by
      unfold innerSteps
      rw [List.filterMap_cons]
      cases innerStep? first <;> rfl
    rw [hcons, firstStep?, if_neg hfirst]
    rfl

/-- What follows a slash does not change how a spelling starts. -/
theorem start_append_slash {cs : List Char} (h : cs ≠ []) (more : List Char) :
    leadOf (cs ++ '/' :: more) = leadOf cs ∧ keptLength (cs ++ '/' :: more) = keptLength cs := by
  rcases start_cases cs with ⟨cs, rfl, hlead, hkept⟩ | ⟨cs, rfl, hcs, hlead, hkept⟩ |
    ⟨hslash, hdot, hdots, hlead, hkept⟩
  · exact ⟨rfl, rfl⟩
  · rcases hcs with rfl | ⟨rest, rfl⟩ <;> exact ⟨rfl, rfl⟩
  · rw [hlead, hkept]
    obtain ⟨c, cs, rfl⟩ := List.exists_cons_of_ne_nil h
    have hc : c ≠ '/' := fun hc => hslash cs (hc ▸ rfl)
    rcases start_cases (c :: cs ++ '/' :: more) with ⟨rest, heq, -⟩ | ⟨rest, heq, hrest, -⟩ |
      ⟨-, -, -, hstart⟩
    · exact absurd (List.cons.inj heq).1 hc
    · obtain ⟨rfl, rfl⟩ := List.cons.inj heq
      cases cs with
      | nil => exact absurd rfl hdot
      | cons d cs =>
        obtain ⟨more, hmore⟩ := hrest.resolve_left (List.cons_ne_nil _ _)
        change d :: (cs ++ _) = '/' :: more at hmore
        exact absurd (congrArg (fun c => '.' :: c :: cs) (List.cons.inj hmore).1) (hdots cs)
    · exact hstart

/-- Pieces may be taken off a spelling behind its kept start. -/
theorem steps_of_cut {cs : List Char} {zs : List (List Char)}
    (h : zs <+: Text.splitWhere (· = '/') (cs.drop (keptLength cs))) :
    (Path.mk (String.ofList (cs.take (keptLength cs) ++ ['/'].intercalate zs))).steps =
      leadOf cs ++ innerSteps zs := by
  obtain ⟨ws, hws⟩ := h
  by_cases hzs : zs = []
  · subst hzs
    change (Path.mk (String.ofList (cs.take (keptLength cs) ++ []))).steps = leadOf cs ++ []
    rw [List.append_nil, List.append_nil]
    rcases start_cases cs with ⟨cs, rfl, hlead, hkept⟩ | ⟨cs, rfl, -, hlead, hkept⟩ |
      ⟨-, -, -, hlead, hkept⟩
    · rw [hlead, hkept]
      exact steps_eq ['/']
    · rw [hlead, hkept]
      exact steps_eq ['.']
    · rw [hlead, hkept]
      rfl
  have hplain : ∀ piece ∈ zs, ∀ c ∈ piece, decide (c = '/') = false := fun piece hp =>
    Text.not_of_mem_splitWhere (hws ▸ List.mem_append_left ws hp)
  have hbody := Text.intercalate_splitWhere (cs.drop (keptLength cs))
  rw [← hws] at hbody
  by_cases hwsnil : ws = []
  · rw [hwsnil, List.append_nil] at hbody hws
    rw [hbody, List.take_append_drop, steps_eq, ← hws]
  · rw [Text.intercalate_append hzs hwsnil] at hbody
    have hsplit : cs.take (keptLength cs) ++ ['/'].intercalate zs ++ '/' :: ['/'].intercalate ws =
        cs := by
      rw [List.append_assoc, hbody, List.take_append_drop]
    by_cases hnil : cs.take (keptLength cs) ++ ['/'].intercalate zs = []
    · -- A spelling that starts with a slash keeps the slash.
      rw [hnil, List.nil_append] at hsplit
      rw [← hsplit] at hnil
      cases (List.append_eq_nil_iff.mp hnil).1
    · obtain ⟨hlead, hkept⟩ := start_append_slash hnil (['/'].intercalate ws)
      rw [hsplit] at hlead hkept
      have hdrop : (cs.take (keptLength cs) ++ ['/'].intercalate zs).drop (keptLength cs) =
          ['/'].intercalate zs := by
        refine List.drop_left' (List.length_take_of_le ?_)
        rcases start_cases cs with ⟨cs, rfl, -, h⟩ | ⟨cs, rfl, -, -, h⟩ | ⟨-, -, -, -, h⟩ <;>
          simp [h]
      rw [steps_eq, ← hkept, ← hlead, hdrop, Text.splitWhere_intercalate hzs hplain]

/-- The directory of a path takes all its steps but the last. -/
theorem directory_steps (p : Path) : p.directory.steps = p.steps.dropLast := by
  obtain ⟨text⟩ := p
  have hsteps := steps_eq text.toList
  rw [String.ofList_toList] at hsteps
  unfold directory parent?
  dsimp only
  rcases exists_dropIdle (Text.splitWhere (· = '/') (text.toList.drop (keptLength text.toList))) with
    ⟨hdrop, hinner⟩ | ⟨above, last, idle, s, hpieces, hdrop, -, hroot, hinner⟩
  · -- Nothing but a start: one step at most.
    rw [hinner, List.append_nil] at hsteps
    have hnone : (Path.mk "").steps = [] := rfl
    have hshort : (leadOf text.toList).dropLast = [] := by
      rcases start_cases text.toList with ⟨_, _, h, _⟩ | ⟨_, _, _, h, _⟩ | ⟨_, _, _, h, _⟩ <;> rw [h] <;> rfl
    rw [hsteps, hshort, hdrop]
    split
    · exact hnone
    · exact hnone
    · exact hnone
  · rw [hinner, ← List.append_assoc] at hsteps
    have hprefix : (dropIdle above.reverse).reverse <+:
        Text.splitWhere (· = '/') (text.toList.drop (keptLength text.toList)) := by
      have hdropped := List.reverse_prefix.mpr (List.dropWhile_suffix (l := above.reverse) isIdle)
      rw [List.reverse_reverse] at hdropped
      exact hdropped.trans (hpieces ▸ List.prefix_append ..)
    rw [hsteps, List.getLast?_concat, List.dropLast_concat, hdrop]
    split
    · rename_i h
      cases h
    · rename_i h
      exact absurd (Option.some.inj h) hroot
    · exact (steps_of_cut hprefix).trans (by rw [innerSteps_dropIdle])

end Path

end SchemaBindings
