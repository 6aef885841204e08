import SchemaBindings.Proofs.Outcomes
import SchemaBindings.Proofs.PlacesBelow
import SchemaBindings.Volume

/-! # Paths through links

A path is gone along piece by piece, and a link on the way puts other pieces in
the place of its name. So what lies behind some pieces is gone along from where
these lead. A path that led somewhere leads there still when entries were added
or files written. Below a directory in which nothing is a link, a row of names
stays below the directory. -/

namespace SchemaBindings

/-- What a change of a volume leaves: the links, the further names, and all of the tree but the entries
at the places in `lost`. What is still to befall calls was to befall them before. -/
structure Leaves (v v' : Volume) (lost : List Place) : Prop where
  links : v'.links = v.links
  names : v'.names = v.names
  faults : v'.faults <:+ v.faults
  tree : FileTree.Keeps v.tree v'.tree lost

namespace Leaves

variable {u v v' : Volume} {lost more : List Place}

theorem refl (v : Volume) : Leaves v v [] := ⟨rfl, rfl, List.suffix_refl _, .refl _⟩

theorem trans (h : Leaves v u lost) (h' : Leaves u v' more) : Leaves v v' (lost ++ more) where
  links := h'.links.trans h.links
  names := h'.names.trans h.names
  faults := h'.faults.trans h.faults
  tree := h.tree.trans h'.tree

theorem homeOf (h : Leaves v v' lost) (p : Place) : v'.homeOf p = v.homeOf p := by
  unfold Volume.homeOf
  rw [h.names]

end Leaves

namespace Volume

variable {v v' : Volume} {lost : List Place} {here place root : Place} {piece : List Char}
  {pieces : List (List Char)}

/-! ## One piece -/

/-- All that one piece of a path can do in a directory. -/
inductive Steps (v : Volume) (mayMiss : Bool) (here : Place) (piece : List Char) : Lead → Prop
  | idle (hidle : Path.isIdle piece = true) : Steps v mayMiss here piece (.place here)
  | up (hidle : Path.isIdle piece = false) (hup : piece = ['.', '.']) :
      Steps v mayMiss here piece (.place here.dropLast)
  | link {target : Path} (hidle : Path.isIdle piece = false) (hup : piece ≠ ['.', '.'])
      (hlong : FileTree.isTooLong piece = false)
      (hlink : v.links.lookup (below here piece) = some target) :
      Steps v mayMiss here piece (.link (if target.isAbsolute then [] else here) target.pieces)
  | name (hidle : Path.isIdle piece = false) (hup : piece ≠ ['.', '.'])
      (hlong : FileTree.isTooLong piece = false)
      (hlink : v.links.lookup (below here piece) = none)
      (hthere : (v.tree.entry? (v.homeOf (below here piece))).isSome = true ∨ mayMiss = true) :
      Steps v mayMiss here piece (.place (v.homeOf (below here piece)))

theorem step_eq_ok {mayMiss : Bool} {x : Lead} : v.step mayMiss here piece = .ok x ↔
    v.tree.isDirectoryAt here = true ∧ Steps v mayMiss here piece x := by
  constructor
  · intro h
    unfold step at h
    split at h
    · cases h
    · rename_i hdir
      refine ⟨by simpa using hdir, ?_⟩
      split at h
      · cases h
        exact .idle ‹_›
      · rename_i hidle
        rw [Bool.not_eq_true] at hidle
        split at h
        · cases h
          exact .up hidle ‹_›
        · rename_i hup
          split at h
          · cases h
          · rename_i hlong
            rw [Bool.not_eq_true] at hlong
            split at h
            · rename_i hlink
              cases h
              exact .link hidle hup hlong hlink
            · rename_i hlink
              dsimp only at h
              split at h
              · rename_i hthere
                cases h
                exact .name hidle hup hlong hlink (by simpa using hthere)
              · cases h
  · rintro ⟨hdir, h⟩
    cases h with
    | idle hidle => simp [step, hdir, hidle]
    | up hidle hup =>
      subst hup
      simp [step, hdir, hidle]
    | link hidle hup hlong hlink => simp [step, hdir, hidle, hup, hlong, hlink]
    | name hidle hup hlong hlink hthere => simp [step, hdir, hidle, hup, hlong, hlink, hthere]

/-- A piece that leads somewhere leads there still, and needs no leave to miss if something is there
by now. -/
theorem step_keeps (h : Leaves v v' lost) {mayMiss : Bool} {x : Lead}
    (hs : v.step mayMiss here piece = .ok x)
    (hthere : mayMiss = true → ∀ next, x = .place next → (v'.tree.entry? next).isSome = true) :
    v'.step false here piece = .ok x := by
  obtain ⟨hdir, hsteps⟩ := step_eq_ok.mp hs
  refine step_eq_ok.mpr ⟨h.tree.directories _ hdir, ?_⟩
  cases hsteps with
  | idle hidle => exact .idle hidle
  | up hidle hup => exact .up hidle hup
  | link hidle hup hlong hlink => exact .link hidle hup hlong (by rwa [h.links])
  | name hidle hup hlong hlink hsome =>
    rw [← h.homeOf]
    refine .name hidle hup hlong (by rwa [h.links]) (.inl ?_)
    rw [h.homeOf]
    rcases hsome with hsome | hmiss
    · exact h.tree.present _ hsome
    · exact hthere hmiss _ rfl

/-! ## Pieces one after the other -/

/-- Where pieces led, they lead still, and the last one needs no leave to miss if something is there
by now. -/
theorem stretch_keeps (h : Leaves v v' lost) {mayMiss : Bool} {x : Lead}
    (hs : v.stretch mayMiss here pieces = .ok x)
    (hthere : mayMiss = true → ∀ next, x = .place next → (v'.tree.entry? next).isSome = true) :
    v'.stretch false here pieces = .ok x := by
  induction pieces generalizing here with
  | nil => exact hs
  | cons piece rest ih =>
    unfold stretch at hs ⊢
    cases hstep : v.step (mayMiss && rest.isEmpty) here piece with
    | error cause =>
      rw [hstep] at hs
      cases hs
    | ok y =>
      rw [hstep] at hs
      have hstep' : v'.step false here piece = .ok y := by
        refine step_keeps h hstep fun hmiss next hnext => ?_
        -- A name may be missing only at the end, which is where one has come to.
        rw [Bool.and_eq_true, List.isEmpty_iff] at hmiss
        obtain ⟨hmiss, rfl⟩ := hmiss
        subst hnext
        cases hs
        exact hthere hmiss next rfl
      rw [Bool.false_and, hstep']
      cases y with
      | place next => exact ih hs
      | link start ahead => exact hs

/-- The way of a walk: to the end, or to a link and on from there. -/
inductive Leads (v : Volume) (mayMiss : Bool) : Nat → Place → List (List Char) → Place → Prop
  | done {links : Nat} {here place : Place} {pieces : List (List Char)}
      (hs : v.stretch mayMiss here pieces = .ok (.place place)) :
      Leads v mayMiss links here pieces place
  | link {links : Nat} {here start place : Place} {pieces ahead : List (List Char)}
      (hs : v.stretch mayMiss here pieces = .ok (.link start ahead))
      (hrest : Leads v mayMiss links start ahead place) :
      Leads v mayMiss (links + 1) here pieces place

theorem walk_eq_ok {mayMiss : Bool} {links : Nat} :
    v.walk mayMiss links here pieces = .ok place ↔ Leads v mayMiss links here pieces place := by
  constructor
  · intro h
    induction links generalizing here pieces with
    | zero =>
      obtain ⟨x, hx, hfollow⟩ := bind_eq_ok.mp h
      cases x with
      | place next =>
        cases hfollow
        exact .done hx
      | link start ahead => cases hfollow
    | succ links ih =>
      obtain ⟨x, hx, hfollow⟩ := bind_eq_ok.mp h
      cases x with
      | place next =>
        cases hfollow
        exact .done hx
      | link start ahead => exact .link hx (ih hfollow)
  · intro h
    induction h with
    | @done links _ _ _ hs => cases links <;> exact bind_eq_ok.mpr ⟨_, hs, rfl⟩
    | link hs _ ih => exact bind_eq_ok.mpr ⟨_, hs, ih⟩

theorem leads_congr {mayMiss : Bool} {links : Nat} {here' : Place} {pieces' : List (List Char)}
    (h : v.stretch mayMiss here pieces = v.stretch mayMiss here' pieces') :
    Leads v mayMiss links here pieces place ↔ Leads v mayMiss links here' pieces' place := by
  rw [← walk_eq_ok, ← walk_eq_ok]
  cases links <;> rw [walk, walk, h]

theorem walk_keeps (h : Leaves v v' lost) {mayMiss : Bool} {links : Nat}
    (hthere : mayMiss = true → (v'.tree.entry? place).isSome = true)
    (hw : v.walk mayMiss links here pieces = .ok place) :
    v'.walk false links here pieces = .ok place := by
  rw [walk_eq_ok] at hw ⊢
  induction hw with
  | done hs =>
    refine .done (stretch_keeps h hs fun hmiss next hnext => ?_)
    cases hnext
    exact hthere hmiss
  | link hs _ ih => exact .link (stretch_keeps h hs fun _ _ hnext => by cases hnext) (ih hthere)

theorem reach_eq_ok {mayMiss : Bool} {p : Path} : v.reach mayMiss p = .ok place ↔
    FileTree.hasNul p = false ∧ p.text.isEmpty = false ∧
      v.walk mayMiss linkLimit (v.tree.startOf p) p.pieces = .ok place := by
  unfold reach
  cases FileTree.hasNul p with
  | true => simp
  | false => cases p.text.isEmpty <;> simp

/-- A path that led somewhere leads there still, and so does one that would have led somewhere if
something is there by now. -/
theorem resolve_keeps (h : Leaves v v' lost) {mayMiss : Bool} {p : Path}
    (hthere : mayMiss = true → (v'.tree.entry? place).isSome = true)
    (hr : v.reach mayMiss p = .ok place) : v'.resolve p = .ok place := by
  obtain ⟨hnul, hempty, hw⟩ := reach_eq_ok.mp hr
  refine reach_eq_ok.mpr ⟨hnul, hempty, ?_⟩
  rw [h.tree.startOf]
  exact walk_keeps h hthere hw

/-- Pieces in front of others lead to where one goes on along the others, or to a link behind whose
pieces these come. -/
theorem stretch_append (v : Volume) (mayMiss : Bool) (here : Place) (pieces : List (List Char))
    {more : List (List Char)} (hmore : more ≠ []) :
    v.stretch mayMiss here (pieces ++ more) = v.stretch false here pieces >>= fun
      | .place mid => v.stretch mayMiss mid more
      | .link start ahead => .ok (.link start (ahead ++ more)) := by
  induction pieces generalizing here with
  | nil => rfl
  | cons piece rest ih =>
    have hmiss : (mayMiss && (rest ++ more).isEmpty) = false := by simp [hmore]
    rw [List.cons_append, stretch, stretch, hmiss, Bool.false_and]
    cases v.step false here piece with
    | error cause => rfl
    | ok x =>
      cases x with
      | place next => exact ih next
      | link start ahead =>
        dsimp only
        rw [← List.append_assoc]
        rfl

/-- What lies behind some pieces is gone along from where these lead, with the links that are left. -/
theorem walk_append {links : Nat} {mid : Place} (h : v.walk false links here pieces = .ok mid) :
    ∃ left, ∀ mayMiss more place, more ≠ [] →
      (v.walk mayMiss links here (pieces ++ more) = .ok place ↔
        v.walk mayMiss left mid more = .ok place) := by
  simp only [walk_eq_ok] at h ⊢
  induction h with
  | @done links here mid pieces hs =>
    have happend (mayMiss : Bool) (more : List (List Char)) (hmore : more ≠ []) :
        v.stretch mayMiss here (pieces ++ more) = v.stretch mayMiss mid more := by
      rw [stretch_append v mayMiss here pieces hmore, hs]
      rfl
    exact ⟨links, fun mayMiss more place hmore => leads_congr (happend mayMiss more hmore)⟩
  | @link links here start mid pieces ahead hs _ ih =>
    obtain ⟨left, hleft⟩ := ih
    refine ⟨left, fun mayMiss more place hmore => ?_⟩
    have happend : v.stretch mayMiss here (pieces ++ more) = .ok (.link start (ahead ++ more)) := by
      rw [stretch_append v mayMiss here pieces hmore, hs]
      rfl
    rw [← hleft mayMiss more place hmore]
    constructor
    · intro hl
      cases hl with
      | done hs => cases happend.symm.trans hs
      | link hs hrest =>
        cases happend.symm.trans hs
        exact hrest
    · exact .link happend

/-- What leads somewhere with other pieces behind it leads somewhere. -/
theorem walk_of_append {mayMiss : Bool} {links : Nat} {more : List (List Char)} (hmore : more ≠ [])
    (h : v.walk mayMiss links here (pieces ++ more) = .ok place) :
    ∃ mid, v.walk false links here pieces = .ok mid := by
  simp only [walk_eq_ok] at h ⊢
  generalize hall : pieces ++ more = all at h
  induction h generalizing pieces with
  | done hs =>
    rw [← hall, stretch_append v mayMiss _ pieces hmore] at hs
    obtain ⟨y, hy, hs⟩ := bind_eq_ok.mp hs
    cases y with
    | place mid => exact ⟨mid, .done hy⟩
    | link start ahead => cases hs
  | link hs hrest ih =>
    rw [← hall, stretch_append v mayMiss _ pieces hmore] at hs
    obtain ⟨y, hy, hs⟩ := bind_eq_ok.mp hs
    cases y with
    | place mid => exact ⟨mid, .done hy⟩
    | link start ahead =>
      cases hs
      obtain ⟨mid, hmid⟩ := ih rfl
      exact ⟨mid, .link hy hmid⟩

/-- Only a directory is gone on from. -/
theorem isDirectoryAt_of_walk {mayMiss : Bool} {links : Nat} (hne : pieces ≠ [])
    (h : v.walk mayMiss links here pieces = .ok place) : v.tree.isDirectoryAt here = true := by
  obtain ⟨piece, rest, rfl⟩ := List.exists_cons_of_ne_nil hne
  have hstretch : ∃ x, v.stretch mayMiss here (piece :: rest) = .ok x := by
    cases walk_eq_ok.mp h with
    | done hs => exact ⟨_, hs⟩
    | link hs => exact ⟨_, hs⟩
  obtain ⟨x, hx⟩ := hstretch
  unfold stretch at hx
  cases hstep : v.step (mayMiss && rest.isEmpty) here piece with
  | error cause =>
    rw [hstep] at hx
    cases hx
  | ok y => exact (step_eq_ok.mp hstep).1

theorem walk_dot {links : Nat} (hdir : v.tree.isDirectoryAt here = true) :
    v.walk false links here [['.']] = .ok here := by
  have hstretch : v.stretch false here [['.']] = .ok (.place here) := by
    have hstep : v.step false here ['.'] = .ok (.place here) :=
      step_eq_ok.mpr ⟨hdir, .idle rfl⟩
    rw [stretch, Bool.false_and, hstep]
    rfl
  exact walk_eq_ok.mpr (.done hstretch)

/-! ## Below a directory -/

/-- No link lies below a place, and no further name leads out of there or into it. -/
structure Encloses (v : Volume) (root : Place) : Prop where
  links : ∀ l ∈ v.links, ¬ root <+: l.1
  names : ∀ n ∈ v.names, root <+: n.1 ↔ root <+: n.2

/-- Below a place nothing is a link or a further name, and no file has another name. -/
structure IsBare (v : Volume) (root : Place) : Prop where
  links : ∀ l ∈ v.links, ¬ root <+: l.1
  names : ∀ n ∈ v.names, ¬ root <+: n.1 ∧ ¬ root <+: n.2

theorem IsBare.encloses (h : v.IsBare root) : v.Encloses root :=
  ⟨h.links, fun n hn => iff_of_false (h.names n hn).1 (h.names n hn).2⟩

theorem Encloses.after (hroot : v.Encloses root) (h : Leaves v v' lost) : v'.Encloses root where
  links := by
    rw [h.links]
    exact hroot.links
  names := by
    rw [h.names]
    exact hroot.names

theorem IsBare.after (hroot : v.IsBare root) (h : Leaves v v' lost) : v'.IsBare root where
  links := by
    rw [h.links]
    exact hroot.links
  names := by
    rw [h.names]
    exact hroot.names

theorem homeOf_cases (v : Volume) (p : Place) :
    v.homeOf p = p ∨ ∃ n ∈ v.names, n.1 = p ∧ v.homeOf p = n.2 := by
  unfold homeOf
  cases h : v.names.lookup p with
  | none => exact .inl rfl
  | some home => exact .inr ⟨(p, home), FileTree.mem_of_lookup h, rfl, rfl⟩

theorem Encloses.homeOf_iff (h : v.Encloses root) {p : Place} :
    root <+: v.homeOf p ↔ root <+: p := by
  rcases v.homeOf_cases p with hhome | ⟨n, hn, rfl, hhome⟩
  · rw [hhome]
  · rw [hhome]
    exact (h.names n hn).symm

theorem IsBare.homeOf_eq (h : v.IsBare root) {p : Place} (hp : root <+: p) : v.homeOf p = p := by
  rcases v.homeOf_cases p with hhome | ⟨n, hn, rfl, -⟩
  · exact hhome
  · exact absurd hp (h.names n hn).1

theorem prefix_below (h : root <+: here) (piece : List Char) : root <+: below here piece :=
  h.trans (List.prefix_append ..)

/-- Where no link lies, a name leads to the file that has it. -/
theorem step_name (h : v.Encloses root) (hhere : root <+: here) (hidle : Path.isIdle piece = false)
    (hup : piece ≠ ['.', '.']) {mayMiss : Bool} {x : Lead}
    (hs : v.step mayMiss here piece = .ok x) : x = .place (v.homeOf (below here piece)) := by
  obtain ⟨-, hsteps⟩ := step_eq_ok.mp hs
  cases hsteps with
  | idle hidle' => cases hidle.symm.trans hidle'
  | up _ hup' => exact absurd hup' hup
  | link _ _ _ hlink =>
    exact absurd (prefix_below hhere piece) (h.links _ (FileTree.mem_of_lookup hlink))
  | name => rfl

theorem stretch_names (h : v.Encloses root) (hhere : root <+: here)
    (hp : ∀ piece ∈ pieces, Path.isIdle piece = false ∧ piece ≠ ['.', '.']) {mayMiss : Bool}
    {x : Lead} (hs : v.stretch mayMiss here pieces = .ok x) : ∃ next, x = .place next ∧
      root <+: next ∧
      (v.IsBare root → next = here ++ pieces.map fun piece => .text (String.ofList piece)) := by
  induction pieces generalizing here with
  | nil =>
    cases hs
    exact ⟨here, rfl, hhere, fun _ => by simp⟩
  | cons piece rest ih =>
    obtain ⟨hidle, hup⟩ := hp piece (List.mem_cons_self ..)
    have hnext := prefix_below hhere piece
    unfold stretch at hs
    split at hs
    · cases hs
    · rename_i hstep
      cases step_name h hhere hidle hup hstep
      obtain ⟨next, hx, hroot, hplace⟩ := ih (h.homeOf_iff.mpr hnext)
        (fun q hq => hp q (List.mem_cons_of_mem _ hq)) hs
      refine ⟨next, hx, hroot, fun hbare => ?_⟩
      rw [hplace hbare, hbare.homeOf_eq hnext]
      simp [below]
    · rename_i hstep
      cases step_name h hhere hidle hup hstep

/-- A row of names stays below a directory without links, and goes down by these names if nothing there
has another name. -/
theorem walk_names (h : v.Encloses root) (hhere : root <+: here)
    (hp : ∀ piece ∈ pieces, Path.isIdle piece = false ∧ piece ≠ ['.', '.']) {mayMiss : Bool}
    {links : Nat} (hw : v.walk mayMiss links here pieces = .ok place) : root <+: place ∧
      (v.IsBare root → place = here ++ pieces.map fun piece => .text (String.ofList piece)) := by
  cases walk_eq_ok.mp hw with
  | done hs =>
    obtain ⟨next, hx, hnext⟩ := stretch_names h hhere hp hs
    cases hx
    exact hnext
  | link hs =>
    obtain ⟨next, hx, -⟩ := stretch_names h hhere hp hs
    cases hx

/-- From a directory on, a plain path goes down from the place that the directory has. -/
theorem resolve_join {dir : Path} {rel : String} (hrel : Path.Plain rel)
    (h : v.resolve (dir.join rel) = .ok place) : ∃ root links,
      v.resolve (dir.join ".") = .ok root ∧
      v.walk false links root (Path.mk rel).pieces = .ok place := by
  obtain ⟨above, absolute, hjoin⟩ := Path.join_relative dir
  obtain ⟨hpieces, -, -⟩ := hjoin rel hrel.not_absolute hrel.ne_empty
  obtain ⟨hpiecesDot, -, hemptyDot⟩ := hjoin "." (by decide) (by decide)
  obtain ⟨hnul, -, hwalk⟩ := reach_eq_ok.mp h
  rw [hpieces] at hwalk
  have hne := Path.pieces_ne_nil ⟨rel⟩
  obtain ⟨root, hroot⟩ := walk_of_append hne hwalk
  obtain ⟨left, hleft⟩ := walk_append hroot
  rw [hleft false _ _ hne] at hwalk
  refine ⟨root, left, reach_eq_ok.mpr ⟨FileTree.hasNul_dot hrel.not_absolute hnul, hemptyDot, ?_⟩,
    hwalk⟩
  have hdot : (Path.mk ".").pieces = [['.']] := rfl
  rw [hpiecesDot, v.tree.startOf_dot dir hrel, hleft false _ _ (Path.pieces_ne_nil _), hdot]
  exact walk_dot (isDirectoryAt_of_walk hne hwalk)

end Volume

end SchemaBindings
