import SchemaBindings.Proofs.VolumeWalks
import SchemaBindings.Proofs.WritingRuns

/-! # Trees as volumes

On a volume without links, on which nothing befalls a call, paths lead where
they lead in the tree, and calls answer as they do there. So a run on such a
volume is a run on the tree. -/

namespace SchemaBindings

namespace FileTree

variable {t : FileTree} {p : Path} {here : Place} {last : List Char}

theorem endsInSlash_of_pieces {before : List (List Char)} (h : p.pieces = before ++ [[]])
    (hempty : p.text.isEmpty = false) : endsInSlash p = true := by
  have htext := Text.intercalate_splitWhere p.text.toList
  change ['/'].intercalate p.pieces = _ at htext
  rw [h] at htext
  unfold endsInSlash
  rw [← htext]
  by_cases hbefore : before = []
  · rw [String.isEmpty_eq_false_iff] at hempty
    refine absurd (String.toList_eq_nil_iff.mp ?_) hempty
    rw [← htext, hbefore]
    rfl
  · rw [Text.intercalate_append hbefore (List.cons_ne_nil _ _)]
    simp

/-- A path that does not end in a slash has its last piece behind those that lead to the directory. -/
theorem lastStep_pieces (h : t.lastStep p = .ok (here, last))
    (hslash : endsInSlash p = false) : ∃ before, p.pieces = before ++ [last] ∧
      t.walk (t.startOf p) before = .ok here ∧ t.isDirectoryAt here = true ∧
      hasNul p = false ∧ p.text.isEmpty = false := by
  unfold lastStep at h
  split at h
  · cases h
  · rename_i hnul
    split at h
    · cases h
    · rename_i hempty
      rw [Bool.not_eq_true] at hempty
      obtain hnil | ⟨before, piece, hpieces⟩ := List.eq_nil_or_concat' p.pieces
      · exact absurd hnil p.pieces_ne_nil
      · have hpiece : piece.isEmpty = false := by
          rw [List.isEmpty_eq_false_iff]
          rintro rfl
          exact Bool.false_ne_true (hslash.symm.trans (endsInSlash_of_pieces hpieces hempty))
        rw [hpieces, List.reverse_append, List.reverse_singleton, List.singleton_append,
          List.dropWhile_cons_of_neg (by simp [hpiece])] at h
        dsimp only at h
        rw [List.reverse_reverse] at h
        split at h
        · cases h
        · rename_i hwalk
          split at h
          · rename_i hdir
            cases h
            exact ⟨before, hpieces, hwalk, hdir, by simpa using hnul, hempty⟩
          · cases h

end FileTree

namespace Volume

variable {t : FileTree} {p : Path} {here : Place} {piece : List Char} {pieces : List (List Char)}

/-! ## Paths -/

theorem step_ofTree : (ofTree t).step false here piece = (t.step here piece).map .place := by
  have hlink : (ofTree t).links.lookup (below here piece) = none := rfl
  have hhome : (ofTree t).homeOf (below here piece) = here ++ [.text (String.ofList piece)] := rfl
  have htree : (ofTree t).tree = t := rfl
  unfold step FileTree.step
  rw [hlink, htree]
  dsimp only
  rw [hhome, Bool.or_false]
  split_ifs <;> rfl

theorem stretch_ofTree : (ofTree t).stretch false here pieces = (t.walk here pieces).map .place := by
  induction pieces generalizing here with
  | nil => rfl
  | cons piece rest ih =>
    rw [stretch, Bool.false_and, step_ofTree, FileTree.walk, List.foldlM_cons]
    cases t.step here piece with
    | error cause => rfl
    | ok next => exact ih

theorem walk_ofTree (links : Nat) : (ofTree t).walk false links here pieces = t.walk here pieces := by
  cases links <;> (rw [walk, stretch_ofTree]; cases t.walk here pieces <;> rfl)

theorem resolve_ofTree : (ofTree t).resolve p = t.resolve p := by
  unfold resolve reach FileTree.resolve
  rw [walk_ofTree]
  rfl

theorem lastStep_ofTree : (ofTree t).lastStep p = t.lastStep p := by
  unfold lastStep FileTree.lastStep
  simp only [walk_ofTree]
  rfl

/-- A name may be missing in the end, if it is not too long. -/
theorem walk_missing (links : Nat) {before : List (List Char)} {start : Place}
    (hwalk : t.walk start before = .ok here) (hdir : t.isDirectoryAt here = true)
    (hidle : Path.isIdle piece = false) (hup : piece ≠ ['.', '.']) :
    (ofTree t).walk true links start (before ++ [piece]) =
      if FileTree.isTooLong piece then .error .nameTooLong else .ok (below here piece) := by
  have hlink : (ofTree t).links.lookup (below here piece) = none := rfl
  have hstep : (ofTree t).step true here piece =
      if FileTree.isTooLong piece then .error .nameTooLong else .ok (.place (below here piece)) := by
    have htree : (ofTree t).tree = t := rfl
    unfold step
    rw [hlink, htree, hdir, hidle, if_neg hup]
    dsimp only
    rw [Bool.or_true, if_pos rfl]
    rfl
  have hstretch : (ofTree t).stretch true start (before ++ [piece]) =
      if FileTree.isTooLong piece then .error .nameTooLong else .ok (.place (below here piece)) := by
    rw [stretch_append _ _ _ _ (List.cons_ne_nil _ _), stretch_ofTree, hwalk]
    change (ofTree t).stretch true here [piece] = _
    rw [stretch, List.isEmpty_nil, Bool.true_and, hstep]
    split_ifs <;> rfl
  cases links <;> (rw [walk, hstretch]; split_ifs <;> rfl)

/-! ## Calls -/

theorem makeDirectory_ofTree :
    (ofTree t).makeDirectory p = (t.after (t.makeDirectory p)).map ofTree id := by
  unfold makeDirectory placeForDirectory FileTree.makeDirectory
  rw [lastStep_ofTree]
  cases t.lastStep p with
  | error cause => rfl
  | ok found =>
    obtain ⟨dir, last⟩ := found
    have htaken : (ofTree t).isTaken (below dir last) =
        (t.entry? (dir ++ [.text (String.ofList last)])).isSome := rfl
    dsimp only
    rw [htaken]
    split_ifs <;> rfl

theorem isDirectory_ofTree : (ofTree t).isDirectory p = (ofTree t, t.isDirectory p) := by
  unfold isDirectory FileTree.isDirectory FileTree.find?
  rw [resolve_ofTree]
  cases t.resolve p <;> rfl

theorem writeText_ofTree (s : String) :
    (ofTree t).writeText p s = (t.after (t.writeText p s)).map ofTree id := by
  unfold writeText placeForFile FileTree.writeText
  rw [lastStep_ofTree]
  cases hstep : t.lastStep p with
  | error cause => rfl
  | ok found =>
    obtain ⟨dir, last⟩ := found
    dsimp only
    split_ifs with hname hlong hdirectory
    · rfl
    all_goals
      simp only [Bool.or_eq_true, decide_eq_true_eq, not_or, Bool.not_eq_true] at hname
      obtain ⟨before, hpieces, hwalk, hdir, hnul, hempty⟩ :=
        FileTree.lastStep_pieces hstep hname.2
      have hreach : (ofTree t).reach true p =
          if FileTree.isTooLong last then .error .nameTooLong else .ok (below dir last) := by
        unfold reach
        rw [hnul, hempty, hpieces]
        exact walk_missing linkLimit hwalk hdir hname.1.1 hname.1.2
      rw [hreach]
    · rw [if_pos hlong]
      rfl
    · have hplace : (ofTree t).tree.isDirectoryAt (below dir last) = true := hdirectory
      rw [if_neg hlong]
      dsimp only
      rw [if_pos hplace]
      rfl
    · have hplace : ¬ (ofTree t).tree.isDirectoryAt (below dir last) = true := hdirectory
      rw [if_neg hlong]
      dsimp only
      rw [if_neg hplace]
      rfl

theorem agrees_ofTree : Disk.Agrees ofTree where
  makeDirectory _ _ := makeDirectory_ofTree
  isDirectory _ _ := isDirectory_ofTree
  writeText _ _ s := writeText_ofTree s

/-- A run on the volume of a tree is the run on the tree. -/
theorem generateFrom_ofTree (judge : SchemaJudge) (t : FileTree) (o : GenerateOptions) :
    generateFrom judge (.ofTree t o) (ofTree t) o = (generateWithJudge judge t o).map ofTree id :=
  agrees_ofTree.generateFrom judge _ t o

end Volume

end SchemaBindings
