import SchemaBindings.Code.Writer
import SchemaBindings.Proofs.Pieces

/-! # The lines that are written

What a writer holds is seen as its rows. Every operation of the writer puts
rows of its own behind those that are there and says at which depth the next
ones start, so a file is the rows of its operations one after the other. At
depth zero a text is written as it is, whatever line feeds it holds. -/

namespace SchemaBindings

namespace Text

/-- A line feed is put behind every piece that lies between line feeds. -/
theorem flatMap_splitWhere (cs : List Char) :
    (splitWhere (· = '\n') cs).flatMap (· ++ ['\n']) = cs ++ ['\n'] := by
  induction cs with
  | nil => rfl
  | cons c cs ih =>
    rw [splitWhere]
    split
    · rename_i hc
      rw [List.flatMap_cons, ih, of_decide_eq_true hc]
      rfl
    · cases hs : splitWhere (· = '\n') cs with
      | nil => exact absurd hs (splitWhere_ne_nil _ cs)
      | cons piece pieces =>
        rw [hs, List.flatMap_cons] at ih
        rw [List.flatMap_cons, List.cons_append, List.cons_append, ih]
        rfl

theorem not_mem_of_mem_splitWhere {c : Char} {cs piece : List Char}
    (h : piece ∈ splitWhere (· = c) cs) : c ∉ piece := by
  intro hc
  have hne := not_of_mem_splitWhere h c hc
  simp at hne

theorem splitWhere_of_not_mem {c : Char} {cs : List Char} (h : c ∉ cs) :
    splitWhere (· = c) cs = [cs] := by
  refine splitWhere_of_not fun d hd => ?_
  rw [decide_eq_false_iff_not]
  rintro rfl
  exact h hd

theorem line_feed_not_mem_lines {cs line : List Char} (h : line ∈ lines cs) : '\n' ∉ line := by
  fun_induction lines cs generalizing line with
  | case1 => cases h
  | case2 rest ih =>
    rcases List.mem_cons.mp h with rfl | h
    · exact List.not_mem_nil
    · exact ih h
  | case3 rest ih =>
    rcases List.mem_cons.mp h with rfl | h
    · exact List.not_mem_nil
    · exact ih h
  | case4 c rest hfeed _ hrest ih =>
    rw [List.mem_singleton.mp h, List.mem_singleton]
    exact fun he => hfeed he.symm
  | case5 c rest hfeed _ first others hrest ih =>
    rcases List.mem_cons.mp h with rfl | h
    · rw [List.mem_cons, not_or]
      exact ⟨fun he => hfeed he.symm, ih (hrest ▸ List.mem_cons_self ..)⟩
    · exact ih (hrest ▸ List.mem_cons_of_mem _ h)

theorem mem_of_mem_replaceFrom {piece new cs : List Char} {skip : Nat} {c : Char}
    (h : c ∈ replaceFrom piece new skip cs) : c ∈ new ∨ c ∈ cs := by
  induction cs generalizing skip with
  | nil =>
    rw [replaceFrom] at h
    cases h
  | cons d cs ih =>
    cases skip with
    | succ skip =>
      rw [replaceFrom] at h
      exact (ih h).imp_right (List.mem_cons_of_mem _)
    | zero =>
      rw [replaceFrom] at h
      split at h
      · rcases List.mem_append.mp h with h | h
        · exact .inl h
        · exact (ih h).imp_right (List.mem_cons_of_mem _)
      · rcases List.mem_cons.mp h with rfl | h
        · exact .inr (List.mem_cons_self ..)
        · exact (ih h).imp_right (List.mem_cons_of_mem _)

theorem not_mem_intercalate {c : Char} {between : String} (hbetween : c ∉ between.toList)
    {pieces : List String} (h : ∀ piece ∈ pieces, c ∉ piece.toList) :
    c ∉ (between.intercalate pieces).toList := by
  rw [String.toList_intercalate, Text.mem_intercalate_iff hbetween]
  rintro ⟨_, hpiece, hc⟩
  obtain ⟨piece, hmem, rfl⟩ := List.mem_map.mp hpiece
  exact h piece hmem hc

theorem mem_of_mem_trimRight {cs : List Char} {c : Char} (h : c ∈ trimRight cs) : c ∈ cs :=
  List.mem_reverse.mp ((List.dropWhile_sublist _).subset (List.mem_reverse.mp h))

end Text

namespace Code.Writer

variable {w : Writer}

/-- The lines so far. -/
def rows (w : Writer) : List (List Char) := w.lines.toList.map String.toList

/-- Lines with their ends. -/
def joined (rows : List (List Char)) : List Char := rows.flatMap (· ++ ['\n'])

/-- A line at some depth. -/
def indented (depth : Nat) (cs : List Char) : List Char :=
  if cs.isEmpty then [] else List.replicate (4 * depth) ' ' ++ cs

/-- The lines that a text makes at some depth. -/
def rowsOf (depth : Nat) (text : String) : List (List Char) :=
  (Text.splitWhere (· = '\n') text.toList).map (indented depth)

/-- The lines that a text makes as a comment. -/
def docRows (depth : Nat) (text : String) : List (List Char) :=
  (Text.lines (Text.trim text.toList)).flatMap fun cs => rowsOf depth (commentLine cs)

theorem joined_append (xs ys : List (List Char)) : joined (xs ++ ys) = joined xs ++ joined ys :=
  List.flatMap_append

theorem joined_cons (row : List Char) (rows : List (List Char)) :
    joined (row :: rows) = row ++ '\n' :: joined rows := by
  rw [joined, List.flatMap_cons, List.append_assoc]
  rfl

theorem toList_text (w : Writer) : w.text.toList = joined w.rows := by
  unfold text rows joined
  rw [String.toList_join, List.flatMap_map, List.flatMap_map]
  refine List.flatMap_congr fun line _ => ?_
  rw [String.toList_append]
  rfl

theorem toList_indented (depth : Nat) (cs : List Char) :
    (if cs.isEmpty then "" else indent depth ++ String.ofList cs).toList = indented depth cs := by
  unfold indented indent
  split
  · rfl
  · rw [String.toList_append, String.toList_ofList, String.toList_ofList]

theorem indented_zero (cs : List Char) : indented 0 cs = cs := by
  unfold indented
  split
  · rename_i h
    exact (List.isEmpty_iff.mp h).symm
  · rfl

/-! ## What an operation adds -/

theorem foldl_put (w : Writer) (pieces : List (List Char)) :
    (pieces.foldl put w).rows = w.rows ++ pieces.map (indented w.depth) ∧
      (pieces.foldl put w).depth = w.depth := by
  induction pieces generalizing w with
  | nil => exact ⟨(List.append_nil _).symm, rfl⟩
  | cons cs pieces ih =>
    have hput : (w.put cs).rows = w.rows ++ [indented w.depth cs] := by
      unfold put rows
      rw [Array.toList_push, List.map_append, List.map_singleton, toList_indented]
    obtain ⟨hrows, hdepth⟩ := ih (w.put cs)
    refine ⟨?_, hdepth⟩
    rw [List.foldl_cons, hrows, hput, List.append_assoc]
    rfl

theorem rows_line (w : Writer) (text : String) :
    (w.line text).rows = w.rows ++ rowsOf w.depth text :=
  (foldl_put w _).1

@[simp] theorem depth_line (w : Writer) (text : String) : (w.line text).depth = w.depth :=
  (foldl_put w _).2

theorem rows_blank (w : Writer) : w.blank.rows = w.rows ++ [[]] := by
  unfold blank rows
  rw [Array.toList_push, List.map_append]
  rfl

@[simp] theorem depth_blank (w : Writer) : w.blank.depth = w.depth := by
  cases w
  rfl

theorem rows_opening (w : Writer) (text : String) :
    (w.opening text).rows = w.rows ++ rowsOf w.depth text :=
  rows_line w text

@[simp] theorem depth_opening (w : Writer) (text : String) :
    (w.opening text).depth = w.depth + 1 :=
  congrArg (· + 1) (depth_line w text)

theorem rows_closing (w : Writer) (text : String) :
    (w.closing text).rows = w.rows ++ rowsOf (w.depth - 1) text :=
  rows_line { w with depth := w.depth - 1 } text

@[simp] theorem depth_closing (w : Writer) (text : String) :
    (w.closing text).depth = w.depth - 1 :=
  depth_line { w with depth := w.depth - 1 } text

theorem foldl_line {α : Type} (f : α → String) (w : Writer) (xs : List α) :
    (xs.foldl (fun w x => w.line (f x)) w).rows =
        w.rows ++ xs.flatMap (fun x => rowsOf w.depth (f x)) ∧
      (xs.foldl (fun w x => w.line (f x)) w).depth = w.depth := by
  induction xs generalizing w with
  | nil => exact ⟨(List.append_nil _).symm, rfl⟩
  | cons x xs ih =>
    obtain ⟨hrows, hdepth⟩ := ih (w.line (f x))
    rw [depth_line] at hrows hdepth
    refine ⟨?_, hdepth⟩
    rw [List.foldl_cons, hrows, rows_line, List.append_assoc, List.flatMap_cons]

theorem rows_linesOf (w : Writer) (texts : List String) :
    (w.linesOf texts).rows = w.rows ++ texts.flatMap (rowsOf w.depth) :=
  (foldl_line id w texts).1

@[simp] theorem depth_linesOf (w : Writer) (texts : List String) :
    (w.linesOf texts).depth = w.depth :=
  (foldl_line id w texts).2

theorem rows_doc (w : Writer) (text : String) :
    (w.doc text).rows = w.rows ++ docRows w.depth text :=
  (foldl_line commentLine w _).1

@[simp] theorem depth_doc (w : Writer) (text : String) : (w.doc text).depth = w.depth :=
  (foldl_line commentLine w _).2

@[simp] theorem depth_marked : marked.depth = 0 := by
  rw [marked, depth_blank, depth_line]
  rfl

/-! ## What a row looks like -/

theorem joined_rowsOf (text : String) : joined (rowsOf 0 text) = text.toList ++ ['\n'] := by
  have hid : indented 0 = id := funext indented_zero
  rw [rowsOf, hid, List.map_id]
  exact Text.flatMap_splitWhere text.toList

theorem joined_flatMap_rowsOf (texts : List String) :
    joined (texts.flatMap (rowsOf 0)) = texts.flatMap fun text => text.toList ++ ['\n'] := by
  rw [joined, List.flatMap_assoc]
  exact List.flatMap_congr fun text _ => joined_rowsOf text

theorem rowsOf_eq {text : String} (h : '\n' ∉ text.toList) (depth : Nat) :
    rowsOf depth text = [indented depth text.toList] := by
  rw [rowsOf, Text.splitWhere_of_not_mem h]
  rfl

theorem not_mem_indented {cs : List Char} {c : Char} (hc : c ≠ ' ') (h : c ∉ cs) (depth : Nat) :
    c ∉ indented depth cs := by
  unfold indented
  split
  · exact List.not_mem_nil
  · rw [List.mem_append, List.mem_replicate]
    rintro (⟨-, rfl⟩ | hmem)
    · exact hc rfl
    · exact h hmem

theorem not_mem_of_mem_rowsOf {depth : Nat} {text : String} {row : List Char}
    (h : row ∈ rowsOf depth text) : '\n' ∉ row := by
  obtain ⟨piece, hpiece, rfl⟩ := List.mem_map.mp h
  exact not_mem_indented (by decide) (Text.not_mem_of_mem_splitWhere hpiece) depth

/-- What stands behind the mark of a comment for a line of a text. -/
def shownLine (cs : List Char) : List Char :=
  match Text.replace "```".toList "'''".toList (Text.trimRight cs) with
  | [] => []
  | c :: rest => ' ' :: c :: rest

theorem toList_commentLine (cs : List Char) :
    (commentLine cs).toList = ['/', '/', '/'] ++ shownLine cs := by
  unfold commentLine shownLine
  cases Text.replace "```".toList "'''".toList (Text.trimRight cs) with
  | nil => rfl
  | cons c rest =>
    dsimp only
    rw [if_neg (by simp), String.toList_append, String.toList_ofList (l := c :: rest)]
    rfl

theorem mem_shownLine {cs : List Char} {c : Char} (hc : c ≠ ' ') :
    c ∈ shownLine cs ↔ c ∈ Text.replace "```".toList "'''".toList (Text.trimRight cs) := by
  unfold shownLine
  cases Text.replace "```".toList "'''".toList (Text.trimRight cs) with
  | nil => rfl
  | cons d rest => exact List.mem_cons.trans (or_iff_right hc)

theorem line_feed_not_mem_commentLine {cs : List Char} (h : '\n' ∉ cs) :
    '\n' ∉ (commentLine cs).toList := by
  rw [toList_commentLine, List.mem_append, not_or, mem_shownLine (by decide)]
  refine ⟨by decide, fun hmem => ?_⟩
  rcases Text.mem_of_mem_replaceFrom hmem with hmem | hmem
  · revert hmem
    decide
  · exact h (Text.mem_of_mem_trimRight hmem)

/-- The rows of a comment are the lines of the text, one row for each. -/
theorem docRows_eq (depth : Nat) (text : String) : docRows depth text =
    (Text.lines (Text.trim text.toList)).map fun cs => indented depth (commentLine cs).toList := by
  unfold docRows
  rw [← List.flatMap_singleton' ((Text.lines _).map _), List.flatMap_map]
  refine List.flatMap_congr fun cs hcs => ?_
  exact rowsOf_eq (line_feed_not_mem_commentLine (Text.line_feed_not_mem_lines hcs)) depth

/-- A line of a comment is indented as it is. -/
theorem indented_commentLine (depth : Nat) (cs : List Char) :
    indented depth (commentLine cs).toList =
      List.replicate (4 * depth) ' ' ++ "///".toList ++ shownLine cs := by
  rw [toList_commentLine, List.append_assoc]
  rfl

/-- A row of a comment is marked as one. -/
theorem exists_of_mem_docRows {depth : Nat} {text : String} {row : List Char}
    (h : row ∈ docRows depth text) :
    '\n' ∉ row ∧ ∃ more, row = List.replicate (4 * depth) ' ' ++ "///".toList ++ more := by
  rw [docRows_eq] at h
  obtain ⟨cs, hcs, rfl⟩ := List.mem_map.mp h
  have hfeed := line_feed_not_mem_commentLine (Text.line_feed_not_mem_lines hcs)
  exact ⟨not_mem_indented (by decide) hfeed depth, _, indented_commentLine depth cs⟩

/-- What is read line by line from rows that hold no line feed is the rows. -/
theorem splitWhere_joined {rows : List (List Char)} (h : ∀ row ∈ rows, '\n' ∉ row) :
    Text.splitWhere (· = '\n') (joined rows) = rows ++ [[]] := by
  induction rows with
  | nil => rfl
  | cons row rows ih =>
    rw [joined_cons, Text.splitWhere_append _ _ (by decide),
      Text.splitWhere_of_not_mem (h row (List.mem_cons_self ..)),
      ih fun r hr => h r (List.mem_cons_of_mem _ hr)]
    rfl

end Code.Writer

end SchemaBindings
