import Mathlib.Data.List.Basic
import SchemaBindings.FileTree

/-! # Texts and their pieces

Cutting a text at slashes and putting slashes between the pieces undo each
other, so a text is as good as its pieces. What a path spells below a
directory is read piece by piece after the directory's own pieces, and a piece
that is a name leads to the entry of that name. -/

namespace SchemaBindings

namespace Text

variable {p : Char → Bool}

/-- What stands in pieces with something between them. -/
theorem mem_intercalate_iff {between : List Char} {pieces : List (List Char)} {c : Char}
    (hc : c ∉ between) : c ∈ between.intercalate pieces ↔ ∃ piece ∈ pieces, c ∈ piece := by
  induction pieces with
  | nil => simp
  | cons first rest ih =>
    cases rest with
    | nil => simp
    | cons next rest => simp [List.intercalate_cons_cons, ih, hc]

theorem splitWhere_append (xs ys : List Char) {c : Char} (hc : p c = true) :
    splitWhere p (xs ++ c :: ys) = splitWhere p xs ++ splitWhere p ys := by
  induction xs with
  | nil => simp [splitWhere, hc]
  | cons x xs ih =>
    rw [List.cons_append, splitWhere, splitWhere, ih]
    split
    · rfl
    · cases hx : splitWhere p xs with
      | nil => exact absurd hx (splitWhere_ne_nil p xs)
      | cons piece pieces => rfl

theorem splitWhere_of_not {piece : List Char} (h : ∀ c ∈ piece, p c = false) :
    splitWhere p piece = [piece] := by
  induction piece with
  | nil => rfl
  | cons c piece ih =>
    rw [splitWhere, ih fun d hd => h d (List.mem_cons_of_mem _ hd), h c (List.mem_cons_self ..)]
    rfl

theorem not_of_mem_splitWhere {cs piece : List Char} (h : piece ∈ splitWhere p cs) :
    ∀ c ∈ piece, p c = false := by
  induction cs generalizing piece with
  | nil =>
    rw [List.mem_singleton.mp h]
    exact fun c hc => absurd hc List.not_mem_nil
  | cons x xs ih =>
    rw [splitWhere] at h
    split at h
    · rcases List.mem_cons.mp h with rfl | h
      · exact fun c hc => absurd hc List.not_mem_nil
      · exact ih h
    · rename_i hx
      cases hs : splitWhere p xs with
      | nil => exact absurd hs (splitWhere_ne_nil p xs)
      | cons first rest =>
        rw [hs] at h
        rcases List.mem_cons.mp h with rfl | h
        · intro c hc
          rcases List.mem_cons.mp hc with rfl | hc
          · simpa using hx
          · exact ih (hs ▸ List.mem_cons_self ..) c hc
        · exact ih (hs ▸ List.mem_cons_of_mem _ h)

theorem mem_of_mem_splitWhere {cs piece : List Char}
    (h : piece ∈ splitWhere p cs) {c : Char} (hc : c ∈ piece) : c ∈ cs := by
  induction cs generalizing piece with
  | nil =>
    rw [List.mem_singleton.mp h] at hc
    exact absurd hc List.not_mem_nil
  | cons x xs ih =>
    rw [splitWhere] at h
    split at h
    · rcases List.mem_cons.mp h with rfl | h
      · exact absurd hc List.not_mem_nil
      · exact List.mem_cons_of_mem _ (ih h hc)
    · cases hs : splitWhere p xs with
      | nil => exact absurd hs (splitWhere_ne_nil p xs)
      | cons first rest =>
        rw [hs] at h
        rcases List.mem_cons.mp h with rfl | h
        · rcases List.mem_cons.mp hc with rfl | hc
          · exact List.mem_cons_self ..
          · exact List.mem_cons_of_mem _ (ih (hs ▸ List.mem_cons_self ..) hc)
        · exact List.mem_cons_of_mem _ (ih (hs ▸ List.mem_cons_of_mem _ h) hc)

/-- The pieces between slashes with slashes between them are the text. -/
theorem intercalate_splitWhere (cs : List Char) :
    ['/'].intercalate (splitWhere (· = '/') cs) = cs := by
  induction cs with
  | nil => rfl
  | cons c cs ih =>
    rw [splitWhere]
    cases hs : splitWhere (· = '/') cs with
    | nil => exact absurd hs (splitWhere_ne_nil _ cs)
    | cons first rest =>
      rw [hs] at ih
      split
      · rename_i hc
        rw [of_decide_eq_true hc, List.intercalate_cons_cons, ih]
        rfl
      · cases rest with
        | nil =>
          rw [List.intercalate_singleton] at ih ⊢
          rw [ih]
        | cons second rest =>
          rw [List.intercalate_cons_cons] at ih ⊢
          rw [List.cons_append, List.cons_append, ← ih]

theorem splitWhere_injective {cs ds : List Char}
    (h : splitWhere (· = '/') cs = splitWhere (· = '/') ds) : cs = ds := by
  rw [← intercalate_splitWhere cs, h, intercalate_splitWhere ds]

end Text

namespace Path

theorem pieces_injective {a b : Path} (h : a.pieces = b.pieces) : a = b := by
  obtain ⟨a⟩ := a
  obtain ⟨b⟩ := b
  exact congrArg Path.mk (String.toList_injective (Text.splitWhere_injective h))

/-- A path of names alone, as the files of a package have them. -/
def Plain (rel : String) : Prop :=
  ∀ piece ∈ (Path.mk rel).pieces, isIdle piece = false ∧ piece ≠ ['.', '.']

instance (rel : String) : Decidable (Plain rel) :=
  inferInstanceAs (Decidable (∀ piece ∈ (Path.mk rel).pieces, _))

theorem pieces_ne_nil (a : Path) : a.pieces ≠ [] := Text.splitWhere_ne_nil _ _

theorem Plain.not_absolute {rel : String} (h : Plain rel) : (Path.mk rel).isAbsolute = false := by
  unfold Plain at h
  unfold isAbsolute
  unfold pieces at h
  cases hr : rel.toList with
  | nil => rfl
  | cons c cs =>
    rw [hr] at h
    by_cases hc : c = '/'
    · rw [Text.splitWhere, if_pos (by simpa using hc)] at h
      have hidle := (h [] (List.mem_cons_self ..)).1
      cases hidle
    · simpa using hc

theorem Plain.ne_empty {rel : String} (h : Plain rel) : rel.toList ≠ [] := by
  intro hr
  unfold Plain pieces at h
  rw [hr] at h
  have hidle := (h [] (List.mem_singleton_self _)).1
  cases hidle

theorem pieces_below {a : Path} {base rel : List Char} (h : a.text.toList = base ++ '/' :: rel) :
    a.pieces = Text.splitWhere (· = '/') base ++ Text.splitWhere (· = '/') rel := by
  unfold pieces
  rw [h]
  exact Text.splitWhere_append base rel (by decide)

theorem isAbsolute_below {a : Path} {base rel : List Char} (h : a.text.toList = base ++ '/' :: rel) :
    a.isAbsolute = decide (base.head?.getD '/' = '/') := by
  unfold isAbsolute
  rw [h, decide_eq_decide]
  cases base <;> simp

theorem isEmpty_below {a : Path} {base rel : List Char} (h : a.text.toList = base ++ '/' :: rel) :
    a.text.isEmpty = false := by
  rw [String.isEmpty_eq_false_iff]
  intro he
  rw [he] at h
  simp at h

/-- What is put below a directory starts where the directory starts, and its pieces come after
some that the directory alone decides. -/
theorem join_relative (dir : Path) : ∃ above absolute, ∀ rel, (Path.mk rel).isAbsolute = false →
    rel.toList ≠ [] → (dir.join rel).pieces = above ++ (Path.mk rel).pieces ∧
      (dir.join rel).isAbsolute = absolute ∧ (dir.join rel).text.isEmpty = false := by
  by_cases he : dir.text.isEmpty = true
  · refine ⟨[], false, fun rel habs hne => ?_⟩
    have hj : dir.join rel = ⟨rel⟩ := by
      simp only [join, habs, Bool.false_eq_true, if_false, he, if_true]
    rw [hj]
    refine ⟨rfl, habs, ?_⟩
    rw [String.isEmpty_eq_false_iff]
    exact fun hn => hne (congrArg String.toList hn)
  · obtain ⟨base, hbase⟩ : ∃ base, ∀ rel, (Path.mk rel).isAbsolute = false →
        (dir.join rel).text.toList = base ++ '/' :: rel.toList := by
      by_cases hl : dir.text.toList.getLast? = some '/'
      · refine ⟨dir.text.toList.dropLast, fun rel habs => ?_⟩
        have hj : dir.join rel = ⟨dir.text ++ rel⟩ := by
          simp only [join, habs, Bool.false_eq_true, if_false, he, hl, if_true]
        rw [hj, String.toList_append, ← List.dropLast_append_getLast? _ hl]
        simp
      · refine ⟨dir.text.toList, fun rel habs => ?_⟩
        have hj : dir.join rel = ⟨dir.text ++ "/" ++ rel⟩ := by
          simp only [join, habs, Bool.false_eq_true, if_false, he, hl]
        rw [hj, String.toList_append, String.toList_append, List.append_assoc]
        rfl
    exact ⟨_, _, fun rel habs _ =>
      ⟨pieces_below (hbase rel habs), isAbsolute_below (hbase rel habs), isEmpty_below (hbase rel habs)⟩⟩

theorem join_plain (dir : Path) : ∃ above absolute, ∀ rel, Plain rel →
    (dir.join rel).pieces = above ++ (Path.mk rel).pieces ∧
      (dir.join rel).isAbsolute = absolute ∧ (dir.join rel).text.isEmpty = false := by
  obtain ⟨above, absolute, hjoin⟩ := join_relative dir
  exact ⟨above, absolute, fun rel hrel => hjoin rel hrel.not_absolute hrel.ne_empty⟩

end Path

/-- The names that a path without dots goes down by. -/
def FileTree.namesOf (rel : String) : Place :=
  (Path.mk rel).pieces.map fun piece => .text (String.ofList piece)

theorem FileTree.namesOf_injective {a b : String} (h : namesOf a = namesOf b) : a = b := by
  have hpieces := List.map_injective_iff.mpr
    (fun x y hxy => String.ofList_injective (EntryName.text.inj hxy)) h
  exact congrArg Path.text (Path.pieces_injective hpieces)

/-- Only a directory is gone on from. -/
theorem FileTree.isDirectoryAt_of_step {t : FileTree} {here next : Place} {piece : List Char}
    (h : t.step here piece = .ok next) : t.isDirectoryAt here = true := by
  unfold step at h
  split at h
  · cases h
  · rename_i hdir
    simpa using hdir

/-- From a directory, a piece that is a name leads to the entry of that name. -/
theorem FileTree.step_name {t : FileTree} {here : Place} {piece : List Char}
    (hdir : t.isDirectoryAt here = true) (hidle : Path.isIdle piece = false)
    (hup : piece ≠ ['.', '.']) (hlong : isTooLong piece = false)
    (hthere : (t.entry? (here ++ [.text (String.ofList piece)])).isSome = true) :
    t.step here piece = .ok (here ++ [.text (String.ofList piece)]) := by
  simp only [step, hdir, hidle, hup, hlong, hthere, Bool.not_true, Bool.false_eq_true, if_false,
    if_true]

end SchemaBindings
