import Mathlib.Data.List.Forall2
import Mathlib.Data.List.Infix
import SchemaBindings.Proofs.WrittenLines

/-! # Texts as comments

A text becomes a comment line by line. Each line keeps to itself: it is indented
and marked as a comment, whatever the text holds, and no code fence opens in it,
since three backticks in a row become quotes and new ones do not arise. What
ends a line in the text is not written. A carriage return that other characters
follow on its line is none of that and is written as it is. -/

namespace SchemaBindings

namespace Text

/-! ## Replacing a fence -/

/-- Three backticks, as they open and close a block of code. -/
def fence : List Char := ['`', '`', '`']

/-- What stands in the place of a fence. -/
def quotes : List Char := ['\'', '\'', '\'']

/-- Backticks at the start of what is left once fences are replaced were there before. -/
theorem backticks_of_replace (n : Nat) {cs : List Char}
    (h : List.replicate n '`' <+: replaceFrom fence quotes 0 cs) : List.replicate n '`' <+: cs := by
  induction cs generalizing n with
  | nil => exact h
  | cons c cs ih =>
    cases n with
    | zero => exact List.nil_prefix
    | succ n =>
      rw [replaceFrom] at h
      rw [List.replicate_succ] at h ⊢
      split at h
      · cases (List.cons_prefix_cons.mp h).1
      · obtain ⟨rfl, hrest⟩ := List.cons_prefix_cons.mp h
        exact List.cons_prefix_cons.mpr ⟨rfl, ih n hrest⟩

/-- No fence is left, and none arises. -/
theorem fence_not_infix_replaceFrom (skip : Nat) (cs : List Char) :
    ¬ fence <:+: replaceFrom fence quotes skip cs := by
  induction cs generalizing skip with
  | nil =>
    rw [replaceFrom]
    decide
  | cons c cs ih =>
    cases skip with
    | succ skip =>
      rw [replaceFrom]
      exact ih skip
    | zero =>
      have hstart : ¬ fence <+: replaceFrom fence quotes 0 (c :: cs) := by
        intro h
        have hfence : fence.isPrefixOf (c :: cs) = true :=
          List.isPrefixOf_iff_prefix.mpr (backticks_of_replace 3 h)
        rw [replaceFrom, if_pos hfence] at h
        cases (List.cons_prefix_cons.mp h).1
      rw [replaceFrom] at hstart ⊢
      split at hstart
      · rename_i hfence
        rw [if_pos hfence]
        intro h
        simp only [quotes, List.cons_append, List.nil_append, List.infix_cons_iff] at h
        rcases h with h | h | h | h
        · exact hstart h
        · cases (List.cons_prefix_cons.mp h).1
        · cases (List.cons_prefix_cons.mp h).1
        · exact ih _ h
      · rename_i hfence
        rw [if_neg hfence]
        intro h
        rcases List.infix_cons_iff.mp h with h | h
        · exact hstart h
        · exact ih 0 h

/-- What is not part of the piece that is replaced is kept. -/
theorem mem_replaceFrom {piece new cs : List Char} {skip : Nat} {c : Char} (hne : piece ≠ [])
    (hc : c ∉ piece) (hskip : c ∉ cs.take skip) (h : c ∈ cs) :
    c ∈ replaceFrom piece new skip cs := by
  induction cs generalizing skip with
  | nil => cases h
  | cons d cs ih =>
    cases skip with
    | succ skip =>
      rw [List.take_succ_cons, List.mem_cons, not_or] at hskip
      rw [replaceFrom]
      exact ih hskip.2 ((List.mem_cons.mp h).resolve_left hskip.1)
    | zero =>
      rw [replaceFrom]
      split
      · rename_i hpiece
        -- The characters that are skipped are those of the piece.
        obtain ⟨rest, hrest⟩ := List.isPrefixOf_iff_prefix.mp hpiece
        cases piece with
        | nil => exact absurd rfl hne
        | cons e piece =>
          obtain ⟨rfl, rfl⟩ := List.cons.inj hrest
          rw [List.mem_cons, not_or] at hc
          refine List.mem_append_right _ (ih ?_ ((List.mem_cons.mp h).resolve_left hc.1))
          simpa using hc.2
      · rcases List.mem_cons.mp h with rfl | h
        · exact List.mem_cons_self ..
        · exact List.mem_cons_of_mem _ (ih (by simp) h)

/-! ## White space at the end -/

theorem trimRight_append_singleton (cs : List Char) (c : Char) :
    trimRight (cs ++ [c]) = if isBlank c then trimRight cs else cs ++ [c] := by
  unfold trimRight
  rw [List.reverse_append, List.reverse_singleton, List.singleton_append, List.dropWhile_cons]
  split
  · rfl
  · rw [List.reverse_cons, List.reverse_reverse]

/-- A character stands in a text with more than white space behind it. -/
def Followed (c : Char) (cs : List Char) : Prop :=
  ∃ before after, cs = before ++ c :: after ∧ ∃ d ∈ after, isBlank d = false

theorem followed_append_singleton {c last : Char} {cs : List Char} :
    Followed c (cs ++ [last]) ↔ Followed c cs ∨ c ∈ cs ∧ isBlank last = false := by
  constructor
  · rintro ⟨before, after, heq, d, hd, hshown⟩
    rcases List.eq_nil_or_concat after with rfl | ⟨after, e, rfl⟩
    · cases hd
    · rw [List.concat_eq_append] at heq hd
      rw [← List.cons_append, ← List.append_assoc] at heq
      obtain ⟨rfl, hlast⟩ := List.append_inj' heq rfl
      obtain rfl := List.singleton_inj.mp hlast
      rcases List.mem_append.mp hd with hd | hd
      · exact .inl ⟨before, after, rfl, d, hd, hshown⟩
      · exact .inr ⟨by simp, List.mem_singleton.mp hd ▸ hshown⟩
  · rintro (⟨before, after, rfl, d, hd, hshown⟩ | ⟨hc, hlast⟩)
    · exact ⟨before, after ++ [last], by simp, d, List.mem_append_left _ hd, hshown⟩
    · obtain ⟨before, after, rfl⟩ := List.append_of_mem hc
      exact ⟨before, after ++ [last], by simp, last, by simp, hlast⟩

/-- White space is kept exactly if more than white space follows it. -/
theorem blank_mem_trimRight {b : Char} (hb : isBlank b = true) {cs : List Char} :
    b ∈ trimRight cs ↔ Followed b cs := by
  induction cs using List.reverseRecOn with
  | nil => simp [trimRight, Followed]
  | append_singleton cs last ih =>
    rw [trimRight_append_singleton, followed_append_singleton, ← ih]
    split
    · rename_i hlast
      simp [hlast]
    · rename_i hlast
      have hne : b ≠ last := fun heq => hlast (heq ▸ hb)
      rw [List.mem_append, List.mem_singleton, or_iff_left hne, and_iff_left (by simpa using hlast)]
      exact (or_iff_right_of_imp mem_of_mem_trimRight).symm

end Text

namespace Code.Writer

theorem fence_infix_append {xs ys : List Char} (hxs : '`' ∉ xs) (h : Text.fence <:+: xs ++ ys) :
    Text.fence <:+: ys := by
  induction xs with
  | nil => exact h
  | cons x xs ih =>
    rw [List.mem_cons, not_or] at hxs
    rcases List.infix_cons_iff.mp h with h | h
    · exact absurd (List.cons_prefix_cons.mp h).1 hxs.1
    · exact ih hxs.2 h

theorem fence_not_infix_row (depth : Nat) (cs : List Char) :
    ¬ Text.fence <:+: indented depth (commentLine cs).toList := by
  rw [indented_commentLine]
  intro h
  have hmark : '`' ∉ List.replicate (4 * depth) ' ' ++ "///".toList := by
    rw [List.mem_append, List.mem_replicate]
    rintro (⟨-, h⟩ | h)
    · cases h
    · revert h
      decide
  have hshown := fence_infix_append hmark h
  have hleft := Text.fence_not_infix_replaceFrom 0 (Text.trimRight cs)
  unfold shownLine at hshown
  split at hshown
  · exact absurd (List.infix_nil.mp hshown) (by decide)
  · rename_i c rest hreplaced
    refine hleft (?_ : Text.fence <:+: Text.replace "```".toList "'''".toList (Text.trimRight cs))
    rw [hreplaced]
    have hblank : '`' ∉ [' '] := by decide
    exact fence_infix_append hblank hshown

theorem return_mem_row {depth : Nat} {cs : List Char} :
    '\r' ∈ indented depth (commentLine cs).toList ↔ Text.Followed '\r' cs := by
  have hmark : '\r' ∉ List.replicate (4 * depth) ' ' ++ "///".toList := by
    rw [List.mem_append, List.mem_replicate]
    rintro (⟨-, h⟩ | h)
    · cases h
    · revert h
      decide
  rw [indented_commentLine, List.mem_append, or_iff_right hmark, mem_shownLine (by decide),
    ← Text.blank_mem_trimRight (by decide)]
  refine ⟨fun h => (Text.mem_of_mem_replaceFrom h).resolve_left (by decide), fun h => ?_⟩
  exact Text.mem_replaceFrom (by decide) (by decide) (by simp) h

/-- A text is written as a comment line by line: for every line of the text, without white space around
the whole, there is one line, and behind what was written nothing but these lines stands. Each is
indented as deep as the writer is, marked as a comment, and holds no code fence. It holds a carriage
return exactly if the line of the text holds one with more than white space behind it. -/
theorem doc_lines (w : Writer) (text : String) : ∃ rows : List (List Char),
    (w.doc text).text.toList = w.text.toList ++ joined rows ∧
    List.Forall₂ (fun line row =>
      '\n' ∉ row ∧ (∃ more, row = List.replicate (4 * w.depth) ' ' ++ "///".toList ++ more) ∧
      ¬ "```".toList <:+: row ∧
      ('\r' ∈ row ↔ Text.Followed '\r' line)) (Text.lines (Text.trim text.toList)) rows := by
  refine ⟨docRows w.depth text, ?_, ?_⟩
  · rw [toList_text, toList_text, rows_doc, joined_append]
  · rw [docRows_eq, List.forall₂_map_right_iff, List.forall₂_same]
    intro cs hcs
    have hfeed := line_feed_not_mem_commentLine (Text.line_feed_not_mem_lines hcs)
    exact ⟨not_mem_indented (by decide) hfeed _, ⟨_, indented_commentLine _ cs⟩,
      fence_not_infix_row _ cs, return_mem_row⟩

/-- A carriage return within a line is written. -/
theorem doc_return : (empty.doc "one\rtwo").text = "/// one\rtwo\n" := by decide +kernel

end Code.Writer

end SchemaBindings
