import Mathlib.Data.Bool.AllAny
import Mathlib.Data.Nat.Digits.Defs
import SchemaBindings.Code.Literal
import SchemaBindings.Yaml.Scalar

/-! # Quoted literals are read back

A quoted literal is read by the rules of the language: a backslash starts one of
the simple escapes, two hexadecimal digits, a code point between braces, or, at
the end of a line, the white space to pass over; a carriage return does not stand
for itself. What is written for a text is read as that text, whatever follows,
and stays on one line. -/

namespace SchemaBindings.Code

/-- Where in a quoted literal a character stands. -/
inductive LiteralPlace where
  | outside
  | escaped
  | byte
  | lowDigit (high : Nat)
  | brace
  | point (digits value : Nat)
  | lineEnd
deriving DecidableEq, Repr

/-- White space behind the end of a line ends with what is none. -/
def LiteralPlace.before (place : LiteralPlace) (c : Char) : LiteralPlace :=
  if place = .lineEnd ∧ Json.isSpace c = false then .outside else place

/-- What the simple escapes stand for. -/
def simpleEscapes : List (Char × Char) := [
  ('n', '\n'), ('r', '\r'), ('t', '\t'), ('\\', '\\'), ('0', '\x00'), ('\'', '\''), ('"', '"')]

/-- Puts a character before what is read. -/
def prepend (c : Char) (r : Option (List Char × List Char)) : Option (List Char × List Char) :=
  r.map fun p => (c :: p.1, p.2)

/-- Reads the rest of a quoted literal: the text, and what follows the literal. -/
def readLiteral (place : LiteralPlace) : List Char → Option (List Char × List Char)
  | [] => none
  | c :: rest =>
    match place.before c with
    | .outside =>
      if c = '"' then some ([], rest)
      else if c = '\r' then none
      else if c = '\\' then readLiteral .escaped rest
      else prepend c (readLiteral .outside rest)
    | .escaped =>
      if c = 'x' then readLiteral .byte rest
      else if c = 'u' then readLiteral .brace rest
      else if c = '\n' then readLiteral .lineEnd rest
      else (simpleEscapes.lookup c).bind fun d => prepend d (readLiteral .outside rest)
    | .byte =>
      (Json.hexValue? c).bind fun high =>
        if high < 8 then readLiteral (.lowDigit high) rest else none
    | .lowDigit high =>
      (Json.hexValue? c).bind fun low =>
        prepend (Char.ofNat (high * 16 + low)) (readLiteral .outside rest)
    | .brace => if c = '\x7b' then readLiteral (.point 0 0) rest else none
    | .point 0 value =>
      (Json.hexValue? c).bind fun d => readLiteral (.point 1 (value * 16 + d)) rest
    | .point (digits + 1) value =>
      if c = '\x7d' then
        (Yaml.charOf? value).bind fun d => prepend d (readLiteral .outside rest)
      else if c = '_' then readLiteral (.point (digits + 1) value) rest
      else (Json.hexValue? c).bind fun d =>
        if digits < 5 then readLiteral (.point (digits + 2) (value * 16 + d)) rest else none
    | .lineEnd => readLiteral .lineEnd rest

/-- Reads a quoted literal. -/
def readQuoted? : List Char → Option (List Char × List Char)
  | '"' :: rest => readLiteral .outside rest
  | _ => none

/-! ## Code points -/

theorem hexValue?_digitChar : ∀ n < 16, Json.hexValue? n.digitChar = some n := by decide

theorem digitChar_ne : ∀ n < 16, n.digitChar ≠ '\x7d' ∧ n.digitChar ≠ '_' := by decide

/-- One more digit of a code point. -/
theorem readLiteral_digit {digits n : Nat} (hdigits : digits < 6) (hn : n < 16) (value : Nat)
    (rest : List Char) :
    readLiteral (.point digits value) (n.digitChar :: rest) =
      readLiteral (.point (digits + 1) (value * 16 + n)) rest := by
  obtain ⟨hclose, hblank⟩ := digitChar_ne n hn
  cases digits with
  | zero =>
    rw [readLiteral]
    simp [LiteralPlace.before, hexValue?_digitChar n hn]
  | succ digits =>
    rw [readLiteral]
    simp [LiteralPlace.before, hclose, hblank, hexValue?_digitChar n hn,
      show digits < 5 from Nat.lt_of_succ_lt_succ hdigits]

/-- The digits of a number are those of what is left without its last one, and the last one. -/
theorem toDigits_of_le {n : Nat} (hn : 16 ≤ n) :
    Nat.toDigits 16 n = Nat.toDigits 16 (n / 16) ++ [(n % 16).digitChar] := by
  have hlow : n % 16 < 16 := Nat.mod_lt n (by decide)
  rw [← Nat.toDigits_of_lt_base hlow, Nat.toDigits_append_toDigits (by decide) (by omega) hlow,
    Nat.div_add_mod]

theorem toDigits_ne_nil (n : Nat) : Nat.toDigits 16 n ≠ [] := by
  rcases Nat.lt_or_ge n 16 with hn | hn
  · rw [Nat.toDigits_of_lt_base hn]
    exact List.cons_ne_nil _ _
  · rw [toDigits_of_le hn]
    exact List.append_ne_nil_of_right_ne_nil _ (List.cons_ne_nil _ _)

theorem exists_digitChar_of_mem_toDigits {n : Nat} {c : Char} (h : c ∈ Nat.toDigits 16 n) :
    ∃ d < 16, c = d.digitChar := by
  induction n using Nat.strongRecOn with
  | ind n ih =>
    rcases Nat.lt_or_ge n 16 with hn | hn
    · rw [Nat.toDigits_of_lt_base hn] at h
      exact ⟨n, hn, List.mem_singleton.mp h⟩
    · rw [toDigits_of_le hn] at h
      rcases List.mem_append.mp h with h | h
      · exact ih (n / 16) (by omega) h
      · exact ⟨n % 16, Nat.mod_lt n (by decide), List.mem_singleton.mp h⟩

/-- All digits of a number, the first one first. -/
theorem readLiteral_toDigits (n : Nat) {digits value : Nat} (rest : List Char)
    (hdigits : digits + (Nat.toDigits 16 n).length ≤ 6) :
    readLiteral (.point digits value) (Nat.toDigits 16 n ++ rest) =
      readLiteral (.point (digits + (Nat.toDigits 16 n).length)
        (value * 16 ^ (Nat.toDigits 16 n).length + n)) rest := by
  induction n using Nat.strongRecOn generalizing digits value rest with
  | ind n ih =>
    rcases Nat.lt_or_ge n 16 with hn | hn
    · rw [Nat.toDigits_of_lt_base hn] at hdigits ⊢
      rw [List.singleton_append, readLiteral_digit hdigits hn, List.length_singleton, Nat.pow_one]
    · rw [toDigits_of_le hn, List.length_append, List.length_singleton] at hdigits ⊢
      rw [List.append_assoc, ih (n / 16) (by omega) _ (by omega), List.singleton_append,
        readLiteral_digit (by omega) (Nat.mod_lt n (by decide)), Nat.add_assoc]
      congr 2
      rw [Nat.pow_succ, ← Nat.mul_assoc, Nat.add_mul, Nat.add_assoc]
      congr 1
      omega

theorem readLiteral_codePointEscape (c : Char) (rest : List Char) :
    readLiteral .outside (codePointEscape c ++ rest) = prepend c (readLiteral .outside rest) := by
  have hlt : c.toNat < 16 ^ 6 := by
    have hvalid := c.valid
    change c.toNat.isValidChar at hvalid
    unfold Nat.isValidChar at hvalid
    omega
  have hlength : (Nat.toDigits 16 c.toNat).length ≤ 6 :=
    Nat.toDigits_length 16 c.toNat 6 (by decide) hlt
  obtain ⟨digits, hdigits⟩ := Nat.exists_eq_succ_of_ne_zero
    (List.length_eq_zero_iff.not.mpr (toDigits_ne_nil c.toNat))
  have hchar : Yaml.charOf? c.toNat = some c := by
    have hvalid : c.toNat.isValidChar := c.valid
    unfold Yaml.charOf?
    rw [if_pos hvalid, Char.ofNat_toNat]
  have hbody : codePointEscape c ++ rest =
      '\\' :: 'u' :: '\x7b' :: (Nat.toDigits 16 c.toNat ++ '\x7d' :: rest) := by
    simp [codePointEscape]
  have hbrace : readLiteral .outside (codePointEscape c ++ rest) =
      readLiteral (.point 0 0) (Nat.toDigits 16 c.toNat ++ '\x7d' :: rest) := by
    rw [hbody]
    rfl
  rw [hbrace, readLiteral_toDigits _ _ (by omega), hdigits, Nat.zero_mul, Nat.zero_add,
    Nat.zero_add, readLiteral]
  simp [LiteralPlace.before, hchar]

/-! ## Texts -/

/-- The characters that have an escape of their own. -/
def escapedChars : List Char := ['\x00', '\t', '\r', '\n', '"', '\\']

theorem literalChar_eq {c : Char} (h : c ∉ escapedChars) :
    literalChar c = if isHidden c then codePointEscape c else [c] := by
  simp only [escapedChars, List.mem_cons, List.not_mem_nil, or_false, not_or] at h
  obtain ⟨hnull, htab, hreturn, hfeed, hquote, hslash⟩ := h
  unfold literalChar
  simp only [if_neg hnull, if_neg htab, if_neg hreturn, if_neg hfeed, if_neg hquote, if_neg hslash]

theorem readLiteral_escapedChar {c : Char} (h : c ∈ escapedChars) (rest : List Char) :
    readLiteral .outside (literalChar c ++ rest) = prepend c (readLiteral .outside rest) := by
  simp only [escapedChars, List.mem_cons, List.not_mem_nil, or_false] at h
  rcases h with rfl | rfl | rfl | rfl | rfl | rfl
  all_goals rfl

/-- A character that shows itself is read as itself. -/
theorem readLiteral_shown {c : Char} (h : c ∉ escapedChars) (rest : List Char) :
    readLiteral .outside (c :: rest) = prepend c (readLiteral .outside rest) := by
  simp only [escapedChars, List.mem_cons, List.not_mem_nil, or_false, not_or] at h
  obtain ⟨-, -, hreturn, -, hquote, hslash⟩ := h
  rw [readLiteral]
  simp [LiteralPlace.before, hquote, hreturn, hslash]

theorem readLiteral_literalChar (c : Char) (rest : List Char) :
    readLiteral .outside (literalChar c ++ rest) = prepend c (readLiteral .outside rest) := by
  by_cases hescaped : c ∈ escapedChars
  · exact readLiteral_escapedChar hescaped rest
  · rw [literalChar_eq hescaped]
    split
    · exact readLiteral_codePointEscape c rest
    · exact readLiteral_shown hescaped rest

theorem readLiteral_flatMap (cs rest : List Char) :
    readLiteral .outside (cs.flatMap literalChar ++ '"' :: rest) = some (cs, rest) := by
  induction cs with
  | nil => rfl
  | cons c cs ih =>
    rw [List.flatMap_cons, List.append_assoc, readLiteral_literalChar, ih]
    rfl

/-- The literal of a text is read as the text. -/
theorem readQuoted?_quoted (text : String) (rest : List Char) :
    readQuoted? ((quoted text).toList ++ rest) = some (text.toList, rest) := by
  unfold quoted
  rw [String.toList_ofList, List.append_assoc]
  exact readLiteral_flatMap text.toList rest

theorem line_feed_not_mem_codePointEscape (c : Char) : '\n' ∉ codePointEscape c := by
  have hdigit : ∀ d < 16, '\n' ≠ d.digitChar := by decide
  have hdigits : '\n' ∉ Nat.toDigits 16 c.toNat := by
    intro h
    obtain ⟨d, hd, heq⟩ := exists_digitChar_of_mem_toDigits h
    exact hdigit d hd heq
  unfold codePointEscape
  rw [List.mem_append, List.mem_append, not_or, not_or]
  exact ⟨⟨by decide, hdigits⟩, by decide⟩

theorem line_feed_not_mem_literalChar (c : Char) : '\n' ∉ literalChar c := by
  have hescapes : ∀ d ∈ escapedChars, '\n' ∉ literalChar d :=
    List.all_iff_forall_prop.mp (by decide +kernel)
  by_cases hescaped : c ∈ escapedChars
  · exact hescapes c hescaped
  · have hfeed : c ≠ '\n' := by
      rintro rfl
      exact hescaped (by decide)
    rw [literalChar_eq hescaped]
    split
    · exact line_feed_not_mem_codePointEscape c
    · exact fun h => hfeed (List.mem_singleton.mp h).symm

/-- A literal stays on its line. -/
theorem line_feed_not_mem_quoted (text : String) : '\n' ∉ (quoted text).toList := by
  unfold quoted
  rw [String.toList_ofList, List.mem_append, List.mem_cons, List.mem_flatMap, not_or, not_or]
  exact ⟨⟨by decide, fun ⟨c, _, h⟩ => line_feed_not_mem_literalChar c h⟩, by decide⟩

end SchemaBindings.Code
