/-! Reading bytes as UTF-8. A byte sequence that is not UTF-8 is read too: each longest start of a
valid sequence that breaks off, and each byte that starts none, becomes one replacement
character. -/

namespace SchemaBindings.Text.Utf8

/-- What a lead byte announces: its own bits, how many bytes follow, and where the first of these
may lie. Every later byte lies in `0x80`–`0xBF`. -/
structure Lead where
  bits : Nat
  following : Nat
  low : Nat
  high : Nat

/-- Reads a byte as the first byte of a character that takes two to four bytes. -/
def lead? (b : Nat) : Option Lead :=
  if b < 0xC2 then none
  else if b < 0xE0 then some ⟨b - 0xC0, 1, 0x80, 0xBF⟩
  else if b = 0xE0 then some ⟨0, 2, 0xA0, 0xBF⟩
  else if b = 0xED then some ⟨0xD, 2, 0x80, 0x9F⟩
  else if b < 0xF0 then some ⟨b - 0xE0, 2, 0x80, 0xBF⟩
  else if b = 0xF0 then some ⟨0, 3, 0x90, 0xBF⟩
  else if b < 0xF4 then some ⟨b - 0xF0, 3, 0x80, 0xBF⟩
  else if b = 0xF4 then some ⟨4, 3, 0x80, 0x8F⟩
  else none

/-- Reads the bytes after a lead byte. The answer is the code point, or nothing when the sequence
breaks off, and what is left to read. -/
def continuation (bits following low high : Nat) (bs : List UInt8) : Option Nat × List UInt8 :=
  match following, bs with
  | 0, bs => (some bits, bs)
  | _ + 1, [] => (none, [])
  | n + 1, b :: bs =>
    if low ≤ b.toNat ∧ b.toNat ≤ high then
      continuation (bits * 64 + (b.toNat - 0x80)) n 0x80 0xBF bs
    else (none, b :: bs)

theorem continuation_length_le (bits following low high : Nat) (bs : List UInt8) :
    (continuation bits following low high bs).2.length ≤ bs.length := by
  induction bs generalizing bits following low high with
  | nil => cases following <;> simp [continuation]
  | cons b bs ih =>
    cases following with
    | zero => simp [continuation]
    | succ n =>
      simp only [continuation]
      split
      · exact Nat.le_succ_of_le (ih ..)
      · simp

/-- Takes one character off nonempty bytes, nothing standing for a broken one. -/
def next (b : UInt8) (bs : List UInt8) : Option Nat × List UInt8 :=
  if b.toNat < 0x80 then (some b.toNat, bs)
  else match lead? b.toNat with
    | none => (none, bs)
    | some l => continuation l.bits l.following l.low l.high bs

theorem next_length_le (b : UInt8) (bs : List UInt8) : (next b bs).2.length ≤ bs.length := by
  unfold next
  split
  · simp
  · split
    · simp
    · exact continuation_length_le ..

/-- The characters of some bytes, nothing standing for a broken one. -/
def characters : List UInt8 → List (Option Nat)
  | [] => []
  | b :: bs => (next b bs).1 :: characters (next b bs).2
termination_by bs => bs.length
decreasing_by
  have := next_length_le b bs
  simp only [List.length_cons]
  omega

/-- The bytes of a text. -/
def encode (s : String) : List UInt8 :=
  s.toList.flatMap String.utf8EncodeChar

/-- The text of some bytes, with `U+FFFD` for what is broken. -/
def lossy (bs : List UInt8) : String :=
  String.ofList ((characters bs).map fun n? => Char.ofNat (n?.getD 0xFFFD))

/-- The text of some bytes if they are valid UTF-8. -/
def strict? (bs : List UInt8) : Option String :=
  (characters bs).mapM id |>.map fun ns => String.ofList (ns.map Char.ofNat)

end SchemaBindings.Text.Utf8
