import Mathlib.Algebra.Group.Nat.Defs
import SchemaBindings.Proofs.PointerTexts

/-! # What counts as a percent escape

Escapes are read from the left: where a percent sign and a pair that spells a
byte stand, the byte is read, and every other byte is read as itself. The pairs
that spell a byte are two digits of base sixteen, and also a plus sign with one
digit. Each escape of the second form costs the text a plus sign, which no
other byte can make up for, so a text with one is never read as if only two
digits counted. -/

namespace SchemaBindings.Text

namespace Utf8

/-! ## The characters of one byte -/

/-- A character that is read off some bytes lies where the lead byte and the next one put it. -/
theorem bounds_of_continuation {k bits low high n : Nat} {bs : List UInt8}
    (h : (continuation bits (k + 1) low high bs).1 = some n) :
    (bits * 64 + (low - 0x80)) * 64 ^ k ≤ n ∧ n < (bits * 64 + (high - 0x80) + 1) * 64 ^ k := by
  induction k generalizing bits low high bs with
  | zero =>
    cases bs with
    | nil => cases h
    | cons b bs =>
      rw [continuation] at h
      split at h
      · rw [continuation_zero] at h
        rw [← Option.some.inj h, Nat.pow_zero]
        omega
      · cases h
  | succ k ih =>
    cases bs with
    | nil => cases h
    | cons b bs =>
      rw [continuation] at h
      split at h
      · obtain ⟨hlower, hupper⟩ := ih h
        rw [Nat.pow_succ', ← Nat.mul_assoc, ← Nat.mul_assoc]
        constructor
        · refine Nat.le_trans (Nat.mul_le_mul_right _ ?_) hlower
          omega
        · refine Nat.lt_of_lt_of_le hupper (Nat.mul_le_mul_right _ ?_)
          omega
      · cases h

/-- The bytes behind a lead byte are not characters by themselves. -/
theorem filter_of_continuation {bits following low high : Nat} (hlow : 0x80 ≤ low)
    (bs : List UInt8) :
    (continuation bits following low high bs).2.filter (·.toNat < 0x80) =
      bs.filter (·.toNat < 0x80) := by
  induction following generalizing bits low high bs with
  | zero => rw [continuation_zero]
  | succ k ih =>
    cases bs with
    | nil => rfl
    | cons b bs =>
      rw [continuation]
      split
      · rw [ih (Nat.le_refl _), List.filter_cons_of_neg]
        simp only [decide_eq_true_eq]
        omega
      · rfl

/-- Whether what a lead byte announces are characters of more than one byte. -/
def Lead.isWide (l : Lead) : Bool :=
  let lower := (l.bits * 64 + (l.low - 0x80)) * 64 ^ (l.following - 1)
  let upper := (l.bits * 64 + (l.high - 0x80) + 1) * 64 ^ (l.following - 1)
  0 < l.following && 0x80 ≤ l.low && 0x80 ≤ lower &&
    (upper ≤ 0xD800 || 0xE000 ≤ lower && upper ≤ 0x110000)

theorem lead?_isWide : ∀ b < 256, (lead? b).all Lead.isWide = true := by decide +kernel

/-- A byte that is no character by itself starts none of one byte, and no such character is lost
behind it. -/
theorem next_wide {b : UInt8} (hb : ¬ b.toNat < 0x80) (bs : List UInt8) :
    (∀ n, (next b bs).1 = some n → 0x80 ≤ n ∧ n.isValidChar) ∧
      (next b bs).2.filter (·.toNat < 0x80) = bs.filter (·.toNat < 0x80) := by
  have hwide := lead?_isWide b.toNat b.toNat_lt
  unfold next
  rw [if_neg hb]
  split
  · exact ⟨fun n hn => (nomatch hn), rfl⟩
  · rename_i l hl
    rw [hl, Option.all_some] at hwide
    simp only [Lead.isWide, Bool.and_eq_true, Bool.or_eq_true, decide_eq_true_eq] at hwide
    obtain ⟨⟨⟨hpos, hlow⟩, hlower⟩, hvalid⟩ := hwide
    refine ⟨fun n hn => ?_, filter_of_continuation hlow bs⟩
    rw [← Nat.sub_add_cancel hpos] at hn
    obtain ⟨hge, hlt⟩ := bounds_of_continuation hn
    refine ⟨Nat.le_trans hlower hge, ?_⟩
    rcases hvalid with hupper | ⟨hafter, hupper⟩
    · exact Or.inl (Nat.lt_of_lt_of_le hlt hupper)
    · exact Or.inr ⟨Nat.lt_of_lt_of_le (by decide) (Nat.le_trans hafter hge),
        Nat.lt_of_lt_of_le hlt hupper⟩

/-- The characters of one byte in the text of some bytes are the bytes that are such characters. -/
theorem filter_lossy (bs : List UInt8) :
    (lossy bs).toList.filter (·.toNat < 0x80) =
      (bs.filter (·.toNat < 0x80)).map fun b => Char.ofNat b.toNat := by
  unfold lossy
  rw [String.toList_ofList]
  fun_induction characters bs with
  | case1 => rfl
  | case2 b bs ih =>
    by_cases hb : b.toNat < 0x80
    · have hnext : next b bs = (some b.toNat, bs) := if_pos hb
      rw [hnext] at ih ⊢
      have hvalid : (Char.ofNat b.toNat).toNat = b.toNat :=
        toNat_ofNat (Or.inl (Nat.lt_trans hb (by decide)))
      rw [List.map_cons, Option.getD_some, List.filter_cons_of_pos (by simpa [hvalid] using hb),
        List.filter_cons_of_pos (by simpa using hb), List.map_cons, ih]
    · obtain ⟨hwide, hrest⟩ := next_wide hb bs
      have hchar : ¬ (Char.ofNat ((next b bs).1.getD 0xFFFD)).toNat < 0x80 := by
        cases hn : (next b bs).1 with
        | none => decide
        | some n =>
          obtain ⟨hge, hvalid⟩ := hwide n hn
          rw [Option.getD_some, toNat_ofNat hvalid]
          omega
      rw [List.map_cons, List.filter_cons_of_neg (by simpa using hchar),
        List.filter_cons_of_neg (by simpa using hb), ih, hrest]

end Utf8

namespace Percent

/-! ## The two forms of an escape -/

/-- The digits of base sixteen in lower and in upper case, each at its value. -/
def digitTexts : List String := ["0123456789abcdef", "0123456789ABCDEF"]

/-- A byte is the digit of a value. -/
def IsDigit (b : UInt8) (n : Nat) : Prop := ∃ text ∈ digitTexts, (Utf8.encode text)[n]? = some b

instance (b : UInt8) (n : Nat) : Decidable (IsDigit b n) :=
  inferInstanceAs (Decidable (∃ text ∈ digitTexts, _))

/-- The plus sign. -/
def plus : UInt8 := 0x2B

/-- Two digits spell a byte. -/
def TwoDigits (a b x : UInt8) : Prop :=
  ∃ high low, IsDigit a high ∧ IsDigit b low ∧ x.toNat = high * 16 + low

/-- A plus sign and one digit spell a byte. -/
def SignedDigit (a b x : UInt8) : Prop := a = plus ∧ IsDigit b x.toNat

/-- The pairs that are read as a byte. -/
def Spells (a b x : UInt8) : Prop := TwoDigits a b x ∨ SignedDigit a b x

theorem digit?_isDigit {b d : UInt8} (h : digit? b = some d) : IsDigit b d.toNat := by
  have hvalues : ∀ n < 256, (digit? (UInt8.ofNat n)).all
      (fun d => decide (IsDigit (UInt8.ofNat n) d.toNat)) = true := by decide +kernel
  have hvalue := hvalues b.toNat b.toNat_lt
  rw [UInt8.ofNat_toNat, h, Option.all_some] at hvalue
  exact of_decide_eq_true hvalue

theorem IsDigit.value {b : UInt8} {n : Nat} (h : IsDigit b n) :
    n < 16 ∧ digit? b = some (UInt8.ofNat n) := by
  have hlength : ∀ text ∈ digitTexts, (Utf8.encode text).length = 16 := by decide +kernel
  have hdigits : ∀ text ∈ digitTexts, ∀ n < 16, (Utf8.encode text)[n]?.all
      (fun b => digit? b = some (UInt8.ofNat n)) = true := by decide +kernel
  obtain ⟨text, htext, hb⟩ := h
  obtain ⟨hlt, -⟩ := List.getElem?_eq_some_iff.mp hb
  rw [hlength text htext] at hlt
  have hdigit := hdigits text htext n hlt
  rw [hb, Option.all_some] at hdigit
  exact ⟨hlt, of_decide_eq_true hdigit⟩

theorem isDigit_iff {b d : UInt8} : IsDigit b d.toNat ↔ digit? b = some d :=
  ⟨fun h => by rw [h.value.2, UInt8.ofNat_toNat], digit?_isDigit⟩

theorem IsDigit.ne {b c : UInt8} {n : Nat} (h : IsDigit b n) (hc : digit? c = none) : b ≠ c := by
  rintro rfl
  have hvalue := h.value.2
  rw [hc] at hvalue
  cases hvalue

/-- The value of a pair of digits is a byte. -/
theorem toNat_digits {high low : Nat} (hhigh : high < 16) (hlow : low < 16) :
    (UInt8.ofNat high * 16 + UInt8.ofNat low).toNat = high * 16 + low := by
  rw [UInt8.toNat_add, UInt8.toNat_mul, UInt8.toNat_ofNat', UInt8.toNat_ofNat']
  change (high % 256 * 16 % 256 + low % 256) % 256 = _
  omega

theorem pair?_eq_some_iff {a b x : UInt8} : pair? a b = some x ↔ Spells a b x := by
  constructor
  · intro h
    unfold pair? at h
    split at h
    · cases h
    · rename_i low hlow
      split at h
      · rename_i ha
        cases h
        exact .inr ⟨ha, digit?_isDigit hlow⟩
      · obtain ⟨high, hhigh, rfl⟩ := Option.map_eq_some_iff.mp h
        have hvalue := toNat_digits (digit?_isDigit hhigh).value.1 (digit?_isDigit hlow).value.1
        rw [UInt8.ofNat_toNat, UInt8.ofNat_toNat] at hvalue
        exact .inl ⟨_, _, digit?_isDigit hhigh, digit?_isDigit hlow, hvalue⟩
  · rintro (⟨high, low, hhigh, hlow, hx⟩ | ⟨rfl, hx⟩)
    · have hvalue := toNat_digits hhigh.value.1 hlow.value.1
      rw [pair?, hlow.value.2]
      dsimp only
      rw [if_neg (hhigh.ne (by decide)), hhigh.value.2, Option.map_some, Option.some_inj,
        ← UInt8.toNat_inj, hvalue, hx]
    · rw [pair?, isDigit_iff.mp hx]
      rfl

/-! ## Reading from the left -/

/-- Some bytes start with an escape, where `spells` tells which pairs spell a byte. -/
def Escapes (spells : UInt8 → UInt8 → UInt8 → Prop) (bs : List UInt8) : Prop :=
  ∃ a b x rest, bs = sign :: a :: b :: rest ∧ spells a b x

/-- Reading bytes from the left, each escape as its byte and every other byte as itself. -/
inductive Reading (spells : UInt8 → UInt8 → UInt8 → Prop) : List UInt8 → List UInt8 → Prop
  | done : Reading spells [] []
  | escape {a b x : UInt8} {rest out : List UInt8} (hx : spells a b x)
      (hrest : Reading spells rest out) : Reading spells (sign :: a :: b :: rest) (x :: out)
  | literal {a : UInt8} {rest out : List UInt8} (ha : ¬ Escapes spells (a :: rest))
      (hrest : Reading spells rest out) : Reading spells (a :: rest) (a :: out)

variable {bs out exact : List UInt8}

/-- If a pair spells one byte at most, bytes are read in one way at most. -/
theorem Reading.unique {spells : UInt8 → UInt8 → UInt8 → Prop}
    (hspells : ∀ a b x y, spells a b x → spells a b y → x = y) {other : List UInt8}
    (h : Reading spells bs out) (hother : Reading spells bs other) : other = out := by
  induction h generalizing other with
  | done => cases hother; rfl
  | escape hx _ ih =>
    cases hother with
    | escape hy hrest => rw [ih hrest, hspells _ _ _ _ hy hx]
    | literal ha _ => exact absurd ⟨_, _, _, _, rfl, hx⟩ ha
  | literal ha _ ih =>
    cases hother with
    | escape hy _ => exact absurd ⟨_, _, _, _, rfl, hy⟩ ha
    | literal _ hrest => rw [ih hrest]

theorem Reading.of_literal {spells : UInt8 → UInt8 → UInt8 → Prop} {a : UInt8}
    (h : Reading spells (a :: bs) out) (ha : ¬ Escapes spells (a :: bs)) :
    ∃ tail, out = a :: tail ∧ Reading spells bs tail := by
  cases h with
  | escape hx _ => exact absurd ⟨_, _, _, _, rfl, hx⟩ ha
  | literal _ hrest => exact ⟨_, rfl, hrest⟩

theorem not_escapes_of_ne {spells : UInt8 → UInt8 → UInt8 → Prop} {a : UInt8} (ha : a ≠ sign) :
    ¬ Escapes spells (a :: bs) := by
  rintro ⟨_, _, _, _, heq, -⟩
  exact ha (List.cons.inj heq).1

/-- Bytes can be read, whatever the pairs spell. -/
theorem Reading.exists (spells : UInt8 → UInt8 → UInt8 → Prop) (bs : List UInt8) :
    ∃ out, Reading spells bs out := by
  induction hn : bs.length using Nat.strongRecOn generalizing bs with
  | _ n ih =>
    cases bs with
    | nil => exact ⟨[], .done⟩
    | cons a rest =>
      by_cases hescape : Escapes spells (a :: rest)
      · obtain ⟨b, c, x, more, heq, hx⟩ := hescape
        have hshorter : more.length < n := by
          rw [← hn, heq]
          simp only [List.length_cons]
          omega
        obtain ⟨out, hout⟩ := ih more.length hshorter more rfl
        exact ⟨x :: out, heq ▸ .escape hx hout⟩
      · have hshorter : rest.length < n := hn ▸ Nat.lt_succ_self _
        obtain ⟨out, hout⟩ := ih rest.length hshorter rest rfl
        exact ⟨a :: out, .literal hescape hout⟩

/-- Decoding is reading with both forms of an escape. -/
theorem reading_decodeBytes (bs : List UInt8) : Reading Spells bs (decodeBytes bs) := by
  fun_induction decodeBytes bs with
  | case1 b c rest x hx ih => exact .escape (pair?_eq_some_iff.mp hx) ih
  | case2 b c rest hnone ih =>
    refine .literal ?_ ih
    rintro ⟨_, _, x, _, heq, hx⟩
    cases heq
    rw [pair?_eq_some_iff.mpr hx] at hnone
    cases hnone
  | case3 a b c rest ha ih =>
    refine .literal ?_ ih
    rintro ⟨_, _, _, _, heq, -⟩
    cases heq
    exact ha rfl
  | case4 bs hshort =>
    match bs with
    | [] => exact .done
    | [a] => exact .literal (fun ⟨_, _, _, _, heq, _⟩ => by cases heq) .done
    | [a, b] =>
      refine .literal (fun ⟨_, _, _, _, heq, _⟩ => by cases heq) ?_
      exact .literal (fun ⟨_, _, _, _, heq, _⟩ => by cases heq) .done
    | a :: b :: c :: rest => exact absurd rfl (hshort a b c rest)

/-! ## When only two digits count -/

/-- An escape with a plus sign stands in some bytes. -/
def HoldsSigned (bs : List UInt8) : Prop := ∃ rest, rest <:+ bs ∧ Escapes SignedDigit rest

theorem holdsSigned_cons {a : UInt8} :
    HoldsSigned (a :: bs) ↔ Escapes SignedDigit (a :: bs) ∨ HoldsSigned bs := by
  unfold HoldsSigned
  simp only [List.suffix_cons_iff, or_and_right, exists_or, exists_eq_left]

theorem holdsSigned_cons_of_ne {a : UInt8} (ha : a ≠ sign) :
    HoldsSigned (a :: bs) ↔ HoldsSigned bs :=
  holdsSigned_cons.trans (or_iff_right (not_escapes_of_ne ha))

/-- Behind the sign of an escape with two digits no escape starts before the rest. -/
theorem holdsSigned_twoDigits {a b x : UInt8} (h : TwoDigits a b x) :
    HoldsSigned (sign :: a :: b :: bs) ↔ HoldsSigned bs := by
  obtain ⟨_, _, hhigh, hlow, -⟩ := h
  rw [holdsSigned_cons, holdsSigned_cons_of_ne (hhigh.ne (by decide)),
    holdsSigned_cons_of_ne (hlow.ne (by decide))]
  refine or_iff_right ?_
  rintro ⟨_, _, _, _, heq, hplus, -⟩
  cases heq
  exact hhigh.ne (by decide) hplus

theorem Spells.unique (a b x y : UInt8) (hx : Spells a b x) (hy : Spells a b y) : x = y :=
  Option.some.inj ((pair?_eq_some_iff.mpr hx).symm.trans (pair?_eq_some_iff.mpr hy))

theorem TwoDigits.unique (a b x y : UInt8) (hx : TwoDigits a b x) (hy : TwoDigits a b y) : x = y :=
  Spells.unique a b x y (.inl hx) (.inl hy)

theorem Escapes.spells (h : Escapes TwoDigits bs) : Escapes Spells bs := by
  obtain ⟨a, b, x, rest, heq, hx⟩ := h
  exact ⟨a, b, x, rest, heq, .inl hx⟩

/-- Without an escape with a plus sign two digits are all that counts. -/
theorem Reading.twoDigits (h : Reading Spells bs out) (hno : ¬ HoldsSigned bs) :
    Reading TwoDigits bs out := by
  induction h with
  | done => exact .done
  | escape hx _ ih =>
    rcases hx with hx | hx
    · exact .escape hx (ih (mt (holdsSigned_twoDigits hx).mpr hno))
    · exact absurd (holdsSigned_cons.mpr (.inl ⟨_, _, _, _, rfl, hx⟩)) hno
  | literal ha _ ih =>
    exact .literal (mt Escapes.spells ha) (ih fun hrest => hno (holdsSigned_cons.mpr (.inr hrest)))

theorem not_escapes_plus : ¬ Escapes TwoDigits (sign :: plus :: bs) := by
  rintro ⟨_, _, _, _, heq, _, _, hplus, -⟩
  cases heq
  exact hplus.ne (by decide) rfl

/-- Where only two digits count, a plus sign behind a percent sign is read as itself. -/
theorem Reading.of_plus {b : UInt8} (h : Reading TwoDigits (sign :: plus :: b :: bs) out)
    (hb : b ≠ sign) : ∃ tail, out = sign :: plus :: b :: tail ∧ Reading TwoDigits bs tail := by
  obtain ⟨_, rfl, hplus⟩ := h.of_literal not_escapes_plus
  obtain ⟨_, rfl, hdigit⟩ := hplus.of_literal (not_escapes_of_ne (by decide))
  obtain ⟨tail, rfl, hrest⟩ := hdigit.of_literal (not_escapes_of_ne hb)
  exact ⟨tail, rfl, hrest⟩

/-- What only two digits read keeps the plus signs that an escape with one loses. -/
theorem Reading.count_plus (h : Reading Spells bs out) (hexact : Reading TwoDigits bs exact) :
    out.count plus ≤ exact.count plus ∧ (HoldsSigned bs → out.count plus < exact.count plus) := by
  induction h generalizing exact with
  | done =>
    cases hexact
    refine ⟨Nat.le_refl _, ?_⟩
    rintro ⟨rest, hrest, _, _, _, _, heq, -⟩
    rw [heq] at hrest
    cases List.suffix_nil.mp hrest
  | @escape a b x rest out hx _ ih =>
    rcases hx with hx | ⟨rfl, hx⟩
    · cases hexact with
      | escape hy hrest =>
        obtain ⟨hle, hlt⟩ := ih hrest
        rw [TwoDigits.unique _ _ _ _ hy hx, holdsSigned_twoDigits hx, List.count_cons,
          List.count_cons]
        exact ⟨Nat.add_le_add_right hle _, fun hs => Nat.add_lt_add_right (hlt hs) _⟩
      | literal ha _ => exact absurd ⟨_, _, _, _, rfl, hx⟩ ha
    · -- One reading has the value of the digit, the other keeps the three bytes.
      obtain ⟨tail, rfl, hrest⟩ := hexact.of_plus (hx.ne (by decide))
      have hle := (ih hrest).1
      have hsmall : x ≠ plus := by
        rintro rfl
        exact absurd hx.value.1 (by decide)
      have htail : tail.count plus ≤ (b :: tail).count plus := List.count_le_count_cons
      rw [List.count_cons_of_ne hsmall, List.count_cons_of_ne (by decide), List.count_cons_self]
      exact ⟨by omega, fun _ => by omega⟩
  | @literal a rest out ha _ ih =>
    cases hexact with
    | escape hy _ => exact absurd ⟨_, _, _, _, rfl, .inl hy⟩ ha
    | literal _ hrest =>
      obtain ⟨hle, hlt⟩ := ih hrest
      rw [List.count_cons, List.count_cons]
      refine ⟨Nat.add_le_add_right hle _, fun hs => Nat.add_lt_add_right (hlt ?_) _⟩
      refine (holdsSigned_cons.mp hs).resolve_left ?_
      rintro ⟨_, _, _, _, heq, hx⟩
      exact ha ⟨_, _, _, _, heq, .inr hx⟩

/-- The text of some bytes has as many plus signs as the bytes have. -/
theorem count_plus_lossy (bs : List UInt8) :
    (Utf8.lossy bs).toList.count '+' = bs.count plus := by
  have hone {b : UInt8} (hb : b ∈ bs.filter (·.toNat < 0x80)) :
      Char.ofNat b.toNat = '+' ↔ b = plus := by
    have hsmall := of_decide_eq_true (List.mem_filter.mp hb).2
    refine ⟨fun h => UInt8.toNat_inj.mp ?_, fun h => h ▸ rfl⟩
    rw [← toNat_ofNat (Or.inl (Nat.lt_trans hsmall (by decide))), h]
    rfl
  calc (Utf8.lossy bs).toList.count '+'
      = ((Utf8.lossy bs).toList.filter (·.toNat < 0x80)).count '+' :=
        (List.count_filter (by decide)).symm
    _ = ((bs.filter (·.toNat < 0x80)).map fun b => Char.ofNat b.toNat).count '+' := by
        rw [Utf8.filter_lossy]
    _ = (bs.filter (·.toNat < 0x80)).count plus := by
        rw [List.count, List.countP_map, List.count]
        exact List.countP_congr fun b hb => by simpa using hone hb
    _ = bs.count plus := List.count_filter (by decide)

/-- Decoding reads escapes from the left, two digits as the byte they spell and a plus sign with one
digit as the value of the digit. There is one reading in which two digits alone count, and it
is what decoding gives exactly if no percent sign is followed by a plus sign and a digit. -/
theorem decode_escapes (s : String) :
    (∃ bs, (∀ out, Reading Spells (Utf8.encode s) out ↔ out = bs) ∧ decode s = Utf8.lossy bs) ∧
    ∃ bs, (∀ out, Reading TwoDigits (Utf8.encode s) out ↔ out = bs) ∧
      (decode s = Utf8.lossy bs ↔
        ∀ rest, rest <:+ Utf8.encode s → ¬ Escapes SignedDigit rest) := by
  have hdecoded := reading_decodeBytes (Utf8.encode s)
  obtain ⟨bs, hexact⟩ := Reading.exists TwoDigits (Utf8.encode s)
  refine ⟨⟨_, fun out => ⟨hdecoded.unique Spells.unique, fun h => h ▸ hdecoded⟩, rfl⟩, bs,
    fun out => ⟨hexact.unique TwoDigits.unique, fun h => h ▸ hexact⟩, ?_⟩
  constructor
  · intro heq rest hrest hescape
    have hcount := congrArg (fun text => text.toList.count '+') heq
    have hlt := (hdecoded.count_plus hexact).2 ⟨rest, hrest, hescape⟩
    simp only [decode, count_plus_lossy] at hcount
    omega
  · intro hno
    have hplain := hdecoded.twoDigits fun ⟨rest, hrest, hescape⟩ => hno rest hrest hescape
    rw [← hexact.unique TwoDigits.unique hplain]
    rfl

/-- A percent sign with a plus sign and one digit behind it is not kept as it is. -/
theorem decode_signed_digit : Reading TwoDigits (Utf8.encode "%+F") (Utf8.encode "%+F") ∧
    decode "%+F" ≠ Utf8.lossy (Utf8.encode "%+F") := by
  refine ⟨.literal not_escapes_plus (.literal ?_ (.literal ?_ .done)), by decide +kernel⟩
  · exact not_escapes_of_ne (by decide)
  · exact not_escapes_of_ne (by decide)

end Percent

end SchemaBindings.Text
