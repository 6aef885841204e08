import Mathlib.Data.List.Basic
import SchemaBindings.Lowering
import SchemaBindings.Proofs.CaseChanges
import SchemaBindings.Proofs.JsonNodes
import SchemaBindings.Proofs.Pieces

/-! # Pointers and their texts

A name that is spelled as a token is read back as the name, an index as the
index, and a pointer that is written as a reference is read back as the
pointer. The last goes through UTF-8 and percent escapes: a character that may
stand as it is spells its one byte, every other byte is spelled by an escape. -/

namespace SchemaBindings

namespace Text

namespace Utf8

theorem toNat_ofNat_of_lt {n : Nat} (h : n < 256) : (UInt8.ofNat n).toNat = n :=
  UInt8.toNat_ofNat_of_lt' h

/-- A byte in the range that is asked for is read as six more bits. -/
theorem continuation_succ {bits n low high x : Nat} {bs : List UInt8}
    (hl : low ≤ 0x80 + x) (hh : 0x80 + x ≤ high) (hx : x < 64) :
    continuation bits (n + 1) low high (UInt8.ofNat (x + 0x80) :: bs) =
      continuation (bits * 64 + x) n 0x80 0xBF bs := by
  have hb : (UInt8.ofNat (x + 0x80)).toNat = x + 0x80 := toNat_ofNat_of_lt (by omega)
  rw [continuation, hb, if_pos ⟨by omega, by omega⟩, Nat.add_sub_cancel]

theorem continuation_zero {bits low high : Nat} {bs : List UInt8} :
    continuation bits 0 low high bs = (some bits, bs) := by
  cases bs <;> rfl

theorem lead?_two {h : Nat} (hl : 2 ≤ h) (hh : h < 32) :
    lead? (h + 0xC0) = some ⟨h, 1, 0x80, 0xBF⟩ := by
  unfold lead?
  rw [if_neg (by omega), if_pos (by omega), Nat.add_sub_cancel]

/-- The lead byte of three, with `m` in the byte that comes next. -/
theorem lead?_three {h m : Nat} (hh : h < 16) (hm : m < 64) (hlow : h = 0 → 32 ≤ m)
    (hgap : h = 13 → m < 32) :
    ∃ low high, lead? (h + 0xE0) = some ⟨h, 2, low, high⟩ ∧ low ≤ 0x80 + m ∧ 0x80 + m ≤ high := by
  unfold lead?
  rw [if_neg (by omega), if_neg (by omega)]
  by_cases h0 : h = 0
  · subst h0
    exact ⟨_, _, rfl, by omega, by omega⟩
  · by_cases h13 : h = 13
    · subst h13
      exact ⟨_, _, rfl, by omega, by omega⟩
    · rw [if_neg (by omega), if_neg (by omega), if_pos (by omega), Nat.add_sub_cancel]
      exact ⟨_, _, rfl, by omega, by omega⟩

/-- The lead byte of four, with `m` in the byte that comes next. -/
theorem lead?_four {h m : Nat} (hh : h < 5) (hm : m < 64) (hlow : h = 0 → 16 ≤ m)
    (htop : h = 4 → m < 16) :
    ∃ low high, lead? (h + 0xF0) = some ⟨h, 3, low, high⟩ ∧ low ≤ 0x80 + m ∧ 0x80 + m ≤ high := by
  unfold lead?
  rw [if_neg (by omega), if_neg (by omega), if_neg (by omega), if_neg (by omega),
    if_neg (by omega)]
  by_cases h0 : h = 0
  · subst h0
    exact ⟨_, _, rfl, by omega, by omega⟩
  · by_cases h4 : h = 4
    · subst h4
      exact ⟨_, _, rfl, by omega, by omega⟩
    · rw [if_neg (by omega), if_pos (by omega), Nat.add_sub_cancel]
      exact ⟨_, _, rfl, by omega, by omega⟩

theorem next_of_lead? {n : Nat} {l : Lead} {bs : List UInt8} (hn : 0x80 ≤ n) (hlt : n < 256)
    (hl : lead? n = some l) :
    next (UInt8.ofNat n) bs = continuation l.bits l.following l.low l.high bs := by
  have hb : (UInt8.ofNat n).toNat = n := toNat_ofNat_of_lt hlt
  unfold next
  rw [hb, if_neg (by omega), hl]

theorem characters_cons {b : UInt8} {bs rest : List UInt8} {n : Nat}
    (h : next b bs = (some n, rest)) : characters (b :: bs) = some n :: characters rest := by
  rw [characters, h]

/-- The bytes of a character are read as the character. -/
theorem characters_encodeChar (c : Char) (rest : List UInt8) :
    characters (String.utf8EncodeChar c ++ rest) = some c.toNat :: characters rest := by
  have hvalid : c.val.toNat < 0xD800 ∨ 0xDFFF < c.val.toNat ∧ c.val.toNat < 0x110000 := c.valid
  rw [show c.toNat = c.val.toNat from rfl]
  unfold String.utf8EncodeChar
  generalize c.val.toNat = n at hvalid ⊢
  dsimp only
  split
  · refine characters_cons ?_
    unfold next
    rw [toNat_ofNat_of_lt (by omega), if_pos (by omega)]
    rfl
  split
  · have hq : n / 64 % 0x20 = n / 64 := Nat.mod_eq_of_lt (by omega)
    refine characters_cons ?_
    rw [hq, next_of_lead? (by omega) (by omega) (lead?_two (by omega) (by omega))]
    dsimp only
    refine (continuation_succ (by omega) (by omega) (by omega)).trans ?_
    rw [continuation_zero, show n / 64 * 64 + n % 64 = n by omega]
    rfl
  split
  · have hq : n / 4096 % 0x10 = n / 4096 := Nat.mod_eq_of_lt (by omega)
    obtain ⟨low, high, hlead, hlow, hhigh⟩ := lead?_three (h := n / 4096)
      (m := n / 64 % 0x40) (by omega) (by omega) (by omega) (by omega)
    refine characters_cons ?_
    rw [hq, next_of_lead? (by omega) (by omega) hlead]
    dsimp only
    refine (continuation_succ hlow hhigh (by omega)).trans ?_
    refine (continuation_succ (by omega) (by omega) (by omega)).trans ?_
    rw [continuation_zero, show (n / 4096 * 64 + n / 64 % 64) * 64 + n % 64 = n by omega]
    rfl
  · have hq : n / 262144 % 0x08 = n / 262144 := Nat.mod_eq_of_lt (by omega)
    obtain ⟨low, high, hlead, hlow, hhigh⟩ := lead?_four (h := n / 262144)
      (m := n / 4096 % 0x40) (by omega) (by omega) (by omega) (by omega)
    refine characters_cons ?_
    rw [hq, next_of_lead? (by omega) (by omega) hlead]
    dsimp only
    refine (continuation_succ hlow hhigh (by omega)).trans ?_
    refine (continuation_succ (by omega) (by omega) (by omega)).trans ?_
    refine (continuation_succ (by omega) (by omega) (by omega)).trans ?_
    rw [continuation_zero, show ((n / 262144 * 64 + n / 4096 % 64) * 64 + n / 64 % 64) * 64 +
      n % 64 = n by omega]
    rfl

/-- The bytes of a text are read as the text. -/
theorem lossy_encode (s : String) : lossy (encode s) = s := by
  have hchars (cs : List Char) :
      characters (cs.flatMap String.utf8EncodeChar) = cs.map fun c => some c.toNat := by
    induction cs with
    | nil => rw [List.flatMap_nil, characters, List.map_nil]
    | cons c cs ih => rw [List.flatMap_cons, characters_encodeChar, ih, List.map_cons]
  unfold lossy encode
  rw [hchars, List.map_map]
  have hback : s.toList.map ((fun n? => Char.ofNat (n?.getD 0xFFFD)) ∘ fun c => some c.toNat) =
      s.toList := (List.map_congr_left fun c _ => Char.ofNat_toNat c).trans (List.map_id _)
  rw [hback, String.ofList_toList]

end Utf8

namespace Percent

theorem decodeBytes_cons {b : UInt8} (hb : b ≠ sign) (bs : List UInt8) :
    decodeBytes (b :: bs) = b :: decodeBytes bs := by
  match bs with
  | [] | [_] => rfl
  | _ :: _ :: _ => rw [decodeBytes, if_neg hb]

/-- Whether some bytes are an escape of a byte. -/
def isEscape (b : UInt8) : List UInt8 → Bool
  | [first, high, low] => first = sign && pair? high low = some b
  | _ => false

/-- The escape of a byte is read as the byte. -/
theorem decodeBytes_escape (b : UInt8) (bs : List UInt8) :
    decodeBytes ((escape b).flatMap String.utf8EncodeChar ++ bs) = b :: decodeBytes bs := by
  have hall : ∀ n < 256, isEscape (UInt8.ofNat n)
      ((escape (UInt8.ofNat n)).flatMap String.utf8EncodeChar) = true := by decide +kernel
  have h := hall b.toNat b.toNat_lt
  rw [UInt8.ofNat_toNat] at h
  unfold isEscape at h
  split at h
  · rename_i first high low hbytes
    obtain ⟨hfirst, hpair⟩ := Bool.and_eq_true_iff.mp h
    rw [hbytes, of_decide_eq_true hfirst]
    change decodeBytes (sign :: high :: low :: bs) = _
    rw [decodeBytes, if_pos rfl, of_decide_eq_true hpair]
  · cases h

theorem decodeBytes_escapes (bs rest : List UInt8) :
    decodeBytes ((bs.flatMap escape).flatMap String.utf8EncodeChar ++ rest) =
      bs ++ decodeBytes rest := by
  induction bs with
  | nil => rfl
  | cons b bs ih =>
    rw [List.flatMap_cons, List.flatMap_append, List.append_assoc, decodeBytes_escape, ih,
      List.cons_append]

/-- Whether some bytes are one byte that starts no escape. -/
def isByte : List UInt8 → Bool
  | [b] => b ≠ sign
  | _ => false

/-- A character that may stand in a fragment as it is has one byte, which starts no escape. -/
theorem encodeChar_fragment {c : Char} (h : isFragmentChar c = true) :
    ∃ b, String.utf8EncodeChar c = [b] ∧ b ≠ sign := by
  have hsmall : c.toNat < 128 := by
    unfold isFragmentChar at h
    rcases Bool.or_eq_true_iff.mp h with h | h
    · exact lt_of_isAlphanum h
    · have hsigns : "-._~!$&'()*+,;=:@/?".toList.all (fun d => d.toNat < 128) = true := by
        decide +kernel
      exact of_decide_eq_true (List.all_eq_true.mp hsigns c (List.contains_iff_mem.mp h))
  have hbyte := forall_small
    (P := fun c => isFragmentChar c = true → isByte (String.utf8EncodeChar c) = true)
    (by decide +kernel) hsmall h
  unfold isByte at hbyte
  split at hbyte
  · exact ⟨_, ‹_›, of_decide_eq_true hbyte⟩
  · cases hbyte

theorem encodeFragment_append (a b : String) :
    encodeFragment (a ++ b) = encodeFragment a ++ encodeFragment b := by
  unfold encodeFragment
  rw [String.toList_append, List.flatMap_append, String.ofList_append]

/-- A text that is written as a fragment is read as the text. -/
theorem decode_encodeFragment (s : String) : decode (encodeFragment s) = s := by
  have hchars (cs : List Char) :
      decodeBytes ((cs.flatMap fun c => if isFragmentChar c then [c]
        else (String.utf8EncodeChar c).flatMap escape).flatMap String.utf8EncodeChar) =
      cs.flatMap String.utf8EncodeChar := by
    induction cs with
    | nil => rfl
    | cons c cs ih =>
      rw [List.flatMap_cons, List.flatMap_append, List.flatMap_cons]
      split
      · rename_i hc
        obtain ⟨b, hb, hsign⟩ := encodeChar_fragment hc
        rw [List.flatMap_singleton, hb, List.singleton_append, decodeBytes_cons hsign, ih]
        rfl
      · rw [decodeBytes_escapes, ih]
  unfold decode
  have hbytes : Utf8.encode (encodeFragment s) = _ :=
    congrArg (List.flatMap String.utf8EncodeChar) (String.toList_ofList ..)
  rw [hbytes, hchars]
  exact Utf8.lossy_encode s

end Percent

end Text

namespace Pointer

/-! ## Tokens -/

theorem unescapeChars_cons {c : Char} (h : c ≠ '~') (cs : List Char) :
    unescapeChars (c :: cs) = c :: unescapeChars cs := by
  rw [unescapeChars]
  · rintro _ rfl -
    exact h rfl
  · rintro _ rfl -
    exact h rfl

/-- A name that is spelled as a token is read as the name. -/
@[simp] theorem unescapeToken_escapeToken (name : String) :
    unescapeToken (escapeToken name) = name := by
  have hchars (cs : List Char) : unescapeChars (cs.flatMap fun c =>
      if c = '~' then ['~', '0'] else if c = '/' then ['~', '1'] else [c]) = cs := by
    induction cs with
    | nil => rfl
    | cons c cs ih =>
      rw [List.flatMap_cons]
      split
      · rename_i hc
        subst hc
        exact congrArg (List.cons _) ih
      · rename_i hc
        split
        · rename_i hs
          subst hs
          exact congrArg (List.cons _) ih
        · exact (unescapeChars_cons hc _).trans (congrArg (List.cons _) ih)
  unfold unescapeToken escapeToken
  rw [String.toList_ofList, hchars, String.ofList_toList]

theorem toList_toString (n : Nat) : (toString n).toList = Nat.toDigits 10 n := by
  rw [Nat.toString_eq_ofList_toDigits, String.toList_ofList]

theorem isDigit_of_mem_toString {n : Nat} {c : Char} (h : c ∈ (toString n).toList) :
    c.isDigit = true := by
  rw [toList_toString] at h
  exact Nat.isDigit_of_mem_toDigits (by omega) (by omega) h

/-- An index is spelled as it is. -/
theorem unescapeToken_toString (n : Nat) : unescapeToken (toString n) = toString n := by
  have hchars (cs : List Char) (h : ∀ c ∈ cs, c.isDigit = true) : unescapeChars cs = cs := by
    induction cs with
    | nil => rfl
    | cons c cs ih =>
      have hc : c ≠ '~' := by
        rintro rfl
        exact absurd (h '~' (List.mem_cons_self ..)) (by decide)
      rw [unescapeChars_cons hc, ih fun d hd => h d (List.mem_cons_of_mem _ hd)]
  unfold unescapeToken
  rw [hchars _ fun _ => isDigit_of_mem_toString, String.ofList_toList]

theorem head?_toDigits {n : Nat} (h : 0 < n) : (Nat.toDigits 10 n).head? ≠ some '0' := by
  induction n using Nat.strongRecOn with
  | _ n ih =>
    by_cases hn : n < 10
    · rw [Nat.toDigits_of_lt_base hn]
      simp only [List.head?_cons, ne_eq, Option.some.injEq, Nat.digitChar_eq_zero]
      omega
    · rw [Nat.toDigits_of_base_le (by omega) (by omega),
        List.head?_append_of_ne_nil _ Nat.toDigits_ne_nil]
      exact ih (n / 10) (by omega) (by omega)

/-- An index is read as the index, up to the greatest that is read. -/
theorem index?_toString {n : Nat} (h : n ≤ indexLimit) : index? (toString n) = some n := by
  unfold index?
  rw [toList_toString]
  split
  · rename_i hnil
    exact absurd hnil Nat.toDigits_ne_nil
  · rename_i c cs hzero
    by_cases hn : 0 < n
    · exact absurd (by rw [hzero]; rfl) (head?_toDigits hn)
    · rw [Nat.eq_zero_of_not_pos hn] at hzero
      cases hzero
  · have hdigits : (Nat.toDigits 10 n).all Char.isDigit = true :=
      List.all_eq_true.mpr fun c hc => Nat.isDigit_of_mem_toDigits (by omega) (by omega) hc
    dsimp only
    rw [hdigits, if_pos rfl, Nat.ofDigitChars_ten_toDigits, if_pos h]

@[simp] theorem step?_escapeToken (ms : Members) (name : String) :
    step? (.object ms) (escapeToken name) = ms.get? name := by
  rw [step?, unescapeToken_escapeToken]

theorem step?_toString {xs : List Json} {n : Nat} (h : n ≤ indexLimit) :
    step? (.array xs) (toString n) = xs[n]? := by
  rw [step?, unescapeToken_toString, index?_toString h, Option.bind_some]

/-! ## Texts -/

/-- The tokens hold no slash, so that they can be told apart in the text. -/
def Spelled (p : Pointer) : Prop := ∀ token ∈ p.tokens, '/' ∉ token.toList

theorem Spelled.append {p : Pointer} {more : List String} (hp : p.Spelled)
    (hm : (Pointer.mk more).Spelled) : (p.append more).Spelled := fun token ht =>
  (List.mem_append.mp ht).elim (hp token) (hm token)

theorem not_mem_escapeToken (name : String) : '/' ∉ (escapeToken name).toList := by
  unfold escapeToken
  rw [String.toList_ofList, List.mem_flatMap]
  rintro ⟨c, -, hc⟩
  split at hc
  · simp at hc
  · split at hc
    · simp at hc
    · rename_i hne
      exact hne (List.mem_singleton.mp hc).symm

theorem not_mem_toString (n : Nat) : '/' ∉ (toString n).toList := fun h =>
  absurd (isDigit_of_mem_toString h) (by decide)

theorem spelled_name (name : String) : (Pointer.mk [escapeToken name]).Spelled := by
  intro token htoken
  rw [List.mem_singleton.mp htoken]
  exact not_mem_escapeToken name

theorem spelled_index (n : Nat) : (Pointer.mk [toString n]).Spelled := by
  intro token htoken
  rw [List.mem_singleton.mp htoken]
  exact not_mem_toString n

theorem toList_text (p : Pointer) :
    p.text.toList = p.tokens.flatMap fun token => '/' :: token.toList := by
  unfold text
  rw [String.toList_join, List.flatMap_map]
  exact List.flatMap_congr fun _ _ => String.toList_append

/-- The text of a pointer is read as the pointer. -/
theorem ofText?_text {p : Pointer} (h : p.Spelled) : ofText? p.text = some p := by
  have hsplit (token : String) (more : List String)
      (h : ∀ t ∈ token :: more, '/' ∉ t.toList) :
      Text.splitWhere (· = '/') (token.toList ++ more.flatMap fun t => '/' :: t.toList) =
        token.toList :: more.map String.toList := by
    have hplain {t : String} (ht : t ∈ token :: more) : ∀ c ∈ t.toList, decide (c = '/') = false :=
      fun c hc => decide_eq_false fun heq => h t ht (heq ▸ hc)
    induction more generalizing token with
    | nil =>
      rw [List.flatMap_nil, List.append_nil]
      exact Text.splitWhere_of_not (hplain (List.mem_cons_self ..))
    | cons next more ih =>
      have hmore : ∀ t ∈ next :: more, '/' ∉ t.toList := fun t ht =>
        h t (List.mem_cons_of_mem _ ht)
      rw [List.flatMap_cons, List.cons_append, Text.splitWhere_append _ _ (by rfl),
        Text.splitWhere_of_not (hplain (List.mem_cons_self ..)),
        ih next hmore fun ht => hplain (List.mem_cons_of_mem _ ht)]
      rfl
  obtain ⟨tokens⟩ := p
  unfold ofText?
  rw [toList_text]
  cases tokens with
  | nil => rfl
  | cons token more =>
    change some (Pointer.mk ((Text.splitWhere (· = '/')
      (token.toList ++ more.flatMap fun t => '/' :: t.toList)).map String.ofList)) = _
    have hback : more.map (String.ofList ∘ String.toList) = more :=
      (List.map_congr_left fun t _ => String.ofList_toList).trans (List.map_id _)
    rw [hsplit token more h, List.map_cons, List.map_map, String.ofList_toList, hback]

/-- The pointer of a reference has no slashes in its tokens. -/
theorem spelled_of_ofText? {s : String} {p : Pointer} (h : ofText? s = some p) : p.Spelled := by
  unfold ofText? at h
  split at h
  · cases h
    exact fun token ht => by cases ht
  · cases h
    intro token ht
    obtain ⟨piece, hpiece, rfl⟩ := List.mem_map.mp ht
    rw [String.toList_ofList]
    exact fun hc => absurd (Text.not_of_mem_splitWhere hpiece _ hc) (by decide)
  · cases h

/-- A pointer that is written as a reference is read as the pointer. -/
theorem localPointer?_fragment {p : Pointer} (h : p.Spelled) :
    Lowering.localPointer? p.fragment = some p := by
  unfold Lowering.localPointer? fragment
  rw [String.toList_append]
  change ofText? (Text.Percent.decode (String.ofList
    (Text.Percent.encodeFragment p.text).toList)) = some p
  rw [String.ofList_toList, Text.Percent.decode_encodeFragment]
  exact ofText?_text h

/-- The text of a pointer below the root starts with a slash, which stands as it is. -/
theorem toList_encodeFragment_text (token : String) (tokens : List String) :
    ∃ cs, (Text.Percent.encodeFragment (text ⟨token :: tokens⟩)).toList = '/' :: cs := by
  unfold Text.Percent.encodeFragment
  rw [toList_text, String.toList_ofList, List.flatMap_cons, List.cons_append, List.flatMap_cons,
    if_pos (by decide)]
  exact ⟨_, rfl⟩

/-- A pointer below the root that is written as a reference is read as the pointer, unless it looks as if
it led to another host. -/
theorem parse_fragment {p : Pointer} (h : p.Spelled) (hroot : p.tokens ≠ [])
    (hlocal : RefTarget.isRemote p.fragment = false) :
    RefTarget.parse p.fragment = .ok ⟨none, p⟩ := by
  obtain ⟨tokens⟩ := p
  cases tokens with
  | nil => exact absurd rfl hroot
  | cons token tokens =>
    obtain ⟨cs, hcs⟩ := toList_encodeFragment_text token tokens
    have hsplit : RefTarget.split (fragment ⟨token :: tokens⟩) =
        ("", Text.Percent.encodeFragment (text ⟨token :: tokens⟩)) := by
      unfold RefTarget.split fragment
      rw [String.toList_append]
      exact Prod.ext rfl (String.ofList_toList ..)
    unfold RefTarget.parse
    rw [hlocal, if_neg Bool.false_ne_true, hsplit]
    dsimp only
    have hsome : (Text.Percent.encodeFragment (text ⟨token :: tokens⟩)).isEmpty = false := by
      rw [← Bool.not_eq_true, String.isEmpty_iff, ← String.toList_inj, hcs]
      simp
    rw [hsome, if_neg Bool.false_ne_true, hcs, if_neg (by simp), Text.Percent.decode_encodeFragment,
      ofText?_text h]
    rfl

/-- A pointer that goes on is written as the pointer and, behind it, the rest. -/
theorem fragment_append (p : Pointer) (more : List String) :
    (p.append more).fragment = p.fragment ++ Text.Percent.encodeFragment (Pointer.mk more).text := by
  have htext : (p.append more).text = p.text ++ (Pointer.mk more).text := by
    unfold text append
    rw [List.map_append, ← String.toList_inj, String.toList_append]
    simp only [String.toList_join, List.flatMap_append]
  unfold fragment
  rw [htext, String.append_assoc, ← Text.Percent.encodeFragment_append]

end Pointer

namespace Json

/-! ## Following tokens -/

theorem at?_cons (v : Json) (token : String) (tokens : List String) :
    v.at? ⟨token :: tokens⟩ = (Pointer.step? v token).bind (·.at? ⟨tokens⟩) := List.foldlM_cons ..

theorem at?_append (v : Json) (before after : List String) :
    v.at? ⟨before ++ after⟩ = (v.at? ⟨before⟩).bind (·.at? ⟨after⟩) := List.foldlM_append ..

/-- What a name leads to in an object is what stands in the entry of that name. -/
theorem at?_entry {ms : Members} (hd : ms.Distinct) {e : String × Json} (he : e ∈ ms)
    (rest : List String) :
    (Json.object ms).at? ⟨Pointer.escapeToken e.1 :: rest⟩ = e.2.at? ⟨rest⟩ := by
  rw [at?_cons, Pointer.step?_escapeToken, OrderedMap.get?_of_mem hd he, Option.bind_some]

end Json

end SchemaBindings
