import SchemaBindings.Text.Alphabetic
import SchemaBindings.Text.Case
import SchemaBindings.Text.Numeric

/-! # What a change of case can come to

A change of case leaves a character alone or puts letters in its place. Signs
below the letters, such as a slash or a dot, come out only if they went in.
What replaces a letter starts with a letter, and what replaces a number with a
number. -/

namespace SchemaBindings.Text

/-- All images of a run are characters from the first letter on. -/
def CaseRun.Lands (r : CaseRun) : Prop :=
  0x41 ≤ r.image ∧ (r.image + (r.last - r.first) < 0xD800 ∨
    0xDFFF < r.image ∧ r.image + (r.last - r.first) < 0x110000)

instance (r : CaseRun) : Decidable r.Lands := inferInstanceAs (Decidable (_ ∧ _))

theorem upperRuns_land : ∀ r ∈ upperRuns, r.Lands := by decide +kernel

theorem lowerRuns_land : ∀ r ∈ lowerRuns, r.Lands := by decide +kernel

theorem upperExpansions_land : ∀ e ∈ upperExpansions, ∀ n ∈ e.2, 0x41 ≤ n ∧ n < 0xD800 := by
  decide +kernel

theorem lowerExpansions_land : ∀ e ∈ lowerExpansions, ∀ n ∈ e.2, 0x41 ≤ n ∧ n < 0xD800 := by
  decide +kernel

/-- Whether ranges are in the order of where they start. -/
def inOrder : List (Nat × Nat) → Bool
  | r :: s :: rest => Nat.ble r.1 s.1 && inOrder (s :: rest)
  | _ => true

/-- Whether one of some ranges goes from a code point, or one before, to another or beyond. -/
def covers (rs : List (Nat × Nat)) (first last : Nat) : Bool :=
  rs.any fun r => Nat.ble r.1 first && Nat.ble last r.2

theorem le_of_inOrder {r s : Nat × Nat} {rest : List (Nat × Nat)}
    (h : inOrder (r :: rest) = true) (hs : s ∈ rest) : r.1 ≤ s.1 := by
  induction rest generalizing r with
  | nil => cases hs
  | cons q rest ih =>
    obtain ⟨hle, hrest⟩ := Bool.and_eq_true_iff.mp h
    rcases List.mem_cons.mp hs with rfl | hs
    · exact Nat.le_of_ble_eq_true hle
    · exact Nat.le_trans (Nat.le_of_ble_eq_true hle) (ih hrest hs)

theorem inOrder_tail {r : Nat × Nat} {rest : List (Nat × Nat)}
    (h : inOrder (r :: rest) = true) : inOrder rest = true := by
  cases rest with
  | nil => rfl
  | cons s rest => exact (Bool.and_eq_true_iff.mp h).2

theorem inRanges_of_covers {rs : List (Nat × Nat)} {first last n : Nat}
    (ho : inOrder rs = true) (hc : covers rs first last = true) (hf : first ≤ n) (hl : n ≤ last) :
    inRanges rs n = true := by
  obtain ⟨r, hr, hin⟩ := List.any_eq_true.mp hc
  obtain ⟨hstart, hend⟩ := Bool.and_eq_true_iff.mp hin
  have hstart := Nat.le_trans (Nat.le_of_ble_eq_true hstart) hf
  have hend := Nat.le_trans hl (Nat.le_of_ble_eq_true hend)
  clear hc hin
  induction rs with
  | nil => cases hr
  | cons s rest ih =>
    unfold inRanges
    rcases List.mem_cons.mp hr with rfl | hr
    · rw [if_neg (by omega), decide_eq_true hend]
      rfl
    · have hle := le_of_inOrder ho hr
      rw [if_neg (by omega), ih (inOrder_tail ho) hr, Bool.or_true]

/-- What can be told of the first characters one by one holds of each of them. -/
theorem forall_small {P : Char → Prop} (h : ∀ n < 128, P (Char.ofNat n)) {c : Char}
    (hc : c.toNat < 128) : P c := by
  have hchar := h c.toNat hc
  rw [Char.ofNat_toNat] at hchar
  exact hchar

/-- The letters and the digits that have no marks are characters of one byte. -/
theorem lt_of_isAlphanum {c : Char} (h : c.isAlphanum = true) : c.toNat < 128 := by
  have hupper (h : c.isUpper = true) : c.toNat ≤ 90 :=
    UInt32.le_iff_toNat_le.mp (of_decide_eq_true h).2
  have hlower (h : c.isLower = true) : c.toNat ≤ 122 :=
    UInt32.le_iff_toNat_le.mp (of_decide_eq_true (Bool.and_eq_true_iff.mp h).2)
  have hdigit (h : c.isDigit = true) : c.toNat ≤ 57 := (Char.isDigit_iff_toNat.mp h).2
  rcases Bool.or_eq_true_iff.mp h with h | h
  · rcases Bool.or_eq_true_iff.mp h with h | h
    · exact Nat.lt_of_le_of_lt (hupper h) (by decide)
    · exact Nat.lt_of_le_of_lt (hlower h) (by decide)
  · exact Nat.lt_of_le_of_lt (hdigit h) (by decide)

theorem alphabeticRanges_inOrder : inOrder alphabeticRanges = true := by decide +kernel

/-- Whether no image of a run is moved by another run. The runs of every second code point are told
apart by whether theirs are even. -/
def CaseRun.clears (r s : CaseRun) : Bool :=
  Nat.blt s.last r.image || Nat.blt (r.image + (r.last - r.first)) s.first ||
    (Nat.beq s.step 2 && (Nat.beq r.step 2 || Nat.beq r.last r.first) &&
      !Nat.beq (r.image % 2) (s.first % 2))

theorem lowerRuns_clear : (lowerRuns.all fun r => lowerRuns.all r.clears) = true := by
  decide +kernel

theorem eq_of_image? {r : CaseRun} {n m : Nat} (h : r.image? n = some m) :
    r.first ≤ n ∧ n ≤ r.last ∧ m = r.image + (n - r.first) := by
  unfold CaseRun.image? at h
  split at h
  · rename_i hn
    exact ⟨hn.1, hn.2.1, (Option.some.inj h).symm⟩
  · cases h

theorem step_of_image? {r : CaseRun} {n m : Nat} (h : r.image? n = some m) :
    (n - r.first) % r.step = 0 := by
  unfold CaseRun.image? at h
  split at h
  · rename_i hn
    exact hn.2.2
  · cases h

theorem image?_of_clears {r s : CaseRun} {n m : Nat} (h : r.clears s = true)
    (hm : r.image? n = some m) : s.image? m = none := by
  unfold CaseRun.image? at hm ⊢
  split at hm
  · rename_i hn
    cases hm
    unfold CaseRun.clears at h
    simp only [Bool.or_eq_true, Bool.and_eq_true, Nat.blt_eq, Nat.beq_eq, Bool.not_eq_true',
      ← Bool.not_eq_true] at h
    refine if_neg fun ⟨hfirst, hlast, hstep⟩ => ?_
    rcases h with (hbelow | habove) | ⟨⟨hs, hr⟩, hparity⟩
    · omega
    · omega
    · have heven : (n - r.first) % 2 = 0 := by
        rcases hr with hr | hr
        · rw [← hr]
          exact hn.2.2
        · omega
      rw [hs] at hstep
      omega
  · cases hm

theorem image?_of_moved? {runs : List CaseRun} {n m : Nat} (h : moved? runs n = some m) :
    ∃ r ∈ runs, r.image? n = some m := by
  induction runs with
  | nil => cases h
  | cons r rest ih =>
    unfold moved? at h
    split at h
    · cases h
    · split at h
      · rename_i hr
        cases h
        exact ⟨r, List.mem_cons_self .., hr⟩
      · obtain ⟨s, hs, himage⟩ := ih h
        exact ⟨s, List.mem_cons_of_mem _ hs, himage⟩

theorem moved?_eq_none {runs : List CaseRun} {n : Nat} (h : ∀ r ∈ runs, r.image? n = none) :
    moved? runs n = none := by
  cases hm : moved? runs n with
  | none => rfl
  | some m =>
    obtain ⟨r, hr, himage⟩ := image?_of_moved? hm
    rw [h r hr] at himage
    cases himage

/-- Lower-casing once is enough. -/
theorem moved?_lower {n m : Nat} (h : moved? lowerRuns n = some m) : moved? lowerRuns m = none := by
  obtain ⟨r, hr, himage⟩ := image?_of_moved? h
  refine moved?_eq_none fun s hs => image?_of_clears ?_ himage
  exact List.all_eq_true.mp (List.all_eq_true.mp lowerRuns_clear r hr) s hs

theorem toNat_ofNat {n : Nat} (h : n.isValidChar) : (Char.ofNat n).toNat = n := by
  rw [Char.ofNat, dif_pos h]
  rfl

theorem moved?_lands {runs : List CaseRun} (h : ∀ r ∈ runs, r.Lands) {n m : Nat}
    (hm : moved? runs n = some m) : 0x41 ≤ m ∧ m.isValidChar := by
  obtain ⟨r, hr, himage⟩ := image?_of_moved? hm
  obtain ⟨hle, hrange⟩ := h r hr
  obtain ⟨hfirst, hlast, rfl⟩ := eq_of_image? himage
  unfold Nat.isValidChar
  omega

/-- A character after a change of case is the one before or none of the signs below the letters. -/
theorem eq_or_le_of_mem_recased {runs : List CaseRun} {expansions : List (Nat × List Nat)}
    (hr : ∀ r ∈ runs, r.Lands) (he : ∀ e ∈ expansions, ∀ n ∈ e.2, 0x41 ≤ n ∧ n < 0xD800)
    {c d : Char} (h : d ∈ recased runs expansions c) : d = c ∨ 0x41 ≤ d.toNat := by
  unfold recased at h
  split at h
  · rename_i m hm
    obtain ⟨hle, hvalid⟩ := moved?_lands hr hm
    rw [List.mem_singleton.mp h, toNat_ofNat hvalid]
    exact Or.inr hle
  · split at h
    · rename_i ns hns
      obtain ⟨n, hn, rfl⟩ := List.mem_map.mp h
      obtain ⟨before, after, hsplit, -⟩ := List.lookup_eq_some_iff.mp hns
      obtain ⟨hle, hlt⟩ := he (c.toNat, ns) (by simp [hsplit]) n hn
      rw [toNat_ofNat (Or.inl hlt)]
      exact Or.inr hle
    · exact Or.inl (List.mem_singleton.mp h)

theorem eq_or_le_of_mem_upperChar {c d : Char} (h : d ∈ upperChar c) : d = c ∨ 0x41 ≤ d.toNat :=
  eq_or_le_of_mem_recased upperRuns_land upperExpansions_land h

/-- A character that no change leads to comes from itself alone. -/
theorem eq_of_mem_recased {runs : List CaseRun} {expansions : List (Nat × List Nat)} {c d : Char}
    (hl : ∀ r ∈ runs, r.Lands)
    (hr : ∀ r ∈ runs, d.toNat < r.image ∨ r.image + (r.last - r.first) < d.toNat)
    (he : ∀ e ∈ expansions, ∀ n ∈ e.2, Char.ofNat n ≠ d) (h : d ∈ recased runs expansions c) :
    d = c := by
  unfold recased at h
  split at h
  · rename_i m hm
    obtain ⟨r, hmem, himage⟩ := image?_of_moved? hm
    obtain ⟨hfirst, hlast, heq⟩ := eq_of_image? himage
    have hd : d.toNat = m := by
      rw [List.mem_singleton.mp h, toNat_ofNat (moved?_lands hl hm).2]
    have hoff := hr r hmem
    omega
  · split at h
    · rename_i ns hns
      obtain ⟨n, hn, rfl⟩ := List.mem_map.mp h
      obtain ⟨before, after, hsplit, -⟩ := List.lookup_eq_some_iff.mp hns
      exact absurd rfl (he (c.toNat, ns) (by simp [hsplit]) n hn)
    · exact List.mem_singleton.mp h

theorem eq_of_slash_mem_upperChar {c d : Char} (hd : d = '/' ∨ d = '\\') (h : d ∈ upperChar c) :
    d = c := by
  rcases hd with rfl | rfl
  all_goals exact eq_of_mem_recased upperRuns_land (by decide +kernel) (by decide +kernel) h

theorem eq_of_slash_mem_lowerChar {c d : Char} (hd : d = '/' ∨ d = '\\') (h : d ∈ lowerChar c) :
    d = c := by
  rcases hd with rfl | rfl
  all_goals exact eq_of_mem_recased lowerRuns_land (by decide +kernel) (by decide +kernel) h

/-- Whether the code points of a run lie in some ranges, once they are moved to start elsewhere.
Where no range holds the whole stretch, they are looked up one by one. -/
def CaseRun.liesIn (r : CaseRun) (rs : List (Nat × Nat)) (start : Nat) : Bool :=
  covers rs start (start + (r.last - r.first)) ||
    (List.range (r.last - r.first + 1)).all fun i =>
      !Nat.beq (i % r.step) 0 || inRanges rs (start + i)

/-- Whether a stretch of code points keeps clear of some ranges, which are in order. -/
def avoids : List (Nat × Nat) → (first last : Nat) → Bool
  | [], _, _ => true
  | r :: rest, first, last => Nat.blt last r.1 || (Nat.blt r.2 first && avoids rest first last)

theorem inRanges_of_liesIn {r : CaseRun} {rs : List (Nat × Nat)} {start n m : Nat}
    (ho : inOrder rs = true) (h : r.liesIn rs start = true) (hn : r.image? n = some m) :
    inRanges rs (start + (n - r.first)) = true := by
  obtain ⟨hfirst, hlast, -⟩ := eq_of_image? hn
  rcases Bool.or_eq_true_iff.mp h with h | h
  · exact inRanges_of_covers ho h (by omega) (by omega)
  · have hlook := List.all_eq_true.mp h (n - r.first) (List.mem_range.mpr (by omega))
    rw [step_of_image? hn] at hlook
    exact hlook

theorem inRanges_of_avoids {rs : List (Nat × Nat)} {first last n : Nat}
    (h : avoids rs first last = true) (hf : first ≤ n) (hl : n ≤ last) : inRanges rs n = false := by
  induction rs with
  | nil => rfl
  | cons r rest ih =>
    unfold avoids at h
    unfold inRanges
    simp only [Bool.or_eq_true, Bool.and_eq_true, Nat.blt_eq] at h
    by_cases hn : n < r.1
    · rw [if_pos hn]
    · obtain ⟨hbelow, hrest⟩ := h.resolve_left (by omega)
      rw [if_neg hn, ih hrest, Bool.or_false]
      exact decide_eq_false (by omega)

theorem numericRanges_inOrder : inOrder numericRanges = true := by decide +kernel

/-- Whether a run goes from no numbers to none, or from letters that are numbers to such. -/
def CaseRun.keepsNumbers (r : CaseRun) : Bool :=
  avoids numericRanges r.first r.last &&
      avoids numericRanges r.image (r.image + (r.last - r.first)) ||
    r.liesIn numericRanges r.first && r.liesIn numericRanges r.image &&
      r.liesIn alphabeticRanges r.first

/-- Whether a code point is a letter and no number. -/
def isMereLetter (n : Nat) : Bool := covers alphabeticRanges n n && avoids numericRanges n n

/-- A table of case changes that puts letters in the place of what it changes, and numbers in the
place of numbers. -/
structure KeepsKind (runs : List CaseRun) (expansions : List (Nat × List Nat)) : Prop where
  lands : ∀ r ∈ runs, r.Lands
  letters : (runs.all fun r => r.liesIn alphabeticRanges r.image) = true
  numbers : runs.all CaseRun.keepsNumbers = true
  expands : ∀ e ∈ expansions, ∀ n ∈ e.2, 0x41 ≤ n ∧ n < 0xD800
  expansions : (expansions.all fun e => isMereLetter e.1 && e.2.head?.any isMereLetter) = true

theorem upper_keepsKind : KeepsKind upperRuns upperExpansions where
  lands := upperRuns_land
  letters := by decide +kernel
  numbers := by decide +kernel
  expands := upperExpansions_land
  expansions := by decide +kernel

theorem lower_keepsKind : KeepsKind lowerRuns lowerExpansions where
  lands := lowerRuns_land
  letters := by decide +kernel
  numbers := by decide +kernel
  expands := lowerExpansions_land
  expansions := by decide +kernel

namespace KeepsKind

variable {runs : List CaseRun} {expansions : List (Nat × List Nat)} {c : Char}

theorem moved (h : KeepsKind runs expansions) {m : Nat} (hm : moved? runs c.toNat = some m) :
    isAlphabetic (Char.ofNat m) = true ∧ isNumeric (Char.ofNat m) = isNumeric c ∧
      (isNumeric c = true → isAlphabetic c = true) := by
  have hvalid := (moved?_lands h.lands hm).2
  obtain ⟨r, hr, himage⟩ := image?_of_moved? hm
  obtain ⟨hfirst, hlast, heq⟩ := eq_of_image? himage
  have hletters := inRanges_of_liesIn alphabeticRanges_inOrder
    (List.all_eq_true.mp h.letters r hr) himage
  have hback : r.first + (c.toNat - r.first) = c.toNat := by omega
  unfold isAlphabetic isNumeric
  rw [toNat_ofNat hvalid]
  rw [← heq] at hletters
  refine ⟨hletters, ?_⟩
  rcases Bool.or_eq_true_iff.mp (List.all_eq_true.mp h.numbers r hr) with hoff | hin
  · obtain ⟨hsource, htarget⟩ := Bool.and_eq_true_iff.mp hoff
    rw [inRanges_of_avoids hsource hfirst hlast, inRanges_of_avoids htarget (by omega) (by omega)]
    exact ⟨rfl, fun hnumber => by cases hnumber⟩
  · obtain ⟨hboth, hletter⟩ := Bool.and_eq_true_iff.mp hin
    obtain ⟨hsource, htarget⟩ := Bool.and_eq_true_iff.mp hboth
    have hsource := inRanges_of_liesIn numericRanges_inOrder hsource himage
    have htarget := inRanges_of_liesIn numericRanges_inOrder htarget himage
    have hletter := inRanges_of_liesIn alphabeticRanges_inOrder hletter himage
    rw [hback] at hsource hletter
    rw [← heq] at htarget
    exact ⟨htarget.trans hsource.symm, fun _ => hletter⟩

theorem of_isMereLetter (hc : isMereLetter c.toNat = true) :
    isAlphabetic c = true ∧ isNumeric c = false := by
  obtain ⟨hletter, hnumber⟩ := Bool.and_eq_true_iff.mp hc
  exact ⟨inRanges_of_covers alphabeticRanges_inOrder hletter (Nat.le_refl _) (Nat.le_refl _),
    inRanges_of_avoids hnumber (Nat.le_refl _) (Nat.le_refl _)⟩

theorem expanded (h : KeepsKind runs expansions) {ns : List Nat}
    (hns : expansions.lookup c.toNat = some ns) :
    isMereLetter c.toNat = true ∧ ∃ n rest, ns = n :: rest ∧
      isMereLetter (Char.ofNat n).toNat = true := by
  obtain ⟨before, after, hsplit, -⟩ := List.lookup_eq_some_iff.mp hns
  have hmem : (c.toNat, ns) ∈ expansions := by simp [hsplit]
  obtain ⟨hc, hhead⟩ := Bool.and_eq_true_iff.mp (List.all_eq_true.mp h.expansions _ hmem)
  cases ns with
  | nil => cases hhead
  | cons n rest =>
    refine ⟨hc, n, rest, rfl, ?_⟩
    rw [toNat_ofNat (Or.inl (h.expands _ hmem n (List.mem_cons_self ..)).2)]
    exact hhead

/-- A number that is no letter is not changed. -/
theorem unchanged (h : KeepsKind runs expansions) (hnumber : isNumeric c = true)
    (hletter : isAlphabetic c = false) : recased runs expansions c = [c] := by
  unfold recased
  split
  · rename_i m hm
    rw [(h.moved hm).2.2 hnumber] at hletter
    cases hletter
  · split
    · rename_i ns hns
      rw [(of_isMereLetter (h.expanded hns).1).1] at hletter
      cases hletter
    · rfl

/-- What replaces a letter starts with a letter, and what replaces a number with a number. -/
theorem head (h : KeepsKind runs expansions) (hc : (isAlphabetic c || isNumeric c) = true) :
    ∃ d ds, recased runs expansions c = d :: ds ∧ isAlphabetic d = isAlphabetic c ∧
      isNumeric d = isNumeric c := by
  cases hletter : isAlphabetic c with
  | false =>
    rw [hletter, Bool.false_or] at hc
    exact ⟨c, [], h.unchanged hc hletter, hletter, rfl⟩
  | true =>
    unfold recased
    split
    · rename_i m hm
      obtain ⟨hd, hnumber, -⟩ := h.moved hm
      exact ⟨_, _, rfl, hd, hnumber⟩
    · split
      · rename_i ns hns
        obtain ⟨hmere, n, rest, rfl, hd⟩ := h.expanded hns
        obtain ⟨hd, hnumber⟩ := of_isMereLetter hd
        exact ⟨_, _, rfl, hd, hnumber.trans (of_isMereLetter hmere).2.symm⟩
      · exact ⟨c, [], rfl, hletter, rfl⟩

end KeepsKind

/-- A text in lower case starts with a letter or a number if the text does. -/
theorem lower_cons {c : Char} (hc : (isAlphabetic c || isNumeric c) = true) (cs : List Char) :
    ∃ d ds, (lower (String.ofList (c :: cs))).toList = d :: ds ∧ isAlphabetic d = isAlphabetic c ∧
      isNumeric d = isNumeric c := by
  unfold lower lowerFrom
  rw [String.toList_ofList, String.toList_ofList]
  dsimp only
  split
  · rename_i hsigma
    have hkind : isAlphabetic 'σ' = isAlphabetic 'Σ' ∧ isNumeric 'σ' = isNumeric 'Σ' := by decide
    exact ⟨'σ', _, rfl, hsigma ▸ hkind⟩
  · obtain ⟨d, ds, hd, hkind⟩ := lower_keepsKind.head hc
    exact ⟨d, ds ++ lowerFrom [c] cs, by rw [lowerChar, hd]; rfl, hkind⟩

/-- What a text in lower case is made of: the lower-case forms of its characters, and the sigma that
ends a word. -/
theorem mem_lowerFrom {before cs : List Char} {d : Char} (h : d ∈ lowerFrom before cs) :
    d = 'ς' ∨ ∃ c ∈ cs, d ∈ lowerChar c := by
  induction cs generalizing before with
  | nil => cases h
  | cons c after ih =>
    unfold lowerFrom at h
    dsimp only at h
    rcases List.mem_append.mp h with h | h
    · split at h
      · rename_i hsigma
        have hlower : lowerChar 'Σ' = ['σ'] := rfl
        split at h
        · exact Or.inl (List.mem_singleton.mp h)
        · exact Or.inr ⟨c, List.mem_cons_self .., by rwa [hsigma, hlower]⟩
      · exact Or.inr ⟨c, List.mem_cons_self .., h⟩
    · exact (ih h).imp_right fun ⟨b, hb, hd⟩ => ⟨b, List.mem_cons_of_mem _ hb, hd⟩

theorem mem_lowerFrom_of_mem {before cs : List Char} {c d : Char} (hc : c ∈ cs) (hsigma : c ≠ 'Σ')
    (hd : d ∈ lowerChar c) : d ∈ lowerFrom before cs := by
  induction cs generalizing before with
  | nil => cases hc
  | cons b after ih =>
    unfold lowerFrom
    dsimp only
    rcases List.mem_cons.mp hc with rfl | hc
    · rw [if_neg hsigma]
      exact List.mem_append_left _ hd
    · exact List.mem_append_right _ (ih hc)

theorem slash_mem_of_mem_lower {s : String} {d : Char} (hd : d = '/' ∨ d = '\\')
    (h : d ∈ (lower s).toList) : d ∈ s.toList := by
  unfold lower at h
  rw [String.toList_ofList] at h
  rcases mem_lowerFrom h with rfl | ⟨c, hc, hlower⟩
  · rcases hd with hd | hd <;> cases hd
  · rwa [eq_of_slash_mem_lowerChar hd hlower]

/-- What lower-casing makes of a character is not changed by it again. -/
theorem lowerChar_of_mem_lowerChar {c d : Char} (h : d ∈ lowerChar c) : lowerChar d = [d] := by
  unfold lowerChar recased at h
  split at h
  · rename_i m hm
    have hvalid := (moved?_lands lowerRuns_land hm).2
    have hexpanded : lowerExpansions.lookup m = none := by
      obtain ⟨r, hr, himage⟩ := image?_of_moved? hm
      obtain ⟨hfirst, hlast, rfl⟩ := eq_of_image? himage
      have hfree : ∀ r ∈ lowerRuns, ∀ e ∈ lowerExpansions,
          e.1 < r.image ∨ r.image + (r.last - r.first) < e.1 := by decide +kernel
      rw [List.lookup_eq_none_iff]
      intro e he
      rcases hfree r hr e he with hlt | hlt <;> simp <;> omega
    rw [List.mem_singleton.mp h, lowerChar, recased, toNat_ofNat hvalid, moved?_lower hm]
    simp only [hexpanded]
  · rename_i hm
    split at h
    · rename_i ns hns
      have hsettled : ∀ e ∈ lowerExpansions, ∀ n ∈ e.2,
          lowerChar (Char.ofNat n) = [Char.ofNat n] := by decide +kernel
      obtain ⟨n, hn, rfl⟩ := List.mem_map.mp h
      obtain ⟨before, after, hsplit, -⟩ := List.lookup_eq_some_iff.mp hns
      exact hsettled (c.toNat, ns) (by simp [hsplit]) n hn
    · rename_i hns
      rw [List.mem_singleton.mp h, lowerChar, recased, hm]
      simp only [hns]

theorem lowerChar_of_mem_lowerFrom {before cs : List Char} {d : Char}
    (h : d ∈ lowerFrom before cs) : lowerChar d = [d] := by
  rcases mem_lowerFrom h with rfl | ⟨c, -, hd⟩
  · rfl
  · exact lowerChar_of_mem_lowerChar hd

theorem lowerChar_of_mem_lower {s : String} {d : Char} (h : d ∈ (lower s).toList) :
    lowerChar d = [d] := by
  unfold lower at h
  rw [String.toList_ofList] at h
  exact lowerChar_of_mem_lowerFrom h

/-- The upper-case form of a character starts with none of the small letters without marks. -/
theorem upperChar_head (c : Char) : ∃ d ds, upperChar c = d :: ds ∧ d.isLower = false := by
  have hhigh {n : Nat} (hvalid : n.isValidChar) (h : n < 0x61 ∨ 0x7A < n) :
      (Char.ofNat n).isLower = false := by
    rw [← Bool.not_eq_true]
    intro hlower
    have hbounds := Bool.and_eq_true_iff.mp hlower
    have hle := UInt32.le_iff_toNat_le.mp (of_decide_eq_true hbounds.1)
    have hge := UInt32.le_iff_toNat_le.mp (of_decide_eq_true hbounds.2)
    have htoNat := toNat_ofNat hvalid
    unfold Char.toNat at htoNat
    rw [htoNat] at hle hge
    exact h.elim (fun h => absurd hle (by simpa using h)) fun h => absurd hge (by simpa using h)
  unfold upperChar recased
  split
  · rename_i m hm
    have hruns : ∀ r ∈ upperRuns, r.image + (r.last - r.first) < 0x61 ∨ 0x7A < r.image := by
      decide +kernel
    refine ⟨_, _, rfl, hhigh (moved?_lands upperRuns_land hm).2 ?_⟩
    obtain ⟨r, hr, himage⟩ := image?_of_moved? hm
    obtain ⟨hfirst, hlast, rfl⟩ := eq_of_image? himage
    exact (hruns r hr).imp (fun h => by omega) fun h => by omega
  · rename_i hm
    split
    · rename_i ns hns
      have hheads : ∀ e ∈ upperExpansions, (e.2.head?.any fun n =>
          !(Char.ofNat n).isLower) = true := by decide +kernel
      obtain ⟨before, after, hsplit, -⟩ := List.lookup_eq_some_iff.mp hns
      have hhead := hheads (c.toNat, ns) (by simp [hsplit])
      cases ns with
      | nil => cases hhead
      | cons n ns => exact ⟨_, _, rfl, by simpa using hhead⟩
    · refine ⟨c, [], rfl, ?_⟩
      rw [← Bool.not_eq_true]
      intro hlower
      have hletter : c.isAlpha = true := Bool.or_eq_true_iff.mpr (.inr hlower)
      have hlt := lt_of_isAlphanum (c := c) (Bool.or_eq_true_iff.mpr (.inl hletter))
      have hsome := forall_small
        (P := fun c => c.isLower = true → (moved? upperRuns c.toNat).isSome = true)
        (by decide +kernel) hlt hlower
      rw [hm] at hsome
      cases hsome

end SchemaBindings.Text
