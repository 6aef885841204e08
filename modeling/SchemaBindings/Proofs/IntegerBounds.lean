import Mathlib.Algebra.Order.Field.Rat
import Mathlib.Algebra.Order.Field.Power
import Mathlib.Tactic.Linarith
import Mathlib.Tactic.NormNum
import Mathlib.Tactic.Ring
import SchemaBindings.Proofs.LoneArms

/-! # Lower bounds of integers

An integer schema becomes the type of integers without a sign where one of its
two lower bounds is seen to rule negative integers out: a minimum of at least
zero, or an exclusive minimum above minus one. Bounds are JSON numbers and need
not be integers, so they are compared as exact values. Two kinds of bounds that
rule negative integers out are not seen: a minimum between minus one and zero,
and an exclusive minimum of just minus one. -/

namespace SchemaBindings

namespace Binary64

variable {x : Binary64} {k : Int}

/-- The exact value. -/
def value (x : Binary64) : ℚ := (if x.negative then -1 else 1) * (x.mantissa * 2 ^ x.exponent)

/-- The magnitude as a fraction is the magnitude. -/
theorem ratio_spec (x : Binary64) : 0 < (x.ratio.2 : ℚ) ∧
    (x.ratio.1 : ℚ) / x.ratio.2 = x.mantissa * 2 ^ x.exponent := by
  obtain ⟨negative, mantissa, exponent⟩ := x
  unfold ratio
  dsimp only
  split
  · obtain ⟨n, rfl⟩ : ∃ n : Nat, exponent = -(n : Int) := ⟨exponent.natAbs, by omega⟩
    exact ⟨by simp, by simp [zpow_neg, div_eq_mul_inv]⟩
  · obtain ⟨n, rfl⟩ : ∃ n : Nat, exponent = n := ⟨exponent.natAbs, by omega⟩
    exact ⟨by simp, by simp⟩

/-- The value as a fraction. -/
theorem value_eq (x : Binary64) :
    x.value = (if x.negative then -(x.ratio.1 : ℚ) else x.ratio.1) / x.ratio.2 := by
  unfold value
  rw [← (ratio_spec x).2]
  split <;> ring

theorem atLeast_iff : x.atLeast k = true ↔ (k : ℚ) ≤ x.value := by
  rw [value_eq, le_div_iff₀ (ratio_spec x).1]
  unfold atLeast
  generalize x.ratio = fraction
  dsimp only
  split
  all_goals rw [decide_eq_true_eq]; norm_cast

theorem above_iff : x.above k = true ↔ (k : ℚ) < x.value := by
  rw [value_eq, lt_div_iff₀ (ratio_spec x).1]
  unfold above
  generalize x.ratio = fraction
  dsimp only
  split
  all_goals rw [decide_eq_true_eq]; norm_cast

end Binary64

/-- The exact value of a number. -/
def JsonNumber.value : JsonNumber → ℚ
  | .integer n => n
  | .float x => x.value

namespace Lowering

variable {root : Option Json} {lower : Lower} {ms : Members} {name : ItemName} {kind : String}

/-! ## Bounds -/

theorem atLeast_iff {k : Int} {n : JsonNumber} : atLeast k n = true ↔ (k : ℚ) ≤ n.value := by
  cases n with
  | integer n => simp [atLeast, JsonNumber.value]
  | float x => exact Binary64.atLeast_iff

theorem above_iff {k : Int} {n : JsonNumber} : above k n = true ↔ (k : ℚ) < n.value := by
  cases n with
  | integer n => simp [above, JsonNumber.value]
  | float x => exact Binary64.above_iff

/-- The value under a keyword, if that is a number. -/
def bound? (ms : Members) (keyword : String) : Option ℚ :=
  match ms.get? keyword with
  | some (.number n) => some n.value
  | _ => none

theorem hasBound_iff {keyword : String} {test : JsonNumber → Bool} {Holds : ℚ → Prop}
    (htest : ∀ n, test n = true ↔ Holds n.value) :
    hasBound ms keyword test = true ↔ ∃ b ∈ bound? ms keyword, Holds b := by
  unfold hasBound bound?
  cases ms.get? keyword with
  | none => simp
  | some v => cases v <;> simp [htest]

/-- Whether an integer lies within the lower bounds of a schema. -/
def Admits (ms : Members) (n : Int) : Prop :=
  (∀ b ∈ bound? ms "minimum", b ≤ n) ∧ ∀ b ∈ bound? ms "exclusiveMinimum", b < n

/-- Lower bounds admit what lies above something that they admit. -/
theorem Admits.of_le {n k : Int} (h : Admits ms n) (hk : n ≤ k) : Admits ms k := by
  have hcast : (n : ℚ) ≤ k := by exact_mod_cast hk
  exact ⟨fun b hb => (h.1 b hb).trans hcast, fun b hb => (h.2 b hb).trans_le hcast⟩

/-- Of the negative integers, minus one is the first to be admitted. -/
theorem admits_none_iff : (∀ n < 0, ¬ Admits ms n) ↔
    (∃ b ∈ bound? ms "minimum", -1 < b) ∨ ∃ b ∈ bound? ms "exclusiveMinimum", -1 ≤ b := by
  have hfirst : (∀ n < 0, ¬ Admits ms n) ↔ ¬ Admits ms (-1) :=
    ⟨fun h => h (-1) (by decide), fun h n hn hadmits => h (hadmits.of_le (by omega))⟩
  rw [hfirst, Admits, not_and_or]
  push Not
  norm_num

theorem isNonNegative_iff : isNonNegative ms = true ↔
    (∃ b ∈ bound? ms "minimum", 0 ≤ b) ∨ ∃ b ∈ bound? ms "exclusiveMinimum", -1 < b := by
  unfold isNonNegative
  rw [Bool.or_eq_true, hasBound_iff fun n => atLeast_iff, hasBound_iff fun n => above_iff]
  norm_num

/-- Negative integers are ruled out, but neither bound shows it by itself: there is a minimum between
minus one and zero or an exclusive minimum of minus one, and no higher bound. -/
def RulesOutUnseen (ms : Members) : Prop :=
  (∀ b ∈ bound? ms "minimum", b < 0) ∧ (∀ b ∈ bound? ms "exclusiveMinimum", b ≤ -1) ∧
    ((∃ b ∈ bound? ms "minimum", -1 < b) ∨ -1 ∈ bound? ms "exclusiveMinimum")

theorem RulesOutUnseen.admits_none (h : RulesOutUnseen ms) : ∀ n < 0, ¬ Admits ms n := by
  refine admits_none_iff.mpr (h.2.2.imp_right fun hb => ⟨-1, hb, le_refl _⟩)

theorem isNonNegative_iff_admits_none :
    isNonNegative ms = true ↔ (∀ n < 0, ¬ Admits ms n) ∧ ¬ RulesOutUnseen ms := by
  rw [isNonNegative_iff, admits_none_iff]
  constructor
  · intro h
    refine ⟨?_, fun hunseen => ?_⟩
    · refine h.imp ?_ ?_
      · rintro ⟨b, hb, hle⟩
        exact ⟨b, hb, by linarith⟩
      · rintro ⟨b, hb, hlt⟩
        exact ⟨b, hb, hlt.le⟩
    · rcases h with ⟨b, hb, hle⟩ | ⟨b, hb, hlt⟩
      · exact absurd (hunseen.1 b hb) (not_lt.mpr hle)
      · exact absurd (hunseen.2.1 b hb) (not_le.mpr hlt)
  · rintro ⟨hout, hseen⟩
    by_contra hnone
    push Not at hnone
    refine hseen ⟨hnone.1, hnone.2, hout.imp_right ?_⟩
    rintro ⟨b, hb, hle⟩
    obtain rfl : b = -1 := le_antisymm (hnone.2 b hb) hle
    exact hb

/-! ## Schemas of one kind -/

/-- A schema that its type alone tells the kind of: it has no reference, no constant, no enumeration, no
arms and no alternatives. -/
structure IsOfKind (ms : Members) (kind : String) : Prop where
  noRef : refText? (.object ms) = none
  noConst : ms.get? "const" = none
  noEnum : ∀ values, ms.get? "enum" ≠ some (.array values)
  noArms : ∀ arms, ms.get? "allOf" ≠ some (.array arms)
  noUnion : unionArms? ms = none
  type : ms.get? "type" = some (.string kind)

theorem IsOfKind.lowerMembers_eq (h : IsOfKind ms kind) :
    lowerMembers root lower ms name = lowerKind lower kind ms name := by
  rw [lowerMembers_plain h.noRef, h.noConst]
  have hcomposed : lowerComposed root lower ms name = lowerKind lower kind ms name := by
    rw [lowerComposed_plain h.noArms, h.noUnion]
    unfold lowerByType
    rw [h.type]
  dsimp only
  split
  · rename_i values hvalues
    exact absurd hvalues (h.noEnum values)
  · exact hcomposed

/-- An integer schema becomes the type of integers with or without a sign, and the module stays as it
is. The type has no sign exactly if the bounds of the schema, as far as they are numbers, admit no
negative integer and one of them shows it: a minimum of at least zero, or an exclusive minimum above
minus one. Where a minimum between minus one and zero or an exclusive minimum of minus one rules
negative integers out, the type has a sign all the same. -/
theorem integer_sign_iff (h : IsOfKind ms "integer") (root : Option Json) (depth : Nat)
    (name : ItemName) (s : LowerState) :
    ∃ ty, (Lowering.lower root (depth + 1) (.object ms) name).run s = some (ty, s) ∧
      (ty = .unsigned ∨ ty = .integer) ∧
      (ty = .unsigned ↔ (∃ b ∈ bound? ms "minimum", 0 ≤ b) ∨
        ∃ b ∈ bound? ms "exclusiveMinimum", -1 < b) ∧
      (ty = .unsigned ↔ (∀ n < 0, ¬ Admits ms n) ∧ ¬ RulesOutUnseen ms) ∧
      (RulesOutUnseen ms → ∀ n < 0, ¬ Admits ms n) := by
  have hrun : (Lowering.lower root (depth + 1) (.object ms) name).run s =
      some (if isNonNegative ms then .unsigned else .integer, s) := by
    unfold Lowering.lower
    rw [h.lowerMembers_eq]
    rfl
  refine ⟨_, hrun, ?_, ?_, ?_, RulesOutUnseen.admits_none⟩
  · split
    · exact .inl rfl
    · exact .inr rfl
  · rw [← isNonNegative_iff]
    simp
  · rw [← isNonNegative_iff_admits_none]
    simp

/-- An integer schema with an exclusive minimum. -/
def integersAbove (n : JsonNumber) : Members :=
  [("type", .string "integer"), ("exclusiveMinimum", .number n)]

theorem isOfKind_integersAbove (n : JsonNumber) : IsOfKind (integersAbove n) "integer" where
  noRef := rfl
  noConst := rfl
  noEnum _ h := by cases h
  noArms _ h := by cases h
  noUnion := rfl
  type := rfl

/-- Above minus a half there are no negative integers. -/
theorem integer_sign_half :
    let half : JsonNumber := .float ⟨true, 1, -1⟩
    (Lowering.lower none 1 (.object (integersAbove half)) (.exact "N")).run .empty =
      some (.unsigned, .empty) := by
  intro half
  obtain ⟨ty, hrun, -, hsign, -⟩ := integer_sign_iff (isOfKind_integersAbove half) none 0
    (.exact "N") .empty
  have hbound : bound? (integersAbove half) "exclusiveMinimum" = some half.value := rfl
  have hvalue : -1 < half.value := by norm_num [half, JsonNumber.value, Binary64.value]
  rw [hrun, hsign.mpr (.inr ⟨_, hbound, hvalue⟩)]

/-- Above minus one there are no negative integers either, but the type has a sign. -/
theorem integer_sign_unseen :
    let ms := integersAbove (.integer (-1))
    (∀ n < 0, ¬ Admits ms n) ∧
      (Lowering.lower none 1 (.object ms) (.exact "N")).run .empty = some (.integer, .empty) := by
  intro ms
  have hbound : bound? ms "exclusiveMinimum" = some (JsonNumber.integer (-1)).value := rfl
  have hvalue : -1 ≤ (JsonNumber.integer (-1)).value := by norm_num [JsonNumber.value]
  exact ⟨admits_none_iff.mpr (.inr ⟨_, hbound, hvalue⟩), rfl⟩

end Lowering

end SchemaBindings
