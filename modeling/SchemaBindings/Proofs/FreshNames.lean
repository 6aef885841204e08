import Mathlib.Data.List.Nodup
import Mathlib.Data.List.Perm.Subperm
import SchemaBindings.Code.NameScope

/-! # Names that are handed out are free

Numbers are tried one after the other, one more than there are names taken. If
all of them made a taken name, these would be more names than there are. -/

namespace SchemaBindings.Code.NameScope

variable {s : NameScope} {name candidate : String}

theorem numbered_injective (name : String) : Function.Injective (numbered name) := by
  intro m n h
  have htexts : toString m = toString n := (String.append_right_inj name).mp h
  have hdigits : Nat.toDigits 10 m = Nat.toDigits 10 n := by
    rw [Nat.toString_eq_ofList_toDigits, Nat.toString_eq_ofList_toDigits] at htexts
    exact String.ofList_injective htexts
  rw [← Nat.ofDigitChars_ten_toDigits (n := m), hdigits, Nat.ofDigitChars_ten_toDigits]

/-- If the search ends at a name that is taken, it has tried taken names only. -/
theorem mem_taken_of_firstFree {tries n : Nat}
    (h : numbered name (s.firstFree name tries n) ∈ s.taken) :
    ∀ i ≤ tries, numbered name (n + i) ∈ s.taken := by
  induction tries generalizing n with
  | zero =>
    intro i hi
    obtain rfl : i = 0 := Nat.le_zero.mp hi
    exact h
  | succ tries ih =>
    rw [firstFree] at h
    split at h
    · rename_i htaken
      intro i hi
      cases i with
      | zero => simpa [contains] using htaken
      | succ i =>
        have hrest := ih h i (by omega)
        rwa [show n + (i + 1) = n + 1 + i by omega]
    · rename_i hfree
      simp [contains] at hfree
      exact absurd h hfree

/-- More names than are taken cannot all be taken. -/
theorem length_lt_of_taken {count n : Nat} (h : ∀ i ≤ count, numbered name (n + i) ∈ s.taken) :
    count < s.taken.length := by
  have hnodup : ((List.range (count + 1)).map fun i => numbered name (n + i)).Nodup := by
    refine List.Nodup.map (fun i j hij => ?_) List.nodup_range
    have hsame := numbered_injective name hij
    omega
  have hsub : (List.range (count + 1)).map (fun i => numbered name (n + i)) ⊆ s.taken := by
    intro x hx
    obtain ⟨i, hi, rfl⟩ := List.mem_map.mp hx
    exact h i (Nat.le_of_lt_succ (List.mem_range.mp hi))
  have hlen := (hnodup.subperm hsub).length_le
  rw [List.length_map, List.length_range] at hlen
  omega

theorem freshName_not_mem (s : NameScope) (candidate : String) :
    s.freshName candidate ∉ s.taken := by
  intro h
  unfold freshName at h
  split at h
  · have hlt := length_lt_of_taken (mem_taken_of_firstFree h)
    omega
  · rename_i hfree
    simp [contains] at hfree
    exact hfree h

/-- Names that are handed out in order are distinct, and none of them was taken. -/
theorem claimAll_spec (s : NameScope) (candidates : List String) :
    (s.claimAll candidates).1.length = candidates.length ∧ (s.claimAll candidates).1.Nodup ∧
      ∀ n ∈ (s.claimAll candidates).1, n ∉ s.taken := by
  induction candidates generalizing s with
  | nil => exact ⟨rfl, List.nodup_nil, fun n hn => by cases hn⟩
  | cons candidate rest ih =>
    obtain ⟨hlen, hnodup, hfree⟩ := ih (s.reserve (s.freshName candidate))
    have hall : (s.claimAll (candidate :: rest)).1 =
        s.freshName candidate :: ((s.reserve (s.freshName candidate)).claimAll rest).1 := rfl
    rw [hall]
    refine ⟨by simp [hlen], List.nodup_cons.mpr ⟨?_, hnodup⟩, ?_⟩
    · intro hn
      exact hfree _ hn (List.mem_cons_self ..)
    · intro n hn
      rcases List.mem_cons.mp hn with rfl | hn
      · exact freshName_not_mem s candidate
      · exact fun ht => hfree n hn (List.mem_cons_of_mem _ ht)

end SchemaBindings.Code.NameScope
