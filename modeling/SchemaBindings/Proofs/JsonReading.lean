import SchemaBindings.Json.Reader
import SchemaBindings.Proofs.JsonNodes

/-! # Values that are read

Every object that is read has each key once: a key that comes again gives its
old place the new value. A reader keeps this if those that it calls do. -/

namespace SchemaBindings.Json

theorem readWord_keyed {meaning v : Json} {word cs rest : List Char} (hmeaning : meaning.Keyed)
    (h : readWord meaning word cs = .ok (v, rest)) : v.Keyed := by
  induction word generalizing cs with
  | nil =>
    cases h
    exact hmeaning
  | cons w word ih =>
    cases cs with
    | nil => cases h
    | cons c cs =>
      rw [readWord] at h
      split at h
      · exact ih h
      · cases h

theorem readText_keyed {fuel : Nat} {v : Json} {cs rest : List Char}
    (h : readText fuel cs = .ok (v, rest)) : v.Keyed := by
  unfold readText at h
  split at h
  · cases h
  · cases h
    exact .leaf rfl rfl

theorem readNumeral_keyed {negative : Bool} {v : Json} {cs rest : List Char}
    (h : readNumeral negative cs = .ok (v, rest)) : v.Keyed := by
  unfold readNumeral at h
  split at h
  · cases h
  · cases h
    exact .leaf rfl rfl

/-- What the readers read with some fuel has each key once, if what they have read before does. -/
structure ReadsKeyed (fuel : Nat) : Prop where
  value : ∀ {depth cs v rest}, readValue fuel depth cs = .ok (v, rest) → v.Keyed
  items : ∀ {depth atStart done cs v rest}, (∀ x ∈ done, x.Keyed) →
    readItems fuel depth atStart done cs = .ok (v, rest) → v.Keyed
  item : ∀ {depth done cs v rest}, (∀ x ∈ done, x.Keyed) →
    readItem fuel depth done cs = .ok (v, rest) → v.Keyed
  members : ∀ {depth atStart cs v rest} {done : Members}, done.Distinct → (∀ e ∈ done, e.2.Keyed) →
    readMembers fuel depth atStart done cs = .ok (v, rest) → v.Keyed
  member : ∀ {depth cs v rest} {done : Members}, done.Distinct → (∀ e ∈ done, e.2.Keyed) →
    readMember fuel depth done cs = .ok (v, rest) → v.Keyed

section

variable {fuel depth : Nat} {atStart : Bool} {v : Json} {cs rest : List Char}

theorem readValue_keyed (ih : ReadsKeyed fuel) (h : readValue (fuel + 1) depth cs = .ok (v, rest)) :
    v.Keyed := by
  rw [readValue] at h
  split at h
  · cases h
  · exact readWord_keyed (.leaf rfl rfl) h
  · exact readWord_keyed (.leaf rfl rfl) h
  · exact readWord_keyed (.leaf rfl rfl) h
  · exact readText_keyed h
  · exact readNumeral_keyed h
  · split at h
    · cases h
    · exact ih.items (fun _ hx => by cases hx) h
  · split at h
    · cases h
    · exact ih.members (show OrderedMap.Distinct ([] : Members) from List.nodup_nil)
        (fun _ he => by cases he) h
  · split at h
    · exact readNumeral_keyed h
    · cases h

theorem readItems_keyed (ih : ReadsKeyed fuel) {done : List Json} (hdone : ∀ x ∈ done, x.Keyed)
    (h : readItems (fuel + 1) depth atStart done cs = .ok (v, rest)) : v.Keyed := by
  rw [readItems] at h
  split at h
  · cases h
  · cases h
    exact .array fun x hx => hdone x (List.mem_reverse.mp hx)
  · split at h
    · exact ih.item hdone h
    · split at h
      · split at h
        · cases h
        · cases h
        · exact ih.item hdone h
      · cases h

theorem readItem_keyed (ih : ReadsKeyed fuel) {done : List Json} (hdone : ∀ x ∈ done, x.Keyed)
    (h : readItem (fuel + 1) depth done cs = .ok (v, rest)) : v.Keyed := by
  rw [readItem] at h
  split at h
  · cases h
  · rename_i x after hx
    refine ih.items (fun y hy => ?_) h
    rcases List.mem_cons.mp hy with rfl | hy
    · exact ih.value hx
    · exact hdone y hy

theorem readMembers_keyed (ih : ReadsKeyed fuel) {done : Members} (hd : done.Distinct)
    (hdone : ∀ e ∈ done, e.2.Keyed)
    (h : readMembers (fuel + 1) depth atStart done cs = .ok (v, rest)) : v.Keyed := by
  rw [readMembers] at h
  split at h
  · cases h
  · cases h
    exact .object hd hdone
  · split at h
    · split at h
      · exact ih.member hd hdone h
      · cases h
    · split at h
      · split at h
        · cases h
        · exact ih.member hd hdone h
        · cases h
        · cases h
      · cases h

theorem readMember_keyed (ih : ReadsKeyed fuel) {done : Members} (hd : done.Distinct)
    (hdone : ∀ e ∈ done, e.2.Keyed)
    (h : readMember (fuel + 1) depth done cs = .ok (v, rest)) : v.Keyed := by
  rw [readMember] at h
  split at h
  · cases h
  · split at h
    · cases h
    · split at h
      · cases h
      · rename_i x after hx
        obtain ⟨hd', hdone'⟩ := Keyed.insert hd hdone (ih.value hx)
        exact ih.members hd' hdone' h

end

theorem readsKeyed (fuel : Nat) : ReadsKeyed fuel := by
  induction fuel with
  | zero =>
    constructor
    · intro _ _ _ _ h
      simp [readValue, failAt] at h
    · intro _ _ _ _ _ _ _ h
      simp [readItems, failAt] at h
    · intro _ _ _ _ _ _ h
      simp [readItem, failAt] at h
    · intro _ _ _ _ _ _ _ _ h
      simp [readMembers, failAt] at h
    · intro _ _ _ _ _ _ _ h
      simp [readMember, failAt] at h
  | succ fuel ih =>
    exact ⟨readValue_keyed ih, readItems_keyed ih, readItem_keyed ih, readMembers_keyed ih,
      readMember_keyed ih⟩

/-- A value that is read has each key once in every object. -/
theorem read_keyed {text : String} {v : Json} (h : read text = .ok v) : v.Keyed := by
  unfold read readAll at h
  split at h
  · rename_i u hall
    cases h
    split at hall
    · cases hall
    · rename_i x rest hx
      split at hall
      · cases hall
        exact (readsKeyed _).value hx
      · cases hall
  · cases h

end SchemaBindings.Json
