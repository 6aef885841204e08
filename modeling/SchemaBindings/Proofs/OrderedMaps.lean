import Mathlib.Data.List.Nodup
import Mathlib.Data.List.Perm.Basic
import SchemaBindings.OrderedMap

/-! # Lookup in ordered maps

What lookup sees after an entry is taken out or put in. Taking an entry out
moves the last one into the gap, so the result is a permutation of the other
entries; with distinct names a permutation is invisible to lookup. -/

namespace SchemaBindings.OrderedMap

variable {α : Type}

/-- No name stands twice. -/
def Distinct (m : OrderedMap α) : Prop := m.names.Nodup

theorem get?_cons (e : String × α) (m : OrderedMap α) (name : String) :
    get? (e :: m) name = if name = e.1 then some e.2 else get? m name := by
  obtain ⟨n, v⟩ := e
  by_cases h : name = n
  · simp [get?, h]
  · have : (name == n) = false := by simpa using h
    simp [get?, List.lookup_cons, this, h]

theorem mem_of_get? {m : OrderedMap α} {name : String} {v : α}
    (h : get? m name = some v) : (name, v) ∈ m := by
  induction m with
  | nil => simp [get?] at h
  | cons e m ih =>
    rw [get?_cons] at h
    split at h
    · rename_i hn
      cases h
      simp [hn]
    · exact List.mem_cons_of_mem _ (ih h)

theorem get?_eq_none {m : OrderedMap α} {name : String} :
    get? m name = none ↔ name ∉ m.names := by
  induction m with
  | nil => simp [get?, names]
  | cons e m ih =>
    rw [get?_cons]
    by_cases h : name = e.1
    · simp [h, names]
    · simp [h, ih, names]

theorem exists_get?_of_mem_names {m : OrderedMap α} {name : String} (h : name ∈ m.names) :
    ∃ v, get? m name = some v := by
  rw [← Option.ne_none_iff_exists']
  exact fun hnone => get?_eq_none.mp hnone h

theorem Distinct.tail {e : String × α} {m : OrderedMap α} (h : Distinct (e :: m)) :
    Distinct m := (List.nodup_cons.mp h).2

theorem get?_of_mem {m : OrderedMap α} (h : Distinct m) {name : String} {v : α}
    (hm : (name, v) ∈ m) : get? m name = some v := by
  induction m with
  | nil => cases hm
  | cons e m ih =>
    rw [get?_cons]
    rcases List.mem_cons.mp hm with he | hm'
    · simp [← he]
    · have hne : name ≠ e.1 := by
        intro he
        exact (List.nodup_cons.mp h).1 (List.mem_map.mpr ⟨_, hm', he⟩)
      rw [if_neg hne]
      exact ih h.tail hm'

/-! ## Taking an entry out -/

/-- The entries that stay, up to order. -/
theorem remove_perm (m : OrderedMap α) (name : String) :
    (remove m name).Perm (m.eraseP fun e => e.1 = name) := by
  by_cases hm : ∃ e ∈ m, e.1 = name
  · obtain ⟨e, he, hn⟩ := hm
    obtain ⟨x, before, after, hb, hx, hsplit, herase⟩ :=
      List.exists_of_eraseP (p := fun e => decide (e.1 = name)) he (by simpa using hn)
    rw [herase]
    have hfind : m.findIdx? (fun e => decide (e.1 = name)) = some before.length := by
      rw [hsplit, List.findIdx?_append, List.findIdx?_eq_none_iff.mpr (by simpa using hb)]
      simp [List.findIdx?_cons, hx]
    rcases List.eq_nil_or_concat after with rfl | ⟨init, last, rfl⟩
    · have hlast : m.getLast? = some x := by rw [hsplit, List.getLast?_concat]
      have hlen : before.length + 1 = m.length := by rw [hsplit]; simp
      unfold remove
      rw [hfind, hlast]
      simp only [hlen, if_true, hsplit, List.dropLast_concat, List.append_nil]
      exact List.Perm.refl _
    · have hlast : m.getLast? = some last := by
        rw [hsplit, List.concat_eq_append, ← List.cons_append, ← List.append_assoc,
          List.getLast?_concat]
      have hlen : before.length + 1 ≠ m.length := by rw [hsplit]; simp
      have hdrop : m.dropLast = before ++ x :: init := by
        rw [hsplit, List.concat_eq_append, ← List.cons_append, ← List.append_assoc,
          List.dropLast_concat]
      unfold remove
      rw [hfind, hlast]
      simp only [hlen, if_false, hdrop]
      rw [List.set_append_right _ _ (Nat.le_refl _), Nat.sub_self, List.set_cons_zero,
        List.concat_eq_append]
      exact List.Perm.append_left _ (List.perm_append_singleton _ _).symm
  · have hnone : m.findIdx? (fun e => decide (e.1 = name)) = none :=
      List.findIdx?_eq_none_iff.mpr fun e he => by
        simpa using fun hn => hm ⟨e, he, hn⟩
    rw [List.eraseP_of_forall_not fun e he => by simpa using fun hn => hm ⟨e, he, hn⟩]
    simp [remove, hnone]

theorem mem_of_mem_remove {m : OrderedMap α} {name : String} {e : String × α}
    (h : e ∈ remove m name) : e ∈ m :=
  List.mem_of_mem_eraseP ((remove_perm m name).mem_iff.mp h)

theorem mem_names_of_mem_remove {m : OrderedMap α} {name other : String}
    (h : other ∈ (m.remove name).names) : other ∈ m.names := by
  obtain ⟨e, he, rfl⟩ := List.mem_map.mp h
  exact List.mem_map.mpr ⟨e, mem_of_mem_remove he, rfl⟩

theorem Distinct.remove {m : OrderedMap α} (h : Distinct m) (name : String) :
    Distinct (remove m name) := by
  have hp := (remove_perm m name).map Prod.fst
  exact hp.nodup_iff.mpr ((List.eraseP_sublist.map _).nodup h)

theorem not_mem_names_remove {m : OrderedMap α} (h : Distinct m) (name : String) :
    name ∉ (remove m name).names := by
  intro hm
  have hp := ((remove_perm m name).map Prod.fst).mem_iff.mp hm
  clear hm
  induction m with
  | nil => simp at hp
  | cons e m ih =>
    by_cases he : e.1 = name
    · rw [List.eraseP_cons_of_pos (by simpa using he)] at hp
      have hfresh : e.1 ∉ names m := (List.nodup_cons.mp h).1
      exact hfresh (he.symm ▸ hp)
    · rw [List.eraseP_cons_of_neg (by simpa using he)] at hp
      rcases List.mem_cons.mp hp with hn | hp
      · exact he hn.symm
      · exact ih h.tail hp

theorem mem_remove_of_ne {m : OrderedMap α} {name : String} {e : String × α}
    (he : e ∈ m) (hne : e.1 ≠ name) : e ∈ remove m name :=
  (remove_perm m name).mem_iff.mpr
    ((List.mem_eraseP_of_neg (by simpa using hne)).mpr he)

/-- An entry stays, unless it is the one that is found under the name. -/
theorem mem_remove_or {m : OrderedMap α} {e : String × α} (he : e ∈ m) (name : String) :
    e ∈ remove m name ∨ e.1 = name ∧ get? m name = some e.2 := by
  rw [(remove_perm m name).mem_iff]
  induction m with
  | nil => cases he
  | cons x m ih =>
    by_cases hx : x.1 = name
    · rw [List.eraseP_cons_of_pos (by simpa using hx)]
      rcases List.mem_cons.mp he with rfl | he
      · exact Or.inr ⟨hx, by rw [get?_cons, if_pos hx.symm]⟩
      · exact Or.inl he
    · rw [List.eraseP_cons_of_neg (by simpa using hx), get?_cons, if_neg (Ne.symm hx)]
      rcases List.mem_cons.mp he with rfl | he
      · exact Or.inl (List.mem_cons_self ..)
      · exact (ih he).imp_left (List.mem_cons_of_mem _)

theorem get?_remove_self {m : OrderedMap α} (h : Distinct m) {name : String} :
    get? (remove m name) name = none :=
  get?_eq_none.mpr (not_mem_names_remove h name)

theorem get?_remove_of_ne {m : OrderedMap α} (h : Distinct m) {name other : String}
    (hne : other ≠ name) : get? (remove m name) other = get? m other := by
  cases ho : get? m other with
  | none =>
    exact get?_eq_none.mpr fun hm => get?_eq_none.mp ho (mem_names_of_mem_remove hm)
  | some v =>
    exact get?_of_mem (h.remove name) (mem_remove_of_ne (mem_of_get? ho) hne)

theorem get?_remove {m : OrderedMap α} (h : Distinct m) (name other : String) :
    get? (remove m name) other = if other = name then none else get? m other := by
  split
  · rename_i heq
    rw [heq, get?_remove_self h]
  · rename_i hne
    exact get?_remove_of_ne h hne

/-- Under equal names there is something in both. -/
theorem isSome_get?_of_names {β : Type} {m : OrderedMap α} {m' : OrderedMap β}
    (h : m'.names = m.names) (name : String) : (m'.get? name).isSome = (m.get? name).isSome := by
  rw [Bool.eq_iff_iff, Option.isSome_iff_ne_none, Option.isSome_iff_ne_none, ne_eq, ne_eq,
    get?_eq_none, get?_eq_none, h]

/-- Entries may be taken out before or after their values are changed. -/
theorem remove_map {β : Type} (m : OrderedMap α) (f : String × α → β) (name : String) :
    remove (m.map fun e => (e.1, f e)) name = (remove m name).map fun e => (e.1, f e) := by
  have hfind : (m.map fun e => (e.1, f e)).findIdx? (fun e => decide (e.1 = name)) =
      m.findIdx? fun e => decide (e.1 = name) := List.findIdx?_map ..
  unfold remove
  rw [hfind, List.getLast?_map]
  cases m.findIdx? fun e => decide (e.1 = name) with
  | none => rfl
  | some i =>
    cases m.getLast? with
    | none => rfl
    | some last =>
      rw [Option.map_some, List.length_map]
      dsimp only
      split
      · rw [List.map_dropLast]
      · rw [List.map_set, List.map_dropLast]

/-- Nothing changes if there is no entry of the name. -/
theorem remove_of_not_mem {m : OrderedMap α} {name : String} (h : name ∉ m.names) :
    remove m name = m := by
  have hnone : m.findIdx? (fun e => decide (e.1 = name)) = none :=
    List.findIdx?_eq_none_iff.mpr fun e he => by
      simpa using fun hn => h (List.mem_map.mpr ⟨e, he, hn⟩)
  unfold remove
  rw [hnone]

/-! ## Putting an entry in -/

theorem mem_insert {m : OrderedMap α} {name : String} {v : α} {e : String × α}
    (h : e ∈ insert m name v) : e ∈ m ∨ e = (name, v) := by
  induction m with
  | nil => simpa [insert] using h
  | cons x m ih =>
    obtain ⟨n, old⟩ := x
    simp only [insert] at h
    split at h
    · rename_i hn
      rcases List.mem_cons.mp h with rfl | h
      · exact Or.inr (by rw [hn])
      · exact Or.inl (List.mem_cons_of_mem _ h)
    · rcases List.mem_cons.mp h with rfl | h
      · exact Or.inl (List.mem_cons_self ..)
      · exact (ih h).imp_left (List.mem_cons_of_mem _)

theorem get?_insert_of_ne {m : OrderedMap α} {name other : String} {v : α}
    (hne : name ≠ other) : get? (insert m name v) other = get? m other := by
  induction m with
  | nil => rw [insert, get?_cons, if_neg (Ne.symm hne)]
  | cons x m ih =>
    obtain ⟨n, old⟩ := x
    simp only [insert]
    split
    · rename_i hn
      rw [get?_cons, get?_cons, if_neg (hn ▸ Ne.symm hne), if_neg (hn ▸ Ne.symm hne)]
    · rw [get?_cons, get?_cons, ih]

theorem get?_append_of_ne {m : OrderedMap α} {e : String × α} {other : String}
    (hne : e.1 ≠ other) : get? (m ++ [e]) other = get? m other := by
  induction m with
  | nil => rw [List.nil_append, get?_cons, if_neg (Ne.symm hne)]
  | cons x m ih => rw [List.cons_append, get?_cons, get?_cons, ih]

theorem names_insert_of_mem {m : OrderedMap α} {name : String} (v : α) (h : name ∈ m.names) :
    (insert m name v).names = m.names := by
  induction m with
  | nil => simp [names] at h
  | cons x m ih =>
    obtain ⟨n, old⟩ := x
    simp only [insert]
    split
    · simp [names]
    · rename_i hn
      have hm : name ∈ names m := by
        rcases List.mem_cons.mp h with he | he
        · exact absurd he.symm hn
        · exact he
      simpa [names] using ih hm

theorem insert_of_not_mem {m : OrderedMap α} {name : String} (v : α) (h : name ∉ m.names) :
    insert m name v = m ++ [(name, v)] := by
  induction m with
  | nil => rfl
  | cons x m ih =>
    obtain ⟨n, old⟩ := x
    simp only [names, List.map_cons, List.mem_cons, not_or] at h
    simp only [insert, if_neg (Ne.symm h.1), List.cons_append]
    rw [ih h.2]

theorem Distinct.insert {m : OrderedMap α} (h : Distinct m) (name : String) (v : α) :
    Distinct (insert m name v) := by
  unfold Distinct
  by_cases hn : name ∈ m.names
  · rwa [names_insert_of_mem v hn]
  · rw [insert_of_not_mem v hn, names, List.map_append]
    refine List.nodup_append.mpr ⟨h, List.nodup_singleton _, fun a ha b hb heq => ?_⟩
    obtain rfl : b = name := List.mem_singleton.mp hb
    exact hn (heq ▸ ha)

theorem get?_insert_self {m : OrderedMap α} {name : String} {v : α} :
    get? (insert m name v) name = some v := by
  induction m with
  | nil => rw [insert, get?_cons, if_pos rfl]
  | cons x m ih =>
    obtain ⟨n, old⟩ := x
    simp only [insert]
    split
    · rename_i hn
      rw [get?_cons, if_pos hn.symm]
    · rename_i hn
      rw [get?_cons, if_neg (Ne.symm hn), ih]

theorem Distinct.insertAll {m : OrderedMap α} (h : Distinct m) (new : OrderedMap α) :
    Distinct (insertAll m new) := by
  unfold OrderedMap.insertAll
  induction new generalizing m with
  | nil => exact h
  | cons e new ih => exact ih (h.insert e.1 e.2)

/-- An entry that is put in goes over the one that was there. -/
theorem get?_insertAll {m new : OrderedMap α} (hnew : Distinct new) (name : String) :
    get? (insertAll m new) name = (get? new name).or (get? m name) := by
  unfold insertAll
  induction new generalizing m with
  | nil => rfl
  | cons e new ih =>
    rw [List.foldl_cons, ih hnew.tail, get?_cons]
    split
    · rename_i hname
      have hnone : get? new name = none :=
        get?_eq_none.mpr (hname ▸ (List.nodup_cons.mp hnew).1)
      rw [hnone, hname, get?_insert_self]
      rfl
    · rename_i hname
      rw [get?_insert_of_ne (Ne.symm hname)]

theorem insertAll_nil {m : OrderedMap α} (h : Distinct m) : insertAll [] m = m := by
  have aux : ∀ (new acc : OrderedMap α), Distinct (acc ++ new) →
      insertAll acc new = acc ++ new := by
    intro new
    induction new with
    | nil => intro acc _; simp [insertAll]
    | cons e new ih =>
      intro acc hd
      have hn : e.1 ∉ names acc := by
        intro hm
        have hd' : (names acc ++ e.1 :: names new).Nodup := by
          simpa [Distinct, names] using hd
        exact (List.nodup_append.mp hd').2.2 _ hm _ (List.mem_cons_self ..) rfl
      have hstep : insertAll acc (e :: new) = insertAll (acc ++ [e]) new := by
        simp [insertAll, insert_of_not_mem e.2 hn]
      rw [hstep, ih (acc ++ [e]) (by simpa using hd)]
      simp
  simpa using aux m [] (by simpa using h)

end SchemaBindings.OrderedMap
