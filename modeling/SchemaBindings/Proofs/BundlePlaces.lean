import SchemaBindings.Bundle

/-! # Where the nodes of a bundle stand

A node stands where the nearest of its ancestors that has a place tells. A
place is given only to a node that stands nowhere yet, so what stands somewhere
stays there: the places that are given later lie below no node that has one. -/

namespace SchemaBindings.Bundle

theorem same_iff {p q : Path} : p.same q = true ↔ p.steps = q.steps := decide_eq_true_iff

theorem placeOf?_same {sites : List Site} {doc doc' : Path} {p : Pointer}
    (h : doc.steps = doc'.steps) : placeOf? sites doc p = placeOf? sites doc' p := by
  unfold placeOf? Path.same
  rw [h]

theorem placeOf?_cons (s : Site) (sites : List Site) (doc : Path) (p : Pointer) :
    placeOf? (s :: sites) doc p =
      if s.document.steps = doc.steps ∧ s.pointer = p then some s.location
      else placeOf? sites doc p := by
  unfold placeOf?
  rw [List.find?_cons]
  by_cases h : s.document.steps = doc.steps ∧ s.pointer = p
  · have hb : (s.document.same doc && decide (s.pointer = p)) = true := by
      simpa [same_iff] using h
    rw [hb, if_pos h]
    rfl
  · have hb : (s.document.same doc && decide (s.pointer = p)) = false := by
      simpa [← Bool.not_eq_true, same_iff] using h
    rw [hb, if_neg h]

theorem mem_of_placeOf? {sites : List Site} {doc : Path} {p l : Pointer}
    (h : placeOf? sites doc p = some l) :
    ∃ s ∈ sites, s.document.steps = doc.steps ∧ s.pointer = p ∧ s.location = l := by
  unfold placeOf? at h
  obtain ⟨s, hs, rfl⟩ := Option.map_eq_some_iff.mp h
  have hfound := List.find?_some hs
  simp only [Bool.and_eq_true, same_iff, decide_eq_true_eq] at hfound
  exact ⟨s, List.mem_of_find?_eq_some hs, hfound.1, hfound.2, rfl⟩

theorem siteFrom?_same {sites : List Site} {doc doc' : Path} (h : doc.steps = doc'.steps)
    (below above : List String) :
    siteFrom? sites doc below above = siteFrom? sites doc' below above := by
  induction above generalizing below with
  | nil => rw [siteFrom?, siteFrom?, placeOf?_same h]
  | cons token above ih => rw [siteFrom?, siteFrom?, placeOf?_same h, ih]

/-- The tokens that are taken off do not matter for whether a node stands somewhere. -/
theorem siteFrom?_isSome (sites : List Site) (doc : Path) (below below' above : List String) :
    (siteFrom? sites doc below above).isSome = (siteFrom? sites doc below' above).isSome := by
  induction above generalizing below below' with
  | nil => rw [siteFrom?, siteFrom?, Option.isSome_map, Option.isSome_map]
  | cons token above ih =>
    rw [siteFrom?, siteFrom?]
    split
    · rfl
    · exact ih ..

/-- A node stands where an ancestor's place tells. -/
theorem site?_eq_some {sites : List Site} {doc : Path} {p l : Pointer}
    (h : site? sites doc p = some l) : ∃ above below at', p.tokens = above ++ below ∧
      placeOf? sites doc ⟨above⟩ = some at' ∧ l = at'.append below := by
  have hfrom (below above : List String) (h : siteFrom? sites doc below above = some l) :
      ∃ near more at', above.reverse = near ++ more ∧ placeOf? sites doc ⟨near⟩ = some at' ∧
        l = at'.append (more ++ below) := by
    induction above generalizing below with
    | nil =>
      obtain ⟨at', hplace, rfl⟩ := Option.map_eq_some_iff.mp h
      exact ⟨[], [], at', rfl, hplace, rfl⟩
    | cons token above ih =>
      rw [siteFrom?] at h
      split at h
      · rename_i at' hplace
        exact ⟨(token :: above).reverse, [], at', by simp, hplace, (Option.some.inj h).symm⟩
      · obtain ⟨near, more, at', hsplit, hplace, rfl⟩ := ih (token :: below) h
        refine ⟨near, more ++ [token], at', ?_, hplace, by simp⟩
        rw [List.reverse_cons, hsplit, List.append_assoc]
  obtain ⟨near, more, at', hsplit, hplace, hl⟩ := hfrom [] p.tokens.reverse h
  rw [List.reverse_reverse] at hsplit
  exact ⟨near, more, at', hsplit, hplace, by rw [hl, List.append_nil]⟩

theorem site?_of_placeOf? {sites : List Site} {doc : Path} {p l : Pointer}
    (h : placeOf? sites doc p = some l) : site? sites doc p = some l := by
  obtain ⟨tokens⟩ := p
  unfold site?
  cases hr : tokens.reverse with
  | nil =>
    rw [List.reverse_eq_nil_iff.mp hr] at h
    rw [siteFrom?, show placeOf? sites doc .root = some l from h]
    simp [Pointer.append]
  | cons token above =>
    have hback : tokens = (token :: above).reverse := by rw [← hr, List.reverse_reverse]
    rw [hback] at h
    rw [siteFrom?, h]
    simp [Pointer.append]

/-- All nodes of a document that has a place stand somewhere. -/
theorem site?_isSome_of_root {sites : List Site} {doc : Path}
    (h : (placeOf? sites doc .root).isSome = true) (p : Pointer) :
    (site? sites doc p).isSome = true := by
  have hfrom (below above : List String) : (siteFrom? sites doc below above).isSome = true := by
    induction above generalizing below with
    | nil =>
      rw [siteFrom?, Option.isSome_map]
      exact h
    | cons token above ih =>
      rw [siteFrom?]
      split
      · rfl
      · exact ih _
  exact hfrom [] _

/-- While only whole documents have places, all nodes of a document stand below its place. -/
theorem site?_eq_of_atRoot {sites : List Site} (hroot : ∀ x ∈ sites, x.pointer = .root) {doc : Path}
    {l : Pointer} (h : placeOf? sites doc .root = some l) (p : Pointer) :
    site? sites doc p = some (l.append p.tokens) := by
  have hfrom (below above : List String) :
      siteFrom? sites doc below above = some (l.append (above.reverse ++ below)) := by
    induction above generalizing below with
    | nil =>
      rw [siteFrom?, h]
      rfl
    | cons token above ih =>
      have hnone : placeOf? sites doc ⟨(token :: above).reverse⟩ = none := by
        rw [Option.eq_none_iff_forall_ne_some]
        intro l' hl
        obtain ⟨x, hx, -, hp, -⟩ := mem_of_placeOf? hl
        rw [hroot x hx, Pointer.root, Pointer.mk.injEq] at hp
        exact absurd hp.symm (by simp)
      rw [siteFrom?, hnone]
      dsimp only
      rw [ih, List.reverse_cons, List.append_assoc]
      rfl
  rw [site?, hfrom, List.reverse_reverse, List.append_nil]

/-- What stands somewhere by some places stands there by others. -/
def Grown (old new : List Site) : Prop :=
  ∀ doc p l, site? old doc p = some l → site? new doc p = some l

namespace Grown

theorem refl (sites : List Site) : Grown sites sites := fun _ _ _ h => h

theorem trans {a b c : List Site} (h : Grown a b) (h' : Grown b c) : Grown a c :=
  fun doc p l hl => h' doc p l (h doc p l hl)

/-- A place may be given to a node that stands nowhere. -/
theorem cons {sites : List Site} {s : Site} (h : site? sites s.document s.pointer = none) :
    Grown sites (s :: sites) := by
  intro doc p l hl
  -- The new place is found on no way up that ends at a place: it would lie below that place.
  have hfrom (below above : List String) (hl : siteFrom? sites doc below above = some l) :
      siteFrom? (s :: sites) doc below above = some l := by
    induction above generalizing below with
    | nil =>
      have hnew : ¬ (s.document.steps = doc.steps ∧ s.pointer = .root) := by
        rintro ⟨hd, hp⟩
        have hnone : siteFrom? sites doc [] [] = none := by
          rw [← siteFrom?_same hd]
          rwa [site?, hp] at h
        have hsome := siteFrom?_isSome sites doc below [] []
        rw [hl, hnone] at hsome
        cases hsome
      rw [siteFrom?, placeOf?_cons, if_neg hnew]
      exact hl
    | cons token above ih =>
      have hnew : ¬ (s.document.steps = doc.steps ∧ s.pointer = ⟨(token :: above).reverse⟩) := by
        rintro ⟨hd, hp⟩
        have hnone : siteFrom? sites doc [] (token :: above) = none := by
          rw [← siteFrom?_same hd]
          rwa [site?, hp, List.reverse_reverse] at h
        have hsome := siteFrom?_isSome sites doc below [] (token :: above)
        rw [hl, hnone] at hsome
        cases hsome
      rw [siteFrom?] at hl
      rw [siteFrom?, placeOf?_cons, if_neg hnew]
      split at hl
      · exact hl
      · exact ih _ hl
  exact hfrom [] _ hl

end Grown

end SchemaBindings.Bundle
