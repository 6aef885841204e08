import Mathlib.Data.List.Forall2

/-! # Computations that went well

What it takes for a sequence of steps, or a step for each item of a list, to
come to a result. -/

namespace SchemaBindings

variable {α β ε : Type}

theorem bind_eq_ok {act : Except ε α} {next : α → Except ε β} {b : β} :
    (act >>= next) = .ok b ↔ ∃ a, act = .ok a ∧ next a = .ok b := by
  cases act with
  | error e =>
    constructor
    · intro h
      cases h
    · rintro ⟨_, h, _⟩
      cases h
  | ok a =>
    constructor
    · intro h
      exact ⟨a, rfl, h⟩
    · rintro ⟨_, h, hb⟩
      cases h
      exact hb

theorem map_eq_map_iff {write : α → β} (hinj : ∀ a b, write a = write b → a = b)
    {act act' : Except ε α} : act.map write = act'.map write ↔ act = act' := by
  refine ⟨fun h => ?_, fun h => h ▸ rfl⟩
  cases act with
  | error e =>
    cases act' with
    | error e' => exact congrArg Except.error (Except.error.inj h)
    | ok a' => cases h
  | ok a =>
    cases act' with
    | error e' => cases h
    | ok a' => exact congrArg Except.ok (hinj a a' (Except.ok.inj h))

theorem toOption_eq_some {act : Except ε α} {a : α} : act.toOption = some a ↔ act = .ok a := by
  cases act with
  | error e => exact ⟨fun h => (by cases h), fun h => (by cases h)⟩
  | ok b => exact ⟨fun h => (by cases h; rfl), fun h => (by cases h; rfl)⟩

theorem mapM_eq_ok {step : α → Except ε β} {xs : List α} {ys : List β}
    (h : xs.mapM step = .ok ys) : List.Forall₂ (fun x y => step x = .ok y) xs ys := by
  induction xs generalizing ys with
  | nil =>
    cases h
    exact .nil
  | cons x xs ih =>
    rw [List.mapM_cons] at h
    obtain ⟨y, hy, h⟩ := bind_eq_ok.mp h
    obtain ⟨zs, hzs, h⟩ := bind_eq_ok.mp h
    cases h
    exact .cons hy (ih hzs)

/-- Each result comes from one of the items. -/
theorem exists_of_mem_mapM {step : α → Except ε β} {xs : List α} {ys : List β}
    (h : xs.mapM step = .ok ys) {y : β} (hy : y ∈ ys) : ∃ x ∈ xs, step x = .ok y := by
  induction xs generalizing ys with
  | nil =>
    cases h
    cases hy
  | cons x xs ih =>
    rw [List.mapM_cons] at h
    obtain ⟨z, hz, h⟩ := bind_eq_ok.mp h
    obtain ⟨zs, hzs, h⟩ := bind_eq_ok.mp h
    cases h
    rcases List.mem_cons.mp hy with rfl | hy
    · exact ⟨x, List.mem_cons_self .., hz⟩
    · obtain ⟨x', hx', hstep⟩ := ih hzs hy
      exact ⟨x', List.mem_cons_of_mem _ hx', hstep⟩

theorem mem_of_mapM {step : α → Except ε β} {xs : List α} {ys : List β} (h : xs.mapM step = .ok ys)
    {x : α} (hx : x ∈ xs) {y : β} (hy : step x = .ok y) : y ∈ ys := by
  obtain ⟨z, hz, hxz⟩ : ∃ z ∈ ys, step x = .ok z := by
    have hall := mapM_eq_ok h
    obtain ⟨i, hi, rfl⟩ := List.getElem_of_mem hx
    have hi' : i < ys.length := hall.length_eq ▸ hi
    exact ⟨ys[i], List.getElem_mem hi', hall.get hi hi'⟩
  cases hy.symm.trans hxz
  exact hz

/-- Steps that come to the same results, item by item, come to the same together. -/
theorem mapM_eq_ok_congr {step step' : α → Except ε β} {xs : List α} {ys : List β}
    (h : xs.mapM step = .ok ys) (hstep : ∀ x ∈ xs, ∀ y, step x = .ok y → step' x = .ok y) :
    xs.mapM step' = .ok ys := by
  induction xs generalizing ys with
  | nil => exact h
  | cons x xs ih =>
    rw [List.mapM_cons] at h ⊢
    obtain ⟨y, hy, h⟩ := bind_eq_ok.mp h
    obtain ⟨zs, hzs, h⟩ := bind_eq_ok.mp h
    refine bind_eq_ok.mpr ⟨y, hstep x (List.mem_cons_self ..) y hy, bind_eq_ok.mpr ⟨zs, ?_, h⟩⟩
    exact ih hzs fun x hx => hstep x (List.mem_cons_of_mem _ hx)

end SchemaBindings
