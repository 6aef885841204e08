import SchemaBindings.Proofs.FreshNames

/-! # What a scope hands out over time

A scope is asked to reserve names, to hand out names and whether it knows a
name, in any order. Each answer is right for the names that were reserved or
handed out before it. The search for a name is a loop without a bound; it ends
because the names so far are finitely many and no two numbers make one name.
The number that it ends with is at most by one greater than the count of the
requests before, so a counter of 32 bits is enough for all scopes but those
with thousands of millions of names. -/

namespace SchemaBindings.Code.NameScope

/-- What a scope is asked. -/
inductive Request where
  | reserve (name : String)
  | claim (candidate : String)
  | contains (name : String)
deriving DecidableEq

/-- What a scope answers. -/
inductive Answer where
  | done
  | name (name : String)
  | known (yes : Bool)
deriving DecidableEq

/-- The answer to a request, and the scope after it. -/
def serve (s : NameScope) : Request → Answer × NameScope
  | .reserve name => (.done, s.reserve name)
  | .claim candidate => (.name (s.claim candidate).1, (s.claim candidate).2)
  | .contains name => (.known (s.contains name), s)

/-- The answers to requests in order, each with its request. -/
def serveAll (s : NameScope) : List Request → List (Request × Answer)
  | [] => []
  | request :: requests => (request, (s.serve request).1) :: serveAll (s.serve request).2 requests

/-! ## Right answers -/

/-- A name was reserved or handed out. -/
def Given (before : List (Request × Answer)) (name : String) : Prop :=
  (.reserve name, .done) ∈ before ∨ ∃ candidate, (.claim candidate, .name name) ∈ before

/-- The search for a name: while the name it looks at is taken, it goes on to the candidate with the
next number. It may go on for ever; what it finds, if it ends, is the last argument. -/
inductive Search (taken : String → Prop) (candidate : String) : String → Nat → String → Prop
  | free {name : String} {next : Nat} (h : ¬ taken name) : Search taken candidate name next name
  | round {name found : String} {next : Nat} (h : taken name)
      (more : Search taken candidate (candidate ++ toString next) (next + 1) found) :
      Search taken candidate name next found

/-- A name is the one to hand out for a candidate: the search ends with it, it is new, and it is the
candidate if this is new, and otherwise the candidate with the least number from two on that makes
it new. -/
structure Handed (before : List (Request × Answer)) (candidate name : String) : Prop where
  ends : Search (Given before) candidate candidate 2 name
  new : ¬ Given before name
  alone : ¬ Given before candidate → name = candidate
  numbered : Given before candidate → ∃ n, 2 ≤ n ∧ n ≤ before.length + 1 ∧
    name = candidate ++ toString n ∧
    ∀ m, 2 ≤ m → m < n → Given before (candidate ++ toString m)

/-- An answer is right after what was asked and answered before. -/
def Right (before : List (Request × Answer)) : Request → Answer → Prop
  | .reserve _, .done => True
  | .claim candidate, .name name => Handed before candidate name
  | .contains name, .known yes => yes = true ↔ Given before name
  | _, _ => False

/-! ## The search -/

variable {s : NameScope} {before : List (Request × Answer)} {candidate name found : String}

theorem contains_iff : s.contains name = true ↔ name ∈ s.taken := by
  unfold contains
  exact List.contains_iff_mem

/-- What the search finds is free, and it is the first name it looks at that is. -/
theorem Search.least {taken : String → Prop} {next : Nat}
    (h : Search taken candidate name next found) :
    ¬ taken found ∧ (¬ taken name → found = name) ∧
      (taken name → ∃ n, next ≤ n ∧ found = candidate ++ toString n ∧
        ∀ m, next ≤ m → m < n → taken (candidate ++ toString m)) := by
  induction h with
  | free hfree => exact ⟨hfree, fun _ => rfl, fun htaken => absurd htaken hfree⟩
  | @round name found next htaken more ih =>
    obtain ⟨hfound, halone, hnumbered⟩ := ih
    refine ⟨hfound, fun hfree => absurd htaken hfree, fun _ => ?_⟩
    by_cases hnext : taken (candidate ++ toString next)
    · obtain ⟨n, hn, heq, hall⟩ := hnumbered hnext
      refine ⟨n, by omega, heq, fun m hm hlt => ?_⟩
      rcases Nat.eq_or_lt_of_le hm with rfl | hm
      · exact hnext
      · exact hall m hm hlt
    · exact ⟨next, Nat.le_refl next, halone hnext, fun m hm hlt => absurd hlt (by omega)⟩

/-- The numbers that are tried are those of the search, which ends with them if it has not ended
before. -/
theorem search_firstFree {tries n : Nat}
    (hfree : NameScope.numbered candidate (s.firstFree candidate tries n) ∉ s.taken) :
    Search (· ∈ s.taken) candidate (candidate ++ toString n) (n + 1)
      (NameScope.numbered candidate (s.firstFree candidate tries n)) := by
  induction tries generalizing n with
  | zero => exact .free hfree
  | succ tries ih =>
    rw [firstFree] at hfree ⊢
    split
    · rename_i htaken
      rw [if_pos htaken] at hfree
      exact .round (contains_iff.mp htaken) (ih hfree)
    · rename_i hhere
      exact .free fun hmem => hhere (contains_iff.mpr hmem)

theorem search_freshName (s : NameScope) (candidate : String) :
    Search (· ∈ s.taken) candidate candidate 2 (s.freshName candidate) := by
  have hfree := freshName_not_mem s candidate
  unfold freshName at hfree ⊢
  split
  · rename_i htaken
    rw [if_pos htaken] at hfree
    exact .round (contains_iff.mp htaken) (search_firstFree hfree)
  · rename_i halone
    exact .free fun hmem => halone (contains_iff.mpr hmem)

theorem numbered_ne_self (candidate : String) (n : Nat) :
    NameScope.numbered candidate n ≠ candidate := by
  intro h
  have hchars := congrArg String.toList h
  unfold NameScope.numbered at hchars
  rw [String.toList_append, Nat.toString_eq_ofList_toDigits, String.toList_ofList] at hchars
  exact absurd (List.append_right_eq_self.mp hchars) Nat.toDigits_ne_nil

/-- The candidate and what the numbers below the least free one make are distinct taken names. -/
theorem least_le_length {n : Nat} (hcandidate : candidate ∈ s.taken)
    (hall : ∀ m, 2 ≤ m → m < n → candidate ++ toString m ∈ s.taken) : n ≤ s.taken.length + 1 := by
  have htried : ((List.range (n - 2)).map fun i => NameScope.numbered candidate (2 + i)).Nodup := by
    refine List.Nodup.map (fun i j hij => ?_) List.nodup_range
    have hsame := numbered_injective candidate hij
    omega
  have hnodup : (candidate ::
      (List.range (n - 2)).map fun i => NameScope.numbered candidate (2 + i)).Nodup := by
    refine List.nodup_cons.mpr ⟨fun hmem => ?_, htried⟩
    obtain ⟨i, -, hi⟩ := List.mem_map.mp hmem
    exact numbered_ne_self candidate (2 + i) hi
  have hsub : (candidate ::
      (List.range (n - 2)).map fun i => NameScope.numbered candidate (2 + i)) ⊆ s.taken := by
    refine List.cons_subset.mpr ⟨hcandidate, fun x hx => ?_⟩
    obtain ⟨i, hi, rfl⟩ := List.mem_map.mp hx
    have hlt := List.mem_range.mp hi
    exact hall (2 + i) (by omega) (by omega)
  have hlen := (hnodup.subperm hsub).length_le
  rw [List.length_cons, List.length_map, List.length_range] at hlen
  omega

/-! ## One request, and all -/

/-- A scope knows the names that were given, and no more names than there were requests. -/
structure Knows (s : NameScope) (before : List (Request × Answer)) : Prop where
  mem_taken (name : String) : name ∈ s.taken ↔ Given before name
  length_le : s.taken.length ≤ before.length

theorem Knows.nothing : empty.Knows [] where
  mem_taken name := by simp [empty, Given]
  length_le := Nat.le_refl 0

theorem given_concat {last : Request × Answer} : Given (before ++ [last]) name ↔
    Given before name ∨ last = (.reserve name, .done) ∨
      ∃ candidate, last = (.claim candidate, .name name) := by
  unfold Given
  simp only [List.mem_append, List.mem_singleton, exists_or, eq_comm (b := last)]
  tauto

theorem Knows.handed (h : s.Knows before) (candidate : String) :
    Handed before candidate (s.freshName candidate) := by
  have hgiven : (· ∈ s.taken) = Given before := funext fun name => propext (h.mem_taken name)
  have hends := search_freshName s candidate
  rw [hgiven] at hends
  obtain ⟨hnew, halone, hnumbered⟩ := hends.least
  refine ⟨hends, hnew, halone, fun hcandidate => ?_⟩
  obtain ⟨n, hn, heq, hall⟩ := hnumbered hcandidate
  have hbound := least_le_length ((h.mem_taken candidate).mpr hcandidate)
    fun m hm hlt => (h.mem_taken _).mpr (hall m hm hlt)
  exact ⟨n, hn, Nat.le_trans hbound (Nat.succ_le_succ h.length_le), heq, hall⟩

/-- One request is answered right, and afterwards the scope knows what is given then. -/
theorem Knows.serve (h : s.Knows before) (request : Request) :
    Right before request (s.serve request).1 ∧
      (s.serve request).2.Knows (before ++ [(request, (s.serve request).1)]) := by
  have hlength := h.length_le
  cases request with
  | reserve reserved =>
    refine ⟨trivial, fun name => ?_, by simpa [NameScope.serve, NameScope.reserve] using hlength⟩
    rw [given_concat, ← h.mem_taken name]
    simp [NameScope.serve, NameScope.reserve, or_comm, eq_comm]
  | claim candidate =>
    refine ⟨h.handed candidate, fun name => ?_,
      by simpa [NameScope.serve, NameScope.claim, NameScope.reserve] using hlength⟩
    rw [given_concat, ← h.mem_taken name]
    simp [NameScope.serve, NameScope.claim, NameScope.reserve, or_comm, eq_comm]
  | contains asked =>
    refine ⟨contains_iff.trans (h.mem_taken asked), fun name => ?_,
      Nat.le_trans hlength (by simp)⟩
    rw [given_concat, ← h.mem_taken name]
    simp [NameScope.serve]

theorem Knows.serveAll (h : s.Knows before) {requests : List Request}
    {earlier later : List (Request × Answer)} {request : Request} {answer : Answer}
    (hrun : s.serveAll requests = earlier ++ (request, answer) :: later) :
    Right (before ++ earlier) request answer := by
  induction requests generalizing s before earlier with
  | nil => simp [NameScope.serveAll] at hrun
  | cons first requests ih =>
    obtain ⟨hright, hknows⟩ := h.serve first
    rw [NameScope.serveAll] at hrun
    cases earlier with
    | nil =>
      obtain ⟨heq, -⟩ := List.cons.inj hrun
      cases heq
      rwa [List.append_nil]
    | cons e earlier =>
      obtain ⟨rfl, hrest⟩ := List.cons.inj hrun
      have hlater := ih hknows hrest
      rwa [List.append_assoc] at hlater

/-- Whatever a new scope is asked, it answers every request, in order, and each answer is right for
what was asked before. -/
theorem scope_answers (requests : List Request) :
    (empty.serveAll requests).map Prod.fst = requests ∧
      ∀ before request answer after,
        empty.serveAll requests = before ++ (request, answer) :: after →
        Right before request answer := by
  refine ⟨?_, fun before request answer after hrun => Knows.nothing.serveAll hrun⟩
  generalize empty = s
  induction requests generalizing s with
  | nil => rfl
  | cons request requests ih => rw [NameScope.serveAll, List.map_cons, ih]

/-- A numbered form of a name may be taken before the name is. -/
theorem scope_answers_numbered :
    Right [(.reserve "Person", .done), (.claim "Person2", .name "Person2")] (.claim "Person")
      (.name "Person3") :=
  (scope_answers [.reserve "Person", .claim "Person2", .claim "Person"]).2 _ _ _ [] rfl

end SchemaBindings.Code.NameScope
