import SchemaBindings.Proofs.SecondPlans

/-! # Answers with and without kept documents

Documents that were read are kept, and later requests find them. Without that, a
request would look among the documents that were put in and read the file
otherwise. What is kept is, under every path, what was put in last or else what
was read first, and that is what the file holds, with one exception: a path is
looked up by its steps, so a file that was read is also found under a spelling
that asks for a directory, and no file is read under that. -/

namespace SchemaBindings.DocumentCache

/-- What is asked for: to put a document in, the path of a file seen from a document, the document
at a path, or the node that a reference leads to. -/
inductive Request where
  | seed (path : Path) (document : Json)
  | locate (reference : String) (referrer : Path) (file : String)
  | fetch (reference : String) (key : Path)
  | resolve (reference : String) (referrer : Path) (target : RefTarget)

/-- What is answered: the path of a document, a document, or a node with its document's path. -/
inductive Answer where
  | path (key : Path)
  | document (value : Json)
  | node (key : Path) (value : Json)
deriving DecidableEq

/-- Answers a request from what is known, and tells what is known afterwards. -/
def answer (t : FileTree) (c : DocumentCache) : Request → Except ResolveError Answer × DocumentCache
  | .seed p v => (.ok (.path (c.seed t p v).1), (c.seed t p v).2)
  | .locate reference referrer file => ((locate t c reference referrer file).map .path, c)
  | .fetch reference key => ((fetch t reference key).run c).map (Except.map .document) id
  | .resolve reference referrer target =>
    ((resolve t reference referrer target).run c).map (Except.map fun n => .node n.1 n.2) id

/-- Answers requests in order. -/
def answers (t : FileTree) (c : DocumentCache) : List Request → List (Except ResolveError Answer)
  | [] => []
  | r :: rest => (answer t c r).1 :: answers t (answer t c r).2 rest

/-! ## The answers without kept documents -/

/-- The document that a request puts in under the steps of a path. -/
def Request.seeds? (t : FileTree) (p : Path) : Request → Option Json
  | .seed q v => if p.steps = (documentKey t q).steps then some v else none
  | _ => none

/-- The document that requests put in under the steps of a path; the last one counts. -/
def seeded? (t : FileTree) (past : List Request) (p : Path) : Option Json :=
  past.reverse.findSome? (·.seeds? t p)

namespace Direct

variable (t : FileTree) (seeds : Path → Option Json)

/-- Finds a file on disk or among the documents that were put in. -/
def locate (reference : String) (referrer : Path) (file : String) : Except ResolveError Path :=
  let joined := referrer.directory.join file
  match t.canonical? joined, seeds joined with
  | some p, _ => .ok p
  | none, some _ => .ok joined
  | none, none => .error (.missingFile reference joined)

/-- A document that was put in, or what the file holds. -/
def fetch (reference : String) (key : Path) : Except ResolveError Json :=
  match seeds key with
  | some v => .ok v
  | none => (readDocument t key).mapError (.unreadableFile reference key)

/-- The node of a document that a pointer leads to. -/
def nodeAt (reference : String) (pointer : Pointer) (key : Path) (document : Json) :
    Except ResolveError (Path × Json) :=
  match document.at? pointer with
  | some node => .ok (key, node)
  | none => .error (.pointerNotFound reference pointer.text)

/-- The document and the node that a reference in a document leads to. -/
def resolve (reference : String) (referrer : Path) (target : RefTarget) :
    Except ResolveError (Path × Json) := do
  let key ← match target.file? with
    | none => pure referrer
    | some file => locate t seeds reference referrer file
  nodeAt reference target.pointer key (← fetch t seeds reference key)

/-- Answers a request from the documents that were put in and the disk. -/
def answer : Request → Except ResolveError Answer
  | .seed p _ => .ok (.path (documentKey t p))
  | .locate reference referrer file => (locate t seeds reference referrer file).map .path
  | .fetch reference key => (fetch t seeds reference key).map .document
  | .resolve reference referrer target =>
    (resolve t seeds reference referrer target).map fun n => .node n.1 n.2

end Direct

/-! ## What is kept -/

/-- The path whose document a request reads if it is not known. -/
def Request.opens? (t : FileTree) : Request → Option Path
  | .fetch _ key => some key
  | .resolve _ referrer target =>
    match target.file? with
    | none => some referrer
    | some file => t.canonical? (referrer.directory.join file)
  | _ => none

/-- The document that a request reads under the steps of a path. -/
def Request.reads? (t : FileTree) (p : Path) (r : Request) : Option Json :=
  (r.opens? t).bind fun q => if p.steps = q.steps then (readDocument t q).toOption else none

/-- The document that requests read first under the steps of a path. -/
def opened? (t : FileTree) (past : List Request) (p : Path) : Option Json :=
  past.findSome? (·.reads? t p)

/-- What is known is what was put in last or else read first. -/
def Holds (t : FileTree) (past : List Request) (c : DocumentCache) : Prop :=
  ∀ p, c.find? p = (seeded? t past p).or (opened? t past p)

/-- The path by which a request looks a document up. -/
def Request.sought? : Request → Option Path
  | .seed _ _ => none
  | .locate _ referrer file => some (referrer.directory.join file)
  | .fetch _ key => some key
  | .resolve _ referrer target =>
    match target.file? with
    | none => some referrer
    | some file => some (referrer.directory.join file)

/-- A path asks for a directory, no document was put in under its steps, and a file was read under
another spelling of them. -/
structure Stray (t : FileTree) (past : List Request) (p : Path) : Prop where
  idle : p.endsIdle = true
  unseeded : seeded? t past p = none
  opened : ∃ r ∈ past, ∃ q v, r.opens? t = some q ∧ p.steps = q.steps ∧ readDocument t q = .ok v

variable {t : FileTree} {c : DocumentCache} {past : List Request} {p key : Path} {v : Json}
  {reference : String}

theorem seeded?_append (t : FileTree) (past : List Request) (r : Request) (p : Path) :
    seeded? t (past ++ [r]) p = (r.seeds? t p).or (seeded? t past p) := by
  unfold seeded?
  rw [List.reverse_append, List.reverse_singleton, List.singleton_append, List.findSome?_cons]
  cases r.seeds? t p <;> rfl

theorem opened?_append (t : FileTree) (past : List Request) (r : Request) (p : Path) :
    opened? t (past ++ [r]) p = (opened? t past p).or (r.reads? t p) := by
  unfold opened?
  rw [List.findSome?_append, List.findSome?_singleton]

theorem Request.reads?_eq_some {r : Request} : r.reads? t p = some v ↔
    ∃ q, r.opens? t = some q ∧ p.steps = q.steps ∧ readDocument t q = .ok v := by
  unfold reads?
  rw [Option.bind_eq_some_iff]
  refine exists_congr fun q => and_congr_right fun _ => ?_
  rw [← toOption_eq_some]
  split <;> simp [*]

theorem opened?_isSome_iff : (opened? t past p).isSome = true ↔
    ∃ r ∈ past, ∃ q v, r.opens? t = some q ∧ p.steps = q.steps ∧ readDocument t q = .ok v := by
  unfold opened?
  rw [List.findSome?_isSome_iff]
  refine exists_congr fun r => and_congr_right fun _ => ?_
  simp only [Option.isSome_iff_exists, Request.reads?_eq_some]
  exact exists_comm

/-- What was read under the steps of a path is what is read under the path, unless that asks for a
directory. -/
theorem readDocument_of_opened? (h : opened? t past p = some v) (hidle : p.endsIdle = false) :
    readDocument t p = .ok v := by
  obtain ⟨r, -, hr⟩ := List.exists_of_findSome?_eq_some h
  obtain ⟨q, -, hsteps, hread⟩ := Request.reads?_eq_some.mp hr
  exact (readDocument_of_steps hsteps hread).1 hidle

theorem Stray.canonical? (h : Stray t past p) : t.canonical? p = none := by
  obtain ⟨_, -, q, v, -, hsteps, hread⟩ := h.opened
  exact (readDocument_of_steps hsteps hread).2 h.idle

/-- Nothing is read under a stray path. -/
theorem Stray.unreadable (h : Stray t past p) : ∃ cause, readDocument t p = .error cause := by
  cases hread : readDocument t p with
  | error cause => exact ⟨cause, rfl⟩
  | ok v =>
    have hthere := canonical?_of_readDocument hread
    rw [h.canonical?] at hthere
    cases hthere

namespace Holds

/-- Under a stray path a document is found. -/
theorem find?_stray (h : Holds t past c) (hs : Stray t past p) : ∃ v, c.find? p = some v := by
  obtain ⟨v, hv⟩ := Option.isSome_iff_exists.mp (opened?_isSome_iff.mpr hs.opened)
  exact ⟨v, by rw [h, hs.unseeded, Option.none_or, hv]⟩

/-- Under any other path what is found was put in, or is what the file holds. -/
theorem find?_plain (h : Holds t past c) (hs : ¬ Stray t past p) :
    c.find? p = seeded? t past p ∨
      seeded? t past p = none ∧ ∃ v, c.find? p = some v ∧ readDocument t p = .ok v := by
  have hfound := h p
  cases hseeded : seeded? t past p with
  | some v => exact .inl (hfound.trans (by rw [hseeded]; rfl))
  | none =>
    rw [hseeded, Option.none_or] at hfound
    cases hopened : opened? t past p with
    | none => exact .inl (hfound.trans hopened)
    | some v =>
      refine .inr ⟨rfl, v, hfound.trans hopened, readDocument_of_opened? hopened ?_⟩
      by_contra hidle
      exact hs ⟨Bool.eq_true_of_not_eq_false hidle, hseeded,
        opened?_isSome_iff.mp (Option.isSome_iff_exists.mpr ⟨v, hopened⟩)⟩

end Holds

/-! ## One request -/

theorem get_run {α : Type} (next : DocumentCache → CacheM α) (c : DocumentCache) :
    ((get : CacheM DocumentCache) >>= next).run c = (next c).run c := rfl

theorem fetch_run (t : FileTree) (reference : String) (key : Path) (c : DocumentCache) :
    (fetch t reference key).run c = match c.find? key, readDocument t key with
      | some v, _ => (.ok v, c)
      | none, .ok v => (.ok v, c.put key v)
      | none, .error cause => (.error (.unreadableFile reference key cause), c) := by
  rw [fetch, get_run]
  cases c.find? key with
  | some v => rfl
  | none =>
    cases readDocument t key with
    | error cause => rfl
    | ok v => rfl

/-- After a document was fetched, what was known is known, and what the file held if nothing was. -/
theorem find?_fetch (t : FileTree) (reference : String) (key : Path) (c : DocumentCache)
    (p : Path) : ((fetch t reference key).run c).2.find? p =
      (c.find? p).or (if p.steps = key.steps then (readDocument t key).toOption else none) := by
  rw [fetch_run]
  cases hfound : c.find? key with
  | some v =>
    dsimp only
    split
    · rename_i hsteps
      rw [find?_congr c hsteps, hfound, Option.some_or]
    · rw [Option.or_none]
  | none =>
    cases hread : readDocument t key with
    | error cause =>
      dsimp only
      split
      · rw [Except.toOption, Option.or_none]
      · rw [Option.or_none]
    | ok v =>
      dsimp only
      rw [find?_put]
      split
      · rename_i hsteps
        rw [find?_congr c hsteps, hfound, Option.none_or, Except.toOption]
      · rw [Option.or_none]

namespace Holds

theorem fetch_plain (h : Holds t past c) (hs : ¬ Stray t past key) :
    ((fetch t reference key).run c).1 = Direct.fetch t (seeded? t past) reference key := by
  rw [fetch_run]
  unfold Direct.fetch
  rcases h.find?_plain hs with hseeded | ⟨hseeded, v, hfound, hread⟩
  · rw [hseeded]
    cases seeded? t past key with
    | some v => rfl
    | none =>
      cases readDocument t key with
      | ok v => rfl
      | error cause => rfl
  · rw [hseeded, hfound, hread]
    rfl

/-- A stray document is found where no file can be read. -/
theorem fetch_stray (h : Holds t past c) (reference : String) (hs : Stray t past key) :
    (∃ v, (fetch t reference key).run c = (.ok v, c)) ∧
      ∃ cause, Direct.fetch t (seeded? t past) reference key =
        .error (.unreadableFile reference key cause) := by
  obtain ⟨v, hfound⟩ := h.find?_stray hs
  obtain ⟨cause, hread⟩ := hs.unreadable
  refine ⟨⟨v, by rw [fetch_run, hfound]⟩, cause, ?_⟩
  rw [Direct.fetch, hs.unseeded, hread]
  rfl

theorem fetch_iff (h : Holds t past c) : ((fetch t reference key).run c).1 =
    Direct.fetch t (seeded? t past) reference key ↔ ¬ Stray t past key := by
  refine ⟨fun heq hs => ?_, h.fetch_plain⟩
  obtain ⟨⟨v, hv⟩, cause, hdirect⟩ := h.fetch_stray reference hs
  rw [hv, hdirect] at heq
  cases heq

variable {referrer : Path} {file : String}

theorem locate_plain (h : Holds t past c) (hs : ¬ Stray t past (referrer.directory.join file)) :
    locate t c reference referrer file =
      Direct.locate t (seeded? t past) reference referrer file := by
  unfold locate Direct.locate
  dsimp only
  cases hcanonical : t.canonical? (referrer.directory.join file) with
  | some p => rfl
  | none =>
    rcases h.find?_plain hs with hseeded | ⟨-, v, -, hread⟩
    · rw [hseeded]
      cases seeded? t past (referrer.directory.join file) with
      | some v => rfl
      | none => rfl
    · have hthere := canonical?_of_readDocument hread
      rw [hcanonical] at hthere
      cases hthere

/-- A stray path is located where no file is. -/
theorem locate_stray (h : Holds t past c) (reference : String)
    (hs : Stray t past (referrer.directory.join file)) :
    locate t c reference referrer file = .ok (referrer.directory.join file) ∧
      Direct.locate t (seeded? t past) reference referrer file =
        .error (.missingFile reference (referrer.directory.join file)) := by
  obtain ⟨v, hfound⟩ := h.find?_stray hs
  have hcanonical := hs.canonical?
  have hunseeded := hs.unseeded
  unfold locate Direct.locate
  dsimp only
  rw [hcanonical, hunseeded, hfound]
  exact ⟨rfl, rfl⟩

theorem locate_iff (h : Holds t past c) : locate t c reference referrer file =
    Direct.locate t (seeded? t past) reference referrer file ↔
      ¬ Stray t past (referrer.directory.join file) := by
  refine ⟨fun heq hs => ?_, h.locate_plain⟩
  obtain ⟨hlocate, hdirect⟩ := h.locate_stray reference hs
  rw [hlocate, hdirect] at heq
  cases heq

end Holds

open Direct (nodeAt)

variable {referrer : Path} {target : RefTarget} {file : String} {pointer : Pointer}

theorem fetchNode_run (t : FileTree) (reference : String) (pointer : Pointer) (key : Path)
    (c : DocumentCache) : (fetchNode t reference pointer key).run c =
      (((fetch t reference key).run c).1.bind (nodeAt reference pointer key),
        ((fetch t reference key).run c).2) := by
  unfold nodeAt
  rcases runs_or_stops (fetch t reference key) c with ⟨v, u, hv⟩ | ⟨e, u, he⟩
  · have hrun : (fetchNode t reference pointer key).run c = _ := hv.run_bind
    rw [hrun, show (fetch t reference key).run c = (.ok v, u) from hv]
    dsimp only [Except.bind]
    cases v.at? pointer with
    | some node => rfl
    | none => rfl
  · have hrun : (fetchNode t reference pointer key).run c = _ := he.first
    rw [hrun, show (fetch t reference key).run c = (.error e, u) from he]
    rfl

theorem resolve_run_here (hfile : target.file? = none) :
    (resolve t reference referrer target).run c =
      (fetchNode t reference target.pointer referrer).run c := by
  unfold resolve
  rw [hfile]
  rfl

theorem resolve_run_located (hfile : target.file? = some file) :
    (resolve t reference referrer target).run c =
      match locate t c reference referrer file with
      | .ok key => (fetchNode t reference target.pointer key).run c
      | .error e => (.error e, c) := by
  unfold resolve
  rw [hfile]
  dsimp only
  rw [get_run]
  cases locate t c reference referrer file with
  | ok key => rfl
  | error e => rfl

theorem Direct.resolve_here {seeds : Path → Option Json} (hfile : target.file? = none) :
    Direct.resolve t seeds reference referrer target =
      (Direct.fetch t seeds reference referrer).bind
        (nodeAt reference target.pointer referrer) := by
  unfold Direct.resolve
  rw [hfile]
  rfl

theorem Direct.resolve_located {seeds : Path → Option Json} (hfile : target.file? = some file) :
    Direct.resolve t seeds reference referrer target =
      (Direct.locate t seeds reference referrer file).bind fun key =>
        (Direct.fetch t seeds reference key).bind (nodeAt reference target.pointer key) := by
  unfold Direct.resolve
  rw [hfile]
  rfl

theorem Direct.locate_eq_ok (ht : t.Real) {seeds : Path → Option Json}
    (h : Direct.locate t seeds reference referrer file = .ok key) :
    key = referrer.directory.join file ∨ t.canonical? key = some key := by
  unfold Direct.locate at h
  dsimp only at h
  cases hcanonical : t.canonical? (referrer.directory.join file) with
  | some p =>
    rw [hcanonical] at h
    cases h
    exact .inr (FileTree.canonical?_canonical ht hcanonical)
  | none =>
    rw [hcanonical] at h
    cases hseeds : seeds (referrer.directory.join file) with
    | some v =>
      rw [hseeds] at h
      cases h
      exact .inl rfl
    | none =>
      rw [hseeds] at h
      cases h

theorem find?_fetchNode (t : FileTree) (reference : String) (pointer : Pointer) (key : Path)
    (c : DocumentCache) (p : Path) : ((fetchNode t reference pointer key).run c).2.find? p =
      (c.find? p).or (if p.steps = key.steps then (readDocument t key).toOption else none) := by
  rw [fetchNode_run]
  exact find?_fetch t reference key c p

/-- After a reference was resolved, what was known is known, and what the file that was opened held
if nothing was. -/
theorem find?_resolve (t : FileTree) (reference : String) (referrer : Path) (target : RefTarget)
    (c : DocumentCache) (p : Path) : ((resolve t reference referrer target).run c).2.find? p =
      (c.find? p).or ((Request.resolve reference referrer target).reads? t p) := by
  unfold Request.reads? Request.opens?
  cases hfile : target.file? with
  | none =>
    rw [resolve_run_here hfile]
    dsimp only
    rw [hfile]
    exact find?_fetchNode t reference target.pointer referrer c p
  | some file =>
    rw [resolve_run_located hfile]
    dsimp only
    rw [hfile]
    dsimp only
    unfold locate
    dsimp only
    cases hcanonical : t.canonical? (referrer.directory.join file) with
    | some key => exact find?_fetchNode t reference target.pointer key c p
    | none =>
      -- The path leads to no file, so that the document is known or missing.
      rw [Option.bind_none, Option.or_none]
      cases hfound : c.find? (referrer.directory.join file) with
      | none => rfl
      | some v =>
        have hsame := congrArg Prod.snd (fetch_run t reference (referrer.directory.join file) c)
        rw [hfound] at hsame
        dsimp only [Option.isSome_some]
        rw [if_pos rfl]
        dsimp only
        rw [fetchNode_run, hsame]

/-- A document that is found is not missing and not unreadable. -/
theorem nodeAt_ne {e : ResolveError}
    (he : ∀ reference pointer, e ≠ .pointerNotFound reference pointer) :
    nodeAt reference pointer key v ≠ .error e := by
  unfold nodeAt
  intro h
  split at h
  · cases h
  · cases h
    exact he _ _ rfl

namespace Holds

theorem fetchNode_plain (h : Holds t past c) (hs : ¬ Stray t past key) :
    ((fetchNode t reference pointer key).run c).1 =
      (Direct.fetch t (seeded? t past) reference key).bind (nodeAt reference pointer key) := by
  rw [fetchNode_run, h.fetch_plain hs]

theorem fetchNode_stray (h : Holds t past c) (reference : String) (pointer : Pointer)
    (hs : Stray t past key) :
    ∃ v, ((fetchNode t reference pointer key).run c).1 = nodeAt reference pointer key v := by
  obtain ⟨⟨v, hv⟩, -⟩ := h.fetch_stray reference hs
  exact ⟨v, by rw [fetchNode_run, hv]; rfl⟩

theorem resolve_here_iff (h : Holds t past c) (hfile : target.file? = none) :
    ((resolve t reference referrer target).run c).1 =
        Direct.resolve t (seeded? t past) reference referrer target ↔ ¬ Stray t past referrer := by
  rw [resolve_run_here hfile, Direct.resolve_here hfile]
  refine ⟨fun heq hs => ?_, h.fetchNode_plain⟩
  obtain ⟨v, hv⟩ := h.fetchNode_stray reference target.pointer hs
  obtain ⟨-, cause, hdirect⟩ := h.fetch_stray reference hs
  rw [hv, hdirect] at heq
  exact nodeAt_ne (by simp) heq

theorem resolve_located_iff (ht : t.Real) (h : Holds t past c) (hfile : target.file? = some file) :
    ((resolve t reference referrer target).run c).1 =
        Direct.resolve t (seeded? t past) reference referrer target ↔
      ¬ Stray t past (referrer.directory.join file) := by
  rw [resolve_run_located hfile, Direct.resolve_located hfile]
  constructor
  · intro heq hs
    obtain ⟨hlocate, hdirect⟩ := h.locate_stray reference hs
    obtain ⟨v, hv⟩ := h.fetchNode_stray reference target.pointer hs
    rw [hlocate, hdirect] at heq
    dsimp only at heq
    rw [hv] at heq
    exact nodeAt_ne (by simp) heq
  · intro hs
    rw [h.locate_plain hs]
    cases hlocate : Direct.locate t (seeded? t past) reference referrer file with
    | error e => rfl
    | ok key =>
      refine h.fetchNode_plain fun hkey => ?_
      -- What is located is a document that was put in, or has the one path of a file.
      rcases Direct.locate_eq_ok ht hlocate with rfl | hcanonical
      · exact hs hkey
      · rw [hkey.canonical?] at hcanonical
        cases hcanonical

/-- A request is answered as if nothing were kept exactly if it looks up no stray path. -/
theorem answer_iff (ht : t.Real) (h : Holds t past c) (r : Request) :
    (answer t c r).1 = Direct.answer t (seeded? t past) r ↔ ∀ p ∈ r.sought?, ¬ Stray t past p := by
  have hone {p : Path} : (∀ q ∈ some p, ¬ Stray t past q) ↔ ¬ Stray t past p := by simp
  cases r with
  | seed p v => exact iff_of_true rfl fun _ hp => by cases hp
  | locate reference referrer file =>
    exact (map_eq_map_iff fun _ _ => Answer.path.inj).trans (h.locate_iff.trans hone.symm)
  | fetch reference key =>
    exact (map_eq_map_iff fun _ _ => Answer.document.inj).trans (h.fetch_iff.trans hone.symm)
  | resolve reference referrer target =>
    have hinj (m n : Path × Json) (heq : Answer.node m.1 m.2 = .node n.1 n.2) : m = n :=
      Prod.ext (Answer.node.inj heq).1 (Answer.node.inj heq).2
    have hmap : (answer t c (.resolve reference referrer target)).1 =
        Direct.answer t (seeded? t past) (.resolve reference referrer target) ↔
          ((resolve t reference referrer target).run c).1 =
            Direct.resolve t (seeded? t past) reference referrer target := map_eq_map_iff hinj
    rw [hmap]
    cases hfile : target.file? with
    | none =>
      have hsought : (Request.resolve reference referrer target).sought? = some referrer := by
        unfold Request.sought?
        dsimp only
        rw [hfile]
      rw [hsought, hone]
      exact h.resolve_here_iff hfile
    | some file =>
      have hsought : (Request.resolve reference referrer target).sought? =
          some (referrer.directory.join file) := by
        unfold Request.sought?
        dsimp only
        rw [hfile]
      rw [hsought, hone]
      exact h.resolve_located_iff ht hfile

/-- After a request the documents that are known are again those that were put in or read. -/
theorem after (h : Holds t past c) (r : Request) : Holds t (past ++ [r]) (answer t c r).2 := by
  intro p
  have hread (hseeds : r.seeds? t p = none)
      (hfind : (answer t c r).2.find? p = (c.find? p).or (r.reads? t p)) :
      (answer t c r).2.find? p =
        (seeded? t (past ++ [r]) p).or (opened? t (past ++ [r]) p) := by
    rw [seeded?_append, opened?_append, hseeds, Option.none_or, ← Option.or_assoc, ← h, hfind]
  cases r with
  | seed q v =>
    have hreads : (Request.seed q v).reads? t p = none := rfl
    have hput : (answer t c (.seed q v)).2.find? p = _ := find?_put c (documentKey t q) p v
    rw [seeded?_append, opened?_append, hreads, Option.or_none, hput, Request.seeds?]
    split
    · rw [Option.some_or, Option.some_or]
    · rw [Option.none_or, h]
  | locate reference referrer file => exact hread rfl (Option.or_none).symm
  | fetch reference key => exact hread rfl (find?_fetch t reference key c p)
  | resolve reference referrer target =>
    exact hread rfl (find?_resolve t reference referrer target c p)

/-- In a row of requests, too, each is answered as if nothing were kept exactly if it looks up no
stray path. -/
theorem answers_iff (ht : t.Real) (h : Holds t past c) {requests : List Request} {i : Nat}
    {r : Request} (hr : requests[i]? = some r) :
    (answers t c requests)[i]? =
        some (Direct.answer t (seeded? t (past ++ requests.take i)) r) ↔
      ∀ p ∈ r.sought?, ¬ Stray t (past ++ requests.take i) p := by
  induction requests generalizing past c i with
  | nil => cases hr
  | cons first rest ih =>
    cases i with
    | zero =>
      cases hr
      rw [List.take_zero, List.append_nil, answers, List.getElem?_cons_zero, Option.some_inj]
      exact h.answer_iff ht r
    | succ i =>
      rw [List.getElem?_cons_succ] at hr
      have hrest := ih (h.after first) hr
      rwa [List.append_assoc, List.singleton_append] at hrest

end Holds

/-- At the start nothing is known. -/
theorem holds_empty (t : FileTree) : Holds t [] .empty := fun _ => rfl

/-- A request that fails puts no document in. -/
theorem seeds?_of_error {r : Request} {e : ResolveError} (h : (answer t c r).1 = .error e)
    (p : Path) : r.seeds? t p = none := by
  cases r with
  | seed q v => cases h
  | locate _ _ _ => rfl
  | fetch _ _ => rfl
  | resolve _ _ _ => rfl

theorem seeded?_of_error {r : Request} {e : ResolveError} (h : (answer t c r).1 = .error e)
    (past later : List Request) :
    seeded? t (past ++ r :: later) = seeded? t (past ++ later) := by
  funext p
  unfold seeded?
  simp only [List.reverse_append, List.reverse_cons, List.findSome?_append,
    List.findSome?_singleton, seeds?_of_error h p, Option.or_none]

/-- Every request is answered from the disk and the documents that were put in before, as if nothing
were kept of what was read, unless it looks a document up by a stray path; then it is not. Requests
that fail put nothing in. So a file that is a document is dereferenced as the document is. -/
theorem answers_direct_iff (ht : t.Real) (requests : List Request) :
    (∀ i r, requests[i]? = some r →
      ((answers t .empty requests)[i]? = some (Direct.answer t (seeded? t (requests.take i)) r) ↔
        ∀ p ∈ r.sought?, ¬ Stray t (requests.take i) p)) ∧
    (∀ c r e past later, (answer t c r).1 = .error e →
      seeded? t (past ++ r :: later) = seeded? t (past ++ later)) ∧
    ∀ p v, readDocument t p = .ok v → dereferenceFile t p = dereferenceValue t v p := by
  refine ⟨fun i r hr => ?_, fun c r e past later h => seeded?_of_error h past later,
    fun p v hread => ?_⟩
  · have hanswers := (holds_empty t).answers_iff ht hr
    rwa [List.nil_append] at hanswers
  · rw [Dereference.dereferenceFile_eq, (readDocument_canonical ht hread).2.2]
    rfl

/-! ## A file that was read -/

/-- A reference into a document that is then put in, and the document that is put in. -/
def replacing : List Request :=
  [.resolve "b.json" ⟨"a.json"⟩ ⟨some "b.json", .root⟩, .seed ⟨"b.json"⟩ (.bool true),
    .fetch "b.json" ⟨"/b.json"⟩]

theorem answers_direct_replacing : Dereference.twoSchemas.Real ∧
    (answers Dereference.twoSchemas .empty replacing)[2]? = some (.ok (.document (.bool true))) ∧
    dereferenceFile Dereference.twoSchemas ⟨"b.json"⟩ =
      dereferenceValue Dereference.twoSchemas (.object []) ⟨"b.json"⟩ := by
  have hreal : Dereference.twoSchemas.Real := by decide +kernel
  have hread : (readDocument Dereference.twoSchemas ⟨"b.json"⟩).toOption = some (.object []) := by
    decide +kernel
  have hdirect : Direct.answer Dereference.twoSchemas
      (seeded? Dereference.twoSchemas (replacing.take 2)) (.fetch "b.json" ⟨"/b.json"⟩) =
        .ok (.document (.bool true)) := by decide +kernel
  obtain ⟨hanswers, -, hfile⟩ := answers_direct_iff hreal replacing
  refine ⟨hreal, ?_, hfile _ _ (toOption_eq_some.mp hread)⟩
  rw [← hdirect]
  refine (hanswers 2 _ rfl).mpr fun p hp hs => ?_
  cases hp
  exact absurd hs.idle (by decide +kernel)

/-- A file is read for a request that fails. No file has its path with a slash behind it, and yet
that path is located from then on. -/
theorem answers_differ_trailingSlash :
    let requests : List Request := [.resolve "#/x" ⟨"b.json"⟩ ⟨none, ⟨["x"]⟩⟩,
      .locate "b.json/" ⟨"a.json"⟩ "b.json/"]
    answers Dereference.twoSchemas .empty requests =
        [.error (.pointerNotFound "#/x" "/x"), .ok (.path ⟨"b.json/"⟩)] ∧
      Direct.answer Dereference.twoSchemas (seeded? Dereference.twoSchemas (requests.take 1))
          (.locate "b.json/" ⟨"a.json"⟩ "b.json/") =
        .error (.missingFile "b.json/" ⟨"b.json/"⟩) := by
  decide +kernel

end SchemaBindings.DocumentCache
