import Mathlib.Data.List.TakeWhile
import SchemaBindings.Proofs.Unfolding

/-! # Runs of the dereferencing

A run that comes to a result has unfolded its schema. A run on a grounded schema
comes to a result: each target that it opens is reached over a link that is not
open yet, and there are no more links than reference texts in reach, so it
neither meets a target that is open nor runs out of depth. -/

namespace SchemaBindings.Dereference

open SchemaBindings.Bundle (Source kindOf targetDocument find?_isSome_of_within)
open DocumentCache (Sound Within liftExcept_runs)

variable {t : FileTree} {known : DocumentCache} {follow : Follow} {doc : Path} {v w : Json}
  {Admits : Path → String → Prop}

/-- How one member of a schema is to be expanded. -/
def expandMember (follow : Follow) (doc : Path) (e : String × Json) : CacheM Json :=
  match childKind e.1, e.2 with
  | .data, v => pure v
  | .namedSchemas, .object named => do
    return .object (← runEntries (expandNamed follow doc named))
  | _, v => expandNode follow doc v

theorem expandMembers_eq_map (ms : List (String × Json)) :
    expandMembers follow doc ms = ms.map fun e => (e.1, expandMember follow doc e) := by
  induction ms with
  | nil => rw [expandMembers, List.map_nil]
  | cons e ms ih =>
    obtain ⟨key, v⟩ := e
    rw [List.map_cons, ← ih]
    refine (expandMembers.eq_def ..).trans ?_
    refine congrArg (fun act => (key, act) :: expandMembers follow doc ms) ?_
    unfold expandMember
    cases childKind key <;> cases v <;> rfl

theorem expandNamed_eq_map (ms : List (String × Json)) :
    expandNamed follow doc ms = ms.map fun e => (e.1, expandNode follow doc e.2) := by
  induction ms with
  | nil => rw [expandNamed, List.map_nil]
  | cons e ms ih => rw [expandNamed, ih, List.map_cons]

/-! ## A result is an unfolding -/

/-- Every reference is admitted. -/
def AnyReference (_ : Path) (_ : String) : Prop := True

/-- A computation on a document that is known keeps what is known, and what it comes to has a
form. -/
def Gives (t : FileTree) (known : DocumentCache) (doc : Path) {α : Type} (Form : α → Prop)
    (act : CacheM α) : Prop :=
  ∀ c a c', Sound t known c → (c.find? doc).isSome = true → Runs act c a c' →
    Sound t known c' ∧ Within c c' ∧ Form a

section

variable {α β : Type} {Form Form' : α → Prop}

theorem gives_pure {a : α} (h : Form a) : Gives t known doc Form (pure a) := by
  intro c b c' hc _ hrun
  obtain ⟨rfl, rfl⟩ := hrun.pure
  exact ⟨hc, fun _ _ h => h, h⟩

theorem gives_bind {act : CacheM α} {next : α → CacheM β} {Result : β → Prop}
    (h : Gives t known doc Form act) (h' : ∀ a, Form a → Gives t known doc Result (next a)) :
    Gives t known doc Result (act >>= next) := by
  intro c b c' hc hdoc hrun
  obtain ⟨a, u, hact, hnext⟩ := hrun.bind
  obtain ⟨hu, hwithin, ha⟩ := h c a u hc hdoc hact
  obtain ⟨hc', hwithin', hb⟩ := h' a ha u b c' hu (find?_isSome_of_within hwithin hdoc) hnext
  exact ⟨hc', hwithin.trans hwithin', hb⟩

theorem runEntries_gives {act : String × Json → CacheM Json} {Form : String × Json → Json → Prop}
    {ms : List (String × Json)} (hact : ∀ e ∈ ms, Gives t known doc (Form e) (act e)) :
    Gives t known doc (fun ns : Members => ns.names = OrderedMap.names ms ∧
        ∀ (i : Nat) e x, ms[i]? = some e → ns[i]? = some x → Form e x.2)
      (runEntries (ms.map fun e => (e.1, act e))) := by
  induction ms with
  | nil => exact gives_pure ⟨rfl, fun _ _ _ he => by cases he⟩
  | cons e ms ih =>
    have hothers := ih fun e he => hact e (List.mem_cons_of_mem _ he)
    refine gives_bind (hact e (List.mem_cons_self ..)) fun w hw => ?_
    refine gives_bind hothers fun ws ⟨hnames, hforms⟩ => gives_pure ⟨?_, ?_⟩
    · exact congrArg (List.cons e.1) hnames
    · intro i x y hx hy
      cases i with
      | zero =>
        cases hx
        cases hy
        exact hw
      | succ i => exact hforms i x y hx hy

end

/-- A reference that is followed is replaced by what its target unfolds to. -/
def Unfolding (t : FileTree) (known : DocumentCache) (follow : Follow) : Prop :=
  ∀ doc reference, Gives t known doc
    (fun u => ∃ x n u', Points t known doc reference x n ∧
      Unfolds t known AnyReference .schema x.document n u' ∧ u = taken x u')
    (follow reference doc)

/-- What a run on a node comes to is what the node unfolds to. -/
def NodeUnfolds (t : FileTree) (known : DocumentCache) (follow : Follow) (doc : Path) (v : Json) :
    Prop :=
  Gives t known doc (Unfolds t known AnyReference .schema doc v) (expandNode follow doc v)

theorem expandItems_gives {xs : List Json} (hnode : ∀ x ∈ xs, NodeUnfolds t known follow doc x) :
    Gives t known doc (fun ys => ys.length = xs.length ∧
        ∀ (i : Nat) x y, xs[i]? = some x → ys[i]? = some y →
          Unfolds t known AnyReference .schema doc x y)
      (expandItems follow doc xs) := by
  induction xs with
  | nil =>
    rw [expandItems]
    exact gives_pure ⟨rfl, fun _ _ _ hx => by cases hx⟩
  | cons x xs ih =>
    rw [expandItems]
    have hothers := ih fun x hx => hnode x (List.mem_cons_of_mem _ hx)
    refine gives_bind (hnode x (List.mem_cons_self ..)) fun w hw => ?_
    refine gives_bind hothers fun ws ⟨hlen, hforms⟩ => gives_pure ⟨congrArg Nat.succ hlen, ?_⟩
    intro i y z hy hz
    cases i with
    | zero =>
      cases hy
      cases hz
      exact hw
    | succ i => exact hforms i y z hy hz

/-- The nodes right below an object, and those that one of these names, are unfolded. -/
def BelowUnfolds (t : FileTree) (known : DocumentCache) (follow : Follow) (doc : Path)
    (ms : Members) : Prop :=
  ∀ e ∈ ms, NodeUnfolds t known follow doc e.2 ∧
    ∀ named, e.2 = .object named → ∀ x ∈ named, NodeUnfolds t known follow doc x.2

theorem expandMember_gives {ms : Members} (hbelow : BelowUnfolds t known follow doc ms)
    {e : String × Json} (he : e ∈ ms) :
    Gives t known doc (Unfolds t known AnyReference (kindOf e.1 e.2) doc e.2)
      (expandMember follow doc e) := by
  obtain ⟨hnode, hnamed⟩ := hbelow e he
  obtain ⟨key, v⟩ := e
  unfold expandMember kindOf
  dsimp only at hnode hnamed ⊢
  cases childKind key with
  | data => exact gives_pure .data
  | schema => exact hnode
  | namedSchemas =>
    cases v with
    | object named =>
      dsimp only
      rw [expandNamed_eq_map]
      have hentries := runEntries_gives fun x hx => hnamed named rfl x hx
      exact gives_bind hentries fun ns ⟨hnames, hforms⟩ => gives_pure (.named hnames hforms)
    | _ => exact hnode

theorem object_gives (hfollow : Unfolding t known follow) {ms : Members}
    (hbelow : BelowUnfolds t known follow doc ms) : NodeUnfolds t known follow doc (.object ms) := by
  unfold NodeUnfolds
  rw [expandNode.eq_def]
  dsimp only
  split
  · rename_i reference hget
    have href : refText? (.object ms) = some reference := refText?_eq_some.mpr hget
    refine gives_bind (hfollow doc reference) fun u ⟨x, n, u', hp, hu, htaken⟩ => ?_
    rw [expandMembers_eq_map, OrderedMap.remove_map]
    have hentries := runEntries_gives fun e (he : e ∈ OrderedMap.remove ms "$ref") =>
      expandMember_gives hbelow (OrderedMap.mem_of_mem_remove he)
    refine gives_bind hentries fun ns ⟨hnames, hforms⟩ => gives_pure ?_
    exact .reference href trivial hp hu hnames hforms (overlays_iff.mpr (by rw [htaken]))
  · rename_i hplain
    have href : refText? (.object ms) = none := by
      cases hr : refText? (.object ms) with
      | none => rfl
      | some reference => exact absurd (refText?_eq_some.mp hr) (hplain reference)
    rw [expandMembers_eq_map]
    have hentries := runEntries_gives fun e he => expandMember_gives hbelow he
    exact gives_bind hentries fun ns ⟨hnames, hforms⟩ => gives_pure (.plain href hnames hforms)

theorem expandNode_leaf (hm : v.members? = none) (hi : v.items? = none) :
    expandNode follow doc v = pure v := by
  rw [expandNode.eq_def]
  cases v with
  | object ms => cases hm
  | array xs => cases hi
  | _ => rfl

theorem expandNode_unfolds (hfollow : Unfolding t known follow) (doc : Path) (v : Json) :
    NodeUnfolds t known follow doc v := by
  induction v using Json.byParts with
  | object ms ih => exact object_gives hfollow ih
  | array xs ih =>
    unfold NodeUnfolds
    rw [expandNode.eq_def]
    exact gives_bind (expandItems_gives ih) fun ys ⟨hlen, hforms⟩ => gives_pure (.array hlen hforms)
  | leaf v hm hi =>
    unfold NodeUnfolds
    rw [expandNode_leaf hm hi]
    exact gives_pure (.leaf hm hi)

/-- Following a reference unfolds its target, whatever is open. -/
theorem expandRef_unfolds (ht : t.Real) (depth : Nat) (stack : List Target) :
    Unfolding t known (expandRef t depth stack) := by
  induction depth generalizing stack with
  | zero => exact fun _ _ _ _ _ _ _ hrun => absurd hrun Runs.not_throw
  | succ depth ih =>
    intro doc reference c u c' hc hdoc hrun
    rw [expandRef] at hrun
    obtain ⟨target, c₁, hlift, hrest⟩ := hrun.bind
    obtain ⟨hparse, rfl⟩ := liftExcept_runs hlift
    obtain ⟨⟨document, node⟩, c₂, hresolve, hopen⟩ := hrest.bind
    obtain ⟨rfl, hsound, hwithin, v, hfound, hnode⟩ :=
      DocumentCache.resolve_runs ht hc hdoc hresolve
    dsimp only at hopen
    split at hopen
    · obtain ⟨w, c₃, hw, hpure⟩ := hopen.bind
      obtain ⟨rfl, rfl⟩ := hpure.pure
      obtain ⟨hsound', hwithin', hunfolds⟩ :=
        expandNode_unfolds (ih _) _ node c₂ w c' hsound (by rw [hfound]; rfl) hw
      refine ⟨hsound', hwithin.trans hwithin', _, node, w,
        ⟨target, v, hparse, rfl, hsound.source _ _ hfound, hnode⟩, hunfolds, rfl⟩
    · exact absurd hopen Runs.not_throw

/-! ## Runs that are related -/

/-- A relation between computations that is kept when they are put in a row. -/
structure Chains (m : Type → Type) [Monad m] (R : ∀ {α : Type}, m α → m α → Prop) : Prop where
  pure : ∀ {α : Type} (a : α), R (pure a : m α) (pure a)
  bind : ∀ {α β : Type} {act act' : m α} {next next' : α → m β},
    R act act' → (∀ a, R (next a) (next' a)) → R (act >>= next) (act' >>= next')

section

variable {m : Type → Type} [Monad m] {R : ∀ {α : Type}, m α → m α → Prop}

theorem runEntries_related (hR : Chains m R) {act act' : String × Json → m Json}
    {ms : List (String × Json)} (hact : ∀ e ∈ ms, R (act e) (act' e)) :
    R (runEntries (ms.map fun e => (e.1, act e))) (runEntries (ms.map fun e => (e.1, act' e))) := by
  induction ms with
  | nil => exact hR.pure []
  | cons e ms ih =>
    have hothers := ih fun e he => hact e (List.mem_cons_of_mem _ he)
    refine hR.bind (hact e (List.mem_cons_self ..)) fun v => ?_
    exact hR.bind hothers fun vs => hR.pure ((e.1, v) :: vs)

end

section

variable {R : ∀ {α : Type}, CacheM α → CacheM α → Prop} {follow' : Follow}

theorem expandItems_related (hR : Chains CacheM R) {xs : List Json}
    (hnode : ∀ x ∈ xs, R (expandNode follow doc x) (expandNode follow' doc x)) :
    R (expandItems follow doc xs) (expandItems follow' doc xs) := by
  induction xs with
  | nil =>
    rw [expandItems, expandItems]
    exact hR.pure []
  | cons x xs ih =>
    rw [expandItems, expandItems]
    have hothers := ih fun x hx => hnode x (List.mem_cons_of_mem _ hx)
    refine hR.bind (hnode x (List.mem_cons_self ..)) fun y => ?_
    exact hR.bind hothers fun ys => hR.pure (y :: ys)

/-- Two runs on a schema are related if following the references in it is. -/
def NodeRelated (R : ∀ {α : Type}, CacheM α → CacheM α → Prop) (follow follow' : Follow) (doc : Path)
    (v : Json) : Prop :=
  (∀ reference, Mentions .schema v reference → R (follow reference doc) (follow' reference doc)) →
    R (expandNode follow doc v) (expandNode follow' doc v)

theorem expandMember_related (hR : Chains CacheM R) {e : String × Json}
    (hnode : NodeRelated R follow follow' doc e.2)
    (hnamed : ∀ named, e.2 = .object named → ∀ x ∈ named, NodeRelated R follow follow' doc x.2)
    (hfollow : ∀ reference, Mentions (kindOf e.1 e.2) e.2 reference →
      R (follow reference doc) (follow' reference doc)) :
    R (expandMember follow doc e) (expandMember follow' doc e) := by
  obtain ⟨key, v⟩ := e
  unfold kindOf at hfollow
  unfold expandMember
  dsimp only at hnode hnamed hfollow ⊢
  cases hkind : childKind key with
  | data => exact hR.pure v
  | schema =>
    rw [hkind] at hfollow
    exact hnode hfollow
  | namedSchemas =>
    rw [hkind] at hfollow
    cases v with
    | object named =>
      dsimp only
      rw [expandNamed_eq_map, expandNamed_eq_map]
      refine hR.bind (runEntries_related hR fun x hx => ?_) fun ns => hR.pure (Json.object ns)
      exact hnamed named rfl x hx fun reference hm => hfollow reference (.named hx hm)
    | _ => exact hnode hfollow

theorem object_related (hR : Chains CacheM R) {ms : Members}
    (hnode : ∀ e ∈ ms, NodeRelated R follow follow' doc e.2)
    (hnamed : ∀ e ∈ ms, ∀ named, e.2 = .object named →
      ∀ x ∈ named, NodeRelated R follow follow' doc x.2) :
    NodeRelated R follow follow' doc (.object ms) := by
  intro hfollow
  have hmember : ∀ e ∈ ms, R (expandMember follow doc e) (expandMember follow' doc e) :=
    fun e he => expandMember_related hR (hnode e he) (hnamed e he)
      fun reference hm => hfollow reference (.member he hm)
  rw [expandNode.eq_def, expandNode.eq_def]
  dsimp only
  split
  · rename_i reference hget
    refine hR.bind (hfollow reference (.here (refText?_eq_some.mpr hget))) fun target => ?_
    rw [expandMembers_eq_map, expandMembers_eq_map, OrderedMap.remove_map, OrderedMap.remove_map]
    have hsiblings := runEntries_related hR fun e (he : e ∈ OrderedMap.remove ms "$ref") =>
      hmember e (OrderedMap.mem_of_mem_remove he)
    exact hR.bind hsiblings fun siblings => hR.pure (overlay target siblings)
  · rw [expandMembers_eq_map, expandMembers_eq_map]
    exact hR.bind (runEntries_related hR hmember) fun ns => hR.pure (Json.object ns)

theorem expandNode_related (hR : Chains CacheM R) (v : Json) : NodeRelated R follow follow' doc v := by
  induction v using Json.byParts with
  | object ms ih => exact object_related hR (fun e he => (ih e he).1) fun e he => (ih e he).2
  | array xs ih =>
    intro hfollow
    rw [expandNode.eq_def, expandNode.eq_def]
    refine hR.bind (expandItems_related hR fun x hx => ?_) fun ys => hR.pure (Json.array ys)
    exact ih x hx fun reference hm => hfollow reference (.item hx hm)
  | leaf v hm hi =>
    intro _
    rw [expandNode_leaf hm hi, expandNode_leaf hm hi]
    exact hR.pure v

end

/-! ## Runs that come to a result -/

/-- A computation on a document that is known comes to a result, and keeps what is known. -/
def Ends (t : FileTree) (known : DocumentCache) (doc : Path) {α : Type} (act : CacheM α) : Prop :=
  ∀ c, Sound t known c → (c.find? doc).isSome = true →
    ∃ a c', Runs act c a c' ∧ Sound t known c' ∧ Within c c'

theorem chains_ends : Chains CacheM fun {_} act _ => Ends t known doc act where
  pure a c hc _ := ⟨a, c, rfl, hc, fun _ _ h => h⟩
  bind h h' c hc hdoc := by
    obtain ⟨a, u, hact, hu, hwithin⟩ := h c hc hdoc
    obtain ⟨b, c', hnext, hc', hwithin'⟩ := h' a u hu (find?_isSome_of_within hwithin hdoc)
    exact ⟨b, c', hact.andThen hnext, hc', hwithin.trans hwithin'⟩

/-- A run on a schema comes to a result if following the references in it does. -/
theorem expandNode_ends {v : Json}
    (h : ∀ reference, Mentions .schema v reference → Ends t known doc (follow reference doc)) :
    Ends t known doc (expandNode follow doc v) := by
  have hnode : NodeRelated (fun act _ => Ends t known doc act) follow follow doc v :=
    expandNode_related chains_ends v
  exact hnode h

/-- A file that is there is located where the reference leads. -/
theorem locate_of_located {reference file : String} {target : RefTarget} {c : DocumentCache}
    (h : Located t known doc reference) (hparse : RefTarget.parse reference = .ok target)
    (hfile : target.file? = some file) (hc : Sound t known c) :
    DocumentCache.locate t c reference doc file = .ok (targetDocument t doc target) := by
  unfold DocumentCache.locate targetDocument documentKey
  rw [hfile]
  dsimp only
  cases hcanonical : t.canonical? (doc.directory.join file) with
  | some p => rfl
  | none =>
    rcases h target file hparse hfile with hthere | hthere
    · rw [hcanonical] at hthere
      cases hthere
    · obtain ⟨v, hv⟩ := Option.isSome_iff_exists.mp hthere
      rw [hc.kept _ _ hv]
      rfl

/-- A source can be fetched if it is known or has the path of a file. -/
theorem fetch_ends (reference : String) (ht : t.Real) {key : Path} {v : Json} {c : DocumentCache}
    (hc : Sound t known c) (hv : Source t known key v)
    (hkey : t.canonical? key = some key ∨ (c.find? key).isSome = true) :
    ∃ c', Runs (DocumentCache.fetch t reference key) c v c' ∧ Sound t known c' ∧ Within c c' ∧
      c'.find? key = some v := by
  cases hfind : c.find? key with
  | some w =>
    obtain rfl := (hc.source _ _ hfind).eq ht hv rfl
    exact ⟨c, DocumentCache.fetch_of_find? hfind, hc, fun _ _ h => h, hfind⟩
  | none =>
    rw [hfind] at hkey
    have hcanonical : t.canonical? key = some key := hkey.resolve_right Bool.false_ne_true
    have hread : readDocument t key = .ok v := by
      rcases hv with hknown | ⟨-, p, hp, hcanonical', hread⟩
      · have hkept := hc.kept _ _ hknown
        rw [hfind] at hkept
        cases hkept
      · rwa [FileTree.eq_of_canonical? ht hcanonical hcanonical' hp.symm]
    refine ⟨c.put key v, ?_, hc.put hfind hcanonical hread, .put hfind, c.find?_put_self key v⟩
    unfold DocumentCache.fetch
    refine Runs.andThen (a := c) rfl ?_
    rw [hfind]
    dsimp only
    rw [hread]
    rfl

/-- A reference that is located and leads to a node is resolved to the node. -/
theorem resolve_ends (ht : t.Real) {reference : String} {target : RefTarget} {v n : Json}
    {c : DocumentCache} (hlocated : Located t known doc reference)
    (hparse : RefTarget.parse reference = .ok target)
    (hv : Source t known (targetDocument t doc target) v) (hn : v.at? target.pointer = some n)
    (hc : Sound t known c) (hdoc : (c.find? doc).isSome = true) :
    ∃ c', Runs (DocumentCache.resolve t reference doc target) c (targetDocument t doc target, n) c' ∧
      Sound t known c' ∧ Within c c' ∧ c'.find? (targetDocument t doc target) = some v := by
  have hnode {key : Path} (hv : Source t known key v)
      (hkey : t.canonical? key = some key ∨ (c.find? key).isSome = true) :
      ∃ c', Runs (DocumentCache.fetchNode t reference target.pointer key) c (key, n) c' ∧
        Sound t known c' ∧ Within c c' ∧ c'.find? key = some v := by
    obtain ⟨c', hfetch, hc', hwithin, hfound⟩ := fetch_ends reference ht hc hv hkey
    refine ⟨c', hfetch.andThen ?_, hc', hwithin, hfound⟩
    rw [hn]
    rfl
  unfold DocumentCache.resolve
  cases hfile : target.file? with
  | none =>
    have hsame : targetDocument t doc target = doc := by
      unfold targetDocument
      rw [hfile]
    rw [hsame] at hv ⊢
    obtain ⟨c', hrun, hrest⟩ := hnode hv (Or.inr hdoc)
    exact ⟨c', Runs.andThen (a := doc) rfl hrun, hrest⟩
  | some file =>
    have hlocate := locate_of_located hlocated hparse hfile hc
    obtain ⟨-, -, hkey⟩ := DocumentCache.locate_eq_ok ht hlocate
    obtain ⟨c', hrun, hrest⟩ := hnode hv hkey
    refine ⟨c', Runs.andThen (a := c) rfl ?_, hrest⟩
    refine Runs.andThen (a := targetDocument t doc target) ?_ hrun
    rw [hlocate]
    rfl

/-! ## How many targets can be open -/

/-- The documents that are known or could be read, with the steps of their paths. -/
def documentsInReach (t : FileTree) (known : DocumentCache) : List (List PathStep × Json) :=
  known.documents ++ t.entries.filterMap fun e =>
    match e.2 with
    | .file (.text s) => (Json.read s).toOption.map fun v => (e.1.path.steps, v)
    | _ => none

/-- The reference texts in reach, with the documents that they stand in. -/
def linksInReach (t : FileTree) (known : DocumentCache) : List (List PathStep × String) :=
  (documentsInReach t known).flatMap fun d => (referenceTexts d.2).map fun text => (d.1, text)

theorem map_documentsInReach (t : FileTree) (known : DocumentCache) :
    (documentsInReach t known).map (·.2) = DocumentCache.inReach t known := by
  unfold documentsInReach DocumentCache.inReach
  rw [List.map_append, List.map_filterMap]
  congr 2
  funext e
  obtain ⟨place, entry⟩ := e
  cases entry with
  | directory => rfl
  | file content =>
    cases content with
    | bytes bs => rfl
    | text s =>
      dsimp only
      cases (Json.read s).toOption <;> rfl

theorem length_linksInReach_lt (t : FileTree) (known : DocumentCache) :
    (linksInReach t known).length < known.allowance t := by
  have hcount (ds : List (List PathStep × Json)) (n : Nat) :
      (ds.flatMap fun d => (referenceTexts d.2).map fun text => (d.1, text)).length + n ≤
        (ds.map (·.2)).foldl (fun n v => n + referenceCount v) n := by
    induction ds generalizing n with
    | nil => simp
    | cons d ds ih =>
      have hfirst := length_referenceTexts_le d.2
      have hrest := ih (n + referenceCount d.2)
      rw [List.flatMap_cons, List.length_append, List.length_map, List.map_cons, List.foldl_cons]
      omega
  have hall := hcount (documentsInReach t known) 1
  rw [map_documentsInReach] at hall
  exact hall

theorem mem_documentsInReach {doc : Path} {v : Json} (h : Source t known doc v) :
    (doc.steps, v) ∈ documentsInReach t known := by
  unfold documentsInReach
  rcases h with h | ⟨-, p, hp, hcanonical, hread⟩
  · obtain ⟨before, after, hsplit, -⟩ := List.lookup_eq_some_iff.mp h
    refine List.mem_append_left _ ?_
    rw [hsplit]
    exact List.mem_append_right _ (List.mem_cons_self ..)
  · refine List.mem_append_right _ (List.mem_filterMap.mpr ?_)
    unfold readDocument at hread
    split at hread
    · cases hread
    · rename_i text htext
      split at hread
      · cases hread
      · rename_i hjson
        cases hread
        obtain ⟨place, hplace, hmem⟩ := FileTree.mem_of_readText htext
        have hpath : place.path = p := by
          unfold FileTree.canonical? at hcanonical
          rw [hplace] at hcanonical
          exact Option.some.inj hcanonical
        refine ⟨_, hmem, ?_⟩
        dsimp only
        rw [hjson, hpath, hp]
        rfl

/-- How targets come to be open in a run from a value: each is led to by a reference in the one
before it, and is another node than all that are open. -/
inductive Opened (t : FileTree) (known : DocumentCache) (start : Path) (v : Json) :
    List Target → List (List PathStep × String) → Path → Json → Prop where
  | none : Opened t known start v [] [] start v
  | more {stack : List Target} {links : List (List PathStep × String)} {doc : Path} {n m : Json}
      {reference : String} {x : Target} (h : Opened t known start v stack links doc n)
      (hm : Mentions .schema n reference) (hp : Points t known doc reference x m)
      (hnew : ∀ frame ∈ stack, frame.same x = false) :
      Opened t known start v (stack ++ [x]) (links ++ [(doc.steps, reference)]) x.document m

namespace Opened

variable {start : Path} {v n m : Json} {stack : List Target} {links : List (List PathStep × String)}
  {reference : String}

/-- References in the node that is opened last are reached. -/
theorem reached (h : Opened t known start v stack links doc n)
    (hm : Mentions .schema n reference) : Reached t known start v doc reference := by
  induction h generalizing reference with
  | none => exact .here hm
  | more _ hm' hp _ ih => exact .next (ih hm') hp hm

/-- Every open target leads on to what a reference in the last one leads to. -/
theorem transGen (h : Opened t known start v stack links doc n) (hm : Mentions .schema n reference)
    {y : Target} (hp : Points t known doc reference y m) :
    ∀ frame ∈ stack, (∃ d r k, Reached t known start v d r ∧ Points t known d r frame k) ∧
      Relation.TransGen (Next t known) frame y := by
  induction h generalizing reference y m with
  | none => exact fun _ hf => absurd hf List.not_mem_nil
  | more h hm' hp' _ ih =>
    have hnext : Next t known _ y := hp'.next hm hp
    intro frame hframe
    rcases List.mem_append.mp hframe with hframe | hframe
    · obtain ⟨hreached, hway⟩ := ih hm' hp' frame hframe
      exact ⟨hreached, hway.tail hnext⟩
    · rw [List.mem_singleton.mp hframe]
      exact ⟨⟨_, _, _, h.reached hm', hp'⟩, .single hnext⟩

/-- A link leads to one of the open targets, from any spelling of the document. -/
theorem exists_frame (h : Opened t known start v stack links doc n) {link : List PathStep × String}
    (hl : link ∈ links) {d : Path} (hd : d.steps = link.1) {x : Target}
    (hp : ∃ k, Points t known d link.2 x k) (ht : t.Real) : ∃ frame ∈ stack, frame.same x = true := by
  induction h with
  | none => cases hl
  | more _ _ hp' _ ih =>
    rcases List.mem_append.mp hl with hl | hl
    · obtain ⟨frame, hf, hsame⟩ := ih hl
      exact ⟨frame, List.mem_append_left _ hf, hsame⟩
    · rw [List.mem_singleton.mp hl] at hd hp
      obtain ⟨k, hp⟩ := hp
      obtain ⟨x', hq, hsame⟩ := hp'.congr hd.symm
      obtain ⟨rfl, -⟩ := hq.unique ht hp
      exact ⟨_, List.mem_append_right _ (List.mem_singleton_self _), hsame⟩

theorem nodup (h : Opened t known start v stack links doc n) (ht : t.Real) : links.Nodup := by
  induction h with
  | none => exact List.nodup_nil
  | more h _ hp hnew ih =>
    rw [List.nodup_append]
    refine ⟨ih, List.nodup_singleton _, fun link hl other ho heq => ?_⟩
    rw [List.mem_singleton.mp ho] at heq
    subst heq
    obtain ⟨frame, hf, hsame⟩ := h.exists_frame hl rfl ⟨_, hp⟩ ht
    rw [hnew frame hf] at hsame
    cases hsame

theorem length_eq (h : Opened t known start v stack links doc n) : links.length = stack.length := by
  induction h with
  | none => rfl
  | more _ _ _ _ ih => simp [ih]

/-- The node that is opened last is a node of a document in reach. -/
theorem exists_document (h : Opened t known start v stack links doc n)
    (hv : (start.steps, v) ∈ documentsInReach t known) :
    ∃ whole, (doc.steps, whole) ∈ documentsInReach t known ∧ n ∈ whole.nodes := by
  cases h with
  | none => exact ⟨v, hv, Json.self_mem_nodes v⟩
  | more _ _ hp _ =>
    obtain ⟨target, whole, -, -, hwhole, hn⟩ := hp
    exact ⟨whole, mem_documentsInReach hwhole, Json.at?_mem_nodes hn⟩

theorem subset_linksInReach (h : Opened t known start v stack links doc n)
    (hv : (start.steps, v) ∈ documentsInReach t known) : links ⊆ linksInReach t known := by
  induction h with
  | none => exact List.nil_subset _
  | more h hm _ _ ih =>
    intro link hl
    rcases List.mem_append.mp hl with hl | hl
    · exact ih hl
    · rw [List.mem_singleton.mp hl]
      obtain ⟨whole, hwhole, hn⟩ := h.exists_document hv
      exact List.mem_flatMap.mpr ⟨_, hwhole,
        List.mem_map.mpr ⟨_, hm.mem_referenceTexts hn, rfl⟩⟩

/-- There are fewer open targets than may be opened. -/
theorem length_lt (h : Opened t known start v stack links doc n) (ht : t.Real)
    (hv : (start.steps, v) ∈ documentsInReach t known) : stack.length < known.allowance t := by
  have hle := (List.subperm_of_subset (h.nodup ht) (h.subset_linksInReach hv)).length_le
  have hlt := length_linksInReach_lt t known
  rw [h.length_eq] at hle
  omega

end Opened

/-- From a grounded schema, references can be followed whatever has been opened. -/
theorem expandRef_ends (ht : t.Real) {start : Path} {v : Json} (hv : Source t known start v)
    (hground : Grounded t known start v) {depth : Nat} {stack : List Target}
    {links : List (List PathStep × String)} {n : Json}
    (h : Opened t known start v stack links doc n)
    (hdepth : depth + stack.length = known.allowance t) {reference : String}
    (hm : Mentions .schema n reference) : Ends t known doc (expandRef t depth stack reference doc) := by
  induction depth generalizing stack links doc n reference with
  | zero =>
    have hlt := h.length_lt ht (mem_documentsInReach hv)
    omega
  | succ depth ih =>
    intro c hc hdoc
    obtain ⟨hlocated, x, m, hp⟩ := hground.leads _ _ (h.reached hm)
    have hnew : ∀ frame ∈ stack, frame.same x = false := by
      intro frame hf
      obtain ⟨⟨d, r, k, hr, hq⟩, hway⟩ := h.transGen hm hp frame hf
      exact hground.acyclic d r frame k hr hq x hway
    have hopened := h.more hm hp hnew
    obtain ⟨target, whole, hparse, rfl, hwhole, hn⟩ := hp
    obtain ⟨c₁, hresolve, hc₁, hwithin₁, hfound⟩ :=
      resolve_ends ht hlocated hparse hwhole hn hc hdoc
    have hdepth' : depth + (stack ++ [Target.mk (targetDocument t doc target) target.pointer]).length =
        known.allowance t := by
      rw [List.length_append, List.length_singleton]
      omega
    obtain ⟨w, c₂, hrun, hc₂, hwithin₂⟩ := expandNode_ends
      (fun other hm' => ih hopened hdepth' hm') c₁ hc₁ (by rw [hfound]; rfl)
    refine ⟨taken ⟨targetDocument t doc target, target.pointer⟩ w, c₂, ?_, hc₂,
      hwithin₁.trans hwithin₂⟩
    have hloop : (stack.dropWhile fun frame =>
        !frame.same ⟨targetDocument t doc target, target.pointer⟩) = [] := by
      rw [List.dropWhile_eq_nil_iff]
      intro frame hf
      rw [hnew frame hf]
      rfl
    rw [expandRef]
    refine Runs.andThen (a := target) (u := c) ?_ (hresolve.andThen ?_)
    · rw [hparse]
      rfl
    · dsimp only
      rw [hloop]
      exact hrun.andThen rfl

/-! ## Whole schemas -/

theorem expandFrom_eq_ok {key : Path} :
    expandFrom t v key known = .ok w ↔
      ∃ c, Runs (expandNode (expandRef t (known.allowance t) []) key v) known w c := by
  unfold expandFrom Runs
  constructor
  · intro h
    exact ⟨_, Prod.ext h rfl⟩
  · rintro ⟨c, h⟩
    rw [h]

/-- What a dereferencing comes to is what the schema unfolds to, with references admitted that were
located among the documents read on the way. -/
theorem unfolds_of_expandFrom (ht : t.Real) {key : Path} (hkey : known.find? key = some v)
    (h : expandFrom t v key known = .ok w) : Unfolds t known AnyReference .schema key v w := by
  obtain ⟨c, hrun⟩ := expandFrom_eq_ok.mp h
  exact (expandNode_unfolds (expandRef_unfolds ht _ _) key v known w c (.refl t known)
    (by rw [hkey]; rfl) hrun).2.2

/-- A grounded schema is dereferenced. -/
theorem expandFrom_of_grounded (ht : t.Real) {key : Path} (hkey : known.find? key = some v)
    (h : Grounded t known key v) : ∃ w, expandFrom t v key known = .ok w := by
  obtain ⟨w, c, hrun, -⟩ := expandNode_ends
    (fun _ hm => expandRef_ends ht (Or.inl hkey) h .none rfl hm) known (.refl t known)
    (by rw [hkey]; rfl)
  exact ⟨w, expandFrom_eq_ok.mpr ⟨c, hrun⟩⟩

/-- If references that lead to a node are located, no others are admitted in an unfolding. -/
theorem Unfolds.located {start : Path} (h : Unfolds t known Admits .schema start v w)
    (hlocated : ∀ doc reference x n, Reached t known start v doc reference →
      Points t known doc reference x n → Located t known doc reference) :
    Unfolds t known (Located t known) .schema start v w :=
  h.carry (fun _ _ _ _ _ hr hp hm => .next hr hp hm)
    (fun doc reference x n hr hp => ⟨hlocated doc reference x n hr hp, hp⟩) fun _ hm => .here hm

/-- A file is read and then expanded, with nothing else known. -/
theorem dereferenceFile_eq (t : FileTree) (p : Path) :
    dereferenceFile t p = match readDocument t (documentKey t p) with
      | .error cause => .error (.unreadableFile p.text (documentKey t p) cause)
      | .ok v => expandFrom t v (documentKey t p)
          (DocumentCache.empty.put (documentKey t p) v) := by
  unfold dereferenceFile DocumentCache.fetch
  dsimp only
  cases readDocument t (documentKey t p) with
  | error cause => rfl
  | ok v => rfl

/-- The documents in memory when a value is dereferenced. -/
def seededWith (t : FileTree) (v : Json) (base : Path) : DocumentCache :=
  (DocumentCache.empty.seed t base v).2

theorem find?_seededWith (t : FileTree) (v : Json) (base : Path) :
    (seededWith t v base).find? (documentKey t base) = some v :=
  DocumentCache.find?_put_self ..

/-- Dereferencing a value finds what it unfolds to, and all it finds is an unfolding. The value
unfolds exactly if it is grounded. What is found is also located by the disk and the value alone,
unless a reference names no file but spells the path of one, which was read before. -/
theorem dereferenceValue_unfolds (ht : t.Real) (v : Json) (base : Path) :
    (∀ w, Unfolds t (seededWith t v base) (Located t (seededWith t v base)) .schema
      (documentKey t base) v w → dereferenceValue t v base = .ok w) ∧
    (∀ w, dereferenceValue t v base = .ok w →
      Unfolds t (seededWith t v base) AnyReference .schema (documentKey t base) v w) ∧
    ((∃ w, Unfolds t (seededWith t v base) (Located t (seededWith t v base)) .schema
      (documentKey t base) v w) ↔ Grounded t (seededWith t v base) (documentKey t base) v) ∧
    ((∀ doc reference x n, Reached t (seededWith t v base) (documentKey t base) v doc reference →
        Points t (seededWith t v base) doc reference x n →
          Located t (seededWith t v base) doc reference) →
      ∀ w, dereferenceValue t v base = .ok w ↔ Unfolds t (seededWith t v base)
        (Located t (seededWith t v base)) .schema (documentKey t base) v w) := by
  have hkey := find?_seededWith t v base
  have hrun : dereferenceValue t v base =
      expandFrom t v (documentKey t base) (seededWith t v base) := rfl
  rw [hrun]
  have hfinds : ∀ w, Unfolds t (seededWith t v base) (Located t (seededWith t v base)) .schema
      (documentKey t base) v w →
        expandFrom t v (documentKey t base) (seededWith t v base) = .ok w := by
    intro w hw
    obtain ⟨w', hok⟩ := expandFrom_of_grounded ht hkey (hw.grounded ht)
    rw [hok, (unfolds_of_expandFrom ht hkey hok).unique ht hw]
  refine ⟨hfinds, fun w hok => unfolds_of_expandFrom ht hkey hok, ⟨?_, fun hground => ?_⟩,
    fun hlocated w => ⟨fun hok => ?_, hfinds w⟩⟩
  · rintro ⟨w, hw⟩
    exact hw.grounded ht
  · obtain ⟨w, hok⟩ := expandFrom_of_grounded ht hkey hground
    exact ⟨w, (unfolds_of_expandFrom ht hkey hok).located fun doc reference _ _ hr _ =>
      (hground.leads doc reference hr).1⟩
  · exact (unfolds_of_expandFrom ht hkey hok).located hlocated

/-! ## A path with a slash at the end -/

/-- A disk with two empty schemas. -/
def twoSchemas : FileTree where
  entries := [([.text "a.json"], .file (.text "\x7b\x7d")), ([.text "b.json"], .file (.text "\x7b\x7d"))]
  workingPlace := []

/-- A schema with two properties that are references. -/
def twoReferences (first second : String) : Json :=
  .object [("properties", .object [("x", .object [("$ref", .string first)]),
    ("y", .object [("$ref", .string second)])])]

theorem dereferenceValue_unfolds_shared :
    Unfolds twoSchemas (seededWith twoSchemas (twoReferences "b.json" "b.json") ⟨"a.json"⟩)
      AnyReference .schema ⟨"/a.json"⟩ (twoReferences "b.json" "b.json")
      (.object [("properties", .object [("x", .object []), ("y", .object [])])]) := by
  have hrun : (dereferenceValue twoSchemas (twoReferences "b.json" "b.json") ⟨"a.json"⟩).toOption =
      some (.object [("properties", .object [("x", .object []), ("y", .object [])])]) := by
    decide +kernel
  have hkey : documentKey twoSchemas ⟨"a.json"⟩ = ⟨"/a.json"⟩ := by decide +kernel
  rw [← hkey]
  exact (dereferenceValue_unfolds (by decide +kernel) (twoReferences "b.json" "b.json")
    ⟨"a.json"⟩).2.1 _ (toOption_eq_some.mp hrun)

/-- No file has a path with a slash behind it, so there is no unfolding. Yet the second reference is
located if the file was read before it, and is not if it comes first. -/
theorem dereferenceValue_trailingSlash :
    (∀ w, ¬ Unfolds twoSchemas (seededWith twoSchemas (twoReferences "b.json" "b.json/") ⟨"a.json"⟩)
      (Located twoSchemas (seededWith twoSchemas (twoReferences "b.json" "b.json/") ⟨"a.json"⟩))
      .schema (documentKey twoSchemas ⟨"a.json"⟩) (twoReferences "b.json" "b.json/") w) ∧
    (dereferenceValue twoSchemas (twoReferences "b.json" "b.json/") ⟨"a.json"⟩).toOption =
      some (.object [("properties", .object [("x", .object []), ("y", .object [])])]) ∧
    (dereferenceValue twoSchemas (twoReferences "b.json/" "b.json") ⟨"a.json"⟩).toOption = none := by
  refine ⟨fun w h => ?_, by decide +kernel, by decide +kernel⟩
  have hmention : Mentions .schema (twoReferences "b.json" "b.json/") "b.json/" := by
    refine .member (List.mem_singleton_self _) ?_
    exact .named (List.mem_cons_of_mem _ (List.mem_singleton_self _)) (.here (by decide +kernel))
  obtain ⟨x, n, u, hlocated, -⟩ := h.of_mentions (by decide +kernel) hmention
  have hparse : (RefTarget.parse "b.json/").toOption = some ⟨some "b.json/", .root⟩ := by
    decide +kernel
  rcases hlocated _ _ (toOption_eq_some.mp hparse) rfl with hthere | hthere
  · exact absurd hthere (by decide +kernel)
  · exact absurd hthere (by decide +kernel)

end SchemaBindings.Dereference
