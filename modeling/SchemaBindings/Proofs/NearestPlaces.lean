import Mathlib.Data.List.Induction
import SchemaBindings.Proofs.BundleEnds
import SchemaBindings.Proofs.PointerAddresses

/-! # The nearest place, found by texts

Where a node stands is told by tokens: they are taken off its pointer, from the
last one on, until something has a place. The same can be done with texts, which
are cut at their last slash, while the rest is cut out by its first byte. Both
searches agree. Each takes off whole tokens, so a text that is merely the
start of another is never taken for an ancestor. -/

namespace SchemaBindings

namespace Pointer

/-- More tokens are written behind the text. -/
theorem text_append (p : Pointer) (more : List String) :
    (p.append more).text = p.text ++ (Pointer.mk more).text := by
  rw [← String.toList_inj, String.toList_append, toList_text, toList_text, toList_text]
  exact List.flatMap_append

theorem toList_text_concat (tokens : List String) (token : String) :
    (Pointer.mk (tokens ++ [token])).text.toList =
      (Pointer.mk tokens).text.toList ++ '/' :: token.toList := by
  rw [toList_text, toList_text, List.flatMap_append]
  simp

end Pointer

namespace Bundle

/-- A node of a document and where it stands in the bundle, as texts. -/
structure TextSite where
  document : Path
  pointer : String
  location : String

/-- A place as texts. -/
def Site.asText (s : Site) : TextSite := ⟨s.document, s.pointer.text, s.location.text⟩

/-- The place that is noted for a document and a text. -/
def noted? (sites : List TextSite) (doc : Path) (front : List Char) : Option String :=
  (sites.find? fun s => s.document.same doc && s.pointer.toList = front).map (·.location)

/-- What stands before the last slash of a text; nothing if there is no slash. -/
def beforeSlash (cs : List Char) : List Char := ((cs.reverse.dropWhile (· ≠ '/')).drop 1).reverse

/-- A text from one of its bytes on; nothing if that byte is within a character. -/
def fromByte? : (byte : Nat) → List Char → Option (List Char)
  | 0, cs => some cs
  | _ + 1, [] => none
  | byte + 1, c :: cs =>
    if c.utf8Size ≤ byte + 1 then fromByte? (byte + 1 - c.utf8Size) cs else none

theorem beforeSlash_length_lt {cs : List Char} (h : cs ≠ []) :
    (beforeSlash cs).length < cs.length := by
  have hdrop := (List.dropWhile_suffix (l := cs.reverse) (· ≠ '/')).length_le
  have hpos := List.length_pos_iff.mpr h
  unfold beforeSlash
  rw [List.length_reverse, List.length_drop]
  rw [List.length_reverse] at hdrop
  omega

/-- Looks for a place that is noted for the front of a text, or for what stands before its last slash,
and so on. What comes behind the front in the whole text is put behind the place. -/
def searchText? (sites : List TextSite) (doc : Path) (whole front : List Char) : Option String :=
  match noted? sites doc front with
  | some location =>
    (fromByte? (Json.byteLength front) whole).map fun rest => location ++ String.ofList rest
  | none => if _ : front = [] then none else searchText? sites doc whole (beforeSlash front)
termination_by front.length
decreasing_by exact beforeSlash_length_lt ‹_›

/-- Where a node stands, by the text of its pointer. -/
def textSite? (sites : List TextSite) (doc : Path) (pointer : String) : Option String :=
  searchText? sites doc pointer.toList pointer.toList

/-! ## Cutting texts -/

theorem beforeSlash_append {cs : List Char} (h : '/' ∉ cs) (front : List Char) :
    beforeSlash (front ++ '/' :: cs) = front := by
  have hpass : ∀ c ∈ cs.reverse, decide (c ≠ '/') = true := fun c hc =>
    decide_eq_true fun heq => h (heq ▸ List.mem_reverse.mp hc)
  have hback : (front ++ '/' :: cs).reverse = cs.reverse ++ '/' :: front.reverse := by simp
  unfold beforeSlash
  rw [hback, List.dropWhile_append_of_pos hpass, List.dropWhile_cons_of_neg (by decide)]
  exact List.reverse_reverse front

theorem byteLength_cons (c : Char) (cs : List Char) :
    Json.byteLength (c :: cs) = c.utf8Size + Json.byteLength cs := by
  have hfrom (n : Nat) : cs.foldl (fun n c => n + c.utf8Size) n =
      n + cs.foldl (fun n c => n + c.utf8Size) 0 := by
    induction cs generalizing n with
    | nil => rfl
    | cons d cs ih =>
      rw [List.foldl_cons, ih, List.foldl_cons, ih (0 + d.utf8Size), Nat.zero_add, Nat.add_assoc]
  unfold Json.byteLength
  rw [List.foldl_cons, hfrom, Nat.zero_add]

/-- Behind the bytes of its front stands the rest of a text. -/
theorem fromByte?_append (front rest : List Char) :
    fromByte? (Json.byteLength front) (front ++ rest) = some rest := by
  induction front with
  | nil => cases rest <;> rfl
  | cons c front ih =>
    obtain ⟨size, hsize⟩ := Nat.exists_eq_succ_of_ne_zero (Nat.ne_of_gt c.utf8Size_pos)
    have hbyte : c.utf8Size + Json.byteLength front = size + Json.byteLength front + 1 := by omega
    rw [byteLength_cons, List.cons_append, hbyte, fromByte?, if_pos (by omega), ← ih]
    congr 1
    omega

/-! ## The search -/

variable {sites : List TextSite} {doc : Path} {above : List String}

/-- Of all beginnings of some tokens that have a place noted, the longest. -/
structure Nearest (sites : List TextSite) (doc : Path) (tokens near more : List String)
    (location : String) : Prop where
  split : tokens = near ++ more
  noted : noted? sites doc (Pointer.mk near).text.toList = some location
  longest : ∀ other, other <+: tokens → near.length < other.length →
    noted? sites doc (Pointer.mk other).text.toList = none

/-- One look of the search: it ends with the place of the front or goes on without the last token. -/
theorem searchText?_of_noted {location : String} (below : List String)
    (h : noted? sites doc (Pointer.mk above).text.toList = some location) :
    searchText? sites doc (Pointer.mk (above ++ below)).text.toList (Pointer.mk above).text.toList =
      some (location ++ (Pointer.mk below).text) := by
  have hwhole : (Pointer.mk (above ++ below)).text.toList =
      (Pointer.mk above).text.toList ++ (Pointer.mk below).text.toList := by
    rw [← String.toList_append]
    exact congrArg String.toList (Pointer.text_append ⟨above⟩ below)
  rw [searchText?, h, hwhole]
  dsimp only
  rw [fromByte?_append, Option.map_some, String.ofList_toList]

theorem searchText?_concat {token : String} (htoken : '/' ∉ token.toList) (whole : List Char)
    (h : noted? sites doc (Pointer.mk (above ++ [token])).text.toList = none) :
    searchText? sites doc whole (Pointer.mk (above ++ [token])).text.toList =
      searchText? sites doc whole (Pointer.mk above).text.toList := by
  have hne : (Pointer.mk (above ++ [token])).text.toList ≠ [] := by
    rw [Pointer.toList_text_concat]
    exact List.append_ne_nil_of_right_ne_nil _ (List.cons_ne_nil _ _)
  rw [searchText?, h]
  dsimp only
  rw [dif_neg hne, Pointer.toList_text_concat, beforeSlash_append htoken]

theorem searchText?_root {whole : List Char}
    (h : noted? sites doc (Pointer.mk []).text.toList = none) :
    searchText? sites doc whole (Pointer.mk []).text.toList = none := by
  rw [searchText?, h]
  rfl

/-- The search ends at the nearest beginning that has a place, or finds that none has. -/
theorem searchText?_ends (hspelled : (Pointer.mk above).Spelled) (below : List String) :
    (searchText? sites doc (Pointer.mk (above ++ below)).text.toList
        (Pointer.mk above).text.toList = none ∧
      ∀ near, near <+: above → noted? sites doc (Pointer.mk near).text.toList = none) ∨
    ∃ near more location, Nearest sites doc above near more location ∧
      searchText? sites doc (Pointer.mk (above ++ below)).text.toList
        (Pointer.mk above).text.toList = some (location ++ (Pointer.mk (more ++ below)).text) := by
  induction above using List.reverseRecOn generalizing below with
  | nil =>
    cases hnoted : noted? sites doc (Pointer.mk []).text.toList with
    | none =>
      refine .inl ⟨searchText?_root hnoted, fun near hnear => ?_⟩
      rwa [List.prefix_nil.mp hnear]
    | some location =>
      refine .inr ⟨[], [], location, ⟨rfl, hnoted, fun other hother hlt => ?_⟩,
        searchText?_of_noted below hnoted⟩
      rw [List.prefix_nil.mp hother] at hlt
      exact absurd hlt (Nat.lt_irrefl 0)
  | append_singleton above token ih =>
    cases hnoted : noted? sites doc (Pointer.mk (above ++ [token])).text.toList with
    | some location =>
      refine .inr ⟨above ++ [token], [], location, ⟨(List.append_nil _).symm, hnoted,
        fun other hother hlt => ?_⟩, searchText?_of_noted below hnoted⟩
      exact absurd hother.length_le (Nat.not_le_of_gt hlt)
    | none =>
      have htoken : '/' ∉ token.toList := hspelled token (by simp)
      have habove : (Pointer.mk above).Spelled := fun t ht =>
        hspelled t (List.mem_append_left _ ht)
      have hmore : above ++ [token] ++ below = above ++ token :: below := by simp
      rw [searchText?_concat htoken _ hnoted, hmore]
      rcases ih habove (token :: below) with ⟨hnone, hall⟩ | ⟨near, more, location, hnear, hfound⟩
      · refine .inl ⟨hnone, fun near hnear => ?_⟩
        rcases List.prefix_concat_iff.mp hnear with rfl | hnear
        · exact hnoted
        · exact hall near hnear
      · refine .inr ⟨near, more ++ [token], location, ⟨?_, hnear.noted, fun other hother hlt => ?_⟩,
          ?_⟩
        · rw [hnear.split, List.append_assoc]
        · rcases List.prefix_concat_iff.mp hother with rfl | hother
          · exact hnoted
          · exact hnear.longest other hother hlt
        · rw [hfound, List.append_assoc]
          rfl

/-- There is one nearest beginning. -/
theorem Nearest.unique {tokens near near' more more' : List String} {location location' : String}
    (h : Nearest sites doc tokens near more location)
    (h' : Nearest sites doc tokens near' more' location') :
    near = near' ∧ more = more' ∧ location = location' := by
  have hnear : near <+: tokens := ⟨more, h.split.symm⟩
  have hnear' : near' <+: tokens := ⟨more', h'.split.symm⟩
  have hlength : near.length = near'.length := by
    rcases Nat.lt_trichotomy near.length near'.length with hlt | heq | hlt
    · have hnone := h.longest near' hnear' hlt
      rw [h'.noted] at hnone
      cases hnone
    · exact heq
    · have hnone := h'.longest near hnear hlt
      rw [h.noted] at hnone
      cases hnone
  obtain ⟨rfl, rfl⟩ := List.append_inj (h.split.symm.trans h'.split) hlength
  exact ⟨rfl, rfl, Option.some.inj (h.noted.symm.trans h'.noted)⟩

/-! ## Tokens and texts -/

/-- The pointers of some places can be told apart by their texts. -/
def Legible (placed : List Site) : Prop := ∀ s ∈ placed, s.pointer.Spelled

theorem Legible.cons {s : Site} {placed : List Site} (h : Legible placed)
    (hs : s.pointer.Spelled) : Legible (s :: placed) := List.forall_mem_cons.mpr ⟨hs, h⟩

/-- Places are noted for the texts of their pointers. -/
theorem noted?_asText (doc : Path) {placed : List Site} (hplaced : Legible placed) {p : Pointer}
    (hp : p.Spelled) :
    noted? (placed.map Site.asText) doc p.text.toList = (placeOf? placed doc p).map (·.text) := by
  induction placed with
  | nil => rfl
  | cons s placed ih =>
    obtain ⟨hs, hplaced⟩ := List.forall_mem_cons.mp hplaced
    have hsame : s.pointer.text.toList = p.text.toList ↔ s.pointer = p := by
      refine ⟨fun h => ?_, fun h => h ▸ rfl⟩
      have hread := congrArg Pointer.ofText? (String.toList_inj.mp h)
      rwa [Pointer.ofText?_text hs, Pointer.ofText?_text hp, Option.some.injEq] at hread
    have hrest := ih hplaced
    unfold noted? placeOf? at hrest ⊢
    have hcheck : (s.asText.document.same doc && decide (s.asText.pointer.toList = p.text.toList)) =
        (s.document.same doc && decide (s.pointer = p)) := by
      rw [show s.asText.pointer.toList = s.pointer.text.toList from rfl, decide_eq_decide.mpr hsame]
      rfl
    rw [List.map_cons, List.find?_cons, List.find?_cons, hcheck]
    split
    · rfl
    · exact hrest

/-- The searches by texts and by tokens agree. -/
theorem searchText?_asText {placed : List Site} (hplaced : Legible placed)
    (hspelled : (Pointer.mk above).Spelled) (below : List String) :
    searchText? (placed.map Site.asText) doc (Pointer.mk (above ++ below)).text.toList
        (Pointer.mk above).text.toList =
      (siteFrom? placed doc below above.reverse).map (·.text) := by
  induction above using List.reverseRecOn generalizing below with
  | nil =>
    have hnoted := noted?_asText doc hplaced hspelled
    rw [List.reverse_nil, siteFrom?]
    cases hplace : placeOf? placed doc .root with
    | none =>
      rw [show Pointer.mk [] = .root from rfl, hplace] at hnoted
      rw [searchText?_root hnoted]
      rfl
    | some l =>
      rw [show Pointer.mk [] = .root from rfl, hplace] at hnoted
      rw [searchText?_of_noted below hnoted, ← Pointer.text_append]
      rfl
  | append_singleton above token ih =>
    have hback : (above ++ [token]).reverse = token :: above.reverse := by simp
    have hagain : (token :: above.reverse).reverse = above ++ [token] := by simp
    have hnoted := noted?_asText doc hplaced hspelled
    rw [hback, siteFrom?, hagain]
    cases hplace : placeOf? placed doc ⟨above ++ [token]⟩ with
    | none =>
      have htoken : '/' ∉ token.toList := hspelled token (by simp)
      have habove : (Pointer.mk above).Spelled := fun t ht =>
        hspelled t (List.mem_append_left _ ht)
      rw [hplace] at hnoted
      rw [searchText?_concat htoken _ hnoted, List.append_assoc]
      exact ih habove (token :: below)
    | some l =>
      rw [hplace] at hnoted
      rw [searchText?_of_noted below hnoted, ← Pointer.text_append]
      rfl

theorem textSite?_eq (sites : List TextSite) (doc : Path) {pointer : String} {p : Pointer}
    (hp : Pointer.ofText? pointer = some p) :
    textSite? sites doc pointer = searchText? sites doc
      (Pointer.mk (p.tokens ++ [])).text.toList (Pointer.mk p.tokens).text.toList := by
  rw [List.append_nil, textSite?, ← Pointer.text_of_ofText? hp]

/-- The texts of the beginnings of a pointer are those that are read as such. -/
theorem forall_front_iff {p : Pointer} (hp : p.Spelled) (Holds : List String → List Char → Prop) :
    (∀ front q, Pointer.ofText? front = some q → q.tokens <+: p.tokens →
        Holds q.tokens front.toList) ↔
      ∀ near, near <+: p.tokens → Holds near (Pointer.mk near).text.toList := by
  constructor
  · intro h near hnear
    refine h _ ⟨near⟩ (Pointer.ofText?_text fun token htoken => ?_) hnear
    exact hp token (hnear.subset htoken)
  · intro h front q hfront hq
    rw [← Pointer.text_of_ofText? hfront]
    exact h q.tokens hq

theorem textSite?_eq_none_iff {pointer : String} {p : Pointer}
    (hp : Pointer.ofText? pointer = some p) :
    textSite? sites doc pointer = none ↔
      ∀ near, near <+: p.tokens → noted? sites doc (Pointer.mk near).text.toList = none := by
  rw [textSite?_eq sites doc hp]
  rcases searchText?_ends (Pointer.spelled_of_ofText? hp) [] with
    ⟨hnone, hall⟩ | ⟨near, more, location, hnear, hfound⟩
  · exact iff_of_true hnone hall
  · refine iff_of_false (by rw [hfound]; exact Option.some_ne_none _) fun hall => ?_
    have hnone := hall near ⟨more, hnear.split.symm⟩
    rw [hnear.noted] at hnone
    cases hnone

theorem textSite?_eq_some_iff {pointer l : String} {p : Pointer}
    (hp : Pointer.ofText? pointer = some p) :
    textSite? sites doc pointer = some l ↔ ∃ near more location,
      Nearest sites doc p.tokens near more location ∧ l = location ++ (Pointer.mk more).text := by
  rw [textSite?_eq sites doc hp]
  rcases searchText?_ends (Pointer.spelled_of_ofText? hp) [] with
    ⟨hnone, hall⟩ | ⟨near, more, location, hnear, hfound⟩
  · refine iff_of_false (by rw [hnone]; exact (Option.some_ne_none _).symm) ?_
    rintro ⟨near, more, location, hnear, -⟩
    have hnoted := hall near ⟨more, hnear.split.symm⟩
    rw [hnear.noted] at hnoted
    cases hnoted
  · rw [hfound, List.append_nil, Option.some.injEq]
    refine ⟨fun hl => ⟨near, more, location, hnear, hl.symm⟩, ?_⟩
    rintro ⟨near', more', location', hnear', rfl⟩
    obtain ⟨-, rfl, rfl⟩ := hnear.unique hnear'
    rfl

/-- What is nearest among the tokens is nearest among the texts that are read as their beginnings. -/
theorem exists_nearest_iff {p : Pointer} (hp : p.Spelled) {Gives : String → List String → Prop} :
    (∃ near more location, Nearest sites doc p.tokens near more location ∧ Gives location more) ↔
      ∃ front q location more, Pointer.ofText? front = some q ∧ p.tokens = q.tokens ++ more ∧
        noted? sites doc front.toList = some location ∧
        (∀ other r, Pointer.ofText? other = some r → r.tokens <+: p.tokens →
          q.tokens.length < r.tokens.length → noted? sites doc other.toList = none) ∧
        Gives location more := by
  constructor
  · rintro ⟨near, more, location, hnear, hgives⟩
    have hnearSpelled : (Pointer.mk near).Spelled := fun token htoken =>
      hp token (hnear.split ▸ List.mem_append_left _ htoken)
    refine ⟨_, ⟨near⟩, location, more, Pointer.ofText?_text hnearSpelled, hnear.split, hnear.noted,
      ?_, hgives⟩
    exact (forall_front_iff hp fun tokens front =>
      near.length < tokens.length → noted? sites doc front = none).mpr hnear.longest
  · rintro ⟨front, q, location, more, hfront, hsplit, hnoted, hlongest, hgives⟩
    refine ⟨q.tokens, more, location, ⟨hsplit, ?_, ?_⟩, hgives⟩
    · rwa [Pointer.text_of_ofText? hfront]
    · exact (forall_front_iff hp fun tokens front =>
        q.tokens.length < tokens.length → noted? sites doc front = none).mp hlongest

/-- For the text of a pointer, the search by texts finds nothing exactly if no beginning of the tokens
has a place noted, and otherwise the place of the longest such beginning, with the other tokens behind
it. If the texts are those of noted pointers, it is the search by tokens. -/
theorem nearest_place (sites : List TextSite) (doc : Path) (pointer : String)
    (h : pointer = "" ∨ pointer.toList.head? = some '/') :
    ∃ p, Pointer.ofText? pointer = some p ∧
      (textSite? sites doc pointer = none ↔
        ∀ front q, Pointer.ofText? front = some q → q.tokens <+: p.tokens →
          noted? sites doc front.toList = none) ∧
      (∀ l, textSite? sites doc pointer = some l ↔
        ∃ front q location more, Pointer.ofText? front = some q ∧ p.tokens = q.tokens ++ more ∧
          noted? sites doc front.toList = some location ∧
          (∀ other r, Pointer.ofText? other = some r → r.tokens <+: p.tokens →
            q.tokens.length < r.tokens.length → noted? sites doc other.toList = none) ∧
          l = location ++ (Pointer.mk more).text) ∧
      ∀ placed, Legible placed → sites = placed.map Site.asText →
        textSite? sites doc pointer = (site? placed doc p).map (·.text) := by
  obtain ⟨p, hp⟩ := Pointer.exists_ofText? h
  have hspelled := Pointer.spelled_of_ofText? hp
  refine ⟨p, hp, ?_, fun l => ?_, fun placed hplaced heq => ?_⟩
  · rw [forall_front_iff hspelled fun _ front => noted? sites doc front = none]
    exact textSite?_eq_none_iff hp
  · rw [textSite?_eq_some_iff hp]
    exact exists_nearest_iff hspelled
  · rw [textSite?_eq sites doc hp, heq, searchText?_asText hplaced hspelled]
    rfl

/-- Of two ancestors the nearer one counts, with the empty token that its text ends in; `/a` is no
ancestor of `/ab`. -/
theorem nearest_place_empty :
    let placed : List Site := [
      ⟨⟨"a.json"⟩, ⟨["a"]⟩, ⟨["$defs", "b"]⟩⟩, ⟨⟨"a.json"⟩, ⟨["ab", ""]⟩, ⟨["$defs", "c"]⟩⟩,
      ⟨⟨"a.json"⟩, .root, ⟨["$defs", "a"]⟩⟩]
    "/ab".toList.head? = some '/' ∧ Legible placed ∧
      textSite? (placed.map Site.asText) ⟨"a.json"⟩ "/ab//" = some "/$defs/c/" ∧
      textSite? (placed.map Site.asText) ⟨"a.json"⟩ "/ab" = some "/$defs/a/ab" := by
  intro placed
  have hlegible : Legible placed := by
    unfold Legible Pointer.Spelled
    decide
  obtain ⟨p, hp, -, -, hlong⟩ := nearest_place (placed.map Site.asText) ⟨"a.json"⟩
    "/ab//" (.inr rfl)
  obtain ⟨q, hq, -, -, hshort⟩ := nearest_place (placed.map Site.asText) ⟨"a.json"⟩
    "/ab" (.inr rfl)
  have htokens : Pointer.ofText? "/ab//" = some ⟨["ab", "", ""]⟩ := rfl
  have htoken : Pointer.ofText? "/ab" = some ⟨["ab"]⟩ := rfl
  cases hp.symm.trans htokens
  cases hq.symm.trans htoken
  refine ⟨rfl, hlegible, ?_, ?_⟩
  · rw [hlong placed hlegible rfl]
    decide
  · rw [hshort placed hlegible rfl]
    decide

/-! ## While a bundle is made -/

variable {t : FileTree} {s s' : State}

theorem course_legible : Course (fun s => Legible s.sites) (fun _ s' => Legible s'.sites)
    (fun _ _ _ s' => Legible s'.sites) where
  refl _ h := h
  trans _ _ _ _ h := h
  ready _ _ _ h := h
  fails _ _ _ _ _ _ h := h

/-- A reference is read from a text, and so is the pointer of what is placed for it. -/
theorem followRef_legible (ht : t.Real) (depth : Nat) (reference : String) (doc : Path)
    (spot : Pointer) : Treats (fun s => Legible s.sites) (fun _ s' => Legible s'.sites)
      (fun _ _ _ s' => Legible s'.sites) (fun _ => True) (followRef t depth reference doc spot) := by
  induction depth generalizing reference doc spot with
  | zero =>
    refine ⟨fun _ hrun => absurd hrun Runs.not_throw, fun hs hstop => ?_⟩
    obtain ⟨-, rfl⟩ := hstop.throw
    exact ⟨reference, trivial, hs⟩
  | succ depth ih =>
    have hnode (doc : Path) (spot : Pointer) (v : Json) := relocateNode_treats course_legible v
      (fun reference _ spot => ih reference doc spot) spot
    refine ⟨fun {s outcome s'} hs hrun => ?_, fun {s e s'} hs hstop => ⟨reference, trivial, ?_⟩⟩
    · obtain ⟨target, hparse, hrun⟩ := followRef_runs ht hrun
      rcases followTarget_runs hrun with ⟨_, _, _, rfl⟩ | ⟨-, key, node, c, w, -, hw, -⟩
      · exact hs
      · exact (hnode _ _ _).passes (hs.cons (spelled_of_parse hparse)) hw
    · rcases followRef_stops ht hstop with ⟨-, rfl⟩ | ⟨target, hparse, hstop⟩
      · exact hs
      obtain ⟨-, ⟨c, -, rfl⟩ | ⟨key, node, c, -, hstop⟩⟩ := followTarget_stops hstop
      · exact hs
      · obtain ⟨_, _, hlegible⟩ := (hnode _ _ _).fails (hs.cons (spelled_of_parse hparse)) hstop
        exact hlegible

theorem relocateParts_legible (ht : t.Real) {depth : Nat} {parts : List Part} {definitions : Members}
    (hs : Legible s.sites) (hrun : relocateParts t depth s parts = .ok (definitions, s')) :
    Legible s'.sites := by
  induction parts generalizing s definitions with
  | nil =>
    cases hrun
    exact hs
  | cons part parts ih =>
    rw [relocateParts] at hrun
    split at hrun
    · cases hrun
    · rename_i w u hw
      split at hrun
      · cases hrun
      · rename_i ws u' hws
        cases hrun
        have hpart := relocateNode_treats course_legible (withoutRootKeywords part.source.value)
          (fun reference _ spot => followRef_legible ht depth reference part.document spot)
          part.member.location
        exact ih (hpart.passes hs hw) hws

/-- When a bundle is made, texts lead where tokens lead. -/
theorem textSite?_assembled (ht : t.Real) {ds : List SchemaDocument} {a : Assembly}
    (h : assemble t ds = .ok a) {pointer : String} {p : Pointer}
    (hp : Pointer.ofText? pointer = some p) :
    textSite? (a.sites.map Site.asText) doc pointer = (site? a.sites doc p).map (·.text) := by
  obtain ⟨definitions, s', hrun, -, hsites⟩ := assemble_eq_ok h
  have hbegun : Legible (begun t ds).sites := by
    intro x hx
    rw [(seeded_knownFrom t ds).atRoot x hx]
    exact fun token htoken => absurd htoken List.not_mem_nil
  have hlegible := relocateParts_legible ht hbegun hrun
  rw [← hsites] at hlegible
  rw [textSite?_eq _ _ hp, searchText?_asText hlegible (Pointer.spelled_of_ofText? hp)]
  rfl

end Bundle

end SchemaBindings
