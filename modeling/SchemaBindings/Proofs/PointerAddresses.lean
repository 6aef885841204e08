import Mathlib.Data.Bool.AllAny
import SchemaBindings.Proofs.PointerTexts

/-! # What pointers address

A way down a document, by the keys of objects and the indexes of arrays, is
written as the text of a pointer, and that text as a reference. Both ways back
are open: the reference is decoded to the text, and the text leads to the node
at the end of the way. Parsing a reference looks for a host first, over the
whole text, so the pointers that are parsed are those without the mark that
stands before a host. -/

namespace SchemaBindings

open Text (contains replaceFrom replace)

namespace Text

/-! ## Pieces of texts that are written otherwise -/

variable {piece xs ys cs : List Char}

theorem contains_cons_of_not_mem {c : Char} (hne : piece ≠ []) (hc : c ∉ piece) :
    contains piece (c :: cs) = contains piece cs := by
  obtain ⟨d, more, rfl⟩ := List.exists_cons_of_ne_nil hne
  have hd : d ≠ c := by
    rintro rfl
    exact hc (List.mem_cons_self ..)
  rw [contains, List.isPrefixOf, beq_false_of_ne hd, Bool.false_and, Bool.false_or]

theorem contains_append_of_not_mem (hne : piece ≠ []) (h : ∀ c ∈ xs, c ∉ piece) :
    contains piece (xs ++ ys) = contains piece ys := by
  induction xs with
  | nil => rfl
  | cons c xs ih =>
    rw [List.cons_append, contains_cons_of_not_mem hne (h c (List.mem_cons_self ..)),
      ih fun d hd => h d (List.mem_cons_of_mem _ hd)]

/-- A way to write characters that leaves those of a piece as they are and writes no others with
them. -/
structure Leaves (piece : List Char) (write : Char → List Char) : Prop where
  kept : ∀ c ∈ piece, write c = [c]
  other : ∀ c, c ∉ piece → write c ≠ [] ∧ ∀ d ∈ write c, d ∉ piece

variable {write : Char → List Char}

theorem Leaves.isPrefixOf_flatMap (h : Leaves piece write) {part : List Char}
    (hpart : ∀ c ∈ part, c ∈ piece) (cs : List Char) :
    part.isPrefixOf (cs.flatMap write) = part.isPrefixOf cs := by
  induction part generalizing cs with
  | nil => simp
  | cons c part ih =>
    cases cs with
    | nil => rfl
    | cons d cs =>
      rw [List.flatMap_cons]
      by_cases hd : d ∈ piece
      · rw [h.kept d hd, List.singleton_append, List.isPrefixOf, List.isPrefixOf,
          ih fun e he => hpart e (List.mem_cons_of_mem _ he)]
      · obtain ⟨hne, hwritten⟩ := h.other d hd
        obtain ⟨e, more, hmore⟩ := List.exists_cons_of_ne_nil hne
        have hc : c ∈ piece := hpart c (List.mem_cons_self ..)
        have hce : c ≠ e := by
          rintro rfl
          exact hwritten c (hmore ▸ List.mem_cons_self ..) hc
        have hcd : c ≠ d := by
          rintro rfl
          exact hd hc
        rw [hmore, List.cons_append, List.isPrefixOf, List.isPrefixOf, beq_false_of_ne hce,
          beq_false_of_ne hcd, Bool.false_and, Bool.false_and]

theorem Leaves.contains_flatMap (h : Leaves piece write) (hne : piece ≠ []) (cs : List Char) :
    contains piece (cs.flatMap write) = contains piece cs := by
  induction cs with
  | nil => rfl
  | cons c cs ih =>
    by_cases hc : c ∈ piece
    · have hstart := h.isPrefixOf_flatMap (fun _ hd => hd) (c :: cs)
      rw [List.flatMap_cons, h.kept c hc, List.singleton_append] at hstart ⊢
      rw [contains, contains, hstart, ih]
    · rw [List.flatMap_cons, contains_append_of_not_mem hne (h.other c hc).2,
        contains_cons_of_not_mem hne hc, ih]

/-! ## Fragments -/

/-- The mark before a host. -/
def hostMark : List Char := "://".toList

namespace Percent

theorem digitChar_not_mem_hostMark : ∀ n < 16, digitChar n ∉ hostMark := by decide

theorem escape_not_mem_hostMark (b : UInt8) : ∀ c ∈ escape b, c ∉ hostMark := by
  intro c hc
  have hb := b.toNat_lt
  simp only [escape, List.mem_cons, List.not_mem_nil, or_false] at hc
  rcases hc with rfl | rfl | rfl
  · decide
  · exact digitChar_not_mem_hostMark _ (by omega)
  · exact digitChar_not_mem_hostMark _ (by omega)

/-- The characters before a host stand in a fragment as they are, and escapes hold none of them. -/
theorem leaves_hostMark : Leaves hostMark fun c =>
    if isFragmentChar c then [c] else (String.utf8EncodeChar c).flatMap escape where
  kept := List.all_iff_forall_prop.mp (by decide)
  other := by
    intro c hc
    split
    · refine ⟨List.cons_ne_nil _ _, fun d hd => ?_⟩
      rwa [List.mem_singleton.mp hd]
    · constructor
      · obtain ⟨b, bs, hbytes⟩ := List.exists_cons_of_ne_nil (l := String.utf8EncodeChar c)
          String.utf8EncodeChar_ne_nil
        rw [hbytes, List.flatMap_cons]
        exact List.cons_ne_nil _ _
      · intro d hd
        obtain ⟨b, -, hb⟩ := List.mem_flatMap.mp hd
        exact escape_not_mem_hostMark b d hb

theorem contains_encodeFragment (s : String) :
    contains hostMark (encodeFragment s).toList = contains hostMark s.toList := by
  unfold encodeFragment
  rw [String.toList_ofList]
  exact leaves_hostMark.contains_flatMap (by decide) s.toList

end Percent

end Text

namespace Pointer

/-! ## Reading tokens -/

/-- A replacement that starts with another character does not put a character in front. -/
theorem head?_replaceFrom_ne {c d : Char} (piece : List Char) {new cs : List Char}
    (hnew : new.head? = some c) (hcd : c ≠ d) (hhead : cs.head? ≠ some d) :
    (replaceFrom piece new 0 cs).head? ≠ some d := by
  cases cs with
  | nil => exact hhead
  | cons e cs =>
    rw [replaceFrom]
    split
    · rw [List.head?_append, hnew]
      simpa using hcd
    · exact hhead

/-- A token is read by two replacements, of what stands for a slash first. -/
theorem unescapeChars_eq_replace (cs : List Char) :
    unescapeChars cs = replace ['~', '0'] ['~'] (replace ['~', '1'] ['/'] cs) := by
  unfold replace
  fun_induction unescapeChars cs with
  | case1 rest ih => simp [replaceFrom, List.isPrefixOf, ih]
  | case2 rest ih => simp [replaceFrom, List.isPrefixOf, ih]
  | case3 c rest hone hzero ih =>
    have hinner : ['~', '1'].isPrefixOf (c :: rest) = false := by
      cases rest with
      | nil => simp [List.isPrefixOf]
      | cons d rest => simpa [List.isPrefixOf] using
        fun (hc : '~' = c) (hd : '1' = d) => hone rest hc.symm (by rw [hd])
    have houter : ['~', '0'].isPrefixOf (c :: replaceFrom ['~', '1'] ['/'] 0 rest) = false := by
      by_cases hc : c = '~'
      · have hhead : rest.head? ≠ some '0' := by
          intro hd
          obtain ⟨more, hmore⟩ := List.head?_eq_some_iff.mp hd
          exact hzero more hc hmore
        have hslash : ['/'].head? = some '/' := rfl
        have hnext := head?_replaceFrom_ne ['~', '1'] hslash (by decide) hhead
        cases hrest : replaceFrom ['~', '1'] ['/'] 0 rest with
        | nil => simp [List.isPrefixOf]
        | cons d more =>
          rw [hrest] at hnext
          simp only [List.head?_cons, ne_eq, Option.some.injEq] at hnext
          simp [List.isPrefixOf, Ne.symm hnext]
      · simp [List.isPrefixOf, Ne.symm hc]
    rw [replaceFrom, hinner, if_neg Bool.false_ne_true, replaceFrom, houter,
      if_neg Bool.false_ne_true, ih]
  | case4 => rfl

/-! ## Texts of pointers -/

/-- The pieces of a text between slashes, with a slash before each. -/
theorem flatMap_splitWhere (cs : List Char) :
    ((Text.splitWhere (· = '/') cs).flatMap fun piece => '/' :: piece) = '/' :: cs := by
  induction cs with
  | nil => rfl
  | cons c cs ih =>
    rw [Text.splitWhere]
    split
    · rename_i hc
      rw [List.flatMap_cons, ih, of_decide_eq_true hc]
      rfl
    · cases hs : Text.splitWhere (· = '/') cs with
      | nil => exact absurd hs (Text.splitWhere_ne_nil _ cs)
      | cons piece pieces =>
        rw [hs, List.flatMap_cons, List.cons_append] at ih
        rw [List.flatMap_cons, List.cons_append, List.cons_append, (List.cons.inj ih).2]

/-- What is read as a pointer is the text of the pointer. -/
theorem text_of_ofText? {s : String} {p : Pointer} (h : ofText? s = some p) : p.text = s := by
  rw [← String.toList_inj, toList_text]
  unfold ofText? at h
  split at h
  · rename_i hs
    cases h
    exact hs.symm
  · rename_i cs hs
    cases h
    rw [hs, ← flatMap_splitWhere, List.flatMap_map]
    simp only [String.toList_ofList]
  · cases h

theorem exists_ofText? {s : String} (h : s = "" ∨ s.toList.head? = some '/') :
    ∃ p, ofText? s = some p := by
  rcases h with rfl | h
  · exact ⟨.root, rfl⟩
  · obtain ⟨cs, hcs⟩ := List.head?_eq_some_iff.mp h
    unfold ofText?
    rw [hcs]
    exact ⟨_, rfl⟩

/-! ## Parsing -/

theorem isRemote_fragment (p : Pointer) :
    RefTarget.isRemote p.fragment = contains Text.hostMark p.text.toList := by
  have hhash : '#' ∉ Text.hostMark := by decide
  have hlist : p.fragment.toList = '#' :: (Text.Percent.encodeFragment p.text).toList := by
    unfold fragment
    rw [String.toList_append]
    rfl
  have hurn : "urn:".toList.isPrefixOf p.fragment.toList = false := by
    rw [hlist]
    rfl
  unfold RefTarget.isRemote
  rw [hurn, Bool.or_false, hlist]
  exact (Text.contains_cons_of_not_mem (by decide) hhash).trans
    (Text.Percent.contains_encodeFragment p.text)

/-- The text of a pointer that is written as a reference is parsed to the pointer exactly if it does
not hold the mark that stands before a host; with the mark, the reference is taken for a remote one. -/
theorem parse_fragment_iff {s : String} (h : s = "" ∨ s.toList.head? = some '/') :
    ∃ p : Pointer, p.text = s ∧
      (RefTarget.parse p.fragment = .ok ⟨none, p⟩ ↔ contains "://".toList s.toList = false) ∧
      (contains "://".toList s.toList = true →
        RefTarget.parse p.fragment = .error (.unsupported p.fragment .remote)) := by
  obtain ⟨p, hp⟩ := exists_ofText? h
  have htext := text_of_ofText? hp
  have hremote : RefTarget.isRemote p.fragment = contains "://".toList s.toList := by
    rw [isRemote_fragment, htext]
    rfl
  have hrefused (hmark : contains "://".toList s.toList = true) :
      RefTarget.parse p.fragment = .error (.unsupported p.fragment .remote) := by
    unfold RefTarget.parse
    rw [hremote, if_pos hmark]
  refine ⟨p, htext, ⟨fun hok => ?_, fun hmark => ?_⟩, hrefused⟩
  · rw [← Bool.not_eq_true]
    intro hmark
    rw [hrefused hmark] at hok
    cases hok
  · by_cases hroot : p.tokens = []
    · obtain ⟨tokens⟩ := p
      subst hroot
      decide +kernel
    · exact parse_fragment (spelled_of_ofText? hp) hroot (hremote.trans hmark)

/-- A key that is escaped twice over, in slashes and in percent signs. -/
theorem parse_fragment_escaped : ∃ p : Pointer, p.text = "/$defs/a~1b%2F:/é" ∧
    RefTarget.parse p.fragment = .ok ⟨none, p⟩ := by
  obtain ⟨p, htext, hparse, -⟩ := parse_fragment_iff (s := "/$defs/a~1b%2F:/é") (.inr (by decide))
  exact ⟨p, htext, hparse.mpr (by decide)⟩

/-- An empty key below one that ends in a colon makes the mark. -/
theorem parse_fragment_colon :
    (Pointer.mk ["a:", "", "b"]).text = "/a://b" ∧
    (Pointer.mk ["a:", "", "b"]).fragment = "#/a://b" ∧
    RefTarget.parse "#/a://b" = .error (.unsupported "#/a://b" .remote) := by
  refine ⟨by decide, by decide, ?_⟩
  unfold RefTarget.parse
  rw [if_pos (by decide)]

end Pointer

/-! ## Ways down a document -/

namespace Json

/-- A step from a node to one right below it. Indexes are those that a machine counts to. -/
inductive Step where
  | key (name : String)
  | index (n : UInt64)

/-- The name of a step. -/
def Step.name : Step → String
  | .key name => name
  | .index n => toString n.toNat

/-- The node one step below a node. -/
def below? : Json → Step → Option Json
  | .object ms, .key name => OrderedMap.get? ms name
  | .array xs, .index n => xs[n.toNat]?
  | _, _ => none

/-- The node at the end of a way. -/
def follow? (v : Json) (way : List Step) : Option Json := way.foldlM below? v

/-- The node that the text of a pointer leads to. -/
def atText? (v : Json) (s : String) : Option Json := (Pointer.ofText? s).bind v.at?

theorem Step.toNat_le_indexLimit (n : UInt64) : n.toNat ≤ Pointer.indexLimit := by
  have hn := n.toNat_lt
  have hlimit : Pointer.indexLimit = 2 ^ 64 - 1 := rfl
  omega

/-- No character of an index has to be escaped. -/
theorem escapeToken_toString (n : Nat) : Pointer.escapeToken (toString n) = toString n := by
  rw [← String.toList_inj]
  unfold Pointer.escapeToken
  rw [String.toList_ofList]
  have hplain : ∀ c ∈ (toString n).toList, (if c = '~' then ['~', '0'] else
      if c = '/' then ['~', '1'] else [c]) = [c] := by
    intro c hc
    have hdigit := Pointer.isDigit_of_mem_toString hc
    have htilde : c ≠ '~' := by
      rintro rfl
      revert hdigit
      decide
    have hslash : c ≠ '/' := by
      rintro rfl
      revert hdigit
      decide
    rw [if_neg htilde, if_neg hslash]
  rw [List.flatMap_congr hplain]
  exact List.flatMap_singleton' _

theorem step?_of_below? {v w : Json} {step : Step} (h : v.below? step = some w) :
    Pointer.step? v (Pointer.escapeToken step.name) = some w := by
  unfold below? at h
  split at h
  · exact (Pointer.step?_escapeToken _ _).trans h
  · rename_i n
    simp only [Step.name]
    rw [escapeToken_toString]
    exact (Pointer.step?_toString (Step.toNat_le_indexLimit n)).trans h
  · cases h

/-- The pointer of a way leads to its end. -/
theorem at?_of_follow? {v w : Json} {way : List Step} (h : v.follow? way = some w) :
    v.at? ⟨way.map fun step => Pointer.escapeToken step.name⟩ = some w := by
  induction way generalizing v with
  | nil => exact h
  | cons step way ih =>
    obtain ⟨u, hstep, hrest⟩ := Option.bind_eq_some_iff.mp ((List.foldlM_cons ..).symm.trans h)
    rw [List.map_cons, at?_cons, step?_of_below? hstep, Option.bind_some]
    exact ih hrest

/-- A pointer whose tokens are names that were escaped. -/
theorem spelled_map_escapeToken (names : List String) :
    (Pointer.mk (names.map Pointer.escapeToken)).Spelled := by
  intro token htoken
  obtain ⟨name, -, rfl⟩ := List.mem_map.mp htoken
  exact Pointer.not_mem_escapeToken name

end Json

namespace Pointer

/-- A pointer as a reference is decoded to its text, and the text leads to a node. -/
structure Addresses (p : Pointer) (v w : Json) : Prop where
  decoded : ∃ rest, p.fragment = "#" ++ rest ∧ Text.Percent.decode rest = p.text
  leads : v.atText? p.text = some w

theorem Spelled.addresses {p : Pointer} (hp : p.Spelled) {v w : Json} (h : v.at? p = some w) :
    p.Addresses v w where
  decoded := ⟨_, rfl, Text.Percent.decode_encodeFragment p.text⟩
  leads := by
    unfold Json.atText?
    rw [ofText?_text hp, Option.bind_some, h]

end Pointer

theorem Bundle.follow?_of_schema? {b : Bundle} {key : String} {w : Json}
    (h : b.schema? key = some w) : b.document.follow? [.key "$defs", .key key] = some w := by
  unfold schema? definitions? at h
  obtain ⟨definitions, hdefinitions, hkey⟩ := Option.bind_eq_some_iff.mp h
  obtain ⟨ms, hdocument, hinner⟩ := Option.bind_eq_some_iff.mp hdefinitions
  obtain ⟨v, hv, hmembers⟩ := Option.bind_eq_some_iff.mp hinner
  have hobject {u : Json} {us : Members} (hu : u.members? = some us) : u = .object us := by
    unfold Json.members? at hu
    split at hu
    · rw [Option.some.inj hu]
    · cases hu
  simp only [Json.follow?, hobject hdocument, List.foldlM_cons, List.foldlM_nil, Json.below?,
    Option.bind_eq_bind, hv, Option.bind_some, hobject hmembers, hkey, Option.pure_def]

/-- Every node of a document is addressed by the escaped names of the steps that lead to it, and
every schema of a bundle by the pointer of its member; a token is read by putting slashes back first
and tildes after that. -/
theorem nodes_addressed :
    (∀ {v w : Json} {way : List Json.Step}, v.follow? way = some w →
      ∃ p : Pointer, p.text = String.join (way.map fun step => "/" ++ Pointer.escapeToken step.name) ∧
        p.Addresses v w) ∧
    (∀ {b : Bundle} {m : BundleMember} {w : Json}, b.schema? m.key = some w →
      m.reference = m.location.fragment ∧ m.location.Addresses b.document w) ∧
    ∀ token : String, (Pointer.unescapeToken token).toList =
      replace ['~', '0'] ['~'] (replace ['~', '1'] ['/'] token.toList) := by
  have hnodes {v w : Json} {way : List Json.Step} (h : v.follow? way = some w) :
      (Pointer.mk ((way.map Json.Step.name).map Pointer.escapeToken)).Addresses v w := by
    refine (Json.spelled_map_escapeToken _).addresses ?_
    rw [List.map_map]
    exact Json.at?_of_follow? h
  refine ⟨fun {v w way} h => ⟨_, ?text, hnodes h⟩,
    fun h => ⟨rfl, hnodes (Bundle.follow?_of_schema? h)⟩, fun token => ?token⟩
  case text =>
    unfold Pointer.text
    rw [List.map_map, List.map_map]
    rfl
  case token =>
    unfold Pointer.unescapeToken
    rw [String.toList_ofList, Pointer.unescapeChars_eq_replace]

/-- Keys that hold what the encodings use, an empty key and an index, and a member with a blank in its name. -/
theorem nodes_addressed_signs :
    let v : Json := .object [("~1/%25", .object [("", .array [.null, .object [("é", .bool true)]])])]
    let b : Bundle := ⟨.object [("$defs", .object [("my file", v)])], [.ofFile "my file.schema.json"]⟩
    (Pointer.mk ["~01~1%25", "", "1", "é"]).Addresses v (.bool true) ∧
      ∀ m ∈ b.members, m.location.Addresses b.document v := by
  intro v b
  constructor
  · have hway : v.follow? [.key "~1/%25", .key "", .index 1, .key "é"] = some (.bool true) := by
      decide +kernel
    obtain ⟨p, htext, haddress⟩ := nodes_addressed.1 hway
    have hp : p.text = (Pointer.mk ["~01~1%25", "", "1", "é"]).text := by
      rw [htext]
      decide +kernel
    refine ⟨⟨_, rfl, Text.Percent.decode_encodeFragment _⟩, ?_⟩
    rw [← hp]
    exact haddress.leads
  · intro m hm
    rw [List.mem_singleton.mp hm]
    have hmember : b.schema? (BundleMember.ofFile "my file.schema.json").key = some v := by
      decide +kernel
    exact (nodes_addressed.2.1 hmember).2

end SchemaBindings
