import Mathlib.Data.Bool.AllAny
import SchemaBindings.Proofs.LoweringWords
import SchemaBindings.Proofs.ParserRows
import SchemaBindings.Proofs.QuotedLiterals
import SchemaBindings.TypeModule

/-! # The names on the wire are read from the text

A module of types is read row by row, as the derived code takes it: a field or a
variant goes by its identifier unless the attribute in front of it holds another
name, which is a literal, or takes the field for all other properties. `Tells`
says of two states of the writer what the rows between them tell, and is
composed as the writer's operations are. -/

namespace SchemaBindings

namespace Code

/-- What a module of types tells: that an item starts, and the name of a field or a variant. -/
inductive WireEntry where
  | item (name : List Char)
  | part (name : List Char)
deriving DecidableEq, Repr

/-- How a field or a variant is called if the next row is one. -/
inductive WireMark where
  | plain
  | renamed (name : List Char)
  | skipped
deriving DecidableEq, Repr

/-- What a row is. -/
inductive ItemRow where
  | comment
  | attribute (arguments : List Char)
  | item (name : List Char)
  | part (ident : List Char)
  | other
deriving DecidableEq, Repr

/-- How a comment on what follows starts. -/
def commentMark : List Char := ['/', '/', '/']

/-- How an attribute starts that says how something is read and written. -/
def attributeMark : List Char := ['#', '[', 's', 'e', 'r', 'd', 'e', '(']

/-- How an argument starts that gives another name. -/
def renameMark : List Char := ['r', 'e', 'n', 'a', 'm', 'e', ' ', '=', ' ']

/-- The arguments of the field for all other properties. -/
def flattenMark : List Char := ['f', 'l', 'a', 't', 't', 'e', 'n', ')', ']']

/-- The words that start an item. -/
def itemKeywords : List (List Char) :=
  [['s', 't', 'r', 'u', 'c', 't'], ['e', 'n', 'u', 'm'], ['t', 'y', 'p', 'e']]

/-- The name that a text starts with. -/
def firstName (cs : List Char) : List Char := cs.takeWhile (!endsName ·)

/-- What follows the name that a text starts with. -/
def afterName (cs : List Char) : List Char := cs.dropWhile (!endsName ·)

/-- What a row is that others may use: an item, or a field. -/
def publicRow (body : List Char) : ItemRow :=
  match afterName body with
  | ':' :: _ => .part (firstName body)
  | ' ' :: more => if firstName body ∈ itemKeywords then .item (firstName more) else .other
  | _ => .other

/-- What a row without the white space in front is. -/
def bodyRow (body : List Char) : ItemRow :=
  if (behind? commentMark body).isSome then .comment
  else match behind? attributeMark body with
    | some arguments => .attribute arguments
    | none => match behind? publicMark body with
      | some body => publicRow body
      | none => if afterName body = [','] then .part (firstName body) else .other

/-- What a row is. -/
def itemRow (row : List Char) : ItemRow := bodyRow (row.dropWhile (· = ' '))

/-- What the arguments of an attribute say of the name. -/
def markOf (arguments : List Char) : WireMark :=
  match behind? renameMark arguments with
  | some literal =>
    match readQuoted? literal with
    | some (name, _) => .renamed name
    | none => .skipped
  | none => if arguments = flattenMark then .skipped else .plain

/-- What a field or a variant tells behind an attribute. -/
def WireMark.entries : WireMark → (ident : List Char) → List WireEntry
  | .plain, ident => [.part ident]
  | .renamed name, _ => [.part name]
  | .skipped, _ => []

/-- What a row tells, and the mark for the next one. -/
def readRow (mark : WireMark) (row : List Char) : List WireEntry × WireMark :=
  match itemRow row with
  | .comment => ([], mark)
  | .attribute arguments => ([], markOf arguments)
  | .item name => ([.item name], .plain)
  | .part ident => (mark.entries ident, .plain)
  | .other => ([], .plain)

/-- What rows tell. -/
def readRows (mark : WireMark) : List (List Char) → List WireEntry
  | [] => []
  | row :: rows => (readRow mark row).1 ++ readRows (readRow mark row).2 rows

/-- What a module of types tells. -/
def wireEntries (text : String) : List WireEntry :=
  readRows .plain (Text.splitWhere (· = '\n') text.toList)

/-! ## Rows -/

theorem firstName_append {cs : List Char} (h : IsName cs) {c : Char} (hc : endsName c = true)
    (rest : List Char) : firstName (cs ++ c :: rest) = cs := by
  unfold firstName
  rw [List.takeWhile_append_of_pos fun d hd => by rw [h d hd]; rfl]
  simp [hc]

theorem afterName_append {cs : List Char} (h : IsName cs) {c : Char} (hc : endsName c = true)
    (rest : List Char) : afterName (cs ++ c :: rest) = c :: rest := by
  unfold afterName
  rw [List.dropWhile_append_of_pos fun d hd => by rw [h d hd]; rfl]
  simp [hc]

/-- The white space in front of a row does not matter. -/
theorem itemRow_indented (depth : Nat) (cs : List Char) :
    itemRow (Writer.indented depth cs) = itemRow cs := by
  unfold Writer.indented
  split
  · rename_i h
    rw [List.isEmpty_iff.mp h]
  · unfold itemRow
    rw [List.dropWhile_append_of_pos fun c hc => decide_eq_true (List.eq_of_mem_replicate hc)]

theorem readRow_indented (mark : WireMark) (depth : Nat) (cs : List Char) :
    readRow mark (Writer.indented depth cs) = readRow mark cs := by
  unfold readRow
  rw [itemRow_indented]

theorem itemRow_comment (more : List Char) : itemRow (commentMark ++ more) = .comment := by
  have hbody : (commentMark ++ more).dropWhile (· = ' ') = commentMark ++ more := rfl
  unfold itemRow bodyRow
  rw [hbody, behind?_self]
  rfl

theorem itemRow_attribute (arguments : List Char) :
    itemRow (attributeMark ++ arguments) = .attribute arguments := by
  have hbody : (attributeMark ++ arguments).dropWhile (· = ' ') = attributeMark ++ arguments := rfl
  have hcomment : behind? commentMark (attributeMark ++ arguments) = none :=
    behind?_cons _ _ (by decide)
  unfold itemRow bodyRow
  rw [hbody, hcomment, behind?_self]
  rfl

theorem itemRow_public (body : List Char) : itemRow (publicMark ++ body) = publicRow body := by
  have hbody : (publicMark ++ body).dropWhile (· = ' ') = publicMark ++ body := rfl
  have hcomment : behind? commentMark (publicMark ++ body) = none := behind?_cons _ _ (by decide)
  have hattribute : behind? attributeMark (publicMark ++ body) = none :=
    behind?_cons _ _ (by decide)
  unfold itemRow bodyRow
  rw [hbody, hcomment, hattribute, behind?_self]
  rfl

theorem itemRow_field {ident : List Char} (h : IsName ident) (rest : List Char) :
    itemRow (publicMark ++ (ident ++ ':' :: rest)) = .part ident := by
  rw [itemRow_public, publicRow, afterName_append h (by decide), firstName_append h (by decide)]
  rfl

theorem itemRow_item {keyword : List Char} (hkeyword : keyword ∈ itemKeywords) {name : List Char}
    (h : IsName name) (rest : List Char) :
    itemRow (publicMark ++ (keyword ++ ' ' :: (name ++ ' ' :: rest))) = .item name := by
  have hnames : ∀ w ∈ itemKeywords, w.all (!endsName ·) = true := by decide
  have hword : IsName keyword := IsName.of_all (hnames keyword hkeyword)
  rw [itemRow_public, publicRow, afterName_append hword (by decide),
    firstName_append hword (by decide)]
  change (if keyword ∈ itemKeywords then ItemRow.item (firstName (name ++ ' ' :: rest))
    else .other) = _
  rw [if_pos hkeyword, firstName_append h (by decide)]

/-- A row does not start with a mark whose first sign is another one. -/
theorem behind?_of_afterName (head more : List Char) {row rest : List Char} {c d : Char}
    (hhead : afterName head = d :: more) (hrow : afterName row = c :: rest) (hne : c ≠ d) :
    behind? head row = none := by
  unfold behind?
  refine if_neg fun h => hne ?_
  obtain ⟨tail, rfl⟩ := List.isPrefixOf_iff_prefix.mp h
  unfold afterName at hhead hrow
  rw [List.dropWhile_append, hhead] at hrow
  exact (List.cons.inj hrow).1.symm

/-- A row that starts with a name and no mark. -/
theorem itemRow_named {ident : List Char} (h : IsName ident) {c : Char}
    (hc : c ∈ [',', '(']) (rest : List Char) :
    itemRow (ident ++ c :: rest) = if c :: rest = [','] then .part ident else .other := by
  have hsigns : ∀ d ∈ [',', '('], endsName d = true ∧ d ≠ '/' ∧ d ≠ '#' ∧ d ≠ ' ' :=
    List.all_iff_forall_prop.mp (by decide)
  obtain ⟨hends, hslash, hhash, hblank⟩ := hsigns c hc
  have hafter := afterName_append h hends rest
  have hbody : (ident ++ c :: rest).dropWhile (· = ' ') = ident ++ c :: rest := by
    cases ident with
    | nil => exact List.dropWhile_cons_of_neg (by simpa using hblank)
    | cons d ident =>
      refine List.dropWhile_cons_of_neg fun hd => h.not_mem (c := ' ') (by decide) ?_
      rw [of_decide_eq_true hd]
      exact List.mem_cons_self ..
  unfold itemRow bodyRow
  rw [hbody, behind?_of_afterName commentMark ['/', '/'] rfl hafter hslash,
    behind?_of_afterName attributeMark attributeMark.tail rfl hafter hhash,
    behind?_of_afterName publicMark [] rfl hafter hblank,
    hafter, firstName_append h hends]
  rfl

end Code

namespace Code.Writer

/-- Between two states of the writer stand rows that tell something, whatever follows them. -/
def Tells (es : List WireEntry) (mark mark' : WireMark) (w w' : Writer) : Prop :=
  ∃ rows, w'.rows = w.rows ++ rows ∧ (∀ row ∈ rows, '\n' ∉ row) ∧
    ∀ more, readRows mark (rows ++ more) = es ++ readRows mark' more

namespace Tells

variable {w u w' : Writer} {es es' : List WireEntry} {mark mark' mark'' : WireMark}

theorem refl (mark : WireMark) (w : Writer) : Tells [] mark mark w w :=
  ⟨[], (List.append_nil _).symm, fun _ h => absurd h List.not_mem_nil, fun _ => rfl⟩

theorem trans (h : Tells es mark mark' w u) (h' : Tells es' mark' mark'' u w') :
    Tells (es ++ es') mark mark'' w w' := by
  obtain ⟨rows, hu, hfeed, htold⟩ := h
  obtain ⟨others, hw', hfeed', htold'⟩ := h'
  refine ⟨rows ++ others, ?_, ?_, fun more => ?_⟩
  · rw [hw', hu, List.append_assoc]
  · intro row hrow
    rcases List.mem_append.mp hrow with hrow | hrow
    · exact hfeed row hrow
    · exact hfeed' row hrow
  · rw [List.append_assoc, htold, htold', List.append_assoc]

/-- What tells nothing adds nothing. -/
theorem still (h : Tells es mark mark' w u) (h' : Tells [] mark' mark'' u w') :
    Tells es mark mark'' w w' := List.append_nil es ▸ h.trans h'

theorem skip (h : Tells [] mark mark' w u) (h' : Tells es mark' mark'' u w') :
    Tells es mark mark'' w w' := h.trans h'

/-- A row that a text without line feeds makes at some depth. -/
theorem row {depth : Nat} {text : String} (hrows : w'.rows = w.rows ++ rowsOf depth text)
    (hfeed : '\n' ∉ text.toList) (hread : readRow mark text.toList = (es, mark')) :
    Tells es mark mark' w w' := by
  rw [rowsOf_eq hfeed] at hrows
  refine ⟨_, hrows, fun row hrow => ?_, fun more => ?_⟩
  · rw [List.mem_singleton.mp hrow]
    exact not_mem_indented (by decide) hfeed depth
  · rw [List.singleton_append, readRows, readRow_indented, hread]

theorem line {text : String} (hfeed : '\n' ∉ text.toList)
    (hread : readRow mark text.toList = (es, mark')) : Tells es mark mark' w (w.line text) :=
  row (rows_line w text) hfeed hread

theorem opening {text : String} (hfeed : '\n' ∉ text.toList)
    (hread : readRow mark text.toList = (es, mark')) : Tells es mark mark' w (w.opening text) :=
  row (rows_opening w text) hfeed hread

theorem closing {text : String} (hfeed : '\n' ∉ text.toList)
    (hread : readRow mark text.toList = (es, mark')) : Tells es mark mark' w (w.closing text) :=
  row (rows_closing w text) hfeed hread

theorem blank (mark : WireMark) (w : Writer) : Tells [] mark .plain w w.blank := by
  refine ⟨[[]], rows_blank w, fun row hrow => ?_, fun more => ?_⟩
  · rw [List.mem_singleton.mp hrow]
    exact List.not_mem_nil
  · rfl

/-- A comment leaves the mark for what it stands before. -/
theorem doc (mark : WireMark) (w : Writer) (text : String) : Tells [] mark mark w (w.doc text) := by
  refine ⟨docRows w.depth text, rows_doc w text, fun row hrow => (exists_of_mem_docRows hrow).1, ?_⟩
  have hcomment : ∀ row ∈ docRows w.depth text, readRow mark row = ([], mark) := by
    intro row hrow
    obtain ⟨-, more, rfl⟩ := exists_of_mem_docRows hrow
    have hrow : List.replicate (4 * w.depth) ' ' ++ "///".toList ++ more =
        indented w.depth (commentMark ++ more) := List.append_assoc ..
    rw [hrow, readRow_indented, readRow, itemRow_comment]
  intro more
  generalize docRows w.depth text = rows at hcomment
  induction rows with
  | nil => rfl
  | cons row rows ih =>
    rw [List.cons_append, readRows, hcomment row (List.mem_cons_self ..)]
    exact ih fun row hrow => hcomment row (List.mem_cons_of_mem _ hrow)

/-- Parts that are written one after the other. -/
theorem foldl {α : Type} {write : Writer → α → Writer} {tell : α → List WireEntry} {xs : List α}
    (h : ∀ x ∈ xs, ∀ w, Tells (tell x) .plain .plain w (write w x)) (w : Writer) :
    Tells (xs.flatMap tell) .plain .plain w (xs.foldl write w) := by
  induction xs generalizing w with
  | nil => exact refl .plain w
  | cons x xs ih =>
    rw [List.flatMap_cons, List.foldl_cons]
    exact (h x (List.mem_cons_self ..) w).trans
      (ih (fun y hy => h y (List.mem_cons_of_mem _ hy)) _)

end Tells

end Code.Writer

open Code (Writer WireEntry WireMark IsName readRow wireEntries quoted)
open Code.Writer (Tells)

/-! ## Items -/

/-- What an item is to tell: its name, and the names of what it holds as they are in JSON. -/
def Item.wire (x : Item) : List WireEntry :=
  .item x.name.toList :: match x.shape with
    | .record fields _ _ => fields.map fun f => .part f.jsonName.toList
    | .enumeration variants => variants.map fun v => .part v.value.toList
    | .union _ => []
    | .alias _ => []

namespace Ty

theorem render_array (t : Ty) : (array t).render = "Vec<" ++ t.render ++ ">" := rfl

theorem render_map (t : Ty) :
    (map t).render = "std::collections::BTreeMap<String, " ++ t.render ++ ">" := rfl

theorem render_option (t : Ty) : (option t).render = "Option<" ++ t.render ++ ">" := rfl

theorem render_boxed (t : Ty) : (boxed t).render = "Box<" ++ t.render ++ ">" := rfl

theorem render_named (n : String) : (named n).render = n := rfl

theorem line_feed_not_mem_around {before inner after : String} (hbefore : '\n' ∉ before.toList)
    (hinner : '\n' ∉ inner.toList) (hafter : '\n' ∉ after.toList) :
    '\n' ∉ (before ++ inner ++ after).toList := by
  rw [String.toList_append, String.toList_append, List.mem_append, List.mem_append, not_or, not_or]
  exact ⟨⟨hbefore, hinner⟩, hafter⟩

theorem line_feed_not_mem_render {ty : Ty} (h : ty.Called) : '\n' ∉ ty.render.toList := by
  induction ty with
  | named n =>
    rw [render_named]
    exact (h n (List.mem_singleton_self n)).not_mem (by decide)
  | array t ih =>
    rw [render_array]
    exact line_feed_not_mem_around (by decide) (ih h) (by decide)
  | map t ih =>
    rw [render_map]
    exact line_feed_not_mem_around (by decide) (ih h) (by decide)
  | option t ih =>
    rw [render_option]
    exact line_feed_not_mem_around (by decide) (ih h) (by decide)
  | boxed t ih =>
    rw [render_boxed]
    exact line_feed_not_mem_around (by decide) (ih h) (by decide)
  | _ => decide

end Ty

namespace TypeModule

variable {w : Writer} {mark : WireMark}

theorem writeDoc_tells (w : Writer) (mark : WireMark) (doc : Option String) :
    Tells [] mark mark w (writeDoc w doc) := by
  cases doc with
  | none => exact .refl mark w
  | some text => exact .doc mark w text

/-- The mark that an attribute makes where the identifier is not the name. -/
def markFor (ident name : String) : WireMark :=
  if ident = name then .plain else .renamed name.toList

theorem markFor_entries (ident name : String) :
    (markFor ident name).entries ident.toList = [.part name.toList] := by
  unfold markFor
  split
  · rename_i h
    rw [h]
    rfl
  · rfl

/-- An attribute that starts with another name. -/
theorem readRow_rename (mark : WireMark) (name : String) (rest : List Char) :
    readRow mark (Code.attributeMark ++ (Code.renameMark ++ ((quoted name).toList ++ rest))) =
      ([], .renamed name.toList) := by
  unfold readRow
  rw [Code.itemRow_attribute]
  simp only [Code.markOf, Code.behind?_self, Code.readQuoted?_quoted]

theorem rename_tells (w : Writer) (mark : WireMark) (name : String) (rest : List Char)
    {arguments : List String} (hfeed : '\n' ∉ rest)
    (htext : (", ".intercalate (("rename = " ++ quoted name) :: arguments) ++ ")]").toList =
      Code.renameMark ++ ((quoted name).toList ++ rest)) :
    Tells [] mark (.renamed name.toList) w
      (w.line ("#[serde(" ++ ", ".intercalate (("rename = " ++ quoted name) :: arguments) ++ ")]")) := by
  have hrow : ("#[serde(" ++ ", ".intercalate (("rename = " ++ quoted name) :: arguments) ++
      ")]").toList = Code.attributeMark ++ (Code.renameMark ++ ((quoted name).toList ++ rest)) := by
    rw [String.append_assoc, String.toList_append, htext]
    rfl
  refine .line ?_ ?_
  · rw [hrow, List.mem_append, List.mem_append, List.mem_append, not_or, not_or, not_or]
    exact ⟨by decide, by decide, Code.line_feed_not_mem_quoted name, hfeed⟩
  · rw [hrow, readRow_rename]

/-- What is said of a field that may be absent. -/
def absentArguments : List String := ["default", "skip_serializing_if = \"Option::is_none\""]

/-- An attribute in front of a field holds the name, whatever else it says. -/
theorem attribute_tells (w : Writer) (ident name : String) {others : List String}
    (hothers : others = [] ∨ others = absentArguments) :
    Tells [] .plain (markFor ident name) w
      (w.linesOf (attribute? (renameArgument ident name ++ others))) := by
  unfold markFor renameArgument
  by_cases h : ident = name
  · rw [if_pos h, if_pos h]
    rcases hothers with rfl | rfl
    · exact .refl .plain w
    · exact .line (by decide) (by decide)
  · have hone : w.linesOf (attribute? (("rename = " ++ quoted name) :: others)) = w.line
        ("#[serde(" ++ ", ".intercalate (("rename = " ++ quoted name) :: others) ++ ")]") := rfl
    rw [if_neg h, if_neg h, List.singleton_append, hone]
    rcases hothers with rfl | rfl
    · refine rename_tells w .plain name [')', ']'] (by decide) ?_
      rw [String.toList_append, String.toList_intercalate]
      simp [Code.renameMark]
    · refine rename_tells w .plain name
        ", default, skip_serializing_if = \"Option::is_none\")]".toList (by decide) ?_
      rw [String.toList_append, String.toList_intercalate]
      simp [Code.renameMark, absentArguments]

theorem readRow_field {mark : WireMark} {ident : String} (h : IsName ident.toList) (ty : String) :
    readRow mark ("pub " ++ ident ++ ": " ++ ty ++ ",").toList =
      (mark.entries ident.toList, .plain) := by
  have hrow : ("pub " ++ ident ++ ": " ++ ty ++ ",").toList =
      Code.publicMark ++ (ident.toList ++ ':' :: (' ' :: ty.toList ++ [','])) := by
    simp [Code.publicMark]
  unfold readRow
  rw [hrow, Code.itemRow_field h]

theorem line_feed_not_mem_field {ident : String} {ty : Ty} (h : IsName ident.toList)
    (hty : ty.Called) : '\n' ∉ ("pub " ++ ident ++ ": " ++ ty.render ++ ",").toList := by
  have hident := h.not_mem (c := '\n') (by decide)
  have hrender := Ty.line_feed_not_mem_render hty
  simp [hident, hrender]

/-- A field tells the name that it has in JSON. -/
theorem writeField_tells {f : Field} (hident : IsName f.ident.toList) (hty : f.ty.Called)
    (w : Writer) : Tells [.part f.jsonName.toList] .plain .plain w (writeField w f) := by
  have hothers : (if f.required then [] else absentArguments) = [] ∨
      (if f.required then [] else absentArguments) = absentArguments := by
    split
    · exact .inl rfl
    · exact .inr rfl
  have hdoc := writeDoc_tells w .plain f.doc
  have hattribute := attribute_tells (writeDoc w f.doc) f.ident f.jsonName hothers
  refine (hdoc.still hattribute).skip (.line (line_feed_not_mem_field hident hty) ?_)
  rw [readRow_field hident, markFor_entries]

/-- The field for all other properties tells nothing. -/
theorem writeExtra_tells {extra : Option (String × Ty)}
    (h : ∀ e ∈ extra, IsName e.1.toList ∧ e.2.Called) (w : Writer) :
    Tells [] .plain .plain w (writeExtra w extra) := by
  cases extra with
  | none => exact .refl .plain w
  | some e =>
    obtain ⟨hident, hty⟩ := h e rfl
    have hmap : (Ty.map e.2).Called := hty.of_names rfl
    have hflatten : Tells [] .plain .skipped w (w.line "#[serde(flatten)]") :=
      .line (by decide) (by decide)
    refine hflatten.skip (.line (line_feed_not_mem_field hident hmap) ?_)
    exact readRow_field hident _

theorem writeVariant_tells {v : Variant} (h : IsName v.ident.toList) (w : Writer) :
    Tells [.part v.value.toList] .plain .plain w (writeVariant w v) := by
  have hattribute := attribute_tells w v.ident v.value (.inl rfl)
  rw [List.append_nil] at hattribute
  refine hattribute.skip (.line ?_ ?_)
  · have hident := h.not_mem (c := '\n') (by decide)
    simp [hident]
  · have hrow : (v.ident ++ ",").toList = v.ident.toList ++ [','] := String.toList_append
    unfold readRow
    rw [hrow, Code.itemRow_named h (by decide)]
    simp only [if_true, markFor_entries]

theorem writeArm_tells {a : Arm} (hident : IsName a.ident.toList) (hty : a.ty.Called)
    (w : Writer) : Tells [] .plain .plain w (writeArm w a) := by
  refine .line ?_ ?_
  · have hfeed := hident.not_mem (c := '\n') (by decide)
    have hrender := Ty.line_feed_not_mem_render hty
    simp [hfeed, hrender]
  · have hrow : (a.ident ++ "(" ++ a.ty.render ++ "),").toList =
        a.ident.toList ++ '(' :: (a.ty.render.toList ++ [')', ',']) := by
      simp
    unfold readRow
    rw [hrow, Code.itemRow_named hident (by decide)]
    rfl

/-- The row that an item starts with. -/
theorem readRow_item (text : String) (keyword rest : List Char) {name : String}
    (hkeyword : keyword ∈ Code.itemKeywords) (h : IsName name.toList) (hrest : '\n' ∉ rest)
    (htext : text.toList = Code.publicMark ++ (keyword ++ ' ' :: (name.toList ++ ' ' :: rest)))
    (mark : WireMark) :
    '\n' ∉ text.toList ∧ readRow mark text.toList = ([.item name.toList], .plain) := by
  have hkeywords : ∀ w ∈ Code.itemKeywords, '\n' ∉ w := by decide
  constructor
  · have hname := h.not_mem (c := '\n') (by decide)
    rw [htext]
    simp [Code.publicMark, hkeywords keyword hkeyword, hname, hrest]
  · unfold readRow
    rw [htext, Code.itemRow_item hkeyword h]

/-- The row that closes an item. -/
theorem closing_tells (w : Writer) : Tells [] .plain .plain w (w.closing "\x7d") :=
  .closing (by decide) (by decide)

theorem dataDerives_tells (w : Writer) (mark : WireMark) :
    Tells [] mark .plain w (w.line dataDerives) :=
  .line (by decide) (by cases mark <;> rfl)

theorem writeRecord_tells {x : Item} (h : x.Called) {fields : List Field} {denyUnknown : Bool}
    {extra : Option (String × Ty)} (hshape : x.shape = .record fields denyUnknown extra)
    (w : Writer) (mark : WireMark) : Tells x.wire mark .plain w (writeItem w x) := by
  obtain ⟨hname, hidents, htypes⟩ := h
  rw [hshape] at hidents htypes
  have hfields : ∀ f ∈ fields, ∀ w,
      Tells [.part f.jsonName.toList] .plain .plain w (writeField w f) := fun f hf =>
    writeField_tells (hidents _ (List.mem_append_left _ (List.mem_map_of_mem hf)))
      (htypes _ (List.mem_append_left _ (List.mem_map_of_mem hf)))
  have hextra : ∀ e ∈ extra, IsName e.1.toList ∧ e.2.Called := by
    rintro e rfl
    exact ⟨hidents _ (List.mem_append_right _ (List.mem_singleton_self _)),
      htypes _ (List.mem_append_right _ (List.mem_singleton_self _))⟩
  have hdeny (w : Writer) : Tells [] .plain .plain w
      (if denyUnknown then w.line "#[serde(deny_unknown_fields)]" else w) := by
    split
    · exact .line (by decide) (by decide)
    · exact .refl .plain w
  obtain ⟨hfeed, hread⟩ := readRow_item ("pub struct " ++ x.name ++ " \x7b")
    ['s', 't', 'r', 'u', 'c', 't'] ['\x7b'] (by decide) hname (by decide)
    (by simp [Code.publicMark]) .plain
  have hopening (w : Writer) : Tells [.item x.name.toList] .plain .plain w
      (w.opening ("pub struct " ++ x.name ++ " \x7b")) := .opening hfeed hread
  have hwire : x.wire = [.item x.name.toList] ++
      fields.flatMap fun f => [.part f.jsonName.toList] := by
    rw [Item.wire, hshape, ← List.map_eq_flatMap]
    rfl
  unfold writeItem
  rw [hshape, hwire]
  have hhead := ((writeDoc_tells w mark x.doc).still (dataDerives_tells _ _)).still (hdeny _)
  exact (((hhead.skip (hopening _)).trans (Tells.foldl hfields _)).still
    (writeExtra_tells hextra _)).still (closing_tells _)

theorem writeEnumeration_tells {x : Item} (h : x.Called) {variants : List Variant}
    (hshape : x.shape = .enumeration variants) (w : Writer) (mark : WireMark) :
    Tells x.wire mark .plain w (writeItem w x) := by
  obtain ⟨hname, hidents, -⟩ := h
  rw [hshape] at hidents
  have hvariants : ∀ v ∈ variants, ∀ w,
      Tells [.part v.value.toList] .plain .plain w (writeVariant w v) := fun v hv =>
    writeVariant_tells (hidents _ (List.mem_map_of_mem hv))
  obtain ⟨hfeed, hread⟩ := readRow_item ("pub enum " ++ x.name ++ " \x7b")
    ['e', 'n', 'u', 'm'] ['\x7b'] (by decide) hname (by decide)
    (by simp [Code.publicMark]) .plain
  have hderives (w : Writer) (mark : WireMark) : Tells [] mark .plain w (w.line enumDerives) :=
    .line (by decide) (by cases mark <;> rfl)
  have hopening (w : Writer) : Tells [.item x.name.toList] .plain .plain w
      (w.opening ("pub enum " ++ x.name ++ " \x7b")) := .opening hfeed hread
  have hwire : x.wire = [.item x.name.toList] ++
      variants.flatMap fun v => [.part v.value.toList] := by
    rw [Item.wire, hshape, ← List.map_eq_flatMap]
    rfl
  unfold writeItem
  rw [hshape, hwire]
  have hhead := (writeDoc_tells w mark x.doc).still (hderives _ _)
  exact ((hhead.skip (hopening _)).trans (Tells.foldl hvariants _)).still (closing_tells _)

theorem writeUnion_tells {x : Item} (h : x.Called) {arms : List Arm}
    (hshape : x.shape = .union arms) (w : Writer) (mark : WireMark) :
    Tells x.wire mark .plain w (writeItem w x) := by
  obtain ⟨hname, hidents, htypes⟩ := h
  rw [hshape] at hidents htypes
  have harms : ∀ a ∈ arms, ∀ w, Tells [] .plain .plain w (writeArm w a) := fun a ha =>
    writeArm_tells (hidents _ (List.mem_map_of_mem ha)) (htypes _ (List.mem_map_of_mem ha))
  obtain ⟨hfeed, hread⟩ := readRow_item ("pub enum " ++ x.name ++ " \x7b")
    ['e', 'n', 'u', 'm'] ['\x7b'] (by decide) hname (by decide)
    (by simp [Code.publicMark]) .plain
  have huntagged (w : Writer) : Tells [] .plain .plain w (w.line "#[serde(untagged)]") :=
    .line (by decide) (by decide)
  have hopening (w : Writer) : Tells [.item x.name.toList] .plain .plain w
      (w.opening ("pub enum " ++ x.name ++ " \x7b")) := .opening hfeed hread
  have hwire : x.wire = [.item x.name.toList] ++ arms.flatMap fun _ => [] := by
    rw [Item.wire, hshape]
    simp
  unfold writeItem
  rw [hshape, hwire]
  have hhead := ((writeDoc_tells w mark x.doc).still (dataDerives_tells _ _)).still (huntagged _)
  exact ((hhead.skip (hopening _)).trans (Tells.foldl harms _)).still (closing_tells _)

theorem writeAlias_tells {x : Item} (h : x.Called) {ty : Ty} (hshape : x.shape = .alias ty)
    (w : Writer) (mark : WireMark) : Tells x.wire mark .plain w (writeItem w x) := by
  obtain ⟨hname, -, htypes⟩ := h
  rw [hshape] at htypes
  have hrender := Ty.line_feed_not_mem_render (htypes ty (List.mem_singleton_self ty))
  obtain ⟨hfeed, hread⟩ := readRow_item
    ("pub type " ++ x.name ++ " = " ++ ty.render ++ ";") ['t', 'y', 'p', 'e']
    ('=' :: ' ' :: (ty.render.toList ++ [';']))
    (by decide) hname (by simp [hrender]) (by simp [Code.publicMark]) mark
  have hwire : x.wire = [.item x.name.toList] := by rw [Item.wire, hshape]
  unfold writeItem
  rw [hshape, hwire]
  exact (writeDoc_tells w mark x.doc).skip (.line hfeed hread)

/-- An item that is called by names tells what it is to tell. -/
theorem writeItem_tells {x : Item} (h : x.Called) (w : Writer) (mark : WireMark) :
    Tells x.wire mark .plain w (writeItem w x) := by
  cases hshape : x.shape with
  | record fields denyUnknown extra => exact writeRecord_tells h hshape w mark
  | enumeration variants => exact writeEnumeration_tells h hshape w mark
  | union arms => exact writeUnion_tells h hshape w mark
  | «alias» ty => exact writeAlias_tells h hshape w mark

theorem writeItems_tells {items : List Item} (h : ∀ x ∈ items, x.Called) (w : Writer) :
    Tells (items.flatMap Item.wire) .plain .plain w (writeItems w items) := by
  cases items with
  | nil => exact .refl .plain w
  | cons x rest =>
    rw [List.flatMap_cons]
    refine (writeItem_tells (h x (List.mem_cons_self ..)) w .plain).trans (.foldl (fun y hy w => ?_) _)
    exact (Tells.blank .plain w).skip (writeItem_tells (h y (List.mem_cons_of_mem _ hy)) _ _)

/-- A module of items that are called by names tells what the items are to tell. -/
theorem wireEntries_text {items : List Item} (h : ∀ x ∈ items, x.Called) :
    wireEntries (text items) = items.flatMap Item.wire := by
  have hmarked : Tells [] .plain .plain Writer.empty Writer.marked := by
    have hmark : Tells [] .plain .plain Writer.empty (Writer.empty.line Writer.mark) :=
      .line (by decide) (by decide)
    exact hmark.still (.blank _ _)
  have himport (w : Writer) : Tells [] .plain .plain w
      (if items.any usesDerives then (w.line "use serde::\x7bDeserialize, Serialize\x7d;").blank
        else w) := by
    split
    · have hline : Tells [] .plain .plain w (w.line "use serde::\x7bDeserialize, Serialize\x7d;") :=
        .line (by decide) (by decide)
      exact hline.still (.blank _ _)
    · exact .refl .plain w
  obtain ⟨rows, hrows, hfeed, htold⟩ := (hmarked.still (himport _)).skip (writeItems_tells h _)
  have htext : (text items).toList = Writer.joined rows := by
    unfold text
    dsimp only
    rw [Writer.toList_text, hrows]
    rfl
  have hend : Code.readRows .plain [[]] = [] := rfl
  rw [wireEntries, htext, Writer.splitWhere_joined hfeed, htold, hend, List.append_nil]

end TypeModule

open TypeModule

/-- Whatever is compiled, the module tells for every struct and every enumeration, in order, the
names that its fields and variants have in JSON. -/
theorem wire_names_read :
    (∀ {root : Option Json} {s : LowerState}, Lowering.Compiled root s →
      wireEntries (TypeModule.text s.items) = s.items.flatMap Item.wire) ∧
    (∀ {canonical : String} {schema : Json} {items : List Item},
      lowerTypeModule canonical schema = some items →
        wireEntries (TypeModule.text items) = items.flatMap Item.wire) ∧
    ∀ {b : Bundle} {items : List Item}, lowerBundle b = some items →
      wireEntries (TypeModule.text items) = items.flatMap Item.wire := by
  refine ⟨fun h => wireEntries_text h.called.items, fun h => ?_, fun h => ?_⟩
  · obtain ⟨s, hs, rfl⟩ := Lowering.compiled_of_lowerTypeModule h
    exact wireEntries_text hs.called.items
  · obtain ⟨s, hs, rfl⟩ := Lowering.compiled_of_lowerBundle h
    exact wireEntries_text hs.called.items

/-- Properties with a quote, a line feed and a backslash in their names, and one that is a keyword. -/
theorem wire_names_read_signs :
    let schema := Json.object [("properties", .object [("a\"b", .bool true), ("\n\\", .bool true),
      ("type", .bool true), ("plain", .object [("enum", .array [.string "é!", .string "A"])])])]
    ∃ items, lowerTypeModule "Sign" schema = some items ∧
      wireEntries (TypeModule.text items) = [
        .item "Sign".toList, .part "a\"b".toList, .part "\n\\".toList, .part "type".toList,
        .part "plain".toList, .item "SignPlain".toList, .part "é!".toList, .part "A".toList] := by
  intro schema
  have hrun : (lowerTypeModule "Sign" schema).isSome = true := by decide +kernel
  obtain ⟨items, hitems⟩ := Option.isSome_iff_exists.mp hrun
  refine ⟨items, hitems, ?_⟩
  rw [wire_names_read.2.1 hitems]
  have hwire : (lowerTypeModule "Sign" schema).map (·.flatMap Item.wire) = some [
      .item "Sign".toList, .part "a\"b".toList, .part "\n\\".toList, .part "type".toList,
      .part "plain".toList, .item "SignPlain".toList, .part "é!".toList, .part "A".toList] := by
    decide +kernel
  rw [hitems] at hwire
  exact Option.some.inj hwire

end SchemaBindings
