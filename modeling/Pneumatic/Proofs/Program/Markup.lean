import Pneumatic.Program.Markup
import Pneumatic.Proofs.Tag.Packing
import Pneumatic.Proofs.Text.Pieces

/-!
# Tag tables read back

A reader of markup that knows elements, quoted attributes and the five entities, and nothing of
tag tables.  It finds in the document of a table the elements and attributes that the table has,
whatever its signals are called, and every name as it was given.
-/

namespace Pneumatic.Markup

/-! ## Reading markup -/

/-- What stands between angle brackets. -/
inductive Mark where
  | opening (element : String) (attributes : List (String × String))
  | closing (element : String)
  deriving DecidableEq, Repr

/-- A text without its entities; none if an ampersand begins none of the five. -/
def unescape : List Char → Option (List Char)
  | [] => some []
  | '&' :: 'a' :: 'm' :: 'p' :: ';' :: rest => (unescape rest).map ('&' :: ·)
  | '&' :: 'l' :: 't' :: ';' :: rest => (unescape rest).map ('<' :: ·)
  | '&' :: 'g' :: 't' :: ';' :: rest => (unescape rest).map ('>' :: ·)
  | '&' :: 'a' :: 'p' :: 'o' :: 's' :: ';' :: rest => (unescape rest).map ('\'' :: ·)
  | '&' :: 'q' :: 'u' :: 'o' :: 't' :: ';' :: rest => (unescape rest).map ('"' :: ·)
  | c :: rest => if c = '&' then none else (unescape rest).map (c :: ·)

/-- How far the reading of attributes has come. -/
inductive Reading where
  /-- Between two attributes. -/
  | gap
  /-- In the name of an attribute. -/
  | name (letters : List Char)
  /-- In the value of an attribute, which ends with the quote that it began with. -/
  | value (name : List Char) (quote : Char) (letters : List Char)

/-- The attributes up to the bracket that closes a mark, and the text behind it. -/
def readAttributes : Reading → List Char → Option (List (String × String) × List Char)
  | _, [] => none
  | .gap, c :: rest =>
      if c = '>' then some ([], rest)
      else if c = ' ' then readAttributes .gap rest
      else readAttributes (.name [c]) rest
  | .name letters, '=' :: quote :: rest =>
      if quote = '\'' ∨ quote = '"' then readAttributes (.value letters quote []) rest else none
  | .name letters, c :: rest =>
      if c.isAlpha then readAttributes (.name (letters ++ [c])) rest else none
  | .value name quote letters, c :: rest =>
      if c = quote then do
        let value ← unescape letters
        let (attributes, rest) ← readAttributes .gap rest
        some ((String.ofList name, String.ofList value) :: attributes, rest)
      else readAttributes (.value name quote (letters ++ [c])) rest

/-- A mark without its first bracket, and the text behind it. -/
def readMark : List Char → Option (Mark × List Char)
  | '/' :: rest =>
      match Text.cut '>' rest with
      | (element, some rest) => some (.closing (String.ofList element), rest)
      | (_, none) => none
  | text => do
      let (attributes, rest) ← readAttributes .gap (text.dropWhile Char.isAlpha)
      some (.opening (String.ofList (text.takeWhile Char.isAlpha)) attributes, rest)

/-- A mark without its first bracket, and the text behind it without its entities. -/
def readPiece (piece : List Char) : Option (Mark × String) := do
  let (mark, rest) ← readMark piece
  some (mark, String.ofList (← unescape rest))

/-- The marks of a document, each with the text behind it. -/
def readMarks (document : String) : Option (List (Mark × String)) :=
  match Text.pieces '<' document.toList with
  | [] :: pieces => pieces.mapM readPiece
  | _ => none

/-! ## Reading tables -/

/-- The type with a name. -/
def kindOf? (name : String) : Option Tag.Kind :=
  [Tag.Kind.bool, .int, .time].find? (·.name == name)

/-- The signals of a table up to its end. -/
def readDeclarations : List (Mark × String) → Option (List Declaration)
  | [(.closing "Tagtable", _)] => some []
  | (.opening "Tag" [("type", type), ("addr", address)], name) :: (.closing "Tag", _) :: rest => do
      let kind ← kindOf? type
      let declarations ← readDeclarations rest
      some (⟨name, kind, address⟩ :: declarations)
  | _ => none

/-- The name and the signals of a tag table. -/
def readTable (document : String) : Option (String × List Declaration) := do
  match ← readMarks document with
  | (.opening "Tagtable" [("name", name)], _) :: rest => some (name, ← readDeclarations rest)
  | _ => none

/-! ## Escaped text -/

theorem unescape_cons {c : Char} (other : c ≠ '&') (rest : List Char) :
    unescape (c :: rest) = (unescape rest).map (c :: ·) := by
  rw [unescape]
  · rw [if_neg other]
  all_goals exact fun _ ampersand => absurd ampersand other

theorem unescape_escapeChar (c : Char) (rest : List Char) :
    unescape (escapeChar c ++ rest) = (unescape rest).map (c :: ·) := by
  unfold escapeChar
  split
  · rfl
  · rfl
  · rfl
  · rfl
  · rfl
  · next other _ _ _ _ => exact unescape_cons other rest

/-- Undoing the entities gives a text back, also one that looks like entities or markup. -/
theorem unescape_escape (text : List Char) : unescape (text.flatMap escapeChar) = some text := by
  induction text with
  | nil => rfl
  | cons c text ih => rw [List.flatMap_cons, unescape_escapeChar, ih, Option.map_some]

-- What looks like an entity has been escaped itself.
example : unescape "&amp;lt;".toList = some "&lt;".toList := by decide

theorem unescape_of_not_mem {text : List Char} (plain : '&' ∉ text) :
    unescape text = some text := by
  induction text with
  | nil => rfl
  | cons c text ih =>
      rw [List.mem_cons, not_or] at plain
      rw [unescape_cons (Ne.symm plain.1), ih plain.2, Option.map_some]

/-- An escaped text has no angle brackets and no quotes. -/
theorem not_mem_escape {special : Char} (among : special ∈ ['<', '>', '\'', '"'])
    (text : List Char) : special ∉ text.flatMap escapeChar := by
  rw [List.mem_flatMap]
  rintro ⟨c, -, inside⟩
  simp only [List.mem_cons, List.not_mem_nil, or_false] at among
  by_cases escaped : c ∈ ['&', '<', '>', '\'', '"']
  · simp only [List.mem_cons, List.not_mem_nil, or_false] at escaped
    rcases among with rfl | rfl | rfl | rfl <;>
      rcases escaped with rfl | rfl | rfl | rfl | rfl <;> exact absurd inside (by decide)
  · simp only [List.mem_cons, List.not_mem_nil, or_false, not_or] at escaped
    rw [escapeChar] at inside
    · obtain rfl := List.mem_singleton.mp inside
      simp [escaped] at among
    all_goals simp [escaped]

/-! ## Marks -/

/-- The value of an attribute reads up to its closing quote. -/
theorem readAttributes_value {quote : Char} {raw value : List Char} (unquoted : quote ∉ raw)
    (name letters rest : List Char) (decoded : unescape (letters ++ raw) = some value) :
    readAttributes (.value name quote letters) (raw ++ quote :: rest) =
      (readAttributes .gap rest).map fun (attributes, rest) =>
        ((String.ofList name, String.ofList value) :: attributes, rest) := by
  induction raw generalizing letters with
  | nil =>
      rw [List.append_nil] at decoded
      simp only [List.nil_append, readAttributes, ↓reduceIte, decoded]
      cases readAttributes .gap rest <;> rfl
  | cons c raw ih =>
      rw [List.mem_cons, not_or] at unquoted
      rw [List.cons_append, readAttributes, if_neg (Ne.symm unquoted.1)]
      exact ih unquoted.2 _ (by simpa using decoded)

/-- The mark that opens a table. -/
def opening (name : String) : Mark := .opening "Tagtable" [("name", name)]

/-- The mark that opens a signal. -/
def signal (declaration : Declaration) : Mark :=
  .opening "Tag" [("type", declaration.kind.name), ("addr", declaration.address)]

/-- The text of the mark that opens a table, behind its bracket. -/
def openingText (name : String) : String := "Tagtable name='" ++ escape name ++ "'>"

/-- The text of the mark that opens a signal, behind its bracket. -/
def signalText (declaration : Declaration) : String :=
  "Tag type='" ++ declaration.kind.name ++ "' addr='" ++ declaration.address ++ "'>"

theorem openingText_eq (name : String) :
    openingText name = "Tagtable name='" ++ escape name ++ "'>" :=
  rfl

theorem signalText_eq (declaration : Declaration) : signalText declaration =
    "Tag type='" ++ declaration.kind.name ++ "' addr='" ++ declaration.address ++ "'>" :=
  rfl

theorem toList_escape (text : String) : (escape text).toList = text.toList.flatMap escapeChar :=
  String.toList_ofList

/-- Whether an address is written without brackets, quotes and ampersands. -/
def IsPlain (declaration : Declaration) : Prop :=
  ∀ c ∈ ['&', '<', '\''], c ∉ declaration.address.toList

theorem readMark_opening (name : String) (rest : List Char) :
    readMark ((openingText name).toList ++ rest) = some (opening name, rest) := by
  have closed : '\'' ∉ name.toList.flatMap escapeChar := not_mem_escape (by decide) _
  have value := readAttributes_value closed "name".toList [] ('>' :: rest)
    (unescape_escape name.toList)
  simp only [openingText_eq, String.toList_append, toList_escape, List.append_assoc,
    String.reduceToList, List.cons_append, List.nil_append] at value ⊢
  simp [readMark, readAttributes, value, opening]

theorem not_mem_kind (kind : Tag.Kind) : ∀ c ∈ ['&', '<', '\''], c ∉ kind.name.toList := by
  intro c among
  simp only [List.mem_cons, List.not_mem_nil, or_false] at among
  rcases among with rfl | rfl | rfl <;> cases kind <;> decide

theorem readMark_signal {declaration : Declaration} (plain : IsPlain declaration)
    (rest : List Char) :
    readMark ((signalText declaration).toList ++ rest) = some (signal declaration, rest) := by
  have address := readAttributes_value (plain '\'' (by decide)) "addr".toList [] ('>' :: rest)
    (unescape_of_not_mem (plain '&' (by decide)))
  have type := readAttributes_value (not_mem_kind declaration.kind '\'' (by decide)) "type".toList
    [] (" addr='".toList ++ (declaration.address.toList ++ '\'' :: '>' :: rest))
    (unescape_of_not_mem (not_mem_kind declaration.kind '&' (by decide)))
  simp only [signalText_eq, String.toList_append, List.append_assoc, String.reduceToList,
    List.cons_append, List.nil_append] at address type ⊢
  simp [readMark, readAttributes, type, address, signal]

/-! ## Documents -/

/-- The text of a table behind the mark that opens it. -/
def body : List Declaration → String
  | [] => "</Tagtable>\n"
  | declaration :: rest =>
      "  <" ++ signalText declaration ++ escape declaration.name ++ "</Tag>\n" ++ body rest

theorem body_nil : body [] = "</Tagtable>\n" :=
  rfl

theorem body_cons (declaration : Declaration) (rest : List Declaration) :
    body (declaration :: rest) =
      "  <" ++ signalText declaration ++ escape declaration.name ++ "</Tag>\n" ++ body rest :=
  rfl

theorem element_eq (declaration : Declaration) : element declaration =
    "  <Tag type='" ++ declaration.kind.name ++ "' addr='" ++ declaration.address ++ "'>" ++
      escape declaration.name ++ "</Tag>\n" :=
  rfl

theorem document_eq (name : String) (declarations : List Declaration) :
    document name declarations = "<" ++ openingText name ++ "\n" ++ body declarations := by
  have elements : String.join (declarations.map element) ++ "</Tagtable>\n" =
      body declarations := by
    induction declarations with
    | nil => rw [List.map_nil, String.join_nil, String.empty_append, body_nil]
    | cons declaration rest ih =>
        rw [List.map_cons, String.join_cons, String.append_assoc, ih, body_cons, element_eq,
          signalText_eq, ← String.toList_inj]
        simp only [String.toList_append, String.reduceToList, List.append_assoc, List.cons_append,
          List.nil_append]
  have whole : document name declarations = "<Tagtable name='" ++ escape name ++ "'>\n" ++
      String.join (declarations.map element) ++ "</Tagtable>\n" :=
    rfl
  rw [whole, String.append_assoc, elements, openingText_eq, ← String.toList_inj]
  simp only [String.toList_append, String.reduceToList, List.append_assoc, List.cons_append,
    List.nil_append]

/-- The marks of a table from one that stands in front of its signals, each with the text behind
it. -/
def marksFrom (mark : Mark) (gap : String) : List Declaration → List (Mark × String)
  | [] => [(mark, gap), (.closing "Tagtable", "\n")]
  | declaration :: rest =>
      (mark, gap ++ "  ") :: (signal declaration, declaration.name) ::
        marksFrom (.closing "Tag") "\n" rest

theorem readPiece_eq {piece text decoded : List Char} {mark : Mark}
    (marked : readMark piece = some (mark, text)) (plain : unescape text = some decoded) :
    readPiece piece = some (mark, String.ofList decoded) := by
  simp [readPiece, marked, plain]

theorem readPiece_signal {declaration : Declaration} (plain : IsPlain declaration) :
    readPiece ((signalText declaration).toList ++ declaration.name.toList.flatMap escapeChar) =
      some (signal declaration, declaration.name) := by
  rw [readPiece_eq (readMark_signal plain _) (unescape_escape _), String.ofList_toList]

theorem not_mem_signalText {declaration : Declaration} (plain : IsPlain declaration) :
    '<' ∉ (signalText declaration).toList := by
  have kind := not_mem_kind declaration.kind '<' (by decide)
  have address := plain '<' (by decide)
  simp only [signalText_eq, String.toList_append, String.reduceToList, List.mem_append, kind,
    address]
  decide

/-- A text that has neither brackets nor entities stands for itself. -/
structure IsBlank (text : String) : Prop where
  noEntity : '&' ∉ text.toList
  noBracket : '<' ∉ text.toList

/-- The marks of a table read from one in front of its signals on, by the bracket that begins each
of them. -/
theorem mapM_readPiece {lead : List Char} {mark : Mark} {gap : String}
    {declarations : List Declaration} (plain : ∀ declaration ∈ declarations, IsPlain declaration)
    (closed : '<' ∉ lead) (marked : ∀ rest, readMark (lead ++ rest) = some (mark, rest))
    (blank : IsBlank gap) :
    (Text.pieces '<' (lead ++ (gap.toList ++ (body declarations).toList))).mapM readPiece =
      some (marksFrom mark gap declarations) := by
  induction declarations generalizing lead mark gap with
  | nil =>
      have written : lead ++ (gap.toList ++ (body []).toList) =
          (lead ++ gap.toList) ++ '<' :: "/Tagtable>\n".toList := by
        simp only [body_nil, String.reduceToList, List.append_assoc]
      have first := readPiece_eq (marked gap.toList) (unescape_of_not_mem blank.noEntity)
      have last : readPiece "/Tagtable>\n".toList = some (.closing "Tagtable", "\n") := by decide
      rw [String.ofList_toList] at first
      rw [written, Text.pieces_append_cons (by simp [closed, blank.noBracket]),
        Text.pieces_of_not_mem (by decide), List.mapM_cons, List.mapM_cons, first, last]
      rfl
  | cons declaration rest ih =>
      have written : lead ++ (gap.toList ++ (body (declaration :: rest)).toList) =
          (lead ++ (gap ++ "  ").toList) ++ '<' :: (((signalText declaration).toList ++
            declaration.name.toList.flatMap escapeChar) ++ '<' :: ("/Tag>".toList ++
              ("\n".toList ++ (body rest).toList))) := by
        simp only [body_cons, String.toList_append, toList_escape, String.reduceToList,
          List.append_assoc, List.cons_append, List.nil_append]
      have blank' : IsBlank (gap ++ "  ") :=
        ⟨by simp [blank.noEntity], by simp [blank.noBracket]⟩
      have first := readPiece_eq (marked (gap ++ "  ").toList) (unescape_of_not_mem blank'.noEntity)
      have second := readPiece_signal (plain declaration List.mem_cons_self)
      have others : (Text.pieces '<' ("/Tag>".toList ++
          ("\n".toList ++ (body rest).toList))).mapM readPiece =
            some (marksFrom (.closing "Tag") "\n" rest) :=
        ih (fun other inside => plain other (List.mem_cons_of_mem _ inside)) (by decide)
          (fun rest => rfl) ⟨by decide, by decide⟩
      rw [String.ofList_toList] at first
      have front : '<' ∉ lead ++ (gap ++ "  ").toList := by
        rw [List.mem_append, not_or]
        exact ⟨closed, blank'.noBracket⟩
      have inner : '<' ∉ (signalText declaration).toList ++
          declaration.name.toList.flatMap escapeChar := by
        rw [List.mem_append, not_or]
        exact ⟨not_mem_signalText (plain declaration List.mem_cons_self),
          not_mem_escape (by decide) _⟩
      rw [written, Text.pieces_append_cons front, Text.pieces_append_cons inner, List.mapM_cons,
        List.mapM_cons, first, second, others]
      rfl

theorem readMarks_document (name : String) {declarations : List Declaration}
    (plain : ∀ declaration ∈ declarations, IsPlain declaration) :
    readMarks (document name declarations) =
      some (marksFrom (opening name) "\n" declarations) := by
  have closed : '<' ∉ (openingText name).toList := by
    have escaped : '<' ∉ name.toList.flatMap escapeChar := not_mem_escape (by decide) _
    simp only [openingText_eq, String.toList_append, toList_escape, String.reduceToList,
      List.mem_append, escaped]
    decide
  have written : (document name declarations).toList = [] ++ '<' :: ((openingText name).toList ++
      ("\n".toList ++ (body declarations).toList)) := by
    simp only [document_eq, String.toList_append, String.reduceToList, List.append_assoc,
      List.cons_append, List.nil_append]
  rw [readMarks, written, Text.pieces_append_cons List.not_mem_nil]
  exact mapM_readPiece plain closed (readMark_opening name) ⟨by decide, by decide⟩

theorem kindOf?_name (kind : Tag.Kind) : kindOf? kind.name = some kind := by
  cases kind <;> decide

theorem exists_marksFrom (mark : Mark) (gap : String) (declarations : List Declaration) :
    ∃ text, marksFrom mark gap declarations =
      (mark, text) :: (marksFrom mark gap declarations).tail := by
  cases declarations with
  | nil => exact ⟨_, rfl⟩
  | cons declaration rest => exact ⟨_, rfl⟩

theorem readDeclarations_marksFrom (mark : Mark) (gap : String) (declarations : List Declaration) :
    readDeclarations (marksFrom mark gap declarations).tail = some declarations := by
  induction declarations generalizing mark gap with
  | nil => rfl
  | cons declaration rest ih =>
      obtain ⟨text, begins⟩ := exists_marksFrom (.closing "Tag") "\n" rest
      rw [marksFrom, List.tail_cons, begins, signal, readDeclarations, ih, kindOf?_name]
      rfl

/-- The mark that closes a signal stands behind it, and the one that closes the table at the end. -/
theorem map_fst_marksFrom (mark : Mark) (gap : String) (declarations : List Declaration) :
    (marksFrom mark gap declarations).map (·.1) =
      mark :: (declarations.flatMap (fun declaration => [signal declaration, .closing "Tag"]) ++
        [.closing "Tagtable"]) := by
  induction declarations generalizing mark gap with
  | nil => rfl
  | cons declaration rest ih => simp [marksFrom, ih]

theorem readTable_document (name : String) {declarations : List Declaration}
    (plain : ∀ declaration ∈ declarations, IsPlain declaration) :
    readTable (document name declarations) = some (name, declarations) := by
  obtain ⟨text, begins⟩ := exists_marksFrom (opening name) "\n" declarations
  rw [readTable, readMarks_document name plain, begins]
  simp [opening, readDeclarations_marksFrom]

/-! ## Tables of signals -/

theorem not_mem_address (address : Tag.Address) :
    ∀ c ∈ ['&', '<', '\''], c ∉ address.text.toList := by
  intro c among
  obtain ⟨noDigit, others⟩ : c.isDigit = false ∧ c ∉ ['%', 'M', 'W', 'D', '.'] := by
    simp only [List.mem_cons, List.not_mem_nil, or_false] at among
    rcases among with rfl | rfl | rfl <;> decide
  have digits := fun value => Text.not_mem_digits noDigit value
  simp only [List.mem_cons, List.not_mem_nil, or_false, not_or] at others
  cases address <;> simp [Tag.Address.text, digits, others]

theorem isPlain_of_mem {table : Tag.Table} {declaration : Declaration}
    (among : declaration ∈ table.declarations) : IsPlain declaration := by
  obtain ⟨entry, -, rfl⟩ := List.mem_map.mp among
  exact not_mem_address entry.address

/-- **The document of a table reads as the table.**  Whatever names the document and the signals
have, the marks are one element for the table and in it one for each signal, in order, and every
name and attribute is read as it was given.  So different tables have different documents. -/
theorem document_reads (name : String) (calls : List Tag.Call) :
    readTable (document name (Tag.Table.after calls).declarations) =
      some (name, (Tag.Table.after calls).declarations) ∧
    (readMarks (document name (Tag.Table.after calls).declarations)).map (·.map (·.1)) =
      some (.opening "Tagtable" [("name", name)] ::
        ((Tag.Table.after calls).declarations.flatMap (fun declaration =>
          [.opening "Tag" [("type", declaration.kind.name), ("addr", declaration.address)],
            .closing "Tag"]) ++ [.closing "Tagtable"])) ∧
    ∀ name' calls', document name' (Tag.Table.after calls').declarations =
        document name (Tag.Table.after calls).declarations →
      name' = name ∧ (Tag.Table.after calls').declarations =
        (Tag.Table.after calls).declarations := by
  refine ⟨readTable_document name fun _ => isPlain_of_mem, ?_, fun name' calls' same => ?_⟩
  · rw [readMarks_document name fun _ => isPlain_of_mem, Option.map_some, map_fst_marksFrom]
    rfl
  · have reads : readTable (document name' (Tag.Table.after calls').declarations) =
        some (name', (Tag.Table.after calls').declarations) :=
      readTable_document name' fun _ => isPlain_of_mem
    rw [same, readTable_document name fun _ => isPlain_of_mem] at reads
    obtain ⟨names, tables⟩ := Prod.mk.inj (Option.some.inj reads)
    exact ⟨names.symm, tables.symm⟩

end Pneumatic.Markup
