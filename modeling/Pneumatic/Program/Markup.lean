import Pneumatic.Program.Basic

/-!
# Tag tables as markup

A tag table as an XML document with one element per signal.  Names are escaped, so
that no name can look like markup.
-/

namespace Pneumatic.Markup

/-- A character inside an element or a quoted attribute. -/
def escapeChar : Char → List Char
  | '&' => ['&', 'a', 'm', 'p', ';']
  | '<' => ['&', 'l', 't', ';']
  | '>' => ['&', 'g', 't', ';']
  | '\'' => ['&', 'a', 'p', 'o', 's', ';']
  | '"' => ['&', 'q', 'u', 'o', 't', ';']
  | c => [c]

/-- A text inside an element or a quoted attribute. -/
def escape (text : String) : String :=
  String.ofList (text.toList.flatMap escapeChar)

/-- The element of a signal, on a line of its own. -/
def element (declaration : Declaration) : String :=
  "  <Tag type='" ++ declaration.kind.name ++ "' addr='" ++ declaration.address ++ "'>" ++
    escape declaration.name ++ "</Tag>\n"

/-- The document of a tag table. -/
def document (name : String) (declarations : List Declaration) : String :=
  "<Tagtable name='" ++ escape name ++ "'>\n" ++
    String.join (declarations.map element) ++ "</Tagtable>\n"

end Pneumatic.Markup

namespace Pneumatic

/-- The name of the tag table of a program. -/
def Program.tableName : String := "Sequence"

/-- The tag table of a program as markup. -/
def Program.tagMarkup (program : Program) : String :=
  Markup.document Program.tableName program.tags

end Pneumatic
