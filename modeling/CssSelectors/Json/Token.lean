import CssSelectors.Json.Basic
import CssSelectors.Token.Basic

/-!
# Tokens as JSON

A token is what it is and where it stands. Classes without content are their names,
and all others have one field named for the class.
-/

namespace CssSelectors

def Span.toJson (span : Span) : Json :=
  .obj [("start", .int span.start), ("end", .int span.stop)]

def NumericKind.name : NumericKind → String
  | .integer => "Integer"
  | .number => "Number"

def HashKind.name : HashKind → String
  | .id => "Id"
  | .unrestricted => "Unrestricted"

def Numeric.toJson (numeric : Numeric) : Json :=
  .obj [
    ("value", .float numeric.value),
    ("int_value", .ofOption .int numeric.intValue),
    ("numeric_type", .str numeric.kind.name),
    ("signed", .bool numeric.signed)]

def Atom.toJson (a : Atom) : Json :=
  match a with
  | .ident value => .tagged a.typeName (.str value)
  | .atKeyword value => .tagged a.typeName (.str value)
  | .hash value kind =>
    .tagged a.typeName (.obj [("value", .str value), ("hash_type", .str kind.name)])
  | .string value => .tagged a.typeName (.str value)
  | .url value => .tagged a.typeName (.str value)
  | .delim c => .tagged a.typeName (.str c.toString)
  | .number numeric => .tagged a.typeName numeric.toJson
  | .percentage numeric => .tagged a.typeName numeric.toJson
  | .dimension numeric unit =>
    .tagged a.typeName (.obj [("numeric", numeric.toJson), ("unit", .str unit)])
  | .comment text => .tagged a.typeName (.str text)
  | _ => .str a.typeName

namespace Token

mutual

def toJson : Token → Json
  | .atom a span => .obj [("kind", a.toJson), ("span", span.toJson)]
  | .function name arguments span =>
    .obj [
      ("kind", .tagged "Function"
        (.obj [("name", .str name), ("arguments", .arr (listToJson arguments))])),
      ("span", span.toJson)]

def listToJson : List Token → List Json
  | [] => []
  | token :: tokens => token.toJson :: listToJson tokens

end

end Token

end CssSelectors
