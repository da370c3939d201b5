import LoxLang.Json
import LoxLang.Number.Text
import LoxLang.Token.Basic

set_option autoImplicit false

namespace LoxLang

def Kind.valueText : Kind → String
  | .string contents => contents
  | .number value => String.ofList value.inListing
  | _ => "null"

def Token.listing (t : Token) : String :=
  t.kind.name ++ " " ++ t.lexeme ++ " " ++ t.kind.valueText

/-- A kind is its name; one that carries a value is an object with its name as the only key. -/
def Kind.toJson : Kind → Json
  | .string contents => .object [("STRING", .string contents)]
  | .number value => .object [("NUMBER", .scalar (String.ofList value.inJson))]
  | kind => .string kind.name

def Token.toJson (t : Token) : Json :=
  .object
    [("token_type", t.kind.toJson), ("lexeme", .string t.lexeme),
     ("line", .scalar (toString t.line))]

end LoxLang
