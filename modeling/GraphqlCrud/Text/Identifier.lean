/-!
Names that may stand unquoted in generated code. Only ASCII letters, digits, `_` and `$` count,
though the language itself admits more.
-/
namespace GraphqlCrud.Text

def isIdentifierStart (c : Char) : Bool := c.isAlpha || c == '_' || c == '$'

def isIdentifierPart (c : Char) : Bool := c.isAlphanum || c == '_' || c == '$'

def isIdentifier (s : String) : Bool :=
  match s.toList with
  | [] => false
  | c :: rest => isIdentifierStart c && rest.all isIdentifierPart

end GraphqlCrud.Text
