import GraphqlCrud.Text.Identifier
/-!
String literals of the generated language. Each kind of literal escapes what would end it, and a
line break where the literal may not hold one.
-/
namespace GraphqlCrud.Script

def doubleQuotedChar : Char → List Char
  | '\\' => ['\\', '\\']
  | '"' => ['\\', '"']
  | '\n' => ['\\', 'n']
  | '\r' => ['\\', 'r']
  | '\t' => ['\\', 't']
  | c => [c]

/-- A character between single quotes. A tab stands for itself here. -/
def singleQuotedChar : Char → List Char
  | '\\' => ['\\', '\\']
  | '\'' => ['\\', '\'']
  | '\n' => ['\\', 'n']
  | '\r' => ['\\', 'r']
  | c => [c]

/-- The characters of a template literal. Line breaks stand for themselves, and a dollar is escaped
only where it would open a substitution. -/
def templateChars : List Char → List Char
  | [] => []
  | '$' :: '\x7b' :: rest => '\\' :: '$' :: '\x7b' :: templateChars rest
  | '\\' :: rest => '\\' :: '\\' :: templateChars rest
  | '\x60' :: rest => '\\' :: '\x60' :: templateChars rest
  | c :: rest => c :: templateChars rest

theorem templateChars_plain {c : Char} (dollar : c ≠ '$') (backslash : c ≠ '\\') (mark : c ≠ '\x60')
    (s : List Char) : templateChars (c :: s) = c :: templateChars s :=
  templateChars.eq_5 _ _ (fun _ same _ => dollar same) backslash mark

def doubleQuoted (s : String) : String :=
  String.ofList ('"' :: s.toList.flatMap doubleQuotedChar ++ ['"'])

def singleQuoted (s : String) : String :=
  String.ofList ('\'' :: s.toList.flatMap singleQuotedChar ++ ['\''])

def templateLiteral (s : String) : String :=
  String.ofList ('\x60' :: templateChars s.toList ++ ['\x60'])

/-- The key of an object member: quoted unless it is a bare name. -/
def propertyKey (key : String) : String :=
  if Text.isIdentifier key then key else doubleQuoted key

end GraphqlCrud.Script
