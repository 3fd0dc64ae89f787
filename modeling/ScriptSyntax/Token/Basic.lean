/-
Tokens: what stands at a span of a source, as it is spelled there and as it is meant. The kind of
a token follows from what it means.
-/
import ScriptSyntax.Number.Binary64
import ScriptSyntax.Source.Span
import ScriptSyntax.Token.Kind

namespace ScriptSyntax

/-- The value of a literal. -/
inductive Literal where
  | int (n : Int)
  | float (x : Binary64)
  | string (s : String)
  | bool (b : Bool)
deriving DecidableEq

/-- The word for the type of a literal. -/
def Literal.typeName : Literal → String
  | .int _ => "int"
  | .float _ => "float"
  | .string _ => "string"
  | .bool _ => "bool"

/-- What a token means. -/
inductive Meaning where
  | name
  | literal (v : Literal)
  | mark (m : Mark)
  | eof
deriving DecidableEq

def Meaning.kind : Meaning → TokenKind
  | .name => .ident
  | .literal (.int _) => .int
  | .literal (.float _) => .float
  | .literal (.string _) => .string
  | .literal (.bool Bool.true) => .true
  | .literal (.bool Bool.false) => .false
  | .mark m => .mark m
  | .eof => .eof

structure Token where
  meaning : Meaning
  lexeme : String
  span : Span
deriving DecidableEq

namespace Token

def kind (t : Token) : TokenKind := t.meaning.kind

/-- The end of the input, at the position behind its last character. -/
def eof (p : Position) : Token := ⟨.eof, "", .point p⟩

/-- The value that a token carries; a name carries its spelling. -/
def value? (t : Token) : Option Literal :=
  match t.meaning with
  | .name => some (.string t.lexeme)
  | .literal v => some v
  | _ => none

def text (t : Token) : String :=
  "Token(" ++ t.kind.name ++ ", " ++ Text.quoted t.lexeme ++ ", " ++ t.span.text ++ ")"

end Token

end ScriptSyntax
