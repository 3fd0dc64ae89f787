/-
The kinds of tokens. A kind has a name for listings, the text that stands for it in the tables,
and a description for messages.
-/
import ScriptSyntax.Text.Quoted
import ScriptSyntax.Token.Mark

namespace ScriptSyntax

inductive TokenKind where
  | ident | int | float | string | true | false | mark (m : Mark) | eof
deriving DecidableEq, Repr

namespace TokenKind

def name : TokenKind → String
  | .ident => "IDENT"
  | .int => "INT"
  | .float => "FLOAT"
  | .string => "STRING"
  | .true => "TRUE"
  | .false => "FALSE"
  | .mark m => m.name
  | .eof => "EOF"

/-- How the tables write a kind: a keyword or mark by its spelling, any other by its name. -/
def text : TokenKind → String
  | .true => "true"
  | .false => "false"
  | .mark m => m.text
  | k => k.name

/-- All kinds, in the order of the tables. -/
def all : List TokenKind :=
  [.ident, .int, .float, .string, .true, .false] ++ Mark.all.map .mark ++ [.eof]

def keywords : List TokenKind := [.true, .false]

def isKeyword (k : TokenKind) : Bool := keywords.contains k

def isMark : TokenKind → Bool
  | .mark _ => Bool.true
  | _ => Bool.false

/-- How messages speak of a kind: words for those whose spelling varies, the quoted spelling for
the others. -/
def describe : TokenKind → String
  | .ident => "ident"
  | .int => "int"
  | .float => "float"
  | .string => "string"
  | .eof => "end of input"
  | k => Text.quoted k.text

def ofText? (s : String) : Option TokenKind := all.find? (·.text == s)

def ofName? (s : String) : Option TokenKind := all.find? (·.name == s)

end TokenKind

end ScriptSyntax
