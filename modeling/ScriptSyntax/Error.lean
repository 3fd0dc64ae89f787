/-
Errors as they are reported: where, in which words, with which advice, and of which sort. The
causes found by the lexer and the parser are put into words here.
-/
import ScriptSyntax.Expr.Parser
import ScriptSyntax.Token.Lexer

namespace ScriptSyntax

/-- The sort of an error, with what it knows besides its words. -/
inductive ErrorSort where
  | general
  /-- A character that can neither begin nor continue a token. -/
  | lexical
  /-- A string, comment or parenthesis that is still open where the input ends. -/
  | unterminated (opened : Option Position)
  | unexpectedToken (found : Option TokenKind) (expected : String)
  /-- Levels nested too deep. -/
  | nesting
deriving DecidableEq, Repr

structure ScriptError where
  sort : ErrorSort
  span : Span
  message : String
  hint : Option String
deriving DecidableEq, Repr

namespace ScriptError

/-- The hint, if it has any words. -/
def advice? (e : ScriptError) : Option String := e.hint.filter (· ≠ "")

/-- The error in short: its position and message, and its hint on a line of its own. -/
def text (e : ScriptError) : String :=
  e.span.start.text ++ ": " ++ e.message ++
    match e.advice? with
    | some hint => "\nhint: " ++ hint
    | none => ""

/-- Where the error is, in the file of that name. -/
def location (e : ScriptError) (file : String) : String := file ++ ":" ++ e.span.start.text

end ScriptError

namespace LexCause

def message : LexCause → String
  | .unexpectedChar c => "unexpected character " ++ Text.quotedChar c
  | .charAfterNumber c => "unexpected character " ++ Text.quotedChar c ++ " after number literal"
  | .numberOutOfRange => "number literal out of range"
  | .unknownEscape e => "unknown escape sequence '\\" ++ String.singleton e ++ "'"
  | .openString _ => "unterminated string literal"
  | .openEscape => "unterminated string escape"
  | .openComment => "unterminated block comment"

def hint? : LexCause → Option String
  | .unexpectedChar _ => some "remove the character or replace with a valid operator"
  | .charAfterNumber _ => some "separate the number from the following name"
  | .numberOutOfRange => some "use a smaller number"
  | .unknownEscape _ =>
    some ("valid escapes: " ++ " ".intercalate (escapes.map fun e => "\\" ++ String.singleton e.1))
  | .openString false => some "close the quote"
  | .openString true => some "close the quote before the end of the line"
  | .openEscape => none
  | .openComment => some "add closing */"

/-- Does the cause leave something open? -/
def isOpen : LexCause → Bool
  | .openString _ | .openEscape | .openComment => true
  | _ => false

end LexCause

def LexError.report (e : LexError) : ScriptError where
  sort := if e.cause.isOpen then .unterminated (some e.opened) else .lexical
  span := e.span
  message := e.cause.message
  hint := e.cause.hint?

namespace SyntaxCause

def message : SyntaxCause → String
  | .tooDeep => "expression nested deeper than " ++ toString maxNesting ++ " levels"
  | .unexpectedEnd => "unexpected end of input, expected an expression"
  | .closeForExpression | .unmatchedClose => "unmatched ')'"
  | .noExpression k => "expected an expression, found " ++ k.describe
  | .unclosed _ => "unclosed '(' at end of input"
  | .noClose k => "expected ')', found " ++ k.describe
  | .noOperator k => "expected an operator or end of input, found " ++ k.describe

def hint? : SyntaxCause → Option String
  | .tooDeep => some "split the expression or assign parts of it to names first"
  | .closeForExpression => some "expected an expression before ')'"
  | .unclosed opened => some ("'(' opened at " ++ opened.text)
  | .unmatchedClose => some "remove it or add a matching '('"
  | _ => none

def sort : SyntaxCause → ErrorSort
  | .tooDeep => .nesting
  | .unexpectedEnd => .unexpectedToken (some .eof) "expression"
  | .closeForExpression => .unexpectedToken (some (.mark .closeParen)) "expression"
  | .noExpression k => .unexpectedToken (some k) "expression"
  | .unclosed opened => .unterminated (some opened)
  | .noClose k => .unexpectedToken (some k) "')'"
  | .unmatchedClose => .unexpectedToken (some (.mark .closeParen)) "end of input"
  | .noOperator k => .unexpectedToken (some k) "operator"

end SyntaxCause

def SyntaxError.report (e : SyntaxError) : ScriptError :=
  ⟨e.cause.sort, e.span, e.cause.message, e.cause.hint?⟩

end ScriptSyntax
