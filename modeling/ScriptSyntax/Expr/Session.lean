/-
A parsing session: a list of tokens that ends with the end of the input, and the index of the next
one. Each request reads on from the index, which stays where reading stopped, also after a fault.
-/
import ScriptSyntax.Error

namespace ScriptSyntax

structure Session where
  tokens : TokenList
  /-- How many tokens have been read. -/
  index : Nat
  index_le : index ≤ tokens.front.length

namespace Session

def ofTokens (ts : TokenList) : Session := ⟨ts, 0, Nat.zero_le _⟩

/-- The tokens still to be read, but for the last one. -/
def rest (s : Session) : List Token := s.tokens.front.drop s.index

/-- The token to be read next. -/
def next (s : Session) : Token := s.rest.headD s.tokens.last

/-- The session at the place from which so many tokens are left. -/
def leaving (s : Session) (left : Nat) : Session :=
  { s with index := s.tokens.front.length - left, index_le := Nat.sub_le _ _ }

/-- Reads an expression whose operators have at least the rank `least`. -/
def parseExpr (s : Session) (least : Int) : Except SyntaxError (Expr Span) × Session :=
  let o := ScriptSyntax.parseExpr s.tokens.last maxNesting least s.rest
  (o.tree, s.leaving o.rest.length)

/-- Reads an expression that must be followed by the end of the input. -/
def parse (s : Session) : Except SyntaxError (Expr Span) × Session :=
  let (tree, s') := s.parseExpr Precedence.assignment.rank
  match tree with
  | .error e => (.error e, s')
  | .ok e =>
    match SyntaxError.atEnd? s'.next with
    | some fault => (.error fault, s')
    | none => (.ok e, s')

end Session

/-- Why a source holds no expression. -/
inductive SourceError where
  | lexical (e : LexError)
  | syntactic (e : SyntaxError)
deriving DecidableEq

def SourceError.report : SourceError → ScriptError
  | .lexical e => e.report
  | .syntactic e => e.report

/-- The expression that the tokens of a whole source form. -/
def parseTokens (ts : TokenList) : Except SyntaxError (Expr Span) := (Session.ofTokens ts).parse.1

/-- The expression that a source holds. -/
def parseExpression (file : Symbol) (src : String) : Except SourceError (Expr Span) :=
  match tokenize file src with
  | .error e => .error (.lexical e)
  | .ok ts => (parseTokens ts).mapError .syntactic

end ScriptSyntax
