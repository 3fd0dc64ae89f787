/-
Reading expressions from tokens by climbing the levels of binding strength. An expression is an
operand followed by operators, at least as strong as a given rank, with their right operands; a
right operand takes in only what binds stronger than its operator, or as strong if the operator
leans to the right. Every expression, every right operand, every parenthesised expression and
every prefix operator opens a level, and no more than `maxNesting` levels may be open at once.

The parser reports how many tokens are left, also when it fails: a fault leaves the token that it
blames unread. The end of the input is never read.
-/
import ScriptSyntax.Expr.Basic

namespace ScriptSyntax

/-- So many levels may be open at once. -/
def maxNesting : Nat := 200

/-- Why tokens form no expression. -/
inductive SyntaxCause where
  | tooDeep
  /-- The input ends where an expression should begin. -/
  | unexpectedEnd
  /-- A closing parenthesis stands where an expression should begin. -/
  | closeForExpression
  | noExpression (found : TokenKind)
  /-- The input ends inside the parenthesis opened there. -/
  | unclosed (opened : Position)
  | noClose (found : TokenKind)
  /-- A closing parenthesis stands behind a whole expression. -/
  | unmatchedClose
  | noOperator (found : TokenKind)
deriving DecidableEq, Repr

structure SyntaxError where
  cause : SyntaxCause
  span : Span
deriving DecidableEq, Repr

namespace SyntaxError

/-- The fault of a token that begins no expression. -/
def atStart (t : Token) : SyntaxError :=
  ⟨match t.kind with
    | .eof => .unexpectedEnd
    | .mark .closeParen => .closeForExpression
    | k => .noExpression k, t.span⟩

/-- The fault of a token that stands in place of the parenthesis closing the one at `opened`. -/
def atClose (opened : Position) (t : Token) : SyntaxError :=
  ⟨if t.kind = .eof then .unclosed opened else .noClose t.kind, t.span⟩

/-- The fault of a token behind a whole expression, unless it is the end of the input. -/
def atEnd? (t : Token) : Option SyntaxError :=
  match t.kind with
  | .eof => none
  | .mark .closeParen => some ⟨.unmatchedClose, t.span⟩
  | k => some ⟨.noOperator k, t.span⟩

end SyntaxError

/-- A tree or a fault, and the tokens left. -/
structure Outcome (ts : List Token) where
  tree : Except SyntaxError (Expr Span)
  rest : List Token
  le : rest.length ≤ ts.length

namespace Outcome

def fail {ts : List Token} (e : SyntaxError) : Outcome ts := ⟨.error e, ts, Nat.le_refl _⟩

def done {ts : List Token} (e : Expr Span) : Outcome ts := ⟨.ok e, ts, Nat.le_refl _⟩

/-- The outcome for a longer list of tokens. -/
def widen {ts us : List Token} (o : Outcome ts) (h : ts.length ≤ us.length) : Outcome us :=
  ⟨o.tree, o.rest, Nat.le_trans o.le h⟩

end Outcome

/-- The least rank of operators in the right operand of an operator. -/
def BinaryOp.rightRank (op : BinaryOp) : Int :=
  match op.associativity with
  | .right => op.precedence.rank
  | .left => op.precedence.rank + 1

mutual

/-- An expression whose operators have at least the rank `least`, with `room` levels left to open;
`last` is the end of the input. -/
def parseExpr (last : Token) (room : Nat) (least : Int) (ts : List Token) : Outcome ts :=
  match room with
  | 0 => .fail ⟨.tooDeep, (ts.headD last).span⟩
  | room + 1 =>
    let first := parseUnary last room ts
    match first.tree with
    | .error _ => first
    | .ok lhs => (parseOperators last room least lhs first.rest).widen first.le
termination_by (ts.length, 3)
decreasing_by
  · exact Prod.Lex.right _ (by decide)
  · rcases Nat.lt_or_eq_of_le first.le with h | h
    · exact Prod.Lex.left _ _ h
    · rw [h]; exact Prod.Lex.right _ (by decide)

/-- The operators behind a left operand, with their right operands. -/
def parseOperators (last : Token) (room : Nat) (least : Int) (lhs : Expr Span) (ts : List Token) :
    Outcome ts :=
  match ts with
  | [] => .done lhs
  | t :: ts' =>
    match t.kind.binaryOp? with
    | none => .done lhs
    | some op =>
      if (op.precedence.rank : Int) < least then .done lhs
      else
        let right := parseExpr last room op.rightRank ts'
        match right.tree with
        | .error _ => right.widen (Nat.le_succ _)
        | .ok rhs =>
          (parseOperators last room least (.binary (.cover lhs.note rhs.note) op lhs rhs)
            right.rest).widen (Nat.le_succ_of_le right.le)
termination_by (ts.length, 0)
decreasing_by
  · exact Prod.Lex.left _ _ (by simp)
  · exact Prod.Lex.left _ _ (Nat.lt_succ_of_le right.le)

/-- An operand with its prefix operators. -/
def parseUnary (last : Token) (room : Nat) (ts : List Token) : Outcome ts :=
  match ts with
  | [] => .fail (.atStart last)
  | t :: ts' =>
    match t.kind.unaryOp? with
    | none => parsePrimary last room t ts'
    | some op =>
      match room with
      | 0 => .fail ⟨.tooDeep, t.span⟩
      | room + 1 =>
        let operand := parseUnary last room ts'
        match operand.tree with
        | .error _ => operand.widen (Nat.le_succ _)
        | .ok e => ⟨.ok (.unary (.cover t.span e.note) op e), operand.rest,
            Nat.le_succ_of_le operand.le⟩
termination_by (ts.length, 2)
decreasing_by
  · exact Prod.Lex.right _ (by decide)
  · exact Prod.Lex.left _ _ (by simp)

/-- A literal, a name or a parenthesised expression, which begins with `t`. -/
def parsePrimary (last : Token) (room : Nat) (t : Token) (ts : List Token) : Outcome (t :: ts) :=
  match t.meaning with
  | .literal v => ⟨.ok (.literal t.span v), ts, Nat.le_succ _⟩
  | .name => ⟨.ok (.identifier t.span t.lexeme), ts, Nat.le_succ _⟩
  | .mark .openParen =>
    let inner := parseExpr last room 1 ts
    match inner.tree with
    | .error _ => inner.widen (Nat.le_succ _)
    | .ok e =>
      match h : inner.rest with
      | [] => ⟨.error (.atClose t.span.start last), [], Nat.zero_le _⟩
      | close :: rest =>
        have := inner.le
        if close.kind = .mark .closeParen then
          ⟨.ok (.grouping (.cover t.span close.span) e), rest, by
            rw [h] at this; simp only [List.length_cons] at *; omega⟩
        else ⟨.error (.atClose t.span.start close), close :: rest, by
            rw [h] at this; simp only [List.length_cons] at *; omega⟩
  | _ => .fail (.atStart t)
termination_by (ts.length + 1, 1)
decreasing_by exact Prod.Lex.left _ _ (by omega)

end

end ScriptSyntax
