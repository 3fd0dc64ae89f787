/-
An expression as JSON: every node names its shape and its span, then its own parts in order.
Positions show row, column and offset; the file stays out.
-/
import ScriptSyntax.Expr.Printer
import ScriptSyntax.Json

namespace ScriptSyntax

def Position.toJson (p : Position) : Json :=
  .object [("row", .int p.row), ("col", .int p.col), ("offset", .int p.offset)]

def Span.toJson (s : Span) : Json :=
  .object [("node", .string "Span"), ("start", s.start.toJson), ("end", s.stop.toJson)]

def Literal.toJson : Literal → Json
  | .int n => .int n
  | .float x => .float x
  | .string s => .string s
  | .bool b => .bool b

namespace Expr

/-- The members that all nodes have. -/
def headMembers (e : Expr Span) : List (String × Json) :=
  [("node", .string e.shapeName), ("span", e.note.toJson)]

def toJson : Expr Span → Json
  | e@(.literal _ v) =>
    .object (e.headMembers ++ [("kind", .string v.typeName), ("value", v.toJson)])
  | e@(.identifier _ n) => .object (e.headMembers ++ [("name", .string n)])
  | e@(.unary _ op x) =>
    .object (e.headMembers ++ [("op", .string op.text), ("operand", x.toJson)])
  | e@(.binary _ op l r) =>
    .object (e.headMembers ++ [("op", .string op.text), ("lhs", l.toJson), ("rhs", r.toJson)])
  | e@(.grouping _ x) => .object (e.headMembers ++ [("inner", x.toJson)])

end Expr

/-- The members of a node are collected by a call of their own, one level down the tree. -/
def Descent.json : Descent := ⟨2, 2⟩

/-- The text of the JSON of an expression, written with so many frames left. -/
def Expr.jsonWithin (frames : Nat) (e : Expr Span) : Except PrintError String :=
  if e.callDepth .json ≤ frames then .ok e.toJson.text else .error .tooDeep

end ScriptSyntax
