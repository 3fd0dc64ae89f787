/-
Expression trees. Every node carries a note; trees read from a source have spans as notes. A
parenthesised expression is a node of its own, so that its span holds the parentheses.
-/
import ScriptSyntax.Operator
import ScriptSyntax.Token.Basic

namespace ScriptSyntax

inductive Expr (α : Type) where
  | literal (note : α) (value : Literal)
  | identifier (note : α) (name : String)
  | unary (note : α) (op : UnaryOp) (operand : Expr α)
  | binary (note : α) (op : BinaryOp) (lhs rhs : Expr α)
  | grouping (note : α) (inner : Expr α)
deriving DecidableEq

namespace Expr

variable {α β : Type}

def note : Expr α → α
  | .literal a _ | .identifier a _ | .unary a _ _ | .binary a _ _ _ | .grouping a _ => a

/-- The tree with its notes replaced. -/
def map (f : α → β) : Expr α → Expr β
  | .literal a v => .literal (f a) v
  | .identifier a n => .identifier (f a) n
  | .unary a op e => .unary (f a) op (e.map f)
  | .binary a op l r => .binary (f a) op (l.map f) (r.map f)
  | .grouping a e => .grouping (f a) (e.map f)

/-- The tree without its notes. -/
def bare (e : Expr α) : Expr Unit := e.map fun _ => ()

def children : Expr α → List (Expr α)
  | .literal _ _ | .identifier _ _ => []
  | .unary _ _ e | .grouping _ e => [e]
  | .binary _ _ l r => [l, r]

def size : Expr α → Nat
  | .literal _ _ | .identifier _ _ => 1
  | .unary _ _ e | .grouping _ e => e.size + 1
  | .binary _ _ l r => l.size + r.size + 1

/-- The number of nodes of several trees. -/
def sizeAll : List (Expr α) → Nat
  | [] => 0
  | e :: es => e.size + sizeAll es

theorem sizeAll_append (es fs : List (Expr α)) : sizeAll (es ++ fs) = sizeAll es + sizeAll fs := by
  induction es with
  | nil => simp [sizeAll]
  | cons e es ih => simp [sizeAll, ih, Nat.add_assoc]

theorem size_children (e : Expr α) : sizeAll e.children + 1 = e.size := by
  cases e <;> simp [children, size, sizeAll]

/-- The number of an expression's strength as an operand; what no operator can split is strongest. -/
def rank : Expr α → Nat
  | .binary _ op _ _ => op.precedence.rank
  | .unary _ _ _ => Precedence.unary.rank
  | _ => Precedence.unary.rank + 1

/-- The word for the shape of a node. -/
def shapeName : Expr α → String
  | .literal _ _ => "Literal"
  | .identifier _ _ => "Identifier"
  | .unary _ _ _ => "Unary"
  | .binary _ _ _ _ => "Binary"
  | .grouping _ _ => "Grouping"

end Expr

end ScriptSyntax
