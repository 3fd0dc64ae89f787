/-
Two ways through the nodes of a tree, parents before children and left before right: by recursion
on the tree, and with a stack of the trees still to visit.
-/
import ScriptSyntax.Expr.Basic

namespace ScriptSyntax.Expr

variable {α : Type}

/-- All subtrees, each before its children. -/
def preorder : Expr α → List (Expr α)
  | e@(.literal _ _) | e@(.identifier _ _) => [e]
  | e@(.unary _ _ x) | e@(.grouping _ x) => e :: x.preorder
  | e@(.binary _ _ l r) => e :: (l.preorder ++ r.preorder)

/-- Visits the first tree of a stack and puts its children in its place. -/
def walkStack : List (Expr α) → List (Expr α)
  | [] => []
  | e :: stack => e :: walkStack (e.children ++ stack)
termination_by stack => sizeAll stack
decreasing_by
  have := size_children e
  rw [sizeAll_append, sizeAll]
  omega

def walk (e : Expr α) : List (Expr α) := walkStack [e]

end ScriptSyntax.Expr
