/-
The walk with a stack. In each round the first tree of the stack is visited and its children take its
place, so of all that is still to come, the preorders of the trees on the stack one after the other,
a round takes off just the first (`Expr.flatMap_preorder_round`). The walk over a tree therefore ends
after as many rounds as the tree has nodes and visits them in preorder (`Expr.walk_eq_preorder`).

Nodes are told apart by their places, as equal trees may stand in several. A place is the way from the
root, and the walk visits the places in their lexicographic order (`Expr.pairwise_places`).
-/
import ScriptSyntax.Expr.Walk
import Mathlib.Data.List.Nodup
import Mathlib.Data.List.Lex
import Mathlib.Logic.Function.Iterate

namespace ScriptSyntax.Expr

variable {α : Type}

/-! ## Rounds -/

/-- The stack that a round of the walk leaves. -/
def round : List (Expr α) → List (Expr α)
  | [] => []
  | e :: stack => e.children ++ stack

/-- A round visits the first tree of the stack, and the walk goes on with the stack it leaves. -/
theorem walkStack_eq_round (stack : List (Expr α)) :
    walkStack stack = stack.head?.toList ++ walkStack (round stack) := by
  cases stack with
  | nil => rw [round, walkStack, List.head?_nil, Option.toList_none, List.append_nil]
  | cons e stack =>
    rw [walkStack]
    rfl

theorem preorder_eq_cons (e : Expr α) : e.preorder = e :: e.children.flatMap preorder := by
  cases e <;> simp [preorder, children]

theorem head?_flatMap_preorder (stack : List (Expr α)) :
    (stack.flatMap preorder).head? = stack.head? := by
  cases stack with
  | nil => rfl
  | cons e stack => rw [List.flatMap_cons, preorder_eq_cons, List.cons_append, List.head?_cons,
      List.head?_cons]

/-- A round takes off the first of all the trees still to come. -/
theorem flatMap_preorder_round (stack : List (Expr α)) :
    (round stack).flatMap preorder = (stack.flatMap preorder).tail := by
  cases stack with
  | nil => rfl
  | cons e stack => rw [round, List.flatMap_append, List.flatMap_cons, preorder_eq_cons,
      List.cons_append, List.tail_cons]

theorem flatMap_preorder_rounds (stack : List (Expr α)) (n : Nat) :
    (round^[n] stack).flatMap preorder = (stack.flatMap preorder).drop n := by
  induction n with
  | zero => rfl
  | succ n ih => rw [Function.iterate_succ_apply', flatMap_preorder_round, ih, List.tail_drop]

theorem walkStack_eq_flatMap (stack : List (Expr α)) :
    walkStack stack = stack.flatMap preorder := by
  fun_induction walkStack stack with
  | case1 => rfl
  | case2 e stack ih => rw [ih, List.flatMap_append, List.flatMap_cons, preorder_eq_cons,
      List.cons_append]

theorem length_preorder (e : Expr α) : e.preorder.length = e.size := by
  induction e with
  | literal | identifier => rfl
  | unary _ _ x ih | grouping _ x ih => rw [preorder, List.length_cons, ih, size]
  | binary _ _ l r ihl ihr => rw [preorder, List.length_cons, List.length_append, ihl, ihr, size]

/-! ## Places -/

/-- The node in a place, which is a list of numbers of children, from the root on. -/
def at? : Expr α → List Nat → Option (Expr α)
  | e, [] => some e
  | e, k :: place => e.children[k]?.bind fun c => c.at? place

/-- The places of all nodes, in the order of the preorder. -/
def places : Expr α → List (List Nat)
  | .literal _ _ | .identifier _ _ => [[]]
  | .unary _ _ x | .grouping _ x => [] :: x.places.map (0 :: ·)
  | .binary _ _ l r => [] :: (l.places.map (0 :: ·) ++ r.places.map (1 :: ·))

theorem at?_append (e : Expr α) (p q : List Nat) :
    e.at? (p ++ q) = (e.at? p).bind fun c => c.at? q := by
  induction p generalizing e with
  | nil => rfl
  | cons k p ih =>
    rw [List.cons_append, at?, at?, Option.bind_assoc]
    simp only [ih]

theorem map_at?_places (e : Expr α) : e.places.map e.at? = e.preorder.map some := by
  induction e with
  | literal | identifier => rfl
  | unary _ _ x ih | grouping _ x ih => simp [places, preorder, at?, children, Function.comp_def, ih]
  | binary _ _ l r ihl ihr =>
    simp [places, preorder, at?, children, Function.comp_def, ihl, ihr]

theorem mem_places_iff (e : Expr α) (p : List Nat) : p ∈ e.places ↔ (e.at? p).isSome := by
  induction e generalizing p with
  | literal | identifier => cases p <;> simp [places, at?, children]
  | unary _ _ x ih | grouping _ x ih =>
    rcases p with - | ⟨- | k, p⟩ <;> simp [places, at?, children, ih]
  | binary _ _ l r ihl ihr =>
    rcases p with - | ⟨- | - | k, p⟩ <;> simp [places, at?, children, ihl, ihr]

theorem pairwise_below {places : List (List Nat)} (h : places.Pairwise (· < ·)) (k : Nat) :
    (places.map (k :: ·)).Pairwise (· < ·) :=
  h.map _ fun _ _ hlt => List.cons_lt_cons_iff.2 (.inr ⟨rfl, hlt⟩)

theorem pairwise_places (e : Expr α) : e.places.Pairwise (· < ·) := by
  induction e with
  | literal | identifier => exact List.pairwise_singleton _ _
  | unary _ _ x ih | grouping _ x ih =>
    refine List.pairwise_cons.2 ⟨?_, pairwise_below ih 0⟩
    intro p hp
    obtain ⟨q, -, rfl⟩ := List.mem_map.1 hp
    exact List.nil_lt_cons _ _
  | binary _ _ l r ihl ihr =>
    refine List.pairwise_cons.2 ⟨?_, List.pairwise_append.2
      ⟨pairwise_below ihl 0, pairwise_below ihr 1, ?_⟩⟩
    · intro p hp
      rcases List.mem_append.1 hp with hp | hp <;> obtain ⟨q, -, rfl⟩ := List.mem_map.1 hp <;>
        exact List.nil_lt_cons _ _
    · intro p hp q hq
      obtain ⟨p', -, rfl⟩ := List.mem_map.1 hp
      obtain ⟨q', -, rfl⟩ := List.mem_map.1 hq
      exact List.cons_lt_cons_iff.2 (.inl Nat.zero_lt_one)

/-- A place is visited earlier than another one if it is less. -/
theorem idxOf_places_lt {e : Expr α} {p q : List Nat} (hp : p ∈ e.places) (hq : q ∈ e.places)
    (h : p < q) : e.places.idxOf p < e.places.idxOf q := by
  have hi := List.idxOf_lt_length_iff.2 hp
  have hj := List.idxOf_lt_length_iff.2 hq
  by_contra hle
  rcases Nat.lt_or_eq_of_le (Nat.not_lt.1 hle) with hlt | heq
  · have hless := List.pairwise_iff_getElem.1 e.pairwise_places _ _ hj hi hlt
    rw [List.getElem_idxOf, List.getElem_idxOf] at hless
    exact lt_asymm h hless
  · exact h.ne ((List.idxOf_inj hp).1 heq.symm)

/-- The walk with a stack visits the nodes of a tree in preorder, one in each round, and its stack is
empty after as many rounds as there are nodes. Each place in the tree is visited once, earlier than
those below it, and what is below a child earlier than what is below the children after it. -/
theorem walk_eq_preorder (e : Expr α) :
    e.walk = e.preorder ∧
      (∀ stack : List (Expr α), walkStack stack = stack.head?.toList ++ walkStack (round stack)) ∧
      (∀ n, (round^[n] [e]).head? = e.walk[n]? ∧ (round^[n] [e] = [] ↔ e.size ≤ n)) ∧
      e.walk.map some = e.places.map e.at? ∧ e.places.Nodup ∧
      (∀ p, p ∈ e.places ↔ (e.at? p).isSome) ∧
      (∀ p q, q ≠ [] → p ++ q ∈ e.places → e.places.idxOf p < e.places.idxOf (p ++ q)) ∧
      ∀ p q r j k, j < k → p ++ j :: q ∈ e.places → p ++ k :: r ∈ e.places →
        e.places.idxOf (p ++ j :: q) < e.places.idxOf (p ++ k :: r) := by
  have hwalk : e.walk = e.preorder := by
    rw [walk, walkStack_eq_flatMap, List.flatMap_singleton]
  refine ⟨hwalk, walkStack_eq_round, ?_, ?_, e.pairwise_places.nodup, e.mem_places_iff, ?_, ?_⟩
  · intro n
    have hleft : (round^[n] [e]).flatMap preorder = e.preorder.drop n := by
      rw [flatMap_preorder_rounds, List.flatMap_singleton]
    have hhead : (round^[n] [e]).head? = e.preorder[n]? := by
      rw [← head?_flatMap_preorder, hleft, List.head?_drop]
    refine ⟨by rw [hhead, hwalk], ?_⟩
    rw [← List.head?_eq_none_iff, hhead, List.getElem?_eq_none_iff, length_preorder]
  · rw [hwalk, map_at?_places]
  · intro p q hq hmem
    have habove : p ∈ e.places := by
      rw [mem_places_iff, at?_append] at hmem
      exact (mem_places_iff e p).2 (Option.isSome_of_isSome_bind hmem)
    obtain ⟨k, q, rfl⟩ := List.exists_cons_of_ne_nil hq
    have hlt : p ++ [] < p ++ k :: q := List.append_left_lt (List.nil_lt_cons k q)
    rw [List.append_nil] at hlt
    exact idxOf_places_lt habove hmem hlt
  · intro p q r j k hjk hleft hright
    have hlt : j :: q < k :: r := List.cons_lt_cons_iff.2 (.inl hjk)
    exact idxOf_places_lt hleft hright (List.append_left_lt hlt)

/-- The right operand of the difference is visited earlier than that of the product. -/
theorem walk_eq_preorder_product :
    let name (s : String) : Expr Unit := .identifier () s
    let difference : Expr Unit := .binary () .sub (name "a") (name "b")
    let product : Expr Unit := .binary () .mul (.grouping () difference) (name "c")
    product.walk = [product, .grouping () difference, difference, name "a", name "b", name "c"] ∧
      [0, 0] ++ [1] ∈ product.places ∧ [] ++ 1 :: [] ∈ product.places ∧
      product.places.idxOf [0, 0] < product.places.idxOf ([0, 0] ++ [1]) ∧
      product.places.idxOf ([] ++ 0 :: [0, 1]) < product.places.idxOf ([] ++ 1 :: []) := by
  intro name difference product
  have hbelow : [0, 0] ++ [1] ∈ product.places := by decide
  have hright : [] ++ 1 :: [] ∈ product.places := by decide
  obtain ⟨hwalk, -, -, -, -, -, habove, hordered⟩ := product.walk_eq_preorder
  exact ⟨hwalk, hbelow, hright, habove _ _ (by decide) hbelow,
    hordered [] [0, 1] [] 0 1 (by decide) hbelow hright⟩

end ScriptSyntax.Expr
