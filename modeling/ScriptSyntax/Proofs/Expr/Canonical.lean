/-
The declarative side of reading expressions, written without a parser:

- `Expr.yield`: the terminals that a tree spells, from left to right, parentheses included;
- `Expr.Canonical`: the trees in which every operand stands where its operator may take it without
  parentheses;
- `Expr.depth`: how many levels stand open at the deepest place of a tree, the outermost not
  counted;
- `Expr.Spelled`: a tree with its spans is what these tokens spell, token by token.

A tree that tokens spell has their terminals as its yield and runs from the start of the first to
the stop of the last. Two canonical operands meet at an operator exactly if the left one would have
let the operator stand behind it (`rank_lt_rightRank_iff`); the parser rests on this fact in both
directions.
-/
import ScriptSyntax.Expr.Session

namespace ScriptSyntax

/-! ## Terminals -/

/-- What the grammar sees of a token: what it means and, of a name, how it is spelled. -/
inductive Terminal where
  | name (n : String)
  | literal (v : Literal)
  | mark (m : Mark)
  | eof
deriving DecidableEq

def Token.terminal (t : Token) : Terminal :=
  match t.meaning with
  | .name => .name t.lexeme
  | .literal v => .literal v
  | .mark m => .mark m
  | .eof => .eof

namespace Token

theorem terminal_eq_name {t : Token} {n : String} :
    t.terminal = .name n ↔ t.meaning = .name ∧ t.lexeme = n := by
  unfold terminal
  cases t.meaning <;> simp

theorem terminal_eq_literal {t : Token} {v : Literal} :
    t.terminal = .literal v ↔ t.meaning = .literal v := by
  unfold terminal
  cases t.meaning <;> simp

theorem terminal_eq_mark {t : Token} {m : Mark} : t.terminal = .mark m ↔ t.meaning = .mark m := by
  unfold terminal
  cases t.meaning <;> simp

theorem terminal_eq_eof {t : Token} : t.terminal = .eof ↔ t.kind = .eof := by
  unfold terminal kind
  rcases t.meaning with _ | (n | x | s | (_ | _)) | m | _ <;> simp [Meaning.kind]

theorem kind_eq_mark {t : Token} {m : Mark} : t.kind = .mark m ↔ t.meaning = .mark m := by
  unfold kind
  rcases t.meaning with _ | (n | x | s | (_ | _)) | m | _ <;> simp [Meaning.kind]

theorem binaryOp?_eq_some {t : Token} {op : BinaryOp} :
    t.kind.binaryOp? = some op ↔ t.terminal = .mark op.mark := by
  rw [terminal_eq_mark]
  constructor
  · intro h
    cases hk : t.kind with
    | mark m =>
      rw [hk] at h
      rw [BinaryOp.mark_of_ofMark? h]
      exact kind_eq_mark.1 hk
    | _ => rw [hk] at h; cases h
  · intro h
    rw [kind_eq_mark.2 h]
    exact BinaryOp.ofMark?_mark op

theorem unaryOp?_eq_some {t : Token} {op : UnaryOp} :
    t.kind.unaryOp? = some op ↔ t.terminal = .mark op.mark := by
  rw [terminal_eq_mark]
  constructor
  · intro h
    cases hk : t.kind with
    | mark m =>
      rw [hk] at h
      rw [UnaryOp.mark_of_ofMark? h]
      exact kind_eq_mark.1 hk
    | _ => rw [hk] at h; cases h
  · intro h
    rw [kind_eq_mark.2 h]
    exact UnaryOp.ofMark?_mark op

end Token

/-! ## Operators that meet -/

namespace BinaryOp

theorem associativity_of_rank_eq {o op : BinaryOp} (h : o.precedence.rank = op.precedence.rank) :
    o.associativity = op.associativity := by
  revert h
  cases o <;> cases op <;> decide

/-- An operator may stand behind a right operand of `o` and take in all before it: it is not the
weaker of the two, and of two equally strong ones it leans to the left. -/
theorem rank_lt_rightRank_iff {o op : BinaryOp} :
    (op.precedence.rank : Int) < o.rightRank ↔
      ¬ o.precedence.rank < op.precedence.rank ∧
        ¬ (o.precedence.rank = op.precedence.rank ∧ op.associativity = .right) := by
  unfold rightRank
  -- operators of one rank lean to the same side, so it is the side of `op` that counts
  by_cases he : o.precedence.rank = op.precedence.rank
  · rw [associativity_of_rank_eq he]
    cases op.associativity <;>
      simp only [reduceCtorEq, and_false, and_true, not_false_eq_true] <;> omega
  · cases o.associativity <;> simp <;> omega

theorem rank_le_rightRank (op : BinaryOp) : (op.precedence.rank : Int) ≤ op.rightRank := by
  unfold rightRank
  cases op.associativity <;> simp only <;> omega

end BinaryOp

/-! ## Trees -/

namespace Expr

variable {α β : Type}

/-- The operator at the root of a tree, if that is a binary one. -/
def operator? : Expr α → Option BinaryOp
  | .binary _ op _ _ => some op
  | _ => none

/-- The terminals that a tree spells. -/
def yield : Expr α → List Terminal
  | .literal _ v => [.literal v]
  | .identifier _ n => [.name n]
  | .unary _ op e => .mark op.mark :: e.yield
  | .binary _ op l r => l.yield ++ .mark op.mark :: r.yield
  | .grouping _ e => .mark .openParen :: e.yield ++ [.mark .closeParen]

/-- May the tree stand to the left of an operator without parentheses? -/
def FitsLeft (op : BinaryOp) (l : Expr α) : Prop :=
  ∀ o, l.operator? = some o → ¬ o.precedence.rank < op.precedence.rank ∧
    ¬ (o.precedence.rank = op.precedence.rank ∧ op.associativity = .right)

/-- May the tree stand to the right of an operator without parentheses? -/
def FitsRight (op : BinaryOp) (r : Expr α) : Prop :=
  ∀ o, r.operator? = some o → ¬ o.precedence.rank < op.precedence.rank ∧
    ¬ (o.precedence.rank = op.precedence.rank ∧ op.associativity = .left)

instance (op : BinaryOp) (l : Expr α) : Decidable (FitsLeft op l) :=
  inferInstanceAs (Decidable (∀ o ∈ l.operator?, _))

instance (op : BinaryOp) (r : Expr α) : Decidable (FitsRight op r) :=
  inferInstanceAs (Decidable (∀ o ∈ r.operator?, _))

/-- Every operand of the tree may stand where it stands without parentheses. -/
def Canonical : Expr α → Prop
  | .literal _ _ | .identifier _ _ => True
  | .unary _ _ e => e.operator? = none ∧ e.Canonical
  | .binary _ op l r => FitsLeft op l ∧ FitsRight op r ∧ l.Canonical ∧ r.Canonical
  | .grouping _ e => e.Canonical

instance : (e : Expr α) → Decidable e.Canonical
  | .literal _ _ | .identifier _ _ => inferInstanceAs (Decidable True)
  | .unary _ _ e =>
    have := instDecidableCanonical e
    inferInstanceAs (Decidable (e.operator? = none ∧ e.Canonical))
  | .binary _ op l r =>
    have := instDecidableCanonical l
    have := instDecidableCanonical r
    inferInstanceAs (Decidable (FitsLeft op l ∧ FitsRight op r ∧ l.Canonical ∧ r.Canonical))
  | .grouping _ e => instDecidableCanonical e

/-- The levels open at the deepest place of a tree, the outermost not counted. -/
def depth : Expr α → Nat
  | .literal _ _ | .identifier _ _ => 0
  | .unary _ _ e | .grouping _ e => e.depth + 1
  | .binary _ _ l r => max l.depth (r.depth + 1)

/-- A tree that is a binary one has an operator of at least that rank at its root. -/
def AtLeast (least : Int) (e : Expr α) : Prop :=
  ∀ op, e.operator? = some op → least ≤ op.precedence.rank

theorem atLeast_of_none {least : Int} {e : Expr α} (h : e.operator? = none) : e.AtLeast least := by
  intro op ho
  rw [h] at ho
  cases ho

/-- Every operator has rank 1 at least. -/
theorem atLeast_one (e : Expr α) : e.AtLeast 1 := by
  intro op _
  have := op.rank_pos
  omega

theorem fitsRight_iff {op : BinaryOp} {r : Expr α} : FitsRight op r ↔ r.AtLeast op.rightRank := by
  unfold FitsRight AtLeast BinaryOp.rightRank
  refine forall₂_congr fun o _ => ?_
  cases op.associativity <;>
    simp only [reduceCtorEq, and_false, and_true, not_false_eq_true] <;> omega

theorem fitsLeft_iff {op : BinaryOp} {l : Expr α} :
    FitsLeft op l ↔ ∀ o, l.operator? = some o → (op.precedence.rank : Int) < o.rightRank :=
  forall₂_congr fun _ _ => BinaryOp.rank_lt_rightRank_iff.symm

theorem FitsLeft.atLeast {op : BinaryOp} {l : Expr α} (h : FitsLeft op l) :
    l.AtLeast op.precedence.rank := by
  intro o ho
  have := (h o ho).1
  omega

theorem yield_ne_nil (e : Expr α) : e.yield ≠ [] := by
  cases e <;> simp [yield]

theorem eof_notMem_yield (e : Expr α) : Terminal.eof ∉ e.yield := by
  induction e with
  | literal | identifier => simp [yield]
  | unary _ _ _ ih => simpa [yield] using ih
  | binary _ _ _ _ ihl ihr => simpa [yield] using ⟨ihl, ihr⟩
  | grouping _ _ ih => simpa [yield] using ih

/-! ### Notes do not count -/

@[simp] theorem operator?_map (f : α → β) (e : Expr α) : (e.map f).operator? = e.operator? := by
  cases e <;> rfl

@[simp] theorem yield_map (f : α → β) (e : Expr α) : (e.map f).yield = e.yield := by
  induction e <;> simp_all [map, yield]

@[simp] theorem depth_map (f : α → β) (e : Expr α) : (e.map f).depth = e.depth := by
  induction e <;> simp_all [map, depth]

@[simp] theorem fitsLeft_map (f : α → β) (op : BinaryOp) (e : Expr α) :
    FitsLeft op (e.map f) ↔ FitsLeft op e := by simp [FitsLeft]

@[simp] theorem fitsRight_map (f : α → β) (op : BinaryOp) (e : Expr α) :
    FitsRight op (e.map f) ↔ FitsRight op e := by simp [FitsRight]

@[simp] theorem canonical_map (f : α → β) (e : Expr α) : (e.map f).Canonical ↔ e.Canonical := by
  induction e <;> simp_all [map, Canonical]

@[simp] theorem operator?_bare (e : Expr α) : e.bare.operator? = e.operator? := operator?_map ..

@[simp] theorem yield_bare (e : Expr α) : e.bare.yield = e.yield := yield_map ..

@[simp] theorem depth_bare (e : Expr α) : e.bare.depth = e.depth := depth_map ..

@[simp] theorem canonical_bare (e : Expr α) : e.bare.Canonical ↔ e.Canonical := canonical_map ..

/-! ## Trees and the tokens that spell them -/

/-- The tokens spell the tree: every node stands over its own tokens, in order, and its span covers
them. -/
inductive Spelled : Expr Span → List Token → Prop
  | literal {t : Token} {v : Literal} : t.terminal = .literal v → Spelled (.literal t.span v) [t]
  | identifier {t : Token} {n : String} :
      t.terminal = .name n → Spelled (.identifier t.span n) [t]
  | unary {t : Token} {op : UnaryOp} {e : Expr Span} {us : List Token} :
      t.terminal = .mark op.mark → Spelled e us →
      Spelled (.unary (.cover t.span e.note) op e) (t :: us)
  | binary {t : Token} {op : BinaryOp} {l r : Expr Span} {us vs : List Token} :
      Spelled l us → t.terminal = .mark op.mark → Spelled r vs →
      Spelled (.binary (.cover l.note r.note) op l r) (us ++ t :: vs)
  | grouping {o c : Token} {e : Expr Span} {us : List Token} :
      o.terminal = .mark .openParen → Spelled e us → c.terminal = .mark .closeParen →
      Spelled (.grouping (.cover o.span c.span) e) (o :: us ++ [c])

theorem Spelled.terminals {e : Expr Span} {us : List Token} (h : Spelled e us) :
    us.map Token.terminal = e.yield := by
  induction h <;> simp_all [yield]

theorem Spelled.ne_nil {e : Expr Span} {us : List Token} (h : Spelled e us) : us ≠ [] := by
  intro hu
  have := h.terminals
  rw [hu] at this
  exact yield_ne_nil e this.symm

theorem Spelled.kind_ne_eof {e : Expr Span} {us : List Token} (h : e.Spelled us) :
    ∀ t ∈ us, t.kind ≠ .eof := by
  intro t ht heof
  refine e.eof_notMem_yield ?_
  rw [← h.terminals, ← Token.terminal_eq_eof.2 heof]
  exact List.mem_map_of_mem ht

/-- A tree runs from the start of its first token to the stop of its last one. -/
theorem Spelled.note_eq {e : Expr Span} {us : List Token} (h : Spelled e us) :
    ∀ hu : us ≠ [], e.note = .cover (us.head hu).span (us.getLast hu).span := by
  induction h with
  | literal | identifier => exact fun _ => rfl
  | @unary t op e us _ he ih =>
    intro hu
    show Span.cover t.span e.note = _
    rw [ih he.ne_nil, List.head_cons, List.getLast_cons he.ne_nil]
    rfl
  | @binary t op l r us vs hl _ hr ihl ihr =>
    intro hu
    show Span.cover l.note r.note = _
    rw [ihl hl.ne_nil, ihr hr.ne_nil, List.head_append_left hl.ne_nil,
      List.getLast_append_of_ne_nil _ (List.cons_ne_nil t vs), List.getLast_cons hr.ne_nil]
    rfl
  | @grouping o c e us _ _ _ _ =>
    intro hu
    show Span.cover o.span c.span = _
    rw [List.getLast_append_of_ne_nil _ (List.cons_ne_nil c [])]
    rfl

/-- Tokens with the yield of a tree spell it, with spans of their own. -/
theorem exists_spelled : ∀ (e : Expr Unit) (us : List Token), us.map Token.terminal = e.yield →
    ∃ t : Expr Span, t.bare = e ∧ Spelled t us
  | .literal _ v, us, h => by
    obtain ⟨t, rfl, ht⟩ := List.map_eq_singleton_iff.1 h
    exact ⟨_, rfl, .literal ht⟩
  | .identifier _ n, us, h => by
    obtain ⟨t, rfl, ht⟩ := List.map_eq_singleton_iff.1 h
    exact ⟨_, rfl, .identifier ht⟩
  | .unary _ op e, us, h => by
    obtain ⟨t, us, rfl, ht, he⟩ := List.map_eq_cons_iff.1 h
    obtain ⟨x, rfl, hx⟩ := exists_spelled e us he
    exact ⟨_, rfl, .unary ht hx⟩
  | .binary _ op l r, us, h => by
    obtain ⟨ls, us, rfl, hl, h⟩ := List.map_eq_append_iff.1 h
    obtain ⟨t, rs, rfl, ht, hr⟩ := List.map_eq_cons_iff.1 h
    obtain ⟨x, rfl, hx⟩ := exists_spelled l ls hl
    obtain ⟨y, rfl, hy⟩ := exists_spelled r rs hr
    exact ⟨_, rfl, .binary hx ht hy⟩
  | .grouping _ e, us, h => by
    obtain ⟨o, us, rfl, ho, h⟩ := List.map_eq_cons_iff.1 h
    obtain ⟨us, cs, rfl, he, h⟩ := List.map_eq_append_iff.1 h
    obtain ⟨c, rfl, hc⟩ := List.map_eq_singleton_iff.1 h
    obtain ⟨x, rfl, hx⟩ := exists_spelled e us he
    exact ⟨_, rfl, .grouping ho hx hc⟩

end Expr

end ScriptSyntax
