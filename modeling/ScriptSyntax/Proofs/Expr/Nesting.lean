/-
How deep tokens are nested. A token lies inside the parentheses around it, behind the prefix operators
whose operand it belongs to, and in the right operands of binary operators. `Expr.levels` counts these
for each token, and of the binary operators only those that are said to open a level.

Tokens are read exactly if each of them lies inside fewer than 200 levels when the right operand of
every operator is one; else it is the nesting that is blamed (`parseTokens_nesting`). When only the
right operands of assignments are counted, the limit is another one: operators of ten strengths can
stand in one another's right operands between two such levels, so that 17 levels are always read and
18 need not be (`Canonical.depth_le_nesting`, `Expr.ladders`).
-/
import ScriptSyntax.Proofs.Expr.Earliest
import ScriptSyntax.Proofs.Expr.Printed
import ScriptSyntax.Proofs.Expr.Regrouped

namespace ScriptSyntax

theorem BinaryOp.rank_eq_one_iff {op : BinaryOp} :
    op.precedence.rank = 1 ↔ op.isAssignment = true := by
  cases op <;> decide

namespace Terminal

/-- A token that means the terminal. -/
def token : Terminal → Token
  | .name n => ⟨.name, n, .point (.startOf ⟨0⟩)⟩
  | .literal v => ⟨.literal v, String.ofList v.chars, .point (.startOf ⟨0⟩)⟩
  | .mark m => ⟨.mark m, m.text, .point (.startOf ⟨0⟩)⟩
  | .eof => .eof (.startOf ⟨0⟩)

@[simp] theorem terminal_token (x : Terminal) : x.token.terminal = x := by
  cases x <;> rfl

end Terminal

namespace Expr

variable {α : Type} {opens : BinaryOp → Bool}

/-! ## Levels -/

/-- For each token of a tree the number of levels that it lies inside: parentheses, prefix operators
and the right operands of the operators that open one. -/
def levels (opens : BinaryOp → Bool) : Expr α → List Nat
  | .literal _ _ | .identifier _ _ => [0]
  | .unary _ _ e => 0 :: (e.levels opens).map (· + 1)
  | .binary _ op l r => l.levels opens ++ 0 :: (r.levels opens).map (· + (opens op).toNat)
  | .grouping _ e => 0 :: (e.levels opens).map (· + 1) ++ [0]

/-- The levels open at the deepest token. -/
def nesting (opens : BinaryOp → Bool) : Expr α → Nat
  | .literal _ _ | .identifier _ _ => 0
  | .unary _ _ e | .grouping _ e => e.nesting opens + 1
  | .binary _ op l r => max (l.nesting opens) (r.nesting opens + (opens op).toNat)

theorem length_levels (e : Expr α) : (e.levels opens).length = e.yield.length := by
  induction e <;> simp_all [levels, yield]

theorem nesting_mem_levels (e : Expr α) : e.nesting opens ∈ e.levels opens := by
  induction e with
  | literal | identifier => exact List.mem_singleton_self 0
  | unary _ _ _ ih => exact List.mem_cons_of_mem _ (List.mem_map_of_mem ih)
  | binary _ op l r ihl ihr =>
    rw [nesting, levels, List.mem_append]
    rcases Nat.le_total (r.nesting opens + (opens op).toNat) (l.nesting opens) with h | h
    · rw [Nat.max_eq_left h]
      exact .inl ihl
    · rw [Nat.max_eq_right h]
      exact .inr (List.mem_cons_of_mem _ (List.mem_map_of_mem ihr))
  | grouping _ _ ih =>
    exact List.mem_append_left _ (List.mem_cons_of_mem _ (List.mem_map_of_mem ih))

theorem le_nesting_of_mem_levels {e : Expr α} {n : Nat} (h : n ∈ e.levels opens) :
    n ≤ e.nesting opens := by
  induction e generalizing n with
  | literal | identifier => simp_all [levels, nesting]
  | unary _ _ _ ih =>
    rcases List.mem_cons.1 h with rfl | h
    · exact Nat.zero_le _
    obtain ⟨m, hm, rfl⟩ := List.mem_map.1 h
    exact Nat.succ_le_succ (ih hm)
  | binary _ op _ _ ihl ihr =>
    rcases List.mem_append.1 h with h | h
    · exact (ihl h).trans (Nat.le_max_left ..)
    rcases List.mem_cons.1 h with rfl | h
    · exact Nat.zero_le _
    obtain ⟨m, hm, rfl⟩ := List.mem_map.1 h
    exact (Nat.add_le_add_right (ihr hm) _).trans (Nat.le_max_right ..)
  | grouping _ _ ih =>
    rcases List.mem_append.1 h with h | h
    · rcases List.mem_cons.1 h with rfl | h
      · exact Nat.zero_le _
      obtain ⟨m, hm, rfl⟩ := List.mem_map.1 h
      exact Nat.succ_le_succ (ih hm)
    · rw [List.mem_singleton.1 h]
      exact Nat.zero_le _

theorem forall_levels_le_iff {e : Expr α} {k : Nat} :
    (∀ n ∈ e.levels opens, n ≤ k) ↔ e.nesting opens ≤ k :=
  ⟨fun h => h _ e.nesting_mem_levels, fun h _ hn => (le_nesting_of_mem_levels hn).trans h⟩

theorem forall_levels_lt_iff {e : Expr α} {k : Nat} :
    (∀ n ∈ e.levels opens, n < k) ↔ e.nesting opens < k :=
  ⟨fun h => h _ e.nesting_mem_levels, fun h _ hn => (le_nesting_of_mem_levels hn).trans_lt h⟩

/-- Where every operator opens a level, it is the levels of the parser that are counted. -/
theorem nesting_true (e : Expr α) : e.nesting (fun _ => true) = e.depth := by
  induction e <;> simp_all [nesting, depth]

/-! ## Levels that only assignments open -/

theorem FitsLeft.rank_le {op : BinaryOp} {l : Expr α} (h : FitsLeft op l) :
    op.precedence.rank ≤ l.rank := by
  cases ho : l.operator? with
  | none => exact op.rank_lt_unary.le.trans (unary_rank_le ho)
  | some o =>
    have := (h o ho).1
    rw [rank_eq_of_operator? ho]
    omega

theorem FitsRight.rank_lt {op : BinaryOp} {r : Expr α} (h : FitsRight op r)
    (hop : op.isAssignment = false) : op.precedence.rank < r.rank := by
  cases ho : r.operator? with
  | none => exact op.rank_lt_unary.trans_le (unary_rank_le ho)
  | some o =>
    obtain ⟨hlt, hne⟩ := h o ho
    have hleft : op.associativity = .left := by simp [BinaryOp.associativity, hop]
    have : o.precedence.rank ≠ op.precedence.rank := fun heq => hne ⟨heq, hleft⟩
    rw [rank_eq_of_operator? ho]
    omega

/-- Between two levels that are counted the parser opens one for each strength above that of
assignments at most: an operator that opens none is stronger than the one whose right operand it
stands in. -/
theorem Canonical.depth_add_rank_le {e : Expr α} (hc : e.Canonical) :
    e.depth + max 2 (min 12 e.rank) ≤ 11 * e.nesting (·.isAssignment) + 12 := by
  induction e with
  | literal | identifier => exact Nat.le_refl 12
  | unary _ _ e ih =>
    have he := ih hc.2
    have hrank : 12 ≤ e.rank := unary_rank_le hc.1
    simp only [depth, nesting, rank, Precedence.rank]
    omega
  | binary _ op l r ihl ihr =>
    obtain ⟨hfl, hfr, hcl, hcr⟩ := hc
    have hl := ihl hcl
    have hr := ihr hcr
    have hleft := hfl.rank_le
    have hlt : op.precedence.rank < 12 := op.rank_lt_unary
    simp only [depth, nesting, rank]
    cases hop : op.isAssignment with
    | true =>
      have hone := BinaryOp.rank_eq_one_iff.2 hop
      simp only [Bool.toNat_true]
      omega
    | false =>
      have hpos := op.rank_pos
      have hone := mt BinaryOp.rank_eq_one_iff.1 (Bool.eq_false_iff.1 hop)
      have hright := hfr.rank_lt hop
      simp only [Bool.toNat_false]
      omega
  | grouping _ e ih =>
    have he := ih hc
    simp only [depth, nesting, rank, Precedence.rank]
    omega

theorem Canonical.depth_le_nesting {e : Expr α} (hc : e.Canonical) :
    e.depth ≤ 11 * e.nesting (·.isAssignment) + 10 := by
  have := hc.depth_add_rank_le
  omega

/-! ## Which tokens are read -/

section Tokens

variable {ts : TokenList} {e : Expr Unit}

theorem Canonical.parseTokens_of_depth (hc : e.Canonical)
    (hy : e.yield = ts.front.map Token.terminal) (hd : e.depth < maxNesting) :
    ∃ t, parseTokens ts = .ok t ∧ t.bare = e := by
  obtain ⟨t, rfl, hs⟩ := exists_spelled e ts.front hy.symm
  exact ⟨t, (parseTokens_eq_ok_iff_of_front hs.kind_ne_eof).2
    ⟨hs, (canonical_bare t).1 hc, (depth_bare t).symm.trans_lt hd⟩, rfl⟩

theorem Canonical.parseTokens_of_le_depth (hc : e.Canonical)
    (hy : e.yield = ts.front.map Token.terminal) (hd : maxNesting ≤ e.depth) :
    ∃ f, parseTokens ts = .error f ∧ f.report.sort = .nesting := by
  obtain ⟨t, rfl, hs⟩ := exists_spelled e ts.front hy.symm
  obtain ⟨f, hf, hcause⟩ :=
    parseTokens_tooDeep hs ((canonical_bare t).1 hc) (hd.trans_eq (depth_bare t))
  exact ⟨f, hf, SyntaxError.sort_eq_nesting_iff.2 hcause⟩

end Tokens

/-! ## Trees at the limits -/

/-- Groups inside one another. -/
def groups : Nat → Expr Unit
  | 0 => .identifier () "a"
  | n + 1 => .grouping () (groups n)

theorem canonical_groups (n : Nat) : (groups n).Canonical := by
  induction n with
  | zero => trivial
  | succ _ ih => exact ih

theorem nesting_groups (n : Nat) : (groups n).nesting opens = n := by
  induction n with
  | zero => rfl
  | succ _ ih => exact congrArg (· + 1) ih

/-- Operators that each stand in the right operand of the one before. -/
def climb (ops : List BinaryOp) (e : Expr Unit) : Expr Unit :=
  ops.foldr (.binary () · (.identifier () "a")) e

section Climb

variable {e : Expr Unit} {ops : List BinaryOp}

theorem operator?_climb (ho : e.operator? = none) : (climb ops e).operator? = ops.head? := by
  cases ops with
  | nil => exact ho
  | cons => rfl

theorem Canonical.climb (hc : e.Canonical) (ho : e.operator? = none)
    (hops : ops.Pairwise (·.precedence.rank < ·.precedence.rank)) : (climb ops e).Canonical := by
  induction ops with
  | nil => exact hc
  | cons op ops ih =>
    obtain ⟨hop, hops⟩ := List.pairwise_cons.1 hops
    refine ⟨nofun, fun o h => ?_, trivial, ih hops⟩
    have := hop o (List.mem_of_head? ((operator?_climb ho).symm.trans h))
    omega

theorem depth_climb : (climb ops e).depth = e.depth + ops.length := by
  induction ops with
  | nil => rfl
  | cons op ops ih =>
    show max 0 ((climb ops e).depth + 1) = _
    rw [ih, List.length_cons]
    omega

theorem nesting_climb (hops : ∀ op ∈ ops, opens op = false) :
    (climb ops e).nesting opens = e.nesting opens := by
  induction ops with
  | nil => rfl
  | cons op ops ih =>
    obtain ⟨hop, hops⟩ := List.forall_mem_cons.1 hops
    show max 0 ((climb ops e).nesting opens + (opens op).toNat) = _
    rw [ih hops, hop]
    exact Nat.max_eq_right (Nat.zero_le _)

end Climb

/-- One operator of each strength above that of assignments. -/
def strengths : List BinaryOp :=
  [.logicOr, .logicAnd, .bitOr, .bitXor, .bitAnd, .cmpEq, .cmpLt, .leftShift, .add, .mul]

/-- Operators of all these strengths, with a group in the last right operand that holds them again. -/
def ladders : Nat → Expr Unit
  | 0 => climb strengths (.identifier () "a")
  | n + 1 => climb strengths (.grouping () (ladders n))

theorem canonical_ladders (n : Nat) : (ladders n).Canonical := by
  have hstrengths : strengths.Pairwise (·.precedence.rank < ·.precedence.rank) := by decide
  induction n with
  | zero => exact Canonical.climb (e := .identifier () "a") trivial rfl hstrengths
  | succ n ih => exact Canonical.climb (e := .grouping () (ladders n)) ih rfl hstrengths

theorem depth_ladders (n : Nat) : (ladders n).depth = 11 * n + 10 := by
  induction n with
  | zero => exact depth_climb
  | succ n ih =>
    rw [ladders, depth_climb, depth, ih]
    show 11 * n + 10 + 1 + 10 = 11 * (n + 1) + 10
    omega

theorem nesting_ladders (n : Nat) : (ladders n).nesting (·.isAssignment) = n := by
  have hstrengths : ∀ op ∈ strengths, op.isAssignment = false := by decide
  induction n with
  | zero => exact nesting_climb hstrengths
  | succ n ih => rw [ladders, nesting_climb hstrengths, nesting, ih]

/-- The terminals of a tree as tokens, all at one place. -/
def tokens (e : Expr Unit) : TokenList :=
  ⟨e.yield.map Terminal.token, .eof (.startOf ⟨0⟩), rfl⟩

theorem terminals_tokens (e : Expr Unit) : e.yield = e.tokens.front.map Token.terminal := by
  simp [tokens, Function.comp_def]

end Expr

/-! ## The limit -/

/-- Tokens that spell an expression are read exactly if each of them lies inside fewer levels than may
be open, where the right operand of every operator is a level; else it is the nesting that is blamed.
Where of the right operands only those of assignments count, 17 levels are always read. -/
theorem parseTokens_nesting {ts : TokenList} {x : Expr Unit}
    (hx : x.yield = ts.front.map Token.terminal) :
    ∃ e : Expr Unit, e.Canonical ∧ e.yield = ts.front.map Token.terminal ∧
      (∀ opens, (e.levels opens).length = ts.front.length) ∧
      ((∃ t, parseTokens ts = .ok t ∧ t.bare = e) ↔ ∀ n ∈ e.levels fun _ => true, n < maxNesting) ∧
      ((∃ f, parseTokens ts = .error f ∧ f.report.sort = .nesting) ↔
        ∃ n ∈ e.levels fun _ => true, maxNesting ≤ n) ∧
      ((∀ n ∈ e.levels (·.isAssignment), n ≤ 17) → ∃ t, parseTokens ts = .ok t ∧ t.bare = e) := by
  obtain ⟨e, hc, hyield⟩ := x.exists_canonical_yield_eq
  have hy := hyield.trans hx
  have hlevels : (∀ n ∈ e.levels fun _ => true, n < maxNesting) ↔ e.depth < maxNesting := by
    rw [Expr.forall_levels_lt_iff, e.nesting_true]
  have hdeep : (∃ n ∈ e.levels fun _ => true, maxNesting ≤ n) ↔ maxNesting ≤ e.depth := by
    rw [← Nat.not_lt, ← hlevels]
    simp
  refine ⟨e, hc, hy, fun opens => ?_, ⟨?_, ?_⟩, ⟨?_, ?_⟩, ?_⟩
  · rw [e.length_levels, hy, List.length_map]
  · rintro ⟨t, ht, -⟩
    refine hlevels.2 (Nat.not_le.1 fun hd => ?_)
    obtain ⟨f, hf, -⟩ := hc.parseTokens_of_le_depth hy hd
    cases ht.symm.trans hf
  · exact fun h => hc.parseTokens_of_depth hy (hlevels.1 h)
  · rintro ⟨f, hf, -⟩
    refine hdeep.2 (Nat.not_lt.1 fun hd => ?_)
    obtain ⟨t, ht, -⟩ := hc.parseTokens_of_depth hy hd
    cases ht.symm.trans hf
  · exact fun h => hc.parseTokens_of_le_depth hy (hdeep.1 h)
  · intro h
    have := hc.depth_le_nesting
    have := Expr.forall_levels_le_iff.1 h
    exact hc.parseTokens_of_depth hy (show e.depth < 200 by omega)

/-- Operators of all strengths with 17 groups inside one another are read. -/
theorem parseTokens_nesting_ladders :
    ∃ t, parseTokens (Expr.ladders 17).tokens = .ok t ∧ t.bare = Expr.ladders 17 := by
  obtain ⟨e, hc, hy, -, -, -, hread⟩ := parseTokens_nesting (Expr.ladders 17).terminals_tokens
  cases hc.eq_of_yield_eq (Expr.canonical_ladders 17) (hy.trans (Expr.terminals_tokens _).symm)
  exact hread (Expr.forall_levels_le_iff.2 (Expr.nesting_ladders 17).le)

/-- 200 groups inside one another are not read, and with operators of all strengths between them not
even 18. -/
theorem parseTokens_refuses_levels :
    ((Expr.groups 200).Canonical ∧ (∀ n ∈ (Expr.groups 200).levels (·.isAssignment), n ≤ 200) ∧
      ∃ f, parseTokens (Expr.groups 200).tokens = .error f ∧ f.report.sort = .nesting) ∧
    (Expr.ladders 18).Canonical ∧ (∀ n ∈ (Expr.ladders 18).levels (·.isAssignment), n ≤ 18) ∧
      ∃ f, parseTokens (Expr.ladders 18).tokens = .error f ∧ f.report.sort = .nesting := by
  have hgroups := Expr.canonical_groups 200
  have hladders := Expr.canonical_ladders 18
  refine ⟨⟨hgroups, Expr.forall_levels_le_iff.2 (Expr.nesting_groups 200).le, ?_⟩,
    hladders, Expr.forall_levels_le_iff.2 (Expr.nesting_ladders 18).le, ?_⟩
  · refine hgroups.parseTokens_of_le_depth (Expr.terminals_tokens _) ?_
    rw [← Expr.nesting_true, Expr.nesting_groups]
    exact Nat.le_refl 200
  · refine hladders.parseTokens_of_le_depth (Expr.terminals_tokens _) ?_
    rw [Expr.depth_ladders]
    decide

end ScriptSyntax
