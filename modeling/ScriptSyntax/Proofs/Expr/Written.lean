/-
Expressions written freely: with any blanks between operators and operands, as long as each binary
operator has some on both sides, and with no other parentheses than those of the groups of the tree
(`Written`). Such a text is read as the canonical tree with the same terminals, also between comments,
if the terminals are fewer than the levels that may be open (`Written.parseExpression`). A prefix
operator may stand right before its operand, since no operand begins with a character that makes a
longer mark or a comment of it.
-/
import ScriptSyntax.Proofs.Expr.Regrouped
import ScriptSyntax.Proofs.Expr.RoundTrip

namespace ScriptSyntax

open Text

/-- The text writes the tree, and its leaves have no space in them. -/
inductive Written : List Char → Expr Unit → Prop
  | literal {cs : List Char} {v : Literal} : Spelling cs (some (.literal v)) → ' ' ∉ cs →
      Written cs (.literal () v)
  | identifier {cs : List Char} : Spelling cs (some .name) →
      Written cs (.identifier () (String.ofList cs))
  | unary {gap cs : List Char} {op : UnaryOp} {e : Expr Unit} : (∀ c ∈ gap, isBlank c = true) →
      Written cs e → Written (op.mark.chars ++ (gap ++ cs)) (.unary () op e)
  | binary {gap gap' cs ds : List Char} {op : BinaryOp} {l r : Expr Unit} : gap ≠ [] → gap' ≠ [] →
      (∀ c ∈ gap, isBlank c = true) → (∀ c ∈ gap', isBlank c = true) → Written cs l → Written ds r →
      Written (cs ++ (gap ++ (op.mark.chars ++ (gap' ++ ds)))) (.binary () op l r)
  | grouping {cs : List Char} {e : Expr Unit} : Written cs e →
      Written ('(' :: (cs ++ [')'])) (.grouping () e)

theorem isGap_of_blanks {gap : List Char} (h : ∀ c ∈ gap, isBlank c = true) (rest : List Char) :
    IsGap gap rest := by
  induction gap with
  | nil => exact .nil
  | cons c gap ih =>
    obtain ⟨hc, hgap⟩ := List.forall_mem_cons.1 h
    exact .cons (.blank hc) (ih hgap)

namespace Written

variable {cs : List Char} {e : Expr Unit}

theorem head?_ne (h : Written cs e) (rest : List Char) : (cs ++ rest).head? ≠ some '=' := by
  induction h generalizing rest with
  | literal hs => exact Expr.head?_leaf_ne hs nofun rest
  | identifier hs => exact Expr.head?_leaf_ne hs nofun rest
  | @unary _ _ op => cases op <;> simp [UnaryOp.mark, Mark.chars]
  | binary _ _ _ _ _ _ ih =>
    rw [List.append_assoc]
    exact ih _
  | grouping => simp

/-- A written tree reads as its yield, in front of what may stand behind it. -/
theorem reads (h : Written cs e) {rest : List Char} {xs : List Terminal} (hrest : Closes rest)
    (hx : Reads rest xs) : Reads (cs ++ rest) (e.yield ++ xs) := by
  induction h generalizing rest xs with
  | literal hs => exact hx.leaf hrest hs nofun fun _ => rfl
  | identifier hs => exact hx.leaf hrest hs nofun fun _ => rfl
  | @unary gap cs op e hgap hcs ih =>
    have hoperand := (ih hrest hx).gap (isGap_of_blanks hgap _)
    rw [List.append_assoc, List.append_assoc, Expr.yield]
    cases gap with
    | nil => exact hoperand.unaryOp op (hcs.head?_ne rest)
    | cons c gap => exact hoperand.mark_blank op.mark (hgap c (List.mem_cons_self ..))
  | @binary gap gap' cs ds op l r hne hne' hgap hgap' _ _ ihl ihr =>
    obtain ⟨c, gap, rfl⟩ := List.exists_cons_of_ne_nil hne
    obtain ⟨c', gap', rfl⟩ := List.exists_cons_of_ne_nil hne'
    have hright := (ihr hrest hx).gap (isGap_of_blanks hgap' _)
    have hop := (hright.mark_blank op.mark (hgap' c' (List.mem_cons_self ..))).gap
      (isGap_of_blanks hgap _)
    have hleft := ihl (closes_blank (hgap c (List.mem_cons_self ..)) _) hop
    simpa [Expr.yield] using hleft
  | grouping _ ih =>
    have hinner := ih (closes_close _) hx.closeParen
    simpa [Expr.yield] using hinner.openParen

/-- A written tree with fewer terminals than levels is accepted, also behind a gap and before one
that begins with a blank. -/
theorem parseExpression (h : Written cs e) (hlen : e.yield.length ≤ maxNesting)
    {front back : List Char} (hfront : IsGap front (cs ++ back)) (hback : IsGap back [])
    (hcloses : Closes back) (file : Symbol) :
    ∃ e', ScriptSyntax.parseExpression file (String.ofList (front ++ (cs ++ back))) = .ok e' ∧
      e'.yield = e.yield := by
  have hend := Reads.nil.gap hback
  rw [List.append_nil] at hend
  obtain ⟨ps, last, hcut, hterminals⟩ := (h.reads hcloses hend).gap hfront
  obtain ⟨x, hc, hyield⟩ := e.exists_canonical_yield_eq
  have hterminals := hterminals (.startOf file)
  rw [List.append_nil, ← hyield] at hterminals
  obtain ⟨e', hbare, hs⟩ := Expr.exists_spelled x _ hterminals
  have hyield' : e'.yield = e.yield := by rw [← Expr.yield_bare, hbare, hyield]
  have hdepth := e'.depth_lt_length_yield
  refine ⟨e', parseExpression_eq_ok_iff.2 ⟨ps, last, ?_, hs, ?_, ?_⟩, hyield'⟩
  · rwa [String.toList_ofList]
  · rwa [← Expr.canonical_bare, hbare]
  · rw [hyield'] at hdepth
    omega

end Written

end ScriptSyntax
