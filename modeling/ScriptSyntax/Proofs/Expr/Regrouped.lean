/-
What an expression without the needed parentheses is read as. The terminals of any tree, canonical or
not, are those of a canonical tree, which is the one they are read as
(`Expr.exists_canonical_yield_eq`): the operators find other operands and the same leaves, marks and
groups stand in the same order. That tree is less deep than it has terminals
(`Expr.depth_lt_length_yield`), so terminals fewer than the levels are read whatever they are nested
like.
-/
import ScriptSyntax.Proofs.Expr.Canonical

namespace ScriptSyntax.Expr

theorem depth_lt_length_yield {α : Type} (e : Expr α) : e.depth < e.yield.length := by
  induction e with
  | literal | identifier => exact Nat.one_pos
  | unary _ _ e ih =>
    simp only [depth, yield, List.length_cons]
    omega
  | binary _ _ l r ihl ihr =>
    simp only [depth, yield, List.length_append, List.length_cons]
    omega
  | grouping _ e ih =>
    simp only [depth, yield, List.length_append, List.length_cons]
    omega

/-- An operator and a right operand that no operator splits, behind a canonical tree: they go to the
last of its operands that the operator may not leave to what stands before it. -/
theorem Canonical.exists_attach {t x : Expr Unit} (ht : t.Canonical) (hx : x.Canonical)
    (hop : x.operator? = none) (op : BinaryOp) :
    ∃ e : Expr Unit, e.Canonical ∧ e.yield = t.yield ++ .mark op.mark :: x.yield ∧
      (e.operator? = some op ∨ e.operator? = t.operator?) := by
  induction t with
  | binary a o l r _ ihr =>
    by_cases hfit : FitsLeft op (.binary a o l r)
    · refine ⟨.binary () op (.binary a o l r) x, ⟨hfit, ?_, ht, hx⟩, rfl, .inl rfl⟩
      exact fitsRight_iff.2 (atLeast_of_none hop)
    obtain ⟨hl, hr, hcl, hcr⟩ := ht
    obtain ⟨e, he, hyield, hroot⟩ := ihr hcr
    refine ⟨.binary () o l e, ⟨hl, ?_, hcl, he⟩, by simp [yield, hyield], .inr rfl⟩
    -- what took in the operator still binds stronger than the one before it
    rw [fitsLeft_iff] at hfit
    have hle : o.rightRank ≤ op.precedence.rank := by
      refine Int.not_lt.1 fun hlt => hfit fun o' ho' => ?_
      cases ho'
      exact hlt
    rw [fitsRight_iff] at hr ⊢
    intro o' ho'
    rcases hroot with hroot | hroot
    · rw [hroot] at ho'
      cases ho'
      exact hle
    · exact hr o' (hroot ▸ ho')
  | _ =>
    refine ⟨.binary () op _ x, ⟨?_, fitsRight_iff.2 (atLeast_of_none hop), ht, hx⟩, rfl, .inl rfl⟩
    exact fun o ho => by cases ho

/-- Two canonical trees with an operator between them. -/
theorem Canonical.exists_join {l r : Expr Unit} (hl : l.Canonical) (hr : r.Canonical)
    (op : BinaryOp) :
    ∃ e : Expr Unit, e.Canonical ∧ e.yield = l.yield ++ .mark op.mark :: r.yield := by
  -- the operators of the right one are joined one after the other
  induction r generalizing l op with
  | binary _ o r₁ r₂ ih₁ ih₂ =>
    obtain ⟨-, -, h₁, h₂⟩ := hr
    obtain ⟨m, hm, hyield⟩ := ih₁ hl h₁ op
    obtain ⟨e, he, hyield'⟩ := ih₂ hm h₂ o
    exact ⟨e, he, by simp [hyield', hyield, yield]⟩
  | _ =>
    obtain ⟨e, he, hyield, -⟩ := hl.exists_attach hr rfl op
    exact ⟨e, he, hyield⟩

/-- A prefix operator before a canonical tree: it takes the first of its operands. -/
theorem Canonical.exists_prefixed {t : Expr Unit} (ht : t.Canonical) (op : UnaryOp) :
    ∃ e : Expr Unit, e.Canonical ∧ e.yield = .mark op.mark :: t.yield := by
  induction t with
  | binary _ o l r ihl _ =>
    obtain ⟨-, -, hl, hr⟩ := ht
    obtain ⟨x, hx, hyield⟩ := ihl hl
    obtain ⟨e, he, hyield'⟩ := hx.exists_join hr o
    exact ⟨e, he, by simp [hyield', hyield, yield]⟩
  | _ => exact ⟨.unary () op _, ⟨rfl, ht⟩, rfl⟩

/-- The terminals of any tree are those of a canonical one. -/
theorem exists_canonical_yield_eq {α : Type} (e : Expr α) :
    ∃ e' : Expr Unit, e'.Canonical ∧ e'.yield = e.yield := by
  induction e with
  | literal _ v => exact ⟨.literal () v, trivial, rfl⟩
  | identifier _ n => exact ⟨.identifier () n, trivial, rfl⟩
  | unary _ op _ ih =>
    obtain ⟨x, hx, hyield⟩ := ih
    obtain ⟨e, he, hyield'⟩ := hx.exists_prefixed op
    exact ⟨e, he, by rw [hyield', hyield, yield]⟩
  | binary _ op _ _ ihl ihr =>
    obtain ⟨l, hl, hyl⟩ := ihl
    obtain ⟨r, hr, hyr⟩ := ihr
    obtain ⟨e, he, hyield⟩ := hl.exists_join hr op
    exact ⟨e, he, by rw [hyield, hyl, hyr, yield]⟩
  | grouping _ _ ih =>
    obtain ⟨x, hx, hyield⟩ := ih
    exact ⟨.grouping () x, hx, by rw [yield, hyield, yield]⟩

end ScriptSyntax.Expr
