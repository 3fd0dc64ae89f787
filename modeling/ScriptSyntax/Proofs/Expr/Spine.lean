/-
Reading with another threshold. The left spine of a tree holds the tree, its left operand, the left
operand of that one, and so on (`Expr.leftSpine`). Where an expression can be read with a threshold, it
can be read with a higher one from the same place, and what is read then is cut off its left spine: the
largest tree there whose operator is not below the threshold (`Session.parseExpr_raised`).

Right operands do not hang on the threshold, so nothing has to be said of two runs of the parser: the
tree that is cut off is spelled by the first of the tokens, it is canonical and no deeper than the
whole, and the operator that stands behind it is the weak one that it was cut off at.
-/
import ScriptSyntax.Proofs.Expr.Source

namespace ScriptSyntax

namespace Expr

variable {α : Type}

/-- The tree and the left operands below it, the largest first. -/
def leftSpine : Expr α → List (Expr α)
  | e@(.binary _ _ l _) => e :: l.leftSpine
  | e => [e]

/-- Of the trees on the left spine that are no binary ones with an operator below a rank, `x` is the
largest. -/
structure CutLeft (least : Int) (e x : Expr α) : Prop where
  mem : x ∈ e.leftSpine
  atLeast : x.AtLeast least
  largest : ∀ y ∈ e.leftSpine, y.AtLeast least → y.size ≤ x.size

theorem mem_leftSpine_self (e : Expr α) : e ∈ e.leftSpine := by
  cases e <;> exact List.mem_cons_self ..

/-- A tree on the left spine is a node of the tree. -/
theorem mem_preorder_of_mem_leftSpine {e x : Expr α} (h : x ∈ e.leftSpine) : x ∈ e.preorder := by
  induction e with
  | binary _ op l r ihl _ =>
    rcases List.mem_cons.1 h with rfl | h
    · exact List.mem_cons_self ..
    · exact List.mem_cons_of_mem _ (List.mem_append_left _ (ihl h))
  | _ =>
    rw [List.mem_singleton.1 h]
    exact List.mem_cons_self ..

theorem size_le_of_mem_leftSpine {e x : Expr α} (h : x ∈ e.leftSpine) : x.size ≤ e.size := by
  induction e with
  | binary _ op l r ihl _ =>
    rcases List.mem_cons.1 h with rfl | h
    · exact Nat.le_refl _
    · have := ihl h
      simp only [size]
      omega
  | _ =>
    rw [List.mem_singleton.1 h]

/-- A tree that is strong enough itself is not cut. -/
theorem cutLeft_self {least : Int} {e : Expr α} (h : e.AtLeast least) : e.CutLeft least e :=
  ⟨e.mem_leftSpine_self, h, fun _ hy _ => size_le_of_mem_leftSpine hy⟩

/-- A tree whose operator is too weak is cut where its left operand is. -/
theorem CutLeft.binary {least : Int} {a : α} {op : BinaryOp} {l r x : Expr α}
    (h : l.CutLeft least x) (hop : (op.precedence.rank : Int) < least) :
    (Expr.binary a op l r).CutLeft least x := by
  refine ⟨List.mem_cons_of_mem _ h.mem, h.atLeast, fun y hy hl => ?_⟩
  rcases List.mem_cons.1 hy with rfl | hy
  · exact absurd (hl op rfl) (Int.not_le.2 hop)
  · exact h.largest y hy hl

/-- The tree that is cut off is spelled by the first of the tokens, and no operator that is strong
enough stands behind it. -/
theorem Spelled.exists_cutLeft {least : Int} {e : Expr Span} {us rest : List Token} (h : e.Spelled us)
    (hst : Stops least rest) : ∃ x vs ws, us = vs ++ ws ∧ x.Spelled vs ∧ e.CutLeft least x ∧
      Stops least (ws ++ rest) := by
  -- the whole tree, where nothing is too weak
  have whole : ∀ {e : Expr Span} {us rest : List Token}, e.Spelled us → e.AtLeast least →
      Stops least rest → ∃ x vs ws, us = vs ++ ws ∧ x.Spelled vs ∧ e.CutLeft least x ∧
        Stops least (ws ++ rest) :=
    fun {e us _} hs hl hst => ⟨e, us, [], (List.append_nil us).symm, hs, cutLeft_self hl, hst⟩
  induction h generalizing rest with
  | literal ht => exact whole (.literal ht) (atLeast_of_none rfl) hst
  | identifier ht => exact whole (.identifier ht) (atLeast_of_none rfl) hst
  | unary ht hx => exact whole (.unary ht hx) (atLeast_of_none rfl) hst
  | grouping ho hx hc => exact whole (.grouping ho hx hc) (atLeast_of_none rfl) hst
  | @binary t op l r us vs hl ht hr ihl _ =>
    by_cases hop : (op.precedence.rank : Int) < least
    · have hstop : Stops least (t :: vs ++ rest) := by
        intro t' op' ht' hop'
        cases ht'
        rw [Token.binaryOp?_eq_some.2 ht] at hop'
        cases hop'
        exact hop
      obtain ⟨x, xs, ws, rfl, hx, hcut, hstops⟩ := ihl hstop
      refine ⟨x, xs, ws ++ t :: vs, List.append_assoc .., hx, hcut.binary hop, ?_⟩
      rwa [List.append_assoc]
    · refine whole (.binary hl ht hr) ?_ hst
      rintro _ ⟨⟩
      exact Int.not_lt.1 hop

end Expr

/-- Reading with a higher threshold gives the tree cut off at the left spine, whatever the levels. -/
theorem Outcome.Gives.exists_cutLeft {last : Token} {room : Nat} {m n : Int} {ts rest : List Token}
    {e : Expr Span} (h : (parseExpr last room m ts).Gives e rest) (hmn : m ≤ n) :
    ∃ x ws, (parseExpr last room n ts).Gives x (ws ++ rest) ∧ e.CutLeft n x := by
  obtain ⟨us, rfl, hs, hc, -, hst, hd⟩ := parseExpr_gives_iff.1 h
  obtain ⟨x, vs, ws, rfl, hx, hcut, hstops⟩ := hs.exists_cutLeft (hst.mono hmn)
  have hnode := Expr.mem_preorder_of_mem_leftSpine hcut.mem
  exact ⟨x, ws, parseExpr_gives_iff.2 ⟨vs, List.append_assoc .., hx, hc.of_mem_preorder hnode,
    hcut.atLeast, hstops, Nat.lt_of_le_of_lt (Expr.depth_le_of_mem_preorder hnode) hd⟩, hcut⟩

namespace Session

/-- With a higher threshold a session reads from the same index the largest tree on the left spine
whose operator is not below the threshold, and stops no later. -/
theorem parseExpr_raised {s : Session} {m n : Int} (hmn : m ≤ n) {e : Expr Span} {j : Nat}
    (h : (s.parseExpr m).1 = .ok e ∧ (s.parseExpr m).2.index = j) :
    ∃ x i, (s.parseExpr n).1 = .ok x ∧ (s.parseExpr n).2.index = i ∧ i ≤ j ∧ e.CutLeft n x := by
  obtain ⟨htree, rfl⟩ := h
  obtain ⟨x, ws, ⟨hx, hrest⟩, hcut⟩ :=
    Outcome.Gives.exists_cutLeft (⟨htree, rfl⟩ : (ScriptSyntax.parseExpr s.tokens.last maxNesting m
      s.rest).Gives e _) hmn
  refine ⟨x, _, hx, rfl, ?_, hcut⟩
  -- the fewer tokens are left, the further the index
  simp only [parseExpr, leaving, hrest, List.length_append]
  omega

/-- From `a * b - c` only the product is read where no difference may be. -/
theorem parseExpr_raised_product :
    let p (k : Nat) : Span := .point ⟨1, k + 1, k, ⟨0⟩⟩
    let s : Session := .ofTokens ⟨[⟨.name, "a", p 0⟩, ⟨.mark .star, "*", p 1⟩, ⟨.name, "b", p 2⟩,
      ⟨.mark .minus, "-", p 3⟩, ⟨.name, "c", p 4⟩], .eof ⟨1, 6, 5, ⟨0⟩⟩, rfl⟩
    let product : Expr Span := .binary (.cover (p 0) (p 2)) .mul
      (.identifier (p 0) "a") (.identifier (p 2) "b")
    let e : Expr Span := .binary (.cover (p 0) (p 4)) .sub product (.identifier (p 4) "c")
    (1 : Int) ≤ 11 ∧ (s.parseExpr 1).1 = .ok e ∧ (s.parseExpr 1).2.index = 5 ∧
      ∃ i ≤ 5, (s.parseExpr 11).1 = .ok product ∧ (s.parseExpr 11).2.index = i := by
  intro p s product e
  have hname (k : Nat) (n : String) : Expr.Spelled (.identifier (p k) n) [⟨.name, n, p k⟩] :=
    @Expr.Spelled.identifier ⟨.name, n, p k⟩ n rfl
  have hproduct := @Expr.Spelled.binary ⟨.mark .star, "*", p 1⟩ .mul _ _ _ _ (hname 0 "a") rfl (hname 2 "b")
  have hs := @Expr.Spelled.binary ⟨.mark .minus, "-", p 3⟩ .sub _ _ _ _ hproduct rfl (hname 4 "c")
  have he : (s.parseExpr 1).1 = .ok e ∧ (s.parseExpr 1).2.index = 5 :=
    parseExpr_eq_ok_iff.2 ⟨_, [], rfl, rfl, hs, by decide, e.atLeast_one, stops_nil _, by decide⟩
  obtain ⟨x, i, hx, hi, hle, hcut⟩ := parseExpr_raised (show (1 : Int) ≤ 11 by decide) he
  -- the whole is a difference, and the name is smaller than the product
  have hmem : x ∈ [e, product, .identifier (p 0) "a"] := hcut.mem
  obtain rfl : x = product := by
    simp only [List.mem_cons, List.not_mem_nil, or_false] at hmem
    rcases hmem with rfl | rfl | rfl
    · exact absurd (hcut.atLeast .sub rfl) (by decide)
    · rfl
    · have hproduct : product.AtLeast 11 := by
        rintro _ ⟨⟩
        decide
      exact absurd (hcut.largest product (by simp [Expr.leftSpine, e, product]) hproduct) (by decide)
  exact ⟨by decide, he.1, he.2, i, hle, hx, hi⟩

end Session

end ScriptSyntax
