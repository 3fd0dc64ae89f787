/-
Trees that no source was read for. The text of such a tree has parentheses of the printer's own, so
what is read from it is the tree with a group in place of each of them (`Expr.grouped`). That tree
is canonical and has the same text, and the groups are all that it has more (`ungrouped_grouped`):
no text that is printed stands for a tree with other operands. If the groups open more levels than
may be open, it is the nesting that is blamed. How deep a tree may be for its text to be printed is a
matter of the stack (`Expr.callDepth`), not of the levels that its text opens.
-/
import ScriptSyntax.Proofs.Expr.Earliest
import ScriptSyntax.Proofs.Expr.RoundTrip

namespace ScriptSyntax

namespace Expr

variable {α : Type}

/-- A group around an operand that needs parentheses. -/
def group (needed : Bool) (e : Expr α) : Expr α := if needed then .grouping e.note e else e

/-- The tree with a group around each operand that the printer puts in parentheses. -/
def grouped : Expr α → Expr α
  | .literal a v => .literal a v
  | .identifier a n => .identifier a n
  | .unary a op e => .unary a op (group (wrapsOperand e) e.grouped)
  | .binary a op l r =>
    .binary a op (group (wrapsLeft op l) l.grouped) (group (wrapsRight op r) r.grouped)
  | .grouping a e => .grouping a e.grouped

/-- The tree without its groups: the operators and what they are applied to. -/
def ungrouped : Expr α → Expr α
  | .literal a v => .literal a v
  | .identifier a n => .identifier a n
  | .unary a op e => .unary a op e.ungrouped
  | .binary a op l r => .binary a op l.ungrouped r.ungrouped
  | .grouping _ e => e.ungrouped

/-! ## What groups leave as it was -/

section Group

variable {needed : Bool} {e : Expr α}

@[simp] theorem canonical_group : (group needed e).Canonical ↔ e.Canonical := by
  cases needed <;> rfl

@[simp] theorem readable_group : (group needed e).Readable ↔ e.Readable := by
  cases needed <;> rfl

@[simp] theorem ungrouped_group : (group needed e).ungrouped = e.ungrouped := by
  cases needed <;> rfl

@[simp] theorem plainChars_group : (group needed e).plainChars = wrap needed e.plainChars := by
  cases needed <;> rfl

@[simp] theorem operator?_grouped : e.grouped.operator? = e.operator? := by
  cases e <;> rfl

end Group

/-! ## Operands of a grouped tree -/

section Operands

variable {op : BinaryOp} {e : Expr α}

theorem operator?_group_wrapsOperand : (group (wrapsOperand e) e.grouped).operator? = none := by
  cases h : wrapsOperand e with
  | true => rfl
  | false => exact operator?_grouped.trans (wrapsOperand_eq_false_iff.1 h)

/-- A binary operator at the root of an operand is not in parentheses. -/
theorem operator?_group_eq_some {needed : Bool} {o : BinaryOp}
    (h : (group needed e.grouped).operator? = some o) : needed = false ∧ e.operator? = some o := by
  cases needed with
  | true => cases h
  | false => exact ⟨rfl, operator?_grouped.symm.trans h⟩

theorem fitsLeft_group : FitsLeft op (group (wrapsLeft op e) e.grouped) := by
  intro o ho
  obtain ⟨hw, ho⟩ := operator?_group_eq_some ho
  exact wrapsLeft_eq_false_iff.1 hw o ho

theorem fitsRight_group : FitsRight op (group (wrapsRight op e) e.grouped) := by
  intro o ho
  obtain ⟨hw, ho⟩ := operator?_group_eq_some ho
  exact wrapsRight_eq_false_iff.1 hw o ho

/-- No operand that needs parentheses has a prefix operator at its root. -/
theorem isUnary_group_wrapsOperand :
    (group (wrapsOperand e) e.grouped).isUnary = e.isUnary := by
  cases e with
  | binary _ o l r =>
    cases wrapsOperand (.binary _ o l r) <;> rfl
  | _ => rfl

end Operands

/-! ## The grouped tree -/

variable {e : Expr α}

theorem canonical_grouped (e : Expr α) : e.grouped.Canonical := by
  induction e with
  | literal | identifier => trivial
  | unary _ op e ih => exact ⟨operator?_group_wrapsOperand, canonical_group.2 ih⟩
  | binary _ op l r ihl ihr =>
    exact ⟨fitsLeft_group, fitsRight_group, canonical_group.2 ihl, canonical_group.2 ihr⟩
  | grouping _ e ih => exact ih

/-- The groups are written as the parentheses that they stand for. -/
theorem plainChars_grouped (e : Expr α) : e.grouped.plainChars = e.sourceChars := by
  induction e with
  | literal | identifier => rfl
  | unary _ op e ih =>
    rw [grouped, plainChars, isUnary_group_wrapsOperand, plainChars_group, ih]
    rfl
  | binary _ op l r ihl ihr =>
    rw [grouped, plainChars, plainChars_group, plainChars_group, ihl, ihr]
    rfl
  | grouping _ e ih => rw [grouped, plainChars, sourceChars, ih]

theorem sourceChars_grouped (e : Expr α) : e.grouped.sourceChars = e.sourceChars :=
  (canonical_grouped e).sourceChars_eq.trans (plainChars_grouped e)

theorem Readable.grouped (h : e.Readable) : e.grouped.Readable := by
  induction e with
  | literal | identifier => exact h
  | unary _ _ _ ih => exact readable_group.2 (ih h)
  | binary _ _ l r ihl ihr => exact ⟨readable_group.2 (ihl h.1), readable_group.2 (ihr h.2)⟩
  | grouping _ _ ih => exact ih h

/-- Grouping changes neither the operators nor what they are applied to. -/
theorem ungrouped_grouped (e : Expr α) : e.grouped.ungrouped = e.ungrouped := by
  induction e <;> simp_all [grouped, ungrouped]

/-- The text of a canonical tree that is too deep is cut into tokens, which are not read. -/
theorem Canonical.parseExpression_tooDeep (hc : e.Canonical) (hr : e.Readable)
    (hd : maxNesting ≤ e.depth) (file : Symbol) :
    ∃ f : SyntaxError, parseExpression file (String.ofList e.sourceChars) = .error (.syntactic f) ∧
      f.cause = .tooDeep := by
  obtain ⟨ps, last, e', hcut, hs, -, hc', hdepth⟩ :=
    hc.exists_spelled_sourceChars hr (.startOf file)
  obtain ⟨ts, hts, hfront⟩ : ∃ ts, tokenize file (String.ofList e.sourceChars) = .ok ts ∧
      ts.front = placed (.startOf file) ps := by
    rw [← String.toList_ofList (l := e.sourceChars)] at hcut
    exact ⟨_, hcut.tokenize_eq file, rfl⟩
  obtain ⟨f, hf, hcause⟩ := parseTokens_tooDeep (hfront ▸ hs) hc' (hdepth ▸ hd)
  refine ⟨f, ?_, hcause⟩
  rw [parseExpression_eq_mapError hts, hf]
  rfl

/-- The text of any tree whose leaves can be written is that of the tree with a group for each
operand in parentheses, and reads as that tree: it has the operators and operands of the tree
printed. It is not read only if it has more levels than may be open. Either tree is printed if the stack
has room for the calls of the printer, and else it is not. -/
theorem parseExpression_format_grouped (h : e.Readable) :
    ∃ text,
      (∀ frames, e.formatWithin frames =
        if e.callDepth .source ≤ frames then .ok text else .error .tooDeep) ∧
      (∀ frames, e.grouped.formatWithin frames =
        if e.grouped.callDepth .source ≤ frames then .ok text else .error .tooDeep) ∧
      e.grouped.ungrouped = e.ungrouped ∧
      ∀ file, (1 + e.grouped.depth ≤ maxNesting →
          ∃ e', parseExpression file text = .ok e' ∧ e'.bare = e.grouped.bare) ∧
        (maxNesting < 1 + e.grouped.depth →
          ∃ f, parseExpression file text = .error f ∧ f.report.sort = .nesting) := by
  refine ⟨_, h.formatWithin, ?_, ungrouped_grouped e, fun file => ⟨fun hd => ?_, fun hd => ?_⟩⟩
  · rw [← sourceChars_grouped]
    exact h.grouped.formatWithin
  · obtain ⟨e', he', hbare⟩ :=
      (canonical_grouped e).parseExpression_sourceChars h.grouped (by omega) file
    exact ⟨e', by rwa [← sourceChars_grouped], hbare⟩
  · obtain ⟨f, hf, hcause⟩ :=
      (canonical_grouped e).parseExpression_tooDeep h.grouped (by omega) file
    exact ⟨.syntactic f, by rwa [← sourceChars_grouped], SyntaxError.sort_eq_nesting_iff.2 hcause⟩

/-- Each operand of this difference is printed in parentheses, and so is the one that is negated. -/
theorem parseExpression_format_grouped_difference :
    let name (n : String) : Expr Unit := .identifier () n
    let assigned : Expr Unit := .binary () .assign (name "a") (name "b")
    let sum : Expr Unit := .binary () .add (name "c") (name "d")
    let e : Expr Unit := .binary () .sub assigned (.binary () .sub (.unary () .neg sum) (name "x"))
    e.Readable ∧ e.formatWithin 9 = .ok "(a = b) - (-(c + d) - x)" ∧
      ∃ e', parseExpression ⟨0⟩ "(a = b) - (-(c + d) - x)" = .ok e' ∧ e'.bare =
        .binary () .sub (.grouping () assigned)
          (.grouping () (.binary () .sub (.unary () .neg (.grouping () sum)) (name "x"))) := by
  intro name assigned sum e
  have hname (c : Char) (hc : isNameStart c = true) : (name (String.ofList [c])).Readable := by
    have hs := Spelling.word hc (List.forall_mem_nil _)
    rw [if_neg (by simp), if_neg (by simp)] at hs
    show Spelling (String.ofList [c]).toList (some .name)
    rwa [String.toList_ofList]
  have h : e.Readable := ⟨⟨hname 'a' (by decide), hname 'b' (by decide)⟩,
    ⟨hname 'c' (by decide), hname 'd' (by decide)⟩, hname 'x' (by decide)⟩
  have hprinted : e.formatWithin 9 = .ok "(a = b) - (-(c + d) - x)" := by decide
  obtain ⟨text, htext, -, -, hread⟩ := parseExpression_format_grouped h
  rw [htext] at hprinted
  cases Except.ok.inj hprinted
  exact ⟨h, htext 9, (hread ⟨0⟩).1 (by decide)⟩

theorem grouped_sum (n : Nat) : (sum n).grouped = sum n := by
  induction n with
  | zero => rfl
  | succ n ih =>
    rw [sum, grouped, wrapsLeft_sum, ih]
    rfl

/-- A sum with 500 operators needs no parentheses and nests nothing, but on a stack of the usual size it
is not printed. -/
theorem parseExpression_format_grouped_sum :
    (sum 500).Readable ∧ 1 + (sum 500).grouped.depth ≤ maxNesting ∧
      (sum 500).formatWithin stackFrames = .error .tooDeep := by
  refine ⟨readable_sum 500, ?_, ?_⟩
  · rw [grouped_sum]
    exact Nat.le_trans (Nat.add_le_add_left (depth_sum_le 500) 1) (by decide)
  · rw [formatWithin_eq (readable_sum 500).check, callDepth_sum]
    exact if_neg (by decide)

end Expr

end ScriptSyntax
