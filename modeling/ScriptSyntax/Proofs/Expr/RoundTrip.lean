/-
Reading, printing and reading again. Every tree that is read from a source has a canonical text,
which reads as the same tree but for its spans, and so prints the same again
(`parseExpression_format`). The tree is canonical and its leaves were lexemes, so its text reads as
its yield; a canonical tree is the only one with its yield, and no deeper than it was.

The text is there on a stack that has room for the calls of the printer. Reading leaves trees that are
too deep for any given stack: a sum is read one operator after the other and nests none, but its tree
hangs down to the left (`parseExpression_sum`).
-/
import ScriptSyntax.Proofs.Expr.Printed
import ScriptSyntax.Proofs.Expr.Source
import ScriptSyntax.Proofs.Expr.Stack

namespace ScriptSyntax

/-! ## Spans are not printed -/

namespace Expr

variable {α β : Type} (f : α → β) (e : Expr α)

@[simp] theorem rank_map : (e.map f).rank = e.rank := by
  cases e <;> rfl

@[simp] theorem isUnary_map : (e.map f).isUnary = e.isUnary := by
  cases e <;> rfl

@[simp] theorem check_map : (e.map f).check = e.check := by
  induction e <;> simp_all [map, check]

@[simp] theorem sourceChars_map : (e.map f).sourceChars = e.sourceChars := by
  induction e <;> simp_all [map, sourceChars, wrapsLeft, wrapsRight, wrapsOperand]

@[simp] theorem dumpChars_map : (e.map f).dumpChars = e.dumpChars := by
  induction e <;> simp_all [map, dumpChars]

theorem format_bare : e.bare.format = e.format := by
  simp [bare, format, sourceText_eq]

theorem dump_bare : e.bare.dump = e.dump := by
  simp [bare, dump, dumpText_eq]

theorem formatWithin_bare (frames : Nat) : e.bare.formatWithin frames = e.formatWithin frames := by
  simp [bare, formatWithin, sourceText_eq]

theorem dumpWithin_bare (frames : Nat) : e.bare.dumpWithin frames = e.dumpWithin frames := by
  simp [bare, dumpWithin, dumpText_eq]

end Expr

/-! ## Trees that are read -/

/-- The leaves of a tree that lexemes spell can be written. -/
theorem Expr.Spelled.readable {e : Expr Span} {us : List Token} (h : e.Spelled us)
    (hus : ∀ t ∈ us, Spelling t.lexeme.toList (some t.meaning)) : e.Readable := by
  induction h with
  | @literal t v ht =>
    have hs := hus t (List.mem_singleton_self t)
    rw [Token.terminal_eq_literal.1 ht] at hs
    exact Literal.readable_of_spelling hs
  | @identifier t n ht =>
    obtain ⟨hm, rfl⟩ := Token.terminal_eq_name.1 ht
    have hs := hus t (List.mem_singleton_self t)
    rwa [hm] at hs
  | unary _ _ ih => exact ih fun t ht => hus t (List.mem_cons_of_mem _ ht)
  | binary _ _ _ ihl ihr =>
    exact ⟨ihl fun t ht => hus t (List.mem_append_left _ ht),
      ihr fun t ht => hus t (List.mem_append_right _ (List.mem_cons_of_mem _ ht))⟩
  | grouping _ _ _ ih =>
    exact ih fun t ht => hus t (List.mem_append_left _ (List.mem_cons_of_mem _ ht))

/-! ## Printing -/

theorem Literal.Readable.check {v : Literal} (h : v.Readable) : v.check = .ok () := by
  cases v with
  | int n =>
    obtain ⟨-, hn⟩ : 0 ≤ n ∧ n.natAbs < 10 ^ maxIntDigits := h
    rw [Literal.check, Nat.pow_eq, if_pos hn]
  | float x =>
    obtain ⟨hx, -⟩ : x.isFinite = true ∧ x.negative = false := h
    rw [Literal.check, if_pos hx]
  | _ => rfl

namespace Expr

variable {α : Type} {e : Expr α}

theorem Readable.check (h : e.Readable) : e.check = .ok () := by
  induction e with
  | literal _ v => exact Literal.Readable.check h
  | identifier => rfl
  | unary _ _ _ ih | grouping _ _ ih => exact ih h
  | binary _ _ l r ihl ihr =>
    rw [Expr.check, ihl h.1, ihr h.2]
    rfl

theorem Readable.format (h : e.Readable) : e.format = .ok (String.ofList e.sourceChars) := by
  rw [Expr.format, h.check, ← sourceText_eq]
  rfl

theorem Readable.dump (h : e.Readable) : e.dump = .ok e.dumpText := by
  rw [Expr.dump, h.check]
  rfl

theorem Readable.formatWithin (h : e.Readable) (frames : Nat) : e.formatWithin frames =
    if e.callDepth .source ≤ frames then .ok (String.ofList e.sourceChars) else .error .tooDeep := by
  rw [formatWithin_eq h.check, sourceText_eq]

/-- The text of a canonical tree is cut into tokens that spell the tree. -/
theorem Canonical.exists_spelled_sourceChars (hc : e.Canonical) (hr : e.Readable) (p : Position) :
    ∃ ps last, ∃ e' : Expr Span, Cuts e.sourceChars ps last ∧ e'.Spelled (placed p ps) ∧
      e'.bare = e.bare ∧ e'.Canonical ∧ e'.depth = e.depth := by
  obtain ⟨ps, last, hcut, hterminals⟩ := reads_sourceChars hc hr closes_nil Reads.nil
  rw [List.append_nil] at hcut hterminals
  obtain ⟨e', hbare, hs⟩ := exists_spelled e.bare (placed p ps)
    ((hterminals _).trans (yield_bare e).symm)
  refine ⟨ps, last, e', hcut, hs, hbare, ?_, ?_⟩
  · rwa [← canonical_bare, hbare, canonical_bare]
  · rw [← depth_bare, hbare, depth_bare]

/-- The text of a canonical tree within the nesting limit reads as that tree. -/
theorem Canonical.parseExpression_sourceChars (hc : e.Canonical) (hr : e.Readable)
    (hd : e.depth < maxNesting) (file : Symbol) :
    ∃ e', parseExpression file (String.ofList e.sourceChars) = .ok e' ∧ e'.bare = e.bare := by
  obtain ⟨ps, last, e', hcut, hs, hbare, hc', hdepth⟩ :=
    hc.exists_spelled_sourceChars hr (.startOf file)
  refine ⟨e', parseExpression_eq_ok_iff.2 ⟨ps, last, ?_, hs, hc', hdepth ▸ hd⟩, hbare⟩
  rwa [String.toList_ofList]

end Expr

/-! ## The round trip -/

/-- Every tree that is read from a source has a canonical text and a dump. Each of them is printed if
the stack has room for the calls of its printer, and else none is. The text reads as the same tree but
for the spans, of which the same is printed again. -/
theorem parseExpression_format {file : Symbol} {src : String} {e : Expr Span}
    (h : parseExpression file src = .ok e) :
    ∃ text dump,
      (∀ frames, e.formatWithin frames =
        if e.callDepth .source ≤ frames then .ok text else .error .tooDeep) ∧
      (∀ frames, e.dumpWithin frames =
        if e.callDepth .dump ≤ frames then .ok dump else .error .tooDeep) ∧
      ∀ file', ∃ e', parseExpression file' text = .ok e' ∧ e'.bare = e.bare ∧
        ∀ frames, e'.formatWithin frames = e.formatWithin frames ∧
          e'.dumpWithin frames = e.dumpWithin frames := by
  obtain ⟨ps, last, hcut, hs, hc, hd⟩ := parseExpression_eq_ok_iff.1 h
  have hr : e.Readable := hs.readable (hcut.spelling_placed _)
  refine ⟨_, _, hr.formatWithin, Expr.dumpWithin_eq hr.check, fun file' => ?_⟩
  obtain ⟨e', he', hbare⟩ := hc.parseExpression_sourceChars hr hd file'
  refine ⟨e', he', hbare, fun frames => ⟨?_, ?_⟩⟩
  · rw [← Expr.formatWithin_bare, hbare, Expr.formatWithin_bare]
  · rw [← Expr.dumpWithin_bare, hbare, Expr.dumpWithin_bare]

/-- Of the blanks of a source the one between two prefix operators stays. -/
theorem parseExpression_format_prefixes :
    let p (k : Nat) : Position := ⟨1, k + 1, k, ⟨0⟩⟩
    let e : Expr Span := .unary ⟨p 0, p 3⟩ .neg (.unary ⟨p 2, p 3⟩ .neg (.identifier (.point (p 3)) "a"))
    parseExpression ⟨0⟩ "-\t-a" = .ok e ∧ e.formatWithin 5 = .ok "- -a" ∧
      e.formatWithin 4 = .error .tooDeep ∧
      ∃ e', parseExpression ⟨0⟩ "- -a" = .ok e' ∧ e'.bare = e.bare := by
  intro p e
  have ha : Lexeme.ofText 'a' [] = .token .name ['a'] [] := by decide
  have h₁ : Lexeme.ofText '-' ['\t', '-', 'a'] = .token (.mark .minus) ['-'] ['\t', '-', 'a'] := by
    decide
  have h₂ : Lexeme.ofText '-' ['a'] = .token (.mark .minus) ['-'] ['a'] := by decide
  have hcut : Cuts "-\t-a".toList [⟨[], .mark .minus, ['-']⟩, ⟨['\t'], .mark .minus, ['-']⟩,
      ⟨[], .name, ['a']⟩] [] :=
    .piece .nil (.of_ofText h₁ (by decide))
      (.piece (.cons (.blank (by decide)) .nil) (.of_ofText h₂ (by decide))
        (.piece .nil (.of_ofText ha (by decide)) (.last .nil)))
  let token (k : Nat) (m : Meaning) (s : String) : Token := ⟨m, s, .point (p k)⟩
  have hname := @Expr.Spelled.identifier (token 3 .name "a") "a" rfl
  have hinner := @Expr.Spelled.unary (token 2 (.mark .minus) "-") .neg _ _ rfl hname
  have hspelled := @Expr.Spelled.unary (token 0 (.mark .minus) "-") .neg _ _ rfl hinner
  have he : parseExpression ⟨0⟩ "-\t-a" = .ok e :=
    parseExpression_eq_ok_iff.2 ⟨_, [], hcut, hspelled, by decide, by decide⟩
  have hprinted : e.formatWithin 5 = .ok "- -a" := by decide
  obtain ⟨text, dump, htext, -, hread⟩ := parseExpression_format he
  have hdeep : e.formatWithin 4 = .error .tooDeep := htext 4
  rw [htext] at hprinted
  cases Except.ok.inj hprinted
  obtain ⟨e', he', hbare, -⟩ := hread ⟨0⟩
  exact ⟨he, htext 5, hdeep, e', he', hbare⟩

/-! ## Sums -/

namespace Expr

/-- The sum of so many names more than one. -/
def sum : Nat → Expr Unit
  | 0 => .identifier () "a"
  | n + 1 => .binary () .add (sum n) (.identifier () "a")

/-- Each operand but one hangs one operator deeper than the next. -/
theorem callDepth_sum (d : Descent) (n : Nat) : (sum n).callDepth d = d.operand * n + 1 := by
  induction n with
  | zero => rfl
  | succ n ih =>
    rw [sum, callDepth, ih, callDepth, Nat.max_eq_left (by omega), Nat.mul_succ]
    omega

theorem wrapsLeft_sum (n : Nat) : wrapsLeft .add (sum n) = false := by
  cases n <;> rfl

theorem sourceChars_sum (n : Nat) :
    (sum n).sourceChars = 'a' :: (List.replicate n [' ', '+', ' ', 'a']).flatten := by
  induction n with
  | zero => rfl
  | succ n ih =>
    have hright : wrapsRight .add (identifier () "a") = false := rfl
    rw [sum, sourceChars, wrapsLeft_sum, hright, wrap, wrap, if_neg Bool.false_ne_true,
      if_neg Bool.false_ne_true, ih, List.replicate_succ', List.flatten_concat, sourceChars]
    simp [BinaryOp.mark, Mark.chars]

theorem readable_sum (n : Nat) : (sum n).Readable := by
  have hname : (identifier () "a").Readable := @Spelling.word 'a' [] (by decide) (List.forall_mem_nil _)
  induction n with
  | zero => exact hname
  | succ n ih => exact ⟨ih, hname⟩

theorem canonical_sum (n : Nat) : (sum n).Canonical := by
  induction n with
  | zero => trivial
  | succ n ih => exact ⟨wrapsLeft_eq_false_iff.1 (wrapsLeft_sum n), nofun, ih, trivial⟩

theorem depth_sum_le (n : Nat) : (sum n).depth ≤ 1 := by
  induction n with
  | zero => exact Nat.zero_le 1
  | succ n ih => exact Nat.max_le.2 ⟨ih, Nat.le_refl 1⟩

/-- A sum of any length is read. On a stack that its calls do not fit on it is neither written nor
dumped. -/
theorem parseExpression_sum (file : Symbol) (n : Nat) :
    ∃ e, parseExpression file (String.ofList (sum n).sourceChars) = .ok e ∧
      (∀ frames ≤ 2 * n, e.formatWithin frames = .error .tooDeep) ∧
      ∀ frames ≤ n, e.dumpWithin frames = .error .tooDeep := by
  have hd : (sum n).depth < maxNesting := Nat.lt_of_le_of_lt (depth_sum_le n) (by decide)
  obtain ⟨e, he, hbare⟩ := (canonical_sum n).parseExpression_sourceChars (readable_sum n) hd file
  refine ⟨e, he, fun frames hframes => ?_, fun frames hframes => ?_⟩
  · rw [← formatWithin_bare, hbare, formatWithin_bare, formatWithin_eq (readable_sum n).check,
      callDepth_sum]
    exact if_neg (Nat.not_le_of_lt (Nat.lt_succ_of_le hframes))
  · rw [← dumpWithin_bare, hbare, dumpWithin_bare, dumpWithin_eq (readable_sum n).check,
      callDepth_sum, Descent.dump, Nat.one_mul]
    exact if_neg (Nat.not_le_of_lt (Nat.lt_succ_of_le hframes))

end Expr

/-- A sum with 500 operators is read, but on a stack of the usual size its text is not printed; one
with 1000 operators is not even dumped. -/
theorem parseExpression_format_sum :
    let sum (n : Nat) : String := String.ofList ('a' :: (List.replicate n [' ', '+', ' ', 'a']).flatten)
    (∃ e, parseExpression ⟨0⟩ (sum 500) = .ok e ∧ e.formatWithin stackFrames = .error .tooDeep) ∧
      ∃ e, parseExpression ⟨0⟩ (sum 1000) = .ok e ∧ e.dumpWithin stackFrames = .error .tooDeep := by
  intro sum
  obtain ⟨e, he, hformat, -⟩ := Expr.parseExpression_sum ⟨0⟩ 500
  obtain ⟨e', he', -, hdump⟩ := Expr.parseExpression_sum ⟨0⟩ 1000
  rw [Expr.sourceChars_sum] at he he'
  exact ⟨⟨e, he, hformat _ (Nat.le_refl _)⟩, e', he', hdump _ (Nat.le_refl _)⟩

end ScriptSyntax
