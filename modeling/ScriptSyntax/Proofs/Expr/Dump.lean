/-
The dump of a tree determines the tree but for its notes. A dump is made of lexemes like a source, so
it can be cut in one way only (`Expr.reads_dumpChars`); what it is cut into is the tree in prefix
notation, where every node is closed by a parenthesis of its own (`Expr.dumpYield`). One prefix
operator is also a binary one: it is the parenthesis behind the first operand that tells them apart,
since no operand begins with one. A group has a name where a node has its operator, and a leaf of that
name has no parenthesis before it (`bare_eq_of_dumpYield_append`).
-/
import ScriptSyntax.Proofs.Expr.RoundTrip

namespace ScriptSyntax

open Text

/-! ## Dumps as texts -/

/-- A text is read as one sequence of terminals. -/
theorem Reads.unique {cs : List Char} {xs ys : List Terminal} (hx : Reads cs xs) (hy : Reads cs ys) :
    xs = ys := by
  obtain ⟨ps, last, hps, hx⟩ := hx
  obtain ⟨qs, last', hqs, hy⟩ := hy
  obtain ⟨rfl, -⟩ := hps.unique hqs
  exact (hx (.startOf ⟨0⟩)).symm.trans (hy _)

theorem UnaryOp.mark_injective {op op' : UnaryOp} (h : op.mark = op'.mark) : op = op' := by
  have hop := UnaryOp.ofMark?_mark op
  rw [h, UnaryOp.ofMark?_mark] at hop
  exact (Option.some.inj hop).symm

theorem BinaryOp.mark_injective {op op' : BinaryOp} (h : op.mark = op'.mark) : op = op' := by
  have hop := BinaryOp.ofMark?_mark op
  rw [h, BinaryOp.ofMark?_mark] at hop
  exact (Option.some.inj hop).symm

namespace Expr

variable {α β : Type}

/-- The terminals of a dump. -/
def dumpYield : Expr α → List Terminal
  | .literal _ v => [.literal v]
  | .identifier _ n => [.name n]
  | .unary _ op e => .mark .openParen :: .mark op.mark :: (e.dumpYield ++ [.mark .closeParen])
  | .binary _ op l r =>
    .mark .openParen :: .mark op.mark :: (l.dumpYield ++ (r.dumpYield ++ [.mark .closeParen]))
  | .grouping _ e => .mark .openParen :: .name "group" :: (e.dumpYield ++ [.mark .closeParen])

/-- A dump reads as its terminals, in front of what may stand behind it. -/
theorem reads_dumpChars {e : Expr α} (hr : e.Readable) {rest : List Char} {xs : List Terminal}
    (hrest : Closes rest) (h : Reads rest xs) : Reads (e.dumpChars ++ rest) (e.dumpYield ++ xs) := by
  induction e generalizing rest xs with
  | literal _ v => exact h.leaf hrest (Literal.Readable.spelling hr) nofun fun _ => rfl
  | identifier _ n => exact h.name hrest hr
  | unary _ op e ih =>
    have hoperand := ih hr (closes_close _) h.closeParen
    have hnode := (hoperand.blank.mark_blank op.mark isBlank_space).openParen
    simpa [dumpChars, dumpYield, parenthesized] using hnode
  | binary _ op l r ihl ihr =>
    have hright := ihr hr.2 (closes_close _) h.closeParen
    have hleft := ihl hr.1 (closes_blank isBlank_space _) hright.blank
    have hnode := (hleft.blank.mark_blank op.mark isBlank_space).openParen
    simpa [dumpChars, dumpYield, parenthesized] using hnode
  | grouping _ e ih =>
    have hinner := ih hr (closes_close _) h.closeParen
    have hword : Spelling "group".toList (some .name) :=
      @Spelling.word 'g' ['r', 'o', 'u', 'p'] (by decide) (List.all_eq_true.1 (by decide))
    have hnode := (hinner.blank.name (closes_blank isBlank_space _) hword).openParen
    simpa [dumpChars, dumpYield, parenthesized] using hnode

/-! ## Prefix notation -/

/-- No dump begins with a closing parenthesis. -/
theorem head?_dumpYield_ne (e : Expr α) (xs : List Terminal) :
    (e.dumpYield ++ xs).head? ≠ some (.mark .closeParen) := by
  cases e <;> simp [dumpYield]

section Append

variable (a : α) (e l r : Expr α) (xs : List Terminal)

theorem dumpYield_unary_append (op : UnaryOp) : (unary a op e).dumpYield ++ xs =
    .mark .openParen :: .mark op.mark :: (e.dumpYield ++ .mark .closeParen :: xs) := by
  simp [dumpYield]

theorem dumpYield_binary_append (op : BinaryOp) : (binary a op l r).dumpYield ++ xs =
    .mark .openParen :: .mark op.mark ::
      (l.dumpYield ++ (r.dumpYield ++ .mark .closeParen :: xs)) := by
  simp [dumpYield]

theorem dumpYield_grouping_append : (grouping a e).dumpYield ++ xs =
    .mark .openParen :: .name "group" :: (e.dumpYield ++ .mark .closeParen :: xs) := by
  simp [dumpYield]

end Append

/-- A dump is told from any other one, and from what follows it. -/
theorem bare_eq_of_dumpYield_append {e : Expr α} {e' : Expr β} {xs ys : List Terminal}
    (h : e.dumpYield ++ xs = e'.dumpYield ++ ys) : e.bare = e'.bare ∧ xs = ys := by
  induction e generalizing e' xs ys with
  | literal _ v =>
    cases e' with
    | literal =>
      cases h
      exact ⟨rfl, rfl⟩
    | _ => cases h
  | identifier _ n =>
    cases e' with
    | identifier =>
      cases h
      exact ⟨rfl, rfl⟩
    | _ => cases h
  | unary _ op e ih =>
    rw [dumpYield_unary_append] at h
    cases e' with
    | unary _ op' e' =>
      rw [dumpYield_unary_append] at h
      obtain ⟨hop, h⟩ := List.cons.inj (List.cons.inj h).2
      obtain ⟨hbare, htail⟩ := ih h
      cases UnaryOp.mark_injective (Terminal.mark.inj hop)
      exact ⟨congrArg (Expr.unary () op) hbare, (List.cons.inj htail).2⟩
    | binary _ op' l r =>
      -- behind its one operand the node is closed, and the other one goes on
      rw [dumpYield_binary_append] at h
      obtain ⟨-, htail⟩ := ih (List.cons.inj (List.cons.inj h).2).2
      exact absurd (congrArg List.head? htail).symm (r.head?_dumpYield_ne _)
    | _ => cases h
  | binary _ op l r ihl ihr =>
    rw [dumpYield_binary_append] at h
    cases e' with
    | unary _ op' e' =>
      rw [dumpYield_unary_append] at h
      obtain ⟨-, htail⟩ := ihl (List.cons.inj (List.cons.inj h).2).2
      exact absurd (congrArg List.head? htail) (r.head?_dumpYield_ne _)
    | binary _ op' l' r' =>
      rw [dumpYield_binary_append] at h
      obtain ⟨hop, h⟩ := List.cons.inj (List.cons.inj h).2
      obtain ⟨hleft, h⟩ := ihl h
      obtain ⟨hright, htail⟩ := ihr h
      cases BinaryOp.mark_injective (Terminal.mark.inj hop)
      exact ⟨congrArg₂ (Expr.binary () op) hleft hright, (List.cons.inj htail).2⟩
    | _ => cases h
  | grouping _ e ih =>
    cases e' with
    | grouping _ e' =>
      rw [dumpYield_grouping_append, dumpYield_grouping_append] at h
      obtain ⟨hbare, htail⟩ := ih (List.cons.inj (List.cons.inj h).2).2
      exact ⟨congrArg (Expr.grouping ()) hbare, (List.cons.inj htail).2⟩
    | _ => cases h

/-- Trees that are written alike are alike. -/
theorem bare_eq_of_dumpChars {e : Expr α} {e' : Expr β} (hr : e.Readable) (hr' : e'.Readable)
    (h : e.dumpChars = e'.dumpChars) : e.bare = e'.bare := by
  have hx := reads_dumpChars hr closes_nil Reads.nil
  have hx' := reads_dumpChars hr' closes_nil Reads.nil
  rw [List.append_nil] at hx hx'
  rw [h] at hx
  have hyield := hx.unique hx'
  rw [List.append_nil, List.append_nil] at hyield
  exact (bare_eq_of_dumpYield_append (congrArg (· ++ []) hyield)).1

end Expr

theorem readable_of_parseExpression {file : Symbol} {src : String} {e : Expr Span}
    (h : parseExpression file src = .ok e) : e.Readable := by
  obtain ⟨ps, last, hcut, hs, -, -⟩ := parseExpression_eq_ok_iff.1 h
  exact hs.readable (hcut.spelling_placed _)

/-- Two trees whose leaves can be written have dumps, and these are equal exactly if the trees are
equal but for their notes. The trees that are read from sources are among them. -/
theorem dump_eq_iff_bare_eq :
    (∀ {α β : Type} {e : Expr α} {e' : Expr β}, e.Readable → e'.Readable →
      ∃ text text', e.dump = .ok text ∧ e'.dump = .ok text' ∧ (text = text' ↔ e.bare = e'.bare)) ∧
    ∀ file src e, parseExpression file src = .ok e → e.Readable := by
  refine ⟨?_, fun file src e => readable_of_parseExpression⟩
  intro α β e e' hr hr'
  refine ⟨_, _, hr.dump, hr'.dump, ?_⟩
  rw [Expr.dumpText_eq, Expr.dumpText_eq]
  constructor
  · intro h
    exact Expr.bare_eq_of_dumpChars hr hr' (String.ofList_injective h)
  · intro h
    rw [← Expr.dumpChars_map (fun _ => ()) e, ← Expr.dumpChars_map (fun _ => ()) e']
    exact congrArg (fun x : Expr Unit => String.ofList x.dumpChars) h

/-- One parenthesis tells `(- (- a b))` from `(- (- a) b)`. -/
theorem dump_eq_iff_bare_eq_minus :
    let a : Expr Unit := .identifier () "a"
    let b : Expr Unit := .identifier () "b"
    let e : Expr Unit := .unary () .neg (.binary () .sub a b)
    let e' : Expr Unit := .binary () .sub (.unary () .neg a) b
    e.Readable ∧ e'.Readable ∧ e.dump = .ok "(- (- a b))" ∧ e.dump ≠ e'.dump := by
  intro a b e e'
  have ha : a.Readable := @Spelling.word 'a' [] (by decide) (List.forall_mem_nil _)
  have hb : b.Readable := @Spelling.word 'b' [] (by decide) (List.forall_mem_nil _)
  have he : e.Readable := ⟨ha, hb⟩
  have he' : e'.Readable := ⟨ha, hb⟩
  obtain ⟨text, text', h, h', hiff⟩ := dump_eq_iff_bare_eq.1 he he'
  refine ⟨he, he', by decide, fun hdump => ?_⟩
  rw [h, h'] at hdump
  cases hiff.1 (Except.ok.inj hdump)

end ScriptSyntax
