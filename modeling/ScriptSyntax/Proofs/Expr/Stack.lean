/-
Printing on a stack. The calls of a printer nest as deep as the tree is (`Expr.callDepth`). With that
many frames a tree is printed, or refused for a literal, as on any deeper stack (`formatWithin_of_le`,
`dumpWithin_of_le`); with fewer it is not, if its literals have texts (`formatWithin_eq`,
`dumpWithin_eq`).
-/
import ScriptSyntax.Expr.Printer

namespace ScriptSyntax.Expr

variable {α β : Type} {d : Descent} {e : Expr α}

/-! ## The depth of a tree -/

theorem callDepth_pos (d : Descent) (e : Expr α) : 0 < e.callDepth d := by
  induction e <;> simp only [callDepth] <;> omega

@[simp] theorem callDepth_map (f : α → β) (e : Expr α) : (e.map f).callDepth d = e.callDepth d := by
  induction e <;> simp_all [map, callDepth]

/-! ## Going down -/

@[simp] theorem descend_map (f : α → β) (e : Expr α) (frames : Nat) :
    (e.map f).descend d frames = e.descend d frames := by
  induction e generalizing frames <;> cases frames <;> simp_all [map, descend]

theorem check_binary {a : α} {op : BinaryOp} {l r : Expr α} :
    (binary a op l r).check = .ok () ↔ l.check = .ok () ∧ r.check = .ok () := by
  have hbind : (binary a op l r).check = l.check.bind fun _ => r.check := rfl
  rw [hbind]
  cases l.check <;> simp [Except.bind]

theorem exists_eq_succ_of_callDepth_le {frames : Nat} (h : e.callDepth d ≤ frames) :
    ∃ n, frames = n + 1 :=
  Nat.exists_eq_succ_of_ne_zero (Nat.ne_of_gt (Nat.lt_of_lt_of_le (callDepth_pos d e) h))

/-- The way down to all literals is no longer than the tree is deep. -/
theorem descend_of_le {frames : Nat} (hd : e.callDepth d ≤ frames) :
    e.descend d frames = e.check := by
  induction e generalizing frames with
  | literal | identifier =>
    obtain ⟨n, rfl⟩ := exists_eq_succ_of_callDepth_le hd
    rfl
  | unary _ _ e ih =>
    obtain ⟨n, rfl⟩ := exists_eq_succ_of_callDepth_le hd
    rw [callDepth] at hd
    exact ih (by omega)
  | binary _ _ l r ihl ihr =>
    obtain ⟨n, rfl⟩ := exists_eq_succ_of_callDepth_le hd
    rw [callDepth] at hd
    rw [descend, ihl (by omega), ihr (by omega)]
    rfl
  | grouping _ e ih =>
    obtain ⟨n, rfl⟩ := exists_eq_succ_of_callDepth_le hd
    rw [callDepth] at hd
    exact ih (by omega)

/-- On a stack that its calls fit on a tree is written as on any deeper one. -/
theorem formatWithin_of_le {frames : Nat} (hd : e.callDepth .source ≤ frames) :
    e.formatWithin frames = e.format := by
  rw [formatWithin, descend_of_le hd, format]

theorem dumpWithin_of_le {frames : Nat} (hd : e.callDepth .dump ≤ frames) :
    e.dumpWithin frames = e.dump := by
  rw [dumpWithin, descend_of_le hd, dump]

/-- One frame less is too few. -/
theorem descend_of_lt (h : e.check = .ok ()) {frames : Nat} (hd : frames < e.callDepth d) :
    e.descend d frames = .error .tooDeep := by
  induction e generalizing frames with
  | literal | identifier =>
    obtain rfl := Nat.lt_one_iff.1 hd
    rfl
  | unary _ _ e ih =>
    rw [callDepth] at hd
    have hpos := callDepth_pos d e
    cases frames with
    | zero => rfl
    | succ n => exact ih h (by omega)
  | binary _ _ l r ihl ihr =>
    rw [callDepth] at hd
    obtain ⟨hl, hr⟩ := check_binary.1 h
    have hpos := callDepth_pos d l
    have hpos' := callDepth_pos d r
    cases frames with
    | zero => rfl
    | succ n =>
      rw [descend]
      -- the left operand is printed first, so the right one counts only if there was room for it
      by_cases hleft : l.callDepth d ≤ n + 1 - d.operand
      · rw [descend_of_le hleft, hl, ihr hr (by omega)]
        rfl
      · rw [ihl hl (by omega)]
        rfl
  | grouping _ e ih =>
    rw [callDepth] at hd
    have hpos := callDepth_pos d e
    cases frames with
    | zero => rfl
    | succ n => exact ih h (by omega)

section Within

variable (h : e.check = .ok ()) (frames : Nat)
include h

theorem descend_eq (d : Descent) : e.descend d frames =
    if e.callDepth d ≤ frames then .ok () else .error .tooDeep := by
  split
  · exact (descend_of_le ‹_›).trans h
  · exact descend_of_lt h (Nat.lt_of_not_le ‹_›)

theorem formatWithin_eq : e.formatWithin frames =
    if e.callDepth .source ≤ frames then .ok e.sourceText else .error .tooDeep := by
  rw [formatWithin, descend_eq h]
  split <;> rfl

theorem dumpWithin_eq : e.dumpWithin frames =
    if e.callDepth .dump ≤ frames then .ok e.dumpText else .error .tooDeep := by
  rw [dumpWithin, descend_eq h]
  split <;> rfl

end Within

end ScriptSyntax.Expr
