/-
Trees as JSON. All that a node holds stands in its JSON but for the file: the word for its shape, the
rows, columns and offsets of its span, and its own parts (`Expr.map_inFile_eq_of_toJson_eq`). The
floats of a tree that can be written are finite, so its JSON is known from the text
(`Expr.Readable.toJson_finite`).
-/
import ScriptSyntax.Expr.Json
import ScriptSyntax.Proofs.Command.Files
import ScriptSyntax.Proofs.Json

namespace ScriptSyntax

/-! ## Leaves -/

theorem Literal.toJson_injective {v v' : Literal} (h : v.toJson = v'.toJson) : v = v' := by
  cases v <;> cases v' <;> cases h <;> rfl

theorem UnaryOp.text_injective {op op' : UnaryOp} (h : op.text = op'.text) : op = op' :=
  UnaryOp.mark_injective (Mark.chars_injective (String.ofList_inj.1 h))

theorem BinaryOp.text_injective {op op' : BinaryOp} (h : op.text = op'.text) : op = op' :=
  BinaryOp.mark_injective (Mark.chars_injective (String.ofList_inj.1 h))

section InFile

variable {file : Symbol}

theorem Position.inFile_eq_of_toJson_eq {p q : Position} (h : p.toJson = q.toJson) :
    p.inFile file = q.inFile file := by
  simp only [toJson, Json.object.injEq, List.cons.injEq, Prod.mk.injEq, Json.int.injEq, true_and,
    and_true] at h
  obtain ⟨hrow, hcol, hoffset⟩ := h
  rw [inFile, inFile, hrow, hcol, hoffset]

theorem Span.inFile_eq_of_toJson_eq {s t : Span} (h : s.toJson = t.toJson) :
    s.moved (Position.inFile file) = t.moved (Position.inFile file) := by
  simp only [toJson, Json.object.injEq, List.cons.injEq, Prod.mk.injEq, true_and, and_true] at h
  obtain ⟨hstart, hstop⟩ := h
  rw [moved, moved, Position.inFile_eq_of_toJson_eq hstart, Position.inFile_eq_of_toJson_eq hstop]

/-! ## Trees -/

namespace Expr

/-- The shape and the span stand before what a node has of its own. -/
theorem members_eq {e e' : Expr Span} {own own' : List (String × Json)}
    (h : Json.object (e.headMembers ++ own) = .object (e'.headMembers ++ own')) :
    e.shapeName = e'.shapeName ∧
      e.note.moved (Position.inFile file) = e'.note.moved (Position.inFile file) ∧ own = own' := by
  simp only [headMembers, Json.object.injEq, List.cons_append, List.nil_append, List.cons.injEq,
    Prod.mk.injEq, Json.string.injEq, true_and] at h
  obtain ⟨hshape, hspan, hown⟩ := h
  exact ⟨hshape, Span.inFile_eq_of_toJson_eq hspan, hown⟩

theorem shapeName_eq_of_toJson_eq {e e' : Expr Span} (h : e.toJson = e'.toJson) :
    e.shapeName = e'.shapeName := by
  have hhead (e : Expr Span) : ∃ own, e.toJson = .object (e.headMembers ++ own) := by
    cases e <;> exact ⟨_, rfl⟩
  obtain ⟨own, hown⟩ := hhead e
  obtain ⟨own', hown'⟩ := hhead e'
  rw [hown, hown'] at h
  exact (@members_eq ⟨0⟩ _ _ _ _ h).1

/-- The JSON of a tree determines the tree but for its file. -/
theorem map_inFile_eq_of_toJson_eq {e e' : Expr Span} (h : e.toJson = e'.toJson) :
    e.map (Span.moved (Position.inFile file)) = e'.map (Span.moved (Position.inFile file)) := by
  have hshape := shapeName_eq_of_toJson_eq h
  induction e generalizing e' with
  | literal s v =>
    cases e' with
    | literal s' v' =>
      obtain ⟨-, hnote, hown⟩ := @members_eq file _ _ _ _ h
      simp only [List.cons.injEq, Prod.mk.injEq, true_and, and_true] at hown
      exact congrArg₂ literal hnote (Literal.toJson_injective hown.2)
    | _ => simp [shapeName] at hshape
  | identifier s n =>
    cases e' with
    | identifier s' n' =>
      obtain ⟨-, hnote, hown⟩ := @members_eq file _ _ _ _ h
      simp only [List.cons.injEq, Prod.mk.injEq, Json.string.injEq, true_and, and_true] at hown
      exact congrArg₂ identifier hnote hown
    | _ => simp [shapeName] at hshape
  | unary s op x ih =>
    cases e' with
    | unary s' op' x' =>
      obtain ⟨-, hnote, hown⟩ := @members_eq file _ _ _ _ h
      simp only [List.cons.injEq, Prod.mk.injEq, Json.string.injEq, true_and, and_true] at hown
      obtain ⟨hop, hx⟩ := hown
      rw [map, map, UnaryOp.text_injective hop, ih hx (shapeName_eq_of_toJson_eq hx)]
      exact congrArg (unary · op' _) hnote
    | _ => simp [shapeName] at hshape
  | binary s op l r ihl ihr =>
    cases e' with
    | binary s' op' l' r' =>
      obtain ⟨-, hnote, hown⟩ := @members_eq file _ _ _ _ h
      simp only [List.cons.injEq, Prod.mk.injEq, Json.string.injEq, true_and, and_true] at hown
      obtain ⟨hop, hl, hr⟩ := hown
      rw [map, map, BinaryOp.text_injective hop, ihl hl (shapeName_eq_of_toJson_eq hl),
        ihr hr (shapeName_eq_of_toJson_eq hr)]
      exact congrArg (binary · op' _ _) hnote
    | _ => simp [shapeName] at hshape
  | grouping s x ih =>
    cases e' with
    | grouping s' x' =>
      obtain ⟨-, hnote, hown⟩ := @members_eq file _ _ _ _ h
      simp only [List.cons.injEq, Prod.mk.injEq, true_and, and_true] at hown
      rw [map, map, ih hown (shapeName_eq_of_toJson_eq hown)]
      exact congrArg (grouping · _) hnote
    | _ => simp [shapeName] at hshape

/-- The floats of a tree that can be written are finite. -/
theorem Readable.toJson_finite {e : Expr Span} (h : e.Readable) : e.toJson.Finite := by
  have hspan (s : Span) : s.toJson.Finite := by simp [Span.toJson, Position.toJson]
  induction e with
  | literal s v =>
    have hv : v.toJson.Finite := by
      cases v with
      | float x => exact .float h.1
      | int n => exact .int n
      | string t => exact .string t
      | bool b => exact .bool b
    simp [toJson, headMembers, hspan, hv]
  | identifier s n => simp [toJson, headMembers, hspan]
  | unary s op x ih => simp [toJson, headMembers, hspan, ih h]
  | binary s op l r ihl ihr => simp [toJson, headMembers, hspan, ihl h.1, ihr h.2]
  | grouping s x ih => simp [toJson, headMembers, hspan, ih h]

end Expr

end InFile

end ScriptSyntax
