/-
Reading on. What is read from a place does not hang on what was read before it: behind a gap, or
behind lexemes that stand there as they stand in the text, reading goes on as if it began there
(`Cursor.tokens_gap`, `Stands.tokens`). A gap that ends with its line is a gap in front of anything,
and so do lexemes stand in front of any blank (`IsGap.of_newline`, `Stands.of_blank`).
-/
import ScriptSyntax.Proofs.Token.Breaks
import Mathlib.Data.List.Basic

namespace ScriptSyntax

open Text

/-! ## The cursor -/

namespace Cursor

section Step

variable {k : Cursor} {gap : List Char}

theorem tokens_of_token {lexeme rest : List Char} {m : Meaning}
    (h : Scan.ofText k.rest = .token gap m lexeme rest) : k.tokens =
      (TokenList.cons ⟨m, String.ofList lexeme, .ofText (k.position.advanceBy gap) lexeme⟩) <$>
        tokens ⟨(k.position.advanceBy gap).advanceBy lexeme, rest⟩ := by
  rw [tokens]
  split <;> rename_i hscan <;> rw [h] at hscan <;> cases hscan
  rfl

theorem tokens_of_eof (h : Scan.ofText k.rest = .eof gap) :
    k.tokens = .ok ⟨[], .eof (k.position.advanceBy gap), rfl⟩ := by
  rw [tokens]
  split <;> rename_i hscan <;> rw [h] at hscan <;> cases hscan
  rfl

theorem tokens_of_fault {f : LexFault} (h : Scan.ofText k.rest = .fault gap f) :
    k.tokens = .error (f.error (k.position.advanceBy gap)) := by
  rw [tokens]
  split <;> rename_i hscan <;> rw [h] at hscan <;> cases hscan
  rfl

end Step

/-- Behind a gap reading goes on as if it began there. -/
theorem tokens_gap {gap rest : List Char} (h : IsGap gap rest) (p : Position) :
    tokens ⟨p, gap ++ rest⟩ = tokens ⟨p.advanceBy gap, rest⟩ := by
  -- the gap joins the one at the front of the rest
  cases hs : Scan.ofText rest with
  | token gap' m lexeme rest' =>
    obtain ⟨rfl, hg, hat⟩ := Scan.ofText_eq_token_iff.1 hs
    rw [List.append_assoc] at h
    have hs' : Scan.ofText (gap ++ (gap' ++ lexeme ++ rest')) = .token (gap ++ gap') m lexeme rest' :=
      Scan.ofText_eq_token_iff.2 ⟨by simp, h.append hg, hat⟩
    rw [tokens_of_token (k := ⟨p, _⟩) hs', tokens_of_token (k := ⟨p.advanceBy gap, _⟩) hs,
      Position.advanceBy_append]
  | eof gap' =>
    obtain ⟨rfl, hg⟩ := Scan.ofText_eq_eof_iff.1 hs
    have hs' : Scan.ofText (gap ++ rest) = .eof (gap ++ rest) :=
      Scan.ofText_eq_eof_iff.2 ⟨rfl, IsGap.append (by rwa [List.append_nil]) hg⟩
    rw [tokens_of_eof (k := ⟨p, _⟩) hs', tokens_of_eof (k := ⟨p.advanceBy gap, _⟩) hs,
      Position.advanceBy_append]
  | fault gap' f =>
    obtain ⟨rfl, hg, hf⟩ := Scan.ofText_eq_fault_iff.1 hs
    have hs' : Scan.ofText (gap ++ (gap' ++ f.whole)) = .fault (gap ++ gap') f :=
      Scan.ofText_eq_fault_iff.2 ⟨by simp, h.append hg, hf⟩
    rw [tokens_of_fault (k := ⟨p, _⟩) hs', tokens_of_fault (k := ⟨p.advanceBy gap, _⟩) hs,
      Position.advanceBy_append]

end Cursor

/-- The list with more tokens before it. -/
def TokenList.prepend (us : List Token) (ts : TokenList) : TokenList :=
  { ts with front := us ++ ts.front }

/-- Behind lexemes reading goes on as if it began there. -/
theorem Stands.tokens {ps : List Piece} {rest : List Char} (h : Stands ps rest) (p : Position) :
    Cursor.tokens ⟨p, ps.flatMap Piece.text ++ rest⟩ = (TokenList.prepend (placed p ps)) <$>
      Cursor.tokens ⟨p.advanceBy (ps.flatMap Piece.text), rest⟩ := by
  induction h generalizing p with
  | nil => exact (id_map _).symm
  | @cons gap lexeme rest m ps hg hat _ ih =>
    have hs := Scan.ofText_eq_token_iff.2 ⟨(List.append_assoc ..).symm, hg, hat⟩
    have htext : (Piece.mk gap m lexeme :: ps).flatMap Piece.text ++ rest =
        gap ++ (lexeme ++ (ps.flatMap Piece.text ++ rest)) := by simp [Piece.text]
    rw [htext, Cursor.tokens_of_token hs, ih, List.flatMap_cons, Piece.text,
      Position.advanceBy_append, Position.advanceBy_append]
    cases Cursor.tokens _ <;> rfl

/-! ## What may follow -/

theorem BeginsLike.of_ne_nil {cs : List Char} (h : cs ≠ []) (rest rest' : List Char) :
    BeginsLike (cs ++ rest) (cs ++ rest') := by
  obtain ⟨c, l, rfl⟩ := List.exists_cons_of_ne_nil h
  exact fun _ hd => hd

theorem GapPart.eq_newline {part rest : List Char} (h : GapPart part rest)
    (hn : part.getLast? = some '\n') : part = ['\n'] := by
  cases h with
  | blank => exact congrArg (·.toList) hn
  | @line body _ hb _ =>
    have hmem : '\n' ∈ '/' :: '/' :: body := List.mem_of_getLast? hn
    simp [hb] at hmem
  | block =>
    rw [List.getLast?_append] at hn
    cases hn

/-- A gap that ends with its line is one in front of anything. -/
theorem IsGap.of_newline {gap rest : List Char} (h : IsGap gap rest)
    (hn : gap.getLast? = some '\n') (rest' : List Char) : IsGap gap rest' := by
  induction h with
  | nil => cases hn
  | @cons part gap rest hp _ ih =>
    by_cases hgap : gap = []
    · subst hgap
      rw [List.append_nil] at hn
      rw [hp.eq_newline hn]
      exact .cons (.blank isBlank_newline) .nil
    · have hlast : gap.getLast? = some '\n' := by
        rwa [List.getLast?_append_of_ne_nil _ hgap] at hn
      exact .cons (hp.of_beginsLike (.of_ne_nil hgap rest' rest)) (ih hlast)

/-- Lexemes that stand in front of a rest stand in front of any blank. -/
theorem Stands.of_blank {ps : List Piece} {rest : List Char} (h : Stands ps rest) {c : Char}
    (hc : isBlank c = true) (rest' : List Char) : Stands ps (c :: rest') := by
  induction h with
  | nil => exact .nil
  | @cons gap lexeme rest m ps hg hat _ ih =>
    refine .cons (hg.of_beginsLike (.of_ne_nil hat.spelling.ne_nil _ _)) ?_ ih
    by_cases htext : ps.flatMap Piece.text = []
    · rw [htext]
      exact .of_blank hat.spelling hc rest'
    · exact hat.of_beginsLike (.of_ne_nil htext _ _)

end ScriptSyntax
