/-
Texts that have no tokens. Such a text begins with lexemes that stand as they stand in any text, and
behind a gap there is a fault (`Breaks`); the fault is what is reported (`Cursor.tokens_eq_error_iff`).
A fault is exact: nothing that follows the characters pointed at could mend it, and what stands
before them can be gone on with, or, where the text ends too early, the text itself
(`tokenize_error_exact`).
-/
import ScriptSyntax.Error
import ScriptSyntax.Proofs.Token.Fault

namespace ScriptSyntax

open Text

/-! ## Lexemes in front of a rest -/

/-- Lexemes with their gaps, in front of the rest of a text. -/
inductive Stands : List Piece → List Char → Prop
  | nil {rest : List Char} : Stands [] rest
  | cons {gap lexeme rest : List Char} {m : Meaning} {ps : List Piece} :
      IsGap gap (lexeme ++ (ps.flatMap Piece.text ++ rest)) →
      LexemeAt lexeme m (ps.flatMap Piece.text ++ rest) → Stands ps rest →
      Stands (⟨gap, m, lexeme⟩ :: ps) rest

namespace Stands

variable {ps : List Piece} {rest : List Char}

theorem of_beginsLike {rest' : List Char} (h : Stands ps rest) (hr : BeginsLike rest' rest) :
    Stands ps rest' := by
  induction h with
  | nil => exact .nil
  | @cons _ _ _ _ ps hg hat _ ih =>
    have hlike := hr.append_left (ps.flatMap Piece.text)
    exact .cons (hg.of_beginsLike (hlike.append_left _)) (hat.of_beginsLike hlike) (ih hr)

theorem concat {gap lexeme : List Char} {m : Meaning} (h : Stands ps (gap ++ (lexeme ++ rest)))
    (hg : IsGap gap (lexeme ++ rest)) (hat : LexemeAt lexeme m rest) :
    Stands (ps ++ [⟨gap, m, lexeme⟩]) rest := by
  have htext (ps : List Piece) : (ps ++ [Piece.mk gap m lexeme]).flatMap Piece.text ++ rest =
      ps.flatMap Piece.text ++ (gap ++ (lexeme ++ rest)) := by simp [Piece.text]
  generalize hr : gap ++ (lexeme ++ rest) = r at h
  induction h with
  | nil => exact .cons hg hat .nil
  | cons hg' hat' _ ih =>
    subst hr
    rw [List.cons_append]
    exact .cons (by rwa [htext]) (by rwa [htext]) (ih rfl)

end Stands

theorem cuts_iff_stands {cs last : List Char} {ps : List Piece} : Cuts cs ps last ↔
    cs = ps.flatMap Piece.text ++ last ∧ Stands ps last ∧ IsGap last [] := by
  constructor
  · intro h
    refine ⟨h.text_eq, ?_⟩
    induction h with
    | last hg => exact ⟨.nil, hg⟩
    | piece hg hat hrest ih =>
      rw [hrest.text_eq] at hg hat
      exact ⟨.cons hg hat ih.1, ih.2⟩
  · rintro ⟨rfl, hs, hlast⟩
    induction hs with
    | nil => exact .last hlast
    | cons hg hat _ ih =>
      rw [List.flatMap_cons, Piece.text, List.append_assoc]
      exact .piece hg hat (ih hlast)

/-! ## The fault behind them -/

/-- The text is made up of lexemes, a gap and a fault. -/
structure Breaks (cs : List Char) (ps : List Piece) (gap : List Char) (f : LexFault) : Prop where
  text : cs = ps.flatMap Piece.text ++ (gap ++ f.whole)
  stands : Stands ps (gap ++ f.whole)
  gap : IsGap gap f.whole
  fault : FaultAt f

theorem Cursor.tokens_eq_error_iff (k : Cursor) (e : LexError) : k.tokens = .error e ↔
    ∃ ps gap f, Breaks k.rest ps gap f ∧
      e = f.error (k.position.advanceBy (ps.flatMap Piece.text ++ gap)) := by
  constructor
  · intro h
    fun_induction Cursor.tokens k with
    | case1 k gap m lexeme rest hscan p ih =>
      obtain ⟨heq, hg, hat⟩ := Scan.ofText_eq_token_iff.1 hscan
      cases htail : Cursor.tokens ⟨p.advanceBy lexeme, rest⟩ with
      | ok ts => rw [htail] at h; cases h
      | error e' =>
        rw [htail] at h
        cases h
        obtain ⟨ps, gap', f, hb, rfl⟩ := ih htail
        have htext : rest = ps.flatMap Piece.text ++ (gap' ++ f.whole) := hb.text
        refine ⟨⟨gap, m, lexeme⟩ :: ps, gap', f, ⟨?_, ?_, hb.gap, hb.fault⟩, ?_⟩
        · rw [heq, htext]
          simp [Piece.text]
        · exact .cons (htext ▸ hg) (htext ▸ hat) hb.stands
        · simp [Piece.text, Position.advanceBy_append, p]
    | case2 => cases h
    | case3 k gap f hscan =>
      obtain ⟨heq, hg, hf⟩ := Scan.ofText_eq_fault_iff.1 hscan
      cases h
      exact ⟨[], gap, f, ⟨heq, .nil, hg, hf⟩, rfl⟩
  · rintro ⟨ps, gap, f, ⟨htext, hs, hg, hf⟩, rfl⟩
    obtain ⟨p, cs⟩ := k
    simp only at htext ⊢
    subst htext
    generalize hr : gap ++ f.whole = r at hs
    induction hs generalizing p with
    | nil =>
      subst hr
      have hscan := Scan.ofText_eq_fault_iff.2 ⟨rfl, hg, hf⟩
      rw [Cursor.tokens]
      split <;> rename_i hscan' <;> rw [List.flatMap_nil, List.nil_append, hscan] at hscan' <;>
        cases hscan'
      rfl
    | @cons gap₁ lexeme r m ps hg' hat _ ih =>
      subst hr
      have hscan := Scan.ofText_eq_token_iff.2 ⟨(List.append_assoc ..).symm, hg', hat⟩
      have htext : (Piece.mk gap₁ m lexeme :: ps).flatMap Piece.text ++ (gap ++ f.whole) =
        gap₁ ++ (lexeme ++ (ps.flatMap Piece.text ++ (gap ++ f.whole))) := by simp [Piece.text]
      rw [Cursor.tokens]
      split <;> rename_i hscan' <;> rw [htext, hscan] at hscan' <;> cases hscan'
      simp only [ih _ rfl, List.flatMap_cons, Piece.text, List.append_assoc, Position.advanceBy_append]
      rfl

/-! ## What follows a fault -/

/-- What would have closed the comment or string in which a text ends too early. -/
def LexCause.closing? : LexCause → Option String
  | .openComment => some "*/"
  | .openString false => some "\""
  | .openEscape => some "n\""
  | _ => none

theorem BreaksString.replace_after {f : LexFault} (h : BreaksString f) (hc : f.cause.closing? = none)
    (after : List Char) : BreaksString { f with after } ∧ f.marked ≠ [] := by
  cases h with
  | lineEnd => exact ⟨.lineEnd, List.cons_ne_nil _ _⟩
  | textEnd => cases hc
  | escape he => exact ⟨.escape he, List.cons_ne_nil _ _⟩
  | escapeEnd => cases hc

/-- A fault that does not hang on what follows points at the characters that make it one. -/
theorem FaultAt.replace_after {f : LexFault} (h : FaultAt f) (hr : f.cause ≠ .numberOutOfRange)
    (hc : f.cause.closing? = none) (after : List Char) :
    FaultAt { f with after } ∧ f.marked ≠ [] := by
  cases h with
  | unexpectedChar hb hno => exact ⟨.unexpectedChar hb hno, List.cons_ne_nil _ _⟩
  | charAfterNumber hd hs hp hcd => exact ⟨.charAfterNumber hd hs hp hcd, List.cons_ne_nil _ _⟩
  | numberOutOfRange => exact absurd rfl hr
  | string hraw hf =>
    obtain ⟨hf', hm⟩ := hf.replace_after hc after
    exact ⟨.string hraw hf', hm⟩
  | comment => cases hc

namespace Breaks

variable {cs gap : List Char} {ps : List Piece} {f : LexFault}

/-- A fault may take the place of another one that begins like it. -/
theorem replace_fault {g : LexFault} (h : Breaks cs ps gap f) (hg : FaultAt g)
    (hlike : BeginsLike g.whole f.whole) :
    Breaks (ps.flatMap Piece.text ++ (gap ++ g.whole)) ps gap g :=
  ⟨rfl, h.stands.of_beginsLike (hlike.append_left gap), h.gap.of_beginsLike hlike, hg⟩

/-- Texts that are alike through the characters pointed at have the same fault. -/
theorem replace_after (h : Breaks cs ps gap f) (hr : f.cause ≠ .numberOutOfRange)
    (hc : f.cause.closing? = none) (after : List Char) :
    Breaks (ps.flatMap Piece.text ++ (gap ++ (f.before ++ f.marked ++ after))) ps gap
      { f with after } := by
  obtain ⟨hf, hm⟩ := h.fault.replace_after hr hc after
  obtain ⟨c, l, hcl⟩ := List.exists_cons_of_ne_nil (l := f.before ++ f.marked) (by simp [hm])
  refine h.replace_fault hf ?_
  rw [LexFault.whole, LexFault.whole, hcl]
  exact fun _ hd => hd

/-! ## What stands before a fault -/

theorem take_stem (h : Breaks cs ps gap f) :
    cs.take (ps.flatMap Piece.text ++ (gap ++ f.stem)).length =
      ps.flatMap Piece.text ++ (gap ++ f.stem) := by
  obtain ⟨more, hmore⟩ := f.stem_prefix_whole
  have htext : cs = (ps.flatMap Piece.text ++ (gap ++ f.stem)) ++ more := by
    rw [h.text, ← hmore]
    simp
  rw [htext, List.take_left]

theorem take_stem_succ (h : Breaks cs ps gap f) (hm : f.marked ≠ []) :
    cs.take ((ps.flatMap Piece.text ++ (gap ++ f.stem)).length + 1) =
      ps.flatMap Piece.text ++ (gap ++ (f.before ++ f.marked)) := by
  have htext : cs = (ps.flatMap Piece.text ++ (gap ++ f.stem)) ++ (f.marked.getLast hm :: f.after) := by
    rw [h.text, LexFault.whole, ← f.stem_concat hm]
    simp
  rw [htext, List.take_length_add_append, ← f.stem_concat hm]
  simp

theorem cuts_before (h : Breaks cs ps gap f) : Cuts (ps.flatMap Piece.text ++ gap) ps gap :=
  cuts_iff_stands.2 ⟨rfl, h.stands.of_beginsLike (.of_isPrefix (List.prefix_append _ _)),
    h.gap.of_beginsLike (.of_isPrefix List.nil_prefix)⟩

/-- A lexeme that nothing follows may take the place of a fault that begins like it. -/
theorem exists_cuts_lexeme {lexeme : List Char} {m : Meaning} (h : Breaks cs ps gap f)
    (hat : LexemeAt lexeme m []) (hlike : BeginsLike lexeme f.whole) :
    ∃ ps' last, Cuts (ps.flatMap Piece.text ++ (gap ++ lexeme)) ps' last := by
  have hlike : BeginsLike (lexeme ++ []) f.whole := by rwa [List.append_nil]
  refine ⟨ps ++ [⟨gap, m, lexeme⟩], [], cuts_iff_stands.2 ⟨?_, ?_, .nil⟩⟩
  · simp [Piece.text]
  · exact (h.stands.of_beginsLike (hlike.append_left gap)).concat (h.gap.of_beginsLike hlike) hat

/-- A string that was broken off can be closed. -/
theorem exists_cuts_string {raw value tail : List Char} (h : Breaks cs ps gap f)
    (hf : f.whole = '"' :: tail) (hraw : StringBody raw value) :
    ∃ ps' last, Cuts (ps.flatMap Piece.text ++ (gap ++ ('"' :: raw ++ ['"']))) ps' last :=
  h.exists_cuts_lexeme (.of_stops (.string hraw) nofun (endsRun_nil _) nofun)
    (hf ▸ fun _ hc => hc)

/-- Some text goes on from what stands before such a fault. -/
theorem exists_cuts_stem (h : Breaks cs ps gap f) (hc : (∃ c, f.cause = .unexpectedChar c) ∨
      (∃ e, f.cause = .unknownEscape e) ∨ f.cause = .openString true) :
    ∃ more ps' last, Cuts (ps.flatMap Piece.text ++ (gap ++ f.stem) ++ more) ps' last := by
  have hf := h.fault
  cases hf with
  | unexpectedChar => exact ⟨[], ps, gap, by simpa [LexFault.stem] using h.cuts_before⟩
  | @string raw value g hraw hg =>
    have hclosed {raw' value' : List Char} (hraw' : StringBody raw' value') :=
      h.exists_cuts_string (LexFault.whole_behind _ g) (hraw.append hraw')
    cases hg with
    | lineEnd => exact ⟨['"'], by simpa [LexFault.stem, LexFault.behind] using hclosed .nil⟩
    | escape =>
      have hn : StringBody ['\\', 'n'] ['\n'] := .escape (by decide) .nil
      exact ⟨['n', '"'], by simpa [LexFault.stem, LexFault.behind] using hclosed hn⟩
    | _ => rcases hc with ⟨_, hc⟩ | ⟨_, hc⟩ | hc <;> cases hc
  | _ => rcases hc with ⟨_, hc⟩ | ⟨_, hc⟩ | hc <;> cases hc

/-- A text that ends too early can be gone on with. -/
theorem exists_cuts_closing {closing : String} (h : Breaks cs ps gap f)
    (hc : f.cause.closing? = some closing) :
    f.stem = f.whole ∧ ∃ ps' last, Cuts (cs ++ closing.toList) ps' last := by
  have hf := h.fault
  rw [h.text]
  cases hf with
  | @string raw value g hraw hg =>
    have hclosed {raw' value' : List Char} (hraw' : StringBody raw' value') :=
      h.exists_cuts_string (LexFault.whole_behind _ g) (hraw.append hraw')
    cases hg with
    | textEnd =>
      cases hc
      refine ⟨by simp [LexFault.stem, LexFault.whole, LexFault.behind], ?_⟩
      simpa [LexFault.whole, LexFault.behind] using hclosed .nil
    | escapeEnd =>
      cases hc
      have hn : StringBody ['\\', 'n'] ['\n'] := .escape (by decide) .nil
      refine ⟨by simp [LexFault.stem, LexFault.whole, LexFault.behind], ?_⟩
      simpa [LexFault.whole, LexFault.behind] using hclosed hn
    | _ => cases hc
  | @comment body hb =>
    cases hc
    have hlike : BeginsLike ('/' :: '*' :: body ++ ['*', '/'])
        (LexFault.whole ⟨.openComment, '/' :: '*' :: body, [], []⟩) := fun _ hd => hd
    refine ⟨by simp [LexFault.stem, LexFault.whole], ps, gap ++ ('/' :: '*' :: body ++ ['*', '/']),
      cuts_iff_stands.2 ⟨by simp [LexFault.whole], ?_, ?_⟩⟩
    · exact h.stands.of_beginsLike (hlike.append_left gap)
    -- a star behind the comment ends none
    · have hstar : ¬ ['*', '/'] <:+: body ++ ['*'] := by
        rw [List.infix_concat_iff, not_or]
        refine ⟨?_, hb⟩
        rintro ⟨front, hfront⟩
        have := congrArg List.getLast? hfront
        simp at this
      have hpart : IsGap ('/' :: '*' :: body ++ ['*', '/'] ++ []) [] := .cons (.block hstar) .nil
      rw [List.append_nil] at hpart
      exact IsGap.append (h.gap.of_beginsLike (by rwa [List.append_nil])) hpart
  | _ => cases hc

end Breaks

/-! ## The error that is reported -/

section Report

variable {file : Symbol} {src : String} {e : LexError}

theorem tokenize_eq_error_iff : tokenize file src = .error e ↔
    ∃ ps gap f, Breaks src.toList ps gap f ∧
      e = f.error ((Position.startOf file).advanceBy (ps.flatMap Piece.text ++ gap)) :=
  Cursor.tokens_eq_error_iff (.ofText file src) e

theorem LexFault.offset_stop_error (f : LexFault) (file : Symbol) (ps : List Piece) (gap : List Char) :
    (f.error ((Position.startOf file).advanceBy (ps.flatMap Piece.text ++ gap))).span.stop.offset =
      (ps.flatMap Piece.text ++ (gap ++ f.stem)).length := by
  rw [stop_error, ← Position.advanceBy_append, Position.offset_advanceBy, List.append_assoc]
  exact Int.zero_add _

theorem Cuts.exists_tokenize {cs last : List Char} {ps : List Piece} (h : Cuts cs ps last)
    (file : Symbol) : ∃ ts, tokenize file (String.ofList cs) = .ok ts := by
  rw [← String.toList_ofList (l := cs)] at h
  exact ⟨_, h.tokenize_eq file⟩

theorem LexError.closing?_of_unterminated {opened : Option Position}
    (h : e.report.sort = .unterminated opened) (hc : e.cause ≠ .openString true) :
    opened = some e.opened ∧ ∃ closing, e.cause.closing? = some closing := by
  obtain ⟨cause, p, span⟩ := e
  cases cause with
  | openComment | openEscape => cases h; exact ⟨rfl, _, rfl⟩
  | openString atLineEnd =>
    cases h
    cases atLineEnd with
    | true => exact absurd rfl hc
    | false => exact ⟨rfl, _, rfl⟩
  | _ => cases h

/-- Where a source has no tokens, the characters through the last one pointed at are to blame,
unless a number is out of range or the source ends too early: whatever goes on from them has the
same error. The characters before that one are not, where it is no character of any lexeme, breaks a
line inside a string or makes no escape: something that goes on from them has tokens. And a source
that ends in a comment or string has tokens with the characters that close it; the error points
behind its last character, and at the opening of that comment or string. -/
theorem tokenize_error_exact (h : tokenize file src = .error e) :
    ∃ n : Nat, e.span.stop.offset = n ∧
      (e.cause ≠ .numberOutOfRange → e.cause.closing? = none → ∀ src' : String,
        src.toList.take (n + 1) <+: src'.toList → tokenize file src' = .error e) ∧
      ((∃ c, e.cause = .unexpectedChar c) ∨ (∃ c, e.cause = .unknownEscape c) ∨
          e.cause = .openString true → ∃ src' : String, src.toList.take n <+: src'.toList ∧
        ∃ ts, tokenize file src' = .ok ts) ∧
      (∀ opened, e.report.sort = .unterminated opened → e.cause ≠ .openString true →
        n = src.length ∧
        (∃ before f, src.toList = before ++ f.whole ∧ FaultAt f ∧ f.cause = e.cause ∧
          (∃ ts, tokenize file (String.ofList before) = .ok ts) ∧
          opened = some ((Position.startOf file).advanceBy before)) ∧
        ∃ closing, e.cause.closing? = some closing ∧
          ∃ ts, tokenize file (src ++ closing) = .ok ts) := by
  obtain ⟨ps, gap, f, hb, rfl⟩ := tokenize_eq_error_iff.1 h
  refine ⟨_, f.offset_stop_error file ps gap, ?_, ?_, ?_⟩
  · intro hr hc src' hsrc'
    obtain ⟨-, hm⟩ := hb.fault.replace_after hr hc []
    rw [hb.take_stem_succ hm] at hsrc'
    obtain ⟨after, hafter⟩ := hsrc'
    refine tokenize_eq_error_iff.2 ⟨ps, gap, { f with after }, ?_, rfl⟩
    have hb' := hb.replace_after hr hc after
    rwa [← List.append_assoc gap, ← List.append_assoc, hafter] at hb'
  · intro hc
    obtain ⟨more, ps', last, hcut⟩ := hb.exists_cuts_stem hc
    refine ⟨_, ?_, hcut.exists_tokenize file⟩
    rw [hb.take_stem, String.toList_ofList]
    exact List.prefix_append _ _
  · intro opened hopened hline
    obtain ⟨rfl, closing, hc⟩ := LexError.closing?_of_unterminated hopened hline
    obtain ⟨hstem, ps', last, hcut⟩ := hb.exists_cuts_closing hc
    refine ⟨?_, ⟨_, f, ?_, hb.fault, rfl, hb.cuts_before.exists_tokenize file, rfl⟩, closing, hc, ?_⟩
    · rw [hstem, ← hb.text, String.length_toList]
    · rw [hb.text, List.append_assoc]
    · rw [← String.toList_append] at hcut
      obtain ⟨ts, hts⟩ := hcut.exists_tokenize file
      exact ⟨ts, by rwa [String.ofList_toList] at hts⟩

/-- The star at the end does not yet close the comment. -/
theorem tokenize_error_exact_star :
    let p (k : Nat) : Position := ⟨1, k + 1, k, ⟨0⟩⟩
    let e : LexError := ⟨.openComment, p 1, .point (p 4)⟩
    tokenize ⟨0⟩ "1/**" = .error e ∧ ∃ ts, tokenize ⟨0⟩ ("1/**" ++ "*/") = .ok ts := by
  intro p e
  have hone : Lexeme.ofText '1' ['/', '*', '*'] = .token (.literal (.int 1)) ['1'] ['/', '*', '*'] := by
    decide
  have hb : Breaks "1/**".toList [⟨[], .literal (.int 1), ['1']⟩] []
      ⟨.openComment, ['/', '*', '*'], [], []⟩ :=
    ⟨rfl, .cons .nil (.of_ofText hone (by decide)) .nil, .nil, .comment (by decide)⟩
  have h : tokenize ⟨0⟩ "1/**" = .error e := tokenize_eq_error_iff.2 ⟨_, _, _, hb, rfl⟩
  obtain ⟨n, -, -, -, hclosing⟩ := tokenize_error_exact h
  obtain ⟨-, -, closing, hc, hts⟩ := hclosing _ rfl nofun
  cases hc
  exact ⟨h, hts⟩

end Report

end ScriptSyntax
