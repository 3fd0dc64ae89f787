/-
The places that are reported. Every position in a token, in a tree or in an error has the row and
the column of the text before it, an offset within the source and the file of the source
(`Position.InSource`); no span runs backwards, and those of tokens and errors stay in their row
(`positions_inSource`). A token has the place of its piece of the cut and a lexical error that of
the fault behind the pieces; nodes and syntax errors take their places from tokens.
-/
import ScriptSyntax.Proofs.Expr.Earliest
import ScriptSyntax.Proofs.Expr.Source
import ScriptSyntax.Proofs.Token.Breaks

namespace ScriptSyntax

/-! ## Positions and spans of a source -/

namespace Position

theorem file_advanceBy (p : Position) (cs : List Char) : (p.advanceBy cs).file = p.file := by
  induction cs generalizing p with
  | nil => rfl
  | cons c cs ih =>
    rw [advanceBy_cons, ih, advance]
    split <;> rfl

theorem row_advanceBy {cs : List Char} (h : '\n' ∉ cs) (p : Position) :
    (p.advanceBy cs).row = p.row := by
  induction cs generalizing p with
  | nil => rfl
  | cons c cs ih =>
    obtain ⟨hc, hcs⟩ := not_or.1 (mt List.mem_cons.2 h)
    rw [advanceBy_cons, ih hcs, advance, if_neg (Ne.symm hc)]

/-- A place in the source, with the row and the column of the text before it. -/
structure InSource (file : Symbol) (src : String) (p : Position) : Prop where
  file_eq : p.file = file
  offset_nonneg : 0 ≤ p.offset
  offset_le : p.offset ≤ src.length
  advanced : p = (startOf file).advanceBy (src.toList.take p.offset.toNat)

theorem inSource_of_isPrefix {file : Symbol} {src : String} {cs : List Char} (h : cs <+: src.toList) :
    ((startOf file).advanceBy cs).InSource file src := by
  have hoffset : ((startOf file).advanceBy cs).offset = cs.length := by
    rw [offset_advanceBy]
    exact Int.zero_add _
  refine ⟨file_advanceBy _ _, ?_, ?_, ?_⟩
  · rw [hoffset]
    exact Int.natCast_nonneg _
  · rw [hoffset, ← String.length_toList]
    exact Int.ofNat_le.2 h.length_le
  · rw [hoffset, Int.toNat_natCast, ← List.prefix_iff_eq_take.1 h]

end Position

namespace Span

variable {file : Symbol} {src : String}

structure InSource (file : Symbol) (src : String) (s : Span) : Prop where
  start : s.start.InSource file src
  stop : s.stop.InSource file src
  ordered : s.start.offset ≤ s.stop.offset

def OneRow (s : Span) : Prop := s.start.row = s.stop.row

theorem inSource_ofText {before cs after : List Char} (h : src.toList = before ++ cs ++ after) :
    (ofText ((Position.startOf file).advanceBy before) cs).InSource file src := by
  have hcs : before ++ cs.dropLast <+: src.toList := by
    rw [h]
    exact ((List.prefix_append_right_inj before).2 cs.dropLast_prefix).trans (List.prefix_append _ _)
  refine ⟨Position.inSource_of_isPrefix ((List.prefix_append _ _).trans hcs), ?_, ?_⟩
  · rw [ofText, ← Position.advanceBy_append]
    exact Position.inSource_of_isPrefix hcs
  · show _ ≤ (Position.advanceBy _ cs.dropLast).offset
    rw [Position.offset_advanceBy]
    exact Int.le_add_of_nonneg_right (Int.natCast_nonneg _)

theorem oneRow_ofText {cs : List Char} (h : '\n' ∉ cs.dropLast) (p : Position) :
    (ofText p cs).OneRow := (Position.row_advanceBy h p).symm

end Span

structure ScriptError.InSource (file : Symbol) (src : String) (e : ScriptError) : Prop where
  span : e.span.InSource file src
  oneRow : e.span.OneRow
  opened : ∀ p, e.sort = .unterminated (some p) → p.InSource file src

/-! ## Tokens and lexical errors -/

section Tokens

variable {file : Symbol} {src : String}

theorem inSource_of_tokenize {ts : TokenList} (h : tokenize file src = .ok ts) {t : Token}
    (ht : t ∈ ts.toList) : t.span.InSource file src ∧ t.span.OneRow := by
  obtain ⟨ps, last, hcut, rfl⟩ := tokenize_eq_ok_iff.1 h
  rcases List.mem_append.1 ht with ht | ht
  · obtain ⟨piece, hpiece, before, after, htext, rfl⟩ := exists_of_mem_placed ht
    have htext' : src.toList = before ++ piece.lexeme ++ (after ++ last) := by
      rw [hcut.text_eq, htext, List.append_assoc _ after]
    refine ⟨Span.inSource_ofText htext', Span.oneRow_ofText ?_ _⟩
    exact fun hn => (hcut.spelling piece hpiece).newline_notMem (List.IsPrefix.mem hn (List.dropLast_prefix _))
  · rw [List.mem_singleton.1 ht]
    have hp := @Position.inSource_of_isPrefix file _ _ (List.prefix_refl src.toList)
    exact ⟨⟨hp, hp, Int.le_refl _⟩, rfl⟩

theorem FaultAt.newline_notMem {f : LexFault} (h : FaultAt f) : '\n' ∉ f.marked.dropLast := by
  cases h with
  | unexpectedChar | charAfterNumber | comment => exact List.not_mem_nil
  | numberOutOfRange hs => exact fun hn => hs.newline_notMem (List.IsPrefix.mem hn (List.dropLast_prefix _))
  | string _ hg =>
    cases hg with
    | escape => exact List.not_mem_cons_of_ne_of_not_mem (by decide) List.not_mem_nil
    | _ => exact List.not_mem_nil

theorem inSource_of_tokenize_error {e : LexError} (h : tokenize file src = .error e) :
    e.report.InSource file src := by
  obtain ⟨ps, gap, f, hb, rfl⟩ := tokenize_eq_error_iff.1 h
  have htext : src.toList = ps.flatMap Piece.text ++ gap ++ f.before ++ f.marked ++ f.after := by
    rw [hb.text, LexFault.whole]
    simp
  refine ⟨?_, Span.oneRow_ofText hb.fault.newline_notMem _, ?_⟩
  · show (Span.ofText (Position.advanceBy _ f.before) f.marked).InSource file src
    rw [← Position.advanceBy_append]
    exact Span.inSource_ofText htext
  · intro p hp
    have hopened : p = (Position.startOf file).advanceBy (ps.flatMap Piece.text ++ gap) := by
      simp only [LexError.report] at hp
      split at hp
      · exact (Option.some.inj (ErrorSort.unterminated.inj hp)).symm
      · cases hp
    rw [hopened]
    exact Position.inSource_of_isPrefix ⟨f.whole, by rw [hb.text, List.append_assoc]⟩

end Tokens

/-! ## Trees and syntax errors -/

section Trees

variable {file : Symbol} {src : String}

theorem inSource_of_parseExpression {e n : Expr Span} (h : parseExpression file src = .ok e)
    (hn : n ∈ e.preorder) : n.note.InSource file src := by
  obtain ⟨ps, last, hcut, hs, -, -⟩ := parseExpression_eq_ok_iff.1 h
  obtain ⟨before, own, after, hts, hown⟩ := hs.of_mem_preorder hn
  have hmem : ∀ t ∈ own, t.span.InSource file src := fun t ht =>
    (inSource_of_tokenize (hcut.tokenize_eq file)
      (List.mem_append_left _ (hts ▸ List.mem_append_left _ (List.mem_append_right _ ht)))).1
  obtain ⟨front, piece, ms, -, hgap, -, hcut_own, rfl⟩ := hcut.exists_slice hts hown.ne_nil
  have hnote := hown.note_eq hown.ne_nil
  have hhead := List.head?_eq_some_head hown.ne_nil
  have hlast := List.getLast?_eq_some_getLast hown.ne_nil
  generalize List.head _ hown.ne_nil = first at hnote hhead
  generalize List.getLast _ hown.ne_nil = final at hnote hlast
  -- the first token starts where the text of the node does, and the last one stops at its end
  obtain ⟨hstart, -⟩ := start_head_placed hgap hhead
  obtain ⟨hstop, -⟩ := stop_getLast_placed hcut_own hlast
  have hlen : 0 < ((piece :: ms).flatMap Piece.text).length := by
    have := List.length_pos_iff.2 (hcut_own.spelling piece (List.mem_cons_self ..)).ne_nil
    simp [Piece.text]
    omega
  rw [hnote]
  refine ⟨(hmem _ (List.mem_of_head? hhead)).start, (hmem _ (List.mem_of_getLast? hlast)).stop, ?_⟩
  show first.span.start.offset ≤ final.span.stop.offset
  rw [hstart]
  omega

theorem inSource_of_parseExpression_error {e : SourceError}
    (h : parseExpression file src = .error e) : e.report.InSource file src := by
  cases hts : tokenize file src with
  | error f =>
    rw [parseExpression, hts] at h
    cases h
    exact inSource_of_tokenize_error hts
  | ok ts =>
    rw [parseExpression_eq_mapError hts] at h
    cases hf : parseTokens ts with
    | ok x =>
      rw [hf] at h
      cases h
    | error f =>
      rw [hf] at h
      cases h
      obtain ⟨us, rest, hfront, -, hstuck⟩ := exists_stuck (Prod.ext hf rfl)
      have hnext : rest.headD ts.last ∈ ts.toList := by
        rw [TokenList.toList, hfront]
        cases rest <;> simp
      obtain ⟨hspan, hrow⟩ := inSource_of_tokenize hts hnext
      rw [← hstuck.pointsAt.span] at hspan hrow
      refine ⟨hspan, hrow, fun p hp => ?_⟩
      obtain ⟨p', hcause, hp'⟩ := SyntaxError.sort_eq_unterminated_iff.1 hp
      cases hp'
      obtain ⟨o, ho, rfl⟩ := hstuck.unclosed _ hcause
      have hmem : o ∈ ts.toList := by
        rw [TokenList.toList, hfront]
        exact List.mem_append_left _ (List.mem_append_left _
          (mem_of_mem_openParens (List.mem_of_head? ho)))
      exact (inSource_of_tokenize hts hmem).1.start

end Trees

/-- Every position in the tokens, the tree or the error of a source is a place in it. -/
theorem positions_inSource (file : Symbol) (src : String) :
    (∀ ts, tokenize file src = .ok ts →
      ∀ t ∈ ts.toList, t.span.InSource file src ∧ t.span.OneRow) ∧
    (∀ e, tokenize file src = .error e → e.report.InSource file src) ∧
    (∀ e, parseExpression file src = .ok e → ∀ n ∈ e.preorder, n.note.InSource file src) ∧
    ∀ e, parseExpression file src = .error e → e.report.InSource file src :=
  ⟨fun _ h _ => inSource_of_tokenize h, fun _ => inSource_of_tokenize_error,
    fun _ h _ => inSource_of_parseExpression h, fun _ => inSource_of_parseExpression_error⟩

/-- A string that is open at the end of the second row. -/
theorem positions_inSource_open_string :
    let p : Position := ⟨2, 1, 2, ⟨0⟩⟩
    let q : Position := ⟨2, 3, 4, ⟨0⟩⟩
    tokenize ⟨0⟩ "a\n\"b" = .error ⟨.openString false, p, .point q⟩ ∧
      p.InSource ⟨0⟩ "a\n\"b" ∧ q.InSource ⟨0⟩ "a\n\"b" := by
  intro p q
  have ha : Lexeme.ofText 'a' ['\n', '"', 'b'] = .token .name ['a'] ['\n', '"', 'b'] := by decide
  have hb : Breaks "a\n\"b".toList [⟨[], .name, ['a']⟩] ['\n']
      ⟨.openString false, ['"', 'b'], [], []⟩ :=
    ⟨rfl, .cons .nil (.of_ofText ha (by decide)) .nil, .cons (.blank (by decide)) .nil,
      @FaultAt.string ['b'] ['b'] _ (.char (by decide) (by decide) (by decide) .nil) .textEnd⟩
  have h : tokenize ⟨0⟩ "a\n\"b" = .error ⟨.openString false, p, .point q⟩ :=
    tokenize_eq_error_iff.2 ⟨_, _, _, hb, rfl⟩
  obtain ⟨-, herror, -, -⟩ := positions_inSource ⟨0⟩ "a\n\"b"
  exact ⟨h, (herror _ h).opened _ rfl, (herror _ h).span.stop⟩

end ScriptSyntax
