/-
Lines in front of a text. Behind lines that have tokens a text is read as it is read alone: its
tokens follow theirs and its error is the same, each as many rows and characters further on as the
lines have, in the same columns (`tokenize_lines`). No comment, string or mark reaches over the end
of a line unless a block comment that is closed does: a gap that ends with its line is a gap in front
of anything, and no lexeme ends with one.
-/
import ScriptSyntax.Proofs.Source.Moved

namespace ScriptSyntax

/-! ## Whole lines -/

/-- The text has no character behind its last newline. -/
def EndsLine (cs : List Char) : Prop := cs = [] ∨ cs.getLast? = some '\n'

namespace Position

/-- The place as far behind a text of whole lines as it was behind the start of the file. -/
def below (lines : List Char) (p : Position) : Position :=
  { p with row := p.row + lines.count '\n', offset := p.offset + lines.length }

theorem below_advance (lines : List Char) (p : Position) (c : Char) :
    (p.advance c).below lines = (p.below lines).advance c := by
  unfold advance below
  split
  · simp only [mk.injEq, and_true, true_and]
    omega
  · simp only [mk.injEq, and_true, true_and]
    omega

/-- Behind whole lines a row begins. -/
theorem advanceBy_newline (p : Position) (cs : List Char) :
    p.advanceBy (cs ++ ['\n']) = { p.below (cs ++ ['\n']) with col := 1 } := by
  induction cs generalizing p with
  | nil => simp [advance, below]
  | cons c cs ih =>
    rw [List.cons_append, advanceBy_cons, ih]
    unfold advance below
    split <;> rename_i hc
    · simp only [hc, List.count_cons, List.length_cons, beq_self_eq_true, if_true, mk.injEq,
        and_true, true_and]
      omega
    · simp only [hc, List.count_cons, List.length_cons, beq_iff_eq, if_false, mk.injEq, and_true,
        true_and]
      omega

theorem advanceBy_startOf {lines : List Char} (h : EndsLine lines) (file : Symbol) :
    (startOf file).advanceBy lines = (startOf file).below lines := by
  rcases h with rfl | h
  · rfl
  · obtain ⟨cs, rfl⟩ := List.getLast?_eq_some_iff.1 h
    exact advanceBy_newline _ cs

end Position

theorem EndsLine.of_append {cs ds : List Char} (h : EndsLine (cs ++ ds)) (hd : ds ≠ []) :
    ds.getLast? = some '\n' := by
  rcases h with h | h
  · exact absurd (List.append_eq_nil_iff.1 h).2 hd
  · rwa [List.getLast?_append_of_ne_nil _ hd] at h

/-- What stands in whole lines stands there whatever follows them. -/
theorem Cuts.stands_lines {cs last : List Char} {ps : List Piece} (h : Cuts cs ps last)
    (hcs : EndsLine cs) (rest : List Char) : Stands ps (last ++ rest) ∧ IsGap last rest := by
  obtain ⟨rfl, hs, hlast⟩ := cuts_iff_stands.1 h
  by_cases hnil : last = []
  · subst hnil
    rcases List.eq_nil_or_concat ps with rfl | ⟨qs, piece, rfl⟩
    · exact ⟨.nil, .nil⟩
    -- else the lines would end with a lexeme, and it with the newline
    have hspell := h.spelling piece (by simp)
    have hline : EndsLine ((qs.flatMap Piece.text ++ piece.gap) ++ piece.lexeme) := by
      simpa [Piece.text] using hcs
    exact absurd (List.mem_of_getLast? (hline.of_append hspell.ne_nil)) hspell.newline_notMem
  · refine ⟨hs.of_beginsLike ?_, hlast.of_newline (hcs.of_append hnil) rest⟩
    have hlike := BeginsLike.of_ne_nil hnil rest []
    rwa [List.append_nil] at hlike

/-! ## The text behind them -/

theorem Cursor.tokens_below (lines : List Char) (p : Position) (cs : List Char) :
    tokens ⟨p.below lines, cs⟩ = ((tokens ⟨p, cs⟩).map (TokenList.moved (Position.below lines))).mapError
      (LexError.moved (Position.below lines)) :=
  tokens_moved (Position.below_advance lines) ⟨p, cs⟩

/-- Behind whole lines that have tokens, a source has the tokens or the error that it has alone,
further down: by their newlines in rows, by their characters in offsets and not at all in
columns. -/
theorem tokenize_lines {file : Symbol} {p : String} {ts : TokenList}
    (hp : p = "" ∨ p.toList.getLast? = some '\n') (h : tokenize file p = .ok ts) (q : String) :
    let down : Position → Position := fun r =>
      ⟨r.row + p.toList.count '\n', r.col, r.offset + p.length, r.file⟩
    (∀ us, tokenize file q = .ok us → ∃ vs, tokenize file (p ++ q) = .ok vs ∧
      vs.toList = ts.front ++ us.toList.map (Token.moved down)) ∧
    (∀ e, tokenize file q = .error e → ∃ e', tokenize file (p ++ q) = .error e' ∧
      e'.report = { e.report with
        sort := e.report.sort.moved down, span := e.report.span.moved down }) := by
  intro down
  have hdown : down = Position.below p.toList := by
    funext r
    rw [Position.below, String.length_toList]
  have hlines : EndsLine p.toList := hp.imp_left fun h => by rw [h]; rfl
  obtain ⟨ps, last, hcut, rfl⟩ := tokenize_eq_ok_iff.1 h
  obtain ⟨hstands, hgap⟩ := hcut.stands_lines hlines q.toList
  -- the lexemes and the gap of the lines are read first, then the text from below them
  have hread : tokenize file (p ++ q) = (TokenList.prepend (placed (.startOf file) ps)) <$>
      Cursor.tokens ⟨(Position.startOf file).below p.toList, q.toList⟩ := by
    have htext := hcut.text_eq
    rw [← Position.advanceBy_startOf hlines, htext, Position.advanceBy_append,
      ← Cursor.tokens_gap hgap, ← hstands.tokens, ← List.append_assoc, ← htext, ← String.toList_append]
    rfl
  rw [Cursor.tokens_below] at hread
  rw [hdown]
  constructor
  · intro us hus
    change Cursor.tokens ⟨.startOf file, q.toList⟩ = _ at hus
    rw [hus] at hread
    exact ⟨_, hread, by simp [TokenList.prepend, TokenList.moved, TokenList.toList]⟩
  · intro e he
    change Cursor.tokens ⟨.startOf file, q.toList⟩ = _ at he
    rw [he] at hread
    exact ⟨_, hread, LexError.report_moved _ e⟩

/-- The quote in the comment opens no string, and the one below it is reported where it stands. -/
theorem tokenize_lines_open_string :
    let p (k : Nat) : Position := ⟨1, k + 1, k, ⟨0⟩⟩
    tokenize ⟨0⟩ "a//\"\n" = .ok ⟨[⟨.name, "a", .point (p 0)⟩], .eof ⟨2, 1, 5, ⟨0⟩⟩, rfl⟩ ∧
      tokenize ⟨0⟩ "\"b" = .error ⟨.openString false, p 0, .point (p 2)⟩ ∧
      ∃ e, tokenize ⟨0⟩ ("a//\"\n" ++ "\"b") = .error e ∧
        e.report.sort = .unterminated (some ⟨2, 1, 5, ⟨0⟩⟩) ∧
        e.report.span = .point ⟨2, 3, 7, ⟨0⟩⟩ := by
  intro p
  have ha : Lexeme.ofText 'a' ['/', '/', '"', '\n'] = .token .name ['a'] ['/', '/', '"', '\n'] := by
    decide
  have hcomment : IsGap ['/', '/', '"', '\n'] [] :=
    .cons (@GapPart.line ['"'] ['\n'] (by decide) (endsRun_cons.2 rfl)) (.cons (.blank (by decide)) .nil)
  have hcut : Cuts "a//\"\n".toList [⟨[], .name, ['a']⟩] ['/', '/', '"', '\n'] :=
    .piece .nil (.of_ofText ha (by decide)) (.last hcomment)
  have hb : Breaks "\"b".toList [] [] ⟨.openString false, ['"', 'b'], [], []⟩ :=
    ⟨rfl, .nil, .nil, @FaultAt.string ['b'] ['b'] _ (.char (by decide) (by decide) (by decide) .nil)
      .textEnd⟩
  have hlines := hcut.tokenize_eq ⟨0⟩
  have hopen : tokenize ⟨0⟩ "\"b" = .error ⟨.openString false, p 0, .point (p 2)⟩ :=
    tokenize_eq_error_iff.2 ⟨_, _, _, hb, rfl⟩
  obtain ⟨-, herror⟩ := tokenize_lines (.inr rfl) hlines "\"b"
  obtain ⟨e, he, hreport⟩ := herror _ hopen
  exact ⟨hlines, hopen, e, he, by rw [hreport]; rfl, by rw [hreport]; rfl⟩

end ScriptSyntax
