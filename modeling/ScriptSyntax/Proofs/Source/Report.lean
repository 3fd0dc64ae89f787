/-
The lines of a report. What is put into words is quoted where it comes from the source, so a message
is one line and so is a hint; the short text of an error then has one line and one for its hint, and
its diagnostic two more, for the source and the carets (`report_lines`). One message is broken in two:
that of an unknown escape, when the character behind the backslash is the newline.
-/
import ScriptSyntax.Proofs.Number.Numeral
import ScriptSyntax.Proofs.Source.Snippet
import ScriptSyntax.Proofs.Text.Escaped
import ScriptSyntax.Proofs.Token.CutOff

namespace ScriptSyntax

/-! ## Texts of one line -/

def OneLine (s : String) : Prop := '\n' ∉ s.toList

instance (s : String) : Decidable (OneLine s) := inferInstanceAs (Decidable ('\n' ∉ s.toList))

theorem oneLine_append {s t : String} : OneLine (s ++ t) ↔ OneLine s ∧ OneLine t := by
  simp [OneLine]

theorem oneLine_of_isPrintable {s : String} (h : ∀ c ∈ s.toList, Text.isPrintable c = true) :
    OneLine s := fun hmem => absurd (h _ hmem) (by decide)

theorem oneLine_quoted (s : String) : OneLine (Text.quoted s) := by
  apply oneLine_of_isPrintable
  rw [Text.quoted, String.toList_ofList]
  exact fun _ => Text.Quoted.isPrintable_of_mem_encode

theorem oneLine_quotedChar (c : Char) : OneLine (Text.quotedChar c) := by
  apply oneLine_of_isPrintable
  rw [Text.quotedChar, String.toList_ofList]
  exact fun _ => Text.Quoted.isPrintable_of_mem_encode

theorem oneLine_int (n : Int) : OneLine (toString n) :=
  oneLine_of_isPrintable fun _ => isPrintable_of_mem_int

theorem Position.oneLine_text (p : Position) : OneLine p.text := by
  rw [text, oneLine_append, oneLine_append]
  exact ⟨⟨oneLine_int _, by decide⟩, oneLine_int _⟩

theorem TokenKind.oneLine_describe (k : TokenKind) : OneLine k.describe := by
  unfold describe
  split
  · decide
  · decide
  · decide
  · decide
  · decide
  · exact oneLine_quoted _

theorem lines_of_notMem {cs : List Char} (h : '\n' ∉ cs) : lines cs = [cs] := by
  induction cs with
  | nil => rfl
  | cons c cs ih =>
    obtain ⟨hc, hcs⟩ := not_or.1 (mt List.mem_cons.2 h)
    rw [lines, if_neg (Ne.symm hc), ih hcs]

theorem lines_append_newline {cs : List Char} (h : '\n' ∉ cs) (ds : List Char) :
    lines (cs ++ '\n' :: ds) = cs :: lines ds := by
  induction cs with
  | nil => rfl
  | cons c cs ih =>
    obtain ⟨hc, hcs⟩ := not_or.1 (mt List.mem_cons.2 h)
    rw [List.cons_append, lines, if_neg (Ne.symm hc), ih hcs]

/-- A text put together from lines has these lines. -/
theorem lines_intercalate {ls : List String} (hne : ls ≠ []) (h : ∀ l ∈ ls, OneLine l) :
    lines ("\n".intercalate ls).toList = ls.map String.toList := by
  induction ls with
  | nil => exact absurd rfl hne
  | cons l ls ih =>
    obtain ⟨hl, hls⟩ := List.forall_mem_cons.1 h
    cases ls with
    | nil =>
      rw [String.intercalate_singleton]
      exact lines_of_notMem hl
    | cons l' ls =>
      rw [String.intercalate_cons_cons, String.toList_append, String.toList_append, List.append_assoc]
      show lines (l.toList ++ '\n' :: ("\n".intercalate (l' :: ls)).toList) = _
      rw [lines_append_newline hl, ih (List.cons_ne_nil _ _) hls]
      rfl

/-! ## Words for the causes -/

theorem LexCause.oneLine_message_iff {c : LexCause} : OneLine c.message ↔ c ≠ .unknownEscape '\n' := by
  cases c with
  | unexpectedChar d =>
    refine iff_of_true ?_ nofun
    exact oneLine_append.2 ⟨by decide, oneLine_quotedChar d⟩
  | charAfterNumber d =>
    refine iff_of_true ?_ nofun
    exact oneLine_append.2 ⟨oneLine_append.2 ⟨by decide, oneLine_quotedChar d⟩, by decide⟩
  | unknownEscape e =>
    have hletter : OneLine (String.singleton e) ↔ e ≠ '\n' := by
      simp [OneLine, eq_comm]
    show OneLine ("unknown escape sequence '\\" ++ String.singleton e ++ "'") ↔ _
    rw [oneLine_append, oneLine_append, hletter]
    constructor
    · rintro ⟨⟨-, he⟩, -⟩ hc
      exact he (unknownEscape.inj hc)
    · intro hc
      exact ⟨⟨by decide, fun he => hc (congrArg unknownEscape he)⟩, by decide⟩
  | openString atLineEnd => exact iff_of_true (by decide +revert) nofun
  | numberOutOfRange | openEscape | openComment => exact iff_of_true (by decide) nofun

theorem SyntaxCause.oneLine_message (c : SyntaxCause) : OneLine c.message := by
  have found (s : String) (k : TokenKind) (hs : OneLine s) : OneLine (s ++ k.describe) :=
    oneLine_append.2 ⟨hs, k.oneLine_describe⟩
  cases c with
  | noExpression k => exact found _ k (by decide)
  | noClose k => exact found _ k (by decide)
  | noOperator k => exact found _ k (by decide)
  | unclosed opened =>
    show OneLine "unclosed '(' at end of input"
    decide
  | tooDeep | unexpectedEnd | closeForExpression | unmatchedClose => decide

/-- Hints have words. -/
theorem LexCause.hint_oneLine {c : LexCause} {hint : String} (h : c.hint? = some hint) :
    OneLine hint ∧ hint ≠ "" := by
  cases c with
  | openString atLineEnd =>
    cases atLineEnd with
    | true => cases h; decide
    | false => cases h; decide
  | openEscape => cases h
  | unexpectedChar | charAfterNumber | numberOutOfRange | unknownEscape | openComment =>
    cases h
    decide

theorem SyntaxCause.hint_oneLine {c : SyntaxCause} {hint : String} (h : c.hint? = some hint) :
    OneLine hint ∧ hint ≠ "" := by
  cases c with
  | unclosed opened =>
    cases h
    refine ⟨oneLine_append.2 ⟨by decide, opened.oneLine_text⟩, fun hnil => ?_⟩
    have := congrArg String.toList hnil
    rw [String.toList_append] at this
    cases this
  | tooDeep | closeForExpression | unmatchedClose => cases h; decide
  | unexpectedEnd | noExpression | noClose | noOperator => cases h

/-! ## Literals cut off behind a backslash -/

/-- A string literal is met, and its line ends with a backslash. -/
def EscapesNewline (cs : List Char) : Prop :=
  ∃ before raw rest, CutOff cs before raw ['\\'] ('\n' :: rest)

section Reports

variable {file : Symbol} {src : String} {e : ScriptError}

theorem escapesNewline_of_cause {f : LexError} (h : tokenize file src = .error f)
    (hf : f.cause = .unknownEscape '\n') : EscapesNewline src.toList := by
  obtain ⟨ps, gap, g, hb, rfl⟩ := tokenize_eq_error_iff.1 h
  have hfault := hb.fault
  -- of all faults only an escape in a string has this cause
  cases hfault with
  | @string raw value g hraw hg =>
    cases hg with
    | @escape e after he =>
      cases hf
      have hwhole : (LexFault.behind ('"' :: raw) ⟨.unknownEscape '\n', [], ['\\', '\n'], after⟩).whole =
          '"' :: (raw ++ ['\\'] ++ '\n' :: after) := by
        simp [LexFault.whole, LexFault.behind]
      have htext := hb.text
      have hstands := hb.stands
      have hgap := hb.gap
      rw [hwhole] at htext hstands hgap
      rw [← List.append_assoc] at htext
      exact ⟨_, raw, after, htext, ⟨ps, gap, rfl, hstands, hgap⟩, ⟨value, hraw⟩, .inr rfl, by simp⟩
    | _ => cases hf
  | _ => cases hf

theorem EscapesNewline.exists_tokenize (h : EscapesNewline src.toList) (file : Symbol) :
    ∃ f, tokenize file src = .error f ∧ f.cause = .unknownEscape '\n' := by
  obtain ⟨before, raw, rest, hcut⟩ := h
  exact ⟨_, hcut.tokenize_eq (.escape (by decide)) rfl file, rfl⟩

/-! ## Reports -/

/-- The error of a source, whether its tokens are asked for or its tree. -/
def Fails (file : Symbol) (src : String) (e : ScriptError) : Prop :=
  (∃ f, tokenize file src = .error f ∧ e = f.report) ∨
    ∃ f, parseExpression file src = .error f ∧ e = f.report

namespace Fails

theorem inSource (h : Fails file src e) : e.InSource file src := by
  rcases h with ⟨f, hf, rfl⟩ | ⟨f, hf, rfl⟩
  · exact inSource_of_tokenize_error hf
  · exact inSource_of_parseExpression_error hf

/-- It is the error of the lexer, or the source has tokens. -/
theorem cases (h : Fails file src e) : (∃ f, tokenize file src = .error f ∧ e = f.report) ∨
    ∃ ts, tokenize file src = .ok ts ∧ ∃ f : SyntaxError, e = f.report := by
  rcases h with h | ⟨f, hf, rfl⟩
  · exact .inl h
  · rw [parseExpression] at hf
    cases hts : tokenize file src with
    | error g =>
      rw [hts] at hf
      cases hf
      exact .inl ⟨g, rfl, rfl⟩
    | ok ts =>
      rw [hts] at hf
      cases f with
      | lexical g => cases htree : parseTokens ts <;> simp [htree, Except.mapError] at hf
      | syntactic g => exact .inr ⟨ts, rfl, g, rfl⟩

theorem hint_oneLine (h : Fails file src e) {hint : String} (hh : e.hint = some hint) :
    OneLine hint ∧ hint ≠ "" := by
  rcases h.cases with ⟨f, -, rfl⟩ | ⟨ts, -, f, rfl⟩
  · exact LexCause.hint_oneLine hh
  · exact SyntaxCause.hint_oneLine hh

theorem advice?_eq (h : Fails file src e) : e.advice? = e.hint := by
  rw [ScriptError.advice?]
  cases hh : e.hint with
  | none => rfl
  | some hint => simp [(h.hint_oneLine hh).2]

theorem message_oneLine (h : Fails file src e) (hn : ¬ EscapesNewline src.toList) :
    OneLine e.message := by
  rcases h.cases with ⟨f, hf, rfl⟩ | ⟨ts, -, f, rfl⟩
  · exact LexCause.oneLine_message_iff.2 fun hc => hn (escapesNewline_of_cause hf hc)
  · exact f.cause.oneLine_message

theorem message_eq (h : Fails file src e) (hn : EscapesNewline src.toList) :
    e.message = "unknown escape sequence '\\\n'" := by
  obtain ⟨g, hg, hc⟩ := hn.exists_tokenize file
  rcases h.cases with ⟨f, hf, rfl⟩ | ⟨ts, hts, -⟩
  · cases hf.symm.trans hg
    rw [LexError.report, hc]
    rfl
  · rw [hg] at hts
    cases hts

/-- The line on which a hint stands, if there is one. -/
def hintLine (e : ScriptError) : List String := e.hint.toList.map ("hint: " ++ ·)

theorem oneLine_of_mem_hintLine (h : Fails file src e) {l : String} (hl : l ∈ hintLine e) :
    OneLine l := by
  obtain ⟨hint, hh, rfl⟩ := List.mem_map.1 hl
  exact oneLine_append.2 ⟨by decide, (h.hint_oneLine (Option.mem_toList.1 hh)).1⟩

theorem lines_text (h : Fails file src e) (hm : OneLine e.message) : lines e.text.toList =
    ((e.span.start.text ++ ": " ++ e.message) :: hintLine e).map String.toList := by
  have htext : e.text = "\n".intercalate ((e.span.start.text ++ ": " ++ e.message) :: hintLine e) := by
    rw [ScriptError.text, h.advice?_eq, hintLine, ← String.toList_inj]
    cases e.hint with
    | none => simp
    | some hint => simp [String.intercalate_cons_cons]
  rw [htext, lines_intercalate (List.cons_ne_nil _ _)]
  intro l hl
  rcases List.mem_cons.1 hl with rfl | hl
  · exact oneLine_append.2 ⟨oneLine_append.2 ⟨Position.oneLine_text _, by decide⟩, hm⟩
  · exact h.oneLine_of_mem_hintLine hl

/-- The snippet is the line of the source and the line of the carets. -/
theorem exists_snippet_eq (h : Fails file src e) : ∃ shown carets,
    e.span.snippet src = [shown, carets] ∧ OneLine shown ∧ OneLine carets := by
  obtain ⟨i, j, before, line, after, -, -, -, hline, -, -, hsnippet⟩ :=
    Span.snippet_eq h.inSource.span h.inSource.oneRow
  obtain ⟨⟨n, hn⟩, -⟩ := exists_trimReturns line
  refine ⟨_, _, hsnippet, ?_, ?_⟩
  · have hshown : '\n' ∉ trimReturns line := fun hmem =>
      hline.newline_notMem (hn ▸ List.mem_append_left _ hmem)
    simpa [OneLine] using hshown
  · simp [OneLine, List.mem_replicate]

theorem lines_diagnostic (h : Fails file src e) {name : String} (hname : OneLine name)
    (hm : OneLine e.message) : ∃ shown carets, lines (e.diagnostic name (some src)).toList =
      ((e.location name ++ ": " ++ e.message) :: shown :: carets :: hintLine e).map String.toList := by
  obtain ⟨shown, carets, hsnippet, hshown, hcarets⟩ := h.exists_snippet_eq
  have hheader : OneLine (e.location name ++ ": " ++ e.message) := by
    rw [ScriptError.location]
    simp only [oneLine_append]
    exact ⟨⟨⟨⟨hname, by decide⟩, Position.oneLine_text _⟩, by decide⟩, hm⟩
  refine ⟨shown, carets, ?_⟩
  rw [ScriptError.diagnostic, ScriptError.diagnosticLines, Option.toList_some, List.flatMap_singleton,
    hsnippet, h.advice?_eq]
  refine lines_intercalate (List.cons_ne_nil _ _) ?_
  intro l hl
  simp only [List.mem_cons, List.cons_append, List.nil_append] at hl
  rcases hl with rfl | rfl | rfl | hl
  · exact hheader
  · exact hshown
  · exact hcarets
  · exact h.oneLine_of_mem_hintLine hl

end Fails

/-- Unless the source has a string literal whose line ends with a backslash, the message of its error
is one line, and so is the hint. The short text is then one line, with the position, and one for the
hint, and the diagnostic one line with the place, two of the snippet and one for the hint. In such a
source, the message is that of an unknown escape and is broken in two. -/
theorem report_lines {name : String} {names : Interner} (hname : names.resolve? file = some name)
    (hline : OneLine name) (he : Fails file src e) :
    let hints := e.hint.toList.map fun hint => ("hint: " ++ hint).toList
    (∀ hint, e.hint = some hint → OneLine hint) ∧
    (EscapesNewline src.toList → e.message = "unknown escape sequence '\\\n'") ∧
    (¬ EscapesNewline src.toList → OneLine e.message ∧
      lines e.text.toList = (e.span.start.text ++ ": " ++ e.message).toList :: hints ∧
      ∃ text shown carets, e.diagnosticIn names (some src) = .ok text ∧
        lines text.toList = (name ++ ":" ++ toString e.span.start.row ++ ":" ++
          toString e.span.start.col ++ ": " ++ e.message).toList :: shown :: carets :: hints) := by
  intro hints
  have hhints : hints = (Fails.hintLine e).map String.toList := by
    rw [Fails.hintLine, List.map_map]
    rfl
  refine ⟨fun hint hh => (he.hint_oneLine hh).1, he.message_eq, fun hn => ?_⟩
  have hm := he.message_oneLine hn
  obtain ⟨shown, carets, hdiagnostic⟩ := he.lines_diagnostic hline hm
  refine ⟨hm, ?_, e.diagnostic name (some src), shown.toList, carets.toList, ?_, ?_⟩
  · rw [he.lines_text hm, List.map_cons, hhints]
  · rw [ScriptError.diagnosticIn, Span.file, he.inSource.span.start.file_eq, Interner.resolve, hname]
    rfl
  · rw [hdiagnostic, hhints]
    simp [ScriptError.location, Position.text, String.append_assoc]

/-- A return is no newline: the message that holds it is one line. -/
theorem report_lines_return :
    let names := (Interner.empty.intern "m").2
    names.resolve? ⟨0⟩ = some "m" ∧ OneLine "m" ∧
      ∃ e, tokenize ⟨0⟩ "a\n\"\\\r\n" = .error e ∧ ∃ text shown carets,
        e.report.diagnosticIn names (some "a\n\"\\\r\n") = .ok text ∧ lines text.toList =
          ["m:2:2: unknown escape sequence '\\\r'".toList, shown, carets,
            "hint: valid escapes: \\n \\t \\r \\0 \\\\ \\\"".toList] := by
  intro names
  have ha : Lexeme.ofText 'a' ['\n', '"', '\\', '\r', '\n'] =
      .token .name ['a'] ['\n', '"', '\\', '\r', '\n'] := by decide
  have hb : Breaks "a\n\"\\\r\n".toList [⟨[], .name, ['a']⟩] ['\n']
      ⟨.unknownEscape '\r', ['"'], ['\\', '\r'], ['\n']⟩ :=
    ⟨rfl, .cons .nil (.of_ofText ha (by decide)) .nil, .cons (.blank (by decide)) .nil,
      .string .nil (.escape (by decide))⟩
  have h := (@tokenize_eq_error_iff ⟨0⟩ _ _).2 ⟨_, _, _, hb, rfl⟩
  have hescapes : ¬ EscapesNewline "a\n\"\\\r\n".toList := by
    intro hn
    obtain ⟨f, hf, hc⟩ := hn.exists_tokenize ⟨0⟩
    cases hf.symm.trans h
    cases hc
  have hname : names.resolve? ⟨0⟩ = some "m" := by decide
  have hm : OneLine "m" := by decide
  obtain ⟨-, -, hlines⟩ := report_lines hname hm (.inl ⟨_, h, rfl⟩)
  obtain ⟨-, -, text, shown, carets, htext, hdiagnostic⟩ := hlines hescapes
  exact ⟨hname, hm, _, h, text, shown, carets, htext, hdiagnostic⟩

/-- Where the line ends with the backslash, the message is broken in two, and with it the texts. -/
theorem not_oneLine_before_newline :
    let names := (Interner.empty.intern "m").2
    OneLine "m" ∧ names.resolve? ⟨0⟩ = some "m" ∧ ∃ e, tokenize ⟨0⟩ "\"a\\\n" = .error e ∧
      ¬ OneLine e.report.message ∧ (lines e.report.text.toList).length = 3 ∧
      ∃ text, e.report.diagnosticIn names (some "\"a\\\n") = .ok text ∧
        (lines text.toList).length = 5 := by
  intro names
  have h : CutOff "\"a\\\n".toList [] ['a'] ['\\'] ['\n'] :=
    ⟨rfl, ⟨[], [], rfl, .nil, .nil⟩, ⟨['a'], .char (by decide) (by decide) (by decide) .nil⟩, .inr rfl,
      by simp⟩
  refine ⟨by decide, by decide, _, h.tokenize_eq (.escape (by decide)) rfl ⟨0⟩, by decide, by decide, ?_⟩
  exact ⟨_, rfl, by decide⟩

end Reports

end ScriptSyntax
