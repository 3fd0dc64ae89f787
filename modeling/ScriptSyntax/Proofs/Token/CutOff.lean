/-
String literals that their line cuts off (`CutOff`): behind an opening quote that stands where a token
is due come characters and escapes, at the end perhaps a backslash alone, and then the line ends, or the
source does, before a quote closes the literal. Such a literal is reported as unterminated, opened at
its quote, where the line or the source ends, but for one case: a backslash before a newline is taken
for an escape that does not exist (`CutOff.tokenize_eq_error`).
-/
import ScriptSyntax.Proofs.Token.Breaks

namespace ScriptSyntax

/-- A source in which a string literal is met and cut off: `before` stands before its quote, `raw` and
`tail` between the quote and the end of the line, and `rest` from there on. -/
structure CutOff (cs before raw tail rest : List Char) : Prop where
  text : cs = before ++ '"' :: (raw ++ tail ++ rest)
  /-- Lexemes and a gap come before the quote, which no comment swallows. -/
  met : ∃ ps gap, before = ps.flatMap Piece.text ++ gap ∧ Stands ps (gap ++ '"' :: (raw ++ tail ++ rest)) ∧
    IsGap gap ('"' :: (raw ++ tail ++ rest))
  body : ∃ value, StringBody raw value
  tail : tail = [] ∨ tail = ['\\']
  lineEnd : ∀ c, rest.head? = some c → c = '\n'

namespace CutOff

variable {cs before raw tail rest : List Char}

/-- What breaks the literal off makes the text break off as a whole. -/
theorem exists_breaks {f : LexFault} (h : CutOff cs before raw tail rest) (hf : BreaksString f)
    (hwhole : f.whole = tail ++ rest) : ∃ ps gap, before = ps.flatMap Piece.text ++ gap ∧
      Breaks cs ps gap (f.behind ('"' :: raw)) := by
  obtain ⟨ps, gap, hbefore, hs, hg⟩ := h.met
  obtain ⟨value, hraw⟩ := h.body
  have htext : (f.behind ('"' :: raw)).whole = '"' :: (raw ++ tail ++ rest) := by
    rw [LexFault.whole_behind, hwhole, List.cons_append, List.append_assoc]
  refine ⟨ps, gap, hbefore, ?_, ?_, ?_, .string hraw hf⟩
  · rw [h.text, htext, hbefore, List.append_assoc]
  · rwa [htext]
  · rwa [htext]

theorem tokenize_eq {src : String} {f : LexFault} (h : CutOff src.toList before raw tail rest)
    (hf : BreaksString f) (hwhole : f.whole = tail ++ rest) (file : Symbol) :
    tokenize file src =
      .error ((f.behind ('"' :: raw)).error ((Position.startOf file).advanceBy before)) := by
  obtain ⟨ps, gap, rfl, hb⟩ := h.exists_breaks hf hwhole
  exact tokenize_eq_error_iff.2 ⟨ps, gap, _, hb, rfl⟩

/-- A string literal that its line cuts off is reported as unterminated, opened at its quote, at the
one position where the line or the source ends, unless a backslash alone stands before a newline: then
the two are reported as an unknown escape. -/
theorem tokenize_eq_error {src : String} (h : CutOff src.toList before raw tail rest) (file : Symbol) :
    let opened := (Position.startOf file).advanceBy before
    let stop := opened.advanceBy ('"' :: (raw ++ tail))
    opened.offset = before.length ∧ ∃ e, tokenize file src = .error e ∧
      (e.report.sort = .unterminated (some opened) ∧ e.report.span = .point stop ↔
        tail = [] ∨ rest = []) ∧
      (tail = ['\\'] → rest ≠ [] → e.cause = .unknownEscape '\n' ∧
        e.report.sort = .lexical ∧ e.report.span = ⟨opened.advanceBy ('"' :: raw), stop⟩) := by
  intro opened stop
  refine ⟨by rw [Position.offset_advanceBy]; exact Int.zero_add _, ?_⟩
  -- the line or the source ends, behind the body or behind a backslash
  rcases h.tail with rfl | rfl
  · cases rest with
    | nil => exact ⟨_, h.tokenize_eq .textEnd rfl file, iff_of_true ⟨rfl, rfl⟩ (.inl rfl), nofun⟩
    | cons c rest =>
      obtain rfl : c = '\n' := h.lineEnd c rfl
      exact ⟨_, h.tokenize_eq .lineEnd rfl file, iff_of_true ⟨rfl, rfl⟩ (.inl rfl), nofun⟩
  · cases rest with
    | nil =>
      exact ⟨_, h.tokenize_eq .escapeEnd rfl file, iff_of_true ⟨rfl, rfl⟩ (.inr rfl),
        fun _ hne => absurd rfl hne⟩
    | cons c rest =>
      obtain rfl : c = '\n' := h.lineEnd c rfl
      refine ⟨_, h.tokenize_eq (.escape (by decide)) rfl file, iff_of_false ?_ (by simp), ?_⟩
      · rintro ⟨hsort, -⟩
        cases hsort
      · intro _ _
        refine ⟨rfl, rfl, ?_⟩
        have hstop : stop = (opened.advanceBy ('"' :: raw)).advanceBy ['\\'] :=
          Position.advanceBy_append opened ('"' :: raw) ['\\']
        show Span.ofText (opened.advanceBy ('"' :: raw ++ [])) ['\\', '\n'] = _
        rw [hstop, List.append_nil]
        rfl

/-- The source may also end behind a backslash. -/
theorem tokenize_eq_error_backslash :
    let p (k : Nat) : Position := ⟨1, k + 1, k, ⟨0⟩⟩
    CutOff "x \"a\\".toList ['x', ' '] ['a'] ['\\'] [] ∧
      ∃ e, tokenize ⟨0⟩ "x \"a\\" = .error e ∧ e.report.sort = .unterminated (some (p 2)) ∧
        e.report.span = .point (p 5) := by
  intro p
  have hx : Lexeme.ofText 'x' [' ', '"', 'a', '\\'] = .token .name ['x'] [' ', '"', 'a', '\\'] := by
    decide
  have h : CutOff "x \"a\\".toList ['x', ' '] ['a'] ['\\'] [] :=
    ⟨rfl, ⟨[⟨[], .name, ['x']⟩], [' '], rfl, .cons .nil (.of_ofText hx (by decide)) .nil,
      .cons (.blank (by decide)) .nil⟩, ⟨['a'], .char (by decide) (by decide) (by decide) .nil⟩,
      .inr rfl, nofun⟩
  obtain ⟨-, e, he, hiff, -⟩ := tokenize_eq_error h ⟨0⟩
  exact ⟨h, e, he, hiff.2 (.inr rfl)⟩

/-- A newline behind the backslash makes an unknown escape of the literal that is cut off there. -/
theorem not_unterminated_before_newline :
    CutOff "\"a\\\n".toList [] ['a'] ['\\'] ['\n'] ∧
      ∃ e, tokenize ⟨0⟩ "\"a\\\n" = .error e ∧ e.cause = .unknownEscape '\n' ∧
        ∀ opened, e.report.sort ≠ .unterminated opened := by
  have h : CutOff "\"a\\\n".toList [] ['a'] ['\\'] ['\n'] :=
    ⟨rfl, ⟨[], [], rfl, .nil, .nil⟩, ⟨['a'], .char (by decide) (by decide) (by decide) .nil⟩, .inr rfl,
      by simp⟩
  exact ⟨h, _, h.tokenize_eq (.escape (by decide)) rfl ⟨0⟩, rfl, nofun⟩

end CutOff

end ScriptSyntax
