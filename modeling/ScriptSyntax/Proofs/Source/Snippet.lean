/-
What a diagnostic shows of its source. Under the header stands the line of the source in which the
error starts (`LineAt`), without the returns at its end, and under that line one caret for each
character of the span, each below its character (`diagnosticIn_source`). The row of a position counts
the newlines before its line and the column the characters of the line before it; an error that stays
in its row stays in that line, or goes one place past it, where the newline or the end of the source is.
-/
import ScriptSyntax.Diagnostic
import ScriptSyntax.Proofs.Source.Lines
import ScriptSyntax.Proofs.Source.Places
import Mathlib.Data.List.Induction

namespace ScriptSyntax

/-! ## Lines by their rows -/

theorem head?_lines (cs : List Char) : (lines cs).head? = some (cs.takeWhile (· != '\n')) := by
  induction cs with
  | nil => rfl
  | cons c cs ih =>
    rw [lines]
    split
    · rename_i hc
      simp [hc]
    · rename_i hc
      obtain ⟨l, ls, hls⟩ := List.exists_cons_of_ne_nil (l := lines cs) fun h => by simp [h] at ih
      rw [hls] at ih ⊢
      rw [List.takeWhile_cons_of_pos (by simpa using hc), ← Option.some.inj ih]
      rfl

theorem EndsLine.of_cons {c : Char} {cs : List Char} (h : EndsLine (c :: cs)) : EndsLine cs := by
  by_cases hcs : cs = []
  · exact .inl hcs
  · exact .inr (@EndsLine.of_append [c] _ h hcs)

/-- Behind whole lines the next line has the number of their newlines. -/
theorem getElem?_lines_append {before : List Char} (h : EndsLine before) (rest : List Char) :
    (lines (before ++ rest))[before.count '\n']? = (lines rest).head? := by
  induction before with
  | nil => exact List.head?_eq_getElem?.symm
  | cons c cs ih =>
    rw [List.cons_append, lines]
    split
    · rename_i hc
      rw [hc, List.count_cons_self, List.getElem?_cons_succ]
      exact ih h.of_cons
    · rename_i hc
      -- the newline that ends the lines is still to come
      have hcs : cs ≠ [] := by
        rintro rfl
        rcases h with h | h
        · cases h
        · exact hc (Option.some.inj h)
      have hpos : 0 < cs.count '\n' :=
        List.count_pos_iff.2 (List.mem_of_getLast? (@EndsLine.of_append [c] _ h hcs))
      obtain ⟨k, hk⟩ : ∃ k, cs.count '\n' = k + 1 := ⟨cs.count '\n' - 1, by omega⟩
      rw [List.count_cons_of_ne hc, ← ih h.of_cons, hk]
      cases lines (cs ++ rest) <;> rfl

theorem lineAt?_succ (ls : List (List Char)) (n : Nat) : lineAt? ls ((n : Int) + 1) = ls[n]? := by
  have hrow : (1 : Int) ≤ n + 1 := by omega
  have hpos : (0 : Int) ≤ (n : Int) + 1 - 1 := by omega
  rw [lineAt?, if_pos hrow]
  simp only [if_pos hpos]
  congr 1
  omega

/-! ## The line of an offset -/

/-- The line in which an offset lies, with what stands before and behind it. The place of the newline
that ends a line belongs to it, and so does the end of the text to the last line. -/
structure LineAt (cs : List Char) (i : Nat) (before line after : List Char) : Prop where
  text : cs = before ++ (line ++ after)
  newline_notMem : '\n' ∉ line
  begins : EndsLine before
  ends : after = [] ∨ after.head? = some '\n'
  before_le : before.length ≤ i
  le : i ≤ before.length + line.length

theorem exists_endsLine_append (cs : List Char) :
    ∃ before tail, cs = before ++ tail ∧ EndsLine before ∧ '\n' ∉ tail := by
  induction cs using List.reverseRecOn with
  | nil => exact ⟨[], [], rfl, .inl rfl, List.not_mem_nil⟩
  | append_singleton cs c ih =>
    obtain ⟨before, tail, rfl, hbefore, htail⟩ := ih
    by_cases hc : c = '\n'
    · exact ⟨before ++ tail ++ [c], [], (List.append_nil _).symm,
        .inr (by rw [List.getLast?_concat, hc]), List.not_mem_nil⟩
    · refine ⟨before, tail ++ [c], List.append_assoc .., hbefore, ?_⟩
      simpa [htail] using Ne.symm hc

theorem exists_lineAt {cs : List Char} {i : Nat} (hi : i ≤ cs.length) :
    ∃ before line after, LineAt cs i before line after := by
  obtain ⟨before, tail, htake, hbefore, htail⟩ := exists_endsLine_append (cs.take i)
  have hlen := congrArg List.length htake
  rw [List.length_take, Nat.min_eq_left hi, List.length_append] at hlen
  refine ⟨before, tail ++ (cs.drop i).takeWhile (· != '\n'), (cs.drop i).dropWhile (· != '\n'),
    ?_, ?_, hbefore, ?_, by omega, by rw [List.length_append]; omega⟩
  · rw [List.append_assoc, List.takeWhile_append_dropWhile, ← List.append_assoc, ← htake,
      List.take_append_drop]
  · intro hmem
    rcases List.mem_append.1 hmem with hmem | hmem
    · exact htail hmem
    · simpa using List.mem_takeWhile_imp hmem
  · have hends := endsRun_dropWhile (· != '\n') (cs.drop i)
    cases hdrop : (cs.drop i).dropWhile (· != '\n') with
    | nil => exact .inl rfl
    | cons c rest =>
      rw [hdrop, endsRun_cons] at hends
      exact .inr (congrArg some (by simpa using hends))

namespace Position

theorem row_advanceBy_eq (p : Position) (cs : List Char) :
    (p.advanceBy cs).row = p.row + cs.count '\n' := by
  induction cs generalizing p with
  | nil => simp
  | cons c cs ih =>
    rw [advanceBy_cons, ih, advance]
    split <;> rename_i hc
    · simp only [hc, List.count_cons_self]
      omega
    · rw [List.count_cons_of_ne hc]

theorem col_advanceBy {cs : List Char} (h : '\n' ∉ cs) (p : Position) :
    (p.advanceBy cs).col = p.col + cs.length := by
  induction cs generalizing p with
  | nil => simp
  | cons c cs ih =>
    obtain ⟨hc, hcs⟩ := not_or.1 (mt List.mem_cons.2 h)
    rw [advanceBy_cons, ih hcs, advance, if_neg (Ne.symm hc), List.length_cons]
    simp only
    omega

end Position

namespace LineAt

variable {cs before line after : List Char} {i : Nat}

theorem take_eq (h : LineAt cs i before line after) :
    cs.take i = before ++ line.take (i - before.length) := by
  have hle := h.le
  have hpos : i - before.length ≤ line.length := by omega
  rw [h.text, List.take_append, List.take_of_length_le h.before_le, List.take_append_of_le_length hpos]

/-- The row of a position counts the newlines before its line, the column its place in the line. -/
theorem row_col (h : LineAt cs i before line after) (file : Symbol) :
    ((Position.startOf file).advanceBy (cs.take i)).row = before.count '\n' + 1 ∧
      ((Position.startOf file).advanceBy (cs.take i)).col = (i - before.length : Nat) + 1 := by
  have htail : '\n' ∉ line.take (i - before.length) := fun hmem =>
    h.newline_notMem (List.mem_of_mem_take hmem)
  have hle := h.le
  rw [h.take_eq, Position.advanceBy_append, Position.row_advanceBy htail, Position.col_advanceBy htail,
    Position.advanceBy_startOf h.begins, List.length_take, Nat.min_eq_left (by omega)]
  simp only [Position.below, Position.startOf]
  omega

theorem lineAt?_lines (h : LineAt cs i before line after) :
    lineAt? (lines cs) (before.count '\n' + 1) = some line := by
  rw [lineAt?_succ, h.text, getElem?_lines_append h.begins, head?_lines]
  have hline : ∀ c ∈ line, (c != '\n') = true := by
    intro c hc
    rw [bne_iff_ne]
    rintro rfl
    exact h.newline_notMem hc
  have hafter : EndsRun (· != '\n') after := by
    rcases h.ends with rfl | hn
    · exact endsRun_nil _
    · obtain ⟨rest, rfl⟩ := List.head?_eq_some_iff.1 hn
      exact endsRun_cons.2 rfl
  rw [takeWhile_append_of_endsRun hline hafter]

/-- What follows in the same row lies in the same line. -/
theorem le_of_row_eq {file : Symbol} {j : Nat} (h : LineAt cs i before line after) (hij : i ≤ j)
    (hj : j ≤ cs.length) (hrow : ((Position.startOf file).advanceBy (cs.take i)).row =
      ((Position.startOf file).advanceBy (cs.take j)).row) : j ≤ before.length + line.length := by
  rw [← Nat.not_lt]
  intro hlt
  -- else the newline behind the line would lie before `j`
  have hle := h.le
  obtain ⟨rest, hafter⟩ : ∃ rest, after = '\n' :: rest := by
    rcases h.ends with rfl | hn
    · have hlen := congrArg List.length h.text
      simp only [List.length_append, List.length_nil] at hlen
      omega
    · exact List.head?_eq_some_iff.1 hn
  have hprefix : cs.take i ++ (line.drop (i - before.length) ++ ['\n']) <+: cs.take j := by
    rw [List.prefix_take_iff]
    constructor
    · rw [h.take_eq, h.text, hafter, List.append_assoc, List.prefix_append_right_inj,
        ← List.append_assoc, List.take_append_drop]
      exact ⟨rest, by simp⟩
    · rw [List.length_append, List.length_append, List.length_take, List.length_drop,
        List.length_singleton]
      omega
  obtain ⟨more, hmore⟩ := hprefix
  rw [← hmore, Position.row_advanceBy_eq, Position.row_advanceBy_eq, List.count_append,
    List.count_append, List.count_append, List.count_singleton_self] at hrow
  omega

/-- A place of the line, or right behind it. -/
theorem getElem?_eq (h : LineAt cs i before line after) {k : Nat} (hk : before.length ≤ k)
    (hle : k ≤ before.length + line.length) :
    (k - before.length < line.length ∧ cs[k]? = (line)[k - before.length]?) ∨
      (k = before.length + line.length ∧ (k = cs.length ∨ cs[k]? = some '\n')) := by
  rw [h.text, List.getElem?_append_right hk]
  by_cases hlt : k - before.length < line.length
  · exact .inl ⟨hlt, List.getElem?_append_left hlt⟩
  · refine .inr ⟨by omega, ?_⟩
    rcases h.ends with rfl | hn
    · left
      simp only [List.append_nil, List.length_append]
      omega
    · right
      rw [List.getElem?_append_right (by omega)]
      have hzero : k - before.length - line.length = 0 := by omega
      rw [hzero, ← List.head?_eq_getElem?, hn]

end LineAt

/-! ## Returns -/

theorem exists_trimReturns (line : List Char) :
    (∃ n, line = trimReturns line ++ List.replicate n '\r') ∧
      (trimReturns line).getLast? ≠ some '\r' := by
  constructor
  · have hreturns : ∀ c ∈ line.reverse.takeWhile (· == '\r'), c = '\r' := fun c hc => by
      simpa using List.mem_takeWhile_imp hc
    have hsplit := congrArg List.reverse
      (List.takeWhile_append_dropWhile (p := (· == '\r')) (l := line.reverse))
    rw [List.eq_replicate_of_mem hreturns, List.reverse_append, List.reverse_reverse,
      List.reverse_replicate] at hsplit
    exact ⟨_, hsplit.symm⟩
  · rw [trimReturns, List.getLast?_reverse]
    intro h
    have := endsRun_dropWhile (· == '\r') line.reverse _ h
    simp at this

/-! ## Diagnostics -/

namespace Span

variable {file : Symbol} {src : String} {s : Span}

/-- A span that stays in its row takes up as many columns as it has characters. -/
theorem snippet_eq (hs : s.InSource file src) (hrow : s.OneRow) :
    ∃ (i j : Nat) (before line after : List Char),
      s.start.offset = i ∧ s.stop.offset = j ∧ i ≤ j ∧ LineAt src.toList i before line after ∧
      LineAt src.toList j before line after ∧ s.start.col = (i - before.length : Nat) + 1 ∧
      s.snippet src = [String.ofList (' ' :: ' ' :: trimReturns line),
        String.ofList (' ' :: ' ' :: List.replicate (i - before.length) ' ' ++
          List.replicate (j - i + 1) '^')] := by
  obtain ⟨i, hi⟩ := Int.eq_ofNat_of_zero_le hs.start.offset_nonneg
  obtain ⟨j, hj⟩ := Int.eq_ofNat_of_zero_le hs.stop.offset_nonneg
  have hstart := hs.start.advanced
  have hstop := hs.stop.advanced
  have hlei := hs.start.offset_le
  have hlej := hs.stop.offset_le
  have hle := hs.ordered
  rw [hi, Int.toNat_natCast] at hstart
  rw [hj, Int.toNat_natCast] at hstop
  rw [← String.length_toList] at hlei hlej
  obtain ⟨before, line, after, hline⟩ := @exists_lineAt src.toList i (by omega)
  have hrow' := hrow
  rw [OneRow, hstart, hstop] at hrow'
  -- the stop lies in the line of the start
  have hline' : LineAt src.toList j before line after :=
    { hline with
      before_le := by have := hline.before_le; omega
      le := hline.le_of_row_eq (by omega) (by omega) hrow' }
  obtain ⟨hrowi, hcoli⟩ := hline.row_col file
  obtain ⟨-, hcolj⟩ := hline'.row_col file
  rw [← hstart] at hrowi hcoli
  rw [← hstop] at hcolj
  have hindent : s.indent.toNat = i - before.length := by
    rw [indent]
    omega
  have hcarets : s.caretCount.toNat = j - i + 1 := by
    have hbefore := hline.before_le
    rw [caretCount]
    split <;> rename_i hwide
    · omega
    · have : ¬ s.start.col < s.stop.col := fun hlt => hwide ⟨hrow.symm, hlt⟩
      omega
  refine ⟨i, j, before, line, after, hi, hj, by omega, hline, hline', hcoli, ?_⟩
  rw [snippet, hrowi, hline.lineAt?_lines]
  simp only [hindent, hcarets]

end Span

/-- The diagnostic of an error of a source shows the line of the source in which the error starts,
without the returns at its end, and below it, from the column of the error on, a caret for each
character of the span. Each caret stands below its character, unless that is a return left out, the
newline behind the line or the end of the source. -/
theorem diagnosticIn_source {file : Symbol} {src name : String} {names : Interner} {e : ScriptError}
    (hname : names.resolve? file = some name)
    (he : (∃ f, tokenize file src = .error f ∧ e = f.report) ∨
      ∃ f, parseExpression file src = .error f ∧ e = f.report) :
    ∃ (i j : Nat) (before line after shown : List Char),
      e.span.start.offset = i ∧ e.span.stop.offset = j ∧ i ≤ j ∧
      LineAt src.toList i before line after ∧
      (∃ n, line = shown ++ List.replicate n '\r') ∧ shown.getLast? ≠ some '\r' ∧
      e.span.start.col = (i - before.length : Nat) + 1 ∧
      e.diagnosticIn names (some src) = .ok (
        name ++ ":" ++ toString e.span.start.row ++ ":" ++ toString e.span.start.col ++ ": " ++
          e.message ++
        "\n  " ++ String.ofList shown ++
        "\n  " ++ String.ofList (List.replicate (i - before.length) ' ') ++
          String.ofList (List.replicate (j - i + 1) '^') ++
        e.advice?.elim "" ("\nhint: " ++ ·)) ∧
      ∀ k, i ≤ k → k ≤ j →
        (k - before.length < shown.length ∧ src.toList[k]? = shown[k - before.length]?) ∨
        (shown.length ≤ k - before.length ∧
          (k = src.length ∨ src.toList[k]? = some '\n' ∨ src.toList[k]? = some '\r')) := by
  have hin : e.InSource file src := by
    rcases he with ⟨f, hf, rfl⟩ | ⟨f, hf, rfl⟩
    · exact inSource_of_tokenize_error hf
    · exact inSource_of_parseExpression_error hf
  obtain ⟨i, j, before, line, after, hi, hj, hij, hline, hline', hcol, hsnippet⟩ :=
    Span.snippet_eq hin.span hin.oneRow
  obtain ⟨⟨n, hn⟩, hlast⟩ := exists_trimReturns line
  refine ⟨i, j, before, line, after, trimReturns line, hi, hj, hij, hline, ⟨n, hn⟩, hlast, hcol, ?_, ?_⟩
  · have hresolve : names.resolve e.span.file = .ok name := by
      rw [Span.file, hin.span.start.file_eq, Interner.resolve, hname]
    rw [ScriptError.diagnosticIn, hresolve]
    show Except.ok (e.diagnostic name (some src)) = _
    rw [ScriptError.diagnostic, ScriptError.diagnosticLines, Option.toList_some, List.flatMap_singleton,
      hsnippet, ScriptError.location, Position.text]
    congr 1
    rw [← String.toList_inj]
    cases e.advice? <;> simp [String.intercalate_cons_cons]
  · intro k hik hkj
    have hbefore := hline.before_le
    rcases hline.getElem?_eq (k := k) (by omega) (by have := hline'.le; omega) with
      ⟨hlt, hk⟩ | ⟨hk, hend⟩
    · rw [hk]
      by_cases hshown : k - before.length < (trimReturns line).length
      · refine .inl ⟨hshown, ?_⟩
        conv_lhs => rw [hn]
        rw [List.getElem?_append_left hshown]
      -- what the line has beyond what is shown are returns
      · refine .inr ⟨by omega, .inr (.inr ?_)⟩
        have hlen := congrArg List.length hn
        rw [List.length_append, List.length_replicate] at hlen
        rw [hn, List.getElem?_append_right (by omega), List.getElem?_replicate, if_pos (by omega)]
    · have hlen := congrArg List.length hn
      rw [List.length_append, List.length_replicate] at hlen
      refine .inr ⟨by omega, ?_⟩
      rw [← String.length_toList]
      exact hend.imp_right .inl

/-- The second of the two carets stands below a return that is not shown. -/
theorem diagnosticIn_source_return :
    let p (k : Nat) : Position := ⟨2, k + 1, k + 2, ⟨0⟩⟩
    let e : LexError := ⟨.unknownEscape '\r', p 0, ⟨p 1, p 2⟩⟩
    let names := (Interner.empty.intern "m").2
    names.resolve? ⟨0⟩ = some "m" ∧ tokenize ⟨0⟩ "a\n\"\\\r\n" = .error e ∧
      ∃ shown, (∃ n, ['"', '\\', '\r'] = shown ++ List.replicate n '\r') ∧ shown.getLast? ≠ some '\r' ∧
        e.report.diagnosticIn names (some "a\n\"\\\r\n") = .ok (
          "m:2:2: " ++ e.cause.message ++ "\n  " ++ String.ofList shown ++ "\n   ^^\n" ++
            "hint: valid escapes: \\n \\t \\r \\0 \\\\ \\\"") := by
  intro p e names
  have ha : Lexeme.ofText 'a' ['\n', '"', '\\', '\r', '\n'] =
      .token .name ['a'] ['\n', '"', '\\', '\r', '\n'] := by decide
  have hb : Breaks "a\n\"\\\r\n".toList [⟨[], .name, ['a']⟩] ['\n']
      ⟨.unknownEscape '\r', ['"'], ['\\', '\r'], ['\n']⟩ :=
    ⟨rfl, .cons .nil (.of_ofText ha (by decide)) .nil, .cons (.blank (by decide)) .nil,
      .string .nil (.escape (by decide))⟩
  have h : tokenize ⟨0⟩ "a\n\"\\\r\n" = .error e := tokenize_eq_error_iff.2 ⟨_, _, _, hb, rfl⟩
  have hname : names.resolve? ⟨0⟩ = some "m" := by decide
  obtain ⟨i, j, before, line, after, shown, hi, hj, -, hline, hreturns, hlast, hcol, htext, -⟩ :=
    diagnosticIn_source hname (.inl ⟨e, h, rfl⟩)
  cases Int.ofNat.inj hi
  cases Int.ofNat.inj hj
  have hbefore : before.length = 2 := by
    have hle := hline.before_le
    have hcol : (2 : Int) = (3 - before.length : Nat) + 1 := hcol
    omega
  have hcount : (before.count '\n' : Int) + 1 = 2 := (hline.row_col ⟨0⟩).1.symm
  have hat := hline.lineAt?_lines
  rw [hcount] at hat
  cases hat.symm.trans (show lineAt? (lines "a\n\"\\\r\n".toList) 2 = some ['"', '\\', '\r'] by decide)
  refine ⟨hname, h, shown, hreturns, hlast, htext.trans ?_⟩
  have hrow : toString e.report.span.start.row = "2" := by decide
  have hcol : toString e.report.span.start.col = "2" := by decide
  have hhint : e.report.advice?.elim "" ("\nhint: " ++ ·) =
      "\nhint: valid escapes: \\n \\t \\r \\0 \\\\ \\\"" := rfl
  have hmessage : e.report.message = e.cause.message := rfl
  rw [hbefore, hrow, hcol, hhint, hmessage]
  congr 1
  rw [← String.toList_inj]
  simp

end ScriptSyntax
