/-
Token listings. A line of a listing has three columns: where the token stands, the name of its kind and
its lexeme, quoted. The characters of a column all show as themselves, so none of them ends a column or
a line: a listing has one line for each token, wherever lines are taken to end (`splitLines_listing`).
And a line tells the kind of its token, the lexeme and the rows and columns that the token covers
(`shown_eq_of_tokenLine_eq`).
-/
import ScriptSyntax.Command.Run
import ScriptSyntax.Proofs.Number.Numeral
import ScriptSyntax.Proofs.Text.Escaped

namespace ScriptSyntax

open Text

/-! ## Lines that end anywhere -/

/-- The characters that end a line. -/
def lineEnds : List Char :=
  ['\n', '\x0b', '\x0c', '\r', '\x1c', '\x1d', '\x1e', '\u0085', '\u2028', '\u2029']

/-- The lines of a text, without what ends them; a return and the newline behind it end a line
together, and no line follows the last end. -/
def splitLines : List Char → List (List Char)
  | [] => []
  | '\r' :: '\n' :: cs => [] :: splitLines cs
  | c :: cs =>
    if c ∈ lineEnds then [] :: splitLines cs
    else match splitLines cs with
      | [] => [[c]]
      | l :: ls => (c :: l) :: ls

theorem splitLines_append_newline {line : List Char} (h : ∀ c ∈ line, c ∉ lineEnds)
    (rest : List Char) : splitLines (line ++ '\n' :: rest) = line :: splitLines rest := by
  induction line with
  | nil => rfl
  | cons c line ih =>
    obtain ⟨hc, hline⟩ := List.forall_mem_cons.1 h
    have hreturn : c ≠ '\r' := by
      rintro rfl
      exact hc (by decide)
    rw [List.cons_append, splitLines, if_neg hc, ih hline]
    exact fun _ hc _ => hreturn hc

theorem splitLines_flatMap {ls : List (List Char)} (h : ∀ l ∈ ls, ∀ c ∈ l, c ∉ lineEnds) :
    splitLines (ls.flatMap (· ++ ['\n'])) = ls := by
  induction ls with
  | nil => rfl
  | cons l ls ih =>
    obtain ⟨hl, hls⟩ := List.forall_mem_cons.1 h
    rw [List.flatMap_cons, List.append_assoc]
    exact (splitLines_append_newline hl _).trans (congrArg (l :: ·) (ih hls))

/-! ## Columns -/

/-- What ends a column or a line does not show as itself. -/
theorem isPrintable_separator {c : Char} (h : c ∈ '\t' :: lineEnds) : isPrintable c = false := by
  have hall : ('\t' :: lineEnds).all (fun c => !isPrintable c) = true := by decide +kernel
  simpa using List.all_eq_true.1 hall c h

theorem Position.isPrintable_of_mem_text {p : Position} {c : Char} (h : c ∈ p.text.toList) :
    isPrintable c = true := by
  simp only [text, String.toList_append, List.mem_append] at h
  rcases h with (h | h) | h
  · exact isPrintable_of_mem_int h
  · rw [List.mem_singleton.1 h]
    decide
  · exact isPrintable_of_mem_int h

theorem Span.isPrintable_of_mem_text {s : Span} {c : Char} (h : c ∈ s.text.toList) :
    isPrintable c = true := by
  have hmarks : ∀ mark ∈ ["(", " - ", ")"], mark.toList.all isPrintable = true := by decide
  simp only [text, String.toList_append, List.mem_append] at h
  rcases h with (((h | h) | h) | h) | h
  · exact List.all_eq_true.1 (hmarks _ (by decide)) c h
  · exact Position.isPrintable_of_mem_text h
  · exact List.all_eq_true.1 (hmarks _ (by decide)) c h
  · exact Position.isPrintable_of_mem_text h
  · exact List.all_eq_true.1 (hmarks _ (by decide)) c h

theorem TokenKind.mem_all (k : TokenKind) : k ∈ all := by
  cases k with
  | mark m => simp [all, m.mem_all]
  | _ => decide

theorem TokenKind.ofName?_name (k : TokenKind) : ofName? k.name = some k := by
  have hall : ∀ k ∈ all, ofName? k.name = some k := by decide +kernel
  exact hall k k.mem_all

theorem TokenKind.name_injective {k k' : TokenKind} (h : k.name = k'.name) : k = k' := by
  have hk := k.ofName?_name
  rw [h, ofName?_name] at hk
  exact (Option.some.inj hk).symm

theorem isPrintable_of_mem_name {k : TokenKind} {c : Char} (h : c ∈ k.name.toList) :
    isPrintable c = true := by
  have hall : ∀ k ∈ TokenKind.all, k.name.toList.all isPrintable = true := by decide +kernel
  exact List.all_eq_true.1 (hall k k.mem_all) c h

/-! ## Positions and spans -/

theorem Position.text_append_inj {p q : Position} {rest rest' : List Char}
    (h : p.text.toList ++ rest = q.text.toList ++ rest') (hr : EndsRun isNumeralChar rest)
    (hr' : EndsRun isNumeralChar rest') : p.row = q.row ∧ p.col = q.col ∧ rest = rest' := by
  have hcolon (cs : List Char) : EndsRun isNumeralChar (":".toList ++ cs) := endsRun_cons.2 (by decide)
  simp only [text, String.toList_append, List.append_assoc] at h
  obtain ⟨hrow, h⟩ := int_append_inj h (hcolon _) (hcolon _)
  obtain ⟨hcol, hrest⟩ := int_append_inj (List.append_cancel_left h) hr hr'
  exact ⟨hrow, hcol, hrest⟩

theorem Span.text_inj {s t : Span} (h : s.text = t.text) :
    (s.start.row = t.start.row ∧ s.start.col = t.start.col) ∧
      s.stop.row = t.stop.row ∧ s.stop.col = t.stop.col := by
  have hdash (cs : List Char) : EndsRun isNumeralChar (" - ".toList ++ cs) := endsRun_cons.2 (by decide)
  have hclose : EndsRun isNumeralChar ")".toList := endsRun_cons.2 (by decide)
  rw [← String.toList_inj] at h
  simp only [text, String.toList_append, List.append_assoc] at h
  obtain ⟨hrow, hcol, h⟩ := Position.text_append_inj (List.append_cancel_left h) (hdash _) (hdash _)
  obtain ⟨hrow', hcol', -⟩ := Position.text_append_inj (List.append_cancel_left h) hclose hclose
  exact ⟨⟨hrow, hcol⟩, hrow', hcol'⟩

/-! ## Lines of a listing -/

namespace Command

theorem toList_tokenLine (t : Token) : (tokenLine t).toList =
    t.span.text.toList ++ '\t' :: (t.kind.name.toList ++ '\t' :: Quoted.encode t.lexeme.toList) := by
  simp [tokenLine, quoted]

/-- What a line tells of its token. -/
structure Shown where
  kind : TokenKind
  lexeme : String
  start : Int × Int
  stop : Int × Int
deriving DecidableEq

def shown (t : Token) : Shown :=
  ⟨t.kind, t.lexeme, (t.span.start.row, t.span.start.col), (t.span.stop.row, t.span.stop.col)⟩

theorem shown_eq_of_tokenLine_eq {t u : Token} (h : tokenLine t = tokenLine u) : shown t = shown u := by
  have htab (cs : List Char) : EndsRun isPrintable ('\t' :: cs) :=
    endsRun_cons.2 (isPrintable_separator (List.mem_cons_self ..))
  rw [← String.toList_inj, toList_tokenLine, toList_tokenLine] at h
  obtain ⟨hspan, h⟩ := run_unique h (fun _ => Span.isPrintable_of_mem_text) (htab _)
    (fun _ => Span.isPrintable_of_mem_text) (htab _)
  obtain ⟨hkind, h⟩ := run_unique (List.cons.inj h).2 (fun _ => isPrintable_of_mem_name) (htab _)
    (fun _ => isPrintable_of_mem_name) (htab _)
  have hlexeme := Quoted.encode_injective (List.cons.inj h).2
  obtain ⟨⟨hrow, hcol⟩, hrow', hcol'⟩ := Span.text_inj (String.toList_inj.1 hspan)
  unfold shown
  rw [TokenKind.name_injective (String.toList_inj.1 hkind), String.toList_inj.1 hlexeme, hrow, hcol,
    hrow', hcol']

theorem notMem_of_isPrintable {cs : List Char} (h : ∀ c ∈ cs, isPrintable c = true) {d : Char}
    (hd : d ∈ '\t' :: lineEnds) : d ∉ cs := by
  intro hmem
  have hprint := h d hmem
  rw [isPrintable_separator hd] at hprint
  cases hprint

theorem count_tab_tokenLine (t : Token) : (tokenLine t).toList.count '\t' = 2 := by
  have hcolumn {cs : List Char} (h : ∀ c ∈ cs, isPrintable c = true) : cs.count '\t' = 0 :=
    List.count_eq_zero.2 (notMem_of_isPrintable h (List.mem_cons_self ..))
  rw [toList_tokenLine, List.count_append, List.count_cons_self, List.count_append,
    List.count_cons_self, hcolumn fun _ => Span.isPrintable_of_mem_text,
    hcolumn fun _ => isPrintable_of_mem_name, hcolumn fun _ => Quoted.isPrintable_of_mem_encode]

theorem tokenLine_no_lineEnd {t : Token} {c : Char} (h : c ∈ (tokenLine t).toList) : c ∉ lineEnds := by
  intro hc
  have hcolumn {cs : List Char} (h : ∀ c ∈ cs, isPrintable c = true) : c ∉ cs :=
    notMem_of_isPrintable h (List.mem_cons_of_mem _ hc)
  have htab : '\t' ∉ lineEnds := by decide
  simp only [toList_tokenLine, List.mem_append, List.mem_cons] at h
  rcases h with h | rfl | h | rfl | h
  · exact hcolumn (fun _ => Span.isPrintable_of_mem_text) h
  · exact htab hc
  · exact hcolumn (fun _ => isPrintable_of_mem_name) h
  · exact htab hc
  · exact hcolumn (fun _ => Quoted.isPrintable_of_mem_encode) h

/-! ## Listings -/

def listing (ts : List Token) : String := String.join (ts.map fun t => tokenLine t ++ "\n")

theorem splitLines_listing (ts : List Token) :
    splitLines (listing ts).toList = ts.map fun t => (tokenLine t).toList := by
  have hlines : (listing ts).toList = (ts.map fun t => (tokenLine t).toList).flatMap (· ++ ['\n']) := by
    induction ts with
    | nil => rfl
    | cons t ts ih => simp_all [listing]
  rw [hlines, splitLines_flatMap]
  intro l hl c hc
  obtain ⟨t, -, rfl⟩ := List.mem_map.1 hl
  exact tokenLine_no_lineEnd hc

theorem map_shown_eq_of_listing_eq {ts us : List Token} (h : listing ts = listing us) :
    ts.map shown = us.map shown := by
  have hlines := congrArg (fun s => splitLines s.toList) h
  simp only [splitLines_listing] at hlines
  rw [← List.forall₂_eq_eq_eq, List.forall₂_map_left_iff, List.forall₂_map_right_iff] at hlines ⊢
  exact hlines.imp fun t u hline => shown_eq_of_tokenLine_eq (String.toList_inj.1 hline)

end Command

end ScriptSyntax
