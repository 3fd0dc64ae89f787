/-
What is printed of a source tells what the source holds. A listing has one line for each token and
determines the tokens (`tokens_output`), and the JSON of a tree determines the tree (`json_output`),
in both cases all but the file.
-/
import ScriptSyntax.Proofs.Command.Files
import ScriptSyntax.Proofs.Command.Listing
import ScriptSyntax.Proofs.Expr.Json

namespace ScriptSyntax

/-! ## The tree of a source -/

section Tree

variable {file : Symbol} {src : String} {e : Expr Span}

/-- All places of a tree are in the file of its source. -/
theorem map_inFile_of_parseExpression (h : parseExpression file src = .ok e) :
    e.map (Span.moved (Position.inFile file)) = e := by
  obtain ⟨ts, hts, hparse⟩ := Command.exists_parseTokens_eq_ok h
  have hmoved := Command.tokenize_inFile_of_ok hts file
  have htree := parseTokens_moved (Position.inFile file) ts
  rw [← Except.ok.inj (hts.symm.trans hmoved), hparse] at htree
  exact (Except.ok.inj htree).symm

end Tree

namespace Command

/-! ## Printing -/

/-- The stack has room for the tree that a source holds, if it holds one. -/
def Fits (frames : Nat) (mode : Mode) (src : String) : Prop :=
  ∀ file e, parseExpression file src = .ok e → mode.callDepth e ≤ frames

/-- The command prints this of a source and nothing else, whatever the name of its file, and of every
file that holds the source, on every stack that has room for its tree. -/
structure Prints (mode : Mode) (src out : String) : Prop where
  report : ∀ frames names name file, Fits frames mode src → Interner.resolve names file = .ok name →
    reportSource frames mode false names name file src = ⟨.ok 0, out, ""⟩
  run : ∀ m f l, Fits m.frames mode src → ¬ Dashed f → m.follow f = .ok l →
    loadText m.disk l = .ok src → Command.run m (mode.arguments ++ [f]) = ⟨.ok 0, out, ""⟩

section Fits

variable {mode : Mode} {src : String}

/-- The tree of a source is as deep as it is in any file. -/
theorem callDepth_eq {file file' : Symbol} {e e' : Expr Span} (h : parseExpression file src = .ok e)
    (h' : parseExpression file' src = .ok e') : mode.callDepth e' = mode.callDepth e := by
  obtain ⟨ts, hts, hparse⟩ := exists_parseTokens_eq_ok h
  obtain ⟨-, hmoved⟩ := parseExpression_inFile hts hparse file'
  rw [← Except.ok.inj (hmoved.symm.trans h'), mode.callDepth_map]

theorem exists_fits (mode : Mode) (src : String) : ∃ frames, Fits frames mode src := by
  cases h : parseExpression ⟨0⟩ src with
  | ok e => exact ⟨mode.callDepth e, fun file e' h' => Nat.le_of_eq (callDepth_eq h h')⟩
  | error f =>
    refine ⟨0, fun file e' h' => ?_⟩
    obtain ⟨ts, hts, hparse⟩ := exists_parseTokens_eq_ok h'
    obtain ⟨-, hmoved⟩ := parseExpression_inFile hts hparse ⟨0⟩
    rw [h] at hmoved
    cases hmoved

end Fits

namespace Prints

variable {mode : Mode} {src out : String}

theorem of_reported (h : ∀ frames name, Fits frames mode src →
    Reported frames mode name src ⟨.ok 0, out, ""⟩) : Prints mode src out := by
  refine ⟨fun frames names name file hfits hname => (h frames name hfits names file hname).1, ?_⟩
  intro m f l hfits hdash hl hload
  rw [run_of_loadText hdash hl hload]
  exact (h _ _ hfits _ _ (Interner.empty.resolve_intern l.text)).1

theorem unique {out' : String} (h : Prints mode src out) (h' : Prints mode src out') : out = out' := by
  obtain ⟨frames, hfits⟩ := exists_fits mode src
  have hname := Interner.empty.resolve_intern ""
  have hreport := (h.report _ _ _ _ hfits hname).symm.trans (h'.report _ _ _ _ hfits hname)
  exact congrArg Report.out hreport

theorem listing {file : Symbol} {ts : TokenList} (h : tokenize file src = .ok ts) :
    Prints .tokens src (Command.listing ts.toList) :=
  of_reported fun frames name _ => reported_of_tokens h frames name

theorem json {file : Symbol} {e : Expr Span} (h : parseExpression file src = .ok e) :
    Prints .json src (e.toJson.text ++ "\n") := by
  obtain ⟨ts, hts, hparse⟩ := exists_parseTokens_eq_ok h
  exact of_reported fun frames name hfits =>
    reported_of_tree hts frames name hparse (by decide) (hfits file e h)

end Prints

/-! ## Token listings -/

/-- A listing of tokens has a line for each of them, the end of the input included, wherever lines are
taken to end, and each line has three columns. Sources that are listed alike have tokens of the same
kinds and lexemes in the same rows and columns. -/
theorem tokens_output {file : Symbol} {src : String} {ts : TokenList}
    (h : tokenize file src = .ok ts) : ∃ out, Prints .tokens src out ∧
      (splitLines out.toList).length = ts.toList.length ∧
      (∀ line ∈ splitLines out.toList, line.count '\t' = 2) ∧
      ∀ file' src' ts', tokenize file' src' = .ok ts' → Prints .tokens src' out →
        ts'.toList.map shown = ts.toList.map shown := by
  refine ⟨listing ts.toList, .listing h, ?_, ?_, ?_⟩
  · rw [splitLines_listing, List.length_map]
  · intro line hline
    rw [splitLines_listing] at hline
    obtain ⟨t, -, rfl⟩ := List.mem_map.1 hline
    exact count_tab_tokenLine t
  · intro file' src' ts' h' hout
    exact map_shown_eq_of_listing_eq ((Prints.listing h').unique hout)

/-- A tab in a string is no end of a column, and a separator of lines in it no end of a line. -/
theorem tokens_output_separators :
    let ts : TokenList := ⟨[⟨.literal (.string "\t\u2028"), "\"\t\u2028\"",
      ⟨⟨1, 1, 0, ⟨0⟩⟩, ⟨1, 4, 3, ⟨0⟩⟩⟩⟩], .eof ⟨1, 5, 4, ⟨0⟩⟩, rfl⟩
    tokenize ⟨0⟩ "\"\t\u2028\"" = .ok ts ∧ ∃ out, Prints .tokens "\"\t\u2028\"" out ∧
      (splitLines out.toList).length = 2 ∧ ∀ line ∈ splitLines out.toList, line.count '\t' = 2 := by
  intro ts
  have hstring : Lexeme.ofText '"' ['\t', '\u2028', '"'] =
      .token (.literal (.string "\t\u2028")) ['"', '\t', '\u2028', '"'] [] := by decide
  have hcut : Cuts "\"\t\u2028\"".toList
      [⟨[], .literal (.string "\t\u2028"), ['"', '\t', '\u2028', '"']⟩] [] :=
    .piece .nil (.of_ofText hstring (by decide)) (.last .nil)
  have h : tokenize ⟨0⟩ "\"\t\u2028\"" = .ok ts := hcut.tokenize_eq ⟨0⟩
  obtain ⟨out, hout, hlength, hcolumns, -⟩ := tokens_output h
  exact ⟨h, out, hout, hlength, hcolumns⟩

/-! ## Trees -/

/-- The JSON of a tree tells all of it but the file: sources with the same JSON have the same tree,
with the same rows, columns and offsets. -/
theorem json_output {file : Symbol} {src : String} {e : Expr Span}
    (h : parseExpression file src = .ok e) : ∃ out, Prints .json src out ∧
      ∀ file' src' e', parseExpression file' src' = .ok e' → Prints .json src' out →
        e'.map (Span.moved (Position.inFile file)) = e := by
  refine ⟨_, .json h, fun file' src' e' h' hout => ?_⟩
  have htext : e'.toJson.text = e.toJson.text := by
    have := (Prints.json h').unique hout
    rw [← String.toList_inj, String.toList_append, String.toList_append] at this
    exact String.toList_inj.1 (List.append_cancel_right this)
  have hjson := Json.text_injective (readable_of_parseExpression h').toJson_finite
    (readable_of_parseExpression h).toJson_finite htext
  rw [Expr.map_inFile_eq_of_toJson_eq hjson, map_inFile_of_parseExpression h]

/-- A blank behind the source leaves no trace in the JSON, and none in the tree. -/
theorem json_output_blank :
    let e (file : Symbol) : Expr Span :=
      .literal ⟨⟨1, 1, 0, file⟩, ⟨1, 3, 2, file⟩⟩ (.string "😀")
    parseExpression ⟨0⟩ "\"😀\"" = .ok (e ⟨0⟩) ∧
      parseExpression ⟨1⟩ "\"😀\" " = .ok (e ⟨1⟩) ∧
      ∃ out, Prints .json "\"😀\"" out ∧ Prints .json "\"😀\" " out ∧
        (e ⟨1⟩).map (Span.moved (Position.inFile ⟨0⟩)) = e ⟨0⟩ := by
  intro e
  have hstring : Lexeme.ofText '"' ['😀', '"'] =
      .token (.literal (.string "😀")) ['"', '😀', '"'] [] := by decide
  have hblank : Lexeme.ofText '"' ['😀', '"', ' '] =
      .token (.literal (.string "😀")) ['"', '😀', '"'] [' '] := by decide
  have hspelled (file : Symbol) := @Expr.Spelled.literal
    ⟨.literal (.string "😀"), "\"😀\"", ⟨⟨1, 1, 0, file⟩, ⟨1, 3, 2, file⟩⟩⟩ (.string "😀") rfl
  have h : parseExpression ⟨0⟩ "\"😀\"" = .ok (e ⟨0⟩) :=
    parseExpression_eq_ok_iff.2 ⟨[⟨[], .literal (.string "😀"), ['"', '😀', '"']⟩], [],
      .piece .nil (.of_ofText hstring (by decide)) (.last .nil), hspelled ⟨0⟩, by decide, by decide⟩
  have h' : parseExpression ⟨1⟩ "\"😀\" " = .ok (e ⟨1⟩) :=
    parseExpression_eq_ok_iff.2 ⟨[⟨[], .literal (.string "😀"), ['"', '😀', '"']⟩], [' '],
      .piece .nil (.of_ofText hblank (by decide)) (.last (.cons (.blank (by decide)) .nil)),
      hspelled ⟨1⟩, by decide, by decide⟩
  obtain ⟨out, hout, htree⟩ := json_output h
  have hjson : (e ⟨0⟩).toJson = (e ⟨1⟩).toJson := rfl
  have hout' : Prints .json "\"😀\" " out := by
    rw [← (Prints.json h).unique hout, hjson]
    exact .json h'
  exact ⟨h, h', out, hout, hout', htree _ _ _ h' hout'⟩

end Command

end ScriptSyntax
