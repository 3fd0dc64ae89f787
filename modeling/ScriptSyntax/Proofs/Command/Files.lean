/-
Reports on files. What is reported of a file does not hang on the symbol of its name: under another
symbol the same tokens, tree or error are read (`tokenize_inFile`, `parseTokens_moved`), and what is
written of them shows rows and columns but no symbol. An error names its file by a symbol that has
been handed out for it, so the report is there. The report on many files is therefore that on each of
them alone, one after the other, up to the first file that ends the run (`run_eq_foldr`); if no file
does, it is all of them (`run_files`).
-/
import ScriptSyntax.Proofs.Command.Request
import ScriptSyntax.Proofs.Expr.Dump
import ScriptSyntax.Proofs.Source.Moved
import ScriptSyntax.Proofs.Source.Places

namespace ScriptSyntax

/-! ## Under another symbol -/

theorem Interner.resolve_intern (t : Interner) (name : String) :
    (t.intern name).2.resolve (t.intern name).1 = .ok name := by
  have hresolve : (t.intern name).2.resolve? (t.intern name).1 = some name := by
    unfold intern
    split
    · rename_i i h
      simp [resolve?, (t.inverse name i).1 h]
    · simp [resolve?, size]
  rw [resolve, hresolve]

/-- The same place in the file of another symbol. -/
def Position.inFile (file : Symbol) (p : Position) : Position := { p with file := file }

section Moved

variable {file : Symbol}

theorem Position.inFile_advance (p : Position) (c : Char) :
    (p.advance c).inFile file = (p.inFile file).advance c := by
  unfold advance
  split <;> rfl

theorem tokenize_inFile (file file' : Symbol) (src : String) : tokenize file' src =
    ((tokenize file src).map (TokenList.moved (Position.inFile file'))).mapError
      (LexError.moved (Position.inFile file')) :=
  Cursor.tokens_moved Position.inFile_advance (.ofText file src)

theorem parseTokens_moved (g : Position → Position) (ts : TokenList) : parseTokens (ts.moved g) =
    ((parseTokens ts).map (Expr.map (Span.moved g))).mapError (SyntaxError.moved g) :=
  congrArg Prod.fst (Session.parse_moved (g := g) (.ofTokens ts))

theorem Expr.toJson_inFile (e : Expr Span) :
    (e.map (Span.moved (Position.inFile file))).toJson = e.toJson := by
  have hhead : ∀ e : Expr Span, (e.map (Span.moved (Position.inFile file))).headMembers =
      e.headMembers := by
    intro e
    cases e <;> rfl
  induction e with
  | literal s v => rfl
  | identifier s n => rfl
  | unary s op x ih =>
    rw [Expr.toJson, ← hhead, ← ih]
    rfl
  | binary s op l r ihl ihr =>
    rw [Expr.toJson, ← hhead, ← ihl, ← ihr]
    rfl
  | grouping s x ih =>
    rw [Expr.toJson, ← hhead, ← ih]
    rfl

theorem Expr.dumpText_map {α β : Type} (f : α → β) (e : Expr α) : (e.map f).dumpText = e.dumpText := by
  rw [dumpText_eq, dumpText_eq, dumpChars_map]

/-- A diagnostic shows no symbol. -/
theorem ScriptError.diagnostic_inFile {e e' : ScriptError}
    (hspan : e'.span = e.span.moved (Position.inFile file)) (hmessage : e'.message = e.message)
    (hhint : e'.hint = e.hint) (name : String) (source : Option String) :
    e'.diagnostic name source = e.diagnostic name source := by
  obtain ⟨sort, span, message, hint⟩ := e
  obtain ⟨sort', span', message', hint'⟩ := e'
  cases hspan
  cases hmessage
  cases hhint
  rfl

theorem LexError.diagnostic_inFile (e : LexError) (name : String) (source : Option String) :
    (e.moved (Position.inFile file)).report.diagnostic name source =
      e.report.diagnostic name source := by
  apply ScriptError.diagnostic_inFile <;> rw [report_moved]

theorem SyntaxError.diagnostic_inFile (e : SyntaxError) (name : String) (source : Option String) :
    (e.moved (Position.inFile file)).report.diagnostic name source =
      e.report.diagnostic name source := by
  refine ScriptError.diagnostic_inFile rfl (SyntaxCause.message_moved _ _) ?_ name source
  show (e.cause.moved (Position.inFile file)).hint? = e.cause.hint?
  cases e.cause <;> rfl

theorem TokenList.toList_moved (g : Position → Position) (ts : TokenList) :
    (ts.moved g).toList = ts.toList.map (Token.moved g) := by
  simp [toList, moved]

end Moved

theorem ScriptError.diagnosticIn_eq {names : Interner} {file : Symbol} {name : String}
    {e : ScriptError} (hname : names.resolve file = .ok name) (hfile : e.span.start.file = file)
    (source : Option String) : e.diagnosticIn names source = .ok (e.diagnostic name source) := by
  rw [diagnosticIn, Span.file, hfile, hname]
  rfl

namespace Command

/-! ## Reports -/

namespace Report

theorem empty_append (r : Report) : empty.append r = r := by
  obtain ⟨ending, out, err⟩ := r
  cases ending <;> simp [append, empty, Except.map]

theorem append_empty (r : Report) : r.append empty = r := by
  obtain ⟨ending, out, err⟩ := r
  cases ending <;> simp [append, empty, Except.map]

/-- Reports that end with a status are all there, one after the other. -/
theorem foldr_append {rs : List Report} (h : ∀ r ∈ rs, r.ending = .ok 0 ∨ r.ending = .ok 1) :
    (rs.foldr append empty).out = String.join (rs.map (·.out)) ∧
      (rs.foldr append empty).err = String.join (rs.map (·.err)) ∧
      ((rs.foldr append empty).ending = .ok 0 ∨ (rs.foldr append empty).ending = .ok 1) ∧
      ((rs.foldr append empty).ending = .ok 1 ↔ ∃ r ∈ rs, r.ending = .ok 1) := by
  induction rs with
  | nil => simp [empty]
  | cons r rs ih =>
    obtain ⟨hout, herr, hending, hone⟩ := ih fun r hr => h r (List.mem_cons_of_mem _ hr)
    simp only [List.foldr_cons, List.map_cons, String.join_cons, List.exists_mem_cons_iff, ← hout,
      ← herr, ← hone]
    rcases h r (List.mem_cons_self ..) with hr | hr <;> rcases hending with hs | hs <;>
      simp [append, hr, hs, Except.map]

end Report

/-! ## One file -/

/-- How deep the calls nest that show a tree. -/
def Mode.callDepth : Mode → Expr Span → Nat
  | .dump, e => e.callDepth .dump
  | .json, e => e.callDepth .json
  | .tokens, _ => 0

theorem Mode.callDepth_map (mode : Mode) (f : Span → Span) (e : Expr Span) :
    mode.callDepth (e.map f) = mode.callDepth e := by
  cases mode <;> simp [callDepth]

/-- What is printed of a file that holds that expression, or none for that reason: all of it or
nothing. Where tokens are listed, it does not matter whether they form an expression. -/
inductive Shows (frames : Nat) (mode : Mode) : Except FileError (Location × Expr Span) → Report → Prop
  | nowhere {f : NameFault} : Shows frames mode (.error (.name f)) (.ended (.name f))
  | error {e : FileError} {text : String} : (∀ f, e ≠ .name f) →
      (mode = .tokens → ∀ f, e ≠ .source (.syntactic f)) → Shows frames mode (.error e) (.failed text)
  | tokens {x : Except FileError (Location × Expr Span)} {out : String} : mode = .tokens →
      (∀ e, x = .error e → ∃ f, e = .source (.syntactic f)) → Shows frames mode x ⟨.ok 0, out, ""⟩
  | tree {l : Location} {e : Expr Span} {text : String} : mode ≠ .tokens →
      mode.callDepth e ≤ frames → (mode = .dump → e.dumpWithin frames = .ok text) →
      Shows frames mode (.ok (l, e)) (.printed text)
  | tooDeep {l : Location} {e : Expr Span} : mode ≠ .tokens → frames < mode.callDepth e →
      Shows frames mode (.ok (l, e)) (.ended (.print .tooDeep))

theorem Shows.of_source {frames : Nat} {mode : Mode} {e : SourceError} {text : String}
    (h : mode = .tokens → ∀ f, e ≠ .syntactic f) :
    Shows frames mode (.error (.source e)) (.failed text) := by
  refine .error (fun _ => nofun) fun hmode f he => h hmode f ?_
  cases he
  rfl

section Source

variable {frames : Nat} {names : Interner} {file : Symbol} {name src : String} {mode : Mode}
  {ts : TokenList} {e : Expr Span}

theorem reportError_eq {e : ScriptError} (hname : names.resolve file = .ok name)
    (hfile : e.span.start.file = file) :
    reportError names src e = .failed (e.diagnostic name (some src)) := by
  rw [reportError, ScriptError.diagnosticIn_eq hname hfile]

/-- The text that a mode shows of a tree. -/
def Mode.text (mode : Mode) (e : Expr Span) : String :=
  if mode = .json then e.toJson.text else e.dumpText

theorem reportTree_eq (hr : e.Readable) (hmode : mode ≠ .tokens) : reportTree frames mode e =
    if mode.callDepth e ≤ frames then .printed (mode.text e) else .ended (.print .tooDeep) := by
  cases mode with
  | tokens => exact absurd rfl hmode
  | json =>
    rw [reportTree, if_pos rfl, Expr.jsonWithin, Mode.callDepth]
    by_cases hd : e.callDepth .json ≤ frames
    · rw [if_pos hd, if_pos hd]
      rfl
    · rw [if_neg hd, if_neg hd]
  | dump =>
    rw [reportTree, if_neg nofun, Expr.dumpWithin_eq hr.check, Mode.callDepth]
    by_cases hd : e.callDepth .dump ≤ frames
    · rw [if_pos hd, if_pos hd]
      rfl
    · rw [if_neg hd, if_neg hd]

theorem reportSource_of_lexical {e : LexError} (hname : names.resolve file = .ok name)
    (h : tokenize file src = .error e) : reportSource frames mode false names name file src =
      .failed (e.report.diagnostic name (some src)) := by
  rw [reportSource, h]
  exact reportError_eq hname (inSource_of_tokenize_error h).span.start.file_eq

theorem reportSource_of_tokens (h : tokenize file src = .ok ts) :
    reportSource frames .tokens false names name file src =
      ⟨.ok 0, String.join (ts.toList.map fun t => tokenLine t ++ "\n"), ""⟩ := by
  rw [reportSource, h]
  exact Report.empty_append _

theorem parseExpression_eq_error {e : SyntaxError} (h : tokenize file src = .ok ts)
    (hparse : parseTokens ts = .error e) : parseExpression file src = .error (.syntactic e) := by
  rw [parseExpression_eq_mapError h, hparse]
  rfl

theorem parseExpression_eq_ok (h : tokenize file src = .ok ts) (hparse : parseTokens ts = .ok e) :
    parseExpression file src = .ok e := by
  rw [parseExpression_eq_mapError h, hparse]
  rfl

theorem exists_parseTokens_eq_ok (h : parseExpression file src = .ok e) :
    ∃ ts, tokenize file src = .ok ts ∧ parseTokens ts = .ok e := by
  cases hts : tokenize file src with
  | error f =>
    rw [parseExpression, hts] at h
    cases h
  | ok ts =>
    refine ⟨ts, rfl, ?_⟩
    cases hparse : parseTokens ts with
    | error f =>
      rw [parseExpression_eq_mapError hts, hparse] at h
      cases h
    | ok x =>
      rw [parseExpression_eq_mapError hts, hparse] at h
      cases h
      rfl

theorem reportSource_of_syntactic {e : SyntaxError} (hname : names.resolve file = .ok name)
    (h : tokenize file src = .ok ts) (hparse : parseTokens ts = .error e) (hmode : mode ≠ .tokens) :
    reportSource frames mode false names name file src =
      .failed (e.report.diagnostic name (some src)) := by
  have hin := inSource_of_parseExpression_error (parseExpression_eq_error h hparse)
  have hreport : reportError names src e.report = _ := reportError_eq hname hin.span.start.file_eq
  rw [reportSource, h]
  cases mode with
  | tokens => exact absurd rfl hmode
  | dump | json =>
    simp only [hparse]
    exact (Report.empty_append _).trans hreport

theorem reportSource_of_tree (h : tokenize file src = .ok ts) (hparse : parseTokens ts = .ok e)
    (hmode : mode ≠ .tokens) :
    reportSource frames mode false names name file src = reportTree frames mode e := by
  rw [reportSource, h]
  cases mode with
  | tokens => exact absurd rfl hmode
  | dump | json =>
    simp only [hparse]
    exact (Report.empty_append _).trans (Report.empty_append _)

/-- The report on a source whose file has that name, whatever symbol the name has. -/
def Reported (frames : Nat) (mode : Mode) (name src : String) (r : Report) : Prop :=
  ∀ names file, Interner.resolve names file = .ok name →
    reportSource frames mode false names name file src = r ∧
    ∀ l, Shows frames mode (((parseExpression file src).mapError .source).map (l, ·)) r

theorem reported_of_lexical {e : LexError} (h : tokenize file src = .error e) (frames : Nat)
    (mode : Mode) (name : String) :
    Reported frames mode name src (.failed (e.report.diagnostic name (some src))) := by
  intro names file' hname
  have hmoved : tokenize file' src = .error (e.moved (Position.inFile file')) := by
    rw [tokenize_inFile file, h]
    rfl
  have hparse : parseExpression file' src = .error (.lexical (e.moved (Position.inFile file'))) := by
    rw [parseExpression, hmoved]
  constructor
  · rw [reportSource_of_lexical hname hmoved, LexError.diagnostic_inFile]
  · intro l
    rw [hparse]
    refine .of_source fun _ f hf => ?_
    cases hf

section Lexed

variable (h : tokenize file src = .ok ts) (frames : Nat) (name : String)
include h

theorem tokenize_inFile_of_ok (file' : Symbol) :
    tokenize file' src = .ok (ts.moved (Position.inFile file')) := by
  rw [tokenize_inFile file, h]
  rfl

theorem reported_of_tokens : Reported frames .tokens name src
    ⟨.ok 0, String.join (ts.toList.map fun t => tokenLine t ++ "\n"), ""⟩ := by
  intro names file' hname
  have hmoved := tokenize_inFile_of_ok h file'
  refine ⟨?_, fun l => .tokens rfl fun e he => ?_⟩
  · rw [reportSource_of_tokens hmoved, TokenList.toList_moved, List.map_map]
    rfl
  · rw [parseExpression_eq_mapError hmoved] at he
    cases hparse : parseTokens (ts.moved (Position.inFile file')) with
    | error f =>
      rw [hparse] at he
      cases he
      exact ⟨f, rfl⟩
    | ok x =>
      rw [hparse] at he
      cases he

theorem reported_of_syntactic {e : SyntaxError} (hparse : parseTokens ts = .error e)
    (hmode : mode ≠ .tokens) :
    Reported frames mode name src (.failed (e.report.diagnostic name (some src))) := by
  intro names file' hname
  have hmoved := tokenize_inFile_of_ok h file'
  have herror := parseTokens_moved (Position.inFile file') ts
  rw [hparse] at herror
  constructor
  · rw [reportSource_of_syntactic hname hmoved herror hmode, SyntaxError.diagnostic_inFile]
  · intro l
    rw [parseExpression_eq_error hmoved herror]
    exact .of_source fun hm => absurd hm hmode

theorem parseExpression_inFile (hparse : parseTokens ts = .ok e) (file' : Symbol) :
    parseTokens (ts.moved (Position.inFile file')) = .ok (e.map (Span.moved (Position.inFile file'))) ∧
      parseExpression file' src = .ok (e.map (Span.moved (Position.inFile file'))) := by
  have htree := parseTokens_moved (Position.inFile file') ts
  rw [hparse] at htree
  exact ⟨htree, parseExpression_eq_ok (tokenize_inFile_of_ok h file') htree⟩

theorem reported_of_tree (hparse : parseTokens ts = .ok e) (hmode : mode ≠ .tokens)
    (hd : mode.callDepth e ≤ frames) : Reported frames mode name src (.printed (mode.text e)) := by
  intro names file' hname
  obtain ⟨htree, hexpr⟩ := parseExpression_inFile h hparse file'
  have hr := readable_of_parseExpression hexpr
  have hd' := (mode.callDepth_map (Span.moved (Position.inFile file')) e).trans_le hd
  constructor
  · rw [reportSource_of_tree (tokenize_inFile_of_ok h file') htree hmode,
      reportTree_eq hr hmode, if_pos hd', Mode.text, Expr.toJson_inFile, Expr.dumpText_map]
    rfl
  · intro l
    rw [hexpr]
    refine .tree hmode hd' fun hdump => ?_
    subst hdump
    rw [Mode.callDepth] at hd'
    rw [Expr.dumpWithin_eq hr.check, if_pos hd', Expr.dumpText_map]
    rfl

theorem reported_of_deepTree (hparse : parseTokens ts = .ok e) (hmode : mode ≠ .tokens)
    (hd : frames < mode.callDepth e) : Reported frames mode name src (.ended (.print .tooDeep)) := by
  intro names file' hname
  obtain ⟨htree, hexpr⟩ := parseExpression_inFile h hparse file'
  have hd' := hd.trans_eq (mode.callDepth_map (Span.moved (Position.inFile file')) e).symm
  constructor
  · rw [reportSource_of_tree (tokenize_inFile_of_ok h file') htree hmode,
      reportTree_eq (readable_of_parseExpression hexpr) hmode, if_neg (Nat.not_le_of_lt hd')]
  · intro l
    rw [hexpr]
    exact .tooDeep hmode hd'

end Lexed

theorem exists_reported (frames : Nat) (mode : Mode) (name src : String) :
    ∃ r, Reported frames mode name src r := by
  cases h : tokenize ⟨0⟩ src with
  | error e => exact ⟨_, reported_of_lexical h frames mode name⟩
  | ok ts =>
    by_cases hmode : mode = .tokens
    · exact ⟨_, hmode ▸ reported_of_tokens h frames name⟩
    · cases hparse : parseTokens ts with
      | error e => exact ⟨_, reported_of_syntactic h frames name hparse hmode⟩
      | ok e =>
        rcases Nat.lt_or_ge frames (mode.callDepth e) with hd | hd
        · exact ⟨_, reported_of_deepTree h frames name hparse hmode hd⟩
        · exact ⟨_, reported_of_tree h frames name hparse hmode hd⟩

end Source

/-- The report on a file does not hang on the files before it. -/
theorem exists_reportFile (m : Machine) (mode : Mode) (f : String) : ∃ r, ∀ names,
    (reportFile m mode false names f).1 = r ∧ Shows m.frames mode (parseFile m names f).1 r := by
  cases hl : m.follow f with
  | error fault =>
    refine ⟨.ended (.name fault), fun names => ?_⟩
    rw [reportFile, parseFile, hl]
    exact ⟨rfl, .nowhere⟩
  | ok l =>
    cases hload : loadText m.disk l with
    | error fault =>
      refine ⟨.failed (l.text ++ ": cannot read script: " ++ fault.message l), fun names => ?_⟩
      rw [reportFile, parseFile, hl]
      dsimp only
      rw [hload]
      exact ⟨rfl, .error (fun _ => nofun) fun _ _ => nofun⟩
    | ok src =>
      obtain ⟨r, hr⟩ := exists_reported m.frames mode l.text src
      refine ⟨r, fun names => ?_⟩
      obtain ⟨hreport, hshows⟩ := hr _ _ (names.resolve_intern l.text)
      rw [reportFile, parseFile, hl]
      dsimp only
      rw [hload]
      exact ⟨hreport, hshows l⟩

theorem reportFile_shows (m : Machine) (mode : Mode) (names names' : Interner) (f : String) :
    Shows m.frames mode (parseFile m names f).1 (reportFile m mode false names' f).1 := by
  obtain ⟨r, hr⟩ := exists_reportFile m mode f
  rw [(hr names').1]
  exact (hr names).2

/-! ## Many files -/

theorem reportFiles_eq (m : Machine) (mode : Mode) (names : Interner) (files : List String) :
    reportFiles m mode false names files =
      (files.map fun f => (reportFile m mode false .empty f).1).foldr Report.append .empty := by
  induction files generalizing names with
  | nil => rfl
  | cons f files ih =>
    obtain ⟨r, hr⟩ := exists_reportFile m mode f
    rw [reportFiles, List.map_cons, List.foldr_cons, ← ih (reportFile m mode false names f).2,
      (hr .empty).1, ← (hr names).1]

section Run

variable {m : Machine} {mode : Mode}

theorem run_eq {files : List String} (hdash : ∀ f ∈ files, ¬ Dashed f) (hne : files ≠ []) :
    run m (mode.arguments ++ files) = reportFiles m mode false .empty files := by
  rw [run, Request.ofArguments_mode mode hdash hne]
  simp only [mode.ofFlags_flags, mode.not_verbose]

theorem run_singleton {f : String} (hdash : ¬ Dashed f) :
    run m (mode.arguments ++ [f]) = (reportFile m mode false .empty f).1 := by
  rw [run_eq (List.forall_mem_singleton.2 hdash) (List.cons_ne_nil f [])]
  exact Report.append_empty _

/-- A run over files is a run over each of them alone, one after the other, up to the first one that
does not end with a status. -/
theorem run_eq_foldr {files : List String} (hdash : ∀ f ∈ files, ¬ Dashed f) (hne : files ≠ []) :
    run m (mode.arguments ++ files) =
      (files.map fun f => run m (mode.arguments ++ [f])).foldr Report.append .empty := by
  have hsingle : (files.map fun f => run m (mode.arguments ++ [f])) =
      files.map fun f => (reportFile m mode false .empty f).1 :=
    List.map_congr_left fun f hf => run_singleton (hdash f hf)
  rw [run_eq hdash hne, reportFiles_eq, hsingle]

theorem run_cons {f : String} {files : List String} (hf : ¬ Dashed f)
    (hdash : ∀ f ∈ files, ¬ Dashed f) (hne : files ≠ []) : run m (mode.arguments ++ f :: files) =
      (run m (mode.arguments ++ [f])).append (run m (mode.arguments ++ files)) := by
  rw [run_eq_foldr (List.forall_mem_cons.2 ⟨hf, hdash⟩) (List.cons_ne_nil _ _),
    run_eq_foldr hdash hne]
  rfl

/-- A name that leads nowhere ends the run. -/
theorem run_of_follow_eq_error {f : String} {fault : NameFault} (hdash : ¬ Dashed f)
    (hf : m.follow f = .error fault) : run m (mode.arguments ++ [f]) = .ended (.name fault) := by
  rw [run_singleton hdash, reportFile, hf]

/-- A file is read from the place that its name leads to. -/
theorem run_of_loadText {f src : String} {l : Location} (hdash : ¬ Dashed f) (hl : m.follow f = .ok l)
    (hload : loadText m.disk l = .ok src) : run m (mode.arguments ++ [f]) =
      reportSource m.frames mode false (Interner.empty.intern l.text).2 l.text
        (Interner.empty.intern l.text).1 src := by
  rw [run_singleton hdash, reportFile, hl]
  dsimp only
  rw [hload]

/-- A file whose name leads to a place, and whose tree is not too deep, ends with a status. -/
theorem Shows.ending {frames : Nat} {x : Except FileError (Location × Expr Span)} {r : Report}
    (h : Shows frames mode x r) (hplace : ∀ f, x ≠ .error (.name f))
    (hroom : ∀ l e, x = .ok (l, e) → mode.callDepth e ≤ frames) :
    r.ending = .ok 0 ∨ r.ending = .ok 1 := by
  cases h with
  | nowhere => exact absurd rfl (hplace _)
  | error => exact .inr rfl
  | tokens | tree => exact .inl rfl
  | tooDeep _ hd => exact absurd hd (Nat.not_lt_of_le (hroom _ _ rfl))

theorem Shows.out_of_error {frames : Nat} {e : FileError} {r : Report}
    (h : Shows frames mode (.error e) r) (he : mode = .tokens → ∀ f, e ≠ .source (.syntactic f)) :
    r.out = "" ∧ r.ending ≠ .ok 0 := by
  cases h with
  | nowhere => exact ⟨rfl, nofun⟩
  | error => exact ⟨rfl, by simp [Report.failed]⟩
  | tokens hmode herror =>
    obtain ⟨f, hf⟩ := herror e rfl
    exact absurd hf (he hmode f)

theorem Shows.of_tree {frames : Nat} {l : Location} {e : Expr Span} {r : Report}
    (h : Shows frames .dump (.ok (l, e)) r) (hr : r.ending = .ok 0 ∨ r.ending = .ok 1) :
    ∃ text, e.dumpWithin frames = .ok text ∧ r = ⟨.ok 0, text ++ "\n", ""⟩ := by
  cases h with
  | tokens hmode => cases hmode
  | tree _ _ hdump => exact ⟨_, hdump rfl, rfl⟩
  | tooDeep => rcases hr with hr | hr <;> cases hr

theorem parseFile_ne_name {f : String} {l : Location} (hl : m.follow f = .ok l) (names : Interner)
    (fault : NameFault) : (parseFile m names f).1 ≠ .error (.name fault) := by
  rw [parseFile, hl]
  dsimp only
  cases loadText m.disk l with
  | error => nofun
  | ok src =>
    dsimp only
    cases parseExpression (names.intern l.text).1 src <;> nofun

end Run

/-! ## Names and texts that are plain -/

section Plain

/-- Is the character a byte of its own, and no return? -/
def IsPlain (c : Char) : Prop := c.toNat < 128 ∧ c ≠ '\r'

instance (c : Char) : Decidable (IsPlain c) := inferInstanceAs (Decidable (_ ∧ _))

def plainBytes (cs : List Char) : List UInt8 := cs.map fun c => UInt8.ofNat c.toNat

theorem decodeFrom_plainBytes {cs : List Char} (h : ∀ c ∈ cs, IsPlain c) (i : Nat) :
    Text.Utf8.decodeFrom i (plainBytes cs) = .ok cs := by
  induction cs generalizing i with
  | nil => rfl
  | cons c cs ih =>
    obtain ⟨hc, hcs⟩ := List.forall_mem_cons.1 h
    have hbyte : (UInt8.ofNat c.toNat).toNat = c.toNat :=
      Nat.mod_eq_of_lt (Nat.lt_trans hc.1 (by decide))
    rw [plainBytes, List.map_cons, Text.Utf8.decodeFrom, hbyte, if_pos hc.1, Char.ofNat_toNat]
    show Except.map _ (Text.Utf8.decodeFrom (i + 1) (plainBytes cs)) = _
    rw [ih hcs]
    rfl

theorem unifyNewlines_of_plain {cs : List Char} (h : ∀ c ∈ cs, IsPlain c) :
    Text.unifyNewlines cs = cs := by
  induction cs with
  | nil => rfl
  | cons c cs ih =>
    obtain ⟨hc, hcs⟩ := List.forall_mem_cons.1 h
    rw [Text.unifyNewlines, if_neg hc.2, ih hcs]
    exact fun _ hreturn _ => hc.2 hreturn

theorem loadText_plainBytes {disk : Disk} {l : Location} {cs : List Char}
    (hread : disk.read l = .ok (plainBytes cs)) (h : ∀ c ∈ cs, IsPlain c) :
    loadText disk l = .ok (String.ofList cs) := by
  rw [loadText, hread]
  show Except.bind (Except.mapError _ (Text.Utf8.decodeFrom 0 (plainBytes cs))) _ = _
  rw [decodeFrom_plainBytes h]
  show Except.ok (String.ofList (Text.unifyNewlines cs)) = _
  rw [unifyNewlines_of_plain h]

end Plain

/-! ## Independence -/

/-- A run over files, none of whose names begins with a dash or leads nowhere, and none of which holds a
tree that is too deep for the stack, reports on each file as a run over that file alone does, one report
after the other, and ends with status one if one of these does. A file that cannot be read, or is not cut
into tokens, or, unless the tokens are listed, holds no expression, prints nothing. By default a file
ends with status zero and is dumped exactly if it holds an expression. -/
theorem run_files {m : Machine} {mode : Mode} {files : List String} (hne : files ≠ [])
    (hdash : ∀ f ∈ files, ¬ Dashed f) (hplace : ∀ f ∈ files, ∃ l, m.follow f = .ok l)
    (hroom : ∀ f ∈ files, ∀ l e, (parseFile m .empty f).1 = .ok (l, e) →
      mode.callDepth e ≤ m.frames) :
    let alone (f : String) : Report := run m (mode.arguments ++ [f])
    let joint : Report := run m (mode.arguments ++ files)
    joint.out = String.join (files.map fun f => (alone f).out) ∧
      joint.err = String.join (files.map fun f => (alone f).err) ∧
      (joint.ending = .ok 0 ∨ joint.ending = .ok 1) ∧
      (joint.ending = .ok 1 ↔ ∃ f ∈ files, (alone f).ending = .ok 1) ∧
      ∀ f ∈ files, ((alone f).ending = .ok 0 ∨ (alone f).ending = .ok 1) ∧ ∀ names,
        (∀ e, (parseFile m names f).1 = .error e →
          (mode = .tokens → ∀ s, e ≠ .source (.syntactic s)) → (alone f).out = "") ∧
        (mode = .dump →
          (∀ l e, (parseFile m names f).1 = .ok (l, e) →
            ∃ text, e.dumpWithin m.frames = .ok text ∧ alone f = ⟨.ok 0, text ++ "\n", ""⟩) ∧
          ((alone f).ending = .ok 0 → ∃ l e, (parseFile m names f).1 = .ok (l, e))) := by
  intro alone joint
  have hshows : ∀ f ∈ files, ∀ names, Shows m.frames mode (parseFile m names f).1 (alone f) := by
    intro f hf names
    show Shows _ _ _ (run m (mode.arguments ++ [f]))
    rw [run_singleton (hdash f hf)]
    exact reportFile_shows m mode names .empty f
  have hending : ∀ f ∈ files, (alone f).ending = .ok 0 ∨ (alone f).ending = .ok 1 := by
    intro f hf
    obtain ⟨l, hl⟩ := hplace f hf
    exact (hshows f hf .empty).ending (parseFile_ne_name hl .empty) (hroom f hf)
  have hjoint : joint = (files.map alone).foldr Report.append .empty := run_eq_foldr hdash hne
  obtain ⟨hout, herr, hstatus, hone⟩ := Report.foldr_append (List.forall_mem_map.2 hending)
  rw [← hjoint] at hout herr hstatus hone
  refine ⟨?_, ?_, hstatus, ?_, fun f hf => ⟨hending f hf, fun names => ⟨fun e he hmode => ?_,
    fun hmode => ⟨fun l e he => ?_, fun hzero => ?_⟩⟩⟩⟩
  · rw [hout, List.map_map]
    rfl
  · rw [herr, List.map_map]
    rfl
  · simpa only [List.mem_map, exists_exists_and_eq_and] using hone
  · have h := hshows f hf names
    rw [he] at h
    exact (h.out_of_error hmode).1
  · have h := hshows f hf names
    rw [he, hmode] at h
    exact h.of_tree (hending f hf)
  · have h := hshows f hf names
    cases hparse : (parseFile m names f).1 with
    | ok x => exact ⟨x.1, x.2, rfl⟩
    | error e =>
      rw [hparse] at h
      exact absurd hzero (h.out_of_error fun hm => by rw [hmode] at hm; cases hm).2

/-- A file that is there is dumped as often as it is named, be it through a link, and one that is
missing is passed over. -/
theorem run_files_missing :
    let disk : Disk := ⟨fun l => if l = ⟨["z"]⟩ then some "x" else none, fun _ => false,
      fun l => if l = ⟨["x"]⟩ then .ok (plainBytes ['x']) else .error .notFound⟩
    let m : Machine := ⟨⟨.root, .root, []⟩, disk, stackFrames⟩
    let files := ["x", "y", "z"]
    files ≠ [] ∧ (∀ f ∈ files, ¬ Dashed f) ∧ (∀ f ∈ files, ∃ l, m.follow f = .ok l) ∧
      (∀ f ∈ files, ∀ l e, (parseFile m .empty f).1 = .ok (l, e) → Mode.dump.callDepth e ≤ m.frames) ∧
      (run m files).out = "x\nx\n" ∧ (run m files).ending = .ok 1 := by
  intro disk m files
  have hdash : ∀ f ∈ files, ¬ Dashed f := by decide
  have hx : m.follow "x" = .ok ⟨["x"]⟩ := rfl
  have hy : m.follow "y" = .ok ⟨["y"]⟩ := rfl
  have hz : m.follow "z" = .ok ⟨["x"]⟩ := rfl
  have hplace : ∀ f ∈ files, ∃ l, m.follow f = .ok l := by
    simp only [files, List.forall_mem_cons]
    exact ⟨⟨_, hx⟩, ⟨_, hy⟩, ⟨_, hz⟩, List.forall_mem_nil _⟩
  let tree : Expr Span := .identifier (.point (.startOf ⟨0⟩)) "x"
  have hfound {f : String} (hf : m.follow f = .ok ⟨["x"]⟩) :
      (parseFile m .empty f).1 = .ok (⟨["x"]⟩, tree) := by
    have hletter : Lexeme.ofText 'x' [] = .token .name ['x'] [] := by decide
    have hcut : Cuts "x".toList [⟨[], .name, ['x']⟩] [] :=
      .piece .nil (.of_ofText hletter (by decide)) (.last .nil)
    have hspelled := @Expr.Spelled.identifier ⟨.name, "x", .point (.startOf ⟨0⟩)⟩ "x" rfl
    have htree : parseExpression ⟨0⟩ "x" = .ok tree :=
      parseExpression_eq_ok_iff.2 ⟨_, [], hcut, hspelled, by decide, by decide⟩
    have hload : loadText disk ⟨["x"]⟩ = .ok "x" := loadText_plainBytes rfl (by simp [IsPlain])
    rw [parseFile, hf]
    dsimp only
    rw [hload]
    show Except.map _ (Except.mapError _ (parseExpression ⟨0⟩ "x")) = _
    rw [htree]
    rfl
  have hmissing : (parseFile m .empty "y").1 = .error (.load ⟨["y"]⟩ (.read .notFound)) := by
    rw [parseFile, hy]
    rfl
  have hroom : ∀ f ∈ files, ∀ l e, (parseFile m .empty f).1 = .ok (l, e) →
      Mode.dump.callDepth e ≤ m.frames := by
    have htree {f : String} (hf : m.follow f = .ok ⟨["x"]⟩) : ∀ l e,
        (parseFile m .empty f).1 = .ok (l, e) → Mode.dump.callDepth e ≤ m.frames := by
      intro l e h
      cases (hfound hf).symm.trans h
      decide
    simp only [files, List.forall_mem_cons]
    refine ⟨htree hx, fun l e h => ?_, htree hz, List.forall_mem_nil _⟩
    rw [hmissing] at h
    cases h
  obtain ⟨hout, -, -, hone, halone⟩ :=
    @run_files m .dump files (List.cons_ne_nil _ _) hdash hplace hroom
  have hdumped {f : String} (hf : f ∈ files) (hl : m.follow f = .ok ⟨["x"]⟩) :
      run m [f] = ⟨.ok 0, "x\n", ""⟩ := by
    obtain ⟨text, hdump, h⟩ := ((halone f hf).2 .empty).2 rfl |>.1 _ _ (hfound hl)
    cases hdump.symm.trans (show _ = .ok "x" by decide)
    exact h
  have hfailed : run m ["y"] = (reportFile m .dump false .empty "y").1 :=
    @run_singleton m .dump "y" (by decide)
  rw [reportFile, hy] at hfailed
  refine ⟨List.cons_ne_nil _ _, hdash, hplace, hroom, ?_, ?_⟩
  · refine hout.trans ?_
    show String.join [(run m ["x"]).out, (run m ["y"]).out, (run m ["z"]).out] = _
    rw [hdumped (by decide) hx, hfailed, hdumped (by decide) hz]
    rfl
  · refine hone.2 ⟨"y", by decide, ?_⟩
    show (run m ["y"]).ending = _
    rw [hfailed]
    rfl

section Limits

variable {m : Machine} {f : String} {l : Location}

/-- A sum that the stack has no room for ends the run. -/
theorem run_of_sum (hdash : ¬ Dashed f) (hl : m.follow f = .ok l) {n : Nat}
    (hload : loadText m.disk l = .ok (String.ofList (Expr.sum n).sourceChars)) (hn : m.frames ≤ n) :
    run m [f] = .ended (.print .tooDeep) := by
  have hrun : run m [f] = _ := @run_of_loadText m .dump f _ l hdash hl hload
  obtain ⟨e, he, -, hdump⟩ := Expr.parseExpression_sum (Interner.empty.intern l.text).1 n
  obtain ⟨ts, hts, hparse⟩ := exists_parseTokens_eq_ok he
  rw [hrun, reportSource_of_tree hts hparse (by decide), reportTree, if_neg (by decide), hdump _ hn]

theorem isPlain_of_mem_sum {n : Nat} {c : Char} (hc : c ∈ (Expr.sum n).sourceChars) : IsPlain c := by
  have hterm : ∀ c ∈ [' ', '+', ' ', 'a'], IsPlain c := by simp [IsPlain]
  rw [Expr.sourceChars_sum] at hc
  rcases List.mem_cons.1 hc with rfl | hc
  · decide
  · obtain ⟨cs, hcs, hc⟩ := List.mem_flatten.1 hc
    rw [List.eq_of_mem_replicate hcs] at hc
    exact hterm c hc

theorem tokenize_empty (file : Symbol) : tokenize file "" = .ok ⟨[], .eof (.startOf file), rfl⟩ :=
  @Cursor.tokens_of_eof (.ofText file "") [] (by simp [Cursor.ofText, Scan.ofText, Gap.ofText])

theorem parseTokens_nil (file : Symbol) :
    ∃ e, parseTokens ⟨[], .eof (.startOf file), rfl⟩ = .error e := by
  cases h : parseTokens ⟨[], .eof (.startOf file), rfl⟩ with
  | error e => exact ⟨e, rfl⟩
  | ok e =>
    obtain ⟨us, rest, hfront, -, hs, -⟩ := parseTokens_eq_ok_iff.1 h
    exact absurd (List.append_eq_nil_iff.1 hfront.symm).1 hs.ne_nil

/-- Of a file without an expression the tokens are listed all the same. -/
theorem run_of_empty (hdash : ¬ Dashed f) (hl : m.follow f = .ok l)
    (hload : loadText m.disk l = .ok "") :
    (∃ e, (parseFile m .empty f).1 = .error (.source (.syntactic e))) ∧
      (run m ["--tokens", f]).out = "(1:1 - 1:1)\tEOF\t''\n" := by
  constructor
  · obtain ⟨e, he⟩ := parseTokens_nil (Interner.empty.intern l.text).1
    refine ⟨e, ?_⟩
    rw [parseFile, hl]
    dsimp only
    rw [hload]
    show Except.map _ (Except.mapError _ (parseExpression _ "")) = _
    rw [parseExpression_eq_error (tokenize_empty _) he]
    rfl
  · have hrun : run m ["--tokens", f] = _ := @run_of_loadText m .tokens f _ l hdash hl hload
    have hline : tokenLine (.eof (.startOf ⟨0⟩)) = "(1:1 - 1:1)\tEOF\t''" := by decide +kernel
    rw [hrun, reportSource_of_tokens (tokenize_empty _)]
    show String.join [tokenLine (.eof (.startOf ⟨0⟩)) ++ "\n"] = _
    rw [hline]
    rfl

end Limits

/-- A file is not always for itself, and not always silent. A run over many files ends where a name leads
nowhere, because a user has no home, which a tilde stands for behind a dot as well, or because of a link
to itself, and at a sum that is too long to be dumped; and of a file without an expression the tokens are
listed all the same. -/
theorem run_files_limits :
    let disk : Disk := ⟨fun l => if l = ⟨["l"]⟩ then some "l" else none, fun l => l = ⟨["l"]⟩,
      fun l => if l = ⟨["e"]⟩ then .ok []
        else if l = ⟨["s"]⟩ then .ok (plainBytes (Expr.sum 1000).sourceChars)
        else .error .notFound⟩
    let m : Machine := ⟨⟨.root, .root, []⟩, disk, stackFrames⟩
    (∀ f ∈ ["e", "l", "n", "s", "./~u"],
        ¬ Dashed f ∧ f.toList.head? ≠ some '~' ∧ '\x00' ∉ f.toList) ∧
      (run m ["n"]).ending = .ok 1 ∧
      (run m ["n", "./~u"]).ending = .error (.name .unknownHome) ∧
      (run m ["n", "l"]).ending = .error (.name (.linkLoop ⟨["l"]⟩)) ∧
      run m ["s", "n"] = .ended (.print .tooDeep) ∧
      (∃ e, (parseFile m .empty "e").1 = .error (.source (.syntactic e))) ∧
      (run m ["--tokens", "e"]).out = "(1:1 - 1:1)\tEOF\t''\n" := by
  intro disk m
  have hempty : m.follow "e" = .ok ⟨["e"]⟩ := rfl
  have hnone : m.follow "n" = .ok ⟨["n"]⟩ := rfl
  have hsum : m.follow "s" = .ok ⟨["s"]⟩ := rfl
  have hloop : m.follow "l" = .error (.linkLoop ⟨["l"]⟩) := rfl
  have hhome : m.follow "./~u" = .error .unknownHome := rfl
  have hfailed : (run m ["n"]).ending = .ok 1 := by
    have hrun : run m ["n"] = _ := @run_singleton m .dump "n" (by decide)
    rw [hrun, reportFile, hnone]
    rfl
  have hbehind {f : String} {fault : RunFault} (hdash : ¬ Dashed f) (hf : run m [f] = .ended fault) :
      (run m ["n", f]).ending = .error fault := by
    have hjoint : run m ["n", f] = (run m ["n"]).append (run m [f]) :=
      @run_cons m .dump "n" [f] (by decide) (List.forall_mem_singleton.2 hdash)
        (List.cons_ne_nil f [])
    rw [hjoint, hf, Report.append, hfailed]
    rfl
  have hdeep : run m ["s", "n"] = .ended (.print .tooDeep) := by
    have hload : loadText disk ⟨["s"]⟩ = .ok (String.ofList (Expr.sum 1000).sourceChars) :=
      loadText_plainBytes rfl fun _ => isPlain_of_mem_sum
    have hjoint : run m ["s", "n"] = (run m ["s"]).append (run m ["n"]) :=
      @run_cons m .dump "s" ["n"] (by decide) (by decide) (List.cons_ne_nil _ _)
    rw [hjoint, run_of_sum (by decide) hsum hload (Nat.le_refl _)]
    rfl
  exact ⟨by decide, hfailed,
    hbehind (by decide) (@run_of_follow_eq_error m .dump "./~u" _ (by decide) hhome),
    hbehind (by decide) (@run_of_follow_eq_error m .dump "l" _ (by decide) hloop), hdeep,
    run_of_empty (by decide) hempty (by decide +kernel)⟩

end Command

end ScriptSyntax
