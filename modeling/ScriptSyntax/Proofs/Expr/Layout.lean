/-
Layout does not matter. Blanks and comments that a source takes in at its front or right behind a
lexeme, beginning with a blank, leave it the same tokens in other places (`Cuts.tokens_filler`), and
where tokens stand has no say in what they are read as. So the source is read as the same tree but
for its spans, or is refused for the same reason at the same token (`parseExpression_filler`).
-/
import ScriptSyntax.Proofs.Expr.RoundTrip
import ScriptSyntax.Proofs.Source.Moved

namespace ScriptSyntax

open Text

/-! ## Fillers -/

/-- A blank, a line comment with its newline, or a block comment. -/
inductive FillerPart : List Char → Prop
  | blank {c : Char} : isBlank c = true → FillerPart [c]
  | line {body : List Char} : '\n' ∉ body → FillerPart ('/' :: '/' :: body ++ ['\n'])
  | block {body : List Char} : ¬ ['*', '/'] <:+: body ++ ['*'] →
      FillerPart ('/' :: '*' :: body ++ ['*', '/'])

/-- Blanks and comments, a blank the first of them. -/
inductive Filler : List Char → Prop
  | mk {c : Char} {parts : List (List Char)} : isBlank c = true →
      (∀ part ∈ parts, FillerPart part) → Filler (c :: parts.flatten)

theorem FillerPart.isGap {part : List Char} (h : FillerPart part) (rest : List Char) :
    IsGap part rest := by
  rw [← List.append_nil part]
  cases h with
  | blank hc => exact .cons (.blank hc) .nil
  | line hb =>
    rw [List.append_assoc]
    exact .cons (.line hb (endsRun_cons.2 rfl)) (.cons (.blank isBlank_newline) .nil)
  | block hb => exact .cons (.block hb) .nil

theorem isGap_flatten {parts : List (List Char)} (h : ∀ part ∈ parts, FillerPart part)
    (rest : List Char) : IsGap parts.flatten rest := by
  induction parts with
  | nil => exact .nil
  | cons part parts ih =>
    obtain ⟨hpart, hparts⟩ := List.forall_mem_cons.1 h
    rw [List.flatten_cons]
    exact (hpart.isGap _).append (ih hparts)

/-- A filler is a gap in front of anything. -/
theorem Filler.isGap {filler : List Char} (h : Filler filler) (rest : List Char) :
    IsGap filler rest := by
  obtain ⟨hc, hparts⟩ := h
  exact .cons (.blank hc) (isGap_flatten hparts rest)

theorem Stands.of_filler {ps : List Piece} {rest filler : List Char} (h : Stands ps rest)
    (hf : Filler filler) (rest' : List Char) : Stands ps (filler ++ rest') := by
  obtain ⟨hc, -⟩ := hf
  exact h.of_blank hc _

/-! ## Tokens -/

/-- Lexemes give the same tokens wherever their text begins, but for the places. -/
theorem placed_moved (r p p' : Position) (ps : List Piece) :
    (placed p ps).map (Token.moved fun _ => r) = (placed p' ps).map (Token.moved fun _ => r) := by
  induction ps generalizing p p' with
  | nil => rfl
  | cons piece ps ih => exact congrArg (_ :: ·) (ih _ _)

theorem Stands.left {ps qs : List Piece} {rest : List Char} (h : Stands (ps ++ qs) rest) :
    Stands ps (qs.flatMap Piece.text ++ rest) := by
  induction ps with
  | nil => exact .nil
  | cons piece ps ih =>
    rw [List.cons_append] at h
    cases h with
    | cons hg hat hs =>
      rw [List.flatMap_append, List.append_assoc] at hg hat
      exact .cons hg hat (ih hs)

/-- A filler between lexemes leaves the same tokens, in other places. -/
theorem Cuts.tokens_filler {cs last filler : List Char} {ps qs : List Piece}
    (h : Cuts cs (ps ++ qs) last) (hf : Filler filler) (p r : Position) :
    ∃ ts ts', Cursor.tokens ⟨p, cs⟩ = .ok ts ∧
      Cursor.tokens ⟨p, ps.flatMap Piece.text ++ (filler ++ (qs.flatMap Piece.text ++ last))⟩ = .ok ts' ∧
      ts'.moved (fun _ => r) = ts.moved fun _ => r := by
  have hs : Stands ps (qs.flatMap Piece.text ++ last) := (cuts_iff_stands.1 h).2.1.left
  have hread := (hs.of_filler hf (qs.flatMap Piece.text ++ last)).tokens p
  rw [Cursor.tokens_gap (hf.isGap _), h.drop.tokens_eq] at hread
  refine ⟨_, _, h.tokens_eq p, hread, ?_⟩
  rw [placed_append]
  simp only [TokenList.moved, TokenList.prepend, List.map_append]
  rw [placed_moved r _ (p.advanceBy (ps.flatMap Piece.text)) qs]
  rfl

/-- Behind a token, or at the front, a cut can be parted. -/
theorem Cuts.exists_parted {cs last : List Char} {ps : List Piece} {file : Symbol} {n : Nat}
    (h : Cuts cs ps last) (hn : n = 0 ∨ ∃ t ∈ placed (.startOf file) ps,
      (n : Int) = t.span.stop.offset + 1) :
    ∃ qs rs, ps = qs ++ rs ∧ cs.take n = qs.flatMap Piece.text ∧
      cs.drop n = rs.flatMap Piece.text ++ last := by
  obtain ⟨qs, rs, rfl, hlen⟩ : ∃ qs rs, ps = qs ++ rs ∧ n = (qs.flatMap Piece.text).length := by
    rcases hn with rfl | ⟨t, ht, hn⟩
    · exact ⟨[], ps, rfl, rfl⟩
    obtain ⟨us, vs, hplaced⟩ := List.append_of_mem ht
    rw [← List.singleton_append, ← List.append_assoc] at hplaced
    obtain ⟨qs, rs, rfl, hqs, -⟩ := placed_eq_append hplaced
    have hlast : (placed (.startOf file) qs).getLast? = some t := by
      rw [← hqs, List.getLast?_concat]
    obtain ⟨hstop, -⟩ := stop_getLast_placed h.take hlast
    refine ⟨qs, rs, rfl, ?_⟩
    have hzero : (Position.startOf file).offset = 0 := rfl
    omega
  refine ⟨qs, rs, rfl, ?_, ?_⟩
  · rw [h.text_eq, List.flatMap_append, List.append_assoc, hlen, List.take_left]
  · rw [h.text_eq, List.flatMap_append, List.append_assoc, hlen, List.drop_left]

/-! ## Trees and faults -/

/-- The sort of an error without the place where something was left open. -/
def ErrorSort.unplaced : ErrorSort → ErrorSort
  | .unterminated _ => .unterminated none
  | sort => sort

theorem ErrorSort.unplaced_moved (g : Position → Position) (s : ErrorSort) :
    (s.moved g).unplaced = s.unplaced := by
  cases s <;> rfl

/-- Faults that are the same but for their places are put into the same words. -/
theorem SyntaxError.report_eq_of_moved {g : Position → Position} {f f' : SyntaxError}
    (h : f'.moved g = f.moved g) : f'.report.message = f.report.message ∧
      f'.report.sort.unplaced = f.report.sort.unplaced := by
  have hcause : f'.cause.moved g = f.cause.moved g := congrArg SyntaxError.cause h
  constructor
  · show f'.cause.message = f.cause.message
    rw [← SyntaxCause.message_moved g, hcause, SyntaxCause.message_moved]
  · show f'.cause.sort.unplaced = f.cause.sort.unplaced
    rw [← ErrorSort.unplaced_moved g, ← SyntaxCause.sort_moved, hcause, SyntaxCause.sort_moved,
      ErrorSort.unplaced_moved]

/-- Reading fails at the token where it stops. -/
theorem exists_next_of_parse {ts : TokenList} {f : SyntaxError} {s : Session}
    (h : (Session.ofTokens ts).parse = (.error f, s)) :
    ∃ t, ts.toList[s.index]? = some t ∧ f.span = t.span := by
  obtain ⟨us, rest, hfront, hindex, hstuck⟩ := exists_stuck h
  refine ⟨_, ?_, hstuck.pointsAt.span⟩
  obtain ⟨-, htake⟩ := take_toList hfront
  rw [hindex, ← List.getElem?_take_of_lt (Nat.lt_succ_self _), htake, List.getElem?_concat_length]

section Parse

variable {r : Position} {ts ts' : TokenList} (h : ts'.moved (fun _ => r) = ts.moved fun _ => r)
include h

theorem kinds_eq_of_moved : ts'.toList.map (fun t => (t.kind, t.lexeme, t.value?)) =
    ts.toList.map fun t => (t.kind, t.lexeme, t.value?) := by
  have key (us : TokenList) : us.toList.map (fun t => (t.kind, t.lexeme, t.value?)) =
      (us.moved fun _ => r).toList.map fun t => (t.kind, t.lexeme, t.value?) := by
    simp only [TokenList.toList, TokenList.moved, List.map_append, List.map_map]
    rfl
  rw [key ts', h, ← key ts]

theorem parseTokens_eq_of_moved :
    ((parseTokens ts').map (Expr.map (Span.moved fun _ => r))).mapError (SyntaxError.moved fun _ => r) =
        ((parseTokens ts).map (Expr.map (Span.moved fun _ => r))).mapError
          (SyntaxError.moved fun _ => r) ∧
      (Session.ofTokens ts').parse.2.index = (Session.ofTokens ts).parse.2.index := by
  have hsession : (Session.ofTokens ts').moved (fun _ => r) = (Session.ofTokens ts).moved fun _ => r := by
    simp only [Session.moved, Session.ofTokens, h]
  have hparse := Session.parse_moved (g := fun _ => r) (.ofTokens ts')
  rw [hsession, Session.parse_moved] at hparse
  exact ⟨(congrArg Prod.fst hparse).symm, (congrArg (·.2.index) hparse).symm⟩

theorem exists_tree_of_moved {e : Expr Span} (he : parseTokens ts = .ok e) :
    ∃ e', parseTokens ts' = .ok e' ∧ e'.bare = e.bare := by
  obtain ⟨heq, -⟩ := parseTokens_eq_of_moved h
  rw [he] at heq
  cases he' : parseTokens ts' with
  | error f => rw [he'] at heq; cases heq
  | ok e' =>
    rw [he'] at heq
    have hmap : e'.map (Span.moved fun _ => r) = e.map (Span.moved fun _ => r) := Except.ok.inj heq
    refine ⟨e', rfl, ?_⟩
    rw [← Expr.bare_map (Span.moved fun _ => r), hmap, Expr.bare_map]

theorem exists_fault_of_moved {f : SyntaxError} (hf : parseTokens ts = .error f) :
    ∃ f', parseTokens ts' = .error f' ∧ f'.report.message = f.report.message ∧
      f'.report.sort.unplaced = f.report.sort.unplaced ∧
      ∃ k t t', (Session.ofTokens ts).parse.2.index = k ∧ (Session.ofTokens ts').parse.2.index = k ∧
        ts.toList[k]? = some t ∧ ts'.toList[k]? = some t' ∧ f.span = t.span ∧ f'.span = t'.span := by
  obtain ⟨heq, hindex⟩ := parseTokens_eq_of_moved h
  rw [hf] at heq
  cases hf' : parseTokens ts' with
  | ok e => rw [hf'] at heq; cases heq
  | error f' =>
    rw [hf'] at heq
    obtain ⟨hmessage, hsort⟩ := SyntaxError.report_eq_of_moved (Except.error.inj heq)
    obtain ⟨t, ht, hspan⟩ := exists_next_of_parse (Prod.ext hf rfl)
    obtain ⟨t', ht', hspan'⟩ := exists_next_of_parse (Prod.ext hf' rfl)
    rw [hindex] at ht'
    exact ⟨f', rfl, hmessage, hsort, _, t, t', rfl, hindex, ht, ht', hspan, hspan'⟩

end Parse

/-- A filler at the front of a source, or right behind one of its tokens, changes no token but for
the places, and nothing of what the tokens are read as: the tree is the same but for its spans, or
the fault is the same, at the same token. -/
theorem parseExpression_filler {file : Symbol} {src : String} {ts : TokenList} {n : Nat}
    {filler : List Char} (h : tokenize file src = .ok ts)
    (hn : n = 0 ∨ ∃ t ∈ ts.toList, t.kind ≠ .eof ∧ (n : Int) = t.span.stop.offset + 1)
    (hf : Filler filler) :
    let src' := String.ofList (src.toList.take n ++ filler ++ src.toList.drop n)
    ∃ ts', tokenize file src' = .ok ts' ∧
      ts'.toList.map (fun t => (t.kind, t.lexeme, t.value?)) =
        ts.toList.map (fun t => (t.kind, t.lexeme, t.value?)) ∧
      (∀ e, parseExpression file src = .ok e → ∃ e', parseExpression file src' = .ok e' ∧
        e'.bare = e.bare ∧ e'.dump = e.dump ∧ e'.format = e.format) ∧
      (∀ e, parseExpression file src = .error e → ∃ e', parseExpression file src' = .error e' ∧
        e'.report.message = e.report.message ∧
        e'.report.sort.unplaced = e.report.sort.unplaced ∧
        ∃ k t t', (Session.ofTokens ts).parse.2.index = k ∧
          (Session.ofTokens ts').parse.2.index = k ∧ ts.toList[k]? = some t ∧
          ts'.toList[k]? = some t' ∧ e.report.span = t.span ∧ e'.report.span = t'.span) := by
  intro src'
  obtain ⟨ps, last, hcut, hts⟩ := tokenize_eq_ok_iff.1 h
  have hplace : n = 0 ∨ ∃ t ∈ placed (.startOf file) ps, (n : Int) = t.span.stop.offset + 1 := by
    rcases hn with hn | ⟨t, ht, hkind, hn⟩
    · exact .inl hn
    · rw [hts] at ht
      rcases List.mem_append.1 ht with ht | ht
      · exact .inr ⟨t, ht, hn⟩
      · rw [List.mem_singleton.1 ht] at hkind
        exact absurd rfl hkind
  obtain ⟨qs, rs, rfl, htake, hdrop⟩ := hcut.exists_parted hplace
  obtain ⟨us, ts', hus, hts', hmoved⟩ := hcut.tokens_filler hf (.startOf file) (.startOf file)
  cases h.symm.trans hus
  have htext : src'.toList = qs.flatMap Piece.text ++ (filler ++ (rs.flatMap Piece.text ++ last)) := by
    rw [String.toList_ofList, htake, hdrop, List.append_assoc]
  have hsrc' : tokenize file src' = .ok ts' := by
    show Cursor.tokens ⟨.startOf file, src'.toList⟩ = _
    rw [htext, hts']
  refine ⟨ts', hsrc', kinds_eq_of_moved hmoved, ?_, ?_⟩
  · intro e he
    rw [parseExpression_eq_mapError h] at he
    cases hp : parseTokens ts with
    | error f => rw [hp] at he; cases he
    | ok x =>
      rw [hp] at he
      cases he
      obtain ⟨e', he', hbare⟩ := exists_tree_of_moved hmoved hp
      refine ⟨e', by rw [parseExpression_eq_mapError hsrc', he']; rfl, hbare, ?_, ?_⟩
      · rw [← Expr.dump_bare, hbare, Expr.dump_bare]
      · rw [← Expr.format_bare, hbare, Expr.format_bare]
  · intro e he
    rw [parseExpression_eq_mapError h] at he
    cases hp : parseTokens ts with
    | ok x => rw [hp] at he; cases he
    | error f =>
      rw [hp] at he
      cases he
      obtain ⟨f', hf', hmessage, hsort, hindex⟩ := exists_fault_of_moved hmoved hp
      exact ⟨.syntactic f', by rw [parseExpression_eq_mapError hsrc', hf']; rfl, hmessage, hsort, hindex⟩

/-- The filler ends before the operator, which begins no comment with it. -/
theorem parseExpression_filler_before_slash :
    let p (k : Nat) : Position := ⟨1, k + 1, k, ⟨0⟩⟩
    let e : Expr Span :=
      .binary ⟨p 0, p 2⟩ .div (.identifier (.point (p 0)) "a") (.identifier (.point (p 2)) "b")
    parseExpression ⟨0⟩ "a/b" = .ok e ∧ Filler " //*\n".toList ∧
      ∃ e', parseExpression ⟨0⟩ "a //*\n/b" = .ok e' ∧ e'.bare = e.bare := by
  intro p e
  have ha : Lexeme.ofText 'a' ['/', 'b'] = .token .name ['a'] ['/', 'b'] := by decide
  have hslash : Lexeme.ofText '/' ['b'] = .token (.mark .slash) ['/'] ['b'] := by decide
  have hb : Lexeme.ofText 'b' [] = .token .name ['b'] [] := by decide
  have hcut : Cuts "a/b".toList
      [⟨[], .name, ['a']⟩, ⟨[], .mark .slash, ['/']⟩, ⟨[], .name, ['b']⟩] [] :=
    .piece .nil (.of_ofText ha (by decide)) (.piece .nil (.of_ofText hslash (by decide))
      (.piece .nil (.of_ofText hb (by decide)) (.last .nil)))
  let token (k : Nat) (m : Meaning) (s : String) : Token := ⟨m, s, .point (p k)⟩
  have hname : ∀ k s, (Expr.identifier (.point (p k)) s).Spelled [token k .name s] :=
    fun k s => @Expr.Spelled.identifier (token k .name s) s rfl
  have hspelled := @Expr.Spelled.binary (token 1 (.mark .slash) "/") .div _ _ _ _
    (hname 0 "a") rfl (hname 2 "b")
  have he : parseExpression ⟨0⟩ "a/b" = .ok e :=
    parseExpression_eq_ok_iff.2 ⟨_, [], hcut, hspelled, by decide, by decide⟩
  have hf : Filler " //*\n".toList :=
    @Filler.mk ' ' [['/', '/', '*', '\n']] (by decide)
      (List.forall_mem_singleton.2 (@FillerPart.line ['*'] (by decide)))
  have hn : ∃ t ∈ (TokenList.mk (placed (.startOf ⟨0⟩) [⟨[], .name, ['a']⟩,
      ⟨[], .mark .slash, ['/']⟩, ⟨[], .name, ['b']⟩]) (.eof (p 3)) rfl).toList,
      t.kind ≠ .eof ∧ ((1 : Nat) : Int) = t.span.stop.offset + 1 :=
    ⟨_, List.mem_cons_self .., nofun, rfl⟩
  obtain ⟨ts', -, -, htree, -⟩ := parseExpression_filler (hcut.tokenize_eq ⟨0⟩) (.inr hn) hf
  obtain ⟨e', he', hbare, -, -⟩ := htree e he
  exact ⟨he, hf, e', he', hbare⟩

end ScriptSyntax
