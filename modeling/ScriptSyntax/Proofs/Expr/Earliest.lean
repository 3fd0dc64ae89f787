/-
Faults are reported at the earliest token. Of a list that ends where its only end of the input
stands, a failing parse blames the token at the index where it stops: every list that begins with the
tokens through that one fails with the same fault at the same index, and, unless the levels were too
many, some list that begins with the tokens before it is read (`parse_error_earliest`). An open
parenthesis is reported at the end of the input only, and it is the innermost one that nothing closes.

That more levels change no other fault also says what becomes of a tree that is too deep: the tokens
that spell it are read with more levels, so without them nothing but the levels can be at fault
(`parseTokens_tooDeep`).
-/
import ScriptSyntax.Proofs.Expr.Blame

namespace ScriptSyntax

/-! ## Sessions that fail -/

namespace Session

variable {s : Session} {us rest : List Token}

theorem index_leaving (h : s.rest = us ++ rest) :
    (s.leaving rest.length).index = s.index + us.length := by
  have hi := s.index_le
  have hlen := s.length_rest
  rw [h, List.length_append] at hlen
  simp only [leaving]
  omega

theorem next_leaving (h : s.rest = us ++ rest) :
    (s.leaving rest.length).next = rest.headD s.tokens.last := by
  have hrest : (s.leaving rest.length).rest = rest := by
    show s.tokens.front.drop (s.leaving rest.length).index = rest
    rw [index_leaving h, ← List.drop_drop]
    show s.rest.drop us.length = rest
    rw [h, List.drop_left]
  rw [next, hrest]
  rfl

theorem parse_of_fails {f : SyntaxError}
    (h : (ScriptSyntax.parseExpr s.tokens.last maxNesting 1 s.rest).Fails f rest) :
    s.parse = (.error f, s.leaving rest.length) := by
  have hexpr : s.parseExpr Precedence.assignment.rank = (.error f, s.leaving rest.length) := by
    rw [← h.1, ← h.2]
    rfl
  rw [parse, hexpr]

theorem parse_of_gives {e : Expr Span} (hrest : s.rest = us ++ rest)
    (h : (ScriptSyntax.parseExpr s.tokens.last maxNesting 1 s.rest).Gives e rest) :
    s.parse = ((SyntaxError.atEnd? (rest.headD s.tokens.last)).elim (.ok e) .error,
      s.leaving rest.length) := by
  have hexpr : s.parseExpr Precedence.assignment.rank = (.ok e, s.leaving rest.length) := by
    rw [← h.1, ← h.2]
    rfl
  rw [parse, hexpr]
  simp only [next_leaving hrest]
  cases SyntaxError.atEnd? (rest.headD s.tokens.last) <;> rfl

/-- A session fails where reading fails, or where a whole expression has been read and something
else than the end of the input stands behind it. -/
theorem exists_of_parse_eq_error {f : SyntaxError} {s' : Session} (h : s.parse = (.error f, s')) :
    ∃ us rest, s.rest = us ++ rest ∧ s' = s.leaving rest.length ∧
      (Blame (fun last room => ScriptSyntax.parseExpr last room 1) s.tokens.last maxNesting us rest f ∨
        ∃ e, (ScriptSyntax.parseExpr s.tokens.last maxNesting 1 s.rest).Gives e rest ∧
          SyntaxError.atEnd? (rest.headD s.tokens.last) = some f) := by
  cases hr : (ScriptSyntax.parseExpr s.tokens.last maxNesting 1 s.rest).tree with
  | error g =>
    rw [parse_of_fails ⟨hr, rfl⟩] at h
    cases h
    obtain ⟨us, hus, hb⟩ := parseExpr_blame s.tokens.last_eof ⟨hr, rfl⟩
    exact ⟨us, _, hus, rfl, .inl hb⟩
  | ok e =>
    have hg : (ScriptSyntax.parseExpr s.tokens.last maxNesting 1 s.rest).Gives e _ := ⟨hr, rfl⟩
    obtain ⟨us, hus, -⟩ := parseExpr_sound hg
    rw [parse_of_gives hus hg] at h
    cases hend : SyntaxError.atEnd? (Outcome.rest _ |>.headD s.tokens.last) with
    | none =>
      rw [hend] at h
      cases h
    | some g =>
      rw [hend] at h
      cases h
      exact ⟨us, _, hus, rfl, .inr ⟨e, hg, hend⟩⟩

end Session

/-! ## Lists that begin alike -/

namespace TokenList

/-- A list that begins with these tokens has the last of them next, once the others are read. -/
theorem exists_front_eq {ts : TokenList} {us : List Token} {t : Token} (h : us ++ [t] <+: ts.toList) :
    ∃ rest, ts.front = us ++ rest ∧ rest.headD ts.last = t := by
  obtain ⟨more, hmore⟩ := h
  rw [toList, List.append_assoc, List.singleton_append] at hmore
  rcases List.eq_nil_or_concat more with rfl | ⟨vs, v, rfl⟩
  · obtain ⟨hfront, hlast⟩ := List.append_inj' hmore rfl
    cases hlast
    exact ⟨[], by rw [hfront, List.append_nil], rfl⟩
  · rw [List.concat_eq_append, ← List.cons_append, ← List.append_assoc] at hmore
    obtain ⟨hfront, -⟩ := List.append_inj' hmore rfl
    exact ⟨t :: vs, hfront.symm, rfl⟩

end TokenList

/-! ## The earliest token -/

section Earliest

variable {ts ts' : TokenList} {us rest rest' : List Token} {f : SyntaxError} {e : Expr Span}

theorem parse_of_blame (h : Blame (fun last room => parseExpr last room 1) ts.last maxNesting us rest f)
    (hfront : ts'.front = us ++ rest') (hhead : rest'.headD ts'.last = rest.headD ts.last) :
    (Session.ofTokens ts').parse = (.error f, (Session.ofTokens ts').leaving rest'.length) := by
  refine Session.parse_of_fails (s := .ofTokens ts') ?_
  show (parseExpr ts'.last maxNesting 1 ts'.front).Fails f rest'
  rw [hfront]
  exact h.again _ _ _ ts'.last_eof hhead (Nat.le_refl _) fun _ => rfl

theorem parse_of_atEnd? (h : (parseExpr ts.last maxNesting 1 (us ++ rest)).Gives e rest)
    (hend : SyntaxError.atEnd? (rest.headD ts.last) = some f)
    (hfront : ts'.front = us ++ rest') (hhead : rest'.headD ts'.last = rest.headD ts.last) :
    (Session.ofTokens ts').parse = (.error f, (Session.ofTokens ts').leaving rest'.length) := by
  obtain ⟨-, -, -, -, -, hstop, -⟩ := parseExpr_sound h
  have hg : (parseExpr ts'.last maxNesting 1 ts'.front).Gives e rest' := by
    rw [hfront]
    exact h.parseExpr_of_stops (hstop.of_headD ts.last_eof hhead) (Nat.le_refl _)
  rw [Session.parse_of_gives (s := .ofTokens ts') hfront hg]
  show (Option.elim (SyntaxError.atEnd? (rest'.headD ts'.last)) _ _, _) = _
  rw [hhead, hend]
  rfl

/-- A whole list is read if its tokens before the last one give a tree. -/
theorem parseTokens_of_gives (h : (parseExpr ts.last maxNesting 1 ts.front).Gives e []) :
    parseTokens ts = .ok e := by
  show (Session.ofTokens ts).parse.1 = _
  rw [Session.parse_of_gives (s := .ofTokens ts) (List.append_nil ts.front).symm h]
  show Option.elim (SyntaxError.atEnd? ts.last) _ _ = _
  rw [SyntaxError.atEnd?_eq_none.2 ts.last_eof]
  rfl

/-- What a failing parse of a whole list says of the token at fault, the first of `rest` or the last
one of the list, and of the tokens `us` before it. -/
structure Stuck (ts : TokenList) (us rest : List Token) (f : SyntaxError) : Prop where
  pointsAt : f.PointsAt (rest.headD ts.last)
  again : ∀ (ts' : TokenList) rest', ts'.front = us ++ rest' →
    rest'.headD ts'.last = rest.headD ts.last →
    (Session.ofTokens ts').parse = (.error f, (Session.ofTokens ts').leaving rest'.length)
  completed : f.cause ≠ .tooDeep → ∃ vs, (∀ v ∈ vs, v.kind ≠ .eof) ∧
    ∃ e, parseTokens ⟨us ++ vs, ts.last, ts.last_eof⟩ = .ok e
  unclosed : ∀ p, f.cause = .unclosed p → ∃ o, (openParens us).head? = some o ∧ o.span.start = p

theorem ends_nil : Ends [] := fun least => stops_nil least

theorem exists_stuck {s : Session} (h : (Session.ofTokens ts).parse = (.error f, s)) :
    ∃ us rest, ts.front = us ++ rest ∧ s.index = us.length ∧ Stuck ts us rest f := by
  obtain ⟨us, rest, hfront, rfl, hcase⟩ := Session.exists_of_parse_eq_error h
  refine ⟨us, rest, hfront, ?_, ?_⟩
  · rw [Session.index_leaving hfront]
    exact Nat.zero_add _
  rcases hcase with hb | ⟨e, hg, hend⟩
  · refine ⟨hb.pointsAt, fun ts' rest' => parse_of_blame hb, fun hdeep => ?_, fun p hp => ?_⟩
    · obtain ⟨vs, -, hvs, hread⟩ := hb.completed hdeep
      obtain ⟨e, he⟩ := hread ts.last [] ends_nil
      rw [List.append_nil] at he
      exact ⟨vs, hvs, e, parseTokens_of_gives he⟩
    · obtain ⟨o, tail, ho, hp⟩ := hb.unclosed p hp []
      exact ⟨o, by rw [openParens, ho]; rfl, hp⟩
  -- a whole expression was read, and is one where the list ends with it
  · have hfront : ts.front = us ++ rest := hfront
    have hg : (parseExpr ts.last maxNesting 1 (us ++ rest)).Gives e rest := by
      rw [← hfront]
      exact hg
    refine ⟨SyntaxError.pointsAt_of_atEnd? hend, fun ts' rest' => parse_of_atEnd? hg hend, fun _ => ?_, fun p hp => ?_⟩
    · refine ⟨[], List.forall_mem_nil _, e, parseTokens_of_gives ?_⟩
      exact hg.parseExpr_of_stops (stops_nil _) (Nat.le_refl _)
    · exact absurd hp (SyntaxError.cause_ne_unclosed_of_atEnd? hend p)

/-- Tokens that spell a canonical tree are read with levels enough, so where the levels do not
suffice nothing else is at fault. -/
theorem parseTokens_tooDeep (hs : e.Spelled ts.front) (hc : e.Canonical) (hd : maxNesting ≤ e.depth) :
    ∃ f, parseTokens ts = .error f ∧ f.cause = .tooDeep := by
  have henough : (parseExpr ts.last (e.depth + 1) 1 ts.front).Gives e [] :=
    parseExpr_gives_iff.2 ⟨_, (List.append_nil _).symm, hs, hc, e.atLeast_one, stops_nil _,
      Nat.lt_succ_self _⟩
  -- a tree read with fewer levels is the same one, so it is not read
  have hfew : ∀ us rest x, ts.front = us ++ rest →
      ¬ (parseExpr ts.last maxNesting 1 (us ++ rest)).Gives x rest := by
    intro us rest x hfront hx
    obtain ⟨vs, -, -, -, -, hstop, hdepth⟩ := parseExpr_sound hx
    have hx' : (parseExpr ts.last (e.depth + 1) 1 (us ++ rest)).Gives x rest :=
      hx.parseExpr_of_stops hstop (by omega)
    rw [← hfront] at hx'
    cases Except.ok.inj (henough.1.symm.trans hx'.1)
    omega
  cases hp : parseTokens ts with
  | ok x =>
    obtain ⟨hsx, hcx, hdx⟩ := (parseTokens_eq_ok_iff_of_front hs.kind_ne_eof).1 hp
    exact absurd (parseExpr_gives_iff.2 ⟨_, rfl, hsx, hcx, x.atLeast_one, stops_nil _, hdx⟩)
      (hfew ts.front [] x (List.append_nil _).symm)
  | error f =>
    refine ⟨f, rfl, Classical.byContradiction fun hcause => ?_⟩
    obtain ⟨us, rest, hfront, -, hb | ⟨x, hx, -⟩⟩ :=
      Session.exists_of_parse_eq_error (s := .ofTokens ts) (Prod.ext hp rfl)
    · have hfail := hb.again ts.last (e.depth + 1) rest ts.last_eof rfl (by omega) (absurd · hcause)
      change ts.front = us ++ rest at hfront
      rw [← hfront] at hfail
      cases henough.1.symm.trans hfail.1
    · exact hfew us rest x hfront (hfront ▸ hx)

theorem take_toList (h : ts.front = us ++ rest) :
    ts.toList.take us.length = us ∧ ts.toList.take (us.length + 1) = us ++ [rest.headD ts.last] := by
  have hlist : ts.toList = us ++ (rest ++ [ts.last]) := by rw [TokenList.toList, h, List.append_assoc]
  rw [hlist, List.take_left, List.take_length_add_append]
  cases rest <;> exact ⟨rfl, rfl⟩

theorem SyntaxError.sort_eq_nesting_iff : f.report.sort = .nesting ↔ f.cause = .tooDeep := by
  show f.cause.sort = _ ↔ _
  cases f.cause <;> simp [SyntaxCause.sort]

theorem SyntaxError.sort_eq_unterminated_iff {opened : Option Position} :
    f.report.sort = .unterminated opened ↔ ∃ p, f.cause = .unclosed p ∧ opened = some p := by
  show f.cause.sort = _ ↔ _
  cases f.cause <;> simp [SyntaxCause.sort, eq_comm]

/-- A failing parse blames the token at the index where it stops. Every list that begins with the
tokens through that one fails there with the same fault; some list that goes on from the tokens
before it is read, unless the levels were too many; and a parenthesis reported as unclosed is the
innermost one open at the end of the input. -/
theorem parse_error_earliest {ts : TokenList} (hts : ∀ t ∈ ts.front, t.kind ≠ .eof)
    {f : SyntaxError} {s : Session} (h : (Session.ofTokens ts).parse = (.error f, s)) :
    ∃ t, ts.toList[s.index]? = some t ∧ f.report.span = t.span ∧
      (∀ found expected, f.report.sort = .unexpectedToken found expected → found = some t.kind) ∧
      (∀ ts' : TokenList, ts.toList.take (s.index + 1) <+: ts'.toList →
        ∃ s', (Session.ofTokens ts').parse = (.error f, s') ∧ s'.index = s.index) ∧
      (f.report.sort ≠ .nesting → ∃ ts' : TokenList, (∀ t ∈ ts'.front, t.kind ≠ .eof) ∧
        ts.toList.take s.index <+: ts'.toList ∧ s.index < ts'.toList.length ∧
        ∃ e, parseTokens ts' = .ok e) ∧
      (∀ opened, f.report.sort = .unterminated opened → t.kind = .eof ∧
        ∃ o, (openParens ts.toList).head? = some o ∧ opened = some o.span.start) := by
  obtain ⟨us, rest, hfront, hindex, hstuck⟩ := exists_stuck h
  obtain ⟨htake, htake'⟩ := take_toList hfront
  rw [hindex]
  refine ⟨rest.headD ts.last, ?_, hstuck.pointsAt.span, hstuck.pointsAt.found, ?_, ?_, ?_⟩
  · rw [← List.getElem?_take_of_lt (Nat.lt_succ_self _), htake', List.getElem?_concat_length]
  · intro ts' hts'
    rw [htake'] at hts'
    obtain ⟨rest', hfront', hhead⟩ := TokenList.exists_front_eq hts'
    refine ⟨_, hstuck.again ts' rest' hfront' hhead, ?_⟩
    rw [Session.index_leaving (s := .ofTokens ts') hfront']
    exact Nat.zero_add _
  · intro hsort
    obtain ⟨vs, hvs, e, he⟩ := hstuck.completed (mt SyntaxError.sort_eq_nesting_iff.2 hsort)
    refine ⟨⟨us ++ vs, ts.last, ts.last_eof⟩, ?_, ?_, ?_, e, he⟩
    · intro t ht
      rcases List.mem_append.1 ht with ht | ht
      · exact hts t (hfront ▸ List.mem_append_left _ ht)
      · exact hvs t ht
    · rw [htake, TokenList.toList, List.append_assoc]
      exact List.prefix_append _ _
    · simp only [TokenList.toList, List.length_append, List.length_singleton]
      omega
  · intro opened hsort
    obtain ⟨p, hp, rfl⟩ := SyntaxError.sort_eq_unterminated_iff.1 hsort
    have heof := hstuck.pointsAt.unclosed p hp
    obtain ⟨o, ho, rfl⟩ := hstuck.unclosed p hp
    -- only the last token is the end of the input, so it is the one at fault
    cases rest with
    | cons t rest => exact absurd heof (hts t (by simp [hfront]))
    | nil =>
      have hbracket := Token.bracket_other (by rw [Token.terminal_eq_eof.2 ts.last_eof]; nofun)
        (by rw [Token.terminal_eq_eof.2 ts.last_eof]; nofun) (openParens us)
      refine ⟨heof, o, ?_, rfl⟩
      rw [TokenList.toList, hfront, List.append_nil, openParens, List.foldl_append]
      show (Token.bracket (openParens us) ts.last).head? = some o
      rw [hbracket, ho]

/-- Of the two parentheses open in `(a+(b` the second one is reported. -/
theorem parse_error_earliest_unclosed :
    let p (k : Nat) : Position := ⟨1, k + 1, k, ⟨0⟩⟩
    let token (k : Nat) (m : Meaning) (s : String) : Token := ⟨m, s, .point (p k)⟩
    let ts : TokenList := ⟨[token 0 (.mark .openParen) "(", token 1 .name "a",
      token 2 (.mark .plus) "+", token 3 (.mark .openParen) "(", token 4 .name "b"], .eof (p 5), rfl⟩
    (∀ t ∈ ts.front, t.kind ≠ .eof) ∧
      (Session.ofTokens ts).parse.1 = .error ⟨.unclosed (p 3), .point (p 5)⟩ ∧
      (openParens ts.toList).head?.map (·.span.start) = some (p 3) := by
  intro p token ts
  have hts : ∀ t ∈ ts.front, t.kind ≠ .eof := by decide
  have hname (room k : Nat) (n : String) (more : List Token) :
      (parseUnary ts.last room (token k .name n :: more)).Gives (.identifier (.point (p k)) n) more :=
    (parseUnary_gives_of_none rfl).2 ((parsePrimary_gives_of_name rfl).2 ⟨rfl, rfl⟩)
  have hb : (parseExpr ts.last 197 1 [token 4 .name "b"]).Gives (.identifier (.point (p 4)) "b") [] :=
    parseExpr_gives.2 ⟨196, _, _, rfl, hname 196 4 "b" [],
      (parseOperators_gives_of_stops (stops_nil _)).2 ⟨rfl, rfl⟩⟩
  have hinner : (parseExpr ts.last 198 (BinaryOp.rightRank .add) (ts.front.drop 3)).Fails
      ⟨.unclosed (p 3), .point (p 5)⟩ [] :=
    parseExpr_fails_succ.2 (.inl ((parseUnary_fails_of_none rfl).2
      ((parsePrimary_fails_of_open rfl rfl).2 (.inr ⟨_, hb, rfl, nofun⟩))))
  have hsum : (parseExpr ts.last 199 1 (ts.front.drop 1)).Fails ⟨.unclosed (p 3), .point (p 5)⟩ [] :=
    parseExpr_fails_succ.2 (.inr ⟨_, _, hname 198 1 "a" (ts.front.drop 2),
      (parseOperators_fails_cons (t := token 2 (.mark .plus) "+") rfl (by decide)).2 (.inl hinner)⟩)
  have h := Session.parse_of_fails (s := .ofTokens ts) (parseExpr_fails_succ.2
    (.inl ((parseUnary_fails_of_none rfl).2 ((parsePrimary_fails_of_open rfl rfl).2 (.inl hsum)))))
  obtain ⟨t, -, -, -, -, -, hopen⟩ := parse_error_earliest hts h
  obtain ⟨-, o, ho, hp⟩ := hopen _ rfl
  exact ⟨hts, congrArg Prod.fst h, by rw [ho, hp]; rfl⟩

end Earliest

end ScriptSyntax
