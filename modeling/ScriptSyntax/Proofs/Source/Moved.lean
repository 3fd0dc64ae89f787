/-
Moving the places of tokens. A list of tokens whose places are moved, wherever to, is read as the
same tree or the same fault, with its places moved (`Session.parse_moved`): nothing the parser
decides hangs on a place. A text is read from a moved place as the tokens or the fault read from
that place, moved, if the move goes along with the reading (`Cursor.tokens_moved`).
-/
import ScriptSyntax.Proofs.Expr.Earliest
import ScriptSyntax.Proofs.Expr.Source
import ScriptSyntax.Proofs.Token.Resume

namespace ScriptSyntax

variable (g : Position → Position)

/-! ## Moved tokens, trees and errors -/

def Span.moved (s : Span) : Span := ⟨g s.start, g s.stop⟩

def Token.moved (t : Token) : Token := { t with span := t.span.moved g }

def TokenList.moved (ts : TokenList) : TokenList :=
  ⟨ts.front.map (Token.moved g), ts.last.moved g, ts.last_eof⟩

def LexError.moved (e : LexError) : LexError := ⟨e.cause, g e.opened, e.span.moved g⟩

def SyntaxCause.moved : SyntaxCause → SyntaxCause
  | .unclosed opened => .unclosed (g opened)
  | cause => cause

def SyntaxError.moved (e : SyntaxError) : SyntaxError := ⟨e.cause.moved g, e.span.moved g⟩

def ErrorSort.moved : ErrorSort → ErrorSort
  | .unterminated opened => .unterminated (opened.map g)
  | sort => sort

theorem LexError.report_moved (e : LexError) : (e.moved g).report =
    { e.report with sort := e.report.sort.moved g, span := e.report.span.moved g } := by
  obtain ⟨cause, opened, span⟩ := e
  cases cause <;> rfl

theorem SyntaxCause.message_moved (c : SyntaxCause) : (c.moved g).message = c.message := by
  cases c <;> rfl

theorem SyntaxCause.sort_moved (c : SyntaxCause) : (c.moved g).sort = c.sort.moved g := by
  cases c <;> rfl

/-! ## Reading text -/

section Text

variable {g} (hg : ∀ p c, g (p.advance c) = (g p).advance c)
include hg

theorem Position.moved_advanceBy (p : Position) (cs : List Char) :
    g (p.advanceBy cs) = (g p).advanceBy cs := by
  induction cs generalizing p with
  | nil => rfl
  | cons c cs ih => rw [advanceBy_cons, advanceBy_cons, ih, hg]

theorem Span.moved_ofText (p : Position) (cs : List Char) :
    (ofText p cs).moved g = ofText (g p) cs := by
  rw [moved, ofText, ofText, Position.moved_advanceBy hg]

theorem LexFault.moved_error (f : LexFault) (p : Position) :
    (f.error p).moved g = f.error (g p) := by
  rw [LexError.moved, error, error, Span.moved_ofText hg, Position.moved_advanceBy hg]

/-- A text is read from a moved place as from the place itself, moved. -/
theorem Cursor.tokens_moved (k : Cursor) : tokens ⟨g k.position, k.rest⟩ =
    (k.tokens.map (TokenList.moved g)).mapError (LexError.moved g) := by
  fun_induction Cursor.tokens k with
  | case1 k gap m lexeme rest hscan p ih =>
    have hp : (g k.position).advanceBy gap = g p := (Position.moved_advanceBy hg ..).symm
    rw [tokens_of_token (k := ⟨g k.position, k.rest⟩) hscan, hp, ← Position.moved_advanceBy hg, ih,
      ← Span.moved_ofText hg]
    cases tokens ⟨p.advanceBy lexeme, rest⟩ <;> rfl
  | case2 k gap hscan =>
    rw [tokens_of_eof (k := ⟨g k.position, k.rest⟩) hscan]
    simp only [← Position.moved_advanceBy hg]
    rfl
  | case3 k gap f hscan =>
    rw [tokens_of_fault (k := ⟨g k.position, k.rest⟩) hscan, ← Position.moved_advanceBy hg,
      ← LexFault.moved_error hg]
    rfl

end Text

/-! ## Reading tokens -/

section Tokens

variable {g}

theorem Token.kind_moved (t : Token) : (t.moved g).kind = t.kind := rfl

theorem Token.headD_moved (ts : List Token) (last : Token) :
    (ts.map (Token.moved g)).headD (last.moved g) = (ts.headD last).moved g := by
  cases ts <;> rfl

theorem SyntaxError.moved_atStart (t : Token) : (atStart t).moved g = atStart (t.moved g) := by
  show SyntaxError.mk (SyntaxCause.moved g (atStart t).cause) _ = ⟨(atStart t).cause, _⟩
  have hcause : (atStart t).cause.moved g = (atStart t).cause := by
    unfold atStart
    cases t.kind with
    | mark m => cases m <;> rfl
    | _ => rfl
  rw [hcause]
  rfl

theorem SyntaxError.moved_atClose (opened : Position) (t : Token) :
    (atClose opened t).moved g = atClose (g opened) (t.moved g) := by
  unfold atClose moved
  show SyntaxError.mk _ _ = ⟨if t.kind = .eof then _ else .noClose t.kind, _⟩
  split <;> rfl

theorem SyntaxError.moved_atEnd? (t : Token) :
    (atEnd? t).map (SyntaxError.moved g) = atEnd? (t.moved g) := by
  rw [atEnd?, atEnd?, Token.kind_moved]
  cases t.kind with
  | mark m => cases m <;> rfl
  | _ => rfl

/-- Reading moved tokens gives the moved tree or fault and leaves the moved rest. -/
structure Outcome.Moved (g : Position → Position) {ts us : List Token} (o : Outcome ts)
    (o' : Outcome us) : Prop where
  gives : ∀ {e rest}, o.Gives e rest →
    o'.Gives (e.map (Span.moved g)) (rest.map (Token.moved g))
  fails : ∀ {f rest}, o.Fails f rest → o'.Fails (f.moved g) (rest.map (Token.moved g))

theorem Stops.moved {least : Int} {ts : List Token} (h : Stops least ts) :
    Stops least (ts.map (Token.moved g)) := by
  intro t op ht hop
  cases ts with
  | nil => cases ht
  | cons t' ts =>
    cases ht
    exact h t' op rfl hop

mutual

theorem parseExpr_moved {last : Token} (hlast : last.kind = .eof) (room : Nat) (least : Int)
    (ts : List Token) : (parseExpr last room least ts).Moved g
      (parseExpr (last.moved g) room least (ts.map (Token.moved g))) := by
  constructor
  · intro e rest h
    obtain ⟨room, x, mid, rfl, hx, he⟩ := parseExpr_gives.1 h
    have hmid := hx.length_le
    exact parseExpr_gives.2 ⟨room, _, _, rfl, (parseUnary_moved hlast room ts).gives hx,
      (parseOperators_moved hlast room least x mid).gives he⟩
  · intro f rest h
    cases room with
    | zero =>
      obtain ⟨rfl, rfl⟩ := parseExpr_fails_zero.1 h
      exact parseExpr_fails_zero.2 ⟨by rw [Token.headD_moved]; rfl, rfl⟩
    | succ room =>
      rcases parseExpr_fails_succ.1 h with hf | ⟨x, mid, hx, hf⟩
      · exact parseExpr_fails_succ.2 (.inl ((parseUnary_moved hlast room ts).fails hf))
      · have hmid := hx.length_le
        exact parseExpr_fails_succ.2 (.inr ⟨_, _, (parseUnary_moved hlast room ts).gives hx,
          (parseOperators_moved hlast room least x mid).fails hf⟩)
termination_by (ts.length, 3)
decreasing_by
  · exact Prod.Lex.right _ (by decide)
  · exact hmid.lt_or_eq.elim (Prod.Lex.left _ _) (· ▸ Prod.Lex.right _ (by decide))
  · exact Prod.Lex.right _ (by decide)
  · exact Prod.Lex.right _ (by decide)
  · exact hmid.lt_or_eq.elim (Prod.Lex.left _ _) (· ▸ Prod.Lex.right _ (by decide))

theorem parseOperators_moved {last : Token} (hlast : last.kind = .eof) (room : Nat) (least : Int)
    (lhs : Expr Span) (ts : List Token) : (parseOperators last room least lhs ts).Moved g
      (parseOperators (last.moved g) room least (lhs.map (Span.moved g))
        (ts.map (Token.moved g))) := by
  by_cases hst : Stops least ts
  · constructor
    · intro e rest h
      obtain ⟨rfl, rfl⟩ := (parseOperators_gives_of_stops hst).1 h
      exact (parseOperators_gives_of_stops hst.moved).2 ⟨rfl, rfl⟩
    · exact fun h => absurd h (not_parseOperators_fails_of_stops hst)
  obtain ⟨t, ts', op, hts, hop, hle⟩ := exists_of_not_stops hst
  have hop' : (t.moved g).kind.binaryOp? = some op := hop
  have hlen : ts'.length < ts.length := by simp [hts]
  have hr := parseExpr_moved hlast room op.rightRank ts'
  -- the tree read so far moves as its parts do
  have hlhs : ∀ r : Expr Span, Expr.map (Span.moved g) (.binary (.cover lhs.note r.note) op lhs r) =
      .binary (.cover (lhs.map (Span.moved g)).note (r.map (Span.moved g)).note) op
        (lhs.map (Span.moved g)) (r.map (Span.moved g)) := by
    intro r
    rw [Expr.note_map, Expr.note_map]
    rfl
  rw [hts, List.map_cons]
  constructor
  · intro e rest h
    obtain ⟨r, mid, hgr, he⟩ := (parseOperators_gives_cons hop hle).1 h
    have hmid := Nat.lt_of_le_of_lt hgr.length_le hlen
    have ho := (parseOperators_moved hlast room least _ mid).gives he
    exact (parseOperators_gives_cons hop' hle).2 ⟨_, _, hr.gives hgr, hlhs r ▸ ho⟩
  · intro f rest h
    rcases (parseOperators_fails_cons hop hle).1 h with hf | ⟨r, mid, hgr, hf⟩
    · exact (parseOperators_fails_cons hop' hle).2 (.inl (hr.fails hf))
    · have hmid := Nat.lt_of_le_of_lt hgr.length_le hlen
      have ho := (parseOperators_moved hlast room least _ mid).fails hf
      exact (parseOperators_fails_cons hop' hle).2 (.inr ⟨_, _, hr.gives hgr, hlhs r ▸ ho⟩)
termination_by (ts.length, 0)
decreasing_by
  · exact Prod.Lex.left _ _ hlen
  · exact Prod.Lex.left _ _ hmid
  · exact Prod.Lex.left _ _ hmid

theorem parseUnary_moved {last : Token} (hlast : last.kind = .eof) (room : Nat) (ts : List Token) :
    (parseUnary last room ts).Moved g
      (parseUnary (last.moved g) room (ts.map (Token.moved g))) := by
  cases ts with
  | nil =>
    constructor
    · exact fun h => absurd h not_parseUnary_gives_nil
    · intro f rest h
      obtain ⟨rfl, rfl⟩ := parseUnary_fails_nil.1 h
      exact parseUnary_fails_nil.2 ⟨SyntaxError.moved_atStart last, rfl⟩
  | cons t ts =>
    rw [List.map_cons]
    cases hop : t.kind.unaryOp? with
    | none =>
      have hop' : (t.moved g).kind.unaryOp? = none := hop
      have hp := parsePrimary_moved hlast room t ts
      constructor
      · intro e rest h
        exact (parseUnary_gives_of_none hop').2 (hp.gives ((parseUnary_gives_of_none hop).1 h))
      · intro f rest h
        exact (parseUnary_fails_of_none hop').2 (hp.fails ((parseUnary_fails_of_none hop).1 h))
    | some op =>
      have hop' : (t.moved g).kind.unaryOp? = some op := hop
      constructor
      · intro e rest h
        obtain ⟨room, x, rfl, hx, rfl⟩ := (parseUnary_gives_of_some hop).1 h
        refine (parseUnary_gives_of_some hop').2
          ⟨room, _, rfl, (parseUnary_moved hlast room ts).gives hx, ?_⟩
        rw [Expr.note_map]
        rfl
      · intro f rest h
        cases room with
        | zero =>
          obtain ⟨rfl, rfl⟩ := (parseUnary_fails_of_some_zero hop).1 h
          exact (parseUnary_fails_of_some_zero hop').2 ⟨rfl, rfl⟩
        | succ room =>
          have hf := (parseUnary_fails_of_some_succ hop).1 h
          exact (parseUnary_fails_of_some_succ hop').2 ((parseUnary_moved hlast room ts).fails hf)
termination_by (ts.length, 2)
decreasing_by
  · exact Prod.Lex.right _ (by decide)
  · exact Prod.Lex.left _ _ (by simp)
  · exact Prod.Lex.left _ _ (by simp)

theorem parsePrimary_moved {last : Token} (hlast : last.kind = .eof) (room : Nat) (t : Token)
    (ts : List Token) : (parsePrimary last room t ts).Moved g
      (parsePrimary (last.moved g) room (t.moved g) (ts.map (Token.moved g))) := by
  have hterm : (t.moved g).terminal = t.terminal := rfl
  have hlast' : (last.moved g).kind = .eof := hlast
  constructor
  · intro e rest h
    rcases terminal_of_parsePrimary_gives h with ⟨v, ht⟩ | ⟨n, ht⟩ | ht
    · obtain ⟨rfl, rfl⟩ := (parsePrimary_gives_of_literal ht).1 h
      exact (parsePrimary_gives_of_literal (hterm.trans ht)).2 ⟨rfl, rfl⟩
    · obtain ⟨rfl, rfl⟩ := (parsePrimary_gives_of_name ht).1 h
      exact (parsePrimary_gives_of_name (hterm.trans ht)).2 ⟨rfl, rfl⟩
    · obtain ⟨x, c, hx, hc, rfl⟩ := (parsePrimary_gives_of_open ht).1 h
      exact (parsePrimary_gives_of_open (hterm.trans ht)).2
        ⟨_, c.moved g, (parseExpr_moved hlast room 1 ts).gives hx, hc, rfl⟩
  · intro f rest h
    by_cases hb : t.BeginsOperand
    · by_cases ho : t.terminal = .mark .openParen
      · refine (parsePrimary_fails_of_open (hterm.trans ho) hlast').2 ?_
        rcases (parsePrimary_fails_of_open ho hlast).1 h with hf | ⟨x, hx, rfl, hc⟩
        · exact .inl ((parseExpr_moved hlast room 1 ts).fails hf)
        · refine .inr ⟨_, (parseExpr_moved hlast room 1 ts).gives hx, ?_, ?_⟩
          · rw [Token.headD_moved]
            exact SyntaxError.moved_atClose ..
          · rw [Token.headD_moved]
            exact hc
      · exact absurd h (not_parsePrimary_fails hb ho)
    · obtain ⟨rfl, rfl⟩ := (parsePrimary_fails_of_not_begins hb).1 h
      have hb' : ¬ (t.moved g).BeginsOperand := hb
      exact (parsePrimary_fails_of_not_begins hb').2 ⟨SyntaxError.moved_atStart t, rfl⟩
termination_by (ts.length + 1, 1)
decreasing_by all_goals exact Prod.Lex.left _ _ (by omega)

end

namespace Session

/-- The session over the moved tokens, at the same index. -/
def moved (g : Position → Position) (s : Session) : Session :=
  ⟨s.tokens.moved g, s.index, by
    rw [TokenList.moved, List.length_map]
    exact s.index_le⟩

theorem rest_moved (s : Session) : (s.moved g).rest = s.rest.map (Token.moved g) :=
  List.map_drop.symm

theorem leaving_moved (s : Session) (left : Nat) :
    (s.moved g).leaving left = (s.leaving left).moved g := by
  simp only [leaving, moved, TokenList.moved, List.length_map]

/-- Wherever the tokens are moved, the same tree or fault comes of them, with its places moved, and
reading stops at the same index. -/
theorem parse_moved (s : Session) : (s.moved g).parse =
    ((s.parse.1.map (Expr.map (Span.moved g))).mapError (SyntaxError.moved g), s.parse.2.moved g) := by
  have hm := @parseExpr_moved g s.tokens.last s.tokens.last_eof maxNesting 1 s.rest
  rw [← rest_moved] at hm
  cases hr : (ScriptSyntax.parseExpr s.tokens.last maxNesting 1 s.rest).tree with
  | error f =>
    have hf : (ScriptSyntax.parseExpr s.tokens.last maxNesting 1 s.rest).Fails f _ := ⟨hr, rfl⟩
    have hf' := parse_of_fails (s := s.moved g) (hm.fails hf)
    rw [hf', parse_of_fails hf, List.length_map, leaving_moved]
    rfl
  | ok e =>
    have hg : (ScriptSyntax.parseExpr s.tokens.last maxNesting 1 s.rest).Gives e _ := ⟨hr, rfl⟩
    obtain ⟨us, hus, -⟩ := parseExpr_sound hg
    obtain ⟨us', hus', -⟩ := parseExpr_sound (hm.gives hg)
    rw [parse_of_gives (s := s.moved g) hus' (hm.gives hg), parse_of_gives hus hg, List.length_map,
      leaving_moved]
    -- the token behind the expression moves too
    refine Prod.ext ?_ rfl
    show Option.elim (SyntaxError.atEnd? ((List.map (Token.moved g) _).headD (s.tokens.last.moved g)))
      _ _ = _
    rw [Token.headD_moved, ← SyntaxError.moved_atEnd?]
    cases SyntaxError.atEnd? _ <;> rfl

end Session

end Tokens

end ScriptSyntax
