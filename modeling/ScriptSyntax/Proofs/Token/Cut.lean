/-
Tokenizing as cutting: a text is an alternation of gaps and lexemes, a gap is a sequence of blanks
and comments, and each lexeme is the longest at its place (`Cuts`). The tokens of a source are
those of its cut, one for each lexeme and the end of the input behind them; a source has at most
one cut, and one without a cut has no tokens (`tokenize_iff_cuts`).

A gap is judged with what follows it, since a line comment runs on to the end of its line. So is a
lexeme, but of what follows only the first character counts (`IsGap.of_beginsLike`,
`LexemeAt.of_beginsLike`), which lets any run of neighbouring lexemes be cut out of a text
(`Cuts.slice`).
-/
import ScriptSyntax.Proofs.Token.Munch

namespace ScriptSyntax

open Text

/-! ## Gaps -/

/-- A blank, a comment to the end of the line, or a comment through the first `*/` behind its
opening, in front of the given text. -/
inductive GapPart : List Char → List Char → Prop
  | blank {c : Char} {rest : List Char} : isBlank c = true → GapPart [c] rest
  | line {body rest : List Char} : '\n' ∉ body → EndsRun (· != '\n') rest →
      GapPart ('/' :: '/' :: body) rest
  | block {body rest : List Char} : ¬ ['*', '/'] <:+: body ++ ['*'] →
      GapPart ('/' :: '*' :: body ++ ['*', '/']) rest

/-- A sequence of blanks and comments in front of a rest. -/
inductive IsGap : List Char → List Char → Prop
  | nil {rest : List Char} : IsGap [] rest
  | cons {part gap rest : List Char} : GapPart part (gap ++ rest) → IsGap gap rest →
      IsGap (part ++ gap) rest

/-- No blank and no comment begins here. -/
structure NoGap (cs : List Char) : Prop where
  no_blank : EndsRun isBlank cs
  no_comment : ¬ ['/', '/'] <+: cs ∧ ¬ ['/', '*'] <+: cs

theorem noGap_nil : NoGap [] := ⟨endsRun_nil _, by simp⟩

theorem GapPart.of_beginsLike {part rest rest' : List Char} (h : GapPart part rest)
    (hr : BeginsLike rest' rest) : GapPart part rest' := by
  cases h with
  | blank hc => exact .blank hc
  | line hb he => exact .line hb (he.of_beginsLike hr)
  | block hb => exact .block hb

theorem GapPart.line_takeWhile (cs : List Char) :
    GapPart ('/' :: '/' :: cs.takeWhile (· != '\n')) (cs.dropWhile (· != '\n')) := by
  refine .line (fun hmem => ?_) (endsRun_dropWhile _ _)
  have := List.mem_takeWhile_imp hmem
  simp at this

/-- Of what stands behind a gap only the first character counts. -/
theorem IsGap.of_beginsLike {gap rest rest' : List Char} (h : IsGap gap rest)
    (hr : BeginsLike rest' rest) : IsGap gap rest' := by
  induction h with
  | nil => exact .nil
  | cons hp _ ih => exact .cons (hp.of_beginsLike (hr.append_left _)) (ih hr)

theorem IsGap.append {gap gap' rest : List Char} (h : IsGap gap (gap' ++ rest))
    (h' : IsGap gap' rest) : IsGap (gap ++ gap') rest := by
  generalize hr : gap' ++ rest = r at h
  induction h with
  | nil => exact h'
  | cons hp _ ih =>
    subst hr
    rw [List.append_assoc]
    exact .cons (by rwa [List.append_assoc]) (ih rfl)

/-- A block comment ends at the first `*/`. -/
theorem closeComment_eq_some_iff {cs body rest : List Char} :
    closeComment cs = some (body, rest) ↔
      ∃ inner, body = inner ++ ['*', '/'] ∧ cs = body ++ rest ∧ ¬ ['*', '/'] <:+: inner ++ ['*'] := by
  constructor
  · intro h
    fun_induction closeComment cs generalizing body with
    | case1 => cases h
    | case2 => cases h; exact ⟨[], rfl, rfl, by decide⟩
    | case3 c cs hno ih =>
      obtain ⟨⟨body', rest'⟩, hc, he⟩ := Option.map_eq_some_iff.1 h
      cases he
      obtain ⟨inner, rfl, rfl, hin⟩ := ih hc
      refine ⟨c :: inner, rfl, rfl, ?_⟩
      rw [List.cons_append, List.infix_cons_iff, not_or]
      refine ⟨?_, hin⟩
      rw [List.cons_prefix_cons]
      rintro ⟨rfl, hp⟩
      cases inner with
      | nil => revert hp; decide
      | cons d inner =>
        obtain ⟨rfl, -⟩ := List.cons_prefix_cons.1 hp
        exact hno _ rfl rfl
  · rintro ⟨inner, rfl, rfl, hin⟩
    induction inner with
    | nil => rfl
    | cons c inner ih =>
      rw [List.cons_append, List.infix_cons_iff, not_or, List.cons_prefix_cons, not_and] at hin
      rw [List.cons_append, List.cons_append, closeComment, ih hin.2]
      · rfl
      · rintro cs rfl htail
        refine hin.1 rfl ?_
        cases inner with
        | nil => cases htail
        | cons d inner =>
          cases htail
          exact List.prefix_append ['/'] _

namespace Gap

theorem prepend_eq_closed {g : Gap} {cs text rest : List Char} :
    g.prepend cs = .closed text rest ↔ ∃ text₀, g = .closed text₀ rest ∧ text = cs ++ text₀ := by
  cases g with
  | closed text₀ rest₀ =>
    simp only [prepend, closed.injEq]
    constructor
    · rintro ⟨rfl, rfl⟩
      exact ⟨_, ⟨rfl, rfl⟩, rfl⟩
    · rintro ⟨_, ⟨rfl, rfl⟩, rfl⟩
      exact ⟨rfl, rfl⟩
  | openComment => simp [prepend]

theorem isGap_of_ofText {cs gap rest : List Char} (h : ofText cs = .closed gap rest) :
    IsGap gap rest ∧ NoGap rest := by
  fun_induction ofText cs generalizing gap with
  | case1 => cases h; exact ⟨.nil, noGap_nil⟩
  | case2 cs ih =>
    obtain ⟨gap₀, h₀, rfl⟩ := prepend_eq_closed.1 h
    obtain ⟨hg, hn⟩ := ih h₀
    have hwhole := whole_ofText (cs.dropWhile (· != '\n'))
    rw [h₀, whole] at hwhole
    exact ⟨.cons (hwhole ▸ GapPart.line_takeWhile cs) hg, hn⟩
  | case3 cs body rest' hc ih =>
    obtain ⟨gap₀, h₀, rfl⟩ := prepend_eq_closed.1 h
    obtain ⟨hg, hn⟩ := ih h₀
    obtain ⟨inner, rfl, -, hin⟩ := closeComment_eq_some_iff.1 hc
    exact ⟨.cons (.block hin) hg, hn⟩
  | case4 => cases h
  | case5 c cs _ _ hb ih =>
    obtain ⟨gap₀, h₀, rfl⟩ := prepend_eq_closed.1 h
    obtain ⟨hg, hn⟩ := ih h₀
    exact ⟨.cons (.blank hb) hg, hn⟩
  | case6 c cs hline hblock hb =>
    cases h
    refine ⟨.nil, endsRun_cons.2 (by simpa using hb), ?_, ?_⟩
    · rintro ⟨tail, ht⟩
      cases ht
      exact hline _ rfl rfl
    · rintro ⟨tail, ht⟩
      cases ht
      exact hblock _ rfl rfl

theorem ofText_of_noGap {cs : List Char} (h : NoGap cs) : ofText cs = .closed [] cs := by
  cases cs with
  | nil => unfold ofText; rfl
  | cons c cs =>
    rw [ofText]
    · rw [if_neg (by rw [endsRun_cons.1 h.no_blank]; exact Bool.false_ne_true)]
    · rintro tail rfl rfl
      exact h.no_comment.1 (List.prefix_append ['/', '/'] tail)
    · rintro tail rfl rfl
      exact h.no_comment.2 (List.prefix_append ['/', '*'] tail)

/-- The parts of a gap are split off one by one. -/
theorem ofText_append_part {part rest : List Char} (h : GapPart part rest) :
    ofText (part ++ rest) = (ofText rest).prepend part := by
  cases h with
  | @blank c _ hc =>
    have hne : c ≠ '/' := by
      rintro rfl
      exact absurd hc (by decide)
    rw [List.singleton_append, ofText]
    · rw [if_pos hc]
    all_goals exact fun _ h => absurd h hne
  | @line body _ hb he =>
    have hall : ∀ d ∈ body, (d != '\n') = true := by
      intro d hd
      simp only [bne_iff_ne, ne_eq]
      rintro rfl
      exact hb hd
    rw [List.cons_append, List.cons_append, ofText, dropWhile_append_of_endsRun hall he,
      takeWhile_append_of_endsRun hall he]
  | @block body _ hb =>
    have hc : closeComment (body ++ ['*', '/'] ++ rest) = some (body ++ ['*', '/'], rest) :=
      closeComment_eq_some_iff.2 ⟨body, rfl, rfl, hb⟩
    rw [List.cons_append, List.cons_append, List.cons_append, List.cons_append, ofText]
    split
    · rename_i hc'
      rw [hc] at hc'
      cases hc'
      rfl
    · rename_i hc'
      rw [hc] at hc'
      cases hc'

/-- The gap at the front of a text is the one behind which no other begins. -/
theorem ofText_eq_closed_iff {cs gap rest : List Char} :
    ofText cs = .closed gap rest ↔ cs = gap ++ rest ∧ IsGap gap rest ∧ NoGap rest := by
  constructor
  · intro h
    have hwhole := whole_ofText cs
    rw [h, whole] at hwhole
    exact ⟨hwhole.symm, isGap_of_ofText h⟩
  · rintro ⟨rfl, hg, hn⟩
    induction hg with
    | nil => exact ofText_of_noGap hn
    | cons hp _ ih => rw [List.append_assoc, ofText_append_part hp, ih hn, prepend]

end Gap

/-! ## One step -/

namespace Scan

theorem noGap_of_lexemeAt {lexeme rest : List Char} {m : Meaning} (h : LexemeAt lexeme m rest) :
    NoGap (lexeme ++ rest) := by
  refine ⟨?_, h.no_comment⟩
  obtain ⟨c, l, rfl⟩ := List.exists_cons_of_ne_nil h.spelling.ne_nil
  exact endsRun_cons.2 h.spelling.isBlank_head

/-- A step reads the gap and the lexeme that stand in front of the text. -/
theorem ofText_eq_token_iff {cs gap lexeme rest : List Char} {m : Meaning} :
    ofText cs = .token gap m lexeme rest ↔
      cs = gap ++ lexeme ++ rest ∧ IsGap gap (lexeme ++ rest) ∧ LexemeAt lexeme m rest := by
  constructor
  · intro h
    have hwhole := whole_ofText cs
    rw [h, whole] at hwhole
    unfold ofText at h
    split at h
    · cases h
    · cases h
    · rename_i gap' c cs' hg
      obtain ⟨-, hgap, hn⟩ := Gap.ofText_eq_closed_iff.1 hg
      split at h
      · rename_i hl
        cases h
        obtain ⟨heq, hat⟩ := (Lexeme.ofText_eq_token_iff hn.no_comment).1 hl
        exact ⟨hwhole.symm, heq ▸ hgap, hat⟩
      · cases h
  · rintro ⟨rfl, hgap, hat⟩
    have hn := noGap_of_lexemeAt hat
    have hg := Gap.ofText_eq_closed_iff.2 ⟨List.append_assoc .., hgap, hn⟩
    obtain ⟨c, l, hc⟩ := List.exists_cons_of_ne_nil hat.spelling.ne_nil
    have hl : Lexeme.ofText c (l ++ rest) = .token m lexeme rest := by
      subst hc
      exact (Lexeme.ofText_eq_token_iff hn.no_comment).2 ⟨rfl, hat⟩
    rw [ofText, hg, hc]
    simp only [List.cons_append, hl, hc]

/-- A step reads the end where a gap runs up to it. -/
theorem ofText_eq_eof_iff {cs gap : List Char} : ofText cs = .eof gap ↔ cs = gap ∧ IsGap gap [] := by
  constructor
  · intro h
    unfold ofText at h
    split at h
    · cases h
    · rename_i hg
      cases h
      obtain ⟨rfl, hgap, -⟩ := Gap.ofText_eq_closed_iff.1 hg
      exact ⟨List.append_nil _, hgap⟩
    · split at h <;> cases h
  · rintro ⟨rfl, hgap⟩
    have hg := Gap.ofText_eq_closed_iff.2 ⟨(List.append_nil cs).symm, hgap, noGap_nil⟩
    rw [ofText, hg]

end Scan

/-! ## Cuts -/

/-- A lexeme with the gap before it. -/
structure Piece where
  gap : List Char
  meaning : Meaning
  lexeme : List Char
deriving DecidableEq

def Piece.text (p : Piece) : List Char := p.gap ++ p.lexeme

/-- A text cut into lexemes with their gaps, and the gap behind the last of them. -/
inductive Cuts : List Char → List Piece → List Char → Prop
  | last {gap : List Char} : IsGap gap [] → Cuts gap [] gap
  | piece {gap lexeme rest last : List Char} {m : Meaning} {ps : List Piece} :
      IsGap gap (lexeme ++ rest) → LexemeAt lexeme m rest → Cuts rest ps last →
      Cuts (gap ++ lexeme ++ rest) (⟨gap, m, lexeme⟩ :: ps) last

/-- The tokens that pieces stand for, the text of the first one beginning at `p`: each has the span
from the first character of its lexeme to the last one. -/
def placed (p : Position) : List Piece → List Token
  | [] => []
  | piece :: ps =>
    let q := p.advanceBy piece.gap
    ⟨piece.meaning, String.ofList piece.lexeme, .ofText q piece.lexeme⟩ ::
      placed (q.advanceBy piece.lexeme) ps

namespace Cuts

variable {cs last : List Char} {ps : List Piece}

theorem text_eq (h : Cuts cs ps last) : cs = ps.flatMap Piece.text ++ last := by
  induction h with
  | last => rfl
  | piece _ _ _ ih => simp [Piece.text, ← ih]

/-- A text has one cut only. -/
theorem unique {last' : List Char} {ps' : List Piece} (h : Cuts cs ps last)
    (h' : Cuts cs ps' last') : ps' = ps ∧ last' = last := by
  -- a step reads the first piece of any cut, and reads but one thing
  induction h generalizing ps' last' with
  | @last gap hg =>
    have hscan := Scan.ofText_eq_eof_iff.2 ⟨rfl, hg⟩
    generalize hcs : gap = cs at h'
    cases h' with
    | last => exact ⟨rfl, rfl⟩
    | piece hg' hat =>
      rw [hcs, Scan.ofText_eq_token_iff.2 ⟨rfl, hg', hat⟩] at hscan
      cases hscan
  | @piece gap lexeme rest last m ps hg hat _ ih =>
    have hscan := Scan.ofText_eq_token_iff.2 ⟨rfl, hg, hat⟩
    generalize hcs : gap ++ lexeme ++ rest = cs at h' hscan
    cases h' with
    | last hg' =>
      rw [Scan.ofText_eq_eof_iff.2 ⟨rfl, hg'⟩] at hscan
      cases hscan
    | piece hg' hat' hrest' =>
      rw [Scan.ofText_eq_token_iff.2 ⟨rfl, hg', hat'⟩] at hscan
      cases hscan
      obtain ⟨rfl, rfl⟩ := ih hrest'
      exact ⟨rfl, rfl⟩

end Cuts

theorem Cursor.tokens_eq_ok_iff (k : Cursor) (ts : TokenList) : k.tokens = .ok ts ↔
    ∃ ps last, Cuts k.rest ps last ∧
      ts = ⟨placed k.position ps, .eof (k.position.advanceBy k.rest), rfl⟩ := by
  constructor
  -- the steps of the cursor make the cut
  · intro h
    fun_induction Cursor.tokens k generalizing ts with
    | case1 k gap m lexeme rest hscan p ih =>
      obtain ⟨heq, hg, hat⟩ := Scan.ofText_eq_token_iff.1 hscan
      cases htail : Cursor.tokens ⟨p.advanceBy lexeme, rest⟩ with
      | error e => rw [htail] at h; cases h
      | ok ts₀ =>
        rw [htail] at h
        cases h
        obtain ⟨ps, last, hcut, rfl⟩ := ih ts₀ htail
        refine ⟨_, last, by rw [heq]; exact .piece hg hat hcut, ?_⟩
        rw [heq, Position.advanceBy_append, Position.advanceBy_append]
        rfl
    | case2 k gap hscan =>
      obtain ⟨heq, hg⟩ := Scan.ofText_eq_eof_iff.1 hscan
      cases h
      exact ⟨[], gap, by rw [heq]; exact .last hg, by rw [heq]; rfl⟩
    | case3 => cases h
  -- and a cut leaves each step but one thing to read
  · rintro ⟨ps, last, hcut, rfl⟩
    obtain ⟨p, cs⟩ := k
    simp only at hcut ⊢
    induction hcut generalizing p with
    | last hg =>
      rw [Cursor.tokens]
      split <;> rename_i hscan <;> rw [Scan.ofText_eq_eof_iff.2 ⟨rfl, hg⟩] at hscan <;> cases hscan
      rfl
    | @piece gap lexeme rest last m ps hg hat _ ih =>
      rw [Cursor.tokens]
      split <;> rename_i hscan <;> rw [Scan.ofText_eq_token_iff.2 ⟨rfl, hg, hat⟩] at hscan <;>
        cases hscan
      simp only [ih, Position.advanceBy_append]
      rfl

theorem tokenize_eq_ok_iff {file : Symbol} {src : String} {ts : TokenList} :
    tokenize file src = .ok ts ↔ ∃ ps last, Cuts src.toList ps last ∧
      ts = ⟨placed (.startOf file) ps, .eof ((Position.startOf file).advanceBy src.toList), rfl⟩ :=
  Cursor.tokens_eq_ok_iff (.ofText file src) ts

theorem Cuts.tokens_eq {cs last : List Char} {ps : List Piece} (h : Cuts cs ps last) (p : Position) :
    Cursor.tokens ⟨p, cs⟩ = .ok ⟨placed p ps, .eof (p.advanceBy cs), rfl⟩ :=
  (Cursor.tokens_eq_ok_iff ⟨p, cs⟩ _).2 ⟨ps, last, h, rfl⟩

theorem Cuts.tokenize_eq {src : String} {last : List Char} {ps : List Piece}
    (h : Cuts src.toList ps last) (file : Symbol) : tokenize file src =
      .ok ⟨placed (.startOf file) ps, .eof ((Position.startOf file).advanceBy src.toList), rfl⟩ :=
  h.tokens_eq (.startOf file)

theorem Position.offset_advanceBy (p : Position) (cs : List Char) :
    (p.advanceBy cs).offset = p.offset + cs.length := by
  induction cs generalizing p with
  | nil => simp
  | cons c cs ih =>
    rw [advanceBy_cons, ih, List.length_cons]
    have : (p.advance c).offset = p.offset + 1 := by unfold advance; split <;> rfl
    omega

/-- A source has tokens exactly if it can be cut. It has one cut only, and its tokens are those of
the cut, with the end of the input behind the last character. -/
theorem tokenize_iff_cuts (file : Symbol) (src : String) :
    ((∃ ts, tokenize file src = .ok ts) ↔ ∃ ps last, Cuts src.toList ps last) ∧
    ∀ ps last, Cuts src.toList ps last →
      (∀ ps' last', Cuts src.toList ps' last' → ps' = ps ∧ last' = last) ∧
      ∃ p : Position, p = (Position.startOf file).advanceBy src.toList ∧ p.offset = src.length ∧
        tokenize file src = .ok ⟨placed (.startOf file) ps, .eof p, rfl⟩ := by
  have key := Cursor.tokens_eq_ok_iff (.ofText file src)
  refine ⟨⟨?_, ?_⟩, ?_⟩
  · rintro ⟨ts, h⟩
    obtain ⟨ps, last, hcut, -⟩ := (key ts).1 h
    exact ⟨ps, last, hcut⟩
  · rintro ⟨ps, last, hcut⟩
    exact ⟨_, (key _).2 ⟨ps, last, hcut, rfl⟩⟩
  · intro ps last hcut
    refine ⟨fun _ _ => hcut.unique, _, rfl, ?_, (key _).2 ⟨ps, last, hcut, rfl⟩⟩
    rw [Position.offset_advanceBy, String.length_toList]
    exact Int.zero_add _

/-- The star that opens the comment does not close it. -/
theorem tokenize_slash_in_comment :
    let ps : List Piece := [⟨[], .name, ['x']⟩, ⟨['/', '*', '/', '*', '/'], .mark .plus, ['+']⟩,
      ⟨[' '], .literal (.int 1), ['1']⟩]
    Cuts "x/*/*/+ 1".toList ps [] ∧ tokenize ⟨0⟩ "x/*/*/+ 1" =
      .ok ⟨placed (.startOf ⟨0⟩) ps, .eof ⟨1, 10, 9, ⟨0⟩⟩, rfl⟩ := by
  intro ps
  have hx : Lexeme.ofText 'x' ['/', '*', '/', '*', '/', '+', ' ', '1'] =
      .token .name ['x'] ['/', '*', '/', '*', '/', '+', ' ', '1'] := by decide
  have hplus : Lexeme.ofText '+' [' ', '1'] = .token (.mark .plus) ['+'] [' ', '1'] := by decide
  have hone : Lexeme.ofText '1' [] = .token (.literal (.int 1)) ['1'] [] := by decide
  have hcomment : IsGap ['/', '*', '/', '*', '/'] ['+', ' ', '1'] :=
    .cons (@GapPart.block ['/'] _ (by decide)) .nil
  have hblank : IsGap [' '] ['1'] := .cons (.blank (by decide)) .nil
  have hcut : Cuts "x/*/*/+ 1".toList ps [] :=
    .piece .nil (.of_ofText hx (by decide)) (.piece hcomment (.of_ofText hplus (by decide))
      (.piece hblank (.of_ofText hone (by decide)) (.last .nil)))
  obtain ⟨-, p, rfl, -, htokens⟩ := (tokenize_iff_cuts ⟨0⟩ "x/*/*/+ 1").2 ps [] hcut
  exact ⟨hcut, htokens⟩

/-! ## Parts of a cut -/

/-- Every token stands for one of the pieces, where the text before that one ends. -/
theorem exists_of_mem_placed {p : Position} {ps : List Piece} {t : Token} (h : t ∈ placed p ps) :
    ∃ piece ∈ ps, ∃ before after, ps.flatMap Piece.text = before ++ piece.lexeme ++ after ∧
      t = ⟨piece.meaning, String.ofList piece.lexeme, .ofText (p.advanceBy before) piece.lexeme⟩ := by
  induction ps generalizing p with
  | nil => cases h
  | cons piece ps ih =>
    rw [List.flatMap_cons, Piece.text]
    rcases List.mem_cons.1 h with rfl | h
    · exact ⟨piece, List.mem_cons_self .., piece.gap, _, rfl, rfl⟩
    · obtain ⟨piece', hmem, before, after, htext, ht⟩ := ih h
      refine ⟨piece', List.mem_cons_of_mem _ hmem, piece.gap ++ piece.lexeme ++ before, after, ?_, ?_⟩
      · rw [htext]
        simp
      · rw [ht, Position.advanceBy_append, Position.advanceBy_append]

theorem placed_append (p : Position) (ps qs : List Piece) : placed p (ps ++ qs) =
    placed p ps ++ placed (p.advanceBy (ps.flatMap Piece.text)) qs := by
  induction ps generalizing p with
  | nil => rfl
  | cons piece ps ih =>
    rw [List.cons_append, placed, placed, ih, List.cons_append, List.flatMap_cons, Piece.text,
      Position.advanceBy_append, Position.advanceBy_append]

namespace Cuts

variable {cs last : List Char} {piece : Piece} {ps qs : List Piece}

theorem drop (h : Cuts cs (ps ++ qs) last) : Cuts (qs.flatMap Piece.text ++ last) qs last := by
  induction ps generalizing cs with
  | nil => exact h.text_eq ▸ h
  | cons p ps ih =>
    cases h with
    | piece _ _ hrest => exact ih hrest

theorem take (h : Cuts cs (ps ++ qs) last) : Cuts (ps.flatMap Piece.text) ps [] := by
  induction ps generalizing cs with
  | nil => exact .last .nil
  | cons p ps ih =>
    rw [List.cons_append] at h
    cases h with
    | piece hg hat hrest =>
      have hp := List.prefix_append (ps.flatMap Piece.text) (qs.flatMap Piece.text ++ last)
      rw [← List.append_assoc, ← List.flatMap_append, ← hrest.text_eq] at hp
      have hlike := BeginsLike.of_isPrefix hp
      exact .piece (hg.of_beginsLike (hlike.append_left _)) (hat.of_beginsLike hlike) (ih hrest)

/-- Neighbouring lexemes stand alone as they stand in the text. -/
theorem slice {before after : List Piece} (h : Cuts cs (before ++ (piece :: ps ++ after)) last) :
    Cuts (piece.lexeme ++ ps.flatMap Piece.text) ({ piece with gap := [] } :: ps) [] := by
  have htake := h.drop.take
  generalize (piece :: ps).flatMap Piece.text = cs at htake
  cases htake with
  | piece _ hat hrest =>
    have htext := hrest.text_eq
    rw [List.append_nil] at htext
    exact htext ▸ .piece .nil hat hrest

theorem spelling (h : Cuts cs ps last) :
    ∀ piece ∈ ps, Spelling piece.lexeme (some piece.meaning) := by
  induction h with
  | last => exact List.forall_mem_nil _
  | piece _ hat _ ih => exact List.forall_mem_cons.2 ⟨hat.spelling, ih⟩

theorem spelling_placed (h : Cuts cs ps last) (p : Position) :
    ∀ t ∈ placed p ps, Spelling t.lexeme.toList (some t.meaning) := by
  intro t ht
  obtain ⟨piece, hpiece, _, _, -, rfl⟩ := exists_of_mem_placed ht
  rw [String.toList_ofList]
  exact h.spelling piece hpiece

end Cuts

end ScriptSyntax
