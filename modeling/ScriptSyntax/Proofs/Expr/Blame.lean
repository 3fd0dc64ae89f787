/-
What the parser blames. A parse that fails reports the token to be read next, and what stands behind
that token has no say in it: the same tokens up to there fail in the same way, whatever follows
(`Blame.again`). Where the levels were not too many, more of them change nothing either, and the
tokens read so far are the beginning of an expression (`Blame.completed`): an operand where one was
due, then a closing parenthesis for each one that is open. So a fault is found at the first token
that cannot be gone on with.

Each function of the parser has one lemma that says when it fails, beside the one that says when it
gives a tree; `parseExpr_blame` follows the calls of the parser from the place of the fault outwards.
-/
import ScriptSyntax.Proofs.Expr.Climbing

namespace ScriptSyntax

/-! ## When the functions of the parser fail -/

/-- Reading failed with this fault and these tokens are left. -/
def Outcome.Fails {ts : List Token} (o : Outcome ts) (f : SyntaxError) (rest : List Token) : Prop :=
  o.tree = .error f ∧ o.rest = rest

theorem Outcome.Fails.length_le {ts rest : List Token} {o : Outcome ts} {f : SyntaxError}
    (h : o.Fails f rest) : rest.length ≤ ts.length := h.2 ▸ o.le

section Steps

variable {last t : Token} {room : Nat} {least : Int} {ts rest : List Token} {lhs : Expr Span}
  {f : SyntaxError}

theorem parseExpr_fails_zero : (parseExpr last 0 least ts).Fails f rest ↔
    f = ⟨.tooDeep, (ts.headD last).span⟩ ∧ rest = ts := by
  rw [parseExpr]
  simp only [Outcome.Fails, Outcome.fail, Except.error.injEq]
  exact and_congr eq_comm eq_comm

theorem parseExpr_fails_succ : (parseExpr last (room + 1) least ts).Fails f rest ↔
    (parseUnary last room ts).Fails f rest ∨
      ∃ x mid, (parseUnary last room ts).Gives x mid ∧
        (parseOperators last room least x mid).Fails f rest := by
  rw [parseExpr]
  cases h : (parseUnary last room ts).tree with
  | error g => simp [Outcome.Fails, Outcome.Gives, h]
  | ok x =>
    constructor
    · exact fun hf => .inr ⟨x, _, ⟨h, rfl⟩, hf⟩
    · rintro (hf | ⟨y, mid, ⟨hy, rfl⟩, hf⟩)
      · rw [Outcome.Fails, h] at hf
        cases hf.1
      · rw [h] at hy
        cases hy
        exact hf

theorem not_parseOperators_fails_of_stops (h : Stops least ts) :
    ¬ (parseOperators last room least lhs ts).Fails f rest := by
  have hdone : (parseOperators last room least lhs ts).tree = .ok lhs :=
    ((parseOperators_gives_of_stops h).2 ⟨rfl, rfl⟩).1
  rintro ⟨hf, -⟩
  rw [hdone] at hf
  cases hf

theorem parseOperators_fails_cons {op : BinaryOp} (hop : t.kind.binaryOp? = some op)
    (hle : least ≤ op.precedence.rank) :
    (parseOperators last room least lhs (t :: ts)).Fails f rest ↔
      (parseExpr last room op.rightRank ts).Fails f rest ∨
      ∃ r mid, (parseExpr last room op.rightRank ts).Gives r mid ∧
        (parseOperators last room least (.binary (.cover lhs.note r.note) op lhs r) mid).Fails
          f rest := by
  have hlt : ¬ (op.precedence.rank : Int) < least := by omega
  rw [parseOperators]
  simp only [hop, hlt, if_false]
  cases hr : (parseExpr last room op.rightRank ts).tree with
  | error g => simp [Outcome.Fails, Outcome.Gives, Outcome.widen, hr]
  | ok r =>
    constructor
    · exact fun hf => .inr ⟨r, _, ⟨hr, rfl⟩, hf⟩
    · rintro (hf | ⟨r', mid, ⟨hr', rfl⟩, hf⟩)
      · rw [Outcome.Fails, hr] at hf
        cases hf.1
      · rw [hr] at hr'
        cases hr'
        exact hf

theorem parseUnary_fails_nil : (parseUnary last room []).Fails f rest ↔
    f = .atStart last ∧ rest = [] := by
  rw [parseUnary]
  simp only [Outcome.Fails, Outcome.fail, Except.error.injEq]
  exact and_congr eq_comm eq_comm

theorem parseUnary_fails_of_none (hop : t.kind.unaryOp? = none) :
    (parseUnary last room (t :: ts)).Fails f rest ↔ (parsePrimary last room t ts).Fails f rest := by
  rw [parseUnary]
  simp only [hop]

theorem parseUnary_fails_of_some_zero {op : UnaryOp} (hop : t.kind.unaryOp? = some op) :
    (parseUnary last 0 (t :: ts)).Fails f rest ↔ f = ⟨.tooDeep, t.span⟩ ∧ rest = t :: ts := by
  rw [parseUnary]
  simp only [hop, Outcome.Fails, Outcome.fail, Except.error.injEq]
  exact and_congr eq_comm eq_comm

theorem parseUnary_fails_of_some_succ {op : UnaryOp} (hop : t.kind.unaryOp? = some op) :
    (parseUnary last (room + 1) (t :: ts)).Fails f rest ↔ (parseUnary last room ts).Fails f rest := by
  rw [parseUnary]
  simp only [hop]
  cases hx : (parseUnary last room ts).tree with
  | error g => simp [Outcome.Fails, Outcome.widen, hx]
  | ok x => simp [Outcome.Fails, hx]

/-- May the token begin an operand that has no prefix operator? -/
def Token.BeginsOperand (t : Token) : Prop :=
  (∃ v, t.terminal = .literal v) ∨ (∃ n, t.terminal = .name n) ∨ t.terminal = .mark .openParen

theorem Token.BeginsOperand.unaryOp?_eq_none (h : t.BeginsOperand) : t.kind.unaryOp? = none := by
  rw [Option.eq_none_iff_forall_ne_some]
  intro op hop
  rw [Token.unaryOp?_eq_some] at hop
  rcases h with ⟨v, ht⟩ | ⟨n, ht⟩ | ht <;> rw [ht] at hop <;> cases op <;> cases hop

/-- Nothing else begins an operand, and what is blamed is the token that should have begun one. -/
theorem parsePrimary_fails_of_not_begins (h : ¬ t.BeginsOperand) :
    (parsePrimary last room t ts).Fails f rest ↔ f = .atStart t ∧ rest = t :: ts := by
  have hfail : parsePrimary last room t ts = .fail (.atStart t) := by
    unfold Token.BeginsOperand Token.terminal at h
    rw [parsePrimary]
    split
    · rename_i hm
      simp [hm] at h
    · rename_i hm
      simp [hm] at h
    · rename_i hm
      simp [hm] at h
    · rfl
  rw [hfail]
  simp only [Outcome.Fails, Outcome.fail, Except.error.injEq]
  exact and_congr eq_comm eq_comm

theorem not_parsePrimary_fails (hb : t.BeginsOperand) (ho : t.terminal ≠ .mark .openParen) :
    ¬ (parsePrimary last room t ts).Fails f rest := by
  obtain ⟨e, he⟩ : ∃ e, (parsePrimary last room t ts).Gives e ts := by
    rcases hb with ⟨v, ht⟩ | ⟨n, ht⟩ | ht
    · exact ⟨_, (parsePrimary_gives_of_literal ht).2 ⟨rfl, rfl⟩⟩
    · exact ⟨_, (parsePrimary_gives_of_name ht).2 ⟨rfl, rfl⟩⟩
    · exact absurd ht ho
  rintro ⟨hf, -⟩
  rw [he.1] at hf
  cases hf

theorem parsePrimary_fails_of_open (h : t.terminal = .mark .openParen) (hlast : last.kind = .eof) :
    (parsePrimary last room t ts).Fails f rest ↔
      (parseExpr last room 1 ts).Fails f rest ∨
      ∃ x, (parseExpr last room 1 ts).Gives x rest ∧ f = .atClose t.span.start (rest.headD last) ∧
        (rest.headD last).kind ≠ .mark .closeParen := by
  rw [parsePrimary, Token.terminal_eq_mark.1 h]
  simp only
  cases hx : (parseExpr last room 1 ts).tree with
  | error g => simp [Outcome.Fails, Outcome.Gives, Outcome.widen, hx]
  | ok x =>
    -- the inner expression was read, so the token behind it is at fault or closes it
    have hinner : ¬ (parseExpr last room 1 ts).Fails f rest := by
      rintro ⟨hf, -⟩
      rw [hx] at hf
      cases hf
    simp only [hinner, false_or]
    split
    · rename_i hr
      constructor
      · rintro ⟨hf, rfl⟩
        exact ⟨x, ⟨hx, hr⟩, (Except.error.inj hf).symm, by rw [List.headD_nil, hlast]; decide⟩
      · rintro ⟨y, ⟨-, hr'⟩, rfl, -⟩
        rw [hr] at hr'
        subst hr'
        exact ⟨rfl, rfl⟩
    · rename_i c cs hr
      by_cases hc : c.kind = .mark .closeParen
      · rw [if_pos hc]
        constructor
        · rintro ⟨hf, -⟩
          cases hf
        · rintro ⟨y, ⟨-, hr'⟩, -, hne⟩
          rw [hr] at hr'
          subst hr'
          exact absurd hc hne
      · rw [if_neg hc]
        constructor
        · rintro ⟨hf, rfl⟩
          exact ⟨x, ⟨hx, hr⟩, (Except.error.inj hf).symm, hc⟩
        · rintro ⟨y, ⟨-, hr'⟩, rfl, -⟩
          rw [hr] at hr'
          subst hr'
          exact ⟨rfl, rfl⟩

end Steps

/-! ## What a call gives does not depend on what follows -/

section Transfer

variable {last last' : Token} {room room' : Nat} {least : Int} {us rest rest' : List Token}
  {e : Expr Span}

theorem Stops.of_head? {ts ts' : List Token} (h : Stops least ts) (he : ts'.head? = ts.head?) :
    Stops least ts' := fun t op ht => h t op (he ▸ ht)

/-- The end of the input is no operator, whether it stands in the list or behind it. -/
theorem Stops.of_headD (h : Stops least rest) (hlast : last.kind = .eof)
    (he : rest'.headD last' = rest.headD last) : Stops least rest' := by
  cases rest' with
  | nil => exact stops_nil _
  | cons t ts =>
    intro t' op ht hop
    cases ht
    rw [List.headD_cons] at he
    cases rest with
    | nil =>
      rw [he, List.headD_nil, hlast] at hop
      cases hop
    | cons u us => exact h t op (by rw [he]; rfl) hop

theorem Outcome.Gives.parseExpr_of_stops (h : (parseExpr last room least (us ++ rest)).Gives e rest)
    (hst : Stops least rest') (hroom : room ≤ room') :
    (parseExpr last' room' least (us ++ rest')).Gives e rest' := by
  obtain ⟨vs, hvs, hs, hc, hl, -, hd⟩ := parseExpr_gives_iff.1 h
  rw [List.append_cancel_right hvs]
  exact parseExpr_gives_iff.2 ⟨vs, rfl, hs, hc, hl, hst, Nat.lt_of_lt_of_le hd hroom⟩

/-- An operand ends where it ends, whatever stands behind it. -/
theorem Outcome.Gives.parseUnary_append (h : (parseUnary last room (us ++ rest)).Gives e rest)
    (hroom : room ≤ room') : (parseUnary last' room' (us ++ rest')).Gives e rest' := by
  obtain ⟨vs, hvs, hs, hc, ho, hd⟩ := parseUnary_sound h
  rw [List.append_cancel_right hvs]
  exact (@Expr.Spelled.reaches last' room' 0 rest' e vs hs hc (Nat.le_trans hd hroom)
    (Expr.atLeast_of_none ho) (fun op hop => by rw [ho] at hop; cases hop)).1 ho

end Transfer

/-! ## Parentheses that are open -/

/-- What a token makes of the parentheses open before it, the innermost first. -/
def Token.bracket (opened : List Token) (t : Token) : List Token :=
  match t.kind with
  | .mark .openParen => t :: opened
  | .mark .closeParen => opened.tail
  | _ => opened

/-- The parentheses that no token of the list closes, the innermost first. -/
def openParens (ts : List Token) : List Token := ts.foldl Token.bracket []

namespace Token

theorem bracket_open {t : Token} (h : t.terminal = .mark .openParen) (opened : List Token) :
    bracket opened t = t :: opened := by
  rw [bracket, kind_eq_mark.2 (terminal_eq_mark.1 h)]

theorem bracket_close {t : Token} (h : t.terminal = .mark .closeParen) (opened : List Token) :
    bracket opened t = opened.tail := by
  rw [bracket, kind_eq_mark.2 (terminal_eq_mark.1 h)]

theorem bracket_other {t : Token} (ho : t.terminal ≠ .mark .openParen)
    (hc : t.terminal ≠ .mark .closeParen) (opened : List Token) : bracket opened t = opened := by
  rw [bracket]
  split
  · rename_i h
    exact absurd (terminal_eq_mark.2 (kind_eq_mark.1 h)) ho
  · rename_i h
    exact absurd (terminal_eq_mark.2 (kind_eq_mark.1 h)) hc
  · rfl

theorem mem_of_mem_bracket {t o : Token} {opened : List Token} (h : o ∈ bracket opened t) :
    o = t ∨ o ∈ opened := by
  unfold bracket at h
  split at h
  · exact List.mem_cons.1 h
  · exact .inr (List.mem_of_mem_tail h)
  · exact .inr h

end Token

/-- Only tokens of the list are open. -/
theorem mem_of_mem_openParens {us : List Token} {o : Token} (h : o ∈ openParens us) : o ∈ us := by
  have key : ∀ opened, o ∈ us.foldl Token.bracket opened → o ∈ us ∨ o ∈ opened := by
    clear h
    induction us with
    | nil => exact fun _ => .inr
    | cons t us ih =>
      intro opened ho
      rcases ih _ ho with ho | ho
      · exact .inl (List.mem_cons_of_mem _ ho)
      rcases Token.mem_of_mem_bracket ho with rfl | ho
      · exact .inl (List.mem_cons_self ..)
      · exact .inr ho
  exact (key [] h).resolve_right List.not_mem_nil

/-- A whole tree closes what it opens. -/
theorem Expr.Spelled.foldl_bracket {e : Expr Span} {us : List Token} (h : e.Spelled us)
    (opened : List Token) : us.foldl Token.bracket opened = opened := by
  induction h generalizing opened with
  | literal ht | identifier ht =>
    exact Token.bracket_other (by rw [ht]; nofun) (by rw [ht]; nofun) opened
  | @unary t op e us ht _ ih =>
    rw [List.foldl_cons, ih]
    exact Token.bracket_other (by rw [ht]; cases op <;> nofun) (by rw [ht]; cases op <;> nofun) _
  | @binary t op l r us vs _ ht _ ihl ihr =>
    rw [List.foldl_append, ihl, List.foldl_cons, ihr]
    exact Token.bracket_other (by rw [ht]; cases op <;> nofun) (by rw [ht]; cases op <;> nofun) _
  | grouping ho _ hc ih =>
    simp only [List.foldl_append, List.foldl_cons, List.foldl_nil, ih, Token.bracket_open ho,
      Token.bracket_close hc, List.tail_cons]

/-! ## Faults -/

/-- The fault stands at the token, and where it names the kind of a token it is that one's. -/
structure SyntaxError.PointsAt (f : SyntaxError) (t : Token) : Prop where
  span : f.span = t.span
  found : ∀ found expected, f.cause.sort = .unexpectedToken found expected → found = some t.kind
  unclosed : ∀ p, f.cause = .unclosed p → t.kind = .eof

namespace SyntaxError

theorem pointsAt_tooDeep (t : Token) : PointsAt ⟨.tooDeep, t.span⟩ t := ⟨rfl, nofun, nofun⟩

theorem pointsAt_atStart (t : Token) : (atStart t).PointsAt t := by
  refine ⟨rfl, fun found expected h => ?_, fun p h => ?_⟩
  · unfold atStart at h
    split at h <;> cases h <;> simp_all
  · unfold atStart at h
    split at h <;> cases h

theorem pointsAt_atClose (opened : Position) (t : Token) : (atClose opened t).PointsAt t := by
  refine ⟨rfl, fun found expected h => ?_, fun p h => ?_⟩
  · unfold atClose at h
    split at h <;> cases h
    rfl
  · unfold atClose at h
    split at h
    · assumption
    · cases h

theorem pointsAt_of_atEnd? {t : Token} {f : SyntaxError} (h : atEnd? t = some f) : f.PointsAt t := by
  unfold atEnd? at h
  split at h
  · cases h
  · cases h
    exact ⟨rfl, fun _ _ h => by cases h; simp_all, nofun⟩
  · cases h
    exact ⟨rfl, fun _ _ h => by cases h; simp_all, nofun⟩

theorem cause_ne_unclosed_of_atEnd? {t : Token} {f : SyntaxError} (h : atEnd? t = some f)
    (p : Position) : f.cause ≠ .unclosed p := by
  unfold atEnd? at h
  split at h <;> cases h <;> nofun

theorem atStart_cause_ne_unclosed (t : Token) (p : Position) : (atStart t).cause ≠ .unclosed p := by
  unfold atStart
  split <;> nofun

end SyntaxError

/-! ## The token at fault -/

/-- No operator stands at the front of the tokens. -/
def Ends (ts : List Token) : Prop := ∀ least, Stops least ts

/-- What a failing read says of the token at fault, the first of `rest` or the end of the input, and
of the tokens `us` read before it. -/
structure Blame (read : Token → Nat → (ts : List Token) → Outcome ts) (last : Token) (room : Nat)
    (us rest : List Token) (f : SyntaxError) : Prop where
  pointsAt : f.PointsAt (rest.headD last)
  /-- The same tokens up to the one at fault fail in the same way; more room does not help. -/
  again : ∀ last' room' rest', last'.kind = .eof → rest'.headD last' = rest.headD last →
    room ≤ room' → (f.cause = .tooDeep → room' = room) → (read last' room' (us ++ rest')).Fails f rest'
  /-- The tokens read so far begin a tree. -/
  completed : f.cause ≠ .tooDeep → ∃ vs, vs ≠ [] ∧ (∀ v ∈ vs, v.kind ≠ .eof) ∧
    ∀ last' rest', Ends rest' → ∃ e, (read last' room (us ++ vs ++ rest')).Gives e rest'
  /-- Of the open parentheses the innermost is the one that is reported as unclosed. -/
  unclosed : ∀ p, f.cause = .unclosed p → ∀ opened, ∃ o tail,
    us.foldl Token.bracket opened = o :: tail ∧ o.span.start = p

/-- A call blames what a call inside it blames. It has read `before` by then, opened `levels` more
levels, and goes on behind `after` to give a tree. -/
theorem Blame.outwards {read read' : Token → Nat → (ts : List Token) → Outcome ts} {last : Token}
    {room : Nat} {us rest : List Token} {f : SyntaxError} (h : Blame read last room us rest f)
    (before after : List Token) (levels : Nat) (hkind : ∀ v ∈ after, v.kind ≠ .eof)
    (hends : ∀ rest', Ends rest' → Ends (after ++ rest'))
    (hfails : ∀ last' room' rest', last'.kind = .eof → rest'.headD last' = rest.headD last →
      room ≤ room' → (read last' room' (us ++ rest')).Fails f rest' →
      (read' last' (room' + levels) (before ++ (us ++ rest'))).Fails f rest')
    (hgives : ∀ last' vs rest' e, Ends rest' →
      (read last' room (us ++ vs ++ (after ++ rest'))).Gives e (after ++ rest') →
      ∃ e', (read' last' (room + levels) (before ++ (us ++ vs ++ (after ++ rest')))).Gives e' rest') :
    Blame read' last (room + levels) (before ++ us) rest f where
  pointsAt := h.pointsAt
  again := by
    intro last' room' rest' hlast hhead hroom hdeep
    obtain ⟨r, rfl⟩ : ∃ r, room' = r + levels := ⟨room' - levels, by omega⟩
    rw [List.append_assoc]
    exact hfails last' r rest' hlast hhead (by omega)
      (h.again last' r rest' hlast hhead (by omega) fun hf => by have := hdeep hf; omega)
  completed := by
    intro hdeep
    obtain ⟨vs, hne, hvs, hread⟩ := h.completed hdeep
    refine ⟨vs ++ after, by simp [hne], fun v hv => ?_, fun last' rest' hrest => ?_⟩
    · rcases List.mem_append.1 hv with hv | hv
      · exact hvs v hv
      · exact hkind v hv
    · have hlist : before ++ us ++ (vs ++ after) ++ rest' =
          before ++ (us ++ vs ++ (after ++ rest')) := by simp
      obtain ⟨e, he⟩ := hread last' (after ++ rest') (hends rest' hrest)
      rw [hlist]
      exact hgives last' vs rest' e hrest he
  unclosed := by
    intro p hp opened
    rw [List.foldl_append]
    exact h.unclosed p hp _

/-! ### Faults of the token that is looked at -/

section Here

variable {last : Token} {room : Nat} {us rest : List Token}

theorem blame_atStart (hop : (rest.headD last).kind.unaryOp? = none)
    (hb : ¬ (rest.headD last).BeginsOperand) :
    Blame parseUnary last room [] rest (.atStart (rest.headD last)) where
  pointsAt := SyntaxError.pointsAt_atStart _
  again := by
    intro last' room' rest' _ hhead _ _
    rw [← hhead] at hop hb ⊢
    cases rest' with
    | nil => exact parseUnary_fails_nil.2 ⟨rfl, rfl⟩
    | cons t ts =>
      exact (parseUnary_fails_of_none hop).2 ((parsePrimary_fails_of_not_begins hb).2 ⟨rfl, rfl⟩)
  -- any operand will do
  completed := by
    intro _
    obtain ⟨t, ht⟩ := exists_terminal_eq (.name "")
    refine ⟨[t], List.cons_ne_nil _ _, ?_, fun last' rest' _ => ⟨.identifier t.span "", ?_⟩⟩
    · rw [List.forall_mem_singleton, ne_eq, ← Token.terminal_eq_eof, ht]
      nofun
    · exact (parseUnary_gives_of_none (Token.BeginsOperand.unaryOp?_eq_none (.inr (.inl ⟨_, ht⟩)))).2
        ((parsePrimary_gives_of_name ht).2 ⟨rfl, rfl⟩)
  unclosed := fun p hp => absurd hp (SyntaxError.atStart_cause_ne_unclosed _ p)

theorem blame_unaryOp {t : Token} {ts : List Token} {op : UnaryOp} (hop : t.kind.unaryOp? = some op) :
    Blame parseUnary last 0 [] (t :: ts) ⟨.tooDeep, t.span⟩ := by
  refine ⟨SyntaxError.pointsAt_tooDeep _, ?_, fun hf => absurd rfl hf, nofun⟩
  intro last' room' rest' hlast' hhead _ hdeep
  rw [hdeep rfl]
  rw [List.headD_cons] at hhead
  cases rest' with
  | nil =>
    rw [← hhead, List.headD_nil, hlast'] at hop
    cases hop
  | cons t' ts' =>
    subst hhead
    exact (parseUnary_fails_of_some_zero hop).2 ⟨rfl, rfl⟩

theorem blame_atClose {t : Token} {x : Expr Span} (hlast : last.kind = .eof)
    (ho : t.terminal = .mark .openParen) (hx : (parseExpr last room 1 (us ++ rest)).Gives x rest)
    (hc : (rest.headD last).kind ≠ .mark .closeParen) :
    Blame parseUnary last room (t :: us) rest (.atClose t.span.start (rest.headD last)) := by
  have hop : t.kind.unaryOp? = none := Token.BeginsOperand.unaryOp?_eq_none (.inr (.inr ho))
  obtain ⟨vs, hvs, hs, -, -, hstop, -⟩ := parseExpr_sound hx
  refine ⟨SyntaxError.pointsAt_atClose _ _, ?_, fun _ => ?_, ?_⟩
  · intro last' room' rest' hlast' hhead hroom _
    rw [← hhead] at hc ⊢
    exact (parseUnary_fails_of_none hop).2 ((parsePrimary_fails_of_open ho hlast').2
      (.inr ⟨x, hx.parseExpr_of_stops (hstop.of_headD hlast hhead) hroom, rfl, hc⟩))
  -- the parenthesis that is missing
  · obtain ⟨c, hclose⟩ := exists_terminal_eq (.mark .closeParen)
    refine ⟨[c], List.cons_ne_nil _ _, ?_, fun last' rest' _ =>
      ⟨.grouping (.cover t.span c.span) x, ?_⟩⟩
    · rw [List.forall_mem_singleton, ne_eq, ← Token.terminal_eq_eof, hclose]
      nofun
    · rw [List.append_assoc]
      exact (parseUnary_gives_of_none hop).2 ((parsePrimary_gives_of_open ho).2
        ⟨x, c, hx.parseExpr_of_stops (stops_of_close _ hclose) (Nat.le_refl _), hclose, rfl⟩)
  · intro p hp opened
    unfold SyntaxError.atClose at hp
    split at hp <;> cases hp
    refine ⟨t, opened, ?_, rfl⟩
    rw [List.append_cancel_right hvs, List.foldl_cons, hs.foldl_bracket, Token.bracket_open ho]

end Here

/-! ### From the place of the fault outwards -/

mutual

theorem parseExpr_blame {last : Token} {room : Nat} {least : Int} {ts rest : List Token}
    {f : SyntaxError} (hlast : last.kind = .eof)
    (h : (parseExpr last room least ts).Fails f rest) :
    ∃ us, ts = us ++ rest ∧
      Blame (fun last room => parseExpr last room least) last room us rest f := by
  cases room with
  | zero =>
    obtain ⟨rfl, rfl⟩ := parseExpr_fails_zero.1 h
    refine ⟨[], rfl, SyntaxError.pointsAt_tooDeep _, ?_, fun hf => absurd rfl hf, nofun⟩
    intro last' room' rest' _ hhead _ hdeep
    rw [hdeep rfl]
    exact parseExpr_fails_zero.2 ⟨by rw [List.nil_append, hhead], rfl⟩
  | succ r =>
    rcases parseExpr_fails_succ.1 h with hu | ⟨x, mid, hx, ho⟩
    · obtain ⟨us, hts, hb⟩ := parseUnary_blame hlast hu
      refine ⟨us, hts, hb.outwards [] [] 1 (List.forall_mem_nil _) (fun _ => id) ?_ ?_⟩
      · intro last' room' rest' _ _ _ hf
        exact parseExpr_fails_succ.2 (.inl hf)
      · intro last' vs rest' e hrest he
        exact ⟨e, parseExpr_gives.2
          ⟨r, e, rest', rfl, he, (parseOperators_gives_of_stops (hrest _)).2 ⟨rfl, rfl⟩⟩⟩
    · have hlen := hx.length_le
      obtain ⟨us, -, rfl, hb⟩ := parseOperators_blame hlast ho
      obtain ⟨ls, rfl, -⟩ := parseUnary_sound hx
      refine ⟨ls ++ us, by rw [List.append_assoc], hb.outwards ls [] 1 (List.forall_mem_nil _) (fun _ => id) ?_ ?_⟩
      · intro last' room' rest' _ _ hroom hf
        exact parseExpr_fails_succ.2 (.inr ⟨x, _, hx.parseUnary_append hroom, hf⟩)
      · intro last' vs rest' e _ he
        exact ⟨e, parseExpr_gives.2 ⟨r, x, _, rfl, hx.parseUnary_append (Nat.le_refl _), he⟩⟩
termination_by (ts.length, 3)
decreasing_by
  · exact Prod.Lex.right _ (by decide)
  · rcases Nat.lt_or_eq_of_le hlen with h | h
    · exact Prod.Lex.left _ _ h
    · rw [h]; exact Prod.Lex.right _ (by decide)

theorem parseOperators_blame {last : Token} {room : Nat} {least : Int} {lhs : Expr Span}
    {ts rest : List Token} {f : SyntaxError} (hlast : last.kind = .eof)
    (h : (parseOperators last room least lhs ts).Fails f rest) :
    ∃ us, us ≠ [] ∧ ts = us ++ rest ∧
      Blame (fun last room => parseOperators last room least lhs) last room us rest f := by
  by_cases hst : Stops least ts
  · exact absurd h (not_parseOperators_fails_of_stops hst)
  obtain ⟨t, ts', op, hts, hop, hle⟩ := exists_of_not_stops hst
  rw [hts] at h
  have hlen : ts'.length < ts.length := by simp [hts]
  rcases (parseOperators_fails_cons hop hle).1 h with hr | ⟨r, mid, hr, ho⟩
  · obtain ⟨us, rfl, hb⟩ := parseExpr_blame hlast hr
    refine ⟨t :: us, List.cons_ne_nil _ _, hts, hb.outwards [t] [] 0 (List.forall_mem_nil _) (fun _ => id) ?_ ?_⟩
    · intro last' room' rest' _ _ _ hf
      exact (parseOperators_fails_cons hop hle).2 (.inl hf)
    · intro last' vs rest' e hrest he
      exact ⟨_, (parseOperators_gives_cons hop hle).2
        ⟨e, rest', he, (parseOperators_gives_of_stops (hrest _)).2 ⟨rfl, rfl⟩⟩⟩
  -- the right operand was read up to the next operator, which stays in front of what is left
  · have hmid : mid.length < ts.length := Nat.lt_of_le_of_lt hr.length_le hlen
    obtain ⟨us, hne, rfl, hb⟩ := parseOperators_blame hlast ho
    obtain ⟨vs, rfl, -, -, -, hstop, -⟩ := parseExpr_sound hr
    obtain ⟨u, us, rfl⟩ := List.exists_cons_of_ne_nil hne
    refine ⟨t :: vs ++ (u :: us), by simp, by simp [hts],
      hb.outwards (t :: vs) [] 0 (List.forall_mem_nil _) (fun _ => id) ?_ ?_⟩
    · intro last' room' rest' _ _ hroom hf
      exact (parseOperators_fails_cons hop hle).2
        (.inr ⟨r, _, hr.parseExpr_of_stops (hstop.of_head? rfl) hroom, hf⟩)
    · intro last' ws rest' e _ he
      exact ⟨e, (parseOperators_gives_cons hop hle).2
        ⟨r, _, hr.parseExpr_of_stops (hstop.of_head? rfl) (Nat.le_refl _), he⟩⟩
termination_by (ts.length, 0)
decreasing_by
  · exact Prod.Lex.left _ _ hlen
  · exact Prod.Lex.left _ _ hmid

theorem parseUnary_blame {last : Token} {room : Nat} {ts rest : List Token} {f : SyntaxError}
    (hlast : last.kind = .eof) (h : (parseUnary last room ts).Fails f rest) :
    ∃ us, ts = us ++ rest ∧ Blame parseUnary last room us rest f := by
  match ts with
  | [] =>
    obtain ⟨rfl, rfl⟩ := parseUnary_fails_nil.1 h
    have heof : last.terminal = .eof := Token.terminal_eq_eof.2 hlast
    refine ⟨[], rfl, blame_atStart ?_ ?_⟩
    · rw [List.headD_nil, hlast]
      rfl
    · rintro (⟨v, ht⟩ | ⟨n, ht⟩ | ht) <;> rw [List.headD_nil, heof] at ht <;> cases ht
  | t :: ts' =>
    cases hop : t.kind.unaryOp? with
    | some op =>
      cases room with
      | zero =>
        obtain ⟨rfl, rfl⟩ := (parseUnary_fails_of_some_zero hop).1 h
        exact ⟨[], rfl, blame_unaryOp hop⟩
      | succ r =>
        obtain ⟨us, rfl, hb⟩ := parseUnary_blame hlast ((parseUnary_fails_of_some_succ hop).1 h)
        refine ⟨t :: us, rfl, hb.outwards [t] [] 1 (List.forall_mem_nil _) (fun _ => id) ?_ ?_⟩
        · intro last' room' rest' _ _ _ hf
          exact (parseUnary_fails_of_some_succ hop).2 hf
        · intro last' vs rest' e _ he
          exact ⟨_, (parseUnary_gives_of_some hop).2 ⟨r, e, rfl, he, rfl⟩⟩
    | none =>
      have hprim := (parseUnary_fails_of_none hop).1 h
      by_cases hb : t.BeginsOperand
      · by_cases ho : t.terminal = .mark .openParen
        · rcases (parsePrimary_fails_of_open ho hlast).1 hprim with hx | ⟨x, hx, rfl, hc⟩
          · obtain ⟨us, rfl, hb⟩ := parseExpr_blame hlast hx
            obtain ⟨c, hclose⟩ := exists_terminal_eq (.mark .closeParen)
            refine ⟨t :: us, rfl, hb.outwards [t] [c] 0 ?_ (fun rest' _ l => stops_of_close l hclose)
              ?_ ?_⟩
            · rw [List.forall_mem_singleton, ne_eq, ← Token.terminal_eq_eof, hclose]
              nofun
            · intro last' room' rest' hlast' _ _ hf
              exact (parseUnary_fails_of_none hop).2 ((parsePrimary_fails_of_open ho hlast').2 (.inl hf))
            · intro last' vs rest' e _ he
              exact ⟨_, (parseUnary_gives_of_none hop).2
                ((parsePrimary_gives_of_open ho).2 ⟨e, c, he, hclose, rfl⟩)⟩
          · obtain ⟨us, rfl, -⟩ := parseExpr_sound hx
            exact ⟨t :: us, rfl, blame_atClose hlast ho hx hc⟩
        · exact absurd hprim (not_parsePrimary_fails hb ho)
      · obtain ⟨rfl, rfl⟩ := (parsePrimary_fails_of_not_begins hb).1 hprim
        exact ⟨[], rfl, blame_atStart hop hb⟩
termination_by (ts.length, 2)
decreasing_by
  all_goals exact Prod.Lex.left _ _ (by simp)

end

end ScriptSyntax
