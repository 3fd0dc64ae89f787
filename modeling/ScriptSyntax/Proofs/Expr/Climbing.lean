/-
Climbing the levels of binding strength reads exactly the canonical trees: with `room` levels left,
the tokens give a tree and leave a rest if and only if they are the tokens that spell the tree with
the rest behind them, the tree is canonical and binds at least as strong as asked, no operator so
strong stands at the front of the rest, and the tree is less than `room` levels deep
(`parseExpr_gives_iff`). A canonical tree is therefore determined by its yield
(`Canonical.eq_of_yield_eq`), and a whole source is read as the one canonical tree of its tokens.

Each function of the parser has one lemma that says when it gives a tree. Soundness follows the
calls of the parser; the loop over operators carries the tree read so far, behind which the next
operator may stand. Completeness follows the tokens that spell the tree: a tree that leans to the
left is reached by the loop after as many rounds as it leans.
-/
import ScriptSyntax.Proofs.Expr.Canonical

namespace ScriptSyntax

/-- No operator of at least that rank stands at the front of the tokens. -/
def Stops (least : Int) (ts : List Token) : Prop :=
  ∀ t op, ts.head? = some t → t.kind.binaryOp? = some op → (op.precedence.rank : Int) < least

theorem Stops.mono {m n : Int} {ts : List Token} (h : Stops m ts) (hmn : m ≤ n) : Stops n ts := by
  intro t op ht hop
  have := h t op ht hop
  omega

theorem stops_nil (least : Int) : Stops least [] := by
  intro t op ht
  cases ht

theorem stops_of_close {t : Token} {ts : List Token} (least : Int)
    (h : t.terminal = .mark .closeParen) : Stops least (t :: ts) := by
  intro t' op ht hop
  cases ht
  rw [Token.binaryOp?_eq_some, h] at hop
  cases op <;> cases hop

theorem exists_of_not_stops {least : Int} {ts : List Token} (h : ¬ Stops least ts) :
    ∃ t ts' op, ts = t :: ts' ∧ t.kind.binaryOp? = some op ∧ least ≤ op.precedence.rank := by
  simp only [Stops, Classical.not_forall, Int.not_lt, exists_prop] at h
  obtain ⟨t, op, ht, hop, hle⟩ := h
  obtain ⟨ts', rfl⟩ := List.head?_eq_some_iff.1 ht
  exact ⟨t, ts', op, rfl, hop, hle⟩

/-! ## When the functions of the parser give a tree -/

/-- A tree was read and these tokens are left. -/
def Outcome.Gives {ts : List Token} (o : Outcome ts) (e : Expr Span) (rest : List Token) : Prop :=
  o.tree = .ok e ∧ o.rest = rest

theorem Outcome.Gives.length_le {ts rest : List Token} {o : Outcome ts} {e : Expr Span}
    (h : o.Gives e rest) : rest.length ≤ ts.length := h.2 ▸ o.le

section Steps

variable {last t : Token} {room : Nat} {least : Int} {ts rest : List Token} {e lhs : Expr Span}

theorem parseExpr_gives : (parseExpr last room least ts).Gives e rest ↔
    ∃ r x mid, room = r + 1 ∧ (parseUnary last r ts).Gives x mid ∧
      (parseOperators last r least x mid).Gives e rest := by
  cases room with
  | zero => simp [parseExpr, Outcome.Gives, Outcome.fail]
  | succ r =>
    rw [parseExpr]
    cases h : (parseUnary last r ts).tree with
    | error f => simp [Outcome.Gives, h]
    | ok x =>
      constructor
      · intro he
        exact ⟨r, x, _, rfl, ⟨h, rfl⟩, he⟩
      · rintro ⟨r', y, mid, hr, ⟨hy, rfl⟩, he⟩
        cases hr
        rw [h] at hy
        cases hy
        exact he

theorem parseOperators_gives_of_stops (h : Stops least ts) :
    (parseOperators last room least lhs ts).Gives e rest ↔ e = lhs ∧ rest = ts := by
  have hdone : (parseOperators last room least lhs ts) = .done lhs := by
    cases ts with
    | nil => rw [parseOperators]
    | cons t ts' =>
      rw [parseOperators]
      cases hop : t.kind.binaryOp? with
      | none => rfl
      | some op => simp only [h t op rfl hop, if_true]
  rw [hdone]
  simp only [Outcome.Gives, Outcome.done, Except.ok.injEq]
  exact and_congr eq_comm eq_comm

theorem parseOperators_gives_cons {op : BinaryOp} (hop : t.kind.binaryOp? = some op)
    (hle : least ≤ op.precedence.rank) :
    (parseOperators last room least lhs (t :: ts)).Gives e rest ↔
      ∃ r mid, (parseExpr last room op.rightRank ts).Gives r mid ∧
        (parseOperators last room least (.binary (.cover lhs.note r.note) op lhs r) mid).Gives
          e rest := by
  have hlt : ¬ (op.precedence.rank : Int) < least := by omega
  rw [parseOperators]
  simp only [hop, hlt, if_false]
  cases hr : (parseExpr last room op.rightRank ts).tree with
  | error f => simp [Outcome.Gives, Outcome.widen, hr]
  | ok r =>
    constructor
    · intro he
      exact ⟨r, _, ⟨hr, rfl⟩, he⟩
    · rintro ⟨r', mid, ⟨hr', rfl⟩, he⟩
      rw [hr] at hr'
      cases hr'
      exact he

theorem not_parseUnary_gives_nil : ¬ (parseUnary last room []).Gives e rest := by
  simp [parseUnary, Outcome.Gives, Outcome.fail]

theorem parseUnary_gives_of_none (hop : t.kind.unaryOp? = none) :
    (parseUnary last room (t :: ts)).Gives e rest ↔ (parsePrimary last room t ts).Gives e rest := by
  rw [parseUnary]
  simp only [hop]

theorem parseUnary_gives_of_some {op : UnaryOp} (hop : t.kind.unaryOp? = some op) :
    (parseUnary last room (t :: ts)).Gives e rest ↔
      ∃ r x, room = r + 1 ∧ (parseUnary last r ts).Gives x rest ∧
        e = .unary (.cover t.span x.note) op x := by
  rw [parseUnary]
  cases room with
  | zero => simp [hop, Outcome.Gives, Outcome.fail]
  | succ r =>
    simp only [hop]
    cases hx : (parseUnary last r ts).tree with
    | error f => simp [hx, Outcome.Gives, Outcome.widen]
    | ok x =>
      constructor
      · rintro ⟨he, hr⟩
        exact ⟨r, x, rfl, ⟨hx, hr⟩, (Except.ok.inj he).symm⟩
      · rintro ⟨r', y, hr', ⟨hy, hr⟩, rfl⟩
        cases hr'
        rw [hx] at hy
        cases hy
        exact ⟨rfl, hr⟩

theorem parsePrimary_gives_of_literal {v : Literal} (h : t.terminal = .literal v) :
    (parsePrimary last room t ts).Gives e rest ↔ e = .literal t.span v ∧ rest = ts := by
  rw [parsePrimary, Token.terminal_eq_literal.1 h]
  simp [Outcome.Gives, eq_comm]

theorem parsePrimary_gives_of_name {n : String} (h : t.terminal = .name n) :
    (parsePrimary last room t ts).Gives e rest ↔ e = .identifier t.span n ∧ rest = ts := by
  obtain ⟨hm, rfl⟩ := Token.terminal_eq_name.1 h
  rw [parsePrimary, hm]
  simp [Outcome.Gives, eq_comm]

theorem parsePrimary_gives_of_open (h : t.terminal = .mark .openParen) :
    (parsePrimary last room t ts).Gives e rest ↔
      ∃ x c, (parseExpr last room 1 ts).Gives x (c :: rest) ∧ c.terminal = .mark .closeParen ∧
        e = .grouping (.cover t.span c.span) x := by
  rw [parsePrimary, Token.terminal_eq_mark.1 h]
  simp only
  cases hx : (parseExpr last room 1 ts).tree with
  | error f => simp [Outcome.Gives, Outcome.widen, hx]
  | ok x =>
    simp only
    split
    · rename_i hr
      simp [Outcome.Gives, hr]
    · rename_i c cs hr
      by_cases hc : c.kind = .mark .closeParen
      · rw [if_pos hc]
        constructor
        · rintro ⟨he, rfl⟩
          exact ⟨x, c, ⟨hx, hr⟩, Token.terminal_eq_mark.2 (Token.kind_eq_mark.1 hc),
            (Except.ok.inj he).symm⟩
        · rintro ⟨y, c', ⟨hy, hr'⟩, -, rfl⟩
          rw [hx] at hy
          rw [hr] at hr'
          cases hy
          cases hr'
          exact ⟨rfl, rfl⟩
      · rw [if_neg hc]
        constructor
        · rintro ⟨he, -⟩
          cases he
        · rintro ⟨y, c', ⟨-, hr'⟩, hc', -⟩
          rw [hr] at hr'
          cases hr'
          exact absurd (Token.kind_eq_mark.2 (Token.terminal_eq_mark.1 hc')) hc

/-- Nothing else begins an operand. -/
theorem terminal_of_parsePrimary_gives (h : (parsePrimary last room t ts).Gives e rest) :
    (∃ v, t.terminal = .literal v) ∨ (∃ n, t.terminal = .name n) ∨
      t.terminal = .mark .openParen := by
  rw [parsePrimary] at h
  unfold Token.terminal
  split at h
  · rename_i v hm
    exact .inl ⟨v, by rw [hm]⟩
  · rename_i hm
    exact .inr (.inl ⟨t.lexeme, by rw [hm]⟩)
  · rename_i hm
    exact .inr (.inr (by rw [hm]))
  · cases h.1

end Steps

/-! ## What is read is canonical -/

open ScriptSyntax.Expr

mutual

theorem parseExpr_sound {last : Token} {room : Nat} {least : Int} {ts rest : List Token}
    {e : Expr Span} (h : (parseExpr last room least ts).Gives e rest) :
    ∃ us, ts = us ++ rest ∧ e.Spelled us ∧ e.Canonical ∧ e.AtLeast least ∧ Stops least rest ∧
      e.depth < room := by
  obtain ⟨r, x, mid, rfl, hx, he⟩ := parseExpr_gives.1 h
  have hlen := hx.length_le
  obtain ⟨us, hts, hs, hc, ho, hd⟩ := parseUnary_sound hx
  obtain ⟨vs, hmid, hs', hc', hl', hst, hd'⟩ := parseOperators_sound he hs hc (atLeast_of_none ho)
    (fun o h => by rw [ho] at h; cases h) hd
  exact ⟨us ++ vs, by rw [hts, hmid, List.append_assoc], hs', hc', hl', hst, Nat.lt_succ_of_le hd'⟩
termination_by (ts.length, 3)
decreasing_by
  · exact Prod.Lex.right _ (by decide)
  · rcases Nat.lt_or_eq_of_le hlen with h | h
    · exact Prod.Lex.left _ _ h
    · rw [h]; exact Prod.Lex.right _ (by decide)

/-- The loop keeps the tree read so far canonical: whatever operator comes next, the tree may stand
to the left of it, since the right operand at its end did not take the operator in. -/
theorem parseOperators_sound {last : Token} {room : Nat} {least : Int} {lhs e : Expr Span}
    {ls ts rest : List Token} (h : (parseOperators last room least lhs ts).Gives e rest)
    (hs : lhs.Spelled ls) (hc : lhs.Canonical) (hl : lhs.AtLeast least)
    (hop : ∀ o, lhs.operator? = some o → Stops o.rightRank ts) (hd : lhs.depth ≤ room) :
    ∃ us, ts = us ++ rest ∧ e.Spelled (ls ++ us) ∧ e.Canonical ∧ e.AtLeast least ∧
      Stops least rest ∧ e.depth ≤ room := by
  by_cases hst : Stops least ts
  -- the loop is done
  · obtain ⟨rfl, rfl⟩ := (parseOperators_gives_of_stops hst).1 h
    exact ⟨[], rfl, by simpa using hs, hc, hl, hst, hd⟩
  obtain ⟨t, ts', op, hts, ht, hle⟩ := exists_of_not_stops hst
  rw [hts] at h hop
  obtain ⟨r, mid, hr, he⟩ := (parseOperators_gives_cons ht hle).1 h
  have hlen : ts'.length < ts.length := by simp [hts]
  have hmid : mid.length < ts.length := Nat.lt_of_le_of_lt hr.length_le hlen
  obtain ⟨vs, hvs, hrs, hrc, hrl, hrst, hrd⟩ := parseExpr_sound hr
  -- one round: the next operator fits behind the tree, and the operand behind it fits as well
  have hfit : FitsLeft op lhs := fitsLeft_iff.2 fun o ho => hop o ho t op rfl ht
  have hb : Canonical (.binary (.cover lhs.note r.note) op lhs r) :=
    ⟨hfit, fitsRight_iff.2 hrl, hc, hrc⟩
  obtain ⟨us, hus, hes, hec, hel, hest, hed⟩ := parseOperators_sound he
    (.binary hs (Token.binaryOp?_eq_some.1 ht) hrs) hb (by intro o ho; cases ho; exact hle)
    (by intro o ho; cases ho; exact hrst) (by simp only [depth]; omega)
  exact ⟨t :: vs ++ us, by simp [hts, hvs, hus], by simpa using hes, hec, hel, hest, hed⟩
termination_by (ts.length, 0)
decreasing_by
  · exact Prod.Lex.left _ _ hlen
  · exact Prod.Lex.left _ _ hmid

theorem parseUnary_sound {last : Token} {room : Nat} {ts rest : List Token} {e : Expr Span}
    (h : (parseUnary last room ts).Gives e rest) :
    ∃ us, ts = us ++ rest ∧ e.Spelled us ∧ e.Canonical ∧ e.operator? = none ∧ e.depth ≤ room := by
  match ts with
  | [] => exact absurd h not_parseUnary_gives_nil
  | t :: ts' =>
    cases hop : t.kind.unaryOp? with
    | none => exact parsePrimary_sound ((parseUnary_gives_of_none hop).1 h)
    | some op =>
      obtain ⟨r, x, rfl, hx, rfl⟩ := (parseUnary_gives_of_some hop).1 h
      obtain ⟨us, rfl, hs, hc, ho, hd⟩ := parseUnary_sound hx
      exact ⟨t :: us, rfl, .unary (Token.unaryOp?_eq_some.1 hop) hs, ⟨ho, hc⟩, rfl,
        Nat.succ_le_succ hd⟩
termination_by (ts.length, 2)
decreasing_by
  · exact Prod.Lex.right _ (by decide)
  · exact Prod.Lex.left _ _ (by simp)

theorem parsePrimary_sound {last t : Token} {room : Nat} {ts rest : List Token} {e : Expr Span}
    (h : (parsePrimary last room t ts).Gives e rest) :
    ∃ us, t :: ts = us ++ rest ∧ e.Spelled us ∧ e.Canonical ∧ e.operator? = none ∧
      e.depth ≤ room := by
  rcases terminal_of_parsePrimary_gives h with ⟨v, ht⟩ | ⟨n, ht⟩ | ht
  · obtain ⟨rfl, rfl⟩ := (parsePrimary_gives_of_literal ht).1 h
    exact ⟨[t], rfl, .literal ht, trivial, rfl, Nat.zero_le _⟩
  · obtain ⟨rfl, rfl⟩ := (parsePrimary_gives_of_name ht).1 h
    exact ⟨[t], rfl, .identifier ht, trivial, rfl, Nat.zero_le _⟩
  · obtain ⟨x, c, hx, hc, rfl⟩ := (parsePrimary_gives_of_open ht).1 h
    obtain ⟨us, rfl, hs, hcan, -, -, hd⟩ := parseExpr_sound hx
    exact ⟨t :: us ++ [c], by simp, .grouping ht hs hc, hcan, rfl, hd⟩
termination_by (ts.length + 1, 1)
decreasing_by exact Prod.Lex.left _ _ (Nat.lt_succ_self _)

end

/-! ## Every canonical tree is read -/

section Reaches

variable {last : Token} {room : Nat} {least : Int} {ts rest : List Token} {e : Expr Span}

/-- Reading the tokens leads the loop over operators to the tree `e` with `rest` behind it. -/
def Reaches (last : Token) (room : Nat) (least : Int) (ts : List Token) (e : Expr Span)
    (rest : List Token) : Prop :=
  ∃ x mid, (parseUnary last room ts).Gives x mid ∧
    ∀ y left, (parseOperators last room least e rest).Gives y left →
      (parseOperators last room least x mid).Gives y left

theorem reaches_of_unary (h : (parseUnary last room ts).Gives e rest) :
    Reaches last room least ts e rest := ⟨e, rest, h, fun _ _ => id⟩

/-- One more round of the loop. -/
theorem Reaches.binary {l r : Expr Span} {t : Token} {op : BinaryOp} {vs : List Token}
    (h : Reaches last room least ts l (t :: vs)) (ht : t.terminal = .mark op.mark)
    (hle : least ≤ op.precedence.rank) (hr : (parseExpr last room op.rightRank vs).Gives r rest) :
    Reaches last room least ts (.binary (.cover l.note r.note) op l r) rest := by
  obtain ⟨x, mid, hx, hmid⟩ := h
  refine ⟨x, mid, hx, fun y left hy => hmid y left ?_⟩
  exact (parseOperators_gives_cons (Token.binaryOp?_eq_some.2 ht) hle).2 ⟨r, rest, hr, hy⟩

theorem Reaches.gives (h : Reaches last room least ts e rest) (hst : Stops least rest) :
    (parseExpr last (room + 1) least ts).Gives e rest := by
  obtain ⟨x, mid, hx, hmid⟩ := h
  exact parseExpr_gives.2
    ⟨room, x, mid, rfl, hx, hmid _ _ ((parseOperators_gives_of_stops hst).2 ⟨rfl, rfl⟩)⟩

/-- The tokens of a canonical tree lead the loop to the tree. An operator at its root must not let
the rest into its right operand. -/
theorem Expr.Spelled.reaches {us : List Token} (h : e.Spelled us) (hc : e.Canonical)
    (hd : e.depth ≤ room) (hl : e.AtLeast least)
    (hst : ∀ op, e.operator? = some op → Stops op.rightRank rest) :
    (e.operator? = none → (parseUnary last room (us ++ rest)).Gives e rest) ∧
      Reaches last room least (us ++ rest) e rest := by
  -- without an operator at the root the operand alone is the tree
  have leaf : ∀ {e : Expr Span} {us : List Token} {room : Nat} {least : Int} {rest : List Token},
      (parseUnary last room (us ++ rest)).Gives e rest →
      (e.operator? = none → (parseUnary last room (us ++ rest)).Gives e rest) ∧
        Reaches last room least (us ++ rest) e rest :=
    fun h => ⟨fun _ => h, reaches_of_unary h⟩
  have noPrefix : ∀ {t : Token}, (∀ op : UnaryOp, t.terminal ≠ .mark op.mark) →
      t.kind.unaryOp? = none := by
    intro t ht
    rw [Option.eq_none_iff_forall_ne_some]
    exact fun op hop => ht op (Token.unaryOp?_eq_some.1 hop)
  induction h generalizing room least rest with
  | @literal t v ht =>
    refine leaf ((parseUnary_gives_of_none (noPrefix fun op => ?_)).2
      ((parsePrimary_gives_of_literal ht).2 ⟨rfl, rfl⟩))
    rw [ht]; nofun
  | @identifier t n ht =>
    refine leaf ((parseUnary_gives_of_none (noPrefix fun op => ?_)).2
      ((parsePrimary_gives_of_name ht).2 ⟨rfl, rfl⟩))
    rw [ht]; nofun
  | @unary t op x us ht _ ih =>
    obtain ⟨r, rfl⟩ : ∃ r, room = r + 1 := ⟨room - 1, by simp only [depth] at hd; omega⟩
    have hx := (@ih r 0 rest hc.2 (Nat.le_of_succ_le_succ hd)
      (atLeast_of_none hc.1) (fun o ho => by rw [hc.1] at ho; cases ho)).1 hc.1
    exact leaf ((parseUnary_gives_of_some (Token.unaryOp?_eq_some.2 ht)).2 ⟨r, x, rfl, hx, rfl⟩)
  | @binary t op l r us vs _ ht _ ihl ihr =>
    obtain ⟨hfl, hfr, hcl, hcr⟩ := hc
    obtain ⟨k, rfl⟩ : ∃ k, room = k + 1 := ⟨room - 1, by simp only [depth] at hd; omega⟩
    have hle : least ≤ op.precedence.rank := hl op rfl
    -- the right operand is read up to the rest, one level deeper
    have hrest : Stops op.rightRank rest := hst op rfl
    have hr : (parseExpr last (k + 1) op.rightRank (vs ++ rest)).Gives r rest := by
      refine ((@ihr k _ rest hcr (by simp only [depth] at hd; omega) (fitsRight_iff.1 hfr)
        fun o ho => hrest.mono ?_).2).gives hrest
      have := fitsRight_iff.1 hfr o ho
      have := o.rank_le_rightRank
      omega
    -- the loop has come to the left operand, with the operator in front
    have hlr := (@ihl (k + 1) least (t :: vs ++ rest) hcl
      (by simp only [depth] at hd; omega)
      (fun o ho => by have := hfl.atLeast o ho; omega)
      (fun o ho t' op' ht' hop => by
        cases ht'
        rw [Token.binaryOp?_eq_some.2 ht] at hop
        cases hop
        exact fitsLeft_iff.1 hfl o ho)).2
    rw [List.append_assoc]
    exact ⟨nofun, hlr.binary ht hle hr⟩
  | @grouping o c x us ho _ hclose ih =>
    obtain ⟨k, rfl⟩ : ∃ k, room = k + 1 := ⟨room - 1, by simp only [depth] at hd; omega⟩
    have hx := (@ih k 1 (c :: rest) hc
      (by simp only [depth] at hd; omega) (atLeast_one _)
      (fun op _ => stops_of_close _ hclose)).2
    have hg := (parsePrimary_gives_of_open ho).2 ⟨x, c, hx.gives (stops_of_close _ hclose), hclose, rfl⟩
    have hu : (parseUnary last (k + 1) (o :: us ++ [c] ++ rest)).Gives
        (.grouping (.cover o.span c.span) x) rest := by
      rw [List.append_assoc, List.singleton_append]
      refine (parseUnary_gives_of_none (noPrefix fun op => ?_)).2 hg
      rw [ho]
      cases op <;> nofun
    exact leaf hu

end Reaches

/-- Climbing reads a tree exactly if the tokens before the rest spell it, it is canonical and binds
at least as strong as asked, the rest begins with no operator so strong, and its levels fit. -/
theorem parseExpr_gives_iff {last : Token} {room : Nat} {least : Int} {ts rest : List Token}
    {e : Expr Span} : (parseExpr last room least ts).Gives e rest ↔
      ∃ us, ts = us ++ rest ∧ e.Spelled us ∧ e.Canonical ∧ e.AtLeast least ∧ Stops least rest ∧
        e.depth < room := by
  constructor
  · exact parseExpr_sound
  · rintro ⟨us, rfl, hs, hc, hl, hst, hd⟩
    obtain ⟨k, rfl⟩ : ∃ k, room = k + 1 := ⟨room - 1, by omega⟩
    refine (hs.reaches hc (Nat.le_of_lt_succ hd) hl fun op ho => hst.mono ?_).2.gives hst
    have := hl op ho
    have := op.rank_le_rightRank
    omega

/-! ## Sessions -/

namespace Session

/-- The tokens of a session from its index on. -/
theorem drop_toList (s : Session) : s.tokens.toList.drop s.index = s.rest ++ [s.tokens.last] := by
  unfold TokenList.toList rest
  rw [List.drop_append_of_le_length s.index_le]

theorem length_rest (s : Session) : s.rest.length = s.tokens.front.length - s.index := by
  simp [rest]

/-- A session reads the tree that is spelled from its index up to the index that it is left with. -/
theorem parseExpr_eq_ok_iff {s : Session} {least : Int} {e : Expr Span} {j : Nat} :
    (s.parseExpr least).1 = .ok e ∧ (s.parseExpr least).2.index = j ↔
      ∃ us rest, s.rest = us ++ rest ∧ j = s.index + us.length ∧ e.Spelled us ∧ e.Canonical ∧
        e.AtLeast least ∧ Stops least rest ∧ e.depth < maxNesting := by
  have hi := s.index_le
  have hlen := s.length_rest
  constructor
  · rintro ⟨he, rfl⟩
    obtain ⟨us, hts, hs, hc, hl, hst, hd⟩ :=
      parseExpr_gives_iff.1 (⟨he, rfl⟩ : (ScriptSyntax.parseExpr s.tokens.last maxNesting least
        s.rest).Gives e _)
    refine ⟨us, _, hts, ?_, hs, hc, hl, hst, hd⟩
    have := congrArg List.length hts
    rw [List.length_append] at this
    simp only [Session.parseExpr, leaving]
    omega
  · rintro ⟨us, rest, hts, rfl, hs, hc, hl, hst, hd⟩
    have hg : (ScriptSyntax.parseExpr s.tokens.last maxNesting least s.rest).Gives e rest :=
      parseExpr_gives_iff.2 ⟨us, hts, hs, hc, hl, hst, hd⟩
    obtain ⟨he, hr⟩ := hg
    refine ⟨he, ?_⟩
    have := congrArg List.length hts
    rw [List.length_append] at this
    simp only [Session.parseExpr, leaving, hr]
    omega

section Slices

variable {s : Session} {us rest : List Token}

/-- The token behind those read is the first of the rest, or the last one. -/
theorem getElem?_toList (h : s.rest = us ++ rest) :
    s.tokens.toList[s.index + us.length]? = (rest ++ [s.tokens.last]).head? := by
  rw [← List.getElem?_drop, drop_toList, h, List.append_assoc, List.getElem?_append_right (by omega),
    Nat.sub_self, List.head?_eq_getElem?]

theorem extract_toList (h : s.rest = us ++ rest) :
    s.tokens.toList.extract s.index (s.index + us.length) = us := by
  rw [List.extract_eq_take_drop, drop_toList, h, Nat.add_sub_cancel_left, List.append_assoc,
    List.take_left]

/-- Whether an operator stands behind the tokens read does not depend on the last token, which ends
the input. -/
theorem stops_rest_iff {least : Int} (h : s.rest = us ++ rest) : Stops least rest ↔
    ∀ t op, s.tokens.toList[s.index + us.length]? = some t → t.kind.binaryOp? = some op →
      (op.precedence.rank : Int) < least := by
  rw [getElem?_toList h]
  cases rest with
  | nil =>
    refine iff_of_true (stops_nil _) fun t op ht hop => ?_
    cases ht
    rw [s.tokens.last_eof] at hop
    cases hop
  | cons t ts => exact Iff.rfl

/-- A slice with the yield of a tree ends before the last token, since no tree has the end of the
input in its yield. -/
theorem exists_rest_eq {e : Expr Unit} {j : Nat}
    (h : (s.tokens.toList.extract s.index j).map Token.terminal = e.yield) :
    ∃ us rest, s.rest = us ++ rest ∧ j = s.index + us.length ∧ us.map Token.terminal = e.yield := by
  rw [List.extract_eq_take_drop, drop_toList] at h
  have hpos : 0 < j - s.index := by
    rw [Nat.pos_iff_ne_zero]
    intro h0
    rw [h0] at h
    exact yield_ne_nil e h.symm
  have hle : j - s.index ≤ s.rest.length := by
    rw [← Nat.not_lt]
    intro hlt
    refine eof_notMem_yield e (h ▸ List.mem_map.2 ⟨s.tokens.last, ?_, ?_⟩)
    · rw [List.take_of_length_le (by simp only [List.length_append, List.length_singleton]; omega)]
      simp
    · exact Token.terminal_eq_eof.2 s.tokens.last_eof
  rw [List.take_append_of_le_length hle] at h
  refine ⟨_, _, (List.take_append_drop _ _).symm, ?_, h⟩
  rw [List.length_take]
  omega

end Slices

/-- The session's tree with its notes left out, in terms of the tokens that it has read and the one
that it reads next. -/
theorem parseExpr_bare_iff {s : Session} {least : Int} {e : Expr Unit} {j : Nat} :
    (∃ t, (s.parseExpr least).1 = .ok t ∧ t.bare = e ∧ (s.parseExpr least).2.index = j) ↔
      e.Canonical ∧ (s.tokens.toList.extract s.index j).map Token.terminal = e.yield ∧
      e.AtLeast least ∧
      (∀ t op, s.tokens.toList[j]? = some t → t.kind.binaryOp? = some op →
        (op.precedence.rank : Int) < least) ∧
      1 + e.depth ≤ maxNesting := by
  constructor
  · rintro ⟨t, ht, rfl, hj⟩
    obtain ⟨us, rest, hts, rfl, hs, hc, hl, hst, hd⟩ := parseExpr_eq_ok_iff.1 ⟨ht, hj⟩
    refine ⟨canonical_bare t |>.2 hc, ?_, fun op ho => hl op (by simpa using ho),
      (stops_rest_iff hts).1 hst, ?_⟩
    · rw [extract_toList hts, hs.terminals, yield_bare]
    · rw [depth_bare]
      omega
  · rintro ⟨hc, hy, hl, hst, hd⟩
    obtain ⟨us, rest, hts, hj, hus⟩ := exists_rest_eq hy
    obtain ⟨t, rfl, ht⟩ := exists_spelled e us hus
    have hg := parseExpr_eq_ok_iff.2 ⟨us, rest, hts, hj, ht, canonical_bare t |>.1 hc,
      fun op ho => hl op (by simpa using ho), (stops_rest_iff hts).2 (hj ▸ hst),
      (by rw [depth_bare] at hd; omega)⟩
    exact ⟨t, hg.1, rfl, hg.2⟩

end Session

/-! ## Whole sources -/

theorem SyntaxError.atEnd?_eq_none {t : Token} : SyntaxError.atEnd? t = none ↔ t.kind = .eof := by
  unfold atEnd?
  split <;> simp_all

theorem Session.parse_eq_ok_iff {s : Session} {e : Expr Span} : s.parse.1 = .ok e ↔
    (s.parseExpr 1).1 = .ok e ∧ (s.parseExpr 1).2.next.kind = .eof := by
  show s.parse.1 = _ ↔ (s.parseExpr Precedence.assignment.rank).1 = _ ∧
    (s.parseExpr Precedence.assignment.rank).2.next.kind = _
  rw [← SyntaxError.atEnd?_eq_none, parse]
  obtain ⟨tree, s'⟩ := s.parseExpr Precedence.assignment.rank
  cases tree with
  | error f => simp
  | ok x => cases hx : SyntaxError.atEnd? s'.next <;> simp [hx]

/-- A list of tokens is read as the tree that is spelled by the tokens before an end of the input. -/
theorem parseTokens_eq_ok_iff {ts : TokenList} {e : Expr Span} :
    parseTokens ts = .ok e ↔ ∃ us rest, ts.front = us ++ rest ∧ (rest.headD ts.last).kind = .eof ∧
      e.Spelled us ∧ e.Canonical ∧ e.depth < maxNesting := by
  have hnext : ∀ us rest, ts.front = us ++ rest →
      ((Session.ofTokens ts).parseExpr 1).2.index = 0 + us.length →
      ((Session.ofTokens ts).parseExpr 1).2.next = rest.headD ts.last := by
    intro us rest h hi
    unfold Session.next Session.rest
    rw [hi, Nat.zero_add]
    show (ts.front.drop us.length).headD ts.last = _
    rw [h, List.drop_left]
  unfold parseTokens
  rw [Session.parse_eq_ok_iff]
  constructor
  · rintro ⟨he, hk⟩
    obtain ⟨us, rest, hts, hj, hs, hc, -, -, hd⟩ := Session.parseExpr_eq_ok_iff.1 ⟨he, rfl⟩
    exact ⟨us, rest, hts, hnext us rest hts hj ▸ hk, hs, hc, hd⟩
  · rintro ⟨us, rest, hts, hk, hs, hc, hd⟩
    have hst : Stops 1 rest := by
      intro t op ht hop
      obtain ⟨ts', rfl⟩ := List.head?_eq_some_iff.1 ht
      rw [List.headD_cons] at hk
      rw [hk] at hop
      cases hop
    obtain ⟨he, hj⟩ := (Session.parseExpr_eq_ok_iff (s := .ofTokens ts)).2 ⟨us, rest, hts, rfl, hs,
      hc, e.atLeast_one, hst, hd⟩
    exact ⟨he, hnext us rest hts hj ▸ hk⟩

/-- Where only the last token ends the input, the tree is spelled by all the others. -/
theorem parseTokens_eq_ok_iff_of_front {ts : TokenList} {e : Expr Span}
    (h : ∀ t ∈ ts.front, t.kind ≠ .eof) :
    parseTokens ts = .ok e ↔ e.Spelled ts.front ∧ e.Canonical ∧ e.depth < maxNesting := by
  rw [parseTokens_eq_ok_iff]
  constructor
  · rintro ⟨us, rest, hts, hk, hs, hc, hd⟩
    cases rest with
    | nil => exact ⟨by rwa [hts, List.append_nil], hc, hd⟩
    | cons t rest => exact absurd hk (h t (by rw [hts]; simp))
  · rintro ⟨hs, hc, hd⟩
    exact ⟨ts.front, [], by simp, ts.last_eof, hs, hc, hd⟩

/-! ## The canonical tree of a yield -/

theorem exists_terminal_eq (x : Terminal) : ∃ t : Token, t.terminal = x := by
  have p : Span := .point (.startOf ⟨0⟩)
  cases x with
  | name n => exact ⟨⟨.name, n, p⟩, rfl⟩
  | literal v => exact ⟨⟨.literal v, "", p⟩, rfl⟩
  | mark m => exact ⟨⟨.mark m, "", p⟩, rfl⟩
  | eof => exact ⟨⟨.eof, "", p⟩, rfl⟩

theorem exists_terminals_eq (xs : List Terminal) : ∃ us : List Token, us.map Token.terminal = xs := by
  induction xs with
  | nil => exact ⟨[], rfl⟩
  | cons x xs ih =>
    obtain ⟨t, rfl⟩ := exists_terminal_eq x
    obtain ⟨us, rfl⟩ := ih
    exact ⟨t :: us, rfl⟩

/-- A canonical tree is determined by its yield: with room for both, climbing reads both trees from
the same tokens. -/
theorem Expr.Canonical.eq_of_yield_eq {e e' : Expr Unit} (hc : e.Canonical) (hc' : e'.Canonical)
    (h : e.yield = e'.yield) : e = e' := by
  obtain ⟨us, hus⟩ := exists_terminals_eq e.yield
  obtain ⟨t, rfl, ht⟩ := exists_spelled e us hus
  obtain ⟨t', rfl, ht'⟩ := exists_spelled e' us (hus.trans h)
  have p : Token := .eof (.startOf ⟨0⟩)
  have hg : (parseExpr p (t.depth + t'.depth + 1) 1 us).Gives t [] :=
    parseExpr_gives_iff.2 ⟨us, by simp, ht, canonical_bare t |>.1 hc, t.atLeast_one, stops_nil 1, by omega⟩
  have hg' : (parseExpr p (t.depth + t'.depth + 1) 1 us).Gives t' [] :=
    parseExpr_gives_iff.2 ⟨us, by simp, ht', canonical_bare t' |>.1 hc', t'.atLeast_one,
      stops_nil 1, by omega⟩
  rw [Except.ok.inj (hg.1.symm.trans hg'.1)]

/-- Reading an expression at any index gives the tree whose yield stands from there up to the index
left, if that tree is canonical, binds as strong as asked, cannot be gone on with and is at most 200
levels deep; reading all tokens gives the one canonical tree with their yield. -/
theorem parse_iff_canonical :
    (∀ (s : Session) (least : Int) (e : Expr Unit) (j : Nat),
      (∃ t, (s.parseExpr least).1 = .ok t ∧ t.bare = e ∧ (s.parseExpr least).2.index = j) ↔
        e.Canonical ∧ (s.tokens.toList.extract s.index j).map Token.terminal = e.yield ∧
        (∀ op, e.operator? = some op → least ≤ op.precedence.rank) ∧
        (∀ t op, s.tokens.toList[j]? = some t → t.kind.binaryOp? = some op →
          (op.precedence.rank : Int) < least) ∧
        1 + e.depth ≤ 200) ∧
    (∀ ts : TokenList, (∀ t ∈ ts.front, t.kind ≠ .eof) → ∀ e : Expr Unit,
      (∃ t, parseTokens ts = .ok t ∧ t.bare = e) ↔
        (e.Canonical ∧ e.yield = ts.front.map Token.terminal ∧
          ∀ e' : Expr Unit, e'.Canonical → e'.yield = ts.front.map Token.terminal → e' = e) ∧
        1 + e.depth ≤ 200) := by
  refine ⟨fun s least e j => Session.parseExpr_bare_iff, fun ts hts e => ?_⟩
  constructor
  · rintro ⟨t, ht, rfl⟩
    obtain ⟨hs, hc, hd⟩ := (parseTokens_eq_ok_iff_of_front hts).1 ht
    have hcan : t.bare.Canonical := canonical_bare t |>.2 hc
    have hy : t.bare.yield = ts.front.map Token.terminal := by rw [yield_bare, hs.terminals]
    refine ⟨⟨hcan, hy, fun e' hc' hy' => hc'.eq_of_yield_eq hcan (hy'.trans hy.symm)⟩, ?_⟩
    rw [depth_bare, Nat.add_comm]
    exact hd
  · rintro ⟨⟨hc, hy, -⟩, hd⟩
    obtain ⟨t, rfl, hs⟩ := exists_spelled e ts.front hy.symm
    rw [depth_bare, Nat.add_comm] at hd
    exact ⟨t, (parseTokens_eq_ok_iff_of_front hts).2 ⟨hs, canonical_bare t |>.1 hc, hd⟩, rfl⟩

/-- Of the two trees that spell `a - b - c`, the one that leans to the left is canonical. -/
theorem parse_difference_leans_left :
    let p : Span := .point (.startOf ⟨0⟩)
    let ts : TokenList := ⟨[⟨.name, "a", p⟩, ⟨.mark .minus, "-", p⟩, ⟨.name, "b", p⟩,
      ⟨.mark .minus, "-", p⟩, ⟨.name, "c", p⟩], .eof (.startOf ⟨0⟩), rfl⟩
    let e : Expr Unit := .binary () .sub
      (.binary () .sub (.identifier () "a") (.identifier () "b")) (.identifier () "c")
    (∀ t ∈ ts.front, t.kind ≠ .eof) ∧ ∃ t, parseTokens ts = .ok t ∧ t.bare = e := by
  intro p ts e
  have hts : ∀ t ∈ ts.front, t.kind ≠ .eof := by decide
  have hc : e.Canonical := by decide
  exact ⟨hts, (parse_iff_canonical.2 ts hts e).2
    ⟨⟨hc, rfl, fun e' hc' hy => hc'.eq_of_yield_eq hc hy⟩, by decide⟩⟩

end ScriptSyntax
