/-
The open calls of a parser. A parse is laid out step by step: what is done next (`Control`), and the
calls that wait for it, the innermost first (`Frame`). The parser counts the levels that are open. An
expression and a prefix operator raise the counter when they begin and lower it when they end, also
when they end in a fault, which closes one call after the other.

The count is right at every step (`Parsing.Invariant`), and a call ends with what the session reads
(`Parsing.parseExpr_comes`), so that a call leaves the counter as it found it.
-/
import ScriptSyntax.Proofs.Expr.Earliest
import ScriptSyntax.Proofs.Expr.Source
import Mathlib.Logic.Relation

namespace ScriptSyntax

/-! ## A parser -/

/-- A list of tokens, the index of the next one and the number of open levels. -/
structure Parser where
  tokens : TokenList
  index : Nat
  depth : Int

namespace Parser

def ofTokens (ts : TokenList) : Parser := ⟨ts, 0, 0⟩

def next? (p : Parser) : Option Token := p.tokens.toList[p.index]?

/-- Goes past the token `t`, but not past the end of the input. -/
def advance (p : Parser) (t : Token) : Parser :=
  if t.kind = .eof then p else { p with index := p.index + 1 }

def descend (p : Parser) : Parser := { p with depth := p.depth + 1 }

def ascend (p : Parser) : Parser := { p with depth := p.depth - 1 }

end Parser

/-! ## Open calls -/

/-- A call that waits for the one above it. -/
inductive Frame where
  /-- An expression whose operators have at least the rank `least`. -/
  | expr (least : Int)
  /-- An operator of the expression below, which waits for its right operand. -/
  | right (lhs : Expr Span) (op : BinaryOp)
  | prefixed (t : Token) (op : UnaryOp)
  /-- A parenthesis opened by `t`. -/
  | opened (t : Token)
  /-- A whole input, which ends behind its expression. -/
  | whole

/-- Does the call open a level? -/
def Frame.isLevel : Frame → Bool
  | .expr _ | .prefixed .. => true
  | _ => false

inductive Control where
  | expr (least : Int)
  | unary
  /-- The expression on top of the frames goes on behind `lhs`. -/
  | operators (lhs : Expr Span)
  /-- What the call has come to is handed to the one that waits for it. -/
  | answer (r : Except SyntaxError (Expr Span))

/-- Is a fault being handed on? -/
def Control.raises : Control → Bool
  | .answer (.error _) => true
  | _ => false

/-- A parse in progress. -/
structure Parsing where
  parser : Parser
  control : Control
  frames : List Frame

namespace Parsing

/-- How many calls that open a level are open. -/
def levels (m : Parsing) : Nat := m.frames.countP Frame.isLevel

section Moves

variable (p : Parser) (frames : List Frame)

def beginExpr (least : Int) (t : Token) : Parsing :=
  if p.descend.depth > maxNesting then
    ⟨p.descend, .answer (.error ⟨.tooDeep, t.span⟩), .expr least :: frames⟩
  else ⟨p.descend, .unary, .expr least :: frames⟩

def beginPrimary (t : Token) : Parsing :=
  match t.meaning with
  | .literal v => ⟨p.advance t, .answer (.ok (.literal t.span v)), frames⟩
  | .name => ⟨p.advance t, .answer (.ok (.identifier t.span t.lexeme)), frames⟩
  | .mark .openParen => ⟨p.advance t, .expr 1, .opened t :: frames⟩
  | _ => ⟨p, .answer (.error (.atStart t)), frames⟩

def beginUnary (t : Token) : Parsing :=
  match t.kind.unaryOp? with
  | none => beginPrimary p frames t
  | some op =>
    if p.descend.depth > maxNesting then
      ⟨p.descend, .answer (.error ⟨.tooDeep, t.span⟩), .prefixed t op :: frames⟩
    else ⟨p.descend.advance t, .unary, .prefixed t op :: frames⟩

/-- The expression ends behind `lhs`, or goes on with an operator. -/
def continueExpr (least : Int) (lhs : Expr Span) (t : Token) : Parsing :=
  match t.kind.binaryOp? with
  | none => ⟨p.ascend, .answer (.ok lhs), frames⟩
  | some op =>
    if (op.precedence.rank : Int) < least then ⟨p.ascend, .answer (.ok lhs), frames⟩
    else ⟨p.advance t, .expr op.rightRank, .right lhs op :: .expr least :: frames⟩

/-- A call takes the tree that it has waited for. -/
def resume (e : Expr Span) : Frame → Option Parsing
  | .expr least => some ⟨p, .operators e, .expr least :: frames⟩
  | .right lhs op => some ⟨p, .operators (.binary (.cover lhs.note e.note) op lhs e), frames⟩
  | .prefixed t op => some ⟨p.ascend, .answer (.ok (.unary (.cover t.span e.note) op e)), frames⟩
  | .opened t => p.next?.map fun close =>
      if close.kind = .mark .closeParen then
        ⟨p.advance close, .answer (.ok (.grouping (.cover t.span close.span) e)), frames⟩
      else ⟨p, .answer (.error (.atClose t.span.start close)), frames⟩
  | .whole => p.next?.map fun t =>
      ⟨p, .answer ((SyntaxError.atEnd? t).elim (.ok e) .error), frames⟩

/-- A fault ends the call that has waited. -/
def unwind (f : SyntaxError) (frame : Frame) : Parsing :=
  ⟨if frame.isLevel then p.ascend else p, .answer (.error f), frames⟩

end Moves

def step (m : Parsing) : Option Parsing :=
  match m.control, m.frames with
  | .expr least, frames => m.parser.next?.map (beginExpr m.parser frames least)
  | .unary, frames => m.parser.next?.map (beginUnary m.parser frames)
  | .operators lhs, .expr least :: frames =>
    m.parser.next?.map (continueExpr m.parser frames least lhs)
  | .answer (.ok e), frame :: frames => resume m.parser frames e frame
  | .answer (.error f), frame :: frames => some (unwind m.parser frames f frame)
  | _, _ => none

def Step (m m' : Parsing) : Prop := m.step = some m'

abbrev Steps : Parsing → Parsing → Prop := Relation.ReflTransGen Step

section Step

variable {p : Parser} {frames : List Frame} {t : Token}

theorem step_expr (h : p.next? = some t) (least : Int) :
    Step ⟨p, .expr least, frames⟩ (beginExpr p frames least t) := congrArg (Option.map _) h

theorem step_unary (h : p.next? = some t) :
    Step ⟨p, .unary, frames⟩ (beginUnary p frames t) := congrArg (Option.map _) h

theorem step_operators (h : p.next? = some t) (least : Int) (lhs : Expr Span) :
    Step ⟨p, .operators lhs, .expr least :: frames⟩ (continueExpr p frames least lhs t) :=
  congrArg (Option.map _) h

theorem step_resume {e : Expr Span} {frame : Frame} {m : Parsing}
    (h : resume p frames e frame = some m) : Step ⟨p, .answer (.ok e), frame :: frames⟩ m := h

theorem resume_opened (h : p.next? = some t) (opening : Token) (e : Expr Span) :
    resume p frames e (.opened opening) = some (if t.kind = .mark .closeParen then
      ⟨p.advance t, .answer (.ok (.grouping (.cover opening.span t.span) e)), frames⟩
    else ⟨p, .answer (.error (.atClose opening.span.start t)), frames⟩) := congrArg (Option.map _) h

theorem step_unwind (f : SyntaxError) (frame : Frame) :
    Step ⟨p, .answer (.error f), frame :: frames⟩ (unwind p frames f frame) := rfl

end Step

theorem Step.deterministic {m a b : Parsing} (ha : Step m a) (hb : Step m b) : a = b :=
  Option.some.inj (ha.symm.trans hb)

end Parsing

/-! ## What a step changes -/

namespace Parser

/-- Reading on by one token at most, which is not the end of the input. -/
structure Reads (p q : Parser) : Prop where
  tokens : q.tokens = p.tokens
  index : q.index = p.index ∨ ∃ t, p.next? = some t ∧ t.kind ≠ .eof ∧ q.index = p.index + 1

theorem reads_refl (p : Parser) : p.Reads p := ⟨rfl, .inl rfl⟩

theorem reads_descend (p : Parser) : p.Reads p.descend := ⟨rfl, .inl rfl⟩

theorem reads_ascend (p : Parser) : p.Reads p.ascend := ⟨rfl, .inl rfl⟩

variable {p : Parser} {t : Token}

theorem depth_advance (p : Parser) (t : Token) : (p.advance t).depth = p.depth := by
  unfold advance
  split <;> rfl

theorem reads_advance (h : p.next? = some t) : p.Reads (p.advance t) := by
  unfold advance
  split
  · exact reads_refl p
  · rename_i ht
    exact ⟨rfl, .inr ⟨t, h, ht, rfl⟩⟩

theorem reads_descend_advance (h : p.next? = some t) : p.Reads (p.descend.advance t) :=
  ⟨(reads_advance (p := p.descend) h).tokens, (reads_advance (p := p.descend) h).index⟩

end Parser

namespace Parsing

/-- What any step does. -/
structure Moves (m m' : Parsing) : Prop where
  reads : m.parser.Reads m'.parser
  /-- The counter goes with the open levels. -/
  depth : m'.parser.depth - m'.levels = m.parser.depth - m.levels
  /-- No fault is forgotten. -/
  raises : m.control.raises ≤ m'.control.raises
  /-- A level is opened before a fault only, and a level too many is a fault. -/
  room : m'.parser.depth ≤ m.parser.depth ∨ m.control.raises = false ∧
    m'.parser.depth = m.parser.depth + 1 ∧
    (m'.control.raises = true ∨ m'.parser.depth ≤ maxNesting)

section Moves

variable {p q : Parser} {c c' : Control} {frames frames' : List Frame} {frame : Frame} {t : Token}

theorem levels_cons (p : Parser) (c : Control) (frame : Frame) (frames : List Frame) :
    levels ⟨p, c, frame :: frames⟩ = frames.countP Frame.isLevel + if frame.isLevel then 1 else 0 :=
  List.countP_cons ..

/-- A call that opens a level begins. -/
theorem moves_descend (hc : c.raises = false) (hreads : p.Reads q)
    (hdepth : q.depth = p.depth + 1) (hframe : frame.isLevel)
    (hroom : c'.raises = true ∨ q.depth ≤ maxNesting) :
    Moves ⟨p, c, frames⟩ ⟨q, c', frame :: frames⟩ where
  reads := hreads
  depth := by
    rw [levels_cons, if_pos hframe, hdepth, levels]
    push_cast
    omega
  raises := hc ▸ Bool.false_le _
  room := .inr ⟨hc, hdepth, hroom⟩

/-- A call that opened a level ends. -/
theorem moves_ascend (hc : c.raises ≤ c'.raises)
    (hframe : frame.isLevel) : Moves ⟨p, c, frame :: frames⟩ ⟨p.ascend, c', frames⟩ where
  reads := p.reads_ascend
  depth := by
    rw [levels_cons, if_pos hframe, levels, Parser.ascend]
    push_cast
    omega
  raises := hc
  room := .inl (Int.sub_le_self _ (by decide))

/-- The levels stay as they are. -/
theorem moves_level (hc : c.raises ≤ c'.raises)
    (hreads : p.Reads q) (hdepth : q.depth = p.depth)
    (hlevels : frames'.countP Frame.isLevel = frames.countP Frame.isLevel) :
    Moves ⟨p, c, frames⟩ ⟨q, c', frames'⟩ where
  reads := hreads
  depth := by rw [hdepth, levels, levels, hlevels]
  raises := hc
  room := .inl (Int.le_of_eq hdepth)

theorem moves_advance (hc : c.raises = false) (h : p.next? = some t)
    (hlevels : frames'.countP Frame.isLevel = frames.countP Frame.isLevel) :
    Moves ⟨p, c, frames⟩ ⟨p.advance t, c', frames'⟩ :=
  moves_level (hc ▸ Bool.false_le _) (Parser.reads_advance h) (p.depth_advance t) hlevels

theorem moves_beginExpr (least : Int) :
    Moves ⟨p, .expr least, frames⟩ (beginExpr p frames least t) := by
  unfold beginExpr
  split
  · exact moves_descend rfl p.reads_descend rfl rfl (.inl rfl)
  · rename_i hroom
    exact moves_descend rfl p.reads_descend rfl rfl (.inr (Int.not_lt.1 hroom))

theorem moves_beginPrimary (h : p.next? = some t) :
    Moves ⟨p, .unary, frames⟩ (beginPrimary p frames t) := by
  unfold beginPrimary
  split
  · exact moves_advance rfl h rfl
  · exact moves_advance rfl h rfl
  · exact moves_advance rfl h rfl
  · exact moves_level (Bool.false_le _) p.reads_refl rfl rfl

theorem moves_beginUnary (h : p.next? = some t) :
    Moves ⟨p, .unary, frames⟩ (beginUnary p frames t) := by
  unfold beginUnary
  split
  · exact moves_beginPrimary h
  · split
    · exact moves_descend rfl p.reads_descend rfl rfl (.inl rfl)
    · rename_i hroom
      have hdepth := p.descend.depth_advance t
      exact moves_descend rfl (Parser.reads_descend_advance h) hdepth rfl
        (.inr (hdepth ▸ Int.not_lt.1 hroom))

theorem moves_continueExpr (least : Int) (lhs : Expr Span) (h : p.next? = some t) :
    Moves ⟨p, .operators lhs, .expr least :: frames⟩ (continueExpr p frames least lhs t) := by
  unfold continueExpr
  split
  · exact moves_ascend (Bool.false_le _) rfl
  · split
    · exact moves_ascend (Bool.false_le _) rfl
    · exact moves_advance rfl h rfl

theorem moves_resume {e : Expr Span} {m : Parsing} (h : resume p frames e frame = some m) :
    Moves ⟨p, .answer (.ok e), frame :: frames⟩ m := by
  cases frame with
  | expr | right =>
    cases h
    exact moves_level (Bool.false_le _) p.reads_refl rfl rfl
  | prefixed =>
    cases h
    exact moves_ascend (Bool.false_le _) rfl
  | opened t =>
    obtain ⟨close, hclose, rfl⟩ := Option.map_eq_some_iff.1 h
    split
    · exact moves_advance rfl hclose rfl
    · exact moves_level (Bool.false_le _) p.reads_refl rfl rfl
  | whole =>
    obtain ⟨t, -, rfl⟩ := Option.map_eq_some_iff.1 h
    exact moves_level (Bool.false_le _) p.reads_refl rfl rfl

theorem moves_unwind (f : SyntaxError) :
    Moves ⟨p, .answer (.error f), frame :: frames⟩ (unwind p frames f frame) := by
  unfold unwind
  split
  · rename_i hframe
    exact moves_ascend (Bool.le_true _) hframe
  · rename_i hframe
    refine moves_level (Bool.le_true _) p.reads_refl rfl ?_
    rw [List.countP_cons_of_neg hframe]

theorem Step.moves {m m' : Parsing} (h : Step m m') : m.Moves m' := by
  obtain ⟨p, c, frames⟩ := m
  unfold Step step at h
  split at h
  · rename_i least hc
    cases hc
    obtain ⟨t, -, rfl⟩ := Option.map_eq_some_iff.1 h
    exact moves_beginExpr least
  · rename_i hc
    cases hc
    obtain ⟨t, ht, rfl⟩ := Option.map_eq_some_iff.1 h
    exact moves_beginUnary ht
  · rename_i lhs least frames' hc hframes
    cases hc
    cases hframes
    obtain ⟨t, ht, rfl⟩ := Option.map_eq_some_iff.1 h
    exact moves_continueExpr least lhs ht
  · rename_i e frame frames' hc hframes
    cases hc
    cases hframes
    exact moves_resume h
  · rename_i f frame frames' hc hframes
    cases hc
    cases hframes
    cases h
    exact moves_unwind f
  · cases h

end Moves

end Parsing

/-! ## What holds at every step -/

namespace Parser

/-- The next token is one of the list, and none before it is an end of the input. -/
structure InRange (p : Parser) : Prop where
  index_lt : p.index < p.tokens.toList.length
  read : ∀ t ∈ p.tokens.toList.take p.index, t.kind ≠ .eof

variable {p q : Parser}

theorem inRange_ofTokens (ts : TokenList) : (ofTokens ts).InRange := by
  refine ⟨?_, fun _ ht => absurd ht List.not_mem_nil⟩
  rw [TokenList.toList, List.length_append]
  exact Nat.succ_pos _

theorem Reads.index_le (h : p.Reads q) : p.index ≤ q.index := by
  rcases h.index with hi | ⟨-, -, -, hi⟩ <;> omega

theorem Reads.inRange (h : p.Reads q) (hp : p.InRange) : q.InRange := by
  rcases h.index with hi | ⟨t, ht, hkind, hi⟩
  · exact ⟨by rw [h.tokens, hi]; exact hp.index_lt, by rw [h.tokens, hi]; exact hp.read⟩
  · refine ⟨?_, ?_⟩ <;> rw [h.tokens, hi]
    · -- the token at the last index is an end of the input
      have hlt := hp.index_lt
      refine Nat.lt_of_le_of_ne hlt fun hlast => ?_
      rw [TokenList.toList, List.length_append, List.length_singleton] at hlast
      rw [next?, TokenList.toList, Nat.succ.inj hlast, List.getElem?_concat_length] at ht
      cases ht
      exact hkind p.tokens.last_eof
    · intro u hu
      rw [List.take_add_one, List.mem_append] at hu
      rcases hu with hu | hu
      · exact hp.read u hu
      · rw [← next?, ht] at hu
        cases List.mem_singleton.1 hu
        exact hkind

end Parser

namespace Parsing

/-- The counter counts the open levels, of which there is one too many only while the fault of it is
handed on. -/
structure Invariant (m : Parsing) : Prop where
  range : m.parser.InRange
  depth : m.parser.depth = m.levels
  depth_le : m.parser.depth ≤ maxNesting + 1
  room : m.control.raises = false → m.parser.depth ≤ maxNesting

variable {m m' : Parsing}

theorem Moves.invariant (h : m.Moves m') (hm : m.Invariant) : m'.Invariant where
  range := h.reads.inRange hm.range
  depth := by
    have := h.depth
    have := hm.depth
    omega
  depth_le := by
    have := hm.depth_le
    rcases h.room with hle | ⟨hc, hdepth, -⟩
    · omega
    · have := hm.room hc
      omega
  room := fun hc' => by
    rcases h.room with hle | ⟨hc, -, hroom⟩
    · have hc : m.control.raises = false := Bool.eq_false_of_le_false (hc' ▸ h.raises)
      exact Int.le_trans hle (hm.room hc)
    · exact hroom.resolve_left (by rw [hc']; exact Bool.false_ne_true)

theorem Steps.invariant (h : Steps m m') (hm : m.Invariant) : m'.Invariant := by
  induction h with
  | refl => exact hm
  | tail _ hstep ih => exact hstep.moves.invariant ih

theorem Steps.tokens_eq (h : Steps m m') : m'.parser.tokens = m.parser.tokens := by
  induction h with
  | refl => rfl
  | tail _ hstep ih => rw [hstep.moves.reads.tokens, ih]

theorem Steps.index_le (h : Steps m m') : m.parser.index ≤ m'.parser.index := by
  induction h with
  | refl => exact Nat.le_refl _
  | tail _ hstep ih => exact Nat.le_trans ih hstep.moves.reads.index_le

end Parsing

/-! ## What a call comes to -/

namespace Parser

/-- The parser stands in front of `rest`, with so many levels open. -/
structure At (ts : TokenList) (depth : Int) (rest : List Token) (p : Parser) : Prop where
  tokens : p.tokens = ts
  depth : p.depth = depth
  index_le : p.index ≤ ts.front.length
  rest : ts.front.drop p.index = rest

section At

variable {p : Parser} {ts : TokenList} {depth : Int} {t : Token} {rest : List Token}

theorem At.next? (h : p.At ts depth rest) : p.next? = some (rest.headD ts.last) := by
  have hdrop : ts.toList.drop p.index = rest ++ [ts.last] := by
    rw [TokenList.toList, List.drop_append_of_le_length h.index_le, h.rest]
  rw [Parser.next?, h.tokens, ← List.head?_drop, hdrop]
  cases rest <;> rfl

theorem At.advance (h : p.At ts depth (t :: rest)) (ht : t.kind ≠ .eof) :
    (p.advance t).At ts depth rest := by
  have hlen := congrArg List.length h.rest
  rw [List.length_drop, List.length_cons] at hlen
  rw [Parser.advance, if_neg ht]
  refine ⟨h.tokens, h.depth, ?_, ?_⟩
  · show p.index + 1 ≤ _
    omega
  · show ts.front.drop (p.index + 1) = rest
    rw [← List.drop_drop, h.rest, List.drop_one, List.tail_cons]

theorem At.descend (h : p.At ts depth rest) : p.descend.At ts (depth + 1) rest :=
  ⟨h.tokens, congrArg (· + 1) h.depth, h.index_le, h.rest⟩

theorem At.ascend (h : p.At ts depth rest) : p.ascend.At ts (depth - 1) rest :=
  ⟨h.tokens, congrArg (· - 1) h.depth, h.index_le, h.rest⟩

end At

end Parser

theorem Token.kind_ne_eof_of_unaryOp? {t : Token} {op : UnaryOp} (h : t.kind.unaryOp? = some op) :
    t.kind ≠ .eof := fun ht => by rw [ht] at h; cases h

theorem Token.kind_ne_eof_of_binaryOp? {t : Token} {op : BinaryOp} (h : t.kind.binaryOp? = some op) :
    t.kind ≠ .eof := fun ht => by rw [ht] at h; cases h

namespace Parsing

/-- The parse comes to an outcome, for the calls that wait for it. -/
def Comes (ts : TokenList) (depth : Int) (frames : List Frame) (m : Parsing) {us : List Token}
    (o : Outcome us) : Prop :=
  ∃ q : Parser, q.At ts depth o.rest ∧ Steps m ⟨q, .answer o.tree, frames⟩

section Comes

variable {ts : TokenList} {depth : Int} {frames : List Frame} {m m' : Parsing} {us : List Token}
  {o : Outcome us}

theorem Comes.head (hstep : Step m m') (h : Comes ts depth frames m' o) :
    Comes ts depth frames m o := by
  obtain ⟨q, hq, hsteps⟩ := h
  exact ⟨q, hq, .head hstep hsteps⟩

theorem Comes.refl {p : Parser} (hp : p.At ts depth o.rest) :
    Comes ts depth frames ⟨p, .answer o.tree, frames⟩ o := ⟨p, hp, .refl⟩

/-- A fault goes through the call that waits for a tree, and closes the level that it opened. -/
theorem Comes.unwind_level {us' : List Token} {o' : Outcome us'} {frame : Frame} {f : SyntaxError}
    (h : Comes ts (depth + 1) (frame :: frames) m o) (hframe : frame.isLevel = true)
    (hf : o.tree = .error f) (ho : o'.tree = .error f) (hrest : o'.rest = o.rest) :
    Comes ts depth frames m o' := by
  obtain ⟨q, hq, hsteps⟩ := h
  rw [hf] at hsteps
  have hlast := hsteps.tail (step_unwind f frame)
  rw [Parsing.unwind, if_pos hframe, ← ho] at hlast
  exact ⟨q.ascend, hrest ▸ Int.add_sub_cancel depth 1 ▸ hq.ascend, hlast⟩

theorem Comes.unwind {us' : List Token} {o' : Outcome us'} {frame : Frame} {f : SyntaxError}
    (h : Comes ts depth (frame :: frames) m o) (hframe : frame.isLevel = false)
    (hf : o.tree = .error f) (ho : o'.tree = .error f) (hrest : o'.rest = o.rest) :
    Comes ts depth frames m o' := by
  obtain ⟨q, hq, hsteps⟩ := h
  rw [hf] at hsteps
  have hlast := hsteps.tail (step_unwind f frame)
  rw [Parsing.unwind, if_neg (Bool.eq_false_iff.1 hframe), ← ho] at hlast
  exact ⟨q, hrest ▸ hq, hlast⟩

/-- One level too many. -/
theorem Comes.tooDeep {p : Parser} {frame : Frame} (hp : p.At ts depth us) (hframe : frame.isLevel)
    (f : SyntaxError) :
    Comes ts depth frames ⟨p.descend, .answer (.error f), frame :: frames⟩ (.fail f : Outcome us) := by
  have h : Comes ts (depth + 1) (frame :: frames) ⟨p.descend, .answer (.error f), frame :: frames⟩
      (.fail f : Outcome us) := ⟨_, hp.descend, .refl⟩
  exact h.unwind_level hframe rfl rfl rfl

/-- What a call on top comes to is taken by the one below. -/
theorem Comes.resume {us' : List Token} {o' : Outcome us'} {frame : Frame} {e : Expr Span}
    {depth' : Int} {frames' : List Frame} (h : Comes ts depth (frame :: frames) m o)
    (he : o.tree = .ok e)
    (hnext : ∀ q : Parser, q.At ts depth o.rest → ∃ m', Parsing.resume q frames e frame = some m' ∧
      Comes ts depth' frames' m' o') : Comes ts depth' frames' m o' := by
  obtain ⟨q, hq, hsteps⟩ := h
  rw [he] at hsteps
  obtain ⟨m', hm', q', hq', hsteps'⟩ := hnext q hq
  exact ⟨q', hq', hsteps.trans (.head (step_resume hm') hsteps')⟩

end Comes

theorem beginPrimary_of_eof (p : Parser) (frames : List Frame) {t : Token} (ht : t.kind = .eof) :
    beginPrimary p frames t = ⟨p, .answer (.error (.atStart t)), frames⟩ := by
  unfold beginPrimary
  rw [Meaning.kind_eq_eof.1 ht]

mutual

theorem parseExpr_comes {ts : TokenList} {depth : Int} (room : Nat) (least : Int) (us : List Token)
    {p : Parser} (hp : p.At ts depth us) (hroom : depth + room = maxNesting) (frames : List Frame) :
    Comes ts depth frames ⟨p, .expr least, frames⟩ (parseExpr ts.last room least us) := by
  have hback : depth + 1 - 1 = depth := Int.add_sub_cancel depth 1
  refine .head (step_expr hp.next? least) ?_
  unfold beginExpr
  rw [hp.descend.depth]
  cases room with
  | zero =>
    rw [if_pos (by omega), parseExpr]
    exact .tooDeep hp rfl _
  | succ room =>
    rw [if_neg (by omega), parseExpr]
    have hu := parseUnary_comes room us hp.descend (by omega) (.expr least :: frames)
    split <;> rename_i hx
    · exact hu.unwind_level rfl hx hx rfl
    · have hle := (parseUnary ts.last room us).le
      refine hu.resume hx fun q hq => ⟨_, rfl, ?_⟩
      exact hback ▸ parseOperators_comes room least _ _ hq (by omega) frames
termination_by (us.length, 3)
decreasing_by
  · exact Prod.Lex.right _ (by decide)
  · exact hle.lt_or_eq.elim (Prod.Lex.left _ _) (· ▸ Prod.Lex.right _ (by decide))

theorem parseOperators_comes {ts : TokenList} {depth : Int} (room : Nat) (least : Int)
    (lhs : Expr Span) (us : List Token) {p : Parser} (hp : p.At ts depth us)
    (hroom : depth + room = maxNesting) (frames : List Frame) :
    Comes ts (depth - 1) frames ⟨p, .operators lhs, .expr least :: frames⟩
      (parseOperators ts.last room least lhs us) := by
  refine .head (step_operators hp.next? least lhs) ?_
  unfold continueExpr
  match us, hp with
  | [], hp =>
    have hop : ts.last.kind.binaryOp? = none := by rw [ts.last_eof]; rfl
    rw [List.headD_nil, hop, parseOperators]
    exact .refl (o := .done lhs) hp.ascend
  | t :: us, hp =>
    rw [List.headD_cons, parseOperators]
    cases hop : t.kind.binaryOp? with
    | none => exact .refl (o := .done lhs) hp.ascend
    | some op =>
      by_cases hlt : (op.precedence.rank : Int) < least
      · simp only [if_pos hlt]
        exact .refl (o := .done lhs) hp.ascend
      · simp only [if_neg hlt]
        have hr := parseExpr_comes room op.rightRank us
          (hp.advance (Token.kind_ne_eof_of_binaryOp? hop)) hroom
          (.right lhs op :: .expr least :: frames)
        split <;> rename_i hx
        -- the fault ends the operator, which opened no level, and then the expression
        · have ho := @Comes.unwind _ _ _ _ _ _ _ (parseExpr ts.last room op.rightRank us) _ _
            hr rfl hx hx rfl
          exact Comes.unwind_level (by rwa [Int.sub_add_cancel]) rfl hx hx rfl
        · have hle := (parseExpr ts.last room op.rightRank us).le
          refine hr.resume hx fun q hq => ⟨_, rfl, ?_⟩
          exact parseOperators_comes room least _ _ hq hroom frames
termination_by (us.length, 0)
decreasing_by
  · exact Prod.Lex.left _ _ (by simp)
  · exact Prod.Lex.left _ _ (Nat.lt_succ_of_le hle)

theorem parseUnary_comes {ts : TokenList} {depth : Int} (room : Nat) (us : List Token)
    {p : Parser} (hp : p.At ts depth us) (hroom : depth + room = maxNesting) (frames : List Frame) :
    Comes ts depth frames ⟨p, .unary, frames⟩ (parseUnary ts.last room us) := by
  have hback : depth + 1 - 1 = depth := Int.add_sub_cancel depth 1
  refine .head (step_unary hp.next?) ?_
  unfold beginUnary
  match us, hp with
  | [], hp =>
    have hop : ts.last.kind.unaryOp? = none := by rw [ts.last_eof]; rfl
    rw [List.headD_nil, hop, parseUnary, beginPrimary_of_eof p frames ts.last_eof]
    exact .refl (o := .fail _) hp
  | t :: us, hp =>
    rw [List.headD_cons, parseUnary]
    cases hop : t.kind.unaryOp? with
    | none => exact parsePrimary_comes room t us hp hroom frames
    | some op =>
      simp only [hp.descend.depth]
      cases room with
      | zero =>
        rw [if_pos (by omega)]
        exact .tooDeep hp rfl _
      | succ room =>
        rw [if_neg (by omega)]
        have hu := parseUnary_comes room us
          (hp.descend.advance (Token.kind_ne_eof_of_unaryOp? hop)) (by omega)
          (.prefixed t op :: frames)
        simp only
        split <;> rename_i hx
        · exact hu.unwind_level rfl hx hx rfl
        · exact hback ▸ hu.resume hx fun q hq => ⟨_, rfl, .refl hq.ascend⟩
termination_by (us.length, 2)
decreasing_by
  · exact Prod.Lex.right _ (by decide)
  · exact Prod.Lex.left _ _ (by simp)

theorem parsePrimary_comes {ts : TokenList} {depth : Int} (room : Nat) (t : Token)
    (us : List Token) {p : Parser} (hp : p.At ts depth (t :: us))
    (hroom : depth + room = maxNesting) (frames : List Frame) :
    Comes ts depth frames (beginPrimary p frames t) (parsePrimary ts.last room t us) := by
  have hadvance : ∀ {m : Meaning}, t.meaning = m → m ≠ .eof → (p.advance t).At ts depth us :=
    fun hm hne => hp.advance fun ht => hne (hm ▸ Meaning.kind_eq_eof.1 ht)
  rw [parsePrimary]
  split
  · rename_i v hm
    simp only [beginPrimary, hm]
    exact ⟨_, hadvance hm (by nofun), .refl⟩
  · rename_i hm
    simp only [beginPrimary, hm]
    exact ⟨_, hadvance hm (by nofun), .refl⟩
  · rename_i hm
    have hx := parseExpr_comes room 1 us (hadvance hm (by nofun)) hroom (.opened t :: frames)
    simp only [beginPrimary, hm]
    split <;> rename_i htree
    · exact hx.unwind rfl htree htree rfl
    · refine hx.resume htree fun q hq => ⟨_, resume_opened hq.next? t _, ?_⟩
      split <;> rename_i hclose <;> split <;> rename_i hrest <;> simp only [hrest] at hq hclose ⊢
      · rw [List.headD_nil, ts.last_eof] at hclose
        cases hclose
      · rw [List.headD_cons] at hclose ⊢
        rw [if_pos hclose]
        exact ⟨_, hq.advance (by rw [hclose]; decide), .refl⟩
      · exact ⟨q, hq, .refl⟩
      · rw [List.headD_cons] at hclose ⊢
        rw [if_neg hclose]
        exact ⟨q, hq, .refl⟩
  · rename_i hliteral hname hopen
    have hbegin : beginPrimary p frames t = ⟨p, .answer (.error (.atStart t)), frames⟩ := by
      unfold beginPrimary
      split
      · rename_i v hm
        exact (hliteral v hm).elim
      · rename_i hm
        exact (hname hm).elim
      · rename_i hm
        exact (hopen hm).elim
      · rfl
    rw [hbegin]
    exact .refl (o := .fail _) hp
termination_by (us.length + 1, 1)
decreasing_by exact Prod.Lex.left _ _ (by omega)

end

end Parsing

/-! ## Calls one after another -/

/-- What a parser is asked for: an expression that is all of the input, or one whose operators have
at least the rank `least`. -/
inductive Call where
  | parse
  | parseExpr (least : Int)

/-- What a session answers. -/
def Session.ask (s : Session) : Call → Except SyntaxError (Expr Span) × Session
  | .parse => s.parse
  | .parseExpr least => s.parseExpr least

/-- The parse with which a call begins. -/
def Parser.begin (p : Parser) : Call → Parsing
  | .parse => ⟨p, .expr Precedence.assignment.rank, [.whole]⟩
  | .parseExpr least => ⟨p, .expr least, []⟩

/-- The call answers `r` and leaves the parser `q`. -/
def Call.Ends (c : Call) (p : Parser) (r : Except SyntaxError (Expr Span)) (q : Parser) : Prop :=
  (p.begin c).Steps ⟨q, .answer r, []⟩

/-- The parsers to which calls lead, whatever they answer. -/
inductive Parser.Reached (ts : TokenList) : Parser → Prop
  | start : Reached ts (.ofTokens ts)
  | call {p q : Parser} {c : Call} {r : Except SyntaxError (Expr Span)} :
      Reached ts p → c.Ends p r q → Reached ts q

namespace Parsing

theorem not_step_answer {q : Parser} {r : Except SyntaxError (Expr Span)} {m : Parsing} :
    ¬ Step ⟨q, .answer r, []⟩ m := by
  intro h
  cases r <;> cases h

/-- Every step of a run that ends leads to its end. -/
theorem Steps.to_answer {m m' : Parsing} {q : Parser} {r : Except SyntaxError (Expr Span)}
    (h : Steps m ⟨q, .answer r, []⟩) (h' : Steps m m') : Steps m' ⟨q, .answer r, []⟩ := by
  induction h' with
  | refl => exact h
  | tail _ hstep ih =>
    rcases ih.cases_head with rfl | ⟨m₁, hstep₁, hsteps⟩
    · exact absurd hstep not_step_answer
    · rwa [hstep.deterministic hstep₁]

theorem invariant_begin {p : Parser} (hp : p.InRange) (hdepth : p.depth = 0) (c : Call) :
    (p.begin c).Invariant := by
  cases c <;>
    exact ⟨hp, hdepth, hdepth ▸ Int.natCast_nonneg _, fun _ => hdepth ▸ Int.natCast_nonneg _⟩

end Parsing

namespace Parser

theorem parser_begin (p : Parser) (c : Call) : (p.begin c).parser = p := by
  cases c <;> rfl

theorem At.index_eq {p : Parser} {ts : TokenList} {depth : Int} {rest : List Token}
    (h : p.At ts depth rest) : p.index = ts.front.length - rest.length := by
  have hlen := congrArg List.length h.rest
  have hle := h.index_le
  rw [List.length_drop] at hlen
  omega

end Parser

namespace Session

theorem index_lt_of_parseExpr {s : Session} {least : Int} {e : Expr Span}
    (h : (s.parseExpr least).1 = .ok e) : s.index < (s.parseExpr least).2.index := by
  obtain ⟨us, rest, -, hj, hs, -⟩ := parseExpr_eq_ok_iff.1 ⟨h, rfl⟩
  have := List.length_pos_iff.2 hs.ne_nil
  omega

theorem snd_parse (s : Session) : s.parse.2 = (s.parseExpr Precedence.assignment.rank).2 := by
  rw [parse]
  obtain ⟨tree, s'⟩ := s.parseExpr Precedence.assignment.rank
  cases tree with
  | error => rfl
  | ok e =>
    simp only
    split <;> rfl

theorem index_lt_of_ask {s : Session} {c : Call} {e : Expr Span} (h : (s.ask c).1 = .ok e) :
    s.index < (s.ask c).2.index := by
  cases c with
  | parse =>
    rw [ask, snd_parse]
    exact index_lt_of_parseExpr (parse_eq_ok_iff.1 h).1
  | parseExpr least => exact index_lt_of_parseExpr h

end Session

/-- A call on a parser ends with what the session at its index answers, and leaves the parser at the
index of the session, with no more levels open than before. -/
theorem Parser.exists_ends {p : Parser} (hdepth : p.depth = 0) (s : Session)
    (htokens : s.tokens = p.tokens) (hindex : s.index = p.index) (c : Call) :
    ∃ q, c.Ends p (s.ask c).1 q ∧ q.tokens = p.tokens ∧ q.index = (s.ask c).2.index ∧ q.depth = 0 := by
  have hp : p.At s.tokens 0 s.rest :=
    ⟨htokens.symm, hdepth, hindex ▸ s.index_le, by rw [Session.rest, hindex]⟩
  cases c with
  | parseExpr least =>
    obtain ⟨q, hq, hsteps⟩ := Parsing.parseExpr_comes maxNesting least s.rest hp (Int.zero_add _) []
    exact ⟨q, hsteps, htokens ▸ hq.tokens, hq.index_eq, hq.depth⟩
  | parse =>
    obtain ⟨q, hq, hsteps⟩ := Parsing.parseExpr_comes maxNesting 1 s.rest hp (Int.zero_add _) [.whole]
    refine ⟨q, ?_, htokens ▸ hq.tokens, ?_, hq.depth⟩
    · cases htree : (parseExpr s.tokens.last maxNesting 1 s.rest).tree with
      | error f =>
        rw [htree] at hsteps
        have hparse := Session.parse_of_fails ⟨htree, rfl⟩
        rw [Session.ask, hparse]
        exact hsteps.tail (Parsing.step_unwind f .whole)
      | ok e =>
        rw [htree] at hsteps
        obtain ⟨us, hus, -⟩ := parseExpr_sound ⟨htree, rfl⟩
        rw [Session.ask, Session.parse_of_gives hus ⟨htree, rfl⟩]
        refine hsteps.tail (Parsing.step_resume ?_)
        rw [Parsing.resume, hq.next?, Option.map_some]
    · rw [hq.index_eq, Session.ask, Session.snd_parse]
      rfl

namespace Parser

variable {ts : TokenList} {p : Parser}

/-- Between calls no level is open. -/
theorem Reached.depth_eq (h : Reached ts p) : p.tokens = ts ∧ p.InRange ∧ p.depth = 0 := by
  induction h with
  | start => exact ⟨rfl, inRange_ofTokens ts, rfl⟩
  | @call p q c r _ hends ih =>
    obtain ⟨htokens, hrange, hdepth⟩ := ih
    have hinv := Parsing.Steps.invariant hends (Parsing.invariant_begin hrange hdepth c)
    refine ⟨?_, hinv.range, hinv.depth⟩
    rw [← htokens, ← parser_begin p c]
    exact Parsing.Steps.tokens_eq hends

/-- However calls on a parser have ended, and at every step of the next one: the counter counts the
expressions and prefix operators that have begun and not ended, of which there are 201 at most; the
index is that of a token and does not go back, nor past an end of the input. The call ends with no
level open and with the answer of a session, whose index goes up if it answers with a tree. -/
theorem Reached.balanced (h : Reached ts p) (c : Call) :
    p.depth = 0 ∧
    (∀ m, (p.begin c).Steps m → m.parser.tokens = ts ∧
      m.parser.depth = m.levels ∧ m.parser.depth ≤ 201 ∧
      m.parser.index < ts.toList.length ∧ (∀ t ∈ ts.toList.take m.parser.index, t.kind ≠ .eof) ∧
      ∀ m', m.Steps m' → m.parser.index ≤ m'.parser.index) ∧
    ∃ r q, (∀ m, (p.begin c).Steps m → m.Steps ⟨q, .answer r, []⟩) ∧ q.depth = 0 ∧
      (∀ e, r = .ok e → p.index < q.index) ∧
      ∃ s : Session, s.tokens = ts ∧ s.index = p.index ∧ (s.ask c).1 = r ∧
        (s.ask c).2.index = q.index := by
  obtain ⟨rfl, hrange, hdepth⟩ := h.depth_eq
  refine ⟨hdepth, fun m hsteps => ?_, ?_⟩
  · have htokens : m.parser.tokens = p.tokens := by
      rw [hsteps.tokens_eq, parser_begin]
    have hinv := hsteps.invariant (Parsing.invariant_begin hrange hdepth c)
    exact ⟨htokens, hinv.depth, hinv.depth_le, htokens ▸ hinv.range.index_lt,
      htokens ▸ hinv.range.read, fun _ hsteps' => hsteps'.index_le⟩
  · have hle : p.index ≤ p.tokens.front.length := by
      have := hrange.index_lt
      rw [TokenList.toList, List.length_append] at this
      exact Nat.le_of_lt_succ this
    let s : Session := ⟨p.tokens, p.index, hle⟩
    obtain ⟨q, hends, -, hindex, hq⟩ := exists_ends hdepth s rfl rfl c
    refine ⟨_, q, fun m => hends.to_answer, hq, fun e he => ?_, s, rfl, rfl, rfl, hindex.symm⟩
    rw [hindex]
    exact Session.index_lt_of_ask he

/-- A tree has been read, and what stands behind it is refused. -/
theorem Reached.balanced_refused :
    let p (k : Nat) : Span := .point ⟨1, k + 1, k, ⟨0⟩⟩
    let ts : TokenList :=
      ⟨[⟨.name, "a", p 0⟩, ⟨.mark .closeParen, ")", p 1⟩], .eof ⟨1, 3, 2, ⟨0⟩⟩, rfl⟩
    Reached ts ⟨ts, 1, 0⟩ ∧ ∃ r q, Call.parse.Ends ⟨ts, 1, 0⟩ r q ∧ q.depth = 0 := by
  intro p ts
  have hends : (Call.parseExpr 99).Ends (ofTokens ts) (.ok (.identifier (p 0) "a")) ⟨ts, 1, 0⟩ :=
    .head rfl (.head rfl (.head rfl (.head rfl .refl)))
  have h : Reached ts ⟨ts, 1, 0⟩ := .call .start hends
  obtain ⟨-, -, r, q, hq, hdepth, -⟩ := Reached.balanced h .parse
  exact ⟨h, r, q, hq _ .refl, hdepth⟩

end Parser

end ScriptSyntax
