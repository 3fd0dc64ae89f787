/-
What the canonical source text is read as. The text of a tree without parentheses of the printer's
own is that of its leaves, its operators and its groups (`Expr.plainChars`). If the leaves can be
written it is cut into the lexemes of the yield: a blank on both sides of every binary operator and
between two prefix operators keeps their marks apart, and a leaf is followed by a blank, a closing
parenthesis or the end only. A canonical tree is printed as just this text (`Expr.reads_sourceChars`).
-/
import ScriptSyntax.Proofs.Expr.Canonical
import ScriptSyntax.Proofs.Number.ReadBack
import ScriptSyntax.Proofs.Token.Cut

namespace ScriptSyntax

open Text

/-! ## Leaves -/

/-- Has the literal a text that is read as a literal? Signs are read as operators. -/
def Literal.Readable : Literal → Prop
  | .int n => 0 ≤ n ∧ n.natAbs < 10 ^ maxIntDigits
  | .float x => x.isFinite = true ∧ x.negative = false
  | .string _ | .bool _ => True

/-- Can all leaves be written? -/
def Expr.Readable {α : Type} : Expr α → Prop
  | .literal _ v => v.Readable
  | .identifier _ n => Spelling n.toList (some .name)
  | .unary _ _ e | .grouping _ e => e.Readable
  | .binary _ _ l r => l.Readable ∧ r.Readable

theorem stringBody_flatMap (cs : List Char) : StringBody (cs.flatMap Literal.charChars) cs := by
  induction cs with
  | nil => exact .nil
  | cons c cs ih =>
    rw [List.flatMap_cons, Literal.charChars]
    cases he : escapeLetter? c with
    | some e => exact .escape (unescape?_eq_some.1 (unescape?_of_escapeLetter? he)) ih
    | none =>
      -- what has no escape may stand for itself
      have hne : ∀ p ∈ escapes, p.2 ≠ c := by
        rw [escapeLetter?, Option.map_eq_none_iff, List.find?_eq_none] at he
        simpa using he
      exact .char (hne ('"', '"') (by decide)).symm (hne ('\\', '\\') (by decide)).symm
        (hne ('n', '\n') (by decide)).symm ih

theorem Literal.Readable.spelling {v : Literal} (h : v.Readable) :
    Spelling v.chars (some (.literal v)) := by
  cases v with
  | int n => exact spelling_intChars h.1 h.2
  | float x => exact spelling_positional h.1 h.2
  | string s =>
    have hspell := Spelling.string (stringBody_flatMap s.toList)
    rwa [String.ofList_toList] at hspell
  | bool b =>
    have hword : ∀ b, ∃ c cs, boolChars b = c :: cs ∧ isNameStart c = true ∧
        cs.all isNamePart = true := by
      rintro (_ | _) <;> exact ⟨_, _, rfl, by decide, by decide⟩
    obtain ⟨c, cs, hchars, hs, hp⟩ := hword b
    have hspell := Spelling.word hs (List.all_eq_true.1 hp)
    rw [← hchars] at hspell
    cases b <;> exact hspell

theorem Literal.readable_of_spelling {v : Literal} {cs : List Char}
    (h : Spelling cs (some (.literal v))) : v.Readable := by
  generalize ho : some (Meaning.literal v) = o at h
  cases h with
  | word => split at ho <;> [skip; split at ho] <;> cases ho <;> trivial
  | int hne hd =>
    split at ho
    · rename_i hlen
      cases ho
      exact ⟨Int.natCast_nonneg _,
        Nat.lt_of_lt_of_le (decimalValue_lt hd) (Nat.pow_le_pow_right (by decide) hlen)⟩
    · cases ho
  | float =>
    simp only at ho
    split at ho
    · cases ho
    · rename_i hfin
      cases ho
      exact ⟨Binary64.isFinite_ofDecimal hfin, rfl⟩
  | string => cases ho; trivial
  | mark m => cases ho

/-! ## Texts and the terminals they are read as -/

/-- The text is cut into lexemes for these terminals. -/
def Reads (cs : List Char) (xs : List Terminal) : Prop :=
  ∃ ps last, Cuts cs ps last ∧ ∀ p, (placed p ps).map Token.terminal = xs

/-- What may stand behind a printed tree: the end, a blank or a closing parenthesis. -/
def Closes (rest : List Char) : Prop := ∀ c, rest.head? = some c → isBlank c = true ∨ c = ')'

theorem closes_nil : Closes [] := fun _ h => nomatch h

theorem closes_blank {c : Char} (hc : isBlank c = true) (rest : List Char) : Closes (c :: rest) :=
  fun _ h => .inl (Option.some.inj h ▸ hc)

theorem closes_close (rest : List Char) : Closes (')' :: rest) :=
  fun _ h => .inr (Option.some.inj h).symm

namespace Reads

variable {cs rest : List Char} {xs : List Terminal}

theorem nil : Reads [] [] := ⟨[], [], .last .nil, fun _ => rfl⟩

/-- A gap joins the first gap of the text, also if that is the one behind the last lexeme. -/
theorem gap {gap : List Char} (h : Reads cs xs) (hg : IsGap gap cs) : Reads (gap ++ cs) xs := by
  obtain ⟨ps, last, hcut, hx⟩ := h
  cases hcut with
  | last hlast =>
    exact ⟨[], _, .last (IsGap.append (by rwa [List.append_nil]) hlast), hx⟩
  | @piece gap' lexeme rest _ m ps hgap hat hrest =>
    rw [List.append_assoc] at hg
    refine ⟨⟨gap ++ gap', m, lexeme⟩ :: ps, last, ?_, fun p => ?_⟩
    · rw [← List.append_assoc, ← List.append_assoc]
      exact .piece (hg.append hgap) hat hrest
    · rw [← hx (p.advanceBy gap), placed, placed, Position.advanceBy_append]

theorem blank (h : Reads cs xs) : Reads (' ' :: cs) xs :=
  h.gap (.cons (.blank isBlank_space) .nil)

theorem lexeme {lexeme : List Char} {m : Meaning} {x : Terminal} (h : Reads rest xs)
    (hat : LexemeAt lexeme m rest) (hx : ∀ s, Token.terminal ⟨m, String.ofList lexeme, s⟩ = x) :
    Reads (lexeme ++ rest) (x :: xs) := by
  obtain ⟨ps, last, hcut, hxs⟩ := h
  refine ⟨⟨[], m, lexeme⟩ :: ps, last, .piece .nil hat hcut, fun p => ?_⟩
  rw [placed, List.map_cons, hx, hxs]

/-- A leaf is read in front of what may stand behind a printed tree. -/
theorem leaf {lexeme : List Char} {m : Meaning} {x : Terminal} (h : Reads rest xs)
    (hrest : Closes rest) (hs : Spelling lexeme (some m)) (hm : ∀ mark, m ≠ .mark mark)
    (hx : ∀ s, Token.terminal ⟨m, String.ofList lexeme, s⟩ = x) : Reads (lexeme ++ rest) (x :: xs) := by
  refine h.lexeme ?_ hx
  cases rest with
  | nil => exact .of_stops hs hm (endsRun_nil _) nofun
  | cons c rest =>
    rcases hrest c rfl with hc | rfl
    · exact .of_blank hs hc rest
    · exact .of_stops hs hm (endsRun_cons.2 (by decide)) (by simp)

theorem name {n : String} (h : Reads rest xs) (hrest : Closes rest)
    (hs : Spelling n.toList (some .name)) : Reads (n.toList ++ rest) (.name n :: xs) := by
  refine h.leaf hrest hs nofun fun _ => ?_
  rw [Token.terminal_eq_name]
  exact ⟨rfl, String.ofList_toList⟩

theorem mark {m : Mark} (h : Reads rest xs)
    (hr : ∀ c n, rest.head? = some c → Mark.chars n ≠ m.chars ++ [c])
    (hcomment : ¬ ['/', '/'] <+: m.chars ++ rest ∧ ¬ ['/', '*'] <+: m.chars ++ rest) :
    Reads (m.chars ++ rest) (.mark m :: xs) := by
  refine h.lexeme (.of_mark (fun c hc => ?_) hcomment) fun _ => rfl
  rw [Option.eq_none_iff_forall_ne_some]
  exact fun n hn => hr c n hc (Mark.extend?_eq_some.1 hn)

theorem mark_blank (m : Mark) {c : Char} (hc : isBlank c = true) (h : Reads (c :: rest) xs) :
    Reads (m.chars ++ c :: rest) (.mark m :: xs) :=
  h.lexeme (.of_blank (.mark m) hc rest) fun _ => rfl

theorem openParen (h : Reads rest xs) : Reads ('(' :: rest) (.mark .openParen :: xs) := by
  refine @mark _ _ .openParen h ?_ (Lexeme.no_comment_of_ne (by decide))
  intro c n _
  cases n <;> simp [Mark.chars]

theorem closeParen (h : Reads rest xs) : Reads (')' :: rest) (.mark .closeParen :: xs) := by
  refine @mark _ _ .closeParen h ?_ (Lexeme.no_comment_of_ne (by decide))
  intro c n _
  cases n <;> simp [Mark.chars]

/-- A prefix operator makes a longer mark with `=` only. -/
theorem unaryOp (op : UnaryOp) (h : Reads rest xs) (hr : rest.head? ≠ some '=') :
    Reads (op.mark.chars ++ rest) (.mark op.mark :: xs) := by
  refine h.mark ?_ ?_
  · intro c n hc hn
    have hne : '=' ≠ c := fun he => hr (he ▸ hc)
    cases op <;> cases n <;> simp_all [Mark.chars, UnaryOp.mark]
  · cases op <;> exact Lexeme.no_comment_of_ne (by decide)

end Reads

/-! ## Printed trees -/

namespace Expr

variable {α : Type}

theorem rank_eq_of_operator? {e : Expr α} {op : BinaryOp} (h : e.operator? = some op) :
    e.rank = op.precedence.rank := by
  cases e with
  | binary => cases h; rfl
  | _ => cases h

theorem unary_rank_le {e : Expr α} (h : e.operator? = none) : Precedence.unary.rank ≤ e.rank := by
  cases e with
  | binary => cases h
  | _ => simp [rank]

theorem wraps_eq_false_iff {op : BinaryOp} {e : Expr α} {b : Bool} {p : Prop} (hb : b = true ↔ p) :
    (decide (e.rank < op.precedence.rank) || (e.rank == op.precedence.rank && b)) = false ↔
      ∀ o, e.operator? = some o → ¬ o.precedence.rank < op.precedence.rank ∧
        ¬ (o.precedence.rank = op.precedence.rank ∧ p) := by
  have hranks : (decide (e.rank < op.precedence.rank) ||
      (e.rank == op.precedence.rank && b)) = false ↔
        ¬ e.rank < op.precedence.rank ∧ ¬ (e.rank = op.precedence.rank ∧ p) := by
    rw [← hb]
    simp
  rw [hranks]
  cases ho : e.operator? with
  | none =>
    have := unary_rank_le ho
    have := op.rank_lt_unary
    exact ⟨fun _ _ h => absurd h (by simp), fun _ => ⟨by omega, fun h => by omega⟩⟩
  | some o =>
    rw [rank_eq_of_operator? ho]
    constructor
    · rintro h o' ho'
      cases ho'
      exact h
    · exact fun h => h o rfl

theorem isAssignment_iff {op : BinaryOp} : op.isAssignment = true ↔ op.associativity = .right := by
  unfold BinaryOp.associativity
  split <;> simp_all

/-- The printer writes no parentheses around what may stand to the left of an operator. -/
theorem wrapsLeft_eq_false_iff {op : BinaryOp} {l : Expr α} :
    wrapsLeft op l = false ↔ FitsLeft op l := wraps_eq_false_iff isAssignment_iff

/-- The printer writes no parentheses around what may stand to the right of an operator. -/
theorem wrapsRight_eq_false_iff {op : BinaryOp} {r : Expr α} :
    wrapsRight op r = false ↔ FitsRight op r := by
  have hleft : (!op.isAssignment) = true ↔ op.associativity = .left := by
    rw [Bool.not_eq_true', ← Bool.not_eq_true, isAssignment_iff]
    cases op.associativity <;> simp
  exact wraps_eq_false_iff hleft

/-- The printer writes no parentheses around what may stand behind a prefix operator. -/
theorem wrapsOperand_eq_false_iff {e : Expr α} : wrapsOperand e = false ↔ e.operator? = none := by
  rw [wrapsOperand, decide_eq_false_iff_not, Nat.not_lt]
  constructor
  · intro h
    cases ho : e.operator? with
    | none => rfl
    | some op =>
      rw [rank_eq_of_operator? ho] at h
      exact absurd op.rank_lt_unary (Nat.not_lt.2 h)
  · exact unary_rank_le

theorem head?_leaf_ne {cs : List Char} {m : Meaning} (hs : Spelling cs (some m))
    (hm : ∀ mark, m ≠ .mark mark) (rest : List Char) : (cs ++ rest).head? ≠ some '=' := by
  intro heq
  obtain ⟨c, cs, rfl⟩ := List.exists_cons_of_ne_nil hs.ne_nil
  cases heq
  obtain ⟨mark, -, hmark⟩ := hs.of_other (by decide) (by decide) (by decide)
  exact hm mark (Option.some.inj hmark)

/-! ### Texts without the printer's own parentheses -/

/-- The text of a tree with no other parentheses than those of its groups. -/
def plainChars : Expr α → List Char
  | .literal _ v => v.chars
  | .identifier _ n => n.toList
  | .unary _ op e => op.mark.chars ++ (if e.isUnary then [' '] else []) ++ e.plainChars
  | .binary _ op l r => l.plainChars ++ ' ' :: op.mark.chars ++ ' ' :: r.plainChars
  | .grouping _ e => parenthesized e.plainChars

/-- No such text begins with `=`. -/
theorem head?_plainChars_ne {e : Expr α} (hr : e.Readable) (rest : List Char) :
    (e.plainChars ++ rest).head? ≠ some '=' := by
  induction e generalizing rest with
  | literal _ v => exact head?_leaf_ne (Literal.Readable.spelling hr) nofun rest
  | identifier _ n => exact head?_leaf_ne hr nofun rest
  | unary _ op => cases op <;> simp [plainChars, UnaryOp.mark, Mark.chars]
  | binary _ op l r ihl =>
    rw [plainChars, List.append_assoc, List.append_assoc]
    exact ihl hr.1 _
  | grouping => simp [plainChars, parenthesized]

/-- The text without parentheses reads as the yield, in front of what may stand behind it. -/
theorem reads_plainChars {e : Expr α} (hr : e.Readable) {rest : List Char} {xs : List Terminal}
    (hrest : Closes rest) (h : Reads rest xs) : Reads (e.plainChars ++ rest) (e.yield ++ xs) := by
  -- from the last part of a node to its first, each in front of those read already
  induction e generalizing rest xs with
  | literal _ v => exact h.leaf hrest (Literal.Readable.spelling hr) nofun fun _ => rfl
  | identifier _ n => exact h.name hrest hr
  | unary _ op e ih =>
    have he := ih hr hrest h
    rw [plainChars, yield]
    cases e.isUnary with
    | true => simpa using Reads.mark_blank op.mark isBlank_space he.blank
    | false => simpa using Reads.unaryOp op he (@head?_plainChars_ne _ e hr rest)
  | binary _ op l r ihl ihr =>
    have hright := Reads.mark_blank op.mark isBlank_space (ihr hr.2 hrest h).blank
    have hleft := ihl hr.1 (closes_blank isBlank_space _) hright.blank
    rw [plainChars, yield]
    simpa using hleft
  | grouping _ e ih =>
    have hinner := ih hr (closes_close _) h.closeParen
    rw [plainChars, parenthesized, yield]
    simpa using hinner.openParen

/-- A canonical tree is printed without parentheses of the printer's own. -/
theorem Canonical.sourceChars_eq {e : Expr α} (hc : e.Canonical) : e.sourceChars = e.plainChars := by
  induction e with
  | literal | identifier => rfl
  | unary _ op e ih =>
    rw [sourceChars, wrapsOperand_eq_false_iff.2 hc.1, ih hc.2]
    rfl
  | binary _ op l r ihl ihr =>
    obtain ⟨hfl, hfr, hcl, hcr⟩ := hc
    rw [sourceChars, wrapsLeft_eq_false_iff.2 hfl, wrapsRight_eq_false_iff.2 hfr, ihl hcl, ihr hcr]
    rfl
  | grouping _ e ih => rw [sourceChars, plainChars, ih hc]

/-- The text of a canonical tree reads as its yield, in front of what may stand behind it. -/
theorem reads_sourceChars {e : Expr α} (hc : e.Canonical) (hr : e.Readable) {rest : List Char}
    {xs : List Terminal} (hrest : Closes rest) (h : Reads rest xs) :
    Reads (e.sourceChars ++ rest) (e.yield ++ xs) := by
  rw [hc.sourceChars_eq]
  exact reads_plainChars hr hrest h

end Expr

end ScriptSyntax
