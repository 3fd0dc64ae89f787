/-
The parentheses that the printer adds, and why each of them is needed. `Expr.ownPairs` are the pairs
in the text of a tree that come from no group of it. Without one of them the text is that of a tree
with the same operators and operands in which something stands where it may not stand without
parentheses (`Expr.Bared`).

What such a text is read as is another tree (`format_pairs_needed`). A tree is determined by its yield
and by what it is without its groups (`Expr.bare_eq_of_yield_eq`): the terminals that are no
parentheses tell where the left operand of an operator ends, and a group is told from operands in
groups by its parenthesis, which is not closed before its end. A tree read from the text has the yield
of the one that is not canonical, but is canonical itself.
-/
import ScriptSyntax.Proofs.Expr.Dump
import ScriptSyntax.Proofs.Expr.Grouped

namespace ScriptSyntax

/-! ## Open parentheses -/

namespace Terminal

/-- What a terminal adds to the number of parentheses that are open. -/
def opening : Terminal → Int
  | .mark .openParen => 1
  | .mark .closeParen => -1
  | _ => 0

def isParen (x : Terminal) : Bool := x.opening != 0

@[simp] theorem opening_literal (v : Literal) : (literal v).opening = 0 := rfl

@[simp] theorem opening_name (n : String) : (name n).opening = 0 := rfl

@[simp] theorem opening_openParen : (mark .openParen).opening = 1 := rfl

@[simp] theorem opening_closeParen : (mark .closeParen).opening = -1 := rfl

@[simp] theorem opening_unaryOp (op : UnaryOp) : (mark op.mark).opening = 0 := by
  cases op <;> rfl

@[simp] theorem opening_binaryOp (op : BinaryOp) : (mark op.mark).opening = 0 := by
  cases op <;> rfl

/-- How many more parentheses are open behind the terminals than before them. -/
def height (xs : List Terminal) : Int := (xs.map opening).sum

@[simp] theorem height_nil : height [] = 0 := rfl

@[simp] theorem height_cons (x : Terminal) (xs : List Terminal) :
    height (x :: xs) = x.opening + height xs := by
  simp [height]

@[simp] theorem height_append (xs ys : List Terminal) : height (xs ++ ys) = height xs + height ys := by
  simp [height]

end Terminal

open Terminal

namespace Expr

variable {α β : Type}

theorem height_yield (e : Expr α) : height e.yield = 0 := by
  induction e <;> simp_all [yield]

/-- Nothing is closed that is not open. -/
theorem height_take_yield_nonneg (e : Expr α) (n : Nat) : 0 ≤ height (e.yield.take n) := by
  induction e generalizing n with
  | literal | identifier => cases n <;> simp [yield]
  | unary _ op e ih =>
    cases n with
    | zero => simp
    | succ n => simpa [yield] using ih n
  | binary _ op l r ihl ihr =>
    rw [yield, List.take_append, height_append]
    have hright : 0 ≤ height ((Terminal.mark op.mark :: r.yield).take (n - l.yield.length)) := by
      cases n - l.yield.length with
      | zero => simp
      | succ n => simpa using ihr n
    exact Int.add_nonneg (ihl n) hright
  | grouping _ e ih =>
    cases n with
    | zero => simp
    | succ n =>
      have hclose : -1 ≤ height ([Terminal.mark .closeParen].take (n - e.yield.length)) := by
        cases n - e.yield.length <;> simp
      have := ih n
      simp only [yield, List.cons_append, List.take_succ_cons, List.take_append, height_cons,
        height_append, opening_openParen]
      omega

/-- The parenthesis that a group opens is not closed before its end. -/
theorem yield_grouping_ne {a : α} {b : β} {e : Expr α} {op : BinaryOp} {l r : Expr β} :
    (grouping a e).yield ≠ (binary b op l r).yield := by
  intro h
  have hlen := congrArg List.length h
  have htake := congrArg (fun xs => height (xs.take l.yield.length)) h
  obtain ⟨x, xs, hl⟩ := List.exists_cons_of_ne_nil l.yield_ne_nil
  have hr := List.length_pos_of_ne_nil r.yield_ne_nil
  have hle : xs.length ≤ e.yield.length := by
    simp only [yield, hl, List.length_append, List.length_cons, List.length_nil] at hlen
    omega
  have := e.height_take_yield_nonneg xs.length
  simp only [yield, List.take_left, height_yield] at htake
  simp only [hl, List.length_cons, List.cons_append, List.take_succ_cons,
    List.take_append_of_le_length hle, height_cons, opening_openParen] at htake
  omega

/-! ## A tree and its yield -/

/-- The terminals that are no parentheses are those of the tree without its groups. -/
theorem filter_yield (e : Expr α) : e.yield.filter (!·.isParen) = e.ungrouped.yield := by
  induction e <;> simp_all [yield, ungrouped, isParen]

end Expr

/-- Where as many terminals of a kind stand before one of that kind, lists are split alike. -/
theorem append_cons_inj_of_filter {p : Terminal → Bool} {us us' vs vs' : List Terminal}
    {x y : Terminal} (h : us ++ x :: vs = us' ++ y :: vs') (hx : p x = true) (hy : p y = true)
    (hfilter : us.filter p = us'.filter p) : us = us' ∧ vs = vs' := by
  have hcount := congrArg List.length hfilter
  rcases List.append_eq_append_iff.1 h with ⟨m, rfl, hm⟩ | ⟨m, rfl, hm⟩
  all_goals
    cases m with
    | nil => simp_all
    | cons z m =>
      cases hm
      simp [hx, hy] at hcount

namespace Expr

variable {α β : Type}

theorem unaryOp_ne_openParen (op : UnaryOp) : Terminal.mark op.mark ≠ .mark .openParen := by
  cases op <;> decide

/-- The yield and the tree without its groups determine a tree but for its notes. -/
theorem bare_eq_of_yield_eq {e : Expr α} {e' : Expr β} (hy : e.yield = e'.yield)
    (hu : e.ungrouped.bare = e'.ungrouped.bare) : e.bare = e'.bare := by
  induction e generalizing e' with
  | literal _ v =>
    cases e' with
    | literal =>
      cases hy
      rfl
    | grouping => cases hy
    | _ => cases hu
  | identifier _ n =>
    cases e' with
    | identifier =>
      cases hy
      rfl
    | grouping => cases hy
    | _ => cases hu
  | unary _ op e ih =>
    cases e' with
    | unary _ op' e' =>
      obtain ⟨-, rfl, hue⟩ := Expr.unary.inj hu
      exact congrArg (Expr.unary () op) (ih (List.cons.inj hy).2 hue)
    | grouping => exact absurd (List.cons.inj hy).1 (unaryOp_ne_openParen op)
    | _ => cases hu
  | binary _ op l r ihl ihr =>
    cases e' with
    | binary _ op' l' r' =>
      obtain ⟨-, rfl, hul, hur⟩ := Expr.binary.inj hu
      -- both left operands have the operators and leaves of one tree, so they end at one place
      have hfilter : l.yield.filter (!·.isParen) = l'.yield.filter (!·.isParen) := by
        rw [filter_yield, filter_yield, ← yield_bare, ← yield_bare l'.ungrouped]
        exact congrArg yield hul
      have hop : (!(Terminal.mark op.mark).isParen) = true := by simp [isParen]
      obtain ⟨hyl, hyr⟩ := append_cons_inj_of_filter hy hop hop hfilter
      exact congrArg₂ (Expr.binary () op) (ihl hyl hul) (ihr hyr hur)
    | grouping => exact absurd hy.symm yield_grouping_ne
    | _ => cases hu
  | grouping _ e ih =>
    cases e' with
    | unary _ op => exact absurd (List.cons.inj hy).1.symm (unaryOp_ne_openParen op)
    | binary => exact absurd hy yield_grouping_ne
    | grouping _ e' =>
      have hinner := List.append_cancel_right (List.cons.inj hy).2
      exact congrArg (Expr.grouping ()) (ih hinner hu)
    | _ => cases hy

end Expr

/-! ## Pairs of parentheses in texts -/

/-- A pair of parentheses in a text, by what stands before it, in it and behind it. -/
structure Pair where
  before : List Char
  inner : List Char
  behind : List Char
deriving DecidableEq

namespace Pair

/-- The text with the pair. -/
def whole (p : Pair) : List Char := p.before ++ (Expr.parenthesized p.inner ++ p.behind)

/-- The text without the pair. -/
def without (p : Pair) : List Char := p.before ++ (p.inner ++ p.behind)

/-- The pair in a text that has more at both ends. -/
def within (front back : List Char) (p : Pair) : Pair :=
  ⟨front ++ p.before, p.inner, p.behind ++ back⟩

/-- The pair in an operand, which may be in parentheses itself. -/
def wrapped (needed : Bool) (p : Pair) : Pair := if needed then p.within ['('] [')'] else p

/-- Does the first of the pairs open before the other one? -/
def Precedes (p q : Pair) : Prop := p.before.length < q.before.length

variable {p q : Pair} {front back : List Char} {needed : Bool}

@[simp] theorem whole_within : (p.within front back).whole = front ++ (p.whole ++ back) := by
  simp [whole, within]

@[simp] theorem without_within : (p.within front back).without = front ++ (p.without ++ back) := by
  simp [without, within]

@[simp] theorem whole_wrapped : (p.wrapped needed).whole = Expr.wrap needed p.whole := by
  cases needed <;> simp [wrapped, Expr.wrap, Expr.parenthesized]

@[simp] theorem without_wrapped : (p.wrapped needed).without = Expr.wrap needed p.without := by
  cases needed <;> simp [wrapped, Expr.wrap, Expr.parenthesized]

theorem length_before_lt : p.before.length < p.whole.length := by
  simp only [whole, Expr.parenthesized, List.length_append, List.length_cons]
  omega

theorem Precedes.within (h : p.Precedes q) : (p.within front back).Precedes (q.within front back) := by
  simpa [Precedes, Pair.within] using h

theorem Precedes.wrapped (h : p.Precedes q) : (p.wrapped needed).Precedes (q.wrapped needed) := by
  cases needed with
  | true => exact h.within
  | false => exact h

end Pair

namespace Expr

variable {α : Type}

/-- The pairs of an operand: the one around it, if it needs one, and those in it. -/
def operandPairs (needed : Bool) (cs : List Char) (inside : List Pair) : List Pair :=
  (if needed then [⟨[], cs, []⟩] else []) ++ inside.map (.wrapped needed)

/-- The pairs of parentheses in the text of a tree that come from no group, from left to right. -/
def ownPairs : Expr α → List Pair
  | .literal _ _ | .identifier _ _ => []
  | .unary _ op e =>
    (operandPairs (wrapsOperand e) e.sourceChars e.ownPairs).map
      (.within (op.mark.chars ++ if e.isUnary then [' '] else []) [])
  | .binary _ op l r =>
    (operandPairs (wrapsLeft op l) l.sourceChars l.ownPairs).map
        (.within [] (' ' :: op.mark.chars ++ ' ' :: wrap (wrapsRight op r) r.sourceChars)) ++
      (operandPairs (wrapsRight op r) r.sourceChars r.ownPairs).map
        (.within (wrap (wrapsLeft op l) l.sourceChars ++ ' ' :: op.mark.chars ++ [' ']) [])
  | .grouping _ e => e.ownPairs.map (.within ['('] [')'])

section Pairs

variable {needed : Bool} {cs : List Char} {inside : List Pair} {p : Pair}

theorem mem_operandPairs : p ∈ operandPairs needed cs inside ↔
    needed = true ∧ p = ⟨[], cs, []⟩ ∨ ∃ q ∈ inside, q.wrapped needed = p := by
  cases needed <;> simp [operandPairs]

theorem length_operandPairs :
    (operandPairs needed cs inside).length = inside.length + needed.toNat := by
  cases needed <;> simp [operandPairs]

theorem whole_of_mem_operandPairs (hin : ∀ q ∈ inside, q.whole = cs)
    (h : p ∈ operandPairs needed cs inside) : p.whole = wrap needed cs := by
  rcases mem_operandPairs.1 h with ⟨rfl, rfl⟩ | ⟨q, hq, rfl⟩
  · simp [Pair.whole, wrap]
  · rw [Pair.whole_wrapped, hin q hq]

theorem pairwise_operandPairs (hin : inside.Pairwise Pair.Precedes) :
    (operandPairs needed cs inside).Pairwise Pair.Precedes := by
  have hmap := hin.map (Pair.wrapped needed) fun _ _ h => h.wrapped
  cases needed with
  | true =>
    refine List.pairwise_cons.2 ⟨fun q hq => ?_, hmap⟩
    obtain ⟨q, -, rfl⟩ := List.mem_map.1 hq
    exact Nat.succ_pos _
  | false => exact hmap

end Pairs

/-- All these pairs are pairs of the text. -/
theorem whole_of_mem_ownPairs {e : Expr α} {p : Pair} (h : p ∈ e.ownPairs) :
    p.whole = e.sourceChars := by
  induction e generalizing p with
  | literal | identifier => cases h
  | unary _ op e ih =>
    obtain ⟨q, hq, rfl⟩ := List.mem_map.1 h
    rw [Pair.whole_within, whole_of_mem_operandPairs (fun _ => ih) hq, sourceChars, List.append_nil]
  | binary _ op l r ihl ihr =>
    rcases List.mem_append.1 h with h | h
    · obtain ⟨q, hq, rfl⟩ := List.mem_map.1 h
      rw [Pair.whole_within, whole_of_mem_operandPairs (fun _ => ihl) hq, sourceChars]
      simp
    · obtain ⟨q, hq, rfl⟩ := List.mem_map.1 h
      rw [Pair.whole_within, whole_of_mem_operandPairs (fun _ => ihr) hq, sourceChars]
      simp
  | grouping _ e ih =>
    obtain ⟨q, hq, rfl⟩ := List.mem_map.1 h
    rw [Pair.whole_within, ih hq, sourceChars]
    rfl

/-- No pair is counted twice. -/
theorem pairwise_ownPairs (e : Expr α) : e.ownPairs.Pairwise Pair.Precedes := by
  have hwithin {front back : List Char} {ps : List Pair} (h : ps.Pairwise Pair.Precedes) :
      (ps.map (.within front back)).Pairwise Pair.Precedes := h.map _ fun _ _ h => h.within
  induction e with
  | literal | identifier => exact .nil
  | unary _ op e ih => exact hwithin (pairwise_operandPairs ih)
  | binary _ op l r ihl ihr =>
    refine List.pairwise_append.2
      ⟨hwithin (pairwise_operandPairs ihl), hwithin (pairwise_operandPairs ihr), ?_⟩
    -- the pairs of the left operand open in its text, and those of the right one behind it
    intro p hp q hq
    obtain ⟨p', hp', rfl⟩ := List.mem_map.1 hp
    obtain ⟨q', -, rfl⟩ := List.mem_map.1 hq
    have hlt := p'.length_before_lt
    rw [whole_of_mem_operandPairs (fun _ => whole_of_mem_ownPairs) hp'] at hlt
    simp only [Pair.Precedes, Pair.within, List.nil_append, List.length_append]
    omega
  | grouping _ e ih => exact hwithin ih

theorem count_yield_group {needed : Bool} {e : Expr α} :
    (group needed e).yield.count (.mark .openParen) =
      e.yield.count (.mark .openParen) + needed.toNat := by
  cases needed <;> simp [group, yield]

/-- No pair is left out: each parenthesis that opens in the text does so for a group or for one of
the pairs. -/
theorem count_yield_grouped (e : Expr α) : e.grouped.yield.count (.mark .openParen) =
    e.yield.count (.mark .openParen) + e.ownPairs.length := by
  induction e with
  | literal | identifier => rfl
  | unary _ op e ih =>
    simp only [grouped, yield, ownPairs, List.count_cons, count_yield_group, ih, List.length_map,
      length_operandPairs]
    omega
  | binary _ op l r ihl ihr =>
    simp only [grouped, yield, ownPairs, List.count_append, List.count_cons, count_yield_group, ihl,
      ihr, List.length_append, List.length_map, length_operandPairs]
    omega
  | grouping _ e ih =>
    simp only [grouped, yield, ownPairs, List.count_append, List.count_cons, ih, List.length_map]
    omega

/-! ## A pair less -/

section Bared

variable {e : Expr α} {p : Pair} {needed : Bool}

theorem isUnary_grouped (e : Expr α) : e.grouped.isUnary = e.isUnary := by
  cases e <;> rfl

/-- Without a pair of its parentheses the text of the tree is that of `x`, which has the same operators
and operands but is not canonical. -/
structure Bared (e : Expr α) (p : Pair) (x : Expr α) : Prop where
  plainChars : x.plainChars = p.without
  ungrouped : x.ungrouped = e.ungrouped
  readable : e.Readable → x.Readable
  isUnary : x.isUnary = e.isUnary
  not_canonical : ¬ x.Canonical

/-- The same of an operand: if the pair around it is the one that is gone, it is the operand that
stands where it may not stand. -/
structure BaredOperand (needed : Bool) (e : Expr α) (p : Pair) (x : Expr α) : Prop where
  plainChars : x.plainChars = p.without
  ungrouped : x.ungrouped = e.ungrouped
  readable : e.Readable → x.Readable
  isUnary : (needed = true → e.isUnary = false) → x.isUnary = e.isUnary
  misplaced : x.Canonical → needed = true ∧ x.operator? = e.operator?

theorem exists_baredOperand (hin : ∀ q ∈ e.ownPairs, ∃ x, Bared e q x)
    (h : p ∈ operandPairs needed e.sourceChars e.ownPairs) : ∃ x, BaredOperand needed e p x := by
  rcases mem_operandPairs.1 h with ⟨rfl, rfl⟩ | ⟨q, hq, rfl⟩
  · refine ⟨e.grouped, ?_, ungrouped_grouped e, Readable.grouped, fun _ => isUnary_grouped e,
      fun _ => ⟨rfl, operator?_grouped⟩⟩
    rw [plainChars_grouped, Pair.without, List.append_nil, List.nil_append]
  · obtain ⟨x, hx⟩ := hin q hq
    refine ⟨group needed x, ?_, by simp [hx.ungrouped], fun hr => readable_group.2 (hx.readable hr),
      fun hu => ?_, fun hc => absurd (canonical_group.1 hc) hx.not_canonical⟩
    · rw [plainChars_group, hx.plainChars, Pair.without_wrapped]
    · cases needed with
      | true => exact (hu rfl).symm
      | false => exact hx.isUnary

theorem exists_bared (h : p ∈ e.ownPairs) : ∃ x, Bared e p x := by
  induction e generalizing p with
  | literal | identifier => cases h
  | unary a op e ih =>
    obtain ⟨q, hq, rfl⟩ := List.mem_map.1 h
    obtain ⟨x, hx⟩ := exists_baredOperand (fun _ => ih) hq
    have hu : x.isUnary = e.isUnary := hx.isUnary fun hw => by
      cases e with
      | unary => cases hw
      | _ => rfl
    refine ⟨.unary a op x, ?_, congrArg (Expr.unary a op) hx.ungrouped, hx.readable, rfl, ?_⟩
    · rw [Expr.plainChars, hx.plainChars, hu, Pair.without_within, List.append_nil]
    · rintro ⟨ho, hc⟩
      obtain ⟨hw, hop⟩ := hx.misplaced hc
      rw [hop, ← wrapsOperand_eq_false_iff, hw] at ho
      cases ho
  | binary a op l r ihl ihr =>
    rcases List.mem_append.1 h with h | h
    · obtain ⟨q, hq, rfl⟩ := List.mem_map.1 h
      obtain ⟨x, hx⟩ := exists_baredOperand (fun _ => ihl) hq
      refine ⟨.binary a op x (group (wrapsRight op r) r.grouped), ?_, ?_, ?_, rfl, ?_⟩
      · rw [Expr.plainChars, hx.plainChars, plainChars_group, plainChars_grouped,
          Pair.without_within, List.append_assoc]
        rfl
      · simp [Expr.ungrouped, hx.ungrouped, ungrouped_grouped]
      · exact fun hr => ⟨hx.readable hr.1, readable_group.2 (Readable.grouped hr.2)⟩
      · rintro ⟨hfit, -, hc, -⟩
        obtain ⟨hw, hop⟩ := hx.misplaced hc
        rw [FitsLeft, hop, ← FitsLeft, ← wrapsLeft_eq_false_iff, hw] at hfit
        cases hfit
    · obtain ⟨q, hq, rfl⟩ := List.mem_map.1 h
      obtain ⟨x, hx⟩ := exists_baredOperand (fun _ => ihr) hq
      refine ⟨.binary a op (group (wrapsLeft op l) l.grouped) x, ?_, ?_, ?_, rfl, ?_⟩
      · rw [Expr.plainChars, hx.plainChars, plainChars_group, plainChars_grouped,
          Pair.without_within, List.append_nil]
        simp
      · simp [Expr.ungrouped, hx.ungrouped, ungrouped_grouped]
      · exact fun hr => ⟨readable_group.2 (Readable.grouped hr.1), hx.readable hr.2⟩
      · rintro ⟨-, hfit, -, hc⟩
        obtain ⟨hw, hop⟩ := hx.misplaced hc
        rw [FitsRight, hop, ← FitsRight, ← wrapsRight_eq_false_iff, hw] at hfit
        cases hfit
  | grouping a e ih =>
    obtain ⟨q, hq, rfl⟩ := List.mem_map.1 h
    obtain ⟨x, hx⟩ := ih hq
    refine ⟨.grouping a x, ?_, hx.ungrouped, hx.readable, rfl, hx.not_canonical⟩
    rw [Expr.plainChars, hx.plainChars, Pair.without_within]
    rfl

end Bared

end Expr

theorem Reads.yield_eq {cs : List Char} {xs : List Terminal} {file : Symbol} {t : Expr Span}
    (h : Reads cs xs) (ht : parseExpression file (String.ofList cs) = .ok t) : t.yield = xs := by
  obtain ⟨ps, last, hcut, hs, -, -⟩ := parseExpression_eq_ok_iff.1 ht
  obtain ⟨qs, last', hcut', hxs⟩ := h
  rw [String.toList_ofList] at hcut
  obtain ⟨rfl, -⟩ := hcut.unique hcut'
  rw [← hs.terminals, hxs]

/-- The printer adds no pair of parentheses that could be left out: what the text without it is read
as, if it is read at all, has not the same operators and operands. The pairs are all those of the text
but for the ones of the groups. -/
theorem format_pairs_needed {α : Type} {e : Expr α} (h : e.Readable) :
    ∃ cs, e.format = .ok (String.ofList cs) ∧
      (∃ xs, Reads cs xs ∧ xs.count (.mark .openParen) =
        e.yield.count (.mark .openParen) + e.ownPairs.length) ∧
      e.ownPairs.Pairwise Pair.Precedes ∧
      ∀ p ∈ e.ownPairs, p.whole = cs ∧ ∀ file t,
        parseExpression file (String.ofList p.without) = .ok t → t.ungrouped.bare ≠ e.ungrouped.bare := by
  refine ⟨_, h.format, ⟨e.grouped.yield, ?_, e.count_yield_grouped⟩, e.pairwise_ownPairs,
    fun p hp => ⟨Expr.whole_of_mem_ownPairs hp, fun file t ht hu => ?_⟩⟩
  · have hreads := Expr.reads_plainChars h.grouped closes_nil Reads.nil
    rwa [List.append_nil, List.append_nil, Expr.plainChars_grouped] at hreads
  · obtain ⟨x, hx⟩ := Expr.exists_bared hp
    have hreads := Expr.reads_plainChars (hx.readable h) closes_nil Reads.nil
    rw [List.append_nil, List.append_nil, hx.plainChars] at hreads
    -- the tree read is the one with a pair less, which is not canonical
    have hbare : t.bare = x.bare :=
      Expr.bare_eq_of_yield_eq (hreads.yield_eq ht) (by rw [hu, hx.ungrouped])
    obtain ⟨-, -, -, -, hc, -⟩ := parseExpression_eq_ok_iff.1 ht
    rw [← Expr.canonical_bare, hbare, Expr.canonical_bare] at hc
    exact hx.not_canonical hc

/-- Without its parentheses `a - (b - c)` leans to the left. -/
theorem format_pairs_needed_difference :
    let name (n : String) : Expr Unit := .identifier () n
    let e : Expr Unit := .binary () .sub (name "a") (.binary () .sub (name "b") (name "c"))
    e.Readable ∧ e.format = .ok "a - (b - c)" ∧
      e.ownPairs = [⟨"a - ".toList, "b - c".toList, []⟩] ∧
      ∀ file t, parseExpression file "a - b - c" = .ok t → t.ungrouped.bare ≠ e := by
  intro name e
  have h : e.Readable := ⟨@Spelling.word 'a' [] (by decide) (List.forall_mem_nil _),
    @Spelling.word 'b' [] (by decide) (List.forall_mem_nil _),
    @Spelling.word 'c' [] (by decide) (List.forall_mem_nil _)⟩
  have hpairs : e.ownPairs = [⟨"a - ".toList, "b - c".toList, []⟩] := by decide
  obtain ⟨cs, -, -, -, hneeded⟩ := format_pairs_needed h
  obtain ⟨-, hne⟩ := hneeded _ (hpairs ▸ List.mem_singleton_self _)
  exact ⟨h, by decide, hpairs, hne⟩

end ScriptSyntax
