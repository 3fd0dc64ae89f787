/-
What the corpus generator always draws, whatever the choices are. Literals and names are spelled as
such and have no space in them; an expression is the text of a tree written freely, with fewer
terminals than levels may be open (`Draws.expression_always`). The tree is the one that is drawn and
need not be canonical, since operands of weaker operators are drawn without parentheses.
-/
import ScriptSyntax.Corpus.Twister
import ScriptSyntax.Proofs.Expr.Written

namespace ScriptSyntax.Corpus

open Text

/-! ## What is always drawn -/

/-- Whatever is drawn, the result has the property. -/
def Always {σ α : Type} (m : StateM σ α) (P : α → Prop) : Prop := ∀ s, P (m.run s).1

section Always

variable {σ α β : Type} {m : StateM σ α} {f : α → StateM σ β} {P : α → Prop} {Q : β → Prop}

theorem always_true (m : StateM σ α) : Always m fun _ => True := fun _ => trivial

theorem always_pure {a : α} (h : P a) : Always (pure a : StateM σ α) P := fun _ => h

theorem Always.bind (h : Always m P) (hf : ∀ a, P a → Always (f a) Q) : Always (m >>= f) Q :=
  fun s => hf _ (h s) _

theorem Always.mono {P' : α → Prop} (h : Always m P) (hp : ∀ a, P a → P' a) : Always m P' :=
  fun s => hp _ (h s)

theorem Always.repeated {g : StateM σ (List Char)} {P Q : List Char → Prop} (hg : Always g Q)
    (hnil : P []) (happend : ∀ cs ds, Q cs → P ds → P (cs ++ ds)) (n : Nat) :
    Always (repeated g n) P := by
  induction n with
  | zero => exact always_pure hnil
  | succ n ih =>
    exact hg.bind fun cs hcs => ih.bind fun ds hds => always_pure (happend cs ds hcs hds)

theorem Always.ite {c : StateM σ Bool} {t e : StateM σ α} (ht : Always t P) (he : Always e P) :
    Always (do if ← c then t else e) P := by
  refine (always_true c).bind fun b _ => ?_
  split
  · exact ht
  · exact he

end Always

/-! ## Leaves -/

/-- A word that is no keyword is a name. -/
theorem spelling_of_not_keyword {c : Char} {cs : List Char} (hc : isNameStart c = true)
    (hcs : ∀ d ∈ cs, isNamePart d = true) (ht : c :: cs ≠ ['t', 'r', 'u', 'e'])
    (hf : c :: cs ≠ ['f', 'a', 'l', 's', 'e']) : Spelling (c :: cs) (some .name) := by
  have hword := Spelling.word hc hcs
  rwa [if_neg ht, if_neg hf] at hword

theorem isNamePart_of_name {cs : List Char} (h : Spelling cs (some .name)) :
    ∀ c ∈ cs, isNamePart c = true := by
  generalize ho : some Meaning.name = o at h
  cases h with
  | word hc hcs => exact List.forall_mem_cons.2 ⟨isNamePart_of_isNameStart hc, hcs⟩
  | int => split at ho <;> cases ho
  | float => simp only at ho; split at ho <;> cases ho
  | string => cases ho
  | mark => cases ho

theorem space_notMem_of_name {cs : List Char} (h : Spelling cs (some .name)) : ' ' ∉ cs :=
  fun hmem => absurd (isBlank_of_isNamePart (isNamePart_of_name h _ hmem)) (by decide)

theorem space_notMem_toDigits (k : Nat) : ' ' ∉ Nat.toDigits 10 k :=
  fun hmem => absurd (isDigit_of_mem_toDigits hmem) (by decide)

/-- The digits behind the point add less than one. -/
theorem value_parts_lt {whole fraction : List Char} {n : Nat} (hw : decimalValue whole < n)
    (hf : ∀ c ∈ fraction, isDigit c = true) :
    (⟨decimalValue (whole ++ fraction), -fraction.length⟩ : Decimal).value < n := by
  have hdigits : decimalValue (whole ++ fraction) < n * 10 ^ fraction.length := by
    have hlt := decimalValue_lt hf
    have hmul := Nat.mul_le_mul_right (10 ^ fraction.length) hw
    rw [Nat.succ_mul] at hmul
    rw [decimalValue_append]
    omega
  rw [Decimal.value, zpow_neg, zpow_natCast, ← div_eq_mul_inv, div_lt_iff₀ (by positivity)]
  exact_mod_cast hdigits

/-- Two numbers with a point between them write a number that is not too large. -/
theorem spelling_point {whole k : Nat} (fraction : Nat) (h : whole < 2 ^ k) (hk : k ≤ 1023) :
    ∃ v, Spelling (Nat.toDigits 10 whole ++ '.' :: Nat.toDigits 10 fraction)
      (some (.literal v)) := by
  have hdigits : ∀ n, ∀ c ∈ Nat.toDigits 10 n, isDigit c = true := fun _ _ => isDigit_of_mem_toDigits
  have hvalue := value_parts_lt ((decimalValue_toDigits whole).symm ▸ h) (hdigits fraction)
  have hspell := Spelling.float Nat.toDigits_ne_nil (hdigits whole) (hdigits fraction)
  have hfinite := Binary64.isInfinite_ofDecimal (by exact_mod_cast hvalue) hk
  simp only [hfinite] at hspell
  exact ⟨_, hspell⟩

namespace Draws

variable {σ : Type} (d : Draws σ)

theorem oneOf_always {α : Type} (x : α) (xs : List α) : Always (d.oneOf x xs) (· ∈ x :: xs) :=
  (always_true _).bind fun _ _ => always_pure (List.get_mem _ _)

theorem char_always {cs : List Char} (h : cs ≠ []) : Always (d.char cs) (· ∈ cs) := by
  cases cs with
  | nil => exact absurd rfl h
  | cons c cs => exact d.oneOf_always c cs

theorem number_always (n : Nat) : Always (d.number n) fun cs => ∃ k ≤ n, cs = Nat.toDigits 10 k :=
  (always_true _).bind fun i _ => always_pure ⟨i, Nat.le_of_lt_succ i.isLt, rfl⟩

theorem name_always : Always d.name (Spelling · (some .name)) := by
  have hhead : ∀ c ∈ letters ++ ['_'], isNameStart c = true :=
    List.all_eq_true.1 (by decide +kernel)
  have htail : ∀ c ∈ nameChars, isNamePart c = true := List.all_eq_true.1 (by decide +kernel)
  have hchar : Always (do return [← d.char nameChars]) fun cs => ∀ c ∈ cs, isNamePart c = true :=
    (d.char_always (by decide)).bind fun c hc =>
      always_pure (List.forall_mem_singleton.2 (htail c hc))
  refine (d.char_always (by decide)).bind fun c hc => (always_true _).bind fun count _ => ?_
  have htext := hchar.repeated (P := fun cs => ∀ c ∈ cs, isNamePart c = true)
    (List.forall_mem_nil _) (fun _ _ hcs hds => List.forall_mem_append.2 ⟨hcs, hds⟩) count
  refine htext.bind fun cs hcs => always_pure ?_
  split
  · -- a keyword with an underscore behind it is none, since no keyword ends in one
    have hlast : (c :: (cs ++ ['_'])).getLast? = some '_' := by
      rw [← List.cons_append, List.getLast?_concat]
    rw [List.cons_append]
    have hparts : ∀ d ∈ cs ++ ['_'], isNamePart d = true :=
      List.forall_mem_append.2 ⟨hcs, List.forall_mem_singleton.2 (by decide)⟩
    refine spelling_of_not_keyword (hhead c hc) hparts ?_ ?_ <;>
    · intro h
      rw [h] at hlast
      cases hlast
  · rename_i hword
    exact spelling_of_not_keyword (hhead c hc) hcs (hword ∘ .inl) (hword ∘ .inr)

theorem stringPart_always :
    Always d.stringPart fun cs => ' ' ∉ cs ∧ ∃ value, StringBody cs value := by
  have hescape : ∀ cs ∈ stringEscapes, ' ' ∉ cs ∧ ∃ p ∈ escapes, cs = ['\\', p.1] := by decide
  have hchars : ' ' ∉ stringChars ∧ '"' ∉ stringChars ∧ '\\' ∉ stringChars ∧
      '\n' ∉ stringChars := by decide
  refine Always.ite ((d.oneOf_always _ _).mono fun cs hcs => ?_)
    ((d.char_always (by decide)).bind fun c hc => always_pure ?_)
  · obtain ⟨hspace, p, hp, rfl⟩ := hescape cs hcs
    exact ⟨hspace, _, .escape hp .nil⟩
  · obtain ⟨hspace, hquote, hslash, hnewline⟩ := hchars
    refine ⟨?_, _, .char (ne_of_mem_of_not_mem hc hquote) (ne_of_mem_of_not_mem hc hslash)
      (ne_of_mem_of_not_mem hc hnewline) .nil⟩
    exact mt List.mem_singleton.1 (ne_of_mem_of_not_mem hc hspace).symm

theorem stringParts_always (n : Nat) :
    Always (repeated d.stringPart n) fun cs => ' ' ∉ cs ∧ ∃ value, StringBody cs value := by
  refine d.stringPart_always.repeated ⟨List.not_mem_nil, _, .nil⟩ ?_ n
  rintro cs ds ⟨hcs, _, hv⟩ ⟨hds, _, hw⟩
  exact ⟨by simp [hcs, hds], _, hv.append hw⟩

theorem literal_always :
    Always d.literal fun cs => ' ' ∉ cs ∧ ∃ v, Spelling cs (some (.literal v)) := by
  refine (always_true _).bind fun k _ => ?_
  split
  · refine (d.number_always 10000).mono ?_
    rintro _ ⟨k, hk, rfl⟩
    have hmax : 10 ^ 5 ≤ 10 ^ maxIntDigits := Nat.pow_le_pow_right (by decide) (by decide)
    have hreadable : (Literal.int k).Readable := by
      refine ⟨Int.natCast_nonneg k, ?_⟩
      rw [Int.natAbs_natCast]
      omega
    have hchars : (Literal.int k).chars = Nat.toDigits 10 k := by
      rw [Literal.chars, Literal.intChars, if_neg (Int.not_lt.2 (Int.natCast_nonneg k))]
      rfl
    exact ⟨space_notMem_toDigits k, _, hchars ▸ hreadable.spelling⟩
  split
  · refine (d.number_always 999).bind ?_
    rintro _ ⟨whole, hwhole, rfl⟩
    refine (d.number_always 999).bind ?_
    rintro _ ⟨fraction, -, rfl⟩
    have hlt : whole < 2 ^ 10 := by omega
    exact always_pure ⟨by simp [space_notMem_toDigits], spelling_point fraction hlt (by decide)⟩
  split
  · refine (always_true _).bind fun count _ => (d.stringParts_always count).bind ?_
    rintro cs ⟨hspace, value, hbody⟩
    exact always_pure ⟨by simp [hspace], _, .string hbody⟩
  · refine (d.oneOf_always _ _).mono fun cs hcs => ?_
    have hbool : ∃ b, cs = (Literal.bool b).chars := by
      obtain rfl | rfl : cs = "true".toList ∨ cs = "false".toList := by simpa using hcs
      · exact ⟨true, rfl⟩
      · exact ⟨false, rfl⟩
    obtain ⟨b, rfl⟩ := hbool
    exact ⟨by cases b <;> decide, _, Literal.Readable.spelling trivial⟩

theorem leaf_always : Always d.leaf fun cs => ∃ e, Written cs e ∧ e.yield.length = 1 := by
  refine Always.ite (d.literal_always.mono ?_) (d.name_always.mono ?_)
  · rintro cs ⟨hspace, v, hs⟩
    exact ⟨_, .literal hs hspace, rfl⟩
  · intro cs hs
    exact ⟨_, .identifier hs, rfl⟩

/-! ## Expressions -/

/-- A drawn expression writes a tree, with no more terminals than a binary tree of the depth. -/
theorem expression_always (depth : Nat) :
    Always (d.expression depth) fun cs => ∃ e, Written cs e ∧ e.yield.length < 2 ^ (depth + 1) := by
  induction depth with
  | zero =>
    refine (always_true _).bind fun _ _ => d.leaf_always.mono ?_
    rintro cs ⟨e, hcs, hlen⟩
    exact ⟨e, hcs, by omega⟩
  | succ depth ih =>
    have hpos : 0 < 2 ^ depth := Nat.two_pow_pos depth
    have hsucc : 2 ^ (depth + 1 + 1) = 2 * (2 * 2 ^ depth) := by ring
    rw [hsucc]
    rw [pow_succ'] at ih
    have hspace : ∀ c ∈ [' '], isBlank c = true := List.forall_mem_singleton.2 isBlank_space
    refine (always_true _).bind fun k _ => ?_
    split
    · refine d.leaf_always.mono ?_
      rintro cs ⟨e, hcs, hlen⟩
      exact ⟨e, hcs, by omega⟩
    split
    · refine (always_true _).bind fun op _ => (always_true _).bind fun glued _ => ih.bind ?_
      rintro cs ⟨e, hcs, hlen⟩
      have hgap : ∀ c ∈ if glued then [] else [' '], isBlank c = true := by
        cases glued
        · exact hspace
        · exact List.forall_mem_nil _
      refine always_pure ⟨.unary () op e, ?_, ?_⟩
      · rw [List.append_assoc]
        exact .unary hgap hcs
      · simp only [Expr.yield, List.length_cons]
        omega
    split
    · refine ih.bind ?_
      rintro cs ⟨e, hcs, hlen⟩
      refine always_pure ⟨.grouping () e, .grouping hcs, ?_⟩
      simp only [Expr.yield, List.length_cons, List.length_append, List.length_nil]
      omega
    · refine (always_true _).bind fun op _ => ih.bind ?_
      rintro cs ⟨l, hcs, hl⟩
      refine ih.bind ?_
      rintro ds ⟨r, hds, hr⟩
      refine always_pure ⟨.binary () op l r, ?_, ?_⟩
      · rw [List.append_assoc, List.cons_append]
        exact @Written.binary [' '] [' '] _ _ op _ _ (List.cons_ne_nil _ _) (List.cons_ne_nil _ _)
          hspace hspace hcs hds
      · simp only [Expr.yield, List.length_cons, List.length_append]
        omega

end Draws

end ScriptSyntax.Corpus
