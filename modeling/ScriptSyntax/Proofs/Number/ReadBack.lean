/-
Numbers read back from their texts. The digits of a natural number write that number. Writing a
decimal with a point and no exponent keeps its value, with a digit on both sides of the point
(`Decimal.exists_positional_eq`), and the shortest decimal of a finite magnitude reads back as it
(`readsBack_shortest`): what a grid hits reads back because it was tried, and its normal form has
the same value. So the text of a number that has one is a lexeme of its own, and means the number
(`spelling_intChars`, `spelling_positional`).
-/
import ScriptSyntax.Expr.Printer
import ScriptSyntax.Proofs.Number.Rounding
import ScriptSyntax.Proofs.Token.Spelling

namespace ScriptSyntax

open Text

/-! ## Digits -/

theorem decimalValue_append (cs ds : List Char) :
    decimalValue (cs ++ ds) = decimalValue cs * 10 ^ ds.length + decimalValue ds := by
  induction cs with
  | nil => simp [decimalValue]
  | cons c cs ih =>
    rw [List.cons_append, decimalValue_cons, decimalValue_cons, ih, List.length_append]
    ring

theorem decimalValue_lt {ds : List Char} (h : ∀ d ∈ ds, isDigit d = true) :
    decimalValue ds < 10 ^ ds.length := by
  have hdigit : ∀ n ∈ ds.reverse.map digitValue, n < 10 := by
    intro n hn
    obtain ⟨d, hd, rfl⟩ := List.mem_map.1 hn
    have := toNat_le_of_isDigit (h d (List.mem_reverse.1 hd))
    unfold digitValue
    omega
  have := Nat.ofDigits_lt_base_pow_length (by decide) hdigit
  rwa [List.length_map, List.length_reverse] at this

theorem decimalValue_zeros (k : Nat) : decimalValue (Decimal.zeros k) = 0 := by
  induction k with
  | zero => rfl
  | succ k ih =>
    rw [Decimal.zeros, List.replicate_succ, decimalValue_cons, ← Decimal.zeros, ih]
    simp [digitValue]

theorem decimalValue_toDigits (n : Nat) : decimalValue (Nat.toDigits 10 n) = n := by
  have h : natOfDigits (Nat.toDigits 10 n) = Nat.ofDigitChars 10 (Nat.toDigits 10 n) 0 := by
    unfold natOfDigits Nat.ofDigitChars
    congr 1
    funext sofar c
    rw [Nat.mul_comm, digitValue]
    rfl
  rw [← natOfDigits_eq, h, Nat.ofDigitChars_ten_toDigits]

theorem isDigit_of_mem_toDigits {n : Nat} {c : Char} (h : c ∈ Nat.toDigits 10 n) :
    isDigit c = true := by
  have := Nat.isDigit_of_mem_toDigits (by decide) (by decide) h
  simpa [Char.isDigit, isDigit, Char.le_def] using this

theorem isDigit_of_mem_zeros {k : Nat} {c : Char} (h : c ∈ Decimal.zeros k) : isDigit c = true := by
  rw [List.eq_of_mem_replicate h]
  decide

/-! ## Decimals -/

namespace Decimal

theorem value_eq_of_digits {n m : Nat} {e f : Int} (k : Nat) (hm : m = n * 10 ^ k) (he : e = f + k) :
    (⟨n, e⟩ : Decimal).value = (⟨m, f⟩ : Decimal).value := by
  subst hm he
  have h10 : (10 : ℚ) ≠ 0 := by norm_num
  simp only [value, zpow_add₀ h10, zpow_natCast, Nat.cast_mul, Nat.cast_pow, Nat.cast_ofNat]
  ring

theorem value_shorten (k : Nat) (d : Decimal) : (d.shorten k).value = d.value := by
  induction k generalizing d with
  | zero => rfl
  | succ k ih =>
    rw [shorten]
    split
    · rename_i h
      rw [ih]
      exact value_eq_of_digits 1 (by omega) rfl
    · rfl

theorem value_normal (d : Decimal) : d.normal.value = d.value := by
  unfold normal
  split
  · rename_i h
    simp [value, h]
  · exact value_shorten ..

/-- The text of a decimal has digits on both sides of its point, and they write the decimal. -/
theorem exists_positional_eq (d : Decimal) : ∃ whole fraction,
    d.positional = whole ++ '.' :: fraction ∧ whole ≠ [] ∧ fraction ≠ [] ∧
      (∀ c ∈ whole, isDigit c = true) ∧ (∀ c ∈ fraction, isDigit c = true) ∧
      (⟨decimalValue (whole ++ fraction), -fraction.length⟩ : Decimal).value = d.value := by
  obtain ⟨n, e⟩ := d
  by_cases he : 0 ≤ e
  -- a zero behind the point makes one digit more than the exponent has
  · obtain ⟨k, rfl⟩ := Int.eq_ofNat_of_zero_le he
    refine ⟨Nat.toDigits 10 n ++ zeros k, ['0'], ?_, ?_, by simp, ?_, by simp [isDigit], ?_⟩
    · rw [positional, if_pos he]
      simp
    · simp [Nat.toDigits_ne_nil]
    · intro c hc
      rcases List.mem_append.1 hc with hc | hc
      · exact isDigit_of_mem_toDigits hc
      · exact isDigit_of_mem_zeros hc
    · rw [decimalValue_append, decimalValue_append, decimalValue_toDigits, decimalValue_zeros]
      refine (value_eq_of_digits (k + 1) ?_ ?_).symm
      · simp [decimalValue, digitValue, zeros, pow_succ, Nat.mul_assoc]
      · simp
  · obtain ⟨k, rfl⟩ : ∃ k : Nat, e = -k := ⟨(-e).toNat, by omega⟩
    -- enough zeros in front leave a digit before the point
    let padded := zeros (k + 1 - (Nat.toDigits 10 n).length) ++ Nat.toDigits 10 n
    have hlen : k < padded.length := by
      simp only [padded, zeros, List.length_append, List.length_replicate]
      omega
    have hdigit : ∀ c ∈ padded, isDigit c = true := by
      intro c hc
      rcases List.mem_append.1 hc with hc | hc
      · exact isDigit_of_mem_zeros hc
      · exact isDigit_of_mem_toDigits hc
    have hfraction : (padded.drop (padded.length - k)).length = k := by
      rw [List.length_drop]
      omega
    refine ⟨padded.take (padded.length - k), padded.drop (padded.length - k), ?_, ?_, ?_,
      fun c hc => hdigit c (List.mem_of_mem_take hc), fun c hc => hdigit c (List.mem_of_mem_drop hc), ?_⟩
    · rw [positional, if_neg he]
      simp [padded]
    · rw [← List.length_pos_iff, List.length_take]
      omega
    · rw [← List.length_pos_iff, hfraction]
      omega
    · rw [List.take_append_drop, hfraction, decimalValue_append, decimalValue_zeros,
        decimalValue_toDigits, Nat.zero_mul, Nat.zero_add]

end Decimal

/-! ## Binary64 numbers -/

namespace Binary64

theorem readsBack_of_onGrid? {n : Nat} {e : Int} {d : Decimal} (h : onGrid? n e = some d) :
    readsBack n d = true := by
  unfold onGrid? at h
  simp only at h
  generalize (if 0 ≤ e then ((ratio n).1, (ratio n).2 * 10 ^ e.toNat)
    else ((ratio n).1 * 10 ^ (-e).toNat, (ratio n).2)) = ab at h
  split at h
  · rename_i hlow
    split at h <;> cases h
    · rename_i hhigh
      exact (Bool.and_eq_true_iff.1 hhigh).1
    · exact hlow
  · split at h <;> cases h
    assumption

theorem readsBack_of_firstOnGrids? {n : Nat} {leading : Int} {tries count : Nat} {d : Decimal}
    (h : firstOnGrids? n leading tries count = some d) : readsBack n d = true := by
  induction tries generalizing count with
  | zero => cases h
  | succ tries ih =>
    rw [firstOnGrids?] at h
    split at h
    · rename_i hgrid
      cases h
      exact readsBack_of_onGrid? hgrid
    · exact ih h

/-- The shortest decimal of a finite magnitude reads back. -/
theorem readsBack_shortest {n : Nat} (h : n < infinityMagnitude) : readsBack n (shortest n) = true := by
  unfold shortest
  split
  · rename_i h0
    subst h0
    decide
  split
  -- a hit was tried, but in another form than the one that is given
  · rename_i hgrid
    have hread := readsBack_of_firstOnGrids? hgrid
    rwa [readsBack, ofDecimal_eq_of_value_eq (Decimal.value_normal _)]
  · exact readsBack_exactDecimal h

/-- What is read is a number or infinity. -/
theorem isFinite_ofDecimal {d : Decimal} (h : ¬ (ofDecimal d).isInfinite = true) :
    (ofDecimal d).isFinite = true := by
  have hle : (ofDecimal d).magnitude ≤ infinityMagnitude := Nat.min_le_right ..
  simp only [isInfinite, isFinite, decide_eq_true_eq] at h ⊢
  omega

theorem eq_of_magnitude_eq {x y : Binary64} (hn : x.negative = y.negative)
    (hm : x.magnitude = y.magnitude) : x = y := by
  cases x
  cases y
  cases hn
  cases hm
  rfl

theorem ofDecimal_shortest {x : Binary64} (hx : x.isFinite = true) (hn : x.negative = false) :
    ofDecimal (shortest x.magnitude) = x := by
  refine eq_of_magnitude_eq hn.symm ?_
  simpa [readsBack] using readsBack_shortest (of_decide_eq_true hx)

end Binary64

/-! ## The texts of literals -/

/-- The text of an integer that has one is a lexeme, and means it. -/
theorem spelling_intChars {n : Int} (h0 : 0 ≤ n) (h : n.natAbs < 10 ^ maxIntDigits) :
    Spelling (Literal.intChars n) (some (.literal (.int n))) := by
  have hlen : (Nat.toDigits 10 n.natAbs).length ≤ maxIntDigits :=
    (Nat.length_toDigits_le_iff (by decide) (by decide)).2 h
  have hchars : Literal.intChars n = Nat.toDigits 10 n.natAbs := by
    rw [Literal.intChars, if_neg (by omega)]
    rfl
  have hspell := Spelling.int Nat.toDigits_ne_nil fun d hd => isDigit_of_mem_toDigits (n := n.natAbs) hd
  rwa [← maxIntDigits, if_pos hlen, decimalValue_toDigits, Int.natAbs_of_nonneg h0, ← hchars] at hspell

/-- The text of a finite number without a sign is a lexeme, and means it. -/
theorem spelling_positional {x : Binary64} (hx : x.isFinite = true) (hn : x.negative = false) :
    Spelling x.positional (some (.literal (.float x))) := by
  obtain ⟨whole, fraction, htext, hw, -, hdw, hdf, hval⟩ :=
    Decimal.exists_positional_eq (Binary64.shortest x.magnitude)
  have hread : Binary64.ofDecimal ⟨decimalValue (whole ++ fraction), -fraction.length⟩ = x := by
    rw [Binary64.ofDecimal_eq_of_value_eq hval, Binary64.ofDecimal_shortest hx hn]
  have hfin : ¬ x.isInfinite = true := by
    simp only [Binary64.isFinite, Binary64.isInfinite, decide_eq_true_eq] at hx ⊢
    omega
  have hspell := @Spelling.float whole fraction hw hdw hdf
  simp only [hread, if_neg hfin] at hspell
  rwa [Binary64.positional, Binary64.sign, if_neg (by simp [hn]), List.nil_append, htext]

end ScriptSyntax
