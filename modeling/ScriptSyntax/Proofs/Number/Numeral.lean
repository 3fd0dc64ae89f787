/-
Numbers by their texts. A numeral is digits, perhaps with a point among them, and perhaps a power of
ten behind an `e`; it writes a decimal (`Decimal.ofNumeral`). The two texts of a decimal, with and
without an exponent, write the number that it is (`value_ofNumeral_positional`,
`value_ofNumeral_compact`), and so the source text of a float writes the number of its compact text,
digit by digit, and reads back as one token for it (`format_float`). In front of other text, an integer
or a float goes as far as the characters of numbers do (`int_append_inj`, `compact_append_inj`).
-/
import ScriptSyntax.Proofs.Number.ReadBack
import ScriptSyntax.Proofs.Source.Snippet

namespace ScriptSyntax

open Text

/-! ## Numerals -/

/-- The characters that numbers are written with. -/
def isNumeralChar (c : Char) : Bool := isDigit c || ['-', '+', '.', 'e'].contains c

theorem isNumeralChar_of_isDigit {c : Char} (h : isDigit c = true) : isNumeralChar c = true := by
  simp [isNumeralChar, h]

/-- What stands before the first `c` of a text and what stands behind it. -/
def around (c : Char) (cs : List Char) : List Char × List Char :=
  (cs.takeWhile (· != c), (cs.dropWhile (· != c)).drop 1)

theorem around_append {c : Char} {before : List Char} (h : c ∉ before) (after : List Char) :
    around c (before ++ c :: after) = (before, after) := by
  have hbefore : ∀ d ∈ before, (d != c) = true := by
    intro d hd
    rw [bne_iff_ne]
    rintro rfl
    exact h hd
  have hends : EndsRun (· != c) (c :: after) := endsRun_cons.2 (by simp)
  unfold around
  rw [takeWhile_append_of_endsRun hbefore hends, dropWhile_append_of_endsRun hbefore hends]
  rfl

theorem around_of_notMem {c : Char} {cs : List Char} (h : c ∉ cs) : around c cs = (cs, []) := by
  have hcs : ∀ d ∈ cs, (d != c) = true := by
    intro d hd
    rw [bne_iff_ne]
    rintro rfl
    exact h hd
  unfold around
  rw [List.takeWhile_eq_self_iff.2 hcs, List.dropWhile_eq_nil_iff.2 hcs]
  rfl

/-- The power of ten that the text behind an `e` writes. -/
def powerOfText : List Char → Int
  | '-' :: ds => -decimalValue ds
  | '+' :: ds => decimalValue ds
  | ds => decimalValue ds

/-- The decimal that a numeral writes: the digits on both sides of its point, in units of the last of
them. -/
def Decimal.ofNumeral (cs : List Char) : Decimal :=
  let (mantissa, power) := around 'e' cs
  let (whole, fraction) := around '.' mantissa
  ⟨decimalValue (whole ++ fraction), powerOfText power - fraction.length⟩

namespace Decimal

section Parts

variable {whole fraction : List Char}

theorem notMem_digits {c : Char} (hc : isDigit c = false) (hw : ∀ d ∈ whole, isDigit d = true) :
    c ∉ whole := by
  intro h
  rw [hw c h] at hc
  cases hc

theorem ofNumeral_point (hw : ∀ c ∈ whole, isDigit c = true) (hf : ∀ c ∈ fraction, isDigit c = true) :
    ofNumeral (whole ++ '.' :: fraction) = ⟨decimalValue (whole ++ fraction), -fraction.length⟩ := by
  have he : 'e' ∉ whole ++ '.' :: fraction := by
    simp [notMem_digits (c := 'e') rfl hw, notMem_digits (c := 'e') rfl hf]
  unfold ofNumeral
  rw [around_of_notMem he]
  simp only [around_append (notMem_digits (c := '.') rfl hw)]
  simp [powerOfText, decimalValue]

theorem ofNumeral_power {mantissa : List Char} (he : 'e' ∉ mantissa) (power : List Char)
    (h : around '.' mantissa = (whole, fraction)) : ofNumeral (mantissa ++ 'e' :: power) =
      ⟨decimalValue (whole ++ fraction), powerOfText power - fraction.length⟩ := by
  unfold ofNumeral
  rw [around_append he]
  simp only [h]

end Parts

/-! ## The texts of a decimal -/

theorem value_ofNumeral_positional (d : Decimal) : (ofNumeral d.positional).value = d.value := by
  obtain ⟨whole, fraction, htext, -, -, hw, hf, hval⟩ := exists_positional_eq d
  rw [htext, ofNumeral_point hw hf, hval]

/-- The digits of a decimal, cut behind the first. -/
theorem exists_toDigits_eq (n : Nat) : ∃ c cs, Nat.toDigits 10 n = c :: cs ∧ isDigit c = true ∧
    ∀ d ∈ cs, isDigit d = true := by
  obtain ⟨c, cs, hcs⟩ := List.exists_cons_of_ne_nil (Nat.toDigits_ne_nil (b := 10) (n := n))
  have hdigit : ∀ d ∈ c :: cs, isDigit d = true := fun d hd => isDigit_of_mem_toDigits (hcs ▸ hd)
  exact ⟨c, cs, hcs, hdigit c (List.mem_cons_self ..), fun d hd => hdigit d (List.mem_cons_of_mem _ hd)⟩

theorem powerOfText_signed (power : Int) :
    let shown := Nat.toDigits 10 power.natAbs
    powerOfText ((if power < 0 then '-' else '+') :: (zeros (2 - shown.length) ++ shown)) = power := by
  intro shown
  have hvalue : decimalValue (zeros (2 - shown.length) ++ shown) = power.natAbs := by
    rw [decimalValue_append, decimalValue_zeros, decimalValue_toDigits, Nat.zero_mul, Nat.zero_add]
  split
  · rw [powerOfText, hvalue]
    omega
  · rw [powerOfText, hvalue]
    omega

/-- The text with an exponent: the first digit, the others behind a point, and the power of the
first. -/
theorem exists_scientific_eq (d : Decimal) : ∃ c cs point power, Nat.toDigits 10 d.digits = c :: cs ∧
    d.scientific = c :: point ++ 'e' :: power ∧ (point = '.' :: cs ∨ point = [] ∧ cs = []) ∧
    powerOfText power = d.exponent + cs.length ∧
    (∀ d ∈ power, isDigit d = true ∨ d = '-' ∨ d = '+') := by
  obtain ⟨n, e⟩ := d
  obtain ⟨c, cs, hcs, -, -⟩ := exists_toDigits_eq n
  have hsigned := powerOfText_signed (e + (c :: cs).length - 1)
  refine ⟨c, cs, if cs = [] then [] else '.' :: cs, _, hcs, ?_, ?_, hsigned.trans ?_, ?_⟩
  · unfold scientific
    simp [hcs]
  · split
    · rename_i h
      exact .inr ⟨rfl, h⟩
    · exact .inl rfl
  · rw [List.length_cons]
    simp only
    omega
  · intro d hd
    rw [List.mem_cons, List.mem_append] at hd
    rcases hd with rfl | hd | hd
    · right
      split
      · exact .inl rfl
      · exact .inr rfl
    · exact .inl (isDigit_of_mem_zeros hd)
    · exact .inl (isDigit_of_mem_toDigits hd)

/-- The text with an exponent writes the decimal in its own units. -/
theorem ofNumeral_scientific (d : Decimal) : ofNumeral d.scientific = d := by
  obtain ⟨c, cs, point, power, hdigits, htext, hpoint, hpower, -⟩ := exists_scientific_eq d
  have hdigit : ∀ x ∈ c :: cs, isDigit x = true := fun x hx => isDigit_of_mem_toDigits (hdigits ▸ hx)
  have hfirst : ∀ x ∈ [c], isDigit x = true := fun x hx =>
    hdigit x (List.mem_singleton.1 hx ▸ List.mem_cons_self ..)
  have hmantissa : 'e' ∉ c :: point ∧ around '.' (c :: point) = ([c], cs) := by
    rcases hpoint with rfl | ⟨rfl, rfl⟩
    · refine ⟨?_, around_append (notMem_digits rfl hfirst) cs⟩
      have he := notMem_digits (c := 'e') rfl hdigit
      simp only [List.mem_cons] at he ⊢
      rintro (h | h | h)
      · exact he (.inl h)
      · cases h
      · exact he (.inr h)
    · exact ⟨notMem_digits rfl hfirst, around_of_notMem (notMem_digits rfl hfirst)⟩
  have hvalue : decimalValue (c :: cs) = d.digits := by rw [← hdigits, decimalValue_toDigits]
  rw [htext, ofNumeral_power hmantissa.1 power hmantissa.2, hpower]
  rw [List.singleton_append, hvalue, Int.add_sub_cancel]

/-- The compact text of a decimal writes its number. -/
theorem value_ofNumeral_compact (d : Decimal) : (ofNumeral d.compact).value = d.value := by
  unfold compact
  simp only
  split
  · exact value_ofNumeral_positional d
  · rw [ofNumeral_scientific]

/-- What the compact text is made of: a digit first, then characters of numbers, among them a point or
the letter before a power. -/
theorem compact_spec (d : Decimal) : (∃ c cs, d.compact = c :: cs ∧ isDigit c = true) ∧
    (∀ c ∈ d.compact, isNumeralChar c = true) ∧ ('.' ∈ d.compact ∨ 'e' ∈ d.compact) := by
  have hall {cs : List Char} (h : ∀ c ∈ cs, isDigit c = true) : ∀ c ∈ cs, isNumeralChar c = true :=
    fun c hc => isNumeralChar_of_isDigit (h c hc)
  unfold compact
  simp only
  split
  · obtain ⟨whole, fraction, htext, hne, -, hw, hf, -⟩ := exists_positional_eq d
    obtain ⟨c, whole, rfl⟩ := List.exists_cons_of_ne_nil hne
    refine ⟨⟨c, _, htext, hw c (List.mem_cons_self ..)⟩, ?_, .inl (by simp [htext])⟩
    rw [htext, List.forall_mem_append]
    exact ⟨hall hw, List.forall_mem_cons.2 ⟨by decide, hall hf⟩⟩
  · obtain ⟨c, cs, point, power, hdigits, htext, hpoint, -, hpower⟩ := exists_scientific_eq d
    have hdigit : ∀ x ∈ c :: cs, isDigit x = true := fun x hx => isDigit_of_mem_toDigits (hdigits ▸ hx)
    obtain ⟨hc, hcs⟩ := List.forall_mem_cons.1 (hall hdigit)
    refine ⟨⟨c, _, htext, hdigit c (List.mem_cons_self ..)⟩, ?_, .inr (by simp [htext])⟩
    rw [htext, List.forall_mem_append]
    refine ⟨List.forall_mem_cons.2 ⟨hc, ?_⟩, List.forall_mem_cons.2 ⟨by decide, ?_⟩⟩
    · rcases hpoint with rfl | ⟨rfl, -⟩
      · exact List.forall_mem_cons.2 ⟨by decide, hcs⟩
      · nofun
    · intro x hx
      rcases hpower x hx with hx | rfl | rfl
      · exact isNumeralChar_of_isDigit hx
      · decide
      · decide

end Decimal

/-! ## Integers -/

theorem toList_toString_int (n : Int) : (toString n).toList = Literal.intChars n := by
  cases n with
  | ofNat m => exact Nat.toList_repr
  | negSucc m =>
    show ("-" ++ Nat.repr (m + 1)).toList = _
    rw [String.toList_append, Nat.toList_repr, Literal.intChars, if_pos (Int.negSucc_lt_zero m)]
    rfl

theorem Literal.mem_intChars {n : Int} {c : Char} (h : c ∈ intChars n) : isDigit c = true ∨ c = '-' := by
  unfold intChars at h
  rw [List.mem_append] at h
  rcases h with h | h
  · right
    split at h
    · exact List.mem_singleton.1 h
    · cases h
  · exact .inl (isDigit_of_mem_toDigits h)

theorem minus_notMem_toDigits (n : Nat) : '-' ∉ Nat.toDigits 10 n := fun h => by
  cases isDigit_of_mem_toDigits h

theorem toDigits_injective {n m : Nat} (h : Nat.toDigits 10 n = Nat.toDigits 10 m) : n = m := by
  rw [← decimalValue_toDigits n, h, decimalValue_toDigits]

theorem Literal.intChars_injective {n m : Int} (h : intChars n = intChars m) : n = m := by
  -- a minus sign is no digit, so the signs are the same
  have hsign : n < 0 ↔ m < 0 := by
    have hmem : ∀ k, '-' ∈ intChars k ↔ k < 0 := by
      intro k
      unfold intChars
      split
      · simp [*]
      · simp [*, minus_notMem_toDigits]
    rw [← hmem n, h, hmem]
  have hdigits : n.natAbs = m.natAbs := by
    unfold intChars at h
    simp only [hsign] at h
    exact toDigits_injective (List.append_cancel_left h)
  omega

theorem isNumeralChar_of_mem_int {n : Int} {c : Char} (h : c ∈ (toString n).toList) :
    isNumeralChar c = true := by
  rw [toList_toString_int] at h
  rcases Literal.mem_intChars h with hd | rfl
  · exact isNumeralChar_of_isDigit hd
  · decide

theorem isPrintable_of_mem_int {n : Int} {c : Char} (h : c ∈ (toString n).toList) :
    isPrintable c = true := by
  rw [toList_toString_int] at h
  rcases Literal.mem_intChars h with hd | rfl
  · obtain ⟨hl, hr⟩ := toNat_le_of_isDigit hd
    have hlo : 32 ≤ c.toNat := by omega
    have hhi : c.toNat ≤ 126 := by omega
    have hn : printableRanges = (0x20, 0x7E) :: printableRanges.tail := rfl
    rw [isPrintable, hn, Ranges.has]
    simp [hlo, hhi]
  · decide

theorem head?_int (n : Int) : ∃ c, (toString n).toList.head? = some c ∧ isNumeralChar c = true := by
  have hne : (toString n).toList ≠ [] := by
    rw [toList_toString_int, Literal.intChars]
    simp
  exact ⟨_, List.head?_eq_some_head hne, isNumeralChar_of_mem_int (List.head_mem hne)⟩

/-- An integer is read as far as characters of numbers go. -/
theorem int_append_inj {n m : Int} {rest rest' : List Char}
    (h : (toString n).toList ++ rest = (toString m).toList ++ rest')
    (hr : EndsRun isNumeralChar rest) (hr' : EndsRun isNumeralChar rest') : n = m ∧ rest = rest' := by
  obtain ⟨hint, hrest⟩ := run_unique h (fun _ => isNumeralChar_of_mem_int) hr
    (fun _ => isNumeralChar_of_mem_int) hr'
  rw [toList_toString_int, toList_toString_int] at hint
  exact ⟨Literal.intChars_injective hint, hrest⟩

/-! ## Floats -/

namespace Binary64

theorem compact_of_isFinite {x : Binary64} (hx : x.isFinite = true) :
    x.compact = x.sign ++ (shortest x.magnitude).compact := by
  rw [compact, if_pos hx]

/-- A float that is not negative is read back from its compact text. -/
theorem ofDecimal_ofNumeral_compact {x : Binary64} (hx : x.isFinite = true) (hn : x.negative = false) :
    ofDecimal (.ofNumeral x.compact) = x := by
  rw [compact_of_isFinite hx, sign, if_neg (by simp [hn]), List.nil_append,
    ofDecimal_eq_of_value_eq (Decimal.value_ofNumeral_compact _), ofDecimal_shortest hx hn]

theorem head?_compact {x : Binary64} (hx : x.isFinite = true) :
    ∃ c, x.compact.head? = some c ∧ (isDigit c = true ↔ x.negative = false) ∧
      isNumeralChar c = true := by
  obtain ⟨⟨c, cs, htext, hc⟩, -, -⟩ := Decimal.compact_spec (shortest x.magnitude)
  rw [compact_of_isFinite hx, htext, sign]
  cases x.negative with
  | true => exact ⟨'-', rfl, by decide, by decide⟩
  | false => exact ⟨c, rfl, iff_of_true hc rfl, isNumeralChar_of_isDigit hc⟩

theorem isNumeralChar_of_mem_compact {x : Binary64} (hx : x.isFinite = true) {c : Char}
    (h : c ∈ x.compact) : isNumeralChar c = true := by
  rw [compact_of_isFinite hx, sign, List.mem_append] at h
  rcases h with h | h
  · split at h
    · rw [List.mem_singleton.1 h]
      decide
    · cases h
  · exact (Decimal.compact_spec _).2.1 c h

/-- No integer is written like a float. -/
theorem compact_ne_int {x : Binary64} (hx : x.isFinite = true) (n : Int) :
    x.compact ≠ (toString n).toList := by
  intro h
  have hint : ∀ c ∈ ['.', 'e'], c ∉ x.compact := by
    intro c hc hmem
    rw [h, toList_toString_int] at hmem
    rcases Literal.mem_intChars hmem with hd | rfl
    · have hmarks : ['.', 'e'].all (fun c => !isDigit c) = true := by decide
      simpa [hd] using List.all_eq_true.1 hmarks c hc
    · revert hc
      decide
  rw [compact_of_isFinite hx] at hint
  rcases (Decimal.compact_spec (shortest x.magnitude)).2.2 with hp | he
  · exact hint '.' (by decide) (List.mem_append_right _ hp)
  · exact hint 'e' (by decide) (List.mem_append_right _ he)

theorem compact_injective {x y : Binary64} (hx : x.isFinite = true) (hy : y.isFinite = true)
    (h : x.compact = y.compact) : x = y := by
  obtain ⟨c, hc, hsign, -⟩ := head?_compact hx
  obtain ⟨d, hd, hsign', -⟩ := head?_compact hy
  rw [h, hd] at hc
  cases hc
  have hn : x.negative = y.negative := by
    cases hxn : x.negative <;> cases hyn : y.negative <;> simp_all
  rw [compact_of_isFinite hx, compact_of_isFinite hy, sign, sign, hn] at h
  -- the same digits are the same number, and of one number the nearest float is one
  have hvalue : (shortest x.magnitude).value = (shortest y.magnitude).value := by
    rw [← Decimal.value_ofNumeral_compact, List.append_cancel_left h, Decimal.value_ofNumeral_compact]
  have habs : x.abs = y.abs := by
    rw [← @ofDecimal_shortest x.abs hx rfl, ← @ofDecimal_shortest y.abs hy rfl]
    exact ofDecimal_eq_of_value_eq hvalue
  exact eq_of_magnitude_eq hn (congrArg (·.magnitude) habs)

theorem compact_append_inj {x y : Binary64} (hx : x.isFinite = true) (hy : y.isFinite = true)
    {rest rest' : List Char} (h : x.compact ++ rest = y.compact ++ rest')
    (hr : EndsRun isNumeralChar rest) (hr' : EndsRun isNumeralChar rest') : x = y ∧ rest = rest' := by
  obtain ⟨hfloat, hrest⟩ := run_unique h (fun _ => isNumeralChar_of_mem_compact hx) hr
    (fun _ => isNumeralChar_of_mem_compact hy) hr'
  exact ⟨compact_injective hx hy hfloat, hrest⟩

theorem positional_of_negative {x : Binary64} (hn : x.negative = true) :
    x.positional = '-' :: x.abs.positional := by
  unfold positional sign
  rw [if_pos hn]
  rfl

end Binary64

/-! ## One lexeme as a source -/

theorem Position.advanceBy_of_notMem {cs : List Char} (h : '\n' ∉ cs) (p : Position) :
    p.advanceBy cs = ⟨p.row, p.col + cs.length, p.offset + cs.length, p.file⟩ := by
  have hrow := p.row_advanceBy h
  have hcol := p.col_advanceBy h
  have hoffset := p.offset_advanceBy cs
  have hfile := p.file_advanceBy cs
  generalize p.advanceBy cs = q at hrow hcol hoffset hfile
  cases q
  simp_all

/-- A lexeme that is no mark is a source of one token. -/
theorem tokenize_spelling {text : String} {m : Meaning} (hs : Spelling text.toList (some m))
    (hm : ∀ mark, m ≠ .mark mark) (file : Symbol) :
    let n : Int := text.length
    tokenize file text = .ok ⟨[⟨m, text, ⟨⟨1, 1, 0, file⟩, ⟨1, n, n - 1, file⟩⟩⟩],
      .eof ⟨1, n + 1, n, file⟩, rfl⟩ := by
  intro n
  have hcut : Cuts text.toList [⟨[], m, text.toList⟩] [] := by
    have h := Cuts.piece .nil (.of_stops hs hm (endsRun_nil _) nofun) (.last .nil)
    rwa [List.nil_append, List.append_nil] at h
  have hline : '\n' ∉ text.toList.dropLast := fun h =>
    hs.newline_notMem (List.IsPrefix.mem h (List.dropLast_prefix _))
  have hstop : (Position.startOf file).advanceBy text.toList.dropLast = ⟨1, n, n - 1, file⟩ := by
    have hpos := List.length_pos_iff.2 hs.ne_nil
    rw [String.length_toList] at hpos
    rw [Position.advanceBy_of_notMem hline, List.length_dropLast, String.length_toList]
    simp only [Position.startOf, Position.mk.injEq, true_and, and_true]
    omega
  have hend : (Position.startOf file).advanceBy text.toList = ⟨1, n + 1, n, file⟩ := by
    rw [Position.advanceBy_of_notMem hs.newline_notMem, String.length_toList]
    simp only [Position.startOf, Position.mk.injEq, true_and, and_true]
    omega
  rw [hcut.tokenize_eq file]
  simp only [placed, String.ofList_toList, Position.advanceBy_nil, Span.ofText, hstop, hend]
  rfl

/-! ## The text of a float -/

theorem format_literal_float {α : Type} (a : α) {x : Binary64} (hx : x.isFinite = true) :
    (Expr.literal a (.float x)).format = .ok (String.ofList x.positional) ∧
      (Expr.literal a (.float x)).dump = .ok (String.ofList x.positional) := by
  have hcheck : (Expr.literal a (.float x)).check = .ok () := by
    rw [Expr.check, Literal.check, if_pos hx]
  constructor
  · rw [Expr.format, hcheck, Expr.sourceText_eq]
    rfl
  · rw [Expr.dump, hcheck, Expr.dumpText_eq]
    rfl

/-- The text of a finite float that is not negative has digits on both sides of its point and nothing
else. It writes the number that the compact text writes, which is read back as the float, and as a
source it is one token for the float. The text of a negative float has a minus sign before that of
its absolute value. -/
theorem format_float {α : Type} (a : α) {x : Binary64} (hx : x.isFinite = true) :
    ∃ text, (Expr.literal a (.float x)).format = .ok text ∧ (Expr.literal a (.float x)).dump = .ok text ∧
      (x.negative = false →
        (∃ whole fraction, text.toList = whole ++ '.' :: fraction ∧ whole ≠ [] ∧ fraction ≠ [] ∧
          ∀ c ∈ whole ++ fraction, isDigit c = true) ∧
        (Decimal.ofNumeral text.toList).value = (Decimal.ofNumeral x.compact).value ∧
        Binary64.ofDecimal (Decimal.ofNumeral x.compact) = x ∧
        let n : Int := text.length
        ∀ file, tokenize file text = .ok ⟨[⟨.literal (.float x), text,
          ⟨⟨1, 1, 0, file⟩, ⟨1, n, n - 1, file⟩⟩⟩], .eof ⟨1, n + 1, n, file⟩, rfl⟩) ∧
      (x.negative = true → ∃ rest, (Expr.literal a (.float x.abs)).format = .ok rest ∧
        text = "-" ++ rest) := by
  obtain ⟨hformat, hdump⟩ := format_literal_float a hx
  refine ⟨_, hformat, hdump, fun hn => ?_, fun hn => ?_⟩
  · obtain ⟨whole, fraction, htext, hw, hf, hdw, hdf, hval⟩ :=
      Decimal.exists_positional_eq (Binary64.shortest x.magnitude)
    have hplain : x.positional = whole ++ '.' :: fraction := by
      rw [← htext, Binary64.positional, Binary64.sign, if_neg (by simp [hn]), List.nil_append]
    have hcompact : x.compact = (Binary64.shortest x.magnitude).compact := by
      rw [Binary64.compact_of_isFinite hx, Binary64.sign, if_neg (by simp [hn]), List.nil_append]
    rw [String.toList_ofList]
    refine ⟨⟨whole, fraction, hplain, hw, hf, ?_⟩, ?_, ?_, ?_⟩
    · intro c hc
      rcases List.mem_append.1 hc with hc | hc
      · exact hdw c hc
      · exact hdf c hc
    · rw [hplain, Decimal.ofNumeral_point hdw hdf, hval, hcompact, Decimal.value_ofNumeral_compact]
    · exact Binary64.ofDecimal_ofNumeral_compact hx hn
    · have hs := spelling_positional hx hn
      rw [← String.toList_ofList (l := x.positional)] at hs
      exact tokenize_spelling hs (by simp)
  · obtain ⟨habs, -⟩ := format_literal_float a (x := x.abs) hx
    refine ⟨_, habs, ?_⟩
    rw [Binary64.positional_of_negative hn, ← String.toList_inj]
    simp

/-- The compact text has an exponent here, and the source text has none. -/
theorem format_float_power :
    let x : Binary64 := ⟨false, 0x3EE4F8B588E368F1, by decide⟩
    x.isFinite = true ∧ x.compact = "1e-05".toList ∧
      (Expr.literal () (.float x)).format = .ok "0.00001" ∧
      tokenize ⟨0⟩ "0.00001" = .ok ⟨[⟨.literal (.float x), "0.00001",
        ⟨⟨1, 1, 0, ⟨0⟩⟩, ⟨1, 7, 6, ⟨0⟩⟩⟩⟩], .eof ⟨1, 8, 7, ⟨0⟩⟩, rfl⟩ := by
  intro x
  have hx : x.isFinite = true := by decide
  have hcompact : x.compact = "1e-05".toList := by decide +kernel
  have hplain : x.positional = "0.00001".toList := by decide +kernel
  obtain ⟨text, hformat, -, hpos, -⟩ := format_float () hx
  have htext : text = "0.00001" := by
    rw [(format_literal_float () hx).1, hplain, String.ofList_toList] at hformat
    exact (Except.ok.inj hformat).symm
  subst htext
  exact ⟨hx, hcompact, hformat, (hpos rfl).2.2.2 ⟨0⟩⟩

end ScriptSyntax
