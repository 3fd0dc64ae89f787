/-
The lexemes of scripts, written without a lexer: how each class of them is spelled and what a
spelling means (`Spelling`), and when a lexeme stands at the front of a text (`LexemeAt`): it is
spelled as one, nothing longer at that place is, no comment begins there, and no number runs into a
name. The first character of a spelling decides its class, since no two classes share one.
-/
import ScriptSyntax.Token.Lexer
import Mathlib.Data.List.TakeWhile
import Mathlib.Data.Nat.Digits.Defs

namespace ScriptSyntax

open Text

/-! ## Runs of characters -/

/-- The text is empty or begins with a character outside the class. -/
def EndsRun (p : Char → Bool) (cs : List Char) : Prop := ∀ c, cs.head? = some c → p c = false

theorem endsRun_nil (p : Char → Bool) : EndsRun p [] := nofun

theorem endsRun_cons {p : Char → Bool} {c : Char} {cs : List Char} :
    EndsRun p (c :: cs) ↔ p c = false :=
  ⟨fun h => h c rfl, fun h d hd => by cases hd; exact h⟩

theorem EndsRun.mono {p q : Char → Bool} {cs : List Char} (h : EndsRun q cs)
    (hpq : ∀ c, p c = true → q c = true) : EndsRun p cs := by
  intro c hc
  by_contra hp
  have := hpq c (by simpa using hp)
  rw [h c hc] at this
  cases this

/-- The text is empty or begins like the other one. -/
def BeginsLike (cs cs' : List Char) : Prop := ∀ c, cs.head? = some c → cs'.head? = some c

theorem BeginsLike.of_isPrefix {cs cs' : List Char} (h : cs <+: cs') : BeginsLike cs cs' := by
  intro c hc
  obtain ⟨tail, rfl⟩ := h
  rw [List.head?_append, hc]
  rfl

theorem BeginsLike.append_left {cs cs' : List Char} (h : BeginsLike cs cs') (l : List Char) :
    BeginsLike (l ++ cs) (l ++ cs') := by
  cases l with
  | nil => exact h
  | cons c l => exact fun _ hd => hd

theorem EndsRun.of_beginsLike {p : Char → Bool} {cs cs' : List Char} (h : EndsRun p cs)
    (hb : BeginsLike cs' cs) : EndsRun p cs' := fun c hc => h c (hb c hc)

theorem endsRun_dropWhile (p : Char → Bool) (cs : List Char) : EndsRun p (cs.dropWhile p) := by
  intro c hc
  have := List.head?_dropWhile_not p cs
  rwa [hc] at this

section Runs

variable {p : Char → Bool} {ds rest : List Char}

theorem takeWhile_append_of_endsRun (hd : ∀ d ∈ ds, p d = true) (hr : EndsRun p rest) :
    (ds ++ rest).takeWhile p = ds := by
  rw [List.takeWhile_append_of_pos hd]
  cases rest with
  | nil => simp
  | cons c cs => simp [endsRun_cons.1 hr]

theorem dropWhile_append_of_endsRun (hd : ∀ d ∈ ds, p d = true) (hr : EndsRun p rest) :
    (ds ++ rest).dropWhile p = rest := by
  rw [List.dropWhile_append_of_pos hd]
  cases rest with
  | nil => rfl
  | cons c cs => simp [endsRun_cons.1 hr]

/-- A text is a run and what ends it in one way only. -/
theorem run_unique {ds' rest' : List Char} (h : ds ++ rest = ds' ++ rest')
    (hd : ∀ d ∈ ds, p d = true) (hr : EndsRun p rest) (hd' : ∀ d ∈ ds', p d = true)
    (hr' : EndsRun p rest') : ds = ds' ∧ rest = rest' := by
  constructor
  · rw [← takeWhile_append_of_endsRun hd hr, h, takeWhile_append_of_endsRun hd' hr']
  · rw [← dropWhile_append_of_endsRun hd hr, h, dropWhile_append_of_endsRun hd' hr']

/-- No run at the front of a text is longer than one that ends there. -/
theorem length_le_of_endsRun {run : List Char} (hr : EndsRun p rest) (hrun : ∀ d ∈ run, p d = true)
    (h : run <+: ds ++ rest) : run.length ≤ ds.length := by
  obtain ⟨tail, ht⟩ := h
  rw [← Nat.not_lt]
  intro hlt
  have hget : (run ++ tail)[ds.length]? = (ds ++ rest)[ds.length]? := by rw [ht]
  rw [List.getElem?_append_left hlt, List.getElem?_append_right (Nat.le_refl _), Nat.sub_self,
    ← List.head?_eq_getElem?, List.getElem?_eq_getElem hlt] at hget
  have := hr _ hget.symm
  rw [hrun _ (List.getElem_mem hlt)] at this
  cases this

end Runs

/-! ## Classes of characters -/

theorem toNat_le_of_isDigit {c : Char} (h : isDigit c = true) : 48 ≤ c.toNat ∧ c.toNat ≤ 57 := by
  simp only [isDigit, Bool.and_eq_true, decide_eq_true_eq, Char.le_def,
    UInt32.le_iff_toNat_le] at h
  exact h

theorem isNamePart_of_isDigit {c : Char} (h : isDigit c = true) : isNamePart c = true := by
  obtain ⟨hl, hr⟩ := toNat_le_of_isDigit h
  have hn : numericRanges = (0x30, 0x39) :: numericRanges.tail := rfl
  rw [isNamePart, isNumeric, hn, Ranges.has]
  simp [hl, hr]

theorem isNamePart_of_isNameStart {c : Char} (h : isNameStart c = true) : isNamePart c = true := by
  simp only [isNameStart, Bool.or_eq_true] at h
  simp only [isNamePart, Bool.or_eq_true]
  exact .inl h

theorem isNameStart_of_isDigit {c : Char} (h : isDigit c = true) : isNameStart c = false := by
  obtain ⟨hl, hr⟩ := toNat_le_of_isDigit h
  have hn : letterRanges = (0x41, 0x5A) :: letterRanges.tail := rfl
  have hu : c ≠ '_' := by rintro rfl; revert hr; decide
  rw [isNameStart, isLetter, hn, Ranges.has]
  simp [hu]
  omega

theorem isDigit_of_isNameStart {c : Char} (h : isNameStart c = true) : isDigit c = false := by
  by_contra hd
  rw [isNameStart_of_isDigit (by simpa using hd)] at h
  cases h

theorem isBlank_of_isNamePart {c : Char} (h : isNamePart c = true) : isBlank c = false := by
  -- there are few blanks, and no range of letters or numbers holds one of them
  have hall : ∀ r ∈ blankRanges, ∀ n ∈ List.range' r.1 (r.2 + 1 - r.1),
      n ≠ 0x5F ∧ letterRanges.has n = false ∧ numericRanges.has n = false := by decide +kernel
  by_contra hb
  rw [Bool.not_eq_false, isBlank] at hb
  obtain ⟨r, hr, hlo, hhi⟩ := Ranges.exists_of_has hb
  obtain ⟨hu, hl, hn⟩ := hall r hr c.toNat (List.mem_range'_1.2 ⟨hlo, by omega⟩)
  simp only [isNamePart, isLetter, isNumeric, hl, hn, Bool.or_false, beq_iff_eq] at h
  subst h
  exact hu rfl

theorem isBlank_of_isDigit {c : Char} (h : isDigit c = true) : isBlank c = false :=
  isBlank_of_isNamePart (isNamePart_of_isDigit h)

theorem isBlank_of_isNameStart {c : Char} (h : isNameStart c = true) : isBlank c = false :=
  isBlank_of_isNamePart (isNamePart_of_isNameStart h)

namespace Mark

/-- No mark begins like a number, a string, a word or a gap. -/
theorem class_head {m : Mark} {c : Char} {cs : List Char} (h : m.chars = c :: cs) :
    isDigit c = false ∧ c ≠ '"' ∧ isNameStart c = false ∧ isBlank c = false := by
  have hall : ∀ m ∈ all, isDigit (m.chars.headD ' ') = false ∧ m.chars.headD ' ' ≠ '"' ∧
      isNameStart (m.chars.headD ' ') = false ∧ isBlank (m.chars.headD ' ') = false := by decide
  have := hall m (mem_all m)
  rwa [h] at this

theorem isBlank_of_mem (m : Mark) : ∀ c ∈ m.chars, isBlank c = false := by
  have hall : m.chars.all (!isBlank ·) = true := by cases m <;> decide
  simpa using hall

theorem chars_injective {m n : Mark} (h : m.chars = n.chars) : m = n := by
  have := ofChars?_chars n
  rw [← h, ofChars?_chars] at this
  exact Option.some.inj this

/-- What begins a mark is a mark. -/
theorem exists_chars_eq_take (n : Mark) (k : Nat) (hk : k < n.chars.length) :
    ∃ m : Mark, m.chars = n.chars.take (k + 1) := by
  have hall : ∀ n ∈ all, ∀ k ∈ List.range n.chars.length, ∃ m ∈ all, m.chars = n.chars.take (k + 1) := by
    decide
  obtain ⟨m, -, hm⟩ := hall n (mem_all n) k (List.mem_range.2 hk)
  exact ⟨m, hm⟩

theorem extend?_eq_some {m n : Mark} {c : Char} : m.extend? c = some n ↔ n.chars = m.chars ++ [c] := by
  constructor
  · exact chars_of_ofChars?
  · intro h
    rw [extend?, ← h, ofChars?_chars]

/-- No mark that goes on from `m` into the text is longer than the longest one. -/
theorem length_le_longest (m : Mark) (cs : List Char) {n : Mark} (h : n.chars <+: m.chars ++ cs) :
    n.chars.length ≤ (m.longest cs).1.chars.length := by
  induction cs generalizing m with
  | nil =>
    rw [List.append_nil] at h
    exact h.length_le
  | cons c cs ih =>
    unfold longest
    split
    · rename_i m' hm'
      refine ih m' ?_
      rwa [extend?_eq_some.1 hm', List.append_assoc, List.singleton_append]
    · rename_i hnone
      show n.chars.length ≤ m.chars.length
      rw [← Nat.not_lt]
      intro hlt
      -- the mark is longer than `m`, so `m` with the next character begins it
      obtain ⟨m', hm'⟩ := exists_chars_eq_take n m.chars.length hlt
      obtain ⟨tail, ht⟩ := h
      have : n.chars.take (m.chars.length + 1) = m.chars ++ [c] := by
        have htake : (n.chars ++ tail).take (m.chars.length + 1) = n.chars.take (m.chars.length + 1) :=
          List.take_append_of_le_length hlt
        rw [← htake, ht, List.take_length_add_append]
        rfl
      rw [extend?_eq_some.2 (hm'.trans this)] at hnone
      cases hnone

end Mark

/-! ## Spellings -/

/-- The number that digits write in the decimal system. -/
def decimalValue (ds : List Char) : Nat := Nat.ofDigits 10 (ds.reverse.map digitValue)

theorem decimalValue_cons (c : Char) (cs : List Char) :
    decimalValue (c :: cs) = digitValue c * 10 ^ cs.length + decimalValue cs := by
  unfold decimalValue
  rw [List.reverse_cons, List.map_append, Nat.ofDigits_append]
  simp only [List.length_map, List.length_reverse, List.map_cons, List.map_nil, Nat.ofDigits_singleton]
  ring

theorem natOfDigits_eq (ds : List Char) : natOfDigits ds = decimalValue ds := by
  -- the digits read so far stand before those that are left
  have key : ∀ n, ds.foldl (fun n c => n * 10 + digitValue c) n =
      n * 10 ^ ds.length + decimalValue ds := by
    induction ds with
    | nil => simp [decimalValue]
    | cons d ds ih =>
      intro n
      rw [List.foldl_cons, ih, decimalValue_cons, List.length_cons]
      ring
  simpa [natOfDigits] using key 0

namespace Lexeme

theorem intValue?_map (ds : List Char) : (intValue? ds).map Meaning.literal =
    if ds.length ≤ 4300 then some (.literal (.int (decimalValue ds))) else none := by
  rw [intValue?, natOfDigits_eq, maxIntDigits]
  split <;> rfl

theorem floatValue?_map (whole fraction : List Char) : (floatValue? whole fraction).map Meaning.literal =
    let x := Binary64.ofDecimal ⟨decimalValue (whole ++ fraction), -fraction.length⟩
    if x.isInfinite then none else some (.literal (.float x)) := by
  simp only [floatValue?, Decimal.ofParts, natOfDigits_eq]
  split <;> rfl

end Lexeme

theorem unescape?_eq_some {e c : Char} : unescape? e = some c ↔ (e, c) ∈ escapes := by
  constructor
  · intro h
    obtain ⟨p, hp, rfl⟩ := Option.map_eq_some_iff.1 h
    have : p.1 = e := by simpa using List.find?_some hp
    exact this ▸ List.mem_of_find?_eq_some hp
  · intro h
    have hall : ∀ p ∈ escapes, unescape? p.1 = some p.2 := by decide
    exact hall _ h

/-- What stands between the quotes of a string literal, and the text that it means: characters that
stand for themselves and the escapes of the table. -/
inductive StringBody : List Char → List Char → Prop
  | nil : StringBody [] []
  | char {c : Char} {raw value : List Char} : c ≠ '"' → c ≠ '\\' → c ≠ '\n' → StringBody raw value →
      StringBody (c :: raw) (c :: value)
  | escape {e c : Char} {raw value : List Char} : (e, c) ∈ escapes → StringBody raw value →
      StringBody ('\\' :: e :: raw) (c :: value)

theorem StringBody.append {raw value raw' value' : List Char} (h : StringBody raw value)
    (h' : StringBody raw' value') : StringBody (raw ++ raw') (value ++ value') := by
  induction h with
  | nil => exact h'
  | char hq hb hn _ ih => exact .char hq hb hn ih
  | escape he _ ih => exact .escape he ih

theorem StringBody.newline_notMem {raw value : List Char} (h : StringBody raw value) : '\n' ∉ raw := by
  have hletters : ∀ p ∈ escapes, '\n' ≠ p.1 := by decide
  induction h with
  | nil => exact List.not_mem_nil
  | char _ _ hn _ ih => simp [ih, hn.symm]
  | escape he _ ih => simp [ih, hletters _ he]

/-- How the lexemes of each class are spelled, and what they mean; a number out of range is spelled
as one and means nothing. -/
inductive Spelling : List Char → Option Meaning → Prop
  | word {c : Char} {cs : List Char} : isNameStart c = true → (∀ d ∈ cs, isNamePart d = true) →
      Spelling (c :: cs) (some (
        if c :: cs = ['t', 'r', 'u', 'e'] then .literal (.bool true)
        else if c :: cs = ['f', 'a', 'l', 's', 'e'] then .literal (.bool false)
        else .name))
  | int {ds : List Char} : ds ≠ [] → (∀ d ∈ ds, isDigit d = true) →
      Spelling ds (if ds.length ≤ 4300 then some (.literal (.int (decimalValue ds))) else none)
  | float {whole fraction : List Char} : whole ≠ [] → (∀ d ∈ whole, isDigit d = true) →
      (∀ d ∈ fraction, isDigit d = true) →
      Spelling (whole ++ '.' :: fraction)
        (let x := Binary64.ofDecimal ⟨decimalValue (whole ++ fraction), -fraction.length⟩
         if x.isInfinite then none else some (.literal (.float x)))
  | string {raw value : List Char} : StringBody raw value →
      Spelling ('"' :: raw ++ ['"']) (some (.literal (.string (String.ofList value))))
  | mark (m : Mark) : Spelling m.chars (some (.mark m))

/-- A lexeme with this meaning stands in front of `rest`: nothing longer there is spelled as a
lexeme, no comment opens there, and a number does not run into a name. -/
structure LexemeAt (lexeme : List Char) (m : Meaning) (rest : List Char) : Prop where
  spelling : Spelling lexeme (some m)
  longest : ∀ longer o, Spelling longer o → longer <+: lexeme ++ rest →
    longer.length ≤ lexeme.length
  no_comment : ¬ ['/', '/'] <+: lexeme ++ rest ∧ ¬ ['/', '*'] <+: lexeme ++ rest
  number_ends : ∀ d, lexeme.head? = some d → isDigit d = true → EndsRun isNamePart rest

/-- What begins with no digit is no number, whatever follows it. -/
theorem number_ends_of_head {c : Char} {cs rest : List Char} (hc : isDigit c = false) :
    ∀ d, (c :: cs).head? = some d → isDigit d = true → EndsRun isNamePart rest := by
  intro d hd hdigit
  cases hd
  rw [hc] at hdigit
  cases hdigit

namespace Spelling

variable {c : Char} {cs : List Char} {o : Option Meaning}

theorem ne_nil {lexeme : List Char} (h : Spelling lexeme o) : lexeme ≠ [] := by
  cases h with
  | word | string => simp
  | int h => exact h
  | float => simp
  | mark m => exact m.chars_ne_nil

/-- A lexeme in front of a text takes its first character. -/
theorem exists_cons {lexeme tail : List Char} (hs : Spelling lexeme o) (h : lexeme ++ tail = c :: cs) :
    ∃ l, lexeme = c :: l := by
  cases lexeme with
  | nil => exact absurd rfl hs.ne_nil
  | cons d l => cases h; exact ⟨l, rfl⟩

/-- A lexeme that begins with a digit is a number. -/
theorem of_isDigit (h : Spelling (c :: cs) o) (hc : isDigit c = true) :
    ((∀ d ∈ c :: cs, isDigit d = true) ∧ o = (Lexeme.intValue? (c :: cs)).map .literal) ∨
      ∃ whole fraction, c :: cs = whole ++ '.' :: fraction ∧ whole ≠ [] ∧
        (∀ d ∈ whole, isDigit d = true) ∧ (∀ d ∈ fraction, isDigit d = true) ∧
        o = (Lexeme.floatValue? whole fraction).map .literal := by
  generalize hl : c :: cs = lexeme at h
  cases h with
  | word hs =>
    cases hl
    rw [isNameStart_of_isDigit hc] at hs
    cases hs
  | int _ hd => exact .inl ⟨hd, (Lexeme.intValue?_map _).symm⟩
  | @float whole fraction hne hw hf =>
    exact .inr ⟨whole, fraction, rfl, hne, hw, hf, (Lexeme.floatValue?_map ..).symm⟩
  | string =>
    cases hl
    cases hc
  | mark m =>
    rw [(Mark.class_head hl.symm).1] at hc
    cases hc

/-- A lexeme that begins with a quote is a string. -/
theorem of_quote (h : Spelling ('"' :: cs) o) : ∃ raw value, cs = raw ++ ['"'] ∧
    StringBody raw value ∧ o = some (.literal (.string (String.ofList value))) := by
  generalize hl : '"' :: cs = lexeme at h
  cases h with
  | word hs => cases hl; cases hs
  | int _ hd => subst hl; cases hd '"' (List.mem_cons_self ..)
  | @float whole fraction hne hw _ =>
    cases whole with
    | nil => exact absurd rfl hne
    | cons d ds => cases hl; cases hw '"' (List.mem_cons_self ..)
  | @string raw value hb => cases hl; exact ⟨raw, value, rfl, hb, rfl⟩
  | mark m => exact absurd rfl (Mark.class_head hl.symm).2.1

/-- A lexeme that begins like a word is one. -/
theorem of_isNameStart (h : Spelling (c :: cs) o) (hc : isNameStart c = true) :
    (∀ d ∈ cs, isNamePart d = true) ∧ o = some (Lexeme.wordMeaning (c :: cs)) := by
  have hnd := isDigit_of_isNameStart hc
  generalize hl : c :: cs = lexeme at h
  cases h with
  | word _ hp => cases hl; exact ⟨hp, rfl⟩
  | int _ hd => subst hl; rw [hd c (by simp)] at hnd; cases hnd
  | @float whole fraction hne hw _ =>
    cases whole with
    | nil => exact absurd rfl hne
    | cons d ds => cases hl; rw [hw c (by simp)] at hnd; cases hnd
  | string => cases hl; cases hc
  | mark m => rw [(Mark.class_head hl.symm).2.2.1] at hc; cases hc

/-- Every other lexeme is a mark. -/
theorem of_other (h : Spelling (c :: cs) o) (hd : isDigit c = false) (hq : c ≠ '"')
    (hs : isNameStart c = false) : ∃ m : Mark, m.chars = c :: cs ∧ o = some (.mark m) := by
  generalize hl : c :: cs = lexeme at h
  cases h with
  | word hs' => cases hl; rw [hs] at hs'; cases hs'
  | int _ hd' => subst hl; rw [hd' c (by simp)] at hd; cases hd
  | @float whole fraction hne hw _ =>
    cases whole with
    | nil => exact absurd rfl hne
    | cons d ds => cases hl; rw [hw c (by simp)] at hd; cases hd
  | string => cases hl; exact absurd rfl hq
  | mark m => exact ⟨m, rfl, rfl⟩

/-- No lexeme begins with a blank. -/
theorem isBlank_head (h : Spelling (c :: cs) o) : isBlank c = false := by
  -- the class of a lexeme is that of its first character, and none has a blank in it
  by_cases hd : isDigit c = true
  · exact isBlank_of_isDigit hd
  by_cases hs : isNameStart c = true
  · exact isBlank_of_isNameStart hs
  by_cases hq : c = '"'
  · subst hq; decide
  obtain ⟨m, hm, -⟩ := h.of_other (by simpa using hd) hq (by simpa using hs)
  exact (Mark.class_head hm).2.2.2

/-- What begins a lexeme that is no string is a lexeme itself. -/
theorem exists_of_isPrefix {p : List Char} (h : Spelling (c :: cs) o) (hq : c ≠ '"') (hp : p <+: cs) :
    ∃ o', Spelling (c :: p) o' := by
  obtain ⟨tail, rfl⟩ := hp
  by_cases hd : isDigit c = true
  · rcases h.of_isDigit hd with ⟨hall, -⟩ | ⟨whole, fraction, he, hne, hw, hf, -⟩
    · exact ⟨_, .int (List.cons_ne_nil c p) fun d hd => hall d (List.mem_append_left tail hd)⟩
    rcases List.append_eq_append_iff.1 (List.cons_append.trans he) with ⟨ds, rfl, -⟩ | ⟨ds, hds, he'⟩
    · exact ⟨_, .int (List.cons_ne_nil c p) fun d hd => hw d (List.mem_append_left ds hd)⟩
    · cases ds with
      | nil =>
        rw [hds, List.append_nil]
        exact ⟨_, .int hne hw⟩
      | cons d ds =>
        obtain ⟨rfl, rfl⟩ := List.cons.inj he'
        rw [hds]
        exact ⟨_, .float hne hw fun d hd => hf d (List.mem_append_left tail hd)⟩
  by_cases hs : isNameStart c = true
  · exact ⟨_, .word hs fun d hd => (h.of_isNameStart hs).1 d (List.mem_append_left tail hd)⟩
  · obtain ⟨m, hm, -⟩ := h.of_other (by simpa using hd) hq (by simpa using hs)
    have hlen : p.length < m.chars.length := by
      simp only [hm, List.length_cons, List.length_append]
      omega
    obtain ⟨n, hn⟩ := m.exists_chars_eq_take p.length hlen
    rw [hm, ← List.cons_append, List.take_left' (List.length_cons ..)] at hn
    rw [← hn]
    exact ⟨_, .mark n⟩

/-- No lexeme goes over the end of a line. -/
theorem newline_notMem {lexeme : List Char} (h : Spelling lexeme o) : '\n' ∉ lexeme := by
  have part : ∀ {cs : List Char}, (∀ d ∈ cs, isNamePart d = true) → '\n' ∉ cs :=
    fun hcs hn => absurd (hcs _ hn) (by decide)
  have digit : ∀ {cs : List Char}, (∀ d ∈ cs, isDigit d = true) → '\n' ∉ cs :=
    fun hcs => part fun d hd => isNamePart_of_isDigit (hcs d hd)
  cases h with
  | word hs hp => exact part (List.forall_mem_cons.2 ⟨isNamePart_of_isNameStart hs, hp⟩)
  | int _ hd => exact digit hd
  | float _ hw hf => simp [digit hw, digit hf]
  | string hb => simp [hb.newline_notMem]
  | mark m => cases m <;> decide

/-- The mark for the end of the input has no spelling. -/
theorem ne_eof {lexeme : List Char} {m : Meaning} (h : Spelling lexeme (some m)) : m ≠ .eof := by
  rintro rfl
  generalize ho : some Meaning.eof = o at h
  cases h with
  | word => split at ho <;> [skip; split at ho] <;> cases ho
  | int => split at ho <;> cases ho
  | float => simp only at ho; split at ho <;> cases ho
  | string => cases ho
  | mark m => cases ho

theorem eq_chars_of_mark {lexeme : List Char} {m : Mark} (h : Spelling lexeme (some (.mark m))) :
    lexeme = m.chars := by
  generalize ho : some (Meaning.mark m) = o at h
  cases h with
  | word => split at ho <;> [skip; split at ho] <;> cases ho
  | int => split at ho <;> cases ho
  | float => simp only at ho; split at ho <;> cases ho
  | string => cases ho
  | mark m => cases ho; rfl

end Spelling

end ScriptSyntax
