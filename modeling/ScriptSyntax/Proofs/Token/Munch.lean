/-
Reading the front of a text, class by class: it gives exactly the lexeme that stands there
(`Lexeme.ofText_eq_token_iff`). Within a class the lexeme is the longest run of its characters; a
string ends at the first quote that no backslash escapes, and a mark grows one character at a time
because what begins a mark is itself a mark.

Read the other way, a spelling stands in front of a rest that cannot make it longer: a literal or
name where the rest begins with no character of a name and no point (`LexemeAt.of_stops`), a mark
where the next character makes no longer mark of it (`LexemeAt.of_mark`).
-/
import ScriptSyntax.Proofs.Token.Spelling

namespace ScriptSyntax

open Text

/-! ## Numbers -/

namespace Lexeme

section Parts

variable {ds whole fraction rest lexeme rest' : List Char} {v : Option Literal} {m : Meaning}

theorem ofNumberParts_eq_token_iff : ofNumberParts ds v rest = .token m lexeme rest' ↔
    EndsRun isNamePart rest ∧ lexeme = ds ∧ rest' = rest ∧ v.map .literal = some m := by
  have key : ofValue ds v rest = .token m lexeme rest' ↔
      lexeme = ds ∧ rest' = rest ∧ v.map .literal = some m := by
    cases v with
    | none => simp [ofValue]
    | some x =>
      simp only [ofValue, token.injEq, Option.map_some, Option.some.injEq]
      constructor
      · rintro ⟨rfl, rfl, rfl⟩
        exact ⟨rfl, rfl, rfl⟩
      · rintro ⟨rfl, rfl, rfl⟩
        exact ⟨rfl, rfl, rfl⟩
  cases rest with
  | nil => simp [ofNumberParts, key, endsRun_nil]
  | cons c cs =>
    rw [ofNumberParts, endsRun_cons]
    cases hc : isNamePart c with
    | true => simp
    | false => simp [key]

theorem ofNumber_int (hd : ∀ d ∈ ds, isDigit d = true) (hr : EndsRun isDigit rest)
    (hp : rest.head? ≠ some '.') : ofNumber (ds ++ rest) = ofNumberParts ds (intValue? ds) rest := by
  unfold ofNumber
  rw [takeWhile_append_of_endsRun hd hr, dropWhile_append_of_endsRun hd hr]
  split
  · exact absurd rfl hp
  · rfl

theorem ofNumber_float (hw : ∀ d ∈ whole, isDigit d = true) (hf : ∀ d ∈ fraction, isDigit d = true)
    (hr : EndsRun isDigit rest) : ofNumber (whole ++ '.' :: (fraction ++ rest)) =
      ofNumberParts (whole ++ '.' :: fraction) (floatValue? whole fraction) rest := by
  have hp : EndsRun isDigit ('.' :: (fraction ++ rest)) := endsRun_cons.2 (by decide)
  unfold ofNumber
  rw [takeWhile_append_of_endsRun hw hp, dropWhile_append_of_endsRun hw hp]
  simp only
  rw [takeWhile_append_of_endsRun hf hr, dropWhile_append_of_endsRun hf hr]

end Parts

/-- A text that begins with digits is their run, perhaps a point and another run, and a rest. -/
theorem number_cases (cs : List Char) :
    (∃ ds rest, cs = ds ++ rest ∧ (∀ d ∈ ds, isDigit d = true) ∧ EndsRun isDigit rest ∧
      rest.head? ≠ some '.') ∨
    ∃ whole fraction rest, cs = whole ++ '.' :: (fraction ++ rest) ∧
      (∀ d ∈ whole, isDigit d = true) ∧ (∀ d ∈ fraction, isDigit d = true) ∧
      EndsRun isDigit rest := by
  have run : ∀ cs : List Char, ∀ d ∈ cs.takeWhile isDigit, isDigit d = true :=
    fun _ _ => List.mem_takeWhile_imp
  by_cases hp : (cs.dropWhile isDigit).head? = some '.'
  · obtain ⟨tail, ht⟩ := List.head?_eq_some_iff.1 hp
    refine .inr ⟨cs.takeWhile isDigit, tail.takeWhile isDigit, tail.dropWhile isDigit, ?_, run cs,
      run tail, endsRun_dropWhile _ _⟩
    rw [List.takeWhile_append_dropWhile, ← ht, List.takeWhile_append_dropWhile]
  · exact .inl ⟨cs.takeWhile isDigit, cs.dropWhile isDigit, List.takeWhile_append_dropWhile.symm,
      run cs, endsRun_dropWhile _ _, hp⟩

theorem no_comment_of_ne {c : Char} {cs : List Char} (h : c ≠ '/') :
    ¬ ['/', '/'] <+: c :: cs ∧ ¬ ['/', '*'] <+: c :: cs := by
  simp only [List.cons_prefix_cons, not_and]
  exact ⟨fun h' => absurd h'.symm h, fun h' => absurd h'.symm h⟩

section Numbers

variable {c : Char} {cs lexeme rest : List Char} {m : Meaning}

/-- A number is read in front of what cannot make it longer. -/
theorem ofNumber_of_spelling (hs : Spelling (c :: cs) (some m)) (hc : isDigit c = true)
    (hn : EndsRun isNamePart rest)
    (hp : (∀ d ∈ c :: cs, isDigit d = true) → rest.head? ≠ some '.') :
    ofNumber (c :: cs ++ rest) = .token m (c :: cs) rest := by
  have hdigit : EndsRun isDigit rest := hn.mono fun _ => isNamePart_of_isDigit
  rcases hs.of_isDigit hc with ⟨hd, hv⟩ | ⟨w, f, he, -, hw, hf, hv⟩
  · rw [ofNumber_int hd hdigit (hp hd), ofNumberParts_eq_token_iff]
    exact ⟨hn, rfl, rfl, hv.symm⟩
  · rw [he, List.append_assoc, List.cons_append, ofNumber_float hw hf hdigit,
      ofNumberParts_eq_token_iff]
    exact ⟨hn, rfl, rfl, hv.symm⟩

theorem ofNumber_eq_token_iff (hc : isDigit c = true) :
    ofNumber (c :: cs) = .token m lexeme rest ↔ c :: cs = lexeme ++ rest ∧ LexemeAt lexeme m rest := by
  have hcomment : ¬ ['/', '/'] <+: c :: cs ∧ ¬ ['/', '*'] <+: c :: cs :=
    no_comment_of_ne (by rintro rfl; cases hc)
  have point : ∀ cs, EndsRun isDigit ('.' :: cs) := fun cs => endsRun_cons.2 (by decide)
  constructor
  -- what is read is the longest: a longer number would go on with a digit, or with a point
  · rcases number_cases (c :: cs) with ⟨ds, tail, ht, hd, hr, hp⟩ | ⟨whole, fraction, tail, ht, hw, hf, hr⟩
    · rw [ht, ofNumber_int hd hr hp, ofNumberParts_eq_token_iff]
      rintro ⟨hn, rfl, rfl, hv⟩
      have hne : lexeme ≠ [] := by
        rintro rfl
        rw [List.nil_append] at ht
        rw [← ht, endsRun_cons, hc] at hr
        cases hr
      rw [intValue?_map] at hv
      refine ⟨rfl, hv ▸ .int hne hd, ?_, ht ▸ hcomment, fun _ _ _ => hn⟩
      rintro longer o hs ⟨t, hl⟩
      obtain ⟨l, rfl⟩ := hs.exists_cons (hl.trans ht.symm)
      rcases hs.of_isDigit hc with ⟨hd', -⟩ | ⟨w, f, he, -, hw, -, -⟩
      · exact length_le_of_endsRun hr hd' ⟨t, hl⟩
      · rw [he, List.append_assoc, List.cons_append] at hl
        obtain ⟨-, rfl⟩ := run_unique hl hw (point _) hd hr
        exact absurd rfl hp
    · rw [ht, ofNumber_float hw hf hr, ofNumberParts_eq_token_iff]
      rintro ⟨hn, rfl, rfl, hv⟩
      have hne : whole ≠ [] := by
        rintro rfl
        cases ht
        cases hc
      rw [floatValue?_map] at hv
      refine ⟨by simp, hv ▸ .float hne hw hf, ?_, by simpa using ht ▸ hcomment, fun _ _ _ => hn⟩
      rintro longer o hs ⟨t, hl⟩
      rw [List.append_assoc, List.cons_append] at hl
      obtain ⟨l, rfl⟩ := hs.exists_cons (hl.trans ht.symm)
      rcases hs.of_isDigit hc with ⟨hd', -⟩ | ⟨w, f, he, -, hw', hf', -⟩
      · have := length_le_of_endsRun (point _) hd' ⟨t, hl⟩
        simp only [List.length_append, List.length_cons] at this ⊢
        omega
      · rw [he, List.append_assoc, List.cons_append] at hl
        obtain ⟨rfl, htail⟩ := run_unique hl hw' (point _) hw (point _)
        have := length_le_of_endsRun hr hf' ⟨t, (List.cons.inj htail).2⟩
        rw [he]
        simp only [List.length_append, List.length_cons]
        omega
  · rintro ⟨h, hs, hlong, -, hends⟩
    obtain ⟨l, rfl⟩ := hs.exists_cons h.symm
    rw [h]
    refine ofNumber_of_spelling hs hc (hends c rfl hc) fun hd hp => ?_
    -- digits that a point follows would not be the longest
    obtain ⟨tail, rfl⟩ := List.head?_eq_some_iff.1 hp
    have := hlong _ _ (.float (List.cons_ne_nil c l) hd (List.forall_mem_nil _)) ⟨tail, by simp⟩
    simp at this

end Numbers

/-! ## Strings -/

theorem Body.prepend_eq_closed {b : Body} {raw value raw' value' rest : List Char} :
    b.prepend raw value = .closed raw' value' rest ↔
      ∃ raw₀ value₀, b = .closed raw₀ value₀ rest ∧ raw' = raw ++ raw₀ ∧ value' = value ++ value₀ := by
  cases b with
  | closed raw₀ value₀ rest₀ =>
    simp only [prepend, Body.closed.injEq]
    constructor
    · rintro ⟨rfl, rfl, rfl⟩
      exact ⟨_, _, ⟨rfl, rfl, rfl⟩, rfl, rfl⟩
    · rintro ⟨_, _, ⟨rfl, rfl, rfl⟩, rfl, rfl⟩
      exact ⟨rfl, rfl, rfl⟩
  | fault => simp [prepend]

theorem Body.prepend_prepend (b : Body) (raw value raw' value' : List Char) :
    (b.prepend raw' value').prepend raw value = b.prepend (raw ++ raw') (value ++ value') := by
  cases b <;> simp [prepend]

/-- What may stand in a string is read as what it means, whatever follows it. -/
theorem Body.ofText_append {raw value : List Char} (h : StringBody raw value) (rest : List Char) :
    Body.ofText (raw ++ rest) = (Body.ofText rest).prepend raw value := by
  induction h with
  | nil => cases hb : Body.ofText rest <;> rw [List.nil_append, hb] <;> rfl
  | @char c raw value hq hb hn _ ih =>
    rw [List.cons_append, Body.ofText, ih, Body.prepend_prepend]
    · rfl
    all_goals simp_all
  | @escape e c raw value he _ ih =>
    rw [List.cons_append, List.cons_append, Body.ofText]
    · rw [unescape?_eq_some.2 he, ih]
      exact Body.prepend_prepend ..

/-- A body is read through the first quote that no backslash escapes. -/
theorem Body.ofText_eq_closed {raw value : List Char} (h : StringBody raw value) (rest : List Char) :
    Body.ofText (raw ++ '"' :: rest) = .closed (raw ++ ['"']) value rest := by
  rw [Body.ofText_append h, Body.ofText, Body.prepend, List.append_nil]

theorem Body.exists_of_ofText {cs raw' value rest : List Char}
    (h : Body.ofText cs = .closed raw' value rest) :
    ∃ raw, raw' = raw ++ ['"'] ∧ StringBody raw value := by
  fun_induction Body.ofText cs generalizing raw' value with
  | case1 | case2 | case4 | case6 => cases h
  | case3 => cases h; exact ⟨[], rfl, .nil⟩
  | case5 e cs c he ih =>
    obtain ⟨raw₀, value₀, h₀, rfl, rfl⟩ := Body.prepend_eq_closed.1 h
    obtain ⟨raw, rfl, hb⟩ := ih h₀
    exact ⟨'\\' :: e :: raw, rfl, .escape (unescape?_eq_some.1 he) hb⟩
  | case7 c cs hn hq h1 h2 ih =>
    obtain ⟨raw₀, value₀, h₀, rfl, rfl⟩ := Body.prepend_eq_closed.1 h
    obtain ⟨raw, rfl, hb⟩ := ih h₀
    refine ⟨c :: raw, rfl, .char hq ?_ hn hb⟩
    rintro rfl
    cases cs with
    | nil => exact h1 rfl rfl
    | cons d ds => exact h2 d ds rfl rfl

section

variable {c : Char} {cs lexeme rest : List Char} {m : Meaning}

/-- A string is read in front of anything. -/
theorem ofString_of_spelling {o : Option Meaning} (h : Spelling ('"' :: cs) o) (rest : List Char) :
    ∃ m, o = some m ∧ ofString (cs ++ rest) = .token m ('"' :: cs) rest := by
  obtain ⟨raw, value, rfl, hb, rfl⟩ := h.of_quote
  refine ⟨_, rfl, ?_⟩
  rw [ofString, List.append_assoc, List.singleton_append, Body.ofText_eq_closed hb]
  rfl

theorem ofString_eq_token_iff :
    ofString cs = .token m lexeme rest ↔ '"' :: cs = lexeme ++ rest ∧ LexemeAt lexeme m rest := by
  -- a string in front of the text is the one that is read there
  have unique : ∀ {l tail o}, Spelling l o → l ++ tail = '"' :: cs →
      ∃ m, o = some m ∧ ofString cs = .token m l tail := by
    intro l tail o hs h
    obtain ⟨l, rfl⟩ := hs.exists_cons h
    cases h
    exact ofString_of_spelling hs tail
  constructor
  · intro h
    have hwhole := whole_ofString cs
    rw [h, whole] at hwhole
    unfold ofString at h
    split at h
    · rename_i raw' value' rest' hb
      obtain ⟨raw₀, value, hb, rfl, rfl⟩ := Body.prepend_eq_closed.1 hb
      obtain ⟨raw, rfl, hbody⟩ := Body.exists_of_ofText hb
      cases h
      refine ⟨hwhole.symm, .string hbody, ?_, ?_, ?_⟩
      · rintro longer o hs ⟨tail, ht⟩
        obtain ⟨m, -, hm⟩ := unique hs (ht.trans hwhole)
        obtain ⟨m', -, hm'⟩ := unique (.string hbody) hwhole
        rw [hm] at hm'
        cases hm'
        exact Nat.le_refl _
      · exact no_comment_of_ne (by decide)
      · exact number_ends_of_head rfl
    · cases h
  · rintro ⟨h, hat⟩
    obtain ⟨m', hm, hs⟩ := unique hat.spelling h.symm
    cases hm
    exact hs

/-! ## Words and marks -/

/-- A word is read in front of what cannot make it longer. -/
theorem ofWord_of_spelling (h : Spelling (c :: cs) (some m)) (hs : isNameStart c = true)
    (hr : EndsRun isNamePart rest) : ofWord (c :: cs ++ rest) = .token m (c :: cs) rest := by
  obtain ⟨hp, hm⟩ := h.of_isNameStart hs
  have hall : ∀ d ∈ c :: cs, isNamePart d = true :=
    List.forall_mem_cons.2 ⟨isNamePart_of_isNameStart hs, hp⟩
  cases hm
  rw [ofWord, takeWhile_append_of_endsRun hall hr, dropWhile_append_of_endsRun hall hr]

theorem ofWord_eq_token_iff (hs : isNameStart c = true) :
    ofWord (c :: cs) = .token m lexeme rest ↔ c :: cs = lexeme ++ rest ∧ LexemeAt lexeme m rest := by
  have hcons : ∀ {l}, (∀ d ∈ l, isNamePart d = true) → ∀ d ∈ c :: l, isNamePart d = true :=
    fun h => List.forall_mem_cons.2 ⟨isNamePart_of_isNameStart hs, h⟩
  constructor
  · intro h
    have hwhole := whole_ofWord (c :: cs)
    rw [h, whole] at hwhole
    rw [ofWord, List.takeWhile_cons_of_pos (isNamePart_of_isNameStart hs)] at h
    cases h
    have hrest := endsRun_dropWhile isNamePart (c :: cs)
    refine ⟨hwhole.symm, .word hs fun _ => List.mem_takeWhile_imp, ?_, ?_, ?_⟩
    · rintro longer o hl ht
      obtain ⟨tail, ht'⟩ := ht
      obtain ⟨l, rfl⟩ := hl.exists_cons (ht'.trans hwhole)
      exact length_le_of_endsRun hrest (hcons (hl.of_isNameStart hs).1) ⟨tail, ht'⟩
    · exact no_comment_of_ne (by rintro rfl; cases hs)
    · exact number_ends_of_head (isDigit_of_isNameStart hs)
  · rintro ⟨h, hat⟩
    obtain ⟨l, rfl⟩ := hat.spelling.exists_cons h.symm
    rw [h]
    refine ofWord_of_spelling hat.spelling hs fun d hd => ?_
    -- a word that could go on would not be the longest
    by_contra hn
    obtain ⟨tail, rfl⟩ := List.head?_eq_some_iff.1 hd
    have hword : Spelling (c :: (l ++ [d])) _ := .word hs fun x hx => by
      rcases List.mem_append.1 hx with hx | hx
      · exact (hat.spelling.of_isNameStart hs).1 x hx
      · rw [List.mem_singleton.1 hx]
        simpa using hn
    have := hat.longest _ _ hword ⟨tail, by simp⟩
    simp at this

theorem ofMark_eq_token_iff (hd : isDigit c = false) (hq : c ≠ '"') (hs : isNameStart c = false)
    (hcomment : ¬ ['/', '/'] <+: c :: cs ∧ ¬ ['/', '*'] <+: c :: cs) :
    ofMark c cs = .token m lexeme rest ↔ c :: cs = lexeme ++ rest ∧ LexemeAt lexeme m rest := by
  -- the text goes on from the mark of its first character
  have longest : ∀ {m₁ : Mark}, m₁.chars = [c] → ∀ {l tail o}, Spelling l o → l ++ tail = c :: cs →
      l.length ≤ (m₁.longest cs).1.chars.length := by
    intro m₁ h₁ l tail o hl h
    obtain ⟨l, rfl⟩ := hl.exists_cons h
    obtain ⟨n, hn, -⟩ := hl.of_other hd hq hs
    rw [← hn]
    exact m₁.length_le_longest cs ⟨tail, by rw [hn, h, h₁, List.singleton_append]⟩
  constructor
  · intro h
    have hwhole := whole_ofMark c cs
    rw [h, whole] at hwhole
    unfold ofMark at h
    split at h
    · rename_i m₁ h₁
      cases h
      refine ⟨hwhole.symm, .mark _, ?_, hwhole ▸ hcomment, ?_⟩
      · rintro longer o hl ⟨tail, ht⟩
        exact longest (Mark.chars_of_ofChars? h₁) hl (ht.trans hwhole)
      · obtain ⟨l, hl⟩ := (Spelling.mark _).exists_cons hwhole
        rw [hl]
        exact number_ends_of_head hd
    · cases h
  · rintro ⟨h, hat⟩
    obtain ⟨l, rfl⟩ := hat.spelling.exists_cons h.symm
    obtain ⟨n, hn, hm⟩ := hat.spelling.of_other hd hq hs
    cases hm
    obtain ⟨m₁, h₁⟩ := n.exists_chars_eq_take 0 (by simp [hn])
    rw [hn] at h₁
    have h₁ : m₁.chars = [c] := h₁
    have hglue := Mark.chars_longest m₁ cs
    rw [h₁, List.singleton_append, h] at hglue
    -- neither of the two marks in front of the text is longer than the other
    have hle := hat.longest _ _ (.mark (m₁.longest cs).1) ⟨_, hglue⟩
    have hge := longest h₁ hat.spelling h.symm
    obtain ⟨hchars, hrest⟩ := List.append_inj hglue (Nat.le_antisymm hle hge)
    rw [ofMark, ← h₁, Mark.ofChars?_chars]
    simp only
    rw [hchars, hrest, Mark.chars_injective (hchars.trans hn.symm)]

/-- Where no comment begins, reading the front of a text gives the lexeme that stands there. -/
theorem ofText_eq_token_iff (hcomment : ¬ ['/', '/'] <+: c :: cs ∧ ¬ ['/', '*'] <+: c :: cs) :
    ofText c cs = .token m lexeme rest ↔ c :: cs = lexeme ++ rest ∧ LexemeAt lexeme m rest := by
  unfold ofText
  split
  · exact ofNumber_eq_token_iff ‹_›
  split
  · subst c
    exact ofString_eq_token_iff
  split
  · exact ofWord_eq_token_iff ‹_›
  · rename_i hd hq hs
    exact ofMark_eq_token_iff (by simpa using hd) hq (by simpa using hs) hcomment

end

end Lexeme

/-! ## Lexemes in front of a rest -/

namespace LexemeAt

variable {lexeme rest : List Char} {m : Meaning}

theorem of_ofText {c : Char} {cs : List Char} (h : Lexeme.ofText c cs = .token m lexeme rest)
    (hcomment : ¬ ['/', '/'] <+: c :: cs ∧ ¬ ['/', '*'] <+: c :: cs) : LexemeAt lexeme m rest :=
  ((Lexeme.ofText_eq_token_iff hcomment).1 h).2

/-- Of what stands behind a lexeme only the first character counts. -/
theorem of_beginsLike {rest' : List Char} (h : LexemeAt lexeme m rest) (hr : BeginsLike rest' rest) :
    LexemeAt lexeme m rest' := by
  obtain ⟨c, l, rfl⟩ := List.exists_cons_of_ne_nil h.spelling.ne_nil
  have pair : ∀ x y, [x, y] <+: c :: l ++ rest' → [x, y] <+: c :: l ++ rest := by
    rintro x y ⟨tail, ht⟩
    obtain ⟨rfl, hcons⟩ := List.cons.inj ht
    have hy : (l ++ rest').head? = some y := congrArg List.head? hcons.symm
    obtain ⟨tail', ht'⟩ := List.head?_eq_some_iff.1 (hr.append_left l y hy)
    exact ⟨tail', congrArg (x :: ·) ht'.symm⟩
  refine ⟨h.spelling, ?_, ⟨fun hc => h.no_comment.1 (pair _ _ hc),
    fun hc => h.no_comment.2 (pair _ _ hc)⟩, fun d hd hdigit =>
      (h.number_ends d hd hdigit).of_beginsLike hr⟩
  intro longer o hs hl
  rw [← Nat.not_lt]
  intro hlt
  obtain ⟨more, rfl⟩ := List.prefix_of_prefix_length_le (List.prefix_append _ _) hl (Nat.le_of_lt hlt)
  cases more with
  | nil => simp at hlt
  | cons d tail =>
    have hd : rest.head? = some d := by
      obtain ⟨tail', ht⟩ := (List.prefix_append_right_inj _).1 hl
      exact hr d (by rw [← ht]; rfl)
    obtain ⟨rest, rfl⟩ := List.head?_eq_some_iff.1 hd
    by_cases hq : c = '"'
    -- a string ends with its quote
    · subst hq
      obtain ⟨_, -, h₁⟩ := Lexeme.ofString_of_spelling h.spelling (d :: tail)
      obtain ⟨_, -, h₂⟩ := Lexeme.ofString_of_spelling hs []
      rw [List.append_nil] at h₂
      exact absurd (Lexeme.token.inj (h₁.symm.trans h₂)).2.2 (List.cons_ne_nil d tail)
    -- and what begins any other lexeme is one, also with the next character only
    · obtain ⟨o', hs'⟩ := hs.exists_of_isPrefix hq ((List.prefix_append_right_inj l).2 ⟨tail, rfl⟩ :
        l ++ [d] <+: l ++ d :: tail)
      have := h.longest _ _ hs' ⟨rest, by simp⟩
      simp at this

/-- A literal or name stands in front of what begins with no character of a name and no point. -/
theorem of_stops (hs : Spelling lexeme (some m)) (hm : ∀ mark, m ≠ .mark mark)
    (hr : EndsRun isNamePart rest) (hp : rest.head? ≠ some '.') : LexemeAt lexeme m rest := by
  obtain ⟨c, cs, rfl⟩ := List.exists_cons_of_ne_nil hs.ne_nil
  by_cases hd : isDigit c = true
  · exact ((Lexeme.ofNumber_eq_token_iff hd).1
      (Lexeme.ofNumber_of_spelling hs hd hr fun _ => hp)).2
  by_cases hw : isNameStart c = true
  · exact ((Lexeme.ofWord_eq_token_iff hw).1 (Lexeme.ofWord_of_spelling hs hw hr)).2
  by_cases hq : c = '"'
  · subst hq
    obtain ⟨m', hm', hread⟩ := Lexeme.ofString_of_spelling hs rest
    cases hm'
    exact (Lexeme.ofString_eq_token_iff.1 hread).2
  obtain ⟨mark, -, hmark⟩ := hs.of_other (by simpa using hd) hq (by simpa using hw)
  exact absurd (Option.some.inj hmark) (hm mark)

/-- A mark stands in front of what makes no longer mark of it and no comment. -/
theorem of_mark {mark : Mark} (hr : ∀ c, rest.head? = some c → mark.extend? c = none)
    (hcomment : ¬ ['/', '/'] <+: mark.chars ++ rest ∧ ¬ ['/', '*'] <+: mark.chars ++ rest) :
    LexemeAt mark.chars (.mark mark) rest := by
  have hlongest : mark.longest rest = (mark, rest) := by
    cases rest with
    | nil => rfl
    | cons c cs => rw [Mark.longest, hr c rfl]
  obtain ⟨c, cs, hmark⟩ := List.exists_cons_of_ne_nil mark.chars_ne_nil
  obtain ⟨hd, hq, hs, -⟩ := Mark.class_head hmark
  refine ⟨.mark mark, ?_, hcomment, ?_⟩
  · rintro longer o hl ⟨tail, ht⟩
    obtain ⟨l, rfl⟩ := hl.exists_cons (ht.trans (by rw [hmark, List.cons_append]))
    obtain ⟨n, hn, -⟩ := hl.of_other hd hq hs
    have := mark.length_le_longest rest ⟨tail, hn ▸ ht⟩
    rwa [hlongest, hn] at this
  · rw [hmark]
    exact number_ends_of_head hd

/-- A blank ends every lexeme. -/
theorem of_blank {c : Char} (hs : Spelling lexeme (some m)) (hc : isBlank c = true)
    (rest : List Char) : LexemeAt lexeme m (c :: rest) := by
  by_cases hm : ∃ mark, m = .mark mark
  · obtain ⟨mark, rfl⟩ := hm
    rw [hs.eq_chars_of_mark]
    refine of_mark ?_ ?_
    · intro d hd
      cases hd
      rw [Option.eq_none_iff_forall_ne_some]
      intro n hn
      have hblank := n.isBlank_of_mem c (by simp [Mark.extend?_eq_some.1 hn])
      rw [hc] at hblank
      cases hblank
    · have hslash : c ≠ '/' := by rintro rfl; revert hc; decide
      have hstar : c ≠ '*' := by rintro rfl; revert hc; decide
      cases mark <;> simp [Mark.chars, hslash.symm, hstar.symm]
  · refine of_stops hs (fun mark h => hm ⟨mark, h⟩) ?_ ?_
    · rw [endsRun_cons]
      by_contra hpart
      rw [isBlank_of_isNamePart (by simpa using hpart)] at hc
      cases hc
    · intro hp
      cases hp
      revert hc
      decide

end LexemeAt

end ScriptSyntax
