/-
Texts escaped one character at a time. Where an escape can be told from whatever follows it, and the
mark that closes the text begins no escape, the escaped text determines the text and what stands
behind its mark (`flatMap_append_inj`). Quoted texts are of this kind, whichever of the two quotes they
take (`Quoted.encode_injective`), and all of their characters show as themselves
(`Quoted.isPrintable_of_mem_encode`), so that none of them ends a line or a column.
-/
import ScriptSyntax.Text.Quoted

namespace ScriptSyntax.Text

/-! ## Escapes in front of a text -/

/-- An escaped text up to its mark, where `first?` reads an escape in front of any text. -/
theorem flatMap_append_inj {escape : Char → List Char} {first? : List Char → Option (Char × List Char)}
    {m : Char} (hfirst : ∀ c rest, first? (escape c ++ rest) = some (c, rest))
    (hmark : ∀ c rest, (escape c ++ rest).head? ≠ some m) {cs ds rest rest' : List Char}
    (h : cs.flatMap escape ++ m :: rest = ds.flatMap escape ++ m :: rest') :
    cs = ds ∧ rest = rest' := by
  induction cs generalizing ds with
  | nil =>
    cases ds with
    | nil => exact ⟨rfl, (List.cons.inj h).2⟩
    | cons d ds =>
      rw [List.flatMap_cons, List.append_assoc] at h
      exact absurd (congrArg List.head? h).symm (hmark d _)
  | cons c cs ih =>
    rw [List.flatMap_cons, List.append_assoc] at h
    cases ds with
    | nil => exact absurd (congrArg List.head? h) (hmark c _)
    | cons d ds =>
      rw [List.flatMap_cons, List.append_assoc] at h
      have hread := congrArg first? h
      rw [hfirst, hfirst] at hread
      obtain ⟨rfl, htail⟩ := Prod.mk.inj (Option.some.inj hread)
      obtain ⟨rfl, hrest⟩ := ih htail
      exact ⟨rfl, hrest⟩

/-! ## Hexadecimal digits -/

/-- The value of a hexadecimal digit. -/
def hexDigitValue (c : Char) : Nat := if c.toNat < 58 then c.toNat - 48 else c.toNat - 87

/-- The number that hexadecimal digits write. -/
def natOfHexDigits (cs : List Char) : Nat := cs.foldl (fun n c => n * 16 + hexDigitValue c) 0

theorem hexDigitValue_hexDigit : ∀ d < 16, hexDigitValue (hexDigit d) = d := by decide

theorem natOfHexDigits_hexDigits {width n : Nat} (h : n < Nat.pow 16 width) :
    natOfHexDigits (hexDigits width n) = n := by
  induction width generalizing n with
  | zero =>
    have : n = 0 := Nat.lt_one_iff.1 h
    rw [this]
    rfl
  | succ width ih =>
    have hhigh : n / 16 < Nat.pow 16 width := by
      have hpow : Nat.pow 16 (width + 1) = Nat.pow 16 width * 16 := rfl
      omega
    have hlow := hexDigitValue_hexDigit (n % 16) (Nat.mod_lt _ (by decide))
    have hread := ih hhigh
    unfold natOfHexDigits at hread ⊢
    rw [hexDigits, List.foldl_append, hread, List.foldl_cons, List.foldl_nil, hlow]
    omega

theorem mem_hexDigits {width n : Nat} {c : Char} (h : c ∈ hexDigits width n) :
    ∃ d < 16, c = hexDigit d := by
  induction width generalizing n with
  | zero => cases h
  | succ width ih =>
    rw [hexDigits, List.mem_append, List.mem_singleton] at h
    rcases h with h | h
    · exact ih h
    · exact ⟨n % 16, Nat.mod_lt _ (by decide), h⟩

theorem toNat_lt (c : Char) : c.toNat < 0x110000 := by
  have := c.valid
  simp only [UInt32.isValidChar, Nat.isValidChar] at this
  simp only [Char.toNat]
  omega

/-- The code point that digits in front of a text write, and the text behind them. -/
theorem read_hexDigits_append {width n : Nat} (h : n < Nat.pow 16 width) (rest : List Char) :
    natOfHexDigits ((hexDigits width n ++ rest).take width) = n ∧
      (hexDigits width n ++ rest).drop width = rest := by
  rw [List.take_left' (hexDigits_length width n), List.drop_left' (hexDigits_length width n)]
  exact ⟨natOfHexDigits_hexDigits h, rfl⟩

/-! ## Quoted texts -/

namespace Quoted

/-- The first character of an escaped text, and what stands behind its escape. -/
def first? : List Char → Option (Char × List Char)
  | '\\' :: 'n' :: cs => some ('\n', cs)
  | '\\' :: 'r' :: cs => some ('\r', cs)
  | '\\' :: 't' :: cs => some ('\t', cs)
  | '\\' :: 'x' :: cs => some (Char.ofNat (natOfHexDigits (cs.take 2)), cs.drop 2)
  | '\\' :: 'u' :: cs => some (Char.ofNat (natOfHexDigits (cs.take 4)), cs.drop 4)
  | '\\' :: 'U' :: cs => some (Char.ofNat (natOfHexDigits (cs.take 8)), cs.drop 8)
  | '\\' :: c :: cs => some (c, cs)
  | c :: cs => some (c, cs)
  | [] => none

theorem first?_codePoint (c : Char) (rest : List Char) :
    first? (codePoint c ++ rest) = some (c, rest) := by
  have hlt := toNat_lt c
  unfold codePoint
  simp only
  split
  · obtain ⟨hread, hrest⟩ := @read_hexDigits_append 2 c.toNat (show c.toNat < 0x100 by omega) rest
    simp [first?, hread, hrest]
  split
  · obtain ⟨hread, hrest⟩ := @read_hexDigits_append 4 c.toNat (show c.toNat < 0x10000 by omega) rest
    simp [first?, hread, hrest]
  · obtain ⟨hread, hrest⟩ := @read_hexDigits_append 8 c.toNat (show c.toNat < 0x100000000 by omega) rest
    simp [first?, hread, hrest]

theorem mark_eq (cs : List Char) : mark cs = '"' ∨ mark cs = '\'' := by
  unfold mark
  split
  · exact .inl rfl
  · exact .inr rfl

section Mark

variable {m : Char} (hm : m = '"' ∨ m = '\'')
include hm

theorem first?_escape (c : Char) (rest : List Char) : first? (escape m c ++ rest) = some (c, rest) := by
  unfold escape
  split
  · rename_i hc
    simp only [Bool.or_eq_true, decide_eq_true_eq] at hc
    rcases hc with rfl | rfl
    · rfl
    · rcases hm with rfl | rfl <;> rfl
  rename_i hc
  split
  · simp [first?, *]
  split
  · simp [first?, *]
  split
  · simp [first?, *]
  split
  · simp at hc
    simp [first?, hc]
  · exact first?_codePoint c rest

theorem head?_escape_ne (c : Char) (rest : List Char) : (escape m c ++ rest).head? ≠ some m := by
  have hbackslash : '\\' ≠ m := by
    rcases hm with rfl | rfl <;> decide
  unfold escape codePoint
  simp only
  repeat' split
  all_goals simp_all

end Mark

theorem encode_injective {cs ds : List Char} (h : encode cs = encode ds) : cs = ds := by
  unfold encode at h
  obtain ⟨hmark, h⟩ := List.cons.inj h
  rw [hmark] at h
  exact (flatMap_append_inj (first?_escape (mark_eq ds)) (head?_escape_ne (mark_eq ds)) h).1

/-! ## Their characters -/

theorem isPrintable_hexDigit : ∀ d < 16, isPrintable (hexDigit d) = true := by decide

theorem isPrintable_of_mem_codePoint {c d : Char} (h : d ∈ codePoint c) : isPrintable d = true := by
  have hletters : ['x', 'u', 'U'].all isPrintable = true := by decide
  have hescape : ∀ l ∈ ['x', 'u', 'U'], ∀ width, d ∈ '\\' :: l :: hexDigits width c.toNat →
      isPrintable d = true := by
    intro l hl width h
    rw [List.mem_cons, List.mem_cons] at h
    rcases h with rfl | rfl | h
    · decide
    · exact List.all_eq_true.1 hletters d hl
    · obtain ⟨n, hn, rfl⟩ := mem_hexDigits h
      exact isPrintable_hexDigit n hn
  unfold codePoint at h
  simp only at h
  split at h
  · exact hescape 'x' (by decide) 2 h
  split at h
  · exact hescape 'u' (by decide) 4 h
  · exact hescape 'U' (by decide) 8 h

theorem isPrintable_of_mem_escape {m : Char} (hm : m = '"' ∨ m = '\'') {c d : Char}
    (h : d ∈ escape m c) : isPrintable d = true := by
  have hletters : ['\\', 'n', 'r', 't', '"', '\''].all isPrintable = true := by decide
  have hshort : ∀ e ∈ ['\\', 'n', 'r', 't', '"', '\''], d ∈ ['\\', e] → isPrintable d = true := by
    intro e he hd
    rw [List.mem_cons, List.mem_singleton] at hd
    rcases hd with rfl | rfl
    · decide
    · exact List.all_eq_true.1 hletters d he
  unfold escape at h
  split at h
  · rename_i hc
    simp only [Bool.or_eq_true, decide_eq_true_eq] at hc
    have hletter : c ∈ ['\\', 'n', 'r', 't', '"', '\''] := by
      rcases hc with rfl | rfl
      · decide
      · rcases hm with rfl | rfl <;> decide
    exact hshort c hletter h
  split at h
  · exact hshort 'n' (by decide) h
  split at h
  · exact hshort 'r' (by decide) h
  split at h
  · exact hshort 't' (by decide) h
  split at h
  · rename_i hc
    rwa [List.mem_singleton.1 h]
  · exact isPrintable_of_mem_codePoint h

/-- A quoted text shows all of its characters as themselves. -/
theorem isPrintable_of_mem_encode {cs : List Char} {d : Char} (h : d ∈ encode cs) :
    isPrintable d = true := by
  have hquotes : ∀ m, m = '"' ∨ m = '\'' → isPrintable m = true := by
    rintro m (rfl | rfl) <;> decide
  unfold encode at h
  rw [List.cons_append, List.mem_cons, List.mem_append, List.mem_flatMap, List.mem_singleton] at h
  rcases h with rfl | ⟨c, -, h⟩ | rfl
  · exact hquotes _ (mark_eq cs)
  · exact isPrintable_of_mem_escape (mark_eq cs) h
  · exact hquotes _ (mark_eq cs)

end Quoted

end ScriptSyntax.Text
