/-
Unique readability of JSON texts. The first character of a text tells what sort of value it is; a
number goes as far as its characters do, a string to the quote that no backslash hides, and an object
has a comma before each further member and a new line before its end. So a value written in front of
more text is known from the text, and so is what follows it (`Finite.readable`), unless it holds an
infinity or what is no number.
-/
import ScriptSyntax.Json
import ScriptSyntax.Proofs.Number.Numeral
import ScriptSyntax.Proofs.Text.Escaped

namespace ScriptSyntax.Json

open Text

/-! ## Strings -/

/-- The first character of an escaped text, and what stands behind its escape. A first unit of two
stands before its second. -/
def first? : List Char → Option (Char × List Char)
  | '\\' :: 'n' :: cs => some ('\n', cs)
  | '\\' :: 'r' :: cs => some ('\r', cs)
  | '\\' :: 't' :: cs => some ('\t', cs)
  | '\\' :: 'b' :: cs => some ('\x08', cs)
  | '\\' :: 'f' :: cs => some ('\x0c', cs)
  | '\\' :: 'u' :: cs =>
    let n := natOfHexDigits (cs.take 4)
    let rest := cs.drop 4
    if 0xD800 ≤ n ∧ n < 0xDC00 then
      let low := natOfHexDigits ((rest.drop 2).take 4)
      some (Char.ofNat (0x10000 + (n - 0xD800) * 0x400 + (low - 0xDC00)), (rest.drop 2).drop 4)
    else some (Char.ofNat n, rest)
  | '\\' :: c :: cs => some (c, cs)
  | c :: cs => some (c, cs)
  | [] => none

/-- No code point is a unit of a pair. -/
theorem toNat_notMem_units (c : Char) : ¬ (0xD800 ≤ c.toNat ∧ c.toNat < 0xDC00) := by
  have := c.valid
  simp only [UInt32.isValidChar, Nat.isValidChar] at this
  simp only [Char.toNat]
  omega

theorem first?_pair {high low : Nat} (hhigh : 0xD800 ≤ high ∧ high < 0xDC00) (hlow : low < 0x10000)
    (rest : List Char) : first? (unitChars high ++ unitChars low ++ rest) =
      some (Char.ofNat (0x10000 + (high - 0xD800) * 0x400 + (low - 0xDC00)), rest) := by
  obtain ⟨hread, hrest⟩ := @read_hexDigits_append 4 high (show high < 0x10000 by omega)
    ('\\' :: 'u' :: (hexDigits 4 low ++ rest))
  obtain ⟨hread', hrest'⟩ := @read_hexDigits_append 4 low hlow rest
  rw [List.append_assoc]
  show first? ('\\' :: 'u' :: (hexDigits 4 high ++ '\\' :: 'u' :: (hexDigits 4 low ++ rest))) = _
  simp only [first?, hread, hrest, if_pos hhigh, List.drop_succ_cons, List.drop_zero, hread', hrest']

theorem first?_charChars (c : Char) (rest : List Char) :
    first? (charChars c ++ rest) = some (c, rest) := by
  have hlt := toNat_lt c
  have hunits := toNat_notMem_units c
  unfold charChars
  split
  · rfl
  · rfl
  · rfl
  · rfl
  · rfl
  · rfl
  · rfl
  · rename_i hbackslash _ _ _ _ _
    simp only
    split
    · have hc : c ≠ '\\' := hbackslash
      simp [first?, hc]
    split
    · obtain ⟨hread, hrest⟩ := @read_hexDigits_append 4 c.toNat (show c.toNat < 0x10000 by omega) rest
      simp [first?, unitChars, hread, hrest, hunits]
    · have hcode : 0x10000 + (0xD800 + (c.toNat - 0x10000) / 0x400 - 0xD800) * 0x400 +
          (0xDC00 + (c.toNat - 0x10000) % 0x400 - 0xDC00) = c.toNat := by omega
      rw [first?_pair (by omega) (by omega), hcode, Char.ofNat_toNat]

theorem head?_charChars_ne (c : Char) (rest : List Char) : (charChars c ++ rest).head? ≠ some '"' := by
  unfold charChars unitChars
  split
  · nofun
  · nofun
  · nofun
  · nofun
  · nofun
  · nofun
  · nofun
  · rename_i hquote _ _ _ _ _ _
    simp only
    repeat' split
    all_goals simp_all

/-- A string is read up to its closing quote. -/
theorem stringChars_append_inj {cs ds rest rest' : List Char}
    (h : stringChars cs ++ rest = stringChars ds ++ rest') : cs = ds ∧ rest = rest' := by
  unfold stringChars at h
  simp only [List.cons_append, List.append_assoc, List.nil_append, List.cons.injEq, true_and] at h
  exact flatMap_append_inj first?_charChars head?_charChars_ne h

/-! ## Values -/

/-- All floats in the value are finite. -/
inductive Finite : Json → Prop
  | int (n : Int) : Finite (.int n)
  | float {x : Binary64} : x.isFinite = true → Finite (.float x)
  | bool (b : Bool) : Finite (.bool b)
  | string (s : String) : Finite (.string s)
  | object {ms : List (String × Json)} : (∀ m ∈ ms, Finite m.2) → Finite (.object ms)

@[simp] theorem finite_int (n : Int) : Finite (.int n) := .int n

@[simp] theorem finite_bool (b : Bool) : Finite (.bool b) := .bool b

@[simp] theorem finite_string (s : String) : Finite (.string s) := .string s

@[simp] theorem finite_object {ms : List (String × Json)} :
    Finite (.object ms) ↔ ∀ m ∈ ms, m.2.Finite := by
  constructor
  · intro h
    cases h with
    | object h => exact h
  · exact .object

/-- What the first character of a value tells. -/
def mark : Json → Char
  | .int _ | .float _ => '0'
  | .bool true => 't'
  | .bool false => 'f'
  | .string _ => '"'
  | .object _ => '{'

/-- What a first character tells: a number, by any character of numbers, or itself. -/
def markOf (c : Char) : Char := if isNumeralChar c then '0' else c

theorem head?_charsOnto {v : Json} (h : v.Finite) (level : Nat) (rest : List Char) :
    (v.charsOnto level rest).head?.map markOf = some v.mark := by
  have number {cs : List Char} (hcs : ∃ c, cs.head? = some c ∧ isNumeralChar c = true) :
      (cs ++ rest).head?.map markOf = some '0' := by
    obtain ⟨c, hc, hnumeral⟩ := hcs
    rw [List.head?_append, hc, Option.some_or, Option.map_some, markOf, if_pos hnumeral]
  cases h with
  | int n => exact number (head?_int n)
  | float hx =>
    obtain ⟨c, hc, -, hnumeral⟩ := Binary64.head?_compact hx
    exact number ⟨c, hc, hnumeral⟩
  | bool b => cases b <;> rfl
  | string s => rfl
  | @object ms => cases ms <;> rfl

/-- Written in front of what can follow a value, the value is told from any other, and from the text
behind it. -/
def Readable (v : Json) : Prop :=
  ∀ {level : Nat} {v' : Json} {rest rest' : List Char}, v'.Finite → EndsRun isNumeralChar rest →
    EndsRun isNumeralChar rest' → v.charsOnto level rest = v'.charsOnto level rest' →
    v = v' ∧ rest = rest'

theorem mark_eq {v v' : Json} (hv : v.Finite) (hv' : v'.Finite) {level : Nat} {rest rest' : List Char}
    (h : v.charsOnto level rest = v'.charsOnto level rest') : v.mark = v'.mark := by
  have hhead := head?_charsOnto hv level rest
  rw [h, head?_charsOnto hv'] at hhead
  exact (Option.some.inj hhead).symm

theorem readable_int (n : Int) : Readable (.int n) := by
  intro level v' rest rest' hv' hr hr' h
  have hmark := mark_eq (.int n) hv' h
  cases hv' with
  | int m =>
    obtain ⟨rfl, hrest⟩ := int_append_inj h hr hr'
    exact ⟨rfl, hrest⟩
  | @float y hy =>
    have hnumber := run_unique h (fun _ => isNumeralChar_of_mem_int) hr
      (fun _ => Binary64.isNumeralChar_of_mem_compact hy) hr'
    exact absurd hnumber.1.symm (Binary64.compact_ne_int hy n)
  | bool b => cases b <;> cases hmark
  | string | object => cases hmark

theorem readable_float {x : Binary64} (hx : x.isFinite = true) : Readable (.float x) := by
  intro level v' rest rest' hv' hr hr' h
  have hmark := mark_eq (.float hx) hv' h
  cases hv' with
  | float hy =>
    obtain ⟨rfl, hrest⟩ := Binary64.compact_append_inj hx hy h hr hr'
    exact ⟨rfl, hrest⟩
  | int m =>
    have hnumber := run_unique h (fun _ => Binary64.isNumeralChar_of_mem_compact hx) hr
      (fun _ => isNumeralChar_of_mem_int) hr'
    exact absurd hnumber.1 (Binary64.compact_ne_int hx m)
  | bool b => cases b <;> cases hmark
  | string | object => cases hmark

theorem readable_bool (b : Bool) : Readable (.bool b) := by
  intro level v' rest rest' hv' hr hr' h
  have hmark := mark_eq (.bool b) hv' h
  cases hv' with
  | bool b' =>
    cases b <;> cases b' <;> cases hmark <;> cases h <;> exact ⟨rfl, rfl⟩
  | int | float | string | object => cases b <;> cases hmark

theorem readable_string (s : String) : Readable (.string s) := by
  intro level v' rest rest' hv' hr hr' h
  have hmark := mark_eq (.string s) hv' h
  cases hv' with
  | string t =>
    obtain ⟨hchars, hrest⟩ := stringChars_append_inj h
    exact ⟨congrArg Json.string (String.toList_inj.1 hchars), hrest⟩
  | bool b => cases b <;> cases hmark
  | int | float | object => cases hmark

/-! ## Objects -/

section Members

variable {level : Nat} {rest rest' : List Char}

theorem endsRun_membersOnto (ms : List (String × Json)) (h : EndsRun isNumeralChar rest) :
    EndsRun isNumeralChar (membersOnto level ms rest) := by
  cases ms with
  | nil => exact h
  | cons m ms => exact endsRun_cons.2 (by decide)

theorem memberOnto_inj {m m' : String × Json} (hm : Readable m.2) (hm' : m'.2.Finite)
    (hr : EndsRun isNumeralChar rest) (hr' : EndsRun isNumeralChar rest')
    (h : memberOnto level m rest = memberOnto level m' rest') : m = m' ∧ rest = rest' := by
  obtain ⟨name, v⟩ := m
  obtain ⟨name', v'⟩ := m'
  rw [memberOnto, memberOnto] at h
  obtain ⟨hname, h⟩ := stringChars_append_inj h
  obtain ⟨rfl, hrest⟩ := hm hm' hr hr' (List.cons.inj (List.cons.inj h).2).2
  exact ⟨by rw [String.toList_inj.1 hname], hrest⟩

/-- The members end where a line begins without a comma before it. -/
theorem membersOnto_inj {ms ms' : List (String × Json)} (hms : ∀ m ∈ ms, Readable m.2)
    (hms' : ∀ m ∈ ms', m.2.Finite) (hr : rest.head? = some '\n') (hr' : rest'.head? = some '\n')
    (h : membersOnto level ms rest = membersOnto level ms' rest') : ms = ms' ∧ rest = rest' := by
  have hends {cs : List Char} (hcs : cs.head? = some '\n') : EndsRun isNumeralChar cs := by
    intro c hc
    rw [hcs] at hc
    cases hc
    decide
  -- where one list ends and the other goes on, a newline would be a comma
  induction ms generalizing ms' with
  | nil =>
    cases ms' with
    | nil => exact ⟨rfl, h⟩
    | cons m' ms' =>
      rw [membersOnto, membersOnto] at h
      rw [h] at hr
      cases hr
  | cons m ms ih =>
    cases ms' with
    | nil =>
      rw [membersOnto, membersOnto] at h
      rw [← h] at hr'
      cases hr'
    | cons m' ms' =>
      obtain ⟨hm, hbehind⟩ := List.forall_mem_cons.1 hms
      obtain ⟨hm', hbehind'⟩ := List.forall_mem_cons.1 hms'
      rw [membersOnto, membersOnto] at h
      obtain ⟨rfl, hlist⟩ := memberOnto_inj hm hm' (endsRun_membersOnto _ (hends hr))
        (endsRun_membersOnto _ (hends hr')) (List.append_cancel_left (List.cons.inj h).2)
      obtain ⟨rfl, hrest⟩ := ih hbehind hbehind' hlist
      exact ⟨rfl, hrest⟩

end Members

theorem readable_object {ms : List (String × Json)} (hms : ∀ m ∈ ms, Readable m.2)
    (hfinite : ∀ m ∈ ms, m.2.Finite) : Readable (.object ms) := by
  intro level v' rest rest' hv' hr hr' h
  have hmark := mark_eq (.object hfinite) hv' h
  cases hv' with
  | @object ms' hms' =>
    -- an object without members closes where another begins a line
    cases ms with
    | nil =>
      cases ms' with
      | nil => exact ⟨rfl, (List.cons.inj (List.cons.inj h).2).2⟩
      | cons m' ms' => cases (List.cons.inj h).2
    | cons m ms =>
      cases ms' with
      | nil => cases (List.cons.inj h).2
      | cons m' ms' =>
        have hend : ∀ cs, EndsRun isNumeralChar (newline level ++ cs) := fun cs =>
          endsRun_cons.2 (by decide)
        obtain ⟨hm, hbehind⟩ := List.forall_mem_cons.1 hms
        obtain ⟨hm', hbehind'⟩ := List.forall_mem_cons.1 hms'
        rw [charsOnto, charsOnto] at h
        obtain ⟨rfl, hlist⟩ := memberOnto_inj hm hm' (endsRun_membersOnto _ (hend _))
          (endsRun_membersOnto _ (hend _)) (List.append_cancel_left (List.cons.inj h).2)
        obtain ⟨rfl, hlast⟩ := membersOnto_inj hbehind hbehind' rfl rfl hlist
        exact ⟨rfl, (List.cons.inj (List.append_cancel_left hlast)).2⟩
  | bool b => cases b <;> cases hmark
  | int | float | string => cases hmark

/-- A value whose floats are finite is known from its text, whatever follows. -/
theorem Finite.readable {v : Json} (h : v.Finite) : Readable v := by
  induction h with
  | int n => exact readable_int n
  | float hx => exact readable_float hx
  | bool b => exact readable_bool b
  | string s => exact readable_string s
  | object h ih => exact readable_object ih h

theorem text_injective {v v' : Json} (hv : v.Finite) (hv' : v'.Finite) (h : v.text = v'.text) :
    v = v' := by
  rw [text, text, String.ofList_inj] at h
  exact (hv.readable hv' (endsRun_nil _) (endsRun_nil _) h).1

end ScriptSyntax.Json
