/-
The order of positions. Positions are compared by file, row and column. Every character takes a
position on, a newline to a later row and any other character to a later column of the row
(`Position.compare_advance`), so of two positions met in reading one text the one with fewer
characters before it comes first. Their offsets, which do not enter into the comparison, tell the
same (`Position.compare_reading`).
-/
import ScriptSyntax.Proofs.Source.Places

namespace ScriptSyntax.Position

/-! ## Comparing -/

variable {p q r : Position}

theorem compare_of_file_eq (h : p.file = q.file) : p.compare q =
    some ((Ord.compare p.row q.row).then (Ord.compare p.col q.col)) := if_pos h

theorem compare_eq_none_iff : p.compare q = none ↔ p.file ≠ q.file := by
  unfold compare
  split <;> simp_all

theorem compare_eq_lt_iff : p.compare q = some .lt ↔
    p.file = q.file ∧ (p.row < q.row ∨ p.row = q.row ∧ p.col < q.col) := by
  by_cases h : p.file = q.file
  · rw [compare_of_file_eq h, Option.some_inj, Ordering.then_eq_lt, Int.compare_eq_lt,
      Int.compare_eq_eq, Int.compare_eq_lt]
    exact (and_iff_right h).symm
  · rw [compare_eq_none_iff.2 h]
    simp [h]

theorem compare_eq_eq_iff : p.compare q = some .eq ↔ p.key = q.key := by
  by_cases h : p.file = q.file
  · simp [compare_of_file_eq h, key, h, Ordering.then_eq_eq]
  · simp [compare_eq_none_iff.2 h, key, h]

theorem compare_self (p : Position) : p.compare p = some .eq := compare_eq_eq_iff.2 rfl

theorem compare_swap (p q : Position) : q.compare p = (p.compare q).map Ordering.swap := by
  by_cases h : p.file = q.file
  · rw [compare_of_file_eq h, compare_of_file_eq h.symm, Option.map_some, Ordering.swap_then,
      Int.compare_swap, Int.compare_swap]
  · rw [compare_eq_none_iff.2 h, compare_eq_none_iff.2 (Ne.symm h), Option.map_none]

theorem compare_trans (hpq : p.compare q = some .lt) (hqr : q.compare r = some .lt) :
    p.compare r = some .lt := by
  rw [compare_eq_lt_iff] at *
  obtain ⟨hfile, hpq⟩ := hpq
  obtain ⟨hfile', hqr⟩ := hqr
  refine ⟨hfile.trans hfile', ?_⟩
  omega

/-! ## Reading on -/

/-- Each character takes a position on. -/
theorem compare_advance (p : Position) (c : Char) : p.compare (p.advance c) = some .lt := by
  rw [compare_eq_lt_iff, advance]
  split
  · exact ⟨rfl, .inl (Int.lt_succ _)⟩
  · exact ⟨rfl, .inr ⟨rfl, Int.lt_succ _⟩⟩

theorem compare_advanceBy {cs : List Char} (h : cs ≠ []) (p : Position) :
    p.compare (p.advanceBy cs) = some .lt := by
  induction cs generalizing p with
  | nil => exact absurd rfl h
  | cons c cs ih =>
    rw [advanceBy_cons]
    by_cases hcs : cs = []
    · rw [hcs]
      exact compare_advance p c
    · exact compare_trans (compare_advance p c) (ih hcs _)

theorem compare_take_of_lt {i j : Nat} {text : List Char} (hij : i < j) (hj : j ≤ text.length)
    (p : Position) : (p.advanceBy (text.take i)).compare (p.advanceBy (text.take j)) = some .lt := by
  have hsplit : text.take j = text.take i ++ (text.drop i).take (j - i) := by
    rw [← List.take_add, Nat.add_sub_cancel' (Nat.le_of_lt hij)]
  have hbetween : (text.drop i).take (j - i) ≠ [] := by
    refine List.ne_nil_of_length_pos ?_
    rw [List.length_take, List.length_drop]
    omega
  rw [hsplit, advanceBy_append]
  exact compare_advanceBy hbetween _

/-- Positions in one text are ordered as the numbers of characters before them. -/
theorem compare_take {i j : Nat} {text : List Char} (hi : i ≤ text.length) (hj : j ≤ text.length)
    (p : Position) : (p.advanceBy (text.take i)).compare (p.advanceBy (text.take j)) =
      some (Ord.compare i j) := by
  rcases Nat.lt_trichotomy i j with h | rfl | h
  · rw [compare_take_of_lt h hj, Nat.compare_eq_lt.2 h]
  · rw [compare_self, Nat.compare_eq_eq.2 rfl]
  · rw [compare_swap, compare_take_of_lt h hi, Nat.compare_eq_gt.2 h]
    rfl

theorem offset_take {i : Nat} {text : List Char} (hi : i ≤ text.length) (p : Position) :
    (p.advanceBy (text.take i)).offset = p.offset + i := by
  rw [offset_advanceBy, List.length_take, Nat.min_eq_left hi]

/-! ## Equality and order -/

theorem sameAs_iff : p.sameAs q ↔ p.compare q = some .eq := decide_eq_true_iff

theorem before_iff : p.before q ↔ p.compare q = some .lt := decide_eq_true_iff

theorem after_iff : p.after q ↔ p.compare q = some .gt := decide_eq_true_iff

theorem notAfter_iff : p.notAfter q ↔ p.compare q = some .lt ∨ p.compare q = some .eq := by
  rw [notAfter, Bool.or_eq_true, before_iff, sameAs_iff]

theorem notBefore_iff : p.notBefore q ↔ p.compare q = some .gt ∨ p.compare q = some .eq := by
  rw [notBefore, Bool.or_eq_true, after_iff, sameAs_iff]

/-- The positions are neither equal nor ordered. -/
structure Apart (p q : Position) : Prop where
  compare : p.compare q = none
  sameAs : ¬ p.sameAs q
  before : ¬ p.before q
  notAfter : ¬ p.notAfter q
  after : ¬ p.after q
  notBefore : ¬ p.notBefore q

theorem apart_of_file_ne (h : p.file ≠ q.file) : p.Apart q := by
  have hnone := compare_eq_none_iff.2 h
  constructor <;> simp [sameAs_iff, before_iff, after_iff, notAfter_iff, notBefore_iff, hnone]

/-- Two positions met in reading one text are equal, and hashed alike, exactly if their offsets are
equal, and they are ordered as these are. None of them is equal to a position of another file, below
or above it. Equality, order and hashing do not look at the offsets. -/
theorem compare_reading (p : Position) (text : List Char) :
    (∀ i ≤ text.length, ∀ j ≤ text.length,
      let q := p.advanceBy (text.take i)
      let r := p.advanceBy (text.take j)
      q.compare r = some (Ord.compare i j) ∧
        (q.sameAs r ↔ q.offset = r.offset) ∧ (q.key = r.key ↔ q.offset = r.offset) ∧
        (q.before r ↔ q.offset < r.offset) ∧ (q.notAfter r ↔ q.offset ≤ r.offset) ∧
        (q.after r ↔ q.offset > r.offset) ∧ (q.notBefore r ↔ q.offset ≥ r.offset)) ∧
    (∀ i, ∀ q : Position, q.file ≠ p.file →
      q.Apart (p.advanceBy (text.take i)) ∧ (p.advanceBy (text.take i)).Apart q) ∧
    ∀ (q r : Position) (m n : Int),
      { q with offset := m }.compare { r with offset := n } = q.compare r ∧
        { q with offset := m }.key = q.key := by
  refine ⟨?_, ?_, fun _ _ _ _ => ⟨rfl, rfl⟩⟩
  · intro i hi j hj q r
    have hcompare : q.compare r = some (Ord.compare i j) := compare_take hi hj p
    have hq : q.offset = p.offset + i := offset_take hi p
    have hr : r.offset = p.offset + j := offset_take hj p
    rw [← compare_eq_eq_iff, sameAs_iff, before_iff, after_iff, notAfter_iff, notBefore_iff, hcompare,
      hq, hr]
    simp only [Option.some_inj, Nat.compare_eq_eq, Nat.compare_eq_lt, Nat.compare_eq_gt]
    refine ⟨trivial, ?_⟩
    omega
  · intro i q hq
    have hfile : (p.advanceBy (text.take i)).file = p.file := file_advanceBy _ _
    exact ⟨apart_of_file_ne (hfile ▸ hq), apart_of_file_ne (hfile ▸ hq.symm)⟩

/-- Behind a newline the column falls back, and the position comes later all the same. -/
theorem compare_reading_newline :
    let p : Position := ⟨3, 7, 40, ⟨0⟩⟩
    let text := ['a', '\n', 'b']
    let q := p.advanceBy (text.take 1)
    let r := p.advanceBy (text.take 2)
    let other : Position := ⟨4, 1, 42, ⟨1⟩⟩
    q = ⟨3, 8, 41, ⟨0⟩⟩ ∧ r = ⟨4, 1, 42, ⟨0⟩⟩ ∧ 1 ≤ text.length ∧ 2 ≤ text.length ∧
      q.compare r = some .lt ∧ (r.after q ↔ r.offset > q.offset) ∧ other.file ≠ p.file ∧
      other.Apart r := by
  intro p text q r other
  have h1 : 1 ≤ text.length := by decide
  have h2 : 2 ≤ text.length := by decide
  have hother : other.file ≠ p.file := by decide
  obtain ⟨hordered, hapart, -⟩ := compare_reading p text
  obtain ⟨hcompare, -⟩ := hordered 1 h1 2 h2
  obtain ⟨-, -, -, -, -, hafter, -⟩ := hordered 2 h2 1 h1
  exact ⟨rfl, rfl, h1, h2, hcompare, hafter, hother, (hapart 2 other hother).1⟩

end ScriptSyntax.Position
