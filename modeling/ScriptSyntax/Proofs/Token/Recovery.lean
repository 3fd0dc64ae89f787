/-
Reading on and on. However a reading ends, with a token or with an error, the next one goes on from
the text it left and answers as if the source began there, with its places shifted
(`Cursor.next_shift`). A reading that does not find the end of the input takes something off the
front of the text (`Reading.read_ne_nil`), so the end is found after at most as many readings as the
source has characters, and by every reading from then on (`Cursor.answer_resumes`).
-/
import ScriptSyntax.Proofs.Source.Moved

namespace ScriptSyntax

/-! ## Shifted positions -/

namespace Position

theorem row_le_row_advance (q : Position) (c : Char) : q.row ≤ (q.advance c).row := by
  unfold advance
  split
  · exact Int.le_add_of_nonneg_right (by decide)
  · exact Int.le_refl _

/-- The position `q` of a text that begins at `p`. -/
def shift (p q : Position) : Position :=
  if q.row = 1 then ⟨p.row, p.col + (q.col - 1), p.offset + q.offset, p.file⟩
  else ⟨p.row + (q.row - 1), q.col, p.offset + q.offset, p.file⟩

theorem shift_advance (p : Position) {q : Position} (hq : 1 ≤ q.row) (c : Char) :
    p.shift (q.advance c) = (p.shift q).advance c := by
  by_cases hc : c = '\n'
  · have hrow : q.row + 1 ≠ 1 := by omega
    unfold shift advance
    simp only [if_pos hc, if_neg hrow]
    split <;> simp only [mk.injEq, and_true, true_and] <;> omega
  · unfold shift advance
    simp only [if_neg hc]
    split <;> simp only [mk.injEq, and_true, true_and] <;> omega

theorem shift_advanceBy (p : Position) {q : Position} (hq : 1 ≤ q.row) (cs : List Char) :
    p.shift (q.advanceBy cs) = (p.shift q).advanceBy cs := by
  induction cs generalizing q with
  | nil => rfl
  | cons c cs ih =>
    rw [advanceBy_cons, advanceBy_cons, ih (Int.le_trans hq (row_le_row_advance q c)),
      shift_advance p hq]

theorem shift_startOf_advanceBy (p : Position) (file : Symbol) (cs : List Char) :
    p.shift ((startOf file).advanceBy cs) = p.advanceBy cs := by
  rw [shift_advanceBy p (Int.le_refl 1)]
  simp [shift, startOf]

theorem offset_startOf_advanceBy (file : Symbol) (cs : List Char) :
    ((startOf file).advanceBy cs).offset = cs.length := by
  rw [offset_advanceBy]
  exact Int.zero_add _

end Position

/-! ## One reading -/

/-- A reading from `p`: the text it takes off the front, the text it leaves and its answer. -/
inductive Reading (p : Position) : List Char → List Char → Except LexError Token → Prop
  | token {gap lexeme rest : List Char} {m : Meaning} : lexeme ≠ [] → m ≠ .eof →
      Reading p (gap ++ lexeme) rest
        (.ok ⟨m, String.ofList lexeme, .ofText (p.advanceBy gap) lexeme⟩)
  | error {read rest : List Char} {e : LexError} : read ≠ [] → Reading p read rest (.error e)
  | eof {gap : List Char} : Reading p gap [] (.ok (.eof (p.advanceBy gap)))

namespace Reading

variable {p : Position} {read rest : List Char} {t : Token}

/-- A reading that does not find the end takes something. -/
theorem read_ne_nil {r : Except LexError Token} (h : Reading p read rest r)
    (hr : ∀ t, r = .ok t → t.kind ≠ .eof) : read ≠ [] := by
  cases h with
  | token hl => exact List.append_ne_nil_of_right_ne_nil _ hl
  | error hread => exact hread
  | eof => exact absurd rfl (hr _ rfl)

theorem of_kind_ne_eof (h : Reading p read rest (.ok t)) (ht : t.kind ≠ .eof) :
    ∃ gap, read = gap ++ t.lexeme.toList ∧ t.lexeme.toList ≠ [] ∧
      t.span = .ofText (p.advanceBy gap) t.lexeme.toList := by
  cases h with
  | @token gap lexeme _ _ hl =>
    rw [String.toList_ofList]
    exact ⟨gap, rfl, hl, rfl⟩
  | eof => exact absurd rfl ht

theorem of_kind_eq_eof (h : Reading p read rest (.ok t)) (ht : t.kind = .eof) :
    rest = [] ∧ t = .eof (p.advanceBy read) := by
  cases h with
  | token _ hm => exact absurd (Meaning.kind_eq_eof.1 ht) hm
  | eof => exact ⟨rfl, rfl⟩

theorem offset_le_start (h : Reading p read rest (.ok t)) : p.offset ≤ t.span.start.offset := by
  obtain ⟨gap, hgap⟩ : ∃ gap, t.span.start = p.advanceBy gap := by
    cases h <;> exact ⟨_, rfl⟩
  rw [hgap, Position.offset_advanceBy]
  exact Int.le_add_of_nonneg_right (Int.natCast_nonneg _)

end Reading

theorem FaultAt.consumed_ne_nil {f : LexFault} (h : FaultAt f) : f.consumed ≠ [] := by
  cases h with
  | numberOutOfRange hs => exact hs.ne_nil
  | @string raw _ f _ hf => cases hf <;> exact List.cons_ne_nil _ _
  | _ => exact List.cons_ne_nil _ _

namespace Cursor

variable {k : Cursor}

theorem exists_reading (k : Cursor) : ∃ read, k.rest = read ++ k.next.2.rest ∧
    k.next.2.position = k.position.advanceBy read ∧
    Reading k.position read k.next.2.rest k.next.1 := by
  rw [next]
  cases hs : Scan.ofText k.rest with
  | token gap m lexeme rest =>
    obtain ⟨htext, -, hat⟩ := Scan.ofText_eq_token_iff.1 hs
    exact ⟨gap ++ lexeme, htext, (Position.advanceBy_append ..).symm,
      .token hat.spelling.ne_nil hat.spelling.ne_eof⟩
  | eof gap =>
    obtain ⟨htext, -⟩ := Scan.ofText_eq_eof_iff.1 hs
    exact ⟨gap, by rw [htext, List.append_nil], rfl, .eof⟩
  | fault gap f =>
    obtain ⟨htext, -, hf⟩ := Scan.ofText_eq_fault_iff.1 hs
    refine ⟨gap ++ f.consumed, ?_, (Position.advanceBy_append ..).symm, .error ?_⟩
    · rw [htext, ← f.consumed_append_resume, List.append_assoc]
    · exact List.append_ne_nil_of_right_ne_nil _ hf.consumed_ne_nil

/-- What is read does not hang on where it stands. -/
theorem next_shift (k : Cursor) (file : Symbol) :
    let fresh := Cursor.next ⟨.startOf file, k.rest⟩
    k.next = ((fresh.1.map (Token.moved k.position.shift)).mapError (LexError.moved k.position.shift),
      ⟨k.position.shift fresh.2.position, fresh.2.rest⟩) := by
  intro fresh
  have hp := Position.shift_startOf_advanceBy k.position file
  have hspan : ∀ gap cs : List Char,
      (Span.ofText ((Position.startOf file).advanceBy gap) cs).moved k.position.shift =
        .ofText (k.position.advanceBy gap) cs := by
    intro gap cs
    rw [Span.moved, Span.ofText, Span.ofText, ← Position.advanceBy_append, hp, hp,
      Position.advanceBy_append]
  show k.next = _
  simp only [fresh, next]
  cases Scan.ofText k.rest with
  | token gap m lexeme rest =>
    simp only [← Position.advanceBy_append, hp]
    simp only [Except.map, Except.mapError, Token.moved, hspan]
  | eof gap =>
    simp only [hp]
    simp only [Except.map, Except.mapError, Token.moved, Token.eof, Span.moved, Span.point, hp]
  | fault gap f =>
    simp only [← Position.advanceBy_append, hp]
    simp only [Except.map, Except.mapError, LexFault.error, LexError.moved,
      ← Position.advanceBy_append, hp, hspan]

/-- The end, once found, is found again. -/
theorem next_nil (p : Position) : next ⟨p, []⟩ = (.ok (.eof p), ⟨p, []⟩) := by
  have hs : Scan.ofText [] = .eof [] := Scan.ofText_eq_eof_iff.2 ⟨rfl, .nil⟩
  rw [next, hs]
  rfl

/-! ## Many readings -/

/-- The place behind so many readings. -/
def after (k : Cursor) : Nat → Cursor
  | 0 => k
  | n + 1 => (k.after n).next.2

/-- The answer of the reading behind so many others. -/
def answer (k : Cursor) (n : Nat) : Except LexError Token := (k.after n).next.1

/-- A place in a source, with the text on either side of it. -/
structure InSource (file : Symbol) (src : String) (before : List Char) (k : Cursor) : Prop where
  text : src.toList = before ++ k.rest
  position : k.position = (Position.startOf file).advanceBy before

section Source

variable {file : Symbol} {src : String} {before : List Char}

theorem InSource.offset (h : k.InSource file src before) : k.position.offset = before.length := by
  rw [h.position, Position.offset_startOf_advanceBy]

theorem InSource.exists_next (h : k.InSource file src before) : ∃ read,
    k.next.2.InSource file src (before ++ read) ∧ Reading k.position read k.next.2.rest k.next.1 := by
  obtain ⟨read, hrest, hposition, hreading⟩ := k.exists_reading
  refine ⟨read, ⟨?_, ?_⟩, hreading⟩
  · rw [h.text, hrest, List.append_assoc]
  · rw [hposition, h.position, Position.advanceBy_append]

theorem exists_inSource_after (file : Symbol) (src : String) (n : Nat) :
    ∃ before, ((ofText file src).after n).InSource file src before := by
  induction n with
  | zero => exact ⟨[], rfl, rfl⟩
  | succ n ih =>
    obtain ⟨before, h⟩ := ih
    obtain ⟨read, hnext, -⟩ := h.exists_next
    exact ⟨_, hnext⟩

theorem offset_after_le (file : Symbol) (src : String) {m n : Nat} (h : m ≤ n) :
    ((ofText file src).after m).position.offset ≤ ((ofText file src).after n).position.offset := by
  induction h with
  | refl => exact Int.le_refl _
  | @step n _ ih =>
    obtain ⟨before, hn⟩ := exists_inSource_after file src n
    obtain ⟨read, hnext, -⟩ := hn.exists_next
    refine Int.le_trans ih ?_
    show _ ≤ ((ofText file src).after n).next.2.position.offset
    rw [hn.offset, hnext.offset, List.length_append]
    omega

/-- As long as the end is not found, each reading takes a character at least. -/
theorem length_rest_after_add_le (n : Nat)
    (h : ∀ m < n, ∀ t, (ofText file src).answer m = .ok t → t.kind ≠ .eof) :
    ((ofText file src).after n).rest.length + n ≤ src.length := by
  induction n with
  | zero => exact Nat.le_of_eq String.length_toList
  | succ n ih =>
    have hle := ih fun m hm => h m (Nat.lt_succ_of_lt hm)
    obtain ⟨read, hrest, -, hreading⟩ := ((ofText file src).after n).exists_reading
    have hread := List.length_pos_iff.2 (hreading.read_ne_nil (h n (Nat.lt_succ_self n)))
    rw [hrest, List.length_append] at hle
    rw [after]
    omega

/-- Behind the end nothing is left, and nothing more is found. -/
theorem after_of_eof {n : Nat} {t : Token} (h : (ofText file src).answer n = .ok t)
    (ht : t.kind = .eof) {m : Nat} (hm : n ≤ m) :
    (ofText file src).answer m = .ok (.eof ((Position.startOf file).advanceBy src.toList)) ∧
      (ofText file src).after (m + 1) = ⟨(Position.startOf file).advanceBy src.toList, []⟩ := by
  induction hm with
  | refl =>
    obtain ⟨before, hn⟩ := exists_inSource_after file src n
    obtain ⟨read, hnext, hreading⟩ := hn.exists_next
    rw [answer] at h
    rw [h] at hreading
    obtain ⟨hrest, rfl⟩ := hreading.of_kind_eq_eof ht
    have htext := hnext.text
    rw [hrest, List.append_nil] at htext
    rw [hn.position, ← Position.advanceBy_append, ← htext] at h
    refine ⟨h, ?_⟩
    show ((ofText file src).after n).next.2 = _
    rw [← hrest, htext, ← hnext.position]
  | @step m _ ih =>
    have hnext := congrArg next ih.2
    rw [next_nil] at hnext
    exact ⟨congrArg Prod.fst hnext, congrArg Prod.snd hnext⟩

end Source

end Cursor

/-- A token that is found has the lexeme that stands at its span, in the stretch of text that its
reading takes. -/
theorem Reading.slice {file : Symbol} {src : String} {before read rest : List Char} {t : Token}
    (h : Reading ((Position.startOf file).advanceBy before) read rest (.ok t)) (ht : t.kind ≠ .eof)
    (hsrc : src.toList = before ++ read ++ rest) : ∃ i j : Nat, t.span.start.offset = i ∧
      t.span.stop.offset = j ∧ before.length ≤ i ∧ i ≤ j ∧ j < (before ++ read).length ∧
      t.lexeme.toList = (src.toList.drop i).take (j + 1 - i) := by
  obtain ⟨gap, rfl, hlexeme, hspan⟩ := h.of_kind_ne_eof ht
  have hpos := List.length_pos_iff.2 hlexeme
  refine ⟨(before ++ gap).length, (before ++ gap ++ t.lexeme.toList.dropLast).length, ?_, ?_, ?_, ?_,
    ?_, ?_⟩
  · rw [hspan, Span.ofText, ← Position.advanceBy_append,
      Position.offset_startOf_advanceBy]
  · rw [hspan, Span.ofText, ← Position.advanceBy_append, ← Position.advanceBy_append,
      Position.offset_startOf_advanceBy]
  · rw [List.length_append]
    exact Nat.le_add_right _ _
  · rw [@List.length_append _ (before ++ gap)]
    exact Nat.le_add_right _ _
  · simp only [List.length_append, List.length_dropLast]
    omega
  · have hlen : (before ++ gap ++ t.lexeme.toList.dropLast).length + 1 - (before ++ gap).length =
        t.lexeme.toList.length := by
      rw [List.length_append, List.length_dropLast]
      omega
    rw [hlen, hsrc, ← List.append_assoc before, List.append_assoc (before ++ gap), List.drop_left,
      List.take_left]

namespace Cursor

section Source

variable {file : Symbol} {src : String}

/-- A token that is found lies behind every one found before it, errors between them or not. -/
theorem stop_lt_start {m n : Nat} (hmn : m < n) {t u : Token}
    (ht : (ofText file src).answer m = .ok t) (hu : (ofText file src).answer n = .ok u)
    (hkind : t.kind ≠ .eof) : t.span.stop.offset < u.span.start.offset := by
  obtain ⟨before, hm⟩ := exists_inSource_after file src m
  obtain ⟨read, hnext, hreading⟩ := hm.exists_next
  obtain ⟨before', hn⟩ := exists_inSource_after file src n
  obtain ⟨read', -, hreading'⟩ := hn.exists_next
  rw [answer] at ht hu
  rw [hm.position, ht] at hreading
  rw [hu] at hreading'
  obtain ⟨i, j, -, hj, -, -, hlt, -⟩ := hreading.slice hkind hnext.text
  calc t.span.stop.offset
      < (before ++ read).length := hj ▸ Int.ofNat_lt.2 hlt
    _ = ((ofText file src).after (m + 1)).position.offset := hnext.offset.symm
    _ ≤ ((ofText file src).after n).position.offset := offset_after_le file src hmn
    _ ≤ u.span.start.offset := hreading'.offset_le_start

/-- The first reading that finds the end. -/
theorem exists_first_eof (file : Symbol) (src : String) : ∃ n ≤ src.length,
    (∀ m < n, ∀ t, (ofText file src).answer m = .ok t → t.kind ≠ .eof) ∧
      ∃ t, (ofText file src).answer n = .ok t ∧ t.kind = .eof := by
  have hex : ∃ n t, (ofText file src).answer n = .ok t ∧ t.kind = .eof := by
    by_contra hno
    have := @length_rest_after_add_le file src (src.length + 1)
      fun m _ t ht hkind => hno ⟨m, t, ht, hkind⟩
    omega
  classical
  have hmin : ∀ m < Nat.find hex, ∀ t, (ofText file src).answer m = .ok t → t.kind ≠ .eof :=
    fun m hm t ht hkind => Nat.find_min hex hm ⟨t, ht, hkind⟩
  have hlength := length_rest_after_add_le _ hmin
  exact ⟨Nat.find hex, by omega, hmin, Nat.find_spec hex⟩

end Source

end Cursor

/-- Reading a source on and on. Every reading takes up where the one before it stopped, whether that
found a token or an error, takes something off unless it finds the end, and answers as the first
reading of the text that is left, its places shifted. The tokens found are stretches of the source,
one behind the other, and the end is found after at most as many readings as there are characters. -/
theorem Cursor.answer_resumes (file : Symbol) (src : String) :
    let k := Cursor.ofText file src
    (∀ n, ∃ before read,
      (k.after n).InSource file src before ∧ (k.after (n + 1)).InSource file src (before ++ read) ∧
      ((∀ t, k.answer n = .ok t → t.kind ≠ .eof) → read ≠ []) ∧
      (let shift := (k.after n).position.shift
       let fresh := Cursor.ofText file (String.ofList (k.after n).rest)
       k.answer n = ((fresh.answer 0).map (Token.moved shift)).mapError (LexError.moved shift) ∧
        k.after (n + 1) = ⟨shift (fresh.after 1).position, (fresh.after 1).rest⟩) ∧
      ∀ t, k.answer n = .ok t → t.kind ≠ .eof → ∃ i j : Nat, t.span.start.offset = i ∧
        t.span.stop.offset = j ∧ before.length ≤ i ∧ i ≤ j ∧ j < (before ++ read).length ∧
        t.lexeme.toList = (src.toList.drop i).take (j + 1 - i)) ∧
    (∀ m n t u, m < n → k.answer m = .ok t → k.answer n = .ok u → t.kind ≠ .eof →
      t.span.stop.offset < u.span.start.offset) ∧
    ∃ n ≤ src.length, (∀ m < n, ∀ t, k.answer m = .ok t → t.kind ≠ .eof) ∧
      ∀ m, n ≤ m → ∃ p : Position, p = (Position.startOf file).advanceBy src.toList ∧
        p.offset = src.length ∧ k.answer m = .ok (.eof p) := by
  intro k
  refine ⟨?_, ?_, ?_⟩
  · intro n
    obtain ⟨before, hn⟩ := exists_inSource_after file src n
    obtain ⟨read, hnext, hreading⟩ := hn.exists_next
    refine ⟨before, read, hn, hnext, hreading.read_ne_nil, ?_, ?_⟩
    · intro shift fresh
      have hfresh : fresh = ⟨.startOf file, (k.after n).rest⟩ :=
        congrArg (Cursor.mk _) String.toList_ofList
      rw [hfresh]
      have hshift := (k.after n).next_shift file
      exact ⟨congrArg Prod.fst hshift, congrArg Prod.snd hshift⟩
    · intro t hanswer ht
      rw [answer] at hanswer
      rw [hn.position, hanswer] at hreading
      exact hreading.slice ht hnext.text
  · exact fun m n t u hmn ht hu hkind => stop_lt_start hmn ht hu hkind
  · obtain ⟨n, hn, hmin, t, ht, hkind⟩ := exists_first_eof file src
    refine ⟨n, hn, hmin, fun m hm => ⟨_, rfl, ?_, (after_of_eof ht hkind hm).1⟩⟩
    rw [Position.offset_startOf_advanceBy, String.length_toList]

/-- The letter at which a number breaks off begins the next token. -/
theorem Cursor.answer_resumes_runs_on :
    let k := Cursor.ofText ⟨0⟩ "1a b"
    let p (n : Nat) : Position := ⟨1, n + 1, n, ⟨0⟩⟩
    (∃ e, k.answer 0 = .error e) ∧ k.answer 1 = .ok ⟨.name, "a", .point (p 1)⟩ ∧
      k.answer 2 = .ok ⟨.name, "b", .point (p 3)⟩ ∧ (p 1).offset < (p 3).offset ∧
      ∃ before read : List Char, (k.after 0).InSource ⟨0⟩ "1a b" before ∧ read ≠ [] := by
  intro k p
  have h0 : k.answer 0 = .error ⟨.charAfterNumber 'a', p 0, .point (p 1)⟩ := by decide +kernel
  have h1 : k.answer 1 = .ok ⟨.name, "a", .point (p 1)⟩ := by decide +kernel
  have h2 : k.answer 2 = .ok ⟨.name, "b", .point (p 3)⟩ := by decide +kernel
  obtain ⟨hstretch, hordered, -⟩ := Cursor.answer_resumes ⟨0⟩ "1a b"
  obtain ⟨before, read, hin, -, hread, -⟩ := hstretch 0
  refine ⟨⟨_, h0⟩, h1, h2, hordered 1 2 _ _ (by decide) h1 h2 (by decide), before, read, hin, ?_⟩
  refine hread fun t ht => ?_
  cases h0.symm.trans ht

end ScriptSyntax
