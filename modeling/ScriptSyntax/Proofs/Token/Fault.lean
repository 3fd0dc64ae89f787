/-
Why no lexeme stands in front of a text: the faults, written without a lexer (`FaultAt`). Behind a
gap there is a character that begins no lexeme, a number that runs into a name or has no value, a
string that something breaks off, or a comment that nothing closes. Where a step reports a fault,
that fault is at its place, and it reports every fault that is (`Scan.ofText_eq_fault_iff`).
-/
import ScriptSyntax.Proofs.Token.Cut

namespace ScriptSyntax

open Text

/-! ## Faults -/

/-- The same fault with more text read before it. -/
def LexFault.behind (cs : List Char) (f : LexFault) : LexFault := { f with before := cs ++ f.before }

@[simp] theorem LexFault.whole_behind (cs : List Char) (f : LexFault) :
    (f.behind cs).whole = cs ++ f.whole := by
  simp [behind, whole]

/-- What stands before the last of the characters to point at. -/
def LexFault.stem (f : LexFault) : List Char := f.before ++ f.marked.dropLast

theorem LexFault.stem_concat (f : LexFault) (h : f.marked ≠ []) :
    f.stem ++ [f.marked.getLast h] = f.before ++ f.marked := by
  rw [stem, List.append_assoc, List.dropLast_concat_getLast]

theorem LexFault.stem_prefix_whole (f : LexFault) : f.stem <+: f.whole :=
  ((List.prefix_append_right_inj _).2 (List.dropLast_prefix _)).trans (List.prefix_append _ _)

theorem LexFault.stop_error (f : LexFault) (p : Position) :
    (f.error p).span.stop = p.advanceBy f.stem := by
  rw [stem, Position.advanceBy_append]
  rfl

/-- What stands in a string literal and breaks it off. -/
inductive BreaksString : LexFault → Prop
  | lineEnd {after : List Char} : BreaksString ⟨.openString true, [], ['\n'], after⟩
  | textEnd : BreaksString ⟨.openString false, [], [], []⟩
  | escape {e : Char} {after : List Char} : unescape? e = none →
      BreaksString ⟨.unknownEscape e, [], ['\\', e], after⟩
  | escapeEnd : BreaksString ⟨.openEscape, ['\\'], [], []⟩

/-- What stands where a lexeme is due and is none. -/
inductive FaultAt : LexFault → Prop
  | unexpectedChar {c : Char} {after : List Char} : isBlank c = false →
      (∀ lexeme o, Spelling lexeme o → lexeme.head? ≠ some c) →
      FaultAt ⟨.unexpectedChar c, [], [c], after⟩
  | charAfterNumber {d c : Char} {digits after : List Char} {o : Option Meaning} :
      isDigit d = true → Spelling (d :: digits) o → isNamePart c = true → isDigit c = false →
      FaultAt ⟨.charAfterNumber c, d :: digits, [c], after⟩
  | numberOutOfRange {lexeme after : List Char} : Spelling lexeme none → EndsRun isNamePart after →
      ((∀ d ∈ lexeme, isDigit d = true) → after.head? ≠ some '.') →
      FaultAt ⟨.numberOutOfRange, [], lexeme, after⟩
  | string {raw value : List Char} {f : LexFault} : StringBody raw value → BreaksString f →
      FaultAt (f.behind ('"' :: raw))
  | comment {body : List Char} : ¬ ['*', '/'] <:+: body →
      FaultAt ⟨.openComment, '/' :: '*' :: body, [], []⟩

/-! ## Numbers -/

/-- Only a number has no meaning. -/
theorem Spelling.isDigit_head {c : Char} {cs : List Char} (h : Spelling (c :: cs) none) :
    isDigit c = true := by
  by_contra hd
  by_cases hs : isNameStart c = true
  · cases (h.of_isNameStart hs).2
  by_cases hq : c = '"'
  · subst hq
    obtain ⟨_, _, -, -, ho⟩ := h.of_quote
    cases ho
  · obtain ⟨_, -, ho⟩ := h.of_other (by simpa using hd) hq (by simpa using hs)
    cases ho

namespace Lexeme

theorem ofNumberParts_eq_fault_iff {ds rest : List Char} {v : Option Literal} {f : LexFault} :
    ofNumberParts ds v rest = .fault f ↔
      (∃ c cs, rest = c :: cs ∧ isNamePart c = true ∧ f = ⟨.charAfterNumber c, ds, [c], cs⟩) ∨
        EndsRun isNamePart rest ∧ v = none ∧ f = ⟨.numberOutOfRange, [], ds, rest⟩ := by
  have key : ∀ rest, ofValue ds v rest = .fault f ↔ v = none ∧ f = ⟨.numberOutOfRange, [], ds, rest⟩ := by
    intro rest
    cases v <;> simp [ofValue, eq_comm]
  cases rest with
  | nil => simp [ofNumberParts, key, endsRun_nil]
  | cons c cs =>
    rw [ofNumberParts, endsRun_cons]
    cases hc : isNamePart c with
    | true =>
      simp only [if_true, fault.injEq, Bool.true_eq_false, false_and, or_false]
      constructor
      · rintro rfl
        exact ⟨c, cs, rfl, hc, rfl⟩
      · rintro ⟨_, _, hcons, -, rfl⟩
        cases hcons
        rfl
    | false => simp [hc, key]

theorem faultAt_of_ofNumber {c : Char} {cs : List Char} {f : LexFault} (hc : isDigit c = true)
    (h : ofNumber (c :: cs) = .fault f) : FaultAt f := by
  -- the digits and what ends them, whether a point stands among them or not
  have key : ∀ {ds rest v}, c :: cs = ds ++ rest → ds ≠ [] → Spelling ds (v.map .literal) →
      EndsRun isDigit rest → ((∀ d ∈ ds, isDigit d = true) → rest.head? ≠ some '.') →
      ofNumberParts ds v rest = .fault f → FaultAt f := by
    intro ds rest v htext hne hs hr hp hf
    rcases ofNumberParts_eq_fault_iff.1 hf with ⟨d, rest, rfl, hd, rfl⟩ | ⟨hn, rfl, rfl⟩
    · obtain ⟨e, ds, rfl⟩ := List.exists_cons_of_ne_nil hne
      cases htext
      exact .charAfterNumber hc hs hd (endsRun_cons.1 hr)
    · exact .numberOutOfRange hs hn hp
  rcases number_cases (c :: cs) with ⟨ds, rest, ht, hd, hr, hp⟩ | ⟨whole, fraction, rest, ht, hw, hf, hr⟩
  · have hne : ds ≠ [] := by
      rintro rfl
      rw [List.nil_append] at ht
      rw [← ht, endsRun_cons, hc] at hr
      cases hr
    rw [ht, ofNumber_int hd hr hp] at h
    exact key ht hne (intValue?_map ds ▸ .int hne hd) hr (fun _ => hp) h
  · have hne : whole ≠ [] := by
      rintro rfl
      cases ht
      cases hc
    rw [ht, ofNumber_float hw hf hr] at h
    refine key (by simpa using ht) (by simp) (floatValue?_map whole fraction ▸ .float hne hw hf) hr ?_ h
    exact fun hall => absurd (hall '.' (by simp)) (by decide)

theorem ofNumber_of_charAfterNumber {d c : Char} {digits after : List Char} {o : Option Meaning}
    (hd : isDigit d = true) (hs : Spelling (d :: digits) o) (hc : isNamePart c = true)
    (hcd : isDigit c = false) :
    ofNumber (d :: digits ++ c :: after) = .fault ⟨.charAfterNumber c, d :: digits, [c], after⟩ := by
  have hr : EndsRun isDigit (c :: after) := endsRun_cons.2 hcd
  have hp : (c :: after).head? ≠ some '.' := by
    rintro hp
    cases hp
    revert hc
    decide
  rcases hs.of_isDigit hd with ⟨hall, -⟩ | ⟨whole, fraction, he, -, hw, hf, -⟩
  · rw [ofNumber_int hall hr hp, ofNumberParts_eq_fault_iff]
    exact .inl ⟨c, after, rfl, hc, rfl⟩
  · rw [he, List.append_assoc, List.cons_append, ofNumber_float hw hf hr, ofNumberParts_eq_fault_iff]
    exact .inl ⟨c, after, rfl, hc, rfl⟩

theorem ofNumber_of_numberOutOfRange {lexeme after : List Char} (hs : Spelling lexeme none)
    (hn : EndsRun isNamePart after)
    (hp : (∀ d ∈ lexeme, isDigit d = true) → after.head? ≠ some '.') :
    ofNumber (lexeme ++ after) = .fault ⟨.numberOutOfRange, [], lexeme, after⟩ := by
  have hr : EndsRun isDigit after := hn.mono fun _ => isNamePart_of_isDigit
  have value : ∀ {v : Option Literal}, none = v.map Meaning.literal → v = none :=
    fun hv => Option.map_eq_none_iff.1 hv.symm
  obtain ⟨c, cs, rfl⟩ := List.exists_cons_of_ne_nil hs.ne_nil
  rcases hs.of_isDigit hs.isDigit_head with ⟨hall, hv⟩ | ⟨whole, fraction, he, -, hw, hf, hv⟩
  · rw [ofNumber_int hall hr (hp hall), ofNumberParts_eq_fault_iff]
    exact .inr ⟨hn, value hv, rfl⟩
  · rw [he, List.append_assoc, List.cons_append, ofNumber_float hw hf hr, ofNumberParts_eq_fault_iff]
    exact .inr ⟨hn, value hv, rfl⟩

/-! ## Strings and marks -/

theorem Body.prepend_eq_fault {b : Body} {raw value : List Char} {f : LexFault} :
    b.prepend raw value = .fault f ↔ ∃ g, b = .fault g ∧ f = g.behind raw := by
  cases b <;> simp [prepend, LexFault.behind, eq_comm]

theorem Body.ofText_eq_fault_iff {cs : List Char} {f : LexFault} : Body.ofText cs = .fault f ↔
    ∃ raw value g, StringBody raw value ∧ BreaksString g ∧ cs = raw ++ g.whole ∧ f = g.behind raw := by
  constructor
  · intro h
    fun_induction Body.ofText cs generalizing f with
    | case1 => cases h; exact ⟨[], [], _, .nil, .textEnd, rfl, rfl⟩
    | case2 cs => cases h; exact ⟨[], [], _, .nil, .lineEnd, rfl, rfl⟩
    | case3 => cases h
    | case4 => cases h; exact ⟨[], [], _, .nil, .escapeEnd, rfl, rfl⟩
    | case5 e cs c he ih =>
      obtain ⟨_, hb, rfl⟩ := Body.prepend_eq_fault.1 h
      obtain ⟨raw, value, g, hraw, hg, rfl, rfl⟩ := ih hb
      exact ⟨_, _, g, .escape (unescape?_eq_some.1 he) hraw, hg, rfl, rfl⟩
    | case6 e cs he => cases h; exact ⟨[], [], _, .nil, .escape he, rfl, rfl⟩
    | case7 c cs hn hq h1 h2 ih =>
      obtain ⟨_, hb, rfl⟩ := Body.prepend_eq_fault.1 h
      obtain ⟨raw, value, g, hraw, hg, rfl, rfl⟩ := ih hb
      refine ⟨_, _, g, .char hq ?_ hn hraw, hg, rfl, rfl⟩
      rintro rfl
      cases hcs : raw ++ g.whole with
      | nil => exact h1 rfl hcs
      | cons d ds => exact h2 d ds rfl hcs
  · rintro ⟨raw, value, g, hraw, hg, rfl, rfl⟩
    have hbreak : Body.ofText g.whole = .fault g := by
      cases hg with
      | lineEnd => rfl
      | textEnd => rfl
      | @escape e after he =>
        show Body.ofText ('\\' :: e :: after) = _
        rw [Body.ofText, he]
      | escapeEnd => rfl
    rw [Body.ofText_append hraw, hbreak]
    rfl

theorem ofString_eq_fault_iff {cs : List Char} {f : LexFault} : ofString cs = .fault f ↔
    ∃ raw value g, StringBody raw value ∧ BreaksString g ∧ cs = raw ++ g.whole ∧
      f = g.behind ('"' :: raw) := by
  have key : ofString cs = .fault f ↔ ∃ g, Body.ofText cs = .fault g ∧ f = g.behind ['"'] := by
    rw [← @Body.prepend_eq_fault _ ['"'] [] f, ofString]
    cases (Body.ofText cs).prepend ['"'] [] <;> simp
  simp only [key, Body.ofText_eq_fault_iff]
  constructor
  · rintro ⟨_, ⟨raw, value, g, hraw, hg, hcs, rfl⟩, rfl⟩
    exact ⟨raw, value, g, hraw, hg, hcs, rfl⟩
  · rintro ⟨raw, value, g, hraw, hg, hcs, rfl⟩
    exact ⟨_, ⟨raw, value, g, hraw, hg, hcs, rfl⟩, rfl⟩

theorem ofMark_eq_fault_iff {c : Char} {cs : List Char} {f : LexFault} : ofMark c cs = .fault f ↔
    (∀ m : Mark, m.chars ≠ [c]) ∧ f = ⟨.unexpectedChar c, [], [c], cs⟩ := by
  unfold ofMark
  split
  · rename_i m hm
    simp only [reduceCtorEq, false_iff, not_and]
    exact fun h => absurd (Mark.chars_of_ofChars? hm) (h m)
  · rename_i hm
    have hnone : ∀ m : Mark, m.chars ≠ [c] := by
      intro m hmc
      rw [← hmc, Mark.ofChars?_chars] at hm
      cases hm
    simp [hnone, eq_comm]

/-- The fault at the front of a text that begins with no gap is the one that is reported there. -/
theorem ofText_eq_fault_iff {c : Char} {cs : List Char} {f : LexFault} (hb : isBlank c = false)
    (hcomment : ¬ ['/', '*'] <+: c :: cs) :
    ofText c cs = .fault f ↔ c :: cs = f.whole ∧ FaultAt f := by
  constructor
  · intro h
    have hwhole := whole_ofText c cs
    rw [h, whole] at hwhole
    refine ⟨hwhole.symm, ?_⟩
    unfold ofText at h
    split at h
    · exact faultAt_of_ofNumber ‹_› h
    split at h
    · obtain ⟨raw, value, g, hraw, hg, -, rfl⟩ := ofString_eq_fault_iff.1 h
      exact .string hraw hg
    split at h
    · cases h
    · rename_i hd hq hs
      obtain ⟨hm, rfl⟩ := ofMark_eq_fault_iff.1 h
      refine .unexpectedChar hb fun lexeme o hl hhead => ?_
      obtain ⟨l, rfl⟩ := List.head?_eq_some_iff.1 hhead
      -- a mark that begins with the character would begin with a mark of it alone
      obtain ⟨m, hmark, -⟩ := hl.of_other (by simpa using hd) hq (by simpa using hs)
      obtain ⟨n, hn⟩ := m.exists_chars_eq_take 0 (by simp [hmark])
      rw [hmark] at hn
      exact hm n hn
  · rintro ⟨htext, hf⟩
    cases hf with
    | @unexpectedChar c' after _ hno =>
      cases htext
      have hd : ¬ isDigit c = true := fun hd =>
        hno _ _ (.int (List.cons_ne_nil c []) (List.forall_mem_singleton.2 hd)) rfl
      have hq : c ≠ '"' := fun hq => hno _ _ (.string .nil) (hq ▸ rfl)
      have hs : ¬ isNameStart c = true := fun hs => hno _ _ (.word hs (List.forall_mem_nil _)) rfl
      rw [ofText, if_neg hd, if_neg hq, if_neg hs, ofMark_eq_fault_iff]
      exact ⟨fun m hm => hno _ _ (.mark m) (hm ▸ rfl), rfl⟩
    | @charAfterNumber d c' digits after o hd hs hc hcd =>
      have htext : c :: cs = d :: (digits ++ c' :: after) := by simpa [LexFault.whole] using htext
      cases htext
      rw [ofText, if_pos hd]
      exact ofNumber_of_charAfterNumber hd hs hc hcd
    | @numberOutOfRange lexeme after hs hn hp =>
      obtain ⟨d, ds, rfl⟩ := List.exists_cons_of_ne_nil hs.ne_nil
      cases htext
      rw [ofText, if_pos hs.isDigit_head]
      exact ofNumber_of_numberOutOfRange hs hn hp
    | @string raw value g hraw hg =>
      rw [LexFault.whole_behind, List.cons_append] at htext
      cases htext
      exact ofString_eq_fault_iff.2 ⟨raw, value, g, hraw, hg, rfl, rfl⟩
    | comment => exact absurd (htext ▸ List.prefix_append ['/', '*'] _) hcomment

end Lexeme

/-! ## Comments -/

theorem closeComment_eq_none_iff {cs : List Char} :
    closeComment cs = none ↔ ¬ ['*', '/'] <:+: cs := by
  constructor
  · intro h
    fun_induction closeComment cs with
    | case1 => decide
    | case2 => cases h
    | case3 c cs hno ih =>
      rw [List.infix_cons_iff, not_or]
      refine ⟨?_, ih (Option.map_eq_none_iff.1 h)⟩
      rintro ⟨tail, ht⟩
      cases ht
      exact hno tail rfl rfl
  · intro h
    cases hc : closeComment cs with
    | none => rfl
    | some p =>
      obtain ⟨inner, hbody, hcs, -⟩ := closeComment_eq_some_iff.1 hc
      exact absurd ⟨inner, p.2, by rw [hcs, hbody]⟩ h

namespace Gap

theorem prepend_eq_openComment {g : Gap} {cs text comment : List Char} :
    g.prepend cs = .openComment text comment ↔
      ∃ text₀, g = .openComment text₀ comment ∧ text = cs ++ text₀ := by
  cases g with
  | closed => simp [prepend]
  | openComment text₀ comment₀ =>
    simp only [prepend, openComment.injEq]
    constructor
    · rintro ⟨rfl, rfl⟩
      exact ⟨_, ⟨rfl, rfl⟩, rfl⟩
    · rintro ⟨_, ⟨rfl, rfl⟩, rfl⟩
      exact ⟨rfl, rfl⟩

theorem append_of_ofText_eq_openComment {cs gap comment : List Char}
    (h : ofText cs = .openComment gap comment) : gap ++ comment = cs := by
  have hwhole := whole_ofText cs
  rwa [h] at hwhole

/-- A comment that nothing closes takes the rest of the text. -/
theorem ofText_eq_openComment_iff {cs gap comment : List Char} :
    ofText cs = .openComment gap comment ↔ cs = gap ++ comment ∧ IsGap gap comment ∧
      ∃ body, comment = '/' :: '*' :: body ∧ ¬ ['*', '/'] <:+: body := by
  constructor
  · intro h
    refine ⟨(append_of_ofText_eq_openComment h).symm, ?_⟩
    fun_induction ofText cs generalizing gap with
    | case1 | case6 => cases h
    | case2 cs ih =>
      obtain ⟨gap₀, h₀, rfl⟩ := prepend_eq_openComment.1 h
      obtain ⟨hg, hopen⟩ := ih h₀
      exact ⟨.cons (append_of_ofText_eq_openComment h₀ ▸ GapPart.line_takeWhile cs) hg, hopen⟩
    | case3 cs body rest hc ih =>
      obtain ⟨gap₀, h₀, rfl⟩ := prepend_eq_openComment.1 h
      obtain ⟨hg, hopen⟩ := ih h₀
      obtain ⟨inner, rfl, -, hin⟩ := closeComment_eq_some_iff.1 hc
      exact ⟨.cons (.block hin) hg, hopen⟩
    | case4 cs hc =>
      cases h
      exact ⟨.nil, cs, rfl, closeComment_eq_none_iff.1 hc⟩
    | case5 c cs _ _ hb ih =>
      obtain ⟨gap₀, h₀, rfl⟩ := prepend_eq_openComment.1 h
      obtain ⟨hg, hopen⟩ := ih h₀
      exact ⟨.cons (.blank hb) hg, hopen⟩
  · rintro ⟨rfl, hg, body, hbody, hb⟩
    induction hg with
    | nil =>
      subst hbody
      rw [List.nil_append, ofText]
      split
      · rename_i hc
        rw [closeComment_eq_none_iff.2 hb] at hc
        cases hc
      · rfl
    | cons hp _ ih =>
      rw [List.append_assoc, ofText_append_part hp, ih hbody, prepend]

end Gap

/-! ## One step -/

/-- What is no comment begins like no gap. -/
theorem FaultAt.exists_whole_eq {f : LexFault} (h : FaultAt f) (hf : f.cause ≠ .openComment) :
    ∃ c cs, f.whole = c :: cs ∧ isBlank c = false ∧ c ≠ '/' := by
  have digit : ∀ {d}, isDigit d = true → isBlank d = false ∧ d ≠ '/' :=
    fun hd => ⟨isBlank_of_isDigit hd, by rintro rfl; cases hd⟩
  cases h with
  | unexpectedChar hb hno =>
    exact ⟨_, _, rfl, hb, fun hc => hno _ _ (.mark .slash) (hc ▸ rfl)⟩
  | charAfterNumber hd => exact ⟨_, _, rfl, digit hd⟩
  | numberOutOfRange hs =>
    obtain ⟨d, ds, rfl⟩ := List.exists_cons_of_ne_nil hs.ne_nil
    exact ⟨_, _, rfl, digit hs.isDigit_head⟩
  | string => exact ⟨'"', _, LexFault.whole_behind .., by decide, by decide⟩
  | comment => exact absurd rfl hf

/-- A step reports what stands behind the gap in front of the text. -/
theorem Scan.ofText_eq_fault_iff {cs gap : List Char} {f : LexFault} :
    Scan.ofText cs = .fault gap f ↔ cs = gap ++ f.whole ∧ IsGap gap f.whole ∧ FaultAt f := by
  constructor
  · intro h
    unfold Scan.ofText at h
    split at h
    · rename_i hg
      cases h
      obtain ⟨rfl, hgap, body, rfl, hb⟩ := Gap.ofText_eq_openComment_iff.1 hg
      rw [LexFault.whole, List.append_nil, List.append_nil]
      exact ⟨rfl, hgap, .comment hb⟩
    · cases h
    · rename_i gap' c cs' hg
      obtain ⟨rfl, hgap, hn⟩ := Gap.ofText_eq_closed_iff.1 hg
      split at h
      · cases h
      · rename_i hl
        cases h
        obtain ⟨htext, hf⟩ :=
          (Lexeme.ofText_eq_fault_iff (endsRun_cons.1 hn.no_blank) hn.no_comment.2).1 hl
        exact ⟨by rw [htext], htext ▸ hgap, hf⟩
  · rintro ⟨rfl, hgap, hf⟩
    by_cases hcause : f.cause = .openComment
    · cases hf with
      | @comment body hb =>
        rw [LexFault.whole, List.append_nil, List.append_nil] at hgap ⊢
        have hg := Gap.ofText_eq_openComment_iff.2 ⟨rfl, hgap, body, rfl, hb⟩
        rw [Scan.ofText, hg]
      | string _ hg => cases hg <;> cases hcause
      | _ => cases hcause
    · obtain ⟨c, cs, hwhole, hb, hc⟩ := hf.exists_whole_eq hcause
      have hcomment := @Lexeme.no_comment_of_ne c cs hc
      have hg := Gap.ofText_eq_closed_iff.2 ⟨rfl, hgap, hwhole ▸ ⟨endsRun_cons.2 hb, hcomment⟩⟩
      have hl : Lexeme.ofText c cs = .fault f :=
        (Lexeme.ofText_eq_fault_iff hb hcomment.2).2 ⟨hwhole.symm, hf⟩
      rw [Scan.ofText, hg, hwhole]
      simp only [hl]

end ScriptSyntax
