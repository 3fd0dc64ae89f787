/-
Scanners that are read from answer as the text behind them does. A scanner stands at a place of a
source whether or not it keeps the character there (`Scanner.At`), and every reading from it takes
that place to the one where reading the plain text would go on (`Scanner.Agrees`), so a scanner gives
the tokens and errors of the text from wherever it was brought (`Scanner.read_cursor`).
-/
import ScriptSyntax.Proofs.Source.Scanner
import ScriptSyntax.Proofs.Token.Recovery
import ScriptSyntax.Token.Stream

namespace ScriptSyntax

open Text

/-! ## Answers of a plain text -/

/-- The answer that the lexeme at a position gives, and the place behind it. -/
def Lexeme.answer (p : Position) : Lexeme → Except LexError Token × Cursor
  | .token m lexeme rest => (.ok ⟨m, String.ofList lexeme, .ofText p lexeme⟩, ⟨p.advanceBy lexeme, rest⟩)
  | .fault f => (.error (f.error p), ⟨p.advanceBy f.consumed, f.resume⟩)

theorem Lexeme.ofNumber_of_no_point {cs : List Char} (h : (cs.dropWhile isDigit).head? ≠ some '.') :
    ofNumber cs = ofNumberParts (cs.takeWhile isDigit) (intValue? (cs.takeWhile isDigit))
      (cs.dropWhile isDigit) := by
  unfold ofNumber
  split
  · rename_i hrest
    rw [hrest] at h
    exact absurd rfl h
  · rfl

theorem Lexeme.ofNumber_of_point {cs rest : List Char} (h : cs.dropWhile isDigit = '.' :: rest) :
    ofNumber cs = ofNumberParts (cs.takeWhile isDigit ++ '.' :: rest.takeWhile isDigit)
      (floatValue? (cs.takeWhile isDigit) (rest.takeWhile isDigit)) (rest.dropWhile isDigit) := by
  simp only [ofNumber, h]

/-- The lexeme of a string literal whose text is a body. -/
def Lexeme.Body.lexeme : Body → Lexeme
  | .closed raw value rest => .token (.literal (.string (String.ofList value))) raw rest
  | .fault f => .fault f

/-- What was read before a fault stays read, and the fault is placed behind it. -/
theorem Lexeme.answer_prepend_fault (p : Position) (raw value : List Char) (f : LexFault) :
    ((Body.fault f).prepend raw value).lexeme.answer p =
      (.error ⟨f.cause, p, .ofText (p.advanceBy (raw ++ f.before)) f.marked⟩,
        ⟨p.advanceBy (raw ++ f.consumed), f.resume⟩) := by
  obtain ⟨cause, before, marked, after⟩ := f
  cases cause <;> simp [Body.prepend, Body.lexeme, answer, LexFault.error, LexFault.consumed,
    LexFault.resume, Position.advanceBy_append]

/-- What the first character behind a gap is, and the place behind that. -/
def Gap.answer (p : Position) : Gap → Except LexError (Option (Position × Char)) × Cursor
  | .openComment gap comment =>
    (.error ⟨.openComment, p.advanceBy gap, .point ((p.advanceBy gap).advanceBy comment)⟩,
      ⟨(p.advanceBy gap).advanceBy comment, []⟩)
  | .closed gap [] => (.ok none, ⟨p.advanceBy gap, []⟩)
  | .closed gap (c :: cs) => (.ok (some (p.advanceBy gap, c)), ⟨(p.advanceBy gap).advance c, cs⟩)

theorem Gap.answer_prepend (p : Position) (part : List Char) (g : Gap) :
    (g.prepend part).answer p = g.answer (p.advanceBy part) := by
  match g with
  | .openComment gap comment => simp [prepend, answer, Position.advanceBy_append]
  | .closed gap [] | .closed gap (c :: cs) => simp [prepend, answer, Position.advanceBy_append]

theorem Gap.answer_blanks (p : Position) (cs : List Char) : (ofText cs).answer p =
    (ofText (cs.dropWhile isBlank)).answer (p.advanceBy (cs.takeWhile isBlank)) := by
  induction cs generalizing p with
  | nil => rfl
  | cons c cs ih =>
    cases hc : isBlank c with
    | false => simp [hc]
    | true =>
      rw [List.dropWhile_cons_of_pos hc, List.takeWhile_cons_of_pos hc, Position.advanceBy_cons, ← ih,
        ← List.singleton_append, ofText_append_part (.blank hc), answer_prepend]
      rfl

theorem Gap.answer_line (p : Position) (cs : List Char) : (ofText ('/' :: '/' :: cs)).answer p =
    (ofText (cs.dropWhile (· != '\n'))).answer
      (p.advanceBy ('/' :: '/' :: cs.takeWhile (· != '\n'))) := by
  rw [ofText, answer_prepend]

theorem Gap.answer_block (p : Position) (cs : List Char) : (ofText ('/' :: '*' :: cs)).answer p =
    match closeComment cs with
    | some (body, rest) => (ofText rest).answer (p.advanceBy ('/' :: '*' :: body))
    | none => (.error ⟨.openComment, p, .point (p.advanceBy ('/' :: '*' :: cs))⟩,
      ⟨p.advanceBy ('/' :: '*' :: cs), []⟩) := by
  rw [ofText]
  split <;> rename_i hc <;> rw [hc]
  · exact answer_prepend ..
  · rfl

theorem Gap.answer_noGap {c : Char} {cs : List Char} (h : NoGap (c :: cs)) (p : Position) :
    (ofText (c :: cs)).answer p = (.ok (some (p, c)), ⟨p.advance c, cs⟩) := by
  rw [ofText_of_noGap h]
  rfl

/-- All tokens are the next one and those behind it, unless it is the last one. -/
theorem Cursor.tokens_eq_next (k : Cursor) : k.tokens =
    match k.next with
    | (.error e, _) => .error e
    | (.ok token, k') =>
      if hlast : token.kind = .eof then .ok ⟨[], token, hlast⟩
      else TokenList.cons token <$> k'.tokens := by
  cases hs : Scan.ofText k.rest with
  | token gap m lexeme rest =>
    obtain ⟨-, -, hat⟩ := Scan.ofText_eq_token_iff.1 hs
    have hm : m.kind ≠ .eof := fun hlast => hat.spelling.ne_eof (Meaning.kind_eq_eof.1 hlast)
    rw [tokens_of_token hs, next, hs]
    dsimp only
    split
    · contradiction
    · rfl
  | eof gap =>
    rw [tokens_of_eof hs, next, hs]
    rfl
  | fault gap f => rw [tokens_of_fault hs, next, hs]

/-- A text that grows by the characters that may follow it, and the rest of them. -/
def growOn (follows : List Char → Char → Bool) (text : List Char) : List Char → List Char × List Char
  | [] => (text, [])
  | c :: cs => if follows text c then growOn follows (text ++ [c]) cs else (text, c :: cs)

theorem growOn_const (p : Char → Bool) (text cs : List Char) :
    growOn (fun _ => p) text cs = (text ++ cs.takeWhile p, cs.dropWhile p) := by
  induction cs generalizing text with
  | nil => simp [growOn]
  | cons c cs ih => cases hc : p c <;> simp [growOn, hc, ih]

/-- A mark grows to the longest one, for what is longer than that is no mark. -/
theorem growOn_mark (m : Mark) (cs : List Char) :
    growOn Mark.completes m.chars cs = ((m.longest cs).1.chars, (m.longest cs).2) := by
  induction cs generalizing m with
  | nil => rfl
  | cons c cs ih =>
    rw [growOn, Mark.completes, Mark.longest, Mark.extend?]
    cases hn : Mark.ofChars? (m.chars ++ [c]) with
    | none => rfl
    | some n =>
      rw [← Mark.chars_of_ofChars? hn]
      exact ih n

/-- A character that is no mark begins none. -/
theorem growOn_of_not_mark {c : Char} (hc : Mark.ofChars? [c] = none) (cs : List Char) :
    growOn Mark.completes [c] cs = ([c], cs) := by
  cases cs with
  | nil => rfl
  | cons d cs =>
    have hfirst : ∀ m ∈ Mark.all, Mark.ofChars? (m.chars.take 1) ≠ none := by decide
    have hd : Mark.ofChars? [c, d] = none := by
      by_contra hsome
      obtain ⟨m, hm⟩ := Option.ne_none_iff_exists'.1 hsome
      refine hfirst m m.mem_all ?_
      rw [Mark.chars_of_ofChars? hm]
      exact hc
    rw [growOn, Mark.completes, List.singleton_append, hd]
    rfl

theorem closeComment_cons {c : Char} {cs : List Char} (h : c = '*' → cs.head? ≠ some '/') :
    closeComment (c :: cs) = (closeComment cs).map fun (body, rest) => (c :: body, rest) := by
  rw [closeComment]
  rintro cs' rfl rfl
  exact h rfl rfl

/-- Is there an end of the block comment that a text goes on, and which place is behind it? -/
def commentEnd (p : Position) (cs : List Char) : Bool × Cursor :=
  match closeComment cs with
  | some (body, rest) => (true, ⟨p.advanceBy body, rest⟩)
  | none => (false, ⟨p.advanceBy cs, []⟩)

theorem commentEnd_cons {c : Char} {cs : List Char} (h : c = '*' → cs.head? ≠ some '/')
    (p : Position) : commentEnd p (c :: cs) = commentEnd (p.advance c) cs := by
  rw [commentEnd, commentEnd, closeComment_cons h]
  cases closeComment cs <;> rfl

namespace Scanner

/-! ## Places of scanners -/

/-- A scanner at a place, with the character there kept or not. -/
inductive At : Cursor → Scanner → Prop
  | bare {p : Position} {cs : List Char} : At ⟨p, cs⟩ ⟨none, p, cs⟩
  | ahead {p : Position} {c : Char} {cs : List Char} :
      At ⟨p, c :: cs⟩ ⟨some (p, c), p.advance c, cs⟩

/-- What a scanner answers is right, and it is left at the right place. -/
def Agrees {α : Type} (r : α × Scanner) (r' : α × Cursor) : Prop := r.1 = r'.1 ∧ At r'.2 r.2

theorem Tracks.at {file : Symbol} {text : List Char} {i : Nat} {s : Scanner}
    (h : Tracks file text i s) : At ⟨positionAt file text i, text.drop i⟩ s := by
  cases h with
  | bare => exact .bare
  | @ahead c hc =>
    obtain ⟨hlt, rfl⟩ := List.getElem?_eq_some_iff.1 hc
    rw [List.drop_eq_getElem_cons hlt, positionAt_succ hc]
    exact .ahead

namespace At

variable {k : Cursor} {s : Scanner} {p q : Position} {c : Char} {cs : List Char}

theorem eq_nil (h : At ⟨p, []⟩ s) : s = ⟨none, p, []⟩ := by cases h; rfl

theorem look_cons (h : At ⟨p, c :: cs⟩ s) : s.look = ⟨some (p, c), p.advance c, cs⟩ := by
  cases h <;> rfl

theorem next_cons (h : At ⟨p, c :: cs⟩ s) :
    s.nextWithPosition = (some (p, c), ⟨none, p.advance c, cs⟩) := by
  rw [nextWithPosition, h.look_cons]

theorem nextChar_cons (h : At ⟨p, c :: cs⟩ s) : s.next = (some c, ⟨none, p.advance c, cs⟩) := by
  rw [next, h.next_cons]
  rfl

theorem of_next_none (h : At ⟨p, cs⟩ s) (hnext : s.nextWithPosition.1 = none) :
    cs = [] ∧ At ⟨p, []⟩ s.nextWithPosition.2 := by
  match cs with
  | [] => exact ⟨rfl, by rw [h.eq_nil]; exact .bare⟩
  | c :: cs => rw [h.next_cons] at hnext; cases hnext

theorem of_next_some (h : At ⟨p, cs⟩ s) (hnext : s.nextWithPosition.1 = some (q, c)) :
    q = p ∧ ∃ tail, cs = c :: tail ∧ At ⟨p.advance c, tail⟩ s.nextWithPosition.2 := by
  match cs with
  | [] => rw [h.eq_nil] at hnext; cases hnext
  | c :: cs =>
    rw [h.next_cons] at hnext ⊢
    cases hnext
    exact ⟨rfl, cs, rfl, .bare⟩

theorem lastPosition (h : At k s) : s.lastPosition = k.position := by cases h <;> rfl

theorem look (h : At k s) : At k s.look := by
  match k, h with
  | ⟨p, []⟩, h => rw [h.eq_nil]; exact .bare
  | ⟨p, c :: cs⟩, h => rw [h.look_cons]; exact .ahead

theorem concat {text : List Char} (h : At ⟨(q.advanceBy text).advance c, cs⟩ s) :
    At ⟨q.advanceBy (text ++ [c]), cs⟩ s := by
  rwa [Position.advanceBy_append]

theorem peek (h : At k s) : s.peek.1 = k.rest.head? := by
  match k, h with
  | ⟨p, []⟩, h => rw [h.eq_nil]; rfl
  | ⟨p, c :: cs⟩, h => rw [Scanner.peek, h.look_cons]; rfl

end At

/-! ## Runs of characters -/

/-- A text was taken from `q` on, and a rest is left. -/
inductive Taken.From (q : Position) (text rest : List Char) : Taken → Prop
  | mk {s : Scanner} : At ⟨q.advanceBy text, rest⟩ s →
      From q text rest ⟨text, q.advanceBy text.dropLast, s⟩

theorem Taken.From.place {q : Position} {text rest : List Char} {t : Taken}
    (h : t.From q text rest) : At ⟨q.advanceBy text, rest⟩ t.scanner := by
  cases h
  assumption

namespace At

variable {s : Scanner} {p q : Position} {c : Char} {cs : List Char}

/-- Taking on from a text that was taken from `q` on. -/
theorem takeOn (text : List Char) (h : At ⟨q.advanceBy text, cs⟩ s)
    (follows : List Char → Char → Bool) :
    (s.takeOn follows text (q.advanceBy text.dropLast)).From q
      (growOn follows text cs).1 (growOn follows text cs).2 := by
  induction cs generalizing text s with
  | nil =>
    cases h.eq_nil
    unfold Scanner.takeOn
    exact .mk .bare
  | cons c cs ih =>
    have hnext : At ⟨q.advanceBy (text ++ [c]), cs⟩ s.look.nextWithPosition.2 := by
      rw [h.look.next_cons]
      exact At.bare.concat
    have hpeek : s.peekWithPosition.1 = some (q.advanceBy text, c) := congrArg kept h.look_cons
    unfold Scanner.takeOn
    split <;> rename_i hcase <;> rw [hpeek] at hcase <;> cases hcase
    unfold growOn
    split
    · have := ih _ hnext
      rwa [List.dropLast_concat] at this
    · exact .mk h.look

theorem skipWhile (h : At ⟨p, cs⟩ s) (f : Char → Bool) :
    At ⟨p.advanceBy (cs.takeWhile f), cs.dropWhile f⟩ (s.skipWhile f) := by
  have htaken := (At.takeOn (q := p) [] h fun _ => f).place
  rw [growOn_const] at htaken
  rw [Scanner.skipWhile, h.lastPosition]
  exact htaken

/-- A run of characters behind a first one. -/
theorem takeOn_run (h : At ⟨q.advance c, cs⟩ s) (f : Char → Bool) :
    (s.takeOn (fun _ => f) [c] q).From q (c :: cs.takeWhile f) (cs.dropWhile f) := by
  have htaken := takeOn [c] h fun _ => f
  rwa [growOn_const] at htaken

end At

/-! ## Gaps -/

namespace At

variable {s : Scanner} {p : Position} {cs : List Char}

/-- Whether a comment ends hangs on what follows, and on whether a star stood before it. -/
theorem closeComment (star : Bool) (h : At ⟨p.advanceBy (if star then ['*'] else []), cs⟩ s) :
    Agrees (s.closeComment star) (commentEnd p ((if star then ['*'] else []) ++ cs)) := by
  induction cs generalizing star p s with
  | nil =>
    cases h.eq_nil
    unfold Scanner.closeComment
    cases star <;> exact ⟨rfl, .bare⟩
  | cons c cs ih =>
    unfold Scanner.closeComment
    split <;> rename_i hcase <;> rw [h.nextChar_cons] at hcase <;> cases hcase
    rw [h.nextChar_cons]
    split
    · rename_i hend
      obtain ⟨rfl, hc⟩ := Bool.and_eq_true_iff.1 hend
      cases eq_of_beq hc
      exact ⟨rfl, .bare⟩
    · rename_i hend
      -- the star before is no part of the end
      have hstar : commentEnd p ((if star then ['*'] else []) ++ c :: cs) =
          commentEnd (p.advanceBy (if star then ['*'] else [])) (c :: cs) := by
        cases star with
        | false => rfl
        | true => exact commentEnd_cons (fun _ hc => hend (by simpa using hc)) p
      rw [hstar]
      by_cases hc : c = '*'
      · subst hc
        exact ih true .bare
      · rw [commentEnd_cons fun h => absurd h hc, beq_false_of_ne hc]
        exact ih false .bare

/-- A comment that ends is part of the gap, and the gap goes on behind it; another is an error. -/
theorem skipComment (h : At ⟨p.advance '/', cs⟩ s)
    (hcs : cs.head? = some '/' ∨ cs.head? = some '*') :
    (∃ k, (s.skipComment p).1 = .ok () ∧ At k (s.skipComment p).2 ∧
      (Gap.ofText ('/' :: cs)).answer p = (Gap.ofText k.rest).answer k.position) ∨
    ∃ e, (s.skipComment p).1 = .error e ∧
      Agrees (.error e, (s.skipComment p).2) ((Gap.ofText ('/' :: cs)).answer p) := by
  rcases hcs with hhead | hhead <;> obtain ⟨tail, rfl⟩ := List.head?_eq_some_iff.1 hhead <;>
    rw [Scanner.skipComment, h.nextChar_cons]
  · exact .inl ⟨_, rfl, At.bare.skipWhile _, Gap.answer_line p tail⟩
  · have hend : Agrees (Scanner.closeComment false ⟨none, (p.advance '/').advance '*', tail⟩)
        (commentEnd ((p.advance '/').advance '*') tail) := closeComment false .bare
    rw [if_neg (by simp), Gap.answer_block]
    revert hend
    rcases Scanner.closeComment false ⟨none, (p.advance '/').advance '*', tail⟩ with ⟨closed, t⟩
    rintro ⟨rfl, ht⟩
    rw [commentEnd] at ht ⊢
    cases hc : ScriptSyntax.closeComment tail <;> rw [hc] at ht
    · refine .inr ⟨_, rfl, ?_, ht⟩
      show Except.error _ = _
      rw [ht.lastPosition]
      rfl
    · exact .inl ⟨_, rfl, ht, rfl⟩

theorem lexemeStart (h : At ⟨p, cs⟩ s) : Agrees s.lexemeStart ((Gap.ofText cs).answer p) := by
  fun_induction Scanner.lexemeStart s generalizing p cs with
  | case1 =>
    rename_i hnext
    obtain ⟨hrest, ht⟩ := (h.skipWhile isBlank).of_next_none hnext
    rw [Gap.answer_blanks, hrest, Gap.ofText]
    exact ⟨rfl, ht⟩
  -- a comment that ends
  | case2 =>
    rename_i hcomment hskip hnext ih
    obtain ⟨rfl, tail, hrest, hu⟩ := (h.skipWhile isBlank).of_next_some hnext
    rw [Gap.answer_blanks, hrest]
    rcases hu.look.skipComment (hu.peek ▸ hcomment) with ⟨k, -, hk, hgap⟩ | ⟨e, he, -⟩
    · rw [hgap]
      exact ih hk
    · cases hskip.symm.trans he
  -- a comment that nothing ends
  | case3 =>
    rename_i hcomment e hskip hnext
    obtain ⟨rfl, tail, hrest, hu⟩ := (h.skipWhile isBlank).of_next_some hnext
    rw [Gap.answer_blanks, hrest]
    rcases hu.look.skipComment (hu.peek ▸ hcomment) with ⟨k, hk, -⟩ | ⟨e, he, hagrees⟩
    · cases hskip.symm.trans hk
    · cases hskip.symm.trans he
      exact hagrees
  -- a slash that begins no comment
  | case4 =>
    rename_i hcomment hnext
    obtain ⟨rfl, tail, hrest, hu⟩ := (h.skipWhile isBlank).of_next_some hnext
    rw [hu.peek] at hcomment
    have hno : NoGap ('/' :: tail) := by
      refine ⟨hrest ▸ endsRun_dropWhile _ _, ?_, ?_⟩ <;> rintro ⟨more, hmore⟩ <;> cases hmore <;>
        simp at hcomment
    rw [Gap.answer_blanks, hrest, Gap.answer_noGap hno]
    exact ⟨rfl, hu.look⟩
  | case5 =>
    rename_i hnext _ hslash
    obtain ⟨rfl, tail, hrest, hu⟩ := (h.skipWhile isBlank).of_next_some hnext
    have hno : NoGap (_ :: tail) := ⟨hrest ▸ endsRun_dropWhile _ _, Lexeme.no_comment_of_ne hslash⟩
    rw [Gap.answer_blanks, hrest, Gap.answer_noGap hno]
    exact ⟨rfl, hu⟩

end At

/-! ## Lexemes -/

namespace Taken.From

variable {q : Position} {text whole fraction rest : List Char} {t : Taken}

theorem literal (h : t.From q text rest) (value : Option Literal) :
    Agrees (t.literal q value, t.scanner.look) ((Lexeme.ofValue text value rest).answer q) := by
  cases h with
  | mk hplace => cases value <;> exact ⟨rfl, hplace.look⟩

theorem number (h : t.From q text rest) (value : Option Literal) :
    Agrees (t.number q value) ((Lexeme.ofNumberParts text value rest).answer q) := by
  have hliteral := h.literal value
  rw [Taken.number, peekWithPosition]
  cases rest with
  | nil =>
    rw [show t.scanner.look.kept = none by rw [h.place.eq_nil]; rfl]
    exact hliteral
  | cons c cs =>
    rw [h.place.look_cons] at hliteral ⊢
    rw [Lexeme.ofNumberParts, Option.filter_some]
    cases isNamePart c with
    | false => exact hliteral
    | true => exact ⟨rfl, .ahead⟩

/-- The fraction of a number is what was taken behind its point. -/
theorem float (h : t.From q (whole ++ (['.'] ++ fraction)) rest) :
    Agrees (t.number q (Lexeme.floatValue? whole (t.text.drop (whole.length + 1))))
      ((Lexeme.ofNumberParts (whole ++ '.' :: fraction) (Lexeme.floatValue? whole fraction)
        rest).answer q) := by
  have htext : t.text.drop (whole.length + 1) = fraction := by
    cases h
    simp
  rw [htext]
  exact h.number _

end Taken.From

namespace At

variable {s : Scanner} {q : Position} {c : Char} {cs : List Char}

theorem word (h : At ⟨q.advance c, cs⟩ s) (hc : isNameStart c = true) :
    Agrees (s.word q c) ((Lexeme.ofWord (c :: cs)).answer q) := by
  have hpart := isNamePart_of_isNameStart hc
  have htaken := h.takeOn_run isNamePart
  rw [Lexeme.ofWord, List.takeWhile_cons_of_pos hpart, List.dropWhile_cons_of_pos hpart, Scanner.word]
  generalize s.takeOn (fun _ => isNamePart) [c] q = t at htaken
  cases htaken with
  | mk hplace => exact ⟨rfl, hplace⟩

theorem number (h : At ⟨q.advance c, cs⟩ s) (hc : isDigit c = true) :
    Agrees (s.number q c) ((Lexeme.ofNumber (c :: cs)).answer q) := by
  have hwhole := h.takeOn_run isDigit
  have htake := List.takeWhile_cons_of_pos (l := cs) hc
  have hdrop := List.dropWhile_cons_of_pos (l := cs) hc
  rw [Scanner.number]
  generalize s.takeOn (fun _ => isDigit) [c] q = whole at hwhole
  rw [← htake, ← hdrop] at hwhole
  obtain @⟨t, hplace⟩ := hwhole
  dsimp only
  rw [peekWithPosition]
  cases hrest : (c :: cs).dropWhile isDigit with
  | nil =>
    rw [hrest] at hplace
    rw [Lexeme.ofNumber_of_no_point (by simp [hrest]), hrest, hplace.eq_nil]
    exact Taken.From.number (.mk .bare) _
  | cons d tail =>
    rw [hrest] at hplace
    rw [hplace.look_cons]
    by_cases hd : d = '.'
    · subst hd
      rw [Lexeme.ofNumber_of_point hrest]
      generalize (c :: cs).takeWhile isDigit = digits
      have hpoint : At ⟨q.advanceBy (digits ++ ['.']), tail⟩
          ⟨none, (q.advanceBy digits).advance '.', tail⟩ := At.bare.concat
      have hall := takeOn _ hpoint fun _ => isDigit
      rw [growOn_const, List.dropLast_concat, List.append_assoc] at hall
      exact hall.float
    · rw [Lexeme.ofNumber_of_no_point (by simp [hrest, hd]), hrest, Option.filter_some,
        beq_false_of_ne hd]
      exact Taken.From.number (.mk .ahead) _

theorem string (lexeme value : List Char) (h : At ⟨q.advanceBy lexeme, cs⟩ s) :
    Agrees (s.string q lexeme value)
      (((Lexeme.Body.ofText cs).prepend lexeme value).lexeme.answer q) := by
  fun_induction Scanner.string q lexeme value s generalizing cs with
  | case1 =>
    rename_i hnext _
    obtain ⟨rfl, ht⟩ := h.of_next_none hnext
    rw [ht.lastPosition, Lexeme.Body.ofText, Lexeme.answer_prepend_fault, List.append_nil]
    exact ⟨rfl, by rwa [LexFault.consumed, List.append_nil, List.append_nil]⟩
  | case2 =>
    rename_i hnext
    obtain ⟨rfl, tail, rfl, ht⟩ := h.of_next_some hnext
    rw [Lexeme.Body.ofText, Lexeme.answer_prepend_fault, List.append_nil]
    exact ⟨rfl, ht.concat⟩
  | case3 =>
    rename_i hnext _
    obtain ⟨rfl, tail, rfl, ht⟩ := h.of_next_some hnext
    rw [Lexeme.Body.ofText, Lexeme.Body.prepend, List.append_nil]
    refine ⟨?_, ht.concat⟩
    rw [Lexeme.Body.lexeme, Lexeme.answer, Span.ofText, List.dropLast_concat]
  | case4 =>
    rename_i hescape _ hnext _ _
    obtain ⟨rfl, tail, rfl, ht⟩ := h.of_next_some hnext
    obtain ⟨rfl, hu⟩ := ht.of_next_none hescape
    rw [hu.concat.lastPosition, Lexeme.Body.ofText, Lexeme.answer_prepend_fault]
    exact ⟨rfl, hu.concat⟩
  | case5 =>
    rename_i hescape hunescape hnext _ _
    obtain ⟨rfl, tail, rfl, ht⟩ := h.of_next_some hnext
    obtain ⟨rfl, tail, rfl, hu⟩ := ht.of_next_some hescape
    rw [Lexeme.Body.ofText, hunescape, Lexeme.answer_prepend_fault, List.append_nil]
    refine ⟨rfl, ?_⟩
    rw [LexFault.consumed, Position.advanceBy_append]
    exact hu
  | case6 =>
    rename_i hescape _ hunescape hnext _ _ ih
    obtain ⟨rfl, tail, rfl, ht⟩ := h.of_next_some hnext
    obtain ⟨rfl, tail, rfl, hu⟩ := ht.of_next_some hescape
    rw [Lexeme.Body.ofText, hunescape, Lexeme.Body.prepend_prepend]
    exact ih (by rwa [Position.advanceBy_append])
  | case7 =>
    rename_i hnext _ hn hq hb ih
    obtain ⟨rfl, tail, rfl, ht⟩ := h.of_next_some hnext
    rw [Lexeme.Body.ofText, Lexeme.Body.prepend_prepend]
    · exact ih ht.concat
    exacts [hn, hq, fun hc => absurd hc hb, fun _ _ hc => absurd hc hb]

theorem mark (h : At ⟨q.advance c, cs⟩ s) :
    Agrees (s.mark q c) ((Lexeme.ofMark c cs).answer q) := by
  have htaken : (s.takeOn Mark.completes [c] q).From q (growOn Mark.completes [c] cs).1
      (growOn Mark.completes [c] cs).2 := takeOn [c] h Mark.completes
  rw [Scanner.mark, Lexeme.ofMark]
  generalize s.takeOn Mark.completes [c] q = t at htaken
  cases hm : Mark.ofChars? [c] with
  | none =>
    rw [growOn_of_not_mark hm] at htaken
    obtain @⟨t, hplace⟩ := htaken
    dsimp only
    rw [hm]
    exact ⟨rfl, hplace⟩
  | some m =>
    rw [← Mark.chars_of_ofChars? hm, growOn_mark] at htaken
    obtain @⟨t, hplace⟩ := htaken
    dsimp only
    rw [Mark.ofChars?_chars]
    exact ⟨rfl, hplace⟩

theorem lexeme (h : At ⟨q.advance c, cs⟩ s) :
    Agrees (s.lexeme q c) ((Lexeme.ofText c cs).answer q) := by
  unfold Scanner.lexeme Lexeme.ofText
  split
  · exact h.number ‹_›
  split
  · rename_i hquote
    subst hquote
    exact h.string ['"'] []
  split
  · exact h.word ‹_›
  · exact h.mark

/-- The next token or error of a scanner is the one of the text behind its place. -/
theorem nextToken {k : Cursor} (h : At k s) : Agrees s.nextToken k.next := by
  have hstart := h.lexemeStart
  rw [Scanner.nextToken, Cursor.next, Scan.ofText]
  revert hstart
  rcases s.lexemeStart with ⟨r, t⟩
  cases Gap.ofText k.rest with
  | openComment gap comment =>
    rintro ⟨rfl, ht⟩
    refine ⟨rfl, ?_⟩
    show At ⟨(k.position.advanceBy gap).advanceBy (comment ++ []), []⟩ t
    rwa [List.append_nil]
  | closed gap rest =>
    cases rest with
    | nil =>
      rintro ⟨rfl, ht⟩
      exact ⟨congrArg (Except.ok ∘ Token.eof) ht.lastPosition, ht⟩
    | cons c cs =>
      rintro ⟨rfl, ht⟩
      have hlexeme := ht.lexeme
      dsimp only at hlexeme ⊢
      cases hl : Lexeme.ofText c cs <;> rw [hl] at hlexeme <;> exact hlexeme

theorem exists_next {k : Cursor} {t : Scanner} {r : Except LexError Token} (h : At k s)
    (hnext : s.nextToken = (r, t)) : ∃ k', k.next = (r, k') ∧ At k' t := by
  have hagrees := h.nextToken
  rw [hnext] at hagrees
  exact ⟨k.next.2, Prod.ext hagrees.1.symm rfl, hagrees.2⟩

theorem tokens {k : Cursor} (h : At k s) : s.tokens = k.tokens := by
  fun_induction Scanner.tokens s generalizing k with
  | case1 s e t hnext =>
    obtain ⟨k', hk, -⟩ := h.exists_next hnext
    rw [k.tokens_eq_next, hk]
  | case2 s token t hnext hlast =>
    obtain ⟨k', hk, -⟩ := h.exists_next hnext
    simp only [k.tokens_eq_next, hk, dif_pos hlast]
  | case3 s token t hnext hlast ih =>
    obtain ⟨k', hk, ht⟩ := h.exists_next hnext
    simp only [k.tokens_eq_next, hk, dif_neg hlast, ih ht]

end At

/-! ## Many readings -/

/-- The scanner behind so many readings. -/
def after (s : Scanner) : Nat → Scanner
  | 0 => s
  | n + 1 => (s.after n).nextToken.2

theorem At.after {s : Scanner} {k : Cursor} (h : At k s) (n : Nat) : At (k.after n) (s.after n) := by
  induction n with
  | zero => exact h
  | succ n ih => exact ih.nextToken.2

/-- Whatever a scanner was called for before, what is read from it is what the text behind its place
gives: token by token, over errors and beyond the end, and all tokens at once. -/
theorem read_cursor (file : Symbol) (text : List Char) (calls : List Call) :
    let s := (runCalls step (ofText file text) calls).2
    let i := (runCalls (cursorStep file text) 0 calls).2
    let k : Cursor := ⟨positionAt file text i, text.drop i⟩
    (∀ n, (s.after n).nextToken.1 = k.answer n ∧ (s.after n).lastPosition = (k.after n).position) ∧
      s.tokens = k.tokens := by
  intro s i k
  have h : At k s := ((tracks_ofText file text).run calls).2.at
  exact ⟨fun n => ⟨(h.after n).nextToken.1, (h.after n).lastPosition⟩, h.tokens⟩

/-- A source is read through a scanner. -/
theorem tokens_ofText (file : Symbol) (src : String) :
    (ofText file src.toList).tokens = tokenize file src :=
  (read_cursor file src.toList []).2

end Scanner

end ScriptSyntax
