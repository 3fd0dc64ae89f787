/-
Expressions in sources. A source holds an expression exactly if it can be cut into lexemes that
spell a canonical tree within the nesting limit (`parseExpression_eq_ok_iff`), so what a text holds
can be told from its cut alone.

Every node of such a tree stands over neighbouring lexemes, from the first character of its first
one to the last character of its last one. These lexemes stand alone as they stand in the source,
and a part of a canonical tree is canonical and no deeper; so the slice of the source under a node
holds that node, moved to the front (`parseExpression_slice`). Nothing here asks which call of the
parser made the node: the inner nodes of a run of operators of one level are no different.
-/
import ScriptSyntax.Expr.Walk
import ScriptSyntax.Proofs.Expr.Climbing
import ScriptSyntax.Proofs.Token.Cut
import Mathlib.Data.List.Basic

namespace ScriptSyntax

/-! ## Reading from a cut -/

theorem Meaning.kind_eq_eof {m : Meaning} : m.kind = .eof ↔ m = .eof := by
  rcases m with _ | (_ | _ | _ | (_ | _)) | _ | _ <;> simp [kind]

theorem Cuts.kind_ne_eof {cs last : List Char} {ps : List Piece} (h : Cuts cs ps last)
    (p : Position) : ∀ t ∈ placed p ps, t.kind ≠ .eof :=
  fun t ht hk => (h.spelling_placed p t ht).ne_eof (Meaning.kind_eq_eof.1 hk)

theorem parseExpression_eq_mapError {file : Symbol} {src : String} {ts : TokenList}
    (h : tokenize file src = .ok ts) :
    parseExpression file src = (parseTokens ts).mapError .syntactic := by
  rw [parseExpression, h]

theorem parseExpression_eq_ok_iff {file : Symbol} {src : String} {e : Expr Span} :
    parseExpression file src = .ok e ↔ ∃ ps last, Cuts src.toList ps last ∧
      e.Spelled (placed (.startOf file) ps) ∧ e.Canonical ∧ e.depth < maxNesting := by
  have hparse : ∀ ts, tokenize file src = .ok ts →
      (parseExpression file src = .ok e ↔ parseTokens ts = .ok e) := by
    intro ts hts
    rw [parseExpression_eq_mapError hts]
    cases parseTokens ts <;> simp [Except.mapError]
  constructor
  · intro h
    cases hts : tokenize file src with
    | error f => rw [parseExpression, hts] at h; cases h
    | ok ts =>
      have ht := (hparse ts hts).1 h
      obtain ⟨ps, last, hcut, rfl⟩ := tokenize_eq_ok_iff.1 hts
      exact ⟨ps, last, hcut, (parseTokens_eq_ok_iff_of_front (hcut.kind_ne_eof _)).1 ht⟩
  · rintro ⟨ps, last, hcut, ht⟩
    exact (hparse _ (hcut.tokenize_eq file)).2 ((parseTokens_eq_ok_iff_of_front (hcut.kind_ne_eof _)).2 ht)

/-! ## Nodes of a tree -/

namespace Expr

variable {α : Type} {e n : Expr α}

/-- What every node hands down to its children holds of all nodes of a tree. -/
theorem forall_preorder {P : Expr α → Prop} (step : ∀ x, P x → ∀ c ∈ x.children, P c) (h : P e)
    (hn : n ∈ e.preorder) : P n := by
  induction e with
  | literal | identifier => rwa [List.mem_singleton.1 hn]
  | unary _ op x ih =>
    rcases List.mem_cons.1 hn with rfl | hn
    · exact h
    · exact ih (step _ h x (List.mem_singleton_self x)) hn
  | binary _ op l r ihl ihr =>
    rcases List.mem_cons.1 hn with rfl | hn
    · exact h
    rcases List.mem_append.1 hn with hn | hn
    · exact ihl (step _ h l (List.mem_cons_self ..)) hn
    · exact ihr (step _ h r (List.mem_cons_of_mem _ (List.mem_singleton_self r))) hn
  | grouping _ x ih =>
    rcases List.mem_cons.1 hn with rfl | hn
    · exact h
    · exact ih (step _ h x (List.mem_singleton_self x)) hn

theorem Canonical.of_mem_children (h : e.Canonical) (hn : n ∈ e.children) : n.Canonical := by
  cases e with
  | literal | identifier => cases hn
  | unary _ op x =>
    rw [List.mem_singleton.1 hn]
    exact h.2
  | binary _ op l r =>
    rcases List.mem_pair.1 hn with rfl | rfl
    · exact h.2.2.1
    · exact h.2.2.2
  | grouping _ x =>
    rw [List.mem_singleton.1 hn]
    exact h

theorem depth_le_of_mem_children (hn : n ∈ e.children) : n.depth ≤ e.depth := by
  cases e with
  | literal | identifier => cases hn
  | unary _ op x =>
    rw [List.mem_singleton.1 hn]
    exact Nat.le_succ _
  | binary _ op l r =>
    rcases List.mem_pair.1 hn with rfl | rfl
    · exact Nat.le_max_left ..
    · exact Nat.le_trans (Nat.le_succ _) (Nat.le_max_right ..)
  | grouping _ x =>
    rw [List.mem_singleton.1 hn]
    exact Nat.le_succ _

theorem Canonical.of_mem_preorder (h : e.Canonical) (hn : n ∈ e.preorder) : n.Canonical :=
  forall_preorder (fun _ hx _ hc => hx.of_mem_children hc) h hn

theorem depth_le_of_mem_preorder (hn : n ∈ e.preorder) : n.depth ≤ e.depth :=
  @forall_preorder _ e n (·.depth ≤ e.depth)
    (fun _ hx _ hc => Nat.le_trans (depth_le_of_mem_children hc) hx) (Nat.le_refl _) hn

end Expr

namespace Expr.Spelled

variable {e n : Expr Span} {us : List Token}

/-- A child is spelled by neighbouring tokens of its parent. -/
theorem of_mem_children (h : e.Spelled us) (hn : n ∈ e.children) :
    ∃ before own after, us = before ++ own ++ after ∧ n.Spelled own := by
  cases h with
  | literal | identifier => cases hn
  | @unary t op x us _ hx =>
    rw [List.mem_singleton.1 hn]
    exact ⟨[t], us, [], by simp, hx⟩
  | @binary t op l r us vs hl _ hr =>
    rcases List.mem_pair.1 hn with rfl | rfl
    · exact ⟨[], us, t :: vs, by simp, hl⟩
    · exact ⟨us ++ [t], vs, [], by simp, hr⟩
  | @grouping o c x us _ hx _ =>
    rw [List.mem_singleton.1 hn]
    exact ⟨[o], us, [c], by simp, hx⟩

/-- A node is spelled by neighbouring tokens. -/
theorem of_mem_preorder (h : e.Spelled us) (hn : n ∈ e.preorder) :
    ∃ before own after, us = before ++ own ++ after ∧ n.Spelled own := by
  refine @forall_preorder _ e n
    (fun x => ∃ before own after, us = before ++ own ++ after ∧ Spelled x own) ?_
    ⟨[], us, [], by simp, h⟩ hn
  rintro x ⟨before, own, after, rfl, hx⟩ c hc
  -- what stands around the child stands inside what stands around the parent
  obtain ⟨before', own', after', rfl, hc⟩ := hx.of_mem_children hc
  exact ⟨before ++ before', own', after' ++ after, by simp, hc⟩

end Expr.Spelled

/-! ## Moved tokens -/

/-- The offsets of the first and the last character covered. -/
def Span.offsets (s : Span) : Int × Int := (s.start.offset, s.stop.offset)

/-- The offsets, counted from a place. -/
def Span.offsetsFrom (d : Int) (s : Span) : Int × Int := (s.start.offset - d, s.stop.offset - d)

/-- What a tree shows of a token, its place counted from the front of the text. -/
def Token.place (t : Token) : Terminal × Int × Int := (t.terminal, t.span.offsets)

/-- What a tree shows of a token, its place counted from `d`. -/
def Token.placeFrom (d : Int) (t : Token) : Terminal × Int × Int := (t.terminal, t.span.offsetsFrom d)

theorem Token.place_eq {d : Int} {t t' : Token} (h : t'.place = t.placeFrom d) :
    t'.terminal = t.terminal ∧ t'.span.offsets = t.span.offsetsFrom d :=
  ⟨congrArg Prod.fst h, congrArg Prod.snd h⟩

theorem Span.offsets_cover {d : Int} {s t s' t' : Span} (hs : s'.offsets = s.offsetsFrom d)
    (ht : t'.offsets = t.offsetsFrom d) : (cover s' t').offsets = (cover s t).offsetsFrom d := by
  have hstart : s'.start.offset = s.start.offset - d := congrArg Prod.fst hs
  have hstop : t'.stop.offset = t.stop.offset - d := congrArg Prod.snd ht
  exact Prod.ext hstart hstop

namespace Expr

theorem note_map {α β : Type} (f : α → β) (e : Expr α) : (e.map f).note = f e.note := by
  cases e <;> rfl

/-- Tokens that move nearer to the front spell the same tree there. -/
theorem Spelled.moved {d : Int} {e : Expr Span} {us us' : List Token} (h : e.Spelled us)
    (hm : us'.map Token.place = us.map (Token.placeFrom d)) :
    ∃ e' : Expr Span, e'.Spelled us' ∧ e'.map Span.offsets = e.map (Span.offsetsFrom d) := by
  -- the span of a node follows those of its parts
  have note : ∀ {x x' : Expr Span}, x'.map Span.offsets = x.map (Span.offsetsFrom d) →
      x'.note.offsets = x.note.offsetsFrom d := by
    intro x x' hx
    rw [← note_map Span.offsets, hx, note_map]
  induction h generalizing us' with
  | literal ht =>
    obtain ⟨t', rfl, hp⟩ := List.map_eq_singleton_iff.1 hm
    obtain ⟨hterm, hoff⟩ := Token.place_eq hp
    exact ⟨_, .literal (hterm.trans ht), by rw [map, map, hoff]⟩
  | identifier ht =>
    obtain ⟨t', rfl, hp⟩ := List.map_eq_singleton_iff.1 hm
    obtain ⟨hterm, hoff⟩ := Token.place_eq hp
    exact ⟨_, .identifier (hterm.trans ht), by rw [map, map, hoff]⟩
  | unary ht _ ih =>
    obtain ⟨t', us', rfl, hp, hus⟩ := List.map_eq_cons_iff.1 hm
    obtain ⟨hterm, hoff⟩ := Token.place_eq hp
    obtain ⟨x, hx, hxe⟩ := ih hus
    exact ⟨_, .unary (hterm.trans ht) hx,
      by rw [map, map, hxe, Span.offsets_cover hoff (note hxe)]⟩
  | binary _ ht _ ihl ihr =>
    rw [List.map_append, List.map_cons] at hm
    obtain ⟨ls, us', rfl, hls, hm⟩ := List.map_eq_append_iff.1 hm
    obtain ⟨t', rs, rfl, hp, hrs⟩ := List.map_eq_cons_iff.1 hm
    obtain ⟨x, hx, hxe⟩ := ihl hls
    obtain ⟨y, hy, hye⟩ := ihr hrs
    exact ⟨_, .binary hx ((Token.place_eq hp).1.trans ht) hy,
      by rw [map, map, hxe, hye, Span.offsets_cover (note hxe) (note hye)]⟩
  | grouping ho _ hc ih =>
    rw [List.map_append, List.map_cons] at hm
    obtain ⟨us', cs, rfl, hm, hcs⟩ := List.map_eq_append_iff.1 hm
    obtain ⟨o', us', rfl, hop, hus⟩ := List.map_eq_cons_iff.1 hm
    obtain ⟨c', rfl, hcp⟩ := List.map_eq_singleton_iff.1 hcs
    obtain ⟨hoterm, hooff⟩ := Token.place_eq hop
    obtain ⟨hcterm, hcoff⟩ := Token.place_eq hcp
    obtain ⟨x, hx, hxe⟩ := ih hus
    exact ⟨_, .grouping (hoterm.trans ho) hx (hcterm.trans hc),
      by rw [map, map, hxe, Span.offsets_cover hooff hcoff]⟩

end Expr

/-- Lexemes stand in the same order and as far apart wherever their text begins. -/
theorem placed_place {d : Int} {p q : Position} (ps : List Piece) (h : q.offset = p.offset - d) :
    (placed q ps).map Token.place = (placed p ps).map (Token.placeFrom d) := by
  induction ps generalizing p q with
  | nil => rfl
  | cons piece ps ih =>
    have moved : ∀ cs, (q.advanceBy cs).offset = (p.advanceBy cs).offset - d := by
      intro cs
      rw [Position.offset_advanceBy, Position.offset_advanceBy, h]
      omega
    rw [placed, placed, List.map_cons, List.map_cons, ← Position.advanceBy_append,
      ← Position.advanceBy_append, ih (moved _)]
    refine congrArg (· :: _) (Prod.ext rfl (Prod.ext (moved _) ?_))
    simp only [Token.place, Token.placeFrom, Span.offsets, Span.offsetsFrom, Span.ofText,
      ← Position.advanceBy_append]
    exact moved _

/-! ## Slices -/

/-- The characters that a span covers. -/
def Span.slice (s : Span) (src : String) : String :=
  String.ofList ((src.toList.take (s.stop.offset + 1).toNat).drop s.start.offset.toNat)

theorem Span.slice_eq {s : Span} {src : String} {before own after : List Char}
    (hsrc : src.toList = before ++ own ++ after) (hstart : s.start.offset = before.length)
    (hstop : s.stop.offset + 1 = before.length + own.length) : s.slice src = String.ofList own := by
  have htake : (s.stop.offset + 1).toNat = (before ++ own).length := by
    rw [hstop, List.length_append]
    omega
  rw [slice, htake, hsrc, List.take_left, hstart, Int.toNat_natCast, List.drop_left]

theorem placed_eq_append {p : Position} {ps : List Piece} {us vs : List Token}
    (h : placed p ps = us ++ vs) : ∃ qs rs, ps = qs ++ rs ∧ us = placed p qs ∧
      vs = placed (p.advanceBy (qs.flatMap Piece.text)) rs := by
  induction us generalizing p ps with
  | nil => exact ⟨[], ps, rfl, rfl, h.symm⟩
  | cons u us ih =>
    cases ps with
    | nil => cases h
    | cons piece ps =>
      obtain ⟨hu, htail⟩ := List.cons.inj h
      obtain ⟨qs, rs, rfl, hus, hvs⟩ := ih htail
      refine ⟨piece :: qs, rs, rfl, ?_, ?_⟩
      · rw [placed, ← hu, ← hus]
      · rw [hvs, List.flatMap_cons, Piece.text, Position.advanceBy_append, Position.advanceBy_append]

/-- Without a gap before it the first of the tokens starts where their text does. -/
theorem start_head_placed {p : Position} {piece : Piece} {ps : List Piece} {t : Token}
    (hgap : piece.gap = []) (ht : (placed p (piece :: ps)).head? = some t) :
    t.span.start = p ∧ t.lexeme.toList <+: (piece :: ps).flatMap Piece.text := by
  cases ht
  simp [Span.ofText, Piece.text, hgap]

/-- The last of the tokens stops right before the place behind their text. -/
theorem stop_getLast_placed {p : Position} {cs last : List Char} {ps : List Piece} {t : Token}
    (h : Cuts cs ps last) (ht : (placed p ps).getLast? = some t) :
    t.span.stop.offset + 1 = p.offset + (ps.flatMap Piece.text).length ∧
      t.lexeme.toList <:+ ps.flatMap Piece.text := by
  rcases List.eq_nil_or_concat ps with rfl | ⟨qs, piece, rfl⟩
  · cases ht
  · have hne := List.length_pos_iff.2 (h.spelling piece (by simp)).ne_nil
    rw [List.concat_eq_append] at ht ⊢
    rw [placed_append, placed, placed, List.getLast?_concat] at ht
    cases ht
    simp only [Span.ofText, Position.offset_advanceBy, List.flatMap_append, List.flatMap_cons,
      List.flatMap_nil, List.append_nil, List.length_append, Piece.text, List.length_dropLast,
      String.toList_ofList]
    refine ⟨by omega, ?_⟩
    rw [← List.append_assoc]
    exact List.suffix_append ..

theorem Expr.bare_map {α β : Type} (f : α → β) (e : Expr α) : (e.map f).bare = e.bare := by
  unfold bare
  induction e <;> simp_all [map]

/-- Neighbouring tokens are those of a slice of the text, which can be cut for itself. -/
theorem Cuts.exists_slice {cs last : List Char} {ps : List Piece} {p : Position}
    {before own after : List Token} (h : Cuts cs ps last)
    (hts : placed p ps = before ++ own ++ after) (hne : own ≠ []) :
    ∃ front piece ms back, piece.gap = [] ∧
      cs = front ++ (piece :: ms).flatMap Piece.text ++ back ∧
      Cuts ((piece :: ms).flatMap Piece.text) (piece :: ms) [] ∧
      own = placed (p.advanceBy front) (piece :: ms) := by
  obtain ⟨qs, rs, rfl, hqs, -⟩ := placed_eq_append hts
  obtain ⟨qs, ms, rfl, -, hown⟩ := placed_eq_append hqs.symm
  cases ms with
  | nil => exact absurd hown hne
  | cons piece ms =>
    -- the gap before the first lexeme stays outside
    refine ⟨qs.flatMap Piece.text ++ piece.gap, { piece with gap := [] }, ms,
      rs.flatMap Piece.text ++ last, rfl, ?_, ?_, ?_⟩
    · rw [h.text_eq]
      simp [Piece.text]
    · rw [List.append_assoc] at h
      exact h.slice
    · rw [hown, placed, Position.advanceBy_append]
      rfl

/-- Every node of a tree that is read from a source runs from the first character of its first
token to the last character of its last token, and what stands between them reads as that node,
with its offsets counted from there. -/
theorem parseExpression_slice {file : Symbol} {src : String} {e n : Expr Span}
    (h : parseExpression file src = .ok e) (hn : n ∈ e.preorder) :
    (∃ ts before own after first last, tokenize file src = .ok ts ∧
      ts.front = before ++ own ++ after ∧ n.Spelled own ∧ own.head? = some first ∧
      own.getLast? = some last ∧ n.note = ⟨first.span.start, last.span.stop⟩ ∧
      first.lexeme.toList <+: (n.note.slice src).toList ∧
      last.lexeme.toList <:+ (n.note.slice src).toList) ∧
    ∀ file', ∃ n', parseExpression file' (n.note.slice src) = .ok n' ∧ n'.bare = n.bare ∧
      n'.map Span.offsets = n.map (Span.offsetsFrom n.note.start.offset) := by
  obtain ⟨ps, gap, hcut, hs, hc, hd⟩ := parseExpression_eq_ok_iff.1 h
  obtain ⟨before, own, after, hts, hown⟩ := hs.of_mem_preorder hn
  obtain ⟨front, piece, ms, back, hgap, hsrc, hcut_own, rfl⟩ :=
    hcut.exists_slice hts hown.ne_nil
  have hq : ((Position.startOf file).advanceBy front).offset = front.length := by
    rw [Position.offset_advanceBy]
    exact Int.zero_add _
  generalize (Position.startOf file).advanceBy front = q at hts hown hq
  have hnote := hown.note_eq hown.ne_nil
  have hhead := List.head?_eq_some_head hown.ne_nil
  have hlast := List.getLast?_eq_some_getLast hown.ne_nil
  obtain ⟨hstart, hprefix⟩ := start_head_placed hgap hhead
  obtain ⟨hstop, hsuffix⟩ := stop_getLast_placed hcut_own hlast
  have hnote_start : n.note.start.offset = front.length := by
    rw [← hq, ← hstart, hnote]
    rfl
  have hslice : n.note.slice src = String.ofList ((piece :: ms).flatMap Piece.text) := by
    refine Span.slice_eq hsrc hnote_start ?_
    rw [hnote, ← hq]
    exact hstop
  rw [hslice, String.toList_ofList]
  constructor
  · exact ⟨_, before, _, after, _, _, (Cursor.tokens_eq_ok_iff (.ofText file src) _).2
      ⟨_, gap, hcut, rfl⟩, hts, hown, hhead, hlast, hnote, hprefix, hsuffix⟩
  -- read alone, the lexemes give the same tokens nearer to the front, and they spell the same node
  · intro file'
    have hmoved : (placed (.startOf file') (piece :: ms)).map Token.place =
        (placed q (piece :: ms)).map (Token.placeFrom n.note.start.offset) :=
      placed_place _ (by rw [hnote_start, hq]; exact (Int.sub_self _).symm)
    obtain ⟨n', hn', hoff⟩ := hown.moved hmoved
    have hbare : n'.bare = n.bare := by rw [← Expr.bare_map Span.offsets, hoff, Expr.bare_map]
    refine ⟨n', parseExpression_eq_ok_iff.2 ⟨piece :: ms, [], ?_, hn', ?_, ?_⟩, hbare, hoff⟩
    · rw [String.toList_ofList]
      exact hcut_own
    · rw [← Expr.canonical_bare, hbare, Expr.canonical_bare]
      exact hc.of_mem_preorder hn
    · rw [← Expr.depth_bare, hbare, Expr.depth_bare]
      exact Nat.lt_of_le_of_lt (Expr.depth_le_of_mem_preorder hn) hd

/-- The tree of `a-b` is a node of that of `a-b-c`, though no call of the parser reads it alone. -/
theorem parseExpression_slice_left_spine :
    let p (k : Nat) : Position := ⟨1, k + 1, k, ⟨0⟩⟩
    let name (k : Nat) (s : String) : Expr Span := .identifier (.point (p k)) s
    let n : Expr Span := .binary ⟨p 0, p 2⟩ .sub (name 0 "a") (name 2 "b")
    let e : Expr Span := .binary ⟨p 0, p 4⟩ .sub n (name 4 "c")
    parseExpression ⟨0⟩ "a-b-c" = .ok e ∧ n ∈ e.preorder ∧
      ∃ n', parseExpression ⟨7⟩ "a-b" = .ok n' ∧ n'.bare = n.bare := by
  intro p name n e
  have ha : Lexeme.ofText 'a' ['-', 'b', '-', 'c'] = .token .name ['a'] ['-', 'b', '-', 'c'] := by
    decide
  have hb : Lexeme.ofText 'b' ['-', 'c'] = .token .name ['b'] ['-', 'c'] := by decide
  have hc : Lexeme.ofText 'c' [] = .token .name ['c'] [] := by decide
  have h₁ : Lexeme.ofText '-' ['b', '-', 'c'] = .token (.mark .minus) ['-'] ['b', '-', 'c'] := by
    decide
  have h₂ : Lexeme.ofText '-' ['c'] = .token (.mark .minus) ['-'] ['c'] := by decide
  have hcut : Cuts "a-b-c".toList [⟨[], .name, ['a']⟩, ⟨[], .mark .minus, ['-']⟩,
      ⟨[], .name, ['b']⟩, ⟨[], .mark .minus, ['-']⟩, ⟨[], .name, ['c']⟩] [] :=
    .piece .nil (.of_ofText ha (by decide)) (.piece .nil (.of_ofText h₁ (by decide))
      (.piece .nil (.of_ofText hb (by decide)) (.piece .nil (.of_ofText h₂ (by decide))
        (.piece .nil (.of_ofText hc (by decide)) (.last .nil)))))
  let token (k : Nat) (m : Meaning) (s : String) : Token := ⟨m, s, .point (p k)⟩
  have hname : ∀ k s, (name k s).Spelled [token k .name s] :=
    fun k s => @Expr.Spelled.identifier (token k .name s) s rfl
  have hn_spelled := @Expr.Spelled.binary (token 1 (.mark .minus) "-") .sub _ _ _ _
    (hname 0 "a") rfl (hname 2 "b")
  have hspelled := @Expr.Spelled.binary (token 3 (.mark .minus) "-") .sub _ _ _ _
    hn_spelled rfl (hname 4 "c")
  have he : parseExpression ⟨0⟩ "a-b-c" = .ok e :=
    parseExpression_eq_ok_iff.2 ⟨_, [], hcut, hspelled, by decide, by decide⟩
  have hn : n ∈ e.preorder := List.mem_cons_of_mem _ (List.mem_cons_self ..)
  obtain ⟨n', hn', hbare, -⟩ := (parseExpression_slice he hn).2 ⟨7⟩
  exact ⟨he, hn, n', hn', hbare⟩

end ScriptSyntax
