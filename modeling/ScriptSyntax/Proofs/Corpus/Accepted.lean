/-
The sources that the corpus generator draws are accepted, whatever is drawn (`sources_accepted`).
The comments around an expression are gaps, and the expression has fewer terminals than levels may
be open. When the first blank of the whole is broken into a newline, comments stay gaps and the
expression stays written: that blank stands in the comment in front, or before an operand or an
operator, or before the comment behind, but never in the text of that comment.
-/
import ScriptSyntax.Proofs.Corpus.Drawn

namespace ScriptSyntax.Corpus

open Text

/-! ## The first blank broken -/

/-- The text as it was, or with its first blank broken. -/
def Broken (cs ds : List Char) : Prop := ds = cs ∨ ds = Draws.breakFirstBlank cs

theorem breakFirstBlank_append (cs ds : List Char) :
    Draws.breakFirstBlank (cs ++ ds) = Draws.breakFirstBlank cs ++ ds ∨
      Draws.breakFirstBlank (cs ++ ds) = cs ++ Draws.breakFirstBlank ds := by
  induction cs with
  | nil => exact .inr rfl
  | cons c cs ih =>
    rw [List.cons_append, Draws.breakFirstBlank, Draws.breakFirstBlank]
    split
    · exact .inl rfl
    · exact ih.imp (congrArg (c :: ·)) (congrArg (c :: ·))

theorem breakFirstBlank_of_notMem {cs : List Char} (h : ' ' ∉ cs) :
    Draws.breakFirstBlank cs = cs := by
  induction cs with
  | nil => rfl
  | cons c cs ih =>
    obtain ⟨hc, hcs⟩ := not_or.1 (mt List.mem_cons.2 h)
    rw [Draws.breakFirstBlank, if_neg (Ne.symm hc), ih hcs]

theorem length_breakFirstBlank (cs : List Char) :
    (Draws.breakFirstBlank cs).length = cs.length := by
  induction cs with
  | nil => rfl
  | cons c cs ih =>
    rw [Draws.breakFirstBlank]
    split
    · rfl
    · rw [List.length_cons, ih, List.length_cons]

theorem mem_of_mem_breakFirstBlank {c : Char} {cs : List Char} (h : c ∈ Draws.breakFirstBlank cs) :
    c ∈ cs ∨ c = '\n' := by
  induction cs with
  | nil => cases h
  | cons b cs ih =>
    rw [Draws.breakFirstBlank] at h
    split at h
    · exact (List.mem_cons.1 h).symm.imp (List.mem_cons_of_mem _) id
    · obtain rfl | h := List.mem_cons.1 h
      · exact .inl (List.mem_cons_self ..)
      · exact (ih h).imp (List.mem_cons_of_mem _) id

namespace Broken

variable {cs cs' ds : List Char}

/-- What breaks in two parts breaks in one of them. -/
theorem of_append (h : Broken (cs ++ cs') ds) :
    ∃ l r, ds = l ++ r ∧ Broken cs l ∧ Broken cs' r := by
  obtain rfl | rfl := h
  · exact ⟨_, _, rfl, .inl rfl, .inl rfl⟩
  obtain h | h := breakFirstBlank_append cs cs'
  · exact ⟨_, _, h, .inr rfl, .inl rfl⟩
  · exact ⟨_, _, h, .inl rfl, .inr rfl⟩

theorem eq_of_notMem (h : Broken cs ds) (hcs : ' ' ∉ cs) : ds = cs := by
  obtain rfl | rfl := h
  · rfl
  · exact breakFirstBlank_of_notMem hcs

theorem ne_nil (h : Broken cs ds) (hcs : cs ≠ []) : ds ≠ [] := by
  obtain rfl | rfl := h
  · exact hcs
  · exact List.ne_nil_of_length_pos (length_breakFirstBlank cs ▸ List.length_pos_iff.2 hcs)

theorem mem (h : Broken cs ds) {c : Char} (hc : c ∈ ds) : c ∈ cs ∨ c = '\n' := by
  obtain rfl | rfl := h
  · exact .inl hc
  · exact mem_of_mem_breakFirstBlank hc

theorem blanks (h : Broken cs ds) (hcs : ∀ c ∈ cs, isBlank c = true) :
    ∀ c ∈ ds, isBlank c = true := by
  intro c hc
  obtain hc | rfl := h.mem hc
  · exact hcs c hc
  · exact isBlank_newline

theorem mark {m : Mark} (h : Broken m.chars ds) : ds = m.chars :=
  h.eq_of_notMem fun hmem => absurd (m.isBlank_of_mem _ hmem) (by decide)

/-- A written tree may have its blanks broken. -/
theorem written {e : Expr Unit} (h : Written cs e) (hb : Broken cs ds) : Written ds e := by
  induction h generalizing ds with
  | literal hs hspace => rw [hb.eq_of_notMem hspace]; exact .literal hs hspace
  | identifier hs => rw [hb.eq_of_notMem (space_notMem_of_name hs)]; exact .identifier hs
  | unary hgap _ ih =>
    obtain ⟨m, ds, rfl, hm, hb⟩ := hb.of_append
    obtain ⟨gap', cs', rfl, hgap', hcs'⟩ := hb.of_append
    rw [hm.mark]
    exact .unary (hgap'.blanks hgap) (ih hcs')
  | binary hne hne' hgap hgap' _ _ ihl ihr =>
    obtain ⟨l, ds, rfl, hl, hb⟩ := hb.of_append
    obtain ⟨g, ds, rfl, hg, hb⟩ := hb.of_append
    obtain ⟨m, ds, rfl, hm, hb⟩ := hb.of_append
    obtain ⟨g', r, rfl, hg', hr⟩ := hb.of_append
    rw [hm.mark]
    exact .binary (hg.ne_nil hne) (hg'.ne_nil hne') (hg.blanks hgap) (hg'.blanks hgap') (ihl hl)
      (ihr hr)
  | @grouping cs e _ ih =>
    rw [← List.singleton_append] at hb
    obtain ⟨l, ds, rfl, hopen, hb⟩ := hb.of_append
    obtain ⟨inner, r, rfl, hinner, hclose⟩ := hb.of_append
    rw [hopen.eq_of_notMem (by decide), hclose.eq_of_notMem (by decide)]
    exact .grouping (ih hinner)

end Broken

/-! ## Comments around an expression -/

/-- What is drawn in front of an expression. -/
inductive Lead : List Char → Prop
  | none : Lead []
  | comment {n : List Char} : Spelling n (some .name) → Lead ("/* ".toList ++ n ++ " */ ".toList)

/-- What is drawn behind an expression. -/
inductive Trail : List Char → Prop
  | none : Trail []
  | comment {n : List Char} : Spelling n (some .name) → Trail (" // ".toList ++ n)

theorem Lead.isGap {front front' : List Char} (h : Lead front) (hb : Broken front front')
    (rest : List Char) : IsGap front' rest := by
  cases h with
  | none => rw [hb.eq_of_notMem List.not_mem_nil]; exact .nil
  | @comment n hn =>
    have hparts : "/* ".toList ++ n ++ " */ ".toList =
        ['/', '*'] ++ ((' ' :: n ++ [' ']) ++ (['*', '/'] ++ [' '])) := by simp
    rw [hparts] at hb
    obtain ⟨l, ds, rfl, hopen, hb⟩ := hb.of_append
    obtain ⟨body, ds, rfl, hbody, hb⟩ := hb.of_append
    obtain ⟨r, gap, rfl, hclose, hgap⟩ := hb.of_append
    rw [hopen.eq_of_notMem (by decide), hclose.eq_of_notMem (by decide)]
    -- no slash is in the body, so the comment ends nowhere in it
    have hslash : '/' ∉ body := by
      intro hmem
      have hn : '/' ∉ n := fun hmem => absurd (isNamePart_of_name hn _ hmem) (by decide)
      obtain hmem | heq := hbody.mem hmem
      · simp [hn] at hmem
      · cases heq
    have hends : ¬ ['*', '/'] <:+: body ++ ['*'] := by
      intro hinfix
      have hmem : '/' ∈ body ++ ['*'] := hinfix.subset (by decide)
      simp [hslash] at hmem
    have hblanks : ∀ c ∈ gap, isBlank c = true :=
      hgap.blanks (List.forall_mem_singleton.2 isBlank_space)
    have hcomment := IsGap.cons (.block hends) (isGap_of_blanks hblanks rest)
    simpa using hcomment

/-- A comment behind is a gap, and only the blank before it can be broken. -/
theorem Trail.isGap {back back' tail : List Char} (h : Trail back) (hb : Broken back back')
    (ht : tail = [] ∨ tail = ['\n']) : IsGap (back' ++ tail) [] ∧ Closes (back' ++ tail) := by
  have htail : IsGap tail [] := by
    obtain rfl | rfl := ht
    · exact .nil
    · exact isGap_of_blanks (List.forall_mem_singleton.2 isBlank_newline) _
  cases h with
  | none =>
    rw [hb.eq_of_notMem List.not_mem_nil]
    refine ⟨htail, ?_⟩
    obtain rfl | rfl := ht
    · exact closes_nil
    · exact closes_blank isBlank_newline _
  | @comment n hn =>
    obtain ⟨c, hc, rfl⟩ : ∃ c, isBlank c = true ∧ back' = c :: '/' :: '/' :: ' ' :: n := by
      obtain rfl | rfl := hb
      · exact ⟨' ', isBlank_space, rfl⟩
      · exact ⟨'\n', isBlank_newline, rfl⟩
    have hbody : '\n' ∉ ' ' :: n := by
      intro hmem
      obtain heq | hmem := List.mem_cons.1 hmem
      · cases heq
      · exact absurd (isBlank_of_isNamePart (isNamePart_of_name hn _ hmem)) (by decide)
    have hends : EndsRun (· != '\n') tail := by
      obtain rfl | rfl := ht
      · exact endsRun_nil _
      · exact endsRun_cons.2 rfl
    have hcomment := IsGap.cons (.line hbody (by rwa [List.append_nil])) htail
    have hgap := IsGap.cons (.blank hc) hcomment
    exact ⟨by simpa using hgap, closes_blank hc _⟩

/-! ## Sources -/

namespace Draws

variable {σ : Type} (d : Draws σ)

/-- The text with or without a comment in front of it. -/
def led (cs : List Char) : StateM σ (List Char) := do
  if ← d.happens ⟨1, -1⟩ then return "/* ".toList ++ (← d.name) ++ " */ ".toList ++ cs
  else return cs

/-- The text with or without a comment behind it. -/
def trailed (cs : List Char) : StateM σ (List Char) := do
  if ← d.happens ⟨1, -1⟩ then return cs ++ " // ".toList ++ (← d.name) else return cs

def broken (cs : List Char) : StateM σ (List Char) := do
  if ← d.happens ⟨2, -1⟩ then return breakFirstBlank cs else return cs

def ended (cs : List Char) : StateM σ (List Char) := do
  return if ← d.happens ⟨5, -1⟩ then cs ++ ['\n'] else cs

theorem ite_bind {α β : Type} {c : Prop} [Decidable c] (t e : StateM σ α) (f : α → StateM σ β) :
    (if c then t else e) >>= f = if c then t >>= f else e >>= f := by
  split <;> rfl

/-- A source is an expression with one thing after the other done to it. -/
theorem source_eq : d.source = (do
    let depth ← d.upTo 6
    let cs ← d.expression depth
    d.ended (← d.broken (← d.trailed (← d.led cs)))) := by
  simp only [source, led, trailed, broken, ended, bind_assoc, pure_bind, ite_bind]

theorem led_always (cs : List Char) :
    Always (d.led cs) fun text => ∃ front, Lead front ∧ text = front ++ cs :=
  .ite (d.name_always.bind fun _ hn => always_pure ⟨_, .comment hn, rfl⟩)
    (always_pure ⟨_, .none, rfl⟩)

theorem trailed_always (cs : List Char) :
    Always (d.trailed cs) fun text => ∃ back, Trail back ∧ text = cs ++ back :=
  .ite (d.name_always.bind fun _ hn => always_pure ⟨_, .comment hn, List.append_assoc ..⟩)
    (always_pure ⟨_, .none, (List.append_nil _).symm⟩)

theorem broken_always (cs : List Char) : Always (d.broken cs) (Broken cs) :=
  .ite (always_pure (.inr rfl)) (always_pure (.inl rfl))

theorem ended_always (cs : List Char) :
    Always (d.ended cs) fun text => ∃ tail, (tail = [] ∨ tail = ['\n']) ∧ text = cs ++ tail := by
  refine (always_true _).bind fun b _ => always_pure ?_
  cases b
  · exact ⟨_, .inl rfl, (List.append_nil _).symm⟩
  · exact ⟨_, .inr rfl, rfl⟩

theorem source_always (file : Symbol) :
    Always d.source fun cs => ∃ e, parseExpression file (String.ofList cs) = .ok e := by
  rw [source_eq]
  refine (always_true _).bind fun depth _ => (d.expression_always depth).bind ?_
  rintro cs ⟨e, hcs, hlen⟩
  refine (d.led_always cs).bind ?_
  rintro _ ⟨front, hfront, rfl⟩
  refine (d.trailed_always _).bind ?_
  rintro _ ⟨back, hback, rfl⟩
  refine (d.broken_always _).bind fun text hb => (d.ended_always text).mono ?_
  rintro _ ⟨tail, htail, rfl⟩
  obtain ⟨l, back', rfl, hl, hback'⟩ := hb.of_append
  obtain ⟨front', cs', rfl, hfront', hcs'⟩ := hl.of_append
  obtain ⟨hgap, hcloses⟩ := hback.isGap hback' htail
  have hmax : e.yield.length ≤ maxNesting := by
    have hdepth : 2 ^ (depth.val + 1) ≤ 2 ^ 7 := Nat.pow_le_pow_right (by decide) depth.isLt
    unfold maxNesting
    omega
  obtain ⟨e', he', -⟩ :=
    (hcs'.written hcs).parseExpression hmax (hfront.isGap hfront' _) hgap hcloses file
  exact ⟨e', by simpa using he'⟩

theorem sources_always (file : Symbol) (n : Nat) : Always (d.sources n) fun srcs =>
    srcs.length = n ∧ ∀ src ∈ srcs, ∃ e, parseExpression file src = .ok e := by
  induction n with
  | zero => exact always_pure ⟨rfl, List.forall_mem_nil _⟩
  | succ n ih =>
    refine (d.source_always file).bind fun cs hcs => ih.bind ?_
    rintro srcs ⟨hlen, hsrcs⟩
    exact always_pure ⟨congrArg (· + 1) hlen, List.forall_mem_cons.2 ⟨hcs, hsrcs⟩⟩

end Draws

/-- As many sources as asked for are drawn and each is accepted, whatever answers the choices; so
too for every seed. -/
theorem sources_accepted (file : Symbol) :
    (∀ {σ : Type} (d : Draws σ) (s : σ) (n : Nat), ((d.sources n).run s).1.length = n ∧
      ∀ src ∈ ((d.sources n).run s).1, ∃ e, parseExpression file src = .ok e) ∧
    ∀ seed count : Int, (sources seed count).length = count.toNat ∧
      ∀ src ∈ sources seed count, ∃ e, parseExpression file src = .ok e :=
  ⟨fun d s n => d.sources_always file n s, fun _ _ => Twister.draws.sources_always file _ _⟩

/-- The least choices break the blank that opens the comment in front. -/
theorem sources_accepted_least :
    let d : Draws Unit := ⟨pure 0, fun _ => pure 0⟩
    "/*\na */ 0 // a\n" ∈ ((d.sources 1).run ()).1 ∧
      ∃ e, parseExpression ⟨0⟩ "/*\na */ 0 // a\n" = .ok e := by
  intro d
  have hmem : "/*\na */ 0 // a\n" ∈ ((d.sources 1).run ()).1 := by decide +kernel
  exact ⟨hmem, ((sources_accepted ⟨0⟩).1 d () 1).2 _ hmem⟩

end ScriptSyntax.Corpus
