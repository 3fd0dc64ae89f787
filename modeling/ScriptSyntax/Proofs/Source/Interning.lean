/-
Interned names. Whatever an interner is called for, its symbols are numbered from zero on in the order
in which their names first came, each name has one symbol and each symbol one name, and a symbol once
handed out keeps its name (`Interner.run_symbols`). Reading the tokens of a source interns the name of
its file, also if it ends in an error: the symbol is then the one in the place of the error.

One call leaves the names there are where they are and puts a new one behind them
(`Interner.names_step`); all else follows from that, as names are found by number and numbers by name
in two tables that are inverse to each other.
-/
import ScriptSyntax.Proofs.Run
import ScriptSyntax.Proofs.Source.Places
import Mathlib.Data.Finset.Card
import Mathlib.Data.List.Induction

namespace ScriptSyntax.Interner

inductive Call where
  | intern (name : String)
  | resolve (s : Symbol)
  /-- Reads the tokens of a source in the file of that name. -/
  | tokenize (name src : String)
deriving DecidableEq

inductive Answer where
  | symbol (s : Symbol)
  | name (r : Except UnknownSymbol String)
  | tokens (r : Except LexError TokenList)

def step (t : Interner) : Call → Answer × Interner
  | .intern name => (.symbol (t.intern name).1, (t.intern name).2)
  | .resolve s => (.name (t.resolve s), t)
  | .tokenize name src =>
    (.tokens (ScriptSyntax.tokenize (t.intern name).1 src), (t.intern name).2)

/-- The name that a call interns. -/
def Call.name? : Call → Option String
  | .intern name | .tokenize name _ => some name
  | .resolve _ => none

/-- The symbol that an answer shows, for tokens and lexical errors that of their places. -/
def Answer.symbol? : Answer → Option Symbol
  | .symbol s => some s
  | .name _ => none
  | .tokens (.ok ts) => some ts.last.span.file
  | .tokens (.error e) => some e.span.file

/-- The names that calls intern, each with the symbol that the answer shows. -/
def issued (t : Interner) (calls : List Call) : List (String × Symbol) :=
  (calls.zip (runCalls step t calls).1).filterMap fun (call, answer) =>
    call.name?.bind fun name => answer.symbol?.map (name, ·)

/-! ## The two tables -/

variable {t : Interner} {name : String} {i : Nat}

theorem nodup_names (t : Interner) : t.names.Nodup := by
  rw [List.nodup_iff_getElem?_ne_getElem?]
  intro i j hij hj heq
  have hname : t.names[j]? = some t.names[j] := List.getElem?_eq_getElem hj
  have hi := (t.inverse _ _).2 (heq.trans hname)
  rw [(t.inverse _ _).2 hname] at hi
  exact Nat.ne_of_lt hij (Option.some.inj hi).symm

theorem lookup_of_mem (h : name ∈ t.names) :
    t.numbers.lookup name = some (t.names.idxOf name) :=
  (t.inverse _ _).2 (List.getElem?_idxOf h)

theorem lookup_of_notMem (h : name ∉ t.names) : t.numbers.lookup name = none := by
  cases hi : t.numbers.lookup name with
  | none => rfl
  | some i => exact absurd (List.mem_of_getElem? ((t.inverse _ _).1 hi)) h

theorem intern_of_mem (h : name ∈ t.names) : t.intern name = (⟨t.names.idxOf name⟩, t) := by
  have hlookup := lookup_of_mem h
  unfold intern
  split
  · rename_i i hi
    rw [hi] at hlookup
    rw [Option.some.inj hlookup]
  · rename_i hi
    rw [hi] at hlookup
    cases hlookup

theorem intern_of_notMem (h : name ∉ t.names) :
    (t.intern name).1 = ⟨t.size⟩ ∧ (t.intern name).2.names = t.names ++ [name] := by
  have hlookup := lookup_of_notMem h
  unfold intern
  split
  · rename_i i hi
    rw [hi] at hlookup
    cases hlookup
  · exact ⟨rfl, rfl⟩

theorem resolve_natCast_eq_ok_iff : t.resolve ⟨i⟩ = .ok name ↔ t.names[i]? = some name := by
  have hresolve : t.resolve? ⟨i⟩ = t.names[i]? := by
    simp [resolve?]
  unfold resolve
  rw [hresolve]
  cases t.names[i]? <;> simp

theorem names_intern (t : Interner) (name : String) :
    (t.intern name).2.names = if name ∈ t.names then t.names else t.names ++ [name] := by
  split
  · rename_i h
    rw [intern_of_mem h]
  · rename_i h
    exact (intern_of_notMem h).2

/-- The symbol of a name is its place among the names there are then. -/
theorem fst_intern (t : Interner) (name : String) :
    (t.intern name).1 = ⟨(t.intern name).2.names.idxOf name⟩ := by
  by_cases h : name ∈ t.names
  · rw [intern_of_mem h]
  · obtain ⟨hsymbol, hnames⟩ := intern_of_notMem h
    rw [hsymbol, hnames, List.idxOf_append_of_notMem h]
    simp [size]

/-! ## One call -/

theorem names_step (t : Interner) (c : Call) : (t.step c).2.names =
    match c.name? with
    | some name => if name ∈ t.names then t.names else t.names ++ [name]
    | none => t.names := by
  cases c with
  | intern name | tokenize name src => exact names_intern t name
  | resolve => rfl

theorem names_prefix_step (t : Interner) (c : Call) : t.names <+: (t.step c).2.names := by
  rw [names_step]
  split
  · split
    · exact List.prefix_rfl
    · exact List.prefix_append _ _
  · exact List.prefix_rfl

theorem mem_names_step {c : Call} (h : c.name? = some name) : name ∈ (t.step c).2.names := by
  rw [names_step, h]
  simp only
  split <;> simp_all

/-- The tokens of a source, or its error, are placed in the file of the symbol. -/
theorem symbol?_tokenize (file : Symbol) (src : String) :
    (Answer.tokens (ScriptSyntax.tokenize file src)).symbol? = some file := by
  cases h : ScriptSyntax.tokenize file src with
  | ok ts =>
    have hlast : ts.last ∈ ts.toList := List.mem_append_right _ (List.mem_singleton_self _)
    exact congrArg some (inSource_of_tokenize h hlast).1.start.file_eq
  | error e => exact congrArg some (inSource_of_tokenize_error h).span.start.file_eq

theorem symbol?_step {c : Call} (h : c.name? = some name) :
    (t.step c).1.symbol? = some ⟨(t.step c).2.names.idxOf name⟩ := by
  cases c with
  | intern =>
    cases h
    exact congrArg some (fst_intern t name)
  | tokenize _ src =>
    cases h
    exact (symbol?_tokenize _ src).trans (congrArg some (fst_intern t name))
  | resolve => cases h

/-! ## Many calls -/

theorem names_prefix_run (t : Interner) (calls : List Call) :
    t.names <+: (runCalls step t calls).2.names := by
  induction calls generalizing t with
  | nil => exact List.prefix_rfl
  | cons c cs ih => exact (names_prefix_step t c).trans (ih _)

theorem eraseDups_concat (names : List String) (name : String) : (names ++ [name]).eraseDups =
    if name ∈ names.eraseDups then names.eraseDups else names.eraseDups ++ [name] := by
  by_cases h : name ∈ names <;>
    simp [List.eraseDups_append, List.removeAll, List.eraseDups_cons, h]

/-- The names are those of the calls, in the order in which they first came. -/
theorem names_run (calls : List Call) :
    (runCalls step empty calls).2.names = (calls.filterMap Call.name?).eraseDups := by
  -- by the last call: whether its name is new is judged by the calls before it
  induction calls using List.reverseRecOn with
  | nil => rfl
  | append_singleton calls c ih =>
    rw [runCalls_append]
    show (step _ c).2.names = _
    rw [names_step, List.filterMap_append, ih]
    cases h : c.name? with
    | none => simp [h]
    | some name => simp [h, eraseDups_concat]

/-- What is issued for a name is its place among the names at the end: names stay where they are. -/
theorem issued_eq (t : Interner) (calls : List Call) :
    issued t calls = (calls.filterMap Call.name?).map fun name =>
      (name, ⟨(runCalls step t calls).2.names.idxOf name⟩) := by
  induction calls generalizing t with
  | nil => rfl
  | cons c cs ih =>
    have hrest := ih (t.step c).2
    unfold issued at hrest ⊢
    simp only [runCalls, List.zip_cons_cons, List.filterMap_cons]
    cases h : c.name? with
    | none => exact hrest
    | some name =>
      obtain ⟨more, hmore⟩ := names_prefix_run (t.step c).2 cs
      have hplace : (t.step c).2.names.idxOf name =
          (runCalls step (t.step c).2 cs).2.names.idxOf name := by
        rw [← hmore, List.idxOf_append_of_mem (mem_names_step h)]
      simp only [symbol?_step h, Option.bind_some, Option.map_some, List.map_cons, hrest, hplace]

theorem mem_issued_iff {calls : List Call} {x : String × Symbol} : x ∈ issued t calls ↔
    x.1 ∈ calls.filterMap Call.name? ∧
      x.2 = ⟨(runCalls step t calls).2.names.idxOf x.1⟩ := by
  rw [issued_eq, List.mem_map]
  constructor
  · rintro ⟨name, hname, rfl⟩
    exact ⟨hname, rfl⟩
  · rintro ⟨hname, hsymbol⟩
    exact ⟨x.1, hname, Prod.ext rfl hsymbol.symm⟩

theorem mem_names_iff {calls : List Call} :
    name ∈ (runCalls step empty calls).2.names ↔ name ∈ calls.filterMap Call.name? := by
  rw [names_run, List.mem_eraseDups]

theorem size_eq_card (calls : List Call) :
    (runCalls step empty calls).2.size = (calls.filterMap Call.name?).toFinset.card := by
  rw [size, ← List.toFinset_card_of_nodup (nodup_names _)]
  congr 1
  ext name
  rw [List.mem_toFinset, List.mem_toFinset, mem_names_iff]

/-! ## Symbols issued -/

section Issued

variable {calls : List Call} {x y : String × Symbol}

theorem symbol_natCast_inj {i j : Nat} : (⟨i⟩ : Symbol) = ⟨j⟩ ↔ i = j := by
  rw [Symbol.mk.injEq]
  exact Int.ofNat_inj

theorem exists_issued_iff {i : Int} : (∃ x ∈ issued empty calls, x.2 = ⟨i⟩) ↔
    0 ≤ i ∧ i < (runCalls step empty calls).2.size := by
  constructor
  · rintro ⟨x, hx, hi⟩
    obtain ⟨hname, hsymbol⟩ := mem_issued_iff.1 hx
    have hlt := List.idxOf_lt_length_iff.2 (mem_names_iff.2 hname)
    have hindex := Symbol.mk.inj (hi.symm.trans hsymbol)
    unfold size
    omega
  · rintro ⟨hi, hlt⟩
    obtain ⟨k, rfl⟩ := Int.eq_ofNat_of_zero_le hi
    have hk : k < (runCalls step empty calls).2.names.length := Int.ofNat_lt.1 hlt
    refine ⟨(_, ⟨k⟩), mem_issued_iff.2 ⟨mem_names_iff.1 (List.getElem_mem hk), ?_⟩, rfl⟩
    exact symbol_natCast_inj.2 ((nodup_names _).idxOf_getElem k hk).symm

theorem symbol_eq_iff (hx : x ∈ issued empty calls) (hy : y ∈ issued empty calls) :
    x.2 = y.2 ↔ x.1 = y.1 := by
  obtain ⟨hname, hsymbol⟩ := mem_issued_iff.1 hx
  obtain ⟨-, hsymbol'⟩ := mem_issued_iff.1 hy
  rw [hsymbol, hsymbol', symbol_natCast_inj]
  exact List.idxOf_inj (mem_names_iff.2 hname)

theorem resolve_of_issued (hx : x ∈ issued empty calls) (later : List Call) :
    (runCalls step (runCalls step empty calls).2 later).2.resolve x.2 = .ok x.1 := by
  obtain ⟨hname, hsymbol⟩ := mem_issued_iff.1 hx
  obtain ⟨more, hmore⟩ := names_prefix_run (runCalls step empty calls).2 later
  have hmem := mem_names_iff.2 hname
  rw [hsymbol, resolve_natCast_eq_ok_iff, ← hmore,
    List.getElem?_append_left (List.idxOf_lt_length_iff.2 hmem)]
  exact List.getElem?_idxOf hmem

end Issued

/-- Symbols are numbered from zero on in the order in which their names first came; there are as many
as there are names. Equal symbols are those of equal names. A symbol resolves to the name it was
issued for whatever is called later. Calls for a name that is known, and resolving, change nothing. -/
theorem run_symbols (calls : List Call) :
    let interned := calls.filterMap Call.name?
    let t := (runCalls step empty calls).2
    issued empty calls = interned.map (fun name => (name, ⟨interned.eraseDups.idxOf name⟩)) ∧
      t.size = interned.eraseDups.length ∧ t.size = interned.toFinset.card ∧
      (∀ i : Int, (∃ x ∈ issued empty calls, x.2 = ⟨i⟩) ↔ 0 ≤ i ∧ i < t.size) ∧
      (∀ x ∈ issued empty calls, ∀ y ∈ issued empty calls, x.2 = y.2 ↔ x.1 = y.1) ∧
      (∀ x ∈ issued empty calls, ∀ later, (runCalls step t later).2.resolve x.2 = .ok x.1) ∧
      (∀ name ∈ interned, (t.step (.intern name)).2 = t ∧
        ∀ src, (t.step (.tokenize name src)).2 = t) ∧
      ∀ s, (t.step (.resolve s)).2 = t := by
  intro interned t
  refine ⟨?_, congrArg List.length (names_run calls), size_eq_card calls,
    fun _ => exists_issued_iff, fun _ hx _ hy => symbol_eq_iff hx hy,
    fun _ hx later => resolve_of_issued hx later, ?_, fun _ => rfl⟩
  · rw [issued_eq, names_run]
  · intro name hname
    have hsame : (t.intern name).2 = t := by
      rw [intern_of_mem (mem_names_iff.2 hname)]
    exact ⟨hsame, fun _ => hsame⟩

/-- The name of a file is interned although its source, an open string, cannot be read. -/
theorem run_symbols_open_string :
    let calls := [Call.intern "b", .tokenize "a" "\"", .resolve ⟨-1⟩, .intern "b", .tokenize "c" "x"]
    let t := (runCalls step empty calls).2
    issued empty calls = [("b", ⟨0⟩), ("a", ⟨1⟩), ("b", ⟨0⟩), ("c", ⟨2⟩)] ∧ t.size = 3 ∧
      (runCalls step t [.intern "d"]).2.resolve ⟨1⟩ = .ok "a" ∧ (t.step (.intern "c")).2 = t := by
  intro calls t
  obtain ⟨hissued, hsize, -, -, -, hresolve, hknown, -⟩ := run_symbols calls
  have hmem : ("a", ⟨1⟩) ∈ issued empty calls := by
    rw [hissued]
    decide
  exact ⟨hissued, hsize, hresolve _ hmem [.intern "d"], (hknown "c" (by decide)).1⟩

end ScriptSyntax.Interner
