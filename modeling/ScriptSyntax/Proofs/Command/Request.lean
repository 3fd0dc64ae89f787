/-
Requests for files. Arguments that do not begin with a dash are operands, and behind the option of an
output mode they are the files of the request, all of them and in order (`ofArguments_mode`).
-/
import ScriptSyntax.Command.Run

namespace ScriptSyntax.Command

/-- Does the argument begin with a dash? -/
def Dashed (s : String) : Prop := s.toList.head? = some '-'

instance (s : String) : Decidable (Dashed s) := inferInstanceAs (Decidable (_ = _))

namespace Argument

theorem ofString_operand {s : String} (h : ¬ Dashed s) : ofString s = .ok (.operand s) := by
  rw [Dashed] at h
  unfold ofString
  simp only
  generalize s.toList = cs at h ⊢
  split
  · exact absurd rfl h
  · rfl

theorem ofStrings_operands {ss : List String} (h : ∀ s ∈ ss, ¬ Dashed s) :
    ofStrings ss = .ok (ss.map .operand) := by
  induction ss with
  | nil => rfl
  | cons s ss ih =>
    have hs := h s (List.mem_cons_self ..)
    have hsep : s ≠ "--" := by
      rintro rfl
      exact hs rfl
    rw [ofStrings, if_neg hsep, ofString_operand hs, ih fun t ht => h t (List.mem_cons_of_mem _ ht)]
    rfl

end Argument

namespace Reading

theorem takeAll_operands (r : Reading) (run : List Argument) (ss : List String) :
    r.takeAll run (ss.map .operand) = .ok (some (r.takeRun (run ++ ss.map .operand))) := by
  induction ss generalizing run with
  | nil => rw [List.map_nil, takeAll, List.append_nil]
  | cons s ss ih =>
    rw [List.map_cons, takeAll]
    show r.takeAll (run ++ [.operand s]) (ss.map .operand) = _
    rw [ih, List.append_assoc, List.singleton_append]

/-- A run of operands is the files, if none have been read. -/
theorem takeRun_operands (r : Reading) {ss : List String} (hfiles : r.files = none) (hne : ss ≠ []) :
    r.takeRun (ss.map .operand) = { r with files := some ss } := by
  have htake : (r.files.isNone && !ss.isEmpty) = true := by
    rw [hfiles, List.isEmpty_eq_false_iff.2 hne]
    rfl
  simp only [takeRun, List.filterMap_map, Function.comp_def, List.filterMap_some, if_pos htake]

end Reading

namespace Mode

/-- The option that asks for a mode. -/
def flags : Mode → List Flag
  | .dump => []
  | .json => [.json]
  | .tokens => [.tokens]

def arguments : Mode → List String
  | .dump => []
  | .json => ["--json"]
  | .tokens => ["--tokens"]

theorem ofFlags_flags (mode : Mode) : ofFlags mode.flags = mode := by
  cases mode <;> rfl

theorem not_verbose (mode : Mode) : mode.flags.contains .verbose = false := by
  cases mode <;> rfl

end Mode

/-- An option that sets the flag `f` comes before the files. -/
theorem Request.ofArguments_flag {s : String} {f : Flag} {ss : List String}
    (hs : s ≠ "--") (hflag : Argument.ofString s = .ok (.flag f)) (hhelp : f ≠ .help)
    (h : ∀ s ∈ ss, ¬ Dashed s) (hne : ss ≠ []) :
    Request.ofArguments (s :: ss) = .ok (.files [f] ss) := by
  have hargs : Argument.ofStrings (s :: ss) = .ok (.flag f :: ss.map .operand) := by
    rw [Argument.ofStrings, if_neg hs, hflag, Argument.ofStrings_operands h]
    rfl
  have htake : Reading.takeFlags ⟨[], none, []⟩ [f] = .ok (some ⟨[f], none, []⟩) := by
    cases f <;> first | exact absurd rfl hhelp | rfl
  have hread : Reading.takeAll ⟨[], none, []⟩ [] (.flag f :: ss.map .operand) =
      .ok (some ⟨[f], some ss, []⟩) := by
    rw [Reading.takeAll]
    show Except.bind (Reading.takeFlags ⟨[], none, []⟩ [f]) _ = _
    rw [htake]
    show Reading.takeAll ⟨[f], none, []⟩ [] (ss.map .operand) = _
    rw [Reading.takeAll_operands, List.nil_append, Reading.takeRun_operands _ rfl hne]
  rw [Request.ofArguments, hargs]
  show Except.bind (Reading.takeAll ⟨[], none, []⟩ [] (.flag f :: ss.map .operand)) _ = _
  rw [hread]
  rfl

/-- The arguments of a mode and of files ask for these files in this mode. -/
theorem Request.ofArguments_mode (mode : Mode) {ss : List String} (h : ∀ s ∈ ss, ¬ Dashed s)
    (hne : ss ≠ []) : Request.ofArguments (mode.arguments ++ ss) = .ok (.files mode.flags ss) := by
  cases mode with
  | dump =>
    have hread : Reading.takeAll ⟨[], none, []⟩ [] (ss.map .operand) =
        .ok (some ⟨[], some ss, []⟩) := by
      rw [Reading.takeAll_operands, List.nil_append, Reading.takeRun_operands _ rfl hne]
    show Request.ofArguments ss = _
    rw [Request.ofArguments, Argument.ofStrings_operands h]
    show Except.bind (Reading.takeAll ⟨[], none, []⟩ [] (ss.map .operand)) _ = _
    rw [hread]
    rfl
  | json => exact ofArguments_flag (by decide) rfl nofun h hne
  | tokens => exact ofArguments_flag (by decide) rfl nofun h hne

end ScriptSyntax.Command
