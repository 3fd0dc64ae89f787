/-
Runs of calls. What is called answers and goes over into its next state. A relation between the
states of two things that every call keeps, and under which they answer alike, makes all their
answers alike (`runCalls_simulated`).
-/

namespace ScriptSyntax

variable {σ τ κ α : Type} {step : σ → κ → α × σ} {step' : τ → κ → α × τ}

/-- The answers to calls that are made one after the other, and the state they leave. -/
def runCalls (step : σ → κ → α × σ) (s : σ) : List κ → List α × σ
  | [] => ([], s)
  | c :: cs => ((step s c).1 :: (runCalls step (step s c).2 cs).1, (runCalls step (step s c).2 cs).2)

theorem runCalls_append (s : σ) (cs ds : List κ) : runCalls step s (cs ++ ds) =
    ((runCalls step s cs).1 ++ (runCalls step (runCalls step s cs).2 ds).1,
      (runCalls step (runCalls step s cs).2 ds).2) := by
  induction cs generalizing s with
  | nil => rfl
  | cons c cs ih => simp only [List.cons_append, runCalls, ih]

theorem runCalls_simulated {R : σ → τ → Prop}
    (hstep : ∀ s t c, R s t → (step s c).1 = (step' t c).1 ∧ R (step s c).2 (step' t c).2)
    {s : σ} {t : τ} (h : R s t) (cs : List κ) :
    (runCalls step s cs).1 = (runCalls step' t cs).1 ∧
      R (runCalls step s cs).2 (runCalls step' t cs).2 := by
  induction cs generalizing s t with
  | nil => exact ⟨rfl, h⟩
  | cons c cs ih =>
    obtain ⟨hanswer, hnext⟩ := hstep s t c h
    obtain ⟨hanswers, hend⟩ := ih hnext
    simp only [runCalls]
    exact ⟨by rw [hanswer, hanswers], hend⟩

end ScriptSyntax
