/-
Sets of characters given by ranges of code points in increasing order. Membership walks the list
and stops at the first range that lies above the code point.
-/

namespace ScriptSyntax.Text

/-- Ranges of code points, each with both ends. -/
abbrev Ranges := List (Nat × Nat)

namespace Ranges

def has : Ranges → Nat → Bool
  | [], _ => false
  | (lo, hi) :: rs, n => lo ≤ n && (n ≤ hi || has rs n)

/-- Each range is nonempty and ends at least two below the start of the next, so no two of them
could be joined. -/
def ordered : Ranges → Bool
  | [] => true
  | [(lo, hi)] => lo ≤ hi
  | (lo, hi) :: (lo', hi') :: rs => lo ≤ hi && hi + 1 < lo' && ordered ((lo', hi') :: rs)

theorem exists_of_has {rs : Ranges} {n : Nat} (h : rs.has n = true) :
    ∃ r ∈ rs, r.1 ≤ n ∧ n ≤ r.2 := by
  induction rs with
  | nil => simp [has] at h
  | cons r rs ih =>
    simp only [has, Bool.and_eq_true, Bool.or_eq_true, decide_eq_true_eq] at h
    rcases h with ⟨hlo, hhi | hrest⟩
    · exact ⟨r, List.mem_cons_self .., hlo, hhi⟩
    · obtain ⟨s, hs, hn⟩ := ih hrest
      exact ⟨s, List.mem_cons_of_mem _ hs, hn⟩

end Ranges

end ScriptSyntax.Text
