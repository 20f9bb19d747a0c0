/-!
# Range — sets of code points as ascending ranges

A property of characters is a list of closed ranges in ascending order, and membership is one walk along it.
-/
namespace LineShell.Text

/-- **Membership in an ascending list of closed ranges.** The walk ends at the first range that starts past `n`, so a
member of an early range is found early. -/
def inRanges (n : Nat) : List (Nat × Nat) → Bool
  | [] => false
  | (lo, hi) :: rest => if n < lo then false else decide (n ≤ hi) || inRanges n rest

theorem inRanges_of_le {n lo hi : Nat} {rest : List (Nat × Nat)} (hlo : lo ≤ n) (hhi : n ≤ hi) :
    inRanges n ((lo, hi) :: rest) = true := by
  simp [inRanges, Nat.not_lt.2 hlo, hhi]

theorem inRanges_of_before {n lo hi : Nat} {rest : List (Nat × Nat)} (h : n < lo) :
    inRanges n ((lo, hi) :: rest) = false := by
  simp [inRanges, h]

theorem exists_of_inRanges {n : Nat} : ∀ {ranges : List (Nat × Nat)}, inRanges n ranges = true →
    ∃ range ∈ ranges, range.1 ≤ n ∧ n ≤ range.2
  | [], h => nomatch h
  | (lo, hi) :: rest, h => by
    rw [inRanges] at h
    by_cases hlo : n < lo
    · rw [if_pos hlo] at h
      cases h
    · rw [if_neg hlo, Bool.or_eq_true, decide_eq_true_eq] at h
      rcases h with hhi | h
      · exact ⟨(lo, hi), List.mem_cons_self, Nat.le_of_not_lt hlo, hhi⟩
      · obtain ⟨range, hmem, hle⟩ := exists_of_inRanges h
        exact ⟨range, List.mem_cons_of_mem _ hmem, hle⟩

end LineShell.Text
