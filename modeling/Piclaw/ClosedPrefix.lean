import Mathlib

/-!
# The longest closed prefix of a sequence

Positions `1, 2, …` of a sequence are closed one by one and in any order. The frontier is the
length of the longest prefix that is closed: the greatest `n` such that all of `1..n` are.
`advance` finds it from a prefix already known to be closed, by looking at one position after
another. A position without an entry is an error, because the sequence is supposed to be complete
up to its end.
-/

namespace Relational

/-- The lengths of the closed prefixes. -/
def closedPrefixes (closed : ℕ → Prop) : Set ℕ := {n | ∀ k, 1 ≤ k → k ≤ n → closed k}

variable {closed closed' : ℕ → Prop} {n : ℕ}

theorem zero_mem_closedPrefixes : 0 ∈ closedPrefixes closed := by
  intro k h₁ h₂
  omega

theorem closedPrefixes_mono (h : ∀ k, closed k → closed' k) (hn : n ∈ closedPrefixes closed) :
    n ∈ closedPrefixes closed' :=
  fun k h₁ h₂ => h k (hn k h₁ h₂)

theorem succ_mem_closedPrefixes (hn : n ∈ closedPrefixes closed) (hc : closed (n + 1)) :
    n + 1 ∈ closedPrefixes closed := by
  intro k h₁ h₂
  by_cases hk : k = n + 1
  · rw [hk]
    exact hc
  · exact hn k h₁ (by omega)

/-- A closed prefix is the longest one when the next position is not closed. -/
theorem isGreatest_closedPrefixes_iff :
    IsGreatest (closedPrefixes closed) n ↔ n ∈ closedPrefixes closed ∧ ¬ closed (n + 1) := by
  constructor
  · rintro ⟨hn, hmax⟩
    refine ⟨hn, fun hc => ?_⟩
    have hle := hmax (succ_mem_closedPrefixes hn hc)
    omega
  · rintro ⟨hn, hopen⟩
    refine ⟨hn, fun m hm => ?_⟩
    by_contra hlt
    exact hopen (hm (n + 1) (by omega) (by omega))

/-- Walks from `frontier` over at most `fuel` positions and stops before the first open one. -/
def advance (entry : ℕ → Option Bool) : ℕ → ℕ → Option ℕ
  | frontier, 0 => some frontier
  | frontier, fuel + 1 =>
    match entry (frontier + 1) with
    | none => none
    | some true => advance entry (frontier + 1) fuel
    | some false => some frontier

variable {entry : ℕ → Option Bool} {frontier fuel m : ℕ}

/-- The walk ends with a closed prefix, at the end of the sequence or before an open position. -/
theorem advance_spec (h : advance entry frontier fuel = some m)
    (hn : frontier ∈ closedPrefixes (fun k => entry k = some true)) :
    m ∈ closedPrefixes (fun k => entry k = some true) ∧
      (m = frontier + fuel ∨ entry (m + 1) = some false) := by
  induction fuel generalizing frontier with
  | zero =>
    cases h
    exact ⟨hn, Or.inl rfl⟩
  | succ fuel ih =>
    unfold advance at h
    cases he : entry (frontier + 1) with
    | none =>
      rw [he] at h
      cases h
    | some c =>
      rw [he] at h
      cases c with
      | false =>
        cases h
        exact ⟨hn, Or.inr he⟩
      | true =>
        obtain ⟨hm, hend⟩ := ih h (succ_mem_closedPrefixes hn he)
        refine ⟨hm, hend.imp_left ?_⟩
        intro hlast
        omega

theorem advance_bounds (h : advance entry frontier fuel = some m) :
    frontier ≤ m ∧ m ≤ frontier + fuel := by
  induction fuel generalizing frontier with
  | zero =>
    cases h
    exact ⟨le_rfl, le_rfl⟩
  | succ fuel ih =>
    unfold advance at h
    cases he : entry (frontier + 1) with
    | none =>
      rw [he] at h
      cases h
    | some c =>
      rw [he] at h
      cases c with
      | false =>
        cases h
        omega
      | true =>
        have hb := ih h
        omega

/-- The walk succeeds when every position it may look at has an entry. -/
theorem exists_advance (h : ∀ k, frontier < k → k ≤ frontier + fuel → (entry k).isSome) :
    ∃ m, advance entry frontier fuel = some m := by
  induction fuel generalizing frontier with
  | zero => exact ⟨frontier, rfl⟩
  | succ fuel ih =>
    obtain ⟨c, hc⟩ := Option.isSome_iff_exists.mp (h (frontier + 1) (by omega) (by omega))
    unfold advance
    rw [hc]
    cases c with
    | false => exact ⟨frontier, rfl⟩
    | true => exact ih (fun k h₁ h₂ => h k (by omega) (by omega))

end Relational
