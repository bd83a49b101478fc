import Mathlib

/-!
# Ranges that tile

Items with a first and a last index that follow each other without a gap.
-/

namespace Piclaw.Tilings

variable {α : Type*} {first last : α → ℕ}

/-- The ranges of the items lie one behind the other, from `start` up to `stop`. -/
def Tiles (first last : α → ℕ) : ℕ → ℕ → List α → Prop
  | start, stop, [] => start = stop
  | start, stop, x :: xs => first x = start ∧ first x ≤ last x ∧ Tiles first last (last x + 1) stop xs

theorem tiles_le {start stop : ℕ} {xs : List α} (h : Tiles first last start stop xs) :
    start ≤ stop := by
  induction xs generalizing start with
  | nil => exact le_of_eq h
  | cons x xs ih =>
    obtain ⟨hfirst, hrange, hrest⟩ := h
    have hle := ih hrest
    omega

theorem tiles_append {start stop : ℕ} {xs ys : List α} :
    Tiles first last start stop (xs ++ ys) ↔
      ∃ middle, Tiles first last start middle xs ∧ Tiles first last middle stop ys := by
  induction xs generalizing start with
  | nil =>
    constructor
    · exact fun h => ⟨start, rfl, h⟩
    · rintro ⟨middle, rfl, h⟩
      exact h
  | cons x xs ih =>
    constructor
    · rintro ⟨hfirst, hrange, hrest⟩
      obtain ⟨middle, hxs, hys⟩ := ih.mp hrest
      exact ⟨middle, ⟨hfirst, hrange, hxs⟩, hys⟩
    · rintro ⟨middle, ⟨hfirst, hrange, hxs⟩, hys⟩
      exact ⟨hfirst, hrange, ih.mpr ⟨middle, hxs, hys⟩⟩

theorem tiles_mem {start stop : ℕ} {xs : List α} (h : Tiles first last start stop xs) {x : α}
    (hx : x ∈ xs) : start ≤ first x ∧ first x ≤ last x ∧ last x < stop := by
  induction xs generalizing start with
  | nil => cases hx
  | cons y ys ih =>
    obtain ⟨hfirst, hrange, hrest⟩ := h
    rcases List.mem_cons.mp hx with rfl | hx
    · have hle := tiles_le hrest
      omega
    · have hmem := ih hrest hx
      omega

theorem tiles_head {start stop : ℕ} {xs : List α} (h : Tiles first last start stop xs) {x : α}
    (hx : xs.head? = some x) : first x = start := by
  cases xs with
  | nil => cases hx
  | cons y ys =>
    cases hx
    exact h.1

theorem tiles_last {start stop : ℕ} {xs : List α} (h : Tiles first last start stop xs) {x : α}
    (hx : xs.getLast? = some x) : last x + 1 = stop := by
  obtain ⟨front, rfl⟩ := List.getLast?_eq_some_iff.mp hx
  obtain ⟨middle, _, _, _, hstop⟩ := tiles_append.mp h
  exact hstop

/-- Behind an item comes the end or another item. -/
theorem tiles_next {start stop : ℕ} {xs : List α} (h : Tiles first last start stop xs) {x : α}
    (hx : x ∈ xs) : last x + 1 = stop ∨ ∃ y ∈ xs, first y = last x + 1 := by
  induction xs generalizing start with
  | nil => cases hx
  | cons z zs ih =>
    obtain ⟨_, _, hrest⟩ := h
    rcases List.mem_cons.mp hx with rfl | hx
    · cases zs with
      | nil => exact .inl hrest
      | cons y ys => exact .inr ⟨y, List.mem_cons_of_mem _ List.mem_cons_self, hrest.1⟩
    · rcases ih hrest hx with hstop | ⟨y, hy, hnext⟩
      · exact .inl hstop
      · exact .inr ⟨y, List.mem_cons_of_mem _ hy, hnext⟩

theorem tiles_pairwise {start stop : ℕ} {xs : List α} (h : Tiles first last start stop xs) :
    xs.Pairwise fun x y => last x < first y := by
  induction xs generalizing start with
  | nil => exact List.Pairwise.nil
  | cons x xs ih =>
    obtain ⟨_, _, hrest⟩ := h
    exact List.pairwise_cons.mpr ⟨fun y hy => (tiles_mem hrest hy).1, ih hrest⟩

/-- Every index is in the range of an item. -/
theorem tiles_covers {start stop : ℕ} {xs : List α} (h : Tiles first last start stop xs) {i : ℕ}
    (hstart : start ≤ i) (hstop : i < stop) : ∃ x ∈ xs, first x ≤ i ∧ i ≤ last x := by
  induction xs generalizing start with
  | nil =>
    have hends : start = stop := h
    omega
  | cons x xs ih =>
    obtain ⟨hfirst, _, hrest⟩ := h
    by_cases hin : i ≤ last x
    · exact ⟨x, List.mem_cons_self, by omega, hin⟩
    · obtain ⟨y, hy, hrange⟩ := ih hrest (by omega)
      exact ⟨y, List.mem_cons_of_mem _ hy, hrange⟩

/-- No index is in the ranges of two items. -/
theorem tiles_unique {start stop : ℕ} {xs : List α} (h : Tiles first last start stop xs) {x y : α}
    (hx : x ∈ xs) (hy : y ∈ xs) {i : ℕ} (hxi : first x ≤ i ∧ i ≤ last x)
    (hyi : first y ≤ i ∧ i ≤ last y) : x = y := by
  induction xs generalizing start with
  | nil => cases hx
  | cons z zs ih =>
    obtain ⟨_, _, hrest⟩ := h
    rcases List.mem_cons.mp hx with rfl | hx'
    · rcases List.mem_cons.mp hy with rfl | hy'
      · rfl
      · have hlater := (tiles_mem hrest hy').1
        omega
    · rcases List.mem_cons.mp hy with rfl | hy'
      · have hlater := (tiles_mem hrest hx').1
        omega
      · exact ih hrest hx' hy'

end Piclaw.Tilings
