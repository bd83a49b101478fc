import Mathlib

/-!
# Ends and runs of a text

Two operations on texts, as lists of characters: stripping a class of characters from both ends,
and replacing every maximal run of a class by one character. What they leave alone, and which
shape their results have.
-/

namespace TextRuns
variable {α : Type} {p : α → Bool} {d : α} {l : List α} {inRun : Bool}

section Strip

def stripEnds (p : α → Bool) (l : List α) : List α := (l.dropWhile p).rdropWhile p

theorem mem_of_mem_stripEnds {x : α} (h : x ∈ stripEnds p l) : x ∈ l :=
  (List.dropWhile_suffix p).mem ((List.rdropWhile_prefix p _).mem h)

theorem stripEnds_head? {x : α} (h : (stripEnds p l).head? = some x) : p x = false := by
  have hpre : stripEnds p l <+: l.dropWhile p := List.rdropWhile_prefix p _
  have hhead : (l.dropWhile p).head? = some x := by
    obtain ⟨rest, hrest⟩ := hpre
    rw [← hrest, List.head?_append, h]
    rfl
  have hnot := List.head?_dropWhile_not p l
  rw [hhead] at hnot
  exact hnot

theorem stripEnds_getLast? {x : α} (h : (stripEnds p l).getLast? = some x) : p x = false := by
  have hne : stripEnds p l ≠ [] := by
    intro hnil
    rw [hnil] at h
    cases h
  have hnot := List.rdropWhile_last_not p (l.dropWhile p) hne
  rw [List.getLast?_eq_some_getLast hne] at h
  cases h
  exact Bool.eq_false_iff.mpr hnot

theorem stripEnds_eq_self (hhead : ∀ x, l.head? = some x → p x = false)
    (hlast : ∀ x, l.getLast? = some x → p x = false) : stripEnds p l = l := by
  have hdrop : l.dropWhile p = l := by
    cases l with
    | nil => rfl
    | cons x l => exact List.dropWhile_cons_of_neg (by simp [hhead x rfl])
  unfold stripEnds
  rw [hdrop, List.rdropWhile_eq_self_iff]
  intro hne
  rw [hlast _ (List.getLast?_eq_some_getLast hne)]
  exact Bool.false_ne_true

theorem rdropWhile_append_of_all {tail : List α} (h : ∀ x ∈ tail, p x = true) :
    (l ++ tail).rdropWhile p = l.rdropWhile p := by
  unfold List.rdropWhile
  rw [List.reverse_append, List.dropWhile_append_of_pos]
  intro x hx
  exact h x (List.mem_reverse.mp hx)

theorem rdropWhile_append_of_ne_nil {tail : List α} (h : tail.rdropWhile p ≠ []) :
    (l ++ tail).rdropWhile p = l ++ tail.rdropWhile p := by
  unfold List.rdropWhile at h ⊢
  have hne : (tail.reverse.dropWhile p).isEmpty = false := by
    rw [List.isEmpty_eq_false_iff]
    intro hnil
    rw [hnil] at h
    exact h rfl
  rw [List.reverse_append, List.dropWhile_append, hne]
  simp

/-- A list is what stripping its end leaves, and then only elements of the class. -/
theorem exists_rdropWhile_append (p : α → Bool) (l : List α) :
    ∃ tail, l = l.rdropWhile p ++ tail ∧ ∀ x ∈ tail, p x = true := by
  refine ⟨l.rtakeWhile p, ?_, fun x hx => List.mem_rtakeWhile_imp hx⟩
  unfold List.rdropWhile List.rtakeWhile
  rw [← List.reverse_append, List.takeWhile_append_dropWhile, List.reverse_reverse]

theorem stripEnds_append_of_all {tail : List α} (h : ∀ x ∈ tail, p x = true) :
    stripEnds p (l ++ tail) = stripEnds p l := by
  unfold stripEnds
  rw [List.dropWhile_append]
  split_ifs with hempty
  · have hnil : tail.dropWhile p = [] := List.dropWhile_eq_nil_iff.mpr h
    rw [hnil, List.isEmpty_iff.mp hempty]
  · exact rdropWhile_append_of_all h

end Strip

section Replace

/-- `inRun` says that the character before the list belongs to the class. -/
def replaceRuns (p : α → Bool) (d : α) : Bool → List α → List α
  | _, [] => []
  | inRun, x :: l =>
    if p x then
      if inRun then replaceRuns p d true l else d :: replaceRuns p d true l
    else x :: replaceRuns p d false l

theorem mem_replaceRuns {x : α} (h : x ∈ replaceRuns p d inRun l) :
    x = d ∨ (x ∈ l ∧ p x = false) := by
  induction l generalizing inRun with
  | nil => cases h
  | cons y l ih =>
    have hrest : ∀ b, x ∈ replaceRuns p d b l → x = d ∨ (x ∈ y :: l ∧ p x = false) := by
      intro b hb
      rcases ih hb with hd | ⟨hmem, hp⟩
      · exact .inl hd
      · exact .inr ⟨List.mem_cons_of_mem _ hmem, hp⟩
    unfold replaceRuns at h
    split_ifs at h with hp hrun
    · exact hrest true h
    · rcases List.mem_cons.mp h with hd | hmem
      · exact .inl hd
      · exact hrest true hmem
    · rcases List.mem_cons.mp h with rfl | hmem
      · exact .inr ⟨List.mem_cons_self, Bool.eq_false_iff.mpr hp⟩
      · exact hrest false hmem

theorem replaceRuns_eq_self (h : ∀ x ∈ l, p x = false) : replaceRuns p d inRun l = l := by
  induction l generalizing inRun with
  | nil => rfl
  | cons x l ih =>
    unfold replaceRuns
    rw [if_neg (by simp [h x List.mem_cons_self]),
      ih (fun y hy => h y (List.mem_cons_of_mem _ hy))]

/-- A class of one character, replaced by that character: its runs collapse. -/
abbrev collapse [DecidableEq α] (d : α) (inRun : Bool) (l : List α) : List α :=
  replaceRuns (fun x => decide (x = d)) d inRun l

variable [DecidableEq α]

theorem collapse_cons_self :
    collapse d inRun (d :: l) = if inRun then collapse d true l else d :: collapse d true l := by
  simp [collapse, replaceRuns]

theorem collapse_cons_of_ne {x : α} (hx : x ≠ d) :
    collapse d inRun (x :: l) = x :: collapse d false l := by
  simp [collapse, replaceRuns, hx]

theorem collapse_eq_self (h : l.IsChain (fun x y => ¬ (x = d ∧ y = d)))
    (hrun : inRun = true → l.head? ≠ some d) : collapse d inRun l = l := by
  induction l generalizing inRun with
  | nil => rfl
  | cons x l ih =>
    obtain ⟨hnext, hrest⟩ := List.isChain_cons.mp h
    by_cases hx : x = d
    · subst hx
      have hout : ¬ inRun = true := fun hin => hrun hin rfl
      rw [collapse_cons_self, if_neg hout, ih hrest (fun _ hd => hnext x hd ⟨rfl, rfl⟩)]
    · rw [collapse_cons_of_ne hx, ih hrest (fun hfalse => Bool.noConfusion hfalse)]

theorem collapse_isChain :
    (collapse d inRun l).IsChain (fun x y => ¬ (x = d ∧ y = d)) ∧
      (inRun = true → (collapse d inRun l).head? ≠ some d) := by
  induction l generalizing inRun with
  | nil => exact ⟨.nil, fun _ h => by cases h⟩
  | cons x l ih =>
    by_cases hx : x = d
    · subst hx
      rw [collapse_cons_self]
      have htail := @ih true
      split_ifs with hin
      · exact ⟨htail.1, fun _ => htail.2 rfl⟩
      · refine ⟨List.isChain_cons.mpr ⟨?_, htail.1⟩, fun h => absurd h hin⟩
        intro y hy hboth
        exact htail.2 rfl (hboth.2 ▸ hy)
    · rw [collapse_cons_of_ne hx]
      refine ⟨List.isChain_cons.mpr ⟨fun y _ hboth => hx hboth.1, (@ih false).1⟩, ?_⟩
      intro _ h
      exact hx (Option.some.inj h)

theorem collapse_head? (h : l.head? ≠ some d) : (collapse d false l).head? = l.head? := by
  cases l with
  | nil => rfl
  | cons x l =>
    rw [collapse_cons_of_ne (fun heq => h (congrArg some heq))]
    rfl

theorem collapse_getLast? (h : l.getLast? ≠ some d) :
    (collapse d inRun l).getLast? = l.getLast? := by
  induction l generalizing inRun with
  | nil => rfl
  | cons x l ih =>
    cases l with
    | nil =>
      have hx : x ≠ d := fun heq => h (congrArg some heq)
      rw [collapse_cons_of_ne hx]
      rfl
    | cons y l =>
      rw [List.getLast?_cons_cons] at h ⊢
      have hne : ∀ b, collapse d b (y :: l) ≠ [] := by
        intro b hnil
        have hlast := @ih b h
        rw [hnil, List.getLast?_nil, eq_comm, List.getLast?_eq_none_iff] at hlast
        cases hlast
      by_cases hx : x = d
      · subst hx
        rw [collapse_cons_self]
        split_ifs
        · exact ih h
        · rw [List.getLast?_cons_of_ne_nil (hne true)]
          exact ih h
      · rw [collapse_cons_of_ne hx, List.getLast?_cons_of_ne_nil (hne false)]
        exact ih h

end Replace

end TextRuns
