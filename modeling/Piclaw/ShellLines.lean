import Piclaw.RemoteShell

/-!
# The lines of what a shell has printed

The text that is searched is taken line by line: the lines of the bytes before a line feed, and then
those of the bytes after it.
-/

namespace Piclaw.RemoteShell

open Utf8Decoding

section Lines

/-- A line without the carriage return at its end. -/
def dropReturn : Text → Text
  | ['\r'] => []
  | c :: rest => c :: dropReturn rest
  | [] => []

theorem normalise_cons {c : Char} {rest : Text} (h : c ≠ '\r' ∨ rest.head? ≠ some '\n') :
    normalise (c :: rest) = c :: normalise rest := by
  rw [normalise]
  rintro rest' rfl rfl
  rcases h with h | h
  · exact h rfl
  · exact h rfl

theorem normalise_line {l : Text} (h : '\n' ∉ l) : normalise l = l := by
  induction l with
  | nil => rfl
  | cons c l ih =>
    have hhead : l.head? ≠ some '\n' := fun heq =>
      h (List.mem_cons_of_mem _ (List.mem_of_head? heq))
    rw [normalise_cons (Or.inr hhead), ih fun hmem => h (List.mem_cons_of_mem _ hmem)]

theorem dropReturn_cons {c d : Char} (rest : Text) :
    dropReturn (c :: d :: rest) = c :: dropReturn (d :: rest) := by
  rw [dropReturn]
  intro _ hnil
  cases hnil

theorem dropReturn_start (l : Text) : dropReturn l <+: l := by
  induction l using dropReturn.induct with
  | case1 => exact List.nil_prefix
  | case2 c rest hne ih =>
    rw [dropReturn]
    · exact (List.prefix_cons_inj c).mpr ih
    · exact hne
  | case3 => exact List.prefix_refl _

theorem dropReturn_concat (l : Text) {c : Char} (h : c ≠ '\r') :
    dropReturn (l ++ [c]) = l ++ [c] := by
  induction l with
  | nil =>
    rw [List.nil_append, dropReturn]
    · rfl
    · intro heq _
      exact h heq
  | cons d l ih =>
    rw [List.cons_append, dropReturn, ih]
    intro _ hnil
    exact absurd hnil (by simp)

/-- A line feed takes the carriage return before it. -/
theorem normalise_append {l : Text} (h : '\n' ∉ l) (t : Text) :
    normalise (l ++ '\n' :: t) = dropReturn l ++ '\n' :: normalise t := by
  induction l with
  | nil =>
    rw [List.nil_append, normalise_cons (Or.inl (by decide))]
    rfl
  | cons c l ih =>
    have hrest := ih fun hmem => h (List.mem_cons_of_mem _ hmem)
    cases l with
    | nil =>
      by_cases hc : c = '\r'
      · subst hc
        rfl
      · rw [List.cons_append, normalise_cons (Or.inl hc), hrest, dropReturn]
        · rfl
        · intro heq _
          exact hc heq
    | cons d l =>
      have hd : d ≠ '\n' := fun heq => h (by rw [heq]; simp)
      have hhead : (d :: l ++ '\n' :: t).head? ≠ some '\n' := fun heq => hd (Option.some.inj heq)
      rw [List.cons_append, normalise_cons (Or.inr hhead), hrest, dropReturn_cons]
      rfl

/-- The lines of a normalised text. -/
theorem splitOn_normalise {l : Text} (h : '\n' ∉ l) (t : Text) :
    (normalise (l ++ '\n' :: t)).splitOn '\n' = dropReturn l :: (normalise t).splitOn '\n' := by
  have hline : '\n' ∉ dropReturn l := fun hmem => h ((dropReturn_start l).subset hmem)
  rw [normalise_append h, List.splitOn_append_cons_self_of_not_mem hline]

/-- A text is one line, or a line in front of a text. -/
theorem lines_induction {P : Text → Prop} (line : ∀ l, '\n' ∉ l → P l)
    (more : ∀ l t, '\n' ∉ l → P t → P (l ++ '\n' :: t)) (t : Text) : P t := by
  induction hn : t.length using Nat.strong_induction_on generalizing t with
  | _ n ih =>
    by_cases hnewline : '\n' ∈ t
    · obtain ⟨l, rest, rfl, hl⟩ := List.eq_append_cons_of_mem hnewline
      have hlt : rest.length < n := by
        rw [← hn, List.length_append, List.length_cons]
        omega
      exact more l rest hl (ih rest.length hlt rest rfl)
    · exact line t hnewline

/-- The lines that the search goes through. -/
def textLines (t : Text) : List Text := (normalise t).splitOn '\n'

/-- The lines of a text with a line feed after it. -/
def closedLines (t : Text) : List Text := (t.splitOn '\n').map dropReturn

theorem textLines_line {l : Text} (h : '\n' ∉ l) : textLines l = [l] := by
  unfold textLines
  rw [normalise_line h, List.splitOn_eq_singleton h]

theorem closedLines_line {l : Text} (h : '\n' ∉ l) : closedLines l = [dropReturn l] := by
  unfold closedLines
  rw [List.splitOn_eq_singleton h]
  rfl

theorem closedLines_cons {l : Text} (h : '\n' ∉ l) (t : Text) :
    closedLines (l ++ '\n' :: t) = dropReturn l :: closedLines t := by
  unfold closedLines
  rw [List.splitOn_append_cons_self_of_not_mem h]
  rfl

theorem textLines_append (t rest : Text) :
    textLines (t ++ '\n' :: rest) = closedLines t ++ textLines rest := by
  induction t using lines_induction with
  | line l hl =>
    unfold textLines
    rw [splitOn_normalise hl, closedLines_line hl]
    rfl
  | more l t hl ih =>
    have hsplit : textLines (l ++ '\n' :: (t ++ '\n' :: rest)) =
        dropReturn l :: textLines (t ++ '\n' :: rest) := splitOn_normalise hl _
    rw [List.append_assoc, List.cons_append, hsplit, ih, closedLines_cons hl]
    rfl

theorem normalise_closed (t : Text) :
    normalise (t ++ ['\n']) = (closedLines t).flatMap (· ++ ['\n']) := by
  induction t using lines_induction with
  | line l hl =>
    rw [normalise_append hl, closedLines_line hl]
    simp [normalise]
  | more l t hl ih =>
    rw [List.append_assoc, List.cons_append, normalise_append hl, ih, closedLines_cons hl]
    simp

theorem closedLines_within {t l : Text} (h : l ∈ closedLines t) : l <:+: t := by
  induction t using lines_induction with
  | line l' hl =>
    rw [closedLines_line hl, List.mem_singleton] at h
    subst h
    exact (dropReturn_start l').isInfix
  | more l' t hl ih =>
    rw [closedLines_cons hl] at h
    rcases List.mem_cons.mp h with rfl | h
    · exact ((dropReturn_start l').trans (List.prefix_append _ _)).isInfix
    · exact (ih h).trans ((List.suffix_cons _ _).trans (List.suffix_append _ _)).isInfix

theorem textLines_within {t l : Text} (h : l ∈ textLines t) : l <:+: t := by
  induction t using lines_induction with
  | line l' hl =>
    rw [textLines_line hl, List.mem_singleton] at h
    subst h
    exact List.infix_refl _
  | more l' t hl ih =>
    rw [textLines_append, closedLines_line hl] at h
    rcases List.mem_append.mp h with h | h
    · rw [List.mem_singleton] at h
      subst h
      exact ((dropReturn_start l').trans (List.prefix_append _ _)).isInfix
    · exact (ih h).trans ((List.suffix_cons _ _).trans (List.suffix_append _ _)).isInfix

end Lines

section Search

variable {start finish : Text}

theorem scanLines_append {lines : List Text} (h : ∀ l ∈ lines, endCode finish l = none)
    (output : Option Text) (rest : List Text) :
    scanLines start finish output (lines ++ rest) =
      scanLines start finish (lines.foldl (enterLine start) output) rest := by
  induction lines generalizing output with
  | nil => rfl
  | cons l lines ih =>
    rw [List.cons_append, scanLines, h l List.mem_cons_self]
    exact ih (fun l hl => h l (List.mem_cons_of_mem _ hl)) _

/-- Without an end line nothing is found. -/
theorem scanLines_quiet {lines : List Text} (h : ∀ l ∈ lines, endCode finish l = none)
    (output : Option Text) : scanLines start finish output lines = none := by
  have happend := @scanLines_append start finish lines h output []
  rwa [List.append_nil] at happend

/-- Without a start line before it no end line counts. -/
theorem scanLines_blind {lines : List Text} (h : start ∉ lines.dropLast) :
    scanLines start finish none lines = none := by
  induction lines with
  | nil => rfl
  | cons l lines ih =>
    rw [scanLines]
    cases hcode : endCode finish l with
    | some code => rfl
    | none =>
      cases lines with
      | nil => rfl
      | cons l' lines =>
        rw [List.dropLast_cons_cons, List.mem_cons, not_or] at h
        have henter : enterLine start none l = none := by
          unfold enterLine
          rw [if_neg fun heq => h.1 heq.symm]
          rfl
        change scanLines start finish (enterLine start none l) (l' :: lines) = none
        rw [henter]
        exact ih h.2

theorem foldl_enterLine {lines : List Text} (h : start ∉ lines) (t : Text) :
    lines.foldl (enterLine start) (some t) = some (t ++ lines.flatMap (· ++ ['\n'])) := by
  induction lines generalizing t with
  | nil => simp
  | cons l lines ih =>
    rw [List.mem_cons, not_or] at h
    have henter : enterLine start (some t) l = some (t ++ l ++ ['\n']) := by
      unfold enterLine
      rw [if_neg fun heq => h.1 heq.symm]
      rfl
    rw [List.foldl_cons, henter, ih h.2]
    simp

theorem endCode_starts {line : Text} {code : ℤ} (h : endCode finish line = some code) :
    finish ++ [':'] <+: line := by
  unfold endCode at h
  split_ifs at h with hline
  exact hline

theorem endCode_of_not_within {line : Text} (h : ¬ finish <:+: line) :
    endCode finish line = none := by
  cases hcode : endCode finish line with
  | none => rfl
  | some code =>
    exact absurd (((List.prefix_append _ _).trans (endCode_starts hcode)).isInfix) h

theorem endCode_short {line : Text} (h : line.length ≤ finish.length + 1) :
    endCode finish line = none := by
  unfold endCode
  split_ifs with hline
  · rw [List.drop_eq_nil_of_le h]
    rfl
  · rfl

theorem endCode_digits {digits : Text} (hne : digits ≠ [])
    (h : digits.all Char.isDigit = true) :
    endCode finish (finish ++ ':' :: digits) = some (digitsNumber digits : ℤ) := by
  have hline : finish ++ [':'] <+: finish ++ ':' :: digits := ⟨digits, by simp⟩
  have hdrop : (finish ++ ':' :: digits).drop (finish.length + 1) = digits := by
    rw [← List.drop_drop, List.drop_left]
    rfl
  unfold endCode
  rw [if_pos hline, hdrop]
  unfold exitNumber
  split
  · rename_i rest
    simp at h
  · rw [if_pos ⟨hne, h⟩]

end Search

end Piclaw.RemoteShell
