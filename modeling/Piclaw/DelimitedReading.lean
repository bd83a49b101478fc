import Piclaw.DelimitedPreview

/-!
# Reading encoded tables

The reader gives back the rows that were encoded, except that it never keeps a later row of one
empty field, nor a last row of one empty field without a line end.
-/

namespace Piclaw.DelimitedPreview

open CanonicalText

variable {delimiter rowLimit : ℕ} {s : Reader} {rest : Units}

section Fields

/-- The unit starts no quotes, separates no fields and ends no row. -/
def Plain (delimiter u : ℕ) : Prop := u ≠ delimiter ∧ u ≠ 34 ∧ u ≠ 13 ∧ u ≠ 10

theorem readUnits_plain {u : ℕ} (h : Plain delimiter u) (hquoted : s.quoted = false) :
    readUnits delimiter rowLimit false s (u :: rest) =
      readUnits delimiter rowLimit false { s with field := s.field ++ [u] } rest := by
  obtain ⟨hdelimiter, hquote, hcr, hlf⟩ := h
  rw [readUnits, if_neg hquote, hquoted]
  simp [hdelimiter, hcr, hlf]

theorem readUnits_bare {field : Units} (h : ∀ u ∈ field, Plain delimiter u)
    (hquoted : s.quoted = false) :
    readUnits delimiter rowLimit false s (field ++ rest) =
      readUnits delimiter rowLimit false { s with field := s.field ++ field } rest := by
  induction field generalizing s with
  | nil => simp
  | cons u field ih =>
    rw [List.forall_mem_cons] at h
    rw [List.cons_append, readUnits_plain h.1 hquoted,
      ih (s := { s with field := s.field ++ [u] }) h.2 hquoted, List.append_assoc,
      List.singleton_append]

/-- Inside quotes a unit is read as it was encoded. -/
theorem readUnits_inside {u : ℕ} (hquoted : s.quoted = true) :
    readUnits delimiter rowLimit false s ((if u = 34 then [34, 34] else [u]) ++ rest) =
      readUnits delimiter rowLimit false { s with field := s.field ++ [u] } rest := by
  split_ifs with hquote
  · subst hquote
    rw [List.cons_append, List.singleton_append, readUnits, if_pos rfl, hquoted]
    simp [readUnits]
  · rw [List.singleton_append, readUnits, if_neg hquote, hquoted]
    simp

theorem readUnits_doubled {field : Units} (hquoted : s.quoted = true) :
    readUnits delimiter rowLimit false s
        (field.flatMap (fun u => if u = 34 then [34, 34] else [u]) ++ rest) =
      readUnits delimiter rowLimit false { s with field := s.field ++ field } rest := by
  induction field generalizing s with
  | nil => simp
  | cons u field ih =>
    rw [List.flatMap_cons, List.append_assoc, readUnits_inside hquoted,
      ih (s := { s with field := s.field ++ [u] }) hquoted, List.append_assoc,
      List.singleton_append]

theorem plain_of_not_needsQuotes {field : Units} (h : needsQuotes delimiter field = false) :
    ∀ u ∈ field, Plain delimiter u := by
  intro u hu
  unfold needsQuotes at h
  have hu' := List.any_eq_false.mp h u hu
  simpa [Plain, not_or, and_assoc] using hu'

/-- An encoded field is read back, where no quote follows it. -/
theorem readUnits_encodeField (field : Units) (hquoted : s.quoted = false)
    (hrest : rest.head? ≠ some 34) :
    readUnits delimiter rowLimit false s (encodeField delimiter field ++ rest) =
      readUnits delimiter rowLimit false { s with field := s.field ++ field } rest := by
  unfold encodeField
  split_ifs with hneeds
  · rw [List.cons_append, List.append_assoc, readUnits, if_pos rfl, hquoted, Bool.false_and,
      if_neg Bool.false_ne_true, readUnits_doubled rfl, List.singleton_append, readUnits,
      if_pos rfl, if_neg (by simpa using hrest)]
    simp
  · exact readUnits_bare (plain_of_not_needsQuotes (Bool.eq_false_iff.mpr hneeds)) hquoted

theorem readUnits_delimiter (hdelimiter : delimiter ≠ 34) (hquoted : s.quoted = false) :
    readUnits delimiter rowLimit false s (delimiter :: rest) =
      readUnits delimiter rowLimit false (pushField s) rest := by
  rw [readUnits, if_neg hdelimiter, hquoted]
  simp

theorem encodeRow_cons (delimiter : ℕ) (field next : Units) (row : Row) :
    encodeRow delimiter (field :: next :: row) =
      encodeField delimiter field ++ delimiter :: encodeRow delimiter (next :: row) := by
  simp [encodeRow, List.intercalate]

/-- After an encoded row the reader holds all its fields, the last of them still open. -/
theorem readUnits_encodeRow (rowLimit : ℕ) {row : Row} (hrow : row ≠ [])
    (hdelimiter : delimiter ≠ 34) (hquoted : s.quoted = false) (hfield : s.field = [])
    (hrest : rest.head? ≠ some 34) :
    ∃ s', readUnits delimiter rowLimit false s (encodeRow delimiter row ++ rest) =
        readUnits delimiter rowLimit false s' rest ∧
      s'.rows = s.rows ∧ s'.row ++ [s'.field] = s.row ++ row ∧ s'.quoted = false := by
  induction row generalizing s with
  | nil => exact absurd rfl hrow
  | cons field row ih =>
    cases row with
    | nil =>
      refine ⟨{ s with field := field }, ?_, rfl, rfl, hquoted⟩
      have hone : encodeRow delimiter [field] = encodeField delimiter field := by
        simp [encodeRow, List.intercalate]
      rw [hone, readUnits_encodeField field hquoted hrest, hfield, List.nil_append]
    | cons next row =>
      have hsep : (delimiter :: (encodeRow delimiter (next :: row) ++ rest)).head? ≠ some 34 := by
        simpa using hdelimiter
      rw [encodeRow_cons, List.append_assoc, List.cons_append,
        readUnits_encodeField field hquoted hsep,
        readUnits_delimiter (s := { s with field := s.field ++ field }) hdelimiter hquoted]
      obtain ⟨s', hread, hrows, hfields, hopen⟩ :=
        ih (s := pushField { s with field := s.field ++ field }) (List.cons_ne_nil _ _) hquoted rfl
      refine ⟨s', hread, hrows, ?_, hopen⟩
      rw [hfields]
      simp [pushField, hfield]

end Fields

section Rows

/-- One more row after the rows read so far. -/
def keepRow (rows : List Row) (row : Row) : List Row :=
  if row = [[]] ∧ rows ≠ [] then rows else rows ++ [row]

/-- The rows that the reader keeps of those that end with a line end, up to the limit. -/
def collect (rowLimit : ℕ) : List Row → List Row → List Row × Bool
  | rows, [] => (rows, false)
  | rows, row :: rest =>
    if rowLimit ≤ (keepRow rows row).length then (keepRow rows row, true)
    else collect rowLimit (keepRow rows row) rest

theorem pushRow_eq {row : Row} (h : s.row ++ [s.field] = row) (hquoted : s.quoted = false) :
    pushRow s = ⟨keepRow s.rows row, [], [], false⟩ := by
  unfold pushRow pushField keepRow
  dsimp only
  rw [h, hquoted]
  congr 1
  cases s.rows with
  | nil => simp
  | cons first rows => simp

theorem readUnits_lineEnd (e : LineEnd) (hdelimiter : delimiter ≠ 10 ∧ delimiter ≠ 13)
    (hquoted : s.quoted = false) :
    readUnits delimiter rowLimit false s (e.units ++ rest) =
      if rowLimit ≤ (pushRow s).rows.length then (pushRow s, true)
      else readUnits delimiter rowLimit false (pushRow s) rest := by
  cases e with
  | crlf =>
    dsimp only [LineEnd.units]
    rw [List.cons_append, List.singleton_append, readUnits, if_neg (by decide), hquoted]
    simp [Ne.symm hdelimiter.2, readUnits]
  | lf =>
    dsimp only [LineEnd.units]
    rw [List.singleton_append, readUnits, if_neg (by decide), hquoted]
    simp [Ne.symm hdelimiter.1]

theorem readUnits_line {line : Row × LineEnd} (hrow : line.1 ≠ [])
    (hdelimiter : delimiter ≠ 34 ∧ delimiter ≠ 10 ∧ delimiter ≠ 13) (rows : List Row) :
    readUnits delimiter rowLimit false ⟨rows, [], [], false⟩
        (encodeRow delimiter line.1 ++ line.2.units ++ rest) =
      if rowLimit ≤ (keepRow rows line.1).length then (⟨keepRow rows line.1, [], [], false⟩, true)
      else readUnits delimiter rowLimit false ⟨keepRow rows line.1, [], [], false⟩ rest := by
  have hend : (line.2.units ++ rest).head? ≠ some 34 := by
    cases line.2 with
    | crlf => simp [LineEnd.units]
    | lf => simp [LineEnd.units]
  obtain ⟨s', hread, hrows, hfields, hopen⟩ := readUnits_encodeRow rowLimit
    (s := ⟨rows, [], [], false⟩) hrow hdelimiter.1 rfl rfl hend
  rw [List.append_assoc, hread, readUnits_lineEnd line.2 hdelimiter.2 hopen,
    pushRow_eq hfields hopen, hrows]
  rfl

/-- The rows with line ends are collected, and reading goes on after them. -/
theorem readUnits_lines {lines : List (Row × LineEnd)} (hrows : ∀ line ∈ lines, line.1 ≠ [])
    (hdelimiter : delimiter ≠ 34 ∧ delimiter ≠ 10 ∧ delimiter ≠ 13) (rows : List Row) :
    readUnits delimiter rowLimit false ⟨rows, [], [], false⟩
        (lines.flatMap (fun line => encodeRow delimiter line.1 ++ line.2.units) ++ rest) =
      if (collect rowLimit rows (lines.map Prod.fst)).2 then
        (⟨(collect rowLimit rows (lines.map Prod.fst)).1, [], [], false⟩, true)
      else readUnits delimiter rowLimit false
        ⟨(collect rowLimit rows (lines.map Prod.fst)).1, [], [], false⟩ rest := by
  induction lines generalizing rows with
  | nil => simp [collect]
  | cons line lines ih =>
    rw [List.forall_mem_cons] at hrows
    rw [List.flatMap_cons, List.append_assoc, readUnits_line hrows.1 hdelimiter, List.map_cons,
      collect]
    by_cases hfull : rowLimit ≤ (keepRow rows line.1).length
    · rw [if_pos hfull, if_pos hfull]
      rfl
    · rw [if_neg hfull, if_neg hfull, ih hrows.2]

/-- Whether a later row, or a last one without a line end, is kept. -/
def isKept (row : Row) : Bool := decide (row ≠ [[]])

theorem isKept_iff {row : Row} : isKept row = true ↔ row ≠ [[]] := decide_eq_true_iff

/-- The rows that are kept whatever the limit: the first one, and the later ones but those of one
empty field. -/
def keptLines : List Row → List Row
  | [] => []
  | row :: rows => row :: rows.filter isKept

def Table.kept (t : Table) : List Row :=
  keptLines (t.lines.map Prod.fst) ++ t.unterminated.toList.filter isKept

theorem collect_of_ne_nil {rows : List Row} (hne : rows ≠ []) (hlen : rows.length < rowLimit)
    (lines : List Row) :
    collect rowLimit rows lines =
      ((rows ++ lines.filter isKept).take rowLimit,
        decide (rowLimit ≤ (rows ++ lines.filter isKept).length)) := by
  induction lines generalizing rows with
  | nil =>
    rw [collect, List.filter_nil, List.append_nil, List.take_of_length_le hlen.le,
      decide_eq_false (not_le.mpr hlen)]
  | cons row lines ih =>
    rw [collect]
    by_cases hempty : row = [[]]
    · have hkeep : keepRow rows row = rows := if_pos ⟨hempty, hne⟩
      rw [hkeep, if_neg (not_le.mpr hlen), ih hne hlen,
        List.filter_cons_of_neg (fun h => isKept_iff.mp h hempty)]
    · have hkeep : keepRow rows row = rows ++ [row] := if_neg (fun h => hempty h.1)
      have hsplit : rows ++ (row :: lines).filter isKept =
          (rows ++ [row]) ++ lines.filter isKept := by
        rw [List.filter_cons_of_pos (isKept_iff.mpr hempty), List.append_assoc,
          List.singleton_append]
      rw [hkeep, hsplit]
      split_ifs with hfull
      · have hexact : (rows ++ [row]).length = rowLimit := by
          simp only [List.length_append, List.length_singleton] at hfull ⊢
          omega
        rw [← hexact, List.take_left]
        simp
      · exact ih (by simp) (not_le.mp hfull)

theorem collect_nil (hlimit : 1 < rowLimit) (lines : List Row) :
    collect rowLimit [] lines =
      ((keptLines lines).take rowLimit, decide (rowLimit ≤ (keptLines lines).length)) := by
  cases lines with
  | nil =>
    have hpos : ¬ rowLimit ≤ 0 := by omega
    simp [collect, keptLines, hpos]
  | cons row lines =>
    have hkeep : keepRow [] row = [row] := if_neg (fun h => h.2 rfl)
    rw [collect, hkeep, if_neg (by simpa using hlimit),
      collect_of_ne_nil (List.cons_ne_nil _ _) (by simpa using hlimit)]
    rfl

/-- The reader returns the kept rows of an encoded table up to its limit, and says whether there
are that many. -/
theorem parseRows_encode (t : Table) (hrows : ∀ row ∈ t.rows, row ≠ [])
    (hdelimiter : delimiter ≠ 34 ∧ delimiter ≠ 10 ∧ delimiter ≠ 13) (hlimit : 1 < rowLimit) :
    parseRows (encode delimiter t) delimiter rowLimit =
      (t.kept.take rowLimit, decide (rowLimit ≤ t.kept.length)) := by
  have hlines : ∀ line ∈ t.lines, line.1 ≠ [] := by
    intro line hline
    exact hrows line.1 (List.mem_append_left _ (List.mem_map_of_mem hline))
  unfold parseRows encode Table.kept
  rw [readUnits_lines hlines hdelimiter, collect_nil hlimit]
  generalize hkept : keptLines (t.lines.map Prod.fst) = kept
  by_cases hfull : rowLimit ≤ kept.length
  · have hmore : rowLimit ≤
        (kept ++ t.unterminated.toList.filter isKept).length := by
      rw [List.length_append]
      omega
    rw [decide_eq_true hfull, if_pos rfl, List.take_append_of_le_length hfull, decide_eq_true hmore]
    rfl
  · have hroom : kept.length < rowLimit := not_le.mp hfull
    rw [decide_eq_false hfull, if_neg Bool.false_ne_true, List.take_of_length_le hroom.le]
    cases hlast : t.unterminated with
    | none =>
      rw [Option.map_none, Option.getD_none, Option.toList_none, List.filter_nil, List.append_nil,
        List.take_of_length_le hroom.le, decide_eq_false hfull]
      rfl
    | some row =>
      have hmem : row ∈ t.unterminated.toList := by
        rw [hlast]
        exact List.mem_cons_self
      have hrow : row ≠ [] := hrows row (List.mem_append_right _ hmem)
      have hend : ([] : Units).head? ≠ some 34 := by simp
      obtain ⟨s', hread, hsame, hfields, hopen⟩ := readUnits_encodeRow rowLimit
        (s := ⟨kept, [], [], false⟩) hrow hdelimiter.1 rfl rfl hend
      dsimp only at hsame hfields
      rw [List.nil_append] at hfields
      rw [List.append_nil] at hread
      rw [Option.map_some, Option.getD_some, hread, readUnits, Option.toList_some]
      -- The open row is the empty one exactly if nothing was read of it.
      by_cases hempty : row = [[]]
      · have hnil : s'.row = [] ∧ s'.field = [] := by
          rw [hempty] at hfields
          cases hrowNil : s'.row with
          | nil =>
            rw [hrowNil, List.nil_append, List.singleton_inj] at hfields
            exact ⟨rfl, hfields⟩
          | cons first others =>
            rw [hrowNil] at hfields
            simp at hfields
        rw [List.filter_cons_of_neg (fun h => isKept_iff.mp h hempty), List.filter_nil,
          List.append_nil, List.take_of_length_le hroom.le, decide_eq_false hfull, ← hsame]
        simp [hnil]
      · have hopenRow : 0 < s'.field.length ∨ 0 < s'.row.length := by
          by_contra! hnil
          rw [Nat.le_zero, Nat.le_zero, List.length_eq_zero_iff, List.length_eq_zero_iff] at hnil
          rw [hnil.1, hnil.2] at hfields
          exact hempty hfields.symm
        have hkeep : keepRow kept row = kept ++ [row] := if_neg (fun h => hempty h.1)
        have hlength : (kept ++ [row]).length ≤ rowLimit := by
          rw [List.length_append, List.length_singleton]
          exact hroom
        have hpush : pushRow s' = ⟨kept ++ [row], [], [], false⟩ := by
          rw [pushRow_eq hfields hopen, hsame, hkeep]
        rw [List.filter_cons_of_pos (isKept_iff.mpr hempty), List.filter_nil,
          List.take_of_length_le hlength]
        dsimp only
        rw [if_pos (by simpa using hopenRow), hpush]

end Rows

end Piclaw.DelimitedPreview
