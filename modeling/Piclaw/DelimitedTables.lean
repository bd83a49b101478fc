import Piclaw.DelimitedReading

/-!
# The preview of an encoded table

The preview is computed from the rows that the reader keeps. It shows the table that was written
exactly if leaving the other rows out makes no difference within the limits.
-/

namespace Piclaw.DelimitedPreview

open CanonicalText TextRuns

variable {delimiter : DelimitedPreviewDelimiter} {first : Row} {others : List Row}

theorem unit_separates (delimiter : DelimitedPreviewDelimiter) :
    delimiter.unit ≠ 34 ∧ delimiter.unit ≠ 10 ∧ delimiter.unit ≠ 13 := by
  cases delimiter with
  | comma => decide
  | tab => decide
  | semicolon => decide
  | bar => decide

theorem parseDelimitedPreview_encode (t : Table) (hrows : ∀ row ∈ t.rows, row ≠ [])
    (options : DelimitedPreviewOptions) :
    parseDelimitedPreview (encode delimiter.unit t) delimiter options =
      previewOf delimiter t.kept options := by
  have hlimit : 1 < rowLimitOf options + 1 := Nat.lt_succ_of_le (le_max_left _ _)
  unfold parseDelimitedPreview previewOf
  dsimp only
  rw [parseRows_encode t hrows (unit_separates delimiter) hlimit, List.take_take,
    Nat.min_eq_left (Nat.le_succ _), List.length_take]
  congr 1
  rw [Bool.eq_iff_iff, Bool.or_eq_true, decide_eq_true_eq, decide_eq_true_eq, decide_eq_true_eq]
  omega

section Layouts

theorem layout_length (rows : List Row) (maxColumns : ℕ) :
    (layout rows maxColumns).normalized.length = rows.length :=
  List.length_map _

def headerRow (l : Layout) : Bool :=
  (l.normalized.headD []).any (fun cell => decide (0 < (trim cell).length))

theorem present_rows (delimiter : DelimitedPreviewDelimiter) (l : Layout) (b : Bool) :
    (present delimiter l b).rows =
      if headerRow l = true ∧ 1 < l.normalized.length then l.normalized.tail else l.normalized := by
  unfold present headerRow
  dsimp only
  simp only [Bool.and_eq_true, decide_eq_true_eq, List.length_tail, Nat.sub_pos_iff_lt]

/-- The shown rows can be told from a result but for one case: two equal rows, the first of them
taken for a header, look like one. -/
theorem normalized_of_present {l l' : Layout} {b b' : Bool}
    (h : present delimiter l b = present delimiter l' b')
    (hhead : l.normalized.head? = l'.normalized.head?) :
    l.normalized = l'.normalized ∨ headerRow l = true ∧
      ((l.normalized.length = 1 ∧ l'.normalized.length = 2) ∨
        ∃ row, l'.normalized = [row] ∧ l.normalized = [row, row]) := by
  have hrows := congrArg DelimitedPreviewResult.rows h
  have hsame : headerRow l = headerRow l' := by
    unfold headerRow
    rw [List.headD_eq_head?_getD, List.headD_eq_head?_getD, hhead]
  rw [present_rows, present_rows, ← hsame] at hrows
  by_cases hheader : headerRow l = true
  · simp only [hheader, true_and] at hrows
    cases hl : l.normalized with
    | nil =>
      rw [hl, List.head?_nil] at hhead
      rw [List.head?_eq_none_iff.mp hhead.symm]
      exact Or.inl rfl
    | cons row rows =>
      obtain ⟨rows', hl'⟩ : ∃ rows', l'.normalized = row :: rows' := by
        rw [hl, List.head?_cons] at hhead
        exact List.head?_eq_some_iff.mp hhead.symm
      rw [hl, hl', List.tail_cons, List.tail_cons] at hrows
      rw [hl']
      split_ifs at hrows with hmany hmany' hmany'
      · rw [hrows]
        exact Or.inl rfl
      · have hone : rows' = [] := List.length_eq_zero_iff.mp (by simpa using hmany')
        rw [hone] at hrows ⊢
        rw [hrows]
        exact Or.inr ⟨hheader, Or.inr ⟨row, rfl, rfl⟩⟩
      · have hone : rows = [] := List.length_eq_zero_iff.mp (by simpa using hmany)
        rw [hone] at hrows ⊢
        rw [← hrows]
        exact Or.inr ⟨hheader, Or.inl ⟨rfl, rfl⟩⟩
      · exact Or.inl hrows
  · rw [if_neg (fun hmany => hheader hmany.1), if_neg (fun hmany => hheader hmany.1)] at hrows
    exact Or.inl hrows

theorem trim_nil : trim [] = [] := rfl

/-- A row of one empty field is shown as empty cells, which are no header. -/
theorem blank_row (width : ℕ) :
    (([[]] : Row).take width ++ List.replicate (width - 1) []).any
      (fun cell => decide (0 < (trim cell).length)) = false := by
  rw [List.any_eq_false]
  intro cell hcell
  have hnil : cell = [] := by
    rcases List.mem_append.mp hcell with hcell | hcell
    · exact List.mem_singleton.mp (List.mem_of_mem_take hcell)
    · exact List.eq_of_mem_replicate hcell
  rw [hnil, trim_nil]
  decide

end Layouts

section Lost

def shown (rows : List Row) (options : DelimitedPreviewOptions) : Layout :=
  layout (rows.take (rowLimitOf options)) (columnLimitOf options)

def padded (row : Row) (width : ℕ) : Row :=
  row.take width ++ List.replicate (width - row.length) []

theorem shown_cons (first : Row) (rows : List Row) (options : DelimitedPreviewOptions) :
    (shown (first :: rows) options).normalized =
      padded first (shown (first :: rows) options).columnCount ::
        (rows.take (rowLimitOf options - 1)).map
          (fun row => padded row (shown (first :: rows) options).columnCount) := by
  have hlimit : rowLimitOf options = rowLimitOf options - 1 + 1 := by
    have : 1 ≤ rowLimitOf options := le_max_left _ _
    omega
  have htake : (first :: rows).take (rowLimitOf options) =
      first :: rows.take (rowLimitOf options - 1) := by
    rw [hlimit, List.take_succ_cons]
    rfl
  unfold shown layout normalizeRowsToWidth
  dsimp only
  rw [htake]
  rfl

theorem shown_length (rows : List Row) (options : DelimitedPreviewOptions) :
    (shown rows options).normalized.length = min (rowLimitOf options) rows.length := by
  unfold shown
  rw [layout_length, List.length_take]

/-- Equal previews of a table with and without the lost rows have the same leading rows. -/
theorem normalized_eq_of_filter {first : Row} {others : List Row}
    {options : DelimitedPreviewOptions}
    (h : previewOf delimiter (first :: others.filter isKept) options =
      previewOf delimiter (first :: others) options) :
    (shown (first :: others.filter isKept) options).normalized =
      (shown (first :: others) options).normalized := by
  have hshorter := List.length_filter_le isKept others
  have hcount : (shown (first :: others.filter isKept) options).columnCount =
      (shown (first :: others) options).columnCount :=
    congrArg DelimitedPreviewResult.columnCount h
  have hhead : (shown (first :: others) options).normalized.head? =
      (shown (first :: others.filter isKept) options).normalized.head? := by
    rw [shown_cons, shown_cons, List.head?_cons, List.head?_cons, hcount]
  have hpresent : present delimiter (shown (first :: others) options) _ =
      present delimiter (shown (first :: others.filter isKept) options) _ := h.symm
  rcases normalized_of_present hpresent hhead with
    hsame | ⟨hheader, ⟨hone, htwo⟩ | ⟨row, hone, htwo⟩⟩
  · exact hsame.symm
  · have hone' := shown_length (first :: others) options
    have htwo' := shown_length (first :: others.filter isKept) options
    simp only [List.length_cons] at hone' htwo'
    omega
  · -- All rows after the first are lost, so the second shown row is no copy of a header.
    have hone' := shown_length (first :: others.filter isKept) options
    have htwo' := shown_length (first :: others) options
    rw [hone, List.length_singleton, List.length_cons] at hone'
    rw [htwo, List.length_cons, List.length_singleton, List.length_cons] at htwo'
    have hnil : others.filter isKept = [] :=
      List.length_eq_zero_iff.mp (by omega)
    cases others with
    | nil => exact absurd (htwo'.trans_le (Nat.min_le_right _ _)) (by decide)
    | cons second others =>
      have hempty : second = [[]] := by
        by_contra hne
        exact List.filter_eq_nil_iff.mp hnil second List.mem_cons_self (isKept_iff.mpr hne)
      have hrows := shown_cons first (second :: others) options
      have htake : (second :: others).take (rowLimitOf options - 1) =
          second :: others.take (rowLimitOf options - 1 - 1) := by
        have hroom : rowLimitOf options - 1 = rowLimitOf options - 1 - 1 + 1 := by omega
        rw [hroom, List.take_succ_cons]
        rfl
      rw [htwo, htake, List.map_cons, List.cons.injEq, List.cons.injEq] at hrows
      unfold headerRow at hheader
      rw [htwo, List.headD_cons, hrows.2.1, hempty] at hheader
      exact absurd hheader (Bool.eq_false_iff.mp (blank_row _))

/-- With the rows of one empty field left out of the later ones, the preview stays the same
exactly if there is none, or if there are still more rows than the limit and the leading ones look
the same. -/
theorem previewOf_filter_iff (first : Row) (others : List Row) (options : DelimitedPreviewOptions) :
    previewOf delimiter (first :: others.filter isKept) options =
        previewOf delimiter (first :: others) options ↔
      (∀ row ∈ others, row ≠ [[]]) ∨
        rowLimitOf options < (first :: others.filter isKept).length ∧
          shown (first :: others.filter isKept) options =
            shown (first :: others) options := by
  have hshorter := List.length_filter_le isKept others
  constructor
  · intro h
    have hnormalized := normalized_eq_of_filter h
    have hlength := congrArg List.length hnormalized
    rw [shown_length, shown_length, List.length_cons, List.length_cons] at hlength
    by_cases hmore : rowLimitOf options < (first :: others).length
    · right
      have hcut : decide (rowLimitOf options <
          (first :: others.filter isKept).length) =
            decide (rowLimitOf options < (first :: others).length) :=
        congrArg DelimitedPreviewResult.truncatedRows h
      rw [decide_eq_true hmore] at hcut
      refine ⟨of_decide_eq_true hcut, ?_⟩
      have hcount := congrArg DelimitedPreviewResult.columnCount h
      have hcolumns := congrArg DelimitedPreviewResult.truncatedColumns h
      exact Layout.ext hcount hcolumns hnormalized
    · left
      rw [List.length_cons] at hmore
      have hall : (others.filter isKept).length = others.length := by omega
      rw [List.length_filter_eq_length_iff] at hall
      exact fun row hrow => isKept_iff.mp (hall row hrow)
  · rintro (hnone | ⟨hmore, hsame⟩)
    · rw [List.filter_eq_self.mpr (fun row hrow => isKept_iff.mpr (hnone row hrow))]
    · have hmore' : rowLimitOf options < (first :: others).length := by
        rw [List.length_cons] at hmore ⊢
        omega
      unfold shown at hsame
      unfold previewOf
      rw [hsame, decide_eq_true hmore, decide_eq_true hmore']

/-- No row of one empty field after the first, and no such last row without a line end. -/
def NoneLost (t : Table) : Prop :=
  (∀ line ∈ t.lines.tail, line.1 ≠ [[]]) ∧ t.unterminated ≠ some [[]]

theorem kept_of_noneLost {t : Table} (h : NoneLost t) : t.kept = t.rows := by
  obtain ⟨hlines, hlast⟩ := h
  have hend : t.unterminated.toList.filter isKept = t.unterminated.toList := by
    rw [List.filter_eq_self]
    intro row hrow
    refine isKept_iff.mpr ?_
    rintro rfl
    exact hlast (Option.mem_toList.mp hrow)
  unfold Table.kept Table.rows
  rw [hend]
  cases hcase : t.lines with
  | nil => rfl
  | cons line lines =>
    rw [hcase, List.tail_cons] at hlines
    rw [List.map_cons, keptLines, List.filter_eq_self.mpr]
    intro row hrow
    obtain ⟨line', hline', rfl⟩ := List.mem_map.mp hrow
    exact isKept_iff.mpr (hlines line' hline')

theorem previewOf_rows_length {rows : List Row} (hone : rows.length ≤ 1)
    {options : DelimitedPreviewOptions} :
    (previewOf delimiter rows options).rows.length = rows.length := by
  have hlimit : 1 ≤ rowLimitOf options := le_max_left _ _
  have hlength := shown_length rows options
  rw [Nat.min_eq_right (hone.trans hlimit)] at hlength
  have hrows := present_rows delimiter (shown rows options)
    (decide (rowLimitOf options < rows.length))
  rw [if_neg (by omega)] at hrows
  exact (congrArg List.length hrows).trans hlength

theorem previewOf_kept_iff (t : Table) (options : DelimitedPreviewOptions) :
    previewOf delimiter t.kept options = previewOf delimiter t.rows options ↔
      NoneLost t ∨ rowLimitOf options < t.kept.length ∧
        shown t.kept options = shown t.rows options := by
  cases hlines : t.lines with
  | nil =>
    have hkept : t.kept = t.rows.filter isKept := by
      simp [Table.kept, Table.rows, hlines, keptLines]
    by_cases hlast : t.unterminated = some [[]]
    · have hrows : t.rows = [[[]]] := by simp [Table.rows, hlines, hlast]
      have hnil : t.kept = [] := by
        rw [hkept, hrows]
        rfl
      rw [hnil, hrows]
      refine iff_of_false ?_ ?_
      · intro h
        have hcount := congrArg (fun result => result.rows.length) h
        rw [previewOf_rows_length (Nat.zero_le _), previewOf_rows_length le_rfl] at hcount
        cases hcount
      · rintro (hnone | ⟨hmore, -⟩)
        · exact hnone.2 hlast
        · exact absurd hmore (Nat.not_lt_zero _)
    · have hnone : NoneLost t := ⟨by rw [hlines]; exact fun _ h => absurd h List.not_mem_nil, hlast⟩
      rw [kept_of_noneLost hnone]
      exact iff_of_true rfl (Or.inl hnone)
  | cons line lines =>
    have hrows : t.rows = line.1 :: (lines.map Prod.fst ++ t.unterminated.toList) := by
      simp [Table.rows, hlines]
    have hkept : t.kept =
        line.1 :: (lines.map Prod.fst ++ t.unterminated.toList).filter isKept := by
      unfold Table.kept
      rw [hlines, List.map_cons, keptLines, List.filter_append]
      rfl
    have hnone : NoneLost t ↔
        ∀ row ∈ lines.map Prod.fst ++ t.unterminated.toList, row ≠ [[]] := by
      unfold NoneLost
      rw [hlines, List.tail_cons, List.forall_mem_append, List.forall_mem_map]
      simp only [Option.mem_toList]
      refine and_congr_right (fun _ => ⟨?_, ?_⟩)
      · rintro hlast row hrow rfl
        exact hlast hrow
      · intro hall hlast
        exact hall _ hlast rfl
    rw [hnone, hkept, hrows]
    exact previewOf_filter_iff line.1 _ options

def commonWidth (rows : List Row) : ℕ := rows.foldl (fun count row => max count row.length) 0

theorem le_foldl_max (rows : List Row) (count : ℕ) :
    count ≤ rows.foldl (fun count row => max count row.length) count ∧
      ∀ row ∈ rows, row.length ≤ rows.foldl (fun count row => max count row.length) count := by
  induction rows generalizing count with
  | nil => exact ⟨le_rfl, fun _ h => absurd h List.not_mem_nil⟩
  | cons row rows ih =>
    obtain ⟨hcount, hrows⟩ := ih (max count row.length)
    exact ⟨(le_max_left _ _).trans hcount,
      List.forall_mem_cons.mpr ⟨(le_max_right _ _).trans hcount, hrows⟩⟩

theorem foldl_max_le {rows : List Row} {bound : ℕ} (h : ∀ row ∈ rows, row.length ≤ bound)
    {count : ℕ} (hcount : count ≤ bound) :
    rows.foldl (fun count row => max count row.length) count ≤ bound := by
  induction rows generalizing count with
  | nil => exact hcount
  | cons row rows ih =>
    rw [List.forall_mem_cons] at h
    exact ih h.2 (max_le hcount h.1)

/-- Within the limits the preview of a table has all its rows, padded to the common width. -/
theorem previewOf_fits {rows : List Row} (hne : rows ≠ []) (hrows : ∀ row ∈ rows, row ≠ [])
    {options : DelimitedPreviewOptions} (hlimit : rows.length ≤ rowLimitOf options)
    (hcolumns : ∀ row ∈ rows, row.length ≤ columnLimitOf options) :
    previewOf delimiter rows options = present delimiter ⟨commonWidth rows, false,
      rows.map (fun row => row ++ List.replicate (commonWidth rows - row.length) [])⟩ false := by
  have hwide : commonWidth rows ≤ columnLimitOf options :=
    foldl_max_le hcolumns (Nat.zero_le _)
  have hlengths : ∀ row ∈ rows, row.length ≤ commonWidth rows := (le_foldl_max rows 0).2
  have hpositive : 1 ≤ commonWidth rows := by
    obtain ⟨row, hrow⟩ := List.exists_mem_of_ne_nil rows hne
    exact (List.length_pos_iff.mpr (hrows row hrow)).trans_le (hlengths row hrow)
  have hlayout : layout rows (columnLimitOf options) = ⟨commonWidth rows, false,
      rows.map (fun row => row ++ List.replicate (commonWidth rows - row.length) [])⟩ := by
    have hcount : min (max 1 (commonWidth rows)) (columnLimitOf options) = commonWidth rows := by
      rw [Nat.max_eq_right hpositive, Nat.min_eq_left hwide]
    refine Layout.ext hcount (decide_eq_false (not_lt.mpr hwide)) ?_
    refine (congrArg (normalizeRowsToWidth rows) hcount).trans ?_
    apply List.map_congr_left
    intro row hrow
    rw [List.take_of_length_le (hlengths row hrow)]
  unfold previewOf
  rw [List.take_of_length_le hlimit, hlayout, decide_eq_false (not_lt.mpr hlimit)]

/-- The preview of an encoded table shows the table exactly if no row of one empty field stands
after the first (nor as a last row without a line end), or if without those rows there are still
more than the row limit and the leading ones look the same. Within the limits it then shows every
row, padded to the common width, with nothing cut. -/
theorem preview_shows_table_iff (t : Table) (hne : t.rows ≠ []) (hrows : ∀ row ∈ t.rows, row ≠ [])
    (delimiter : DelimitedPreviewDelimiter) (options : DelimitedPreviewOptions) :
    (parseDelimitedPreview (encode delimiter.unit t) delimiter options =
        previewOf delimiter t.rows options ↔
      NoneLost t ∨ rowLimitOf options < t.kept.length ∧
        shown t.kept options = shown t.rows options) ∧
    (t.rows.length ≤ rowLimitOf options →
      (∀ row ∈ t.rows, row.length ≤ columnLimitOf options) →
      previewOf delimiter t.rows options = present delimiter ⟨commonWidth t.rows, false,
        t.rows.map (fun row => row ++ List.replicate (commonWidth t.rows - row.length) [])⟩
        false) := by
  rw [parseDelimitedPreview_encode t hrows]
  exact ⟨previewOf_kept_iff t options, previewOf_fits hne hrows⟩

/-- Three rows of one column with an empty field in the second row, and a limit of three rows. -/
def emptyCell : Table := ⟨[([units "name"], .crlf), ([[]], .crlf), ([units "ada"], .crlf)], none⟩

theorem preview_shows_table_witness :
    parseDelimitedPreview (encode DelimitedPreviewDelimiter.comma.unit emptyCell) .comma
        ⟨some 3, none⟩ = previewOf .comma emptyCell.rows ⟨some 3, none⟩ ↔
      NoneLost emptyCell ∨ rowLimitOf ⟨some 3, none⟩ < emptyCell.kept.length ∧
        shown emptyCell.kept ⟨some 3, none⟩ = shown emptyCell.rows ⟨some 3, none⟩ :=
  (preview_shows_table_iff emptyCell (by decide) (by decide) .comma ⟨some 3, none⟩).1

/-- The empty field in the middle of the column is gone from the preview. -/
theorem empty_cell_lost :
    ¬ ∀ (t : Table) (delimiter : DelimitedPreviewDelimiter) (options : DelimitedPreviewOptions),
      t.rows ≠ [] → (∀ row ∈ t.rows, row ≠ []) → t.rows.length ≤ rowLimitOf options →
      (∀ row ∈ t.rows, row.length ≤ columnLimitOf options) →
      parseDelimitedPreview (encode delimiter.unit t) delimiter options =
        previewOf delimiter t.rows options := by
  intro h
  have hsame := h emptyCell .comma ⟨some 3, none⟩ (by decide) (by decide) (by decide) (by decide)
  have hcount := congrArg DelimitedPreviewResult.rowCount hsame
  exact absurd hcount (by decide)

end Lost

end Piclaw.DelimitedPreview
