import Piclaw.TableEditor

/-!
# Reading back a serialised table

A line of the table is read as its cells when no pipe of a cell stands behind an odd number of
backslashes: a backslash takes the next character with it, so the one that is written before such a
pipe is taken by the last of them, and the pipe ends the cell.
-/

namespace TextRuns
variable {α : Type} {p : α → Bool} {f : α → List α}

/-- A replacement that leaves a class alone and puts nothing of it at the ends of the others. -/
structure KeepsEnds (p : α → Bool) (f : α → List α) : Prop where
  inside : ∀ x, p x = true → f x = [x]
  first : ∀ x, p x = false → ∃ y rest, f x = y :: rest ∧ p y = false
  last : ∀ x, p x = false → ∃ y rest, f x = rest ++ [y] ∧ p y = false

theorem KeepsEnds.reverse (h : KeepsEnds p f) : KeepsEnds p (fun x => (f x).reverse) where
  inside x hx := by simp [h.inside x hx]
  first x hx := by
    obtain ⟨y, rest, heq, hy⟩ := h.last x hx
    exact ⟨y, rest.reverse, by simp [heq], hy⟩
  last x hx := by
    obtain ⟨y, rest, heq, hy⟩ := h.first x hx
    exact ⟨y, rest.reverse, by simp [heq], hy⟩

theorem KeepsEnds.dropWhile (h : KeepsEnds p f) (l : List α) :
    (l.flatMap f).dropWhile p = (l.dropWhile p).flatMap f := by
  induction l with
  | nil => rfl
  | cons x l ih =>
    cases hx : p x with
    | true =>
      rw [List.flatMap_cons, h.inside x hx, List.dropWhile_cons_of_pos hx, ← ih]
      exact List.dropWhile_cons_of_pos hx
    | false =>
      obtain ⟨y, rest, heq, hy⟩ := h.first x hx
      rw [List.dropWhile_cons_of_neg (by simp [hx]), List.flatMap_cons, heq, List.cons_append,
        List.dropWhile_cons_of_neg (by simp [hy])]

theorem KeepsEnds.stripEnds (h : KeepsEnds p f) (l : List α) :
    stripEnds p (l.flatMap f) = (stripEnds p l).flatMap f := by
  unfold TextRuns.stripEnds List.rdropWhile
  have hreverse : ∀ l : List α, (l.flatMap f).reverse = l.reverse.flatMap fun x => (f x).reverse :=
    fun l => List.reverse_flatMap ..
  rw [h.dropWhile, hreverse, h.reverse.dropWhile, List.reverse_flatMap]
  simp [Function.comp_def]

end TextRuns

namespace Piclaw.TableEditor

open TextRuns

section Cells

variable {buffer rest cell : Text} {odd : Bool} {cells : List Text}

/-- What a cell reads as when its line breaks are spaces and its ends are cut off. -/
def cleaned (value : Text) : Text := trim (replaceBreaks value)

/-- The pipes of a text that stand behind an odd number of backslashes; `odd` is the parity of
those that come right before it. -/
def loosePipes (odd : Bool) : Text → ℕ
  | [] => 0
  | char :: rest =>
    if char = '\\' then loosePipes (!odd) rest
    else (if char = '|' ∧ odd then 1 else 0) + loosePipes false rest

theorem escape_eq (value : Text) :
    escapeMarkdownTableCell value = (cleaned value).flatMap escapePipe := by
  have hends : KeepsEnds isTrimmed escapePipe := by
    refine ⟨?_, ?_, ?_⟩
    · intro x hx
      have hne : x ≠ '|' := by
        rintro rfl
        exact absurd hx (by decide)
      simp [escapePipe, hne]
    · intro x hx
      by_cases hpipe : x = '|'
      · exact ⟨'\\', ['|'], by simp [escapePipe, hpipe], by decide⟩
      · exact ⟨x, [], by simp [escapePipe, hpipe], hx⟩
    · intro x hx
      by_cases hpipe : x = '|'
      · exact ⟨'|', ['\\'], by simp [escapePipe, hpipe], by decide⟩
      · exact ⟨x, [], by simp [escapePipe, hpipe], hx⟩
  exact hends.stripEnds (replaceBreaks value)

theorem splitCells_backslash {next : Char} : splitCells buffer ('\\' :: next :: rest) =
    splitCells (buffer ++ if next = '|' then ['|'] else ['\\', next]) rest := by
  rw [splitCells]

theorem splitCells_pipe : splitCells buffer ('|' :: rest) = trim buffer :: splitCells [] rest := by
  rw [splitCells]

theorem splitCells_char {char : Char} (hslash : char ≠ '\\') (hpipe : char ≠ '|') :
    splitCells buffer (char :: rest) = splitCells (buffer ++ [char]) rest := by
  rw [splitCells]
  · intro next _ heq
    exact absurd heq hslash
  · exact hpipe

/-- The backslash that is still to take the next character. -/
def pendingSlash (odd : Bool) : Text := if odd then ['\\'] else []

theorem splitCells_cell (h : loosePipes odd cell = 0) :
    splitCells buffer (pendingSlash odd ++ cell.flatMap escapePipe ++ ' ' :: rest) =
      splitCells (buffer ++ pendingSlash odd ++ cell ++ [' ']) rest := by
  induction cell generalizing odd buffer with
  | nil =>
    cases odd with
    | false => simp [pendingSlash, splitCells_char]
    | true => simp [pendingSlash, splitCells_backslash]
  | cons char cell ih =>
    unfold loosePipes at h
    rw [List.flatMap_cons]
    by_cases hslash : char = '\\'
    · subst hslash
      cases odd with
      | false => simpa [escapePipe, pendingSlash] using @ih buffer true (by simpa using h)
      | true =>
        have hrest := @ih (buffer ++ ['\\', '\\']) false (by simpa using h)
        simpa [escapePipe, pendingSlash, splitCells_backslash] using hrest
    · rw [if_neg hslash] at h
      by_cases hpipe : char = '|'
      · subst hpipe
        cases odd with
        | false =>
          have hrest := @ih (buffer ++ ['|']) false (by simpa using h)
          simpa [escapePipe, pendingSlash, splitCells_backslash] using hrest
        | true => simp at h
      · have hnone : loosePipes false cell = 0 := by simpa [hpipe] using h
        cases odd with
        | false =>
          have hrest := @ih (buffer ++ [char]) false hnone
          simpa [escapePipe, pendingSlash, hpipe, splitCells_char hslash hpipe] using hrest
        | true =>
          have hrest := @ih (buffer ++ ['\\', char]) false hnone
          simpa [escapePipe, pendingSlash, hpipe, splitCells_backslash] using hrest

theorem splitCells_length (buffer buffer' rest : Text) :
    (splitCells buffer rest).length = (splitCells buffer' rest).length := by
  induction buffer, rest using splitCells.induct generalizing buffer' with
  | case1 buffer => rfl
  | case2 buffer next rest ih =>
    rw [splitCells_backslash, splitCells_backslash]
    exact ih _
  | case3 buffer rest ih =>
    rw [splitCells_pipe, splitCells_pipe]
    rfl
  | case4 buffer char rest hslash hpipe ih =>
    rw [splitCells, splitCells]
    · exact ih _
    all_goals assumption

/-- Each loose pipe ends a cell of its own. -/
theorem splitCells_cell_length : (splitCells buffer
    (pendingSlash odd ++ cell.flatMap escapePipe ++ ' ' :: rest)).length =
      loosePipes odd cell + (splitCells [] rest).length := by
  induction cell generalizing odd buffer with
  | nil =>
    rw [splitCells_cell rfl, loosePipes, Nat.zero_add]
    exact splitCells_length _ _ _
  | cons char cell ih =>
    unfold loosePipes
    rw [List.flatMap_cons]
    by_cases hslash : char = '\\'
    · subst hslash
      cases odd with
      | false => simpa [escapePipe, pendingSlash] using @ih buffer true
      | true =>
        have hrest := @ih (buffer ++ ['\\', '\\']) false
        simpa [escapePipe, pendingSlash, splitCells_backslash] using hrest
    · rw [if_neg hslash]
      by_cases hpipe : char = '|'
      · subst hpipe
        cases odd with
        | false =>
          have hrest := @ih (buffer ++ ['|']) false
          simpa [escapePipe, pendingSlash, splitCells_backslash] using hrest
        | true =>
          have hrest := @ih [] false
          have hpiece : (splitCells [] (cell.flatMap escapePipe ++ ' ' :: rest)).length =
              loosePipes false cell + (splitCells [] rest).length := by
            simpa [pendingSlash] using hrest
          simp [escapePipe, pendingSlash, splitCells_backslash, splitCells_pipe, hpiece]
          omega
      · cases odd with
        | false =>
          have hrest := @ih (buffer ++ [char]) false
          simpa [escapePipe, pendingSlash, hpipe, splitCells_char hslash hpipe] using hrest
        | true =>
          have hrest := @ih (buffer ++ ['\\', char]) false
          simpa [escapePipe, pendingSlash, hpipe, splitCells_backslash] using hrest

end Cells

section Lines

variable {cells : List Text} {model : EditableTableModel}

theorem stripOuterPipes_tableLine (cells : List Text) :
    stripOuterPipes (tableLine cells) = ' ' :: (joinCells cells ++ [' ']) := by
  have hline : tableLine cells = '|' :: (' ' :: (joinCells cells ++ [' '])) ++ ['|'] := by
    simp [tableLine]
  have hlast : (tableLine cells).getLast? = some '|' := by
    rw [hline]
    exact List.getLast?_concat
  have htrim : trim (tableLine cells) = tableLine cells := by
    apply stripEnds_eq_self
    · intro x hx
      cases hx
      decide
    · intro x hx
      rw [hlast] at hx
      cases hx
      decide
  have htail : (tableLine cells).tail = (' ' :: (joinCells cells ++ [' '])) ++ ['|'] := by
    rw [hline]
    rfl
  unfold stripOuterPipes
  rw [htrim]
  dsimp only
  rw [if_pos (show (tableLine cells).head? = some '|' from rfl), htail]
  simp only [List.getLast?_concat, if_true, List.dropLast_concat]

theorem joinCells_cons (cell next : Text) (cells : List Text) :
    joinCells (cell :: next :: cells) = cell ++ ([' ', '|', ' '] ++ joinCells (next :: cells)) := by
  simp [joinCells, List.intercalate]

/-- A row's text between its outer pipes, cell by cell. -/
theorem splitCells_joined {line : Text → Text} (cell : Text) (cells : List Text) :
    ' ' :: (joinCells ((cell :: cells).map line) ++ [' ']) =
      ' ' :: (line cell ++ ' ' :: match cells with
        | [] => []
        | _ :: _ => '|' :: ' ' :: (joinCells (cells.map line) ++ [' '])) := by
  cases cells with
  | nil => simp [joinCells, List.intercalate]
  | cons next cells =>
    rw [List.map_cons, List.map_cons, joinCells_cons]
    simp

theorem splitCells_row (hne : cells ≠ [])
    (h : ∀ cell ∈ cells, loosePipes false cell = 0) :
    splitCells [] (' ' :: (joinCells (cells.map fun cell => cell.flatMap escapePipe) ++ [' '])) =
      cells.map trim := by
  induction cells with
  | nil => exact absurd rfl hne
  | cons cell cells ih =>
    have hpad : trim ([' '] ++ cell ++ [' ']) = trim cell := by
      unfold trim
      rw [stripEnds_append_of_all (by simp [isTrimmed])]
      unfold stripEnds
      rw [List.singleton_append, List.dropWhile_cons_of_pos (by decide)]
    have hcell : ∀ rest, splitCells [' '] (cell.flatMap escapePipe ++ ' ' :: rest) =
        splitCells ([' '] ++ cell ++ [' ']) rest := by
      intro rest
      have hloose : loosePipes false cell = 0 := h cell (by simp)
      have hread := @splitCells_cell [' '] rest cell false hloose
      simpa [pendingSlash] using hread
    rw [splitCells_joined, splitCells_char (by decide) (by decide), List.nil_append, hcell]
    cases cells with
    | nil => rw [splitCells, hpad, List.map_singleton]
    | cons next cells =>
      rw [splitCells_pipe, hpad, ih (by simp) fun c hc => h c (List.mem_cons_of_mem _ hc)]
      rfl

theorem splitCells_row_length (hne : cells ≠ []) :
    (splitCells []
      (' ' :: (joinCells (cells.map fun cell => cell.flatMap escapePipe) ++ [' ']))).length =
      (cells.map (loosePipes false)).sum + cells.length := by
  induction cells with
  | nil => exact absurd rfl hne
  | cons cell cells ih =>
    have hcell : ∀ rest, (splitCells [' '] (cell.flatMap escapePipe ++ ' ' :: rest)).length =
        loosePipes false cell + (splitCells [] rest).length := by
      intro rest
      simpa [pendingSlash] using
        @splitCells_cell_length [' '] rest cell false
    rw [splitCells_joined, splitCells_char (by decide) (by decide), List.nil_append, hcell]
    cases cells with
    | nil => simp [splitCells]
    | cons next cells =>
      rw [splitCells_pipe, List.length_cons, ih (by simp)]
      simp only [List.map_cons, List.sum_cons, List.length_cons]
      omega

theorem trim_trim (value : Text) : trim (trim value) = trim value :=
  stripEnds_eq_self (fun _ => stripEnds_head?) fun _ => stripEnds_getLast?

theorem trim_cleaned (value : Text) : trim (cleaned value) = cleaned value := trim_trim _

/-- The line of a row, with its cells as they are written. -/
def rowLine (cells : List Text) : Text := tableLine (cells.map escapeMarkdownTableCell)

theorem split_rowLine_eq (cells : List Text) : splitMarkdownTableRow (rowLine cells) =
    splitCells []
      (' ' :: (joinCells ((cells.map cleaned).map fun cell => cell.flatMap escapePipe) ++
        [' '])) := by
  unfold splitMarkdownTableRow rowLine
  rw [stripOuterPipes_tableLine, List.map_map]
  congr 4
  exact List.map_congr_left fun cell _ => escape_eq cell

theorem loosePipes_append_of_all {cell tail : Text} {odd : Bool}
    (h : ∀ x ∈ tail, isTrimmed x = true) : loosePipes odd (cell ++ tail) = loosePipes odd cell := by
  have hnone : ∀ odd, loosePipes odd tail = 0 := by
    induction tail with
    | nil => intro odd; rfl
    | cons x tail ih =>
      intro odd
      have hx := h x (by simp)
      have hslash : x ≠ '\\' := by rintro rfl; exact absurd hx (by decide)
      have hpipe : x ≠ '|' := by rintro rfl; exact absurd hx (by decide)
      simp [loosePipes, hslash, hpipe, ih fun y hy => h y (List.mem_cons_of_mem _ hy)]
  induction cell generalizing odd with
  | nil => exact hnone odd
  | cons x cell ih => simp [loosePipes, ih]

theorem loosePipes_dropWhile (cell : Text) :
    loosePipes false (cell.dropWhile isTrimmed) = loosePipes false cell := by
  induction cell with
  | nil => rfl
  | cons x cell ih =>
    cases hx : isTrimmed x with
    | false => rw [List.dropWhile_cons_of_neg (by simp [hx])]
    | true =>
      have hslash : x ≠ '\\' := by rintro rfl; exact absurd hx (by decide)
      have hpipe : x ≠ '|' := by rintro rfl; exact absurd hx (by decide)
      rw [List.dropWhile_cons_of_pos hx, ih]
      simp [loosePipes, hslash, hpipe]

theorem loosePipes_trim (cell : Text) : loosePipes false (trim cell) = loosePipes false cell := by
  obtain ⟨tail, heq, htail⟩ := exists_rdropWhile_append isTrimmed (cell.dropWhile isTrimmed)
  rw [← loosePipes_dropWhile cell]
  conv_rhs => rw [heq]
  exact (loosePipes_append_of_all htail).symm

theorem loosePipes_replaceBreaks (odd : Bool) (cell : Text) :
    loosePipes odd (replaceBreaks cell) = loosePipes odd cell := by
  induction cell using replaceBreaks.induct generalizing odd with
  | case1 rest ih => simp [replaceBreaks, loosePipes, ih]
  | case2 rest ih => simp [replaceBreaks, loosePipes, ih]
  | case3 char rest hreturn hbreak ih =>
    rw [replaceBreaks]
    · simp [loosePipes, ih]
    all_goals assumption
  | case4 => rfl

theorem loosePipes_cleaned (cell : Text) :
    loosePipes false (cleaned cell) = loosePipes false cell := by
  unfold cleaned
  rw [loosePipes_trim, loosePipes_replaceBreaks]

theorem split_rowLine (hne : cells ≠ []) (h : ∀ cell ∈ cells, loosePipes false cell = 0) :
    splitMarkdownTableRow (rowLine cells) = cells.map cleaned := by
  rw [split_rowLine_eq, splitCells_row (by simpa using hne), List.map_map]
  · exact List.map_congr_left fun cell _ => trim_cleaned cell
  · intro cell hcell
    obtain ⟨value, hvalue, rfl⟩ := List.mem_map.mp hcell
    rw [loosePipes_cleaned, h value hvalue]

theorem split_rowLine_length (hne : cells ≠ []) : (splitMarkdownTableRow (rowLine cells)).length =
    (cells.map (loosePipes false)).sum + cells.length := by
  rw [split_rowLine_eq, splitCells_row_length (by simpa using hne), List.map_map, List.length_map]
  congr 2
  exact List.map_congr_left fun cell _ => loosePipes_cleaned cell

theorem replaceBreaks_newline (value : Text) : '\n' ∉ replaceBreaks value := by
  induction value using replaceBreaks.induct with
  | case1 rest ih => simpa [replaceBreaks] using ih
  | case2 rest ih => simpa [replaceBreaks] using ih
  | case3 char rest hreturn hbreak ih =>
    rw [replaceBreaks]
    · intro hmem
      rcases List.mem_cons.mp hmem with heq | hmem
      · exact hbreak heq.symm
      · exact ih hmem
    all_goals assumption
  | case4 => simp [replaceBreaks]

theorem escape_newline (value : Text) : '\n' ∉ escapeMarkdownTableCell value := by
  rw [escape_eq]
  intro hmem
  obtain ⟨x, hx, hchar⟩ := List.mem_flatMap.mp hmem
  have hplain : x = '\n' := by
    unfold escapePipe at hchar
    split_ifs at hchar with hpipe
    · simp at hchar
    · exact (List.mem_singleton.mp hchar).symm
  subst hplain
  exact replaceBreaks_newline value (mem_of_mem_stripEnds hx)

theorem mem_joinCells {c : Char} {cells : List Text} (h : c ∈ joinCells cells) :
    c = ' ' ∨ c = '|' ∨ ∃ cell ∈ cells, c ∈ cell := by
  induction cells with
  | nil => simp [joinCells, List.intercalate] at h
  | cons cell cells ih =>
    cases cells with
    | nil => exact .inr (.inr ⟨cell, by simp, by simpa [joinCells, List.intercalate] using h⟩)
    | cons next cells =>
      rw [joinCells_cons, List.mem_append, List.mem_append] at h
      rcases h with h | h | h
      · exact .inr (.inr ⟨cell, by simp, h⟩)
      · simp only [List.mem_cons, List.not_mem_nil, or_false] at h
        rcases h with rfl | rfl | rfl <;> simp
      · rcases ih h with hc | hc | ⟨other, hmem, hc⟩
        · exact .inl hc
        · exact .inr (.inl hc)
        · exact .inr (.inr ⟨other, List.mem_cons_of_mem _ hmem, hc⟩)

theorem tableLine_newline {cells : List Text} (h : ∀ cell ∈ cells, '\n' ∉ cell) :
    '\n' ∉ tableLine cells := by
  intro hmem
  have hjoin : '\n' ∈ joinCells cells := by simpa [tableLine] using hmem
  rcases mem_joinCells hjoin with hc | hc | ⟨cell, hcell, hc⟩
  · exact absurd hc (by decide)
  · exact absurd hc (by decide)
  · exact h cell hcell hc

theorem documentLines_serialize (model : EditableTableModel) :
    documentLines (serializeMarkdownTable model) = serializedLines model := by
  unfold documentLines serializeMarkdownTable
  apply List.splitOn_intercalate
  · intro line hline
    unfold serializedLines at hline
    have hrow : ∀ cells : List Text, '\n' ∉ tableLine (cells.map escapeMarkdownTableCell) := by
      intro cells
      apply tableLine_newline
      intro cell hcell
      obtain ⟨value, _, rfl⟩ := List.mem_map.mp hcell
      exact escape_newline value
    simp only [List.mem_cons, List.mem_map] at hline
    rcases hline with rfl | rfl | ⟨row, _, rfl⟩
    · exact hrow _
    · apply tableLine_newline
      intro cell hcell
      obtain ⟨align, _, rfl⟩ := List.mem_map.mp hcell
      cases align <;> decide
    · exact hrow row
  · simp [serializedLines]

end Lines

end Piclaw.TableEditor
