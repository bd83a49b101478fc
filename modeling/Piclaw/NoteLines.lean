import Piclaw.NoteChunks
import Piclaw.Tilings
import Piclaw.Transactions

/-!
# The lines of a note

The lines are the text cut behind its line feeds, each with the range of its bytes; whether a line
lies in a fence is told by the lines before it.
-/

namespace Piclaw.NoteChunks

open Relational Utf8Decoding

section Results

theorem map_ok {ε α β : Type} {x : Except ε α} {f : α → β} {r : β} (h : x.map f = .ok r) : ∃ a, x = .ok a ∧ f a = r := by
  cases x with
  | error e => cases h
  | ok a => exact ⟨a, rfl, Except.ok.inj h⟩

end Results

section Offsets

/-- The bytes of the first `i` lines. -/
def offset (lines : List Line) (i : ℕ) : ℕ := byteLength ((lines.take i).flatMap Line.rawText)

theorem byteLength_append (s t : Text) : byteLength (s ++ t) = byteLength s + byteLength t := by
  unfold byteLength encode
  rw [List.flatMap_append, List.length_append]

theorem encodeChar_ne_nil (c : Char) : encodeChar c ≠ [] := by
  unfold encodeChar
  split_ifs <;> exact List.cons_ne_nil _ _

theorem byteLength_pos {t : Text} (h : t ≠ []) : 0 < byteLength t := by
  cases t with
  | nil => exact absurd rfl h
  | cons c t =>
    unfold byteLength encode
    rw [List.flatMap_cons, List.length_append]
    have hpos := List.length_pos_iff.mpr (encodeChar_ne_nil c)
    omega

/-- Lines numbered from `number` on, one behind the other from byte `start`: each is short and ends
with its only line feed, which the last may lack. -/
def Lined : ℕ → ℕ → List Line → Prop
  | _, _, [] => True
  | number, start, line :: lines =>
    (line.lineNumber = number ∧ line.firstByte = start ∧
      line.afterLastByte = start + byteLength line.rawText) ∧
    (line.rawText ≠ [] ∧ byteLength line.rawText ≤ maxChunkBytes) ∧
    ('\n' ∉ line.rawText.dropLast ∧ (lines ≠ [] → line.rawText.getLast? = some '\n')) ∧
    Lined (number + 1) (start + byteLength line.rawText) lines

theorem lineOf_spec {number start : ℕ} {rawText : Text} {line : Line}
    (h : lineOf number start rawText = .ok line) : line.lineNumber = number ∧
      line.firstByte = start ∧ line.afterLastByte = start + byteLength rawText ∧
      line.rawText = rawText ∧ byteLength rawText ≤ maxChunkBytes := by
  unfold lineOf at h
  split_ifs at h with hlong
  cases h
  exact ⟨rfl, rfl, rfl, rfl, by omega⟩

theorem parseLinesFrom_spec {number start : ℕ} {current text : Text} {lines : List Line}
    (hcurrent : '\n' ∉ current)
    (h : parseLinesFrom number start current text = .ok lines) :
    Lined number start lines ∧ lines.flatMap Line.rawText = current ++ text := by
  induction text generalizing number start current lines with
  | nil =>
    unfold parseLinesFrom at h
    split_ifs at h with hempty
    · cases h
      exact ⟨trivial, by simp [hempty]⟩
    · obtain ⟨line, hline, rfl⟩ := map_ok h
      obtain ⟨hnumber, hfirst, hafter, hraw, hshort⟩ := lineOf_spec hline
      refine ⟨⟨⟨hnumber, hfirst, hraw ▸ hafter⟩, ⟨hraw ▸ hempty, hraw ▸ hshort⟩, ⟨?_, ?_⟩,
        trivial⟩, by simp [hraw]⟩
      · rw [hraw]
        exact fun hmem => hcurrent (List.mem_of_mem_dropLast hmem)
      · exact fun hne => absurd rfl hne
  | cons c text ih =>
    unfold parseLinesFrom at h
    split_ifs at h with hfeed
    · subst hfeed
      obtain ⟨line, hline, h⟩ := bind_eq_ok.mp h
      obtain ⟨rest, hlines, h⟩ := bind_eq_ok.mp h
      cases h
      obtain ⟨hnumber, hfirst, hafter, hraw, hshort⟩ := lineOf_spec hline
      obtain ⟨hrest, htext⟩ := ih List.not_mem_nil hlines
      rw [hafter] at hrest
      refine ⟨⟨⟨hnumber, hfirst, hraw ▸ hafter⟩, ⟨by simp [hraw], hraw ▸ hshort⟩, ⟨?_, ?_⟩,
        by rw [hraw]; exact hrest⟩, ?_⟩
      · rw [hraw, List.dropLast_concat]
        exact hcurrent
      · rw [hraw, List.getLast?_concat]
        exact fun _ => rfl
      · rw [List.flatMap_cons, htext, hraw]
        simp
    · obtain ⟨hlined, htext⟩ := ih (by simp [hcurrent, Ne.symm hfeed]) h
      exact ⟨hlined, by simp [htext]⟩

theorem lined_at {number start : ℕ} {lines : List Line} (h : Lined number start lines) {i : ℕ}
    (hi : i < lines.length) :
    (lineAt lines i).lineNumber = number + i ∧
      (lineAt lines i).firstByte = start + offset lines i ∧
      (lineAt lines i).afterLastByte = start + offset lines (i + 1) ∧
      offset lines i < offset lines (i + 1) ∧
      offset lines (i + 1) ≤ offset lines i + maxChunkBytes := by
  induction lines generalizing number start i with
  | nil => cases hi
  | cons line lines ih =>
    obtain ⟨⟨hnumber, hfirst, hafter⟩, ⟨hne, hshort⟩, _, hrest⟩ := h
    have hnil : offset (line :: lines) 0 = 0 := rfl
    have hcons : ∀ k, offset (line :: lines) (k + 1) = byteLength line.rawText + offset lines k := by
      intro k
      unfold offset
      rw [List.take_succ_cons, List.flatMap_cons, byteLength_append]
    cases i with
    | zero =>
      have hpos := byteLength_pos hne
      have hzero : offset lines 0 = 0 := rfl
      have hat : lineAt (line :: lines) 0 = line := rfl
      rw [hat, hnumber, hfirst, hafter, hnil, hcons, hzero]
      omega
    | succ i =>
      have hat : lineAt (line :: lines) (i + 1) = lineAt lines i := rfl
      obtain ⟨hi1, hi2, hi3, hi4, hi5⟩ := ih hrest (by simpa using hi)
      rw [hat, hcons, hcons, hi1, hi2, hi3]
      omega

/-- The lines of a text as the source has them. -/
structure LinesOf (text : Text) (lines : List Line) : Prop where
  lined : Lined 1 0 lines
  texts : lines.flatMap Line.rawText = text

theorem parseLines_spec {text : Text} {lines : List Line} (h : parseLines text = .ok lines) :
    LinesOf text lines := by
  obtain ⟨hlined, htexts⟩ := parseLinesFrom_spec (by simp) h
  exact ⟨hlined, htexts⟩

variable {text : Text} {lines : List Line} {i j : ℕ}

theorem LinesOf.at (h : LinesOf text lines) (hi : i < lines.length) :
    (lineAt lines i).lineNumber = i + 1 ∧ (lineAt lines i).firstByte = offset lines i ∧
      (lineAt lines i).afterLastByte = offset lines (i + 1) ∧
      offset lines i < offset lines (i + 1) ∧
      offset lines (i + 1) ≤ offset lines i + maxChunkBytes := by
  obtain ⟨hnumber, hfirst, hafter, hrest⟩ := lined_at h.lined hi
  exact ⟨by omega, by omega, by omega, hrest⟩

theorem LinesOf.offset_lt (h : LinesOf text lines) (hij : i < j) (hj : j ≤ lines.length) :
    offset lines i < offset lines j := by
  induction j with
  | zero => omega
  | succ j ih =>
    have hstep := (h.at (i := j) (by omega)).2.2.2.1
    rcases Nat.lt_or_eq_of_le (Nat.lt_succ_iff.mp hij) with hlt | rfl
    · exact lt_trans (ih hlt (by omega)) hstep
    · exact hstep

end Offsets

section Fences

/-- The fence that is open before a line is read, after it is read. -/
def fenceStep (state : Option Fence) (line : Line) : Option Fence :=
  match state with
  | none => fenceOpen line
  | some fence => if isFenceClose line fence then none else some fence

/-- The fence that is open behind the first `i` lines. -/
def fenceState (lines : List Line) (i : ℕ) : Option Fence := (lines.take i).foldl fenceStep none

theorem take_succ_lineAt {lines : List Line} {i : ℕ} (hi : i < lines.length) :
    lines.take (i + 1) = lines.take i ++ [lineAt lines i] := by
  rw [List.take_succ_eq_append_getElem hi]
  unfold lineAt
  rw [List.getD_eq_getElem lines default hi]

theorem fenceState_succ {lines : List Line} {i : ℕ} (hi : i < lines.length) :
    fenceState lines (i + 1) = fenceStep (fenceState lines i) (lineAt lines i) := by
  unfold fenceState
  rw [take_succ_lineAt hi, List.foldl_append]
  rfl

/-- Outside of a fence, lines that open none leave it so. -/
theorem fenceState_none {lines : List Line} {first : ℕ} (last : ℕ) (hlast : last ≤ lines.length)
    (hstart : fenceState lines first = none)
    (hopen : ∀ i, first ≤ i → i < last → fenceOpen (lineAt lines i) = none) {i : ℕ}
    (hfirst : first ≤ i) (hi : i ≤ last) : fenceState lines i = none := by
  induction i with
  | zero =>
    obtain rfl : first = 0 := by omega
    exact hstart
  | succ i ih =>
    rcases Nat.lt_or_eq_of_le hfirst with hlt | rfl
    · rw [fenceState_succ (by omega), ih (by omega) (by omega)]
      exact hopen i (by omega) (by omega)
    · exact hstart

theorem drop_cons {lines rest : List Line} {line : Line} {index : ℕ}
    (h : lines.drop index = line :: rest) :
    index < lines.length ∧ lineAt lines index = line ∧ lines.drop (index + 1) = rest := by
  have hlength := congrArg List.length h
  rw [List.length_drop, List.length_cons] at hlength
  have hindex : index < lines.length := by omega
  rw [List.drop_eq_getElem_cons hindex] at h
  obtain ⟨hline, hrest⟩ := List.cons.inj h
  refine ⟨hindex, ?_, hrest⟩
  unfold lineAt
  rw [List.getD_eq_getElem lines default hindex]
  exact hline

/-- An open fence ends where the source ends its block, or it is not closed. -/
theorem fenceState_fenced {lines : List Line} {fence : Fence} (rest : List Line) {index : ℕ}
    (hrest : lines.drop index = rest) (hindex : index ≤ lines.length)
    (hstate : fenceState lines index = some fence) :
    index + fencedLines fence rest ≤ lines.length ∧
      (index + fencedLines fence rest = lines.length ∨
        fenceState lines (index + fencedLines fence rest) = none) := by
  induction rest generalizing index with
  | nil =>
    have hlength := congrArg List.length hrest
    rw [List.length_drop, List.length_nil] at hlength
    have hzero : fencedLines fence [] = 0 := rfl
    rw [hzero]
    exact ⟨by omega, .inl (by omega)⟩
  | cons line rest ih =>
    obtain ⟨hlt, hline, hnext⟩ := drop_cons hrest
    have hstep : fenceState lines (index + 1) =
        if isFenceClose line fence then none else some fence := by
      rw [fenceState_succ hlt, hstate, hline]
      rfl
    unfold fencedLines
    split_ifs at hstep ⊢ with hclose
    · exact ⟨by omega, .inr hstep⟩
    · have hrec := ih hnext hlt hstep
      rwa [show index + (fencedLines fence rest + 1) = index + 1 + fencedLines fence rest by omega]

end Fences

end Piclaw.NoteChunks
