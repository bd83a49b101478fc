import Piclaw.TextRuns
import Piclaw.Utf8Decoding
import Piclaw.Values

/-!
# Listing a tar archive

The loop that walks from header to header, each time by the size that it reads out of the header.
The offset is an integer: a size with a minus sign takes it back, and an offset below zero counts
from the end of the buffer.
-/

namespace Piclaw.Archives

open TextRuns Utf8Decoding

abbrev Text := List Char

structure ArchiveEntrySummary where
  name : Text
  compressedSize : Option ℕ
  uncompressedSize : ℤ
  isDirectory : Bool
deriving DecidableEq

structure ArchiveListing where
  entries : List ArchiveEntrySummary
  totalEntries : ℕ
  truncated : Bool
deriving DecidableEq

/-- An index of `Buffer.subarray`. -/
def clampIndex (length : ℕ) (i : ℤ) : ℕ :=
  if i < 0 then (length + i).toNat else min i.toNat length

def subarray (buffer : Bytes) (start stop : ℤ) : Bytes :=
  let first := clampIndex buffer.length start
  (buffer.drop first).take (clampIndex buffer.length stop - first)

/-- `header.toString("utf8", start, stop)` -/
def textAt (header : Bytes) (start stop : ℕ) : Text :=
  decode ((header.drop start).take (stop - start))

/-- What the dot of a regular expression does not match. -/
def isLineTerminator (ch : Char) : Bool :=
  ch = '\n' || ch = '\r' || ch = Char.ofNat 0x2028 || ch = Char.ofNat 0x2029

/-- `text.replace(/\0.*$/, "")` -/
def cutNul : Text → Text
  | [] => []
  | ch :: text =>
    if ch = Char.ofNat 0 ∧ text.all (fun ch => !isLineTerminator ch) then [] else ch :: cutNul text

def octalDigit (ch : Char) : Bool := '0' ≤ ch && ch ≤ '7'

def octalValue (text : Text) : ℕ :=
  (text.takeWhile octalDigit).foldl (fun value ch => 8 * value + (ch.toNat - 48)) 0

/-- `parseInt(text, 8) || 0` for a text without spaces. -/
def parseOctal : Text → ℤ
  | '-' :: digits => -octalValue digits
  | '+' :: digits => octalValue digits
  | digits => octalValue digits

def sizeOf (header : Bytes) : ℤ :=
  let sizeOctal := stripEnds isTrimmed (cutNul (textAt header 124 136))
  if sizeOctal ≠ [] then parseOctal (sizeOctal.filter (fun ch => !isTrimmed ch)) else 0

def nameOf (header : Bytes) : Text :=
  let rawName := cutNul (textAt header 0 100)
  let rawPrefix := cutNul (textAt header 345 500)
  if rawPrefix ≠ [] then rawPrefix ++ '/' :: rawName else rawName

def isDirectoryHeader (header : Bytes) : Bool :=
  let typeFlag := textAt header 156 157
  (if typeFlag ≠ [] then typeFlag else ['0']) = ['5'] || (nameOf header).getLast? = some '/'

def summaryOf (header : Bytes) : ArchiveEntrySummary :=
  ⟨nameOf header, none, sizeOf header, isDirectoryHeader header⟩

/-- The variables of the loop. -/
structure TarCursor where
  offset : ℤ
  entries : List ArchiveEntrySummary
  totalEntries : ℕ

/-- `Math.ceil(size / 512) * 512` -/
def paddedSize (size : ℤ) : ℤ := -(-size / 512) * 512

def headerAt (buffer : Bytes) (offset : ℤ) : Bytes := subarray buffer offset (offset + 512)

/-- One round of the loop; where the result is missing the loop has ended. -/
def tarStep (buffer : Bytes) (maxEntries : ℕ) (s : TarCursor) : Option TarCursor :=
  if s.offset + 512 ≤ buffer.length then
    let header := headerAt buffer s.offset
    if header.all (fun byte => byte = 0) then none
    else if nameOf header = [] then none
    else some
      { offset := s.offset + (512 + paddedSize (sizeOf header))
        entries :=
          if s.entries.length < maxEntries then s.entries ++ [summaryOf header] else s.entries
        totalEntries := s.totalEntries + 1 }
  else none

def runTar (buffer : Bytes) (maxEntries : ℕ) : ℕ → TarCursor → Option TarCursor
  | 0, _ => none
  | fuel + 1, s =>
    match tarStep buffer maxEntries s with
    | none => some s
    | some s' => runTar buffer maxEntries fuel s'

/-- `parseTarEntries` as far as `fuel` rounds go. -/
def parseTarEntries (fuel : ℕ) (buffer : Bytes) (maxEntries : ℕ) : Option ArchiveListing :=
  (runTar buffer maxEntries fuel ⟨0, [], 0⟩).map (fun s =>
    ⟨s.entries, s.totalEntries, decide (s.entries.length < s.totalEntries)⟩)

/-- A listing that keeps at most `maxEntries` goes on with what is still kept. -/
theorem append_kept {α : Type*} (entries rest : List α) (x : α) (maxEntries : ℕ) :
    (if entries.length < maxEntries then entries ++ [x] else entries) ++
        rest.take (maxEntries -
          (if entries.length < maxEntries then entries ++ [x] else entries).length) =
      entries ++ (x :: rest).take (maxEntries - entries.length) := by
  split_ifs with hroom
  · have hmore : maxEntries - entries.length = maxEntries - (entries ++ [x]).length + 1 := by
      rw [List.length_append, List.length_singleton]
      omega
    rw [hmore, List.take_succ_cons, List.append_assoc, List.singleton_append]
  · have hnone : maxEntries - entries.length = 0 := by omega
    rw [hnone, List.take_zero, List.take_zero]

section Progress
variable {buffer : Bytes} {maxEntries : ℕ} {s s' : TarCursor}

/-- The state after `n` rounds from the state `s`. -/
def after (buffer : Bytes) (maxEntries : ℕ) : ℕ → TarCursor → Option TarCursor
  | 0, s => some s
  | n + 1, s => (tarStep buffer maxEntries s).bind (after buffer maxEntries n)

theorem tarStep_spec (h : tarStep buffer maxEntries s = some s') :
    s.offset + 512 ≤ buffer.length ∧
      s'.offset = s.offset + (512 + paddedSize (sizeOf (headerAt buffer s.offset))) := by
  unfold tarStep at h
  dsimp only at h
  split_ifs at h with hroom
  all_goals
    cases h
    exact ⟨hroom, rfl⟩

theorem paddedSize_nonneg_iff (size : ℤ) : 0 ≤ paddedSize size ↔ -512 < size := by
  unfold paddedSize
  omega

/-- Every round that starts in a state reached from `s` moves forward by at least one header. -/
def Advances (buffer : Bytes) (maxEntries : ℕ) (s : TarCursor) : Prop :=
  ∀ n t t', after buffer maxEntries n s = some t → tarStep buffer maxEntries t = some t' →
    t.offset + 512 ≤ t'.offset

/-- No header that is reached has a size of -512 or less. -/
def SizesAdvance (buffer : Bytes) (maxEntries : ℕ) (s : TarCursor) : Prop :=
  ∀ n t t', after buffer maxEntries n s = some t → tarStep buffer maxEntries t = some t' →
    -512 < sizeOf (headerAt buffer t.offset)

theorem advances_iff : Advances buffer maxEntries s ↔ SizesAdvance buffer maxEntries s := by
  refine forall₄_congr (fun n t t' _ => forall_congr' (fun hstep => ?_))
  rw [(tarStep_spec hstep).2, ← paddedSize_nonneg_iff]
  omega

theorem Advances.step (h : Advances buffer maxEntries s)
    (hstep : tarStep buffer maxEntries s = some s') : Advances buffer maxEntries s' := by
  intro n t t' ht
  refine h (n + 1) t t' ?_
  rw [after, hstep, Option.bind_some]
  exact ht

/-- The rounds are as many as there is room for headers. -/
theorem runTar_ends (rounds : ℕ) (h : Advances buffer maxEntries s)
    (hrounds : (buffer.length : ℤ) < s.offset + 512 * (rounds + 1)) :
    ∃ t, runTar buffer maxEntries (rounds + 1) s = some t := by
  induction rounds generalizing s with
  | zero =>
    have hnone : tarStep buffer maxEntries s = none := by
      unfold tarStep
      rw [if_neg (by omega)]
    exact ⟨s, by rw [runTar, hnone]⟩
  | succ rounds ih =>
    cases hstep : tarStep buffer maxEntries s with
    | none => exact ⟨s, by rw [runTar, hstep]⟩
    | some s' =>
      have hforward := h 0 s s' rfl hstep
      obtain ⟨t, ht⟩ := ih (h.step hstep) (by push_cast at hrounds ⊢; omega)
      exact ⟨t, by rw [runTar, hstep]; exact ht⟩

/-- Listing ends and every round moves forward by at least one header, exactly if no header that
is reached has a size of -512 or less. -/
theorem tar_advances_iff (buffer : Bytes) (maxEntries : ℕ) :
    ((∃ fuel listing, parseTarEntries fuel buffer maxEntries = some listing) ∧
        Advances buffer maxEntries ⟨0, [], 0⟩) ↔
      SizesAdvance buffer maxEntries ⟨0, [], 0⟩ := by
  rw [← advances_iff]
  constructor
  · rintro ⟨-, h⟩
    exact h
  · intro h
    obtain ⟨t, ht⟩ := runTar_ends (buffer.length / 512) h (by dsimp only; push_cast; omega)
    refine ⟨⟨buffer.length / 512 + 1, ?_⟩, h⟩
    rw [parseTarEntries, ht, Option.map_some]
    exact ⟨_, rfl⟩

end Progress

end Piclaw.Archives
