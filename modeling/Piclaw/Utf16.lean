import Piclaw.CanonicalText
import Piclaw.Utf8Decoding

/-!
# UTF-16 code units

The code units of a text, and how many bytes code units are encoded to.
-/

namespace Piclaw.Utf16

open CanonicalText

/-- The code units of a text. -/
def utf16 (text : List Char) : Units :=
  text.flatMap fun c =>
    if c.toNat < 0x10000 then [c.toNat]
    else [0xD800 + (c.toNat - 0x10000) / 0x400, 0xDC00 + (c.toNat - 0x10000) % 0x400]

/-- `Buffer.byteLength`: a unit of a surrogate pair is two bytes, a lone surrogate three. -/
def byteLength : Units → ℕ
  | [] => 0
  | high :: low :: rest =>
    if 0xD800 ≤ high ∧ high ≤ 0xDBFF ∧ 0xDC00 ≤ low ∧ low ≤ 0xDFFF then 4 + byteLength rest
    else (if high < 0x80 then 1 else if high < 0x800 then 2 else 3) + byteLength (low :: rest)
  | [u] => if u < 0x80 then 1 else if u < 0x800 then 2 else 3

theorem byteLength_pos (u : ℕ) (rest : Units) : 0 < byteLength (u :: rest) := by
  cases rest with
  | nil =>
    unfold byteLength
    split_ifs <;> omega
  | cons low rest =>
    unfold byteLength
    split_ifs <;> omega

theorem byteLength_ascii {u : ℕ} (h : u < 0x80) (rest : Units) :
    byteLength (u :: rest) = 1 + byteLength rest := by
  cases rest with
  | nil => simp [byteLength, h]
  | cons low rest =>
    rw [byteLength, if_neg (by omega), if_pos h]

theorem byteLength_ascii_append {front : Units} (h : ∀ u ∈ front, u < 0x80) (rest : Units) :
    byteLength (front ++ rest) = front.length + byteLength rest := by
  induction front with
  | nil => simp
  | cons u front ih =>
    obtain ⟨hu, hfront⟩ := List.forall_mem_cons.mp h
    rw [List.cons_append, byteLength_ascii hu, ih hfront, List.length_cons]
    omega

end Piclaw.Utf16
