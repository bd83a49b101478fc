import Mathlib

/-!
# Decoding UTF-8 with replacement

A decoder that reads bytes one at a time and puts the replacement character where bytes form no
character, and the encoder of texts. An ASCII byte ends whatever is pending, so texts can be decoded
line by line, and a prefix of encoded text decodes to a prefix of the text and at most one
replacement character.
-/

namespace Piclaw.Utf8Decoding

section Definitions

abbrev Bytes := List ℕ
abbrev Text := List Char

def replacement : Char := Char.ofNat 0xFFFD

/-- A character of which bytes are still needed; the next one is between `lower` and `upper`. -/
structure Pending where
  needed : ℕ
  value : ℕ
  lower : ℕ
  upper : ℕ
  multibyte : 0x80 ≤ lower
  large : (needed < 2 → 2 ≤ value) ∧ (1 ≤ value ∨ 0x90 ≤ lower)

/-- A byte where a character starts. -/
def startByte (b : ℕ) : Text × Option Pending :=
  if b < 0x80 then ([Char.ofNat b], none)
  else if h : 0xC2 ≤ b ∧ b ≤ 0xDF then
    ([], some ⟨1, b - 0xC0, 0x80, 0xBF, by omega, by omega⟩)
  else if b = 0xE0 then ([], some ⟨2, 0, 0xA0, 0xBF, by omega, by omega⟩)
  else if b = 0xED then ([], some ⟨2, 0xD, 0x80, 0x9F, by omega, by omega⟩)
  else if h : 0xE1 ≤ b ∧ b ≤ 0xEF then
    ([], some ⟨2, b - 0xE0, 0x80, 0xBF, by omega, by omega⟩)
  else if b = 0xF0 then ([], some ⟨3, 0, 0x90, 0xBF, by omega, by omega⟩)
  else if b = 0xF4 then ([], some ⟨3, 4, 0x80, 0x8F, by omega, by omega⟩)
  else if h : 0xF1 ≤ b ∧ b ≤ 0xF3 then
    ([], some ⟨3, b - 0xF0, 0x80, 0xBF, by omega, by omega⟩)
  else ([replacement], none)

/-- A byte outside the range of the next one is read again, as a start. -/
def stepByte : Option Pending → ℕ → Text × Option Pending
  | none, b => startByte b
  | some p, b =>
    if h : p.lower ≤ b ∧ b ≤ p.upper then
      if p.needed < 2 then ([Char.ofNat (64 * p.value + (b - 0x80))], none)
      else ([], some ⟨p.needed - 1, 64 * p.value + (b - 0x80), 0x80, 0xBF, by omega, by
        have hlarge := p.large
        have hlower := p.multibyte
        omega⟩)
    else (replacement :: (startByte b).1, (startByte b).2)

def decodeFrom : Option Pending → Bytes → Text
  | pending, [] => if pending.isSome then [replacement] else []
  | pending, b :: bytes => (stepByte pending b).1 ++ decodeFrom (stepByte pending b).2 bytes

/-- `Buffer.toString("utf-8")`. -/
def decode (bytes : Bytes) : Text := decodeFrom none bytes

def encodeChar (c : Char) : Bytes :=
  if c.toNat < 0x80 then [c.toNat]
  else if c.toNat < 0x800 then [0xC0 + c.toNat / 64, 0x80 + c.toNat % 64]
  else if c.toNat < 0x10000 then
    [0xE0 + c.toNat / 4096, 0x80 + c.toNat / 64 % 64, 0x80 + c.toNat % 64]
  else
    [0xF0 + c.toNat / 262144, 0x80 + c.toNat / 4096 % 64, 0x80 + c.toNat / 64 % 64,
      0x80 + c.toNat % 64]

/-- `Buffer.from(text, "utf-8")`. -/
def encode (t : Text) : Bytes := t.flatMap encodeChar

example : decode [0xE2, 0x82, 0xAC, 0xE2, 0x82, 65, 0xC0, 0xED, 0xA0] =
    [Char.ofNat 0x20AC, replacement, 'A', replacement, replacement, replacement] := by
  decide

end Definitions

section Ascii

theorem startByte_ascii {b : ℕ} (h : b < 0x80) : startByte b = ([Char.ofNat b], none) := by
  unfold startByte
  rw [if_pos h]

theorem stepByte_outside {p : Pending} {b : ℕ} (h : ¬ (p.lower ≤ b ∧ b ≤ p.upper)) :
    stepByte (some p) b = (replacement :: (startByte b).1, (startByte b).2) := by
  change dite _ _ _ = _
  rw [dif_neg h]

theorem stepByte_last {p : Pending} {b : ℕ} (h : p.lower ≤ b ∧ b ≤ p.upper)
    (hneeded : p.needed < 2) :
    stepByte (some p) b = ([Char.ofNat (64 * p.value + (b - 0x80))], none) := by
  change dite _ _ _ = _
  rw [dif_pos h, if_pos hneeded]

theorem stepByte_more {p : Pending} {b : ℕ} (h : p.lower ≤ b ∧ b ≤ p.upper)
    (hneeded : ¬ p.needed < 2) :
    ∃ q, stepByte (some p) b = ([], some q) ∧ q.needed = p.needed - 1 ∧
      q.value = 64 * p.value + (b - 0x80) ∧ q.lower = 0x80 ∧ q.upper = 0xBF := by
  have hlarge := p.large
  have hlower := p.multibyte
  refine ⟨⟨p.needed - 1, 64 * p.value + (b - 0x80), 0x80, 0xBF, by omega, by omega⟩, ?_, rfl, rfl,
    rfl, rfl⟩
  change dite _ _ _ = _
  rw [dif_pos h, if_neg hneeded]

theorem decodeFrom_cons {pending : Option Pending} {b : ℕ} {t : Text} {next : Option Pending}
    (h : stepByte pending b = (t, next)) (bytes : Bytes) :
    decodeFrom pending (b :: bytes) = t ++ decodeFrom next bytes := by
  rw [decodeFrom, h]

/-- An ASCII byte stands for itself, after whatever is pending. -/
theorem decodeFrom_ascii (pending : Option Pending) {b : ℕ} (h : b < 0x80) (bytes : Bytes) :
    decodeFrom pending (b :: bytes) =
      decodeFrom pending [] ++ Char.ofNat b :: decode bytes := by
  cases pending with
  | none =>
    have hstep : stepByte none b = ([Char.ofNat b], none) := startByte_ascii h
    rw [decodeFrom_cons hstep]
    rfl
  | some p =>
    have hrange : ¬ (p.lower ≤ b ∧ b ≤ p.upper) := by
      have hlower := p.multibyte
      omega
    have hstep : stepByte (some p) b = ([replacement, Char.ofNat b], none) := by
      rw [stepByte_outside hrange, startByte_ascii h]
    rw [decodeFrom_cons hstep]
    rfl

theorem decodeFrom_append (pending : Option Pending) (front : Bytes) {b : ℕ} (h : b < 0x80)
    (bytes : Bytes) :
    decodeFrom pending (front ++ b :: bytes) =
      decodeFrom pending front ++ Char.ofNat b :: decode bytes := by
  induction front generalizing pending with
  | nil => exact decodeFrom_ascii pending h bytes
  | cons a front ih => rw [List.cons_append, decodeFrom, decodeFrom, ih, List.append_assoc]

/-- Bytes are decoded line by line. -/
theorem decode_append (front : Bytes) {b : ℕ} (h : b < 0x80) (bytes : Bytes) :
    decode (front ++ b :: bytes) = decode front ++ Char.ofNat b :: decode bytes :=
  decodeFrom_append none front h bytes

theorem ofNat_large {v : ℕ} (h : 128 ≤ v) : Char.ofNat v ≠ '\n' := by
  intro heq
  have hnat := congrArg Char.toNat heq
  by_cases hvalid : v.isValidChar
  · rw [Char.toNat_ofNat, if_pos hvalid] at hnat
    change v = 10 at hnat
    omega
  · rw [Char.toNat_ofNat, if_neg hvalid] at hnat
    cases hnat

theorem startByte_newline {b : ℕ} (h : '\n' ∈ (startByte b).1) : b = 10 := by
  unfold startByte at h
  split_ifs at h with hascii
  · rw [List.mem_singleton] at h
    have hnat := congrArg Char.toNat h.symm
    have hvalid : b.isValidChar := Or.inl (by omega)
    rw [Char.toNat_ofNat, if_pos hvalid] at hnat
    exact hnat
  all_goals first
    | exact absurd h List.not_mem_nil
    | exact absurd (List.mem_singleton.mp h) (by decide)

theorem stepByte_newline {pending : Option Pending} {b : ℕ} (h : '\n' ∈ (stepByte pending b).1) :
    b = 10 := by
  cases pending with
  | none => exact startByte_newline h
  | some p =>
    by_cases hrange : p.lower ≤ b ∧ b ≤ p.upper
    · by_cases hneeded : p.needed < 2
      · rw [stepByte_last hrange hneeded, List.mem_singleton] at h
        have hlarge := p.large.1 hneeded
        exact absurd h.symm (ofNat_large (by omega))
      · obtain ⟨q, hq, -⟩ := stepByte_more hrange hneeded
        rw [hq] at h
        exact absurd h List.not_mem_nil
    · rw [stepByte_outside hrange] at h
      rcases List.mem_cons.mp h with hbad | h
      · exact absurd hbad (by decide)
      · exact startByte_newline h

/-- A line feed comes from its own byte only. -/
theorem newline_mem_decodeFrom {pending : Option Pending} {bytes : Bytes}
    (h : '\n' ∈ decodeFrom pending bytes) : 10 ∈ bytes := by
  induction bytes generalizing pending with
  | nil =>
    unfold decodeFrom at h
    split_ifs at h
    · exact absurd (List.mem_singleton.mp h) (by decide)
    · exact absurd h List.not_mem_nil
  | cons b bytes ih =>
    rw [decodeFrom, List.mem_append] at h
    rcases h with h | h
    · rw [stepByte_newline h]
      exact List.mem_cons_self
    · exact List.mem_cons_of_mem _ (ih h)

end Ascii

section Encoded

theorem char_range (c : Char) : c.toNat < 0xD800 ∨ (0xDFFF < c.toNat ∧ c.toNat < 0x110000) :=
  c.valid

/-- The bytes of one character. -/
theorem encodeChar_cases (c : Char) :
    (c.toNat < 0x80 ∧ encodeChar c = [c.toNat]) ∨
      (∃ p b, encodeChar c = [b, 0x80 + c.toNat % 64] ∧ stepByte none b = ([], some p) ∧
        p.needed = 1 ∧ p.value = c.toNat / 64 ∧ p.lower = 0x80 ∧ p.upper = 0xBF) ∨
      (∃ p b, encodeChar c = [b, 0x80 + c.toNat / 64 % 64, 0x80 + c.toNat % 64] ∧
        stepByte none b = ([], some p) ∧ p.needed = 2 ∧ p.value = c.toNat / 4096 ∧
        p.lower ≤ 0x80 + c.toNat / 64 % 64 ∧ 0x80 + c.toNat / 64 % 64 ≤ p.upper) ∨
      ∃ p b, encodeChar c = [b, 0x80 + c.toNat / 4096 % 64, 0x80 + c.toNat / 64 % 64,
          0x80 + c.toNat % 64] ∧
        stepByte none b = ([], some p) ∧ p.needed = 3 ∧ p.value = c.toNat / 262144 ∧
        p.lower ≤ 0x80 + c.toNat / 4096 % 64 ∧ 0x80 + c.toNat / 4096 % 64 ≤ p.upper := by
  have hrange := char_range c
  unfold encodeChar
  generalize c.toNat = v at hrange
  by_cases h1 : v < 0x80
  · rw [if_pos h1]
    exact Or.inl ⟨h1, rfl⟩
  by_cases h2 : v < 0x800
  · rw [if_neg h1, if_pos h2]
    have hb : 0xC2 ≤ 0xC0 + v / 64 ∧ 0xC0 + v / 64 ≤ 0xDF := by omega
    refine Or.inr (Or.inl ⟨⟨1, 0xC0 + v / 64 - 0xC0, 0x80, 0xBF, by omega, by omega⟩,
      0xC0 + v / 64, rfl, ?_, rfl, by simp, rfl, rfl⟩)
    change startByte _ = _
    unfold startByte
    rw [if_neg (by omega), dif_pos hb]
  by_cases h3 : v < 0x10000
  · rw [if_neg h1, if_neg h2, if_pos h3]
    refine Or.inr (Or.inr (Or.inl ?_))
    by_cases hE0 : v / 4096 = 0
    · refine ⟨⟨2, 0, 0xA0, 0xBF, by omega, by omega⟩, 0xE0 + v / 4096, rfl, ?_, rfl, hE0.symm,
        ?_, ?_⟩
      · change startByte _ = _
        unfold startByte
        rw [if_neg (by omega), dif_neg (by omega), if_pos (by omega)]
      · change 0xA0 ≤ _
        omega
      · change _ ≤ 0xBF
        omega
    by_cases hED : v / 4096 = 0xD
    · refine ⟨⟨2, 0xD, 0x80, 0x9F, by omega, by omega⟩, 0xE0 + v / 4096, rfl, ?_, rfl, hED.symm,
        ?_, ?_⟩
      · change startByte _ = _
        unfold startByte
        rw [if_neg (by omega), dif_neg (by omega), if_neg (by omega), if_pos (by omega)]
      · change 0x80 ≤ _
        omega
      · change _ ≤ 0x9F
        omega
    · have hb : 0xE1 ≤ 0xE0 + v / 4096 ∧ 0xE0 + v / 4096 ≤ 0xEF := by omega
      refine ⟨⟨2, 0xE0 + v / 4096 - 0xE0, 0x80, 0xBF, by omega, by omega⟩, 0xE0 + v / 4096, rfl,
        ?_, rfl, by simp, ?_, ?_⟩
      · change startByte _ = _
        unfold startByte
        rw [if_neg (by omega), dif_neg (by omega), if_neg (by omega), if_neg (by omega),
          dif_pos hb]
      · change 0x80 ≤ _
        omega
      · change _ ≤ 0xBF
        omega
  · rw [if_neg h1, if_neg h2, if_neg h3]
    refine Or.inr (Or.inr (Or.inr ?_))
    by_cases hF0 : v / 262144 = 0
    · refine ⟨⟨3, 0, 0x90, 0xBF, by omega, by omega⟩, 0xF0 + v / 262144, rfl, ?_, rfl, hF0.symm,
        ?_, ?_⟩
      · change startByte _ = _
        unfold startByte
        rw [if_neg (by omega), dif_neg (by omega), if_neg (by omega), if_neg (by omega),
          dif_neg (by omega), if_pos (by omega)]
      · change 0x90 ≤ _
        omega
      · change _ ≤ 0xBF
        omega
    by_cases hF4 : v / 262144 = 4
    · refine ⟨⟨3, 4, 0x80, 0x8F, by omega, by omega⟩, 0xF0 + v / 262144, rfl, ?_, rfl, hF4.symm,
        ?_, ?_⟩
      · change startByte _ = _
        unfold startByte
        rw [if_neg (by omega), dif_neg (by omega), if_neg (by omega), if_neg (by omega),
          dif_neg (by omega), if_neg (by omega), if_pos (by omega)]
      · change 0x80 ≤ _
        omega
      · change _ ≤ 0x8F
        omega
    · have hb : 0xF1 ≤ 0xF0 + v / 262144 ∧ 0xF0 + v / 262144 ≤ 0xF3 := by omega
      refine ⟨⟨3, 0xF0 + v / 262144 - 0xF0, 0x80, 0xBF, by omega, by omega⟩, 0xF0 + v / 262144,
        rfl, ?_, rfl, by simp, ?_, ?_⟩
      · change startByte _ = _
        unfold startByte
        rw [if_neg (by omega), dif_neg (by omega), if_neg (by omega), if_neg (by omega),
          dif_neg (by omega), if_neg (by omega), if_neg (by omega), dif_pos hb]
      · change 0x80 ≤ _
        omega
      · change _ ≤ 0xBF
        omega

theorem decode_nil : decode [] = [] := rfl

/-- The bytes of a character decode to it, and a part of them to one replacement. -/
theorem decode_encodeChar (c : Char) :
    (∀ bytes, decode (encodeChar c ++ bytes) = c :: decode bytes) ∧
      ∀ part, part <+: encodeChar c → part ≠ encodeChar c → decode part = [] ∨
        decode part = [replacement] := by
  have hrange := char_range c
  have hc : ∀ v, v = c.toNat → Char.ofNat v = c := by
    rintro v rfl
    exact Char.ofNat_toNat c
  rcases encodeChar_cases c with ⟨hascii, hbytes⟩ | ⟨p, b, hbytes, hb, hp1, hpv, hpl, hpu⟩ |
    ⟨p, b, hbytes, hb, hp2, hpv, hpl, hpu⟩ | ⟨p, b, hbytes, hb, hp3, hpv, hpl, hpu⟩
  · rw [hbytes]
    constructor
    · intro bytes
      change decode ([] ++ c.toNat :: bytes) = _
      rw [decode_append [] hascii, hc _ rfl]
      rfl
    · intro part hpart hne
      rcases List.prefix_cons_iff.mp hpart with rfl | ⟨t1, rfl, h1⟩
      · exact Or.inl rfl
      · rw [List.prefix_nil.mp h1] at hne
        exact absurd rfl hne
  · have hlast : stepByte (some p) (0x80 + c.toNat % 64) = ([c], none) := by
      rw [stepByte_last (by omega) (by omega), hc _ (by omega)]
    rw [hbytes]
    constructor
    · intro bytes
      unfold decode
      simp only [List.cons_append, List.nil_append]
      rw [decodeFrom_cons hb, decodeFrom_cons hlast]
      rfl
    · intro part hpart hne
      rcases List.prefix_cons_iff.mp hpart with rfl | ⟨t1, rfl, h1⟩
      · exact Or.inl rfl
      rcases List.prefix_cons_iff.mp h1 with rfl | ⟨t2, rfl, h2⟩
      · exact Or.inr (decodeFrom_cons hb [])
      · rw [List.prefix_nil.mp h2] at hne
        exact absurd rfl hne
  · obtain ⟨q, hq, hq1, hqv, hql, hqu⟩ := stepByte_more ⟨hpl, hpu⟩ (by omega)
    have hlast : stepByte (some q) (0x80 + c.toNat % 64) = ([c], none) := by
      rw [stepByte_last (by omega) (by omega), hc _ (by omega)]
    rw [hbytes]
    constructor
    · intro bytes
      unfold decode
      simp only [List.cons_append, List.nil_append]
      rw [decodeFrom_cons hb, decodeFrom_cons hq, decodeFrom_cons hlast]
      rfl
    · intro part hpart hne
      rcases List.prefix_cons_iff.mp hpart with rfl | ⟨t1, rfl, h1⟩
      · exact Or.inl rfl
      rcases List.prefix_cons_iff.mp h1 with rfl | ⟨t2, rfl, h2⟩
      · exact Or.inr (decodeFrom_cons hb [])
      rcases List.prefix_cons_iff.mp h2 with rfl | ⟨t3, rfl, h3⟩
      · exact Or.inr ((decodeFrom_cons hb _).trans (decodeFrom_cons hq []))
      · rw [List.prefix_nil.mp h3] at hne
        exact absurd rfl hne
  · obtain ⟨q, hq, hq2, hqv, hql, hqu⟩ := stepByte_more ⟨hpl, hpu⟩ (by omega)
    have hnext : q.lower ≤ 0x80 + c.toNat / 64 % 64 ∧ 0x80 + c.toNat / 64 % 64 ≤ q.upper := by
      omega
    obtain ⟨r, hr, hr1, hrv, hrl, hru⟩ := stepByte_more hnext (by omega)
    have hlast : stepByte (some r) (0x80 + c.toNat % 64) = ([c], none) := by
      rw [stepByte_last (by omega) (by omega), hc _ (by omega)]
    rw [hbytes]
    constructor
    · intro bytes
      unfold decode
      simp only [List.cons_append, List.nil_append]
      rw [decodeFrom_cons hb, decodeFrom_cons hq, decodeFrom_cons hr, decodeFrom_cons hlast]
      rfl
    · intro part hpart hne
      rcases List.prefix_cons_iff.mp hpart with rfl | ⟨t1, rfl, h1⟩
      · exact Or.inl rfl
      rcases List.prefix_cons_iff.mp h1 with rfl | ⟨t2, rfl, h2⟩
      · exact Or.inr (decodeFrom_cons hb [])
      rcases List.prefix_cons_iff.mp h2 with rfl | ⟨t3, rfl, h3⟩
      · exact Or.inr ((decodeFrom_cons hb _).trans (decodeFrom_cons hq []))
      rcases List.prefix_cons_iff.mp h3 with rfl | ⟨t4, rfl, h4⟩
      · exact Or.inr ((decodeFrom_cons hb _).trans
          ((decodeFrom_cons hq _).trans (decodeFrom_cons hr [])))
      · rw [List.prefix_nil.mp h4] at hne
        exact absurd rfl hne

/-- Encoded text decodes to itself, in front of anything. -/
theorem decode_encode_append (t : Text) (bytes : Bytes) :
    decode (encode t ++ bytes) = t ++ decode bytes := by
  induction t with
  | nil => rfl
  | cons c t ih =>
    have hsplit : encode (c :: t) ++ bytes = encodeChar c ++ (encode t ++ bytes) := by
      unfold encode
      rw [List.flatMap_cons, List.append_assoc]
    rw [hsplit, (decode_encodeChar c).1, ih]
    rfl

theorem decode_encode (t : Text) : decode (encode t) = t := by
  have happend := decode_encode_append t []
  rwa [List.append_nil, decode_nil, List.append_nil] at happend

/-- A prefix of encoded text shows a prefix of the text and at most one replacement. -/
theorem decode_front {t : Text} {bytes : Bytes} (h : bytes <+: encode t) :
    ∃ front, front <+: t ∧ (decode bytes = front ∨ decode bytes = front ++ [replacement]) := by
  induction t generalizing bytes with
  | nil =>
    rw [List.prefix_nil.mp h]
    exact ⟨[], List.prefix_refl _, Or.inl rfl⟩
  | cons c t ih =>
    have hsplit : encode (c :: t) = encodeChar c ++ encode t := List.flatMap_cons
    rw [hsplit] at h
    obtain ⟨hwhole, hpart⟩ := decode_encodeChar c
    by_cases hshort : bytes.length < (encodeChar c).length
    · have hpre : bytes <+: encodeChar c :=
        List.prefix_of_prefix_length_le h (List.prefix_append _ _) (by omega)
      have hne : bytes ≠ encodeChar c := by
        rintro rfl
        omega
      refine ⟨[], List.nil_prefix, ?_⟩
      exact hpart bytes hpre hne
    · have hpre : encodeChar c <+: bytes :=
        List.prefix_of_prefix_length_le (List.prefix_append _ _) h (by omega)
      obtain ⟨rest, rfl⟩ := hpre
      obtain ⟨front, hfront, hdecode⟩ := ih ((List.prefix_append_right_inj _).mp h)
      refine ⟨c :: front, (List.prefix_cons_inj c).mpr hfront, ?_⟩
      rw [hwhole]
      rcases hdecode with hdecode | hdecode
      · exact Or.inl (by rw [hdecode])
      · exact Or.inr (by rw [hdecode]; rfl)

end Encoded

end Piclaw.Utf8Decoding
