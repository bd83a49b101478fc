import Piclaw.TarEntries

/-!
# Ustar archives

What a ustar archive is, member by member, and that the listing of one is exact.
-/

namespace Piclaw.Archives

open TextRuns Utf8Decoding

section Encoding

/-- The `width` octal digits of `n`. -/
def octalDigits : ℕ → ℕ → Bytes
  | 0, _ => []
  | width + 1, n => octalDigits width (n / 8) ++ [48 + n % 8]

/-- A text in a field of `width` bytes, which zeros fill. -/
def textField (width : ℕ) (text : Text) : Bytes :=
  encode text ++ List.replicate (width - (encode text).length) 0

/-- A member of an archive. The fields that the listing does not read hold any bytes, and so does
what fills the last block of the contents. -/
structure TarMember where
  name : Text
  pathPrefix : Text
  modeAndOwner : Bytes
  /-- Whether the size ends with a space, not with a zero byte. -/
  spaceAfterSize : Bool
  timeAndChecksum : Bytes
  typeFlag : ℕ
  linkAndOwnerNames : Bytes
  trailer : Bytes
  contents : Bytes
  padding : Bytes
  name_ne : name ≠ []
  name_clean : Char.ofNat 0 ∉ name
  name_fits : (encode name).length ≤ 100
  pathPrefix_clean : Char.ofNat 0 ∉ pathPrefix
  pathPrefix_fits : (encode pathPrefix).length ≤ 155
  modeAndOwner_length : modeAndOwner.length = 24
  timeAndChecksum_length : timeAndChecksum.length = 20
  linkAndOwnerNames_length : linkAndOwnerNames.length = 188
  trailer_length : trailer.length = 12
  size_fits : contents.length < 8 ^ 11
  padded : (contents.length + padding.length) % 512 = 0 ∧ padding.length < 512

def TarMember.header (m : TarMember) : Bytes :=
  textField 100 m.name ++ (m.modeAndOwner ++
    (octalDigits 11 m.contents.length ++ [if m.spaceAfterSize then 32 else 0] ++
      (m.timeAndChecksum ++ (m.typeFlag :: (m.linkAndOwnerNames ++
        (textField 155 m.pathPrefix ++ m.trailer))))))

def TarMember.encode (m : TarMember) : Bytes := m.header ++ (m.contents ++ m.padding)

def TarMember.fullName (m : TarMember) : Text :=
  if m.pathPrefix ≠ [] then m.pathPrefix ++ '/' :: m.name else m.name

/-- What the listing is to say about a member. -/
def TarMember.summary (m : TarMember) : ArchiveEntrySummary :=
  ⟨m.fullName, none, m.contents.length,
    decide (m.typeFlag = 53) || m.fullName.getLast? = some '/'⟩

/-- The members and the two zero blocks that end an archive. -/
def tarArchive (members : List TarMember) : Bytes :=
  members.flatMap TarMember.encode ++ List.replicate 1024 0

end Encoding

section Fields
variable {m : TarMember}

theorem textField_length {width : ℕ} {text : Text} (h : (encode text).length ≤ width) :
    (textField width text).length = width := by
  unfold textField
  rw [List.length_append, List.length_replicate]
  omega

theorem octalDigits_length (width n : ℕ) : (octalDigits width n).length = width := by
  induction width generalizing n with
  | zero => rfl
  | succ width ih => rw [octalDigits, List.length_append, ih, List.length_singleton]

theorem header_length (m : TarMember) : m.header.length = 512 := by
  unfold TarMember.header
  simp only [List.length_append, List.length_cons, List.length_nil, octalDigits_length,
    textField_length m.name_fits, textField_length m.pathPrefix_fits, m.modeAndOwner_length,
    m.timeAndChecksum_length, m.linkAndOwnerNames_length, m.trailer_length]

theorem encode_zeros (k : ℕ) : encode (List.replicate k (Char.ofNat 0)) = List.replicate k 0 := by
  induction k with
  | zero => rfl
  | succ k ih =>
    rw [List.replicate_succ, List.replicate_succ, ← ih]
    rfl

theorem decode_textField (width : ℕ) (text : Text) :
    decode (textField width text) =
      text ++ List.replicate (width - (encode text).length) (Char.ofNat 0) := by
  have hencode : textField width text =
      encode (text ++ List.replicate (width - (encode text).length) (Char.ofNat 0)) := by
    unfold textField
    rw [encode, encode, List.flatMap_append, ← encode, ← encode, encode_zeros]
  rw [hencode, decode_encode]

theorem cutNul_append {text : Text} (h : Char.ofNat 0 ∉ text) (k : ℕ) :
    cutNul (text ++ List.replicate k (Char.ofNat 0)) = text := by
  induction text with
  | nil =>
    cases k with
    | zero => rfl
    | succ k =>
      rw [List.nil_append, List.replicate_succ, cutNul, if_pos]
      refine ⟨rfl, ?_⟩
      rw [List.all_replicate]
      simp [isLineTerminator]
  | cons ch text ih =>
    rw [List.mem_cons, not_or] at h
    rw [List.cons_append, cutNul, if_neg (fun hnul => h.1 hnul.1.symm), ih h.2]

theorem octalDigits_digit {width n : ℕ} : ∀ b ∈ octalDigits width n, 48 ≤ b ∧ b ≤ 55 := by
  induction width generalizing n with
  | zero => exact fun _ h => absurd h List.not_mem_nil
  | succ width ih =>
    intro b hb
    rcases List.mem_append.mp hb with hb | hb
    · exact ih b hb
    · rw [List.mem_singleton.mp hb]
      omega

theorem octalDigits_sum (width n value : ℕ) :
    (octalDigits width n).foldl (fun value b => 8 * value + (b - 48)) value =
      8 ^ width * value + n % 8 ^ width := by
  induction width generalizing n with
  | zero => simp [octalDigits, Nat.mod_one]
  | succ width ih =>
    have hmod : n % 8 ^ (width + 1) = n % 8 + 8 * (n / 8 % 8 ^ width) := by
      rw [Nat.pow_succ, Nat.mul_comm, Nat.mod_mul]
    rw [octalDigits, List.foldl_append, ih, List.foldl_cons, List.foldl_nil, hmod, Nat.pow_succ]
    have hproduct : 8 ^ width * 8 * value = 8 * (8 ^ width * value) := by ring
    omega

/-- An octal digit as a character. -/
theorem digit_char {b : ℕ} (h : 48 ≤ b ∧ b ≤ 55) :
    (Char.ofNat b).toNat = b ∧ octalDigit (Char.ofNat b) = true ∧
      isTrimmed (Char.ofNat b) = false ∧ Char.ofNat b ≠ Char.ofNat 0 ∧
      Char.ofNat b ≠ '-' ∧ Char.ofNat b ≠ '+' := by
  obtain ⟨hlow, hhigh⟩ := h
  interval_cases b
  all_goals decide

theorem decode_ascii {bytes : Bytes} (h : ∀ b ∈ bytes, b < 0x80) :
    decode bytes = bytes.map Char.ofNat := by
  induction bytes with
  | nil => rfl
  | cons b bytes ih =>
    rw [List.forall_mem_cons] at h
    have hfirst := decodeFrom_ascii none h.1 bytes
    rw [ih h.2] at hfirst
    exact hfirst

def digitText (n : ℕ) : Text := (octalDigits 11 n).map Char.ofNat

theorem mem_digitText {n : ℕ} {ch : Char} (h : ch ∈ digitText n) :
    octalDigit ch = true ∧ isTrimmed ch = false ∧ ch ≠ Char.ofNat 0 ∧ ch ≠ '-' ∧ ch ≠ '+' := by
  obtain ⟨b, hb, rfl⟩ := List.mem_map.mp h
  exact (digit_char (octalDigits_digit b hb)).2

theorem digitText_ne_nil (n : ℕ) : digitText n ≠ [] := by
  intro h
  have hlength := congrArg List.length h
  rw [digitText, List.length_map, octalDigits_length] at hlength
  cases hlength

theorem octalValue_digitText {n : ℕ} (h : n < 8 ^ 11) : octalValue (digitText n) = n := by
  have hall : (digitText n).takeWhile octalDigit = digitText n :=
    List.takeWhile_eq_self_iff.mpr (fun ch hch => (mem_digitText hch).1)
  have hfold : (digitText n).foldl (fun value ch => 8 * value + (ch.toNat - 48)) 0 =
      (octalDigits 11 n).foldl (fun value b => 8 * value + (b - 48)) 0 := by
    rw [digitText, List.foldl_map]
    apply List.foldl_ext
    intro value b hb
    rw [(digit_char (octalDigits_digit b hb)).1]
  rw [octalValue, hall, hfold, octalDigits_sum, Nat.mul_zero, Nat.zero_add, Nat.mod_eq_of_lt h]

theorem parseOctal_digitText {n : ℕ} (h : n < 8 ^ 11) : parseOctal (digitText n) = n := by
  have hvalue := octalValue_digitText h
  have hsigns : ∀ ch ∈ digitText n, ch ≠ '-' ∧ ch ≠ '+' :=
    fun ch hch => (mem_digitText hch).2.2.2
  generalize digitText n = text at hvalue hsigns
  unfold parseOctal
  split
  · exact absurd rfl (hsigns '-' List.mem_cons_self).1
  · exact absurd rfl (hsigns '+' List.mem_cons_self).2
  · rw [hvalue]

theorem strip_digitText (n : ℕ) : stripEnds isTrimmed (digitText n) = digitText n := by
  apply stripEnds_eq_self
  · intro ch hch
    exact (mem_digitText (List.mem_of_head? hch)).2.1
  · intro ch hch
    exact (mem_digitText (List.mem_of_getLast? hch)).2.1

/-- The field of a size, cut and trimmed, is its digits. -/
theorem strip_sizeField (n : ℕ) (space : Bool) :
    stripEnds isTrimmed (cutNul (decode (octalDigits 11 n ++ [if space then 32 else 0]))) =
      digitText n := by
  have hclean : Char.ofNat 0 ∉ digitText n := fun h => (mem_digitText h).2.2.1 rfl
  have hascii : decode (octalDigits 11 n ++ [if space then 32 else 0]) =
      digitText n ++ [Char.ofNat (if space then 32 else 0)] := by
    rw [decode_ascii, List.map_append]
    · rfl
    · intro b hb
      rcases List.mem_append.mp hb with hb | hb
      · have := octalDigits_digit b hb
        omega
      · rw [List.mem_singleton.mp hb]
        split_ifs
        · decide
        · decide
  rw [hascii]
  cases space with
  | false =>
    have hcut := cutNul_append hclean 1
    rw [List.replicate_one] at hcut
    rw [if_neg Bool.false_ne_true, hcut, strip_digitText]
  | true =>
    have hclean' : Char.ofNat 0 ∉ digitText n ++ [' '] := by
      rw [List.mem_append, not_or]
      exact ⟨hclean, by decide⟩
    have hcut := cutNul_append hclean' 0
    rw [List.replicate_zero, List.append_nil] at hcut
    have hspace : Char.ofNat (if true = true then 32 else 0) = ' ' := rfl
    rw [hspace, hcut, stripEnds_append_of_all, strip_digitText]
    intro ch hch
    rw [List.mem_singleton.mp hch]
    decide

/-- A byte that starts no ASCII character stands alone for the replacement character. -/
theorem startByte_other {b : ℕ} (h : ¬ b < 0x80) :
    ((startByte b).1 = [replacement] ∧ (startByte b).2 = none) ∨
      ((startByte b).1 = [] ∧ (startByte b).2.isSome) := by
  unfold startByte
  rw [if_neg h]
  split_ifs
  all_goals first
    | exact Or.inr ⟨rfl, rfl⟩
    | exact Or.inl ⟨rfl, rfl⟩

theorem decode_typeFlag (b : ℕ) : decode [b] ≠ [] ∧ (decode [b] = ['5'] ↔ b = 53) := by
  by_cases hascii : b < 0x80
  · rw [decode_ascii (by simpa using hascii), List.map_singleton]
    refine ⟨List.cons_ne_nil _ _, ?_⟩
    rw [List.singleton_inj]
    constructor
    · intro h
      have hvalue : (Char.ofNat b).toNat = b := by
        interval_cases b
        all_goals rfl
      rw [← hvalue, h]
      rfl
    · rintro rfl
      rfl
  · have hreplaced : decode [b] = [replacement] := by
      dsimp only [decode, decodeFrom, stepByte]
      rcases startByte_other hascii with ⟨htext, hnone⟩ | ⟨htext, hsome⟩
      · rw [htext, hnone]
        rfl
      · rw [htext, if_pos hsome, List.nil_append]
    rw [hreplaced]
    refine ⟨List.cons_ne_nil _ _, iff_of_false (by decide) ?_⟩
    rintro rfl
    exact hascii (by decide)

end Fields

section Headers

theorem textAt_middle {front field rest : Bytes} {start stop : ℕ} (hstart : front.length = start)
    (hstop : field.length = stop - start) :
    textAt (front ++ (field ++ rest)) start stop = decode field := by
  unfold textAt
  rw [← hstart, List.drop_left, hstart, ← hstop, List.take_left]

theorem name_textAt (m : TarMember) : textAt m.header 0 100 = decode (textField 100 m.name) := by
  have hfront : ([] : Bytes).length = 0 := rfl
  exact textAt_middle hfront (textField_length m.name_fits)

theorem size_textAt (m : TarMember) : textAt m.header 124 136 =
    decode (octalDigits 11 m.contents.length ++ [if m.spaceAfterSize then 32 else 0]) := by
  have hheader : m.header = (textField 100 m.name ++ m.modeAndOwner) ++
      ((octalDigits 11 m.contents.length ++ [if m.spaceAfterSize then 32 else 0]) ++
        (m.timeAndChecksum ++ (m.typeFlag :: (m.linkAndOwnerNames ++
          (textField 155 m.pathPrefix ++ m.trailer))))) := by
    simp only [TarMember.header, List.append_assoc]
  rw [hheader]
  apply textAt_middle
  · rw [List.length_append, textField_length m.name_fits, m.modeAndOwner_length]
  · rw [List.length_append, octalDigits_length, List.length_singleton]

theorem typeFlag_textAt (m : TarMember) : textAt m.header 156 157 = decode [m.typeFlag] := by
  have hheader : m.header = (textField 100 m.name ++ (m.modeAndOwner ++
      (octalDigits 11 m.contents.length ++ [if m.spaceAfterSize then 32 else 0] ++
        m.timeAndChecksum))) ++ ([m.typeFlag] ++ (m.linkAndOwnerNames ++
          (textField 155 m.pathPrefix ++ m.trailer))) := by
    simp only [TarMember.header, List.append_assoc, List.cons_append, List.nil_append]
  rw [hheader]
  apply textAt_middle
  · simp only [List.length_append, textField_length m.name_fits, m.modeAndOwner_length,
      octalDigits_length, m.timeAndChecksum_length, List.length_singleton]
  · rfl

theorem pathPrefix_textAt (m : TarMember) :
    textAt m.header 345 500 = decode (textField 155 m.pathPrefix) := by
  have hheader : m.header = (textField 100 m.name ++ (m.modeAndOwner ++
      (octalDigits 11 m.contents.length ++ [if m.spaceAfterSize then 32 else 0] ++
        (m.timeAndChecksum ++ (m.typeFlag :: m.linkAndOwnerNames))))) ++
          (textField 155 m.pathPrefix ++ m.trailer) := by
    simp only [TarMember.header, List.append_assoc, List.cons_append]
  rw [hheader]
  apply textAt_middle
  · simp only [List.length_append, textField_length m.name_fits, m.modeAndOwner_length,
      octalDigits_length, m.timeAndChecksum_length, List.length_cons, List.length_nil,
      m.linkAndOwnerNames_length]
  · exact textField_length m.pathPrefix_fits

theorem nameOf_header (m : TarMember) : nameOf m.header = m.fullName := by
  unfold nameOf TarMember.fullName
  dsimp only
  rw [name_textAt, pathPrefix_textAt, decode_textField, decode_textField,
    cutNul_append m.name_clean, cutNul_append m.pathPrefix_clean]

theorem sizeOf_header (m : TarMember) : sizeOf m.header = m.contents.length := by
  have hdigits : (digitText m.contents.length).filter (fun ch => !isTrimmed ch) =
      digitText m.contents.length := by
    rw [List.filter_eq_self]
    intro ch hch
    rw [(mem_digitText hch).2.1]
    rfl
  unfold sizeOf
  dsimp only
  rw [size_textAt, strip_sizeField, if_pos (digitText_ne_nil _), hdigits,
    parseOctal_digitText m.size_fits]

theorem summaryOf_header (m : TarMember) : summaryOf m.header = m.summary := by
  unfold summaryOf TarMember.summary isDirectoryHeader
  dsimp only
  rw [nameOf_header, sizeOf_header, typeFlag_textAt, if_pos (decode_typeFlag m.typeFlag).1]
  simp only [(decode_typeFlag m.typeFlag).2]

theorem header_not_zero (m : TarMember) : m.header.all (fun byte => byte = 0) = false := by
  rw [List.all_eq_false]
  refine ⟨48 + m.contents.length % 8, ?_, by simp⟩
  simp [TarMember.header, octalDigits]

theorem fullName_ne_nil (m : TarMember) : m.fullName ≠ [] := by
  unfold TarMember.fullName
  split_ifs
  · simp
  · exact m.name_ne

end Headers

section Listing
variable {maxEntries : ℕ}

theorem encode_length (m : TarMember) :
    (m.encode.length : ℤ) = 512 + paddedSize m.contents.length := by
  have hpadded := m.padded
  unfold TarMember.encode paddedSize
  rw [List.length_append, List.length_append, header_length]
  push_cast
  omega

theorem headerAt_append {front header rest : Bytes} (h : header.length = 512) :
    headerAt (front ++ (header ++ rest)) front.length = header := by
  have hstart : clampIndex (front ++ (header ++ rest)).length front.length = front.length := by
    unfold clampIndex
    rw [if_neg (by omega), Int.toNat_natCast, List.length_append]
    omega
  have hstop : clampIndex (front ++ (header ++ rest)).length (front.length + 512) =
      front.length + 512 := by
    unfold clampIndex
    rw [if_neg (by omega), List.length_append, List.length_append, h]
    omega
  unfold headerAt subarray
  dsimp only
  rw [hstart, hstop, List.drop_left, Nat.add_sub_cancel_left, ← h, List.take_left]

/-- The round at a member lists it and goes on behind its contents. -/
theorem tarStep_member {front rest : Bytes} (m : TarMember) {s : TarCursor}
    (hs : s.offset = front.length) :
    tarStep (front ++ (m.encode ++ rest)) maxEntries s = some
      { offset := (front ++ m.encode).length
        entries := if s.entries.length < maxEntries then s.entries ++ [m.summary] else s.entries
        totalEntries := s.totalEntries + 1 } := by
  have hheader : headerAt (front ++ (m.encode ++ rest)) front.length = m.header := by
    rw [TarMember.encode, List.append_assoc]
    exact headerAt_append (header_length m)
  have hlength := encode_length m
  have hroom : s.offset + 512 ≤ ((front ++ (m.encode ++ rest)).length : ℕ) := by
    have hpadded := header_length m
    rw [hs, TarMember.encode]
    simp only [List.length_append, hpadded]
    omega
  unfold tarStep
  dsimp only
  rw [if_pos hroom, hs, hheader, if_neg (by rw [header_not_zero]; exact Bool.false_ne_true),
    nameOf_header, if_neg (fullName_ne_nil m), sizeOf_header, summaryOf_header, ← hlength,
    List.length_append]
  rfl

theorem tarStep_end {front rest : Bytes} {s : TarCursor} (hs : s.offset = front.length) :
    tarStep (front ++ (List.replicate 1024 0 ++ rest)) maxEntries s = none := by
  have hsplit : List.replicate 1024 0 ++ rest =
      List.replicate 512 0 ++ (List.replicate 512 0 ++ rest) := by
    rw [← List.append_assoc, ← List.replicate_add]
  have hheader : headerAt (front ++ (List.replicate 1024 0 ++ rest)) front.length =
      List.replicate 512 0 := by
    rw [hsplit]
    exact headerAt_append List.length_replicate
  have hzero : (List.replicate 512 (0 : ℕ)).all (fun byte => byte = 0) = true := by
    rw [List.all_eq_true]
    intro byte hbyte
    exact decide_eq_true (List.eq_of_mem_replicate hbyte)
  unfold tarStep
  dsimp only
  rw [hs, hheader, hzero, if_pos rfl]
  split_ifs
  · rfl
  · rfl

theorem runTar_members (maxEntries : ℕ) (members : List TarMember) (front rest : Bytes)
    {s : TarCursor}
    (hs : s.offset = front.length) (fuel : ℕ) :
    ∃ t, runTar (front ++ (members.flatMap TarMember.encode ++ (List.replicate 1024 0 ++ rest)))
        maxEntries (members.length + 1 + fuel) s = some t ∧
      t.entries = s.entries ++
        (members.map TarMember.summary).take (maxEntries - s.entries.length) ∧
      t.totalEntries = s.totalEntries + members.length := by
  induction members generalizing front s with
  | nil =>
    refine ⟨s, ?_, by simp, rfl⟩
    rw [List.flatMap_nil, List.nil_append, List.length_nil, Nat.zero_add, Nat.add_comm, runTar,
      tarStep_end hs]
  | cons m members ih =>
    have hbuffer : front ++ ((m :: members).flatMap TarMember.encode ++
        (List.replicate 1024 0 ++ rest)) = front ++ (m.encode ++
          (members.flatMap TarMember.encode ++ (List.replicate 1024 0 ++ rest))) := by
      rw [List.flatMap_cons, List.append_assoc]
    have hfuel : (m :: members).length + 1 + fuel = (members.length + 1 + fuel) + 1 := by
      rw [List.length_cons]
      omega
    obtain ⟨t, hrun, hentries, htotal⟩ := ih (front ++ m.encode) (s :=
      { offset := (front ++ m.encode).length
        entries := if s.entries.length < maxEntries then s.entries ++ [m.summary] else s.entries
        totalEntries := s.totalEntries + 1 }) rfl
    refine ⟨t, ?_, ?_, ?_⟩
    · rw [hbuffer, hfuel, runTar, tarStep_member m hs]
      rw [List.append_assoc] at hrun
      exact hrun
    · rw [hentries, List.map_cons]
      exact append_kept _ _ _ _
    · rw [htotal, List.length_cons]
      dsimp only
      omega

/-- The listing of an archive names its members in order, the first `maxEntries` of them, and
counts all. -/
theorem parseTarEntries_archive (members : List TarMember) (rest : Bytes) (maxEntries : ℕ)
    {fuel : ℕ} (hfuel : members.length < fuel) :
    parseTarEntries fuel (tarArchive members ++ rest) maxEntries =
      some ⟨(members.map TarMember.summary).take maxEntries, members.length,
        decide (maxEntries < members.length)⟩ := by
  obtain ⟨extra, rfl⟩ := Nat.exists_eq_add_of_le (Nat.succ_le_of_lt hfuel)
  obtain ⟨t, hrun, hentries, htotal⟩ := runTar_members maxEntries members []
    rest (s := ⟨0, [], 0⟩) rfl extra
  dsimp only at hentries htotal
  rw [List.nil_append, List.length_nil, Nat.sub_zero] at hentries
  rw [Nat.zero_add] at htotal
  rw [List.nil_append, ← List.append_assoc] at hrun
  rw [parseTarEntries, tarArchive, hrun, Option.map_some, hentries, htotal, List.length_take,
    List.length_map]
  congr 2
  rw [decide_eq_decide]
  omega

/-- Listing ends and every round moves forward by at least one header exactly if no header that is
reached has a size of -512 or less; and the listing of an archive is exact, given a round for each
member and one for the end. -/
theorem tar_listing (buffer : Bytes) (maxEntries : ℕ) :
    (((∃ fuel listing, parseTarEntries fuel buffer maxEntries = some listing) ∧
        Advances buffer maxEntries ⟨0, [], 0⟩) ↔
      SizesAdvance buffer maxEntries ⟨0, [], 0⟩) ∧
    ∀ (members : List TarMember) (rest : Bytes) (extra : ℕ),
      parseTarEntries (members.length + 1 + extra) (tarArchive members ++ rest) maxEntries =
        some ⟨(members.map TarMember.summary).take maxEntries, members.length,
          decide (maxEntries < members.length)⟩ :=
  ⟨tar_advances_iff buffer maxEntries,
    fun members rest _ => parseTarEntries_archive members rest maxEntries (by omega)⟩

/-- One header block of a member with the name "a" and the size "-1000", which is -512. -/
def negativeSize : Bytes :=
  97 :: (List.replicate 123 0 ++ ([45, 49, 48, 48, 48] ++ List.replicate 383 0))

theorem negativeSize_repeats (maxEntries : ℕ) {s : TarCursor} (hs : s.offset = 0) :
    ∃ s', tarStep negativeSize maxEntries s = some s' ∧ s'.offset = 0 := by
  have hlength : negativeSize.length = 512 := by decide +kernel
  have hzero : (headerAt negativeSize 0).all (fun byte => byte = 0) = false := by decide +kernel
  have hname : nameOf (headerAt negativeSize 0) = ['a'] := by decide +kernel
  have hsize : sizeOf (headerAt negativeSize 0) = -512 := by decide +kernel
  unfold tarStep
  dsimp only
  rw [hs, hlength, if_pos (by decide), hzero, if_neg Bool.false_ne_true, hname,
    if_neg (by decide), hsize]
  refine ⟨_, rfl, ?_⟩
  dsimp only
  decide

/-- The listing reads the same header for ever. -/
theorem negative_size_never_ends :
    ¬ ∀ (buffer : Bytes) (maxEntries : ℕ),
      ∃ fuel listing, parseTarEntries fuel buffer maxEntries = some listing := by
  have hloop : ∀ fuel s, s.offset = 0 → runTar negativeSize 200 fuel s = none := by
    intro fuel
    induction fuel with
    | zero => exact fun _ _ => rfl
    | succ fuel ih =>
      intro s hs
      obtain ⟨s', hstep, hs'⟩ := negativeSize_repeats 200 hs
      rw [runTar, hstep]
      exact ih s' hs'
  intro h
  obtain ⟨fuel, listing, hlisting⟩ := h negativeSize 200
  rw [parseTarEntries, hloop fuel _ rfl] at hlisting
  cases hlisting

end Listing

end Piclaw.Archives
