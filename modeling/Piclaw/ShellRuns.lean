import Piclaw.ShellLines

/-!
# Command results and packet boundaries

What a command's caller is given, for every way in which the bytes arrive. The end marker's line is
taken as soon as it shows a digit, so a chunk that ends between two digits of the exit code decides
a wrong one; no other boundary matters.
-/

namespace Piclaw.RemoteShell

open Utf8Decoding

section Digits

theorem digitChar_ten {d : ℕ} (h : d < 10) :
    (Nat.digitChar d).isDigit = true ∧ (Nat.digitChar d).toNat - 48 = d := by
  interval_cases d <;> exact ⟨rfl, rfl⟩

theorem digitsNumber_reverse {ds : List ℕ} (h : ∀ d ∈ ds, d < 10) :
    digitsNumber (ds.reverse.map Nat.digitChar) = Nat.ofDigits 10 ds := by
  induction ds with
  | nil => rfl
  | cons d ds ih =>
    have hd := (digitChar_ten (h d List.mem_cons_self)).2
    have hds := ih fun e he => h e (List.mem_cons_of_mem _ he)
    unfold digitsNumber at hds ⊢
    rw [List.reverse_cons, List.map_append, List.foldl_append, hds, Nat.ofDigits_cons]
    simp only [List.map_cons, List.map_nil, List.foldl_cons, List.foldl_nil, hd]
    omega

theorem exitDigits_all (n : ℕ) : (exitDigits n).all Char.isDigit = true := by
  unfold exitDigits
  split_ifs with hzero
  · rfl
  · refine List.all_eq_true.mpr fun c hc => ?_
    obtain ⟨d, hd, rfl⟩ := List.mem_map.mp hc
    exact (digitChar_ten (Nat.digits_lt_base (by norm_num) (List.mem_reverse.mp hd))).1

theorem exitDigits_ne_nil (n : ℕ) : exitDigits n ≠ [] := by
  unfold exitDigits
  split_ifs with hzero
  · exact List.cons_ne_nil _ _
  · simpa using Nat.digits_ne_nil_iff_ne_zero.mpr hzero

theorem digitsNumber_exitDigits (n : ℕ) : digitsNumber (exitDigits n) = n := by
  unfold exitDigits
  split_ifs with hzero
  · subst hzero
    rfl
  · rw [digitsNumber_reverse fun d hd => Nat.digits_lt_base (by norm_num) hd, Nat.ofDigits_digits]

/-- The first digits of a number show a smaller one. -/
theorem digitsNumber_take {n m : ℕ} (hpos : 0 < m) (hlt : m < (exitDigits n).length) :
    digitsNumber ((exitDigits n).take m) < n := by
  unfold exitDigits at hlt ⊢
  split_ifs at hlt ⊢ with hzero
  · simp only [List.length_singleton] at hlt
    omega
  · rw [List.length_map, List.length_reverse] at hlt
    have htake : ((Nat.digits 10 n).reverse.map Nat.digitChar).take m =
        (((Nat.digits 10 n).drop ((Nat.digits 10 n).length - m)).reverse.map Nat.digitChar) := by
      rw [← List.map_take, List.take_reverse]
    have hdrop : ∀ d ∈ (Nat.digits 10 n).drop ((Nat.digits 10 n).length - m), d < 10 :=
      fun d hd => Nat.digits_lt_base (by norm_num) (List.mem_of_mem_drop hd)
    rw [htake, digitsNumber_reverse hdrop, ← Nat.self_div_pow_eq_ofDigits_drop _ _ (by norm_num)]
    exact Nat.div_lt_self (by omega) (Nat.one_lt_pow (by omega) (by norm_num))

end Digits

section Markers

variable (unique : Unique)

theorem unique_ascii {c : Char} (h : c ∈ unique.1) : c.toNat < 0x80 ∧ c ≠ '\n' := by
  rcases unique.2 c h with halnum | rfl
  · have hval : c.toNat < 0x80 ∧ 48 ≤ c.toNat := by
      simp only [Char.isAlphanum, Char.isAlpha, Char.isUpper, Char.isLower, Char.isDigit,
        Bool.or_eq_true, Bool.and_eq_true, decide_eq_true_eq, ge_iff_le,
        UInt32.le_iff_toNat_le] at halnum
      have hletters : ('A'.val.toNat, 'Z'.val.toNat, 'a'.val.toNat, 'z'.val.toNat, '0'.val.toNat,
          '9'.val.toNat) = (65, 90, 97, 122, 48, 57) := rfl
      simp only [Prod.mk.injEq] at hletters
      obtain ⟨hA, hZ, ha, hz, h0, h9⟩ := hletters
      change c.val.toNat < 0x80 ∧ 48 ≤ c.val.toNat
      omega
    refine ⟨hval.1, ?_⟩
    rintro rfl
    exact absurd hval.2 (by decide)
  · exact ⟨by decide, by decide⟩

theorem plain_text {t : Text} (h : t.all (fun c => decide (c.toNat < 0x80) && c != '\n') = true)
    {c : Char} (hc : c ∈ t) : c.toNat < 0x80 ∧ c ≠ '\n' := by
  have hplain := List.all_eq_true.mp h c hc
  rwa [Bool.and_eq_true, decide_eq_true_eq, bne_iff_ne] at hplain

theorem startMarker_ascii {c : Char} (h : c ∈ startMarker unique) :
    c.toNat < 0x80 ∧ c ≠ '\n' := by
  unfold startMarker at h
  rw [List.mem_append, List.mem_append] at h
  rcases h with (h | h) | h
  · exact plain_text (by decide) h
  · exact unique_ascii unique h
  · exact plain_text (by decide) h

theorem endMarker_ascii {c : Char} (h : c ∈ endMarker unique) : c.toNat < 0x80 ∧ c ≠ '\n' := by
  unfold endMarker at h
  rw [List.mem_append, List.mem_append] at h
  rcases h with (h | h) | h
  · exact plain_text (by decide) h
  · exact unique_ascii unique h
  · exact plain_text (by decide) h

theorem startMarker_concat : ∃ front, startMarker unique = front ++ ['_'] :=
  ⟨"__PICLAW_SSH_BEGIN_".toList ++ unique.1 ++ ['_'], by
    unfold startMarker
    simp⟩

theorem endMarker_concat : ∃ front, endMarker unique = front ++ ['_'] :=
  ⟨"__PICLAW_SSH_DONE_".toList ++ unique.1 ++ ['_'], by
    unfold endMarker
    simp⟩

theorem endMarker_not_start : ¬ endMarker unique <+: startMarker unique := by
  intro h
  have htake := congrArg (List.take 14) (List.prefix_iff_eq_take.mp h)
  unfold endMarker startMarker at htake
  have hlarge : 14 ≤ ("__PICLAW_SSH_DONE_".toList ++ unique.1 ++ "__".toList).length := by
    simp
  rw [List.take_take, Nat.min_eq_left hlarge] at htake
  simp at htake

end Markers

section Ascii

theorem encodeChar_ascii {c : Char} (h : c.toNat < 0x80) : encodeChar c = [c.toNat] := by
  unfold encodeChar
  rw [if_pos h]

/-- A prefix of the bytes of an ASCII text is the bytes of a prefix. -/
theorem ascii_front {t : Text} (h : ∀ c ∈ t, c.toNat < 0x80) {bytes : Bytes}
    (hbytes : bytes <+: encode t) : ∃ front, front <+: t ∧ bytes = encode front := by
  induction t generalizing bytes with
  | nil => exact ⟨[], List.prefix_refl _, List.prefix_nil.mp hbytes⟩
  | cons c t ih =>
    have hsplit : encode (c :: t) = c.toNat :: encode t := by
      unfold encode
      rw [List.flatMap_cons, encodeChar_ascii (h c List.mem_cons_self)]
      rfl
    rw [hsplit] at hbytes
    rcases List.prefix_cons_iff.mp hbytes with rfl | ⟨rest, rfl, hrest⟩
    · exact ⟨[], List.nil_prefix, rfl⟩
    · obtain ⟨front, hfront, rfl⟩ := ih (fun c hc => h c (List.mem_cons_of_mem _ hc)) hrest
      refine ⟨c :: front, (List.prefix_cons_inj c).mpr hfront, ?_⟩
      unfold encode
      rw [List.flatMap_cons, encodeChar_ascii (h c List.mem_cons_self)]
      rfl

/-- Prefixes of two lists in a row. -/
theorem prefix_append_cases {α : Type} {l a b : List α} (h : l <+: a ++ b) :
    l <+: a ∨ ∃ rest, l = a ++ rest ∧ rest <+: b := by
  by_cases hlength : l.length ≤ a.length
  · exact Or.inl (List.prefix_of_prefix_length_le h (List.prefix_append _ _) hlength)
  · have hpre : a <+: l :=
      List.prefix_of_prefix_length_le (List.prefix_append _ _) h (by omega)
    obtain ⟨rest, rfl⟩ := hpre
    exact Or.inr ⟨rest, rfl, (List.prefix_append_right_inj _).mp h⟩

end Ascii

section Streams

variable {unique : Unique} {earlier : Bytes} {output : Text}

/-- The lines of the earlier bytes, which end with a line feed. -/
def earlierLines (earlier : Bytes) : List Text := (textLines (decode earlier)).dropLast

theorem decode_newline (front rest : Bytes) :
    decode (front ++ 10 :: rest) = decode front ++ '\n' :: decode rest :=
  decode_append front (by omega) rest

theorem textLines_ne_nil (t : Text) : textLines t ≠ [] := List.splitOn_ne_nil _ _

theorem textLines_earlier (h : earlier = [] ∨ earlier.getLast? = some 10) (rest : Bytes) :
    textLines (decode (earlier ++ rest)) = earlierLines earlier ++ textLines (decode rest) := by
  have hnil : textLines [] = [[]] := rfl
  rcases h with rfl | h
  · rfl
  · obtain ⟨front, rfl⟩ := List.getLast?_eq_some_iff.mp h
    unfold earlierLines
    rw [List.append_assoc, List.singleton_append, decode_newline, decode_newline,
      textLines_append, textLines_append, decode_nil, hnil, List.dropLast_concat]

/-- The lines of a beginning of the earlier bytes, its last one apart, are among theirs. -/
theorem dropLast_earlier (h : earlier = [] ∨ earlier.getLast? = some 10) {bytes : Bytes}
    (hbytes : bytes <+: earlier) {l : Text} (hl : l ∈ (textLines (decode bytes)).dropLast) :
    l ∈ earlierLines earlier := by
  by_cases hnewline : 10 ∈ bytes
  · obtain ⟨back, front, hsplit, hback⟩ :=
      List.eq_append_cons_of_mem (List.mem_reverse.mpr hnewline)
    have hbytes' : bytes = front.reverse ++ 10 :: back.reverse := by
      rw [← List.reverse_reverse bytes, hsplit]
      simp
    obtain ⟨rest, hrest⟩ := hbytes
    have hline : '\n' ∉ decode back.reverse := fun hmem =>
      hback (List.mem_reverse.mp (newline_mem_decodeFrom hmem))
    rw [hbytes', decode_newline, textLines_append, textLines_line hline, List.dropLast_concat] at hl
    have hall := textLines_earlier h []
    rw [List.append_nil, ← hrest, hbytes', List.append_assoc, List.cons_append, decode_newline,
      textLines_append] at hall
    have hempty : textLines (decode []) = [[]] := rfl
    rw [hempty] at hall
    have hdrop := congrArg List.dropLast hall
    rw [List.dropLast_concat, List.dropLast_append_of_ne_nil (textLines_ne_nil _)] at hdrop
    rw [← hrest, hbytes', List.append_assoc, List.cons_append, ← hdrop]
    exact List.mem_append_left _ hl
  · have hline : '\n' ∉ decode bytes := fun hmem => hnewline (newline_mem_decodeFrom hmem)
    rw [textLines_line hline] at hl
    exact absurd hl List.not_mem_nil

theorem startMarker_line : '\n' ∉ startMarker unique :=
  fun h => (startMarker_ascii unique h).2 rfl

theorem endMarker_line : '\n' ∉ endMarker unique :=
  fun h => (endMarker_ascii unique h).2 rfl

theorem textLines_start (rest : Bytes) :
    textLines (decode (encode (startMarker unique) ++ 10 :: rest)) =
      startMarker unique :: textLines (decode rest) := by
  obtain ⟨front, hfront⟩ := startMarker_concat unique
  have hdrop : dropReturn (startMarker unique) = startMarker unique := by
    rw [hfront]
    exact dropReturn_concat front (by decide)
  rw [decode_newline, decode_encode, textLines_append, closedLines_line startMarker_line, hdrop]
  rfl

theorem textLines_output (rest : Bytes) :
    textLines (decode (encode output ++ 10 :: rest)) =
      closedLines output ++ textLines (decode rest) := by
  rw [decode_newline, decode_encode, textLines_append]

theorem endCode_replacement {front l : Text} (hfront : ¬ endMarker unique <:+: front)
    (hl : l <:+: front ++ [replacement]) : endCode (endMarker unique) l = none := by
  refine endCode_of_not_within fun hwithin => ?_
  rcases List.infix_concat_iff.mp (hwithin.trans hl) with hsuffix | hwithin
  · obtain ⟨marker, hmarker⟩ := endMarker_concat unique
    rw [hmarker] at hsuffix
    have hlast : (marker ++ ['_']).getLast? = (front ++ [replacement]).getLast? := by
      obtain ⟨more, hmore⟩ := hsuffix
      rw [← hmore, ← List.append_assoc, List.getLast?_concat, List.getLast?_concat]
    rw [List.getLast?_concat, List.getLast?_concat] at hlast
    exact absurd (Option.some.inj hlast) (by decide)
  · exact hfront hwithin

/-- No part of the output shows an end line. -/
theorem output_quiet (houtput : ¬ endMarker unique <:+: output) {bytes : Bytes}
    (h : bytes <+: encode output) :
    ∀ l ∈ textLines (decode bytes), endCode (endMarker unique) l = none := by
  intro l hl
  obtain ⟨front, hfront, hdecode⟩ := decode_front h
  have hclean : ¬ endMarker unique <:+: front := fun hwithin =>
    houtput (hwithin.trans hfront.isInfix)
  rcases hdecode with hdecode | hdecode
  · rw [hdecode] at hl
    exact endCode_of_not_within fun hwithin => hclean (hwithin.trans (textLines_within hl))
  · rw [hdecode] at hl
    exact endCode_replacement hclean (textLines_within hl)

/-- What the start marker begins with is no end line. -/
theorem start_quiet {l : List Char} (h : l <+: startMarker unique) :
    endCode (endMarker unique) l = none := by
  cases hcode : endCode (endMarker unique) l with
  | none => rfl
  | some code =>
    exact absurd (((List.prefix_append _ _).trans (endCode_starts hcode)).trans h)
      (endMarker_not_start unique)

theorem closed_quiet (houtput : ¬ endMarker unique <:+: output) :
    ∀ l ∈ closedLines output, endCode (endMarker unique) l = none := fun _ hl =>
  endCode_of_not_within fun hwithin => houtput (hwithin.trans (closedLines_within hl))

theorem colon_ascii {c : Char} (h : c ∈ endMarker unique ++ [':']) : c.toNat < 0x80 := by
  rcases List.mem_append.mp h with h | h
  · exact (endMarker_ascii unique h).1
  · rw [List.mem_singleton.mp h]
    decide

/-- Before the digits of the exit code no line of the command's own output is an end line. -/
theorem command_quiet (houtput : ¬ endMarker unique <:+: output) {bytes : Bytes}
    (h : bytes <+: encode (startMarker unique) ++ 10 :: (encode output ++
      10 :: encode (endMarker unique ++ [':']))) :
    ∀ l ∈ textLines (decode bytes), endCode (endMarker unique) l = none := by
  have hstart : endCode (endMarker unique) (startMarker unique) = none :=
    start_quiet List.prefix_rfl
  have hcons : ∀ {a : Bytes} {b rest : Bytes}, rest <+: 10 :: b → a ++ rest = a ∨
      ∃ more, a ++ rest = a ++ 10 :: more ∧ more <+: b := by
    intro a b rest hrest
    rcases List.prefix_cons_iff.mp hrest with rfl | ⟨more, rfl, hmore⟩
    · exact Or.inl (List.append_nil a)
    · exact Or.inr ⟨more, rfl, hmore⟩
  have hfirst : ∀ bytes, bytes <+: encode (startMarker unique) →
      ∀ l ∈ textLines (decode bytes), endCode (endMarker unique) l = none := by
    intro bytes hbytes l hl
    obtain ⟨front, hfront, rfl⟩ :=
      ascii_front (fun c hc => (startMarker_ascii unique hc).1) hbytes
    have hline : '\n' ∉ front := fun hmem => startMarker_line (hfront.subset hmem)
    rw [decode_encode, textLines_line hline, List.mem_singleton] at hl
    subst hl
    exact start_quiet hfront
  have hlast : ∀ bytes, bytes <+: encode (endMarker unique ++ [':']) →
      ∀ l ∈ textLines (decode bytes), endCode (endMarker unique) l = none := by
    intro bytes hbytes l hl
    obtain ⟨front, hfront, rfl⟩ := ascii_front (fun c hc => colon_ascii hc) hbytes
    have hline : '\n' ∉ front := by
      intro hmem
      rcases List.mem_append.mp (hfront.subset hmem) with h | h
      · exact endMarker_line h
      · exact absurd (List.mem_singleton.mp h) (by decide)
    rw [decode_encode, textLines_line hline, List.mem_singleton] at hl
    subst hl
    refine endCode_short ?_
    have hle := hfront.length_le
    rw [List.length_append, List.length_singleton] at hle
    exact hle
  intro l hl
  rcases prefix_append_cases h with hbytes | ⟨rest, rfl, hrest⟩
  · exact hfirst bytes hbytes l hl
  rcases hcons (a := encode (startMarker unique)) hrest with heq | ⟨more, heq, hmore⟩
  · rw [heq] at hl
    exact hfirst _ (List.prefix_refl _) l hl
  rw [heq, textLines_start] at hl
  rcases List.mem_cons.mp hl with rfl | hl
  · exact hstart
  rcases prefix_append_cases hmore with hbytes | ⟨rest', rfl, hrest'⟩
  · exact output_quiet houtput hbytes l hl
  rcases hcons (a := encode output) hrest' with heq | ⟨last, heq, hlastbytes⟩
  · rw [heq] at hl
    exact output_quiet houtput (List.prefix_refl _) l hl
  rw [heq, textLines_output] at hl
  rcases List.mem_append.mp hl with hl | hl
  · exact closed_quiet houtput l hl
  · exact hlast last hlastbytes l hl

/-- The line that shows these digits of the exit code. -/
theorem textLines_code {digits : Text} (hdigits : digits.all Char.isDigit = true)
    {rest : Bytes} (hrest : rest = [] ∨ rest = [10]) :
    ∃ more, textLines (decode (encode (endMarker unique ++ [':']) ++ (encode digits ++ rest))) =
      (endMarker unique ++ ':' :: digits) :: more := by
  have hline : '\n' ∉ endMarker unique ++ ':' :: digits := by
    intro hmem
    rcases List.mem_append.mp hmem with h | h
    · exact endMarker_line h
    · rcases List.mem_cons.mp h with heq | h
      · cases heq
      · exact absurd (List.all_eq_true.mp hdigits _ h) (by decide)
  have hbytes : encode (endMarker unique ++ [':']) ++ (encode digits ++ rest) =
      encode (endMarker unique ++ ':' :: digits) ++ rest := by
    unfold encode
    simp
  rw [hbytes]
  rcases hrest with rfl | rfl
  · rw [List.append_nil, decode_encode, textLines_line hline]
    exact ⟨[], rfl⟩
  · have hreturn : dropReturn (endMarker unique ++ ':' :: digits) =
        endMarker unique ++ ':' :: digits := by
      rcases List.eq_nil_or_concat digits with rfl | ⟨front, d, rfl⟩
      · exact dropReturn_concat _ (by decide)
      · have hd : d ≠ '\r' := by
          rintro rfl
          exact absurd (List.all_eq_true.mp hdigits '\r' (by simp)) (by decide)
        have hassoc : endMarker unique ++ ':' :: (front ++ [d]) =
            (endMarker unique ++ ':' :: front) ++ [d] := by simp
        rw [List.concat_eq_append, hassoc]
        exact dropReturn_concat _ hd
    rw [decode_newline, decode_encode, textLines_append, closedLines_line hline, hreturn]
    exact ⟨_, rfl⟩

/-- The bytes that the search finds the command's result in. -/
theorem parse_code (h : earlier = [] ∨ earlier.getLast? = some 10)
    (hearlier : ∀ l ∈ earlierLines earlier, endCode (endMarker unique) l = none)
    (hstart : ¬ startMarker unique <:+: output) (houtput : ¬ endMarker unique <:+: output)
    {digits : Text} (hne : digits ≠ []) (hdigits : digits.all Char.isDigit = true)
    {rest : Bytes} (hrest : rest = [] ∨ rest = [10]) :
    parseDelimitedShellOutput
        (decode (earlier ++ (commandBytes unique output ++ (encode digits ++ rest))))
        (startMarker unique) (endMarker unique) =
      some (normalise (output ++ ['\n']), (digitsNumber digits : ℤ)) := by
  obtain ⟨more, hcode⟩ := @textLines_code unique digits hdigits rest hrest
  have hlines : textLines (decode (earlier ++ (commandBytes unique output ++
      (encode digits ++ rest)))) = (earlierLines earlier ++ startMarker unique ::
        closedLines output) ++ (endMarker unique ++ ':' :: digits) :: more := by
    unfold commandBytes
    rw [textLines_earlier h, List.append_assoc, List.cons_append, textLines_start,
      List.append_assoc, List.cons_append, textLines_output, hcode]
    simp
  have hself : endCode (endMarker unique) (startMarker unique) = none :=
    start_quiet List.prefix_rfl
  have hquiet : ∀ l ∈ earlierLines earlier ++ startMarker unique :: closedLines output,
      endCode (endMarker unique) l = none := by
    intro l hl
    rcases List.mem_append.mp hl with hl | hl
    · exact hearlier l hl
    · rcases List.mem_cons.mp hl with rfl | hl
      · exact hself
      · exact closed_quiet houtput l hl
  have hclosed : startMarker unique ∉ closedLines output := fun hmem =>
    hstart (closedLines_within hmem)
  have henter : enterLine (startMarker unique)
      ((earlierLines earlier).foldl (enterLine (startMarker unique)) none) (startMarker unique) =
        some [] := by
    unfold enterLine
    rw [if_pos rfl]
  change scanLines _ _ none (textLines _) = _
  rw [hlines, scanLines_append hquiet, List.foldl_append, List.foldl_cons, henter,
    foldl_enterLine hclosed, scanLines, endCode_digits hne hdigits, normalise_closed]
  rfl

/-- Nothing is found before a digit of the exit code has arrived. -/
theorem parse_before (h : earlier = [] ∨ earlier.getLast? = some 10)
    (hearlier : ∀ l ∈ earlierLines earlier, endCode (endMarker unique) l = none)
    (hopen : ∀ bytes, bytes <+: earlier → parseDelimitedShellOutput (decode bytes)
      (startMarker unique) (endMarker unique) = none)
    (houtput : ¬ endMarker unique <:+: output) {bytes : Bytes}
    (hbytes : bytes <+: earlier ++ commandBytes unique output) :
    parseDelimitedShellOutput (decode bytes) (startMarker unique) (endMarker unique) = none := by
  rcases prefix_append_cases hbytes with hbytes | ⟨rest, rfl, hrest⟩
  · exact hopen bytes hbytes
  · change scanLines _ _ none (textLines _) = none
    rw [textLines_earlier h]
    refine scanLines_quiet (fun l hl => ?_) none
    rcases List.mem_append.mp hl with hl | hl
    · exact hearlier l hl
    · exact command_quiet houtput hrest l hl

/-- An end line in front of every start line hides the command's result. -/
theorem parse_hidden (h : earlier = [] ∨ earlier.getLast? = some 10)
    (hstart : startMarker unique ∉ earlierLines earlier) {l : Text}
    (hl : l ∈ earlierLines earlier) {code : ℤ} (hcode : endCode (endMarker unique) l = some code)
    (rest : Bytes) :
    parseDelimitedShellOutput (decode (earlier ++ rest)) (startMarker unique)
      (endMarker unique) = none := by
  change scanLines _ _ none (textLines _) = none
  rw [textLines_earlier h]
  generalize earlierLines earlier = lines at hstart hl
  induction lines with
  | nil => cases hl
  | cons first lines ih =>
    rw [List.mem_cons, not_or] at hstart
    rw [List.cons_append, scanLines]
    cases hfirst : endCode (endMarker unique) first with
    | some code' => rfl
    | none =>
      have henter : enterLine (startMarker unique) none first = none := by
        unfold enterLine
        rw [if_neg fun heq => hstart.1 heq.symm]
        rfl
      change scanLines _ _ (enterLine (startMarker unique) none first) _ = none
      rw [henter]
      rcases List.mem_cons.mp hl with rfl | hl
      · rw [hfirst] at hcode
        cases hcode
      · exact ih hstart.2 hl

theorem parse_open (h : earlier = [] ∨ earlier.getLast? = some 10)
    (hstart : startMarker unique ∉ earlierLines earlier) {bytes : Bytes}
    (hbytes : bytes <+: earlier) :
    parseDelimitedShellOutput (decode bytes) (startMarker unique) (endMarker unique) = none :=
  scanLines_blind fun hmem => hstart (dropLast_earlier h hbytes hmem)

end Streams

section Runs

variable {unique : Unique}

/-- What the first chunk that completes the command gives. -/
def completion (unique : Unique) : Bytes → List Event → Option (Text × ℤ)
  | _, [] => none
  | bytes, .stdout chunk :: events =>
    match parseDelimitedShellOutput (decode (bytes ++ chunk)) (startMarker unique)
        (endMarker unique) with
    | some result => some result
    | none => completion unique (bytes ++ chunk) events
  | bytes, .stderr _ :: events => completion unique bytes events

theorem foldl_idle {shell : Shell} (h : shell.running = none) (events : List Event) :
    events.foldl handle shell = shell := by
  induction events with
  | nil => rfl
  | cons event events ih =>
    have hstep : handle shell event = shell := by
      cases event with
      | stdout chunk =>
        change handleStdout chunk shell = shell
        unfold handleStdout
        rw [h]
      | stderr chunk =>
        change handleStderr chunk shell = shell
        unfold handleStderr
        rw [h]
    rw [List.foldl_cons, hstep, ih]

/-- A run is decided by its completion. -/
theorem foldl_completion (events : List Event) (stdout stderr : List Bytes) :
    ((events.foldl handle ⟨some ⟨startMarker unique, endMarker unique, stdout, stderr, false,
        false⟩, [], [], none⟩).outcome =
      (completion unique stdout.flatten events).map fun result => .resolved result.2) ∧
    ((events.foldl handle ⟨some ⟨startMarker unique, endMarker unique, stdout, stderr, false,
        false⟩, [], [], none⟩).stdoutData.flatten =
      ((completion unique stdout.flatten events).map fun result => result.1).getD []) := by
  induction events generalizing stdout stderr with
  | nil => exact ⟨rfl, rfl⟩
  | cons event events ih =>
    cases event with
    | stdout chunk =>
      rw [List.foldl_cons, completion]
      have hflatten : (stdout ++ [chunk]).flatten = stdout.flatten ++ chunk := by simp
      cases hparse : parseDelimitedShellOutput (decode (stdout.flatten ++ chunk))
          (startMarker unique) (endMarker unique) with
      | none =>
        have hstep : handle ⟨some ⟨startMarker unique, endMarker unique, stdout, stderr, false,
            false⟩, [], [], none⟩ (.stdout chunk) =
            ⟨some ⟨startMarker unique, endMarker unique, stdout ++ [chunk], stderr, false,
              false⟩, [], [], none⟩ := by
          simp only [handle, handleStdout, tryCompleteRunning, hflatten, hparse]
        rw [hstep, ← hflatten]
        exact ih (stdout ++ [chunk]) stderr
      | some result =>
        obtain ⟨text, code⟩ := result
        have hidle : (handle ⟨some ⟨startMarker unique, endMarker unique, stdout, stderr, false,
            false⟩, [], [], none⟩ (.stdout chunk)).running = none := by
          simp only [handle, handleStdout, tryCompleteRunning, hflatten, hparse]
        rw [foldl_idle hidle]
        simp only [handle, handleStdout, tryCompleteRunning, hflatten, hparse]
        refine ⟨rfl, ?_⟩
        split_ifs with hnil
        · rw [hnil]
          rfl
        · simp
    | stderr chunk =>
      rw [List.foldl_cons, completion]
      exact ih stdout (stderr ++ [chunk])

/-- The first boundary beyond a length decides, when nothing is found up to that length. -/
theorem completion_first {bytes : Bytes} {events : List Event} {n : ℕ}
    (hquiet : ∀ front, front <+: bytes ++ stdoutBytes events → front.length ≤ n →
      parseDelimitedShellOutput (decode front) (startMarker unique) (endMarker unique) = none)
    (hloud : ∀ front, front <+: bytes ++ stdoutBytes events → n < front.length →
      (parseDelimitedShellOutput (decode front) (startMarker unique)
        (endMarker unique)).isSome)
    (hshort : bytes.length ≤ n) (hlong : n < (bytes ++ stdoutBytes events).length) :
    ∃ front, front <+: events ∧ n < (bytes ++ stdoutBytes front).length ∧
      (∀ other, other <+: events → n < (bytes ++ stdoutBytes other).length →
        (bytes ++ stdoutBytes front).length ≤ (bytes ++ stdoutBytes other).length) ∧
      completion unique bytes events = parseDelimitedShellOutput
        (decode (bytes ++ stdoutBytes front)) (startMarker unique) (endMarker unique) := by
  induction events generalizing bytes with
  | nil =>
    rw [stdoutBytes, List.append_nil] at hlong
    omega
  | cons event events ih =>
    cases event with
    | stdout chunk =>
      have hassoc : bytes ++ stdoutBytes (.stdout chunk :: events) =
          bytes ++ chunk ++ stdoutBytes events := by
        rw [stdoutBytes, List.append_assoc]
      have hpre : bytes ++ chunk <+: bytes ++ stdoutBytes (.stdout chunk :: events) := by
        rw [hassoc]
        exact List.prefix_append _ _
      by_cases hlength : (bytes ++ chunk).length ≤ n
      · have hnone := hquiet _ hpre hlength
        rw [hassoc] at hquiet hloud hlong
        obtain ⟨front, hfront, hlt, hleast, hresult⟩ := ih hquiet hloud hlength hlong
        refine ⟨.stdout chunk :: front, (List.prefix_cons_inj _).mpr hfront, ?_, ?_, ?_⟩
        · rw [stdoutBytes, ← List.append_assoc]
          exact hlt
        · intro other hother hother_lt
          rcases List.prefix_cons_iff.mp hother with rfl | ⟨rest, rfl, hrest⟩
          · rw [stdoutBytes, List.append_nil] at hother_lt
            omega
          · rw [stdoutBytes, ← List.append_assoc] at hother_lt
            rw [stdoutBytes, stdoutBytes, ← List.append_assoc, ← List.append_assoc]
            exact hleast rest hrest hother_lt
        · rw [completion, hnone, stdoutBytes, ← List.append_assoc]
          exact hresult
      · obtain ⟨result, hresult⟩ := Option.isSome_iff_exists.mp (hloud _ hpre (by omega))
        have hone : stdoutBytes [Event.stdout chunk] = chunk := by
          rw [stdoutBytes, stdoutBytes, List.append_nil]
        refine ⟨[.stdout chunk], ⟨events, rfl⟩, by rw [hone]; omega, ?_, ?_⟩
        · intro other hother hother_lt
          rw [hone]
          rcases List.prefix_cons_iff.mp hother with rfl | ⟨rest, rfl, hrest⟩
          · rw [stdoutBytes, List.append_nil] at hother_lt
            omega
          · rw [stdoutBytes, ← List.append_assoc]
            exact (List.prefix_append (bytes ++ chunk) (stdoutBytes rest)).length_le
        · rw [completion, hresult, hone, hresult]
    | stderr chunk =>
      have hsame : ∀ events, stdoutBytes (.stderr chunk :: events) = stdoutBytes events :=
        fun _ => rfl
      rw [hsame] at hquiet hloud hlong
      obtain ⟨front, hfront, hlt, hleast, hresult⟩ := ih hquiet hloud hshort hlong
      refine ⟨.stderr chunk :: front, (List.prefix_cons_inj _).mpr hfront, hlt, ?_, ?_⟩
      · intro other hother hother_lt
        rw [hsame]
        rcases List.prefix_cons_iff.mp hother with rfl | ⟨rest, rfl, hrest⟩
        · rw [stdoutBytes, List.append_nil] at hother_lt
          omega
        · exact hleast rest hrest hother_lt
      · rw [completion, hsame]
        exact hresult

/-- What is never found is never given. -/
theorem completion_none {bytes : Bytes} {events : List Event}
    (h : ∀ front, front <+: bytes ++ stdoutBytes events →
      parseDelimitedShellOutput (decode front) (startMarker unique) (endMarker unique) = none) :
    completion unique bytes events = none := by
  induction events generalizing bytes with
  | nil => rfl
  | cons event events ih =>
    cases event with
    | stdout chunk =>
      have hassoc : bytes ++ stdoutBytes (.stdout chunk :: events) =
          bytes ++ chunk ++ stdoutBytes events := by
        rw [stdoutBytes, List.append_assoc]
      rw [hassoc] at h
      rw [completion, h _ (List.prefix_append _ _)]
      exact ih h
    | stderr chunk =>
      rw [completion]
      exact ih h

end Runs

section Results

variable {unique : Unique} {earlier : Bytes} {output : Text} {n : ℕ}

theorem encode_digits_length {digits : Text} (h : digits.all Char.isDigit = true) :
    (encode digits).length = digits.length ∧ ∀ c ∈ digits, c.toNat < 0x80 := by
  have hascii : ∀ c ∈ digits, c.toNat < 0x80 := by
    intro c hc
    have hdigit := List.all_eq_true.mp h c hc
    simp only [Char.isDigit, Bool.and_eq_true, decide_eq_true_eq, ge_iff_le,
      UInt32.le_iff_toNat_le] at hdigit
    have hnine : '9'.val.toNat = 57 := rfl
    change c.val.toNat < 0x80
    omega
  refine ⟨?_, hascii⟩
  unfold encode
  rw [List.length_flatMap, List.map_congr_left fun c hc => by
    rw [encodeChar_ascii (hascii c hc), List.length_singleton]]
  simp

/-- Some digits of the exit code have arrived. -/
theorem parse_after (h : earlier = [] ∨ earlier.getLast? = some 10)
    (hearlier : ∀ l ∈ earlierLines earlier, endCode (endMarker unique) l = none)
    (hstart : ¬ startMarker unique <:+: output) (houtput : ¬ endMarker unique <:+: output)
    {front : Bytes} (hfront : front <+: printed unique earlier output n)
    (hlong : (earlier ++ commandBytes unique output).length < front.length) :
    ∃ m, 0 < m ∧ parseDelimitedShellOutput (decode front) (startMarker unique) (endMarker unique) =
        some (normalise (output ++ ['\n']), (digitsNumber ((exitDigits n).take m) : ℤ)) ∧
      (front.length < (earlier ++ commandBytes unique output).length + (exitDigits n).length →
        m < (exitDigits n).length) ∧
      ((earlier ++ commandBytes unique output).length + (exitDigits n).length ≤ front.length →
        m = (exitDigits n).length) := by
  have hall := exitDigits_all n
  obtain ⟨hsize, hascii⟩ := encode_digits_length hall
  have hprinted : printed unique earlier output n =
      (earlier ++ commandBytes unique output) ++ (encode (exitDigits n) ++ [10]) := by
    unfold printed
    rw [List.append_assoc]
  rw [hprinted] at hfront
  rcases prefix_append_cases hfront with hshort | ⟨rest, rfl, hrest⟩
  · have hle := hshort.length_le
    omega
  rw [List.length_append] at hlong ⊢
  have hparse : ∀ digits tail, digits ≠ [] → digits.all Char.isDigit = true →
      tail = [] ∨ tail = [10] → parseDelimitedShellOutput
        (decode ((earlier ++ commandBytes unique output) ++ (encode digits ++ tail)))
        (startMarker unique) (endMarker unique) =
      some (normalise (output ++ ['\n']), (digitsNumber digits : ℤ)) := by
    intro digits tail hne hdigits htail
    rw [List.append_assoc]
    exact parse_code h hearlier hstart houtput hne hdigits htail
  have hwhole : (exitDigits n).take (exitDigits n).length = exitDigits n := List.take_length
  have hpos : 0 < (exitDigits n).length := List.length_pos_of_ne_nil (exitDigits_ne_nil n)
  rcases prefix_append_cases hrest with hdigits | ⟨tail, rfl, htail⟩
  · obtain ⟨digits, hshown, rfl⟩ := ascii_front hascii hdigits
    have htake := List.prefix_iff_eq_take.mp hshown
    have hdigit : digits.all Char.isDigit = true :=
      List.all_eq_true.mpr fun c hc => List.all_eq_true.mp hall c (hshown.subset hc)
    have hlength := (encode_digits_length hdigit).1
    have hle := hshown.length_le
    have hne : digits ≠ [] := by
      rintro rfl
      simp [encode] at hlong
    have hresult := hparse digits [] hne hdigit (Or.inl rfl)
    rw [List.append_nil] at hresult
    exact ⟨digits.length, List.length_pos_of_ne_nil hne, by rw [hresult, ← htake], by omega,
      by omega⟩
  · refine ⟨(exitDigits n).length, hpos, ?_, ?_, fun _ => rfl⟩
    · rw [hwhole]
      refine hparse _ tail (exitDigits_ne_nil n) hall ?_
      rcases List.prefix_cons_iff.mp htail with hnil | ⟨more, rfl, hmore⟩
      · exact Or.inl hnil
      · exact Or.inr (by rw [List.prefix_nil.mp hmore])
    · intro hlt
      simp only [List.length_append, hsize] at hlt
      omega

/-- A chunk ends between two digits of the exit code. -/
def Cut (unique : Unique) (earlier : Bytes) (output : Text) (n : ℕ) (events : List Event) : Prop :=
  ∃ front, front <+: events ∧
    (earlier ++ commandBytes unique output).length < (stdoutBytes front).length ∧
    (stdoutBytes front).length <
      (earlier ++ commandBytes unique output).length + (exitDigits n).length

/-- The command is resolved with its exit code and its output has been passed on. -/
def Answered (unique : Unique) (output : Text) (n : ℕ) (events : List Event) : Prop :=
  (events.foldl handle (execOne unique)).outcome = some (.resolved n) ∧
    (events.foldl handle (execOne unique)).stdoutData.flatten = normalise (output ++ ['\n'])

/-- The answer, when nothing is found in the earlier bytes. -/
theorem answered_iff_not_cut (h : earlier = [] ∨ earlier.getLast? = some 10)
    (hearlier : ∀ l ∈ earlierLines earlier, endCode (endMarker unique) l = none)
    (hopen : ∀ bytes, bytes <+: earlier → parseDelimitedShellOutput (decode bytes)
      (startMarker unique) (endMarker unique) = none)
    (hstart : ¬ startMarker unique <:+: output) (houtput : ¬ endMarker unique <:+: output)
    {events : List Event} (hstream : stdoutBytes events = printed unique earlier output n) :
    Answered unique output n events ↔ ¬ Cut unique earlier output n events := by
  have hprinted : printed unique earlier output n =
      (earlier ++ commandBytes unique output) ++ (encode (exitDigits n) ++ [10]) := by
    unfold printed
    rw [List.append_assoc]
  obtain ⟨front, hfront, hlt, hleast, hresult⟩ := @completion_first unique [] events
    (earlier ++ commandBytes unique output).length
    (fun bytes hbytes hle => by
      rw [List.nil_append, hstream, hprinted] at hbytes
      exact parse_before h hearlier hopen houtput
        (List.prefix_of_prefix_length_le hbytes (List.prefix_append _ _) hle))
    (fun bytes hbytes hlt => by
      rw [List.nil_append, hstream] at hbytes
      obtain ⟨m, -, hparse, -⟩ := parse_after h hearlier hstart houtput hbytes hlt
      rw [hparse]
      rfl)
    (Nat.zero_le _)
    (by
      rw [List.nil_append, hstream, hprinted, List.length_append]
      simp)
  simp only [List.nil_append] at hlt hleast hresult
  have hbytes : stdoutBytes front <+: printed unique earlier output n := by
    have hmono : ∀ {a b : List Event}, stdoutBytes (a ++ b) = stdoutBytes a ++ stdoutBytes b := by
      intro a b
      induction a with
      | nil => rfl
      | cons event a ih =>
        cases event with
        | stdout chunk => rw [List.cons_append, stdoutBytes, stdoutBytes, ih, List.append_assoc]
        | stderr chunk => rw [List.cons_append, stdoutBytes, stdoutBytes, ih]
    obtain ⟨rest, rfl⟩ := hfront
    rw [← hstream, hmono]
    exact List.prefix_append _ _
  obtain ⟨m, hpos, hparse, hless, hfull⟩ := parse_after h hearlier hstart houtput hbytes hlt
  rw [hparse] at hresult
  have hrun := @foldl_completion unique events [] []
  rw [List.flatten_nil, hresult] at hrun
  have hanswer : Answered unique output n events ↔
      digitsNumber ((exitDigits n).take m) = n := by
    unfold Answered execOne
    rw [hrun.1, hrun.2]
    simp
  rw [hanswer]
  constructor
  · rintro hvalue ⟨other, hother, hother_lt, hother_le⟩
    have hle := hleast other hother hother_lt
    have hsmall := digitsNumber_take hpos (hless (by omega))
    omega
  · intro hcut
    have hend : (earlier ++ commandBytes unique output).length + (exitDigits n).length ≤
        (stdoutBytes front).length := by
      by_contra hshort
      exact hcut ⟨front, hfront, hlt, by omega⟩
    rw [hfull hend, List.take_length, digitsNumber_exitDigits]

end Results

def sampleUnique : Unique := ⟨['1', '7', '_', 'a'], by simp [Char.isAlphanum, Char.isAlpha, Char.isDigit]⟩

end Piclaw.RemoteShell
