import Piclaw.AddressFilters

/-!
# Reading an address's text

What a text that is read as eight groups, or as four octets, looks like: its characters, its first
piece, and the numbers that the two filters read from it.
-/

namespace Piclaw.AddressFilters

section Digits

theorem digitValue_lower {c : Char} {d : ℕ} (h : digitValue c = some d) :
    d < 16 ∧ c.toLower = Nat.digitChar d ∧ isTrimmed c = false ∧ (d < 10 → c.toLower = c) := by
  have hc : c = Char.ofNat c.toNat := (Char.ofNat_toNat c).symm
  unfold digitValue at h
  simp only [Char.reduceToNat] at h
  generalize c.toNat = n at h hc
  split_ifs at h with h1 h2 h3
  · obtain ⟨hlow, hhigh⟩ := h1
    interval_cases n <;> cases h <;> subst hc <;> decide
  · obtain ⟨hlow, hhigh⟩ := h2
    interval_cases n <;> cases h <;> subst hc <;> decide
  · obtain ⟨hlow, hhigh⟩ := h3
    interval_cases n <;> cases h <;> subst hc <;> decide

theorem digitValue_digitChar {d : ℕ} (h : d < 16) : digitValue (Nat.digitChar d) = some d := by
  interval_cases d <;> rfl

theorem exists_digitValue {radix : ℕ} {c : Char} (h : isDigitOf radix c = true) :
    ∃ d, digitValue c = some d ∧ d < radix := by
  obtain ⟨d, hd, hlt⟩ := (Option.any_eq_true _ _).mp h
  exact ⟨d, hd, of_decide_eq_true hlt⟩

theorem isDigitOf_sixteen {radix : ℕ} {c : Char} (h : isDigitOf radix c = true) :
    isDigitOf 16 c = true := by
  obtain ⟨d, hd, -⟩ := exists_digitValue h
  unfold isDigitOf
  rw [hd, Option.any_some, decide_eq_true_eq]
  exact (digitValue_lower hd).1

theorem isDigitOf_ne {radix : ℕ} {c x : Char} (h : isDigitOf radix c = true)
    (hx : digitValue x = none) : c ≠ x := by
  rintro rfl
  obtain ⟨d, hd, -⟩ := exists_digitValue h
  rw [hx] at hd
  cases hd

theorem not_mem_digits {radix : ℕ} {cs : List Char} (h : cs.all (isDigitOf radix) = true)
    {x : Char} (hx : digitValue x = none) : x ∉ cs :=
  fun hmem => isDigitOf_ne (List.all_eq_true.mp h x hmem) hx rfl

theorem digitValue_toLower {c : Char} (h : isDigitOf 16 c = true) :
    digitValue c.toLower = digitValue c := by
  obtain ⟨d, hd, -⟩ := exists_digitValue h
  obtain ⟨hlt, hlower, -, -⟩ := digitValue_lower hd
  rw [hlower, digitValue_digitChar hlt, hd]

theorem lower_digits {cs : List Char} (h : cs.all (isDigitOf 16) = true) :
    (lower cs).all (isDigitOf 16) = true := by
  unfold lower
  rw [List.all_map]
  refine List.all_eq_true.mpr fun c hc => ?_
  have hdigit := List.all_eq_true.mp h c hc
  rw [Function.comp_apply, isDigitOf, digitValue_toLower hdigit]
  exact hdigit

theorem digitsValue_lower {cs : List Char} (h : cs.all (isDigitOf 16) = true) :
    digitsValue 16 (lower cs) = digitsValue 16 cs := by
  unfold digitsValue lower
  rw [List.foldl_map]
  refine List.foldl_ext _ _ _ fun v c hc => ?_
  rw [digitValue_toLower (List.all_eq_true.mp h c hc)]

/-- Digits alone are read whole. -/
theorem parseInt_digits {radix : ℕ} {cs : List Char} (hne : cs ≠ [])
    (h : cs.all (isDigitOf radix) = true) : parseInt radix cs = some (digitsValue radix cs : ℤ) := by
  obtain ⟨c, rest, rfl⟩ := List.exists_cons_of_ne_nil hne
  have hdigit := List.all_eq_true.mp h
  have hhead := hdigit c List.mem_cons_self
  have htrim : isTrimmed c = false := by
    obtain ⟨d, hd, -⟩ := exists_digitValue hhead
    exact (digitValue_lower hd).2.2.1
  have hunsigned : unsigned radix (c :: rest) = some (digitsValue radix (c :: rest)) := by
    have htake : (c :: rest).takeWhile (isDigitOf radix) = c :: rest :=
      List.takeWhile_eq_self_iff.mpr hdigit
    unfold unsigned
    simp only
    split
    · rename_i heq
      cases heq
      exact absurd rfl (isDigitOf_ne (hdigit 'x' (by simp)) rfl)
    · rename_i heq
      cases heq
      exact absurd rfl (isDigitOf_ne (hdigit 'X' (by simp)) rfl)
    · rw [htake, if_neg hne]
  unfold parseInt
  rw [List.dropWhile_cons_of_neg (by rw [htrim]; exact Bool.false_ne_true)]
  split
  · rename_i heq
    cases heq
    exact absurd rfl (isDigitOf_ne hhead rfl)
  · rename_i heq
    cases heq
    exact absurd rfl (isDigitOf_ne hhead rfl)
  · rw [hunsigned]
    rfl

end Digits

section Octets

theorem isOctet_spec {cs : List Char} (h : isOctet cs = true) :
    cs ≠ [] ∧ cs.all (isDigitOf 10) = true ∧ digitsValue 10 cs ≤ 255 := by
  unfold isOctet at h
  simp only [Bool.and_eq_true, decide_eq_true_eq, Bool.not_eq_true'] at h
  exact ⟨fun hnil => by rw [hnil] at h; exact absurd h.1.1.1 (by decide), h.1.1.2, h.1.2⟩

theorem octets_spec {t : List Char} {os : List ℕ} (h : octets t = some os) :
    (t.splitOn '.').length = 4 ∧ (∀ part ∈ t.splitOn '.', isOctet part = true) ∧
      os = (t.splitOn '.').map (digitsValue 10) := by
  unfold octets at h
  simp only at h
  split_ifs at h with hparts
  cases h
  exact ⟨hparts.1, List.all_eq_true.mp hparts.2, rfl⟩

theorem mem_intercalate {x c : Char} {parts : List (List Char)}
    (h : c ∈ [x].intercalate parts) : c = x ∨ ∃ part ∈ parts, c ∈ part := by
  induction parts with
  | nil => exact absurd h List.not_mem_nil
  | cons part parts ih =>
    cases parts with
    | nil =>
      rw [List.intercalate_singleton] at h
      exact Or.inr ⟨part, List.mem_cons_self, h⟩
    | cons next parts =>
      rw [List.intercalate_cons_cons, List.mem_append, List.mem_append, List.mem_singleton] at h
      rcases h with (h | h) | h
      · exact Or.inr ⟨part, List.mem_cons_self, h⟩
      · exact Or.inl h
      · rcases ih h with h | ⟨part', hpart, hc⟩
        · exact Or.inl h
        · exact Or.inr ⟨part', List.mem_cons_of_mem _ hpart, hc⟩

/-- A character of a text separates its parts or is in one of them. -/
theorem mem_splitOn {t : List Char} {x c : Char} (h : c ∈ t) :
    c = x ∨ ∃ part ∈ t.splitOn x, c ∈ part := by
  have hjoin : [x].intercalate (t.splitOn x) = t := List.intercalate_splitOn x
  rw [← hjoin] at h
  exact mem_intercalate h

theorem octets_chars {t : List Char} {os : List ℕ} (h : octets t = some os) {c : Char}
    (hc : c ∈ t) : c = '.' ∨ isDigitOf 10 c = true := by
  obtain ⟨-, hparts, -⟩ := octets_spec h
  rcases mem_splitOn hc with hdot | ⟨part, hpart, hmem⟩
  · exact Or.inl hdot
  · exact Or.inr (List.all_eq_true.mp (isOctet_spec (hparts part hpart)).2.1 c hmem)

theorem octets_length {t : List Char} {os : List ℕ} (h : octets t = some os) :
    ∃ a b c d, os = [a, b, c, d] ∧ a ≤ 255 ∧ b ≤ 255 ∧ c ≤ 255 ∧ d ≤ 255 := by
  obtain ⟨hlength, hparts, rfl⟩ := octets_spec h
  obtain ⟨a, b, c, d, hsplit⟩ := List.length_eq_four.mp hlength
  rw [hsplit] at hparts ⊢
  exact ⟨_, _, _, _, rfl, (isOctet_spec (hparts a (by simp))).2.2,
    (isOctet_spec (hparts b (by simp))).2.2, (isOctet_spec (hparts c (by simp))).2.2,
    (isOctet_spec (hparts d (by simp))).2.2⟩

theorem lower_octets {t : List Char} {os : List ℕ} (h : octets t = some os) : lower t = t := by
  unfold lower
  refine (List.map_congr_left fun c hc => ?_).trans (List.map_id t)
  rcases octets_chars h hc with rfl | hdigit
  · rfl
  · obtain ⟨d, hd, hlt⟩ := exists_digitValue hdigit
    exact (digitValue_lower hd).2.2.2 hlt

/-- The dotted reading of the first filter, on an address's text. -/
theorem parseIpv4_octets {t : List Char} {os : List ℕ} (h : octets t = some os) :
    parseIpv4 t = some (os.map fun n : ℕ => (n : ℤ)) := by
  obtain ⟨hlength, hparts, rfl⟩ := octets_spec h
  have hread : (t.splitOn '.').map (parseInt 10) =
      (t.splitOn '.').map fun part => some (digitsValue 10 part : ℤ) := by
    refine List.map_congr_left fun part hpart => ?_
    obtain ⟨hne, hdigits, -⟩ := isOctet_spec (hparts part hpart)
    exact parseInt_digits hne hdigits
  unfold parseIpv4
  simp only
  rw [hread, if_pos]
  · rw [List.map_map, List.map_map]
    rfl
  · refine ⟨by rw [List.length_map, hlength], List.all_eq_true.mpr fun n hn => ?_⟩
    obtain ⟨part, hpart, rfl⟩ := List.mem_map.mp hn
    have hle := (isOctet_spec (hparts part hpart)).2.2
    rw [Option.any_some, decide_eq_true_eq]
    omega

/-- The dotted reading of the second filter, on an address's text. -/
theorem parseIPv4_octets {t : List Char} {os : List ℕ} (h : octets t = some os) :
    parseIPv4 t = some os := by
  obtain ⟨hlength, hparts, rfl⟩ := octets_spec h
  have hread : (t.splitOn '.').map partNumber =
      (t.splitOn '.').map fun part => some (digitsValue 10 part) := by
    refine List.map_congr_left fun part hpart => ?_
    obtain ⟨hne, hdigits, -⟩ := isOctet_spec (hparts part hpart)
    unfold partNumber
    rw [if_pos ⟨hne, hdigits⟩]
  unfold parseIPv4
  simp only
  rw [hread, if_pos]
  · rw [List.map_map]
    rfl
  · refine ⟨by rw [List.length_map, hlength], List.all_eq_true.mpr fun n hn => ?_⟩
    obtain ⟨part, hpart, rfl⟩ := List.mem_map.mp hn
    rw [Option.any_some, decide_eq_true_eq]
    exact (isOctet_spec (hparts part hpart)).2.2

/-- Without a point there are no four parts. -/
theorem four_parts {α : Type} {t : List Char} {f : List Char → α} (hdot : '.' ∉ t) :
    ((t.splitOn '.').map f).length ≠ 4 := by
  rw [List.length_map, List.splitOn_eq_singleton hdot, List.length_singleton]
  omega

/-- Both filters read four parts from a text with a point only. -/
theorem dot_of_blockedIpv4 {t : List Char} (h : blockedIpv4 t = true) : '.' ∈ t := by
  by_contra hdot
  have hnone : parseIpv4 t = none := by
    unfold parseIpv4
    simp only
    rw [if_neg fun hparts => four_parts hdot hparts.1]
  unfold blockedIpv4 at h
  rw [hnone] at h
  cases h

theorem dot_of_isPrivateIPv4 {t : List Char} (h : isPrivateIPv4 t = true) : '.' ∈ t := by
  by_contra hdot
  have hnone : parseIPv4 t = none := by
    unfold parseIPv4
    simp only
    rw [if_neg fun hparts => four_parts hdot hparts.1]
  unfold isPrivateIPv4 at h
  rw [hnone] at h
  cases h

end Octets

section Groups

theorem isHextet_spec {cs : List Char} (h : isHextet cs = true) :
    cs ≠ [] ∧ cs.length ≤ 4 ∧ cs.all (isDigitOf 16) = true := by
  unfold isHextet at h
  simp only [Bool.and_eq_true, decide_eq_true_eq, Bool.not_eq_true'] at h
  exact ⟨fun hnil => by rw [hnil] at h; exact absurd h.1.1 (by decide), h.1.2, h.2⟩

/-- The characters of an address's text. -/
def addressCharacter (c : Char) : Prop := isDigitOf 16 c = true ∨ c = '.' ∨ c = ':'

theorem hextet_chars {cs : List Char} (h : isHextet cs = true) {c : Char} (hc : c ∈ cs) :
    addressCharacter c :=
  Or.inl (List.all_eq_true.mp (isHextet_spec h).2.2 c hc)

theorem tailGroups_cons {piece next : List Char} {pieces : List (List Char)} {gs : List ℕ}
    (h : tailGroups (piece :: next :: pieces) = some gs) :
    isHextet piece = true ∧ ∃ rest, tailGroups (next :: pieces) = some rest ∧
      gs = digitsValue 16 piece :: rest := by
  rw [tailGroups] at h
  · split_ifs at h with hpiece
    obtain ⟨rest, hrest, heq⟩ := Option.map_eq_some_iff.mp h
    exact ⟨hpiece, rest, hrest, heq.symm⟩
  · intro hnil
    cases hnil

theorem tailGroups_singleton {piece : List Char} {gs : List ℕ}
    (h : tailGroups [piece] = some gs) :
    (isHextet piece = true ∧ gs = [digitsValue 16 piece]) ∨
      ∃ os, octets piece = some os ∧ gs = dottedGroups os := by
  rw [tailGroups] at h
  split_ifs at h with hpiece
  · cases h
    exact Or.inl ⟨hpiece, rfl⟩
  · obtain ⟨os, hos, heq⟩ := Option.map_eq_some_iff.mp h
    exact Or.inr ⟨os, hos, heq.symm⟩

theorem tailGroups_chars {pieces : List (List Char)} {gs : List ℕ}
    (h : tailGroups pieces = some gs) {piece : List Char} (hpiece : piece ∈ pieces) {c : Char}
    (hc : c ∈ piece) : addressCharacter c := by
  induction pieces generalizing gs with
  | nil => cases hpiece
  | cons first pieces ih =>
    cases pieces with
    | nil =>
      rw [List.mem_singleton] at hpiece
      subst hpiece
      rcases tailGroups_singleton h with ⟨hhextet, -⟩ | ⟨os, hos, -⟩
      · exact hextet_chars hhextet hc
      · rcases octets_chars hos hc with hdot | hdigit
        · exact Or.inr (Or.inl hdot)
        · exact Or.inl (isDigitOf_sixteen hdigit)
    | cons next pieces =>
      obtain ⟨hfirst, rest, hrest, -⟩ := tailGroups_cons h
      rcases List.mem_cons.mp hpiece with rfl | hpiece
      · exact hextet_chars hfirst hc
      · exact ih hrest hpiece

theorem tailGroups_length {pieces : List (List Char)} {gs : List ℕ}
    (h : tailGroups pieces = some gs) :
    pieces.length ≤ gs.length ∧ gs.length ≤ pieces.length + 1 := by
  induction pieces generalizing gs with
  | nil =>
    cases h
    exact ⟨le_rfl, Nat.le_succ _⟩
  | cons first pieces ih =>
    cases pieces with
    | nil =>
      rcases tailGroups_singleton h with ⟨-, rfl⟩ | ⟨os, hos, rfl⟩
      · simp
      · obtain ⟨a, b, c, d, rfl, -⟩ := octets_length hos
        simp [dottedGroups]
    | cons next pieces =>
      obtain ⟨-, rest, hrest, rfl⟩ := tailGroups_cons h
      have hlength := ih hrest
      simp only [List.length_cons] at hlength ⊢
      omega

theorem hextets_spec {pieces : List (List Char)} {gs : List ℕ} (h : hextets pieces = some gs) :
    (∀ piece ∈ pieces, isHextet piece = true) ∧ gs = pieces.map (digitsValue 16) := by
  unfold hextets at h
  split_ifs at h with hall
  cases h
  exact ⟨List.all_eq_true.mp hall, rfl⟩

theorem breakDouble_eq {cs front back : List Char} (h : breakDouble cs = some (front, back)) :
    cs = front ++ ':' :: ':' :: back := by
  induction cs using breakDouble.induct generalizing front with
  | case1 rest =>
    rw [breakDouble] at h
    cases h
    rfl
  | case2 c rest hne ih =>
    rw [breakDouble] at h
    · obtain ⟨⟨front', back'⟩, hrest, heq⟩ := Option.map_eq_some_iff.mp h
      cases heq
      rw [ih hrest]
      rfl
    · exact hne
  | case3 => cases h

theorem mem_pieces {cs : List Char} {c : Char} (hc : c ∈ cs) :
    c = ':' ∨ ∃ piece ∈ pieces cs, c ∈ piece := by
  unfold pieces
  rw [if_neg (List.ne_nil_of_mem hc)]
  exact mem_splitOn hc

theorem groups_cases {t : List Char} {gs : List ℕ} (h : groups t = some gs) :
    (breakDouble t = none ∧ tailGroups (pieces t) = some gs ∧ gs.length = 8) ∨
      ∃ front back fs bs, breakDouble t = some (front, back) ∧ hextets (pieces front) = some fs ∧
        tailGroups (pieces back) = some bs ∧ fs.length + bs.length ≤ 7 ∧
        gs = fs ++ List.replicate (8 - (fs.length + bs.length)) 0 ++ bs := by
  unfold groups at h
  split at h
  · rename_i hbreak
    obtain ⟨all, hall, h⟩ := Option.bind_eq_some_iff.mp h
    split_ifs at h with hlength
    cases h
    exact Or.inl ⟨hbreak, hall, hlength⟩
  · rename_i front back hbreak
    obtain ⟨fs, hfs, h⟩ := Option.bind_eq_some_iff.mp h
    obtain ⟨bs, hbs, h⟩ := Option.bind_eq_some_iff.mp h
    split_ifs at h with hlength
    cases h
    exact Or.inr ⟨front, back, fs, bs, hbreak, hfs, hbs, hlength, rfl⟩

theorem groups_chars {t : List Char} {gs : List ℕ} (h : groups t = some gs) {c : Char}
    (hc : c ∈ t) : addressCharacter c := by
  rcases groups_cases h with ⟨-, htail, -⟩ | ⟨front, back, fs, bs, hbreak, hfs, hbs, -, -⟩
  · rcases mem_pieces hc with hcolon | ⟨piece, hpiece, hc⟩
    · exact Or.inr (Or.inr hcolon)
    · exact tailGroups_chars htail hpiece hc
  · rw [breakDouble_eq hbreak] at hc
    simp only [List.mem_append, List.mem_cons] at hc
    rcases hc with hc | hcolon | hcolon | hc
    · rcases mem_pieces hc with hcolon | ⟨piece, hpiece, hc⟩
      · exact Or.inr (Or.inr hcolon)
      · exact hextet_chars ((hextets_spec hfs).1 piece hpiece) hc
    · exact Or.inr (Or.inr hcolon)
    · exact Or.inr (Or.inr hcolon)
    · rcases mem_pieces hc with hcolon | ⟨piece, hpiece, hc⟩
      · exact Or.inr (Or.inr hcolon)
      · exact tailGroups_chars hbs hpiece hc

theorem splitOn_head {cs piece : List Char} {rest : List (List Char)}
    (h : cs.splitOn ':' = piece :: rest) :
    ':' ∉ piece ∧ ((rest = [] ∧ cs = piece) ∨
      ∃ tail, cs = piece ++ ':' :: tail ∧ rest = tail.splitOn ':') := by
  by_cases hcolon : ':' ∈ cs
  · obtain ⟨front, tail, rfl, hfront⟩ := List.eq_append_cons_of_mem hcolon
    rw [List.splitOn_append_cons_self_of_not_mem hfront] at h
    cases h
    exact ⟨hfront, Or.inr ⟨tail, rfl, rfl⟩⟩
  · rw [List.splitOn_eq_singleton hcolon] at h
    cases h
    exact ⟨hcolon, Or.inl ⟨rfl, rfl⟩⟩

/-- A text of groups starts with its first group, or with a colon where that group is left out. -/
theorem groups_head {t : List Char} {gs : List ℕ} (h : groups t = some gs) :
    ∃ piece tail, t = piece ++ ':' :: tail ∧ ':' ∉ piece ∧
      ((piece = [] ∧ gs.head? = some 0) ∨
        (isHextet piece = true ∧ gs.head? = some (digitsValue 16 piece))) := by
  rcases groups_cases h with ⟨-, htail, hlength⟩ | ⟨front, back, fs, bs, hbreak, hfs, -, hle, rfl⟩
  · have hsize := tailGroups_length htail
    unfold pieces at htail hsize
    split_ifs at htail hsize with hnil
    · simp only [List.length_nil] at hsize
      omega
    cases hsplit : t.splitOn ':' with
    | nil => exact absurd hsplit (List.splitOn_ne_nil _ _)
    | cons piece rest =>
      rw [hsplit] at htail hsize
      obtain ⟨hcolon, ⟨rfl, -⟩ | ⟨tail, ht, hrest⟩⟩ := splitOn_head hsplit
      · simp only [List.length_singleton] at hsize
        omega
      · cases rest with
        | nil => exact absurd hrest.symm (List.splitOn_ne_nil _ _)
        | cons next rest =>
          obtain ⟨hpiece, others, -, rfl⟩ := tailGroups_cons htail
          exact ⟨piece, tail, ht, hcolon, Or.inr ⟨hpiece, rfl⟩⟩
  · have ht := breakDouble_eq hbreak
    obtain ⟨hall, rfl⟩ := hextets_spec hfs
    unfold pieces at hall hle ⊢
    split_ifs at hall hle ⊢ with hnil
    · subst hnil
      refine ⟨[], ':' :: back, ht, List.not_mem_nil, Or.inl ⟨rfl, ?_⟩⟩
      have hpos : ∃ n, 8 - bs.length = n + 1 := ⟨7 - bs.length, by
        simp only [List.map_nil, List.length_nil] at hle
        omega⟩
      obtain ⟨n, hn⟩ := hpos
      simp only [List.map_nil, List.length_nil, Nat.zero_add, List.nil_append, hn]
      rfl
    · cases hsplit : front.splitOn ':' with
      | nil => exact absurd hsplit (List.splitOn_ne_nil _ _)
      | cons piece rest =>
        rw [hsplit] at hall
        have hpiece := hall piece List.mem_cons_self
        obtain ⟨hcolon, ⟨-, hfront⟩ | ⟨tail, hfront, -⟩⟩ := splitOn_head hsplit
        · exact ⟨piece, ':' :: back, by rw [ht, hfront], hcolon, Or.inr ⟨hpiece, rfl⟩⟩
        · exact ⟨piece, tail ++ ':' :: ':' :: back, by rw [ht, hfront]; simp, hcolon,
            Or.inr ⟨hpiece, rfl⟩⟩

end Groups

end Piclaw.AddressFilters
