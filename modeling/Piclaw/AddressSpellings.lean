import Piclaw.AddressTexts

/-!
# Spellings of private addresses

Which texts of a private address both filters recognise. An IPv4 address has one text. An IPv6
address has many, and the filters read the start of the text, or its end, in place of the address.
-/

namespace Piclaw.AddressFilters

section Statements

/-- Loopback, unspecified, private, shared, link-local and benchmarking addresses. -/
def PrivateIpv4 : List ℕ → Prop
  | [a, b, c, d] =>
    a = 127 ∨ (a = 0 ∧ b = 0 ∧ c = 0 ∧ d = 0) ∨ a = 10 ∨ (a = 172 ∧ 16 ≤ b ∧ b ≤ 31) ∨
      (a = 192 ∧ b = 168) ∨ (a = 100 ∧ 64 ≤ b ∧ b ≤ 127) ∨ (a = 169 ∧ b = 254) ∨
      (a = 198 ∧ (b = 18 ∨ b = 19))
  | _ => False

/-- The IPv4-mapped form of an address. -/
def mappedGroups (os : List ℕ) : List ℕ := [0, 0, 0, 0, 0, 0xffff] ++ dottedGroups os

inductive PrivateIpv6 : List ℕ → Prop
  | unspecified : PrivateIpv6 [0, 0, 0, 0, 0, 0, 0, 0]
  | loopback : PrivateIpv6 [0, 0, 0, 0, 0, 0, 0, 1]
  | uniqueLocal {g : ℕ} {gs : List ℕ} (h : g &&& 0xfe00 = 0xfc00) : PrivateIpv6 (g :: gs)
  | linkLocal {g : ℕ} {gs : List ℕ} (h : g &&& 0xffc0 = 0xfe80) : PrivateIpv6 (g :: gs)
  | mapped {os : List ℕ} (hbyte : ∀ o ∈ os, o ≤ 255) (h : PrivateIpv4 os) :
      PrivateIpv6 (mappedGroups os)

/-- The spellings that both filters recognise: `::` and `::1`, every text of a unique-local address,
`fe80:` or a private dotted tail for a link-local one, and `::ffff:` with a dotted tail for a mapped
one. -/
inductive Caught (t : List Char) (gs : List ℕ) : Prop
  | short (h : lower t = "::".toList ∨ lower t = "::1".toList)
  | uniqueLocal (h : gs.headD 0 &&& 0xfe00 = 0xfc00)
  | linkLocal (h : gs.headD 0 &&& 0xffc0 = 0xfe80)
      (hspelled : gs.headD 0 = 0xfe80 ∨ isPrivateIPv4 (afterColon (lower t)) = true)
  | mapped {piece tail : List Char} (ht : t = ':' :: ':' :: (piece ++ ':' :: tail))
      (hpiece : lower piece = "ffff".toList) (htail : (octets tail).isSome)

end Statements

section Ipv4

theorem isIP_octets {t : List Char} {os : List ℕ} (h : octets t = some os) : isIP t = 4 := by
  unfold isIP
  rw [h]
  rfl

theorem blockedIpv4_octets {t : List Char} {os : List ℕ} (h : octets t = some os)
    (hprivate : PrivateIpv4 os) : blockedIpv4 t = true := by
  obtain ⟨a, b, c, d, rfl, -⟩ := octets_length h
  unfold blockedIpv4
  rw [parseIpv4_octets h]
  simp only [PrivateIpv4] at hprivate
  simp only [List.map_cons, List.map_nil, decide_eq_true_eq]
  omega

theorem isPrivateIPv4_octets {t : List Char} {os : List ℕ} (h : octets t = some os)
    (hprivate : PrivateIpv4 os) : isPrivateIPv4 t = true := by
  obtain ⟨a, b, c, d, rfl, -⟩ := octets_length h
  unfold isPrivateIPv4
  rw [parseIPv4_octets h]
  simp only [PrivateIpv4] at hprivate
  simp only [decide_eq_true_eq]
  rcases hprivate with h | ⟨h, -⟩ | h | h | h | h | h | h
  · exact Or.inr (Or.inr (Or.inl h))
  · exact Or.inl h
  · exact Or.inr (Or.inl h)
  · simp [h]
  · simp [h]
  · simp [h]
  · simp [h]
  · simp [h]

theorem blockedAddress_octets {t : List Char} {os : List ℕ} (h : octets t = some os)
    (hprivate : PrivateIpv4 os) : blockedAddress t = true := by
  unfold blockedAddress
  rw [if_pos (isIP_octets h)]
  exact blockedIpv4_octets h hprivate

theorem isPrivateIp_octets {t : List Char} {os : List ℕ} (h : octets t = some os)
    (hprivate : PrivateIpv4 os) : isPrivateIp t = true := by
  unfold isPrivateIp
  rw [if_pos (isIP_octets h)]
  exact isPrivateIPv4_octets h hprivate

end Ipv4

section Heads

variable {t : List Char} {gs : List ℕ}

theorem mem_colon (h : groups t = some gs) : ':' ∈ t := by
  obtain ⟨piece, tail, rfl, -, -⟩ := groups_head h
  simp

theorem octets_eq_none (h : groups t = some gs) : octets t = none := by
  cases hoctets : octets t with
  | none => rfl
  | some os =>
    rcases octets_chars hoctets (mem_colon h) with heq | hdigit
    · cases heq
    · exact absurd rfl (isDigitOf_ne hdigit rfl)

theorem takeWhile_zone (h : groups t = some gs) :
    t.takeWhile (· ≠ '%') = t ∧ t.dropWhile (· ≠ '%') = [] := by
  have hzone : ∀ c ∈ t, decide (c ≠ '%') = true := by
    intro c hc
    rw [decide_eq_true_eq]
    rcases groups_chars h hc with hdigit | rfl | rfl
    · exact isDigitOf_ne hdigit rfl
    · decide
    · decide
  exact ⟨List.takeWhile_eq_self_iff.mpr hzone, List.dropWhile_eq_nil_iff.mpr hzone⟩

theorem isIP_groups (h : groups t = some gs) : isIP t = 6 := by
  obtain ⟨htake, hdrop⟩ := takeWhile_zone h
  unfold isIP
  rw [octets_eq_none h, htake, hdrop, h]
  rfl

theorem lower_append (a b : List Char) : lower (a ++ b) = lower a ++ lower b := List.map_append

theorem lower_cons (c : Char) (cs : List Char) : lower (c :: cs) = c.toLower :: lower cs := rfl

theorem colon_not_mem_lower {piece : List Char} (h : piece.all (isDigitOf 16) = true) :
    ':' ∉ lower piece :=
  not_mem_digits (lower_digits h) rfl

/-- The first filter reads the first group, whatever its spelling. -/
theorem firstGroup_groups (h : groups t = some gs) : firstGroup t = gs.headD 0 := by
  obtain ⟨piece, tail, rfl, -, ⟨rfl, hhead⟩ | ⟨hpiece, hhead⟩⟩ := groups_head h
  · have hzero : gs.headD 0 = 0 := by rw [List.headD_eq_head?_getD, hhead]; rfl
    rw [hzero]
    unfold firstGroup
    have hsplit : ((lower ([] ++ ':' :: tail)).splitOn ':').headD [] = [] := by
      rw [List.nil_append, lower_cons]
      change ((([] ++ ':' :: lower tail) : List Char).splitOn ':').headD [] = []
      rw [List.splitOn_append_cons_self_of_not_mem List.not_mem_nil]
      rfl
    simp only [hsplit]
    rfl
  · obtain ⟨hne, -, hdigits⟩ := isHextet_spec hpiece
    have hsplit : ((lower (piece ++ ':' :: tail)).splitOn ':').headD [] = lower piece := by
      rw [lower_append, lower_cons]
      change ((lower piece ++ ':' :: lower tail).splitOn ':').headD [] = lower piece
      rw [List.splitOn_append_cons_self_of_not_mem (colon_not_mem_lower hdigits)]
      rfl
    have hlower : lower piece ≠ [] := fun hnil => hne (List.map_eq_nil_iff.mp hnil)
    unfold firstGroup
    simp only [hsplit]
    rw [if_neg hlower, parseInt_digits hlower (lower_digits hdigits), digitsValue_lower hdigits,
      List.headD_eq_head?_getD, hhead]
    rfl

theorem digitsValue_four (a b c d : Char) :
    digitsValue 16 [a, b, c, d] = 16 * (16 * (16 * (digitValue a).getD 0 + (digitValue b).getD 0) +
      (digitValue c).getD 0) + (digitValue d).getD 0 := by
  simp [digitsValue]

/-- Four digits show the four digits of their number. -/
theorem lower_hextet {piece : List Char} (h : isHextet piece = true)
    (hvalue : 4096 ≤ digitsValue 16 piece) :
    lower piece = [Nat.digitChar (digitsValue 16 piece / 4096),
      Nat.digitChar (digitsValue 16 piece / 256 % 16),
      Nat.digitChar (digitsValue 16 piece / 16 % 16),
      Nat.digitChar (digitsValue 16 piece % 16)] := by
  obtain ⟨-, hlength, hdigits⟩ := isHextet_spec h
  have hbound : ∀ c ∈ piece, (digitValue c).getD 0 < 16 ∧
      c.toLower = Nat.digitChar ((digitValue c).getD 0) := by
    intro c hc
    obtain ⟨d, hd, hlt⟩ := exists_digitValue (List.all_eq_true.mp hdigits c hc)
    rw [hd]
    exact ⟨hlt, (digitValue_lower hd).2.1⟩
  match piece, hlength, hvalue, hbound with
  | [], _, hvalue, _ =>
    simp [digitsValue] at hvalue
  | [a], _, hvalue, hbound =>
    have ha := (hbound a (by simp)).1
    simp only [digitsValue, List.foldl_cons, List.foldl_nil] at hvalue
    omega
  | [a, b], _, hvalue, hbound =>
    have ha := (hbound a (by simp)).1
    have hb := (hbound b (by simp)).1
    simp only [digitsValue, List.foldl_cons, List.foldl_nil] at hvalue
    omega
  | [a, b, c], _, hvalue, hbound =>
    have ha := (hbound a (by simp)).1
    have hb := (hbound b (by simp)).1
    have hc := (hbound c (by simp)).1
    simp only [digitsValue, List.foldl_cons, List.foldl_nil] at hvalue
    omega
  | [a, b, c, d], _, _, hbound =>
    obtain ⟨ha, hal⟩ := hbound a (by simp)
    obtain ⟨hb, hbl⟩ := hbound b (by simp)
    obtain ⟨hc, hcl⟩ := hbound c (by simp)
    obtain ⟨hd, hdl⟩ := hbound d (by simp)
    rw [digitsValue_four]
    simp only [lower, List.map_cons, List.map_nil, hal, hbl, hcl, hdl]
    congr 1
    · congr 1
      omega
    congr 1
    · congr 1
      omega
    congr 1
    · congr 1
      omega
    congr 1
    · congr 1
      omega

end Heads

section Masks

theorem shift_mask {g m v k : ℕ} (h : g &&& m = v) : g >>> k &&& m >>> k = v >>> k := by
  rw [← Nat.shiftRight_and_distrib, h]

theorem uniqueLocal_range {g : ℕ} (h : g &&& 0xfe00 = 0xfc00) (hlt : g < 65536) :
    0xfc00 ≤ g ∧ g < 0xfe00 := by
  have hmask : g >>> 9 &&& 2 ^ 7 - 1 = 126 := @shift_mask _ _ _ 9 h
  rw [Nat.and_two_pow_sub_one_eq_mod, Nat.shiftRight_eq_div_pow] at hmask
  omega

theorem linkLocal_range {g : ℕ} (h : g &&& 0xffc0 = 0xfe80) (hlt : g < 65536) :
    0xfe80 ≤ g ∧ g < 0xfec0 := by
  have hmask : g >>> 6 &&& 2 ^ 10 - 1 = 1018 := @shift_mask _ _ _ 6 h
  rw [Nat.and_two_pow_sub_one_eq_mod, Nat.shiftRight_eq_div_pow] at hmask
  omega

end Masks

section Mapped

variable {t : List Char} {gs : List ℕ}

theorem toLower_colon {c : Char} (h : addressCharacter c) (hc : c.toLower = ':') : c = ':' := by
  rcases h with hdigit | rfl | rfl
  · obtain ⟨d, hd, hlt⟩ := exists_digitValue hdigit
    have hlower := (digitValue_lower hd).2.1
    rw [hc] at hlower
    have hvalue := digitValue_digitChar hlt
    rw [← hlower] at hvalue
    cases hvalue
  · exact absurd hc (by decide)
  · rfl

/-- The texts that the first filter takes for mapped ones. -/
theorem mapped_prefix (h : groups t = some gs) (hstarts : "::ffff:".toList <+: lower t) :
    ∃ piece tail, t = ':' :: ':' :: (piece ++ ':' :: tail) ∧ lower piece = "ffff".toList ∧
      (lower t).drop 7 = lower tail := by
  obtain ⟨rest, hrest⟩ := hstarts
  obtain ⟨front, tail, rfl, hfront, htail⟩ := List.map_eq_append_iff.mp hrest.symm
  have hlength : front.length = 7 := by
    have hmap := congrArg List.length hfront
    rw [List.length_map] at hmap
    exact hmap
  match front, hlength, hfront with
  | [c1, c2, c3, c4, c5, c6, c7], _, hfront =>
    have hletters : "::ffff:".toList = [':', ':', 'f', 'f', 'f', 'f', ':'] := by decide
    rw [hletters] at hfront
    simp only [List.map_cons, List.map_nil, List.cons.injEq, and_true] at hfront
    obtain ⟨h1, h2, h3, h4, h5, h6, h7⟩ := hfront
    have hcolon : ∀ c ∈ [c1, c2, c7], c.toLower = ':' → c = ':' := by
      intro c hc
      refine toLower_colon (groups_chars h ?_)
      simp only [List.mem_cons, List.not_mem_nil, or_false] at hc
      rcases hc with rfl | rfl | rfl <;> simp
    obtain rfl := hcolon c1 (by simp) h1
    obtain rfl := hcolon c2 (by simp) h2
    obtain rfl := hcolon c7 (by simp) h7
    refine ⟨[c3, c4, c5, c6], tail, rfl, ?_, ?_⟩
    · simp only [lower, List.map_cons, List.map_nil, h3, h4, h5, h6]
      decide
    · simp [lower]

theorem digitsValue_ffff {piece : List Char} (h : piece.all (isDigitOf 16) = true)
    (hpiece : lower piece = "ffff".toList) : digitsValue 16 piece = 0xffff := by
  rw [← digitsValue_lower h, hpiece]
  decide

theorem mapped_groups {piece tail : List Char}
    (h : groups (':' :: ':' :: (piece ++ ':' :: tail)) = some gs)
    (hpiece : lower piece = "ffff".toList) :
    ∃ ts, tailGroups (tail.splitOn ':') = some ts ∧ ts.length ≤ 6 ∧
      gs = List.replicate (7 - ts.length) 0 ++ 0xffff :: ts := by
  have hcolon : ':' ∉ piece := by
    intro hmem
    have hlower : ':' ∈ lower piece := List.mem_map.mpr ⟨':', hmem, rfl⟩
    rw [hpiece] at hlower
    exact absurd hlower (by decide)
  rcases groups_cases h with ⟨hbreak, -, -⟩ | ⟨front, back, fs, bs, hbreak, hfs, hbs, hle, rfl⟩
  · cases hbreak
  · cases hbreak
    obtain rfl : fs = [] := (hextets_spec hfs).2
    have hne : piece ++ ':' :: tail ≠ [] := by simp
    unfold pieces at hbs
    rw [if_neg hne, List.splitOn_append_cons_self_of_not_mem hcolon] at hbs
    cases hsplit : tail.splitOn ':' with
    | nil => exact absurd hsplit (List.splitOn_ne_nil _ _)
    | cons next rest =>
      rw [hsplit] at hbs
      obtain ⟨hhextet, ts, hts, rfl⟩ := tailGroups_cons hbs
      simp only [List.length_cons, List.length_nil] at hle
      refine ⟨ts, hts, by omega, ?_⟩
      rw [digitsValue_ffff (isHextet_spec hhextet).2.2 hpiece]
      simp only [List.length_cons, List.length_nil, List.nil_append]
      have hsize : 8 - (0 + (ts.length + 1)) = 7 - ts.length := by omega
      rw [hsize]

theorem PrivateIpv4.four {os : List ℕ} (h : PrivateIpv4 os) : ∃ a b c d, os = [a, b, c, d] := by
  unfold PrivateIpv4 at h
  split at h
  · exact ⟨_, _, _, _, rfl⟩
  · exact h.elim

/-- The groups after `::ffff:` of a private address are the two of an IPv4 address. -/
theorem mapped_private {ts : List ℕ} (hlength : ts.length ≤ 6)
    (h : PrivateIpv6 (List.replicate (7 - ts.length) 0 ++ 0xffff :: ts)) :
    ∃ os, PrivateIpv4 os ∧ (∀ o ∈ os, o ≤ 255) ∧ ts = dottedGroups os := by
  have hzeros : List.replicate (7 - ts.length) 0 ++ 0xffff :: ts =
      0 :: (List.replicate (6 - ts.length) 0 ++ 0xffff :: ts) := by
    have hsize : 7 - ts.length = (6 - ts.length) + 1 := by omega
    rw [hsize, List.replicate_succ, List.cons_append]
  have hmem : 0xffff ∈ List.replicate (7 - ts.length) 0 ++ 0xffff :: ts := by simp
  generalize hall : List.replicate (7 - ts.length) 0 ++ 0xffff :: ts = all at h hmem hzeros
  cases h with
  | unspecified => simp at hmem
  | loopback => simp at hmem
  | uniqueLocal h =>
    cases hzeros
    exact absurd h (by decide)
  | linkLocal h =>
    cases hzeros
    exact absurd h (by decide)
  | @mapped os hbyte h =>
    refine ⟨os, h, hbyte, ?_⟩
    obtain ⟨a, b, c, d, rfl⟩ := h.four
    simp only [mappedGroups, dottedGroups] at hall ⊢
    generalize hn : ts.length = n at hall hlength
    interval_cases n <;> simp [List.replicate] at hall
    exact hall

/-- A dotted tail of two groups is an IPv4 address alone. -/
theorem dotted_tail {tail : List Char} {ts : List ℕ} (h : tailGroups (tail.splitOn ':') = some ts)
    (hlength : ts.length = 2) (hdot : '.' ∈ tail) :
    ∃ os, octets tail = some os ∧ ts = dottedGroups os := by
  have hhextet : ∀ {piece : List Char}, isHextet piece = true → '.' ∉ piece := fun hpiece =>
    not_mem_digits (isHextet_spec hpiece).2.2 rfl
  cases hsplit : tail.splitOn ':' with
  | nil => exact absurd hsplit (List.splitOn_ne_nil _ _)
  | cons piece rest =>
    rw [hsplit] at h
    obtain ⟨-, hrest⟩ := splitOn_head hsplit
    cases rest with
    | nil =>
      have htail : tail = piece := by
        rcases hrest with ⟨-, htail⟩ | ⟨_, -, hnil⟩
        · exact htail
        · exact absurd hnil.symm (List.splitOn_ne_nil _ _)
      subst htail
      rcases tailGroups_singleton h with ⟨hpiece, -⟩ | hoctets
      · exact absurd hdot (hhextet hpiece)
      · exact hoctets
    | cons next rest =>
      obtain ⟨hpiece, others, hothers, rfl⟩ := tailGroups_cons h
      have hsize := tailGroups_length hothers
      simp only [List.length_cons] at hlength hsize
      have hnil : rest = [] := List.length_eq_zero_iff.mp (by omega)
      subst hnil
      have hnext : isHextet next = true := by
        rcases tailGroups_singleton hothers with ⟨hnext, -⟩ | ⟨os, hos, rfl⟩
        · exact hnext
        · obtain ⟨a, b, c, d, rfl, -⟩ := octets_length hos
          simp [dottedGroups] at hlength
      rcases mem_splitOn (x := ':') hdot with heq | ⟨part, hpart, hmem⟩
      · cases heq
      · rw [hsplit] at hpart
        simp only [List.mem_cons, List.not_mem_nil, or_false] at hpart
        rcases hpart with rfl | rfl
        · exact absurd hmem (hhextet hpiece)
        · exact absurd hmem (hhextet hnext)

theorem dottedGroups_inj {os os' : List ℕ} (hos : PrivateIpv4 os) (hbyte : ∀ o ∈ os, o ≤ 255)
    {t : List Char} (hos' : octets t = some os') (h : dottedGroups os = dottedGroups os') :
    os = os' := by
  obtain ⟨a, b, c, d, rfl⟩ := hos.four
  obtain ⟨a', b', c', d', rfl, ha, hb, hc, hd⟩ := octets_length hos'
  simp only [List.mem_cons, List.not_mem_nil, or_false, forall_eq_or_imp, forall_eq] at hbyte
  simp only [dottedGroups, List.cons.injEq, and_true] at h
  have h1 : a = a' := by omega
  have h2 : b = b' := by omega
  have h3 : c = c' := by omega
  have h4 : d = d' := by omega
  rw [h1, h2, h3, h4]

end Mapped

section Filters

variable {t : List Char} {gs : List ℕ}

theorem afterColon_append (front : List Char) {tail : List Char} (h : ':' ∉ tail) :
    afterColon (front ++ ':' :: tail) = tail := by
  unfold afterColon
  rw [List.splitOn_append_cons_self, List.splitOn_eq_singleton h, List.getLastD_concat]

theorem blockedAddress_groups (h : groups t = some gs) :
    blockedAddress t = true ↔ (lower t = "::".toList ∨ lower t = "::1".toList) ∨
      ("::ffff:".toList <+: lower t ∧ blockedIpv4 ((lower t).drop 7) = true) ∨
        (¬ "::ffff:".toList <+: lower t ∧
          (gs.headD 0 &&& 0xfe00 = 0xfc00 ∨ gs.headD 0 &&& 0xffc0 = 0xfe80)) := by
  have h6 := isIP_groups h
  unfold blockedAddress
  rw [if_neg (by rw [h6]; omega), if_neg (by rw [h6]; omega), firstGroup_groups h]
  by_cases hshort : lower t = "::".toList ∨ lower t = "::1".toList
  · rw [if_pos hshort]
    exact ⟨fun _ => Or.inl hshort, fun _ => rfl⟩
  by_cases hstarts : "::ffff:".toList <+: lower t
  · rw [if_neg hshort, if_pos hstarts]
    tauto
  · rw [if_neg hshort, if_neg hstarts, Bool.or_eq_true, decide_eq_true_eq, decide_eq_true_eq]
    tauto

theorem isPrivateIp_groups (h : groups t = some gs) :
    isPrivateIp t = true ↔ (lower t = "::".toList ∨ lower t = "::1".toList) ∨
      ("fe80:".toList <+: lower t ∨ "fec0:".toList <+: lower t) ∨
        ("fc".toList <+: lower t ∨ "fd".toList <+: lower t) ∨ "2001:db8".toList <+: lower t ∨
          isPrivateIPv4 (afterColon (lower t)) = true := by
  have h6 := isIP_groups h
  have hcolon : ':' ∈ lower t := List.mem_map.mpr ⟨':', mem_colon h, rfl⟩
  have hdot : isPrivateIPv4 (afterColon (lower t)) = true → '.' ∈ afterColon (lower t) :=
    dot_of_isPrivateIPv4
  unfold isPrivateIp
  rw [if_neg (by rw [h6]; omega), if_pos h6]
  unfold isPrivateIPv6
  simp only
  split_ifs with h1 h2 h3 h4 h5
  · exact ⟨fun _ => Or.inl h1, fun _ => rfl⟩
  · exact ⟨fun _ => Or.inr (Or.inl h2), fun _ => rfl⟩
  · exact ⟨fun _ => Or.inr (Or.inr (Or.inl h3)), fun _ => rfl⟩
  · exact ⟨fun _ => Or.inr (Or.inr (Or.inr (Or.inl h4))), fun _ => rfl⟩
  · tauto
  · tauto

theorem digitsValue_lt {cs : List Char} (h : cs.all (isDigitOf 16) = true) :
    digitsValue 16 cs < 16 ^ cs.length := by
  have hfold : ∀ v, cs.foldl (fun v c => 16 * v + (digitValue c).getD 0) v <
      (v + 1) * 16 ^ cs.length := by
    induction cs with
    | nil =>
      intro v
      simp
    | cons c cs ih =>
      intro v
      have hdigit : (digitValue c).getD 0 < 16 := by
        obtain ⟨d, hd, hlt⟩ := exists_digitValue (List.all_eq_true.mp h c List.mem_cons_self)
        rw [hd]
        exact hlt
      have hrest := ih (List.all_eq_true.mpr fun x hx =>
        List.all_eq_true.mp h x (List.mem_cons_of_mem _ hx)) (16 * v + (digitValue c).getD 0)
      rw [List.foldl_cons, List.length_cons, pow_succ]
      calc _ < (16 * v + (digitValue c).getD 0 + 1) * 16 ^ cs.length := hrest
        _ ≤ ((v + 1) * 16) * 16 ^ cs.length := Nat.mul_le_mul_right _ (by omega)
        _ = (v + 1) * (16 ^ cs.length * 16) := by ring
  have hzero := hfold 0
  rw [Nat.zero_add, Nat.one_mul] at hzero
  exact hzero

theorem hextet_lt {cs : List Char} (h : isHextet cs = true) : digitsValue 16 cs < 65536 := by
  obtain ⟨-, hlength, hdigits⟩ := isHextet_spec h
  have hlt := digitsValue_lt hdigits
  have hpow : 16 ^ cs.length ≤ 16 ^ 4 := Nat.pow_le_pow_right (by omega) hlength
  omega

/-- The text of an address whose first group takes four digits. -/
theorem groups_four (h : groups t = some gs) (hlarge : 4096 ≤ gs.headD 0) :
    gs.headD 0 < 65536 ∧ ∃ rest, lower t = [Nat.digitChar (gs.headD 0 / 4096),
      Nat.digitChar (gs.headD 0 / 256 % 16), Nat.digitChar (gs.headD 0 / 16 % 16),
      Nat.digitChar (gs.headD 0 % 16)] ++ ':' :: rest := by
  obtain ⟨piece, tail, rfl, -, ⟨-, hhead⟩ | ⟨hpiece, hhead⟩⟩ := groups_head h
  · rw [List.headD_eq_head?_getD, hhead] at hlarge
    simp at hlarge
  · have hvalue : gs.headD 0 = digitsValue 16 piece := by
      rw [List.headD_eq_head?_getD, hhead]
      rfl
    rw [hvalue] at hlarge ⊢
    refine ⟨hextet_lt hpiece, lower tail, ?_⟩
    rw [lower_append, lower_cons, lower_hextet hpiece hlarge]
    rfl

theorem digitChar_inj {d e : ℕ} (hd : d < 16) (he : e < 16)
    (h : Nat.digitChar d = Nat.digitChar e) : d = e := by
  have hvalue := digitValue_digitChar hd
  rw [h, digitValue_digitChar he] at hvalue
  exact (Option.some.inj hvalue).symm

/-- The leading zero of an address that starts with a colon. -/
theorem headD_of_mapped (h : groups t = some gs) (hstarts : "::ffff:".toList <+: lower t) :
    gs.headD 0 = 0 := by
  obtain ⟨piece, tail, rfl, hpiece, -⟩ := mapped_prefix h hstarts
  obtain ⟨ts, -, hle, rfl⟩ := mapped_groups h hpiece
  have hsize : 7 - ts.length = (6 - ts.length) + 1 := by omega
  rw [hsize]
  rfl

theorem uniqueLocal_caught (h : groups t = some gs) (hlocal : gs.headD 0 &&& 0xfe00 = 0xfc00) :
    blockedAddress t = true ∧ isPrivateIp t = true := by
  have hlarge : 4096 ≤ gs.headD 0 := by
    have hle := @Nat.and_le_left (gs.headD 0) 0xfe00
    omega
  obtain ⟨hlt, rest, ht⟩ := groups_four h hlarge
  obtain ⟨hlow, hhigh⟩ := uniqueLocal_range hlocal hlt
  refine ⟨(blockedAddress_groups h).mpr (Or.inr (Or.inr ⟨fun hstarts => ?_, Or.inl hlocal⟩)),
    (isPrivateIp_groups h).mpr (Or.inr (Or.inr (Or.inl ?_)))⟩
  · have hzero := headD_of_mapped h hstarts
    omega
  · have hfirst : gs.headD 0 / 4096 = 15 := by omega
    have hsecond : gs.headD 0 / 256 % 16 = 12 ∨ gs.headD 0 / 256 % 16 = 13 := by omega
    rw [ht, hfirst]
    rcases hsecond with hsecond | hsecond
    · rw [hsecond]
      exact Or.inl ⟨_, rfl⟩
    · rw [hsecond]
      exact Or.inr ⟨_, rfl⟩

theorem linkLocal_caught_iff (h : groups t = some gs)
    (hlocal : gs.headD 0 &&& 0xffc0 = 0xfe80) (hshort : ¬ (lower t = "::".toList ∨
      lower t = "::1".toList)) :
    (blockedAddress t = true ∧ isPrivateIp t = true) ↔
      (gs.headD 0 = 0xfe80 ∨ isPrivateIPv4 (afterColon (lower t)) = true) := by
  have hlarge : 4096 ≤ gs.headD 0 := by
    have hle := @Nat.and_le_left (gs.headD 0) 0xffc0
    omega
  obtain ⟨hlt, rest, ht⟩ := groups_four h hlarge
  obtain ⟨hlow, hhigh⟩ := linkLocal_range hlocal hlt
  have hblocked : blockedAddress t = true := by
    refine (blockedAddress_groups h).mpr (Or.inr (Or.inr ⟨fun hstarts => ?_, Or.inr hlocal⟩))
    have hzero := headD_of_mapped h hstarts
    omega
  have hfirst : gs.headD 0 / 4096 = 15 := by omega
  have hsecond : gs.headD 0 / 256 % 16 = 14 := by omega
  rw [hfirst, hsecond] at ht
  have hletters : Nat.digitChar 15 = 'f' ∧ Nat.digitChar 14 = 'e' := ⟨rfl, rfl⟩
  rw [hletters.1, hletters.2] at ht
  constructor
  · rintro ⟨-, hprivate⟩
    rcases (isPrivateIp_groups h).mp hprivate with hs | (hp | hp) | (hp | hp) | hp | hp
    · exact absurd hs hshort
    · rw [ht] at hp
      have hdigits : '8' = Nat.digitChar (gs.headD 0 / 16 % 16) ∧
          '0' = Nat.digitChar (gs.headD 0 % 16) := by
        simpa using hp
      have h8 := @digitChar_inj 8 _ (by omega) (Nat.mod_lt _ (by omega)) hdigits.1
      have h0 := @digitChar_inj 0 _ (by omega) (Nat.mod_lt _ (by omega)) hdigits.2
      left
      omega
    · rw [ht] at hp
      have hdigit : 'c' = Nat.digitChar (gs.headD 0 / 16 % 16) := by
        have hall : 'c' = Nat.digitChar (gs.headD 0 / 16 % 16) ∧
            '0' = Nat.digitChar (gs.headD 0 % 16) := by
          simpa using hp
        exact hall.1
      have hc := @digitChar_inj 12 _ (by omega) (Nat.mod_lt _ (by omega)) hdigit
      omega
    · rw [ht] at hp
      simp at hp
    · rw [ht] at hp
      simp at hp
    · rw [ht] at hp
      simp at hp
    · exact Or.inr hp
  · rintro (hg | hprivate)
    · refine ⟨hblocked, (isPrivateIp_groups h).mpr (Or.inr (Or.inl (Or.inl ?_)))⟩
      rw [ht, hg]
      exact ⟨_, rfl⟩
    · exact ⟨hblocked, (isPrivateIp_groups h).mpr (Or.inr (Or.inr (Or.inr (Or.inr hprivate))))⟩

theorem mapped_caught {piece tail : List Char}
    (h : groups (':' :: ':' :: (piece ++ ':' :: tail)) = some gs) (hprivate : PrivateIpv6 gs)
    (hpiece : lower piece = "ffff".toList) (htail : (octets tail).isSome) :
    blockedAddress (':' :: ':' :: (piece ++ ':' :: tail)) = true ∧
      isPrivateIp (':' :: ':' :: (piece ++ ':' :: tail)) = true := by
  obtain ⟨os', hos'⟩ := Option.isSome_iff_exists.mp htail
  obtain ⟨ts, hts, hle, rfl⟩ := mapped_groups h hpiece
  obtain ⟨os, hos, hbyte, rfl⟩ := mapped_private hle hprivate
  have hcolon : ':' ∉ tail := by
    intro hmem
    rcases octets_chars hos' hmem with heq | hdigit
    · cases heq
    · exact absurd rfl (isDigitOf_ne hdigit rfl)
  have hdotted : dottedGroups os = dottedGroups os' := by
    rw [List.splitOn_eq_singleton hcolon] at hts
    rcases tailGroups_singleton hts with ⟨hhextet, -⟩ | ⟨os'', hos'', heq⟩
    · obtain ⟨-, -, hdigits⟩ := isHextet_spec hhextet
      have hfour := (octets_spec hos').1
      rw [List.splitOn_eq_singleton (not_mem_digits hdigits rfl)] at hfour
      simp at hfour
    · rw [hos'] at hos''
      cases hos''
      exact heq
  obtain rfl := dottedGroups_inj hos hbyte hos' hdotted
  have hlower : lower (':' :: ':' :: (piece ++ ':' :: tail)) = "::ffff:".toList ++ tail := by
    rw [lower_cons, lower_cons, lower_append, lower_cons, hpiece, lower_octets hos']
    rfl
  have hafter : afterColon ("::ffff:".toList ++ tail) = tail :=
    afterColon_append "::ffff".toList hcolon
  constructor
  · refine (blockedAddress_groups h).mpr (Or.inr (Or.inl ?_))
    rw [hlower]
    exact ⟨List.prefix_append _ _, blockedIpv4_octets hos' hos⟩
  · refine (isPrivateIp_groups h).mpr (Or.inr (Or.inr (Or.inr (Or.inr ?_))))
    rw [hlower, hafter]
    exact isPrivateIPv4_octets hos' hos

/-- Both filters recognise a text of a private IPv6 address exactly in these spellings. -/
theorem both_iff_caught (h : groups t = some gs) (hprivate : PrivateIpv6 gs) :
    (blockedAddress t = true ∧ isPrivateIp t = true) ↔ Caught t gs := by
  constructor
  · rintro ⟨hblocked, hpreview⟩
    by_cases hshort : lower t = "::".toList ∨ lower t = "::1".toList
    · exact Caught.short hshort
    rcases (blockedAddress_groups h).mp hblocked with hs | ⟨hstarts, htail⟩ | ⟨-, hlocal | hlocal⟩
    · exact absurd hs hshort
    · obtain ⟨piece, tail, rfl, hpiece, hdrop⟩ := mapped_prefix h hstarts
      rw [hdrop] at htail
      have hdot : '.' ∈ tail := by
        obtain ⟨c, hc, hlower⟩ := List.mem_map.mp (dot_of_blockedIpv4 htail)
        have haddress := groups_chars h (c := c) (by simp [hc])
        rcases haddress with hdigit | rfl | rfl
        · obtain ⟨d, hd, hlt⟩ := exists_digitValue hdigit
          have hvalue := digitValue_digitChar hlt
          rw [← (digitValue_lower hd).2.1, hlower] at hvalue
          cases hvalue
        · exact hc
        · cases hlower
      obtain ⟨ts, hts, hle, rfl⟩ := mapped_groups h hpiece
      obtain ⟨os, hos, -, rfl⟩ := mapped_private hle hprivate
      obtain ⟨a, b, c, d, rfl⟩ := hos.four
      obtain ⟨os', hos', -⟩ := dotted_tail hts rfl hdot
      exact Caught.mapped rfl hpiece (by rw [hos']; rfl)
    · exact Caught.uniqueLocal hlocal
    · exact Caught.linkLocal hlocal
        ((linkLocal_caught_iff h hlocal hshort).mp ⟨hblocked, hpreview⟩)
  · intro hcaught
    cases hcaught with
    | short hshort =>
      exact ⟨(blockedAddress_groups h).mpr (Or.inl hshort),
        (isPrivateIp_groups h).mpr (Or.inl hshort)⟩
    | uniqueLocal hlocal => exact uniqueLocal_caught h hlocal
    | linkLocal hlocal hspelled =>
      by_cases hshort : lower t = "::".toList ∨ lower t = "::1".toList
      · exact ⟨(blockedAddress_groups h).mpr (Or.inl hshort),
          (isPrivateIp_groups h).mpr (Or.inl hshort)⟩
      · exact (linkLocal_caught_iff h hlocal hshort).mpr hspelled
    | mapped ht hpiece htail =>
      subst ht
      exact mapped_caught h hprivate hpiece htail

end Filters

end Piclaw.AddressFilters
