import Piclaw.AddressSpellings

/-!
# Private addresses in URLs

A parsed URL shows an IPv6 address in one spelling, with lower-case hexadecimal groups and its first
longest run of zeros left out. That spelling has no dotted tail, so the filter of public URLs passes
the mapped addresses, and only them.
-/

namespace Piclaw.AddressFilters

section Serialiser

def hexGroup (g : ℕ) : List Char :=
  if g = 0 then ['0'] else (Nat.digits 16 g).reverse.map Nat.digitChar

def joinGroups (gs : List ℕ) : List Char := [':'].intercalate (gs.map hexGroup)

/-- The length of the run of zeros from this position. -/
def zeroRun (gs : List ℕ) (i : ℕ) : ℕ := ((gs.drop i).takeWhile (· = 0)).length

def longestRun (gs : List ℕ) : ℕ := ((List.range 8).map (zeroRun gs)).foldl max 0

/-- Where the first longest run of zeros starts, when it has two groups. -/
def compressAt (gs : List ℕ) : Option ℕ :=
  if longestRun gs ≤ 1 then none
  else (List.range 8).find? fun i => decide (zeroRun gs i = longestRun gs)

/-- The host of a parsed URL with this address, without its brackets. -/
def serialise (gs : List ℕ) : List Char :=
  match compressAt gs with
  | none => joinGroups gs
  | some i => joinGroups (gs.take i) ++ ':' :: ':' :: joinGroups (gs.drop (i + longestRun gs))

example : serialise [0xfe80, 0, 0, 1, 0, 0, 0, 0x2b] = "fe80:0:0:1::2b".toList := by decide +kernel

example : serialise [0, 0, 0, 0, 0, 0xffff, 0x7f00, 1] = "::ffff:7f00:1".toList := by
  decide +kernel

end Serialiser

section RoundTrip

theorem digitsValue_reverse {ds : List ℕ} (h : ∀ d ∈ ds, d < 16) :
    digitsValue 16 (ds.reverse.map Nat.digitChar) = Nat.ofDigits 16 ds := by
  induction ds with
  | nil => rfl
  | cons d ds ih =>
    have hd := h d List.mem_cons_self
    have hds := ih fun e he => h e (List.mem_cons_of_mem _ he)
    unfold digitsValue at hds ⊢
    rw [List.reverse_cons, List.map_append, List.foldl_append, hds, Nat.ofDigits_cons]
    simp only [List.map_cons, List.map_nil, List.foldl_cons, List.foldl_nil,
      digitValue_digitChar hd, Option.getD_some]
    omega

theorem hexGroup_digits {g : ℕ} : (hexGroup g).all (isDigitOf 16) = true := by
  unfold hexGroup
  split_ifs with hzero
  · decide
  · refine List.all_eq_true.mpr fun c hc => ?_
    obtain ⟨d, hd, rfl⟩ := List.mem_map.mp hc
    have hlt := Nat.digits_lt_base (by norm_num) (List.mem_reverse.mp hd)
    unfold isDigitOf
    rw [digitValue_digitChar hlt, Option.any_some, decide_eq_true_eq]
    exact hlt

theorem lower_hexGroup (g : ℕ) : lower (hexGroup g) = hexGroup g := by
  unfold hexGroup lower
  split_ifs with hzero
  · decide
  · rw [List.map_map]
    refine List.map_congr_left fun d hd => ?_
    have hlt := Nat.digits_lt_base (by norm_num) (List.mem_reverse.mp hd)
    rw [Function.comp_apply, (digitValue_lower (digitValue_digitChar hlt)).2.1]

theorem digitsValue_hexGroup (g : ℕ) : digitsValue 16 (hexGroup g) = g := by
  unfold hexGroup
  split_ifs with hzero
  · subst hzero
    decide
  · rw [digitsValue_reverse fun d hd => Nat.digits_lt_base (by norm_num) hd, Nat.ofDigits_digits]

theorem hexGroup_ne_nil (g : ℕ) : hexGroup g ≠ [] := by
  unfold hexGroup
  split_ifs with hzero
  · exact List.cons_ne_nil _ _
  · simpa using Nat.digits_ne_nil_iff_ne_zero.mpr hzero

theorem isHextet_hexGroup {g : ℕ} (h : g < 65536) : isHextet (hexGroup g) = true := by
  have hlength : (hexGroup g).length ≤ 4 := by
    unfold hexGroup
    split_ifs with hzero
    · simp
    · rw [List.length_map, List.length_reverse]
      exact (Nat.digits_length_le_iff (by norm_num) g).mpr (by omega)
  unfold isHextet
  simp [hlength, hexGroup_digits, hexGroup_ne_nil]

theorem colon_not_mem_hexGroup (g : ℕ) : ':' ∉ hexGroup g :=
  not_mem_digits hexGroup_digits rfl

theorem hextets_hexGroups {gs : List ℕ} (h : ∀ g ∈ gs, g < 65536) :
    hextets (gs.map hexGroup) = some gs := by
  have hall : (gs.map hexGroup).all isHextet = true := by
    rw [List.all_map]
    exact List.all_eq_true.mpr fun g hg => isHextet_hexGroup (h g hg)
  unfold hextets
  rw [if_pos hall, List.map_map]
  congr 1
  exact (List.map_congr_left fun g _ => digitsValue_hexGroup g).trans (List.map_id gs)

theorem tailGroups_hexGroups {gs : List ℕ} (h : ∀ g ∈ gs, g < 65536) :
    tailGroups (gs.map hexGroup) = some gs := by
  induction gs with
  | nil => rfl
  | cons g gs ih =>
    have hg := isHextet_hexGroup (h g List.mem_cons_self)
    have hgs := ih fun e he => h e (List.mem_cons_of_mem _ he)
    cases gs with
    | nil =>
      simp only [List.map_cons, List.map_nil]
      rw [tailGroups, if_pos hg, digitsValue_hexGroup]
    | cons g' gs =>
      simp only [List.map_cons] at hgs ⊢
      rw [tailGroups, if_pos hg, hgs, digitsValue_hexGroup]
      · rfl
      · intro hnil
        cases hnil

theorem joinGroups_cons (g g' : ℕ) (gs : List ℕ) :
    joinGroups (g :: g' :: gs) = hexGroup g ++ ':' :: joinGroups (g' :: gs) := by
  unfold joinGroups
  rw [List.map_cons, List.map_cons, List.intercalate_cons_cons]
  simp

theorem joinGroups_singleton (g : ℕ) : joinGroups [g] = hexGroup g := by
  simp [joinGroups]

theorem joinGroups_head {gs : List ℕ} (h : gs ≠ []) :
    ∃ c rest, joinGroups gs = c :: rest ∧ c ≠ ':' := by
  obtain ⟨g, gs, rfl⟩ := List.exists_cons_of_ne_nil h
  obtain ⟨c, rest, hc⟩ := List.exists_cons_of_ne_nil (hexGroup_ne_nil g)
  have hcolon : c ≠ ':' := by
    rintro rfl
    exact colon_not_mem_hexGroup g (by rw [hc]; exact List.mem_cons_self)
  cases gs with
  | nil => exact ⟨c, rest, by rw [joinGroups_singleton, hc], hcolon⟩
  | cons g' gs =>
    exact ⟨c, rest ++ ':' :: joinGroups (g' :: gs), by rw [joinGroups_cons, hc]; rfl, hcolon⟩

theorem pieces_joinGroups (gs : List ℕ) : pieces (joinGroups gs) = gs.map hexGroup := by
  by_cases hnil : gs = []
  · subst hnil
    rfl
  · obtain ⟨c, rest, hjoin, -⟩ := joinGroups_head hnil
    have hne : joinGroups gs ≠ [] := by
      rw [hjoin]
      exact List.cons_ne_nil _ _
    unfold pieces
    rw [if_neg hne]
    unfold joinGroups
    refine List.splitOn_intercalate ':' ?_ (by simpa using hnil)
    intro piece hpiece
    obtain ⟨g, -, rfl⟩ := List.mem_map.mp hpiece
    exact colon_not_mem_hexGroup g

theorem breakDouble_cons {c : Char} (hc : c ≠ ':') (t : List Char) :
    breakDouble (c :: t) = (breakDouble t).map fun p => (c :: p.1, p.2) := by
  rw [breakDouble]
  intro rest heq
  exact absurd heq hc

theorem breakDouble_colon {c : Char} (hc : c ≠ ':') (t : List Char) :
    breakDouble (':' :: c :: t) = (breakDouble (c :: t)).map fun p => (':' :: p.1, p.2) := by
  rw [breakDouble]
  intro rest _ heq
  exact hc (List.cons.inj heq).1

theorem breakDouble_append {piece : List Char} (h : ':' ∉ piece) (t : List Char) :
    breakDouble (piece ++ t) = (breakDouble t).map fun p => (piece ++ p.1, p.2) := by
  induction piece with
  | nil => simp
  | cons c piece ih =>
    have hc : c ≠ ':' := fun heq => h (by rw [heq]; exact List.mem_cons_self)
    rw [List.cons_append, breakDouble_cons hc, ih fun hmem => h (List.mem_cons_of_mem _ hmem),
      Option.map_map]
    rfl

theorem breakDouble_joinGroups {gs : List ℕ} (hne : gs ≠ []) (t : List Char) :
    breakDouble (joinGroups gs ++ t) =
      (breakDouble t).map fun p => (joinGroups gs ++ p.1, p.2) := by
  induction gs with
  | nil => exact absurd rfl hne
  | cons g gs ih =>
    cases gs with
    | nil =>
      rw [joinGroups_singleton]
      exact breakDouble_append (colon_not_mem_hexGroup g) t
    | cons g' gs =>
      have hrest := ih (List.cons_ne_nil _ _)
      obtain ⟨c, rest, hc, hcolon⟩ := joinGroups_head (List.cons_ne_nil g' gs)
      have hbreak : breakDouble (':' :: (joinGroups (g' :: gs) ++ t)) =
          (breakDouble (joinGroups (g' :: gs) ++ t)).map fun p => (':' :: p.1, p.2) := by
        rw [hc]
        exact breakDouble_colon hcolon _
      rw [joinGroups_cons, List.append_assoc, breakDouble_append (colon_not_mem_hexGroup g),
        List.cons_append, hbreak, hrest, Option.map_map, Option.map_map]
      refine Option.map_congr fun p _ => ?_
      simp

theorem zeroRun_split (gs : List ℕ) (i : ℕ) :
    gs = gs.take i ++ List.replicate (zeroRun gs i) 0 ++ gs.drop (i + zeroRun gs i) := by
  have hzeros : (gs.drop i).takeWhile (· = 0) = List.replicate (zeroRun gs i) 0 := by
    refine List.eq_replicate_iff.mpr ⟨rfl, fun g hg => ?_⟩
    have hzero := List.mem_takeWhile_imp hg
    rwa [decide_eq_true_eq] at hzero
  have hdrop : ((gs.drop i).takeWhile (· = 0) ++ (gs.drop i).dropWhile (· = 0)).drop
      (zeroRun gs i) = (gs.drop i).dropWhile (· = 0) := List.drop_left' rfl
  rw [List.takeWhile_append_dropWhile, List.drop_drop] at hdrop
  rw [← hzeros, hdrop, List.append_assoc, List.takeWhile_append_dropWhile, List.take_append_drop]

theorem compressAt_spec {gs : List ℕ} {i : ℕ} (h : compressAt gs = some i) :
    2 ≤ longestRun gs ∧ zeroRun gs i = longestRun gs := by
  unfold compressAt at h
  split_ifs at h with hrun
  have hfound := List.find?_some h
  rw [decide_eq_true_eq] at hfound
  exact ⟨by omega, hfound⟩

/-- The host of a parsed URL is read back as its address. -/
theorem groups_serialise {gs : List ℕ} (hlength : gs.length = 8) (h : ∀ g ∈ gs, g < 65536) :
    groups (serialise gs) = some gs := by
  have hne : gs ≠ [] := by
    rintro rfl
    cases hlength
  unfold serialise
  split
  · have hbreak : breakDouble (joinGroups gs) = none := by
      have happend := breakDouble_joinGroups hne []
      rw [List.append_nil] at happend
      rw [happend]
      rfl
    unfold groups
    rw [hbreak, pieces_joinGroups, tailGroups_hexGroups h]
    simp [hlength]
  · rename_i i hat
    obtain ⟨hrun, hzeros⟩ := compressAt_spec hat
    have hsplit := zeroRun_split gs i
    rw [hzeros] at hsplit
    generalize longestRun gs = n at hrun hzeros hsplit
    generalize gs.take i = front at hsplit
    generalize gs.drop (i + n) = back at hsplit
    have hbreak : breakDouble (joinGroups front ++ ':' :: ':' :: joinGroups back) =
        some (joinGroups front, joinGroups back) := by
      by_cases hfront : front = []
      · subst hfront
        rfl
      · rw [breakDouble_joinGroups hfront]
        change some (joinGroups front ++ [], joinGroups back) = _
        rw [List.append_nil]
    subst hsplit
    have hmem : (∀ g ∈ front, g < 65536) ∧ ∀ g ∈ back, g < 65536 :=
      ⟨fun g hg => h g (by simp [hg]), fun g hg => h g (by simp [hg])⟩
    simp only [List.length_append, List.length_replicate] at hlength
    have hsize : 8 - (front.length + back.length) = n := by omega
    unfold groups
    rw [hbreak]
    simp only [pieces_joinGroups, hextets_hexGroups hmem.1, tailGroups_hexGroups hmem.2,
      Option.bind_eq_bind, Option.bind_some]
    rw [if_pos (by omega), hsize]

end RoundTrip

section PublicUrls

variable {gs : List ℕ}

theorem serialise_char {c : Char} (h : c ∈ serialise gs) : c = ':' ∨ ∃ g, c ∈ hexGroup g := by
  have hjoin : ∀ {gs : List ℕ}, c ∈ joinGroups gs → c = ':' ∨ ∃ g, c ∈ hexGroup g := by
    intro gs hc
    rcases mem_intercalate hc with hcolon | ⟨piece, hpiece, hmem⟩
    · exact Or.inl hcolon
    · obtain ⟨g, -, rfl⟩ := List.mem_map.mp hpiece
      exact Or.inr ⟨g, hmem⟩
  unfold serialise at h
  split at h
  · exact hjoin h
  · simp only [List.mem_append, List.mem_cons] at h
    rcases h with h | h | h | h
    · exact hjoin h
    · exact Or.inl h
    · exact Or.inl h
    · exact hjoin h

theorem dot_not_mem_serialise : '.' ∉ serialise gs := by
  intro hmem
  rcases serialise_char hmem with heq | ⟨g, hg⟩
  · cases heq
  · exact not_mem_digits hexGroup_digits rfl hg

theorem lower_serialise : lower (serialise gs) = serialise gs := by
  refine (List.map_congr_left fun c hc => ?_).trans (List.map_id _)
  rcases serialise_char hc with rfl | ⟨g, hg⟩
  · rfl
  · have hmap : ∀ {l : List Char}, lower l = l → ∀ c ∈ l, c.toLower = c := by
      intro l hl c hc
      exact (List.map_inj_left.mp (hl.trans (List.map_id l).symm)) c hc
    exact hmap (lower_hexGroup g) c hg

/-- The host that the filter of public URLs looks at. -/
theorem stripBrackets_serialise :
    stripBrackets (lower ('[' :: (serialise gs ++ [']']))) = serialise gs := by
  have hbracket : lower ('[' :: (serialise gs ++ [']'])) = '[' :: (serialise gs ++ [']']) := by
    rw [lower_cons, lower_append, lower_serialise]
    rfl
  rw [hbracket]
  unfold stripBrackets
  simp

theorem validate_blocked {lookup : List Char → Option (List (List Char))} {url : HttpUrl}
    (h : blockedAddress (stripBrackets (lower url.hostname)) = true) :
    validatePublicHttpUrl lookup (some url) = none := by
  unfold validatePublicHttpUrl
  simp only [Option.bind_eq_bind, Option.bind_some]
  split_ifs with hparts hhost
  · rfl
  · rfl
  · exact absurd (Or.inr (Or.inr (Or.inr h))) hhost

theorem stripBrackets_octets {t : List Char} {os : List ℕ} (h : octets t = some os) :
    stripBrackets (lower t) = t := by
  have hbracket : ∀ {c : Char}, c ∈ t → c ≠ '[' ∧ c ≠ ']' := by
    intro c hc
    rcases octets_chars h hc with rfl | hdigit
    · decide
    · exact ⟨isDigitOf_ne hdigit rfl, isDigitOf_ne hdigit rfl⟩
  have hhead : t.head? ≠ some '[' := fun heq => (hbracket (List.mem_of_head? heq)).1 rfl
  have hlast : t.getLast? ≠ some ']' := fun heq => (hbracket (List.mem_of_getLast? heq)).2 rfl
  unfold stripBrackets
  simp only
  rw [lower_octets h, if_neg hhead, if_neg hlast]

/-- A text that is neither short nor dotted and does not start a local prefix is not blocked. -/
theorem not_blocked_serialise (hgroups : groups (serialise gs) = some gs) {os : List ℕ}
    (hmapped : gs = mappedGroups os) (hfour : os.length = 4) :
    blockedAddress (serialise gs) = false := by
  obtain ⟨a, b, c, d, rfl⟩ := List.length_eq_four.mp hfour
  rw [Bool.eq_false_iff]
  intro hblocked
  rcases (blockedAddress_groups hgroups).mp hblocked with (hs | hs) | ⟨-, htail⟩ | ⟨-, hlocal⟩
  · rw [lower_serialise] at hs
    rw [hs, hmapped] at hgroups
    have hzero : groups "::".toList = some [0, 0, 0, 0, 0, 0, 0, 0] := by decide
    rw [hzero] at hgroups
    simp [mappedGroups] at hgroups
  · rw [lower_serialise] at hs
    rw [hs, hmapped] at hgroups
    have hone : groups "::1".toList = some [0, 0, 0, 0, 0, 0, 0, 1] := by decide
    rw [hone] at hgroups
    simp [mappedGroups] at hgroups
  · rw [lower_serialise] at htail
    exact dot_not_mem_serialise (List.mem_of_mem_drop (dot_of_blockedIpv4 htail))
  · rw [hmapped] at hlocal
    rcases hlocal with hlocal | hlocal
    · exact absurd hlocal (by simp [mappedGroups])
    · exact absurd hlocal (by simp [mappedGroups])

theorem blocked_serialise (hgroups : groups (serialise gs) = some gs) (h : PrivateIpv6 gs)
    (hmapped : ∀ os, PrivateIpv4 os → gs ≠ mappedGroups os) :
    blockedAddress (serialise gs) = true := by
  cases h with
  | unspecified => decide +kernel
  | loopback => decide +kernel
  | uniqueLocal h => exact (uniqueLocal_caught hgroups h).1
  | linkLocal h =>
    refine (blockedAddress_groups hgroups).mpr (Or.inr (Or.inr ⟨fun hstarts => ?_, Or.inr h⟩))
    have hzero := headD_of_mapped hgroups hstarts
    rw [List.headD_cons] at hzero
    subst hzero
    exact absurd h (by decide)
  | mapped _ h => exact absurd rfl (hmapped _ h)

/-- A URL whose host is a private address is refused, unless that is a mapped one. -/
theorem validate_private_iff (hlength : gs.length = 8) (hlt : ∀ g ∈ gs, g < 65536)
    (h : PrivateIpv6 gs) :
    (∀ lookup url, url.hostname = '[' :: (serialise gs ++ [']']) →
        validatePublicHttpUrl lookup (some url) = none) ↔
      ∀ os, PrivateIpv4 os → gs ≠ mappedGroups os := by
  have hgroups := groups_serialise hlength hlt
  constructor
  · intro hrefused os hos hmapped
    obtain ⟨a, b, c, d, hfour⟩ := hos.four
    have hopen := not_blocked_serialise hgroups hmapped (by rw [hfour]; rfl)
    have hnone := hrefused (fun host => some [host])
      ⟨"https:", "", "", '[' :: (serialise gs ++ [']'])⟩ rfl
    have hlocalhost : serialise gs ≠ "localhost".toList := by
      intro heq
      have hcolon := mem_colon hgroups
      rw [heq] at hcolon
      exact absurd hcolon (by decide)
    have hsuffix : ∀ suffix : List Char, '.' ∈ suffix → ¬ suffix <:+ serialise gs := by
      intro suffix hdot hsuffix
      exact dot_not_mem_serialise (hsuffix.mem hdot)
    have hhost : ¬ (serialise gs = "localhost".toList ∨ ".localhost".toList <:+ serialise gs ∨
        ".local".toList <:+ serialise gs ∨ blockedAddress (serialise gs) = true) := by
      rintro (heq | hs | hs | hs)
      · exact hlocalhost heq
      · exact hsuffix _ (by decide) hs
      · exact hsuffix _ (by decide) hs
      · rw [hopen] at hs
        cases hs
    unfold validatePublicHttpUrl at hnone
    simp only [Option.bind_eq_bind, Option.bind_some, stripBrackets_serialise] at hnone
    rw [if_neg (by decide), if_neg hhost, if_neg] at hnone
    · cases hnone
    · simp [hopen]
  · intro hmapped lookup url hhost
    refine validate_blocked ?_
    rw [hhost, stripBrackets_serialise]
    exact blocked_serialise hgroups h hmapped

end PublicUrls

/-- Every text of a private IPv4 address is filtered; of a private IPv6 address, exactly the
spellings of `Caught` are, and every one of its URLs is refused unless it is a mapped address. -/
theorem private_filtered_iff (t : List Char) (gs : List ℕ) :
    (∀ os, octets t = some os → PrivateIpv4 os →
        blockedAddress t = true ∧ isPrivateIp t = true ∧
          ∀ lookup url, url.hostname = t → validatePublicHttpUrl lookup (some url) = none) ∧
      (groups t = some gs → PrivateIpv6 gs →
        ((blockedAddress t = true ∧ isPrivateIp t = true) ↔ Caught t gs)) ∧
      (gs.length = 8 → (∀ g ∈ gs, g < 65536) → PrivateIpv6 gs →
        ((∀ lookup url, url.hostname = '[' :: (serialise gs ++ [']']) →
            validatePublicHttpUrl lookup (some url) = none) ↔
          ∀ os, PrivateIpv4 os → gs ≠ mappedGroups os)) := by
  refine ⟨fun os ht hos => ?_, fun ht hgs => both_iff_caught ht hgs,
    fun hlength hlt hgs => validate_private_iff hlength hlt hgs⟩
  have hblocked := blockedAddress_octets ht hos
  refine ⟨hblocked, isPrivateIp_octets ht hos, fun lookup url hhost => validate_blocked ?_⟩
  rw [hhost, stripBrackets_octets ht]
  exact hblocked

/-- The filters on `10.0.0.1`, on `fe90::1` and on the URL of `fd00::1`. -/
theorem private_filtered_iff_samples :
    blockedAddress "10.0.0.1".toList = true ∧
      ¬ (blockedAddress "fe90::1".toList = true ∧ isPrivateIp "fe90::1".toList = true) ∧
      ∀ lookup url, url.hostname = "[fd00::1]".toList →
        validatePublicHttpUrl lookup (some url) = none := by
  refine ⟨((private_filtered_iff "10.0.0.1".toList []).1 [10, 0, 0, 1] (by decide)
    (by simp [PrivateIpv4])).1, ?_, ?_⟩
  · have hiff := (private_filtered_iff "fe90::1".toList [0xfe90, 0, 0, 0, 0, 0, 0, 1]).2.1
      (by decide) (PrivateIpv6.linkLocal (by decide))
    rw [hiff]
    intro hcaught
    cases hcaught with
    | short h => exact absurd h (by decide)
    | uniqueLocal h => exact absurd h (by decide)
    | linkLocal _ h => exact absurd h (by decide)
    | mapped ht => cases ht
  · have hiff := (private_filtered_iff [] [0xfd00, 0, 0, 0, 0, 0, 0, 1]).2.2 rfl (by decide)
      (PrivateIpv6.uniqueLocal (by decide))
    refine hiff.mpr fun os hos heq => ?_
    obtain ⟨a, b, c, d, rfl⟩ := hos.four
    simp [mappedGroups] at heq

/-- A URL of the loopback address in its mapped form is taken for a public one. -/
theorem mapped_loopback_passes :
    groups "::ffff:7f00:1".toList = some (mappedGroups [127, 0, 0, 1]) ∧
      PrivateIpv6 (mappedGroups [127, 0, 0, 1]) ∧
      blockedAddress "::ffff:7f00:1".toList = false ∧
      isPrivateIp "::ffff:7f00:1".toList = false ∧
      ∃ url, url.hostname = '[' :: (serialise (mappedGroups [127, 0, 0, 1]) ++ [']']) ∧
        validatePublicHttpUrl (fun host => some [host]) (some url) = some url := by
  refine ⟨by decide, @PrivateIpv6.mapped [127, 0, 0, 1] (by decide) (Or.inl rfl), by decide,
    by decide, ⟨"https:", "", "", "[::ffff:7f00:1]".toList⟩, ?_, ?_⟩
  · decide +kernel
  · decide +kernel

end Piclaw.AddressFilters
