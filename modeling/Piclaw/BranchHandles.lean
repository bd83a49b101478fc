import Piclaw.TextRuns
import Piclaw.Values

/-!
# Agent handles

`normalizeBranchAgentName` and the choice of a handle that no active branch holds. A normal handle
consists of the letters, digits and signs that the normaliser keeps, does not start or end with a
dash and has no two dashes in a row.
-/

namespace Piclaw
open TextRuns

def trim (s : String) : String := String.ofList (stripEnds isTrimmed s.toList)

def handleCharacter (c : Char) : Bool :=
  ('a' ≤ c && c ≤ 'z') || ('0' ≤ c && c ≤ '9') || c = '_' || c = '-'

/-- `toLowerCase`. Outside ASCII only the two characters whose lower case starts in ASCII are
mapped: what the others become is not a handle character either. -/
def lowerCharacter (c : Char) : List Char :=
  if 'A' ≤ c ∧ c ≤ 'Z' then [Char.ofNat (c.toNat + 32)]
  else if c = Char.ofNat 0x212A then ['k']
  else if c = Char.ofNat 0x130 then ['i', Char.ofNat 0x307]
  else [c]

def normalizeCharacters (l : List Char) : List Char :=
  let lowered := (stripEnds isTrimmed l).flatMap lowerCharacter
  let dashed := replaceRuns (fun c => !handleCharacter c) '-' false lowered
  collapse '-' false (stripEnds (fun c => decide (c = '-')) dashed)

def normalizeBranchAgentName (value : String) : String :=
  String.ofList (normalizeCharacters value.toList)

structure NormalHandle (l : List Char) : Prop where
  chars : ∀ c ∈ l, handleCharacter c
  head : l.head? ≠ some '-'
  last : l.getLast? ≠ some '-'
  chain : l.IsChain (fun x y => ¬ (x = '-' ∧ y = '-'))

section Normalizing
variable {l : List Char} {c : Char}

theorem isTrimmed_of_handleCharacter (h : handleCharacter c) : isTrimmed c = false := by
  have hdigit : (48 ≤ c.toNat ∧ c.toNat ≤ 57) ∨ (97 ≤ c.toNat ∧ c.toNat ≤ 122) ∨
      c.toNat = 95 ∨ c.toNat = 45 := by
    simp only [handleCharacter, Bool.or_eq_true, Bool.and_eq_true, decide_eq_true_eq,
      Char.le_def, UInt32.le_iff_toNat_le] at h
    rcases h with ((h | h) | rfl) | rfl
    · exact .inr (.inl h)
    · exact .inl h
    · exact .inr (.inr (.inl rfl))
    · exact .inr (.inr (.inr rfl))
  simp only [isTrimmed, Bool.or_eq_false_iff, Bool.and_eq_false_iff, decide_eq_false_iff_not]
  omega

theorem lowerCharacter_of_handleCharacter (h : handleCharacter c) : lowerCharacter c = [c] := by
  have hrange : c.toNat ≤ 122 ∧ ¬ (65 ≤ c.toNat ∧ c.toNat ≤ 90) := by
    simp only [handleCharacter, Bool.or_eq_true, Bool.and_eq_true, decide_eq_true_eq,
      Char.le_def, UInt32.le_iff_toNat_le] at h
    rcases h with ((h | h) | rfl) | rfl
    · exact ⟨h.2, fun hup => absurd (hup.2.trans' h.1) (by decide)⟩
    · exact ⟨h.2.trans (by decide), fun hup => absurd (hup.1.trans h.2) (by decide)⟩
    · decide
    · decide
  have hne : ∀ n, 122 < n → n < 0xD800 → c ≠ Char.ofNat n := by
    intro n hlow hhigh heq
    have hn : (Char.ofNat n).toNat = n := by
      rw [Char.toNat_ofNat, if_pos (.inl hhigh)]
    rw [heq, hn] at hrange
    omega
  unfold lowerCharacter
  rw [if_neg, if_neg (hne 0x212A (by decide) (by decide)), if_neg (hne 0x130 (by decide) (by decide))]
  intro hup
  simp only [Char.le_def, UInt32.le_iff_toNat_le] at hup
  exact hrange.2 hup

theorem flatMap_lowerCharacter (h : ∀ c ∈ l, handleCharacter c) : l.flatMap lowerCharacter = l := by
  induction l with
  | nil => rfl
  | cons c l ih =>
    rw [List.flatMap_cons, lowerCharacter_of_handleCharacter (h c List.mem_cons_self),
      ih (fun x hx => h x (List.mem_cons_of_mem _ hx))]
    rfl

theorem normalHandle_normalizeCharacters : NormalHandle (normalizeCharacters l) := by
  unfold normalizeCharacters
  set dashed := replaceRuns (fun c => !handleCharacter c) '-' false
    ((stripEnds isTrimmed l).flatMap lowerCharacter)
  set stripped := stripEnds (fun c => decide (c = '-')) dashed
  have hhead : stripped.head? ≠ some '-' := by
    intro h
    have := stripEnds_head? h
    simp at this
  have hlast : stripped.getLast? ≠ some '-' := by
    intro h
    have := stripEnds_getLast? h
    simp at this
  constructor
  · intro c hc
    rcases mem_replaceRuns hc with rfl | ⟨hmem, -⟩
    · rfl
    · rcases mem_replaceRuns (mem_of_mem_stripEnds hmem) with rfl | ⟨-, hkept⟩
      · rfl
      · simpa using hkept
  · rw [collapse_head? hhead]
    exact hhead
  · rw [collapse_getLast? hlast]
    exact hlast
  · exact collapse_isChain.1

theorem normalizeCharacters_eq_self (h : NormalHandle l) : normalizeCharacters l = l := by
  have htrim : stripEnds isTrimmed l = l := by
    apply stripEnds_eq_self
    · intro c hc
      exact isTrimmed_of_handleCharacter (h.chars c (List.mem_of_head? hc))
    · intro c hc
      exact isTrimmed_of_handleCharacter (h.chars c (List.mem_of_getLast? hc))
  have hdashes : stripEnds (fun c => decide (c = '-')) l = l := by
    apply stripEnds_eq_self
    · intro c hc
      exact decide_eq_false fun heq => h.head (heq ▸ hc)
    · intro c hc
      exact decide_eq_false fun heq => h.last (heq ▸ hc)
  unfold normalizeCharacters
  dsimp only
  rw [htrim, flatMap_lowerCharacter h.chars, replaceRuns_eq_self (fun c hc => by simp [h.chars c hc]),
    hdashes]
  exact collapse_eq_self h.chain (fun hfalse => Bool.noConfusion hfalse)

/-- A stored handle: what the normaliser would make of it is the handle itself. -/
structure FixedHandle (s : String) : Prop where
  fixed : normalizeBranchAgentName s = s
  nonempty : s ≠ ""

theorem fixedHandle_of_normal {s : String} (h : NormalHandle s.toList) (hne : s ≠ "") :
    FixedHandle s := by
  refine ⟨?_, hne⟩
  unfold normalizeBranchAgentName
  rw [normalizeCharacters_eq_self h, String.ofList_toList]

theorem normalHandle_normalized (s : String) : NormalHandle (normalizeBranchAgentName s).toList := by
  unfold normalizeBranchAgentName
  rw [String.toList_ofList]
  exact normalHandle_normalizeCharacters

theorem fixedHandle_normalized {s : String} (hne : normalizeBranchAgentName s ≠ "") :
    FixedHandle (normalizeBranchAgentName s) :=
  fixedHandle_of_normal (normalHandle_normalized s) hne

end Normalizing

section Suffixes

def suffixed (base : String) (suffix : ℕ) : String := base ++ "-" ++ Nat.repr suffix

variable {base : String} {m n : ℕ}

theorem toList_suffixed :
    (suffixed base n).toList = base.toList ++ '-' :: Nat.toDigits 10 n := by
  unfold suffixed
  rw [String.toList_append, String.toList_append, Nat.toList_repr, List.append_assoc]
  rfl

theorem suffixed_injective (h : suffixed base m = suffixed base n) : m = n := by
  have hlist := congrArg String.toList h
  rw [toList_suffixed, toList_suffixed, List.append_cancel_left_eq, List.cons.injEq] at hlist
  rw [← Nat.ofDigitChars_toDigits (by decide : 1 < 10) (le_refl 10) (n := m), hlist.2,
    Nat.ofDigitChars_toDigits (by decide) (le_refl 10)]

theorem isDigit_handleCharacter {c : Char} (h : c.isDigit) : handleCharacter c ∧ c ≠ '-' := by
  simp only [Char.isDigit, Bool.and_eq_true, decide_eq_true_eq] at h
  constructor
  · simp only [handleCharacter, Bool.or_eq_true, Bool.and_eq_true, decide_eq_true_eq]
    exact .inl (.inl (.inr h))
  · rintro rfl
    exact absurd h.1 (by decide)

theorem normalHandle_suffixed (h : NormalHandle base.toList) (hne : base ≠ "") :
    NormalHandle (suffixed base n).toList := by
  have hdigits : ∀ c ∈ Nat.toDigits 10 n, handleCharacter c ∧ c ≠ '-' := fun c hc =>
    isDigit_handleCharacter (Nat.isDigit_of_mem_toDigits (by decide) (le_refl 10) hc)
  have hbase : base.toList ≠ [] := fun hnil => hne (by simpa using hnil)
  rw [toList_suffixed]
  constructor
  · intro c hc
    rcases List.mem_append.mp hc with hc | hc
    · exact h.chars c hc
    · rcases List.mem_cons.mp hc with rfl | hc
      · rfl
      · exact (hdigits c hc).1
  · rw [List.head?_append_of_ne_nil _ hbase]
    exact h.head
  · intro hlast
    rw [List.getLast?_append, List.getLast?_cons_of_ne_nil Nat.toDigits_ne_nil] at hlast
    obtain ⟨c, hc⟩ := List.getLast?_isSome.mpr (Nat.toDigits_ne_nil (n := n) (b := 10)) |>
      Option.isSome_iff_exists.mp
    rw [hc] at hlast
    cases hlast
    exact (hdigits _ (List.mem_of_getLast? hc)).2 rfl
  · rw [List.isChain_append]
    refine ⟨h.chain, List.isChain_cons.mpr ⟨?_, ?_⟩, ?_⟩
    · intro y hy hboth
      exact (hdigits y (List.mem_of_head? hy)).2 hboth.2
    · refine List.Pairwise.isChain (List.pairwise_of_forall_mem_list ?_)
      intro x hx y _ hboth
      exact (hdigits x hx).2 hboth.1
    · intro x hx y _ hboth
      exact h.last (hboth.1 ▸ hx)

/-- The loop `while (used.has(...)) suffix += 1`. -/
def freeSuffix (used : List String) (base : String) : ℕ → ℕ → ℕ
  | 0, suffix => suffix
  | fuel + 1, suffix =>
    if suffixed base suffix ∈ used then freeSuffix used base fuel (suffix + 1) else suffix

theorem freeSuffix_free {used : List String} {fuel suffix : ℕ} :
    suffixed base (freeSuffix used base fuel suffix) ∉ used ∨
      ∀ k, suffix ≤ k → k < suffix + fuel → suffixed base k ∈ used := by
  induction fuel generalizing suffix with
  | zero =>
    right
    intro k h₁ h₂
    omega
  | succ fuel ih =>
    unfold freeSuffix
    split_ifs with hused
    · rcases @ih (suffix + 1) with hfree | hall
      · exact .inl hfree
      · right
        intro k h₁ h₂
        by_cases hk : k = suffix
        · rw [hk]
          exact hused
        · exact hall k (by omega) (by omega)
    · exact .inl hused

/-- More turns than used handles are enough. -/
theorem suffixed_freeSuffix {used : List String} {fuel suffix : ℕ} (hfuel : used.length < fuel) :
    suffixed base (freeSuffix used base fuel suffix) ∉ used := by
  rcases @freeSuffix_free base used fuel suffix with hfree | hall
  · exact hfree
  · exfalso
    have hinj : (fun k => suffixed base (suffix + k)).Injective := by
      intro j k h
      have := suffixed_injective h
      omega
    have hsub : (List.range fuel).map (fun k => suffixed base (suffix + k)) ⊆ used := by
      intro s hs
      obtain ⟨k, hk, rfl⟩ := List.mem_map.mp hs
      exact hall _ (Nat.le_add_right _ _) (by have := List.mem_range.mp hk; omega)
    have hlength := (List.nodup_range.map hinj).subperm hsub |>.length_le
    rw [List.length_map, List.length_range] at hlength
    omega

end Suffixes
end Piclaw
