import Mathlib

/-!
# Request values: bounded texts, tags and instants

The effect contracts exchange strings. A request normaliser admits a string only after checking
it, and the tables check it once more in SQL. `Text`, `BoundedText n`, `DiagnosticTag` and
`Instant` carry the normaliser's check. The SQL checks are the predicates `sqlText` and
`sqlInstant`; they differ from the normaliser's because SQLite measures a text up to its first NUL
character and because an instant with an expanded year is longer than the 24 characters a column
admits.

Instants are compared as strings. Every instant that a column admits starts with a digit, so it
is above every expanded one, which starts with a sign.
-/

namespace Piclaw

/-- `Number.MAX_SAFE_INTEGER`. -/
def maxSafeInteger : ℕ := 9007199254740991

def utf16Units (c : Char) : ℕ := if c.toNat ≤ 0xFFFF then 1 else 2

def utf16Length (s : String) : ℕ := (s.toList.map utf16Units).sum

/-- SQLite's `length` of a text: the characters before the first NUL. -/
def sqlLength (s : String) : ℕ := (s.toList.takeWhile (· ≠ Char.ofNat 0)).length

/-- The characters removed by `String.prototype.trim`. -/
def isTrimmed (c : Char) : Bool :=
  (9 ≤ c.toNat && c.toNat ≤ 13) || c.toNat = 0x20 || c.toNat = 0xA0 || c.toNat = 0x1680 ||
    (0x2000 ≤ c.toNat && c.toNat ≤ 0x200A) || c.toNat = 0x2028 || c.toNat = 0x2029 ||
    c.toNat = 0x202F || c.toNat = 0x205F || c.toNat = 0x3000 || c.toNat = 0xFEFF

def text (s : String) : Bool := s.toList.any (fun c => !isTrimmed c)

def boundedText (maxLength : ℕ) (s : String) : Bool :=
  text s && decide (utf16Length s ≤ maxLength)

def tagCharacter (c : Char) : Bool :=
  c.isAlphanum || c = '_' || c = '.' || c = ':' || c = '-'

def diagnosticTag (s : String) : Bool :=
  boundedText 128 s && s.toList.all tagCharacter

abbrev Text := {s : String // text s}
abbrev BoundedText (maxLength : ℕ) := {s : String // boundedText maxLength s}
abbrev DiagnosticTag := {s : String // diagnosticTag s}

/-- The column check `length(x) BETWEEN 1 AND maxLength`. -/
def sqlText (maxLength : ℕ) (s : String) : Prop := 1 ≤ sqlLength s ∧ sqlLength s ≤ maxLength

instance (maxLength : ℕ) : DecidablePred (sqlText maxLength) := fun _ =>
  inferInstanceAs (Decidable (_ ∧ _))

theorem utf16Units_pos (c : Char) : 1 ≤ utf16Units c := by
  unfold utf16Units
  split_ifs <;> omega

theorem sqlLength_le_utf16Length (s : String) : sqlLength s ≤ utf16Length s := by
  have hsum : ∀ l : List Char, l.length ≤ (l.map utf16Units).sum := by
    intro l
    induction l with
    | nil => simp
    | cons c l ih =>
      have hc := utf16Units_pos c
      simp only [List.length_cons, List.map_cons, List.sum_cons]
      omega
  exact (List.takeWhile_sublist _).length_le.trans (hsum s.toList)

/-- Only a leading NUL separates a bounded text from a text its column admits. -/
theorem sqlText_iff {maxLength : ℕ} (s : BoundedText maxLength) :
    sqlText maxLength s.1 ↔ s.1.toList.head? ≠ some (Char.ofNat 0) := by
  have hb := s.2
  simp only [boundedText, Bool.and_eq_true, decide_eq_true_eq] at hb
  have hle := (sqlLength_le_utf16Length s.1).trans hb.2
  have hpos : 1 ≤ sqlLength s.1 ↔ s.1.toList.head? ≠ some (Char.ofNat 0) := by
    unfold sqlLength
    have hne := hb.1
    unfold text at hne
    cases h : s.1.toList with
    | nil => simp [h] at hne
    | cons c l =>
      by_cases hc : c = Char.ofNat 0
      · simp [hc]
      · rw [List.takeWhile_cons_of_pos (by simpa using hc)]
        simpa using hc
  exact ⟨fun h => hpos.mp h.1, fun h => ⟨hpos.mpr h, hle⟩⟩

theorem diagnosticTag_bounded {s : String} (h : diagnosticTag s) : boundedText 128 s := by
  simp only [diagnosticTag, Bool.and_eq_true] at h
  exact h.1

theorem diagnosticTag_sqlText (s : DiagnosticTag) : sqlText 128 s.1 := by
  refine (sqlText_iff ⟨s.1, diagnosticTag_bounded s.2⟩).mpr ?_
  intro h
  have hs := s.2
  simp only [diagnosticTag, Bool.and_eq_true, List.all_eq_true] at hs
  have := hs.2 _ (List.mem_of_head? h)
  revert this
  decide

section Instants

def decimal (digits : List Char) : ℕ :=
  digits.foldl (fun v c => 10 * v + (c.toNat - '0'.toNat)) 0

def takeDigits (n : ℕ) (cs : List Char) : Option (ℕ × List Char) :=
  if (cs.take n).length = n ∧ (cs.take n).all Char.isDigit then
    some (decimal (cs.take n), cs.drop n)
  else none

def takeChar (c : Char) : List Char → Option (List Char)
  | [] => none
  | d :: cs => if d = c then some cs else none

def isLeapYear (year : ℤ) : Bool :=
  year % 4 = 0 && (year % 100 ≠ 0 || year % 400 = 0)

def daysInMonth (year : ℤ) (month : ℕ) : ℕ :=
  match month with
  | 2 => if isLeapYear year then 29 else 28
  | 4 | 6 | 9 | 11 => 30
  | _ => 31

/-- The part of an instant after its year, `-MM-DDTHH:MM:SS.mmmZ`, as its six numbers. -/
def parseWithinYear (cs : List Char) : Option (List ℕ) := do
  let cs ← takeChar '-' cs
  let (month, cs) ← takeDigits 2 cs
  let cs ← takeChar '-' cs
  let (day, cs) ← takeDigits 2 cs
  let cs ← takeChar 'T' cs
  let (hour, cs) ← takeDigits 2 cs
  let cs ← takeChar ':' cs
  let (minute, cs) ← takeDigits 2 cs
  let cs ← takeChar ':' cs
  let (second, cs) ← takeDigits 2 cs
  let cs ← takeChar '.' cs
  let (milli, cs) ← takeDigits 3 cs
  let cs ← takeChar 'Z' cs
  if cs = [] then some [month, day, hour, minute, second, milli] else none

def validWithinYear (year : ℤ) : List ℕ → Bool
  | [month, day, hour, minute, second, _] =>
    1 ≤ month && month ≤ 12 && 1 ≤ day && day ≤ daysInMonth year month && hour ≤ 23 &&
      minute ≤ 59 && second ≤ 59
  | _ => false

/-- Time values reach from -271821-04-20 to +275760-09-13, both at midnight. -/
def withinTimeRange (year : ℤ) (fields : List ℕ) : Bool :=
  (-271821 < year || (year = -271821 && [4, 20, 0, 0, 0, 0] ≤ fields)) &&
    (year < 275760 || (year = 275760 && fields ≤ [9, 13, 0, 0, 0, 0]))

def plainInstant (s : String) : Bool :=
  match takeDigits 4 s.toList with
  | some (year, cs) => (parseWithinYear cs).any (validWithinYear year)
  | none => false

def signedYear (c : Char) (digits : ℕ) : Option ℤ :=
  if c = '+' ∧ 10000 ≤ digits then some digits
  else if c = '-' ∧ 1 ≤ digits then some (-digits)
  else none

def expandedInstant (s : String) : Bool :=
  match s.toList with
  | [] => false
  | c :: cs =>
    match takeDigits 6 cs with
    | some (digits, cs) =>
      match signedYear c digits with
      | some year =>
        (parseWithinYear cs).any (fun f => validWithinYear year f && withinTimeRange year f)
      | none => false
    | none => false

/-- The strings that `Date.parse` reads and `toISOString` writes back unchanged. -/
def requiredInstant (s : String) : Bool := plainInstant s || expandedInstant s

abbrev Instant := {s : String // requiredInstant s}

/-- The column check `length(x)=24 AND substr(x,11,1)='T' AND substr(x,24,1)='Z'`. -/
def sqlInstant (s : String) : Prop :=
  sqlLength s = 24 ∧ s.toList[10]? = some 'T' ∧ s.toList[23]? = some 'Z'

instance : DecidablePred sqlInstant := fun _ => inferInstanceAs (Decidable (_ ∧ _ ∧ _))

theorem takeDigits_eq_some {n v : ℕ} {cs rest : List Char}
    (h : takeDigits n cs = some (v, rest)) :
    ∃ ds, ds.length = n ∧ (∀ d ∈ ds, d.isDigit) ∧ cs = ds ++ rest := by
  unfold takeDigits at h
  split_ifs at h with hd
  simp only [Option.some.injEq, Prod.mk.injEq] at h
  refine ⟨cs.take n, hd.1, List.all_eq_true.mp hd.2, ?_⟩
  rw [← h.2, List.take_append_drop]

theorem takeChar_eq_some {c : Char} {cs rest : List Char} (h : takeChar c cs = some rest) :
    cs = c :: rest := by
  cases cs with
  | nil => cases h
  | cons d cs =>
    change (if d = c then some cs else none) = some rest at h
    split_ifs at h with hd
    cases h
    rw [hd]

theorem isDigit_ne_nul {c : Char} (h : c.isDigit) : c ≠ Char.ofNat 0 := by
  rintro rfl
  revert h
  decide

/-- The layout of the part after the year: 20 characters with `T` and `Z` in their places. -/
theorem parseWithinYear_layout {cs : List Char} {fields : List ℕ}
    (h : parseWithinYear cs = some fields) :
    cs.length = 20 ∧ cs[6]? = some 'T' ∧ cs[19]? = some 'Z' ∧ ∀ c ∈ cs, c ≠ Char.ofNat 0 := by
  simp only [parseWithinYear, Option.bind_eq_bind, Option.bind_eq_some_iff, Prod.exists] at h
  obtain ⟨c₀, h₀, month, c₁, h₁, c₂, h₂, day, c₃, h₃, c₄, h₄, hour, c₅, h₅, c₆, h₆,
    minute, c₇, h₇, c₈, h₈, second, c₉, h₉, c₁₀, h₁₀, milli, c₁₁, h₁₁, c₁₂, h₁₂, hend⟩ := h
  split_ifs at hend with hnil
  obtain ⟨d₁, n₁, b₁, e₁⟩ := takeDigits_eq_some h₁
  obtain ⟨d₃, n₃, b₃, e₃⟩ := takeDigits_eq_some h₃
  obtain ⟨d₅, n₅, b₅, e₅⟩ := takeDigits_eq_some h₅
  obtain ⟨d₇, n₇, b₇, e₇⟩ := takeDigits_eq_some h₇
  obtain ⟨d₉, n₉, b₉, e₉⟩ := takeDigits_eq_some h₉
  obtain ⟨d₁₁, n₁₁, b₁₁, e₁₁⟩ := takeDigits_eq_some h₁₁
  have hcs : cs = '-' :: (d₁ ++ '-' :: (d₃ ++ 'T' :: (d₅ ++ ':' :: (d₇ ++ ':' ::
      (d₉ ++ '.' :: (d₁₁ ++ ['Z'])))))) := by
    rw [takeChar_eq_some h₀, e₁, takeChar_eq_some h₂, e₃, takeChar_eq_some h₄, e₅,
      takeChar_eq_some h₆, e₇, takeChar_eq_some h₈, e₉, takeChar_eq_some h₁₀, e₁₁,
      takeChar_eq_some h₁₂, hnil]
  obtain ⟨x₁, y₁, rfl⟩ := List.length_eq_two.mp n₁
  obtain ⟨x₃, y₃, rfl⟩ := List.length_eq_two.mp n₃
  obtain ⟨x₅, y₅, rfl⟩ := List.length_eq_two.mp n₅
  obtain ⟨x₇, y₇, rfl⟩ := List.length_eq_two.mp n₇
  obtain ⟨x₉, y₉, rfl⟩ := List.length_eq_two.mp n₉
  obtain ⟨x₁₁, y₁₁, z₁₁, rfl⟩ := List.length_eq_three.mp n₁₁
  refine ⟨by rw [hcs]; rfl, by rw [hcs]; rfl, by rw [hcs]; rfl, ?_⟩
  intro c hc
  have hdigit : c.isDigit ∨ c = '-' ∨ c = 'T' ∨ c = ':' ∨ c = '.' ∨ c = 'Z' := by
    simp only [List.mem_cons, List.not_mem_nil, or_false] at b₁ b₃ b₅ b₇ b₉ b₁₁
    rw [hcs] at hc
    simp only [List.cons_append, List.nil_append, List.mem_cons, List.not_mem_nil, or_false] at hc
    grind
  rcases hdigit with hd | rfl | rfl | rfl | rfl | rfl
  · exact isDigit_ne_nul hd
  all_goals decide

theorem sqlLength_eq_length {s : String} (h : ∀ c ∈ s.toList, c ≠ Char.ofNat 0) :
    sqlLength s = s.toList.length := by
  have hall : s.toList.takeWhile (· ≠ Char.ofNat 0) = s.toList :=
    List.takeWhile_eq_self_iff.mpr (fun c hc => by simpa using h c hc)
  rw [sqlLength, hall]

theorem plainInstant_layout {s : String} (h : plainInstant s) :
    sqlInstant s ∧ ∃ c cs, s.toList = c :: cs ∧ c.isDigit := by
  unfold plainInstant at h
  split at h
  · rename_i year cs hy
    obtain ⟨ds, hn, hb, hs⟩ := takeDigits_eq_some hy
    obtain ⟨fields, hf, -⟩ := (Option.any_eq_true _ _).mp h
    obtain ⟨hl, hT, hZ, hnul⟩ := parseWithinYear_layout hf
    have hnul' : ∀ c ∈ s.toList, c ≠ Char.ofNat 0 := by
      intro c hc
      rw [hs, List.mem_append] at hc
      rcases hc with hc | hc
      · exact isDigit_ne_nul (hb c hc)
      · exact hnul c hc
    refine ⟨⟨?_, ?_, ?_⟩, ?_⟩
    · rw [sqlLength_eq_length hnul', hs, List.length_append, hn, hl]
    · rw [hs, List.getElem?_append_right (by omega), hn, hT]
    · rw [hs, List.getElem?_append_right (by omega), hn, hZ]
    · cases ds with
      | nil => simp at hn
      | cons d ds => exact ⟨d, ds ++ cs, hs, hb d (List.mem_cons_self)⟩
  · cases h

theorem signedYear_sign {c : Char} {digits : ℕ} {year : ℤ} (h : signedYear c digits = some year) :
    c = '+' ∨ c = '-' := by
  unfold signedYear at h
  split_ifs at h with hp hm
  · exact Or.inl hp.1
  · exact Or.inr hm.1

theorem expandedInstant_layout {s : String} (h : expandedInstant s) :
    ¬ sqlInstant s ∧ ∃ c cs, s.toList = c :: cs ∧ (c = '+' ∨ c = '-') := by
  unfold expandedInstant at h
  split at h
  · cases h
  · rename_i c cs hs
    split at h
    · rename_i digits cs' hy
      split at h
      · rename_i year hsign
        obtain ⟨ds, hn, hb, hcs⟩ := takeDigits_eq_some hy
        obtain ⟨fields, hf, -⟩ := (Option.any_eq_true _ _).mp h
        obtain ⟨hl, -, -, hnul⟩ := parseWithinYear_layout hf
        have hc := signedYear_sign hsign
        refine ⟨?_, c, cs, hs, hc⟩
        intro hi
        have hnul' : ∀ x ∈ s.toList, x ≠ Char.ofNat 0 := by
          intro x hx
          rw [hs, hcs, List.mem_cons, List.mem_append] at hx
          rcases hx with rfl | hx | hx
          · rcases hc with rfl | rfl <;> decide
          · exact isDigit_ne_nul (hb x hx)
          · exact hnul x hx
        have hlen := hi.1
        rw [sqlLength_eq_length hnul', hs, hcs, List.length_cons, List.length_append, hn,
          hl] at hlen
        omega
      · cases h
    · cases h

theorem sign_lt_digit {c d : Char} (hc : c = '+' ∨ c = '-') (hd : d.isDigit) : c < d := by
  have hd' : 48 ≤ d.toNat := by
    simp only [Char.isDigit, Bool.and_eq_true, decide_eq_true_eq, ge_iff_le,
      UInt32.le_iff_toNat_le] at hd
    exact hd.1
  have hlt : c.toNat < d.toNat := by
    rcases hc with rfl | rfl
    · exact lt_of_lt_of_le (by decide) hd'
    · exact lt_of_lt_of_le (by decide) hd'
  exact hlt

/-- An instant not before one that a column admits is itself admitted. -/
theorem sqlInstant_of_le {a b : Instant} (ha : sqlInstant a.1) (hab : a ≤ b) : sqlInstant b.1 := by
  have hb := b.2
  simp only [requiredInstant, Bool.or_eq_true] at hb
  rcases hb with hb | hb
  · exact (plainInstant_layout hb).1
  · exfalso
    have ha' := a.2
    simp only [requiredInstant, Bool.or_eq_true] at ha'
    rcases ha' with ha' | ha'
    · obtain ⟨-, d, ds, hd, hdigit⟩ := plainInstant_layout ha'
      obtain ⟨-, c, cs, hc, hsign⟩ := expandedInstant_layout hb
      have hlt : b.1 < a.1 := by
        rw [String.lt_iff_toList_lt, hc, hd]
        exact List.Lex.rel (sign_lt_digit hsign hdigit)
      exact absurd hab (not_le_of_gt hlt)
    · exact (expandedInstant_layout ha').1 ha

end Instants

end Piclaw
