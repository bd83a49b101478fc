import Piclaw.CanonicalNumbers

/-!
# Canonical requests are faithful

Two values have one canonical text exactly when they are the same value up to what the text leaves
out: undefined entries, omitted keys, the order of an object's keys and the sign of zero. A text is
taken apart from its start, where each value ends before what follows it.
-/

namespace Piclaw.CanonicalText

section Strings

def unhex (u : ℕ) : ℕ := if u < 58 then u - 48 else u - 87

def shortEscape (u : ℕ) : ℕ :=
  if u = 98 then 8 else if u = 116 then 9 else if u = 110 then 10 else if u = 102 then 12
  else if u = 114 then 13 else u

def consUnit (u : ℕ) (answer : Option (Units × Units)) : Option (Units × Units) :=
  answer.map fun (s, t) => (u :: s, t)

/-- A string's units up to its closing quote, and what follows. -/
def unescape : Units → Option (Units × Units)
  | [] => none
  | u :: rest =>
    if u = 34 then some ([], rest)
    else if u = 92 then
      match rest with
      | 117 :: a :: b :: c :: d :: rest =>
        consUnit (4096 * unhex a + 256 * unhex b + 16 * unhex c + unhex d) (unescape rest)
      | e :: rest => consUnit (shortEscape e) (unescape rest)
      | [] => none
    else consUnit u (unescape rest)

theorem unescape_raw {u : ℕ} {t : Units} (hquote : u ≠ 34) (hslash : u ≠ 92) :
    unescape (u :: t) = consUnit u (unescape t) := by
  rw [unescape.eq_def]
  simp only [if_neg hquote, if_neg hslash]

theorem unescape_quote (t : Units) : unescape (34 :: t) = some ([], t) := by
  rw [unescape.eq_def]
  simp only [reduceIte]

theorem unescape_short {e : ℕ} (t : Units) (he : e ≠ 117) :
    unescape (92 :: e :: t) = consUnit (shortEscape e) (unescape t) := by
  conv_lhs => rw [unescape.eq_def]
  simp only [reduceIte, Nat.reduceEqDiff]
  split
  · rename_i heq
    cases heq
    exact absurd rfl he
  · rename_i heq
    cases heq
    rfl
  · rename_i heq
    cases heq

theorem unhex_hexDigit {d : ℕ} (h : d < 16) : unhex (hexDigit d) = d := by
  unfold unhex hexDigit
  split_ifs <;> omega

theorem unescape_unicodeEscape {u : ℕ} {t : Units} (h : u < 65536) :
    unescape (unicodeEscape u ++ t) = consUnit u (unescape t) := by
  have hmod : ∀ n, unhex (hexDigit (n % 16)) = n % 16 := fun n =>
    unhex_hexDigit (Nat.mod_lt n (by norm_num))
  have hvalue : 4096 * unhex (hexDigit (u / 4096 % 16)) + 256 * unhex (hexDigit (u / 256 % 16)) +
      16 * unhex (hexDigit (u / 16 % 16)) + unhex (hexDigit (u % 16)) = u := by
    rw [hmod, hmod, hmod, hmod]
    omega
  unfold unicodeEscape
  simp only [List.cons_append, List.nil_append]
  rw [unescape.eq_def]
  simp only [reduceIte, Nat.reduceEqDiff]
  rw [hvalue]

theorem unescape_escapeUnit (u : ℕ) (t : Units) :
    unescape (escapeUnit u ++ t) = consUnit u (unescape t) := by
  have hshort : ∀ e v, e ≠ 117 → shortEscape e = v →
      unescape ([92, e] ++ t) = consUnit v (unescape t) := by
    intro e v he hv
    subst hv
    exact unescape_short t he
  unfold escapeUnit
  split_ifs with h8 h9 h10 h12 h13 h34 h92 hunicode
  · subst h8
    exact hshort 98 8 (by decide) rfl
  · subst h9
    exact hshort 116 9 (by decide) rfl
  · subst h10
    exact hshort 110 10 (by decide) rfl
  · subst h12
    exact hshort 102 12 (by decide) rfl
  · subst h13
    exact hshort 114 13 (by decide) rfl
  · subst h34
    exact hshort 34 34 (by decide) rfl
  · subst h92
    exact hshort 92 92 (by decide) rfl
  · refine unescape_unicodeEscape ?_
    simp only [highSurrogate, lowSurrogate, Bool.and_eq_true, decide_eq_true_eq] at hunicode
    omega
  · exact unescape_raw h34 h92

/-- The escaped units of a string are read back up to its closing quote. -/
theorem unescape_escape (s t : Units) : unescape (escape s ++ 34 :: t) = some (s, t) := by
  induction s using escape.induct with
  | case1 => exact unescape_quote t
  | case2 u =>
    rw [escape, unescape_escapeUnit, unescape_quote]
    rfl
  | case3 u v rest hpair ih =>
    rw [escape, if_pos hpair]
    simp only [Bool.and_eq_true, highSurrogate, lowSurrogate, decide_eq_true_eq] at hpair
    rw [List.cons_append, List.cons_append, unescape_raw (by omega) (by omega),
      unescape_raw (by omega) (by omega), ih]
    rfl
  | case4 u v rest hpair ih =>
    rw [escape, if_neg hpair, List.append_assoc, unescape_escapeUnit, ih]
    rfl

theorem quote_append {s s' t t' : Units} (h : quote s ++ t = quote s' ++ t') :
    s = s' ∧ t = t' := by
  unfold quote at h
  simp only [List.cons_append, List.append_assoc, List.nil_append, List.cons.injEq, true_and] at h
  have hread := congrArg unescape h
  rw [unescape_escape, unescape_escape] at hread
  cases hread
  exact ⟨rfl, rfl⟩

end Strings

section Same

mutual

/-- An object has each key once, at every level. -/
def Distinct : CanonicalJsonValue → Prop
  | .array items => DistinctItems items
  | .object entries => (entries.map Prod.fst).Nodup ∧ DistinctEntries entries
  | _ => True

def DistinctItems : List CanonicalJsonValue → Prop
  | [] => True
  | v :: items => Distinct v ∧ DistinctItems items

def DistinctEntries : List (Units × Option CanonicalJsonValue) → Prop
  | [] => True
  | (_, none) :: entries => DistinctEntries entries
  | (_, some v) :: entries => Distinct v ∧ DistinctEntries entries

end

/-- The value that an object has under a key that is not omitted, unless it is undefined. -/
def live (entries : List (Units × Option CanonicalJsonValue)) (k : Units) :
    Option CanonicalJsonValue :=
  if omittedRequestHashField k then none
  else (entries.find? fun e => decide (e.1 = k)).bind Prod.snd

/-- Equal after removing undefined entries and omitted keys at every level, whatever the order of
keys and the sign of zero. -/
inductive Same : CanonicalJsonValue → CanonicalJsonValue → Prop
  | null : Same .null .null
  | boolean (b : Bool) : Same (.boolean b) (.boolean b)
  | number {x y : FiniteNumber} (h : SameNumber x y) : Same (.number x) (.number y)
  | string (s : Units) : Same (.string s) (.string s)
  | array {items items' : List CanonicalJsonValue} (hlength : items.length = items'.length)
      (hitems : ∀ (i : ℕ) v w, items[i]? = some v → items'[i]? = some w → Same v w) :
      Same (.array items) (.array items')
  | object {entries entries' : List (Units × Option CanonicalJsonValue)}
      (hkeys : ∀ k, (live entries k).isSome ↔ (live entries' k).isSome)
      (hvalues : ∀ k v w, live entries k = some v → live entries' k = some w → Same v w) :
      Same (.object entries) (.object entries')

end Same

section Joined

variable {α : Type} {enc : α → Units} {R : α → α → Prop} {closing : ℕ}

theorem intercalate_map (v : α) (items : List α) :
    [44].intercalate ((v :: items).map enc) = enc v ++ items.flatMap fun w => 44 :: enc w := by
  induction items generalizing v with
  | nil => simp [List.intercalate]
  | cons w items ih =>
    have hcons := ih w
    simp only [List.map_cons] at hcons ⊢
    rw [List.intercalate_cons_cons, hcons]
    simp

theorem terminated_cons {u : ℕ} (h : isNumberUnit u = false) (t : Units) :
    Terminated (u :: t) := by
  intro v hv
  cases hv
  exact h

theorem terminated_tail (hclosing : isNumberUnit closing = false) (items : List α) (t : Units) :
    Terminated ((items.flatMap fun w => 44 :: enc w) ++ closing :: t) := by
  cases items with
  | nil => exact terminated_cons hclosing t
  | cons w items => exact terminated_cons rfl _

theorem tail_unique (hcomma : closing ≠ 44) (hclosing : isNumberUnit closing = false)
    {items items' : List α} {t t' : Units}
    (hsplit : ∀ v ∈ items, ∀ w ∈ items', ∀ s s', Terminated s → Terminated s' →
      enc v ++ s = enc w ++ s' → R v w ∧ s = s')
    (h : (items.flatMap fun w => 44 :: enc w) ++ closing :: t =
      (items'.flatMap fun w => 44 :: enc w) ++ closing :: t') :
    List.Forall₂ R items items' ∧ t = t' := by
  induction items generalizing items' with
  | nil =>
    cases items' with
    | nil =>
      cases h
      exact ⟨List.Forall₂.nil, rfl⟩
    | cons w items' =>
      cases h
      exact absurd rfl hcomma
  | cons v items ih =>
    cases items' with
    | nil =>
      cases h
      exact absurd rfl hcomma
    | cons w items' =>
      simp only [List.flatMap_cons, List.cons_append, List.append_assoc, List.cons.injEq,
        true_and] at h
      obtain ⟨hvw, hrest⟩ := hsplit v List.mem_cons_self w List.mem_cons_self _ _
        (terminated_tail hclosing items t) (terminated_tail hclosing items' t') h
      obtain ⟨hitems, ht⟩ := ih (fun v hv w hw => hsplit v (List.mem_cons_of_mem _ hv) w
        (List.mem_cons_of_mem _ hw)) hrest
      exact ⟨List.Forall₂.cons hvw hitems, ht⟩

theorem enclosed_unique (opening : ℕ) (hcomma : closing ≠ 44)
    (hclosing : isNumberUnit closing = false) (hhead : ∀ v, (enc v).head? ≠ some closing)
    (hne : ∀ v, enc v ≠ []) {items items' : List α} {t t' : Units}
    (hsplit : ∀ v ∈ items, ∀ w ∈ items', ∀ s s', Terminated s → Terminated s' →
      enc v ++ s = enc w ++ s' → R v w ∧ s = s')
    (h : enclosed opening closing (items.map enc) ++ t =
      enclosed opening closing (items'.map enc) ++ t') :
    List.Forall₂ R items items' ∧ t = t' := by
  have hstart : ∀ v (s s' : Units), closing :: s ≠ enc v ++ s' := by
    intro v s s' heq
    obtain ⟨u, rest, hv⟩ := List.exists_cons_of_ne_nil (hne v)
    rw [hv] at heq
    refine hhead v ?_
    cases heq
    rw [hv]
    rfl
  unfold enclosed at h
  simp only [List.cons_append, List.append_assoc, List.nil_append, List.cons.injEq,
    true_and] at h
  cases items with
  | nil =>
    cases items' with
    | nil =>
      cases h
      exact ⟨List.Forall₂.nil, rfl⟩
    | cons w items' =>
      rw [intercalate_map, List.append_assoc] at h
      exact absurd h (hstart w _ _)
  | cons v items =>
    rw [intercalate_map, List.append_assoc] at h
    cases items' with
    | nil => exact absurd h.symm (hstart v _ _)
    | cons w items' =>
      rw [intercalate_map, List.append_assoc] at h
      obtain ⟨hvw, hrest⟩ := hsplit v List.mem_cons_self w List.mem_cons_self _ _
        (terminated_tail hclosing items t) (terminated_tail hclosing items' t') h
      obtain ⟨hitems, ht⟩ := tail_unique hcomma hclosing (fun v hv w hw => hsplit v
        (List.mem_cons_of_mem _ hv) w (List.mem_cons_of_mem _ hw)) hrest
      exact ⟨List.Forall₂.cons hvw hitems, ht⟩

end Joined

section Survivors

/-- `survivingEntries` before the values are printed. -/
def survivors (entries : List (Units × Option CanonicalJsonValue)) :
    List (Units × CanonicalJsonValue) :=
  (entries.filterMap fun e =>
    if omittedRequestHashField e.1 then none else e.2.map fun v => (e.1, v)).insertionSort
      fun a b => a.1 ≤ b.1

theorem canonicaliseItems_eq (items : List CanonicalJsonValue) :
    canonicaliseItems items = items.map canonicaliseRequest := by
  induction items with
  | nil => rw [canonicaliseItems, List.map_nil]
  | cons v items ih => rw [canonicaliseItems, ih, List.map_cons]

theorem canonicaliseEntries_eq (entries : List (Units × Option CanonicalJsonValue)) :
    canonicaliseEntries entries = entries.map fun e => (e.1, e.2.map canonicaliseRequest) := by
  induction entries with
  | nil => rw [canonicaliseEntries, List.map_nil]
  | cons e entries ih =>
    obtain ⟨k, v⟩ := e
    cases v with
    | none => rw [canonicaliseEntries, ih, List.map_cons, Option.map_none]
    | some v => rw [canonicaliseEntries, ih, List.map_cons, Option.map_some]

theorem survivingEntries_eq (entries : List (Units × Option CanonicalJsonValue)) :
    survivingEntries (canonicaliseEntries entries) =
      (survivors entries).map fun e => (e.1, canonicaliseRequest e.2) := by
  unfold survivingEntries survivors
  rw [List.map_insertionSort (fun a b => a.1 ≤ b.1) (fun a b => a.1 ≤ b.1)
    (fun e : Units × CanonicalJsonValue => (e.1, canonicaliseRequest e.2)) _
    (fun _ _ _ _ => Iff.rfl)]
  congr 1
  rw [canonicaliseEntries_eq, List.filterMap_map, List.map_filterMap]
  congr 1
  funext e
  simp only [Function.comp_apply]
  split_ifs
  · rfl
  · cases e.2 <;> rfl

theorem mem_survivors {entries : List (Units × Option CanonicalJsonValue)} {k : Units}
    {v : CanonicalJsonValue} :
    (k, v) ∈ survivors entries ↔ (k, some v) ∈ entries ∧ omittedRequestHashField k = false := by
  unfold survivors
  rw [List.mem_insertionSort, List.mem_filterMap]
  constructor
  · rintro ⟨⟨k', w⟩, he, hsome⟩
    split_ifs at hsome with homitted
    obtain ⟨v', hw, hpair⟩ := Option.map_eq_some_iff.mp hsome
    cases hpair
    exact ⟨hw ▸ he, Bool.eq_false_iff.mpr homitted⟩
  · rintro ⟨he, homitted⟩
    exact ⟨(k, some v), he, by rw [homitted]; rfl⟩

theorem eq_of_nodup_keys {β : Type} {entries : List (Units × β)}
    (hnodup : (entries.map Prod.fst).Nodup) {k : Units} {v w : β} (hv : (k, v) ∈ entries)
    (hw : (k, w) ∈ entries) : v = w := by
  have heq := List.inj_on_of_nodup_map hnodup hv hw rfl
  cases heq
  rfl

theorem live_eq_some {entries : List (Units × Option CanonicalJsonValue)}
    (hnodup : (entries.map Prod.fst).Nodup) {k : Units} {v : CanonicalJsonValue} :
    live entries k = some v ↔ (k, v) ∈ survivors entries := by
  rw [mem_survivors]
  unfold live
  split_ifs with homitted
  · exact ⟨fun h => absurd h (by simp), fun h => absurd homitted (Bool.eq_false_iff.mp h.2)⟩
  constructor
  · intro h
    obtain ⟨⟨k', w⟩, hfind, hw⟩ := Option.bind_eq_some_iff.mp h
    have hk := List.find?_some hfind
    rw [decide_eq_true_eq] at hk
    subst hk
    subst hw
    exact ⟨List.mem_of_find?_eq_some hfind, Bool.eq_false_iff.mpr homitted⟩
  · rintro ⟨he, -⟩
    cases hfind : entries.find? fun e => decide (e.1 = k) with
    | none => exact absurd rfl (of_decide_eq_false
        (Bool.eq_false_iff.mpr (List.find?_eq_none.mp hfind _ he)))
    | some e =>
      obtain ⟨k', w⟩ := e
      have hk := List.find?_some hfind
      rw [decide_eq_true_eq] at hk
      subst hk
      rw [Option.bind_some, eq_of_nodup_keys hnodup (List.mem_of_find?_eq_some hfind) he]

theorem survivors_keys_nodup {entries : List (Units × Option CanonicalJsonValue)}
    (hnodup : (entries.map Prod.fst).Nodup) : ((survivors entries).map Prod.fst).Nodup := by
  unfold survivors
  rw [((List.perm_insertionSort _ _).map Prod.fst).nodup_iff]
  refine List.Nodup.sublist ?_ hnodup
  induction entries with
  | nil => exact List.Sublist.refl _
  | cons e entries ih =>
    have hsub := ih (List.nodup_cons.mp hnodup).2
    rw [List.filterMap_cons]
    split
    · exact List.Sublist.cons _ hsub
    · rename_i pair hpair
      split_ifs at hpair
      obtain ⟨v, -, rfl⟩ := Option.map_eq_some_iff.mp hpair
      exact List.Sublist.cons_cons _ hsub

theorem survivors_sorted (entries : List (Units × Option CanonicalJsonValue)) :
    (survivors entries).Pairwise fun a b => a.1 ≤ b.1 := by
  have htotal : Std.Total fun a b : Units × CanonicalJsonValue => a.1 ≤ b.1 :=
    ⟨fun a b => le_total a.1 b.1⟩
  have htrans : IsTrans (Units × CanonicalJsonValue) fun a b => a.1 ≤ b.1 :=
    ⟨fun _ _ _ hab hbc => le_trans hab hbc⟩
  exact List.pairwise_insertionSort _ _

end Survivors

section Faithful

/-- The kinds of value, and the kind that the first unit of a text shows. -/
def kind : CanonicalJsonValue → ℕ
  | .null => 0
  | .boolean _ => 1
  | .number _ => 2
  | .string _ => 3
  | .array _ => 4
  | .object _ => 5

def kindOf (u : ℕ) : ℕ :=
  if u = 110 then 0 else if u = 116 then 1 else if u = 102 then 1 else if u = 34 then 3
  else if u = 91 then 4 else if u = 123 then 5 else 2

theorem canonicaliseRequest_head (a : CanonicalJsonValue) :
    ∃ u rest, canonicaliseRequest a = u :: rest ∧ kindOf u = kind a ∧ u ≠ 93 := by
  cases a with
  | null => exact ⟨110, _, by rw [canonicaliseRequest]; rfl, rfl, by omega⟩
  | boolean b =>
    cases b with
    | true => exact ⟨116, _, by rw [canonicaliseRequest]; rfl, rfl, by omega⟩
    | false => exact ⟨102, _, by rw [canonicaliseRequest]; rfl, rfl, by omega⟩
  | number x =>
    obtain ⟨u, rest, htext, hu⟩ := numberText_head x
    have hunit : u = 45 ∨ 48 ≤ u ∧ u ≤ 57 := by
      rcases hu with ⟨hu, -⟩ | ⟨hu, -⟩
      · exact Or.inl hu
      · simp only [isDigitUnit, Bool.and_eq_true, decide_eq_true_eq] at hu
        exact Or.inr hu
    have hkind : kindOf u = 2 := by
      unfold kindOf
      split_ifs <;> omega
    exact ⟨u, rest, by rw [canonicaliseRequest, htext], hkind, by omega⟩
  | string s => exact ⟨34, _, by rw [canonicaliseRequest]; rfl, rfl, by omega⟩
  | array items => exact ⟨91, _, by rw [canonicaliseRequest]; rfl, rfl, by omega⟩
  | object entries => exact ⟨123, _, by rw [canonicaliseRequest]; rfl, rfl, by omega⟩

theorem kind_eq {a b : CanonicalJsonValue} {t t' : Units}
    (h : canonicaliseRequest a ++ t = canonicaliseRequest b ++ t') : kind a = kind b := by
  obtain ⟨u, rest, ha, hu, -⟩ := canonicaliseRequest_head a
  obtain ⟨u', rest', hb, hu', -⟩ := canonicaliseRequest_head b
  rw [ha, hb] at h
  have hunit : u = u' := (List.cons.inj h).1
  rw [← hu, ← hu', hunit]

theorem Distinct.item {items : List CanonicalJsonValue} (h : DistinctItems items)
    {v : CanonicalJsonValue} (hv : v ∈ items) : Distinct v := by
  induction items with
  | nil => cases hv
  | cons w items ih =>
    rw [DistinctItems] at h
    rcases List.mem_cons.mp hv with rfl | hv
    · exact h.1
    · exact ih h.2 hv

theorem Distinct.entry {entries : List (Units × Option CanonicalJsonValue)}
    (h : DistinctEntries entries) {k : Units} {v : CanonicalJsonValue}
    (hv : (k, some v) ∈ entries) : Distinct v := by
  induction entries with
  | nil => cases hv
  | cons e entries ih =>
    obtain ⟨k', w⟩ := e
    cases w with
    | none =>
      rw [DistinctEntries] at h
      rcases List.mem_cons.mp hv with heq | hv
      · cases heq
      · exact ih h hv
    | some w =>
      rw [DistinctEntries] at h
      rcases List.mem_cons.mp hv with heq | hv
      · cases heq
        exact h.1
      · exact ih h.2 hv

theorem sizeOf_entry {entries : List (Units × Option CanonicalJsonValue)} {k : Units}
    {v : CanonicalJsonValue} (h : (k, some v) ∈ entries) :
    sizeOf v < sizeOf (CanonicalJsonValue.object entries) := by
  have hlt := List.sizeOf_lt_of_mem h
  simp only [Prod.mk.sizeOf_spec, Option.some.sizeOf_spec,
    CanonicalJsonValue.object.sizeOf_spec] at hlt ⊢
  omega

theorem sizeOf_item {items : List CanonicalJsonValue} {v : CanonicalJsonValue} (h : v ∈ items) :
    sizeOf v < sizeOf (CanonicalJsonValue.array items) := by
  have hlt := List.sizeOf_lt_of_mem h
  simp only [CanonicalJsonValue.array.sizeOf_spec]
  omega

theorem same_array {items items' : List CanonicalJsonValue}
    (h : List.Forall₂ Same items items') : Same (.array items) (.array items') := by
  refine Same.array h.length_eq fun i v w hv hw => ?_
  obtain ⟨hi, hv⟩ := List.getElem?_eq_some_iff.mp hv
  obtain ⟨hi', hw⟩ := List.getElem?_eq_some_iff.mp hw
  have hget := (List.forall₂_iff_get.mp h).2 i hi hi'
  rw [List.get_eq_getElem, List.get_eq_getElem] at hget
  rwa [hv, hw] at hget

theorem forall₂_mem {α : Type} {R : α → α → Prop} {l l' : List α} (h : List.Forall₂ R l l') :
    (∀ a ∈ l, ∃ b ∈ l', R a b) ∧ ∀ b ∈ l', ∃ a ∈ l, R a b := by
  induction h with
  | nil => exact ⟨fun a ha => absurd ha List.not_mem_nil, fun b hb => absurd hb List.not_mem_nil⟩
  | @cons a b l l' hab _ ih =>
    constructor
    · intro c hc
      rcases List.mem_cons.mp hc with rfl | hc
      · exact ⟨b, List.mem_cons_self, hab⟩
      · obtain ⟨d, hd, hcd⟩ := ih.1 c hc
        exact ⟨d, List.mem_cons_of_mem _ hd, hcd⟩
    · intro c hc
      rcases List.mem_cons.mp hc with rfl | hc
      · exact ⟨a, List.mem_cons_self, hab⟩
      · obtain ⟨d, hd, hcd⟩ := ih.2 c hc
        exact ⟨d, List.mem_cons_of_mem _ hd, hcd⟩

theorem same_object {entries entries' : List (Units × Option CanonicalJsonValue)}
    (hnodup : (entries.map Prod.fst).Nodup) (hnodup' : (entries'.map Prod.fst).Nodup)
    (h : List.Forall₂ (fun e e' => e.1 = e'.1 ∧ Same e.2 e'.2)
      (survivors entries) (survivors entries')) : Same (.object entries) (.object entries') := by
  obtain ⟨hleft, hright⟩ := forall₂_mem h
  refine Same.object (fun k => ⟨fun hk => ?_, fun hk => ?_⟩) fun k v w hv hw => ?_
  · obtain ⟨v, hv⟩ := Option.isSome_iff_exists.mp hk
    obtain ⟨⟨k', w⟩, hw, heq, -⟩ := hleft _ ((live_eq_some hnodup).mp hv)
    cases heq
    rw [(live_eq_some hnodup').mpr hw]
    rfl
  · obtain ⟨v, hv⟩ := Option.isSome_iff_exists.mp hk
    obtain ⟨⟨k', w⟩, hw, heq, -⟩ := hright _ ((live_eq_some hnodup').mp hv)
    cases heq
    rw [(live_eq_some hnodup).mpr hw]
    rfl
  · obtain ⟨⟨k', w'⟩, hw', heq, hsame⟩ := hleft _ ((live_eq_some hnodup).mp hv)
    cases heq
    rw [(live_eq_some hnodup').mpr hw'] at hw
    cases hw
    exact hsame

/-- A text in front of another text shows its value, up to `Same`, and where it ends. -/
theorem canonicaliseRequest_append {n : ℕ} {a b : CanonicalJsonValue} (hn : sizeOf a < n)
    (ha : Distinct a) (hb : Distinct b) {t t' : Units} (ht : Terminated t) (ht' : Terminated t')
    (h : canonicaliseRequest a ++ t = canonicaliseRequest b ++ t') : Same a b ∧ t = t' := by
  induction n generalizing a b t t' with
  | zero => omega
  | succ n ih =>
    have hkind := kind_eq h
    cases a with
    | null =>
      cases b with
      | null => exact ⟨Same.null, List.append_cancel_left h⟩
      | _ => simp [kind] at hkind
    | boolean v =>
      cases b with
      | boolean w =>
        have hvw : v = w := by
          rw [canonicaliseRequest, canonicaliseRequest] at h
          cases v <;> cases w
          · rfl
          · cases h
          · cases h
          · rfl
        subst hvw
        exact ⟨Same.boolean v, List.append_cancel_left h⟩
      | _ => simp [kind] at hkind
    | number x =>
      cases b with
      | number y =>
        rw [canonicaliseRequest, canonicaliseRequest] at h
        obtain ⟨hxy, hrest⟩ := numberText_append ht ht' h
        exact ⟨Same.number hxy, hrest⟩
      | _ => simp [kind] at hkind
    | string s =>
      cases b with
      | string s' =>
        rw [canonicaliseRequest, canonicaliseRequest] at h
        obtain ⟨rfl, hrest⟩ := quote_append h
        exact ⟨Same.string s, hrest⟩
      | _ => simp [kind] at hkind
    | array items =>
      cases b with
      | array items' =>
        rw [canonicaliseRequest, canonicaliseRequest, canonicaliseItems_eq,
          canonicaliseItems_eq] at h
        rw [Distinct] at ha hb
        have hhead : ∀ v, (canonicaliseRequest v).head? ≠ some 93 := by
          intro v hv
          obtain ⟨u, rest, htext, -, hu⟩ := canonicaliseRequest_head v
          rw [htext] at hv
          exact hu (Option.some.inj hv)
        have hne : ∀ v, canonicaliseRequest v ≠ [] := by
          intro v hv
          obtain ⟨u, rest, htext, -⟩ := canonicaliseRequest_head v
          rw [htext] at hv
          cases hv
        have hsplit : ∀ v ∈ items, ∀ w ∈ items', ∀ s s', Terminated s → Terminated s' →
            canonicaliseRequest v ++ s = canonicaliseRequest w ++ s' → Same v w ∧ s = s' := by
          intro v hv w hw s s' hs hs' heq
          have hlt := sizeOf_item hv
          exact ih (by omega) (Distinct.item ha hv) (Distinct.item hb hw) hs hs' heq
        obtain ⟨hitems, hrest⟩ := enclosed_unique 91 (by omega) rfl hhead hne hsplit h
        exact ⟨same_array hitems, hrest⟩
      | _ => simp [kind] at hkind
    | object entries =>
      cases b with
      | object entries' =>
        rw [canonicaliseRequest, canonicaliseRequest, survivingEntries_eq, survivingEntries_eq,
          List.map_map, List.map_map] at h
        rw [Distinct] at ha hb
        have hhead : ∀ e : Units × CanonicalJsonValue,
            (quote e.1 ++ 58 :: canonicaliseRequest e.2).head? ≠ some 125 := by
          intro e he
          cases he
        have hne : ∀ e : Units × CanonicalJsonValue,
            quote e.1 ++ 58 :: canonicaliseRequest e.2 ≠ [] := by
          intro e he
          cases he
        have hsplit : ∀ e ∈ survivors entries, ∀ e' ∈ survivors entries', ∀ s s', Terminated s →
            Terminated s' → quote e.1 ++ 58 :: canonicaliseRequest e.2 ++ s =
              quote e'.1 ++ 58 :: canonicaliseRequest e'.2 ++ s' →
            (e.1 = e'.1 ∧ Same e.2 e'.2) ∧ s = s' := by
          rintro ⟨k, v⟩ he ⟨k', w⟩ he' s s' hs hs' heq
          simp only [List.append_assoc] at heq
          obtain ⟨rfl, htail⟩ := quote_append heq
          have hv := mem_survivors.mp he
          have hw := mem_survivors.mp he'
          have hlt := sizeOf_entry hv.1
          have hvw := ih (by omega) (Distinct.entry ha.2 hv.1) (Distinct.entry hb.2 hw.1) hs hs'
            (List.cons.inj htail).2
          exact ⟨⟨rfl, hvw.1⟩, hvw.2⟩
        obtain ⟨hentries, hrest⟩ := enclosed_unique 123 (by omega) rfl hhead hne hsplit h
        exact ⟨same_object ha.1 hb.1 hentries, hrest⟩
      | _ => simp [kind] at hkind

/-- Lists in the order of their keys are equal when they have the same members. -/
theorem sorted_ext {β : Type} {l l' : List (Units × β)} (hl : l.Pairwise fun a b => a.1 ≤ b.1)
    (hl' : l'.Pairwise fun a b => a.1 ≤ b.1) (hnodup : (l.map Prod.fst).Nodup)
    (hnodup' : (l'.map Prod.fst).Nodup) (h : ∀ e, e ∈ l ↔ e ∈ l') : l = l' := by
  have hperm : l.Perm l' :=
    (List.perm_ext_iff_of_nodup hnodup.of_map hnodup'.of_map).mpr h
  refine hperm.eq_of_pairwise (fun a b ha hb hab hba => ?_) hl hl'
  obtain ⟨k, v⟩ := a
  obtain ⟨k', w⟩ := b
  have hk : k = k' := le_antisymm hab hba
  subst hk
  rw [eq_of_nodup_keys hnodup ha ((h _).mpr hb)]

theorem canonicaliseRequest_of_same {a b : CanonicalJsonValue} (h : Same a b) (ha : Distinct a)
    (hb : Distinct b) : canonicaliseRequest a = canonicaliseRequest b := by
  induction h with
  | null => rfl
  | boolean b => rfl
  | number hxy =>
    rw [canonicaliseRequest, canonicaliseRequest]
    rcases hxy with rfl | ⟨hx, hy⟩
    · rfl
    · rw [numberText_zero hx, numberText_zero hy]
  | string s => rfl
  | @array items items' hlength _ ih =>
    rw [Distinct] at ha hb
    rw [canonicaliseRequest, canonicaliseRequest, canonicaliseItems_eq, canonicaliseItems_eq]
    congr 1
    refine List.ext_getElem (by rw [List.length_map, List.length_map, hlength]) fun i hi hi' => ?_
    rw [List.getElem_map, List.getElem_map]
    rw [List.length_map] at hi hi'
    exact ih i _ _ (List.getElem?_eq_getElem hi) (List.getElem?_eq_getElem hi')
      (Distinct.item ha (List.getElem_mem hi)) (Distinct.item hb (List.getElem_mem hi'))
  | @object entries entries' hkeys _ ih =>
    rw [Distinct] at ha hb
    have hvalue : ∀ k v w, live entries k = some v → live entries' k = some w →
        canonicaliseRequest v = canonicaliseRequest w := by
      intro k v w hv hw
      have hv' := mem_survivors.mp ((live_eq_some ha.1).mp hv)
      have hw' := mem_survivors.mp ((live_eq_some hb.1).mp hw)
      exact ih k v w hv hw (Distinct.entry ha.2 hv'.1) (Distinct.entry hb.2 hw'.1)
    have hmem : ∀ e, e ∈ survivingEntries (canonicaliseEntries entries) ↔
        e ∈ survivingEntries (canonicaliseEntries entries') := by
      intro e
      rw [survivingEntries_eq, survivingEntries_eq, List.mem_map, List.mem_map]
      constructor
      · rintro ⟨⟨k, v⟩, hv, rfl⟩
        have hv := (live_eq_some ha.1).mpr hv
        obtain ⟨w, hw⟩ := Option.isSome_iff_exists.mp ((hkeys k).mp (by rw [hv]; rfl))
        exact ⟨(k, w), (live_eq_some hb.1).mp hw, by rw [hvalue k v w hv hw]⟩
      · rintro ⟨⟨k, w⟩, hw, rfl⟩
        have hw := (live_eq_some hb.1).mpr hw
        obtain ⟨v, hv⟩ := Option.isSome_iff_exists.mp ((hkeys k).mpr (by rw [hw]; rfl))
        exact ⟨(k, v), (live_eq_some ha.1).mp hv, by rw [hvalue k v w hv hw]⟩
    have hsorted : ∀ entries, (survivingEntries (canonicaliseEntries entries)).Pairwise
        fun a b => a.1 ≤ b.1 := by
      intro entries
      rw [survivingEntries_eq, List.pairwise_map]
      exact survivors_sorted entries
    have hnodup : ∀ entries : List (Units × Option CanonicalJsonValue),
        (entries.map Prod.fst).Nodup →
          ((survivingEntries (canonicaliseEntries entries)).map Prod.fst).Nodup := by
      intro entries hentries
      rw [survivingEntries_eq, List.map_map]
      exact survivors_keys_nodup hentries
    rw [canonicaliseRequest, canonicaliseRequest,
      sorted_ext (hsorted entries) (hsorted entries') (hnodup entries ha.1)
        (hnodup entries' hb.1) hmem]

theorem terminated_nil : Terminated [] := fun _ hu => by cases hu

/-- A value as the runtime has it: an object has each of its keys once. -/
def CanonicalRequest : Type := { v : CanonicalJsonValue // Distinct v }

/-- Two values have one canonical text exactly when they are the same up to what it leaves out. -/
theorem canonicaliseRequest_eq_iff (a b : CanonicalRequest) :
    canonicaliseRequest a.1 = canonicaliseRequest b.1 ↔ Same a.1 b.1 := by
  constructor
  · intro h
    have happend : canonicaliseRequest a.1 ++ [] = canonicaliseRequest b.1 ++ [] := by rw [h]
    have hsame := canonicaliseRequest_append (Nat.lt_succ_self _) a.2 b.2 terminated_nil
      terminated_nil happend
    exact hsame.1
  · intro h
    exact canonicaliseRequest_of_same h a.2 b.2

end Faithful

end Piclaw.CanonicalText
