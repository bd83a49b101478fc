import Piclaw.InternalTags

/-!
# Protected tags

Replacement taken one match at a time, and from it what protecting a text's tags does: no tag is
left in the text, and restoring the placeholders gives the text back. Neither sees across a
backtick.
-/

namespace Piclaw.InternalTags

open TextRuns

section Matches

variable {pattern replacement : Text}

/-- A text starts with a match, or with a character that starts none. -/
theorem match_induction (hne : pattern ≠ []) {P : Text → Prop} (nil : P [])
    (found : ∀ a, P a → P (pattern ++ a)) (char : ∀ c a, ¬ pattern <+: c :: a → P a → P (c :: a))
    (text : Text) : P text := by
  induction hn : text.length using Nat.strong_induction_on generalizing text with
  | _ n ih =>
    by_cases hmatch : pattern <+: text
    · obtain ⟨a, rfl⟩ := hmatch
      have hlt : a.length < n := by
        have hpos := List.length_pos_of_ne_nil hne
        rw [List.length_append] at hn
        omega
      exact found a (ih a.length hlt a rfl)
    · cases text with
      | nil => exact nil
      | cons c a => exact char c a hmatch (ih a.length (by rw [← hn]; simp) a rfl)

theorem replaceFrom_skip (a b : Text) :
    replaceFrom pattern replacement (a ++ b) a.length = replaceFrom pattern replacement b 0 := by
  induction a with
  | nil =>
    cases b with
    | nil => rfl
    | cons c b => rfl
  | cons c a ih => exact ih

theorem replaceFrom_match (hne : pattern ≠ []) (a : Text) :
    replaceFrom pattern replacement (pattern ++ a) 0 =
      replacement ++ replaceFrom pattern replacement a 0 := by
  obtain ⟨c, rest, rfl⟩ := List.exists_cons_of_ne_nil hne
  have hmatch : c :: rest <+: c :: (rest ++ a) := List.prefix_append (c :: rest) a
  rw [List.cons_append, replaceFrom, if_pos hmatch]
  have hskip : (c :: rest).length - 1 = rest.length := rfl
  rw [hskip, replaceFrom_skip]

theorem replaceFrom_char {c : Char} {a : Text} (h : ¬ pattern <+: c :: a) :
    replaceFrom pattern replacement (c :: a) 0 =
      c :: replaceFrom pattern replacement a 0 := by
  rw [replaceFrom, if_neg h]

theorem replaceFrom_copy {first : Char} {more : Text} {a : Text} (h : first ∉ a) (b : Text) :
    replaceFrom (first :: more) replacement (a ++ b) 0 =
      a ++ replaceFrom (first :: more) replacement b 0 := by
  induction a with
  | nil => rfl
  | cons c a ih =>
    rw [List.mem_cons, not_or] at h
    have hchar : ¬ first :: more <+: c :: (a ++ b) := fun hstarts =>
      h.1 (List.cons_prefix_cons.mp hstarts).1
    rw [List.cons_append, replaceFrom_char hchar, ih h.2]
    rfl

/-- What a replaced text starts with, before any replacement, the text starts with. -/
theorem front_of_replaceFrom {first : Char} {more : Text} {x a : Text} (h : first ∉ x)
    (hx : x <+: replaceFrom pattern (first :: more) a 0) : x <+: a := by
  induction a generalizing x with
  | nil => exact hx
  | cons c a ih =>
    rw [replaceFrom] at hx
    split_ifs at hx with hmatch
    · rcases List.prefix_cons_iff.mp hx with rfl | ⟨y, rfl, -⟩
      · exact List.nil_prefix
      · exact absurd List.mem_cons_self h
    · rcases List.prefix_cons_iff.mp hx with rfl | ⟨y, rfl, hy⟩
      · exact List.nil_prefix
      · rw [List.mem_cons, not_or] at h
        exact (List.prefix_cons_inj c).mpr (ih h.2 hy)

/-- A pattern without backticks is not found across one. -/
theorem starts_boundary {a b : Text} (hpattern : '\x60' ∉ pattern)
    (hb : b = [] ∨ b.head? = some '\x60') (h : pattern <+: a ++ b) : pattern <+: a := by
  by_cases hlength : pattern.length ≤ a.length
  · exact List.prefix_of_prefix_length_le h (List.prefix_append _ _) hlength
  · have hlong : a <+: pattern :=
      List.prefix_of_prefix_length_le (List.prefix_append _ _) h (by omega)
    obtain ⟨rest, rfl⟩ := hlong
    have hrest := (List.prefix_append_right_inj a).mp h
    rcases hb with rfl | hb
    · rw [List.prefix_nil.mp hrest, List.append_nil]
    · cases rest with
      | nil => rw [List.append_nil]
      | cons c rest =>
        cases b with
        | nil => cases hb
        | cons d b =>
          have hcd := (List.cons_prefix_cons.mp hrest).1
          cases hb
          subst hcd
          exact absurd (by simp) hpattern

theorem replaceFrom_tick (hne : pattern ≠ []) (hpattern : '\x60' ∉ pattern) (a b : Text) :
    replaceFrom pattern replacement (a ++ '\x60' :: b) 0 =
      replaceFrom pattern replacement a 0 ++ '\x60' :: replaceFrom pattern replacement b 0 := by
  have htick : ∀ b, ¬ pattern <+: '\x60' :: b := by
    intro b h
    have hnil := starts_boundary (a := []) hpattern (Or.inr rfl) h
    exact hne (List.prefix_nil.mp hnil)
  induction a using match_induction hne with
  | nil =>
    rw [List.nil_append, replaceFrom_char (htick b)]
    rfl
  | found a ih =>
    rw [List.append_assoc, replaceFrom_match hne, replaceFrom_match hne, ih, List.append_assoc]
  | char c a hc ih =>
    have hchar : ¬ pattern <+: c :: (a ++ '\x60' :: b) := fun h =>
      hc (starts_boundary (a := c :: a) hpattern (Or.inr rfl) h)
    rw [List.cons_append, replaceFrom_char hchar, replaceFrom_char hc, ih]
    rfl

end Matches

section Protected

theorem tag_induction {P : Text → Prop} (nil : P []) (opening : ∀ a, P a → P (openTag ++ a))
    (closing : ∀ a, P a → P (closeTag ++ a))
    (char : ∀ c a, ¬ openTag <+: c :: a → ¬ closeTag <+: c :: a → P a → P (c :: a))
    (text : Text) : P text := by
  induction hn : text.length using Nat.strong_induction_on generalizing text with
  | _ n ih =>
    have hpos : 0 < openTag.length ∧ 0 < closeTag.length := by decide
    by_cases hopen : openTag <+: text
    · obtain ⟨a, rfl⟩ := hopen
      rw [List.length_append] at hn
      exact opening a (ih a.length (by omega) a rfl)
    by_cases hclose : closeTag <+: text
    · obtain ⟨a, rfl⟩ := hclose
      rw [List.length_append] at hn
      exact closing a (ih a.length (by omega) a rfl)
    cases text with
    | nil => exact nil
    | cons c a => exact char c a hopen hclose (ih a.length (by rw [← hn]; simp) a rfl)

theorem openTag_eq : openTag = '<' :: "internal>".toList := by decide
theorem closeTag_eq : closeTag = '<' :: "/internal>".toList := by decide

theorem protectTags_open (a : Text) :
    protectTags (openTag ++ a) = INTERNAL_OPEN_PLACEHOLDER ++ protectTags a := by
  unfold protectTags replaceAll
  rw [replaceFrom_match (by decide), closeTag_eq, replaceFrom_copy (by decide)]

theorem protectTags_close (a : Text) :
    protectTags (closeTag ++ a) = INTERNAL_CLOSE_PLACEHOLDER ++ protectTags a := by
  have hfirst : ¬ openTag <+: '<' :: ("/internal>".toList ++ a) := by
    intro h
    have hall : openTag <+: closeTag ++ a := by
      rw [closeTag_eq]
      exact h
    exact absurd (List.prefix_of_prefix_length_le hall (List.prefix_append _ a) (by decide))
      (by decide)
  have hcopy : replaceFrom openTag INTERNAL_OPEN_PLACEHOLDER (closeTag ++ a) 0 =
      closeTag ++ replaceFrom openTag INTERNAL_OPEN_PLACEHOLDER a 0 := by
    rw [closeTag_eq, List.cons_append, replaceFrom_char hfirst]
    rw [openTag_eq, replaceFrom_copy (by decide)]
    rfl
  unfold protectTags replaceAll
  rw [hcopy, replaceFrom_match (by decide)]

/-- What a protected text starts with, before any placeholder, the text starts with. -/
theorem front_of_protectTags {x a : Text} (h : '\x00' ∉ x) (hx : x <+: protectTags a) :
    x <+: a :=
  front_of_replaceFrom h (front_of_replaceFrom h hx)

theorem protectTags_char {c : Char} {a : Text} (hopen : ¬ openTag <+: c :: a)
    (hclose : ¬ closeTag <+: c :: a) : protectTags (c :: a) = c :: protectTags a := by
  have hkept : ¬ closeTag <+: c :: replaceFrom openTag INTERNAL_OPEN_PLACEHOLDER a 0 := by
    intro h
    rw [closeTag_eq] at h hclose
    obtain ⟨rfl, hrest⟩ := List.cons_prefix_cons.mp h
    exact hclose ((List.prefix_cons_inj _).mpr (front_of_replaceFrom (by decide) hrest))
  unfold protectTags replaceAll
  rw [replaceFrom_char hopen, replaceFrom_char hkept]

theorem protectTags_tick (a b : Text) :
    protectTags (a ++ '\x60' :: b) = protectTags a ++ '\x60' :: protectTags b := by
  unfold protectTags replaceAll
  rw [replaceFrom_tick (by decide) (by decide), replaceFrom_tick (by decide) (by decide)]

theorem infix_of_append {first : Char} {more x z : Text} (h : first ∉ x)
    (hx : first :: more <:+: x ++ z) : first :: more <:+: z := by
  induction x with
  | nil => exact hx
  | cons c x ih =>
    rw [List.mem_cons, not_or] at h
    rcases List.infix_cons_iff.mp hx with hstarts | hx
    · exact absurd (List.cons_prefix_cons.mp hstarts).1 h.1
    · exact ih h.2 hx

/-- Protecting leaves no tag. -/
theorem protectTags_untagged (text : Text) : ¬ Tagged (protectTags text) := by
  have hplaceholders : '<' ∉ INTERNAL_OPEN_PLACEHOLDER ∧ '<' ∉ INTERNAL_CLOSE_PLACEHOLDER := by
    decide
  induction text using tag_induction with
  | nil => exact fun h => h.elim (fun h => absurd h (by decide)) (fun h => absurd h (by decide))
  | opening a ih =>
    rw [protectTags_open]
    rintro (h | h)
    · exact ih (Or.inl (infix_of_append hplaceholders.1 h))
    · exact ih (Or.inr (infix_of_append hplaceholders.1 h))
  | closing a ih =>
    rw [protectTags_close]
    rintro (h | h)
    · exact ih (Or.inl (infix_of_append hplaceholders.2 h))
    · exact ih (Or.inr (infix_of_append hplaceholders.2 h))
  | char c a hopen hclose ih =>
    have hfront : ∀ tag : Text, '\x00' ∉ tag → tag <+: c :: protectTags a → tag <+: c :: a := by
      intro tag htag h
      rcases List.prefix_cons_iff.mp h with rfl | ⟨rest, rfl, hrest⟩
      · exact List.nil_prefix
      · rw [List.mem_cons, not_or] at htag
        exact (List.prefix_cons_inj c).mpr (front_of_protectTags htag.2 hrest)
    rw [protectTags_char hopen hclose]
    rintro (h | h)
    · rcases List.infix_cons_iff.mp h with hstarts | h
      · exact hopen (hfront openTag (by decide) hstarts)
      · exact ih (Or.inl h)
    · rcases List.infix_cons_iff.mp h with hstarts | h
      · exact hclose (hfront closeTag (by decide) hstarts)
      · exact ih (Or.inr h)

theorem protectTags_of_untagged {text : Text} (h : ¬ Tagged text) : protectTags text = text := by
  induction text with
  | nil => rfl
  | cons c a ih =>
    have hrest : ¬ Tagged a := by
      rintro (h' | h')
      · exact h (Or.inl (List.infix_cons h'))
      · exact h (Or.inr (List.infix_cons h'))
    have hopen : ¬ openTag <+: c :: a := fun h' => h (Or.inl h'.isInfix)
    have hclose : ¬ closeTag <+: c :: a := fun h' => h (Or.inr h'.isInfix)
    rw [protectTags_char hopen hclose, ih hrest]

end Protected

section Restored

theorem restore_tick (a b : Text) :
    restoreProtectedInternalTagPlaceholders (a ++ '\x60' :: b) =
      restoreProtectedInternalTagPlaceholders a ++
        '\x60' :: restoreProtectedInternalTagPlaceholders b := by
  unfold restoreProtectedInternalTagPlaceholders replaceAll
  rw [replaceFrom_tick (by decide) (by decide), replaceFrom_tick (by decide) (by decide)]

theorem restore_plain {a : Text} (h : '\x00' ∉ a) (b : Text) :
    restoreProtectedInternalTagPlaceholders (a ++ b) =
      a ++ restoreProtectedInternalTagPlaceholders b := by
  unfold restoreProtectedInternalTagPlaceholders replaceAll INTERNAL_OPEN_PLACEHOLDER
    INTERNAL_CLOSE_PLACEHOLDER
  rw [replaceFrom_copy h, replaceFrom_copy h]

theorem restore_open (a : Text) :
    restoreProtectedInternalTagPlaceholders (INTERNAL_OPEN_PLACEHOLDER ++ a) =
      openTag ++ restoreProtectedInternalTagPlaceholders a := by
  unfold restoreProtectedInternalTagPlaceholders replaceAll
  rw [replaceFrom_match (by decide)]
  unfold INTERNAL_CLOSE_PLACEHOLDER
  rw [replaceFrom_copy (by decide)]

/-- The text that, between two placeholders, reads as a third one. -/
def placeholderName : Text := "PICLAW_INTERNAL_OPEN".toList

theorem restore_close {a : Text} (h : ¬ placeholderName <+: a) :
    restoreProtectedInternalTagPlaceholders (INTERNAL_CLOSE_PLACEHOLDER ++ a) =
      closeTag ++ restoreProtectedInternalTagPlaceholders a := by
  have hfirst : ¬ INTERNAL_OPEN_PLACEHOLDER <+:
      '\x00' :: ("PICLAW_INTERNAL_CLOSE".toList ++ '\x00' :: a) := by
    intro hstarts
    have hall : '\x00' :: ("PICLAW_INTERNAL_CLOSE".toList ++ '\x00' :: a) =
        INTERNAL_CLOSE_PLACEHOLDER ++ a := by
      simp [INTERNAL_CLOSE_PLACEHOLDER]
    rw [hall] at hstarts
    exact absurd (List.prefix_of_prefix_length_le hstarts (List.prefix_append _ a) (by decide))
      (by decide)
  have hlast : ¬ INTERNAL_OPEN_PLACEHOLDER <+: '\x00' :: a := by
    intro hstarts
    unfold INTERNAL_OPEN_PLACEHOLDER at hstarts
    have hname := (List.cons_prefix_cons.mp hstarts).2
    exact h ((List.prefix_append _ _).trans hname)
  have hcopy : replaceFrom INTERNAL_OPEN_PLACEHOLDER openTag (INTERNAL_CLOSE_PLACEHOLDER ++ a) 0 =
      INTERNAL_CLOSE_PLACEHOLDER ++ replaceFrom INTERNAL_OPEN_PLACEHOLDER openTag a 0 := by
    have hall : INTERNAL_CLOSE_PLACEHOLDER ++ a =
        '\x00' :: ("PICLAW_INTERNAL_CLOSE".toList ++ '\x00' :: a) := by
      simp [INTERNAL_CLOSE_PLACEHOLDER]
    have hmiddle : ∀ b, replaceFrom INTERNAL_OPEN_PLACEHOLDER openTag
        ("PICLAW_INTERNAL_CLOSE".toList ++ b) 0 = "PICLAW_INTERNAL_CLOSE".toList ++
          replaceFrom INTERNAL_OPEN_PLACEHOLDER openTag b 0 := by
      intro b
      unfold INTERNAL_OPEN_PLACEHOLDER
      exact replaceFrom_copy (by decide) b
    rw [hall, replaceFrom_char hfirst, hmiddle, replaceFrom_char hlast]
    simp [INTERNAL_CLOSE_PLACEHOLDER]
  unfold restoreProtectedInternalTagPlaceholders replaceAll
  rw [hcopy, replaceFrom_match (by decide)]

/-- Restoring undoes protecting, unless a closing tag stands before the name of a placeholder. -/
theorem restore_protectTags {text : Text} (hnul : '\x00' ∉ text)
    (hname : ¬ closeTag ++ placeholderName <:+: text) :
    restoreProtectedInternalTagPlaceholders (protectTags text) = text := by
  induction text using tag_induction with
  | nil => rfl
  | opening a ih =>
    have hrest : '\x00' ∉ a ∧ ¬ closeTag ++ placeholderName <:+: a :=
      ⟨fun h => hnul (List.mem_append_right _ h),
        fun h => hname (h.trans (List.suffix_append _ _).isInfix)⟩
    rw [protectTags_open, restore_open, ih hrest.1 hrest.2]
  | closing a ih =>
    have hrest : '\x00' ∉ a ∧ ¬ closeTag ++ placeholderName <:+: a :=
      ⟨fun h => hnul (List.mem_append_right _ h),
        fun h => hname (h.trans (List.suffix_append _ _).isInfix)⟩
    have hclose : ¬ placeholderName <+: protectTags a := by
      intro h
      have hfront := front_of_protectTags (by decide) h
      exact hname ((List.prefix_append_right_inj closeTag).mpr hfront).isInfix
    rw [protectTags_close, restore_close hclose, ih hrest.1 hrest.2]
  | char c a hopen hclose ih =>
    rw [List.mem_cons, not_or] at hnul
    have hrest : ¬ closeTag ++ placeholderName <:+: a := fun h => hname (List.infix_cons h)
    have hc : '\x00' ∉ [c] := fun h => hnul.1 (List.mem_singleton.mp h)
    rw [protectTags_char hopen hclose]
    have hplain := restore_plain hc (protectTags a)
    rw [List.singleton_append, ih hnul.2 hrest] at hplain
    exact hplain

end Restored

end Piclaw.InternalTags
