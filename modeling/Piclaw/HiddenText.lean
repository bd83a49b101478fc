import Piclaw.ProtectedTags

/-!
# Hidden text

Where the pairing of backticks agrees with code spans, or no tag is left that it could matter for,
`stripInternalTags` gives what is outside the internal blocks. The proof goes run by run: a code
span is protected, dropped or kept, and restored as a whole.
-/

namespace Piclaw.InternalTags

open TextRuns

section Kept

variable {depth : ℕ}

/-- Nothing, or a text that starts with a backtick. -/
def Boundary (b : Text) : Prop := b = [] ∨ b.head? = some '\x60'

theorem keepFrom_skip (a b : Text) (depth : ℕ) :
    keepFrom (a ++ b) depth a.length = keepFrom b depth 0 ∧
      depthFrom (a ++ b) depth a.length = depthFrom b depth 0 := by
  induction a with
  | nil =>
    cases b with
    | nil => exact ⟨rfl, rfl⟩
    | cons c b => exact ⟨rfl, rfl⟩
  | cons c a ih => exact ih

theorem keepFrom_open (a : Text) (depth : ℕ) :
    keepFrom (openTag ++ a) depth 0 = keepFrom a (depth + 1) 0 ∧
      depthFrom (openTag ++ a) depth 0 = depthFrom a (depth + 1) 0 := by
  have hmatch : openTag <+: '<' :: ("internal>".toList ++ a) := by
    rw [openTag_eq]
    exact List.prefix_append _ a
  have hskip : openTag.length - 1 = "internal>".toList.length := by decide
  have hrest := keepFrom_skip "internal>".toList a (depth + 1)
  conv_lhs => rw [openTag_eq, List.cons_append, keepFrom, if_pos hmatch, hskip, hrest.1]
  conv_rhs => rw [openTag_eq, List.cons_append, depthFrom, if_pos hmatch, hskip, hrest.2]
  exact ⟨rfl, rfl⟩

theorem not_open_close (a : Text) : ¬ openTag <+: closeTag ++ a := fun h =>
  absurd (List.prefix_of_prefix_length_le h (List.prefix_append _ a) (by decide)) (by decide)

theorem keepFrom_close (a : Text) (depth : ℕ) :
    keepFrom (closeTag ++ a) depth 0 = keepFrom a (depth - 1) 0 ∧
      depthFrom (closeTag ++ a) depth 0 = depthFrom a (depth - 1) 0 := by
  have hopen := not_open_close a
  have hmatch : closeTag <+: '<' :: ("/internal>".toList ++ a) := by
    rw [closeTag_eq]
    exact List.prefix_append _ a
  have hskip : closeTag.length - 1 = "/internal>".toList.length := by decide
  have hrest := keepFrom_skip "/internal>".toList a (depth - 1)
  rw [closeTag_eq, List.cons_append] at hopen ⊢
  rw [keepFrom, depthFrom, if_neg hopen, if_neg hopen, if_pos hmatch, if_pos hmatch, hskip,
    hrest.1, hrest.2]
  exact ⟨rfl, rfl⟩

theorem keepFrom_char {c : Char} {a : Text} (hopen : ¬ openTag <+: c :: a)
    (hclose : ¬ closeTag <+: c :: a) (depth : ℕ) :
    keepFrom (c :: a) depth 0 = (if depth = 0 then [c] else []) ++ keepFrom a depth 0 ∧
      depthFrom (c :: a) depth 0 = depthFrom a depth 0 := by
  rw [keepFrom, depthFrom, if_neg hopen, if_neg hopen, if_neg hclose, if_neg hclose]
  refine ⟨?_, rfl⟩
  split_ifs with hdepth
  · rfl
  · rfl

/-- Text without a tag is kept or dropped whole. -/
theorem keepFrom_untagged {a : Text} (h : ¬ Tagged a) (depth : ℕ) :
    keepFrom a depth 0 = (if depth = 0 then a else []) ∧ depthFrom a depth 0 = depth := by
  induction a with
  | nil => exact ⟨by split_ifs <;> rfl, rfl⟩
  | cons c a ih =>
    have hrest : ¬ Tagged a := by
      rintro (h' | h')
      · exact h (Or.inl (List.infix_cons h'))
      · exact h (Or.inr (List.infix_cons h'))
    have hchar := keepFrom_char (fun h' => h (Or.inl h'.isInfix))
      (fun h' => h (Or.inr h'.isInfix)) depth
    rw [hchar.1, hchar.2, (ih hrest).1, (ih hrest).2]
    refine ⟨?_, rfl⟩
    split_ifs <;> rfl

theorem keepFrom_append (a : Text) {b : Text} (hb : Boundary b) (depth : ℕ) :
    keepFrom (a ++ b) depth 0 = keepFrom a depth 0 ++ keepFrom b (depthFrom a depth 0) 0 ∧
      depthFrom (a ++ b) depth 0 = depthFrom b (depthFrom a depth 0) 0 := by
  induction a using tag_induction generalizing depth with
  | nil => exact ⟨rfl, rfl⟩
  | opening a ih =>
    rw [List.append_assoc, (keepFrom_open _ _).1, (keepFrom_open _ _).2, (keepFrom_open _ _).1,
      (keepFrom_open _ _).2]
    exact ih (depth + 1)
  | closing a ih =>
    rw [List.append_assoc, (keepFrom_close _ _).1, (keepFrom_close _ _).2, (keepFrom_close _ _).1,
      (keepFrom_close _ _).2]
    exact ih (depth - 1)
  | char c a hopen hclose ih =>
    have hopen' : ¬ openTag <+: c :: (a ++ b) := fun h =>
      hopen (starts_boundary (a := c :: a) (by decide) hb h)
    have hclose' : ¬ closeTag <+: c :: (a ++ b) := fun h =>
      hclose (starts_boundary (a := c :: a) (by decide) hb h)
    rw [List.cons_append, (keepFrom_char hopen' hclose' depth).1,
      (keepFrom_char hopen' hclose' depth).2, (keepFrom_char hopen hclose depth).1,
      (keepFrom_char hopen hclose depth).2, (ih depth).1, (ih depth).2, List.append_assoc]
    exact ⟨rfl, rfl⟩

theorem tick_untagged : ¬ Tagged ['\x60'] := by
  rintro (h | h)
  · exact absurd h.length_le (by decide)
  · exact absurd h.length_le (by decide)

theorem keepFrom_tick (b : Text) (depth : ℕ) :
    keepFrom ('\x60' :: b) depth 0 = (if depth = 0 then ['\x60'] else []) ++ keepFrom b depth 0 ∧
      depthFrom ('\x60' :: b) depth 0 = depthFrom b depth 0 := by
  refine keepFrom_char (fun h => ?_) (fun h => ?_) depth
  · rw [openTag_eq] at h
    exact absurd (List.cons_prefix_cons.mp h).1 (by decide)
  · rw [closeTag_eq] at h
    exact absurd (List.cons_prefix_cons.mp h).1 (by decide)

/-- A backtick at the end of a text is a boundary as well. -/
theorem keepFrom_append_tick (a b : Text) (depth : ℕ) :
    keepFrom ((a ++ ['\x60']) ++ b) depth 0 =
        keepFrom (a ++ ['\x60']) depth 0 ++ keepFrom b (depthFrom (a ++ ['\x60']) depth 0) 0 ∧
      depthFrom ((a ++ ['\x60']) ++ b) depth 0 =
        depthFrom b (depthFrom (a ++ ['\x60']) depth 0) 0 := by
  have hassoc : (a ++ ['\x60']) ++ b = a ++ '\x60' :: b := by simp
  have hall := keepFrom_append a (Or.inr rfl : Boundary ('\x60' :: b)) depth
  have hone := keepFrom_append a (Or.inr rfl : Boundary ['\x60']) depth
  have htick := keepFrom_tick b (depthFrom a depth 0)
  have hlast := keepFrom_untagged tick_untagged (depthFrom a depth 0)
  rw [hassoc, hall.1, hall.2, hone.1, hone.2, hlast.1, hlast.2, htick.1, htick.2,
    List.append_assoc]
  exact ⟨rfl, rfl⟩

theorem mem_of_keepFrom {a : Text} {depth skip : ℕ} {c : Char} (h : c ∈ keepFrom a depth skip) :
    c ∈ a := by
  induction a generalizing depth skip with
  | nil => exact h
  | cons d a ih =>
    cases skip with
    | succ skip => exact List.mem_cons_of_mem _ (ih h)
    | zero =>
      rw [keepFrom] at h
      split_ifs at h
      · exact List.mem_cons_of_mem _ (ih h)
      · exact List.mem_cons_of_mem _ (ih h)
      · rcases List.mem_cons.mp h with rfl | h
        · exact List.mem_cons_self
        · exact List.mem_cons_of_mem _ (ih h)
      · exact List.mem_cons_of_mem _ (ih h)

end Kept

section Runs

def flat (later : List (ℕ × Text)) : Text := later.flatMap fun run => ticks run.1 ++ run.2

/-- Runs are not empty, and only the last one may have nothing after it. -/
def WellFormed : List (ℕ × Text) → Prop
  | [] => True
  | (k, t) :: later => 0 < k ∧ '\x60' ∉ t ∧ (t = [] → later = []) ∧ WellFormed later

theorem flat_cons (k : ℕ) (t : Text) (later : List (ℕ × Text)) :
    flat ((k, t) :: later) = ticks k ++ (t ++ flat later) := by
  unfold flat
  rw [List.flatMap_cons, List.append_assoc]

theorem flat_boundary {later : List (ℕ × Text)} (h : WellFormed later) : Boundary (flat later) := by
  cases later with
  | nil => exact Or.inl rfl
  | cons run later =>
    obtain ⟨k, t⟩ := run
    obtain ⟨n, rfl⟩ : ∃ n, k = n + 1 := ⟨k - 1, by have hpos := h.1; omega⟩
    exact Or.inr (by rw [flat_cons]; rfl)

/-- A text is made of its runs. -/
theorem runs_spec (text : Text) : '\x60' ∉ (runs text).1 ∧ WellFormed (runs text).2 ∧
    text = (runs text).1 ++ flat (runs text).2 := by
  induction text with
  | nil => exact ⟨List.not_mem_nil, trivial, rfl⟩
  | cons c rest ih =>
    obtain ⟨hfront, hwell, htext⟩ := ih
    rw [runs]
    by_cases hc : c = '\x60'
    · subst hc
      rw [if_pos rfl]
      split
      · rename_i k t later heq
        rw [heq] at hwell htext
        obtain ⟨hk, ht, hlast, hlater⟩ := hwell
        refine ⟨List.not_mem_nil, ⟨Nat.succ_pos k, ht, hlast, hlater⟩, ?_⟩
        conv_lhs => rw [htext]
        rw [List.nil_append, List.nil_append, flat_cons, flat_cons]
        rfl
      · rename_i front later hother heq
        rw [heq] at hfront hwell htext
        refine ⟨List.not_mem_nil, ⟨Nat.one_pos, hfront, fun hnil => ?_, hwell⟩, ?_⟩
        · subst hnil
          cases later with
          | nil => rfl
          | cons run later => exact absurd rfl (hother run.1 run.2 later rfl)
        · conv_lhs => rw [htext]
          rw [List.nil_append, flat_cons]
          rfl
    · rw [if_neg hc]
      refine ⟨fun hmem => ?_, hwell, ?_⟩
      · rcases List.mem_cons.mp hmem with heq | hmem
        · exact hc heq.symm
        · exact hfront hmem
      · conv_lhs => rw [htext]
        rfl

theorem head_of_plain {t : Text} (h : '\x60' ∉ t) {later : List (ℕ × Text)}
    (hlast : t = [] → later = []) : (t ++ flat later).head? ≠ some '\x60' := by
  cases t with
  | nil =>
    rw [hlast rfl]
    simp [flat]
  | cons c t =>
    intro heq
    cases heq
    exact h List.mem_cons_self

theorem ticks_succ (k : ℕ) : ticks (k + 1) = '\x60' :: ticks k := rfl

theorem ticks_concat (k : ℕ) : ticks (k + 1) = ticks k ++ ['\x60'] := List.replicate_succ'

theorem ticksOf_ticks (k : ℕ) {x : Text} (h : x.head? ≠ some '\x60') :
    ticksOf (ticks k ++ x) = ticks k ∧ afterTicks (ticks k ++ x) = x := by
  unfold ticksOf afterTicks
  induction k with
  | zero =>
    cases x with
    | nil => exact ⟨rfl, rfl⟩
    | cons c x =>
      have hc : ¬ decide (c = '\x60') = true := by
        rw [decide_eq_true_eq]
        rintro rfl
        exact h rfl
      exact ⟨List.takeWhile_cons_of_neg hc, List.dropWhile_cons_of_neg hc⟩
  | succ k ih =>
    rw [ticks_succ, List.cons_append, List.takeWhile_cons_of_pos (by decide),
      List.dropWhile_cons_of_pos (by decide), ih.1, ih.2]
    exact ⟨rfl, rfl⟩

end Runs

section Closing

variable {k : ℕ}

theorem splitFirst_eq {pattern text front back : Text}
    (h : splitFirst pattern text = some (front, back)) : text = front ++ (pattern ++ back) := by
  induction text generalizing front with
  | nil => cases h
  | cons c text ih =>
    rw [splitFirst] at h
    split_ifs at h with hmatch
    · obtain ⟨rest, hrest⟩ := hmatch
      rw [← hrest, List.drop_left] at h
      cases h
      rw [List.nil_append, hrest]
    · obtain ⟨⟨front', back'⟩, hsplit, heq⟩ := Option.map_eq_some_iff.mp h
      cases heq
      rw [ih hsplit]
      rfl

theorem splitFirst_found (hk : 0 < k) (x : Text) :
    splitFirst (ticks k) (ticks k ++ x) = some ([], x) := by
  obtain ⟨n, rfl⟩ : ∃ n, k = n + 1 := ⟨k - 1, by omega⟩
  have hmatch : ticks (n + 1) <+: '\x60' :: (ticks n ++ x) := List.prefix_append (ticks (n + 1)) x
  have hdrop : ('\x60' :: (ticks n ++ x)).drop (ticks (n + 1)).length = x := List.drop_left
  rw [ticks_succ, List.cons_append, splitFirst]
  rw [← ticks_succ, if_pos hmatch, hdrop]

theorem splitFirst_plain (hk : 0 < k) {t : Text} (ht : '\x60' ∉ t) (x : Text) :
    splitFirst (ticks k) (t ++ x) =
      (splitFirst (ticks k) x).map fun parts => (t ++ parts.1, parts.2) := by
  obtain ⟨n, rfl⟩ : ∃ n, k = n + 1 := ⟨k - 1, by omega⟩
  induction t with
  | nil => simp
  | cons c t ih =>
    rw [List.mem_cons, not_or] at ht
    have hchar : ¬ ticks (n + 1) <+: c :: (t ++ x) := fun h =>
      ht.1 (List.cons_prefix_cons.mp h).1
    rw [List.cons_append, splitFirst, if_neg hchar, ih ht.2, Option.map_map]
    rfl

theorem splitFirst_short {j : ℕ} (hj : j < k) {x : Text} (hx : x.head? ≠ some '\x60') :
    splitFirst (ticks k) (ticks j ++ x) =
      (splitFirst (ticks k) x).map fun parts => (ticks j ++ parts.1, parts.2) := by
  induction j with
  | zero => simp [ticks]
  | succ j ih =>
    have hchar : ¬ ticks k <+: '\x60' :: (ticks j ++ x) := by
      intro h
      obtain ⟨m, rfl⟩ : ∃ m, k = (j + 1) + (m + 1) := ⟨k - (j + 2), by omega⟩
      have hsplit : ticks (j + 1 + (m + 1)) = ticks (j + 1) ++ ticks (m + 1) :=
        List.replicate_add _ _ _
      rw [hsplit, ← List.cons_append, ← ticks_succ] at h
      obtain ⟨rest, hrest⟩ := (List.prefix_append_right_inj _).mp h
      rw [← hrest] at hx
      exact hx rfl
    rw [ticks_succ, List.cons_append, splitFirst, if_neg hchar, ih (by omega), Option.map_map]
    rfl

/-- The first later run of at least this length closes. -/
theorem splitFirst_runs (hk : 0 < k) {before after : List (ℕ × Text)} {t : Text}
    (hbefore : ∀ run ∈ before, run.1 < k) (hwell : WellFormed (before ++ (k, t) :: after)) :
    splitFirst (ticks k) (flat (before ++ (k, t) :: after)) =
      some (flat before, t ++ flat after) := by
  induction before with
  | nil => exact (congrArg _ (flat_cons k t after)).trans (splitFirst_found hk _)
  | cons run before ih =>
    obtain ⟨j, s⟩ := run
    obtain ⟨-, hs, hlast, hrest⟩ := hwell
    have hclose := ih (fun run hrun => hbefore run (List.mem_cons_of_mem _ hrun)) hrest
    have hj : j < k := hbefore (j, s) List.mem_cons_self
    have hhead : (s ++ flat (before ++ (k, t) :: after)).head? ≠ some '\x60' :=
      head_of_plain hs hlast
    rw [List.cons_append, flat_cons, splitFirst_short hj hhead, splitFirst_plain hk hs, hclose,
      flat_cons]
    rfl

theorem splitFirst_none (hk : 0 < k) {later : List (ℕ × Text)} (hlater : ∀ run ∈ later, run.1 < k)
    (hwell : WellFormed later) : splitFirst (ticks k) (flat later) = none := by
  induction later with
  | nil => rfl
  | cons run later ih =>
    obtain ⟨j, s⟩ := run
    obtain ⟨-, hs, hlast, hrest⟩ := hwell
    have hnone := ih (fun run hrun => hlater run (List.mem_cons_of_mem _ hrun)) hrest
    rw [flat_cons, splitFirst_short (hlater (j, s) List.mem_cons_self) (head_of_plain hs hlast),
      splitFirst_plain hk hs, hnone]
    rfl

end Closing

section Protecting

theorem protectFrom_skip (a b : Text) : protectFrom (a ++ b) a.length = protectFrom b 0 := by
  induction a with
  | nil =>
    cases b with
    | nil => rfl
    | cons c b => rfl
  | cons c a ih => exact ih

theorem protectFrom_plain {t : Text} (ht : '\x60' ∉ t) (x : Text) :
    protectFrom (t ++ x) 0 = t ++ protectFrom x 0 := by
  induction t with
  | nil => rfl
  | cons c t ih =>
    rw [List.mem_cons, not_or] at ht
    rw [List.cons_append, protectFrom, if_pos fun heq => ht.1 heq.symm, ih ht.2]
    rfl

theorem protectFrom_none {k : ℕ} (hk : 0 < k) {x : Text} (hx : x.head? ≠ some '\x60')
    (h : splitFirst (ticks k) x = none) : protectFrom (ticks k ++ x) 0 = ticks k ++ x := by
  obtain ⟨n, rfl⟩ : ∃ n, k = n + 1 := ⟨k - 1, by omega⟩
  have hticks := ticksOf_ticks (n + 1) hx
  rw [ticks_succ, List.cons_append] at hticks
  rw [ticks_succ, List.cons_append, protectFrom, if_neg (by simp)]
  simp only [hticks.1, hticks.2, ← ticks_succ, h]

theorem protectFrom_span {k : ℕ} (hk : 0 < k) {x inner back : Text} (hx : x.head? ≠ some '\x60')
    (h : splitFirst (ticks k) x = some (inner, back)) :
    protectFrom (ticks k ++ x) 0 =
      protectTags (ticks k ++ inner ++ ticks k) ++ protectFrom back 0 := by
  obtain ⟨n, rfl⟩ : ∃ n, k = n + 1 := ⟨k - 1, by omega⟩
  have hticks := ticksOf_ticks (n + 1) hx
  have hall := splitFirst_eq h
  have hskip : ticks n ++ x = (ticks n ++ inner ++ ticks (n + 1)) ++ back := by
    rw [hall]
    simp
  have hlength : (ticks (n + 1) ++ inner ++ ticks (n + 1)).length - 1 =
      (ticks n ++ inner ++ ticks (n + 1)).length := by
    simp only [ticks, List.length_append, List.length_replicate]
    omega
  rw [ticks_succ, List.cons_append] at hticks
  rw [ticks_succ, List.cons_append, protectFrom, if_neg (by simp)]
  simp only [hticks.1, hticks.2, ← ticks_succ, h]
  rw [hlength, hskip, protectFrom_skip]

theorem Tagged.mono {a b : Text} (h : a <:+: b) (ha : Tagged a) : Tagged b :=
  ha.imp (fun htag => htag.trans h) (fun htag => htag.trans h)

/-- Without a tag nothing is protected. -/
theorem protectFrom_untagged {x : Text} (h : ¬ Tagged x) (skip : ℕ) :
    protectFrom x skip = x.drop skip := by
  induction x generalizing skip with
  | nil => simp [protectFrom]
  | cons c x ih =>
    have hrest : ¬ Tagged x := fun h' => h (h'.mono (List.suffix_cons c x).isInfix)
    cases skip with
    | succ skip => exact ih hrest skip
    | zero =>
      rw [protectFrom]
      split_ifs with hc
      · rw [ih hrest 0]
        rfl
      · simp only
        split
        · rfl
        · rename_i inner back hsplit
          have htick : c = '\x60' := not_not.mp hc
          have hne : ticksOf (c :: x) ≠ [] := by
            unfold ticksOf
            rw [htick, List.takeWhile_cons_of_pos (by decide)]
            exact List.cons_ne_nil _ _
          have hall : c :: x = (ticksOf (c :: x) ++ inner ++ ticksOf (c :: x)) ++ back := by
            have hparts : ticksOf (c :: x) ++ afterTicks (c :: x) = c :: x :=
              List.takeWhile_append_dropWhile
            have hafter := splitFirst_eq hsplit
            conv_lhs => rw [← hparts, hafter]
            simp
          have hpos : ticksOf (c :: x) ++ inner ++ ticksOf (c :: x) ≠ [] := by simp [hne]
          generalize ticksOf (c :: x) ++ inner ++ ticksOf (c :: x) = segment at hall hpos ⊢
          have hsegment : ¬ Tagged segment := fun h' => h (h'.mono (by
            rw [hall]
            exact (List.prefix_append _ _).isInfix))
          rw [protectTags_of_untagged hsegment, ih hrest]
          cases segment with
          | nil => exact absurd rfl hpos
          | cons d segment =>
            obtain ⟨rfl, hx⟩ := List.cons.inj hall
            have hdrop : x.drop segment.length = back := by
              rw [hx]
              exact List.drop_left
            change c :: segment ++ x.drop segment.length = c :: x
            rw [hdrop, hx]
            rfl

end Protecting

section Visible

theorem spans_flat (st : Option ℕ) (later : List (ℕ × Text)) :
    (spans st later).flatMap Prod.snd = flat later := by
  induction later generalizing st with
  | nil => cases st <;> rfl
  | cons run later ih =>
    obtain ⟨k, t⟩ := run
    rw [flat_cons]
    cases st with
    | none =>
      rw [spans]
      split_ifs with hclosed
      · rw [List.flatMap_cons, ih, List.append_assoc]
      · rw [List.flatMap_cons, ih, List.append_assoc]
    | some j =>
      rw [spans]
      split_ifs with hclosed
      · rw [List.flatMap_cons, List.flatMap_cons, ih]
      · rw [List.flatMap_cons, ih, List.append_assoc]

/-- Where no code span has a tag, what is visible is what the loop keeps. -/
theorem visible_spans {st : Option ℕ} {later : List (ℕ × Text)} (hwell : WellFormed later)
    (huntagged : ∀ part ∈ spans st later, part.1 = true → ¬ Tagged part.2) (depth : ℕ) :
    visible depth (spans st later) = keepFrom (flat later) depth 0 := by
  induction later generalizing st depth with
  | nil => cases st <;> rfl
  | cons run later ih =>
    obtain ⟨k, t⟩ := run
    obtain ⟨hk, ht, -, hlater⟩ := hwell
    have hrest : ∀ {st'}, (∀ part ∈ spans st' later, part ∈ spans st ((k, t) :: later)) →
        ∀ depth, visible depth (spans st' later) = keepFrom (flat later) depth 0 :=
      fun hsub depth => ih hlater (fun part hpart => huntagged part (hsub part hpart)) depth
    have happend := keepFrom_append (ticks k ++ t) (flat_boundary hlater) depth
    have hcode : ∀ st', spans st ((k, t) :: later) = (true, ticks k ++ t) :: spans st' later →
        visible depth (spans st ((k, t) :: later)) = keepFrom (flat ((k, t) :: later)) depth 0 := by
      intro st' heq
      have hpart := huntagged (true, ticks k ++ t) (by rw [heq]; exact List.mem_cons_self) rfl
      have hkeep := keepFrom_untagged hpart depth
      rw [heq, visible, hrest (fun part hmem => by rw [heq]; exact List.mem_cons_of_mem _ hmem),
        flat_cons, ← List.append_assoc, happend.1, hkeep.1, hkeep.2]
    cases st with
    | none =>
      by_cases hclosed : later.any (fun run => decide (run.1 = k)) = true
      · exact hcode (some k) (by rw [spans, if_pos hclosed])
      · have heq : spans none ((k, t) :: later) = (false, ticks k ++ t) :: spans none later := by
          rw [spans, if_neg hclosed]
        rw [heq, visible, hrest (fun part hmem => by rw [heq]; exact List.mem_cons_of_mem _ hmem),
          flat_cons, ← List.append_assoc, happend.1]
    | some j =>
      by_cases hclosed : k = j
      · have heq : spans (some j) ((k, t) :: later) =
            (true, ticks k) :: (false, t) :: spans none later := by
          rw [spans, if_pos hclosed]
        have hpart := huntagged (true, ticks k) (by rw [heq]; exact List.mem_cons_self) rfl
        have hkeep := keepFrom_untagged hpart depth
        have hplain := keepFrom_append t (flat_boundary hlater) depth
        obtain ⟨n, rfl⟩ : ∃ n, k = n + 1 := ⟨k - 1, by omega⟩
        have htick := keepFrom_append_tick (ticks n) (t ++ flat later) depth
        rw [← ticks_concat, hkeep.1, hkeep.2] at htick
        rw [heq, visible, visible, hrest (fun part hmem => by
          rw [heq]
          exact List.mem_cons_of_mem _ (List.mem_cons_of_mem _ hmem)), flat_cons, htick.1,
          hplain.1]
      · exact hcode (some j) (by rw [spans, if_neg hclosed])

theorem visible_code (depth : ℕ) (before : List (ℕ × Text)) (parts : List (Bool × Text)) :
    visible depth ((before.map fun run => (true, ticks run.1 ++ run.2)) ++ parts) =
      (if depth = 0 then flat before else []) ++ visible depth parts := by
  induction before with
  | nil =>
    split_ifs
    · rfl
    · rfl
  | cons run before ih =>
    rw [List.map_cons, List.cons_append, visible, ih, flat_cons]
    split_ifs
    · simp
    · rfl

/-- A code span up to the run that closes it. -/
theorem spans_closed {k : ℕ} {t : Text} {before after : List (ℕ × Text)}
    (hbefore : ∀ run ∈ before, run.1 < k) :
    spans (some k) (before ++ (k, t) :: after) =
      (before.map fun run => (true, ticks run.1 ++ run.2)) ++
        (true, ticks k) :: (false, t) :: spans none after := by
  induction before with
  | nil => exact if_pos rfl
  | cons run before ih =>
    obtain ⟨j, s⟩ := run
    have hj : j < k := hbefore (j, s) List.mem_cons_self
    rw [List.cons_append, spans, if_neg (by omega),
      ih fun run hrun => hbefore run (List.mem_cons_of_mem _ hrun)]
    rfl

theorem paired_closed {k : ℕ} {t : Text} {before after : List (ℕ × Text)}
    (hbefore : ∀ run ∈ before, run.1 < k) (h : Paired (some k) (before ++ (k, t) :: after)) :
    Paired none after := by
  induction before with
  | nil =>
    change (if k = k then Paired none after else _) at h
    rwa [if_pos rfl] at h
  | cons run before ih =>
    obtain ⟨j, s⟩ := run
    have hj : j < k := hbefore (j, s) List.mem_cons_self
    refine ih (fun run hrun => hbefore run (List.mem_cons_of_mem _ hrun)) ?_
    change (if j = k then _ else Paired (some k) (before ++ (k, t) :: after)) at h
    rwa [if_neg (by omega)] at h

theorem wellFormed_append {before after : List (ℕ × Text)}
    (h : WellFormed (before ++ after)) : WellFormed after := by
  induction before with
  | nil => exact h
  | cons run before ih => exact ih h.2.2.2

theorem flat_append (before after : List (ℕ × Text)) :
    flat (before ++ after) = flat before ++ flat after := by
  unfold flat
  rw [List.flatMap_append]

theorem restore_nil : restoreProtectedInternalTagPlaceholders [] = [] := rfl

theorem restore_plain_all {a : Text} (h : '\x00' ∉ a) :
    restoreProtectedInternalTagPlaceholders a = a := by
  have hplain := restore_plain h []
  rwa [List.append_nil, restore_nil, List.append_nil] at hplain

theorem restore_append_tick (a b : Text) :
    restoreProtectedInternalTagPlaceholders ((a ++ ['\x60']) ++ b) =
      restoreProtectedInternalTagPlaceholders (a ++ ['\x60']) ++
        restoreProtectedInternalTagPlaceholders b := by
  have hassoc : (a ++ ['\x60']) ++ b = a ++ '\x60' :: b := by simp
  rw [hassoc, restore_tick, restore_tick, restore_nil, List.append_assoc]
  rfl

theorem protectFrom_boundary {later : List (ℕ × Text)} (hwell : WellFormed later) :
    Boundary (protectFrom (flat later) 0) := by
  cases later with
  | nil => exact Or.inl rfl
  | cons run later =>
    obtain ⟨k, t⟩ := run
    obtain ⟨hk, ht, hlast, -⟩ := hwell
    obtain ⟨n, rfl⟩ : ∃ n, k = n + 1 := ⟨k - 1, by omega⟩
    have hhead := head_of_plain ht hlast
    rw [flat_cons]
    cases hsplit : splitFirst (ticks (n + 1)) (t ++ flat later) with
    | none =>
      rw [protectFrom_none hk hhead hsplit]
      exact Or.inr rfl
    | some parts =>
      obtain ⟨inner, back⟩ := parts
      have htick : protectTags (ticks (n + 1) ++ inner ++ ticks (n + 1)) =
          '\x60' :: protectTags (ticks n ++ inner ++ ticks (n + 1)) :=
        protectTags_tick [] (ticks n ++ inner ++ ticks (n + 1))
      rw [protectFrom_span hk hhead hsplit, htick]
      exact Or.inr rfl

/-- Run by run, the answer is what is outside the internal blocks. -/
theorem restore_keepFrom {later : List (ℕ × Text)} (hwell : WellFormed later)
    (hpaired : Paired none later) (hnul : '\x00' ∉ flat later)
    (hname : ¬ closeTag ++ placeholderName <:+: flat later) (depth : ℕ) :
    restoreProtectedInternalTagPlaceholders
      (keepFrom (protectFrom (flat later) 0) depth 0) = visible depth (spans none later) := by
  induction hn : later.length using Nat.strong_induction_on generalizing later depth with
  | _ n ih =>
  have hopen : protectFrom (flat later) 0 = flat later →
      (∀ part ∈ spans none later, part.1 = true → ¬ Tagged part.2) →
      restoreProtectedInternalTagPlaceholders
        (keepFrom (protectFrom (flat later) 0) depth 0) = visible depth (spans none later) := by
    intro hsame huntagged
    rw [hsame, restore_plain_all fun h => hnul (mem_of_keepFrom h),
      visible_spans hwell huntagged depth]
  cases later with
  | nil => rfl
  | cons run later =>
    obtain ⟨k, t⟩ := run
    have hhead := head_of_plain hwell.2.1 hwell.2.2.1
    rcases hpaired with huntagged | ⟨hfirst, hpaired⟩ | ⟨hshort, huntagged⟩
    · refine hopen ((protectFrom_untagged huntagged 0).trans rfl) fun part hpart _ htag => ?_
      refine huntagged (htag.mono ?_)
      have hall := spans_flat none ((k, t) :: later)
      unfold flat at hall
      rw [← hall]
      obtain ⟨before, after, hsplit⟩ := List.append_of_mem hpart
      rw [hsplit, List.flatMap_append, List.flatMap_cons]
      exact ⟨_, _, by rw [List.append_assoc]⟩
    · obtain ⟨⟨j, s⟩, hfind, heq⟩ := Option.map_eq_some_iff.mp hfirst
      obtain ⟨-, before, after, hlater, hbefore⟩ := List.find?_eq_some_iff_append.mp hfind
      obtain rfl : j = k := heq
      subst hlater
      have hlt : ∀ run ∈ before, run.1 < j := by
        intro run hrun
        have hnot := hbefore run hrun
        simpa using hnot
      have hany : (before ++ (j, s) :: after).any (fun run => decide (run.1 = j)) = true :=
        List.any_eq_true.mpr ⟨(j, s), by simp, by simp⟩
      have hafter : WellFormed after := (wellFormed_append hwell.2.2.2).2.2.2
      have hclose : splitFirst (ticks j) (t ++ flat (before ++ (j, s) :: after)) =
          some (t ++ flat before, s ++ flat after) := by
        rw [splitFirst_plain hwell.1 hwell.2.1, splitFirst_runs hwell.1 hlt hwell.2.2.2]
        rfl
      have hs : '\x60' ∉ s := (wellFormed_append hwell.2.2.2).2.1
      have hflat : flat ((j, t) :: (before ++ (j, s) :: after)) =
          (ticks j ++ (t ++ flat before) ++ ticks j) ++ (s ++ flat after) := by
        rw [flat_cons, flat_append, flat_cons]
        simp
      have hprotect : protectFrom (flat ((j, t) :: (before ++ (j, s) :: after))) 0 =
          protectTags (ticks j ++ (t ++ flat before) ++ ticks j) ++
            (s ++ protectFrom (flat after) 0) := by
        rw [flat_cons, protectFrom_span hwell.1 hhead hclose, protectFrom_plain hs]
      rw [hprotect]
      rw [hflat] at hnul hname
      have hspan : restoreProtectedInternalTagPlaceholders
          (protectTags (ticks j ++ (t ++ flat before) ++ ticks j)) =
            ticks j ++ (t ++ flat before) ++ ticks j :=
        restore_protectTags (fun h => hnul (List.mem_append_left _ h))
          (fun h => hname (h.trans (List.prefix_append _ _).isInfix))
      have hsnul : '\x00' ∉ keepFrom s depth 0 := fun h =>
        hnul (List.mem_append_right _ (List.mem_append_left _ (mem_of_keepFrom h)))
      have hsuffix : flat after <:+: (ticks j ++ (t ++ flat before) ++ ticks j) ++
          (s ++ flat after) := by
        rw [← List.append_assoc]
        exact (List.suffix_append _ _).isInfix
      have hrest := @ih after.length (by
        rw [← hn]
        simp only [List.length_cons, List.length_append]
        omega) after hafter (paired_closed hlt hpaired)
          (fun h => hnul (hsuffix.subset h)) (fun h => hname (h.trans hsuffix))
          (depthFrom s depth 0) rfl
      have hticks : protectTags (ticks j ++ (t ++ flat before) ++ ticks j) =
          protectTags (ticks j ++ (t ++ flat before) ++ ticks (j - 1)) ++ ['\x60'] := by
        have hlast : ticks j = ticks (j - 1) ++ ['\x60'] := by
          rw [← ticks_concat, Nat.sub_add_cancel hwell.1]
        conv_lhs => rw [hlast, ← List.append_assoc, ← hlast]
        exact protectTags_tick _ []
      have hkeep := keepFrom_untagged
        (protectTags_untagged (ticks j ++ (t ++ flat before) ++ ticks j)) depth
      have hsplit := keepFrom_append_tick
        (protectTags (ticks j ++ (t ++ flat before) ++ ticks (j - 1)))
        (s ++ protectFrom (flat after) 0) depth
      rw [← hticks, hkeep.1, hkeep.2,
        (keepFrom_append s (protectFrom_boundary hafter) depth).1] at hsplit
      have hshow : visible depth (spans none ((j, t) :: (before ++ (j, s) :: after))) =
          (if depth = 0 then ticks j ++ (t ++ flat before) ++ ticks j else []) ++
            (keepFrom s depth 0 ++ visible (depthFrom s depth 0) (spans none after)) := by
        rw [spans, if_pos hany, spans_closed hlt, visible, visible_code, visible, visible]
        split_ifs
        · simp
        · rfl
      rw [hsplit.1, hshow, ← hrest]
      split_ifs with hdepth
      · have htick := restore_append_tick
          (protectTags (ticks j ++ (t ++ flat before) ++ ticks (j - 1)))
          (keepFrom s depth 0 ++ keepFrom (protectFrom (flat after) 0) (depthFrom s depth 0) 0)
        rw [← hticks, hspan, restore_plain hsnul] at htick
        exact htick
      · rw [List.nil_append, List.nil_append, restore_plain hsnul]
    · refine hopen ?_ huntagged
      have hnone := splitFirst_none hwell.1 hshort hwell.2.2.2
      have hsplit : splitFirst (ticks k) (t ++ flat later) = none := by
        rw [splitFirst_plain hwell.1 hwell.2.1, hnone]
        rfl
      rw [flat_cons, protectFrom_none hwell.1 hhead hsplit]

theorem visible_plain {parts : List (Bool × Text)}
    (h : ∀ part ∈ parts, part.1 = false → ¬ Tagged part.2) :
    visible 0 parts = parts.flatMap Prod.snd := by
  induction parts with
  | nil => rfl
  | cons part parts ih =>
    obtain ⟨code, part⟩ := part
    have hrest := ih fun part hpart => h part (List.mem_cons_of_mem _ hpart)
    cases code with
    | true =>
      rw [visible, if_pos rfl, hrest]
      rfl
    | false =>
      have hkeep := keepFrom_untagged (h (false, part) List.mem_cons_self rfl) 0
      rw [visible, hkeep.1, hkeep.2, if_pos rfl, hrest]
      rfl

theorem segments_flat (text : Text) : (segments text).flatMap Prod.snd = text := by
  unfold segments
  rw [List.flatMap_cons, spans_flat]
  exact (runs_spec text).2.2.symm

end Visible

end Piclaw.InternalTags
