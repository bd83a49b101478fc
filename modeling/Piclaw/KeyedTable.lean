import Mathlib

/-!
# Keyed tables with declared constraints

A `Schema` declares a primary key, one secondary UNIQUE key (absent for a row whose indexed
columns are NULL) and a row check. A `Table` is a list of rows together with the proof that the
list is admitted, so a table that violates its own constraints cannot be built. Inserting and
updating are partial: a statement that would violate a constraint has no result, and its caller
rolls back. Deleting always succeeds.

The lookup lemmas describe `find?` after each statement. `AgreeOn K` relates tables that cannot be
told apart by lookups of the keys in `K`.
-/

namespace Relational
variable {ρ κ υ : Type}

structure Schema (ρ κ υ : Type) where
  key : ρ → κ
  unique : ρ → Option υ
  check : ρ → Prop
  decidableCheck : DecidablePred check

variable {S : Schema ρ κ υ}

instance (S : Schema ρ κ υ) : DecidablePred S.check := S.decidableCheck

def Schema.Admits (S : Schema ρ κ υ) (rows : List ρ) : Prop :=
  (rows.map S.key).Nodup ∧ (rows.filterMap S.unique).Nodup ∧ ∀ r ∈ rows, S.check r

instance [DecidableEq κ] [DecidableEq υ] (S : Schema ρ κ υ) (rows : List ρ) :
    Decidable (S.Admits rows) :=
  inferInstanceAs (Decidable (_ ∧ _ ∧ _))

structure Table (S : Schema ρ κ υ) where
  rows : List ρ
  admitted : S.Admits rows

namespace Table

@[ext]
theorem ext {t u : Table S} (h : t.rows = u.rows) : t = u := by
  cases t
  cases u
  cases h
  rfl

def empty (S : Schema ρ κ υ) : Table S :=
  ⟨[], by simp [Schema.Admits]⟩

instance [DecidableEq ρ] : DecidableEq (Table S) := fun t u =>
  decidable_of_iff (t.rows = u.rows) ⟨Table.ext, congrArg rows⟩

def changed (p : ρ → Bool) (f : ρ → ρ) (r : ρ) : ρ :=
  if p r then f r else r

theorem key_changed {p : ρ → Bool} {f : ρ → ρ} (hf : ∀ r, p r → S.key (f r) = S.key r) (r : ρ) :
    S.key (changed p f r) = S.key r := by
  unfold changed
  split_ifs with hp
  · exact hf r hp
  · rfl

theorem countP_le_one {t : Table S} {p : ρ → Bool} {k : κ}
    (hp : ∀ r, p r → S.key r = k) :
    t.rows.countP p ≤ 1 := by
  have hn := t.admitted.1
  generalize t.rows = rows at hn
  induction rows with
  | nil => simp
  | cons x rows ih =>
    rw [List.map_cons, List.nodup_cons] at hn
    rw [List.countP_cons]
    split_ifs with hx
    · have hzero : rows.countP p = 0 := by
        rw [List.countP_eq_zero]
        intro y hy hpy
        exact hn.1 (List.mem_map.mpr ⟨y, hy, (hp y hpy).trans (hp x hx).symm⟩)
      omega
    · exact ih hn.2

/-- Two stored rows with the same UNIQUE key are one row. -/
theorem eq_of_unique {t : Table S} {r r' : ρ} {u : υ} (hr : r ∈ t.rows) (hr' : r' ∈ t.rows)
    (hu : S.unique r = some u) (hu' : S.unique r' = some u) : r = r' := by
  have hn := t.admitted.2.1
  generalize t.rows = rows at hr hr' hn
  induction rows with
  | nil => cases hr
  | cons x rows ih =>
    have hx : ∀ y ∈ rows, S.unique x = some u → S.unique y ≠ some u := by
      intro y hy hxu hyu
      rw [List.filterMap_cons_some hxu, List.nodup_cons] at hn
      exact hn.1 (List.mem_filterMap.mpr ⟨y, hy, hyu⟩)
    have hrest : (rows.filterMap S.unique).Nodup := by
      cases hxu : S.unique x with
      | none => rwa [List.filterMap_cons_none hxu] at hn
      | some v =>
        rw [List.filterMap_cons_some hxu, List.nodup_cons] at hn
        exact hn.2
    rcases List.mem_cons.mp hr with rfl | hmem
    · rcases List.mem_cons.mp hr' with rfl | hmem'
      · rfl
      · exact absurd hu' (hx r' hmem' hu)
    · rcases List.mem_cons.mp hr' with rfl | hmem'
      · exact absurd hu (hx r hmem hu')
      · exact ih hmem hmem' hrest

def delete (t : Table S) (p : ρ → Bool) : Table S :=
  ⟨t.rows.filter (fun r => !p r),
    (t.admitted.1.sublist (List.filter_sublist.map S.key)),
    (t.admitted.2.1.sublist (List.filter_sublist.filterMap S.unique)),
    fun r hr => t.admitted.2.2 r (List.mem_of_mem_filter hr)⟩

theorem mem_delete {t : Table S} {p : ρ → Bool} {r : ρ} :
    r ∈ (t.delete p).rows ↔ r ∈ t.rows ∧ p r = false := by
  simp [delete]

variable [DecidableEq κ]

def find? (t : Table S) (k : κ) : Option ρ :=
  t.rows.find? (fun r => decide (S.key r = k))

def commit? [DecidableEq υ] (S : Schema ρ κ υ) (rows : List ρ) : Option (Table S) :=
  if h : S.Admits rows then some ⟨rows, h⟩ else none

def insert? [DecidableEq υ] (t : Table S) (r : ρ) : Option (Table S) :=
  commit? S (r :: t.rows)

/-- The updated table and the number of changed rows. -/
def update? [DecidableEq υ] (t : Table S) (p : ρ → Bool) (f : ρ → ρ) :
    Option (Table S × ℕ) :=
  (commit? S (t.rows.map (changed p f))).map (fun u => (u, t.rows.countP p))

theorem key_of_find? {t : Table S} {k : κ} {r : ρ} (h : t.find? k = some r) : S.key r = k := by
  simpa using List.find?_some h

theorem mem_of_find? {t : Table S} {k : κ} {r : ρ} (h : t.find? k = some r) : r ∈ t.rows :=
  List.mem_of_find?_eq_some h

theorem check_of_find? {t : Table S} {k : κ} {r : ρ} (h : t.find? k = some r) : S.check r :=
  t.admitted.2.2 r (mem_of_find? h)

theorem find?_of_mem {t : Table S} {r : ρ} (h : r ∈ t.rows) : t.find? (S.key r) = some r := by
  have hn := t.admitted.1
  unfold find?
  generalize t.rows = rows at h hn
  induction rows with
  | nil => cases h
  | cons x rows ih =>
    rw [List.map_cons, List.nodup_cons] at hn
    rcases List.mem_cons.mp h with rfl | hmem
    · simp
    · have hne : S.key x ≠ S.key r := fun he =>
        hn.1 (he ▸ List.mem_map_of_mem hmem)
      rw [List.find?_cons_of_neg (by simpa using hne)]
      exact ih hmem hn.2

theorem find?_eq_some {t : Table S} {k : κ} {r : ρ} :
    t.find? k = some r ↔ r ∈ t.rows ∧ S.key r = k := by
  constructor
  · intro h
    exact ⟨mem_of_find? h, key_of_find? h⟩
  · rintro ⟨hr, rfl⟩
    exact find?_of_mem hr

theorem find?_eq_none {t : Table S} {k : κ} :
    t.find? k = none ↔ ∀ r ∈ t.rows, S.key r ≠ k := by
  simp [find?]

theorem find?_of_rows_cons {t u : Table S} {r : ρ} (h : u.rows = r :: t.rows) (k : κ) :
    u.find? k = if S.key r = k then some r else t.find? k := by
  unfold find?
  rw [h]
  split_ifs with hk
  · rw [List.find?_cons_of_pos (by simpa using hk)]
  · rw [List.find?_cons_of_neg (by simpa using hk)]

theorem find?_of_rows_map {t u : Table S} {g : ρ → ρ} (hg : ∀ r, S.key (g r) = S.key r)
    (h : u.rows = t.rows.map g) (k : κ) : u.find? k = (t.find? k).map g := by
  have hp : (fun r => decide (S.key r = k)) ∘ g = fun r => decide (S.key r = k) := by
    funext r
    simp only [Function.comp_apply, hg]
  unfold find?
  rw [h, List.find?_map, hp]

/-- No constraint is violated by adding `r`. -/
def Fresh (t : Table S) (r : ρ) : Prop :=
  t.find? (S.key r) = none ∧ (∀ v, S.unique r = some v → ∀ x ∈ t.rows, S.unique x ≠ some v) ∧
    S.check r

theorem fresh_of_free {t : Table S} {r : ρ} (hu : S.unique r = none)
    (hk : t.find? (S.key r) = none) (hc : S.check r) : t.Fresh r := by
  refine ⟨hk, ?_, hc⟩
  intro v hv
  rw [hu] at hv
  cases hv

theorem admits_cons_iff {t : Table S} {r : ρ} : S.Admits (r :: t.rows) ↔ t.Fresh r := by
  have hkeys : S.key r ∉ t.rows.map S.key ↔ t.find? (S.key r) = none := by
    simp [find?_eq_none]
  unfold Schema.Admits Fresh
  rw [List.map_cons, List.nodup_cons, hkeys, List.forall_mem_cons]
  have ha := t.admitted
  cases hu : S.unique r with
  | none =>
    rw [List.filterMap_cons_none hu]
    constructor
    · rintro ⟨⟨hk, -⟩, -, hc, -⟩
      exact ⟨hk, by simp, hc⟩
    · rintro ⟨hk, -, hc⟩
      exact ⟨⟨hk, ha.1⟩, ha.2.1, hc, ha.2.2⟩
  | some v =>
    rw [List.filterMap_cons_some hu, List.nodup_cons, List.mem_filterMap]
    constructor
    · rintro ⟨⟨hk, -⟩, ⟨hv, -⟩, hc, -⟩
      refine ⟨hk, ?_, hc⟩
      rintro w hw x hx hxu
      cases hw
      exact hv ⟨x, hx, hxu⟩
    · rintro ⟨hk, hv, hc⟩
      refine ⟨⟨hk, ha.1⟩, ⟨?_, ha.2.1⟩, hc, ha.2.2⟩
      rintro ⟨x, hx, hxu⟩
      exact hv v rfl x hx hxu

section Insert
variable [DecidableEq υ]

theorem commit?_eq_some {rows : List ρ} {u : Table S} :
    commit? S rows = some u ↔ u.rows = rows := by
  constructor
  · intro h
    unfold commit? at h
    split_ifs at h
    cases h
    rfl
  · intro h
    have ha : S.Admits rows := h ▸ u.admitted
    rw [commit?, dif_pos ha, Option.some_inj]
    exact Table.ext h.symm

theorem insert?_rows {t u : Table S} {r : ρ} (h : t.insert? r = some u) :
    u.rows = r :: t.rows :=
  commit?_eq_some.mp h

theorem insert?_isSome {t : Table S} {r : ρ} : (t.insert? r).isSome ↔ t.Fresh r := by
  unfold insert? commit?
  rw [← admits_cons_iff]
  split_ifs with h <;> simp [h]

theorem insert?_fresh {t u : Table S} {r : ρ} (h : t.insert? r = some u) : t.Fresh r :=
  insert?_isSome.mp (by rw [h]; rfl)

theorem exists_insert? {t : Table S} {r : ρ} (h : t.Fresh r) :
    ∃ u, t.insert? r = some u ∧ u.rows = r :: t.rows := by
  obtain ⟨u, hu⟩ := Option.isSome_iff_exists.mp (insert?_isSome.mpr h)
  exact ⟨u, hu, insert?_rows hu⟩

theorem insert?_eq_none {t : Table S} {r : ρ} : t.insert? r = none ↔ ¬ t.Fresh r := by
  rw [← insert?_isSome, Option.not_isSome_iff_eq_none]

theorem find?_insert? {t u : Table S} {r : ρ} (h : t.insert? r = some u) (k : κ) :
    u.find? k = if S.key r = k then some r else t.find? k :=
  find?_of_rows_cons (insert?_rows h) k

theorem find?_insert?_self {t u : Table S} {r : ρ} (h : t.insert? r = some u) :
    u.find? (S.key r) = some r := by
  rw [find?_insert? h, if_pos rfl]

theorem find?_insert?_of_some {t u : Table S} {r x : ρ} {k : κ} (h : t.insert? r = some u)
    (hx : t.find? k = some x) : u.find? k = some x := by
  rw [find?_insert? h, if_neg, hx]
  rintro rfl
  rw [(insert?_fresh h).1] at hx
  cases hx

end Insert

section Update
variable [DecidableEq υ] {p : ρ → Bool} {f : ρ → ρ}

theorem update?_eq_some {t u : Table S} {n : ℕ} (h : t.update? p f = some (u, n)) :
    u.rows = t.rows.map (changed p f) ∧ n = t.rows.countP p := by
  unfold update? at h
  cases hc : commit? S (t.rows.map (changed p f)) with
  | none => simp only [hc, Option.map_none, reduceCtorEq] at h
  | some w =>
    simp only [hc, Option.map_some, Option.some.injEq, Prod.mk.injEq] at h
    obtain ⟨rfl, rfl⟩ := h
    exact ⟨commit?_eq_some.mp hc, rfl⟩

theorem find?_update? {t u : Table S} {n : ℕ} (hf : ∀ r, p r → S.key (f r) = S.key r)
    (h : t.update? p f = some (u, n)) (k : κ) :
    u.find? k = (t.find? k).map (changed p f) :=
  find?_of_rows_map (key_changed hf) (update?_eq_some h).1 k

/-- An update that keeps both keys succeeds exactly when every changed row satisfies the check. -/
theorem update?_eq_none {t : Table S} (hk : ∀ r, p r → S.key (f r) = S.key r)
    (hu : ∀ r, p r → S.unique (f r) = S.unique r) :
    t.update? p f = none ↔ ∃ r ∈ t.rows, p r ∧ ¬ S.check (f r) := by
  have hunique : ∀ r, S.unique (changed p f r) = S.unique r := by
    intro r
    unfold changed
    split_ifs with hp
    · exact hu r hp
    · rfl
  have hadmits : S.Admits (t.rows.map (changed p f)) ↔ ∀ r ∈ t.rows, p r → S.check (f r) := by
    unfold Schema.Admits
    rw [List.map_map, List.filterMap_map]
    have hkeys : S.key ∘ changed p f = S.key := funext (key_changed hk)
    have huniques : S.unique ∘ changed p f = S.unique := funext hunique
    rw [hkeys, huniques]
    constructor
    · rintro ⟨-, -, hc⟩ r hr hp
      have := hc _ (List.mem_map_of_mem hr)
      rwa [changed, if_pos hp] at this
    · intro hc
      refine ⟨t.admitted.1, t.admitted.2.1, ?_⟩
      intro x hx
      obtain ⟨r, hr, rfl⟩ := List.mem_map.mp hx
      unfold changed
      split_ifs with hp
      · exact hc r hr hp
      · exact t.admitted.2.2 r hr
  unfold update? commit?
  rw [Option.map_eq_none_iff, dite_eq_right_iff]
  simp only [reduceCtorEq, imp_false, hadmits, not_forall, exists_prop]

omit [DecidableEq υ] in
theorem countP_eq_one {t : Table S} {k : κ} {r : ρ} (hp : ∀ r, p r → S.key r = k)
    (hr : t.find? k = some r) (hpr : p r) : t.rows.countP p = 1 := by
  have hle := countP_le_one (t := t) hp
  have hpos : 0 < t.rows.countP p := List.countP_pos_iff.mpr ⟨r, mem_of_find? hr, hpr⟩
  omega

/-- An update addressed at one stored row whose new value satisfies the check changes that row
and no other. -/
theorem exists_update? {t : Table S} {k : κ} {r : ρ} (hp : ∀ r, p r → S.key r = k)
    (hf : ∀ r, p r → S.key (f r) = S.key r) (hu : ∀ r, p r → S.unique (f r) = S.unique r)
    (hr : t.find? k = some r) (hpr : p r) (hc : S.check (f r)) :
    ∃ u, t.update? p f = some (u, 1) := by
  cases h : t.update? p f with
  | none =>
    obtain ⟨x, hx, hpx, hcx⟩ := (update?_eq_none hf hu).mp h
    have hxr : t.find? k = some x := find?_eq_some.mpr ⟨hx, hp x hpx⟩
    rw [hr, Option.some_inj] at hxr
    exact absurd (hxr ▸ hc) hcx
  | some w =>
    refine ⟨w.1, ?_⟩
    rw [← countP_eq_one hp hr hpr, ← (update?_eq_some (u := w.1) (n := w.2) h).2]

/-- An update addressed at one stored row that gives up its second key. -/
theorem exists_update?_freed {t : Table S} {k : κ} {r : ρ}
    (hp : ∀ r, p r → S.key r = k) (hf : ∀ r, p r → S.key (f r) = S.key r)
    (hu : ∀ r, p r → S.unique (f r) = none) (hr : t.find? k = some r) (hpr : p r)
    (hc : ∀ r, p r → S.check r → S.check (f r)) : ∃ u, t.update? p f = some (u, 1) := by
  have hadmits : S.Admits (t.rows.map (changed p f)) := by
    refine ⟨?_, ?_, ?_⟩
    · rw [List.map_map, funext (f := S.key ∘ changed p f) (key_changed hf)]
      exact t.admitted.1
    · have hsub : ∀ rows : List ρ, ((rows.map (changed p f)).filterMap S.unique).Sublist
          (rows.filterMap S.unique) := by
        intro rows
        induction rows with
        | nil => exact List.Sublist.refl _
        | cons x rows ih =>
          rw [List.map_cons, List.filterMap_cons, List.filterMap_cons]
          by_cases hx : p x = true
          · rw [changed, if_pos hx, hu x hx]
            cases S.unique x with
            | none => exact ih
            | some v => exact ih.cons v
          · rw [changed, if_neg hx]
            cases S.unique x with
            | none => exact ih
            | some v => exact ih.cons_cons v
      exact t.admitted.2.1.sublist (hsub t.rows)
    · intro x hx
      obtain ⟨y, hy, rfl⟩ := List.mem_map.mp hx
      have hcheck := t.admitted.2.2 y hy
      unfold changed
      split_ifs with hpy
      · exact hc y hpy hcheck
      · exact hcheck
  have hcount : t.rows.countP p = 1 := countP_eq_one hp hr hpr
  exact ⟨⟨_, hadmits⟩, by rw [update?, commit?, dif_pos hadmits, hcount]; rfl⟩

end Update

/-- `u` is `t` with the row `r` stored under `k` replaced by `r'`. -/
structure Rewrites (t u : Table S) (k : κ) (r r' : ρ) : Prop where
  before : t.find? k = some r
  after : u.find? k = some r'
  others : ∀ k', k' ≠ k → u.find? k' = t.find? k'

namespace Rewrites
variable {t u : Table S} {k k' : κ} {r r' x : ρ}

theorem find?_eq (h : Rewrites t u k r r') (k' : κ) :
    u.find? k' = if k' = k then some r' else t.find? k' := by
  by_cases hk : k' = k
  · rw [if_pos hk, hk, h.after]
  · rw [if_neg hk, h.others k' hk]

theorem isSome_iff (h : Rewrites t u k r r') : (u.find? k').isSome ↔ (t.find? k').isSome := by
  by_cases hk : k' = k
  · rw [hk, h.before, h.after]
    exact Iff.rfl
  · rw [h.others k' hk]

/-- A row found after the rewriting is the new row or an old row under another key. -/
theorem found (h : Rewrites t u k r r') (hx : u.find? k' = some x) :
    (k' = k ∧ x = r') ∨ (k' ≠ k ∧ t.find? k' = some x) := by
  by_cases hk : k' = k
  · rw [hk, h.after, Option.some_inj] at hx
    exact Or.inl ⟨hk, hx.symm⟩
  · rw [h.others k' hk] at hx
    exact Or.inr ⟨hk, hx⟩

/-- What becomes of a row that was found before the rewriting. -/
theorem lost (h : Rewrites t u k r r') (hx : t.find? k' = some x) :
    (k' = k ∧ x = r ∧ u.find? k' = some r') ∨ (k' ≠ k ∧ u.find? k' = some x) := by
  by_cases hk : k' = k
  · rw [hk, h.before, Option.some_inj] at hx
    exact Or.inl ⟨hk, hx.symm, hk ▸ h.after⟩
  · exact Or.inr ⟨hk, by rw [h.others k' hk, hx]⟩

end Rewrites

section Update
variable [DecidableEq υ] {p : ρ → Bool} {f : ρ → ρ}

omit [DecidableEq υ] in
theorem changed_others {t : Table S} {k k' : κ} (hp : ∀ r, p r → S.key r = k) (hk : k' ≠ k) :
    (t.find? k').map (changed p f) = t.find? k' := by
  cases h : t.find? k' with
  | none => rfl
  | some r =>
    have hpr : ¬ p r := fun hpr => hk ((key_of_find? h).symm.trans (hp r hpr))
    rw [Option.map_some, changed, if_neg hpr]

/-- An update addressed at one key that changes one row rewrites the row under that key. -/
theorem rewrites_of_update? {t u : Table S} {k : κ} (hp : ∀ r, p r → S.key r = k)
    (hf : ∀ r, p r → S.key (f r) = S.key r) (h : t.update? p f = some (u, 1)) :
    ∃ r, p r ∧ Rewrites t u k r (f r) := by
  have hcount := (update?_eq_some h).2
  obtain ⟨r, hr, hpr⟩ := List.countP_pos_iff.mp (by omega : 0 < t.rows.countP p)
  have hfind : t.find? k = some r := find?_eq_some.mpr ⟨hr, hp r hpr⟩
  refine ⟨r, hpr, hfind, ?_, ?_⟩
  · rw [find?_update? hf h, hfind, Option.map_some, changed, if_pos hpr]
  · intro k' hk'
    rw [find?_update? hf h, changed_others hp hk']

/-- An update addressed at one key that does not change exactly one row changes none. -/
theorem update?_unchanged {t u : Table S} {k : κ} {n : ℕ} (hp : ∀ r, p r → S.key r = k)
    (h : t.update? p f = some (u, n)) (hn : n ≠ 1) : u = t := by
  obtain ⟨hrows, hcount⟩ := update?_eq_some h
  have hle := countP_le_one (t := t) hp
  have hzero : t.rows.countP p = 0 := by omega
  rw [List.countP_eq_zero] at hzero
  refine Table.ext (hrows.trans ?_)
  have hsame : ∀ r ∈ t.rows, changed p f r = id r := fun r hr => if_neg (hzero r hr)
  rw [List.map_congr_left hsame, List.map_id]

/-- An update addressed at a stored row that its guard admits rewrites that row. -/
theorem rewrites_of_guarded {t u : Table S} {k : κ} {r : ρ} {n : ℕ} (hp : ∀ r, p r → S.key r = k)
    (hf : ∀ r, p r → S.key (f r) = S.key r) (hr : t.find? k = some r) (hpr : p r)
    (h : t.update? p f = some (u, n)) : n = 1 ∧ Rewrites t u k r (f r) := by
  have hn : n = 1 := (update?_eq_some h).2.trans (countP_eq_one hp hr hpr)
  subst hn
  obtain ⟨r', -, hrew⟩ := rewrites_of_update? hp hf h
  have heq := hrew.before
  rw [hr, Option.some_inj] at heq
  exact ⟨rfl, heq ▸ hrew⟩

end Update

section Delete
variable {p : ρ → Bool}

theorem find?_delete (t : Table S) (k : κ) :
    (t.delete p).find? k = (t.find? k).filter (fun r => !p r) := by
  cases h : t.find? k with
  | none =>
    rw [Option.filter_none, find?_eq_none]
    intro r hr
    exact find?_eq_none.mp h r (mem_delete.mp hr).1
  | some r =>
    cases hp : p r with
    | true =>
      rw [Option.filter_some, hp, Bool.not_true, if_neg (by simp), find?_eq_none]
      rintro x hx rfl
      have hx' := find?_of_mem (mem_delete.mp hx).1
      rw [h, Option.some_inj] at hx'
      rw [hx', (mem_delete.mp hx).2] at hp
      cases hp
    | false =>
      rw [Option.filter_some, hp, Bool.not_false, if_pos rfl, find?_eq_some]
      exact ⟨mem_delete.mpr ⟨mem_of_find? h, hp⟩, key_of_find? h⟩

end Delete

section Agreement

/-- The tables store the same rows under the keys in `K`. -/
def AgreeOn (K : Set κ) (t u : Table S) : Prop := ∀ k ∈ K, t.find? k = u.find? k

variable {K : Set κ} {t u : Table S}

theorem AgreeOn.refl (K : Set κ) (t : Table S) : AgreeOn K t t := fun _ _ => rfl

theorem AgreeOn.delete (h : AgreeOn K t u) (p : ρ → Bool) :
    AgreeOn K (t.delete p) (u.delete p) := by
  intro k hk
  rw [find?_delete, find?_delete, h k hk]

/-- How many rows under an agreed key satisfy `p` is the same in both tables. -/
theorem AgreeOn.countP {k : κ} {p : ρ → Bool} (h : AgreeOn K t u) (hk : k ∈ K)
    (hp : ∀ r, p r → S.key r = k) : t.rows.countP p = u.rows.countP p := by
  have hpos : ∀ v w : Table S, v.find? k = w.find? k → 0 < v.rows.countP p →
      0 < w.rows.countP p := by
    intro v w hvw hv
    obtain ⟨r, hr, hpr⟩ := List.countP_pos_iff.mp hv
    have hfind : w.find? k = some r := hvw ▸ find?_eq_some.mpr ⟨hr, hp r hpr⟩
    exact List.countP_pos_iff.mpr ⟨r, mem_of_find? hfind, hpr⟩
  have ht := countP_le_one (t := t) hp
  have hu := countP_le_one (t := u) hp
  have htu := hpos t u (h k hk)
  have hut := hpos u t (h k hk).symm
  omega

/-- Without a secondary key, a row under an agreed key can be inserted in both tables or in
neither, and they agree afterwards. -/
theorem AgreeOn.insert? [DecidableEq υ] {r : ρ} (hu : ∀ x, S.unique x = none)
    (h : AgreeOn K t u) (hr : S.key r ∈ K) :
    Option.Rel (AgreeOn K) (t.insert? r) (u.insert? r) := by
  have hfresh : t.Fresh r ↔ u.Fresh r := by
    unfold Fresh
    rw [h _ hr]
    simp only [hu, reduceCtorEq, false_implies, implies_true, true_and]
  cases ht : t.insert? r with
  | none =>
    rw [insert?_eq_none, hfresh, ← insert?_eq_none] at ht
    rw [ht]
    exact Option.Rel.none
  | some t' =>
    obtain ⟨u', hu', -⟩ := exists_insert? (hfresh.mp (insert?_fresh ht))
    rw [hu']
    refine Option.Rel.some ?_
    intro k hk
    rw [find?_insert? ht, find?_insert? hu', h k hk]

end Agreement

end Table

end Relational
