import Mathlib

/-!
# Maps that keep the order of insertion

`set` replaces the value of a present key where it stands and appends a new key at the end;
`mapValues` and `filterEntries` go through the entries in order. Keys never repeat.
-/

structure OrderedMap (κ α : Type) where
  entries : List (κ × α)
  nodup : (entries.map Prod.fst).Nodup

namespace OrderedMap
variable {κ α β : Type}

@[ext]
theorem ext {m n : OrderedMap κ α} (h : m.entries = n.entries) : m = n := by
  cases m
  cases n
  cases h
  rfl

def empty : OrderedMap κ α := ⟨[], List.nodup_nil⟩

def mapValues (m : OrderedMap κ α) (f : κ → α → β) : OrderedMap κ β where
  entries := m.entries.map (fun e => (e.1, f e.1 e.2))
  nodup := by
    rw [List.map_map]
    exact m.nodup

def filterEntries (m : OrderedMap κ α) (p : κ → α → Bool) : OrderedMap κ α where
  entries := m.entries.filter (fun e => p e.1 e.2)
  nodup := m.nodup.sublist (List.filter_sublist.map Prod.fst)

variable [DecidableEq κ]

def get (m : OrderedMap κ α) (k : κ) : Option α :=
  (m.entries.find? (fun e => decide (e.1 = k))).map Prod.snd

def delete (m : OrderedMap κ α) (k : κ) : OrderedMap κ α :=
  m.filterEntries (fun j _ => decide (j ≠ k))

theorem mem_of_get {m : OrderedMap κ α} {k : κ} {a : α} (h : m.get k = some a) :
    (k, a) ∈ m.entries := by
  unfold get at h
  obtain ⟨e, he, rfl⟩ := Option.map_eq_some_iff.mp h
  have hk : e.1 = k := by simpa using List.find?_some he
  cases hk
  exact List.mem_of_find?_eq_some he

theorem get_of_mem {m : OrderedMap κ α} {k : κ} {a : α} (h : (k, a) ∈ m.entries) :
    m.get k = some a := by
  have hn := m.nodup
  unfold get
  generalize m.entries = entries at h hn
  induction entries with
  | nil => cases h
  | cons e entries ih =>
    rw [List.map_cons, List.nodup_cons] at hn
    by_cases hk : e.1 = k
    · have he : (k, a) = e := by
        rcases List.mem_cons.mp h with he | hmem
        · exact he
        · have hin : e.1 ∈ entries.map Prod.fst := by
            rw [hk]
            exact List.mem_map.mpr ⟨_, hmem, rfl⟩
          exact absurd hin hn.1
      simp [← he]
    · have hmem : (k, a) ∈ entries := by
        rcases List.mem_cons.mp h with he | hmem
        · exact absurd (congrArg Prod.fst he).symm hk
        · exact hmem
      rw [List.find?_cons_of_neg (by simpa using hk)]
      exact ih hmem hn.2

theorem get_eq_none_iff {m : OrderedMap κ α} {k : κ} :
    m.get k = none ↔ k ∉ m.entries.map Prod.fst := by
  constructor
  · intro h hk
    obtain ⟨e, he, rfl⟩ := List.mem_map.mp hk
    have hget : m.get e.1 = some e.2 := get_of_mem he
    rw [h] at hget
    cases hget
  · intro h
    cases hget : m.get k with
    | none => rfl
    | some a => exact absurd (List.mem_map.mpr ⟨_, mem_of_get hget, rfl⟩) h

def set (m : OrderedMap κ α) (k : κ) (a : α) : OrderedMap κ α :=
  if h : m.get k = none then
    { entries := m.entries ++ [(k, a)]
      nodup := by
        rw [List.map_append, List.nodup_append]
        refine ⟨m.nodup, List.nodup_singleton _, ?_⟩
        intro j hj j' hj' heq
        rw [List.map_singleton, List.mem_singleton] at hj'
        subst heq hj'
        exact get_eq_none_iff.mp h hj }
  else m.mapValues (fun j b => if j = k then a else b)

@[simp]
theorem get_empty (k : κ) : (empty : OrderedMap κ α).get k = none := rfl

@[simp]
theorem get_mapValues (m : OrderedMap κ α) (f : κ → α → β) (k : κ) :
    (m.mapValues f).get k = (m.get k).map (f k) := by
  unfold get mapValues
  dsimp only
  generalize m.entries = entries
  induction entries with
  | nil => rfl
  | cons e entries ih =>
    rw [List.map_cons]
    by_cases hk : e.1 = k
    · subst hk
      simp
    · rw [List.find?_cons_of_neg (by simpa using hk), List.find?_cons_of_neg (by simpa using hk)]
      exact ih

theorem get_filterEntries (m : OrderedMap κ α) (p : κ → α → Bool) (k : κ) :
    (m.filterEntries p).get k = (m.get k).filter (p k) := by
  cases hget : m.get k with
  | none =>
    rw [Option.filter_none, get_eq_none_iff]
    intro hk
    have hsub : k ∈ m.entries.map Prod.fst := by
      obtain ⟨e, he, heq⟩ := List.mem_map.mp hk
      exact List.mem_map.mpr ⟨e, (List.mem_filter.mp he).1, heq⟩
    exact get_eq_none_iff.mp hget hsub
  | some a =>
    cases hp : p k a with
    | true =>
      rw [Option.filter_some, if_pos hp]
      exact get_of_mem (List.mem_filter.mpr ⟨mem_of_get hget, hp⟩)
    | false =>
      rw [Option.filter_some, if_neg (by simp [hp]), get_eq_none_iff]
      intro hk
      obtain ⟨⟨j, b⟩, he, rfl⟩ := List.mem_map.mp hk
      obtain ⟨hmem, hpb⟩ := List.mem_filter.mp he
      rw [get_of_mem hmem] at hget
      cases hget
      exact absurd hpb (by simp [hp])

theorem get_set (m : OrderedMap κ α) (k : κ) (a : α) (j : κ) :
    (m.set k a).get j = if j = k then some a else m.get j := by
  unfold set
  split_ifs with hnone hj hj
  · subst hj
    exact get_of_mem (List.mem_append_right _ (List.mem_singleton.mpr rfl))
  · cases hget : m.get j with
    | none =>
      rw [get_eq_none_iff] at hget ⊢
      rw [List.map_append, List.mem_append]
      rintro (hin | hin)
      · exact hget hin
      · exact hj (by simpa using hin)
    | some b => exact get_of_mem (List.mem_append_left _ (mem_of_get hget))
  · subst hj
    obtain ⟨b, hb⟩ := Option.ne_none_iff_exists'.mp hnone
    simp [hb]
  · rw [get_mapValues]
    simp [hj]

@[simp]
theorem get_set_self (m : OrderedMap κ α) (k : κ) (a : α) : (m.set k a).get k = some a := by
  rw [get_set, if_pos rfl]

theorem get_set_of_ne (m : OrderedMap κ α) {j k : κ} (a : α) (h : j ≠ k) :
    (m.set k a).get j = m.get j := by
  rw [get_set, if_neg h]

theorem get_delete (m : OrderedMap κ α) (k j : κ) :
    (m.delete k).get j = if j = k then none else m.get j := by
  unfold delete
  rw [get_filterEntries]
  split_ifs with hj
  · subst hj
    cases m.get j with
    | none => rfl
    | some a => simp
  · cases m.get j with
    | none => rfl
    | some a => simp [hj]

instance [DecidableEq α] : DecidableEq (OrderedMap κ α) := fun m n =>
  decidable_of_iff (m.entries = n.entries) ⟨ext, congrArg entries⟩

end OrderedMap
