import Piclaw.UsageRetention

/-!
# Planned rows and pages

What applying a plan deletes and reports, for any plan and any state of the database, and which rows
the pages of consecutive plans examine whatever happens between them.
-/

namespace Piclaw.UsageRetention

open CanonicalText

variable {services : Services}

section Deleting

variable {database : Database} {before : Units} {row : UsageRow} {id : ℕ} {ids : List ℕ}

def Database.removeAll (database : Database) (ids : List ℕ) : Database :=
  ids.foldl Database.remove database

theorem eligible_remove : eligible services (database.remove id) before row =
    eligible services database before row := rfl

theorem eligible_removeAll : eligible services (database.removeAll ids) before row =
    eligible services database before row := by
  induction ids generalizing database with
  | nil => rfl
  | cons id ids ih =>
    rw [Database.removeAll, List.foldl_cons]
    exact ih.trans eligible_remove

theorem tokenUsage_removeAll : (database.removeAll ids).tokenUsage =
    database.tokenUsage.filter fun row => row.id ∉ ids := by
  induction ids generalizing database with
  | nil => simp [Database.removeAll]
  | cons id ids ih =>
    rw [Database.removeAll, List.foldl_cons]
    refine ih.trans ?_
    rw [Database.remove, List.filter_filter]
    apply List.filter_congr
    intro row _
    simp [not_or, Bool.and_comm]

theorem removeAll_frame : (database.removeAll ids).trigger = database.trigger ∧
    (database.removeAll ids).inTransaction = database.inTransaction := by
  induction ids generalizing database with
  | nil => exact ⟨rfl, rfl⟩
  | cons id ids ih =>
    rw [Database.removeAll, List.foldl_cons]
    exact ih

theorem row_some (h : database.row id = some row) : row ∈ database.tokenUsage ∧ row.id = id :=
  ⟨List.mem_of_find?_eq_some h, by simpa using List.find?_some h⟩

/-- A row is the one of its id. -/
theorem row_of_mem (h : row ∈ database.tokenUsage) : database.row row.id = some row := by
  have hordered := database.ordered
  unfold Database.row
  generalize database.tokenUsage = rows at h hordered
  induction rows with
  | nil => cases h
  | cons first rows ih =>
    obtain ⟨hfirst, hrest⟩ := List.pairwise_cons.mp hordered
    rcases List.mem_cons.mp h with rfl | h
    · exact List.find?_cons_of_pos (by simp)
    · rw [List.find?_cons_of_neg]
      · exact ih h hrest
      · have := hfirst row h
        simp only [decide_eq_true_eq]
        omega

theorem row_none : database.row id = none ↔ ∀ row ∈ database.tokenUsage, row.id ≠ id := by
  unfold Database.row
  rw [List.find?_eq_none]
  simp

/-- What the loop of the deletions does. -/
structure DeletesRows (services : Services) (database : Database) (before : Units)
    (rows : List PlannedRow) (gone held : List ℕ) (completed : Bool) : Prop where
  reported : completed = true → (gone ++ held).Perm (rows.map PlannedRow.id)
  deleted : ∀ id ∈ gone, ∃ expected ∈ rows, expected.id = id ∧
    ∃ row, database.row id = some row ∧ eligible services database before row = true

theorem DeletesRows.later {rows : List PlannedRow} {gone held : List ℕ} {completed : Bool}
    (h : DeletesRows services database before rows gone held completed) (first : PlannedRow) :
    DeletesRows services database before (first :: rows) gone (first.id :: held) completed where
  reported hcompleted := List.perm_middle.trans ((h.reported hcompleted).cons first.id)
  deleted id hid := by
    obtain ⟨expected, hexpected, hrest⟩ := h.deleted id hid
    exact ⟨expected, List.mem_cons_of_mem _ hexpected, hrest⟩

theorem deleteRows_spec (database : Database) (before : Units) (removed blocked : List ℕ)
    (bytes : ℕ) (rows : List PlannedRow) : ∃ gone held total completed,
      deleteRows services database before removed blocked bytes rows =
        (database.removeAll gone, removed ++ gone, blocked ++ held, total, completed) ∧
      DeletesRows services database before rows gone held completed := by
  induction rows generalizing database removed blocked bytes with
  | nil =>
    refine ⟨[], [], bytes, true, ?_, fun _ => List.Perm.nil, fun id hid => ?_⟩
    · rw [List.append_nil, List.append_nil]
      rfl
    · cases hid
  | cons first rows ih =>
    have hheld : ∃ gone held total completed,
        deleteRows services database before removed (blocked ++ [first.id]) bytes rows =
          (database.removeAll gone, removed ++ gone, blocked ++ held, total, completed) ∧
        DeletesRows services database before (first :: rows) gone held completed := by
      obtain ⟨gone, held, total, completed, heq, hspec⟩ :=
        ih database removed (blocked ++ [first.id]) bytes
      rw [List.append_assoc] at heq
      exact ⟨gone, first.id :: held, total, completed, heq, hspec.later first⟩
    unfold deleteRows
    cases hrow : database.row first.id with
    | none => exact hheld
    | some found =>
      dsimp only
      split_ifs with heligible
      · cases database.trigger found with
        | proceed =>
          obtain ⟨gone, held, total, completed, heq, hspec⟩ := ih (database.remove first.id)
            (removed ++ [first.id]) blocked (bytes + first.proof.serializedBytes)
          rw [List.append_assoc] at heq
          refine ⟨first.id :: gone, held, total, completed, heq,
            fun hcompleted => (hspec.reported hcompleted).cons first.id, ?_⟩
          intro id hid
          rcases List.mem_cons.mp hid with rfl | hid
          · exact ⟨first, List.mem_cons_self, rfl, found, hrow, heligible⟩
          · obtain ⟨expected, hexpected, hsame, row, hget, hrest⟩ := hspec.deleted id hid
            obtain ⟨hmem, hrowid⟩ := row_some hget
            refine ⟨expected, List.mem_cons_of_mem _ hexpected, hsame, row, ?_, hrest⟩
            rw [← hrowid]
            exact row_of_mem (List.mem_filter.mp hmem).1
        | ignore => exact hheld
        | abort =>
          refine ⟨[], [], bytes, false, ?_, fun h => (by cases h), fun id hid => (by cases hid)⟩
          rw [List.append_nil, List.append_nil]
          rfl
      · exact hheld

/-- The rows that are checked are there as they were planned; the others are not there. -/
theorem checkRows_spec {rows present : List PlannedRow} {absent : List ℕ}
    (h : checkRows services database before rows = some (present, absent)) :
    (present.map PlannedRow.id ++ absent).Perm (rows.map PlannedRow.id) ∧
      (∀ expected ∈ present, expected ∈ rows ∧ ∃ row, database.row expected.id = some row ∧
        proof services row = some expected.proof) ∧
      ∀ id ∈ absent, database.row id = none := by
  induction rows generalizing present absent with
  | nil =>
    cases h
    exact ⟨List.Perm.nil, fun _ h => (by cases h), fun _ h => (by cases h)⟩
  | cons first rows ih =>
    unfold checkRows at h
    cases hrow : database.row first.id with
    | none =>
      rw [hrow] at h
      obtain ⟨⟨present', absent'⟩, hrest, heq⟩ := Option.map_eq_some_iff.mp h
      cases heq
      obtain ⟨hperm, hpresent, habsent⟩ := ih hrest
      refine ⟨List.perm_middle.trans (hperm.cons first.id), ?_, ?_⟩
      · intro expected hexpected
        obtain ⟨hmem, hfound⟩ := hpresent expected hexpected
        exact ⟨List.mem_cons_of_mem _ hmem, hfound⟩
      · intro id hid
        rcases List.mem_cons.mp hid with rfl | hid
        · exact hrow
        · exact habsent id hid
    | some row =>
      rw [hrow] at h
      dsimp only at h
      split_ifs at h with hsame
      obtain ⟨⟨present', absent'⟩, hrest, heq⟩ := Option.map_eq_some_iff.mp h
      cases heq
      obtain ⟨hperm, hpresent, habsent⟩ := ih hrest
      refine ⟨hperm.cons first.id, ?_, habsent⟩
      intro expected hexpected
      rcases List.mem_cons.mp hexpected with rfl | hexpected
      · exact ⟨List.mem_cons_self, row, hrow, hsame.1⟩
      · obtain ⟨hmem, hfound⟩ := hpresent expected hexpected
        exact ⟨List.mem_cons_of_mem _ hmem, hfound⟩

end Deleting

section Applications

variable {database : Database} {plan : UsageRetentionPlan} {first last : Bool}

/-- A row is listed in the plan as it is now, and may still be deleted. -/
def Listed (services : Services) (database : Database) (plan : UsageRetentionPlan)
    (row : UsageRow) : Prop :=
  ∃ expected ∈ plan.rows, expected.id = row.id ∧ proof services row = some expected.proof ∧
    eligible services database plan.before row = true

/-- What an application of a plan deletes and reports. -/
structure AppliesPlan (services : Services) (database : Database) (plan : UsageRetentionPlan)
    (applied : Applied) : Prop where
  failed : applied.result = none → database.inTransaction = false → applied.database = database
  kept : applied.database.tokenUsage.Sublist database.tokenUsage
  deleted : ∀ row ∈ database.tokenUsage, row ∉ applied.database.tokenUsage →
    Listed services database plan row
  once : ∀ result, applied.result = some result →
    (result.removed ++ result.alreadyAbsent ++ result.blocked).Perm (plan.rows.map PlannedRow.id) ∧
      (plan.rows.map PlannedRow.id).Nodup
  removed : ∀ result, applied.result = some result → ∀ id ∈ result.removed,
    database.row id ≠ none ∧ applied.database.row id = none
  absent : ∀ result, applied.result = some result → ∀ id ∈ result.alreadyAbsent,
    database.row id = none
  blocked : ∀ result, applied.result = some result → ∀ id ∈ result.blocked,
    applied.database.row id ≠ none

theorem validRows_pairwise {through previous : ℕ} {rows : List PlannedRow}
    (h : validRows through previous rows = true) :
    (previous :: rows.map PlannedRow.id).Pairwise (· < ·) := by
  induction rows generalizing previous with
  | nil => exact List.pairwise_singleton _ _
  | cons row rows ih =>
    unfold validRows at h
    simp only [Bool.and_eq_true, decide_eq_true_eq] at h
    have hrest := ih h.2
    rw [List.map_cons, List.pairwise_cons]
    refine ⟨?_, hrest⟩
    intro id hid
    rcases List.mem_cons.mp hid with rfl | hid
    · exact h.1.1.1.1.1.2
    · exact lt_trans h.1.1.1.1.1.2 ((List.pairwise_cons.mp hrest).1 id hid)

theorem AppliesPlan.refl (result : Option RetentionResult) (h : result = none) :
    AppliesPlan services database plan ⟨database, result⟩ := by
  subst h
  refine ⟨fun _ _ => rfl, List.Sublist.refl _, fun row hrow hnot => absurd hrow hnot, ?_, ?_, ?_, ?_⟩
  all_goals
    intro result hresult
    cases hresult

/-- Whatever the plan and the database: what is deleted is listed, unchanged and eligible, each row
of the plan is reported once, and an error outside a transaction deletes nothing. -/
theorem apply_spec (services : Services) (database : Database) (plan : UsageRetentionPlan)
    (first last : Bool) : AppliesPlan services database plan
      (applyUsageReportRetention services database plan first last) := by
  unfold applyUsageReportRetention
  split_ifs with hvalid hfirst
  · exact .refl none rfl
  · exact .refl none rfl
  · cases hcheck : checkRows services database plan.before plan.rows with
    | none => exact .refl none rfl
    | some checked =>
      obtain ⟨present, absent⟩ := checked
      obtain ⟨hperm, hpresent, habsent⟩ := checkRows_spec hcheck
      obtain ⟨gone, held, total, completed, heq, hspec⟩ :=
        @deleteRows_spec services database plan.before [] [] 0 present
      dsimp only
      rw [heq]
      dsimp only
      have hkept : (database.removeAll gone).tokenUsage.Sublist database.tokenUsage := by
        rw [tokenUsage_removeAll]
        exact List.filter_sublist
      have hdeleted : ∀ row ∈ database.tokenUsage, row ∉ (database.removeAll gone).tokenUsage →
          Listed services database plan row := by
        intro row hrow hnot
        rw [tokenUsage_removeAll, List.mem_filter] at hnot
        have hgone : row.id ∈ gone := by
          by_contra hout
          exact hnot ⟨hrow, by simpa using hout⟩
        obtain ⟨expected, hexpected, hid, found, hfound, heligible⟩ := hspec.deleted row.id hgone
        obtain ⟨hlisted, row', hrow', hproof⟩ := hpresent expected hexpected
        rw [row_of_mem hrow] at hfound
        cases hfound
        rw [hid, row_of_mem hrow] at hrow'
        cases hrow'
        exact ⟨expected, hlisted, hid, hproof, heligible⟩
      by_cases hcompleted : (completed && last) = true
      · rw [if_pos hcompleted]
        rw [Bool.and_eq_true] at hcompleted
        have hreported := hspec.reported hcompleted.1
        have hpairwise : (plan.rows.map PlannedRow.id).Pairwise (· < ·) := by
          have hvalid : validPlan services plan = true := by simpa using hvalid
          unfold validPlan at hvalid
          simp only [Bool.and_eq_true] at hvalid
          exact (List.pairwise_cons.mp (validRows_pairwise hvalid.1.2)).2
        have hnodup : (plan.rows.map PlannedRow.id).Nodup := hpairwise.imp fun h => ne_of_lt h
        have hmember : ∀ id, id ∈ gone ∨ id ∈ held → ∃ row, database.row id = some row := by
          intro id hid
          have hmem : id ∈ present.map PlannedRow.id :=
            hreported.mem_iff.mp (List.mem_append.mpr hid)
          obtain ⟨expected, hexpected, rfl⟩ := List.mem_map.mp hmem
          obtain ⟨_, row, hrow, _⟩ := hpresent expected hexpected
          exact ⟨row, hrow⟩
        have hdisjoint : ∀ id ∈ held, id ∉ gone := by
          intro id hheld hgone
          have hboth : (present.map PlannedRow.id ++ absent).Nodup := hperm.nodup_iff.mpr hnodup
          have hsplit : (gone ++ held).Nodup :=
            hreported.nodup_iff.mpr (List.nodup_append.mp hboth).1
          exact (List.nodup_append.mp hsplit).2.2 id hgone id hheld rfl
        refine ⟨fun h => (by cases h), hkept, hdeleted, ?_, ?_, ?_, ?_⟩
        · rintro result ⟨⟩
          refine ⟨?_, hnodup⟩
          have hshift : (gone ++ absent ++ held).Perm (gone ++ held ++ absent) := by
            rw [List.append_assoc, List.append_assoc]
            exact List.Perm.append_left gone List.perm_append_comm
          exact (hshift.trans (hreported.append_right absent)).trans hperm
        · rintro result ⟨⟩ id hid
          obtain ⟨row, hrow⟩ := hmember id (.inl hid)
          refine ⟨by rw [hrow]; exact Option.some_ne_none row, ?_⟩
          rw [row_none, tokenUsage_removeAll]
          intro other hother heq
          have hout := (List.mem_filter.mp hother).2
          rw [heq] at hout
          exact absurd hid (by simpa using hout)
        · rintro result ⟨⟩ id hid
          exact habsent id hid
        · rintro result ⟨⟩ id hid
          obtain ⟨row, hrow⟩ := hmember id (.inr hid)
          obtain ⟨hmem, rfl⟩ := row_some hrow
          have hstays : row ∈ (database.removeAll gone).tokenUsage := by
            rw [tokenUsage_removeAll]
            exact List.mem_filter.mpr ⟨hmem, by simpa using hdisjoint row.id hid⟩
          change (database.removeAll gone).row row.id ≠ none
          rw [row_of_mem hstays]
          exact Option.some_ne_none row
      · rw [if_neg hcompleted]
        unfold Piclaw.UsageRetention.failed
        split_ifs with htransaction
        · refine ⟨fun _ h => ?_, hkept, hdeleted, ?_, ?_, ?_, ?_⟩
          · rw [htransaction] at h
            cases h
          all_goals
            intro result hresult
            cases hresult
        · exact .refl none rfl

end Applications

section Pages

variable {database : Database} {after limit id : ℕ} {row : UsageRow}

theorem mem_pageOf (hlimit : 0 < limit) (hrow : row ∈ database.tokenUsage) :
    row ∈ pageOf database after limit ↔
      after < row.id ∧ row.id ≤ throughOf after (pageOf database after limit) := by
  have hordered : (database.tokenUsage.filter fun row => after < row.id).Pairwise
      fun a b => a.id < b.id := database.ordered.filter _
  unfold pageOf throughOf
  generalize hrows : (database.tokenUsage.filter fun row => after < row.id) = rows at hordered
  have hmem : row ∈ rows ↔ after < row.id := by
    rw [← hrows, List.mem_filter]
    simp [hrow]
  rw [← hmem]
  rw [← List.take_append_drop limit rows] at hordered
  obtain ⟨htake, _, hbetween⟩ := List.pairwise_append.mp hordered
  constructor
  · intro hpage
    refine ⟨List.mem_of_mem_take hpage, ?_⟩
    have hne : rows.take limit ≠ [] := List.ne_nil_of_mem hpage
    rw [List.getLast?_eq_getLast_of_ne_nil hne, Option.map_some, Option.getD_some]
    obtain ⟨front, hfront⟩ : ∃ front, rows.take limit = front ++ [(rows.take limit).getLast hne] :=
      ⟨_, (List.dropLast_append_getLast hne).symm⟩
    rw [hfront] at hpage htake
    rcases List.mem_append.mp hpage with h | h
    · exact le_of_lt ((List.pairwise_append.mp htake).2.2 row h _ List.mem_cons_self)
    · rw [List.mem_singleton.mp h]
  · rintro ⟨hin, hle⟩
    rw [← List.take_append_drop limit rows] at hin
    rcases List.mem_append.mp hin with h | h
    · exact h
    · exfalso
      have hne : rows.take limit ≠ [] := by
        intro hnil
        have hempty : rows = [] := by
          cases rows with
          | nil => rfl
          | cons first rows =>
            obtain ⟨k, rfl⟩ : ∃ k, limit = k + 1 := ⟨limit - 1, by omega⟩
            cases hnil
        rw [hempty] at h
        simp at h
      rw [List.getLast?_eq_getLast_of_ne_nil hne, Option.map_some, Option.getD_some] at hle
      have hlt := hbetween _ (List.getLast_mem hne) row h
      omega

theorem pageOf_all (h : hasMore database after limit = false) :
    pageOf database after limit = database.tokenUsage.filter fun row => after < row.id := by
  unfold hasMore at h
  unfold pageOf
  rw [List.take_of_length_le]
  simpa using h

theorem through_ge (database : Database) (after limit : ℕ) :
    after ≤ throughOf after (pageOf database after limit) := by
  unfold throughOf
  cases hlast : (pageOf database after limit).getLast? with
  | none => exact le_rfl
  | some last =>
    have hbehind := (List.mem_filter.mp (List.mem_of_mem_take (List.mem_of_getLast? hlast))).2
    simp only [decide_eq_true_eq] at hbehind
    exact le_of_lt hbehind

/-- One page of a series: the database as it was, the limit, and the plan. -/
structure Page where
  database : Database
  limit : ℕ
  plan : UsageRetentionPlan

def Page.examinedIds (page : Page) : List ℕ :=
  (pageOf page.database page.plan.after page.limit).map UsageRow.id

/-- Plans made one behind the other, each from the cursor of the one before, up to the last. -/
def Follows (services : Services) : ℕ → List Page → Prop
  | _, [] => False
  | after, page :: pages =>
    planUsageReportRetention services page.database page.plan.before after page.limit =
        some page.plan ∧
      match page.plan.next with
      | none => pages = []
      | some next => Follows services next pages

/-- A plan that is made holds the page behind the cursor. -/
theorem plan_eq {before : Units} {plan : UsageRetentionPlan}
    (h : planUsageReportRetention services database before after limit = some plan) :
    services.isCutoff before = true ∧ (after ≤ maxSafeInteger ∧ 0 < limit ∧ limit ≤ 1000) ∧
      ∃ rows, selectRows services database before (pageOf database after limit) = some rows ∧
        plan =
          { version := 1
            owner := units "legacy-usage-reports"
            before, after
            through := throughOf after (pageOf database after limit)
            examined := (pageOf database after limit).length
            rows
            next := if hasMore database after limit then
              some (throughOf after (pageOf database after limit)) else none } := by
  unfold planUsageReportRetention at h
  by_cases hcutoff : (!services.isCutoff before) = true
  · rw [if_pos hcutoff] at h
    cases h
  rw [if_neg hcutoff] at h
  by_cases hwindow : maxSafeInteger < after ∨ limit = 0 ∨ 1000 < limit
  · rw [if_pos hwindow] at h
    cases h
  rw [if_neg hwindow] at h
  obtain ⟨rows, hrows, h⟩ := Option.bind_eq_some_iff.mp h
  push Not at hwindow
  exact ⟨by simpa using hcutoff, ⟨hwindow.1, by omega, hwindow.2.2⟩, rows, hrows,
    (Option.some.inj h).symm⟩

theorem plan_fields {before : Units} {plan : UsageRetentionPlan}
    (h : planUsageReportRetention services database before after limit = some plan) :
    0 < limit ∧ limit ≤ 1000 ∧ plan.after = after ∧ plan.before = before ∧
      plan.through = throughOf after (pageOf database after limit) ∧
      plan.examined = (pageOf database after limit).length ∧
      selectRows services database before (pageOf database after limit) = some plan.rows ∧
      plan.next = if hasMore database after limit then
        some (throughOf after (pageOf database after limit)) else none := by
  obtain ⟨_, hwindow, rows, hrows, rfl⟩ := plan_eq h
  exact ⟨hwindow.2.1, hwindow.2.2, rfl, rfl, rfl, rfl, hrows, rfl⟩

theorem plan_header {before : Units} {plan : UsageRetentionPlan}
    (h : planUsageReportRetention services database before after limit = some plan) :
    plan.version = 1 ∧ plan.owner = units "legacy-usage-reports" ∧
      services.isCutoff before = true ∧ after ≤ maxSafeInteger := by
  obtain ⟨hcutoff, hwindow, rows, _, rfl⟩ := plan_eq h
  exact ⟨rfl, rfl, hcutoff, hwindow.1⟩

theorem examinedIds_nodup (page : Page) : page.examinedIds.Nodup := by
  have hordered : (page.examinedIds).Pairwise (· < ·) := by
    unfold Page.examinedIds
    rw [List.pairwise_map]
    exact (page.database.ordered.filter _).sublist (List.take_sublist _ _)
  exact hordered.imp fun h => ne_of_lt h

/-- The ids behind the cursor are examined once, the others not again. -/
theorem examined_count (pages : List Page) (after : ℕ) (h : Follows services after pages) (id : ℕ)
    (hpresent : ∀ page ∈ pages, ∃ row ∈ page.database.tokenUsage, row.id = id) :
    (pages.flatMap Page.examinedIds).count id = if after < id then 1 else 0 := by
  induction pages generalizing after with
  | nil => exact h.elim
  | cons page pages ih =>
    obtain ⟨hplan, hnext⟩ := h
    obtain ⟨hlimit, _, hafter, _, _, _, _, hcursor⟩ := plan_fields hplan
    obtain ⟨row, hrow, rfl⟩ := hpresent page List.mem_cons_self
    have hpage : row.id ∈ page.examinedIds ↔
        row ∈ pageOf page.database after page.limit := by
      unfold Page.examinedIds
      rw [hafter, List.mem_map]
      constructor
      · rintro ⟨other, hother, hid⟩
        have hmem : other ∈ page.database.tokenUsage :=
          List.mem_of_mem_filter (List.mem_of_mem_take hother)
        have hsame := row_of_mem hmem
        rw [hid, row_of_mem hrow] at hsame
        rwa [Option.some.inj hsame]
      · exact fun hmem => ⟨row, hmem, rfl⟩
    rw [List.flatMap_cons, List.count_append, (examinedIds_nodup page).count]
    cases hmore : hasMore page.database after page.limit with
    | false =>
      rw [hmore] at hcursor
      rw [hcursor] at hnext
      rw [pageOf_all hmore, List.mem_filter] at hpage
      have hall : row.id ∈ page.examinedIds ↔ after < row.id := by
        rw [hpage]
        simp [hrow]
      have hlast : pages = [] := hnext
      simp only [hlast, hall]
      rfl
    | true =>
      rw [hmore, if_pos rfl] at hcursor
      rw [hcursor] at hnext
      have hrest := ih _ hnext fun later hlater => hpresent later (List.mem_cons_of_mem _ hlater)
      have hthrough := through_ge page.database after page.limit
      rw [mem_pageOf hlimit hrow] at hpage
      simp only [hrest, hpage]
      split_ifs <;> omega

end Pages

end Piclaw.UsageRetention
