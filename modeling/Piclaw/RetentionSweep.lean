import Piclaw.RetentionPages

/-!
# A sweep of the retention

Planning and applying page after page, from the first cursor to the last: where no trigger holds a
row back, exactly the eligible rows are gone at the end.
-/

namespace Piclaw.UsageRetention

open CanonicalText Utf16

section Planned

variable {services : Services} {database : Database} {before : Units}

/-- A planned row is there as it was planned, and eligible. -/
def Current (services : Services) (database : Database) (before : Units)
    (expected : PlannedRow) : Prop :=
  ∃ row, database.row expected.id = some row ∧ proof services row = some expected.proof ∧
    eligible services database before row = true

/-- No trigger holds a deletion back. -/
def Unblocked (database : Database) : Prop :=
  ∀ row ∈ database.tokenUsage, database.trigger row = .proceed

theorem selectRows_spec {page : List UsageRow} {rows : List PlannedRow}
    (h : selectRows services database before page = some rows) :
    rows.map PlannedRow.id = (page.filter (eligible services database before)).map UsageRow.id ∧
      (∀ expected ∈ rows, ∃ row ∈ page, row.id = expected.id ∧
        proof services row = some expected.proof ∧ eligible services database before row = true) ∧
      ∀ row ∈ page, row.id ≤ maxSafeInteger := by
  induction page generalizing rows with
  | nil =>
    cases h
    exact ⟨rfl, fun _ h => (by cases h), fun _ h => (by cases h)⟩
  | cons row page ih =>
    unfold selectRows at h
    split_ifs at h with hunsafe heligible
    · obtain ⟨rowProof, hproof, h⟩ := Option.bind_eq_some_iff.mp h
      obtain ⟨selected, hselected, h⟩ := Option.bind_eq_some_iff.mp h
      cases h
      obtain ⟨hids, hrows, hsafe⟩ := ih hselected
      refine ⟨?_, ?_, ?_⟩
      · rw [List.filter_cons_of_pos heligible, List.map_cons, List.map_cons, hids]
      · intro expected hexpected
        rcases List.mem_cons.mp hexpected with rfl | hexpected
        · exact ⟨row, List.mem_cons_self, rfl, hproof, heligible⟩
        · obtain ⟨other, hother, hrest⟩ := hrows expected hexpected
          exact ⟨other, List.mem_cons_of_mem _ hother, hrest⟩
      · exact List.forall_mem_cons.mpr ⟨by omega, hsafe⟩
    · obtain ⟨hids, hrows, hsafe⟩ := ih h
      refine ⟨?_, ?_, List.forall_mem_cons.mpr ⟨by omega, hsafe⟩⟩
      · rw [List.filter_cons_of_neg heligible, hids]
      · intro expected hexpected
        obtain ⟨other, hother, hrest⟩ := hrows expected hexpected
        exact ⟨other, List.mem_cons_of_mem _ hother, hrest⟩

theorem selectRows_isSome {page : List UsageRow} (hsafe : ∀ row ∈ page, row.id ≤ maxSafeInteger)
    (hproof : ∀ row ∈ page, (proof services row).isSome) :
    ∃ rows, selectRows services database before page = some rows := by
  induction page with
  | nil => exact ⟨[], rfl⟩
  | cons row page ih =>
    obtain ⟨hrow, hpage⟩ := List.forall_mem_cons.mp hsafe
    obtain ⟨hfirst, hrest⟩ := List.forall_mem_cons.mp hproof
    obtain ⟨rows, hrows⟩ := ih hpage hrest
    obtain ⟨rowProof, hrowProof⟩ := Option.isSome_iff_exists.mp hfirst
    unfold selectRows
    rw [if_neg (by omega)]
    split_ifs
    · exact ⟨⟨row.id, rowProof⟩ :: rows, by rw [hrowProof, hrows]; rfl⟩
    · exact ⟨rows, hrows⟩

theorem mem_of_mem_pageOf {after limit : ℕ} {row : UsageRow}
    (h : row ∈ pageOf database after limit) : row ∈ database.tokenUsage ∧ after < row.id := by
  have hmem := List.mem_filter.mp (List.mem_of_mem_take h)
  exact ⟨hmem.1, by simpa using hmem.2⟩

theorem selectRows_current {after limit : ℕ} {rows : List PlannedRow}
    (h : selectRows services database before (pageOf database after limit) = some rows) :
    ∀ expected ∈ rows, Current services database before expected := by
  intro expected hexpected
  obtain ⟨row, hrow, hid, hproof, heligible⟩ := (selectRows_spec h).2.1 expected hexpected
  refine ⟨row, ?_, hproof, heligible⟩
  rw [← hid]
  exact row_of_mem (mem_of_mem_pageOf hrow).1

/-- The ids of a page's planned rows grow. -/
theorem selectRows_pairwise {after limit : ℕ} {rows : List PlannedRow}
    (h : selectRows services database before (pageOf database after limit) = some rows) :
    (after :: rows.map PlannedRow.id).Pairwise (· < ·) := by
  rw [(selectRows_spec h).1, List.pairwise_cons]
  constructor
  · intro id hid
    obtain ⟨row, hrow, rfl⟩ := List.mem_map.mp hid
    exact (mem_of_mem_pageOf (List.mem_of_mem_filter hrow)).2
  · rw [List.pairwise_map]
    exact ((database.ordered.filter _).sublist (List.take_sublist _ _)).filter _

theorem checkRows_current {rows : List PlannedRow}
    (h : ∀ expected ∈ rows, Current services database before expected) :
    checkRows services database before rows = some (rows, []) := by
  induction rows with
  | nil => rfl
  | cons expected rows ih =>
    obtain ⟨hfirst, hrest⟩ := List.forall_mem_cons.mp h
    obtain ⟨row, hrow, hproof, heligible⟩ := hfirst
    unfold checkRows
    rw [hrow]
    dsimp only
    rw [if_pos ⟨hproof, heligible⟩, ih hrest]
    rfl

theorem Current.remove {expected : PlannedRow} {id : ℕ}
    (h : Current services database before expected) (hne : expected.id ≠ id) :
    Current services (database.remove id) before expected := by
  obtain ⟨row, hrow, hproof, heligible⟩ := h
  obtain ⟨hmem, hid⟩ := row_some hrow
  refine ⟨row, ?_, hproof, heligible⟩
  rw [← hid]
  refine row_of_mem (List.mem_filter.mpr ⟨hmem, ?_⟩)
  rw [hid]
  simpa using hne

theorem Unblocked.remove (h : Unblocked database) (id : ℕ) : Unblocked (database.remove id) :=
  fun row hrow => h row (List.mem_of_mem_filter hrow)

theorem Unblocked.removeAll (h : Unblocked database) (ids : List ℕ) :
    Unblocked (database.removeAll ids) := by
  intro row hrow
  rw [removeAll_frame.1]
  rw [tokenUsage_removeAll] at hrow
  exact h row (List.mem_of_mem_filter hrow)

theorem deleteRows_current {rows : List PlannedRow} (hunblocked : Unblocked database)
    (hcurrent : ∀ expected ∈ rows, Current services database before expected)
    (hnodup : (rows.map PlannedRow.id).Nodup) (removed blocked : List ℕ) (bytes : ℕ) :
    ∃ total, deleteRows services database before removed blocked bytes rows =
      (database.removeAll (rows.map PlannedRow.id), removed ++ rows.map PlannedRow.id, blocked,
        total, true) := by
  induction rows generalizing database removed bytes with
  | nil =>
    refine ⟨bytes, ?_⟩
    rw [List.map_nil, List.append_nil]
    rfl
  | cons expected rows ih =>
    obtain ⟨hfirst, hrest⟩ := List.forall_mem_cons.mp hcurrent
    obtain ⟨hfresh, hlater⟩ := List.nodup_cons.mp hnodup
    obtain ⟨row, hrow, _, heligible⟩ := hfirst
    have hne : ∀ other ∈ rows, other.id ≠ expected.id := by
      intro other hother heq
      exact hfresh (heq ▸ List.mem_map_of_mem hother)
    obtain ⟨total, htotal⟩ := ih (hunblocked.remove expected.id)
      (fun other hother => (hrest other hother).remove (hne other hother)) hlater
      (removed ++ [expected.id]) (bytes + expected.proof.serializedBytes)
    refine ⟨total, ?_⟩
    rw [List.append_assoc] at htotal
    unfold deleteRows
    rw [hrow]
    dsimp only
    rw [if_pos heligible, hunblocked row (row_some hrow).1]
    exact htotal

end Planned

section Validity

variable {services : Services} {database : Database} {before : Units} {after limit : ℕ}

/-- What the code relies on of the hash: it is 64 hexadecimal digits. -/
def HexDigest (services : Services) : Prop :=
  ∀ value, (services.sha256 value).length = 64 ∧ (services.sha256 value).all isHexUnit = true

theorem proof_wellFormed {row : UsageRow} {rowProof : RowProof} (hhex : HexDigest services)
    (h : proof services row = some rowProof) :
    rowProof.sha256.length = 64 ∧ rowProof.sha256.all isHexUnit = true ∧
      0 < rowProof.serializedBytes := by
  obtain ⟨value, hvalue, rfl⟩ := Option.map_eq_some_iff.mp h
  refine ⟨(hhex value).1, (hhex value).2, ?_⟩
  obtain ⟨values, _, hencoded⟩ := Option.bind_eq_some_iff.mp hvalue
  cases hencoded
  exact byteLength_pos _ _

theorem validRows_of {through previous : ℕ} {rows : List PlannedRow}
    (hpairwise : (previous :: rows.map PlannedRow.id).Pairwise (· < ·))
    (hrows : ∀ row ∈ rows, row.id ≤ maxSafeInteger ∧ row.id ≤ through ∧
      row.proof.sha256.length = 64 ∧ row.proof.sha256.all isHexUnit = true ∧
      0 < row.proof.serializedBytes) : validRows through previous rows = true := by
  induction rows generalizing previous with
  | nil => rfl
  | cons row rows ih =>
    obtain ⟨hfirst, hrest⟩ := List.forall_mem_cons.mp hrows
    obtain ⟨hbehind, hlater⟩ := List.pairwise_cons.mp hpairwise
    have hlt : previous < row.id := hbehind row.id List.mem_cons_self
    obtain ⟨hsafe, hthrough, hlength, hhex, hbytes⟩ := hfirst
    unfold validRows
    rw [ih hlater hrest, hhex]
    simp only [Bool.and_true, Bool.and_eq_true, decide_eq_true_eq]
    exact ⟨⟨⟨⟨⟨by omega, hsafe⟩, hlt⟩, hthrough⟩, hlength⟩, hbytes⟩

/-- A page with rows behind it is not empty. -/
theorem page_ne_nil (hlimit : 0 < limit) (hmore : hasMore database after limit = true) :
    pageOf database after limit ≠ [] := by
  intro hpage
  have hlong : limit < (database.tokenUsage.filter fun row => after < row.id).length := by
    simpa [hasMore] using hmore
  have hzero := congrArg List.length hpage
  unfold pageOf at hzero
  rw [List.length_take, List.length_nil] at hzero
  omega

theorem throughOf_eq (hpage : pageOf database after limit ≠ []) :
    ∃ row ∈ pageOf database after limit, throughOf after (pageOf database after limit) = row.id := by
  refine ⟨(pageOf database after limit).getLast hpage, List.getLast_mem hpage, ?_⟩
  unfold throughOf
  rw [List.getLast?_eq_getLast_of_ne_nil hpage]
  rfl

theorem plan_isSome (hcutoff : services.isCutoff before = true) (hafter : after ≤ maxSafeInteger)
    (hlimit : 0 < limit) (hbound : limit ≤ 1000)
    (hsafe : ∀ row ∈ database.tokenUsage, row.id ≤ maxSafeInteger)
    (hproof : ∀ row ∈ database.tokenUsage, (proof services row).isSome) :
    ∃ plan, planUsageReportRetention services database before after limit = some plan := by
  have hsafePage : ∀ row ∈ pageOf database after limit, row.id ≤ maxSafeInteger :=
    fun row hrow => hsafe row (mem_of_mem_pageOf hrow).1
  have hproofPage : ∀ row ∈ pageOf database after limit, (proof services row).isSome :=
    fun row hrow => hproof row (mem_of_mem_pageOf hrow).1
  obtain ⟨rows, hrows⟩ : ∃ rows, selectRows services database before
      (pageOf database after limit) = some rows := selectRows_isSome hsafePage hproofPage
  unfold planUsageReportRetention
  rw [hcutoff, if_neg (by simp), if_neg (by omega)]
  dsimp only
  rw [hrows]
  exact ⟨_, rfl⟩

/-- A plan passes the checks of its application. -/
theorem validPlan_planned {plan : UsageRetentionPlan} (hhex : HexDigest services)
    (h : planUsageReportRetention services database before after limit = some plan) :
    validPlan services plan = true := by
  obtain ⟨hlimit, hbound, hafter, hbefore, hthrough, hexamined, hrows, hnext⟩ := plan_fields h
  obtain ⟨hversion, howner, hcutoff, hsafe⟩ := plan_header h
  have hvalid : validRows plan.through plan.after plan.rows = true := by
    rw [hafter]
    refine validRows_of (selectRows_pairwise hrows) ?_
    intro expected hexpected
    obtain ⟨row, hrow, hid, hproof, _⟩ := (selectRows_spec hrows).2.1 expected hexpected
    rw [← hid, hthrough]
    refine ⟨(selectRows_spec hrows).2.2 row hrow, ?_, proof_wellFormed hhex hproof⟩
    exact ((mem_pageOf hlimit (mem_of_mem_pageOf hrow).1).mp hrow).2
  have hcount : plan.rows.length ≤ plan.examined := by
    have hlength := congrArg List.length (selectRows_spec hrows).1
    rw [List.length_map, List.length_map] at hlength
    rw [hlength, hexamined]
    exact List.length_filter_le _ _
  have hexamined_le : plan.examined ≤ 1000 := by
    rw [hexamined]
    exact le_trans (List.length_take_le _ _) hbound
  unfold validPlan
  rw [hvalid, hbefore, hcutoff, hversion, howner]
  by_cases hpage : pageOf database after limit = []
  · have hmore : hasMore database after limit = false := by
      by_contra hmore
      exact page_ne_nil hlimit (by simpa using hmore) hpage
    rw [hmore] at hnext
    have hend : plan.through = plan.after := by
      rw [hthrough, hpage, hafter]
      rfl
    have hnone : plan.examined = 0 := by
      rw [hexamined, hpage]
      rfl
    have hcursor : validNext plan.examined plan.through plan.next = true := by
      rw [hnext]
      rfl
    rw [hcursor, if_pos hnone, hend, hafter]
    simp only [Bool.and_true, Bool.and_eq_true, decide_eq_true_eq]
    exact ⟨⟨⟨⟨⟨⟨⟨trivial, trivial⟩, hsafe⟩, hsafe⟩, le_rfl⟩, hexamined_le⟩, trivial⟩, hcount⟩
  · obtain ⟨row, hrow, hlast⟩ := throughOf_eq hpage
    have hbehind := (mem_of_mem_pageOf hrow).2
    have hrowsafe := (selectRows_spec hrows).2.2 row hrow
    have hsome : plan.examined ≠ 0 := by
      rw [hexamined]
      exact fun hzero => hpage (List.length_eq_zero_iff.mp hzero)
    have hcursor : validNext plan.examined plan.through plan.next = true := by
      rw [hnext, hthrough]
      unfold validNext
      split_ifs
      · simpa using hsome
      · rfl
    rw [hcursor, if_neg hsome, hafter, hthrough, hlast]
    simp only [Bool.and_true, Bool.and_eq_true, decide_eq_true_eq]
    exact ⟨⟨⟨⟨⟨⟨⟨trivial, trivial⟩, hsafe⟩, hrowsafe⟩, le_of_lt hbehind⟩, hexamined_le⟩, hbehind⟩, hcount⟩

/-- Without triggers in the way, applying a plan at once deletes all its rows. -/
theorem apply_planned {plan : UsageRetentionPlan} (hunblocked : Unblocked database)
    (h : planUsageReportRetention services database before after limit = some plan)
    (hvalid : validPlan services plan = true) :
    ∃ result, applyUsageReportRetention services database plan true true =
        ⟨database.removeAll (plan.rows.map PlannedRow.id), some result⟩ ∧
      result.next = plan.next := by
  obtain ⟨_, _, _, hbefore, _, _, hrows, _⟩ := plan_fields h
  have hcurrent := selectRows_current hrows
  have hnodup : (plan.rows.map PlannedRow.id).Nodup :=
    (List.pairwise_cons.mp (selectRows_pairwise hrows)).2.imp fun h => ne_of_lt h
  obtain ⟨total, htotal⟩ := deleteRows_current hunblocked hcurrent hnodup [] [] 0
  refine ⟨⟨plan.rows.map PlannedRow.id, [], [], total, plan.next⟩, ?_, rfl⟩
  unfold applyUsageReportRetention
  rw [hvalid, hbefore, checkRows_current hcurrent]
  dsimp only
  rw [htotal]
  rfl

end Validity

section Sweeping

variable (services : Services)

/-- Page after page, each planned behind the cursor that the one before has returned; nothing where
one of them throws, or before the last page. -/
def sweep (before : Units) (limitAt : ℕ → ℕ) : ℕ → Database → ℕ → Option Database
  | 0, _, _ => none
  | fuel + 1, database, after => do
    let plan ← planUsageReportRetention services database before after (limitAt after)
    let applied := applyUsageReportRetention services database plan true true
    let result ← applied.result
    match result.next with
    | none => some applied.database
    | some next => sweep before limitAt fuel applied.database next

end Sweeping

section Swept

variable {services : Services} {before : Units} {limitAt : ℕ → ℕ}

/-- The rows that a page leaves. -/
theorem mem_planned {database : Database} {after limit : ℕ} {plan : UsageRetentionPlan}
    (h : planUsageReportRetention services database before after limit = some plan)
    {row : UsageRow} (hrow : row ∈ database.tokenUsage) :
    row.id ∈ plan.rows.map PlannedRow.id ↔ eligible services database before row = true ∧
      row ∈ pageOf database after limit := by
  obtain ⟨_, _, _, _, _, _, hrows, _⟩ := plan_fields h
  rw [(selectRows_spec hrows).1, List.mem_map]
  constructor
  · rintro ⟨other, hother, hid⟩
    obtain ⟨hpage, heligible⟩ := List.mem_filter.mp hother
    have hsame := row_of_mem (mem_of_mem_pageOf hpage).1
    rw [hid, row_of_mem hrow] at hsame
    cases hsame
    exact ⟨heligible, hpage⟩
  · rintro ⟨heligible, hpage⟩
    exact ⟨row, List.mem_filter.mpr ⟨hpage, heligible⟩, rfl⟩

theorem sweep_exact (fuel : ℕ) (database : Database) (after : ℕ) (swept : Database)
    (hunblocked : Unblocked database)
    (h : sweep services before limitAt fuel database after = some swept) :
    swept.tokenUsage = database.tokenUsage.filter fun row =>
      !(eligible services database before row && after < row.id) := by
  induction fuel generalizing database after with
  | zero => cases h
  | succ fuel ih =>
    unfold sweep at h
    obtain ⟨plan, hplan, h⟩ := Option.bind_eq_some_iff.mp h
    obtain ⟨result, hresult, h⟩ := Option.bind_eq_some_iff.mp h
    have hvalid : validPlan services plan = true := by
      by_contra hinvalid
      unfold applyUsageReportRetention at hresult
      rw [if_pos (by simpa using hinvalid)] at hresult
      cases hresult
    obtain ⟨result', happlied, hnext⟩ := apply_planned hunblocked hplan hvalid
    obtain ⟨hlimit, _, _, _, _, _, _, hcursor⟩ := plan_fields hplan
    rw [happlied] at hresult h
    cases hresult
    rw [hnext, hcursor] at h
    cases hmore : hasMore database after (limitAt after) with
    | false =>
      rw [hmore] at h
      cases h
      rw [tokenUsage_removeAll]
      refine List.filter_congr fun row hrow => ?_
      have hpage : row ∈ pageOf database after (limitAt after) ↔ after < row.id := by
        rw [pageOf_all hmore, List.mem_filter]
        simp [hrow]
      have hids := mem_planned hplan hrow
      rw [hpage] at hids
      rw [decide_eq_decide.mpr (not_congr hids), decide_not, Bool.decide_and, Bool.decide_eq_true]
    | true =>
      rw [hmore] at h
      have hrest := ih _ _ (hunblocked.removeAll _) h
      rw [hrest, tokenUsage_removeAll, List.filter_filter]
      refine List.filter_congr fun row hrow => ?_
      have hids := mem_planned hplan hrow
      rw [mem_pageOf hlimit hrow] at hids
      have hbehind := through_ge database after (limitAt after)
      -- a row behind the page is behind the cursor, too
      rw [eligible_removeAll, Bool.eq_iff_iff]
      simp only [Bool.and_eq_true, Bool.not_eq_true', Bool.and_eq_false_iff, decide_eq_true_eq,
        decide_eq_false_iff_not, hids]
      by_cases heligible : eligible services database before row = true
      · simp only [heligible, true_and, false_or, Bool.true_eq_false]
        omega
      · simp [heligible]

/-- Fewer rows lie behind a row than behind a cursor before it. -/
theorem behind_lt {database : Database} {after : ℕ} {last : UsageRow}
    (hmem : last ∈ database.tokenUsage) (hbehind : after < last.id) (ids : List ℕ) :
    ((database.removeAll ids).tokenUsage.filter fun row => last.id < row.id).length <
      (database.tokenUsage.filter fun row => after < row.id).length := by
  have hsub : (((database.removeAll ids).tokenUsage.filter fun row => last.id < row.id)).Sublist
      (database.tokenUsage.filter fun row => last.id < row.id) := by
    rw [tokenUsage_removeAll]
    exact List.filter_sublist.filter _
  refine lt_of_le_of_lt hsub.length_le ?_
  have hfilter : (database.tokenUsage.filter fun row => last.id < row.id) =
      (database.tokenUsage.filter fun row => after < row.id).filter fun row => last.id < row.id := by
    rw [List.filter_filter]
    refine List.filter_congr fun row _ => ?_
    rw [← Bool.decide_and, decide_eq_decide]
    omega
  rw [hfilter]
  refine List.length_filter_lt_length_iff_exists.mpr ⟨last, ?_, by simp⟩
  exact List.mem_filter.mpr ⟨hmem, by simpa using hbehind⟩

theorem sweep_isSome (hcutoff : services.isCutoff before = true) (hhex : HexDigest services)
    (hlimits : ∀ after, 0 < limitAt after ∧ limitAt after ≤ 1000) (fuel : ℕ) (database : Database)
    (after : ℕ) (hunblocked : Unblocked database) (hafter : after ≤ maxSafeInteger)
    (hsafe : ∀ row ∈ database.tokenUsage, row.id ≤ maxSafeInteger)
    (hproof : ∀ row ∈ database.tokenUsage, (proof services row).isSome)
    (hfuel : (database.tokenUsage.filter fun row => after < row.id).length < fuel) :
    ∃ swept, sweep services before limitAt fuel database after = some swept := by
  induction fuel generalizing database after with
  | zero => omega
  | succ fuel ih =>
    obtain ⟨hlimit, hbound⟩ := hlimits after
    obtain ⟨plan, hplan⟩ := plan_isSome hcutoff hafter hlimit hbound hsafe hproof
    obtain ⟨result, happlied, hnext⟩ :=
      apply_planned hunblocked hplan (validPlan_planned hhex hplan)
    obtain ⟨_, _, _, _, _, _, _, hcursor⟩ := plan_fields hplan
    unfold sweep
    rw [hplan]
    dsimp only [Option.bind_eq_bind, Option.bind_some]
    rw [happlied]
    dsimp only [Option.bind_some]
    rw [hnext, hcursor]
    cases hmore : hasMore database after (limitAt after) with
    | false => exact ⟨_, rfl⟩
    | true =>
      have hpage : pageOf database after (limitAt after) ≠ [] := page_ne_nil hlimit hmore
      obtain ⟨last, hlast, hthrough⟩ := throughOf_eq hpage
      obtain ⟨hmem, hbehind⟩ := mem_of_mem_pageOf hlast
      rw [if_pos rfl, hthrough]
      have hsub : ∀ row ∈ (database.removeAll (plan.rows.map PlannedRow.id)).tokenUsage,
          row ∈ database.tokenUsage := by
        intro row hrow
        rw [tokenUsage_removeAll] at hrow
        exact List.mem_of_mem_filter hrow
      refine ih _ _ (hunblocked.removeAll _) (hsafe last hmem) (fun row hrow => hsafe row (hsub row hrow))
        (fun row hrow => hproof row (hsub row hrow)) ?_
      have hshrink := behind_lt hmem hbehind (plan.rows.map PlannedRow.id)
      omega

end Swept

section Retaining

/-- What planning and applying keep to, whatever happens to the table in between. -/
structure Retains (services : Services) : Prop where
  applied : ∀ database plan first last, AppliesPlan services database plan
    (applyUsageReportRetention services database plan first last)
  /-- What is deleted was planned, and has the text that was planned unless two texts share a hash. -/
  planned : ∀ database before after limit plan,
    planUsageReportRetention services database before after limit = some plan →
    ∀ now first last, ∀ row ∈ now.tokenUsage,
      row ∉ (applyUsageReportRetention services now plan first last).database.tokenUsage →
      ∃ old ∈ database.tokenUsage, old.id = row.id ∧ eligible services database before old = true ∧
        ((∀ a b, encoded services old = some a → encoded services row = some b →
          services.sha256 a = services.sha256 b → a = b) →
          encoded services row = encoded services old)
  /-- Another application deletes only what the first has reported. -/
  again : ∀ database plan first last result,
    (applyUsageReportRetention services database plan first last).result = some result →
    ∀ later first' last', ∀ row ∈ later.tokenUsage,
      row ∉ (applyUsageReportRetention services later plan first' last').database.tokenUsage →
      row.id ∈ result.removed ++ result.alreadyAbsent ++ result.blocked
  /-- Each row that is there on every page is examined once. -/
  examined : ∀ pages, Follows services 0 pages → ∀ id,
    (∀ page ∈ pages, ∃ row ∈ page.database.tokenUsage, row.id = id) →
    (pages.flatMap Page.examinedIds).count id = 1
  /-- Where a sweep comes to its end, the eligible rows are gone. -/
  swept : ∀ before limitAt fuel database swept, Unblocked database →
    sweep services before limitAt fuel database 0 = some swept →
    swept.tokenUsage = database.tokenUsage.filter fun row => !eligible services database before row
  /-- It does, unless an id is unsafe, a row has no text, or the input is refused. -/
  ends : ∀ before limitAt database, Unblocked database → services.isCutoff before = true →
    (∀ after, 0 < limitAt after ∧ limitAt after ≤ 1000) →
    (∀ row ∈ database.tokenUsage, row.id ≤ maxSafeInteger ∧ (proof services row).isSome) →
    ∃ swept, sweep services before limitAt (database.tokenUsage.length + 1) database 0 = some swept

variable {services : Services}

theorem planned_text {database now : Database} {before : Units} {after limit : ℕ}
    {plan : UsageRetentionPlan} {row : UsageRow}
    (h : planUsageReportRetention services database before after limit = some plan)
    (hlisted : Listed services now plan row) :
    ∃ old ∈ database.tokenUsage, old.id = row.id ∧ eligible services database before old = true ∧
      ((∀ a b, encoded services old = some a → encoded services row = some b →
        services.sha256 a = services.sha256 b → a = b) →
        encoded services row = encoded services old) := by
  obtain ⟨_, _, _, _, _, _, hrows, _⟩ := plan_fields h
  obtain ⟨expected, hexpected, hid, hproof, _⟩ := hlisted
  obtain ⟨old, hold, holdid, holdproof, heligible⟩ := (selectRows_spec hrows).2.1 expected hexpected
  refine ⟨old, (mem_of_mem_pageOf hold).1, holdid.trans hid, heligible, fun hcollision => ?_⟩
  obtain ⟨a, ha, hproofa⟩ := Option.map_eq_some_iff.mp holdproof
  obtain ⟨b, hb, hproofb⟩ := Option.map_eq_some_iff.mp hproof
  have hhash : services.sha256 a = services.sha256 b :=
    congrArg RowProof.sha256 (hproofa.trans hproofb.symm)
  rw [ha, hb, hcollision a b ha hb hhash]

theorem retention_exact (services : Services) (hhex : HexDigest services) : Retains services where
  applied := apply_spec services
  planned database before after limit plan h now first last row hrow hgone :=
    planned_text h ((apply_spec services now plan first last).deleted row hrow hgone)
  again database plan first last result hresult later first' last' row hrow hgone := by
    obtain ⟨expected, hexpected, hid, _⟩ :=
      (apply_spec services later plan first' last').deleted row hrow hgone
    have honce := ((apply_spec services database plan first last).once result hresult).1
    rw [honce.mem_iff, ← hid]
    exact List.mem_map_of_mem hexpected
  examined pages hpages id hpresent := by
    have hpositive : 0 < id := by
      cases pages with
      | nil => exact hpages.elim
      | cons page pages =>
        obtain ⟨row, _, rfl⟩ := hpresent page List.mem_cons_self
        exact row.positive
    rw [examined_count pages 0 hpages id hpresent, if_pos hpositive]
  swept before limitAt fuel database swept hunblocked h := by
    rw [sweep_exact fuel database 0 swept hunblocked h]
    refine List.filter_congr fun row _ => ?_
    rw [decide_eq_true row.positive, Bool.and_true]
  ends before limitAt database hunblocked hcutoff hlimits hrows := by
    refine sweep_isSome hcutoff hhex hlimits _ database 0 hunblocked (Nat.zero_le _)
      (fun row hrow => (hrows row hrow).1) (fun row hrow => (hrows row hrow).2) ?_
    exact Nat.lt_succ_of_le (List.length_filter_le _ _)

/-- Dates are taken as they are, and every text has one hash. -/
def plainServices : Services where
  strftime := some
  isCutoff _ := true
  sha256 _ := List.replicate 64 48
  readInteger _ := none

def reportOf (id : ℕ) (positive : 0 < id) (runAt : String) : UsageRow :=
  ⟨id, positive, [(units "run_at", .text (units runAt))]⟩

/-- Two old rows and a recent one. -/
def looseReports : Database where
  tokenUsage := [reportOf 1 (by decide) "2024-01-01T00:00:00.000Z",
    reportOf 2 (by decide) "2024-01-01T00:00:00.000Z",
    reportOf 3 (by decide) "2026-01-01T00:00:00.000Z"]
  ordered := by decide
  budgetUsageEvents := []
  budgetRequestReservations := []
  budgetCapWindows := []
  trigger _ := .proceed
  inTransaction := false

theorem retention_exact_loose : ∃ swept,
    sweep plainServices (units "2025-01-01T00:00:00.000Z") (fun _ => 1) 4 looseReports 0 =
      some swept ∧ swept.tokenUsage.map UsageRow.id = [3] := by
  have hexact := retention_exact plainServices fun _ => ⟨rfl, rfl⟩
  obtain ⟨swept, hswept⟩ := hexact.ends (units "2025-01-01T00:00:00.000Z") (fun _ => 1) looseReports
    (fun _ _ => rfl) rfl (fun _ => by decide) (by decide)
  refine ⟨swept, hswept, ?_⟩
  rw [hexact.swept _ _ _ _ _ (fun _ _ => rfl) hswept]
  decide

/-- A trigger protects the second row, in a transaction of the caller. -/
def protectedReports : Database :=
  { looseReports with
    trigger row := if row.id = 2 then .abort else .proceed
    inTransaction := true }

/-- The error leaves the first deletion to the transaction of the caller. -/
theorem thrown_midway : ∃ plan,
    planUsageReportRetention plainServices protectedReports (units "2025-01-01T00:00:00.000Z") 0
      1000 = some plan ∧
    (applyUsageReportRetention plainServices protectedReports plan true true).result.isNone ∧
    (applyUsageReportRetention plainServices protectedReports plan true true).database.tokenUsage.map
      UsageRow.id = [2, 3] := by
  refine ⟨_, rfl, ?_⟩
  decide

end Retaining

end Piclaw.UsageRetention
