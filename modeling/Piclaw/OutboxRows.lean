import Piclaw.OutboxTransitions

/-!
# What a transition does to one outbox row

A cleanup deletes rows together with their decisions, outcomes and resolutions and keeps the
leases. Every other transition moves at most one row, and a row moves in four ways: it is claimed,
reclaimed, reported on or resolved. `RowMove` lists them with the guards under which they happen,
and `transition_row` says that a transition which does not delete a row moves it in one of them or
leaves it alone.
-/

namespace Piclaw
open Relational
variable {δ : Type} [DecidableEq δ] {P : Platform δ} {referenced : BoundedText 512 → Bool}

section Cleanup

/-- The effect of the delete statements on every table. -/
structure Deleted (ids : List (BoundedText 512)) (s c : OutboxTables δ) : Prop where
  leases : c.leases = s.leases
  outbox : ∀ id, c.outbox.find? id = if id ∈ ids then none else s.outbox.find? id
  outcomes : ∀ id n, c.outcomes.find? (id, n) = if id ∈ ids then none else s.outcomes.find? (id, n)
  resolutions : ∀ id n,
    c.resolutions.find? (id, n) = if id ∈ ids then none else s.resolutions.find? (id, n)
  decisions : ∀ k, c.decisions.find? k =
    (s.decisions.find? k).filter (fun d => !decide (∃ id ∈ ids, d.outboxId = some id))

theorem deleted_nil (s : OutboxTables δ) : Deleted [] s s where
  leases := rfl
  outbox _ := by simp
  outcomes _ _ := by simp
  resolutions _ _ := by simp
  decisions k := by
    cases h : s.decisions.find? k with
    | none => rfl
    | some d => simp [Option.filter]

theorem Deleted.trans {ids ids' : List (BoundedText 512)} {s t c : OutboxTables δ}
    (h : Deleted ids s t) (h' : Deleted ids' t c) : Deleted (ids ++ ids') s c where
  leases := h'.leases.trans h.leases
  outbox id := by
    rw [h'.outbox, h.outbox]
    by_cases h₁ : id ∈ ids <;> by_cases h₂ : id ∈ ids' <;> simp [h₁, h₂]
  outcomes id n := by
    rw [h'.outcomes, h.outcomes]
    by_cases h₁ : id ∈ ids <;> by_cases h₂ : id ∈ ids' <;> simp [h₁, h₂]
  resolutions id n := by
    rw [h'.resolutions, h.resolutions]
    by_cases h₁ : id ∈ ids <;> by_cases h₂ : id ∈ ids' <;> simp [h₁, h₂]
  decisions k := by
    rw [h'.decisions, h.decisions, Option.filter_filter]
    congr 1
    funext d
    simp only [List.mem_append, or_and_right, exists_or, Bool.decide_or, Bool.not_or]

theorem filter_const_key {ρ κ υ : Type} [DecidableEq κ] {S : Schema ρ κ υ} {t : Table S} {k : κ}
    {p : ρ → Bool} {c : Prop} [Decidable c] (h : ∀ r, S.key r = k → (p r = true ↔ c)) :
    (t.find? k).filter (fun r => !p r) = if c then none else t.find? k := by
  cases hf : t.find? k with
  | none => simp
  | some r =>
    have hr := h r (Table.key_of_find? hf)
    by_cases hc : c
    · simp [hc, hr.mpr hc]
    · have hp : p r = false := by simpa [hc] using hr
      simp [hc, hp]

/-- One selected row: its decisions, outcomes and resolutions go, then the row itself. -/
theorem deleted_row {row : OutboxRecord δ} {s : OutboxTables δ} {removed : OutboxRecord δ → Bool}
    (hremoved : ∀ r, removed r → r.outboxId = row.outboxId)
    (hcount : s.outbox.rows.countP removed = 1) :
    Deleted [row.outboxId] s
      { s with
        decisions := s.decisions.delete fun d => decide (d.outboxId = some row.outboxId)
        outcomes := s.outcomes.delete fun o => decide (o.outboxId = row.outboxId)
        resolutions := s.resolutions.delete fun o => decide (o.outboxId = row.outboxId)
        outbox := s.outbox.delete removed } where
  leases := rfl
  outbox id := by
    change (s.outbox.delete removed).find? id = _
    rw [Table.find?_delete]
    obtain ⟨x, hx, hpx⟩ := List.countP_pos_iff.mp (hcount ▸ Nat.one_pos)
    simp only [List.mem_singleton]
    by_cases hid : id = row.outboxId
    · have hfind : s.outbox.find? id = some x :=
        Table.find?_eq_some.mpr ⟨hx, (hremoved x hpx).trans hid.symm⟩
      rw [hfind, if_pos hid, Option.filter_some, hpx]
      rfl
    · rw [if_neg hid]
      cases hfind : s.outbox.find? id with
      | none => rfl
      | some r =>
        have hkeep : removed r = false := by
          by_contra hp
          exact hid ((Table.key_of_find? hfind).symm.trans (hremoved r (by simpa using hp)))
        rw [Option.filter_some, hkeep]
        rfl
  outcomes id n := by
    change (s.outcomes.delete _).find? (id, n) = _
    rw [Table.find?_delete]
    apply filter_const_key
    intro r hr
    have hid : r.outboxId = id := congrArg Prod.fst hr
    rw [List.mem_singleton, decide_eq_true_eq, hid]
  resolutions id n := by
    change (s.resolutions.delete _).find? (id, n) = _
    rw [Table.find?_delete]
    apply filter_const_key
    intro r hr
    have hid : r.outboxId = id := congrArg Prod.fst hr
    rw [List.mem_singleton, decide_eq_true_eq, hid]
  decisions k := by
    change (s.decisions.delete _).find? k = _
    rw [Table.find?_delete]
    simp only [List.mem_singleton, exists_eq_left]

theorem deleteRows_ok {rows : List (OutboxRecord δ)} {s c : OutboxTables δ}
    (h : deleteRows referenced rows s = .ok c) : Deleted (rows.map fun r => r.outboxId) s c := by
  induction rows generalizing s with
  | nil =>
    cases h
    exact deleted_nil _
  | cons row rows ih =>
    unfold deleteRows at h
    simp only at h
    split_ifs at h with href hcount
    change Deleted ([row.outboxId] ++ rows.map _) _ c
    refine (deleted_row ?_ (not_not.mp hcount)).trans (ih h)
    intro r hr
    simp only [Bool.and_eq_true, decide_eq_true_eq] at hr
    exact hr.1.1

end Cleanup

section Moves

/-- The commit deleted the row `id`. -/
def removes (id : BoundedText 512) (w : OutboxMutation P × OutboxAnswer δ) : Prop :=
  ∃ result, w.2 = .cleaned result ∧ id ∈ result.deletedIds

/-- The row that the commit granted a lease on. -/
def grantedTo : OutboxMutation P × OutboxAnswer δ → Option (BoundedText 512)
  | (.claimNext _, .leaseApplied lease) => some lease.record.outboxId
  | (.reclaim _, .applied record) => some record.outboxId
  | _ => none

/-- How a transition moves the row stored under `id`. -/
inductive RowMove (w : OutboxMutation P × OutboxAnswer δ) (id : BoundedText 512) :
    OutboxRecord δ → OutboxRecord δ → Prop
  | still {r : OutboxRecord δ} (other : grantedTo w ≠ some id) : RowMove w id r r
  | claim {r : OutboxRecord δ} (request : ClaimOutboxRequest) (isClaim : w.1 = .claimNext request)
      (granted : grantedTo w = some id) (due : dueBy request.now r) :
      RowMove w id r (claimed request (r.attempt + 1) r)
  | reclaim {r : OutboxRecord δ} (request : ReclaimOutboxRequest) (isReclaim : w.1 = .reclaim request)
      (granted : grantedTo w = some id) (authorised : reclaimAuthorised request r) :
      RowMove w id r (reclaimed request (r.attempt + 1) (reclaimReconciliation request r) r)
  | report {r : OutboxRecord δ} (request : WorkerResultRequest) (outcome : WorkerOutcome)
      (requestHash : δ) (isReport : w.1.report? = some (request, outcome, requestHash))
      (temporal : outcomeTemporal outcome r) (owns : ownsAttempt request r) :
      RowMove w id r (reported outcome r)
  | resolve {r : OutboxRecord δ} (request : ResolveUnknownOutboxRequest)
      (isResolve : w.1 = .resolveUnknown request) (authorised : resolveAuthorised request r) :
      RowMove w id r (resolved (resolutionRow request (hashCanonicalRequest P request.json)) r)

omit [DecidableEq δ] in
theorem grantedTo_report {m : OutboxMutation P} {a : OutboxAnswer δ}
    {w : WorkerResultRequest × WorkerOutcome × δ} (h : m.report? = some w) :
    grantedTo (m, a) = none := by
  cases m <;> first | rfl | cases h

omit [DecidableEq δ] in
theorem rewrites_row {s : OutboxTables δ} {outbox : Table (outboxSchema δ)}
    {id key : BoundedText 512} {r row row' : OutboxRecord δ}
    (hw : Table.Rewrites s.outbox outbox key row row') (hr : s.outbox.find? id = some r) :
    (id = key ∧ r = row ∧ outbox.find? id = some row') ∨
      (id ≠ key ∧ outbox.find? id = some r) := by
  by_cases hid : id = key
  · subst hid
    exact Or.inl ⟨rfl, Option.some_inj.mp (hr.symm.trans hw.before), hw.after⟩
  · exact Or.inr ⟨hid, (hw.others id hid).trans hr⟩

/-- A transition that does not delete a stored row keeps it stored and moves it in a listed way. -/
theorem transition_row {s s' : OutboxTables δ} {m : OutboxMutation P} {a : OutboxAnswer δ}
    (ht : Transition P referenced s m a s') {id : BoundedText 512} {r : OutboxRecord δ}
    (hr : s.outbox.find? id = some r) (hkept : ¬ removes id (m, a)) :
    ∃ r', s'.outbox.find? id = some r' ∧ RowMove (m, a) id r r' := by
  cases ht with
  | enqueue request inserted decided =>
    exact ⟨r, Table.find?_insert?_of_some inserted hr, .still (by simp [grantedTo])⟩
  | emptyClaim request unleased nothingDue decided =>
    exact ⟨r, hr, .still (by simp [grantedTo])⟩
  | claimNext request row selected due rewritten leased decided =>
    rcases rewrites_row rewritten hr with ⟨rfl, rfl, hr'⟩ | ⟨hne, hr'⟩
    · exact ⟨_, hr', .claim request rfl rfl due⟩
    · refine ⟨r, hr', .still ?_⟩
      rintro hg
      exact hne (Option.some_inj.mp hg).symm
  | staleReclaim request row unleased found unauthorised decided =>
    exact ⟨r, hr, .still (by simp [grantedTo])⟩
  | reclaim request row authorised rewritten leased decided =>
    have hkey : row.outboxId = request.outboxId := Table.key_of_find? rewritten.before
    rcases rewrites_row rewritten hr with ⟨rfl, rfl, hr'⟩ | ⟨hne, hr'⟩
    · exact ⟨_, hr', .reclaim request rfl (congrArg some hkey) authorised⟩
    · refine ⟨r, hr', .still ?_⟩
      rintro hg
      exact hne ((Option.some_inj.mp hg).symm.trans hkey)
  | report request outcome requestHash row isReport temporal owns rewritten recorded superseding
      decided =>
    rcases rewrites_row rewritten hr with ⟨rfl, rfl, hr'⟩ | ⟨hne, hr'⟩
    · exact ⟨_, hr', .report request outcome requestHash isReport temporal owns⟩
    · exact ⟨r, hr', .still (by simp [grantedTo_report isReport])⟩
  | staleResolution request row found unauthorised decided =>
    exact ⟨r, hr, .still (by simp [grantedTo])⟩
  | resolve request row authorised rewritten recorded decided =>
    rcases rewrites_row rewritten hr with ⟨rfl, rfl, hr'⟩ | ⟨hne, hr'⟩
    · exact ⟨_, hr', .resolve request rfl authorised⟩
    · exact ⟨r, hr', .still (by simp [grantedTo])⟩
  | clean request deleted decided =>
    have hid : id ∉ (selectTerminal s request).map fun r => r.outboxId :=
      fun hmem => hkept ⟨_, rfl, hmem⟩
    refine ⟨r, ?_, .still (by simp [grantedTo])⟩
    rw [(deleteRows_ok deleted).outbox, if_neg hid, hr]

omit [DecidableEq δ] in
theorem rewrites_row_back {s : OutboxTables δ} {outbox : Table (outboxSchema δ)}
    {id key : BoundedText 512} {r' row row' : OutboxRecord δ}
    (hw : Table.Rewrites s.outbox outbox key row row') (hr' : outbox.find? id = some r') :
    ∃ r, s.outbox.find? id = some r := by
  by_cases hid : id = key
  · exact ⟨row, hid ▸ hw.before⟩
  · exact ⟨r', (hw.others id hid).symm.trans hr'⟩

/-- A row that is stored after a transition was stored before it or has just been enqueued. -/
theorem transition_row_back {s s' : OutboxTables δ} {m : OutboxMutation P} {a : OutboxAnswer δ}
    (ht : Transition P referenced s m a s') {id : BoundedText 512} {r' : OutboxRecord δ}
    (hr' : s'.outbox.find? id = some r') :
    (∃ r, s.outbox.find? id = some r ∧ RowMove (m, a) id r r') ∨
      s.outbox.find? id = none ∧ r'.state = .pending := by
  cases hr : s.outbox.find? id with
  | some r =>
    refine Or.inl ⟨r, rfl, ?_⟩
    have hkept : ¬ removes id (m, a) := by
      rintro ⟨result, ha, hid⟩
      cases ht <;> cases ha
      rename_i deleted _
      change id ∈ (selectTerminal s _).map (fun r => r.outboxId) at hid
      have hgone := (deleteRows_ok deleted).outbox id
      rw [if_pos hid] at hgone
      exact absurd (hgone.symm.trans hr') (by simp)
    obtain ⟨x, hx, hmove⟩ := transition_row ht hr hkept
    rwa [Option.some_inj.mp (hr'.symm.trans hx)]
  | none =>
    refine Or.inr ⟨rfl, ?_⟩
    cases ht with
    | enqueue request inserted decided =>
      change Table.find? _ id = _ at hr'
      rw [Table.find?_insert? inserted, hr] at hr'
      split_ifs at hr'
      cases hr'
      rfl
    | emptyClaim | staleReclaim | staleResolution =>
      rw [hr'] at hr
      cases hr
    | claimNext request row selected due rewritten leased decided =>
      obtain ⟨r, h⟩ := rewrites_row_back rewritten hr'
      rw [hr] at h
      cases h
    | reclaim request row authorised rewritten leased decided =>
      obtain ⟨r, h⟩ := rewrites_row_back rewritten hr'
      rw [hr] at h
      cases h
    | report request outcome requestHash row isReport temporal owns rewritten recorded superseding
        decided =>
      obtain ⟨r, h⟩ := rewrites_row_back rewritten hr'
      rw [hr] at h
      cases h
    | resolve request row authorised rewritten recorded decided =>
      obtain ⟨r, h⟩ := rewrites_row_back rewritten hr'
      rw [hr] at h
      cases h
    | clean request deleted decided =>
      change Table.find? _ id = _ at hr'
      rw [(deleteRows_ok deleted).outbox, hr, ite_self] at hr'
      cases hr'

end Moves

section Decisions
variable {s s' : OutboxTables δ} {m : OutboxMutation P} {a : OutboxAnswer δ}

/-- A transition files one decision. Before that, a cleanup drops the decisions of the rows it
deletes and a report drops the stale decision of its attempt; nothing else is lost. -/
theorem transition_decided (ht : Transition P referenced s m a s') :
    ∃ (base : Table (decisionSchema δ)) (d : DecisionRow δ), base.insert? d = some s'.decisions ∧
      (∀ k x, base.find? k = some x → s.decisions.find? k = some x ∧
        ∀ id, x.outboxId = some id → ¬ removes id (m, a)) ∧
      (∀ k x, s.decisions.find? k = some x → (∀ id n, k ≠ .outcome id n) →
        (∀ id, x.outboxId = some id → ¬ removes id (m, a)) → base.find? k = some x) ∧
      (∀ id n, d.key = .outcome id n →
        d.outboxId = some id ∧ ∃ o, s'.outcomes.find? (id, n) = some o) := by
  cases ht with
  | enqueue request inserted decided =>
    exact ⟨_, _, decided, fun k x hx => ⟨hx, fun id _ => by simp [removes]⟩, fun k x hx _ _ => hx,
      by rintro id n ⟨⟩⟩
  | emptyClaim request unleased nothingDue decided =>
    exact ⟨_, _, decided, fun k x hx => ⟨hx, fun id _ => by simp [removes]⟩, fun k x hx _ _ => hx,
      by rintro id n ⟨⟩⟩
  | claimNext request row selected due rewritten leased decided =>
    exact ⟨_, _, decided, fun k x hx => ⟨hx, fun id _ => by simp [removes]⟩, fun k x hx _ _ => hx,
      by rintro id n ⟨⟩⟩
  | staleReclaim request row unleased found unauthorised decided =>
    exact ⟨_, _, decided, fun k x hx => ⟨hx, fun id _ => by simp [removes]⟩, fun k x hx _ _ => hx,
      by rintro id n ⟨⟩⟩
  | reclaim request row authorised rewritten leased decided =>
    exact ⟨_, _, decided, fun k x hx => ⟨hx, fun id _ => by simp [removes]⟩, fun k x hx _ _ => hx,
      by rintro id n ⟨⟩⟩
  | staleResolution request row found unauthorised decided =>
    exact ⟨_, _, decided, fun k x hx => ⟨hx, fun id _ => by simp [removes]⟩, fun k x hx _ _ => hx,
      by rintro id n ⟨⟩⟩
  | resolve request row authorised rewritten recorded decided =>
    exact ⟨_, _, decided, fun k x hx => ⟨hx, fun id _ => by simp [removes]⟩, fun k x hx _ _ => hx,
      by rintro id n ⟨⟩⟩
  | report request outcome requestHash row isReport temporal owns rewritten recorded superseding
      decided =>
    refine ⟨_, _, decided, ?_, ?_, ?_⟩
    · intro k x hx
      rw [superseding] at hx
      exact ⟨(Option.filter_eq_some_iff.mp hx).1, fun id _ => by simp [removes]⟩
    · intro k x hx hk _
      rw [superseding, hx, Option.filter_some, if_pos (by simpa using hk _ _)]
    · intro id n hk
      cases hk
      exact ⟨rfl, _, Table.find?_insert?_self recorded⟩
  | clean request deleted decided =>
    refine ⟨_, _, decided, ?_, ?_, by rintro id n ⟨⟩⟩
    · intro k x hx
      rw [(deleteRows_ok deleted).decisions] at hx
      obtain ⟨hx, hkeep⟩ := Option.filter_eq_some_iff.mp hx
      refine ⟨hx, ?_⟩
      rintro id hid ⟨result, ha, hmem⟩
      cases ha
      simp only [Bool.not_eq_true', decide_eq_false_iff_not] at hkeep
      exact hkeep ⟨id, hmem, hid⟩
    · intro k x hx _ hkept
      rw [(deleteRows_ok deleted).decisions, hx, Option.filter_some, if_pos]
      simp only [Bool.not_eq_true', decide_eq_false_iff_not]
      rintro ⟨id, hmem, hid⟩
      exact hkept id hid ⟨_, rfl, hmem⟩

end Decisions

section Shapes
variable {r : OutboxRecord δ}

omit [DecidableEq δ] in
/-- A started row holds a lease taken when its state last changed. -/
theorem started_lease (hc : r.check) (hs : r.state = .started) :
    ∃ worker token claimed expires, r.workerId = some worker ∧ r.leaseToken = some token ∧
      r.claimedAt = some claimed ∧ r.leaseExpiresAt = some expires ∧ claimed < expires ∧
      r.stateChangedAt = claimed ∧ 1 ≤ r.attempt := by
  have h := hc.2.2
  rw [OutboxRecord.stateCheck, hs] at h
  obtain ⟨-, ha, hw, ht, ⟨claimed, hcl, expires, hex, hlt, hsc⟩, -⟩ := h
  obtain ⟨worker, hw⟩ := Option.ne_none_iff_exists'.mp hw
  obtain ⟨token, ht⟩ := Option.ne_none_iff_exists'.mp ht
  exact ⟨worker, token, claimed, expires, hw, ht, hcl, hex, hlt, hsc, ha⟩

omit [DecidableEq δ] in
/-- A row whose retry is due last changed strictly before the retry. -/
theorem failed_retry (hc : r.check) (hs : r.state = .failed) {retry : Instant}
    (hr : r.retryAt = some retry) : r.stateChangedAt < retry ∧ 1 ≤ r.attempt := by
  have h := hc.2.2
  rw [OutboxRecord.stateCheck, hs] at h
  obtain ⟨-, ha, -, -, -, -, hretry, -⟩ := h
  rw [hr, nullOr_some] at hretry
  exact ⟨hretry, ha⟩

omit [DecidableEq δ] in
theorem pending_attempt (hc : r.check) (hs : r.state = .pending) : r.attempt = 0 := by
  have h := hc.2.2
  rw [OutboxRecord.stateCheck, hs] at h
  exact h.2.1

omit [DecidableEq δ] in
theorem unknown_result (hc : r.check) (hs : r.state = .unknown) :
    r.resultAt = some r.stateChangedAt ∧ 1 ≤ r.attempt := by
  have h := hc.2.2
  rw [OutboxRecord.stateCheck, hs] at h
  exact ⟨h.2.2.2.2.2.2.1, h.2.1⟩

end Shapes

end Piclaw
