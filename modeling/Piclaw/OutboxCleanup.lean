import Piclaw.OutboxRows

/-!
# Cleanup of the outbox under foreign keys

The terminal commits and the scheduled runs link outbox rows, and their foreign keys keep the rows
that they link. The cleanup selects rows without looking at the links.
-/

namespace Piclaw
open Relational
variable {δ : Type} [DecidableEq δ] {P : Platform δ}

section Links

/-- The outbox with the links that the other two stores keep: an operation's or a run's id and the
id of the row. -/
structure LinkedTables (δ : Type) where
  outbox : OutboxTables δ
  commitOutbox : List (BoundedText 512 × BoundedText 512)
  runOutbox : List (BoundedText 512 × BoundedText 512)

def LinkedTables.empty : LinkedTables δ := ⟨OutboxTables.empty δ, [], []⟩

/-- A row of another store references the outbox row. -/
def LinkedTables.references (s : LinkedTables δ) (id : BoundedText 512) : Bool :=
  (s.commitOutbox ++ s.runOutbox).any (fun link => link.2 = id)

/-- The transaction inserts its intents, and is given up unless each is applied. -/
def enqueueIntents : List (EnqueueOutboxRequest P) → OutboxTables δ → Option (OutboxTables δ)
  | [], s => some s
  | intent :: intents, s =>
    match insertEnqueue intent s with
    | .ok (.ok (.applied _), s') => enqueueIntents intents s'
    | _ => none

/-- What the three stores do to the outbox rows and the links. The checks that the other two stores
make before they come to the outbox are left out, so these are more runs than the program's. -/
inductive LinkedCall (P : Platform δ) where
  /-- A call of the outbox store. -/
  | outbox (runtime : OutboxAdapterRuntime) (request : Option (OutboxMutation P))
  /-- A terminal commit of an operation. -/
  | commitTerminal (operationId : BoundedText 512) (intents : List (EnqueueOutboxRequest P))
  /-- The completion of a scheduled run. -/
  | completeRun (runId : BoundedText 512) (intents : List (EnqueueOutboxRequest P))
  /-- The retention of a scheduled run. -/
  | retireRun (runId : BoundedText 512)

def linksTo (ownerId : BoundedText 512) (intents : List (EnqueueOutboxRequest P)) :
    List (BoundedText 512 × BoundedText 512) :=
  intents.map (fun intent => (ownerId, intent.outboxId))

def linkedStep (s : LinkedTables δ) : LinkedCall P → LinkedTables δ
  | .outbox runtime request =>
    { s with outbox := (mutate s.references runtime request s.outbox).2 }
  | .commitTerminal operationId intents =>
    if s.commitOutbox.any (fun link => link.1 = operationId) then s
    else
      match enqueueIntents intents s.outbox with
      | none => s
      | some outbox =>
        { s with outbox := outbox, commitOutbox := s.commitOutbox ++ linksTo operationId intents }
  | .completeRun runId intents =>
    if s.runOutbox.any (fun link => link.1 = runId) then s
    else
      match enqueueIntents intents s.outbox with
      | none => s
      | some outbox =>
        { s with outbox := outbox, runOutbox := s.runOutbox ++ linksTo runId intents }
  | .retireRun runId =>
    { s with runOutbox := s.runOutbox.filter (fun link => link.1 ≠ runId) }

end Links

section Deleting
variable {referenced : BoundedText 512 → Bool} {s : OutboxTables δ}
  {request : CleanupTerminalOutboxRequest}

omit [DecidableEq δ] in
theorem mem_selectTerminal {row : OutboxRecord δ} (h : row ∈ selectTerminal s request) :
    row ∈ s.outbox.rows ∧ row.stateChangedAt < request.before ∧ terminal row = true := by
  have hmem := List.mem_of_mem_take h
  rw [List.mem_insertionSort, List.mem_filter] at hmem
  simp only [Bool.and_eq_true, decide_eq_true_eq] at hmem
  exact ⟨hmem.1, hmem.2.1.1, hmem.2.1.2⟩

omit [DecidableEq δ] in
theorem selectTerminal_distinct :
    ((selectTerminal s request).map OutboxRecord.outboxId).Nodup := by
  have hkeys : (s.outbox.rows.map OutboxRecord.outboxId).Nodup := s.outbox.admitted.1
  unfold selectTerminal
  refine List.Nodup.sublist ((List.take_sublist _ _).map _) ?_
  rw [((List.perm_insertionSort _ _).map _).nodup_iff]
  exact hkeys.sublist (List.filter_sublist.map _)

omit [DecidableEq δ] in
/-- The delete statements succeed exactly if no row to be deleted is referenced. -/
theorem deleteRows_isOk {rows : List (OutboxRecord δ)}
    (hstored : ∀ row ∈ rows, row ∈ s.outbox.rows ∧ terminal row = true)
    (hdistinct : (rows.map OutboxRecord.outboxId).Nodup) :
    (∃ c, deleteRows referenced rows s = .ok c) ↔
      ∀ row ∈ rows, referenced row.outboxId = false := by
  induction rows generalizing s with
  | nil => exact iff_of_true ⟨s, rfl⟩ (by simp)
  | cons row rows ih =>
    rw [List.map_cons, List.nodup_cons] at hdistinct
    rw [List.forall_mem_cons] at hstored
    obtain ⟨⟨hrow, hterminal⟩, hrest⟩ := hstored
    set removed := fun r : OutboxRecord δ => decide (r.outboxId = row.outboxId) &&
      decide (r.stateChangedAt = row.stateChangedAt) && terminal r with hremoved
    have hkey : ∀ r, removed r = true → r.outboxId = row.outboxId := by
      intro r hr
      simp only [hremoved, Bool.and_eq_true, decide_eq_true_eq] at hr
      exact hr.1.1
    have hself : removed row = true := by simp [hremoved, hterminal]
    have hcount : s.outbox.rows.countP removed = 1 :=
      Table.countP_eq_one hkey (Table.find?_of_mem hrow) hself
    have href : (s.outbox.rows.any fun r => removed r && referenced r.outboxId) =
        referenced row.outboxId := by
      rw [Bool.eq_iff_iff, List.any_eq_true]
      constructor
      · rintro ⟨r, -, hr⟩
        rw [Bool.and_eq_true] at hr
        rw [← hkey r hr.1]
        exact hr.2
      · intro h
        exact ⟨row, hrow, by rw [hself, h]; rfl⟩
    have hkept : ∀ r ∈ rows, r ∈ (s.outbox.delete removed).rows ∧ terminal r = true := by
      intro r hr
      obtain ⟨hmem, hterminal⟩ := hrest r hr
      refine ⟨Table.mem_delete.mpr ⟨hmem, ?_⟩, hterminal⟩
      by_contra hgone
      have hid := hkey r (Bool.not_eq_false _ ▸ hgone)
      exact hdistinct.1 (hid ▸ List.mem_map_of_mem hr)
    rw [List.forall_mem_cons, deleteRows]
    dsimp only
    rw [href, hcount]
    cases hlinked : referenced row.outboxId with
    | true => simp
    | false =>
      rw [if_neg Bool.false_ne_true, if_neg (not_not.mpr rfl), ih hkept hdistinct.2]
      simp

end Deleting

section Cleanup
variable {referenced : BoundedText 512 → Bool} {s s' : OutboxTables δ}
  {request : CleanupTerminalOutboxRequest}

/-- What the cleanup is to answer, and which rows it may delete. -/
structure CleansUp (P : Platform δ) (referenced : BoundedText 512 → Bool)
    (request : CleanupTerminalOutboxRequest) (s : OutboxTables δ) : Prop where
  succeeds : ∃ result,
    (mutate (P := P) referenced .faultFree (some (.cleanupTerminal request)) s).1 =
        .ok (.cleaned result) ∨
      (mutate (P := P) referenced .faultFree (some (.cleanupTerminal request)) s).1 =
        .ok (.cleanupReplayed result)
  onlyTerminal : ∀ row ∈ s.outbox.rows,
    (mutate (P := P) referenced .faultFree (some (.cleanupTerminal request)) s).2.outbox.find?
        row.outboxId = none →
      row.stateChangedAt < request.before ∧ terminal row = true ∧ referenced row.outboxId = false

/-- A new cleanup selects no row that is referenced, and its receipt fits the column; one that was
made before is the same request, and its receipt can be read. -/
def Cleanable (P : Platform δ) (referenced : BoundedText 512 → Bool)
    (request : CleanupTerminalOutboxRequest) (s : OutboxTables δ) : Prop :=
  match s.decisions.find? (.cleanup request.cleanupId) with
  | none => (∀ row ∈ selectTerminal s request, referenced row.outboxId = false) ∧
      receiptCheck (cleanupResult request.limit.1 (selectTerminal s request))
  | some decision => decision.method = .cleanupTerminal ∧
      decision.requestHash = hashCanonicalRequest P request.json ∧
      (parseCleanup decision.resultJson).isSome

omit [DecidableEq δ] in
theorem cleanupDecision_check (requestHash : δ) (result : CleanupTerminalOutboxResult) :
    (cleanupDecision request requestHash result).check ↔ receiptCheck result := by
  simp [cleanupDecision, DecisionRow.check, nullOr]

omit [DecidableEq δ] in
theorem selected_isOk : (∃ c, deleteRows referenced (selectTerminal s request) s = .ok c) ↔
    ∀ row ∈ selectTerminal s request, referenced row.outboxId = false := by
  refine deleteRows_isOk (fun row hrow => ?_) selectTerminal_distinct
  obtain ⟨hstored, -, hterminal⟩ := mem_selectTerminal hrow
  exact ⟨hstored, hterminal⟩

/-- A cleanup that was not made before. -/
theorem cleanupTerminal_new (hnew : s.decisions.find? (.cleanup request.cleanupId) = none) :
    (∃ s', cleanupTerminal P referenced request s =
        .ok (.ok (.cleaned (cleanupResult request.limit.1 (selectTerminal s request))), s')) ↔
      (∀ row ∈ selectTerminal s request, referenced row.outboxId = false) ∧
        receiptCheck (cleanupResult request.limit.1 (selectTerminal s request)) := by
  have hreplay : readCleanupReplay s request.cleanupId (hashCanonicalRequest P request.json) =
      none := by
    unfold readCleanupReplay
    rw [hnew]
  unfold cleanupTerminal
  simp only [hreplay]
  rw [← selected_isOk]
  constructor
  · rintro ⟨s', h⟩
    obtain ⟨cleaned, hdeleted, h⟩ := bind_eq_ok.mp h
    obtain ⟨written, hwritten, -⟩ := bind_eq_ok.mp h
    obtain ⟨decisions, hdecided, -⟩ := writeDecision_eq_ok.mp hwritten
    exact ⟨⟨cleaned, hdeleted⟩,
      (cleanupDecision_check _ _).mp (Table.insert?_fresh hdecided).2.2⟩
  · rintro ⟨⟨cleaned, hdeleted⟩, hreceipt⟩
    have hfree : cleaned.decisions.find? (.cleanup request.cleanupId) = none := by
      rw [(deleteRows_ok hdeleted).decisions, hnew]
      rfl
    obtain ⟨decisions, hdecided, -⟩ := Table.exists_insert? (Table.fresh_of_free
      (r := cleanupDecision request (hashCanonicalRequest P request.json)
        (cleanupResult request.limit.1 (selectTerminal s request))) rfl hfree
      ((cleanupDecision_check _ _).mpr hreceipt))
    refine ⟨{ cleaned with decisions := decisions }, bind_eq_ok.mpr ⟨cleaned, hdeleted, ?_⟩⟩
    exact bind_eq_ok.mpr ⟨_, writeDecision_eq_ok.mpr ⟨decisions, hdecided, rfl⟩, rfl⟩

/-- A new cleanup that returns answers with what it selected and has deleted no other row. -/
theorem cleanupTerminal_new_ok (hnew : s.decisions.find? (.cleanup request.cleanupId) = none)
    {a : Attempted δ} (h : cleanupTerminal P referenced request s = .ok (a, s')) :
    a = .ok (.cleaned (cleanupResult request.limit.1 (selectTerminal s request))) ∧
      ∀ row ∈ s.outbox.rows, s'.outbox.find? row.outboxId = none →
        row ∈ selectTerminal s request := by
  have hreplay : readCleanupReplay s request.cleanupId (hashCanonicalRequest P request.json) =
      none := by
    unfold readCleanupReplay
    rw [hnew]
  unfold cleanupTerminal at h
  simp only [hreplay] at h
  obtain ⟨cleaned, hdeleted, h⟩ := bind_eq_ok.mp h
  obtain ⟨written, hwritten, h⟩ := bind_eq_ok.mp h
  obtain ⟨decisions, -, rfl⟩ := writeDecision_eq_ok.mp hwritten
  cases h
  refine ⟨rfl, fun row hrow hgone => ?_⟩
  change cleaned.outbox.find? row.outboxId = none at hgone
  have hfind := Table.find?_of_mem hrow
  change s.outbox.find? row.outboxId = some row at hfind
  rw [(deleteRows_ok hdeleted).outbox, hfind] at hgone
  split_ifs at hgone with hid
  obtain ⟨r, hr, heq⟩ := List.mem_map.mp hid
  have hfind' := Table.find?_of_mem (mem_selectTerminal hr).1
  change s.outbox.find? r.outboxId = some r at hfind'
  rw [heq, hfind, Option.some_inj] at hfind'
  rw [hfind']
  exact hr

/-- A cleanup with an id that was used before. -/
theorem cleanupTerminal_known {decision : DecisionRow δ} {answer : OutboxAnswer δ}
    (hknown : s.decisions.find? (.cleanup request.cleanupId) = some decision) :
    cleanupTerminal P referenced request s = .ok (.ok answer, s') ↔
      s' = s ∧ decision.method = .cleanupTerminal ∧
        decision.requestHash = hashCanonicalRequest P request.json ∧
        ∃ result, parseCleanup decision.resultJson = some result ∧
          answer = .cleanupReplayed result := by
  unfold cleanupTerminal readCleanupReplay
  rw [hknown]
  dsimp only
  by_cases hconflict : decision.method ≠ .cleanupTerminal ∨
      decision.requestHash ≠ hashCanonicalRequest P request.json
  · rw [if_pos hconflict]
    refine iff_of_false (fun h => by cases h) (fun h => ?_)
    exact hconflict.elim (fun hm => hm h.2.1) (fun hh => hh h.2.2.1)
  · rw [if_neg hconflict]
    rw [not_or, not_not, not_not] at hconflict
    cases hparse : parseCleanup decision.resultJson with
    | none => simp
    | some result =>
      constructor
      · intro h
        cases h
        exact ⟨rfl, hconflict.1, hconflict.2, result, rfl, rfl⟩
      · rintro ⟨rfl, -, -, _, hresult, rfl⟩
        cases hresult
        rfl

/-- What a cleanup that meets no fault answers. -/
theorem mutate_cleanup {answer : OutboxAnswer δ} :
    (mutate (P := P) referenced .faultFree (some (.cleanupTerminal request)) s).1 = .ok answer ↔
      ∃ s', cleanupTerminal P referenced request s = .ok (.ok answer, s') := by
  cases h : cleanupTerminal P referenced request s with
  | error fault => simp [mutate, OutboxAdapterRuntime.faultFree, apply, h]
  | ok answered =>
    obtain ⟨a, s'⟩ := answered
    cases a with
    | error e => simp [mutate, OutboxAdapterRuntime.faultFree, apply, h]
    | ok answer' => simp [mutate, OutboxAdapterRuntime.faultFree, apply, h]

theorem mutate_cleanup_tables {answer : OutboxAnswer δ}
    (h : cleanupTerminal P referenced request s = .ok (.ok answer, s')) :
    (mutate (P := P) referenced .faultFree (some (.cleanupTerminal request)) s).2 = s' := by
  simp [mutate, OutboxAdapterRuntime.faultFree, apply, h]

/-- A cleanup succeeds, and deletes only what it may, exactly if it is cleanable. -/
theorem cleansUp_iff :
    CleansUp P referenced request s ↔ Cleanable P referenced request s := by
  unfold Cleanable
  cases hdecision : s.decisions.find? (.cleanup request.cleanupId) with
  | none =>
    dsimp only
    rw [← cleanupTerminal_new (P := P) hdecision]
    constructor
    · rintro ⟨⟨result, h | h⟩, -⟩
      all_goals
        obtain ⟨s', hs'⟩ := mutate_cleanup.mp h
        rw [(cleanupTerminal_new_ok hdecision hs').1] at hs'
        exact ⟨s', hs'⟩
    · rintro ⟨s', hs'⟩
      have hfree := (cleanupTerminal_new (P := P) hdecision).mp ⟨s', hs'⟩
      refine ⟨⟨_, Or.inl (mutate_cleanup.mpr ⟨s', hs'⟩)⟩, fun row hrow hgone => ?_⟩
      rw [mutate_cleanup_tables hs'] at hgone
      have hselected := (cleanupTerminal_new_ok hdecision hs').2 row hrow hgone
      obtain ⟨-, hbefore, hterminal⟩ := mem_selectTerminal hselected
      exact ⟨hbefore, hterminal, hfree.1 row hselected⟩
  | some decision =>
    dsimp only
    constructor
    · rintro ⟨⟨result, h | h⟩, -⟩
      all_goals
        obtain ⟨s', hs'⟩ := mutate_cleanup.mp h
        obtain ⟨-, hmethod, hhash, _, hresult, -⟩ := (cleanupTerminal_known hdecision).mp hs'
        exact ⟨hmethod, hhash, hresult ▸ rfl⟩
    · rintro ⟨hmethod, hhash, hparsed⟩
      obtain ⟨result, hresult⟩ := Option.isSome_iff_exists.mp hparsed
      have hreplayed : cleanupTerminal P referenced request s =
          .ok (.ok (.cleanupReplayed result), s) :=
        (cleanupTerminal_known hdecision).mpr ⟨rfl, hmethod, hhash, result, hresult, rfl⟩
      refine ⟨⟨result, Or.inr (mutate_cleanup.mpr ⟨s, hreplayed⟩)⟩, fun row hrow hgone => ?_⟩
      have hfind := Table.find?_of_mem hrow
      change s.outbox.find? row.outboxId = some row at hfind
      rw [mutate_cleanup_tables hreplayed, hfind] at hgone
      cases hgone

end Cleanup

section Runs
variable {s : LinkedTables δ}

/-- The row that a reference names is there. -/
def LinkedTables.Sound (s : LinkedTables δ) : Prop :=
  ∀ id, s.references id = true → (s.outbox.outbox.find? id).isSome

/-- A transition deletes no row that is referenced. -/
theorem transition_keeps {referenced : BoundedText 512 → Bool} {t t' : OutboxTables δ}
    {m : OutboxMutation P} {a : OutboxAnswer δ} (ht : Transition P referenced t m a t')
    {id : BoundedText 512} (hid : referenced id = true) (hfound : (t.outbox.find? id).isSome) :
    (t'.outbox.find? id).isSome := by
  obtain ⟨row, hrow⟩ := Option.isSome_iff_exists.mp hfound
  have hkept : ¬ removes id (m, a) := by
    rintro ⟨result, ha, hmem⟩
    cases ht <;> cases ha
    rename_i deleted _
    obtain ⟨r, hr, rfl⟩ := List.mem_map.mp hmem
    have hfree := selected_isOk.mp ⟨_, deleted⟩ r hr
    rw [hfree] at hid
    cases hid
  obtain ⟨row', hrow', -⟩ := transition_row ht hrow hkept
  rw [hrow']
  rfl

theorem enqueueIntents_spec {intents : List (EnqueueOutboxRequest P)} {t t' : OutboxTables δ}
    (h : enqueueIntents intents t = some t') :
    (∀ id, (t.outbox.find? id).isSome → (t'.outbox.find? id).isSome) ∧
      ∀ intent ∈ intents, (t'.outbox.find? intent.outboxId).isSome := by
  induction intents generalizing t with
  | nil =>
    cases h
    exact ⟨fun _ h => h, by simp⟩
  | cons intent intents ih =>
    unfold enqueueIntents at h
    split at h
    · rename_i record t₁ hinserted
      obtain ⟨hkeep, hadded⟩ := ih h
      have hfirst : (t₁.outbox.find? intent.outboxId).isSome ∧
          ∀ id, (t.outbox.find? id).isSome → (t₁.outbox.find? id).isSome := by
        have hstepped : Stepped P (fun _ => false) t (.enqueue intent) (.ok (.applied record)) t₁ :=
          insertEnqueue_ok hinserted
        rcases hstepped with ⟨-, hquiet⟩ | ⟨answer, hanswer, ht⟩
        · exact (hquiet _ rfl).elim
        · cases ht with
          | enqueue request inserted decided =>
            refine ⟨?_, fun id hid => ?_⟩
            · have hself := Table.find?_insert?_self inserted
              exact Option.isSome_iff_exists.mpr ⟨_, hself⟩
            · obtain ⟨row, hrow⟩ := Option.isSome_iff_exists.mp hid
              rw [Table.find?_insert?_of_some inserted hrow]
              rfl
          | report request outcome requestHash row isReport => cases isReport
      refine ⟨fun id hid => hkeep id (hfirst.2 id hid), ?_⟩
      rw [List.forall_mem_cons]
      exact ⟨hkeep _ hfirst.1, hadded⟩
    · cases h

omit [DecidableEq δ] in
theorem references_iff {id : BoundedText 512} :
    s.references id = true ↔
      (∃ link ∈ s.commitOutbox, link.2 = id) ∨ ∃ link ∈ s.runOutbox, link.2 = id := by
  simp only [LinkedTables.references, List.any_eq_true, List.mem_append, decide_eq_true_eq,
    or_and_right, exists_or]

omit [DecidableEq δ] in
theorem linksTo_found {ownerId id : BoundedText 512} {intents : List (EnqueueOutboxRequest P)}
    {t : OutboxTables δ} (h : ∀ intent ∈ intents, (t.outbox.find? intent.outboxId).isSome)
    (hid : ∃ link ∈ linksTo ownerId intents, link.2 = id) : (t.outbox.find? id).isSome := by
  obtain ⟨link, hlink, rfl⟩ := hid
  obtain ⟨intent, hintent, rfl⟩ := List.mem_map.mp hlink
  exact h intent hintent

/-- A transaction that links the rows it has inserted. -/
theorem sound_of_enqueueIntents {s' : LinkedTables δ} (ownerId : BoundedText 512)
    {intents : List (EnqueueOutboxRequest P)} (h : s.Sound)
    (hinserted : enqueueIntents intents s.outbox = some s'.outbox)
    (hlinks : ∀ id, s'.references id = true →
      s.references id = true ∨ ∃ link ∈ linksTo ownerId intents, link.2 = id) : s'.Sound := by
  intro id hid
  obtain ⟨hkeep, hadded⟩ := enqueueIntents_spec hinserted
  rcases hlinks id hid with hold | hnew
  · exact hkeep id (h id hold)
  · exact linksTo_found hadded hnew

theorem LinkedTables.Sound.step (h : s.Sound) (call : LinkedCall P) :
    (linkedStep s call).Sound := by
  cases call with
  | outbox runtime request =>
    intro id hid
    change s.references id = true at hid
    rcases callStep_cases s.outbox ⟨runtime, request, s.references⟩ with ⟨hsame, -⟩ |
      ⟨m, answer, -, ht⟩
    · change Option.isSome ((callStep s.outbox ⟨runtime, request, s.references⟩).outbox.find? id)
      rw [hsame]
      exact h id hid
    · exact transition_keeps ht hid (h id hid)
  | commitTerminal operationId intents =>
    unfold linkedStep
    dsimp only
    split_ifs with hdone
    · exact h
    · cases hinserted : enqueueIntents intents s.outbox with
      | none => exact h
      | some t =>
        refine sound_of_enqueueIntents operationId h hinserted (fun id hid => ?_)
        rw [references_iff] at hid ⊢
        simp only [List.mem_append, or_and_right, exists_or] at hid
        exact or_right_comm.mp hid
  | completeRun runId intents =>
    unfold linkedStep
    dsimp only
    split_ifs with hdone
    · exact h
    · cases hinserted : enqueueIntents intents s.outbox with
      | none => exact h
      | some t =>
        refine sound_of_enqueueIntents runId h hinserted (fun id hid => ?_)
        rw [references_iff] at hid ⊢
        simp only [List.mem_append, or_and_right, exists_or] at hid
        exact or_assoc.mpr hid
  | retireRun runId =>
    intro id hid
    refine h id (references_iff.mpr ((references_iff.mp hid).imp_right ?_))
    rintro ⟨link, hlink, heq⟩
    exact ⟨link, List.mem_of_mem_filter hlink, heq⟩

abbrev runLinked (calls : List (LinkedCall P)) : LinkedTables δ :=
  run linkedStep LinkedTables.empty calls

theorem runLinked_sound (calls : List (LinkedCall P)) : (runLinked calls).Sound := by
  refine run_invariant (C := fun _ _ => True) (fun s call h _ => h.step call) ?_ ?_
  · intro id hid
    cases hid
  · exact along_true _ _

/-- In every state that the three stores reach the links name rows that are there, and a cleanup
succeeds, deleting only what it may, exactly if it is cleanable. -/
theorem outbox_cleanup_iff (calls : List (LinkedCall P)) :
    (runLinked calls).Sound ∧ ∀ request,
      CleansUp P (runLinked calls).references request (runLinked calls).outbox ↔
        Cleanable P (runLinked calls).references request (runLinked calls).outbox :=
  ⟨runLinked_sound calls, fun _ => cleansUp_iff⟩

end Runs

section Samples

def sampleFail : FailOutboxRequest where
  outboxId := sampleOutboxId
  workerId := sampleWorkerId
  expectedAttempt := sampleFirstAttempt
  leaseToken := sampleToken
  errorTag := sampleTag
  retryAt := none
  failedAt := sampleOpening

/-- A row that a terminal commit links is claimed and fails for good. -/
def sampleLinkedCalls : List (LinkedCall openPlatform) :=
  [.commitTerminal ⟨"operation-1", by decide⟩ [sampleEnqueue],
    .outbox .faultFree (some (.claimNext sampleClaim)),
    .outbox .faultFree (some (.fail sampleFail))]

def sampleCleanup : CleanupTerminalOutboxRequest where
  cleanupId := ⟨"cleanup-1", by decide⟩
  before := sampleClosing
  after := none
  limit := ⟨100, by decide⟩

theorem linked_row_blocks_cleanup :
    ¬ ∀ (calls : List (LinkedCall openPlatform)) (request : CleanupTerminalOutboxRequest),
      CleansUp openPlatform (runLinked calls).references request (runLinked calls).outbox := by
  intro h
  have hclean := cleansUp_iff.mp (h sampleLinkedCalls sampleCleanup)
  have hnew : (runLinked sampleLinkedCalls).outbox.decisions.find?
      (.cleanup sampleCleanup.cleanupId) = none := by decide
  unfold Cleanable at hclean
  rw [hnew] at hclean
  revert hclean
  decide

end Samples

end Piclaw
