import Piclaw.GoalUsage

/-!
# Usage is counted once

The cursor of a goal's conversation stands at the last receipt that was counted. A batch that starts
no later than just after it skips what lies before, repeats the receipt at it and counts what lies
after, one receipt at a time.
-/

namespace Piclaw.GoalUsage
open Relational

section Runs
variable (A : GoalAddon)

/-- What happens to a goal: a batch is accounted, or something else changes the goal's row. -/
inductive UsageEvent where
  | batch (call : BatchCall)
  | lifecycle (goal : Option Goal)

/-- The state with the receipts of the batches that did not throw. -/
structure UsageLedger where
  state : GoalState
  submitted : List Receipt

/-- A batch is one transaction: one that throws leaves no trace. -/
def step (l : UsageLedger) : UsageEvent → UsageLedger
  | .batch call =>
    match accountCommittedGoalBatch A call l.state with
    | .ok (_, s) => ⟨s, l.submitted ++ call.receipts⟩
    | .error _ => l
  | .lifecycle goal => { l with state := { l.state with goal := goal } }

/-- A batch for `goalId` with a contiguous run of the receipts, all those before it submitted. -/
def Contiguous (receipts : List Receipt) (goalId : String) (l : UsageLedger) : UsageEvent → Prop
  | .batch call =>
    (∀ text ∈ call.texts, ∀ identity, A.goalInputIdentity text = some identity →
      identity.goalId = goalId) ∧
    ∃ earlier later, receipts = earlier ++ call.receipts ++ later ∧
      ∀ r ∈ earlier, r ∈ l.submitted
  | .lifecycle _ => True

def total (receipts : List Receipt) : ℕ := (receipts.map Receipt.tokens).sum

end Runs

section Receipts
variable {A : GoalAddon} {receipts : List Receipt} {conversationId count start : ℕ}
  {goalId : String} {s s' : GoalState} {p p' : BatchProgress} {receipt : Receipt}
  {call : BatchCall} {identity : GoalIdentity} {replayOnly : Bool}

/-- The conversation's receipts, in the order in which they were committed. -/
structure Ascending (conversationId : ℕ) (receipts : List Receipt) : Prop where
  conversation : ∀ r ∈ receipts, r.conversationId = conversationId
  sorted : receipts.Pairwise fun a b => a.entryId < b.entryId

/-- The first `count` receipts are counted for the goal, and its cursor stands at the last. -/
structure CountedTo (receipts : List Receipt) (conversationId : ℕ) (goalId : String)
    (start count : ℕ) (s : GoalState) : Prop where
  bound : count ≤ receipts.length
  fresh : count = 0 → ∀ cursor, s.cursors conversationId = some cursor → cursor.goalId ≠ goalId
  last : 0 < count → ∃ cursor r, s.cursors conversationId = some cursor ∧ cursor.goalId = goalId ∧
    receipts[count - 1]? = some r ∧ cursor.entryId = r.entryId
  added : s.added goalId = start + total (receipts.take count)

theorem Ascending.lt_iff (h : Ascending conversationId receipts) {i j : ℕ} {a b : Receipt}
    (ha : receipts[i]? = some a) (hb : receipts[j]? = some b) :
    a.entryId < b.entryId ↔ i < j := by
  obtain ⟨hi, rfl⟩ := List.getElem?_eq_some_iff.mp ha
  obtain ⟨hj, rfl⟩ := List.getElem?_eq_some_iff.mp hb
  have hforward := List.pairwise_iff_getElem.mp h.sorted
  constructor
  · intro hlt
    by_contra hnot
    rcases Nat.lt_or_eq_of_le (Nat.not_lt.mp hnot) with hji | rfl
    · have := hforward j i hj hi hji
      omega
    · omega
  · exact hforward i j hi hj

theorem total_take_succ {i : ℕ} (h : receipts[i]? = some receipt) :
    total (receipts.take (i + 1)) = total (receipts.take i) + receipt.tokens := by
  unfold total
  rw [List.take_add_one, h]
  simp

/-- An entry is a repetition of the one at the cursor, or lies after it and is counted. -/
theorem accountCommittedGoalEntry_ok {authority : KvAuthority} {generation : ℕ}
    {terminalProof : Option TerminalProof} {applied : Bool}
    (h : accountCommittedGoalEntry A authority goalId generation receipt terminalProof s =
      .ok (applied, s')) :
    (applied = false ∧ s' = s ∧ ∃ cursor, s.cursors receipt.conversationId = some cursor ∧
      cursor.goalId = goalId ∧ receipt.entryId = cursor.entryId) ∨
    (applied = true ∧ (∀ cursor, s.cursors receipt.conversationId = some cursor →
        cursor.goalId = goalId → cursor.entryId < receipt.entryId) ∧
      s'.added goalId = s.added goalId + receipt.tokens) := by
  unfold accountCommittedGoalEntry at h
  split_ifs at h with hinvalid
  cases hrevoked : authority.revoked with
  | some message => simp [hrevoked] at h
  | none =>
    cases hgoal : s.goal with
    | none => simp [hrevoked, hgoal] at h
    | some goal =>
      simp only [hrevoked, hgoal] at h
      split_ifs at h with hchanged hlater hequal htokens
      · cases h
        left
        obtain ⟨cursor, hcursor, heq⟩ := (Option.any_eq_true _ _).mp hequal
        obtain ⟨hfound, hid⟩ := Option.filter_eq_some_iff.mp hcursor
        exact ⟨rfl, rfl, cursor, hfound, by simpa using hid, by simpa using heq⟩
      · right
        obtain ⟨next, -, h⟩ := bind_eq_ok.mp h
        cases h
        refine ⟨rfl, fun cursor hcursor hid => ?_, by simp [GoalState.setCursor]⟩
        simp only [hcursor, Option.filter_some, hid, decide_true, if_true, Option.any_some,
          decide_eq_true_eq] at hlater hequal
        omega

/-- A receipt that is not behind the goal's cursor leaves the state; the others are counted. -/
theorem batchReceipt_ok (h : batchReceipt A call identity goalId replayOnly p receipt = .ok p') :
    (p'.state = p.state ∧ ∃ cursor, p.state.cursors receipt.conversationId = some cursor ∧
      cursor.goalId = goalId ∧ receipt.entryId ≤ cursor.entryId) ∨
    ((∀ cursor, p.state.cursors receipt.conversationId = some cursor → cursor.goalId = goalId →
        cursor.entryId < receipt.entryId) ∧
      (∃ cursor, p'.state.cursors receipt.conversationId = some cursor ∧ cursor.goalId = goalId ∧
        cursor.entryId = receipt.entryId) ∧
      p'.state.added goalId = p.state.added goalId + receipt.tokens) := by
  unfold batchReceipt at h
  dsimp only at h
  split_ifs at h with hinvalid horder hsource hreplay hcovered hskipped
  · cases h
    left
    obtain ⟨cursor, hcursor, hc⟩ := (Option.any_eq_true _ _).mp hcovered
    simp only [Bool.and_eq_true, decide_eq_true_eq] at hc
    exact ⟨rfl, cursor, hcursor, hc.1.1.1, hc.1.2⟩
  · cases h
    left
    obtain ⟨cursor, hcursor, hc⟩ := (Option.any_eq_true _ _).mp hskipped
    simp only [Bool.and_eq_true, decide_eq_true_eq] at hc
    exact ⟨rfl, cursor, hcursor, hc.1, hc.2.le⟩
  · cases hgoal : p.state.goal with
    | none => simp [hgoal] at h
    | some current =>
      simp only [hgoal] at h
      obtain ⟨⟨applied, s⟩, hentry, h⟩ := bind_eq_ok.mp h
      rcases accountCommittedGoalEntry_ok hentry with
        ⟨rfl, rfl, cursor, hcursor, hid, heq⟩ | ⟨rfl, hafter, hadded⟩
      · cases h
        exact Or.inl ⟨rfl, cursor, hcursor, hid, heq.le⟩
      · cases h
        refine Or.inr ⟨hafter, ⟨_, if_pos rfl, rfl, rfl⟩, ?_⟩
        simp [GoalState.setCursor, hadded]

/-- A receipt that is at most the next one to count moves the count to itself at most. -/
theorem batchReceipt_counted (hr : Ascending conversationId receipts) {i : ℕ}
    (hreceipt : receipts[i]? = some receipt) (hi : i ≤ count)
    (hs : CountedTo receipts conversationId goalId start count p.state)
    (h : batchReceipt A call identity goalId replayOnly p receipt = .ok p') :
    CountedTo receipts conversationId goalId start (max count (i + 1)) p'.state := by
  have hconversation : receipt.conversationId = conversationId :=
    hr.conversation receipt (List.mem_of_getElem? hreceipt)
  have hlength : i < receipts.length := (List.getElem?_eq_some_iff.mp hreceipt).1
  have hbound := hs.bound
  have hstep := batchReceipt_ok h
  rw [hconversation] at hstep
  rcases hstep with ⟨hstate, cursor, hcursor, hid, hle⟩ | ⟨hafter, hnext, hadded⟩
  · -- the cursor's receipt is the last one counted, so this one is counted as well
    rw [hstate]
    have hcounted : i + 1 ≤ count := by
      rcases Nat.eq_zero_or_pos count with hzero | hpos
      · exact absurd hid (hs.fresh hzero cursor hcursor)
      · obtain ⟨found, r, hfound, -, hlast, hentry⟩ := hs.last hpos
        rw [hcursor] at hfound
        cases hfound
        have hnot := mt (hr.lt_iff hlast hreceipt).mpr (by omega)
        omega
    rw [Nat.max_eq_left hcounted]
    exact hs
  · have hnew : i = count := by
      by_contra hne
      obtain ⟨found, r, hfound, hid, hlast, hentry⟩ := hs.last (by omega)
      have hlt := hafter found hfound hid
      rw [hentry] at hlt
      have := (hr.lt_iff hlast hreceipt).mp hlt
      omega
    subst hnew
    rw [Nat.max_eq_right (Nat.le_succ _)]
    obtain ⟨cursor, hcursor, hid, hentry⟩ := hnext
    refine ⟨hlength, fun hzero => absurd hzero (Nat.succ_ne_zero _), fun _ => ?_, ?_⟩
    · exact ⟨cursor, receipt, hcursor, hid, hreceipt, hentry⟩
    · rw [hadded, hs.added, total_take_succ hreceipt, Nat.add_assoc]

/-- A contiguous run of receipts from `i` on moves the count to its end at most. -/
theorem foldlM_counted (hr : Ascending conversationId receipts) {run : List Receipt} {i : ℕ}
    (hrun : run <+: receipts.drop i) (hi : i ≤ count)
    (hs : CountedTo receipts conversationId goalId start count p.state)
    (h : run.foldlM (batchReceipt A call identity goalId replayOnly) p = .ok p') :
    CountedTo receipts conversationId goalId start (max count (i + run.length)) p'.state := by
  induction run generalizing i count p with
  | nil =>
    cases h
    rw [List.length_nil, Nat.max_eq_left (by omega)]
    exact hs
  | cons receipt run ih =>
    rw [List.foldlM_cons] at h
    obtain ⟨q, hq, h⟩ := bind_eq_ok.mp h
    obtain ⟨later, hlater⟩ := hrun
    have hreceipt : receipts[i]? = some receipt := by
      have hhead := congrArg List.head? hlater
      rw [List.head?_drop] at hhead
      exact hhead.symm
    have hrest : run <+: receipts.drop (i + 1) := by
      refine ⟨later, ?_⟩
      rw [← List.tail_drop, ← hlater]
      rfl
    have hnext := ih hrest (by omega) (batchReceipt_counted hr hreceipt hi hs hq) h
    have hmax : max (max count (i + 1)) (i + 1 + run.length) =
        max count (i + (receipt :: run).length) := by
      rw [List.length_cons]
      omega
    rw [← hmax]
    exact hnext

/-- A batch that does not throw counts its receipts for the goal that its texts name. -/
theorem accountCommittedGoalBatch_ok {applied : ℕ}
    (h : accountCommittedGoalBatch A call s = .ok (applied, s')) :
    ∃ text ∈ call.texts, ∃ identity, A.goalInputIdentity text = some identity ∧
      ∃ replayOnly p, call.receipts.foldlM (batchReceipt A call identity identity.goalId replayOnly)
        ⟨0, none, 0, s⟩ = .ok p ∧ p.state = s' := by
  unfold accountCommittedGoalBatch at h
  cases hrevoked : call.authority.revoked with
  | some message => simp [hrevoked] at h
  | none =>
    simp only [hrevoked] at h
    cases hidentities : call.texts.mapM A.goalInputIdentity with
    | none => simp [hidentities] at h
    | some identities =>
      cases identities with
      | nil => simp [hidentities] at h
      | cons identity others =>
        simp only [hidentities] at h
        split_ifs at h with hconflict
        cases hgoal : s.goal with
        | none => simp [hgoal] at h
        | some goal =>
          simp only [hgoal] at h
          split_ifs at h with hchanged
          obtain ⟨p, hp, h⟩ := bind_eq_ok.mp h
          cases h
          have hid : goal.goalId = identity.goalId := by
            by_contra hne
            exact hchanged (Or.inl hne)
          cases htexts : call.texts with
          | nil => simp [htexts] at hidentities
          | cons text texts =>
            rw [htexts, List.mapM_cons] at hidentities
            obtain ⟨found, hfound, hidentities⟩ := Option.bind_eq_some_iff.mp hidentities
            obtain ⟨rest, -, hcons⟩ := Option.bind_eq_some_iff.mp hidentities
            cases hcons
            rw [hid] at hp
            exact ⟨text, List.mem_cons_self, identity, hfound, _, p, hp, rfl⟩

/-- The receipts of the batches that did not throw are the ones counted. -/
def CountedOnce (receipts : List Receipt) (conversationId : ℕ) (goalId : String) (start : ℕ)
    (l : UsageLedger) : Prop :=
  ∃ count, CountedTo receipts conversationId goalId start count l.state ∧
    ∀ r, r ∈ l.submitted ↔ r ∈ receipts.take count

theorem Ascending.nodup (h : Ascending conversationId receipts) : receipts.Nodup :=
  h.sorted.imp fun hlt heq => by rw [heq] at hlt; exact Nat.lt_irrefl _ hlt

/-- Receipts before a run that are all counted are no more than those counted. -/
theorem length_le_of_counted {earlier later : List Receipt}
    (hr : Ascending conversationId (earlier ++ later))
    (h : ∀ r ∈ earlier, r ∈ (earlier ++ later).take count) : earlier.length ≤ count := by
  by_contra hlt
  have hlength : count < earlier.length := Nat.lt_of_not_le hlt
  have hmem := h earlier[count] (List.getElem_mem hlength)
  rw [List.take_append_of_le_length hlength.le, List.mem_take_iff_getElem] at hmem
  obtain ⟨j, hj, heq⟩ := hmem
  have hnodup := (List.nodup_append.mp hr.nodup).1
  have := (List.Nodup.getElem_inj_iff hnodup).mp heq
  omega

theorem CountedOnce.batch {l : UsageLedger} (hr : Ascending conversationId receipts)
    (hl : CountedOnce receipts conversationId goalId start l)
    (hc : Contiguous A receipts goalId l (.batch call)) :
    CountedOnce receipts conversationId goalId start (step A l (.batch call)) := by
  obtain ⟨count, hcounted, hsubmitted⟩ := hl
  obtain ⟨hgoal, earlier, later, hsplit, hearlier⟩ := hc
  cases hbatch : accountCommittedGoalBatch A call l.state with
  | error message =>
    simp only [step, hbatch]
    exact ⟨count, hcounted, hsubmitted⟩
  | ok answer =>
    obtain ⟨applied, s⟩ := answer
    simp only [step, hbatch]
    obtain ⟨text, htext, identity, hidentity, replayOnly, p, hfold, rfl⟩ :=
      accountCommittedGoalBatch_ok hbatch
    rw [hgoal text htext identity hidentity] at hfold
    have hassoc : receipts = earlier ++ (call.receipts ++ later) := by
      rw [hsplit, List.append_assoc]
    have hle : earlier.length ≤ count := by
      subst hassoc
      exact length_le_of_counted hr fun r hmem => (hsubmitted r).mp (hearlier r hmem)
    have hrun : call.receipts <+: receipts.drop earlier.length := by
      rw [hassoc, List.drop_left]
      exact List.prefix_append _ _
    refine ⟨_, foldlM_counted hr hrun hle hcounted hfold, fun r => ?_⟩
    rw [List.mem_append, hsubmitted r]
    have hend : receipts.take (earlier.length + call.receipts.length) =
        earlier ++ call.receipts := by
      rw [hsplit, ← List.length_append, List.take_left]
    rcases Nat.le_total count (earlier.length + call.receipts.length) with hshort | hlong
    · rw [Nat.max_eq_right hshort, hend, List.mem_append]
      constructor
      · rintro (hmem | hmem)
        · have hsub := (List.take_sublist_take_left hshort).mem hmem
          rw [hend] at hsub
          exact List.mem_append.mp hsub
        · exact Or.inr hmem
      · rintro (hmem | hmem)
        · exact Or.inl ((hsubmitted r).mp (hearlier r hmem))
        · exact Or.inr hmem
    · rw [Nat.max_eq_left hlong]
      refine ⟨?_, Or.inl⟩
      rintro (hmem | hmem)
      · exact hmem
      · have hin : r ∈ receipts.take (earlier.length + call.receipts.length) := by
          rw [hend]
          exact List.mem_append_right _ hmem
        exact (List.take_sublist_take_left hlong).mem hin

theorem CountedOnce.lifecycle {l : UsageLedger} {goal : Option Goal}
    (hl : CountedOnce receipts conversationId goalId start l) :
    CountedOnce receipts conversationId goalId start (step A l (.lifecycle goal)) := by
  obtain ⟨count, hcounted, hsubmitted⟩ := hl
  exact ⟨count, ⟨hcounted.bound, hcounted.fresh, hcounted.last, hcounted.added⟩, hsubmitted⟩

theorem CountedOnce.step {l : UsageLedger} {event : UsageEvent}
    (hr : Ascending conversationId receipts)
    (hl : CountedOnce receipts conversationId goalId start l)
    (hc : Contiguous A receipts goalId l event) :
    CountedOnce receipts conversationId goalId start (step A l event) := by
  cases event with
  | batch call => exact hl.batch hr hc
  | lifecycle goal => exact hl.lifecycle

theorem CountedOnce.run {events : List UsageEvent} {l : UsageLedger}
    (hr : Ascending conversationId receipts)
    (hl : CountedOnce receipts conversationId goalId start l)
    (hc : Along (GoalUsage.step A) (Contiguous A receipts goalId) l events) :
    CountedOnce receipts conversationId goalId start (Relational.run (GoalUsage.step A) l events) :=
  run_invariant (fun _ _ hl hc => hl.step hr hc) hl hc

/-- The receipts submitted, each once, are the ones counted. -/
theorem filter_submitted {l : UsageLedger} (hr : Ascending conversationId receipts)
    (h : ∀ r, r ∈ l.submitted ↔ r ∈ receipts.take count) :
    receipts.filter (· ∈ l.submitted) = receipts.take count := by
  have hsplit := List.take_append_drop count receipts
  have hnodup := hr.nodup
  rw [← hsplit] at hnodup
  have hdisjoint := (List.nodup_append.mp hnodup).2.2
  have htake : (receipts.take count).filter (· ∈ l.submitted) = receipts.take count := by
    rw [List.filter_eq_self]
    intro r hmem
    simpa using (h r).mpr hmem
  have hdrop : (receipts.drop count).filter (· ∈ l.submitted) = [] := by
    rw [List.filter_eq_nil_iff]
    intro r hmem hsubmitted
    exact hdisjoint r ((h r).mp (by simpa using hsubmitted)) r hmem rfl
  calc receipts.filter (· ∈ l.submitted)
      = (receipts.take count ++ receipts.drop count).filter (· ∈ l.submitted) := by rw [hsplit]
    _ = receipts.take count := by rw [List.filter_append, htake, hdrop, List.append_nil]

theorem CountedOnce.added {l : UsageLedger} (hr : Ascending conversationId receipts)
    (hl : CountedOnce receipts conversationId goalId start l) :
    l.state.added goalId = start + total (receipts.filter (· ∈ l.submitted)) := by
  obtain ⟨count, hcounted, hsubmitted⟩ := hl
  rw [filter_submitted hr hsubmitted, hcounted.added]

theorem step_submitted {l : UsageLedger} (h : ∀ r ∈ call.receipts, r ∈ l.submitted) (r : Receipt) :
    r ∈ (step A l (.batch call)).submitted ↔ r ∈ l.submitted := by
  cases hbatch : accountCommittedGoalBatch A call l.state with
  | error message => simp only [step, hbatch]
  | ok answer =>
    simp only [step, hbatch, List.mem_append, or_iff_left_iff_imp]
    exact h r

/-- Over every run of batches for one goal, whatever else changes the goal between them, the tokens
added are those of the receipts submitted in batches that did not throw, each counted once. A batch
of such receipts adds nothing, and leaves no trace when it throws. -/
theorem usage_counted_once (A : GoalAddon) {receipts : List Receipt} {conversationId : ℕ}
    {goalId : String} (hr : Ascending conversationId receipts) (s : GoalState)
    (hfresh : ∀ cursor, s.cursors conversationId = some cursor → cursor.goalId ≠ goalId)
    (events : List UsageEvent)
    (hc : Along (step A) (Contiguous A receipts goalId) ⟨s, []⟩ events) :
    let l := Relational.run (step A) ⟨s, []⟩ events
    l.state.added goalId = s.added goalId + total (receipts.filter (· ∈ l.submitted)) ∧
    ∀ call, Contiguous A receipts goalId l (.batch call) →
      (∀ r ∈ call.receipts, r ∈ l.submitted) →
      (step A l (.batch call)).state.added goalId = l.state.added goalId ∧
      ∀ message, accountCommittedGoalBatch A call l.state = .error message →
        step A l (.batch call) = l := by
  intro l
  have hstart : CountedOnce receipts conversationId goalId (s.added goalId) ⟨s, []⟩ := by
    refine ⟨0, ⟨Nat.zero_le _, fun _ => hfresh, fun hpos => absurd hpos (Nat.lt_irrefl 0), ?_⟩, ?_⟩
    · simp [total]
    · simp
  have hl : CountedOnce receipts conversationId goalId (s.added goalId) l := hstart.run hr hc
  refine ⟨hl.added hr, fun call hcall hagain => ⟨?_, fun message hthrown => ?_⟩⟩
  · have hsame : receipts.filter (· ∈ (step A l (.batch call)).submitted) =
        receipts.filter (· ∈ l.submitted) := by
      refine List.filter_congr fun r _ => ?_
      simp only [step_submitted hagain]
    rw [(hl.batch hr hcall).added hr, hsame, hl.added hr]
  · simp only [step, hthrown]

end Receipts

section Samples

/-- An add-on whose goal is out of budget after a receipt of 20 tokens. -/
def sampleAddon : GoalAddon where
  goalInputIdentity _ := some ⟨"goal", 1⟩
  isGoalBudgetInput _ := false
  resolveGoalInput _ _ := ⟨false, none⟩
  accountGoalProgress goal tokens :=
    if tokens = 20 then some ⟨goal.goalId, goal.lifecycleGeneration + 1, .budgetLimited⟩
    else some goal
  accountTerminalGoalProgress := none

def sampleReceipts : List Receipt := [⟨1, 1, 10⟩, ⟨1, 2, 20⟩, ⟨1, 3, 5⟩]

def sampleGoalState : GoalState := ⟨some ⟨"goal", 1, .active⟩, fun _ => none, fun _ => 0⟩

def sampleBatch (receipts : List Receipt) : UsageEvent :=
  .batch ⟨⟨"goal", none⟩, ["input"], receipts, none, none⟩

/-- A batch in whose middle the budget ends, then its last two receipts once more. -/
theorem usage_counted_once_sample :
    let l := Relational.run (step sampleAddon) ⟨sampleGoalState, []⟩
      [sampleBatch sampleReceipts, sampleBatch (sampleReceipts.drop 1)]
    l.state.added "goal" = 35 := by
  have h := (@usage_counted_once sampleAddon sampleReceipts 1 "goal" ⟨by decide, by decide⟩
    sampleGoalState (fun _ h => nomatch h)
    [sampleBatch sampleReceipts, sampleBatch (sampleReceipts.drop 1)]
    ⟨⟨by simp [sampleAddon], [], [], by decide, by simp⟩,
      ⟨by simp [sampleAddon], [⟨1, 1, 10⟩], [], by decide, by decide⟩, trivial⟩).1
  exact h.trans (by decide)

end Samples

end Piclaw.GoalUsage
