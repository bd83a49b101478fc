import Piclaw.OutboxDecisions

/-!
# Stale answers to recovery requests

A reclaim or a resolution of an unknown result recovers a row for one attempt. When it is refused
as stale, the refusal is filed under a key that every recovery request of the same kind for the
same row and attempt shares, so a later one meets it: an identical request is answered from it and
any other conflicts with it, even when the row has meanwhile become recoverable.

`Shadowed` relates the runs with and without the refused request. `Unaffected` is the exact
condition under which a later request gets the same answer in both.
-/

namespace Piclaw
open Relational
variable {δ : Type} [DecidableEq δ] {P : Platform δ}

/-- A request to recover a row whose lease ran out or whose result is unknown. -/
inductive RecoveryRequest where
  | reclaim (request : ReclaimOutboxRequest)
  | resolveUnknown (request : ResolveUnknownOutboxRequest)

namespace RecoveryRequest

def mutation (P : Platform δ) : RecoveryRequest → OutboxMutation P
  | reclaim request => .reclaim request
  | resolveUnknown request => .resolveUnknown request

def requestHash (P : Platform δ) : RecoveryRequest → δ
  | reclaim request => hashCanonicalRequest P request.json
  | resolveUnknown request => hashCanonicalRequest P request.json

def outboxId : RecoveryRequest → BoundedText 512
  | reclaim request => request.outboxId
  | resolveUnknown request => request.outboxId

/-- The decision that a stale answer leaves. -/
def staleDecision (P : Platform δ) : RecoveryRequest → DecisionRow δ
  | reclaim request => reclaimDecision request (hashCanonicalRequest P request.json) .stale
      request.expectedAttempt.1 none
  | resolveUnknown request =>
    resolveDecision request (hashCanonicalRequest P request.json) .stale

def decisionKey (P : Platform δ) (q : RecoveryRequest) : DecisionKey δ := (q.mutation P).decisionKey

/-- The lease token of a reclaim already belongs to a lease. -/
def tokenLeased (P : Platform δ) (s : OutboxTables δ) : RecoveryRequest → Bool
  | reclaim request => (s.leases.find? (hashToken P request.leaseToken.1)).isSome
  | resolveUnknown _ => false

def authorised (s : OutboxTables δ) : RecoveryRequest → Bool
  | reclaim request => (s.outbox.find? request.outboxId).any (reclaimAuthorised request)
  | resolveUnknown request => (s.outbox.find? request.outboxId).any (resolveAuthorised request)

end RecoveryRequest

section Requests
variable {q r : RecoveryRequest} {s s' : OutboxTables δ} {referenced : BoundedText 512 → Bool}

omit [DecidableEq δ] in
theorem staleDecision_key (q : RecoveryRequest) : (q.staleDecision P).key = q.decisionKey P := by
  cases q <;> rfl

omit [DecidableEq δ] in
theorem staleDecision_outboxId (q : RecoveryRequest) :
    (q.staleDecision P).outboxId = some q.outboxId := by
  cases q <;> rfl

omit [DecidableEq δ] in
/-- Two refusals of one key with one digest leave the same decision. -/
theorem staleDecision_eq (hk : r.decisionKey P = q.decisionKey P)
    (hh : r.requestHash P = q.requestHash P) : r.staleDecision P = q.staleDecision P := by
  cases r with
  | reclaim r =>
    cases q with
    | reclaim q =>
      simp only [RecoveryRequest.decisionKey, RecoveryRequest.mutation,
        OutboxMutation.decisionKey, DecisionKey.reclaim.injEq] at hk
      simp only [RecoveryRequest.requestHash] at hh
      simp only [RecoveryRequest.staleDecision, reclaimDecision, hk, hh]
    | resolveUnknown q => cases hk
  | resolveUnknown r =>
    cases q with
    | reclaim q => cases hk
    | resolveUnknown q =>
      simp only [RecoveryRequest.decisionKey, RecoveryRequest.mutation,
        OutboxMutation.decisionKey, DecisionKey.resolve.injEq] at hk
      simp only [RecoveryRequest.requestHash] at hh
      simp only [RecoveryRequest.staleDecision, resolveDecision, hk, hh]

omit [DecidableEq δ] in
/-- A mutation that shares the key of a recovery request is one. -/
theorem recovery_of_key {m : OutboxMutation P} (h : m.decisionKey = q.decisionKey P) :
    ∃ r : RecoveryRequest, m = r.mutation P := by
  cases m with
  | reclaim request => exact ⟨.reclaim request, rfl⟩
  | resolveUnknown request => exact ⟨.resolveUnknown request, rfl⟩
  | _ => cases q <;> cases h

omit [DecidableEq δ] in
theorem decisionKey_outboxId (hk : r.decisionKey P = q.decisionKey P) :
    r.outboxId = q.outboxId := by
  cases r with
  | reclaim r =>
    cases q with
    | reclaim q => exact (DecisionKey.reclaim.inj hk).1
    | resolveUnknown q => cases hk
  | resolveUnknown r =>
    cases q with
    | reclaim q => cases hk
    | resolveUnknown q => exact (DecisionKey.resolve.inj hk).1

/-- A request that meets a refusal is answered from it. -/
theorem recovery_refused (hk : r.decisionKey P = q.decisionKey P)
    (hd : s.decisions.find? (q.decisionKey P) = some (q.staleDecision P)) :
    apply referenced (r.mutation P) s =
      .ok (if r.requestHash P = q.requestHash P then .ok .stale
        else .error (errorOf .idempotencyConflict), s) := by
  rw [← hk] at hd
  cases r with
  | reclaim r =>
    cases q with
    | resolveUnknown q => cases hk
    | reclaim q =>
      change reclaim P r s = _
      unfold reclaim readReclaimReplay
      change s.decisions.find? (.reclaim r.outboxId r.expectedAttempt.1) = _ at hd
      simp only [hd, RecoveryRequest.staleDecision, reclaimDecision, RecoveryRequest.requestHash]
      by_cases hh : hashCanonicalRequest P q.json = hashCanonicalRequest P r.json
      · simp [hh, ok_bind]
      · simp [hh, Ne.symm hh, ok_bind]
  | resolveUnknown r =>
    cases q with
    | reclaim q => cases hk
    | resolveUnknown q =>
      change resolveUnknown P r s = _
      unfold resolveUnknown readResolveReplay
      change s.decisions.find? (.resolve r.outboxId r.expectedAttempt.1) = _ at hd
      simp only [hd, RecoveryRequest.staleDecision, resolveDecision, RecoveryRequest.requestHash]
      by_cases hh : hashCanonicalRequest P q.json = hashCanonicalRequest P r.json
      · simp [hh, ok_bind]
      · simp [hh, Ne.symm hh, ok_bind]

section Undecided
variable (hd : s.decisions.find? (r.decisionKey P) = none)
  (hrow : (s.outbox.find? r.outboxId).isSome)

include hd

/-- A reclaim whose token is leased conflicts. -/
theorem recovery_leased (hl : r.tokenLeased P s) :
    apply referenced (r.mutation P) s = .ok (.error (errorOf .idempotencyConflict), s) := by
  cases r with
  | resolveUnknown r => cases hl
  | reclaim r =>
    change s.decisions.find? (.reclaim r.outboxId r.expectedAttempt.1) = none at hd
    change (s.leases.find? _).isSome at hl
    change reclaim P r s = _
    unfold reclaim readReclaimReplay
    simp only [hd, ok_bind, hl, if_true]

include hrow

/-- An unauthorised request files its refusal. -/
theorem recovery_unauthorised (hl : r.tokenLeased P s = false) (ha : r.authorised s = false) :
    apply referenced (r.mutation P) s =
      (writeDecision s (r.staleDecision P) >>= fun s => .ok (.ok .stale, s)) := by
  obtain ⟨row, hrow⟩ := Option.isSome_iff_exists.mp hrow
  cases r with
  | reclaim r =>
    change s.decisions.find? (.reclaim r.outboxId r.expectedAttempt.1) = none at hd
    change s.outbox.find? r.outboxId = _ at hrow
    change (s.leases.find? _).isSome = false at hl
    simp only [RecoveryRequest.authorised, hrow, Option.any_some] at ha
    change reclaim P r s = _
    unfold reclaim readReclaimReplay
    simp only [hd, ok_bind, hl, readRecord_eq, hrow, ha, Bool.false_eq_true, if_false]
    rfl
  | resolveUnknown r =>
    change s.decisions.find? (.resolve r.outboxId r.expectedAttempt.1) = none at hd
    change s.outbox.find? r.outboxId = _ at hrow
    simp only [RecoveryRequest.authorised, hrow, Option.any_some] at ha
    change resolveUnknown P r s = _
    unfold resolveUnknown readResolveReplay
    simp only [hd, ok_bind, readRecord_eq, hrow, ha, Bool.false_eq_true, if_false]
    rfl

/-- An authorised request that returns has been applied. -/
theorem recovery_authorised (hl : r.tokenLeased P s = false) (ha : r.authorised s)
    {a : Attempted δ} (h : apply referenced (r.mutation P) s = .ok (a, s')) :
    ∃ record, a = .ok (.applied record) := by
  obtain ⟨row, hrow⟩ := Option.isSome_iff_exists.mp hrow
  cases r with
  | reclaim r =>
    change s.decisions.find? (.reclaim r.outboxId r.expectedAttempt.1) = none at hd
    change s.outbox.find? r.outboxId = _ at hrow
    change (s.leases.find? _).isSome = false at hl
    simp only [RecoveryRequest.authorised, hrow, Option.any_some] at ha
    change reclaim P r s = _ at h
    unfold reclaim readReclaimReplay at h
    simp only [hd, ok_bind, hl, readRecord_eq, hrow, ha, Bool.false_eq_true, if_false,
      if_true] at h
    obtain ⟨⟨s₁, changes⟩, h₁, h⟩ := bind_eq_ok.mp h
    have hguard : ∀ x : OutboxRecord δ, reclaimable r x → x.outboxId = r.outboxId := by
      intro x hx
      simp only [reclaimable, Bool.and_eq_true, decide_eq_true_eq] at hx
      exact hx.1.1.1.1
    obtain ⟨rfl, -⟩ := updateOutbox_row (f := reclaimed r _ _) hguard (fun _ => rfl) hrow
      (reclaimable_of_authorised (Table.key_of_find? hrow) ha) h₁
    simp only [if_true] at h
    obtain ⟨s₂, -, h⟩ := bind_eq_ok.mp h
    obtain ⟨record, -, h⟩ := bind_eq_ok.mp h
    obtain ⟨s₃, -, h⟩ := bind_eq_ok.mp h
    cases h
    exact ⟨record, rfl⟩
  | resolveUnknown r =>
    change s.decisions.find? (.resolve r.outboxId r.expectedAttempt.1) = none at hd
    change s.outbox.find? r.outboxId = _ at hrow
    simp only [RecoveryRequest.authorised, hrow, Option.any_some] at ha
    change resolveUnknown P r s = _ at h
    unfold resolveUnknown readResolveReplay at h
    simp only [hd, ok_bind, readRecord_eq, hrow, ha, if_true] at h
    obtain ⟨⟨s₁, changes⟩, h₁, h⟩ := bind_eq_ok.mp h
    have hguard : ∀ x : OutboxRecord δ, resolvable r x → x.outboxId = r.outboxId := by
      intro x hx
      simp only [resolvable, Bool.and_eq_true, decide_eq_true_eq] at hx
      exact hx.1.1.1
    obtain ⟨rfl, -⟩ := updateOutbox_row (f := resolved _) hguard (fun _ => rfl) hrow
      (resolvable_of_authorised (Table.key_of_find? hrow) ha) h₁
    simp only [if_true] at h
    obtain ⟨s₂, -, h⟩ := bind_eq_ok.mp h
    obtain ⟨record, -, h⟩ := bind_eq_ok.mp h
    obtain ⟨s₃, -, h⟩ := bind_eq_ok.mp h
    cases h
    exact ⟨record, rfl⟩

end Undecided

end Requests

section Calls
variable {s s' : OutboxTables δ} {call : OutboxCall P} {m : OutboxMutation P}

/-- The tables after a transaction: a thrown fault rolls back. -/
def settled (s : OutboxTables δ) : Except OutboxFault (Answered δ) → OutboxTables δ
  | .ok (_, s') => s'
  | .error _ => s

theorem callStep_faulted (h : call.request = none ∨ call.runtime.beforeEffect ≠ .clear) :
    callStep s call = s := by
  rcases callStep_cases s call with ⟨hs, -⟩ | ⟨m, answer, hc, -⟩
  · exact hs
  · exfalso
    unfold committed at hc
    split at hc
    · rename_i m hrequest hclear
      rcases h with h | h
      · rw [h] at hrequest
        cases hrequest
      · exact h hclear
    · cases hc

theorem callStep_clear (hrequest : call.request = some m) (hclear : call.runtime.beforeEffect = .clear) :
    callStep s call = settled s (apply call.referenced m s) := by
  unfold callStep mutate
  rw [hrequest, hclear]
  simp only [reduceCtorEq, or_self, if_false]
  cases apply call.referenced m s with
  | error fault => rfl
  | ok w =>
    obtain ⟨a, t⟩ := w
    cases a with
    | error e => rfl
    | ok answer => cases call.runtime.lostAcknowledgement <;> rfl

end Calls

section Shadow
variable {q r : RecoveryRequest} {s t : OutboxTables δ}

/-- Nothing tells the states with and without the refused request `q` apart, or its refusal does:
it stands in `s` while `t` has not decided the key, and the row is still there. -/
structure Shadowed (P : Platform δ) (q : RecoveryRequest) (s t : OutboxTables δ) : Prop where
  alike : Alike {k | k ≠ q.decisionKey P} s t
  decision : t.decisions.find? (q.decisionKey P) = s.decisions.find? (q.decisionKey P) ∨
    s.decisions.find? (q.decisionKey P) = some (q.staleDecision P) ∧
      t.decisions.find? (q.decisionKey P) = none ∧ (t.outbox.find? q.outboxId).isSome

/-- The refusal of `q` in `s` does not change the answer to `r`, which is `t`'s without it: `r` is
filed under another key, or `t` holds the same decision, or `r` would be refused in the same
words. -/
def Unaffected (P : Platform δ) (q r : RecoveryRequest) (s t : OutboxTables δ) : Prop :=
  r.decisionKey P = q.decisionKey P →
    t.decisions.find? (q.decisionKey P) = s.decisions.find? (q.decisionKey P) ∨
      if r.requestHash P = q.requestHash P then
        r.tokenLeased P t = false ∧ r.authorised t = false
      else r.tokenLeased P t

/-- Every recovery request that a call commits is unaffected. -/
def UnaffectedCall (P : Platform δ) (q : RecoveryRequest) (p : OutboxTables δ × OutboxTables δ)
    (call : OutboxCall P) : Prop :=
  call.runtime.beforeEffect = .clear →
    ∀ r : RecoveryRequest, call.request = some (r.mutation P) → Unaffected P q r p.1 p.2

theorem Shadowed.everywhere (h : Shadowed P q s t)
    (hd : t.decisions.find? (q.decisionKey P) = s.decisions.find? (q.decisionKey P)) :
    Alike Set.univ s t := by
  obtain ⟨decisions, rfl, hagree⟩ := h.alike
  refine ⟨decisions, rfl, ?_⟩
  intro k _
  by_cases hk : k = q.decisionKey P
  · rw [hk]
    exact hd.symm
  · exact hagree k hk

theorem shadowed_everywhere (h : Alike Set.univ s t) : Shadowed P q s t := by
  obtain ⟨decisions, rfl, hagree⟩ := h
  exact ⟨⟨decisions, rfl, fun k _ => hagree k trivial⟩, Or.inl (hagree _ trivial).symm⟩

/-- A transaction of the answers alike leaves states alike. -/
theorem settled_alike {K : Set (DecisionKey δ)} {x y : Except OutboxFault (Answered δ)}
    (h : Alike K s t) (hxy : Matches (AlikeAnswers K) x y) : Alike K (settled s x) (settled t y) := by
  cases x with
  | error e =>
    cases y with
    | error e' => exact h
    | ok w => exact hxy.elim
  | ok v =>
    cases y with
    | error e' => exact hxy.elim
    | ok w => exact hxy.2

/-- A mutation filed under another key leaves the shadow as it is or, deleting the row, lifts it. -/
theorem shadowed_other {referenced : BoundedText 512 → Bool} {m : OutboxMutation P}
    (h : Shadowed P q s t) (hk : m.decisionKey ≠ q.decisionKey P) :
    Shadowed P q (settled s (apply referenced m s)) (settled t (apply referenced m t)) := by
  have hmatch : Matches (AlikeAnswers {k | k ≠ q.decisionKey P}) (apply referenced m s)
      (apply referenced m t) := apply_alike h.alike hk
  refine ⟨settled_alike h.alike hmatch, ?_⟩
  cases hs : apply referenced m s with
  | error e =>
    cases ht : apply referenced m t with
    | error e' => exact h.decision
    | ok w =>
      rw [hs, ht] at hmatch
      exact hmatch.elim
  | ok v =>
    cases ht : apply referenced m t with
    | error e =>
      rw [hs, ht] at hmatch
      exact hmatch.elim
    | ok w =>
      obtain ⟨a, s'⟩ := v
      obtain ⟨b, t'⟩ := w
      rw [hs, ht] at hmatch
      obtain ⟨hab, -⟩ := hmatch
      change a = b at hab
      subst hab
      obtain ⟨hds, -⟩ := apply_frame hs hk.symm
      obtain ⟨hdt, hrow⟩ := apply_frame ht hk.symm
      change t'.decisions.find? _ = s'.decisions.find? _ ∨ _
      rcases h.decision with heq | ⟨hstands, hopen, hr⟩
      · exact Or.inl (by rw [hds, hdt, heq])
      · rw [hstands] at hds
        rw [hopen, Option.filter_none] at hdt
        by_cases hdel : q.outboxId ∈ deletedBy a
        · refine Or.inl ?_
          rw [hdt, hds, Option.filter_some, if_neg]
          simp only [keepsDecision, staleDecision_outboxId, Option.some_inj, exists_eq_right',
            hdel, decide_true, Bool.not_true, Bool.false_eq_true, not_false_eq_true]
        · refine Or.inr ⟨?_, hdt, hrow _ hr hdel⟩
          change s'.decisions.find? _ = _
          rw [hds, Option.filter_some, if_pos]
          simp only [keepsDecision, staleDecision_outboxId, Option.some_inj, exists_eq_right',
            hdel, decide_false, Bool.not_false]

/-- A recovery request that meets the refusal unaffected leaves it standing or files the same
refusal. -/
theorem shadowed_same {referenced : BoundedText 512 → Bool} (h : Shadowed P q s t)
    (hk : r.decisionKey P = q.decisionKey P) (hu : Unaffected P q r s t) :
    Shadowed P q (settled s (apply referenced (r.mutation P) s))
      (settled t (apply referenced (r.mutation P) t)) := by
  by_cases heq : t.decisions.find? (q.decisionKey P) = s.decisions.find? (q.decisionKey P)
  · exact shadowed_everywhere (settled_alike (h.everywhere heq)
      (apply_alike (h.everywhere heq) trivial))
  · obtain ⟨hstands, hopen, hr⟩ := h.decision.resolve_left heq
    have hid := decisionKey_outboxId hk
    have hnone : t.decisions.find? (r.decisionKey P) = none := hk ▸ hopen
    rw [recovery_refused hk hstands]
    have hcond := (hu hk).resolve_left heq
    split_ifs at hcond with hh
    · rw [recovery_unauthorised hnone (hid ▸ hr) hcond.1 hcond.2, staleDecision_eq hk hh]
      have hcheck : (q.staleDecision P).check := Table.check_of_find? hstands
      obtain ⟨u, hu, -⟩ := Table.exists_insert? (Table.fresh_of_free rfl
        ((staleDecision_key q).symm ▸ hopen) hcheck)
      have hfind := Table.find?_insert? hu
      rw [writeDecision_eq_ok.mpr ⟨u, hu, rfl⟩]
      change Shadowed P q s { t with decisions := u }
      obtain ⟨decisions, rfl, hagree⟩ := h.alike
      refine ⟨⟨u, rfl, ?_⟩, Or.inl ?_⟩
      · intro k hne
        rw [hfind, if_neg, hagree k hne]
        exact fun he => hne (he.symm.trans (staleDecision_key q))
      · change u.find? _ = _
        rw [hstands, ← staleDecision_key]
        exact Table.find?_insert?_self hu
    · rw [recovery_leased hnone hcond]
      exact h

theorem shadowed_call {p : OutboxTables δ × OutboxTables δ} {call : OutboxCall P}
    (h : Shadowed P q p.1 p.2) (hu : UnaffectedCall P q p call) :
    Shadowed P q (twin callStep p call).1 (twin callStep p call).2 := by
  change Shadowed P q (callStep p.1 call) (callStep p.2 call)
  by_cases hclear : call.runtime.beforeEffect = .clear
  · cases hrequest : call.request with
    | none =>
      rw [callStep_faulted (Or.inl hrequest), callStep_faulted (Or.inl hrequest)]
      exact h
    | some m =>
      rw [callStep_clear hrequest hclear, callStep_clear hrequest hclear]
      by_cases hk : m.decisionKey = q.decisionKey P
      · obtain ⟨r, rfl⟩ := recovery_of_key hk
        exact shadowed_same h hk (hu hclear r hrequest)
      · exact shadowed_other h hk
  · rw [callStep_faulted (Or.inr hclear), callStep_faulted (Or.inr hclear)]
    exact h

/-- A refused request leaves a shadow, or no trace. -/
theorem shadowed_refused {call : OutboxCall P} (hrequest : call.request = some (q.mutation P))
    (hstale : (mutate call.referenced call.runtime call.request s).1 = .ok .stale) :
    Shadowed P q (callStep s call) s := by
  have hshadow : ∀ decisions, s.decisions.insert? (q.staleDecision P) = some decisions →
      (s.outbox.find? q.outboxId).isSome →
      Shadowed P q { s with decisions := decisions } s := by
    intro decisions hd hr
    have hfree := (Table.insert?_fresh hd).1
    have hself := Table.find?_insert?_self hd
    change s.decisions.find? (q.staleDecision P).key = none at hfree
    change decisions.find? (q.staleDecision P).key = _ at hself
    rw [staleDecision_key] at hfree hself
    refine ⟨⟨s.decisions, rfl, ?_⟩, Or.inr ⟨hself, hfree, hr⟩⟩
    intro k hk
    change decisions.find? k = _
    rw [Table.find?_insert? hd, if_neg]
    exact fun he => hk (he.symm.trans (staleDecision_key q))
  have hstep : callStep s call =
      (mutate call.referenced call.runtime (some (q.mutation P)) s).2 := by
    rw [callStep, hrequest]
  rw [hrequest] at hstale
  have happly := mutate_eq_ok hstale
  rw [← hstep] at happly
  rcases apply_ok happly with ⟨heq, -⟩ | ⟨answer, ha, ht⟩
  · rw [heq]
    exact shadowed_everywhere (alike_refl _ s)
  · cases ha
    generalize callStep s call = s' at ht
    cases q with
    | reclaim request =>
      cases ht with
      | staleReclaim _ row _ found _ decided => exact hshadow _ decided (Option.isSome_of_eq_some found)
    | resolveUnknown request =>
      cases ht with
      | staleResolution _ row found _ decided => exact hshadow _ decided (Option.isSome_of_eq_some found)

/-- The answer that a transaction without injected faults gives. -/
def answered : Except OutboxFault (Answered δ) → Attempted δ
  | .ok (a, _) => a
  | .error fault => .error (classifyDatabaseError fault)

theorem mutate_faultFree {referenced : BoundedText 512 → Bool} {m : OutboxMutation P} :
    (mutate referenced .faultFree (some m) s).1 = answered (apply referenced m s) := by
  unfold mutate
  simp only [OutboxAdapterRuntime.faultFree, reduceCtorEq, or_self, if_false]
  cases apply referenced m s with
  | error fault => rfl
  | ok w =>
    obtain ⟨a, t⟩ := w
    cases a <;> rfl

theorem answered_alike {K : Set (DecisionKey δ)} {x y : Except OutboxFault (Answered δ)}
    (h : Matches (AlikeAnswers K) x y) : answered x = answered y := by
  cases x with
  | error e =>
    cases y with
    | error e' =>
      change e = e' at h
      rw [h]
    | ok w => exact h.elim
  | ok v =>
    cases y with
    | error e' => exact h.elim
    | ok w => exact h.1

/-- Where the refusal stands, an undecided request is answered in other words unless it would be
refused in the same ones. -/
theorem refused_answer_iff {referenced : BoundedText 512 → Bool}
    (hopen : t.decisions.find? (r.decisionKey P) = none)
    (hrow : (t.outbox.find? r.outboxId).isSome) (c : Prop) [Decidable c]
    (hcheck : c → (r.staleDecision P).check) :
    (if c then .ok .stale else .error (errorOf .idempotencyConflict)) =
        answered (apply referenced (r.mutation P) t) ↔
      if c then r.tokenLeased P t = false ∧ r.authorised t = false else r.tokenLeased P t := by
  cases hl : r.tokenLeased P t with
  | true =>
    rw [recovery_leased hopen hl]
    split_ifs <;> simp [answered]
  | false =>
    cases ha : r.authorised t with
    | true =>
      cases happly : apply referenced (r.mutation P) t with
      | error fault => cases fault <;> split_ifs <;> simp [answered, classifyDatabaseError, errorOf]
      | ok w =>
        obtain ⟨a, t'⟩ := w
        obtain ⟨record, rfl⟩ := recovery_authorised hopen hrow hl ha happly
        split_ifs <;> simp [answered]
    | false =>
      rw [recovery_unauthorised hopen hrow hl ha]
      cases hw : writeDecision t (r.staleDecision P) with
      | ok t' => split_ifs <;> simp [answered, ok_bind]
      | error fault =>
        have hc : ¬ c := by
          intro hc
          obtain ⟨u, hu, -⟩ := Table.exists_insert? (Table.fresh_of_free rfl
            ((staleDecision_key r).symm ▸ hopen) (hcheck hc))
          rw [writeDecision_eq_ok.mpr ⟨u, hu, rfl⟩] at hw
          cases hw
        rw [if_neg hc, if_neg hc]
        cases fault <;> simp [answered, bind, Except.bind, classifyDatabaseError, errorOf]

/-- The two states answer `r` alike exactly when it is unaffected. -/
theorem answers_agree_iff {referenced : BoundedText 512 → Bool} (h : Shadowed P q s t) :
    (mutate referenced .faultFree (some (r.mutation P)) s).1 =
      (mutate referenced .faultFree (some (r.mutation P)) t).1 ↔ Unaffected P q r s t := by
  rw [mutate_faultFree, mutate_faultFree]
  by_cases hk : r.decisionKey P = q.decisionKey P
  · by_cases heq : t.decisions.find? (q.decisionKey P) = s.decisions.find? (q.decisionKey P)
    · exact ⟨fun _ _ => Or.inl heq,
        fun _ => answered_alike (apply_alike (h.everywhere heq) trivial)⟩
    · obtain ⟨hstands, hopen, hr⟩ := h.decision.resolve_left heq
      have hcheck : r.requestHash P = q.requestHash P → (r.staleDecision P).check := by
        intro hh
        rw [staleDecision_eq hk hh]
        exact Table.check_of_find? hstands
      rw [recovery_refused hk hstands]
      change (if _ then _ else _) = _ ↔ _
      rw [refused_answer_iff (hk ▸ hopen) (decisionKey_outboxId hk ▸ hr) _ hcheck]
      exact ⟨fun hu _ => Or.inr hu, fun hu => (hu hk).resolve_left heq⟩
  · exact ⟨fun _ he => absurd he hk, fun _ => answered_alike (apply_alike h.alike hk)⟩

end Shadow

/-- After a stale answer to `q`, a recovery request is answered as if `q` had never been submitted
exactly when it is unaffected, provided the calls in between were. -/
theorem stale_answer_iff (before : List (OutboxCall P)) (q : RecoveryRequest) (call : OutboxCall P)
    (hrequest : call.request = some (q.mutation P))
    (hstale : (mutate call.referenced call.runtime call.request
      (runCalls (OutboxTables.empty δ) before)).1 = .ok .stale)
    (later : List (OutboxCall P))
    (hlater : Along (twin callStep) (UnaffectedCall P q)
      (callStep (runCalls (OutboxTables.empty δ) before) call,
        runCalls (OutboxTables.empty δ) before) later)
    (r : RecoveryRequest) (referenced : BoundedText 512 → Bool) :
    let withRefusal := runCalls (OutboxTables.empty δ) (before ++ call :: later)
    let withoutRefusal := runCalls (OutboxTables.empty δ) (before ++ later)
    (mutate referenced .faultFree (some (r.mutation P)) withRefusal).1 =
        (mutate referenced .faultFree (some (r.mutation P)) withoutRefusal).1 ↔
      Unaffected P q r withRefusal withoutRefusal := by
  intro withRefusal withoutRefusal
  have hstart := shadowed_refused hrequest hstale
  have hrun : Shadowed P q withRefusal withoutRefusal := by
    have h := run_invariant (I := fun p => Shadowed P q p.1 p.2) (fun _ _ => shadowed_call) hstart
      hlater
    rw [run_twin] at h
    simpa only [withRefusal, withoutRefusal, runCalls, run_append, run_cons] using h
  exact answers_agree_iff hrun

section Samples

/-- A reclaim sent while the lease of the sample claim is live. -/
def sampleEarlyReclaim : ReclaimOutboxRequest :=
  { sampleReclaim with
    now := sampleOpening
    now_lt_expiry := sampleReclaim.now_lt_expiry.trans' (by decide) }

def sampleEarlyReclaimCall : OutboxCall openPlatform := plainCall (.reclaim sampleEarlyReclaim)

/-- The sample row under its first lease. -/
def sampleClaimed : OutboxTables OpenDigest :=
  runCalls (OutboxTables.empty OpenDigest) [sampleEnqueueCall, sampleClaimCall]

def sampleMarkUnknownCall : OutboxCall openPlatform :=
  plainCall (.markUnknown sampleResolvedMarkUnknown)

end Samples

/-- A reclaim that was refused because the lease was live makes the reclaim that is due after the
lease expired conflict. -/
theorem stale_answer_interferes :
    (mutate sampleEarlyReclaimCall.referenced .faultFree sampleEarlyReclaimCall.request
      sampleClaimed).1 = .ok .stale ∧
    sampleReclaim ≠ sampleEarlyReclaim ∧
    (mutate sampleReclaimCall.referenced .faultFree sampleReclaimCall.request
      (callStep sampleClaimed sampleEarlyReclaimCall)).1 =
        .error (errorOf .idempotencyConflict) ∧
    ∃ record, (mutate sampleReclaimCall.referenced .faultFree sampleReclaimCall.request
      sampleClaimed).1 = .ok (.applied record) := by
  have hnow : sampleReclaim.now ≠ sampleEarlyReclaim.now := by decide
  refine ⟨by decide, fun he => hnow (congrArg _ he), by decide, reclaimed sampleReclaim 2 (some sampleRef)
    (claimed sampleClaim 1 (enqueuedRecord sampleEnqueue.toEnqueueFields)), by decide⟩

theorem stale_answer_iff_sample :
    (mutate (P := openPlatform) (fun _ => false) .faultFree (some (.resolveUnknown sampleResolve))
      (runCalls (OutboxTables.empty OpenDigest)
        ([sampleEnqueueCall, sampleClaimCall] ++ sampleEarlyReclaimCall ::
          [sampleMarkUnknownCall]))).1 =
    (mutate (P := openPlatform) (fun _ => false) .faultFree (some (.resolveUnknown sampleResolve))
      (runCalls (OutboxTables.empty OpenDigest)
        ([sampleEnqueueCall, sampleClaimCall] ++ [sampleMarkUnknownCall]))).1 := by
  have hother : ∀ p, UnaffectedCall openPlatform (.reclaim sampleEarlyReclaim) p
      sampleMarkUnknownCall := by
    intro p _ r hr
    cases r <;> cases hr
  refine (stale_answer_iff _ (.reclaim sampleEarlyReclaim) sampleEarlyReclaimCall rfl (by decide)
    [sampleMarkUnknownCall] ⟨hother _, trivial⟩ (.resolveUnknown sampleResolve) _).mpr ?_
  intro hk
  cases hk

end Piclaw
