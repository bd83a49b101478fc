import Piclaw.DisplayBridge

/-!
# What the remote-display bridge carries

In every run in which upstream bytes arrive only while their record has a client, the clients of
an open record have been sent its whole stream, whatever the order of handoffs, departures and
timers. Messages of a client reach the socket of its record and no other.
-/

namespace Piclaw
namespace DisplayBridge
variable {b : DisplayBridge} {r ws : ℕ} {token : String}

/-- The streams are complete, and no client, token or lonely record is in two states at once. -/
structure Faithful (b : DisplayBridge) : Prop where
  streamed : ∀ r ∈ b.records, (b.sent r).map Prod.snd = b.upstream r
  addressed : ∀ r, ∀ p ∈ b.sent r, p.1 ∈ b.clients r
  copied : ∀ r, b.written r = b.inbox r
  oneRecord : ∀ r ∈ b.records, ∀ r' ∈ b.records, ∀ ws,
    (b.record r).ws = some ws → (b.record r').ws = some ws → r = r'
  oneToken : ∀ r ∈ b.records, ∀ r' ∈ b.records, ∀ token,
    (b.record r).handoffToken = some token → (b.record r').handoffToken = some token → r = r'
  pending : ∀ r ∈ b.records, (b.record r).ws = none → ∃ token,
    b.handoffs.get token = some r ∧ (b.record r).handoffToken = some token ∧
      (b.record r).handoffTimer = some token

/-- A client attaches with nothing or with a token of its own record only, a token is prepared for
one record, clients send what the bridge forwards, and upstream bytes find a client that takes
them. -/
def Orderly (b : DisplayBridge) : BridgeEvent → Prop
  | .attachClient ws token =>
    ∀ r ∈ b.records, (b.record r).ws = some ws → b.findHandoff token = some r
  | .prepareHandoff r token => r ∈ b.records →
    ∀ r' ∈ b.records, r' ≠ r → (b.record r').handoffToken ≠ some (trim token)
  | .handleMessage ws message handled =>
    (∃ r ∈ b.records, (b.record r).ws = some ws) → message.forwarded handled = true
  | .data r _ sends => r ∈ b.records → (b.record r).ws.isSome = true ∧ sends = true
  | _ => True

instance (b : DisplayBridge) : (event : BridgeEvent) → Decidable (b.Orderly event)
  | .attachClient ws token => inferInstanceAs (Decidable
      (∀ r ∈ b.records, (b.record r).ws = some ws → b.findHandoff token = some r))
  | .prepareHandoff r token => inferInstanceAs (Decidable (r ∈ b.records →
      ∀ r' ∈ b.records, r' ≠ r → (b.record r').handoffToken ≠ some (trim token)))
  | .handleMessage ws message handled => inferInstanceAs (Decidable
      ((∃ r ∈ b.records, (b.record r).ws = some ws) → message.forwarded handled = true))
  | .data r _ sends => inferInstanceAs (Decidable
      (r ∈ b.records → (b.record r).ws.isSome = true ∧ sends = true))
  | .handoffExpired _ => inferInstanceAs (Decidable True)
  | .detachClient _ => inferInstanceAs (Decidable True)
  | .socketError _ => inferInstanceAs (Decidable True)
  | .socketClose _ => inferInstanceAs (Decidable True)
  | .shutdown => inferInstanceAs (Decidable True)

/-- Every step of the run is orderly in the state it meets. -/
def OrderlyRun : DisplayBridge → List BridgeEvent → Prop
  | _, [] => True
  | b, event :: events => b.Orderly event ∧ OrderlyRun (b.step event) events

instance decidableOrderlyRun (b : DisplayBridge) :
    (events : List BridgeEvent) → Decidable (b.OrderlyRun events)
  | [] => inferInstanceAs (Decidable True)
  | event :: events =>
    have := decidableOrderlyRun (b.step event) events
    inferInstanceAs (Decidable (b.Orderly event ∧ (b.step event).OrderlyRun events))

/-- The maps of the bridge say what its records say, and the histories agree. -/
structure Linked (b : DisplayBridge) : Prop where
  connected : ∀ ws r, b.connections.get ws = some r ↔ (b.record r).ws = some ws
  prepared : ∀ token r, b.handoffs.get token = some r ↔ (b.record r).handoffToken = some token
  timed : ∀ r, (b.record r).handoffTimer = (b.record r).handoffToken
  closed : ∀ r, r ∉ b.records → (b.record r).ws = none ∧ (b.record r).handoffToken = none
  known : ∀ r ∈ b.records, r < b.created
  nodup : b.records.Nodup
  unborn : ∀ r, b.created ≤ r → b.upstream r = [] ∧ b.sent r = []
  streamed : ∀ r ∈ b.records, (b.sent r).map Prod.snd = b.upstream r
  addressed : ∀ r, ∀ p ∈ b.sent r, p.1 ∈ b.clients r
  given : ∀ r ws, (b.record r).ws = some ws → ws ∈ b.clients r
  copied : ∀ r, b.written r = b.inbox r

def Awaited (b : DisplayBridge) : Prop :=
  ∀ r ∈ b.records, (b.record r).ws = none → (b.record r).handoffToken.isSome = true

section Records

theorem record_setRecord (x : BridgeRecord) (j : ℕ) :
    (b.setRecord r x).record j = if j = r then x else b.record j := by
  unfold setRecord
  dsimp only
  rw [Function.update_apply]

theorem record_clearHandoff (j : ℕ) : (b.clearHandoff r).record j =
    if j = r then { b.record r with handoffToken := none, handoffTimer := none }
    else b.record j := by
  unfold clearHandoff
  exact record_setRecord _ j

theorem ws_clearHandoff (j : ℕ) : ((b.clearHandoff r).record j).ws = (b.record j).ws := by
  rw [record_clearHandoff]
  split_ifs with h
  · rw [h]
  · rfl

theorem get_clearHandoff (token : String) : (b.clearHandoff r).handoffs.get token =
    if (b.record r).handoffToken = some token then none else b.handoffs.get token := by
  unfold clearHandoff
  dsimp only
  cases htoken : (b.record r).handoffToken with
  | none => rfl
  | some t =>
    dsimp only
    rw [OrderedMap.get_delete]
    by_cases h : token = t
    · rw [if_pos h, if_pos (by rw [h])]
    · rw [if_neg h, if_neg (fun heq => h (Option.some.inj heq).symm)]

theorem Linked.prepared_clearHandoff (h : b.Linked) (token : String) (j : ℕ) :
    (b.clearHandoff r).handoffs.get token = some j ↔
      ((b.clearHandoff r).record j).handoffToken = some token := by
  rw [get_clearHandoff, record_clearHandoff]
  split_ifs with htoken heq heq
  · simp
  · constructor
    · intro hnone
      cases hnone
    · intro hj
      have hget := (h.prepared token r).mpr htoken
      rw [(h.prepared token j).mpr hj] at hget
      exact absurd (Option.some.inj hget) heq
  · constructor
    · intro hget
      rw [heq] at hget
      exact absurd ((h.prepared token r).mp hget) htoken
    · intro hnone
      cases hnone
  · exact h.prepared token j

theorem Linked.clearHandoff (h : b.Linked) : (b.clearHandoff r).Linked := by
  refine ⟨?_, h.prepared_clearHandoff, ?_, ?_, h.known, h.nodup, h.unborn, h.streamed,
    h.addressed, ?_, h.copied⟩
  · intro ws j
    rw [ws_clearHandoff]
    exact h.connected ws j
  · intro j
    rw [record_clearHandoff]
    split_ifs
    · rfl
    · exact h.timed j
  · intro j hj
    have hclosed := h.closed j hj
    rw [record_clearHandoff]
    split_ifs with heq
    · exact ⟨heq ▸ hclosed.1, rfl⟩
    · exact hclosed
  · intro j ws
    rw [ws_clearHandoff]
    exact h.given j ws

/-- A record that loses its client keeps the maps in step, and its token may keep it open. -/
def dropClient (b : DisplayBridge) (r : ℕ) : DisplayBridge :=
  { b.setRecord r { b.record r with ws := none } with
    connections := match (b.record r).ws with
      | some ws => b.connections.delete ws
      | none => b.connections }

theorem record_dropClient (j : ℕ) : (b.dropClient r).record j =
    if j = r then { b.record r with ws := none } else b.record j := record_setRecord _ j

theorem get_dropClient (ws : ℕ) : (b.dropClient r).connections.get ws =
    if (b.record r).ws = some ws then none else b.connections.get ws := by
  unfold dropClient
  dsimp only
  cases hclient : (b.record r).ws with
  | none => rfl
  | some client =>
    dsimp only
    rw [OrderedMap.get_delete]
    by_cases h : ws = client
    · rw [if_pos h, if_pos (by rw [h])]
    · rw [if_neg h, if_neg (fun heq => h (Option.some.inj heq).symm)]

theorem Linked.dropClient (h : b.Linked) : (b.dropClient r).Linked := by
  have htoken : ∀ j, ((b.dropClient r).record j).handoffToken = (b.record j).handoffToken := by
    intro j
    rw [record_dropClient]
    split_ifs with heq
    · rw [heq]
    · rfl
  refine ⟨?_, ?_, ?_, ?_, h.known, h.nodup, h.unborn, h.streamed, h.addressed, ?_, h.copied⟩
  · intro ws j
    rw [get_dropClient, record_dropClient]
    split_ifs with hclient heq heq
    · simp
    · constructor
      · intro hnone
        cases hnone
      · intro hj
        have hget := (h.connected ws r).mpr hclient
        rw [(h.connected ws j).mpr hj] at hget
        exact absurd (Option.some.inj hget) heq
    · constructor
      · intro hget
        rw [heq] at hget
        exact absurd ((h.connected ws r).mp hget) hclient
      · intro hnone
        cases hnone
    · exact h.connected ws j
  · intro token j
    rw [htoken]
    exact h.prepared token j
  · intro j
    have htimer : ((b.dropClient r).record j).handoffTimer = (b.record j).handoffTimer := by
      rw [record_dropClient]
      split_ifs with heq
      · rw [heq]
      · rfl
    rw [htoken, htimer]
    exact h.timed j
  · intro j hj
    have hclosed := h.closed j hj
    rw [record_dropClient]
    split_ifs with heq
    · exact ⟨rfl, heq ▸ hclosed.2⟩
    · exact hclosed
  · intro j ws hws
    rw [record_dropClient] at hws
    split_ifs at hws
    exact h.given j ws hws

/-- Closing an open record takes its client and its token away first. -/
theorem closeRecord_eq (hopen : r ∈ b.records) : b.closeRecord r =
    { (b.dropClient r).clearHandoff r with records := b.records.erase r } := by
  unfold closeRecord
  rw [if_pos hopen]
  rfl

theorem Linked.closeRecord (h : b.Linked) : (b.closeRecord r).Linked := by
  by_cases hopen : r ∈ b.records
  · have hleft := (h.dropClient (r := r)).clearHandoff (r := r)
    rw [closeRecord_eq hopen]
    have hmem : ∀ j ∈ b.records.erase r, j ∈ b.records := fun j hj => List.mem_of_mem_erase hj
    refine ⟨hleft.connected, hleft.prepared, hleft.timed, ?_, fun j hj => h.known j (hmem j hj),
      h.nodup.erase r, h.unborn, fun j hj => h.streamed j (hmem j hj), h.addressed,
      hleft.given, h.copied⟩
    intro j hj
    by_cases heq : j = r
    · change (((b.dropClient r).clearHandoff r).record j).ws = none ∧
        (((b.dropClient r).clearHandoff r).record j).handoffToken = none
      rw [heq, ws_clearHandoff, record_dropClient, record_clearHandoff, if_pos rfl, if_pos rfl]
      exact ⟨rfl, rfl⟩
    · exact hleft.closed j fun hmem => hj ((List.mem_erase_of_ne heq).mpr hmem)
  · unfold DisplayBridge.closeRecord
    rw [if_neg hopen]
    exact h

/-- The records that stay open keep their client and their token. -/
theorem record_closeRecord {j : ℕ} (hj : j ∈ (b.closeRecord r).records) (hnodup : b.records.Nodup) :
    j ∈ b.records ∧ (b.closeRecord r).record j = b.record j := by
  by_cases hopen : r ∈ b.records
  · rw [closeRecord_eq hopen] at hj ⊢
    have hmem := (hnodup.mem_erase_iff).mp hj
    refine ⟨hmem.2, ?_⟩
    change ((b.dropClient r).clearHandoff r).record j = b.record j
    rw [record_clearHandoff, if_neg hmem.1, record_dropClient, if_neg hmem.1]
  · unfold closeRecord at hj ⊢
    rw [if_neg hopen] at hj ⊢
    exact ⟨hj, rfl⟩

theorem Awaited.closeRecord (h : b.Awaited) (hnodup : b.records.Nodup) :
    (b.closeRecord r).Awaited := by
  intro j hj hws
  obtain ⟨hmem, hrecord⟩ := record_closeRecord hj hnodup
  rw [hrecord] at hws ⊢
  exact h j hmem hws

end Records

section Events

theorem linked_initial : initial.Linked := by
  refine ⟨?_, ?_, fun _ => rfl, fun _ _ => ⟨rfl, rfl⟩, ?_, List.nodup_nil, fun _ _ => ⟨rfl, rfl⟩,
    ?_, ?_, ?_, fun _ => rfl⟩
  · intro ws r
    constructor
    · intro h
      cases h
    · intro h
      cases h
  · intro token r
    constructor
    · intro h
      cases h
    · intro h
      cases h
  · intro r hr
    cases hr
  · intro r hr
    cases hr
  · intro r p hp
    cases hp
  · intro r ws h
    cases h

/-- What a client's message and upstream bytes leave as it is. -/
theorem Linked.counted (h : b.Linked) {x : BridgeRecord} (hws : x.ws = (b.record r).ws)
    (htoken : x.handoffToken = (b.record r).handoffToken)
    (htimer : x.handoffTimer = (b.record r).handoffTimer) : (b.setRecord r x).Linked := by
  have hrecord : ∀ j, ((b.setRecord r x).record j).ws = (b.record j).ws ∧
      ((b.setRecord r x).record j).handoffToken = (b.record j).handoffToken ∧
      ((b.setRecord r x).record j).handoffTimer = (b.record j).handoffTimer := by
    intro j
    rw [record_setRecord]
    split_ifs with heq
    · rw [heq]
      exact ⟨hws, htoken, htimer⟩
    · exact ⟨rfl, rfl, rfl⟩
  refine ⟨?_, ?_, ?_, ?_, h.known, h.nodup, h.unborn, h.streamed, h.addressed, ?_, h.copied⟩
  · intro ws j
    rw [(hrecord j).1]
    exact h.connected ws j
  · intro token j
    rw [(hrecord j).2.1]
    exact h.prepared token j
  · intro j
    rw [(hrecord j).2.1, (hrecord j).2.2]
    exact h.timed j
  · intro j hj
    rw [(hrecord j).1, (hrecord j).2.1]
    exact h.closed j hj
  · intro j ws
    rw [(hrecord j).1]
    exact h.given j ws

/-- The record and the connections when a client has been bound. -/
def giveClient (b : DisplayBridge) (r ws : ℕ) : DisplayBridge :=
  { b.setRecord r { b.record r with ws := some ws } with
    connections := (match (b.record r).ws with
      | some previous => if previous = ws then b.connections else b.connections.delete previous
      | none => b.connections).set ws r
    clients := Function.update b.clients r (b.clients r ++ [ws]) }

theorem record_giveClient (j : ℕ) : (b.giveClient r ws).record j =
    if j = r then { b.record r with ws := some ws } else b.record j := record_setRecord _ j

theorem get_giveClient (w : ℕ) : (b.giveClient r ws).connections.get w =
    if w = ws then some r else if (b.record r).ws = some w then none else b.connections.get w := by
  unfold giveClient
  dsimp only
  rw [OrderedMap.get_set]
  split_ifs with hw hclient
  · rfl
  · rw [hclient]
    dsimp only
    rw [if_neg hw, OrderedMap.get_delete, if_pos rfl]
  · cases hprevious : (b.record r).ws with
    | none => rfl
    | some previous =>
      dsimp only
      have hne : w ≠ previous := by
        intro heq
        rw [heq] at hclient
        exact hclient hprevious
      split_ifs
      · rfl
      · rw [OrderedMap.get_delete, if_neg hne]

theorem clients_giveClient (j : ℕ) : (b.giveClient r ws).clients j =
    if j = r then b.clients r ++ [ws] else b.clients j := by
  unfold giveClient
  dsimp only
  rw [Function.update_apply]

theorem Linked.giveClient (h : b.Linked) (hopen : r ∈ b.records)
    (hfree : ∀ j, (b.record j).ws = some ws → j = r) : (b.giveClient r ws).Linked := by
  have hother : ∀ j, ((b.giveClient r ws).record j).handoffToken = (b.record j).handoffToken ∧
      ((b.giveClient r ws).record j).handoffTimer = (b.record j).handoffTimer := by
    intro j
    rw [record_giveClient]
    split_ifs with heq
    · rw [heq]
      exact ⟨rfl, rfl⟩
    · exact ⟨rfl, rfl⟩
  refine ⟨?_, ?_, ?_, ?_, h.known, h.nodup, h.unborn, h.streamed, ?_, ?_, h.copied⟩
  · intro w j
    rw [get_giveClient, record_giveClient]
    by_cases hw : w = ws
    · rw [if_pos hw, hw]
      split_ifs with heq
      · rw [heq]
        simp
      · constructor
        · intro hr
          exact absurd (Option.some.inj hr).symm heq
        · intro hj
          exact absurd (hfree j hj) heq
    · rw [if_neg hw]
      split_ifs with hclient heq heq
      · constructor
        · intro hnone
          cases hnone
        · intro hsome
          exact absurd (Option.some.inj hsome).symm hw
      · constructor
        · intro hnone
          cases hnone
        · intro hj
          have hget := (h.connected w r).mpr hclient
          rw [(h.connected w j).mpr hj] at hget
          exact absurd (Option.some.inj hget) heq
      · constructor
        · intro hget
          rw [heq] at hget
          exact absurd ((h.connected w r).mp hget) hclient
        · intro hsome
          exact absurd (Option.some.inj hsome).symm hw
      · exact h.connected w j
  · intro token j
    rw [(hother j).1]
    exact h.prepared token j
  · intro j
    rw [(hother j).1, (hother j).2]
    exact h.timed j
  · intro j hj
    have hne : j ≠ r := by
      intro heq
      rw [heq] at hj
      exact hj hopen
    rw [record_giveClient, if_neg hne]
    exact h.closed j hj
  · intro j p hp
    have hmem := h.addressed j p hp
    rw [clients_giveClient]
    split_ifs with heq
    · rw [← heq]
      exact List.mem_append_left _ hmem
    · exact hmem
  · intro j w hw
    rw [record_giveClient] at hw
    rw [clients_giveClient]
    split_ifs at hw ⊢ with heq
    · rw [← Option.some.inj hw]
      exact List.mem_append_right _ (List.mem_singleton_self _)
    · exact h.given j w hw

theorem Linked.found (h : b.Linked) (hfound : b.findHandoff token = some r) :
    r ∈ b.records ∧ (b.record r).handoffToken = some (trim token) := by
  unfold findHandoff at hfound
  split_ifs at hfound
  have htoken := (h.prepared _ r).mp hfound
  refine ⟨?_, htoken⟩
  by_contra hclosed
  rw [(h.closed r hclosed).2] at htoken
  cases htoken

theorem Linked.attachClient (h : b.Linked) (haw : b.Awaited)
    (horderly : b.Orderly (.attachClient ws token)) :
    (b.attachClient ws token).Linked ∧ (b.attachClient ws token).Awaited := by
  unfold DisplayBridge.attachClient
  have hopenOf : ∀ j, (b.record j).ws = some ws → j ∈ b.records := by
    intro j hj
    by_contra hclosed
    rw [(h.closed j hclosed).1] at hj
    cases hj
  cases hfound : b.findHandoff token with
  | some r =>
    obtain ⟨hopen, -⟩ := h.found hfound
    have hfree : ∀ j, (b.record j).ws = some ws → j = r := by
      intro j hj
      have hsame := horderly j (hopenOf j hj) hj
      rw [hfound] at hsame
      exact (Option.some.inj hsame).symm
    have hbound := (h.giveClient hopen hfree).clearHandoff (r := r)
    refine ⟨hbound, ?_⟩
    intro j hj hws
    change (((b.giveClient r ws).clearHandoff r).record j).ws = none at hws
    change (((b.giveClient r ws).clearHandoff r).record j).handoffToken.isSome = true
    rw [ws_clearHandoff, record_giveClient] at hws
    rw [record_clearHandoff]
    by_cases heq : j = r
    · rw [if_pos heq] at hws
      cases hws
    · rw [if_neg heq] at hws
      rw [if_neg heq, record_giveClient, if_neg heq]
      exact haw j hj hws
  | none =>
    have hfree : ∀ j, (b.record j).ws ≠ some ws := by
      intro j hj
      have hsame := horderly j (hopenOf j hj) hj
      rw [hfound] at hsame
      cases hsame
    have hnew : b.created ∉ b.records := fun hmem => Nat.lt_irrefl _ (h.known _ hmem)
    dsimp only
    constructor
    · refine ⟨?_, ?_, ?_, ?_, ?_, ?_, ?_, ?_, ?_, ?_, h.copied⟩
      · intro w j
        change (b.connections.set ws b.created).get w = some j ↔
          ((b.setRecord b.created _).record j).ws = some w
        rw [OrderedMap.get_set, record_setRecord]
        have hclosed := (h.closed _ hnew).1
        have hj := h.connected w j
        split_ifs with hw heq heq
        · simp [hw, heq]
        · constructor
          · intro hsome
            exact absurd (Option.some.inj hsome).symm heq
          · intro hsome
            rw [hw] at hsome
            exact absurd hsome (hfree j)
        · constructor
          · intro hget
            rw [heq] at hget
            have hsome := (h.connected w b.created).mp hget
            rw [hclosed] at hsome
            cases hsome
          · intro hsome
            exact absurd (Option.some.inj hsome).symm hw
        · exact hj
      · intro t j
        change b.handoffs.get t = some j ↔
          ((b.setRecord b.created _).record j).handoffToken = some t
        rw [record_setRecord]
        split_ifs with heq
        · rw [h.prepared, heq, (h.closed _ hnew).2]
          simp
        · exact h.prepared t j
      · intro j
        change ((b.setRecord b.created _).record j).handoffTimer =
          ((b.setRecord b.created _).record j).handoffToken
        rw [record_setRecord]
        split_ifs
        · rfl
        · exact h.timed j
      · intro j hj
        have hold : j ∉ b.records := fun hmem => hj (List.mem_append_left _ hmem)
        have heq : j ≠ b.created :=
          fun heq => hj (List.mem_append_right _ (List.mem_singleton.mpr heq))
        change ((b.setRecord b.created _).record j).ws = none ∧
          ((b.setRecord b.created _).record j).handoffToken = none
        rw [record_setRecord, if_neg heq]
        exact h.closed j hold
      · intro j hj
        change j < b.created + 1
        rcases List.mem_append.mp hj with hj | hj
        · exact Nat.lt_succ_of_lt (h.known j hj)
        · rw [List.mem_singleton.mp hj]
          exact Nat.lt_succ_self _
      · exact List.Nodup.append h.nodup (List.nodup_singleton _)
          (List.disjoint_singleton.mpr hnew)
      · intro j hj
        exact h.unborn j (Nat.le_of_succ_le hj)
      · intro j hj
        rcases List.mem_append.mp hj with hj | hj
        · exact h.streamed j hj
        · obtain ⟨hup, hsent⟩ := h.unborn b.created (le_refl _)
          rw [List.mem_singleton.mp hj]
          change (b.sent b.created).map Prod.snd = b.upstream b.created
          rw [hup, hsent]
          rfl
      · intro j p hp
        change p.1 ∈ Function.update b.clients b.created [ws] j
        rw [Function.update_apply]
        split_ifs with heq
        · rw [heq] at hp
          change p ∈ b.sent b.created at hp
          rw [(h.unborn b.created (le_refl _)).2] at hp
          cases hp
        · exact h.addressed j p hp
      · intro j w hw
        change ((b.setRecord b.created _).record j).ws = some w at hw
        change w ∈ Function.update b.clients b.created [ws] j
        rw [record_setRecord] at hw
        rw [Function.update_apply]
        split_ifs at hw ⊢ with heq
        · rw [← Option.some.inj hw]
          exact List.mem_singleton_self _
        · exact h.given j w hw
    · intro j hj hws
      change ((b.setRecord b.created _).record j).ws = none at hws
      change ((b.setRecord b.created _).record j).handoffToken.isSome = true
      rw [record_setRecord] at hws ⊢
      split_ifs at hws ⊢ with heq
      rcases List.mem_append.mp hj with hj | hj
      · exact haw j hj hws
      · exact absurd (List.mem_singleton.mp hj) heq

theorem Linked.prepareHandoff (h : b.Linked) (haw : b.Awaited)
    (horderly : b.Orderly (.prepareHandoff r token)) :
    (b.prepareHandoff r token).Linked ∧ (b.prepareHandoff r token).Awaited := by
  unfold DisplayBridge.prepareHandoff
  split_ifs with hrefused
  · exact ⟨h, haw⟩
  · rw [not_or, not_not] at hrefused
    have hopen := hrefused.2
    have hcleared := h.clearHandoff (r := r)
    have hfree : ∀ j, j ≠ r → (b.record j).handoffToken ≠ some (trim token) := by
      intro j hne htoken
      by_cases hj : j ∈ b.records
      · exact horderly hopen j hj hne htoken
      · rw [(h.closed j hj).2] at htoken
        cases htoken
    dsimp only
    constructor
    · refine ⟨?_, ?_, ?_, ?_, hcleared.known, hcleared.nodup, hcleared.unborn, hcleared.streamed,
        hcleared.addressed, ?_, hcleared.copied⟩
      · intro w j
        refine (hcleared.connected w j).trans ?_
        change _ ↔ (((b.clearHandoff r).setRecord r _).record j).ws = some w
        rw [record_setRecord]
        split_ifs with heq
        · rw [heq]
        · rfl
      · intro t j
        change ((b.clearHandoff r).handoffs.set (trim token) r).get t = some j ↔
          (((b.clearHandoff r).setRecord r _).record j).handoffToken = some t
        rw [OrderedMap.get_set, record_setRecord]
        split_ifs with ht heq heq
        · simp [ht, heq]
        · rw [record_clearHandoff, if_neg heq, ht]
          constructor
          · intro hsome
            exact absurd (Option.some.inj hsome).symm heq
          · intro hsome
            exact absurd hsome (hfree j heq)
        · rw [hcleared.prepared, heq, record_clearHandoff, if_pos rfl]
          constructor
          · intro hnone
            cases hnone
          · intro hsome
            exact absurd (Option.some.inj hsome).symm ht
        · exact hcleared.prepared t j
      · intro j
        change (((b.clearHandoff r).setRecord r _).record j).handoffTimer =
          (((b.clearHandoff r).setRecord r _).record j).handoffToken
        rw [record_setRecord]
        split_ifs
        · rfl
        · exact hcleared.timed j
      · intro j hj
        have hne : j ≠ r := by
          intro heq
          rw [heq] at hj
          exact hj hopen
        change (((b.clearHandoff r).setRecord r _).record j).ws = none ∧
          (((b.clearHandoff r).setRecord r _).record j).handoffToken = none
        rw [record_setRecord, if_neg hne]
        exact hcleared.closed j hj
      · intro j w hw
        change (((b.clearHandoff r).setRecord r _).record j).ws = some w at hw
        rw [record_setRecord] at hw
        split_ifs at hw with heq
        · rw [heq]
          exact hcleared.given r w hw
        · exact hcleared.given j w hw
    · intro j hj hws
      change (((b.clearHandoff r).setRecord r _).record j).ws = none at hws
      change (((b.clearHandoff r).setRecord r _).record j).handoffToken.isSome = true
      rw [record_setRecord] at hws ⊢
      split_ifs at hws ⊢ with heq
      · rfl
      · rw [ws_clearHandoff] at hws
        rw [record_clearHandoff, if_neg heq]
        exact haw j hj hws

theorem Linked.handoffExpired (h : b.Linked) (haw : b.Awaited) :
    (b.handoffExpired r).Linked ∧ (b.handoffExpired r).Awaited := by
  unfold DisplayBridge.handoffExpired
  cases htimer : (b.record r).handoffTimer with
  | none => exact ⟨h, haw⟩
  | some token =>
    have htoken : (b.record r).handoffToken = some token := (h.timed r).symm.trans htimer
    have hcleared := h.clearHandoff (r := r)
    have hothers : ∀ j ∈ b.records, j ≠ r → ((b.clearHandoff r).record j).ws = none →
        ((b.clearHandoff r).record j).handoffToken.isSome = true := by
      intro j hj hne hws
      rw [ws_clearHandoff] at hws
      rw [record_clearHandoff, if_neg hne]
      exact haw j hj hws
    dsimp only
    rw [if_neg (fun hne => hne htoken)]
    split_ifs with hlonely
    · refine ⟨hcleared.closeRecord, ?_⟩
      intro j hj hws
      obtain ⟨hmem, hrecord⟩ := record_closeRecord hj hcleared.nodup
      rw [hrecord] at hws ⊢
      refine hothers j hmem ?_ hws
      intro heq
      have hopen : r ∈ (b.clearHandoff r).records := heq ▸ hmem
      rw [closeRecord_eq hopen, heq] at hj
      exact hcleared.nodup.not_mem_erase hj
    · refine ⟨hcleared, ?_⟩
      intro j hj hws
      refine hothers j hj ?_ hws
      intro heq
      rw [heq] at hws
      exact hlonely hws

theorem closeClient_eq (hget : b.connections.get ws = some r)
    (hclient : (b.record r).ws = some ws) : b.closeClient ws =
      if ((b.dropClient r).record r).handoffToken.isSome then b.dropClient r
      else (b.dropClient r).closeRecord r := by
  unfold DisplayBridge.closeClient DisplayBridge.dropClient
  simp only [hget, hclient, if_true]

theorem Linked.closeClient (h : b.Linked) (haw : b.Awaited) :
    (b.closeClient ws).Linked ∧ (b.closeClient ws).Awaited := by
  cases hget : b.connections.get ws with
  | none =>
    unfold DisplayBridge.closeClient
    rw [hget]
    exact ⟨h, haw⟩
  | some r =>
    have hclient := (h.connected ws r).mp hget
    rw [closeClient_eq hget hclient]
    have hdropped := h.dropClient (r := r)
    have hothers : ∀ j ∈ b.records, j ≠ r → ((b.dropClient r).record j).ws = none →
        ((b.dropClient r).record j).handoffToken.isSome = true := by
      intro j hj hne hws
      rw [record_dropClient, if_neg hne] at hws ⊢
      exact haw j hj hws
    split_ifs with htoken
    · refine ⟨hdropped, ?_⟩
      intro j hj hws
      by_cases heq : j = r
      · rw [heq]
        exact htoken
      · exact hothers j hj heq hws
    · refine ⟨hdropped.closeRecord, ?_⟩
      intro j hj hws
      obtain ⟨hmem, hrecord⟩ := record_closeRecord hj hdropped.nodup
      rw [hrecord] at hws ⊢
      refine hothers j hmem ?_ hws
      intro heq
      have hopen : r ∈ (b.dropClient r).records := heq ▸ hmem
      rw [closeRecord_eq hopen, heq] at hj
      exact hdropped.nodup.not_mem_erase hj

theorem Linked.handleMessage {message : BrowserMessage} {handled : Bool} (h : b.Linked)
    (haw : b.Awaited) (horderly : b.Orderly (.handleMessage ws message handled)) :
    (b.handleMessage ws message handled).Linked ∧
      (b.handleMessage ws message handled).Awaited := by
  unfold DisplayBridge.handleMessage
  have hopenOf : ∀ j, (b.record j).ws = some ws → j ∈ b.records := by
    intro j hj
    by_contra hclosed
    rw [(h.closed j hclosed).1] at hj
    cases hj
  cases hget : b.connections.get ws with
  | none =>
    refine ⟨⟨h.connected, h.prepared, h.timed, h.closed, h.known, h.nodup, h.unborn, h.streamed,
      h.addressed, h.given, ?_⟩, haw⟩
    intro j
    have hnobody : ¬ (j ∈ b.records ∧ (b.record j).ws = some ws) := by
      rintro ⟨-, hj⟩
      rw [(h.connected ws j).mpr hj] at hget
      cases hget
    change b.written j = b.received ws message j
    unfold received
    rw [if_neg hnobody]
    exact h.copied j
  | some r =>
    have hclient := (h.connected ws r).mp hget
    have hforwarded := horderly ⟨r, hopenOf r hclient, hclient⟩
    have hcounted := h.counted (r := r) (x := { b.record r with
      bytesOut := (b.record r).bytesOut + message.byteLength }) rfl rfl rfl
    dsimp only
    rw [if_pos hforwarded]
    refine ⟨⟨hcounted.connected, hcounted.prepared, hcounted.timed, hcounted.closed, h.known,
      h.nodup, h.unborn, h.streamed, h.addressed, hcounted.given, ?_⟩, ?_⟩
    · intro j
      change Function.update b.written r (b.written r ++ [message]) j = b.received ws message j
      unfold received
      rw [Function.update_apply]
      split_ifs with heq hmine hmine
      · rw [heq, h.copied]
      · rw [heq] at hmine
        exact absurd ⟨hopenOf r hclient, hclient⟩ hmine
      · rw [(h.connected ws j).mpr hmine.2] at hget
        exact absurd (Option.some.inj hget) heq
      · exact h.copied j
    · intro j hj hws
      change ((b.setRecord r _).record j).ws = none at hws
      change ((b.setRecord r _).record j).handoffToken.isSome = true
      rw [record_setRecord] at hws ⊢
      split_ifs at hws ⊢ with heq
      · exact haw r (heq ▸ hj) hws
      · exact haw j hj hws

theorem Linked.data {chunk : List UInt8} {sends : Bool} (h : b.Linked) (haw : b.Awaited)
    (hborn : r < b.created) (horderly : b.Orderly (.data r chunk sends)) :
    (b.data r chunk sends).Linked ∧ (b.data r chunk sends).Awaited := by
  have hcounted := h.counted (r := r) (x := { b.record r with
    bytesIn := (b.record r).bytesIn + chunk.length }) rfl rfl rfl
  have hsent : ∀ j, (b.data r chunk sends).sent j = b.sent j ∨ (j = r ∧ sends = true ∧ ∃ w,
      (b.record r).ws = some w ∧ (b.data r chunk sends).sent j = b.sent j ++ [(w, chunk)]) := by
    intro j
    unfold DisplayBridge.data
    dsimp only
    cases hws : (b.record r).ws with
    | none => exact .inl rfl
    | some w =>
      dsimp only
      split_ifs with hsends
      · rw [Function.update_apply]
        split_ifs with heq
        · exact .inr ⟨heq, hsends, w, rfl, by rw [heq]⟩
        · exact .inl rfl
      · exact .inl rfl
  have hupstream : ∀ j, (b.data r chunk sends).upstream j =
      if j = r then b.upstream r ++ [chunk] else b.upstream j := by
    intro j
    unfold DisplayBridge.data
    dsimp only
    rw [Function.update_apply]
  refine ⟨⟨hcounted.connected, hcounted.prepared, hcounted.timed, hcounted.closed, h.known,
    h.nodup, ?_, ?_, ?_, hcounted.given, h.copied⟩, ?_⟩
  · intro j hj
    have hne : j ≠ r := fun heq => absurd (heq ▸ hborn) (Nat.not_lt.mpr hj)
    rw [hupstream, if_neg hne]
    rcases hsent j with hsame | ⟨heq, -⟩
    · rw [hsame]
      exact h.unborn j hj
    · exact absurd heq hne
  · intro j hj
    have hj : j ∈ b.records := hj
    rw [hupstream]
    by_cases heq : j = r
    · obtain ⟨hclient, hsends⟩ := horderly (heq ▸ hj)
      obtain ⟨w, hw⟩ := Option.isSome_iff_exists.mp hclient
      have hdata : (b.data r chunk sends).sent j = b.sent j ++ [(w, chunk)] := by
        unfold DisplayBridge.data
        dsimp only
        rw [hw]
        dsimp only
        rw [if_pos hsends, Function.update_apply, if_pos heq, heq]
      rw [if_pos heq, hdata, List.map_append, h.streamed j hj, heq]
      rfl
    · rw [if_neg heq]
      rcases hsent j with hsame | ⟨heq', -⟩
      · rw [hsame]
        exact h.streamed j hj
      · exact absurd heq' heq
  · intro j p hp
    change p.1 ∈ b.clients j
    rcases hsent j with hsame | ⟨heq, -, w, hw, hmore⟩
    · rw [hsame] at hp
      exact h.addressed j p hp
    · rw [hmore] at hp
      rcases List.mem_append.mp hp with hp | hp
      · exact h.addressed j p hp
      · rw [List.mem_singleton.mp hp, heq]
        exact h.given r w hw
  · intro j hj hws
    change ((b.setRecord r _).record j).ws = none at hws
    change ((b.setRecord r _).record j).handoffToken.isSome = true
    rw [record_setRecord] at hws ⊢
    split_ifs at hws ⊢ with heq
    · exact haw r (heq ▸ hj) hws
    · exact haw j hj hws

theorem Linked.shutdown (h : b.Linked) (haw : b.Awaited) (records : List ℕ) :
    (records.foldl DisplayBridge.closeRecord b).Linked ∧
      (records.foldl DisplayBridge.closeRecord b).Awaited := by
  induction records generalizing b with
  | nil => exact ⟨h, haw⟩
  | cons r records ih => exact ih h.closeRecord (haw.closeRecord h.nodup)

theorem linked_step (h : b.Linked) (haw : b.Awaited) {event : BridgeEvent}
    (horderly : b.Orderly event) : (b.step event).Linked ∧ (b.step event).Awaited := by
  cases event with
  | attachClient ws token => exact h.attachClient haw horderly
  | prepareHandoff r token => exact h.prepareHandoff haw horderly
  | handoffExpired r => exact h.handoffExpired haw
  | handleMessage ws message handled => exact h.handleMessage haw horderly
  | detachClient ws => exact h.closeClient haw
  | data r chunk sends =>
    unfold step
    dsimp only
    split_ifs with hborn
    · exact h.data haw hborn horderly
    · exact ⟨h, haw⟩
  | socketError r => exact ⟨h.closeRecord, haw.closeRecord h.nodup⟩
  | socketClose r => exact ⟨h.closeRecord, haw.closeRecord h.nodup⟩
  | shutdown => exact h.shutdown haw b.records

theorem Linked.faithful (h : b.Linked) (haw : b.Awaited) : b.Faithful := by
  refine ⟨h.streamed, h.addressed, h.copied, ?_, ?_, ?_⟩
  · intro r _ r' _ ws hr hr'
    have hget := (h.connected ws r).mpr hr
    rw [(h.connected ws r').mpr hr'] at hget
    exact (Option.some.inj hget).symm
  · intro r _ r' _ token hr hr'
    have hget := (h.prepared token r).mpr hr
    rw [(h.prepared token r').mpr hr'] at hget
    exact (Option.some.inj hget).symm
  · intro r hr hws
    obtain ⟨token, htoken⟩ := Option.isSome_iff_exists.mp (haw r hr hws)
    exact ⟨token, (h.prepared token r).mpr htoken, htoken, (h.timed r).trans htoken⟩

theorem linked_run {events : List BridgeEvent} (h : b.Linked) (haw : b.Awaited)
    (horderly : b.OrderlyRun events) : (b.run events).Linked ∧ (b.run events).Awaited := by
  induction events generalizing b with
  | nil => exact ⟨h, haw⟩
  | cons event events ih =>
    obtain ⟨hlinked, hawaited⟩ := linked_step h haw horderly.1
    exact ih hlinked hawaited horderly.2

/-- No byte is lost on the way from one client of a record to the next. -/
theorem run_faithful {events : List BridgeEvent} (h : initial.OrderlyRun events) :
    (initial.run events).Faithful := by
  have hawaited : initial.Awaited := by
    intro r hr
    cases hr
  obtain ⟨hlinked, haw⟩ := linked_run linked_initial hawaited h
  exact hlinked.faithful haw

/-- A client hands its record over to the next window while nothing arrives. -/
def handover : List BridgeEvent :=
  [.attachClient 0 "", .data 0 [1, 2] true, .prepareHandoff 0 "t", .detachClient 0,
    .attachClient 1 "t", .data 0 [3] true, .handleMessage 1 (.bytes [9]) false]

theorem run_faithful_handover : (initial.run handover).Faithful :=
  run_faithful (by decide +kernel)

/-- Bytes that arrive between two clients are dropped. -/
theorem bytes_lost_between_clients :
    ¬ (initial.run [.attachClient 0 "", .prepareHandoff 0 "t", .detachClient 0,
      .data 0 [1] true, .attachClient 1 "t"]).Faithful := by
  intro h
  have hlost := h.streamed 0 (by decide +kernel)
  revert hlost
  decide +kernel

end Events

end DisplayBridge
end Piclaw
