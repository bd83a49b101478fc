import Piclaw.ToolCallTurns

/-!
# Histories that no limit separates

Which histories keep every reasoning item for every configuration: each turn with a reasoning item
has one call at most, and once a message has left a reasoning item over no turn without one makes
calls. Any other history loses one to a limit.
-/

namespace Piclaw.ToolCallLimit

open CanonicalText

section Shape

variable {turns : List Turn} {turn : Turn} {stack : List ℕ} {n q r : ℕ} {items rest : History}

/-- A message with a reasoning item before it. -/
def Turn.ReasonedMessage (turn : Turn) : Prop :=
  turn.reasoning.isSome = true ∧ ∃ item, turn.follower = .message item

/-- Calls without a reasoning item before them. -/
def Turn.BareCalls (turn : Turn) : Prop :=
  turn.reasoning = none ∧ ∃ first rest, turn.follower = .calls first rest

/-- A turn with a reasoning item has one call at most. -/
def Turn.SingleCall (turn : Turn) : Prop :=
  turn.reasoning.isSome = true → ∀ first rest, turn.follower = .calls first rest →
    ∀ raw ∈ rest, ¬ isCall raw

/-- Every reasoning item is taken by the only call of its own turn. -/
structure OwnReasoning (turns : List Turn) : Prop where
  single : ∀ turn ∈ turns, turn.SingleCall
  after : turns.Pairwise fun earlier later => earlier.ReasonedMessage → ¬ later.BareCalls

section Cons

variable {raw : JsonValue} {top : ℕ}

theorem pairings_reasoning (h : isReasoning raw) :
    pairings stack n (raw :: rest) = pairings (n :: stack) (n + 1) rest := by
  simp only [pairings, if_pos h]

theorem pairings_call (h : isNamedCall raw) :
    pairings (top :: stack) n (raw :: rest) = (n, top) :: pairings stack (n + 1) rest := by
  simp only [pairings, if_neg h.1.not_reasoning, if_pos (And.intro h.1 h.2)]

theorem pairings_call_empty (h : isNamedCall raw) :
    pairings [] n (raw :: rest) = pairings [] (n + 1) rest := by
  simp only [pairings, if_neg h.1.not_reasoning, if_pos (And.intro h.1 h.2)]

theorem pairings_other (h : ¬ isReasoning raw) (hcall : ¬ isNamedCall raw) :
    pairings stack n (raw :: rest) = pairings stack (n + 1) rest := by
  have hnot : ¬ (isCall raw ∧ callId raw ≠ []) := hcall
  simp only [pairings, if_neg h, if_neg hnot]

end Cons

theorem pairings_skip (h : ∀ raw ∈ items, ¬ isReasoning raw ∧ ¬ isNamedCall raw) :
    pairings stack n (items ++ rest) = pairings stack (n + items.length) rest := by
  induction items generalizing n with
  | nil => rfl
  | cons raw items ih =>
    have hraw := h raw List.mem_cons_self
    rw [List.cons_append, pairings_other hraw.1 hraw.2,
      ih fun raw hmem => h raw (List.mem_cons_of_mem _ hmem), List.length_cons,
      Nat.add_assoc, Nat.add_comm 1]

/-- Without anything left over a call takes nothing. -/
theorem pairings_empty (h : ∀ raw ∈ items, ¬ isReasoning raw) :
    pairings [] n (items ++ rest) = pairings [] (n + items.length) rest := by
  induction items generalizing n with
  | nil => rfl
  | cons raw items ih =>
    have hraw := h raw List.mem_cons_self
    have hstep : pairings [] n (raw :: (items ++ rest)) = pairings [] (n + 1) (items ++ rest) := by
      by_cases hcall : isNamedCall raw
      · exact pairings_call_empty hcall
      · exact pairings_other hraw hcall
    rw [List.cons_append, hstep, ih fun raw hmem => h raw (List.mem_cons_of_mem _ hmem),
      List.length_cons, Nat.add_assoc, Nat.add_comm 1]

/-- The pairs of a later part stay when something goes before it. -/
theorem pairings_append (stack : List ℕ) (n : ℕ) (items rest : History) : ∃ pairs stack',
    pairings stack n (items ++ rest) = pairs ++ pairings stack' (n + items.length) rest := by
  induction items generalizing stack n with
  | nil => exact ⟨[], stack, rfl⟩
  | cons raw items ih =>
    have hplace : n + (raw :: items).length = n + 1 + items.length := by
      rw [List.length_cons]
      omega
    rw [hplace, List.cons_append]
    by_cases hreasoning : isReasoning raw
    · rw [pairings_reasoning hreasoning]
      exact ih _ _
    · by_cases hcall : isNamedCall raw
      · cases stack with
        | nil =>
          rw [pairings_call_empty hcall]
          exact ih _ _
        | cons top stack =>
          obtain ⟨pairs, stack', heq⟩ := ih stack (n + 1)
          exact ⟨(n, top) :: pairs, stack', by rw [pairings_call hcall, heq, List.cons_append]⟩
      · rw [pairings_other hreasoning hcall]
        exact ih _ _

/-- What a turn does to the reasoning items that are left over. -/
inductive TurnStep (stack : List ℕ) (n : ℕ) (turn : Turn) (rest : History) : List (ℕ × ℕ) → Prop
  | message (h : turn.ReasonedMessage) :
      TurnStep stack n turn rest (pairings (n :: stack) (n + turn.items.length) rest)
  | plain (h : ¬ turn.ReasonedMessage) (hbare : ¬ turn.BareCalls) :
      TurnStep stack n turn rest (pairings stack (n + turn.items.length) rest)
  | own (h : ¬ turn.ReasonedMessage) (hbare : ¬ turn.BareCalls) :
      TurnStep stack n turn rest ((n + 1, n) :: pairings stack (n + turn.items.length) rest)
  | empty (hbare : turn.BareCalls) (h : ¬ turn.ReasonedMessage) (hstack : stack = []) :
      TurnStep stack n turn rest (pairings [] (n + turn.items.length) rest)
  | taken (hbare : turn.BareCalls) {top : ℕ} {below : List ℕ} (hstack : stack = top :: below)
      {pairs : List (ℕ × ℕ)} : TurnStep stack n turn rest ((n, top) :: pairs)

theorem pairings_turn (stack : List ℕ) (n : ℕ) (hvalid : turn.Valid) (hsingle : turn.SingleCall)
    (rest : History) : TurnStep stack n turn rest (pairings stack n (turn.items ++ rest)) := by
  obtain ⟨reasoning, follower⟩ := turn
  have hkind := hvalid.reasoning
  have hfollow := hvalid.follower
  dsimp only at hkind hfollow
  cases reasoning with
  | none =>
    have hnot : ¬ Turn.ReasonedMessage ⟨none, follower⟩ := fun h => Bool.noConfusion h.1
    cases follower with
    | message item =>
      have hskip : pairings stack n (Turn.items ⟨none, .message item⟩ ++ rest) =
          pairings stack (n + (Turn.items ⟨none, .message item⟩).length) rest := by
        apply pairings_skip
        intro raw hraw
        rw [List.mem_singleton.mp hraw]
        exact ⟨hfollow.2.2, fun h => hfollow.1 h.1⟩
      rw [hskip]
      refine .plain hnot ?_
      rintro ⟨_, _, _, h⟩
      cases h
    | calls first others =>
      have hbare : Turn.BareCalls ⟨none, .calls first others⟩ := ⟨rfl, first, others, rfl⟩
      cases stack with
      | nil =>
        have hskip : pairings [] n (Turn.items ⟨none, .calls first others⟩ ++ rest) =
            pairings [] (n + (Turn.items ⟨none, .calls first others⟩).length) rest := by
          apply pairings_empty
          intro raw hraw
          rcases List.mem_cons.mp hraw with rfl | hraw
          · exact hfollow.1.1.not_reasoning
          · rcases hfollow.2 raw hraw with h | h
            · exact h.1.not_reasoning
            · exact h.not_reasoning
        rw [hskip]
        exact .empty hbare hnot rfl
      | cons top below =>
        have hpop : pairings (top :: below) n (Turn.items ⟨none, .calls first others⟩ ++ rest) =
            (n, top) :: pairings below (n + 1) (others ++ rest) := pairings_call hfollow.1
        rw [hpop]
        exact .taken hbare rfl
  | some reasoning =>
    have hreasoning := hkind reasoning rfl
    have hbare : ∀ follower, ¬ Turn.BareCalls ⟨some reasoning, follower⟩ := by
      rintro follower ⟨h, _⟩
      cases h
    cases follower with
    | message item =>
      have hpush : pairings stack n (Turn.items ⟨some reasoning, .message item⟩ ++ rest) =
          pairings (n :: stack) (n + (Turn.items ⟨some reasoning, .message item⟩).length) rest := by
        have hskip : pairings (n :: stack) (n + 1) ([item] ++ rest) =
            pairings (n :: stack) (n + 1 + [item].length) rest := by
          apply pairings_skip
          intro raw hraw
          rw [List.mem_singleton.mp hraw]
          exact ⟨hfollow.2.2, fun h => hfollow.1 h.1⟩
        exact (pairings_reasoning hreasoning).trans hskip
      rw [hpush]
      exact .message ⟨rfl, item, rfl⟩
    | calls first others =>
      have hboth : pairings stack n (Turn.items ⟨some reasoning, .calls first others⟩ ++ rest) =
          (n + 1, n) ::
            pairings stack (n + (Turn.items ⟨some reasoning, .calls first others⟩).length) rest := by
        have hplace : n + (Turn.items ⟨some reasoning, .calls first others⟩).length =
            n + 2 + others.length := by
          simp only [Turn.items, Follower.items, Option.toList_some, List.length_append,
            List.length_cons, List.length_nil]
          omega
        have hskip : pairings stack (n + 2) (others ++ rest) =
            pairings stack (n + 2 + others.length) rest := by
          apply pairings_skip
          intro raw hraw
          have hcall := hsingle rfl first others rfl raw hraw
          rcases hfollow.2 raw hraw with h | h
          · exact absurd h.1 hcall
          · exact ⟨h.not_reasoning, fun hnamed => hcall hnamed.1⟩
        rw [hplace, ← hskip]
        exact (pairings_reasoning hreasoning).trans (pairings_call hfollow.1)
      rw [hboth]
      refine .own ?_ (hbare _)
      rintro ⟨_, _, h⟩
      cases h

/-- In such a history every pair is a reasoning item and the call right behind it. -/
theorem pairings_own (hvalid : ∀ turn ∈ turns, turn.Valid) (hown : OwnReasoning turns)
    (hstack : stack ≠ [] → ∀ turn ∈ turns, ¬ turn.BareCalls)
    (h : (q, r) ∈ pairings stack n (historyOf turns)) : q = r + 1 := by
  induction turns generalizing stack n with
  | nil => cases h
  | cons turn turns ih =>
    obtain ⟨hfirst, hafter⟩ := List.pairwise_cons.mp hown.after
    have hrest := fun stack n => @ih stack n (fun t ht => hvalid t (List.mem_cons_of_mem _ ht))
      ⟨fun t ht => hown.single t (List.mem_cons_of_mem _ ht), hafter⟩
    have hstep := pairings_turn stack n (hvalid turn List.mem_cons_self)
      (hown.single turn List.mem_cons_self) (historyOf turns)
    have hlater : stack ≠ [] → ∀ turn ∈ turns, ¬ turn.BareCalls :=
      fun hne t ht => hstack hne t (List.mem_cons_of_mem _ ht)
    rw [historyOf_cons] at h
    generalize pairings stack n (turn.items ++ historyOf turns) = pairs at h hstep
    cases hstep with
    | message hmessage => exact hrest _ _ (fun _ t ht => hfirst t ht hmessage) h
    | plain _ _ => exact hrest _ _ hlater h
    | own _ _ =>
      rcases List.mem_cons.mp h with h | h
      · cases h
        rfl
      · exact hrest _ _ hlater h
    | empty _ _ _ => exact hrest _ _ (fun hne => absurd rfl hne) h
    | taken hbare heq =>
      rw [heq] at hstack
      exact absurd hbare (hstack (List.cons_ne_nil _ _) turn List.mem_cons_self)

theorem ReasonedMessage.not_bareCalls (h : turn.ReasonedMessage) : ¬ turn.BareCalls := by
  rintro ⟨hnone, _⟩
  have hsome := h.1
  rw [hnone] at hsome
  cases hsome

/-- A call without a reasoning item takes the one that an earlier message has left over. -/
theorem left_over_taken (hvalid : ∀ turn ∈ turns, turn.Valid)
    (hsingle : ∀ turn ∈ turns, turn.SingleCall) (hbare : ∃ turn ∈ turns, turn.BareCalls)
    (top : ℕ) (below : List ℕ) (n : ℕ) : ∃ q r,
      (q, r) ∈ pairings (top :: below) n (historyOf turns) ∧
        (r = top ∨ ∃ turn, (r, turn) ∈ turnsFrom n turns ∧ turn.ReasonedMessage) := by
  induction turns generalizing top below n with
  | nil =>
    obtain ⟨turn, hmem, _⟩ := hbare
    cases hmem
  | cons first turns ih =>
    have hstep := pairings_turn (top :: below) n (hvalid first List.mem_cons_self)
      (hsingle first List.mem_cons_self) (historyOf turns)
    have hrest := ih (fun t ht => hvalid t (List.mem_cons_of_mem _ ht))
      (fun t ht => hsingle t (List.mem_cons_of_mem _ ht))
    have hlater : ¬ first.BareCalls → ∃ turn ∈ turns, turn.BareCalls := by
      intro hnot
      obtain ⟨turn, hmem, hturn⟩ := hbare
      rcases List.mem_cons.mp hmem with rfl | hmem
      · exact absurd hturn hnot
      · exact ⟨turn, hmem, hturn⟩
    rw [historyOf_cons]
    generalize pairings (top :: below) n (first.items ++ historyOf turns) = pairs at hstep ⊢
    cases hstep with
    | message hmessage =>
      obtain ⟨q, r, hpair, heq | ⟨turn, hturn, hkind⟩⟩ :=
        hrest (hlater (ReasonedMessage.not_bareCalls hmessage)) n (top :: below)
          (n + first.items.length)
      · subst heq
        exact ⟨q, r, hpair, .inr ⟨first, List.mem_cons_self, hmessage⟩⟩
      · exact ⟨q, r, hpair, .inr ⟨turn, List.mem_cons_of_mem _ hturn, hkind⟩⟩
    | plain _ hnot =>
      obtain ⟨q, r, hpair, heq | ⟨turn, hturn, hkind⟩⟩ := hrest (hlater hnot) top below
        (n + first.items.length)
      · exact ⟨q, r, hpair, .inl heq⟩
      · exact ⟨q, r, hpair, .inr ⟨turn, List.mem_cons_of_mem _ hturn, hkind⟩⟩
    | own _ hnot =>
      obtain ⟨q, r, hpair, heq | ⟨turn, hturn, hkind⟩⟩ := hrest (hlater hnot) top below
        (n + first.items.length)
      · exact ⟨q, r, List.mem_cons_of_mem _ hpair, .inl heq⟩
      · exact ⟨q, r, List.mem_cons_of_mem _ hpair,
          .inr ⟨turn, List.mem_cons_of_mem _ hturn, hkind⟩⟩
    | empty _ _ hstack => cases hstack
    | taken _ hstack =>
      cases hstack
      exact ⟨n, top, List.mem_cons_self, .inl rfl⟩

/-- Bare calls somewhere behind a message with a reasoning item take one from a message. -/
theorem message_taken (hvalid : ∀ turn ∈ turns, turn.Valid)
    (hsingle : ∀ turn ∈ turns, turn.SingleCall)
    (hafter : ¬ turns.Pairwise fun earlier later => earlier.ReasonedMessage → ¬ later.BareCalls)
    (stack : List ℕ) (n : ℕ) : ∃ q r, (q, r) ∈ pairings stack n (historyOf turns) ∧
      ∃ turn, (r, turn) ∈ turnsFrom n turns ∧ turn.ReasonedMessage := by
  induction turns generalizing stack n with
  | nil => exact absurd List.Pairwise.nil hafter
  | cons first turns ih =>
    have hvalid' : ∀ turn ∈ turns, turn.Valid := fun t ht => hvalid t (List.mem_cons_of_mem _ ht)
    have hsingle' : ∀ turn ∈ turns, turn.SingleCall :=
      fun t ht => hsingle t (List.mem_cons_of_mem _ ht)
    rw [historyOf_cons]
    by_cases hhere : first.ReasonedMessage ∧ ∃ turn ∈ turns, turn.BareCalls
    · obtain ⟨hmessage, hbare⟩ := hhere
      have hstep := pairings_turn stack n (hvalid first List.mem_cons_self)
        (hsingle first List.mem_cons_self) (historyOf turns)
      generalize pairings stack n (first.items ++ historyOf turns) = pairs at hstep ⊢
      cases hstep with
      | message _ =>
        obtain ⟨q, r, hpair, heq | ⟨turn, hturn, hkind⟩⟩ :=
          left_over_taken hvalid' hsingle' hbare n stack (n + first.items.length)
        · subst heq
          exact ⟨q, r, hpair, first, List.mem_cons_self, hmessage⟩
        · exact ⟨q, r, hpair, turn, List.mem_cons_of_mem _ hturn, hkind⟩
      | plain hnot _ => exact absurd hmessage hnot
      | own hnot _ => exact absurd hmessage hnot
      | empty _ hnot _ => exact absurd hmessage hnot
      | taken hbare _ => exact absurd hbare (ReasonedMessage.not_bareCalls hmessage)
    · have htail : ¬ turns.Pairwise fun earlier later =>
          earlier.ReasonedMessage → ¬ later.BareCalls := by
        intro hpairwise
        refine hafter (List.pairwise_cons.mpr ⟨?_, hpairwise⟩)
        intro turn hturn hmessage hbare
        exact hhere ⟨hmessage, turn, hturn, hbare⟩
      obtain ⟨pairs, stack', heq⟩ := pairings_append stack n first.items (historyOf turns)
      obtain ⟨q, r, hpair, turn, hturn, hkind⟩ := ih hvalid' hsingle' htail stack'
        (n + first.items.length)
      rw [heq]
      exact ⟨q, r, List.mem_append_right _ hpair, turn, List.mem_cons_of_mem _ hturn, hkind⟩

end Shape

section Limits

variable {messages : History} {i a : ℕ} {raw : JsonValue} {bases : ℕ → Units} {x : ℚ}

/-- A configuration with a limit and nothing else. -/
def limitConfig (x : ℚ) : ToolCallLimitConfig := ⟨.finite x, .finite 0, .finite 0, false, none⟩

/-- The calls of a history, in their order. -/
def allCalls (messages : History) : List ℕ := ordered messages (limitConfig 0)

theorem ordered_limitConfig (messages : History) (x : ℚ) :
    ordered messages (limitConfig x) = allCalls messages := rfl

theorem mem_allCalls (hraw : messages[i]? = some raw) (hcall : isNamedCall raw) :
    i ∈ allCalls messages := by
  obtain ⟨entry, hentry, hindex⟩ := mem_callIndexes.mp
    ((collected messages).complete i raw hraw hcall.1 hcall.2)
  exact mem_ordered.mpr ⟨entry, hentry, hindex, ((collected messages).sourced entry hentry).fresh⟩

theorem budgetCount_limitConfig : IsBudgetCount messages (limitConfig x) bases 0 where
  le := Nat.zero_le _
  met := .inr fun _ hmost => nomatch hmost
  least j hj := absurd hj (Nat.not_lt_zero j)

theorem trims_limitConfig (hi : i ∈ allCalls messages) : Trims messages (limitConfig x) bases i ↔
    i ∈ (allCalls messages).take (limitCount (allCalls messages) (.finite x)) := by
  rw [trims_iff budgetCount_limitConfig, ordered_limitConfig]
  constructor
  · rintro (h | h)
    · exact absurd hi h
    · exact h
  · exact .inr

/-- An increasing list is what does not exceed a bound and then what does. -/
theorem filter_split {l : List ℕ} (h : l.Pairwise (· < ·)) (a : ℕ) :
    l = l.filter (· ≤ a) ++ l.filter (a < ·) := by
  induction l with
  | nil => rfl
  | cons b l ih =>
    obtain ⟨hfirst, hrest⟩ := List.pairwise_cons.mp h
    by_cases hb : b ≤ a
    · rw [List.filter_cons_of_pos (by simpa using hb), List.filter_cons_of_neg (by simpa using hb),
        List.cons_append, ← ih hrest]
    · have hnone : (b :: l).filter (· ≤ a) = [] := by
        rw [List.filter_eq_nil_iff]
        intro c hc
        rcases List.mem_cons.mp hc with rfl | hc
        · simpa using hb
        · have := hfirst c hc
          simp only [decide_eq_true_eq]
          omega
      have hall : (b :: l).filter (a < ·) = b :: l := by
        rw [List.filter_eq_self]
        intro c hc
        rcases List.mem_cons.mp hc with rfl | hc
        · simpa using hb
        · have := hfirst c hc
          simp only [decide_eq_true_eq]
          omega
      rw [hnone, hall, List.nil_append]

/-- The limit that keeps the calls behind one of them, and no other. -/
theorem exists_limit (ha : a ∈ allCalls messages) (hi : i ∈ allCalls messages) (hlt : a < i)
    (bases : ℕ → Units) : ∃ x, Trims messages (limitConfig x) bases a ∧
      ¬ Trims messages (limitConfig x) bases i := by
  have hpairwise := ordered_pairwise messages (limitConfig 0)
  have hsplit := filter_split hpairwise a
  rw [ordered_limitConfig] at hpairwise hsplit
  have hhigh : i ∈ (allCalls messages).filter (a < ·) :=
    List.mem_filter.mpr ⟨hi, by simpa using hlt⟩
  have hlow : a ∈ (allCalls messages).filter (· ≤ a) := List.mem_filter.mpr ⟨ha, by simp⟩
  have hpos := List.length_pos_of_mem hhigh
  have hpos' := List.length_pos_of_mem hlow
  have hlength := congrArg List.length hsplit
  rw [List.length_append] at hlength
  set low := (allCalls messages).filter (· ≤ a) with hlowdef
  set high := (allCalls messages).filter (a < ·) with hhighdef
  have hcount : limitCount (allCalls messages) (.finite high.length) = low.length := by
    have habove : (ConfigNumber.finite (high.length : ℚ)).above 0 = true := by
      simp only [ConfigNumber.above, decide_eq_true_eq]
      exact_mod_cast hpos
    have hbelow : (ConfigNumber.finite (high.length : ℚ)).below (allCalls messages).length =
        true := by
      simp only [ConfigNumber.below, decide_eq_true_eq]
      exact_mod_cast (by omega : high.length < (allCalls messages).length)
    unfold limitCount
    rw [habove, hbelow, Bool.and_self, if_pos rfl]
    simp only [ConfigNumber.excess]
    rw [hlength, Nat.cast_add, add_sub_cancel_right, Int.ceil_natCast, Int.toNat_natCast]
  refine ⟨high.length, ?_, ?_⟩
  · rw [trims_limitConfig ha, hcount, hsplit, List.take_left']
    · exact hlow
    · rfl
  · rw [trims_limitConfig hi, hcount, hsplit, List.take_left' rfl]
    intro hmem
    have hle := (List.mem_filter.mp hmem).2
    simp only [decide_eq_true_eq] at hle
    omega

/-- A limit below one call keeps none. -/
theorem trims_half (bases : ℕ → Units) (i : ℕ) :
    Trims messages (limitConfig (1 / 2)) bases i := by
  by_cases hi : i ∈ allCalls messages
  · rw [trims_limitConfig hi]
    have hpos := List.length_pos_of_mem hi
    have habove : (ConfigNumber.finite (1 / 2)).above 0 = true := by decide +kernel
    have hbelow : (ConfigNumber.finite (1 / 2)).below (allCalls messages).length = true := by
      simp only [ConfigNumber.below, decide_eq_true_eq]
      have hone : (1 : ℚ) ≤ ((allCalls messages).length : ℚ) := by exact_mod_cast hpos
      linarith
    have hcount : limitCount (allCalls messages) (.finite (1 / 2)) =
        (allCalls messages).length := by
      unfold limitCount
      rw [habove, hbelow, Bool.and_self, if_pos rfl]
      simp only [ConfigNumber.excess]
      have hceil : ⌈((allCalls messages).length : ℚ) - 1 / 2⌉ = (allCalls messages).length := by
        rw [Int.ceil_eq_iff]
        constructor
        · push_cast
          linarith
        · push_cast
          linarith
      rw [hceil, Int.toNat_natCast]
    rw [hcount, List.take_length]
    exact hi
  · exact ⟨0, budgetCount_limitConfig, .inl hi⟩

end Limits

section Separation

variable {turns : List Turn}

theorem reasoning_some {turn : Turn} (h : turn.reasoning.isSome = true) :
    ∃ reasoning, turn.reasoning = some reasoning := Option.isSome_iff_exists.mp h

def sampleReasoning (id : String) : JsonValue := sampleItem [("type", "reasoning"), ("id", id)]

def ownTurn : Turn :=
  ⟨some (sampleReasoning "r"), .calls (sampleCall "a" "bash" "ls") [sampleOutput "a"]⟩

/-- Two parallel calls behind one reasoning item. -/
def parallelTurn : Turn :=
  ⟨some (sampleReasoning "r"), .calls (sampleCall "a" "bash" "ls")
    [sampleCall "b" "bash" "pwd", sampleOutput "a", sampleOutput "b"]⟩

theorem valid_ownTurn : ∀ turn ∈ [ownTurn], turn.Valid := by
  intro turn hturn
  rw [List.mem_singleton.mp hturn]
  refine ⟨?_, by decide +kernel, ?_⟩
  · rintro raw ⟨⟩
    decide +kernel
  · intro raw hraw
    rw [List.mem_singleton.mp hraw]
    decide +kernel

theorem valid_parallelTurn : ∀ turn ∈ [parallelTurn], turn.Valid := by
  intro turn hturn
  rw [List.mem_singleton.mp hturn]
  refine ⟨?_, by decide +kernel, ?_⟩
  · rintro raw ⟨⟩
    decide +kernel
  · decide +kernel

end Separation

end Piclaw.ToolCallLimit
