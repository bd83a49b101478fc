import Piclaw.ToolCallReasoning

/-!
# Turns and their reasoning items

A history made of turns: a reasoning item, or none, and then a message or parallel calls with their
outputs. The first call of a turn takes the turn's reasoning item, and every further call, like a
call of a turn without one, takes what an earlier message has left over.
-/

namespace Piclaw.ToolCallLimit

open CanonicalText

section Turns

/-- What follows the reasoning item of a turn. -/
inductive Follower
  | message (item : JsonValue)
  | calls (first : JsonValue) (rest : History)

def Follower.items : Follower → History
  | .message item => [item]
  | .calls first rest => first :: rest

structure Turn where
  reasoning : Option JsonValue
  follower : Follower

def Turn.items (turn : Turn) : History := turn.reasoning.toList ++ turn.follower.items

/-- A call that the collection takes up. -/
def isNamedCall (raw : JsonValue) : Prop := isCall raw ∧ callId raw ≠ []

instance : DecidablePred isNamedCall := fun _ => inferInstanceAs (Decidable (_ ∧ _))

def Follower.Valid : Follower → Prop
  | .message item => ¬ isCall item ∧ ¬ isOutput item ∧ ¬ isReasoning item
  | .calls first rest => isNamedCall first ∧ ∀ raw ∈ rest, isNamedCall raw ∨ isOutput raw

structure Turn.Valid (turn : Turn) : Prop where
  reasoning : ∀ raw, turn.reasoning = some raw → isReasoning raw
  follower : turn.follower.Valid

def historyOf (turns : List Turn) : History := turns.flatMap Turn.items

/-- The turns with the index of the first item of each. -/
def turnsFrom (n : ℕ) : List Turn → List (ℕ × Turn)
  | [] => []
  | turn :: turns => (n, turn) :: turnsFrom (n + turn.items.length) turns

variable {turns : List Turn} {turn : Turn} {n o i : ℕ} {config : ToolCallLimitConfig}
  {bases : ℕ → Units} {reasoning : JsonValue}

theorem historyOf_cons (turn : Turn) (turns : List Turn) :
    historyOf (turn :: turns) = turn.items ++ historyOf turns := rfl

theorem turnsFrom_split (h : (o, turn) ∈ turnsFrom n turns) : ∃ front back : History,
    historyOf turns = front ++ turn.items ++ back ∧ o = n + front.length := by
  induction turns generalizing n with
  | nil => cases h
  | cons first turns ih =>
    rcases List.mem_cons.mp h with h | h
    · cases h
      exact ⟨[], historyOf turns, rfl, rfl⟩
    · obtain ⟨front, back, hsplit, hplace⟩ := ih h
      refine ⟨first.items ++ front, back, ?_, ?_⟩
      · rw [historyOf_cons, hsplit]
        simp only [List.append_assoc]
      · rw [hplace, List.length_append]
        omega

theorem mem_turns (h : (o, turn) ∈ turnsFrom n turns) : turn ∈ turns := by
  induction turns generalizing n with
  | nil => cases h
  | cons first turns ih =>
    rcases List.mem_cons.mp h with h | h
    · cases h
      exact List.mem_cons_self
    · exact List.mem_cons_of_mem _ (ih h)

theorem exists_turn_place (h : turn ∈ turns) (n : ℕ) : ∃ o, (o, turn) ∈ turnsFrom n turns := by
  induction turns generalizing n with
  | nil => cases h
  | cons first turns ih =>
    rcases List.mem_cons.mp h with rfl | h
    · exact ⟨n, List.mem_cons_self⟩
    · obtain ⟨o, hplace⟩ := ih h (n + first.items.length)
      exact ⟨o, List.mem_cons_of_mem _ hplace⟩

/-- The first item of a turn's follower that the result holds. -/
structure FirstKept (messages : History) (config : ToolCallLimitConfig) (bases : ℕ → Units)
    (o n : ℕ) (f : ℕ) : Prop where
  above : o < f
  le : f ≤ o + n
  retained : Retained messages config bases f
  first : ∀ j, o < j → j < f → ¬ Retained messages config bases j

/-- A call of a turn whose reasoning item is at `o` and whose follower has `n` items. -/
structure CallOf (messages : History) (o n i : ℕ) : Prop where
  above : o < i
  le : i ≤ o + n
  call : ∃ raw, messages[i]? = some raw ∧ isCall raw

/-- A turn with a reasoning item at `o` is not separated from it. -/
structure KeepsReasoning (messages : History) (config : ToolCallLimitConfig) (bases : ℕ → Units)
    (o : ℕ) (follower : Follower) : Prop where
  before : (∃ i, CallOf messages o follower.items.length i ∧ Retained messages config bases i) ∨
      (∃ item, follower = .message item) →
    ∃ f, FirstKept messages config bases o follower.items.length f ∧
      Adjacent (layout messages config bases) o f
  removed : ¬ Retained messages config bases o →
    ∀ i, CallOf messages o follower.items.length i → ¬ Retained messages config bases i

/-- No turn is separated from its reasoning item. -/
def KeepsAllReasoning (turns : List Turn) (config : ToolCallLimitConfig) (bases : ℕ → Units) :
    Prop :=
  ∀ o turn, (o, turn) ∈ turnsFrom 0 turns → turn.reasoning.isSome = true →
    KeepsReasoning (historyOf turns) config bases o turn.follower

/-- What one turn asks of the calls that are trimmed. -/
def TrimsTogether (messages : History) (config : ToolCallLimitConfig) (bases : ℕ → Units) (o : ℕ) :
    Follower → Prop
  | .message _ => ∀ q, (q, o) ∈ historyPairings messages → ¬ Trims messages config bases q
  | .calls first rest => Trims messages config bases (o + 1) →
      ∀ i, CallOf messages o (first :: rest).length i → Trims messages config bases i

/-- The items of a turn with a reasoning item, in the history. -/
theorem turn_getElem? (h : (o, turn) ∈ turnsFrom 0 turns) (hreasoning : turn.reasoning = some reasoning) :
    (historyOf turns)[o]? = some reasoning ∧
      ∀ m, m < turn.follower.items.length →
        (historyOf turns)[o + 1 + m]? = turn.follower.items[m]? := by
  obtain ⟨front, back, hsplit, hplace⟩ := turnsFrom_split h
  rw [Nat.zero_add] at hplace
  subst hplace
  have hitems : turn.items = reasoning :: turn.follower.items := by
    rw [Turn.items, hreasoning]
    rfl
  rw [hsplit, hitems, List.append_assoc]
  constructor
  · rw [List.getElem?_append_right le_rfl, Nat.sub_self]
    rfl
  · intro m hm
    rw [List.getElem?_append_right (by omega),
      show front.length + 1 + m - front.length = m + 1 by omega, List.cons_append,
      List.getElem?_cons_succ, List.getElem?_append_left hm]

/-- The first call of a turn takes the turn's reasoning item. -/
theorem pairing_of_turn (h : (o, turn) ∈ turnsFrom 0 turns) (hvalid : turn.Valid)
    (hreasoning : turn.reasoning = some reasoning) {first : JsonValue} {rest : History}
    (hfollower : turn.follower = .calls first rest) :
    (o + 1, o) ∈ historyPairings (historyOf turns) := by
  obtain ⟨front, back, hsplit, hplace⟩ := turnsFrom_split h
  have hfirst : isNamedCall first := by
    have hfollow := hvalid.follower
    rw [hfollower] at hfollow
    exact hfollow.1
  have hnext := @pairings_next [] 0 front (rest ++ back) reasoning first
    (hvalid.reasoning reasoning hreasoning) hfirst.1 hfirst.2
  rw [← hplace] at hnext
  unfold historyPairings
  rw [hsplit, Turn.items, hreasoning, hfollower]
  simpa [Follower.items] using hnext

/-- A call of a turn is one that the collection takes up. -/
theorem CallOf.named (h : (o, turn) ∈ turnsFrom 0 turns) (hvalid : turn.Valid)
    (hreasoning : turn.reasoning = some reasoning)
    (hcall : CallOf (historyOf turns) o turn.follower.items.length i) :
    ∃ raw, (historyOf turns)[i]? = some raw ∧ isNamedCall raw := by
  obtain ⟨raw, hraw, hkind⟩ := hcall.call
  obtain ⟨m, rfl⟩ : ∃ m, i = o + 1 + m := ⟨i - (o + 1), by have := hcall.above; omega⟩
  have hm : m < turn.follower.items.length := by
    have := hcall.le
    omega
  have hitem := (turn_getElem? h hreasoning).2 m hm
  rw [hraw] at hitem
  refine ⟨raw, hraw, ?_⟩
  have hfollow := hvalid.follower
  cases hfollower : turn.follower with
  | message item =>
    rw [hfollower] at hfollow hitem
    have hmem : raw ∈ [item] := List.mem_of_getElem? hitem.symm
    rw [List.mem_singleton.mp hmem] at hkind
    exact absurd hkind hfollow.1
  | calls first rest =>
    rw [hfollower] at hfollow hitem
    rcases List.mem_cons.mp (List.mem_of_getElem? hitem.symm) with rfl | hrest
    · exact hfollow.1
    · rcases hfollow.2 raw hrest with hnamed | houtput
      · exact hnamed
      · exact absurd houtput hkind.not_output

theorem retained_next (h : Retained (historyOf turns) config bases (o + 1)) (hpos : 0 < n) :
    FirstKept (historyOf turns) config bases o n (o + 1) where
  above := Nat.lt_succ_self o
  le := by omega
  retained := h
  first j hlow hhigh := absurd hhigh (by omega)

/-- A turn keeps its reasoning item exactly when the calls that are trimmed respect the turn. -/
theorem keepsReasoning_iff (hunrelated : UnrelatedIds (historyOf turns))
    (h : (o, turn) ∈ turnsFrom 0 turns) (hvalid : turn.Valid)
    (hreasoning : turn.reasoning = some reasoning) :
    KeepsReasoning (historyOf turns) config bases o turn.follower ↔
      TrimsTogether (historyOf turns) config bases o turn.follower := by
  obtain ⟨hat, hitems⟩ := turn_getElem? h hreasoning
  have hretained := @retained_reasoning_iff _ config bases o reasoning hunrelated hat
    (hvalid.reasoning reasoning hreasoning)
  have hnamed : ∀ i, CallOf (historyOf turns) o turn.follower.items.length i →
      (Retained (historyOf turns) config bases i ↔ ¬ Trims (historyOf turns) config bases i) := by
    intro i hcall
    obtain ⟨raw, hraw, hkind⟩ := hcall.named h hvalid hreasoning
    exact retained_call_iff hraw hkind.1 hkind.2
  have hfollow := hvalid.follower
  cases hfollower : turn.follower with
  | message item =>
    rw [hfollower] at hfollow hitems hnamed
    have hmessage : (historyOf turns)[o + 1]? = some item := hitems 0 Nat.zero_lt_one
    have hstays : Retained (historyOf turns) config bases (o + 1) :=
      retained_other hmessage hfollow.1 hfollow.2.1 hfollow.2.2
    rw [TrimsTogether, ← hretained]
    constructor
    · intro hkeeps
      obtain ⟨f, _, p, hp, _⟩ := hkeeps.before (.inr ⟨item, rfl⟩)
      exact List.mem_of_getElem? hp
    · intro hkept
      refine ⟨fun _ => ⟨o + 1, retained_next hstays Nat.zero_lt_one,
        adjacent_of_retained hkept hstays⟩, fun hnot => absurd hkept hnot⟩
  | calls first rest =>
    rw [hfollower] at hfollow hitems hnamed
    have hfirst : (historyOf turns)[o + 1]? = some first := hitems 0 (Nat.succ_pos _)
    have hcall : CallOf (historyOf turns) o (first :: rest).length (o + 1) :=
      ⟨Nat.lt_succ_self o, by rw [List.length_cons]; omega, first, hfirst, hfollow.1.1⟩
    have hpair := pairing_of_turn h hvalid hreasoning hfollower
    have hown : Retained (historyOf turns) config bases o ↔
        ¬ Trims (historyOf turns) config bases (o + 1) := by
      rw [hretained]
      constructor
      · exact fun hall => hall (o + 1) hpair
      · intro hnot q hq
        rw [historyPairings_unique hq hpair]
        exact hnot
    rw [TrimsTogether]
    constructor
    · intro hkeeps htrims i hi
      by_contra hkept
      exact hkeeps.removed (fun hstays => hown.mp hstays htrims) i hi ((hnamed i hi).mpr hkept)
    · intro htogether
      constructor
      · rintro (⟨i, hi, hkept⟩ | ⟨item, hitem⟩)
        · have hnot : ¬ Trims (historyOf turns) config bases (o + 1) := fun htrims =>
            (hnamed i hi).mp hkept (htogether htrims i hi)
          have hstays := (hnamed (o + 1) hcall).mpr hnot
          exact ⟨o + 1, retained_next hstays (Nat.succ_pos _),
            adjacent_of_retained (hown.mpr hnot) hstays⟩
        · cases hitem
      · intro hgone i hi hkept
        have htrims : Trims (historyOf turns) config bases (o + 1) := by
          by_contra hnot
          exact hgone (hown.mpr hnot)
        exact (hnamed i hi).mp hkept (htogether htrims i hi)

end Turns

end Piclaw.ToolCallLimit
