import Piclaw.Transactions
import Piclaw.Values

/-!
# Committed goal usage

The tokens of committed assistant entries are added to the goal that they worked for. One cursor for
each conversation says up to which entry this is done; a batch of receipts moves it on in one
transaction. The goal's status and generation may change between batches, and a budget may end in
the middle of one.
-/

namespace Piclaw.GoalUsage
open Relational

section Model

inductive GoalStatus where
  | active
  | budgetLimited
  | complete
  | stopped
  | other (name : String)
  deriving DecidableEq

structure Goal where
  goalId : String
  lifecycleGeneration : ℕ
  status : GoalStatus
  deriving DecidableEq

structure Budget where
  operationId : String
  generation : ℕ
  deriving DecidableEq

structure Cursor where
  entryId : ℕ
  tokens : ℕ
  goalId : String
  acceptedGeneration : Option ℕ
  budget : Option Budget
  deriving DecidableEq

structure BudgetSource where
  operationId : String
  conversationId : ℕ
  deriving DecidableEq

structure TerminalProof where
  goalId : String
  generation : ℕ
  status : GoalStatus
  deriving DecidableEq

structure GoalIdentity where
  goalId : String
  generation : ℕ
  deriving DecidableEq

structure InputDecision where
  handled : Bool
  text : Option String
  deriving DecidableEq

/-- The goal add-on. Accounting progress answers the goal as it is afterwards, or throws. -/
structure GoalAddon where
  goalInputIdentity : String → Option GoalIdentity
  isGoalBudgetInput : String → Bool
  resolveGoalInput : String → Option Goal → InputDecision
  accountGoalProgress : Goal → ℕ → Option Goal
  accountTerminalGoalProgress : Option (Goal → TerminalProof → ℕ → Option Goal)

structure Receipt where
  conversationId : ℕ
  entryId : ℕ
  tokens : ℕ
  deriving DecidableEq

/-- One chat: its goal, the cursors of its conversations and the tokens added to each goal. -/
structure GoalState where
  goal : Option Goal
  cursors : ℕ → Option Cursor
  added : String → ℕ

/-- `revoked` is what `assertCurrent` throws; it cannot change while a call runs. -/
structure KvAuthority where
  extensionId : String
  revoked : Option String
  deriving DecidableEq

structure BatchCall where
  authority : KvAuthority
  texts : List String
  receipts : List Receipt
  terminalProof : Option TerminalProof
  source : Option BudgetSource
  deriving DecidableEq

def positive (n : ℕ) : Bool := decide (0 < n) && decide (n ≤ maxSafeInteger)

def GoalState.setCursor (s : GoalState) (conversationId : ℕ) (cursor : Cursor) : GoalState :=
  { s with cursors := fun c => if c = conversationId then some cursor else s.cursors c }

variable (A : GoalAddon)

def isGoalBudgetWrapup (s : GoalState) (texts : List String) (source : BudgetSource) : Bool :=
  positive source.conversationId && decide (source.operationId ≠ "") &&
    match s.goal, texts.mapM A.goalInputIdentity with
    | some goal, some (identity :: others) =>
      decide (goal.status = .budgetLimited) && decide (identity.goalId = goal.goalId) &&
        others.all (fun other => decide (other = identity)) &&
        ((decide (identity.generation = goal.lifecycleGeneration) && texts.all fun text =>
            let decision := A.resolveGoalInput text s.goal
            !decision.handled && A.isGoalBudgetInput (decision.text.getD text)) ||
          (decide (goal.lifecycleGeneration = identity.generation + 1) &&
            (s.cursors source.conversationId).any fun cursor =>
              decide (cursor.goalId = goal.goalId) &&
                decide (cursor.acceptedGeneration = some identity.generation) &&
                decide (cursor.budget = some ⟨source.operationId, goal.lifecycleGeneration⟩)))
    | _, _ => false

def terminalFor (goal : Goal) (proof : TerminalProof) : Bool :=
  decide (goal.goalId = proof.goalId) && decide (goal.lifecycleGeneration = proof.generation) &&
    decide (goal.status = proof.status) &&
    (decide (proof.status = .complete) || decide (proof.status = .stopped))

/-- Progress at the goal, as one of the add-on's two functions accounts it. -/
def progressed (goal : Goal) (tokens : ℕ) : Option TerminalProof → Except String Goal
  | none => require "Goal progress refused" (A.accountGoalProgress goal tokens)
  | some proof => do
    let account ← require "Terminal Goal accounting export required" A.accountTerminalGoalProgress
    require "Goal progress refused" (account goal proof tokens)

/-- The goal is not the one that the entry was committed for, or is in no state to be accounted. -/
def lifecycleChanged (goal : Goal) (goalId : String) (generation : ℕ)
    (terminalProof : Option TerminalProof) : Bool :=
  decide (goal.goalId ≠ goalId) || decide (goal.lifecycleGeneration ≠ generation) ||
    match terminalProof with
    | some proof => !terminalFor goal proof
    | none => decide (goal.status ≠ .active) && decide (goal.status ≠ .budgetLimited)

def accountCommittedGoalEntry (authority : KvAuthority) (goalId : String) (generation : ℕ)
    (receipt : Receipt) (terminalProof : Option TerminalProof) (s : GoalState) :
    Except String (Bool × GoalState) :=
  if authority.extensionId ≠ "goal" ∨ goalId = "" ∨ positive generation = false ∨
      positive receipt.conversationId = false ∨ positive receipt.entryId = false ∨
      maxSafeInteger < receipt.tokens then .error "Invalid committed Goal usage"
  else
    match authority.revoked, s.goal with
    | some message, _ => .error message
    | none, none => .error "Goal usage lifecycle changed"
    | none, some goal =>
      if lifecycleChanged goal goalId generation terminalProof then
        .error "Goal usage lifecycle changed"
      else
        let prior := (s.cursors receipt.conversationId).filter fun c => decide (c.goalId = goalId)
        if prior.any fun c => decide (receipt.entryId < c.entryId) then
          .error "Goal usage entries out of order"
        else if prior.any fun c => decide (receipt.entryId = c.entryId) then
          if prior.any fun c => decide (receipt.tokens ≠ c.tokens) then
            .error "Committed Goal usage changed"
          else .ok (false, s)
        else do
          let next ← progressed A goal receipt.tokens terminalProof
          .ok (true, { s with
            goal := some next
            added := fun id => s.added id + if id = goalId then receipt.tokens else 0
            : GoalState }.setCursor receipt.conversationId
              ⟨receipt.entryId, receipt.tokens, goalId, none, none⟩)

structure BatchProgress where
  previous : ℕ
  conversation : Option ℕ
  applied : ℕ
  state : GoalState

/-- The cursor that a batch leaves after it applied a receipt. -/
def nextBudget (source : Option BudgetSource) (identity : GoalIdentity) (goalId : String)
    (current next : Goal) (cursor : Option Cursor) : Option Budget :=
  match source with
  | some source =>
    if current.status = .active ∧ next.status = .budgetLimited ∧
        next.lifecycleGeneration = identity.generation + 1 then
      some ⟨source.operationId, next.lifecycleGeneration⟩
    else (cursor.filter fun c => decide (c.goalId = goalId)).bind Cursor.budget
  | none => (cursor.filter fun c => decide (c.goalId = goalId)).bind Cursor.budget

/-- One receipt of a batch for the goal `goalId`, accepted under `identity`. -/
def batchReceipt (call : BatchCall) (identity : GoalIdentity) (goalId : String) (replayOnly : Bool)
    (p : BatchProgress) (receipt : Receipt) : Except String BatchProgress :=
  if positive receipt.entryId = false ∨ positive receipt.conversationId = false ∨
      maxSafeInteger < receipt.tokens then .error "Invalid committed Goal usage"
  else if receipt.entryId ≤ p.previous ∨
      p.conversation.any (fun c => decide (receipt.conversationId ≠ c)) then
    .error "Goal usage batch out of order"
  else if call.source.any fun source => decide (receipt.conversationId ≠ source.conversationId) then
    .error "Goal usage source conversation changed"
  else
    let seen : BatchProgress :=
      { p with previous := receipt.entryId, conversation := some receipt.conversationId }
    let cursor := p.state.cursors receipt.conversationId
    if replayOnly then
      if cursor.any fun c => decide (c.goalId = goalId) &&
          decide (c.acceptedGeneration = some identity.generation) &&
          decide (receipt.entryId ≤ c.entryId) &&
          (decide (receipt.entryId ≠ c.entryId) || decide (receipt.tokens = c.tokens)) then .ok seen
      else .error "Goal usage lifecycle changed"
    else if cursor.any fun c => decide (c.goalId = goalId) &&
        decide (receipt.entryId < c.entryId) then .ok seen
    else
      match p.state.goal with
      | none => .error "Goal is null"
      | some current => do
        let (applied, s) ← accountCommittedGoalEntry A call.authority goalId
          current.lifecycleGeneration receipt call.terminalProof p.state
        if applied then
          let next := s.goal.getD current
          .ok { seen with
            applied := p.applied + 1
            state := s.setCursor receipt.conversationId
              ⟨receipt.entryId, receipt.tokens, goalId, some identity.generation,
                nextBudget call.source identity goalId current next cursor⟩ }
        else .ok { seen with state := s }

def accountCommittedGoalBatch (call : BatchCall) (s : GoalState) :
    Except String (ℕ × GoalState) :=
  match call.authority.revoked with
  | some message => .error message
  | none =>
    match call.texts.mapM A.goalInputIdentity with
    | none | some [] => .error "Explicit accepted Goal identity required"
    | some (identity :: others) =>
      if others.any fun other => decide (other ≠ identity) then
        .error "Conflicting accepted Goal identities"
      else
        match s.goal with
        | none => .error "Goal usage lifecycle changed"
        | some goal =>
          let terminal := call.terminalProof.any fun proof =>
            decide (proof.generation = identity.generation + 1) && terminalFor goal proof
          let budgetWrapup := call.source.any (isGoalBudgetWrapup A s call.texts)
          let replayOnly := !budgetWrapup && decide (goal.status = .budgetLimited) &&
            decide (goal.lifecycleGeneration = identity.generation + 1)
          if goal.goalId ≠ identity.goalId ∨ (call.terminalProof.isSome ∧ terminal = false) ∨
              (terminal = false ∧ replayOnly = false ∧ budgetWrapup = false ∧
                (goal.lifecycleGeneration ≠ identity.generation ∨ goal.status ≠ .active)) then
            .error "Goal usage lifecycle changed"
          else do
            let p ← call.receipts.foldlM (batchReceipt A call identity goal.goalId replayOnly)
              ⟨0, none, 0, s⟩
            .ok (p.applied, p.state)

end Model

end Piclaw.GoalUsage
