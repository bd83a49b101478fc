import Mathlib
import Piclaw.OrderedMap

/-!
# The progress watchdog and the UI prompt extension

Tracked phases by chat, with the suspension that an open UI prompt puts on a phase. Each session
of a chat has its own instance of the extension, which counts its prompts in `promptDepth`. The
abort that a scan requests is a promise: it runs, completes or fails after the scan returned.
-/

namespace Piclaw

inductive WatchdogPhase
  | prepromptCompaction
  | prompt
  | streaming
  | toolExecution
  | recovery
  deriving DecidableEq

inductive UiPromptKind
  | select
  | confirm
  | input
  | editor
  | custom
  deriving DecidableEq

inductive MetadataValue
  | null
  | flag (value : Bool)
  | number (value : ℚ)
  | text (value : String)
  | other
  deriving DecidableEq

abbrev WatchdogMetadata := OrderedMap String MetadataValue

/-- `Number(value)`, `none` where it is not finite. How a text reads as a number is a parameter. -/
def MetadataValue.toNumber (textNumber : String → Option ℚ) : MetadataValue → Option ℚ
  | .null => some 0
  | .flag value => some (if value then 1 else 0)
  | .number value => some value
  | .text value => textNumber value
  | .other => none

def WatchdogMetadata.spread (first second : WatchdogMetadata) : WatchdogMetadata :=
  second.entries.foldl (fun merged field => merged.set field.1 field.2) first

structure WatchdogSuspension where
  startedAt : ℕ
  kind : UiPromptKind
  title : Option String
  deriving DecidableEq

structure WatchdogEntry (χ : Type) where
  chatJid : χ
  phase : WatchdogPhase
  startedAt : ℕ
  lastProgressAt : ℕ
  metadata : Option WatchdogMetadata
  suspension : Option WatchdogSuspension
  stallReported : Bool
  abortAttempted : Bool
  deriving DecidableEq

structure WatchdogStall (χ : Type) where
  chatJid : χ
  phase : WatchdogPhase
  startedAt : ℕ
  lastProgressAt : ℕ
  metadata : Option WatchdogMetadata
  ageMs : ℕ
  timeoutMs : ℕ
  requestAgeMs : ℕ
  providerEventObserved : Bool
  deriving DecidableEq

/-- The promise chain of one stall: `called` once its first step has run the aborter. -/
structure AbortRequest (χ α : Type) where
  aborter : α
  stall : WatchdogStall χ
  called : Bool
  deriving DecidableEq

inductive WatchdogEffect (χ α : Type)
  | stalled (now : ℕ) (stall : WatchdogStall χ)
  | aborterCalled (aborter : α) (stall : WatchdogStall χ)
  | terminated (stall : WatchdogStall χ)
  deriving DecidableEq

def WatchdogEffect.stall {χ α : Type} : WatchdogEffect χ α → WatchdogStall χ
  | .stalled _ stall => stall
  | .aborterCalled _ stall => stall
  | .terminated stall => stall

structure Watchdog (χ ι α : Type) where
  activeByChat : OrderedMap χ (WatchdogEntry χ)
  abortersByChat : OrderedMap χ α
  abortRequests : List (AbortRequest χ α)
  promptDepth : ι → ℕ

namespace Watchdog
variable {χ ι α : Type}

def initial : Watchdog χ ι α := ⟨.empty, .empty, [], fun _ => 0⟩

section Phases
variable [DecidableEq χ]

def beginTrackedPhase (w : Watchdog χ ι α) (chatJid : χ) (phase : WatchdogPhase)
    (metadata : Option WatchdogMetadata) (now : ℕ) : Watchdog χ ι α :=
  { w with
    activeByChat := w.activeByChat.set chatJid
      { chatJid
        phase
        startedAt := now
        lastProgressAt := now
        metadata
        suspension := none
        stallReported := false
        abortAttempted := false } }

def suspendTrackedPhase (w : Watchdog χ ι α) (chatJid : χ) (kind : UiPromptKind)
    (title : Option String) (now : ℕ) : Watchdog χ ι α :=
  match w.activeByChat.get chatJid with
  | none => w
  | some current =>
    if current.suspension.isSome then w
    else
      { w with
        activeByChat := w.activeByChat.set chatJid
          { current with suspension := some ⟨now, kind, title⟩ } }

def resumeTrackedPhase (w : Watchdog χ ι α) (chatJid : χ) (now : ℕ) : Watchdog χ ι α :=
  match w.activeByChat.get chatJid with
  | none => w
  | some current =>
    if current.suspension.isSome then
      { w with
        activeByChat := w.activeByChat.set chatJid
          { current with
            suspension := none
            lastProgressAt := now
            stallReported := false
            abortAttempted := false } }
    else w

def heartbeatTrackedPhase (w : Watchdog χ ι α) (chatJid : χ) (phase : Option WatchdogPhase)
    (metadata : Option WatchdogMetadata) (now : ℕ) : Watchdog χ ι α :=
  match w.activeByChat.get chatJid with
  | none =>
    match phase with
    | none => w
    | some phase => w.beginTrackedPhase chatJid phase metadata now
  | some current =>
    if current.suspension.isSome then w
    else
      { w with
        activeByChat := w.activeByChat.set chatJid
          { current with
            phase := phase.getD current.phase
            lastProgressAt := now
            metadata := match metadata with
              | none => current.metadata
              | some fields => some ((current.metadata.getD .empty).spread fields)
            stallReported := false } }

def endTrackedPhase (w : Watchdog χ ι α) (chatJid : χ) : Watchdog χ ι α :=
  { w with
    activeByChat := w.activeByChat.delete chatJid
    abortersByChat := w.abortersByChat.delete chatJid }

def registerProgressWatchdogAborter (w : Watchdog χ ι α) (chatJid : χ) (aborter : α) :
    Watchdog χ ι α :=
  { w with abortersByChat := w.abortersByChat.set chatJid aborter }

/-- The function that a registration returns. -/
def unregisterProgressWatchdogAborter [DecidableEq α] (w : Watchdog χ ι α) (chatJid : χ)
    (aborter : α) : Watchdog χ ι α :=
  if w.abortersByChat.get chatJid = some aborter then
    { w with abortersByChat := w.abortersByChat.delete chatJid }
  else w

end Phases

section Scan

def providerEventObserved (metadata : Option WatchdogMetadata) : Bool :=
  match metadata with
  | none => false
  | some fields => fields.get "providerEventObserved" = some (.flag true)

variable (textNumber : String → Option ℚ)

def getEffectiveEntryTimeoutMs (entry : WatchdogEntry χ) (defaultTimeoutMs : ℕ) : ℕ :=
  let initialResponseGraceMs : Option ℚ :=
    ((entry.metadata.bind (fun fields => fields.get "initialProviderResponseGraceMs")).getD
      .other).toNumber textNumber
  match initialResponseGraceMs with
  | none => defaultTimeoutMs
  | some graceMs =>
    if entry.phase = .prompt ∧ providerEventObserved entry.metadata = false ∧
        (defaultTimeoutMs : ℚ) < graceMs then
      -- `Math.round` rounds a half up
      ⌊graceMs + 1 / 2⌋.toNat
    else defaultTimeoutMs

def stallOf (entry : WatchdogEntry χ) (chatJid : χ) (now timeoutMs : ℕ) : WatchdogStall χ :=
  { chatJid
    phase := entry.phase
    startedAt := entry.startedAt
    lastProgressAt := entry.lastProgressAt
    metadata := entry.metadata
    ageMs := now - entry.lastProgressAt
    timeoutMs := getEffectiveEntryTimeoutMs textNumber entry timeoutMs
    requestAgeMs := now - entry.startedAt
    providerEventObserved := providerEventObserved entry.metadata }

/-- The stall that one turn of the scan's loop pushes. -/
def stall? (now timeoutMs : ℕ) (chatJid : χ) (current : WatchdogEntry χ) :
    Option (WatchdogStall χ) :=
  if current.suspension.isSome then none
  else if now - current.lastProgressAt < getEffectiveEntryTimeoutMs textNumber current timeoutMs then
    none
  else some (stallOf textNumber current chatJid now timeoutMs)

/-- The stall of an entry that was not reported before: only this one is acted on. -/
def newStall? (now timeoutMs : ℕ) (chatJid : χ) (current : WatchdogEntry χ) :
    Option (WatchdogStall χ) :=
  if current.stallReported then none else stall? textNumber now timeoutMs chatJid current

def reported (now timeoutMs : ℕ) (chatJid : χ) (current : WatchdogEntry χ) : WatchdogEntry χ :=
  if (newStall? textNumber now timeoutMs chatJid current).isSome then
    { current with
      stallReported := true
      abortAttempted := true }
  else current

variable [DecidableEq χ]

def stalls (w : Watchdog χ ι α) (now timeoutMs : ℕ) : List (WatchdogStall χ) :=
  w.activeByChat.entries.filterMap (fun e => stall? textNumber now timeoutMs e.1 e.2)

def newStalls (w : Watchdog χ ι α) (now timeoutMs : ℕ) : List (WatchdogStall χ) :=
  w.activeByChat.entries.filterMap (fun e => newStall? textNumber now timeoutMs e.1 e.2)

/-- A registered aborter is called after the scan. Without one the scan itself may call the
termination hook. -/
def scanForStalls (w : Watchdog χ ι α) (now timeoutMs : ℕ) (escalateOnStall : Bool) :
    Watchdog χ ι α × List (WatchdogEffect χ α) :=
  if timeoutMs = 0 then (w, [])
  else
    let acted := newStalls textNumber w now timeoutMs
    let requests := acted.filterMap (fun stall =>
      (w.abortersByChat.get stall.chatJid).map (fun aborter => ⟨aborter, stall, false⟩))
    let terminated := acted.filter (fun stall =>
      escalateOnStall && (w.abortersByChat.get stall.chatJid).isNone)
    ({ w with
        activeByChat := w.activeByChat.mapValues (reported textNumber now timeoutMs)
        abortRequests := w.abortRequests ++ requests },
      (stalls textNumber w now timeoutMs).map (.stalled now) ++ terminated.map .terminated)

end Scan

section Requests

/-- The `n`th request in flight calls its aborter. -/
def callAborter (w : Watchdog χ ι α) (n : ℕ) : Watchdog χ ι α × List (WatchdogEffect χ α) :=
  match w.abortRequests[n]? with
  | none => (w, [])
  | some request =>
    if request.called then (w, [])
    else
      ({ w with abortRequests := w.abortRequests.set n { request with called := true } },
        [.aborterCalled request.aborter request.stall])

def completeAbort (w : Watchdog χ ι α) (n : ℕ) : Watchdog χ ι α :=
  match w.abortRequests[n]? with
  | none => w
  | some request =>
    if request.called then { w with abortRequests := w.abortRequests.eraseIdx n } else w

def failAbort (w : Watchdog χ ι α) (n : ℕ) (escalateOnStall : Bool) :
    Watchdog χ ι α × List (WatchdogEffect χ α) :=
  match w.abortRequests[n]? with
  | none => (w, [])
  | some request =>
    if request.called then
      ({ w with abortRequests := w.abortRequests.eraseIdx n },
        if escalateOnStall then [.terminated request.stall] else [])
    else (w, [])

end Requests

section Prompts
variable [DecidableEq χ] [DecidableEq ι] (chatOf : ι → χ)

def withDepth (w : Watchdog χ ι α) (i : ι) (depth : ℕ) : Watchdog χ ι α :=
  { w with promptDepth := Function.update w.promptDepth i depth }

def uiPromptStart (w : Watchdog χ ι α) (i : ι) (kind : UiPromptKind) (title : Option String)
    (now : ℕ) : Watchdog χ ι α :=
  let counted := w.withDepth i (w.promptDepth i + 1)
  if counted.promptDepth i ≠ 1 then counted
  else counted.suspendTrackedPhase (chatOf i) kind title now

def uiPromptEnd (w : Watchdog χ ι α) (i : ι) (now : ℕ) : Watchdog χ ι α :=
  if w.promptDepth i = 0 then w
  else
    let counted := w.withDepth i (w.promptDepth i - 1)
    if counted.promptDepth i = 0 then counted.resumeTrackedPhase (chatOf i) now else counted

/-- The handler of both `agent_settled` and `session_shutdown`. -/
def clearSuspension (w : Watchdog χ ι α) (i : ι) (now : ℕ) : Watchdog χ ι α :=
  (w.withDepth i 0).resumeTrackedPhase (chatOf i) now

end Prompts

section Lookups
variable [DecidableEq χ] {w : Watchdog χ ι α} {chatJid c : χ} {now : ℕ}

def resumed (entry : WatchdogEntry χ) (now : ℕ) : WatchdogEntry χ :=
  if entry.suspension.isSome then
    { entry with
      suspension := none
      lastProgressAt := now
      stallReported := false
      abortAttempted := false }
  else entry

theorem suspendTrackedPhase_eq (w : Watchdog χ ι α) (chatJid : χ) (kind : UiPromptKind)
    (title : Option String) (now : ℕ) :
    w.suspendTrackedPhase chatJid kind title now =
      { w with
        activeByChat := (w.suspendTrackedPhase chatJid kind title now).activeByChat } := by
  unfold suspendTrackedPhase
  cases w.activeByChat.get chatJid with
  | none => rfl
  | some current =>
    dsimp only
    split_ifs
    · rfl
    · rfl

theorem suspension_suspendTrackedPhase {kind : UiPromptKind} {title : Option String}
    {entry : WatchdogEntry χ}
    (h : (w.suspendTrackedPhase chatJid kind title now).activeByChat.get chatJid = some entry) :
    entry.suspension.isSome := by
  unfold suspendTrackedPhase at h
  cases hget : w.activeByChat.get chatJid with
  | none =>
    simp only [hget] at h
    cases h
  | some current =>
    simp only [hget] at h
    split_ifs at h with hsuspended
    · rw [hget] at h
      cases h
      exact hsuspended
    · rw [OrderedMap.get_set_self] at h
      cases h
      rfl

theorem get_suspendTrackedPhase_of_ne {kind : UiPromptKind} {title : Option String}
    (hc : c ≠ chatJid) :
    (w.suspendTrackedPhase chatJid kind title now).activeByChat.get c = w.activeByChat.get c := by
  unfold suspendTrackedPhase
  cases w.activeByChat.get chatJid with
  | none => rfl
  | some current =>
    dsimp only
    split_ifs
    · rfl
    · exact OrderedMap.get_set_of_ne _ _ hc

theorem resumeTrackedPhase_eq (w : Watchdog χ ι α) (chatJid : χ) (now : ℕ) :
    w.resumeTrackedPhase chatJid now =
      { w with activeByChat := (w.resumeTrackedPhase chatJid now).activeByChat } := by
  unfold resumeTrackedPhase
  cases w.activeByChat.get chatJid with
  | none => rfl
  | some current =>
    dsimp only
    split_ifs
    · rfl
    · rfl

theorem get_resumeTrackedPhase :
    (w.resumeTrackedPhase chatJid now).activeByChat.get c =
      if c = chatJid then (w.activeByChat.get c).map (resumed · now)
      else w.activeByChat.get c := by
  unfold resumeTrackedPhase
  by_cases hc : c = chatJid
  · rw [if_pos hc, hc]
    cases hget : w.activeByChat.get chatJid with
    | none => exact hget
    | some current =>
      dsimp only [Option.map_some]
      unfold resumed
      split_ifs
      · exact OrderedMap.get_set_self _ _ _
      · exact hget
  · rw [if_neg hc]
    cases hget : w.activeByChat.get chatJid with
    | none => rfl
    | some current =>
      dsimp only
      split_ifs
      · exact OrderedMap.get_set_of_ne _ _ hc
      · rfl

theorem suspension_resumed (entry : WatchdogEntry χ) :
    (resumed entry now).suspension.isSome = false := by
  unfold resumed
  split_ifs with hsuspended
  · rfl
  · exact Bool.eq_false_iff.mpr hsuspended

end Lookups

section Scans
variable [DecidableEq χ] {textNumber : String → Option ℚ} {w : Watchdog χ ι α} {now timeoutMs : ℕ}
  {escalateOnStall : Bool} {stall : WatchdogStall χ} {chatJid : χ} {current : WatchdogEntry χ}

omit [DecidableEq χ] in
theorem stall?_eq_some (h : stall? textNumber now timeoutMs chatJid current = some stall) :
    current.suspension.isSome = false ∧ stall.chatJid = chatJid ∧
      stall.ageMs = now - current.lastProgressAt := by
  unfold stall? at h
  split_ifs at h with hsuspended hage
  cases h
  exact ⟨Bool.eq_false_iff.mpr hsuspended, rfl, rfl⟩

omit [DecidableEq χ] in
theorem stall?_of_newStall? (h : newStall? textNumber now timeoutMs chatJid current = some stall) :
    stall? textNumber now timeoutMs chatJid current = some stall := by
  unfold newStall? at h
  split_ifs at h
  exact h

/-- A stall comes from an entry that is not suspended and is as old as its last progress. -/
theorem entry_of_mem_stalls (h : stall ∈ stalls textNumber w now timeoutMs) :
    ∃ entry, w.activeByChat.get stall.chatJid = some entry ∧
      entry.suspension.isSome = false ∧ stall.ageMs = now - entry.lastProgressAt := by
  obtain ⟨e, he, hstall⟩ := List.mem_filterMap.mp h
  obtain ⟨hsuspended, hchat, hage⟩ := stall?_eq_some hstall
  refine ⟨e.2, ?_, hsuspended, hage⟩
  rw [hchat]
  exact OrderedMap.get_of_mem he

theorem newStalls_subset : newStalls textNumber w now timeoutMs ⊆ stalls textNumber w now timeoutMs := by
  intro stall h
  obtain ⟨e, he, hstall⟩ := List.mem_filterMap.mp h
  exact List.mem_filterMap.mpr ⟨e, he, stall?_of_newStall? hstall⟩

theorem stall_of_mem_scan {effect : WatchdogEffect χ α}
    (h : effect ∈ (w.scanForStalls textNumber now timeoutMs escalateOnStall).2) :
    effect.stall ∈ stalls textNumber w now timeoutMs := by
  unfold scanForStalls at h
  split_ifs at h with hzero
  · cases h
  · rcases List.mem_append.mp h with hstalled | hterminated
    · obtain ⟨stall, hstall, rfl⟩ := List.mem_map.mp hstalled
      exact hstall
    · obtain ⟨stall, hstall, rfl⟩ := List.mem_map.mp hterminated
      exact newStalls_subset (List.mem_filter.mp hstall).1

theorem now_of_mem_scan {n : ℕ}
    (h : .stalled n stall ∈ (w.scanForStalls textNumber now timeoutMs escalateOnStall).2) :
    n = now := by
  unfold scanForStalls at h
  split_ifs at h with hzero
  · cases h
  · rcases List.mem_append.mp h with hstalled | hterminated
    · obtain ⟨stall, hstall, heq⟩ := List.mem_map.mp hstalled
      cases heq
      rfl
    · obtain ⟨stall, hstall, heq⟩ := List.mem_map.mp hterminated
      cases heq

theorem request_of_mem_scan {request : AbortRequest χ α}
    (h : request ∈ (w.scanForStalls textNumber now timeoutMs escalateOnStall).1.abortRequests) :
    request ∈ w.abortRequests ∨ request.stall ∈ stalls textNumber w now timeoutMs := by
  unfold scanForStalls at h
  split_ifs at h with hzero
  · exact .inl h
  · rcases List.mem_append.mp h with hold | hnew
    · exact .inl hold
    · obtain ⟨stall, hstall, hrequest⟩ := List.mem_filterMap.mp hnew
      obtain ⟨aborter, -, rfl⟩ := Option.map_eq_some_iff.mp hrequest
      exact .inr (newStalls_subset hstall)

/-- A scan only marks entries as reported. -/
theorem get_scanForStalls {e : WatchdogEntry χ}
    (h : (w.scanForStalls textNumber now timeoutMs escalateOnStall).1.activeByChat.get chatJid =
      some e) :
    ∃ entry, w.activeByChat.get chatJid = some entry ∧ e.suspension = entry.suspension ∧
      e.lastProgressAt = entry.lastProgressAt := by
  unfold scanForStalls at h
  split_ifs at h with hzero
  · exact ⟨e, h, rfl, rfl⟩
  · rw [OrderedMap.get_mapValues] at h
    obtain ⟨entry, hentry, rfl⟩ := Option.map_eq_some_iff.mp h
    refine ⟨entry, hentry, ?_⟩
    unfold reported
    split_ifs
    · exact ⟨rfl, rfl⟩
    · exact ⟨rfl, rfl⟩

theorem promptDepth_scanForStalls :
    (w.scanForStalls textNumber now timeoutMs escalateOnStall).1.promptDepth = w.promptDepth := by
  unfold scanForStalls
  split_ifs
  · rfl
  · rfl

end Scans
end Watchdog
end Piclaw
