import Piclaw.Transactions
import Piclaw.Watchdog

/-!
# Chats that wait for their user

A scene is the watchdog with the prompts that are open in it. A chat that waits is spared by every
scan as long as its open prompts and its suspension say the same: no phase begins while a prompt
is open, no prompt opens while an abort of the chat is in flight, and the events of a prompt come
from the one instance that opened it.
-/

namespace Piclaw
open Relational

/-- The prompts are numbered in the order they start. `lastEnd` is the time at which the last open
prompt of a chat ended, as long as nothing else happened to its phase. -/
structure WatchdogScene (χ ι α : Type) extends Watchdog χ ι α where
  openPrompts : List (ι × ℕ)
  started : ℕ
  lastEnd : χ → Option ℕ

inductive WatchdogEvent (χ ι α : Type)
  | beginTrackedPhase (chatJid : χ) (phase : WatchdogPhase) (metadata : Option WatchdogMetadata)
      (now : ℕ)
  | heartbeatTrackedPhase (chatJid : χ) (phase : Option WatchdogPhase)
      (metadata : Option WatchdogMetadata) (now : ℕ)
  | endTrackedPhase (chatJid : χ)
  | registerAborter (chatJid : χ) (aborter : α)
  | unregisterAborter (chatJid : χ) (aborter : α)
  | uiPromptStart (i : ι) (kind : UiPromptKind) (title : Option String) (now : ℕ)
  | uiPromptEnd (i : ι) (prompt : ℕ) (now : ℕ)
  | agentSettled (i : ι) (now : ℕ)
  | sessionShutdown (i : ι) (now : ℕ)
  | scanForStalls (now timeoutMs : ℕ) (escalateOnStall : Bool)
  | aborterCalled (n : ℕ)
  | abortCompleted (n : ℕ)
  | abortFailed (n : ℕ) (escalateOnStall : Bool)

namespace WatchdogScene
variable {χ ι α : Type}

def initial : WatchdogScene χ ι α := ⟨.initial, [], 0, fun _ => none⟩

variable [DecidableEq χ] [DecidableEq ι] (chatOf : ι → χ)

def Awaits (s : WatchdogScene χ ι α) (chatJid : χ) : Prop :=
  ∃ prompt ∈ s.openPrompts, chatOf prompt.1 = chatJid

instance (s : WatchdogScene χ ι α) (chatJid : χ) : Decidable (s.Awaits chatOf chatJid) :=
  inferInstanceAs (Decidable (∃ prompt ∈ s.openPrompts, chatOf prompt.1 = chatJid))

omit [DecidableEq ι] in
def touched (s : WatchdogScene χ ι α) (chatJid : χ) : χ → Option ℕ :=
  Function.update s.lastEnd chatJid none

def startPrompt (s : WatchdogScene χ ι α) (i : ι) (kind : UiPromptKind) (title : Option String)
    (now : ℕ) : WatchdogScene χ ι α :=
  { toWatchdog := s.toWatchdog.uiPromptStart chatOf i kind title now
    openPrompts := (i, s.started) :: s.openPrompts
    started := s.started + 1
    lastEnd := s.touched (chatOf i) }

/-- `closed` says which prompts the event of instance `i` ends. -/
def closePrompts (s : WatchdogScene χ ι α) (i : ι) (closed : ι × ℕ → Bool) (now : ℕ)
    (watchdog : Watchdog χ ι α) : WatchdogScene χ ι α :=
  let remaining := s.openPrompts.filter (fun prompt => !closed prompt)
  { toWatchdog := watchdog
    openPrompts := remaining
    started := s.started
    lastEnd :=
      if s.Awaits chatOf (chatOf i) ∧ ¬ ∃ prompt ∈ remaining, chatOf prompt.1 = chatOf i then
        Function.update s.lastEnd (chatOf i) (some now)
      else s.lastEnd }

def endPrompt (s : WatchdogScene χ ι α) (i : ι) (prompt now : ℕ) : WatchdogScene χ ι α :=
  s.closePrompts chatOf i (fun p => decide (p = (i, prompt))) now
    (s.toWatchdog.uiPromptEnd chatOf i now)

/-- A settle or a shutdown ends all prompts of the chat. -/
def settle (s : WatchdogScene χ ι α) (i : ι) (now : ℕ) : WatchdogScene χ ι α :=
  s.closePrompts chatOf i (fun p => decide (chatOf p.1 = chatOf i)) now
    (s.toWatchdog.clearSuspension chatOf i now)

section Reactions
variable [DecidableEq α] (textNumber : String → Option ℚ)

def react (s : WatchdogScene χ ι α) :
    WatchdogEvent χ ι α → WatchdogScene χ ι α × List (WatchdogEffect χ α)
  | .beginTrackedPhase chatJid phase metadata now =>
    ({ s with
        toWatchdog := s.toWatchdog.beginTrackedPhase chatJid phase metadata now
        lastEnd := s.touched chatJid }, [])
  | .heartbeatTrackedPhase chatJid phase metadata now =>
    ({ s with
        toWatchdog := s.toWatchdog.heartbeatTrackedPhase chatJid phase metadata now
        lastEnd := s.touched chatJid }, [])
  | .endTrackedPhase chatJid =>
    ({ s with
        toWatchdog := s.toWatchdog.endTrackedPhase chatJid
        lastEnd := s.touched chatJid }, [])
  | .registerAborter chatJid aborter =>
    ({ s with toWatchdog := s.toWatchdog.registerProgressWatchdogAborter chatJid aborter }, [])
  | .unregisterAborter chatJid aborter =>
    ({ s with toWatchdog := s.toWatchdog.unregisterProgressWatchdogAborter chatJid aborter }, [])
  | .uiPromptStart i kind title now => (s.startPrompt chatOf i kind title now, [])
  | .uiPromptEnd i prompt now => (s.endPrompt chatOf i prompt now, [])
  | .agentSettled i now => (s.settle chatOf i now, [])
  | .sessionShutdown i now => (s.settle chatOf i now, [])
  | .scanForStalls now timeoutMs escalateOnStall =>
    let scanned := s.toWatchdog.scanForStalls textNumber now timeoutMs escalateOnStall
    ({ s with toWatchdog := scanned.1 }, scanned.2)
  | .aborterCalled n =>
    ({ s with toWatchdog := (s.toWatchdog.callAborter n).1 }, (s.toWatchdog.callAborter n).2)
  | .abortCompleted n => ({ s with toWatchdog := s.toWatchdog.completeAbort n }, [])
  | .abortFailed n escalateOnStall =>
    ({ s with toWatchdog := (s.toWatchdog.failAbort n escalateOnStall).1 },
      (s.toWatchdog.failAbort n escalateOnStall).2)

def next (s : WatchdogScene χ ι α) (event : WatchdogEvent χ ι α) : WatchdogScene χ ι α :=
  (s.react chatOf textNumber event).1

/-- No effect of the event is about a chat that waits for its user. -/
def SparesWaiting (s : WatchdogScene χ ι α) (event : WatchdogEvent χ ι α) : Prop :=
  ∀ effect ∈ (s.react chatOf textNumber event).2, ¬ s.Awaits chatOf effect.stall.chatJid

/-- A stall of a chat whose last prompt has ended is as old as that end. -/
def AgesFromEnd (s : WatchdogScene χ ι α) (event : WatchdogEvent χ ι α) : Prop :=
  ∀ now stall, .stalled now stall ∈ (s.react chatOf textNumber event).2 →
    ∀ ended, s.lastEnd stall.chatJid = some ended → stall.ageMs = now - ended

end Reactions

/-- The entry that a prompt's suspension is kept on is not replaced, and the events of prompts
come from one instance of a chat at a time, for the prompts that are open. -/
def Orderly (s : WatchdogScene χ ι α) : WatchdogEvent χ ι α → Prop
  | .beginTrackedPhase chatJid _ _ _ => ¬ s.Awaits chatOf chatJid
  | .heartbeatTrackedPhase chatJid phase _ _ =>
    s.activeByChat.get chatJid = none → phase.isSome → ¬ s.Awaits chatOf chatJid
  | .uiPromptStart i _ _ _ =>
    (∀ prompt ∈ s.openPrompts, chatOf prompt.1 = chatOf i → prompt.1 = i) ∧
      ∀ request ∈ s.abortRequests, request.stall.chatJid ≠ chatOf i
  | .uiPromptEnd i prompt _ =>
    (i, prompt) ∈ s.openPrompts ∨ ∀ open' ∈ s.openPrompts, open'.1 ≠ i
  | .agentSettled i _ | .sessionShutdown i _ =>
    ∀ prompt ∈ s.openPrompts, chatOf prompt.1 = chatOf i → prompt.1 = i
  | _ => True

/-- The two views agree: the extension's counts with the open prompts, and the suspensions with
the chats that wait. -/
structure Matched (s : WatchdogScene χ ι α) : Prop where
  counted : ∀ i, s.promptDepth i = s.openPrompts.countP (fun p => decide (p.1 = i))
  single : ∀ p ∈ s.openPrompts, ∀ q ∈ s.openPrompts, chatOf p.1 = chatOf q.1 → p.1 = q.1
  numbered : s.openPrompts.Nodup ∧ ∀ p ∈ s.openPrompts, p.2 < s.started
  suspended : ∀ c e, s.activeByChat.get c = some e → (e.suspension.isSome ↔ s.Awaits chatOf c)
  requested : ∀ request ∈ s.abortRequests, ¬ s.Awaits chatOf request.stall.chatJid
  ended : ∀ c t, s.lastEnd c = some t →
    ¬ s.Awaits chatOf c ∧ ∀ e, s.activeByChat.get c = some e → e.lastProgressAt = t

variable {chatOf} {textNumber : String → Option ℚ} {s : WatchdogScene χ ι α}

omit [DecidableEq ι] in
theorem touched_eq_some {c chatJid : χ} {t : ℕ} (h : s.touched chatJid c = some t) :
    c ≠ chatJid ∧ s.lastEnd c = some t := by
  unfold touched at h
  by_cases hc : c = chatJid
  · rw [hc, Function.update_self] at h
    cases h
  · rw [Function.update_of_ne hc] at h
    exact ⟨hc, h⟩

theorem matched_initial : (initial : WatchdogScene χ ι α).Matched chatOf := by
  constructor
  · exact fun _ => rfl
  · intro p hp
    cases hp
  · exact ⟨List.nodup_nil, fun p hp => by cases hp⟩
  · intro c e he
    cases he
  · intro request hrequest
    cases hrequest
  · intro c t ht
    cases ht

/-- The entry of one chat is replaced by one that is suspended only if the chat waits. -/
theorem Matched.set_entry (hs : s.Matched chatOf) {chatJid : χ} {entry : WatchdogEntry χ}
    (hentry : entry.suspension.isSome ↔ s.Awaits chatOf chatJid) :
    Matched chatOf { s with
      toWatchdog := { s.toWatchdog with activeByChat := s.activeByChat.set chatJid entry }
      lastEnd := s.touched chatJid } := by
  refine ⟨hs.counted, hs.single, hs.numbered, ?_, hs.requested, ?_⟩
  · intro c e he
    have he : (s.activeByChat.set chatJid entry).get c = some e := he
    by_cases hc : c = chatJid
    · rw [hc, OrderedMap.get_set_self] at he
      cases he
      rw [hc]
      exact hentry
    · rw [OrderedMap.get_set_of_ne _ _ hc] at he
      exact hs.suspended c e he
  · intro c t ht
    obtain ⟨hc, ht⟩ := touched_eq_some ht
    refine ⟨(hs.ended c t ht).1, fun e he => ?_⟩
    have he : (s.activeByChat.set chatJid entry).get c = some e := he
    rw [OrderedMap.get_set_of_ne _ _ hc] at he
    exact (hs.ended c t ht).2 e he

theorem Matched.touch (hs : s.Matched chatOf) (chatJid : χ) :
    Matched chatOf { s with lastEnd := s.touched chatJid } := by
  refine ⟨hs.counted, hs.single, hs.numbered, hs.suspended, hs.requested, ?_⟩
  intro c t ht
  exact hs.ended c t (touched_eq_some ht).2

theorem Matched.beginTrackedPhase (hs : s.Matched chatOf) {chatJid : χ} {phase : WatchdogPhase}
    {metadata : Option WatchdogMetadata} {now : ℕ} (hopen : ¬ s.Awaits chatOf chatJid) :
    Matched chatOf { s with
      toWatchdog := s.toWatchdog.beginTrackedPhase chatJid phase metadata now
      lastEnd := s.touched chatJid } := by
  refine hs.set_entry ?_
  simp only [Option.isSome_none, Bool.false_eq_true, false_iff]
  exact hopen

theorem Matched.heartbeatTrackedPhase (hs : s.Matched chatOf) {chatJid : χ}
    {phase : Option WatchdogPhase} {metadata : Option WatchdogMetadata} {now : ℕ}
    (hopen : s.activeByChat.get chatJid = none → phase.isSome → ¬ s.Awaits chatOf chatJid) :
    Matched chatOf { s with
      toWatchdog := s.toWatchdog.heartbeatTrackedPhase chatJid phase metadata now
      lastEnd := s.touched chatJid } := by
  unfold Watchdog.heartbeatTrackedPhase
  cases hget : s.activeByChat.get chatJid with
  | none =>
    cases phase with
    | none => exact hs.touch chatJid
    | some phase => exact hs.beginTrackedPhase (hopen hget rfl)
  | some current =>
    dsimp only
    split_ifs with hsuspended
    · exact hs.touch chatJid
    · exact hs.set_entry (hs.suspended chatJid current hget)

theorem Matched.endTrackedPhase (hs : s.Matched chatOf) (chatJid : χ) :
    Matched chatOf { s with
      toWatchdog := s.toWatchdog.endTrackedPhase chatJid
      lastEnd := s.touched chatJid } := by
  have hget : ∀ c e, (s.activeByChat.delete chatJid).get c = some e →
      s.activeByChat.get c = some e := by
    intro c e he
    rw [OrderedMap.get_delete] at he
    split_ifs at he
    exact he
  refine ⟨hs.counted, hs.single, hs.numbered, ?_, hs.requested, ?_⟩
  · intro c e he
    exact hs.suspended c e (hget c e he)
  · intro c t ht
    have hended := hs.ended c t (touched_eq_some ht).2
    exact ⟨hended.1, fun e he => hended.2 e (hget c e he)⟩

theorem awaits_of_depth (hs : s.Matched chatOf) {i : ι} (h : s.promptDepth i ≠ 0) :
    ∃ prompt ∈ s.openPrompts, prompt.1 = i := by
  rw [hs.counted] at h
  obtain ⟨prompt, hprompt, hi⟩ := List.countP_pos_iff.mp (Nat.pos_of_ne_zero h)
  exact ⟨prompt, hprompt, of_decide_eq_true hi⟩

theorem awaits_startPrompt {i : ι} {kind : UiPromptKind} {title : Option String} {now : ℕ} {c : χ} :
    (s.startPrompt chatOf i kind title now).Awaits chatOf c ↔
      chatOf i = c ∨ s.Awaits chatOf c := by
  unfold startPrompt Awaits
  simp only [List.mem_cons, exists_eq_or_imp]

theorem startPrompt_keeps {i : ι} {kind : UiPromptKind} {title : Option String} {now : ℕ} :
    (s.startPrompt chatOf i kind title now).abortRequests = s.abortRequests ∧
      (s.startPrompt chatOf i kind title now).promptDepth =
        Function.update s.promptDepth i (s.promptDepth i + 1) ∧
      ∀ c, c ≠ chatOf i → (s.startPrompt chatOf i kind title now).activeByChat.get c =
        s.activeByChat.get c := by
  unfold startPrompt Watchdog.uiPromptStart
  dsimp only
  split_ifs
  · exact ⟨rfl, rfl, fun _ _ => rfl⟩
  · rw [Watchdog.suspendTrackedPhase_eq]
    exact ⟨rfl, rfl, fun c hc => Watchdog.get_suspendTrackedPhase_of_ne hc⟩

/-- The first prompt of a chat suspends its entry, and later ones find it suspended. -/
theorem suspended_startPrompt (hs : s.Matched chatOf) {i : ι} {kind : UiPromptKind}
    {title : Option String} {now : ℕ} {entry : WatchdogEntry χ}
    (h : (s.startPrompt chatOf i kind title now).activeByChat.get (chatOf i) = some entry) :
    entry.suspension.isSome := by
  unfold startPrompt Watchdog.uiPromptStart at h
  dsimp only at h
  split_ifs at h with hdepth
  · have hne : s.promptDepth i ≠ 0 := by
      intro hzero
      apply hdepth
      unfold Watchdog.withDepth
      simp [hzero]
    obtain ⟨prompt, hprompt, hi⟩ := awaits_of_depth hs hne
    exact (hs.suspended _ _ h).mpr ⟨prompt, hprompt, congrArg chatOf hi⟩
  · exact Watchdog.suspension_suspendTrackedPhase h

theorem Matched.startPrompt (hs : s.Matched chatOf) {i : ι} {kind : UiPromptKind}
    {title : Option String} {now : ℕ}
    (hone : ∀ prompt ∈ s.openPrompts, chatOf prompt.1 = chatOf i → prompt.1 = i)
    (hflight : ∀ request ∈ s.abortRequests, request.stall.chatJid ≠ chatOf i) :
    (s.startPrompt chatOf i kind title now).Matched chatOf := by
  obtain ⟨hrequests, hdepth, hget⟩ := @startPrompt_keeps _ _ _ _ _ chatOf s i kind title now
  constructor
  · intro j
    rw [hdepth]
    change _ = ((i, s.started) :: s.openPrompts).countP _
    rw [List.countP_cons]
    by_cases hj : j = i
    · rw [hj, Function.update_self, hs.counted, if_pos (by simp)]
    · rw [Function.update_of_ne hj, hs.counted, if_neg (by simpa using Ne.symm hj), Nat.add_zero]
  · intro p hp q hq heq
    rcases List.mem_cons.mp hp with rfl | hp
    · rcases List.mem_cons.mp hq with rfl | hq
      · rfl
      · exact (hone q hq heq.symm).symm
    · rcases List.mem_cons.mp hq with rfl | hq
      · exact hone p hp heq
      · exact hs.single p hp q hq heq
  · refine ⟨List.nodup_cons.mpr ⟨?_, hs.numbered.1⟩, ?_⟩
    · intro hin
      exact Nat.lt_irrefl _ (hs.numbered.2 _ hin)
    · intro p hp
      rcases List.mem_cons.mp hp with rfl | hp
      · exact Nat.lt_succ_self _
      · exact Nat.lt_succ_of_lt (hs.numbered.2 p hp)
  · intro c e he
    rw [awaits_startPrompt]
    by_cases hc : c = chatOf i
    · rw [hc] at he
      exact ⟨fun _ => .inl hc.symm, fun _ => suspended_startPrompt hs he⟩
    · rw [hget c hc] at he
      rw [hs.suspended c e he]
      exact ⟨.inr, fun h => h.resolve_left (fun heq => hc heq.symm)⟩
  · intro request hrequest
    rw [hrequests] at hrequest
    rw [awaits_startPrompt]
    rintro (heq | hawaits)
    · exact hflight request hrequest heq.symm
    · exact hs.requested request hrequest hawaits
  · intro c t ht
    obtain ⟨hc, ht⟩ := touched_eq_some ht
    rw [awaits_startPrompt, hget c hc]
    refine ⟨?_, (hs.ended c t ht).2⟩
    rintro (heq | hawaits)
    · exact hc heq.symm
    · exact (hs.ended c t ht).1 hawaits

section Closing
variable {i : ι} {closed : ι × ℕ → Bool} {now : ℕ}

omit [DecidableEq ι] in
theorem mem_closePrompts {watchdog : Watchdog χ ι α} {p : ι × ℕ} :
    p ∈ (s.closePrompts chatOf i closed now watchdog).openPrompts ↔
      p ∈ s.openPrompts ∧ closed p = false := by
  unfold closePrompts
  simp

/-- Ending the last prompts of a chat resumes its entry, and no other chat notices. -/
theorem Matched.closeLast (hs : s.Matched chatOf)
    (hown : ∀ p ∈ s.openPrompts, closed p → p.1 = i)
    (hall : ∀ p ∈ s.openPrompts, chatOf p.1 = chatOf i → closed p) :
    (s.closePrompts chatOf i closed now (s.toWatchdog.clearSuspension chatOf i now)).Matched
      chatOf := by
  set t := s.closePrompts chatOf i closed now (s.toWatchdog.clearSuspension chatOf i now) with htdef
  have hmem : ∀ p, p ∈ t.openPrompts ↔ p ∈ s.openPrompts ∧ closed p = false :=
    fun _ => mem_closePrompts
  have hself : ¬ t.Awaits chatOf (chatOf i) := by
    rintro ⟨p, hp, hc⟩
    have hp := (hmem p).mp hp
    rw [hall p hp.1 hc] at hp
    cases hp.2
  have hless : ∀ c, t.Awaits chatOf c → s.Awaits chatOf c := by
    rintro c ⟨p, hp, hc⟩
    exact ⟨p, ((hmem p).mp hp).1, hc⟩
  have hother : ∀ c, c ≠ chatOf i → (t.Awaits chatOf c ↔ s.Awaits chatOf c) := by
    intro c hne
    refine ⟨hless c, ?_⟩
    rintro ⟨p, hp, hc⟩
    refine ⟨p, (hmem p).mpr ⟨hp, Bool.eq_false_iff.mpr fun hclosed => ?_⟩, hc⟩
    exact hne (hc ▸ congrArg chatOf (hown p hp hclosed))
  have hwatch : t.toWatchdog = (s.toWatchdog.withDepth i 0).resumeTrackedPhase (chatOf i) now := rfl
  have hrequests : t.abortRequests = s.abortRequests := by
    rw [hwatch, Watchdog.resumeTrackedPhase_eq]
    rfl
  have hdepth : t.promptDepth = Function.update s.promptDepth i 0 := by
    rw [hwatch, Watchdog.resumeTrackedPhase_eq]
    rfl
  have hget : ∀ c, t.activeByChat.get c =
      if c = chatOf i then (s.activeByChat.get c).map (Watchdog.resumed · now)
      else s.activeByChat.get c := by
    intro c
    rw [hwatch, Watchdog.get_resumeTrackedPhase]
    rfl
  constructor
  · intro j
    change _ = (s.openPrompts.filter (fun prompt => !closed prompt)).countP _
    rw [hdepth, List.countP_filter]
    by_cases hj : j = i
    · rw [hj, Function.update_self, eq_comm, List.countP_eq_zero]
      intro p hp hboth
      simp only [Bool.and_eq_true, decide_eq_true_eq, Bool.not_eq_true'] at hboth
      rw [hall p hp (congrArg chatOf hboth.1)] at hboth
      cases hboth.2
    · rw [Function.update_of_ne hj, hs.counted]
      apply List.countP_congr
      intro p hp
      simp only [decide_eq_true_eq, Bool.and_eq_true, Bool.not_eq_true', iff_self_and]
      intro hpj
      exact Bool.eq_false_iff.mpr fun hclosed => hj (hpj ▸ hown p hp hclosed)
  · intro p hp q hq
    exact hs.single p ((hmem p).mp hp).1 q ((hmem q).mp hq).1
  · exact ⟨hs.numbered.1.filter _, fun p hp => hs.numbered.2 p ((hmem p).mp hp).1⟩
  · intro c e he
    rw [hget] at he
    by_cases hc : c = chatOf i
    · rw [if_pos hc] at he
      obtain ⟨entry, -, rfl⟩ := Option.map_eq_some_iff.mp he
      rw [Watchdog.suspension_resumed, hc]
      exact ⟨fun h => Bool.noConfusion h, fun h => absurd h hself⟩
    · rw [if_neg hc] at he
      rw [hother c hc]
      exact hs.suspended c e he
  · intro request hrequest hawaits
    rw [hrequests] at hrequest
    exact hs.requested request hrequest (hless _ hawaits)
  · intro c u hu
    have hlast : t.lastEnd = if s.Awaits chatOf (chatOf i) ∧ ¬ t.Awaits chatOf (chatOf i) then
        Function.update s.lastEnd (chatOf i) (some now) else s.lastEnd := rfl
    rw [hlast] at hu
    by_cases hc : c = chatOf i
    · subst hc
      refine ⟨hself, ?_⟩
      intro e he
      rw [hget, if_pos rfl] at he
      obtain ⟨entry, hentry, rfl⟩ := Option.map_eq_some_iff.mp he
      have hsuspended := hs.suspended _ _ hentry
      unfold Watchdog.resumed
      by_cases hawaits : s.Awaits chatOf (chatOf i)
      · rw [if_pos ⟨hawaits, hself⟩, Function.update_self] at hu
        cases hu
        rw [if_pos (hsuspended.mpr hawaits)]
      · rw [if_neg (fun h => hawaits h.1)] at hu
        rw [if_neg (fun h => hawaits (hsuspended.mp h))]
        exact (hs.ended _ _ hu).2 entry hentry
    · have hkept : s.lastEnd c = some u := by
        split_ifs at hu
        · rwa [Function.update_of_ne hc] at hu
        · exact hu
      rw [hother c hc, hget, if_neg hc]
      exact hs.ended c u hkept

/-- An end of a prompt that is not the last one only counts down. -/
theorem Matched.closeOne (hs : s.Matched chatOf) {prompt : ℕ}
    (hopen : (i, prompt) ∈ s.openPrompts) (hmore : s.promptDepth i ≠ 1) :
    (s.endPrompt chatOf i prompt now).Matched chatOf := by
  have hne : s.promptDepth i ≠ 0 := by
    rw [hs.counted]
    exact (List.countP_pos_iff.mpr ⟨_, hopen, decide_eq_true rfl⟩).ne'
  have hwatch : s.toWatchdog.uiPromptEnd chatOf i now =
      s.toWatchdog.withDepth i (s.promptDepth i - 1) := by
    unfold Watchdog.uiPromptEnd
    rw [if_neg hne]
    dsimp only
    rw [if_neg]
    unfold Watchdog.withDepth
    simp only [Function.update_self]
    omega
  have hremaining : s.openPrompts.filter (fun p => !decide (p = (i, prompt))) =
      s.openPrompts.erase (i, prompt) := by
    rw [hs.numbered.1.erase_eq_filter]
    apply List.filter_congr
    intro p _
    by_cases hp : p = (i, prompt)
    · simp [hp]
    · simp [hp]
  set t := s.endPrompt chatOf i prompt now with htdef
  have htopen : t.openPrompts = s.openPrompts.erase (i, prompt) := hremaining
  have hcount : ∀ j, t.openPrompts.countP (fun p => decide (p.1 = j)) =
      s.openPrompts.countP (fun p => decide (p.1 = j)) - if i = j then 1 else 0 := by
    intro j
    rw [htopen, List.countP_erase]
    simp only [hopen, true_and, decide_eq_true_eq]
  have hstill : t.Awaits chatOf (chatOf i) := by
    have hpos : 0 < t.openPrompts.countP (fun p => decide (p.1 = i)) := by
      rw [hcount, if_pos rfl, ← hs.counted]
      omega
    obtain ⟨p, hp, hi⟩ := List.countP_pos_iff.mp hpos
    exact ⟨p, hp, congrArg chatOf (of_decide_eq_true hi)⟩
  have hmem : ∀ p, p ∈ t.openPrompts → p ∈ s.openPrompts := by
    intro p hp
    rw [htopen] at hp
    exact List.mem_of_mem_erase hp
  have hsame : ∀ c, t.Awaits chatOf c ↔ s.Awaits chatOf c := by
    intro c
    constructor
    · rintro ⟨p, hp, hc⟩
      exact ⟨p, hmem p hp, hc⟩
    · rintro ⟨p, hp, hc⟩
      by_cases hpi : p = (i, prompt)
      · rw [← hc, hpi]
        exact hstill
      · rw [Awaits, htopen]
        exact ⟨p, (List.mem_erase_of_ne hpi).mpr hp, hc⟩
  have hlast : t.lastEnd = s.lastEnd := if_neg (fun h => h.2 hstill)
  have htwatch : t.toWatchdog = s.toWatchdog.withDepth i (s.promptDepth i - 1) := hwatch
  have hdepth : t.promptDepth = Function.update s.promptDepth i (s.promptDepth i - 1) :=
    congrArg Watchdog.promptDepth htwatch
  have hactive : t.activeByChat = s.activeByChat := by
    rw [htwatch]
    rfl
  have hrequests : t.abortRequests = s.abortRequests := by
    rw [htwatch]
    rfl
  constructor
  · intro j
    rw [hdepth, hcount]
    by_cases hj : j = i
    · rw [hj, Function.update_self, hs.counted, if_pos rfl]
    · rw [Function.update_of_ne hj, hs.counted, if_neg (Ne.symm hj), Nat.sub_zero]
  · intro p hp q hq
    exact hs.single p (hmem p hp) q (hmem q hq)
  · refine ⟨?_, fun p hp => hs.numbered.2 p (hmem p hp)⟩
    rw [htopen]
    exact hs.numbered.1.erase _
  · intro c e he
    rw [hactive] at he
    rw [hsame c]
    exact hs.suspended c e he
  · intro request hrequest
    rw [hrequests] at hrequest
    rw [hsame]
    exact hs.requested request hrequest
  · intro c u hu
    rw [hlast] at hu
    rw [hsame, hactive]
    exact hs.ended c u hu

theorem Matched.endPrompt (hs : s.Matched chatOf) {prompt : ℕ}
    (hprompt : (i, prompt) ∈ s.openPrompts ∨ ∀ p ∈ s.openPrompts, p.1 ≠ i) :
    (s.endPrompt chatOf i prompt now).Matched chatOf := by
  rcases hprompt with hopen | hnone
  · by_cases hlast : s.promptDepth i = 1
    · have hwatch : s.toWatchdog.uiPromptEnd chatOf i now =
          s.toWatchdog.clearSuspension chatOf i now := by
        unfold Watchdog.uiPromptEnd Watchdog.clearSuspension Watchdog.withDepth
        simp [hlast]
      unfold WatchdogScene.endPrompt
      rw [hwatch]
      have honly : ∀ p ∈ s.openPrompts, chatOf p.1 = chatOf i → p = (i, prompt) := by
        intro p hp hc
        have hpi := hs.single p hp (i, prompt) hopen hc
        by_contra hne
        have hcount := hs.counted i
        rw [hlast, List.countP_eq_length_filter] at hcount
        obtain ⟨q, hq⟩ := List.length_eq_one_iff.mp hcount.symm
        have hin : ∀ r ∈ s.openPrompts, r.1 = i → r = q := by
          intro r hr hri
          have : r ∈ s.openPrompts.filter (fun p => decide (p.1 = i)) :=
            List.mem_filter.mpr ⟨hr, decide_eq_true hri⟩
          rw [hq] at this
          exact List.mem_singleton.mp this
        exact hne ((hin p hp hpi).trans (hin _ hopen rfl).symm)
      refine hs.closeLast ?_ ?_
      · intro p _ hclosed
        rw [of_decide_eq_true hclosed]
      · intro p hp hc
        exact decide_eq_true (honly p hp hc)
    · exact hs.closeOne hopen hlast
  · have hzero : s.promptDepth i = 0 := by
      by_contra hne
      obtain ⟨p, hp, hi⟩ := awaits_of_depth hs hne
      exact hnone p hp hi
    have hself : s.endPrompt chatOf i prompt now = s := by
      have hremaining : s.openPrompts.filter (fun p => !decide (p = (i, prompt))) =
          s.openPrompts := by
        rw [List.filter_eq_self]
        intro p hp
        have hne : p ≠ (i, prompt) := fun h => hnone p hp (congrArg Prod.fst h)
        simp [hne]
      unfold WatchdogScene.endPrompt closePrompts Watchdog.uiPromptEnd
      rw [if_pos hzero, hremaining]
      dsimp only
      rw [if_neg (fun h => h.2 h.1)]
    rw [hself]
    exact hs

theorem Matched.settle (hs : s.Matched chatOf)
    (hone : ∀ p ∈ s.openPrompts, chatOf p.1 = chatOf i → p.1 = i) :
    (s.settle chatOf i now).Matched chatOf := by
  refine hs.closeLast ?_ ?_
  · intro p hp hclosed
    exact hone p hp (of_decide_eq_true hclosed)
  · intro p _ hc
    exact decide_eq_true hc

end Closing

section Scans
variable {now timeoutMs n : ℕ} {escalateOnStall : Bool}

/-- The chat of a stall that a scan finds has no open prompt. -/
theorem Matched.spares (hs : s.Matched chatOf) {stall : WatchdogStall χ}
    (h : stall ∈ Watchdog.stalls textNumber s.toWatchdog now timeoutMs) :
    ¬ s.Awaits chatOf stall.chatJid := by
  obtain ⟨entry, hentry, hsuspended, -⟩ := Watchdog.entry_of_mem_stalls h
  intro hawaits
  rw [(hs.suspended _ _ hentry).mpr hawaits] at hsuspended
  cases hsuspended

/-- Changes of the requests in flight to others about chats that do not wait. -/
theorem Matched.with_requests (hs : s.Matched chatOf) {w : Watchdog χ ι α}
    (hactive : w.activeByChat = s.activeByChat) (hdepth : w.promptDepth = s.promptDepth)
    (hrequests : ∀ request ∈ w.abortRequests, ¬ s.Awaits chatOf request.stall.chatJid) :
    Matched chatOf { s with toWatchdog := w } := by
  refine ⟨?_, hs.single, hs.numbered, ?_, hrequests, ?_⟩
  · intro i
    change w.promptDepth i = _
    rw [hdepth]
    exact hs.counted i
  · intro c e he
    have he : w.activeByChat.get c = some e := he
    rw [hactive] at he
    exact hs.suspended c e he
  · intro c t ht
    refine ⟨(hs.ended c t ht).1, fun e he => ?_⟩
    have he : w.activeByChat.get c = some e := he
    rw [hactive] at he
    exact (hs.ended c t ht).2 e he

theorem Matched.scanForStalls (hs : s.Matched chatOf) :
    Matched chatOf { s with
      toWatchdog :=
        (s.toWatchdog.scanForStalls textNumber now timeoutMs escalateOnStall).1 } := by
  refine ⟨?_, hs.single, hs.numbered, ?_, ?_, ?_⟩
  · intro i
    change (s.toWatchdog.scanForStalls textNumber now timeoutMs escalateOnStall).1.promptDepth i = _
    rw [Watchdog.promptDepth_scanForStalls]
    exact hs.counted i
  · intro c e he
    obtain ⟨entry, hentry, hsuspension, -⟩ := Watchdog.get_scanForStalls he
    rw [hsuspension]
    exact hs.suspended c entry hentry
  · intro request hrequest
    rcases Watchdog.request_of_mem_scan hrequest with hold | hnew
    · exact hs.requested request hold
    · exact hs.spares hnew
  · intro c t ht
    refine ⟨(hs.ended c t ht).1, fun e he => ?_⟩
    obtain ⟨entry, hentry, -, hprogress⟩ := Watchdog.get_scanForStalls he
    rw [hprogress]
    exact (hs.ended c t ht).2 entry hentry

end Scans

section Requests
variable {n : ℕ} {escalateOnStall : Bool}

theorem Matched.callAborter (hs : s.Matched chatOf) :
    Matched chatOf { s with toWatchdog := (s.toWatchdog.callAborter n).1 } := by
  unfold Watchdog.callAborter
  cases hrequest : s.abortRequests[n]? with
  | none => exact hs
  | some request =>
    dsimp only
    split_ifs with hcalled
    · exact hs
    · refine hs.with_requests rfl rfl ?_
      intro other hother
      rcases List.mem_or_eq_of_mem_set hother with hold | rfl
      · exact hs.requested other hold
      · exact hs.requested request (List.mem_of_getElem? hrequest)

theorem Matched.eraseRequest (hs : s.Matched chatOf) :
    Matched chatOf { s with
      toWatchdog := { s.toWatchdog with abortRequests := s.abortRequests.eraseIdx n } } :=
  hs.with_requests rfl rfl fun request hrequest =>
    hs.requested request (List.mem_of_mem_eraseIdx hrequest)

theorem Matched.completeAbort (hs : s.Matched chatOf) :
    Matched chatOf { s with toWatchdog := s.toWatchdog.completeAbort n } := by
  unfold Watchdog.completeAbort
  cases s.abortRequests[n]? with
  | none => exact hs
  | some request =>
    dsimp only
    split_ifs
    · exact hs.eraseRequest
    · exact hs

theorem Matched.failAbort (hs : s.Matched chatOf) :
    Matched chatOf { s with toWatchdog := (s.toWatchdog.failAbort n escalateOnStall).1 } := by
  unfold Watchdog.failAbort
  cases s.abortRequests[n]? with
  | none => exact hs
  | some request =>
    dsimp only
    split_ifs
    · exact hs.eraseRequest
    · exact hs.eraseRequest
    · exact hs

omit [DecidableEq χ] [DecidableEq ι] in
theorem request_of_callAborter {w : Watchdog χ ι α} {effect : WatchdogEffect χ α}
    (h : effect ∈ (w.callAborter n).2) : ∃ request ∈ w.abortRequests,
      effect = .aborterCalled request.aborter request.stall := by
  unfold Watchdog.callAborter at h
  cases hrequest : w.abortRequests[n]? with
  | none =>
    simp only [hrequest] at h
    cases h
  | some request =>
    simp only [hrequest] at h
    split_ifs at h
    · cases h
    · exact ⟨request, List.mem_of_getElem? hrequest, List.mem_singleton.mp h⟩

omit [DecidableEq χ] [DecidableEq ι] in
theorem request_of_failAbort {w : Watchdog χ ι α} {effect : WatchdogEffect χ α}
    (h : effect ∈ (w.failAbort n escalateOnStall).2) : ∃ request ∈ w.abortRequests,
      effect = .terminated request.stall := by
  unfold Watchdog.failAbort at h
  cases hrequest : w.abortRequests[n]? with
  | none =>
    simp only [hrequest] at h
    cases h
  | some request =>
    simp only [hrequest] at h
    split_ifs at h
    · exact ⟨request, List.mem_of_getElem? hrequest, List.mem_singleton.mp h⟩
    · cases h
    · cases h

end Requests

section Runs
variable [DecidableEq α] {event : WatchdogEvent χ ι α}

theorem Matched.next (hs : s.Matched chatOf) (h : s.Orderly chatOf event) :
    (s.next chatOf textNumber event).Matched chatOf := by
  cases event with
  | beginTrackedPhase chatJid phase metadata now => exact hs.beginTrackedPhase h
  | heartbeatTrackedPhase chatJid phase metadata now => exact hs.heartbeatTrackedPhase h
  | endTrackedPhase chatJid => exact hs.endTrackedPhase chatJid
  | registerAborter chatJid aborter => exact hs.with_requests rfl rfl hs.requested
  | unregisterAborter chatJid aborter =>
    unfold WatchdogScene.next react Watchdog.unregisterProgressWatchdogAborter
    dsimp only
    split_ifs
    · exact hs.with_requests rfl rfl hs.requested
    · exact hs
  | uiPromptStart i kind title now => exact hs.startPrompt h.1 h.2
  | uiPromptEnd i prompt now => exact hs.endPrompt h
  | agentSettled i now => exact hs.settle h
  | sessionShutdown i now => exact hs.settle h
  | scanForStalls now timeoutMs escalateOnStall => exact hs.scanForStalls
  | aborterCalled n => exact hs.callAborter
  | abortCompleted n => exact hs.completeAbort
  | abortFailed n escalateOnStall => exact hs.failAbort

theorem Matched.sparesWaiting (hs : s.Matched chatOf) :
    s.SparesWaiting chatOf textNumber event := by
  intro effect heffect
  cases event with
  | scanForStalls now timeoutMs escalateOnStall =>
    exact hs.spares (Watchdog.stall_of_mem_scan heffect)
  | aborterCalled n =>
    obtain ⟨request, hrequest, rfl⟩ := request_of_callAborter heffect
    exact hs.requested request hrequest
  | abortFailed n escalateOnStall =>
    obtain ⟨request, hrequest, rfl⟩ := request_of_failAbort heffect
    exact hs.requested request hrequest
  | _ => cases heffect

theorem Matched.agesFromEnd (hs : s.Matched chatOf) : s.AgesFromEnd chatOf textNumber event := by
  intro now stall hstalled ended hended
  cases event with
  | scanForStalls n timeoutMs escalateOnStall =>
    obtain rfl := Watchdog.now_of_mem_scan hstalled
    obtain ⟨entry, hentry, -, hage⟩ :=
      Watchdog.entry_of_mem_stalls (Watchdog.stall_of_mem_scan hstalled)
    have hprogress := (hs.ended _ _ hended).2 entry hentry
    calc stall.ageMs = now - entry.lastProgressAt := hage
      _ = now - ended := by rw [hprogress]
  | aborterCalled n =>
    obtain ⟨request, -, heq⟩ := request_of_callAborter hstalled
    cases heq
  | abortFailed n escalateOnStall =>
    obtain ⟨request, -, heq⟩ := request_of_failAbort hstalled
    cases heq
  | _ => cases hstalled

/-- In an orderly run no scan touches a chat that waits for its user, and a chat whose last prompt
has ended is as old as that end. -/
theorem waiting_chats_spared (chatOf : ι → χ) (textNumber : String → Option ℚ)
    (events : List (WatchdogEvent χ ι α))
    (horderly : Along (WatchdogScene.next chatOf textNumber) (Orderly chatOf) initial events) :
    Along (WatchdogScene.next chatOf textNumber)
      (fun s event => s.SparesWaiting chatOf textNumber event ∧
        s.AgesFromEnd chatOf textNumber event) initial events :=
  along_of_invariant (fun _ _ hs h => hs.next h)
    (fun _ _ hs _ => ⟨hs.sparesWaiting, hs.agesFromEnd⟩) matched_initial horderly

end Runs

section Samples

/-- One chat, one session, no aborter. -/
abbrev LoneEvent := WatchdogEvent Unit Unit Unit

def answeredLate : List LoneEvent :=
  [.beginTrackedPhase () .prompt none 0, .uiPromptStart () .confirm none 1,
    .scanForStalls 5000 1000 true, .uiPromptEnd () 0 6000, .scanForStalls 7000 1000 true]

theorem waiting_chats_spared_answeredLate :
    Along (WatchdogScene.next (fun _ : Unit => ()) (fun _ => none))
      (fun s event => s.SparesWaiting (fun _ => ()) (fun _ => none) event ∧
        s.AgesFromEnd (fun _ => ()) (fun _ => none) event) initial answeredLate := by
  refine waiting_chats_spared _ _ answeredLate ⟨?_, ⟨?_, ?_⟩, trivial, .inl ?_, trivial, trivial⟩
  · rintro ⟨prompt, hprompt, -⟩
    cases hprompt
  · intro prompt hprompt
    cases hprompt
  · intro request hrequest
    cases hrequest
  · exact List.mem_cons_self

def promptedFirst : List LoneEvent :=
  [.uiPromptStart () .confirm none 0, .beginTrackedPhase () .prompt none 1]

/-- The prompt is open, and the scan reports the phase that began after it. -/
theorem waiting_chat_stalled :
    let s := run (WatchdogScene.next (fun _ : Unit => ()) (fun _ => none)) initial promptedFirst
    s.Awaits (fun _ => ()) () ∧ ¬ s.SparesWaiting (fun _ => ()) (fun _ => none)
      (.scanForStalls 1001 1000 false) := by
  intro s
  have hawaits : s.Awaits (fun _ => ()) () := by decide +kernel
  refine ⟨hawaits, fun hspares => ?_⟩
  have hstalled : (s.react (fun _ => ()) (fun _ => none) (.scanForStalls 1001 1000 false)).2 ≠ [] := by
    decide +kernel
  obtain ⟨effect, heffect⟩ := List.exists_mem_of_ne_nil _ hstalled
  exact hspares effect heffect hawaits

end Samples

end WatchdogScene
end Piclaw
