import Piclaw.CdpView

/-!
# Control of browsers is exclusive

What holds of the maps and of each connection after any events. An `attach` takes its tab only when
its `detach` has ended, because no other part of a handler comes behind it.
-/

namespace Piclaw

namespace CdpViewConnection

/-- The socket of the connection is there and has not closed. -/
def Live (conn : CdpViewConnection) : Prop :=
  conn.upstream ≠ none ∧ conn.upstream ≠ some .closed

/-- A part of `attach` or of `close` behind which nothing comes. -/
def final : ViewStep → Bool
  | .findSource .. => true
  | .findTarget .. => true
  | .openTab .. => true
  | .detach next => decide (next ≠ .goOn)
  | .endDetach next => decide (next ≠ .goOn)
  | _ => false

def Shaped (todo : List ViewStep) : Prop :=
  ∀ step ∈ todo.dropLast, final step = false

/-- The frames of a stream: of the current one at most that is open which `unacked` names. -/
structure Frames (conn : CdpViewConnection) : Prop where
  streams : ∀ sent ∈ conn.sentOpen, sent.1 ≤ conn.generation
  numbers : ∀ sent ∈ conn.sentOpen, sent.2 < conn.received
  current : conn.Live → ∀ sent ∈ conn.sentOpen, sent.1 = conn.generation →
    ∃ frame, conn.unacked = some (frame, sent.2)
  distinct : (conn.sentOpen.map Prod.fst).Nodup
  waiting : ∀ frame number, conn.unacked = some (frame, number) →
    number < conn.received ∧ number ∉ conn.acks
  acked : ∀ number ∈ conn.acks, number < conn.received
  once : conn.acks.Nodup

/-- After `close` nothing is left. -/
structure Settled (conn : CdpViewConnection) : Prop where
  disposed : conn.disposed = true
  cleaning : conn.cleaning = true
  upstream : conn.upstream = none
  control : conn.control = false
  unacked : conn.unacked = none
  pending : conn.pending = []
  task : conn.task = none

/-- What the parts still to come rely on. -/
structure TaskSound (conn : CdpViewConnection) (task : ViewTask) : Prop where
  shaped : Shaped task.todo
  caught : ∀ step ∈ task.onError, final step = false
  opening : ∀ source target token, .openTab source target token ∈ task.todo →
    ¬ conn.Live ∧ conn.control = false
  settling : (.detach .settle ∈ task.todo ∨ .endDetach .settle ∈ task.todo) →
    conn.disposed = true ∧ conn.cleaning = true

structure Orderly (conn : CdpViewConnection) : Prop where
  frames : Frames conn
  tasks : ∀ task, conn.task = some task → TaskSound conn task
  settled : conn.settled = true → Settled conn

theorem orderly_fresh : Orderly fresh where
  frames := by constructor <;> simp [fresh]
  tasks _ htask := nomatch htask
  settled hsettled := nomatch hsettled

theorem Shaped.tail {step : ViewStep} {rest : List ViewStep} (h : Shaped (step :: rest)) :
    Shaped rest := by
  cases rest with
  | nil => exact fun _ hmem => nomatch hmem
  | cons next rest => exact fun other hmem => h other (List.mem_cons_of_mem _ hmem)

theorem Shaped.last {step : ViewStep} {rest : List ViewStep} (h : Shaped (step :: rest))
    (hfinal : final step = true) : rest = [] := by
  cases rest with
  | nil => rfl
  | cons next rest =>
    have hstep := h step (List.mem_cons_self ..)
    rw [hfinal] at hstep
    cases hstep

theorem shaped_of_plain {more rest : List ViewStep} (hmore : ∀ step ∈ more, final step = false)
    (hrest : Shaped rest) : Shaped (more ++ rest) := by
  intro step hstep
  cases rest with
  | nil =>
    rw [List.append_nil] at hstep
    exact hmore step (List.dropLast_subset _ hstep)
  | cons next rest =>
    rw [List.dropLast_append_of_ne_nil (List.cons_ne_nil _ _)] at hstep
    rcases List.mem_append.mp hstep with hstep | hstep
    · exact hmore step hstep
    · exact hrest step hstep

theorem shaped_plain {todo : List ViewStep} (htodo : ∀ step ∈ todo, final step = false) :
    Shaped todo := fun step hstep => htodo step (List.dropLast_subset _ hstep)

end CdpViewConnection

namespace CdpViews
open CdpViewConnection

/-- What the three maps and the flags of the connections say of each other. -/
structure Exclusive (s : CdpViews) : Prop where
  controlled : ∀ source c, s.controllers source = some c →
    (s.conns c).control = true ∧ (s.conns c).sourceId = source
  controlling : ∀ c, (s.conns c).control = true → s.controllers (s.conns c).sourceId = some c
  counted : ∀ source, s.toolCalls source = s.handles.countP fun handle =>
    decide (handle.2 = source)
  free : ∀ source c, s.controllers source = some c → s.toolCalls source = 0
  viewed : ∀ key c, s.tabViewers key = some c → (s.conns c).key = key ∧ (s.conns c).Live
  viewing : ∀ c, (s.conns c).Live → s.tabViewers (s.conns c).key = some c

structure Sound (s : CdpViews) : Prop where
  maps : Exclusive s
  conns : ∀ c, Orderly (s.conns c)

theorem sound_initial : Sound initial where
  maps := by
    constructor <;> simp [initial, fresh, Live]
  conns _ := orderly_fresh

variable {s : CdpViews} {c : ℕ}

@[simp]
theorem conns_setConn (conn : CdpViewConnection) : (s.setConn c conn).conns c = conn := by
  simp [setConn]

theorem conns_setConn_of_ne (conn : CdpViewConnection) {other : ℕ} (hother : other ≠ c) :
    (s.setConn c conn).conns other = s.conns other := by
  simp [setConn, hother]

/-- What the maps say of a connection. -/
structure SameHolds (conn conn' : CdpViewConnection) : Prop where
  control : conn'.control = conn.control
  sourceId : conn'.sourceId = conn.sourceId
  targetId : conn'.targetId = conn.targetId
  live : conn'.Live ↔ conn.Live

theorem SameHolds.key {conn conn' : CdpViewConnection} (h : SameHolds conn conn') :
    conn'.key = conn.key := by
  unfold CdpViewConnection.key
  rw [h.sourceId, h.targetId]

/-- Connections that hold the same leave the maps right. -/
theorem Exclusive.of_conns (h : Exclusive s) {conns : ℕ → CdpViewConnection}
    (hsame : ∀ c, SameHolds (s.conns c) (conns c)) : Exclusive { s with conns } where
  controlled source c howner := by
    obtain ⟨hcontrol, hsource⟩ := h.controlled source c howner
    exact ⟨(hsame c).control.trans hcontrol, (hsame c).sourceId.trans hsource⟩
  controlling c hcontrol := by
    have howner := h.controlling c ((hsame c).control.symm.trans hcontrol)
    exact (hsame c).sourceId.symm ▸ howner
  counted := h.counted
  free := h.free
  viewed key c hviewer := by
    obtain ⟨hkey, hlive⟩ := h.viewed key c hviewer
    exact ⟨(hsame c).key.trans hkey, (hsame c).live.mpr hlive⟩
  viewing c hlive := by
    have hviewer := h.viewing c ((hsame c).live.mp hlive)
    exact (hsame c).key.symm ▸ hviewer

theorem SameHolds.refl (conn : CdpViewConnection) : SameHolds conn conn :=
  ⟨rfl, rfl, rfl, Iff.rfl⟩

theorem Exclusive.setConn (h : Exclusive s) {conn : CdpViewConnection}
    (hsame : SameHolds (s.conns c) conn) : Exclusive (s.setConn c conn) := by
  refine h.of_conns fun other => ?_
  by_cases hother : other = c
  · subst other
    rw [Function.update_self]
    exact hsame
  · rw [Function.update_of_ne hother]
    exact SameHolds.refl _

theorem Sound.setConn (h : Sound s) {conn : CdpViewConnection}
    (hsame : SameHolds (s.conns c) conn) (hconn : Orderly conn) : Sound (s.setConn c conn) where
  maps := h.maps.setConn hsame
  conns other := by
    by_cases hother : other = c
    · subst other
      rw [conns_setConn]
      exact hconn
    · rw [conns_setConn_of_ne conn hother]
      exact h.conns other

theorem Sound.close (h : Sound s) (c : ℕ) : Sound (s.close c) := by
  refine h.setConn ⟨rfl, rfl, rfl, Iff.rfl⟩ ?_
  have hconn := h.conns c
  exact {
    frames := { hconn.frames with }
    tasks := fun task htask => { hconn.tasks task htask with
      settling := fun hstep => ⟨rfl, ((hconn.tasks task htask).settling hstep).2⟩ }
    settled := fun hsettled => { hconn.settled hsettled with disposed := rfl } }

theorem Sound.registerCdpViewSource (h : Sound s) (source : CdpBrowserSource) :
    Sound (s.registerCdpViewSource source) := by
  unfold CdpViews.registerCdpViewSource
  split_ifs
  · exact h
  · exact ⟨{ h.maps with }, h.conns⟩

theorem orderly_closed {conn : CdpViewConnection} (h : Orderly conn) : Orderly (closed conn) where
  frames := { h.frames with }
  tasks task htask := { h.tasks task htask with
    settling := fun hstep => ⟨rfl, ((h.tasks task htask).settling hstep).2⟩ }
  settled hsettled := { h.settled hsettled with disposed := rfl }

theorem Sound.unregister (h : Sound s) (sourceId : String) (token : ℕ) :
    Sound (s.unregister sourceId token) := by
  unfold CdpViews.unregister
  split_ifs
  · exact h
  · have hmaps : Exclusive { s with conns := fun c =>
        if (s.conns c).sourceId = sourceId then closed (s.conns c) else s.conns c } := by
      refine h.maps.of_conns fun c => ?_
      split_ifs
      · exact ⟨rfl, rfl, rfl, Iff.rfl⟩
      · exact SameHolds.refl _
    refine ⟨{ hmaps with }, fun c => ?_⟩
    dsimp only
    split_ifs
    · exact orderly_closed (h.conns c)
    · exact h.conns c

theorem Sound.beginCdpViewTool (h : Sound s) (sourceId : String) :
    Sound (s.beginCdpViewTool sourceId) := by
  unfold CdpViews.beginCdpViewTool
  split_ifs with howned
  · exact h
  · refine ⟨{ h.maps with counted := fun source => ?_, free := fun source c howner => ?_ }, h.conns⟩
    · rw [List.countP_append, ← h.maps.counted source]
      by_cases hsource : source = sourceId
      · subst source
        simp
      · simp [Function.update_of_ne hsource, Ne.symm hsource]
    · have hsource : source ≠ sourceId := by
        rintro rfl
        exact howned (by rw [show s.controllers source = some c from howner]; rfl)
      dsimp only
      rw [Function.update_of_ne hsource]
      exact h.maps.free source c howner

theorem Sound.releaseTool (h : Sound s) (handle : ℕ × String) : Sound (s.releaseTool handle) := by
  unfold CdpViews.releaseTool
  split_ifs with hmem
  · refine ⟨{ h.maps with counted := fun source => ?_, free := fun source c howner => ?_ }, h.conns⟩
    · dsimp only
      rw [List.countP_erase, ← h.maps.counted source]
      by_cases hsource : source = handle.2
      · subst source
        simp [hmem]
      · simp [Function.update_of_ne hsource, Ne.symm hsource]
    · have hzero := h.maps.free source c howner
      dsimp only
      by_cases hsource : source = handle.2
      · subst source
        rw [Function.update_self, hzero]
      · rw [Function.update_of_ne hsource]
        exact hzero
  · exact h

/-- Whoever lets go of his holds is neither controller nor viewer. -/
theorem Exclusive.drop (h : Exclusive s) {conn : CdpViewConnection}
    (hcontrol : conn.control = false) (hlive : ¬ conn.Live) :
    Exclusive ((s.dropHolds c).setConn c conn) where
  controlled source other howner := by
    have hkept : s.controllers source = some other ∧ other ≠ c := by
      simp only [CdpViews.setConn, dropHolds] at howner
      split_ifs at howner with hdrop
      refine ⟨howner, ?_⟩
      rintro rfl
      exact hdrop ⟨(h.controlled source other howner).2.symm, howner⟩
    rw [conns_setConn_of_ne conn hkept.2]
    exact h.controlled source other hkept.1
  controlling other hother := by
    by_cases hsame : other = c
    · subst other
      rw [conns_setConn, hcontrol] at hother
      cases hother
    · rw [conns_setConn_of_ne conn hsame] at hother ⊢
      have howner := h.controlling other hother
      have hkept : ¬ ((s.conns other).sourceId = (s.conns c).sourceId ∧
          s.controllers (s.conns other).sourceId = some c) := fun hdrop =>
        hsame (Option.some.inj (howner.symm.trans hdrop.2))
      simp only [CdpViews.setConn, dropHolds]
      rw [if_neg hkept]
      exact howner
  counted := h.counted
  free source other howner := by
    simp only [CdpViews.setConn, dropHolds] at howner
    split_ifs at howner
    exact h.free source other howner
  viewed key other hviewer := by
    have hkept : s.tabViewers key = some other ∧ other ≠ c := by
      simp only [CdpViews.setConn, dropHolds] at hviewer
      split_ifs at hviewer with hdrop
      refine ⟨hviewer, ?_⟩
      rintro rfl
      exact hdrop ⟨(h.viewed key other hviewer).1.symm, hviewer⟩
    rw [conns_setConn_of_ne conn hkept.2]
    exact h.viewed key other hkept.1
  viewing other hother := by
    by_cases hsame : other = c
    · subst other
      rw [conns_setConn] at hother
      exact absurd hother hlive
    · rw [conns_setConn_of_ne conn hsame] at hother ⊢
      have hviewer := h.viewing other hother
      have hkept : ¬ ((s.conns other).key = (s.conns c).key ∧
          s.tabViewers (s.conns other).key = some c) := fun hdrop =>
        hsame (Option.some.inj (hviewer.symm.trans hdrop.2))
      simp only [CdpViews.setConn, dropHolds]
      rw [if_neg hkept]
      exact hviewer

theorem Sound.drop (h : Sound s) {conn : CdpViewConnection} (hcontrol : conn.control = false)
    (hlive : ¬ conn.Live) (hconn : Orderly conn) : Sound ((s.dropHolds c).setConn c conn) where
  maps := h.maps.drop hcontrol hlive
  conns other := by
    by_cases hother : other = c
    · subst other
      rw [conns_setConn]
      exact hconn
    · rw [conns_setConn_of_ne conn hother]
      exact h.conns other

theorem release_setConn (conn : CdpViewConnection) (hkey : conn.key = (s.conns c).key)
    (hsource : conn.sourceId = (s.conns c).sourceId) :
    (s.setConn c conn).release c = (s.dropHolds c).setConn c (released conn) := by
  simp [release, dropHolds, setConn, hkey, hsource]

theorem Sound.socketClosed (h : Sound s) (generation : ℕ) :
    Sound (s.socketClosed c generation) := by
  unfold CdpViews.socketClosed
  dsimp only
  split_ifs with hstale
  · exact h
  · refine Sound.close ?_ c
    rw [release_setConn { s.conns c with upstream := some .closed } rfl rfl]
    have hconn := h.conns c
    have hgone : ¬ (released { s.conns c with upstream := some .closed }).Live := fun hlive =>
      hlive.2 rfl
    refine h.drop rfl hgone ⟨?_, fun task htask => ?_, fun hsettled => ?_⟩
    · exact { hconn.frames with
        current := fun hlive => absurd hlive hgone
        waiting := fun _ _ hnone => nomatch hnone }
    · exact { hconn.tasks task htask with opening := fun _ _ _ _ => ⟨hgone, rfl⟩ }
    · exact absurd (hconn.settled hsettled).upstream fun hnone => hstale (.inr hnone)

theorem orderly_pending {conn : CdpViewConnection} (h : Orderly conn) {pending : List ℕ}
    {nextId : ℕ} (hpending : conn.pending = [] → conn.settled = true → pending = []) :
    Orderly { conn with pending, nextId } where
  frames := { h.frames with }
  tasks task htask := { h.tasks task htask with }
  settled hsettled := { h.settled hsettled with
    pending := hpending (h.settled hsettled).pending hsettled }

theorem Sound.settle (h : Sound s) (generation id : ℕ) : Sound (s.settle c generation id) := by
  unfold CdpViews.settle
  dsimp only
  split_ifs
  · exact h
  · exact h.setConn ⟨rfl, rfl, rfl, Iff.rfl⟩ (orderly_pending (h.conns c) fun hnone _ => by
      rw [hnone, List.erase_nil])

theorem orderly_command {conn : CdpViewConnection} (h : Orderly conn)
    (hopen : conn.upstream = some .opened) : Orderly conn.command :=
  orderly_pending h fun _ hsettled => by
    rw [(h.settled hsettled).upstream] at hopen
    cases hopen

theorem orderly_ackFrame {conn : CdpViewConnection} (h : Orderly conn) {number : ℕ}
    (hnumber : number < conn.received) (hfresh : number ∉ conn.acks)
    (hunacked : ∀ frame other, conn.unacked = some (frame, other) → other ≠ number) :
    Orderly (ackFrame conn number) := by
  unfold ackFrame
  split_ifs with hopen
  · have hcommand := orderly_command h hopen
    exact {
      frames := { hcommand.frames with
        waiting := fun frame other hother => by
          obtain ⟨hlt, hnot⟩ := h.frames.waiting frame other hother
          refine ⟨hlt, fun hmem => ?_⟩
          rcases List.mem_append.mp hmem with hmem | hmem
          · exact hnot hmem
          · exact hunacked frame other hother (List.mem_singleton.mp hmem)
        acked := fun other hother => by
          rcases List.mem_append.mp hother with hother | hother
          · exact h.frames.acked other hother
          · exact (List.mem_singleton.mp hother) ▸ hnumber
        once := by
          rw [List.nodup_append]
          refine ⟨h.frames.once, List.nodup_singleton _, fun other hother last hlast heq => ?_⟩
          exact hfresh ((List.mem_singleton.mp hlast) ▸ heq ▸ hother) }
      tasks := fun task htask => { hcommand.tasks task htask with }
      settled := fun hsettled => { hcommand.settled hsettled with } }
  · exact h

theorem sameHolds_ackFrame (conn : CdpViewConnection) (number : ℕ) :
    SameHolds conn (ackFrame conn number) := by
  unfold ackFrame
  split_ifs
  · exact ⟨rfl, rfl, rfl, Iff.rfl⟩
  · exact SameHolds.refl conn

/-- The acknowledged frame is no longer waited for. -/
theorem orderly_unacked {conn : CdpViewConnection} (h : Orderly conn) {frame number : ℕ}
    (hunacked : conn.unacked = some (frame, number)) :
    Orderly { conn with
      unacked := none
      sentOpen := conn.sentOpen.filter fun sent => decide (sent.2 ≠ number) } where
  frames := { h.frames with
    streams := fun sent hsent => h.frames.streams sent (List.mem_of_mem_filter hsent)
    numbers := fun sent hsent => h.frames.numbers sent (List.mem_of_mem_filter hsent)
    current := fun hlive sent hsent hstream => by
      obtain ⟨hmem, hnumber⟩ := List.mem_filter.mp hsent
      obtain ⟨other, hother⟩ := h.frames.current hlive sent hmem hstream
      have hsame : number = sent.2 := by
        rw [hunacked] at hother
        exact congrArg Prod.snd (Option.some.inj hother)
      exact absurd hsame.symm (of_decide_eq_true hnumber)
    distinct := h.frames.distinct.sublist (List.filter_sublist.map _)
    waiting := fun _ _ hnone => nomatch hnone }
  tasks task htask := { h.tasks task htask with }
  settled hsettled := { h.settled hsettled with unacked := rfl }

theorem Sound.ack (h : Sound s) (frame stream : ℕ) : Sound (s.message c (.ack frame stream)) := by
  unfold CdpViews.message
  dsimp only
  split
  · rename_i unacked number hunacked
    split_ifs with hack
    · have hwaiting := (h.conns c).frames.waiting unacked number hunacked
      have hacked : ({ ackFrame (s.conns c) number with
          unacked := none
          sentOpen := (s.conns c).sentOpen.filter fun sent => decide (sent.2 ≠ number) } :
            CdpViewConnection) =
          ackFrame { s.conns c with
            unacked := none
            sentOpen := (s.conns c).sentOpen.filter fun sent => decide (sent.2 ≠ number) }
            number := by
        unfold ackFrame
        dsimp only
        split_ifs
        · rfl
        · rfl
      have hsame := sameHolds_ackFrame (s.conns c) number
      refine h.setConn ⟨hsame.control, hsame.sourceId, hsame.targetId, hsame.live⟩ ?_
      rw [hacked]
      exact orderly_ackFrame (orderly_unacked (h.conns c) hunacked) hwaiting.1 hwaiting.2
        fun _ _ hnone => nomatch hnone
    · exact h
  · exact h

theorem Sound.message (h : Sound s) (raw : RawMessage) : Sound (s.message c raw) := by
  cases raw with
  | tooLarge => exact h.close c
  | invalid => exact h
  | ack frame stream => exact h.ack frame stream
  | queued message =>
    have hconn := h.conns c
    simp only [CdpViews.message]
    by_cases hfull : 64 ≤ (s.conns c).queue.length + (if (s.conns c).task.isSome then 1 else 0)
    · rw [if_pos hfull]
      exact h.close c
    rw [if_neg hfull]
    split_ifs
    · exact h
    · exact h.setConn ⟨rfl, rfl, rfl, Iff.rfl⟩ {
        frames := { hconn.frames with }
        tasks := fun task htask => { hconn.tasks task htask with }
        settled := fun hsettled => { hconn.settled hsettled with } }

/-- Only the number of the frames that came grows. -/
theorem orderly_received {conn : CdpViewConnection} (h : Orderly conn) :
    Orderly { conn with received := conn.received + 1 } where
  frames := { h.frames with
    numbers := fun sent hsent => Nat.lt_succ_of_lt (h.frames.numbers sent hsent)
    waiting := fun frame number hunacked =>
      ⟨Nat.lt_succ_of_lt (h.frames.waiting frame number hunacked).1,
        (h.frames.waiting frame number hunacked).2⟩
    acked := fun number hnumber => Nat.lt_succ_of_lt (h.frames.acked number hnumber) }
  tasks task htask := { h.tasks task htask with }
  settled hsettled := { h.settled hsettled with }

theorem Sound.frame (h : Sound s) (generation sessionId : ℕ) (oversized : Bool) :
    Sound (s.frame c generation sessionId oversized) := by
  have hconn := h.conns c
  have hfresh : (s.conns c).received ∉ (s.conns c).acks := fun hmem =>
    lt_irrefl _ (hconn.frames.acked _ hmem)
  unfold CdpViews.frame
  dsimp only
  by_cases hstale : generation ≠ (s.conns c).generation ∨ (s.conns c).upstream ≠ some .opened
  · rw [if_pos hstale]
    exact h
  rw [if_neg hstale]
  have hopen : (s.conns c).upstream = some .opened := not_not.mp (not_or.mp hstale).2
  by_cases hoversized : oversized = true
  · rw [if_pos hoversized]
    have hgrown : Sound (s.setConn c { s.conns c with received := (s.conns c).received + 1 }) :=
      h.setConn ⟨rfl, rfl, rfl, Iff.rfl⟩ (orderly_received hconn)
    exact hgrown.close c
  rw [if_neg hoversized]
  by_cases hunacked : (s.conns c).unacked.isSome = true
  · rw [if_pos hunacked]
    have hacked : ({ ackFrame (s.conns c) (s.conns c).received with
        received := (s.conns c).received + 1 } : CdpViewConnection) =
        ackFrame { s.conns c with received := (s.conns c).received + 1 }
          (s.conns c).received := by
      unfold ackFrame
      dsimp only
      split_ifs
      · rfl
    have hsame := sameHolds_ackFrame (s.conns c) (s.conns c).received
    refine h.setConn ⟨hsame.control, hsame.sourceId, hsame.targetId, hsame.live⟩ ?_
    rw [hacked]
    refine orderly_ackFrame (orderly_received hconn) (Nat.lt_succ_self _) hfresh ?_
    exact fun frame other hother => (hconn.frames.waiting frame other hother).1.ne
  · rw [if_neg hunacked]
    -- nothing of the stream is open, for nothing is waited for
    have hnone : ∀ sent ∈ (s.conns c).sentOpen, sent.1 ≠ (s.conns c).generation := by
      intro sent hsent hstream
      have hlive : (s.conns c).Live := by
        unfold Live
        rw [hopen]
        exact ⟨by simp, by simp⟩
      obtain ⟨other, hother⟩ := hconn.frames.current hlive sent hsent hstream
      exact hunacked (by rw [hother]; rfl)
    refine h.setConn ⟨rfl, rfl, rfl, Iff.rfl⟩ {
      frames := ?_
      tasks := fun task htask => { hconn.tasks task htask with }
      settled := fun hsettled => by
        have hgone := (hconn.settled hsettled).upstream
        rw [hopen] at hgone
        cases hgone }
    refine { (orderly_received hconn).frames with
      streams := fun sent hsent => ?_
      numbers := fun sent hsent => ?_
      current := fun _ sent hsent hstream => ?_
      distinct := ?_
      waiting := fun frame number hnumber => ?_ }
    · dsimp only at hsent
      split_ifs at hsent
      · exact hconn.frames.streams sent hsent
      · rcases List.mem_append.mp hsent with hsent | hsent
        · exact hconn.frames.streams sent hsent
        · rw [List.mem_singleton.mp hsent]
    · dsimp only at hsent
      split_ifs at hsent
      · exact Nat.lt_succ_of_lt (hconn.frames.numbers sent hsent)
      · rcases List.mem_append.mp hsent with hsent | hsent
        · exact Nat.lt_succ_of_lt (hconn.frames.numbers sent hsent)
        · rw [List.mem_singleton.mp hsent]
          exact Nat.lt_succ_self _
    · dsimp only at hsent
      split_ifs at hsent
      · exact absurd hstream (hnone sent hsent)
      · rcases List.mem_append.mp hsent with hsent | hsent
        · exact absurd hstream (hnone sent hsent)
        · rw [List.mem_singleton.mp hsent]
          exact ⟨sessionId, rfl⟩
    · dsimp only
      split_ifs
      · exact hconn.frames.distinct
      · simpa [List.nodup_append, hconn.frames.distinct] using fun stream number hmem =>
          hnone (stream, number) hmem
    · cases hnumber
      exact ⟨Nat.lt_succ_self _, hfresh⟩

/-- A socket that stays alive in another state. -/
theorem orderly_upstream {conn : CdpViewConnection} (h : Orderly conn) (state : ReadyState)
    (hlive : conn.Live) (hstate : state ≠ .closed) :
    SameHolds conn { conn with upstream := some state } ∧
      Orderly { conn with upstream := some state } := by
  have hnew : ({ conn with upstream := some state } : CdpViewConnection).Live :=
    ⟨by simp, by simpa using hstate⟩
  exact ⟨⟨rfl, rfl, rfl, ⟨fun _ => hlive, fun _ => hnew⟩⟩, {
    frames := { h.frames with current := fun _ => h.frames.current hlive }
    tasks := fun task htask => { h.tasks task htask with
      opening := fun source target token hmem =>
        absurd hlive ((h.tasks task htask).opening source target token hmem).1 }
    settled := fun hsettled => absurd (h.settled hsettled).upstream hlive.1 }⟩

theorem live_of_upstream {conn : CdpViewConnection} {state : ReadyState}
    (hupstream : conn.upstream = some state) (hstate : state ≠ .closed) : conn.Live := by
  unfold Live
  rw [hupstream]
  exact ⟨by simp, by simpa using hstate⟩

theorem Sound.socketState (h : Sound s) (generation : ℕ) (opens : Bool) :
    Sound (s.socketState c generation opens) := by
  unfold CdpViews.socketState
  dsimp only
  split_ifs with hstale hopens hconnecting hlive
  · exact h
  · obtain ⟨hsame, hconn⟩ := orderly_upstream (h.conns c) .opened
      (live_of_upstream hconnecting (by simp)) (by simp)
    exact h.setConn hsame hconn
  · exact h
  · have hwas : (s.conns c).Live := hlive.elim (fun hwas => live_of_upstream hwas (by simp))
      fun hwas => live_of_upstream hwas (by simp)
    obtain ⟨hsame, hconn⟩ := orderly_upstream (h.conns c) .closing hwas (by simp)
    exact h.setConn hsame hconn
  · exact h

theorem Sound.startCleanup (h : Sound s) : Sound (s.startCleanup c) := by
  have hconn := h.conns c
  unfold CdpViews.startCleanup
  dsimp only
  split_ifs with hready
  · refine h.setConn ⟨rfl, rfl, rfl, Iff.rfl⟩ {
      frames := { hconn.frames with }
      tasks := fun task htask => ?_
      settled := fun hsettled => ?_ }
    · cases htask
      exact {
        shaped := fun _ hmem => nomatch hmem
        caught := fun _ hmem => nomatch hmem
        opening := fun _ _ _ hmem => by simp at hmem
        settling := fun _ => ⟨hready.1, rfl⟩ }
    · have hcleaning := (hconn.settled hsettled).cleaning
      rw [hcleaning] at hready
      exact absurd hready.2.1 (by simp)
  · exact h

/-- What a part of the handler of `c` leaves as the other parts rely on it. -/
structure StepOk (s s' : CdpViews) (c : ℕ) : Prop where
  maps : Exclusive s'
  others : ∀ other, other ≠ c → s'.conns other = s.conns other
  frames : Frames (s'.conns c)
  disposed : (s'.conns c).disposed = (s.conns c).disposed
  cleaning : (s'.conns c).cleaning = (s.conns c).cleaning
  settled : (s'.conns c).settled = false
  quiet : ¬ (s.conns c).Live → (s.conns c).control = false →
    ¬ (s'.conns c).Live ∧ (s'.conns c).control = false

theorem stepOk_refl (h : Sound s) (hbusy : (s.conns c).settled = false) : StepOk s s c where
  maps := h.maps
  others _ _ := rfl
  frames := (h.conns c).frames
  disposed := rfl
  cleaning := rfl
  settled := hbusy
  quiet hlive hcontrol := ⟨hlive, hcontrol⟩

/-- The connection changes in what neither the maps nor its flags say. -/
theorem StepOk.setConn {s' : CdpViews} (h : StepOk s s' c) {conn : CdpViewConnection}
    (hsame : SameHolds (s'.conns c) conn) (hframes : Frames conn)
    (hdisposed : conn.disposed = (s'.conns c).disposed)
    (hcleaning : conn.cleaning = (s'.conns c).cleaning)
    (hsettled : conn.settled = (s'.conns c).settled) : StepOk s (s'.setConn c conn) c where
  maps := h.maps.setConn hsame
  others other hother := (conns_setConn_of_ne conn hother).trans (h.others other hother)
  frames := by rw [conns_setConn]; exact hframes
  disposed := by rw [conns_setConn]; exact hdisposed.trans h.disposed
  cleaning := by rw [conns_setConn]; exact hcleaning.trans h.cleaning
  settled := by rw [conns_setConn]; exact hsettled.trans h.settled
  quiet hlive hcontrol := by
    obtain ⟨hlive', hcontrol'⟩ := h.quiet hlive hcontrol
    rw [conns_setConn]
    exact ⟨fun hconn => hlive' (hsame.live.mp hconn), hsame.control.trans hcontrol'⟩

/-- The handler closes its socket, which stays until the event of its end. -/
theorem StepOk.closing (h : StepOk s s c) (hlive : (s.conns c).Live) :
    StepOk s (s.setConn c { s.conns c with upstream := some .closing }) c :=
  h.setConn ⟨rfl, rfl, rfl, ⟨fun _ => hlive, fun _ => live_of_upstream rfl (by simp)⟩⟩
    { h.frames with current := fun _ => h.frames.current hlive } rfl rfl rfl

theorem StepOk.sendAwaited {s' : CdpViews} (h : StepOk s s' c) (caught : Bool) :
    StepOk s (s'.sendAwaited c caught).1 c := by
  unfold CdpViews.sendAwaited
  dsimp only
  split_ifs
  · exact h.setConn ⟨rfl, rfl, rfl, Iff.rfl⟩ { h.frames with } rfl rfl rfl
  · exact h
  · exact h

theorem plain_sendAwaited {caught : Bool} {more : List ViewStep} {awaiting : Option AwaitedCommand}
    (hmore : (s.sendAwaited c caught).2 = some (more, awaiting)) :
    ∀ step ∈ more, final step = false := by
  unfold sendAwaited at hmore
  dsimp only at hmore
  split_ifs at hmore
  · cases hmore
    exact fun _ hmem => nomatch hmem
  · cases hmore
    exact fun _ hmem => nomatch hmem

/-- Who views which tab does not depend on who controls. -/
theorem Exclusive.view_setControl (h : Exclusive s) (c : ℕ) (control : Bool) :
    let s' := s.setConn c { s.conns c with control := control }
    (∀ key other, s.tabViewers key = some other →
      (s'.conns other).key = key ∧ (s'.conns other).Live) ∧
      ∀ other, (s'.conns other).Live → s.tabViewers (s'.conns other).key = some other := by
  constructor
  · intro key other hviewer
    obtain ⟨hkey, hlive⟩ := h.viewed key other hviewer
    by_cases hne : other = c
    · subst other
      rw [conns_setConn]
      exact ⟨hkey, hlive⟩
    · rw [conns_setConn_of_ne _ hne]
      exact ⟨hkey, hlive⟩
  · intro other hlive
    by_cases hne : other = c
    · subst other
      rw [conns_setConn] at hlive ⊢
      exact h.viewing c hlive
    · rw [conns_setConn_of_ne _ hne] at hlive ⊢
      exact h.viewing other hlive

theorem StepOk.setControl (h : StepOk s s c) (enabled : Bool) :
    StepOk s (s.setControl c enabled).1 c := by
  unfold CdpViews.setControl
  dsimp only
  by_cases hopen : (s.conns c).upstream = some .opened
  case neg => rw [if_pos hopen]; exact h
  rw [if_neg (not_not.mpr hopen)]
  have hlive : (s.conns c).Live := live_of_upstream hopen (by simp)
  split_ifs with henabled htools howned
  · exact h
  · exact h
  · have hfree : ∀ owner, s.controllers (s.conns c).sourceId = some owner → owner = c := by
      intro owner howner
      by_contra hother
      exact howned (by rw [howner]; exact decide_eq_true hother)
    have hkept : ∀ other, other ≠ c → (s.conns other).control = true →
        (s.conns other).sourceId ≠ (s.conns c).sourceId := by
      intro other hother hcontrol hsource
      exact hother (hfree other (hsource ▸ h.maps.controlling other hcontrol))
    refine {
      maps := {
        controlled := fun source other howner => ?_
        controlling := fun other hcontrol => ?_
        counted := h.maps.counted
        free := fun source other howner => ?_
        viewed := (h.maps.view_setControl c true).1
        viewing := (h.maps.view_setControl c true).2 }
      others := fun other hother => conns_setConn_of_ne _ hother
      frames := ?_
      disposed := ?_
      cleaning := ?_
      settled := ?_
      quiet := fun hgone => absurd hlive hgone }
    · by_cases hsource : source = (s.conns c).sourceId
      · subst source
        obtain rfl : c = other := by simpa using howner
        simp [CdpViews.setConn]
      · have hold : s.controllers source = some other := by
          simpa [Function.update_of_ne hsource] using howner
        obtain ⟨hcontrol, hother⟩ := h.maps.controlled source other hold
        have hne : other ≠ c := fun heq => hsource (heq ▸ hother.symm)
        simpa [CdpViews.setConn, hne] using ⟨hcontrol, hother⟩
    · by_cases hother : other = c
      · subst other
        simp [CdpViews.setConn]
      · have hold : (s.conns other).control = true := by
          simpa [CdpViews.setConn, hother] using hcontrol
        have hsource := hkept other hother hold
        simpa [CdpViews.setConn, hother, Function.update_of_ne hsource] using
          h.maps.controlling other hold
    · by_cases hsource : source = (s.conns c).sourceId
      · subst source
        exact not_not.mp htools
      · exact h.maps.free source other (by
          simpa [Function.update_of_ne hsource] using howner)
    · simpa [CdpViews.setConn] using { h.frames with }
    · simp [CdpViews.setConn]
    · simp [CdpViews.setConn]
    · simpa [CdpViews.setConn] using h.settled
  · refine {
      maps := {
        controlled := fun source other howner => ?_
        controlling := fun other hcontrol => ?_
        counted := h.maps.counted
        free := fun source other howner => ?_
        viewed := (h.maps.view_setControl c false).1
        viewing := (h.maps.view_setControl c false).2 }
      others := fun other hother => conns_setConn_of_ne _ hother
      frames := ?_
      disposed := ?_
      cleaning := ?_
      settled := ?_
      quiet := fun hgone => absurd hlive hgone }
    · have hkept : s.controllers source = some other ∧ other ≠ c := by
        dsimp only at howner
        split_ifs at howner with hdrop
        refine ⟨howner, ?_⟩
        rintro rfl
        exact hdrop ⟨(h.maps.controlled source other howner).2.symm, howner⟩
      simpa [CdpViews.setConn, hkept.2] using h.maps.controlled source other hkept.1
    · by_cases hother : other = c
      · subst other
        simp [CdpViews.setConn] at hcontrol
      · have hold : (s.conns other).control = true := by
          simpa [CdpViews.setConn, hother] using hcontrol
        have howner := h.maps.controlling other hold
        have hkept : ¬ ((s.conns other).sourceId = (s.conns c).sourceId ∧
            s.controllers (s.conns other).sourceId = some c) := fun hdrop =>
          hother (Option.some.inj (howner.symm.trans hdrop.2))
        simp only [CdpViews.setConn, Function.update_of_ne hother]
        rw [if_neg hkept]
        exact howner
    · dsimp only at howner
      split_ifs at howner
      exact h.maps.free source other howner
    · simpa [CdpViews.setConn] using { h.frames with }
    · simp [CdpViews.setConn]
    · simp [CdpViews.setConn]
    · simpa [CdpViews.setConn] using h.settled

theorem sameHolds_heldAfter {conn after : CdpViewConnection} {value : ViewerInput}
    (hafter : heldAfter conn value = some after) :
    ∃ buttons keys touching, after = { conn with
      heldButtons := buttons, heldKeys := keys, touching := touching } := by
  cases value with
  | mouse pressed isReleased button valid =>
    simp only [heldAfter] at hafter
    split_ifs at hafter
    · exact ⟨_, _, _, (Option.some.inj hafter).symm⟩
    · exact ⟨_, _, _, (Option.some.inj hafter).symm⟩
    · exact ⟨_, _, _, (Option.some.inj hafter).symm⟩
  | touch ended valid =>
    simp only [heldAfter] at hafter
    split_ifs at hafter
    exact ⟨_, _, _, (Option.some.inj hafter).symm⟩
  | text valid =>
    simp only [heldAfter] at hafter
    split_ifs at hafter
    exact ⟨_, _, _, (Option.some.inj hafter).symm⟩
  | key down code valid =>
    simp only [heldAfter] at hafter
    split_ifs at hafter
    · exact ⟨_, _, _, (Option.some.inj hafter).symm⟩
    · exact ⟨_, _, _, (Option.some.inj hafter).symm⟩
  | other => cases hafter

theorem StepOk.input (h : StepOk s s c) (value : ViewerInput) :
    StepOk s (s.input c value).1 c := by
  unfold CdpViews.input
  split_ifs
  · exact h
  · split
    · exact h
    · rename_i after hafter
      obtain ⟨buttons, keys, touching, rfl⟩ := sameHolds_heldAfter hafter
      refine StepOk.sendAwaited ?_ false
      exact h.setConn ⟨rfl, rfl, rfl, Iff.rfl⟩ { h.frames with } rfl rfl rfl

theorem StepOk.resize (h : StepOk s s c) (value : ViewerResize) :
    StepOk s (s.resize c value).1 c := by
  unfold CdpViews.resize
  dsimp only
  by_cases hcontrol : (!(s.conns c).control) = true
  · rw [if_pos hcontrol]
    exact h
  rw [if_neg hcontrol]
  cases value with
  | off => exact h
  | other => exact h
  | size width height =>
    dsimp only
    split_ifs
    · exact h
    · exact h
    · refine StepOk.sendAwaited ?_ false
      exact h.setConn ⟨rfl, rfl, rfl, Iff.rfl⟩ { h.frames with } rfl rfl rfl

/-- The end of a `detach`, whatever comes next. -/
theorem endDetach_frames (h : Frames (s.conns c)) (next : AfterDetach) :
    Frames ((s.endDetach c next).conns c) := by
  unfold endDetach
  rw [conns_setConn]
  exact { h with
    streams := fun sent hsent => (h.streams sent hsent).trans (Nat.le_succ _)
    current := fun hlive => absurd rfl hlive.1
    waiting := fun _ _ hnone => nomatch hnone }

theorem endDetach_maps (h : Exclusive s) (next : AfterDetach) :
    Exclusive (s.endDetach c next) :=
  h.drop rfl fun hlive => hlive.1 rfl

theorem StepOk.endDetach (h : StepOk s s c) {next : AfterDetach} (hnext : next ≠ .settle) :
    StepOk s (s.endDetach c next) c where
  maps := endDetach_maps h.maps next
  others other hother := conns_setConn_of_ne _ hother
  frames := endDetach_frames h.frames next
  disposed := by simp [CdpViews.endDetach, released]
  cleaning := by simp [CdpViews.endDetach, released]
  settled := by simp [CdpViews.endDetach, released, h.settled, hnext]
  quiet _ _ := by
    unfold CdpViews.endDetach
    rw [conns_setConn]
    exact ⟨fun hlive => hlive.1 rfl, rfl⟩

/-- The connection becomes the viewer of the tab, which is nobody's. -/
theorem openTab_ok (h : StepOk s s c) (hquiet : ¬ (s.conns c).Live ∧ (s.conns c).control = false)
    (source target : String) (token : Option ℕ) :
    Exclusive (s.openTab c source target token).1 ∧
      (∀ other, other ≠ c → (s.openTab c source target token).1.conns other = s.conns other) ∧
      Frames ((s.openTab c source target token).1.conns c) ∧
      ((s.openTab c source target token).1.conns c).settled = false := by
  unfold openTab
  dsimp only
  split_ifs with htaken hgone
  · exact ⟨h.maps, fun _ _ => rfl, h.frames, h.settled⟩
  · exact ⟨h.maps, fun _ _ => rfl, h.frames, h.settled⟩
  · have hfree : ∀ viewer, s.tabViewers (tabKey source target) ≠ some viewer := by
      intro viewer hviewer
      have hsame : viewer = c := by
        by_contra hother
        refine htaken ?_
        unfold takenByOther
        rw [hviewer]
        exact decide_eq_true hother
      exact hquiet.1 (hsame ▸ (h.maps.viewed _ _ hviewer).2)
    have hother : ∀ {source' : String} {other : ℕ}, s.controllers source' = some other →
        other ≠ c := by
      rintro source' other howner rfl
      rw [(h.maps.controlled source' other howner).1] at hquiet
      cases hquiet.2
    refine ⟨{
      controlled := fun source' other howner => ?_
      controlling := fun other hcontrol => ?_
      counted := h.maps.counted
      free := h.maps.free
      viewed := fun key other hviewer => ?_
      viewing := fun other hlive => ?_ },
      fun other hne => conns_setConn_of_ne _ hne, ?_, ?_⟩
    · simpa [CdpViews.setConn, hother howner] using h.maps.controlled source' other howner
    · by_cases hne : other = c
      · subst other
        simp [CdpViews.setConn, hquiet.2] at hcontrol
      · have hold : (s.conns other).control = true := by
          simpa [CdpViews.setConn, hne] using hcontrol
        simpa [CdpViews.setConn, hne] using h.maps.controlling other hold
    · by_cases hkey : key = tabKey source target
      · subst key
        obtain rfl : c = other := by simpa using hviewer
        simp [CdpViews.setConn, CdpViewConnection.key, Live]
      · have hold : s.tabViewers key = some other := by
          simpa [Function.update_of_ne hkey] using hviewer
        obtain ⟨hother', hlive⟩ := h.maps.viewed key other hold
        have hne : other ≠ c := fun heq => hquiet.1 (heq ▸ hlive)
        simpa [CdpViews.setConn, hne] using ⟨hother', hlive⟩
    · by_cases hne : other = c
      · subst other
        simp [CdpViews.setConn, CdpViewConnection.key]
      · have hold : (s.conns other).Live := by simpa [CdpViews.setConn, hne] using hlive
        have hviewer := h.maps.viewing other hold
        have hkey : (s.conns other).key ≠ tabKey source target := fun heq =>
          hfree other (heq ▸ hviewer)
        simpa [CdpViews.setConn, hne, Function.update_of_ne hkey] using hviewer
    · have hframes : Frames { s.conns c with
          sourceId := source
          targetId := target
          generation := (s.conns c).generation + 1
          upstream := some .connecting } := { h.frames with
        streams := fun sent hsent => (h.frames.streams sent hsent).trans (Nat.le_succ _)
        current := fun _ sent hsent hstream =>
          absurd (h.frames.streams sent hsent) (by simp [hstream]) }
      simpa [CdpViews.setConn] using hframes
    · simpa [CdpViews.setConn] using h.settled

/-- A part behind which more may come leaves the connection sound and puts only such parts first. -/
theorem plain_runStep (h : StepOk s s c) (ok : Bool) {step : ViewStep}
    (hplain : final step = false) :
    StepOk s (s.runStep c ok step).1 c ∧ ∀ more awaiting,
      (s.runStep c ok step).2 = some (more, awaiting) → ∀ next ∈ more, final next = false := by
  cases step with
  | list =>
    exact ⟨h, fun more awaiting hmore => by cases hmore; simp⟩
  | findSource => cases hplain
  | findTarget => cases hplain
  | openTab => cases hplain
  | startScreencast generation =>
    simp only [runStep]
    split_ifs with hfailed hconnecting hgone hopened
    · have hlive := live_of_upstream hconnecting.2 (by simp)
      exact ⟨h.closing hlive, fun _ _ hmore => by cases hmore⟩
    · exact ⟨h, fun _ _ hmore => by cases hmore⟩
    · have hlive := live_of_upstream hopened.2 (by simp)
      exact ⟨h.closing hlive, fun _ _ hmore => by cases hmore; simp⟩
    · exact ⟨h, fun _ _ hmore => by cases hmore; simp⟩
    · exact ⟨h.sendAwaited false, fun _ _ hmore => plain_sendAwaited hmore⟩
  | setControl enabled =>
    refine ⟨h.setControl enabled, fun more awaiting hmore => ?_⟩
    simp only [runStep, CdpViews.setControl] at hmore
    split_ifs at hmore
    · cases hmore
      simp
    · cases hmore
      simp
  | input value =>
    refine ⟨h.input value, fun more awaiting hmore => ?_⟩
    simp only [runStep, CdpViews.input] at hmore
    split_ifs at hmore
    split at hmore
    · cases hmore
    · exact plain_sendAwaited hmore
  | resize value =>
    refine ⟨h.resize value, fun more awaiting hmore => ?_⟩
    simp only [runStep, CdpViews.resize] at hmore
    by_cases hcontrol : (!(s.conns c).control) = true
    · rw [if_pos hcontrol] at hmore
      cases hmore
    rw [if_neg hcontrol] at hmore
    cases value with
    | off =>
      cases hmore
      simp [final]
    | other => cases hmore
    | size width height =>
      dsimp only at hmore
      split_ifs at hmore
      exact plain_sendAwaited hmore
  | releaseInput =>
    refine ⟨h, fun more awaiting hmore next hnext => ?_⟩
    cases hmore
    simp only [List.mem_append, List.mem_map, List.mem_singleton] at hnext
    rcases hnext with ((⟨_, _, rfl⟩ | ⟨_, _, rfl⟩) | hnext) | rfl
    · rfl
    · rfl
    · split_ifs at hnext
      · rw [List.mem_singleton.mp hnext]
        rfl
      · cases hnext
    · rfl
  | clearHeld =>
    exact ⟨h.setConn ⟨rfl, rfl, rfl, Iff.rfl⟩ { h.frames with } rfl rfl rfl,
      fun _ _ hmore => by cases hmore; simp⟩
  | restoreViewport caught =>
    refine ⟨h, fun more awaiting hmore => ?_⟩
    cases hmore
    split_ifs
    · simp [final]
    · simp
  | viewportRestored =>
    exact ⟨h.setConn ⟨rfl, rfl, rfl, Iff.rfl⟩ { h.frames with } rfl rfl rfl,
      fun _ _ hmore => by cases hmore; simp⟩
  | command caught =>
    exact ⟨h.sendAwaited caught, fun _ _ hmore => plain_sendAwaited hmore⟩
  | detach next =>
    obtain rfl : next = .goOn := by simpa [final] using hplain
    refine ⟨h, fun more awaiting hmore => ?_⟩
    cases hmore
    split_ifs
    · simp [final]
    · simp [final]
  | endDetach next =>
    obtain rfl : next = .goOn := by simpa [final] using hplain
    exact ⟨h.endDetach (by simp), fun _ _ hmore => by cases hmore; simp⟩

/-- The state after a part, with the parts still to come. -/
theorem sound_withTask {s' : CdpViews} (h : Sound s) (hmaps : Exclusive s')
    (hothers : ∀ other, other ≠ c → s'.conns other = s.conns other)
    (hframes : Frames (s'.conns c)) {task : Option ViewTask}
    (htask : ∀ next, task = some next → TaskSound (s'.conns c) next)
    (hsettled : (s'.conns c).settled = true →
      Settled { s'.conns c with task := task }) : Sound (s'.withTask c task) where
  maps := hmaps.setConn ⟨rfl, rfl, rfl, Iff.rfl⟩
  conns other := by
    unfold withTask
    by_cases hother : other = c
    · subst other
      rw [conns_setConn]
      exact {
        frames := { hframes with }
        tasks := fun next hnext => { htask next hnext with }
        settled := hsettled }
    · rw [conns_setConn_of_ne _ hother, hothers other hother]
      exact h.conns other

theorem StepOk.withTask {s' : CdpViews} (h : StepOk s s' c) (hsound : Sound s)
    {task : Option ViewTask} (htask : ∀ next, task = some next → TaskSound (s'.conns c) next) :
    Sound (s'.withTask c task) :=
  sound_withTask hsound h.maps h.others h.frames htask fun hsettled => by
    rw [h.settled] at hsettled
    cases hsettled

theorem taskOf_eq {todo onError : List ViewStep} {awaiting : Option AwaitedCommand}
    {next : ViewTask} (hnext : taskOf todo awaiting onError = some next) :
    next = ⟨todo, awaiting, onError⟩ := by
  unfold taskOf at hnext
  split_ifs at hnext
  exact (Option.some.inj hnext).symm

/-- Parts behind which more may come are no part of `attach` or `close` that relies on anything. -/
theorem taskSound_plain {conn : CdpViewConnection} {todo onError : List ViewStep}
    {awaiting : Option AwaitedCommand} (htodo : ∀ step ∈ todo, final step = false)
    (honError : ∀ step ∈ onError, final step = false) :
    TaskSound conn ⟨todo, awaiting, onError⟩ where
  shaped := shaped_plain htodo
  caught := honError
  opening source target token hmem := nomatch htodo _ hmem
  settling hmem := by
    rcases hmem with hmem | hmem
    · exact nomatch htodo _ hmem
    · exact nomatch htodo _ hmem

/-- The one part to come relies neither on a tab nor on `close`. -/
theorem taskSound_single {conn : CdpViewConnection} {step : ViewStep} {onError : List ViewStep}
    {awaiting : Option AwaitedCommand} (honError : ∀ step ∈ onError, final step = false)
    (hopening : ∀ source target token, step ≠ .openTab source target token)
    (hsettling : step = .detach .settle ∨ step = .endDetach .settle →
      conn.disposed = true ∧ conn.cleaning = true) :
    TaskSound conn ⟨[step], awaiting, onError⟩ where
  shaped _ hmem := nomatch hmem
  caught := honError
  opening source target token hmem :=
    absurd (List.mem_singleton.mp hmem).symm (hopening source target token)
  settling hmem := hsettling (hmem.imp (fun hmem => (List.mem_singleton.mp hmem).symm)
    fun hmem => (List.mem_singleton.mp hmem).symm)

theorem plain_openTab {source target : String} {token : Option ℕ} {more : List ViewStep}
    {awaiting : Option AwaitedCommand}
    (hmore : (s.openTab c source target token).2 = some (more, awaiting)) :
    ∀ step ∈ more, final step = false := by
  unfold openTab at hmore
  dsimp only at hmore
  by_cases htaken : s.takenByOther c (tabKey source target) = true
  · rw [if_pos htaken] at hmore
    cases hmore
  rw [if_neg htaken] at hmore
  split_ifs at hmore
  · cases hmore
    simp
  · cases hmore
    simp [final]

theorem failed_sound {s' : CdpViews} (h : StepOk s s' c) (hsound : Sound s)
    {onError : List ViewStep} (honError : ∀ step ∈ onError, final step = false) :
    Sound (s'.withTask c (taskOf onError none [])) :=
  h.withTask hsound fun next hnext => by
    rw [taskOf_eq hnext]
    exact taskSound_plain honError fun _ hmem => nomatch hmem

/-- A connection whose handler runs has not settled. -/
theorem Sound.busy (h : Sound s) {task : ViewTask} (htask : (s.conns c).task = some task) :
    (s.conns c).settled = false := by
  by_contra hsettled
  have hnone := ((h.conns c).settled (by simpa using hsettled)).task
  rw [htask] at hnone
  cases hnone

theorem Sound.resumed (h : Sound s) {task : ViewTask} (htask : (s.conns c).task = some task)
    {step : ViewStep} {rest : List ViewStep} (htodo : task.todo = step :: rest) (ok : Bool) :
    Sound (proceed.resumed s c ok step rest task.onError) := by
  have hsound := ((h.conns c).tasks task htask)
  have hbusy := h.busy htask
  have hok := stepOk_refl h hbusy
  have hshaped : Shaped (step :: rest) := htodo ▸ hsound.shaped
  unfold proceed.resumed
  by_cases hplain : final step = false
  · obtain ⟨hstep, hmore⟩ := plain_runStep hok ok hplain
    split
    · rename_i s' hrun
      rw [hrun] at hstep
      exact failed_sound hstep h hsound.caught
    · rename_i s' more awaiting hrun
      rw [hrun] at hstep hmore
      have hfinals : ∀ next ∈ more, final next = false := hmore more awaiting rfl
      refine hstep.withTask h fun next hnext => ?_
      rw [taskOf_eq hnext]
      exact {
        shaped := shaped_of_plain hfinals hshaped.tail
        caught := hsound.caught
        opening := fun source target token hmem => by
          rcases List.mem_append.mp hmem with hmem | hmem
          · exact nomatch hfinals _ hmem
          · obtain ⟨hlive, hcontrol⟩ := hsound.opening source target token
              (htodo ▸ List.mem_cons_of_mem _ hmem)
            exact hstep.quiet hlive hcontrol
        settling := fun hmem => by
          have hrest : .detach .settle ∈ task.todo ∨ .endDetach .settle ∈ task.todo := by
            rw [htodo]
            rcases hmem with hmem | hmem
            · rcases List.mem_append.mp hmem with hmem | hmem
              · exact nomatch hfinals _ hmem
              · exact .inl (List.mem_cons_of_mem _ hmem)
            · rcases List.mem_append.mp hmem with hmem | hmem
              · exact nomatch hfinals _ hmem
              · exact .inr (List.mem_cons_of_mem _ hmem)
          rw [hstep.disposed, hstep.cleaning]
          exact hsound.settling hrest }
  · rw [Bool.not_eq_false] at hplain
    obtain rfl := hshaped.last hplain
    cases step with
    | findSource source target =>
      simp only [runStep]
      split_ifs
      · exact hok.withTask h fun next hnext => by
          rw [taskOf_eq hnext]
          exact taskSound_single hsound.caught (by simp) (by simp)
      · exact failed_sound hok h hsound.caught
      · cases s.findSource source with
        | none => exact failed_sound hok h hsound.caught
        | some token =>
          exact hok.withTask h fun next hnext => by
            rw [taskOf_eq hnext]
            exact taskSound_single hsound.caught (by simp) (by simp)
    | findTarget source target token =>
      simp only [runStep]
      split_ifs
      · exact failed_sound hok h hsound.caught
      · exact hok.withTask h fun next hnext => by
          rw [taskOf_eq hnext]
          exact taskSound_single hsound.caught (by simp) (by simp)
    | openTab source target token =>
      have hquiet := hsound.opening source target token (by simp [htodo])
      obtain ⟨hmaps, hothers, hframes, hsettled⟩ := openTab_ok hok hquiet source target token
      have hclear : ((s.openTab c source target token).1.conns c).settled = true →
          ∀ (task : Option ViewTask),
            Settled { (s.openTab c source target token).1.conns c with task := task } := by
        intro htrue
        rw [hsettled] at htrue
        cases htrue
      simp only [runStep]
      split
      · rename_i s' hrun
        rw [hrun] at hmaps hothers hframes hclear
        refine sound_withTask h hmaps hothers hframes (fun next hnext => ?_)
          fun htrue => hclear htrue _
        rw [taskOf_eq hnext]
        exact taskSound_plain hsound.caught fun _ hmem => nomatch hmem
      · rename_i s' more awaiting hrun
        have hplain : ∀ next ∈ more, final next = false :=
          plain_openTab (s := s) (congrArg Prod.snd hrun)
        rw [hrun] at hmaps hothers hframes hclear
        refine sound_withTask h hmaps hothers hframes (fun next hnext => ?_)
          fun htrue => hclear htrue _
        rw [taskOf_eq hnext, List.append_nil]
        exact taskSound_plain hplain hsound.caught
    | detach following =>
      have hsettling : following = .settle →
          (s.conns c).disposed = true ∧ (s.conns c).cleaning = true := by
        rintro rfl
        exact hsound.settling (.inl (by simp [htodo]))
      simp only [runStep]
      refine hok.withTask h fun next hnext => ?_
      rw [taskOf_eq hnext]
      split_ifs
      · exact ⟨fun step hmem => by
          simp only [List.append_nil, List.dropLast_cons_cons, List.dropLast_singleton,
            List.mem_cons, List.not_mem_nil, or_false] at hmem
          rcases hmem with rfl | rfl | rfl
          · rfl
          · rfl
          · rfl, hsound.caught, fun _ _ _ hmem => by simp at hmem,
          fun hmem => hsettling (Eq.symm (by simpa using hmem))⟩
      · exact taskSound_single hsound.caught (by simp) fun hstep => hsettling (by
          simpa using hstep)
    | endDetach following =>
      simp only [runStep]
      cases following with
      | goOn => cases hplain
      | settle =>
        obtain ⟨hdisposed, hcleaning⟩ := hsound.settling (.inr (by simp [htodo]))
        refine sound_withTask h (endDetach_maps h.maps _) (fun other hother =>
          conns_setConn_of_ne _ hother) (endDetach_frames (h.conns c).frames _)
            (fun next hnext => nomatch hnext) fun _ => ?_
        unfold CdpViews.endDetach
        rw [conns_setConn]
        exact ⟨hdisposed, hcleaning, rfl, rfl, rfl, rfl, rfl⟩
      | openTab source target token =>
        have hended : StepOk s (s.endDetach c (.openTab source target token)) c :=
          hok.endDetach (by simp)
        refine hended.withTask h fun next hnext => ?_
        rw [taskOf_eq hnext]
        refine ⟨fun _ hmem => (nomatch hmem), hsound.caught, fun _ _ _ _ => ?_,
          fun hmem => by simp at hmem⟩
        unfold CdpViews.endDetach
        rw [conns_setConn]
        exact ⟨fun hlive => hlive.1 rfl, rfl⟩
    | list => cases hplain
    | startScreencast => cases hplain
    | setControl => cases hplain
    | input => cases hplain
    | resize => cases hplain
    | releaseInput => cases hplain
    | clearHeld => cases hplain
    | restoreViewport => cases hplain
    | viewportRestored => cases hplain
    | command => cases hplain

/-- A handler that ends or fails leaves the connection to the next one. -/
theorem Sound.dropTask (h : Sound s) {onError : List ViewStep}
    (hbusy : (s.conns c).settled = false) (honError : ∀ step ∈ onError, final step = false) :
    Sound (s.withTask c (taskOf onError none [])) :=
  failed_sound (stepOk_refl h hbusy) h honError

theorem Sound.proceed (h : Sound s) (ok : Bool) : Sound (s.proceed c ok) := by
  unfold CdpViews.proceed
  split
  · exact h
  · rename_i task htask
    have hsound := (h.conns c).tasks task htask
    have hbusy := h.busy htask
    have hended : Sound (s.withTask c none) := @Sound.dropTask s c h [] hbusy (by simp)
    split
    · split_ifs
      · exact h
      · exact h.dropTask hbusy hsound.caught
      · split
        · exact hended
        · rename_i step rest htodo
          exact h.resumed htask htodo ok
    · split
      · exact hended
      · rename_i step rest htodo
        exact h.resumed htask htodo ok

theorem taskSound_handler {conn : CdpViewConnection} (message : ViewerMessage) :
    TaskSound conn ⟨handlerSteps message, none, handlerCatch message⟩ := by
  have hcatch : ∀ step ∈ handlerCatch message, final step = false := by
    cases message with
    | attach => simp [handlerCatch, final]
    | _ => simp [handlerCatch]
  by_cases hattach : ∃ source target, message = .attach (some (source, target))
  · obtain ⟨source, target, rfl⟩ := hattach
    exact taskSound_single hcatch (by simp) (by simp)
  · refine taskSound_plain ?_ hcatch
    cases message with
    | attach tab =>
      cases tab with
      | none => simp [handlerSteps, final]
      | some tab => exact absurd ⟨tab.1, tab.2, rfl⟩ hattach
    | control enabled =>
      cases enabled with
      | true => simp [handlerSteps, final]
      | false => simp [handlerSteps, final]
    | _ => simp [handlerSteps, final]

theorem Sound.startNext (h : Sound s) : Sound (s.startNext c) := by
  have hconn := h.conns c
  unfold CdpViews.startNext
  dsimp only
  split
  · rename_i message queue hidle hqueue
    refine h.setConn ⟨rfl, rfl, rfl, Iff.rfl⟩ {
      frames := { hconn.frames with }
      tasks := fun task htask => ?_
      settled := fun hsettled => ?_ }
    · dsimp only at htask
      split_ifs at htask
      rw [taskOf_eq htask]
      exact taskSound_handler message
    · have hgone := hconn.settled hsettled
      exact { hgone with task := by rw [if_pos hgone.disposed] }
  · exact h

theorem Sound.step (h : Sound s) (event : CdpViewEvent) : Sound (s.step event) := by
  cases event with
  | registerSource source => exact h.registerCdpViewSource source
  | unregister sourceId token => exact h.unregister sourceId token
  | beginTool sourceId => exact h.beginCdpViewTool sourceId
  | releaseTool handle => exact h.releaseTool handle
  | message c raw => exact h.message raw
  | startNext c => exact h.startNext
  | proceed c ok => exact h.proceed ok
  | reply c generation id => exact h.settle generation id
  | requestTimeout c id =>
    exact h.setConn ⟨rfl, rfl, rfl, Iff.rfl⟩ (orderly_pending (h.conns c) fun hnone _ => by
      rw [hnone, List.erase_nil])
  | frame c generation sessionId oversized => exact h.frame generation sessionId oversized
  | frameTimeout c =>
    unfold CdpViews.step
    dsimp only
    split_ifs
    · exact h.close c
    · exact h
  | socketState c generation opens => exact h.socketState generation opens
  | socketClosed c generation => exact h.socketClosed generation
  | close c => exact h.close c
  | startCleanup c => exact h.startCleanup

/-- By induction on the run. -/
theorem Sound.run {events : List CdpViewEvent} :
    ∀ {s : CdpViews}, Sound s → Sound (s.run events) := by
  induction events with
  | nil => exact fun h => h
  | cons event events ih => exact fun h => ih (h.step event)

/-- An input is accepted only from the controller of the source. -/
theorem input_controller (h : Sound s) {value : ViewerInput}
    (haccepted : (s.input c value).1 ≠ s ∨ (s.input c value).2 ≠ none) :
    s.controllers (s.conns c).sourceId = some c := by
  refine h.maps.controlling c ?_
  by_contra hcontrol
  have hrefused : s.input c value = (s, none) := by
    unfold input
    rw [if_pos (by simpa using hcontrol)]
  rw [hrefused] at haccepted
  simp at haccepted

theorem resize_controller (h : Sound s) {value : ViewerResize}
    (haccepted : (s.resize c value).1 ≠ s ∨ (s.resize c value).2 ≠ none) :
    s.controllers (s.conns c).sourceId = some c := by
  refine h.maps.controlling c ?_
  by_contra hcontrol
  have hrefused : s.resize c value = (s, none) := by
    unfold resize
    dsimp only
    rw [if_pos (by simpa using hcontrol)]
  rw [hrefused] at haccepted
  simp at haccepted

/-- A settled connection has no hold. -/
theorem settled_holds (h : Sound s) (hsettled : (s.conns c).settled = true) :
    (∀ source, s.controllers source ≠ some c) ∧ ∀ key, s.tabViewers key ≠ some c := by
  have hgone := (h.conns c).settled hsettled
  constructor
  · intro source howner
    have hcontrol := hgone.control
    rw [(h.maps.controlled source c howner).1] at hcontrol
    cases hcontrol
  · intro key hviewer
    exact (h.maps.viewed key c hviewer).2.1 hgone.upstream

/-- In every run: no source has a controller and a tool call that runs; at most one connection
controls a source, and only this one's input and resize are accepted; a tab has one viewer and a
connection views one tab; a connection whose `close` has settled holds nothing; of each stream of a
connection at most one frame is open, and no frame is acknowledged twice. -/
theorem run_exclusive (events : List CdpViewEvent) :
    let s := initial.run events
    (∀ source c, s.controllers source = some c → ∀ handle ∈ s.handles, handle.2 ≠ source) ∧
    (∀ c, (s.conns c).control = true ↔ s.controllers (s.conns c).sourceId = some c) ∧
    (∀ source c, s.controllers source = some c → (s.conns c).sourceId = source) ∧
    (∀ c value, (s.input c value).1 ≠ s ∨ (s.input c value).2 ≠ none →
      s.controllers (s.conns c).sourceId = some c) ∧
    (∀ c value, (s.resize c value).1 ≠ s ∨ (s.resize c value).2 ≠ none →
      s.controllers (s.conns c).sourceId = some c) ∧
    (∀ c, (s.conns c).Live ↔ s.tabViewers (s.conns c).key = some c) ∧
    (∀ key c, s.tabViewers key = some c → (s.conns c).key = key) ∧
    (∀ c, (s.conns c).settled = true → (s.conns c).control = false ∧ (s.conns c).pending = [] ∧
      (s.conns c).upstream = none ∧ (∀ source, s.controllers source ≠ some c) ∧
        ∀ key, s.tabViewers key ≠ some c) ∧
    ∀ c, ((s.conns c).sentOpen.map Prod.fst).Nodup ∧ (s.conns c).acks.Nodup := by
  have h : Sound (initial.run events) := sound_initial.run
  refine ⟨?_, fun c => ⟨h.maps.controlling c, fun howner => (h.maps.controlled _ c howner).1⟩,
    fun source c howner => (h.maps.controlled source c howner).2,
    fun c value haccepted => input_controller h haccepted,
    fun c value haccepted => resize_controller h haccepted,
    fun c => ⟨h.maps.viewing c, fun hviewer => (h.maps.viewed _ c hviewer).2⟩,
    fun key c hviewer => (h.maps.viewed key c hviewer).1, ?_,
    fun c => ⟨(h.conns c).frames.distinct, (h.conns c).frames.once⟩⟩
  · intro source c howner handle hhandle hsource
    have hzero := h.maps.free source c howner
    rw [h.maps.counted source, List.countP_eq_zero] at hzero
    exact hzero handle hhandle (decide_eq_true hsource)
  · intro c hsettled
    have hgone := (h.conns c).settled hsettled
    obtain ⟨howner, hviewer⟩ := settled_holds h hsettled
    exact ⟨hgone.control, hgone.pending, hgone.upstream, howner, hviewer⟩

/-- A viewer gets a frame, attaches to another tab before he acknowledges it and gets one more. -/
def twoStreams : List CdpViewEvent :=
  [.message 0 (.queued (.attach (some ("cdp", "first")))), .startNext 0,
    .proceed 0 true, .proceed 0 true, .proceed 0 true, .proceed 0 true, .proceed 0 true,
    .socketState 0 2 true, .proceed 0 true, .reply 0 2 1, .proceed 0 true, .frame 0 2 1 false,
    .message 0 (.queued (.attach (some ("cdp", "second")))), .startNext 0,
    .proceed 0 true, .proceed 0 true, .proceed 0 true, .proceed 0 true, .proceed 0 true,
    .proceed 0 true, .proceed 0 true, .reply 0 2 2, .proceed 0 true, .proceed 0 true,
    .socketState 0 4 true, .proceed 0 true, .reply 0 4 3, .proceed 0 true, .frame 0 4 1 false]

theorem two_frames_open :
    ¬ ∀ events c, ((initial.run events).conns c).sentOpen.length ≤ 1 := by
  intro hone
  have htwo : ((initial.run twoStreams).conns 0).sentOpen = [(2, 0), (4, 1)] := by decide
  have hle := hone twoStreams 0
  rw [htwo] at hle
  simp at hle

end CdpViews
end Piclaw
