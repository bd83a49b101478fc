import Piclaw.SessionHolders

/-!
# The disposals of a pool

Whatever the order of creations, evictions, recreations and disposals: a runtime leaves the pool
only with a disposal of it, no creation replaces an entry, and the disposal that is awaited for a
chat is the first one of its runtime.
-/

namespace Piclaw

/-- The pooled runtime that a call disposes of when it fails. -/
def SessionCall.guards : SessionCall → Option (String × ℕ)
  | .realizing chat _ runtime => some (chat, runtime)
  | .seeding chat _ runtime => some (chat, runtime)
  | .binding chat _ runtime => some (chat, runtime)
  | _ => none

/-- The events of a shutdown that does not see its disposals fail. -/
def SessionEvent.shuts : SessionEvent → Bool
  | .shutdown _ => true
  | .shutdownAdmitted _ => true
  | .shutdownNext _ => true
  | _ => false

namespace SessionPool
variable {s t u : SessionPool} {i : ℕ} {chat : String} {runtime : ℕ} {call : SessionCall}

structure Tidy (s : SessionPool) : Prop where
  owned : ∀ chat runtime, s.pool.get chat = some runtime → s.created[runtime]? = some chat
  known : ∀ runtime ∈ s.disposed, runtime < s.created.length
  made : ∀ i chat runtime, (s.calls i).guards = some (chat, runtime) →
    s.created[runtime]? = some chat
  inFlight : ∀ i chat, (s.calls i).creates = some chat ↔ s.createInFlight.get chat = some i
  absent : ∀ i chat, (s.calls i).unpublished = some chat → s.pool.get chat = none
  fresh : ∀ chat runtime, s.pool.get chat = some runtime → runtime ∉ s.disposed
  settled : ∀ runtime ∈ s.settled, runtime ∈ s.disposed
  running : ∀ runtime ∈ s.runtimeDisposeInFlight, runtime ∈ s.disposed
  awaited : ∀ chat runtime, s.idleMainDisposalsInFlight.get chat = some runtime →
    runtime ∈ s.runtimeDisposeInFlight ∧ runtime ∉ s.settled

/-- What a step makes of a tidy pool: no runtime leaves it without a disposal. -/
structure Proper (s t : SessionPool) : Prop where
  tidy : t.Tidy
  kept : ∀ chat runtime, s.pool.get chat = some runtime →
    t.pool.get chat = some runtime ∨ runtime ∈ t.disposed
  disposed : ∀ runtime ∈ s.disposed, runtime ∈ t.disposed

theorem Proper.refl (hs : s.Tidy) : s.Proper s := ⟨hs, fun _ _ h => .inl h, fun _ h => h⟩

theorem Proper.trans (h : s.Proper t) (h' : t.Proper u) : s.Proper u where
  tidy := h'.tidy
  kept chat runtime hget := by
    rcases h.kept chat runtime hget with hpool | hdisposed
    · exact h'.kept chat runtime hpool
    · exact .inr (h'.disposed runtime hdisposed)
  disposed runtime hmem := h'.disposed runtime (h.disposed runtime hmem)

/-- A call goes on, and nothing else changes. -/
theorem Tidy.goto (hs : s.Tidy) (hcreates : call.creates = (s.calls i).creates)
    (hmade : ∀ chat runtime, call.guards = some (chat, runtime) → s.created[runtime]? = some chat)
    (habsent : ∀ chat, call.unpublished = some chat → s.pool.get chat = none) :
    s.Proper (s.goto i call) := by
  refine ⟨⟨hs.owned, hs.known, ?_, ?_, ?_, hs.fresh, hs.settled, hs.running, hs.awaited⟩,
    fun _ _ h => .inl h, fun _ h => h⟩
  · intro j chat r hj
    rw [calls_goto] at hj
    split_ifs at hj
    · exact hmade chat r hj
    · exact hs.made j chat r hj
  · intro j chat
    rw [calls_goto]
    split_ifs with hj
    · rw [hj, hcreates]
      exact hs.inFlight i chat
    · exact hs.inFlight j chat
  · intro j chat hj
    rw [calls_goto] at hj
    split_ifs at hj
    · exact habsent chat hj
    · exact hs.absent j chat hj

/-- A call that guards and creates nothing goes on to another such call. -/
theorem Tidy.pass (hs : s.Tidy) (hi : (s.calls i).creates = none)
    (hcall : call.creates = none ∧ call.guards = none ∧ call.unpublished = none) :
    s.Proper (s.goto i call) := by
  obtain ⟨hcreates, hguards, hunpublished⟩ := hcall
  refine hs.goto (hcreates.trans hi.symm) ?_ ?_
  · intro chat r h
    rw [hguards] at h
    cases h
  · intro chat h
    rw [hunpublished] at h
    cases h

/-- The pool, the calls and the disposals are all that matters here. -/
structure SameSessions (s t : SessionPool) : Prop where
  pool : t.pool = s.pool
  calls : t.calls = s.calls
  createInFlight : t.createInFlight = s.createInFlight
  created : t.created = s.created
  disposed : t.disposed = s.disposed
  settled : t.settled = s.settled
  running : t.runtimeDisposeInFlight = s.runtimeDisposeInFlight
  awaited : t.idleMainDisposalsInFlight = s.idleMainDisposalsInFlight

theorem Tidy.same (hs : s.Tidy) (h : s.SameSessions t) : s.Proper t := by
  refine ⟨⟨?_, ?_, ?_, ?_, ?_, ?_, ?_, ?_, ?_⟩, ?_, ?_⟩
  · rw [h.pool, h.created]
    exact hs.owned
  · rw [h.disposed, h.created]
    exact hs.known
  · rw [h.calls, h.created]
    exact hs.made
  · rw [h.calls, h.createInFlight]
    exact hs.inFlight
  · rw [h.calls, h.pool]
    exact hs.absent
  · rw [h.pool, h.disposed]
    exact hs.fresh
  · rw [h.settled, h.disposed]
    exact hs.settled
  · rw [h.running, h.disposed]
    exact hs.running
  · rw [h.awaited, h.running, h.settled]
    exact hs.awaited
  · rw [h.pool]
    exact fun _ _ hget => .inl hget
  · rw [h.disposed]
    exact fun _ hmem => hmem

theorem same_block : s.SameSessions s.blockMcpAdmissions :=
  ⟨rfl, rfl, rfl, rfl, rfl, rfl, rfl, rfl⟩

theorem same_release : s.SameSessions (s.release i) := ⟨rfl, rfl, rfl, rfl, rfl, rfl, rfl, rfl⟩

theorem same_acquire : s.SameSessions (s.acquire i chat) := by
  unfold acquire
  split_ifs <;> exact ⟨rfl, rfl, rfl, rfl, rfl, rfl, rfl, rfl⟩

section Disposals

theorem disposeRuntimeOnce_frame : (s.disposeRuntimeOnce runtime).pool = s.pool ∧
    (s.disposeRuntimeOnce runtime).calls = s.calls ∧
      (s.disposeRuntimeOnce runtime).idleMainDisposalsInFlight = s.idleMainDisposalsInFlight ∧
        (s.disposeRuntimeOnce runtime).settled = s.settled := by
  unfold SessionPool.disposeRuntimeOnce
  split_ifs <;> exact ⟨rfl, rfl, rfl, rfl⟩

/-- A runtime that is not pooled is disposed of. -/
theorem Tidy.disposeRuntimeOnce (hs : s.Tidy) (hknown : runtime < s.created.length)
    (hout : ∀ chat, s.pool.get chat ≠ some runtime) :
    s.Proper (s.disposeRuntimeOnce runtime) ∧ runtime ∈ (s.disposeRuntimeOnce runtime).disposed ∧
      runtime ∈ (s.disposeRuntimeOnce runtime).runtimeDisposeInFlight := by
  unfold SessionPool.disposeRuntimeOnce
  split_ifs with hflight
  · rw [List.contains_iff_mem] at hflight
    exact ⟨.refl hs, hs.running runtime hflight, hflight⟩
  · refine ⟨⟨⟨hs.owned, ?_, hs.made, hs.inFlight, hs.absent, ?_, ?_, ?_, ?_⟩, fun _ _ h => .inl h,
      fun _ h => List.mem_cons_of_mem _ h⟩, List.mem_cons_self, List.mem_cons_self⟩
    · intro r hr
      rcases List.mem_cons.mp hr with rfl | hr
      · exact hknown
      · exact hs.known r hr
    · intro c r hget hr
      rcases List.mem_cons.mp hr with rfl | hr
      · exact hout c hget
      · exact hs.fresh c r hget hr
    · intro r hr
      exact List.mem_cons_of_mem _ (hs.settled r hr)
    · intro r hr
      rcases List.mem_cons.mp hr with rfl | hr
      · exact List.mem_cons_self
      · exact List.mem_cons_of_mem _ (hs.running r hr)
    · intro c r hget
      obtain ⟨hrunning, hsettled⟩ := hs.awaited c r hget
      exact ⟨List.mem_cons_of_mem _ hrunning, hsettled⟩

/-- An entry leaves the pool. -/
theorem Tidy.remove (hs : s.Tidy) (chat : String) : Tidy { s with pool := s.pool.delete chat } := by
  have hpool : ∀ c r, (s.pool.delete chat).get c = some r → s.pool.get c = some r := by
    intro c r hget
    rw [OrderedMap.get_delete] at hget
    split_ifs at hget
    exact hget
  refine ⟨fun c r h => hs.owned c r (hpool c r h), hs.known, hs.made, hs.inFlight, ?_,
    fun c r h => hs.fresh c r (hpool c r h), hs.settled, hs.running, hs.awaited⟩
  intro j c hj
  change (s.pool.delete chat).get c = none
  rw [OrderedMap.get_delete, hs.absent j c hj, ite_self]

theorem owned_unique (hs : s.Tidy) {chat' : String} (h : s.pool.get chat = some runtime)
    (h' : s.created[runtime]? = some chat') : chat = chat' :=
  Option.some.inj ((hs.owned chat runtime h).symm.trans h')

theorem known_of_created {l : List String} (h : l[runtime]? = some chat) : runtime < l.length :=
  (List.getElem?_eq_some_iff.mp h).1

theorem Tidy.startIdleDispose (hs : s.Tidy) (hget : s.pool.get chat = some runtime) :
    s.Proper (s.startIdleDispose chat runtime) := by
  unfold SessionPool.startIdleDispose
  split_ifs with hidle
  · exact .refl hs
  · have hcreated := hs.owned chat runtime hget
    have hout : ∀ c, (s.pool.delete chat).get c ≠ some runtime := by
      intro c hc
      rw [OrderedMap.get_delete] at hc
      split_ifs at hc with heq
      exact heq (owned_unique hs hc hcreated)
    have hfresh := hs.fresh chat runtime hget
    obtain ⟨hproper, hdisposed, hrunning⟩ := Tidy.disposeRuntimeOnce (hs.remove chat)
      (known_of_created hcreated) hout
    obtain ⟨hframe, _, hawaited, hsettled⟩ := @disposeRuntimeOnce_frame
      { s with pool := s.pool.delete chat } runtime
    have htidy := hproper.tidy
    refine ⟨⟨htidy.owned, htidy.known, htidy.made, htidy.inFlight, htidy.absent, htidy.fresh,
      htidy.settled, htidy.running, ?_⟩, ?_, hproper.disposed⟩
    · intro c r hc
      change (s.idleMainDisposalsInFlight.set chat runtime).get c = some r at hc
      rw [OrderedMap.get_set] at hc
      split_ifs at hc
      · cases hc
        refine ⟨hrunning, ?_⟩
        change runtime ∉ (SessionPool.disposeRuntimeOnce _ runtime).settled
        rw [hsettled]
        exact fun h => hfresh (hs.settled runtime h)
      · exact htidy.awaited c r (by rw [hawaited]; exact hc)
    · intro c r hc
      by_cases heq : c = chat
      · rw [heq, hget] at hc
        cases hc
        exact .inr hdisposed
      · left
        change (SessionPool.disposeRuntimeOnce _ runtime).pool.get c = some r
        rw [hframe]
        change (s.pool.delete chat).get c = some r
        rw [OrderedMap.get_delete, if_neg heq]
        exact hc

theorem Tidy.disposeEntry (hs : s.Tidy) : s.Proper (s.disposeEntry chat) := by
  unfold SessionPool.disposeEntry
  cases hget : s.pool.get chat with
  | none => exact .refl hs
  | some r => exact hs.startIdleDispose hget

theorem Tidy.disposeMainRuntimeAfterError (hs : s.Tidy) (hcreated : s.created[runtime]? = some chat) :
    s.Proper (s.disposeMainRuntimeAfterError chat runtime) := by
  unfold SessionPool.disposeMainRuntimeAfterError
  split_ifs with hget
  · exact hs.startIdleDispose hget
  · refine (Tidy.disposeRuntimeOnce hs (known_of_created hcreated) ?_).1
    intro c hc
    rw [owned_unique hs hc hcreated] at hc
    exact hget hc

theorem Tidy.evict (hs : s.Tidy) : s.Proper (s.evict chat) := by
  unfold SessionPool.evict
  split_ifs
  · exact .refl hs
  · exact hs.disposeEntry

theorem Tidy.evictAll {victims : List String} (hs : s.Tidy) :
    s.Proper (victims.foldl SessionPool.evict s) := by
  induction victims generalizing s with
  | nil => exact .refl hs
  | cons victim victims ih =>
    have hfirst := @Tidy.evict s victim hs
    exact hfirst.trans (ih hfirst.tidy)

theorem Tidy.disposalEnded {ok : Bool} (hs : s.Tidy) : s.Proper (s.disposalEnded runtime ok) := by
  have hended : s.runtimeDisposeInFlight.contains runtime = true → Proper s
      { s with
        runtimeDisposeInFlight := s.runtimeDisposeInFlight.filter (· ≠ runtime)
        idleMainDisposalsInFlight :=
          s.idleMainDisposalsInFlight.filterEntries (fun _ disposing => decide (disposing ≠ runtime))
        settled := runtime :: s.settled } := by
    intro hflight
    rw [List.contains_iff_mem] at hflight
    refine ⟨⟨hs.owned, hs.known, hs.made, hs.inFlight, hs.absent, hs.fresh, ?_, ?_, ?_⟩,
      fun _ _ h => .inl h, fun _ h => h⟩
    · intro r hr
      rcases List.mem_cons.mp hr with rfl | hr
      · exact hs.running r hflight
      · exact hs.settled r hr
    · intro r hr
      exact hs.running r (List.mem_filter.mp hr).1
    · intro c r hget
      change (s.idleMainDisposalsInFlight.filterEntries _).get c = some r at hget
      rw [OrderedMap.get_filterEntries, Option.filter_eq_some_iff] at hget
      obtain ⟨hget, hne⟩ := hget
      have hne : r ≠ runtime := by simpa using hne
      obtain ⟨hrunning, hsettled⟩ := hs.awaited c r hget
      refine ⟨List.mem_filter.mpr ⟨hrunning, by simpa using hne⟩, ?_⟩
      intro h
      rcases List.mem_cons.mp h with h | h
      · exact hne h
      · exact hsettled h
  unfold SessionPool.disposalEnded
  split_ifs with hflight
  · exact .refl hs
  · have hproper := hended (by simpa using hflight)
    exact hproper.trans (hproper.tidy.same ⟨rfl, rfl, rfl, rfl, rfl, rfl, rfl, rfl⟩)
  · have hproper := hended (by simpa using hflight)
    exact hproper.trans (hproper.tidy.same ⟨rfl, rfl, rfl, rfl, rfl, rfl, rfl, rfl⟩)

end Disposals

section Creations

/-- A creation begins where the chat has no entry and no creation. -/
theorem Tidy.begin {epoch : ℕ} (hs : s.Tidy) (hi : (s.calls i).creates = none)
    (hnone : s.createInFlight.get chat = none) (hpool : s.pool.get chat = none) :
    s.Proper { s.goto i (.preparing chat epoch) with
      createInFlight := s.createInFlight.set chat i } := by
  refine ⟨⟨hs.owned, hs.known, ?_, ?_, ?_, hs.fresh, hs.settled, hs.running, hs.awaited⟩,
    fun _ _ h => .inl h, fun _ h => h⟩
  · intro j c r hj
    change ((s.goto i _).calls j).guards = _ at hj
    rw [calls_goto] at hj
    split_ifs at hj
    · cases hj
    · exact hs.made j c r hj
  · intro j c
    change ((s.goto i (.preparing chat epoch)).calls j).creates = some c ↔
      (s.createInFlight.set chat i).get c = some j
    rw [calls_goto, OrderedMap.get_set]
    by_cases hj : j = i
    · subst hj
      rw [if_pos rfl]
      by_cases hc : c = chat
      · rw [if_pos hc, hc]
        exact ⟨fun _ => rfl, fun _ => rfl⟩
      · rw [if_neg hc, ← hs.inFlight, hi]
        constructor
        · intro h
          exact absurd (Option.some.inj h).symm hc
        · intro h
          cases h
    · rw [if_neg hj]
      by_cases hc : c = chat
      · rw [if_pos hc, hc, hs.inFlight, hnone]
        constructor
        · intro h
          cases h
        · intro h
          exact absurd (Option.some.inj h).symm hj
      · rw [if_neg hc]
        exact hs.inFlight j c
  · intro j c hj
    change ((s.goto i _).calls j).unpublished = _ at hj
    rw [calls_goto] at hj
    split_ifs at hj
    · rw [← Option.some.inj hj]
      exact hpool
    · exact hs.absent j c hj

/-- A creation ends, and its call creates nothing any more. -/
theorem Tidy.creationEnded {outcome : Option ℕ} (hs : s.Tidy) (hi : (s.calls i).creates = some chat)
    (hcall : call.creates = none ∧ call.guards = none ∧ call.unpublished = none) :
    s.Proper (s.creationEnded i chat outcome call) := by
  obtain ⟨hcreates, hguards, hunpublished⟩ := hcall
  have hmine := (hs.inFlight i chat).mp hi
  unfold SessionPool.creationEnded
  refine ⟨⟨hs.owned, hs.known, ?_, ?_, ?_, hs.fresh, hs.settled, hs.running, hs.awaited⟩,
    fun _ _ h => .inl h, fun _ h => h⟩
  · intro j c r hj
    change (((s.release i).goto i call).calls j).guards = _ at hj
    rw [calls_goto] at hj
    split_ifs at hj
    · rw [hguards] at hj
      cases hj
    · exact hs.made j c r hj
  · intro j c
    change (((s.release i).goto i call).calls j).creates = some c ↔
      (s.createInFlight.delete chat).get c = some j
    rw [calls_goto, OrderedMap.get_delete]
    by_cases hj : j = i
    · subst hj
      rw [if_pos rfl, hcreates]
      split_ifs with hc
      · constructor
        · intro h
          cases h
        · intro h
          cases h
      · constructor
        · intro h
          cases h
        · intro h
          rw [← hs.inFlight, hi] at h
          exact absurd (Option.some.inj h).symm hc
    · rw [if_neg hj]
      change (s.calls j).creates = some c ↔ _
      rw [hs.inFlight]
      split_ifs with hc
      · rw [hc, hmine]
        constructor
        · intro h
          exact absurd (Option.some.inj h).symm hj
        · intro h
          cases h
      · exact Iff.rfl
  · intro j c hj
    change (((s.release i).goto i call).calls j).unpublished = _ at hj
    rw [calls_goto] at hj
    split_ifs at hj
    · rw [hunpublished] at hj
      cases hj
    · exact hs.absent j c hj

/-- A runtime is made; it is not pooled yet. -/
theorem Tidy.make (hs : s.Tidy) (chat : String) :
    s.Proper { s with created := s.created ++ [chat] } := by
  have hgrow : ∀ {r : ℕ} {c : String}, s.created[r]? = some c → (s.created ++ [chat])[r]? = some c := by
    intro r c h
    rw [List.getElem?_append_left (known_of_created h)]
    exact h
  refine ⟨⟨fun c r h => hgrow (hs.owned c r h), ?_, fun j c r h => hgrow (hs.made j c r h),
    hs.inFlight, hs.absent, hs.fresh, hs.settled, hs.running, hs.awaited⟩, fun _ _ h => .inl h,
    fun _ h => h⟩
  intro r hr
  change r < (s.created ++ [chat]).length
  rw [List.length_append]
  exact Nat.lt_add_right _ (hs.known r hr)

/-- The new runtime of a creation enters the pool, where its chat has no entry. -/
theorem Tidy.publish {epoch : ℕ} (hs : s.Tidy) (hi : s.calls i = .creating chat epoch) :
    s.Proper ({ s with
      created := s.created ++ [chat]
      pool := s.pool.set chat s.created.length }.goto i (.seeding chat epoch s.created.length)) := by
  have hmake := (hs.make chat).tidy
  have hnone : s.pool.get chat = none := hs.absent i chat (by rw [hi]; rfl)
  have hnew : (s.created ++ [chat])[s.created.length]? = some chat := by simp
  have hget : ∀ c r, (s.pool.set chat s.created.length).get c = some r →
      (c = chat ∧ r = s.created.length) ∨ s.pool.get c = some r := by
    intro c r h
    rw [OrderedMap.get_set] at h
    split_ifs at h with hc
    · exact .inl ⟨hc, (Option.some.inj h).symm⟩
    · exact .inr h
  have hmine := (hs.inFlight i chat).mp (by rw [hi]; rfl)
  refine ⟨⟨?_, hmake.known, ?_, ?_, ?_, ?_, hs.settled, hs.running, hs.awaited⟩, ?_, fun _ h => h⟩
  · intro c r h
    rcases hget c r h with ⟨rfl, rfl⟩ | h
    · exact hnew
    · exact hmake.owned c r h
  · intro j c r hj
    rw [calls_goto] at hj
    split_ifs at hj
    · cases hj
      exact hnew
    · exact hmake.made j c r hj
  · intro j c
    rw [calls_goto]
    split_ifs with hj
    · rw [hj]
      change some chat = some c ↔ s.createInFlight.get c = some i
      rw [← hs.inFlight, hi]
      exact Iff.rfl
    · exact hs.inFlight j c
  · intro j c hj
    rw [calls_goto] at hj
    split_ifs at hj with heq
    · cases hj
    · change (s.calls j).unpublished = some c at hj
      change (s.pool.set chat s.created.length).get c = none
      rw [OrderedMap.get_set, hs.absent j c hj, if_neg]
      -- two creations of the chat would be the same call
      rintro rfl
      have hcreates : (s.calls j).creates = some c := by
        cases hcall : s.calls j with
        | preparing c' e =>
          rw [hcall] at hj
          exact hj
        | creating c' e =>
          rw [hcall] at hj
          exact hj
        | _ =>
          rw [hcall] at hj
          cases hj
      have hother := (hs.inFlight j c).mp hcreates
      rw [hmine] at hother
      exact heq (Option.some.inj hother).symm
  · intro c r h hr
    rcases hget c r h with ⟨rfl, rfl⟩ | h
    · exact absurd (hs.known _ hr) (lt_irrefl _)
    · exact hs.fresh c r h hr
  · intro c r h
    left
    change (s.pool.set chat s.created.length).get c = some r
    rw [OrderedMap.get_set, if_neg]
    · exact h
    · rintro rfl
      rw [hnone] at h
      cases h

end Creations

section Steps

theorem disposeMainRuntimeAfterError_proper (hs : s.Tidy)
    (hi : (s.calls i).guards = some (chat, runtime))
    (hcreates : call.creates = (s.calls i).creates)
    (hcall : call.guards = none ∧ call.unpublished = none) :
    s.Proper ((s.disposeMainRuntimeAfterError chat runtime).goto i call) := by
  have hgoto : s.Proper (s.goto i call) := by
    refine hs.goto hcreates ?_ ?_
    · intro c r h
      rw [hcall.1] at h
      cases h
    · intro c h
      rw [hcall.2] at h
      cases h
  rw [goto_disposeMainRuntimeAfterError]
  exact hgoto.trans (hgoto.tidy.disposeMainRuntimeAfterError (hs.made i chat runtime hi))

theorem Tidy.admittedCall {epoch : ℕ} (hs : s.Tidy) (hi : (s.calls i).creates = none) :
    s.Proper (s.admittedCall i chat epoch) := by
  unfold SessionPool.admittedCall
  cases hcreate : s.createInFlight.get chat with
  | some task => exact hs.pass hi ⟨rfl, rfl, rfl⟩
  | none =>
    have hacquire : s.Proper (s.acquire i chat) := hs.same same_acquire
    cases hpool : s.pool.get chat with
    | some r =>
      refine hacquire.trans (hacquire.tidy.goto ?_ ?_ ?_)
      · rw [acquire_calls, hi]
        rfl
      · intro c r' h
        cases h
        exact hacquire.tidy.owned _ _ (by rw [acquire_pool]; exact hpool)
      · intro c h
        cases h
    | none =>
      have hbegin := @Tidy.begin (s.acquire i chat) i chat epoch hacquire.tidy
        (by rw [acquire_calls]; exact hi) (by rw [acquire_createInFlight]; exact hcreate)
        (by rw [acquire_pool]; exact hpool)
      rw [acquire_createInFlight] at hbegin
      exact hacquire.trans hbegin

theorem Tidy.sessionCreated {epoch : ℕ} {ok : Bool} {victims : List String} (hs : s.Tidy)
    (hi : s.calls i = .creating chat epoch) :
    s.Proper (s.sessionCreated i chat epoch ok victims) := by
  have hcreates : (s.calls i).creates = some chat := by rw [hi]; rfl
  unfold SessionPool.sessionCreated
  split_ifs
  · exact hs.creationEnded hcreates ⟨rfl, rfl, rfl⟩
  · have hmake := hs.make chat
    have hgoto : Proper { s with created := s.created ++ [chat] }
        (SessionPool.goto { s with created := s.created ++ [chat] } i
          (.discarding chat s.created.length)) := by
      refine hmake.tidy.goto ?_ (by intro c r h; cases h) (by intro c h; cases h)
      exact hcreates.symm
    rw [goto_disposeRuntimeOnce]
    refine (hmake.trans hgoto).trans (Tidy.disposeRuntimeOnce hgoto.tidy ?_ ?_).1
    · change s.created.length < (s.created ++ [chat]).length
      rw [List.length_append]
      exact Nat.lt_succ_self _
    · intro c hc
      exact lt_irrefl _ (known_of_created (hs.owned c _ hc))
  · have hpublish := hs.publish hi
    unfold enforceMainSessionPoolLimit
    rw [goto_evictAll]
    exact hpublish.trans hpublish.tidy.evictAll

theorem Tidy.cleaned (hs : s.Tidy) : s.Proper (s.cleaned i) := by
  unfold SessionPool.cleaned
  split
  · rename_i chat runtime hi
    split_ifs
    · exact hs.creationEnded (by rw [hi]; rfl) ⟨rfl, rfl, rfl⟩
    · exact .refl hs
  · rename_i runtime hi
    split_ifs
    · have hrelease : s.Proper (s.release i) := hs.same same_release
      refine hrelease.trans (hrelease.tidy.pass ?_ ⟨rfl, rfl, rfl⟩)
      change (s.calls i).creates = none
      rw [hi]
      rfl
    · exact .refl hs
  · exact .refl hs

theorem Tidy.step (hs : s.Tidy) {event : SessionEvent} (hevent : event.shuts = false) :
    s.Proper (s.step event) := by
  unfold SessionPool.step
  cases event with
  | getOrCreate i chat =>
    dsimp only
    split
    · rename_i hi
      unfold SessionPool.getOrCreate
      split_ifs
      · exact hs.pass (by rw [hi]; rfl) ⟨rfl, rfl, rfl⟩
      · exact hs.pass (by rw [hi]; rfl) ⟨rfl, rfl, rfl⟩
    · exact .refl hs
  | entered i ok =>
    dsimp only
    split
    · rename_i chat epoch hi
      have hcreates : (s.calls i).creates = none := by rw [hi]; rfl
      unfold SessionPool.entered
      split_ifs
      · exact hs.pass hcreates ⟨rfl, rfl, rfl⟩
      · split
        · exact hs.pass hcreates ⟨rfl, rfl, rfl⟩
        · exact hs.admittedCall hcreates
    · exact .refl hs
  | disposalAwaited i ok =>
    dsimp only
    split
    · rename_i chat epoch r hi
      have hcreates : (s.calls i).creates = none := by rw [hi]; rfl
      unfold SessionPool.disposalAwaited
      split_ifs
      · exact .refl hs
      · exact hs.pass hcreates ⟨rfl, rfl, rfl⟩
      · exact hs.admittedCall hcreates
    · exact .refl hs
  | joined i ok =>
    dsimp only
    split
    · rename_i chat epoch task hi
      have hcreates : (s.calls i).creates = none := by rw [hi]; rfl
      unfold SessionPool.joined
      split
      · exact .refl hs
      · exact hs.pass hcreates ⟨rfl, rfl, rfl⟩
      · split_ifs
        · exact hs.pass hcreates ⟨rfl, rfl, rfl⟩
        · exact hs.pass hcreates ⟨rfl, rfl, rfl⟩
    · exact .refl hs
  | realized i ok =>
    dsimp only
    split
    · rename_i chat epoch r hi
      unfold SessionPool.realized
      split_ifs
      · have hrelease : s.Proper (s.release i) := hs.same same_release
        refine hrelease.trans (hrelease.tidy.pass ?_ ⟨rfl, rfl, rfl⟩)
        change (s.calls i).creates = none
        rw [hi]
        rfl
      · exact disposeMainRuntimeAfterError_proper hs (by rw [hi]; rfl) (by rw [hi]; rfl) ⟨rfl, rfl⟩
    · exact .refl hs
  | prepared i ok =>
    dsimp only
    split
    · rename_i chat epoch hi
      unfold SessionPool.prepared
      split_ifs
      · refine hs.goto (by rw [hi]; rfl) (by intro c r h; cases h) ?_
        intro c h
        exact hs.absent i c (by rw [hi]; exact h)
      · exact hs.creationEnded (by rw [hi]; rfl) ⟨rfl, rfl, rfl⟩
    · exact .refl hs
  | sessionCreated i ok victims =>
    dsimp only
    split
    · rename_i chat epoch hi
      exact hs.sessionCreated hi
    · exact .refl hs
  | seeded i ok =>
    dsimp only
    split
    · rename_i chat epoch r hi
      unfold SessionPool.seeded
      split_ifs
      · refine hs.goto (by rw [hi]; rfl) ?_ (by intro c h; cases h)
        intro c r' h
        exact hs.made i c r' (by rw [hi]; exact h)
      · exact disposeMainRuntimeAfterError_proper hs (by rw [hi]; rfl) (by rw [hi]; rfl) ⟨rfl, rfl⟩
    · exact .refl hs
  | bound i ok =>
    dsimp only
    split
    · rename_i chat epoch r hi
      unfold SessionPool.bound
      split_ifs
      · exact hs.creationEnded (by rw [hi]; rfl) ⟨rfl, rfl, rfl⟩
      · exact disposeMainRuntimeAfterError_proper hs (by rw [hi]; rfl) (by rw [hi]; rfl) ⟨rfl, rfl⟩
    · exact .refl hs
  | cleaned i => exact hs.cleaned
  | returned i ok =>
    dsimp only
    split
    · rename_i chat epoch r hi
      have hcreates : (s.calls i).creates = none := by rw [hi]; rfl
      unfold SessionPool.returned
      split_ifs
      · exact hs.pass hcreates ⟨rfl, rfl, rfl⟩
      · exact hs.pass hcreates ⟨rfl, rfl, rfl⟩
    · exact .refl hs
  | recreate i chat =>
    dsimp only
    split
    · rename_i hi
      unfold SessionPool.recreate
      split_ifs
      · exact hs.pass (by rw [hi]; rfl) ⟨rfl, rfl, rfl⟩
      · exact hs.pass (by rw [hi]; rfl) ⟨rfl, rfl, rfl⟩
    · exact .refl hs
  | recreateEntered i =>
    dsimp only
    split
    · rename_i chat epoch hi
      have hpass : ∀ call : SessionCall, call.creates = none ∧ call.guards = none ∧
          call.unpublished = none → s.Proper (s.goto i call) :=
        fun call hcall => hs.pass (by rw [hi]; rfl) hcall
      unfold SessionPool.recreateEntered
      split_ifs
      · rw [goto_disposeEntry]
        have hdone := hpass .done ⟨rfl, rfl, rfl⟩
        exact hdone.trans hdone.tidy.disposeEntry
      · exact hpass .rejected ⟨rfl, rfl, rfl⟩
    · exact .refl hs
  | evictIdle victims =>
    dsimp only
    unfold SessionPool.evictIdle
    split_ifs
    · exact .refl hs
    · exact hs.evictAll
  | acquireEvictionProtection i chat =>
    dsimp only
    split
    · rename_i hi
      have hacquire : s.Proper (s.acquire i chat) := hs.same same_acquire
      refine hacquire.trans (hacquire.tidy.pass ?_ ⟨rfl, rfl, rfl⟩)
      rw [acquire_calls, hi]
      rfl
    · exact .refl hs
  | releaseEvictionProtection i =>
    dsimp only
    split
    · exact hs.same same_release
    · exact .refl hs
  | fenceMcpAndSnapshot => exact hs.same same_block
  | shutdown i => cases hevent
  | shutdownAdmitted i => cases hevent
  | shutdownNext i => cases hevent
  | disposalEnded r ok => exact hs.disposalEnded

end Steps

end SessionPool
end Piclaw
