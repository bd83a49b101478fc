import Piclaw.PushSubscriptions

/-!
# The store of push subscriptions over its runs

Up to their order, the entries after an update are the updated entry and the ones it does not
replace, and the caps keep some of them. What the caps keep of the updated entry is decided by the
entries that sort before it.
-/

namespace Piclaw.Push

open CanonicalText TextRuns

section Reading

theorem trim_trim (text : Units) : trim (trim text) = trim text :=
  stripEnds_eq_self (fun _ h => stripEnds_head? h) (fun _ h => stripEnds_getLast? h)

theorem trimmedText_idem (text : Option Units) :
    trimmedText (trimmedText text) = trimmedText text := by
  cases text with
  | none => rfl
  | some text =>
    unfold trimmedText
    rw [Option.map_some, Option.filter_some]
    split_ifs with hne
    · rw [Option.map_some, trim_trim, Option.filter_some, if_pos hne]
    · rfl

theorem normalizeScopeValue_idem (value : Option Units) :
    normalizeScopeValue (normalizeScopeValue value) = normalizeScopeValue value := by
  have hidem := trimmedText_idem value
  unfold normalizeScopeValue
  cases htext : trimmedText value with
  | none => rfl
  | some text =>
    rw [htext] at hidem
    rw [Option.filter_some]
    split_ifs with hvalid
    · rw [hidem, Option.filter_some, if_pos hvalid]
    · rfl

/-- The fields of an entry are as reading leaves them. -/
structure WellFormed (e : StoredWebPushSubscription) : Prop where
  endpoint : trim e.endpoint = e.endpoint ∧ validEndpoint e.endpoint = true ∧
    e.endpoint.length ≤ 4096
  p256dh : trim e.keys.p256dh = e.keys.p256dh ∧ e.keys.p256dh ≠ [] ∧ e.keys.p256dh.length ≤ 1024
  auth : trim e.keys.auth = e.keys.auth ∧ e.keys.auth ≠ [] ∧ e.keys.auth.length ≤ 1024
  deviceId : trimmedText e.deviceId = e.deviceId ∧ (e.deviceId.getD []).length ≤ 256
  userAgent : trimmedText e.userAgent = e.userAgent ∧ (e.userAgent.getD []).length ≤ 512
  ownerUserId : normalizeScopeValue e.ownerUserId = e.ownerUserId
  loginSessionId : normalizeScopeValue e.loginSessionId = e.loginSessionId
  scope : e.ownerUserId.isSome = e.loginSessionId.isSome

theorem readEntry_eq_self {e : StoredWebPushSubscription} (h : WellFormed e) :
    readEntry e = some e := by
  obtain ⟨⟨hendpoint, hvalid, hendpointLen⟩, ⟨hp, hpne, hpLen⟩, ⟨ha, hane, haLen⟩,
    ⟨hdevice, hdeviceLen⟩, ⟨hagent, hagentLen⟩, howner, hsession, hscope⟩ := h
  unfold readEntry normalizeStoredWebPushSubscription
  dsimp only [Option.getD_some]
  have hjoin : ∀ value : Option Units, (value.map some).join = value := by
    intro value
    cases value with
    | none => rfl
    | some value => rfl
  have hself : e.deviceId.or e.deviceId = e.deviceId := by
    cases e.deviceId with
    | none => rfl
    | some deviceId => rfl
  have hboth : ¬ ((Option.map some e.ownerUserId).isSome ||
      (Option.map some e.loginSessionId).isSome) = true ∨
        (e.ownerUserId.isNone || e.loginSessionId.isNone) = false := by
    cases howner : e.ownerUserId with
    | none =>
      rw [howner] at hscope
      cases hsession : e.loginSessionId with
      | none => exact Or.inl (by decide)
      | some session => rw [hsession] at hscope; cases hscope
    | some owner =>
      rw [howner] at hscope
      cases hsession : e.loginSessionId with
      | none => rw [hsession] at hscope; cases hscope
      | some session => exact Or.inr rfl
  rw [hendpoint, hp, ha, hdevice, hagent, hvalid, hjoin, hjoin, howner, hsession, hself]
  rw [if_neg (by simp [hpne, hane]), if_neg, if_neg]
  · rfl
  · simp only [not_or, not_lt]
    exact ⟨hendpointLen, hpLen, haLen, hdeviceLen, hagentLen⟩
  · rintro (hne | ⟨hgiven, hmissing⟩)
    · exact hne hscope
    · rcases hboth with hnone | hsome
      · exact hnone hgiven
      · rw [hsome] at hmissing
        cases hmissing

theorem wellFormed_normalize {input : SubscriptionInput} {options : NormalizeOptions}
    {e : StoredWebPushSubscription}
    (h : normalizeStoredWebPushSubscription input options = some e) : WellFormed e := by
  unfold normalizeStoredWebPushSubscription at h
  dsimp only at h
  split_ifs at h with hinvalid hscope hlong
  cases h
  simp only [Bool.or_eq_true, Bool.not_eq_true', decide_eq_true_eq, not_or, Bool.not_eq_false,
    not_lt] at hinvalid hlong
  rw [not_or, not_ne_iff] at hscope
  obtain ⟨⟨hvalid, hp⟩, ha⟩ := hinvalid
  obtain ⟨hendpointLen, hpLen, haLen, hdeviceLen, hagentLen⟩ := hlong
  refine ⟨⟨trim_trim _, hvalid, hendpointLen⟩, ⟨trim_trim _, hp, hpLen⟩, ⟨trim_trim _, ha, haLen⟩,
    ⟨?_, hdeviceLen⟩, ⟨trimmedText_idem _, hagentLen⟩, normalizeScopeValue_idem _,
    normalizeScopeValue_idem _, hscope.1⟩
  dsimp only
  cases hgiven : trimmedText options.deviceId with
  | none =>
    rw [Option.none_or]
    exact trimmedText_idem _
  | some deviceId =>
    rw [Option.some_or, ← hgiven]
    exact trimmedText_idem _

theorem listStored_eq_self {file : List StoredWebPushSubscription}
    (h : ∀ e ∈ file, WellFormed e) : listStored file = file := by
  unfold listStored
  induction file with
  | nil => rfl
  | cons e file ih =>
    rw [List.forall_mem_cons] at h
    rw [List.filterMap_cons_some (readEntry_eq_self h.1), ih h.2]

end Reading

section Merging
variable {entries merged : List StoredWebPushSubscription}
  {normalized stored e : StoredWebPushSubscription} {allowOwnerRebind : Bool}

/-- The position of the entry that the subscription updates. -/
def matchIndex (entries : List StoredWebPushSubscription)
    (normalized : StoredWebPushSubscription) : Option ℕ :=
  (endpointIndex entries normalized).or (deviceIndex entries normalized)

/-- The entries that the subscription leaves alone. -/
def others (entries : List StoredWebPushSubscription)
    (normalized : StoredWebPushSubscription) : List StoredWebPushSubscription :=
  match matchIndex entries normalized with
  | some i => entries.eraseIdx i
  | none => entries

theorem mem_of_mem_others (h : e ∈ others entries normalized) : e ∈ entries := by
  unfold others at h
  split at h
  · exact List.mem_of_mem_eraseIdx h
  · exact h

theorem others_sublist : (others entries normalized).Sublist entries := by
  unfold others
  split
  · exact List.eraseIdx_sublist _ _
  · exact List.Sublist.refl _

/-- What an update that is not refused returns and leaves before the caps. -/
theorem merge_spec (h : merge entries normalized allowOwnerRebind = some (stored, merged)) :
    merged.Perm (stored :: others entries normalized) ∧
      ((matchIndex entries normalized = none ∧ stored = normalized) ∨
        ∃ i existing, matchIndex entries normalized = some i ∧ entries[i]? = some existing ∧
          stored = nextEntry existing normalized (endpointIndex entries normalized).isSome) ∧
      ∀ i existing, endpointIndex entries normalized = some i → entries[i]? = some existing →
        refused existing normalized allowOwnerRebind = false := by
  unfold merge at h
  dsimp only at h
  split_ifs at h with hrefused
  have hfree : ∀ i existing, endpointIndex entries normalized = some i →
      entries[i]? = some existing → refused existing normalized allowOwnerRebind = false := by
    intro i existing hi hexisting
    rw [hi, Option.bind_some, hexisting, Option.any_some, Bool.not_eq_true] at hrefused
    exact hrefused
  change (match matchIndex entries normalized with
    | some i => (entries[i]?).map (fun existing =>
        let next := nextEntry existing normalized (endpointIndex entries normalized).isSome
        (next, entries.set i next))
    | none => some (normalized, entries ++ [normalized])) = some (stored, merged) at h
  unfold others
  cases hmatch : matchIndex entries normalized with
  | none =>
    rw [hmatch] at h
    cases h
    exact ⟨List.perm_append_singleton _ _, Or.inl ⟨rfl, rfl⟩, hfree⟩
  | some i =>
    rw [hmatch] at h
    obtain ⟨existing, hexisting, heq⟩ := Option.map_eq_some_iff.mp h
    obtain ⟨hlt, -⟩ := List.getElem?_eq_some_iff.mp hexisting
    cases heq
    exact ⟨List.set_perm_cons_eraseIdx hlt _,
      Or.inr ⟨i, existing, rfl, hexisting, rfl⟩, hfree⟩

theorem merge_stored (h : merge entries normalized allowOwnerRebind = some (stored, merged)) :
    stored.endpoint = normalized.endpoint ∧ stored.keys = normalized.keys ∧
      stored.updatedAt = normalized.updatedAt ∧ stored.ownerUserId = normalized.ownerUserId ∧
      stored.loginSessionId = normalized.loginSessionId := by
  obtain ⟨-, ⟨-, rfl⟩ | ⟨i, existing, -, -, rfl⟩, -⟩ := merge_spec h
  · exact ⟨rfl, rfl, rfl, rfl, rfl⟩
  · exact ⟨rfl, rfl, rfl, rfl, rfl⟩

theorem wellFormed_merge (hnormalized : WellFormed normalized)
    (hentries : ∀ e ∈ entries, WellFormed e)
    (h : merge entries normalized allowOwnerRebind = some (stored, merged)) :
    WellFormed stored := by
  obtain ⟨-, ⟨-, rfl⟩ | ⟨i, existing, -, hexisting, rfl⟩, -⟩ := merge_spec h
  · exact hnormalized
  · have hold := hentries existing (List.mem_of_getElem? hexisting)
    have hor : ∀ (P : Option Units → Prop) (a b : Option Units), P a → P b → P (a.or b) := by
      intro P a b ha hb
      cases a with
      | none => exact hb
      | some a => exact ha
    refine ⟨hnormalized.endpoint, hnormalized.p256dh, hnormalized.auth, ?_, ?_,
      hnormalized.ownerUserId, hnormalized.loginSessionId, hnormalized.scope⟩
    · dsimp only [nextEntry, adoptedDevice]
      split_ifs
      · exact hor (fun d => trimmedText d = d ∧ (d.getD []).length ≤ 256) _ _ hold.deviceId
          hnormalized.deviceId
      · exact hor (fun d => trimmedText d = d ∧ (d.getD []).length ≤ 256) _ _
          hnormalized.deviceId hold.deviceId
    · exact hor (fun a => trimmedText a = a ∧ (a.getD []).length ≤ 512) _ _
        hnormalized.userAgent hold.userAgent

/-- Two entries of one owner have one device. -/
def SameDevice (a b : StoredWebPushSubscription) : Prop :=
  a.ownerUserId = b.ownerUserId ∧ a.deviceId = b.deviceId ∧ a.deviceId ≠ none

theorem SameDevice.symm {a b : StoredWebPushSubscription} (h : SameDevice a b) : SameDevice b a :=
  ⟨h.1.symm, h.2.1.symm, h.2.1 ▸ h.2.2⟩

/-- Two entries that the store may hold together. -/
def Compatible (a b : StoredWebPushSubscription) : Prop :=
  a.endpoint ≠ b.endpoint ∧ ¬ SameDevice a b

theorem Compatible.symm {a b : StoredWebPushSubscription} (h : Compatible a b) : Compatible b a :=
  ⟨h.1.symm, fun hsame => h.2 hsame.symm⟩

theorem pairwise_perm {l l' : List StoredWebPushSubscription} (h : l.Perm l') :
    l.Pairwise Compatible ↔ l'.Pairwise Compatible :=
  h.pairwise_iff (fun hab => hab.symm)

theorem compatible_eraseIdx (hentries : entries.Pairwise Compatible) {i : ℕ}
    {existing : StoredWebPushSubscription} (hi : entries[i]? = some existing) :
    ∀ e ∈ entries.eraseIdx i, Compatible existing e := by
  obtain ⟨hlt, hget⟩ := List.getElem?_eq_some_iff.mp hi
  have hperm : (existing :: entries.eraseIdx i).Perm entries := by
    rw [← hget]
    exact List.getElem_cons_eraseIdx_perm hlt
  exact (List.pairwise_cons.mp ((pairwise_perm hperm).mpr hentries)).1

theorem endpointIndex_spec {i : ℕ} (h : endpointIndex entries normalized = some i) :
    ∃ existing, entries[i]? = some existing ∧ existing.endpoint = normalized.endpoint := by
  obtain ⟨hlt, hp, -⟩ := List.findIdx?_eq_some_iff_getElem.mp h
  exact ⟨entries[i], List.getElem?_eq_getElem hlt, of_decide_eq_true hp⟩

/-- A subscription that matches an entry by its endpoint does not adopt a device that another
entry of its owner has. -/
def KeepsDevices (entries : List StoredWebPushSubscription)
    (normalized : StoredWebPushSubscription) : Prop :=
  ∀ existing ∈ (endpointIndex entries normalized).bind (fun i => entries[i]?),
    ∀ e ∈ others entries normalized, e.ownerUserId = normalized.ownerUserId →
      e.deviceId ≠ none → e.deviceId ≠ adoptedDevice existing normalized true

theorem compatible_stored (hentries : entries.Pairwise Compatible)
    (hkeeps : KeepsDevices entries normalized)
    (h : merge entries normalized allowOwnerRebind = some (stored, merged)) :
    ∀ e ∈ others entries normalized, Compatible stored e := by
  obtain ⟨hendpoint, -, -, howner, -⟩ := merge_stored h
  obtain ⟨-, hstored, -⟩ := merge_spec h
  intro e he
  refine ⟨?_, ?_⟩
  · rw [hendpoint]
    cases hindex : endpointIndex entries normalized with
    | none =>
      have hnone := List.findIdx?_eq_none_iff.mp hindex e (mem_of_mem_others he)
      exact fun heq => of_decide_eq_false hnone heq.symm
    | some i =>
      obtain ⟨existing, hexisting, hsame⟩ := endpointIndex_spec hindex
      have hothers : others entries normalized = entries.eraseIdx i := by
        simp [others, matchIndex, hindex]
      rw [hothers] at he
      rw [← hsame]
      exact (compatible_eraseIdx hentries hexisting e he).1
  · rintro ⟨hownerSame, hdeviceSame, hdevice⟩
    rw [howner] at hownerSame
    rcases hstored with ⟨hnone, rfl⟩ | ⟨i, existing, hi, hexisting, rfl⟩
    · -- No entry of the owner has the device.
      have hindex : deviceIndex entries stored = none := by
        unfold matchIndex at hnone
        exact (Option.or_eq_none_iff.mp hnone).2
      unfold deviceIndex at hindex
      rw [if_neg hdevice] at hindex
      have hother := List.findIdx?_eq_none_iff.mp hindex e (mem_of_mem_others he)
      simp [← hownerSame, ← hdeviceSame] at hother
    · cases hindex : endpointIndex entries normalized with
      | some j =>
        have hij : j = i := by
          unfold matchIndex at hi
          rw [hindex, Option.some_or, Option.some_inj] at hi
          exact hi
        subst hij
        rw [hindex] at hdeviceSame hdevice
        refine hkeeps existing ?_ e he hownerSame.symm ?_ hdeviceSame.symm
        · rw [hindex, Option.bind_some, hexisting]
          rfl
        · rw [← hdeviceSame]
          exact hdevice
      | none =>
        -- The entry with the device of the subscription is the one that is updated.
        have hdeviceIndex : deviceIndex entries normalized = some i := by
          unfold matchIndex at hi
          rwa [hindex, Option.none_or] at hi
        have hothers : others entries normalized = entries.eraseIdx i := by
          simp [others, hi]
        rw [hothers] at he
        unfold deviceIndex at hdeviceIndex
        split_ifs at hdeviceIndex with hnone
        obtain ⟨hlt, hp, -⟩ := List.findIdx?_eq_some_iff_getElem.mp hdeviceIndex
        have hget : entries[i] = existing := by
          rw [List.getElem?_eq_getElem hlt, Option.some_inj] at hexisting
          exact hexisting
        rw [hget, Bool.and_eq_true, decide_eq_true_eq, decide_eq_true_eq] at hp
        rw [hindex] at hdeviceSame
        have hadopted : adoptedDevice existing normalized false = normalized.deviceId := by
          unfold adoptedDevice
          rw [if_neg Bool.false_ne_true]
          cases hd : normalized.deviceId with
          | none => exact absurd hd hnone
          | some d => rfl
        have hsame : e.deviceId = normalized.deviceId := by
          rw [← hadopted]
          exact hdeviceSame.symm
        exact (compatible_eraseIdx hentries hexisting e he).2
          ⟨hp.2.trans hownerSame, hp.1.trans hsame.symm, hp.1 ▸ hnone⟩

end Merging

section Capping
variable {locale : LocaleOrder} {maxEntries : ℕ} {entries : List StoredWebPushSubscription}
  {e : StoredWebPushSubscription} {owner : Option Units}

theorem before_iff {a b : StoredWebPushSubscription} :
    before locale a b = true ↔ b.updatedAt < a.updatedAt ∨
      b.updatedAt = a.updatedAt ∧ locale.le a.endpoint b.endpoint = true := by
  unfold before
  split_ifs with hne
  · rw [decide_eq_true_eq]
    exact ⟨Or.inl, fun h => h.resolve_right (fun hsame => hne hsame.1)⟩
  · have hsame : b.updatedAt = a.updatedAt := not_ne_iff.mp hne
    exact ⟨fun h => Or.inr ⟨hsame, h⟩, fun h => (h.resolve_left (by omega)).2⟩

theorem before_trans (a b c : StoredWebPushSubscription) (hab : before locale a b = true)
    (hbc : before locale b c = true) : before locale a c = true := by
  rw [before_iff] at hab hbc ⊢
  rcases hab with hab | ⟨hab, hlab⟩
  · rcases hbc with hbc | ⟨hbc, -⟩
    · exact Or.inl (hbc.trans hab)
    · exact Or.inl (hbc ▸ hab)
  · rcases hbc with hbc | ⟨hbc, hlbc⟩
    · exact Or.inl (hab ▸ hbc)
    · exact Or.inr ⟨hbc.trans hab, locale.trans _ _ _ hlab hlbc⟩

theorem before_total (a b : StoredWebPushSubscription) :
    (before locale a b || before locale b a) = true := by
  rw [Bool.or_eq_true, before_iff, before_iff]
  rcases lt_trichotomy a.updatedAt b.updatedAt with hlt | heq | hlt
  · exact Or.inr (Or.inl hlt)
  · rcases Bool.or_eq_true_iff.mp (locale.total a.endpoint b.endpoint) with hle | hle
    · exact Or.inl (Or.inr ⟨heq.symm, hle⟩)
    · exact Or.inr (Or.inr ⟨heq, hle⟩)
  · exact Or.inl (Or.inl hlt)

/-- An entry that few enough entries sort before is among the first. -/
theorem mem_take_mergeSort {n : ℕ} (he : e ∈ entries)
    (hfew : entries.countP (fun x => before locale x e) ≤ n) :
    e ∈ (entries.mergeSort (before locale)).take n := by
  have hperm := List.mergeSort_perm entries (before locale)
  have hsorted : (entries.mergeSort (before locale)).Pairwise (fun a b => before locale a b) :=
    List.pairwise_mergeSort before_trans before_total entries
  obtain ⟨first, rest, hsplit⟩ := List.append_of_mem (hperm.mem_iff.mpr he)
  rw [← hperm.countP_eq, hsplit, List.countP_append] at hfew
  rw [hsplit, List.pairwise_append] at hsorted
  have hfirst : first.countP (fun x => before locale x e) = first.length := by
    rw [List.countP_eq_length]
    exact fun x hx => hsorted.2.2 x hx e List.mem_cons_self
  have hself : before locale e e = true := by
    have htotal : (before locale e e || before locale e e) = true := before_total e e
    rwa [Bool.or_self] at htotal
  simp only [List.countP_cons, hself, if_true, hfirst] at hfew
  have hlt : first.length < n := by omega
  obtain ⟨k, hk⟩ := Nat.exists_eq_add_of_lt hlt
  rw [hsplit, hk, Nat.add_assoc, List.take_length_add_append, List.take_succ_cons]
  exact List.mem_append_right _ List.mem_cons_self

theorem capStored_subperm : (capStored locale maxEntries entries).Subperm entries := by
  unfold capStored
  split_ifs
  · exact List.Subperm.refl _
  · exact (List.take_sublist _ _).subperm.trans (List.mergeSort_perm _ _).subperm

theorem capStored_length : (capStored locale maxEntries entries).length ≤ maxEntries := by
  unfold capStored
  split_ifs with hfits
  · exact hfits
  · exact List.length_take_le _ _

theorem mem_capStored (he : e ∈ entries)
    (hfew : entries.countP (fun x => before locale x e) ≤ maxEntries) :
    e ∈ capStored locale maxEntries entries := by
  unfold capStored
  split_ifs
  · exact he
  · exact mem_take_mergeSort he hfew

/-- The entries that the cap of an owner leaves. -/
def ownerCapped (locale : LocaleOrder) (entries : List StoredWebPushSubscription)
    (owner : Option Units) : List StoredWebPushSubscription :=
  entries.filter (fun e => !decide (e.ownerUserId = owner)) ++
    ((entries.filter (fun e => e.ownerUserId = owner)).mergeSort (before locale)).take
      subscriptionCapPerOwner

theorem capByOwner_eq (locale : LocaleOrder) (maxEntries : ℕ)
    (entries : List StoredWebPushSubscription) (owner : Option Units) :
    capByOwner locale maxEntries entries owner = capStored locale maxEntries
      (if owner = none then entries else ownerCapped locale entries owner) := by
  unfold capByOwner
  split_ifs
  · rfl
  · rfl

theorem ownerCapped_subperm : (ownerCapped locale entries owner).Subperm entries := by
  unfold ownerCapped
  have htake : (((entries.filter (fun e => e.ownerUserId = owner)).mergeSort
      (before locale)).take subscriptionCapPerOwner).Subperm
        (entries.filter (fun e => e.ownerUserId = owner)) :=
    (List.take_sublist _ _).subperm.trans (List.mergeSort_perm _ _).subperm
  refine (List.Subperm.append (List.Subperm.refl _) htake).trans ?_
  exact (List.perm_append_comm.trans (List.filter_append_perm _ _)).subperm

theorem capByOwner_subperm : (capByOwner locale maxEntries entries owner).Subperm entries := by
  rw [capByOwner_eq]
  refine capStored_subperm.trans ?_
  split_ifs
  · exact List.Subperm.refl _
  · exact ownerCapped_subperm

theorem ownerCapped_count (hentries : ∀ o, o ≠ owner → o ≠ none →
      entries.countP (fun e => e.ownerUserId = o) ≤ subscriptionCapPerOwner) (o : Option Units)
    (ho : o ≠ none) :
    (ownerCapped locale entries owner).countP (fun e => e.ownerUserId = o) ≤
      subscriptionCapPerOwner := by
  by_cases howner : o = owner
  · subst howner
    unfold ownerCapped
    rw [List.countP_append, List.countP_filter]
    have hnone : entries.countP (fun e => decide (e.ownerUserId = o) &&
        !decide (e.ownerUserId = o)) = 0 := by
      rw [List.countP_eq_zero]
      intro e _
      simp
    rw [hnone, Nat.zero_add]
    exact (List.countP_le_length).trans (List.length_take_le _ _)
  · exact (ownerCapped_subperm.countP_le _).trans (hentries o howner ho)

theorem capByOwner_count (hentries : ∀ o, o ≠ owner → o ≠ none →
      entries.countP (fun e => e.ownerUserId = o) ≤ subscriptionCapPerOwner) (o : Option Units)
    (ho : o ≠ none) :
    (capByOwner locale maxEntries entries owner).countP (fun e => e.ownerUserId = o) ≤
      subscriptionCapPerOwner := by
  rw [capByOwner_eq]
  refine (capStored_subperm.countP_le _).trans ?_
  split_ifs with hnone
  · exact hentries o (fun h => ho (h.trans hnone)) ho
  · exact ownerCapped_count hentries o ho

theorem capByOwner_length : (capByOwner locale maxEntries entries owner).length ≤ maxEntries := by
  rw [capByOwner_eq]
  exact capStored_length

/-- An entry survives both caps that too few entries for either sort before. -/
theorem mem_capByOwner (he : e ∈ entries)
    (howner : owner ≠ none → e.ownerUserId = owner → entries.countP (fun x =>
      before locale x e && decide (x.ownerUserId = owner)) ≤ subscriptionCapPerOwner)
    (hall : entries.countP (fun x => before locale x e) ≤ maxEntries) :
    e ∈ capByOwner locale maxEntries entries owner := by
  rw [capByOwner_eq]
  split_ifs with hnone
  · exact mem_capStored he hall
  · refine mem_capStored ?_ ((ownerCapped_subperm.countP_le _).trans hall)
    unfold ownerCapped
    rw [List.mem_append, List.mem_filter]
    by_cases hsame : e.ownerUserId = owner
    · right
      refine mem_take_mergeSort (List.mem_filter.mpr ⟨he, decide_eq_true hsame⟩) ?_
      rw [List.countP_filter]
      exact howner hnone hsame
    · left
      exact ⟨he, by simpa using hsame⟩

end Capping

section Runs
variable (locale : LocaleOrder) (maxEntries : ℕ)

structure Invariant (maxEntries : ℕ) (file : List StoredWebPushSubscription) : Prop where
  endpoints : (file.map StoredWebPushSubscription.endpoint).Nodup
  devices : file.Pairwise (fun a b => ¬ SameDevice a b)
  perOwner : ∀ owner, owner ≠ none →
    file.countP (fun e => e.ownerUserId = owner) ≤ subscriptionCapPerOwner
  total : file.length ≤ maxEntries

/-- The entry was updated at the present moment too, and its endpoint does not sort after the one
of the subscription. -/
def ties (normalized e : StoredWebPushSubscription) : Bool :=
  decide (e.updatedAt = normalized.updatedAt) && locale.le e.endpoint normalized.endpoint

/-- Fewer entries than either cap tie with the subscription. -/
def HasRoom (entries : List StoredWebPushSubscription)
    (normalized : StoredWebPushSubscription) : Prop :=
  (normalized.ownerUserId ≠ none → (others entries normalized).countP (fun e =>
    ties locale normalized e && decide (e.ownerUserId = normalized.ownerUserId)) <
      subscriptionCapPerOwner) ∧
  (others entries normalized).countP (ties locale normalized) < maxEntries

/-- An upsert that is not refused adopts no device that another entry of its owner has, and ties
with fewer entries than the caps. -/
def Meets (file : List StoredWebPushSubscription) : Call → Prop
  | .upsert input options allowOwnerRebind =>
    ∀ normalized ∈ normalizeStoredWebPushSubscription input options,
      (merge (listStored file) normalized allowOwnerRebind).isSome →
        KeepsDevices (listStored file) normalized ∧
          HasRoom locale maxEntries (listStored file) normalized
  | _ => True

/-- What an upsert returns is stored, and entries of other owners keep their keys, session and
owner unless the subscription has their keys and may rebind them. -/
def UpsertKept (file : List StoredWebPushSubscription) : Call → Prop
  | .upsert input options allowOwnerRebind =>
    ∀ stored file', upsert locale maxEntries file input options allowOwnerRebind =
        some (stored, file') →
      stored ∈ file' ∧ ∀ e ∈ file, e.ownerUserId ≠ stored.ownerUserId →
        ∀ e' ∈ file', e'.endpoint = e.endpoint →
          (e'.keys = e.keys ∧ e'.loginSessionId = e.loginSessionId ∧
            e'.ownerUserId = e.ownerUserId) ∨
          allowOwnerRebind = true ∧ e.keys = stored.keys
  | _ => True

def Call.time (clock : ℤ) : Call → ℤ
  | .upsert _ options _ => options.now
  | _ => clock

/-- The times of the upserts do not decrease. -/
def Ordered : ℤ → List Call → Prop
  | _, [] => True
  | clock, call :: calls => clock ≤ call.time clock ∧ Ordered (call.time clock) calls

/-- The invariant with what the induction needs: entries that read back as they are, none of them
from the future. -/
structure Sound (maxEntries : ℕ) (clock : ℤ) (file : List StoredWebPushSubscription) : Prop where
  wellFormed : ∀ e ∈ file, WellFormed e
  past : ∀ e ∈ file, e.updatedAt ≤ clock
  compatible : file.Pairwise Compatible
  perOwner : ∀ owner, owner ≠ none →
    file.countP (fun e => e.ownerUserId = owner) ≤ subscriptionCapPerOwner
  total : file.length ≤ maxEntries

variable {locale maxEntries} {clock : ℤ} {file : List StoredWebPushSubscription}

theorem Sound.invariant (h : Sound maxEntries clock file) : Invariant maxEntries file where
  endpoints := by
    rw [List.Nodup, List.pairwise_map]
    exact h.compatible.imp (fun hab => hab.1)
  devices := h.compatible.imp (fun hab => hab.2)
  perOwner := h.perOwner
  total := h.total

theorem Sound.filter (h : Sound maxEntries clock file) (keeps : StoredWebPushSubscription → Bool) :
    Sound maxEntries clock (file.filter keeps) where
  wellFormed e he := h.wellFormed e (List.mem_of_mem_filter he)
  past e he := h.past e (List.mem_of_mem_filter he)
  compatible := h.compatible.filter keeps
  perOwner owner howner :=
    List.filter_sublist.countP_le.trans (h.perOwner owner howner)
  total := (List.length_filter_le _ _).trans h.total

theorem Sound.writeRemaining (h : Sound maxEntries clock file)
    (keeps : StoredWebPushSubscription → Bool) :
    Sound maxEntries clock (writeRemaining file keeps) := by
  unfold Push.writeRemaining
  rw [listStored_eq_self h.wellFormed]
  dsimp only
  split_ifs
  · exact h
  · exact h.filter keeps

/-- What sorts before the stored entry ties with it, as no entry is later. -/
theorem countP_before_le {entries merged : List StoredWebPushSubscription}
    {normalized stored : StoredWebPushSubscription} {allowOwnerRebind : Bool}
    (hmerge : merge entries normalized allowOwnerRebind = some (stored, merged))
    (hpast : ∀ e ∈ entries, e.updatedAt ≤ normalized.updatedAt)
    (p : StoredWebPushSubscription → Bool) {n : ℕ}
    (hfew : (others entries normalized).countP (fun e => ties locale normalized e && p e) < n) :
    merged.countP (fun e => before locale e stored && p e) ≤ n := by
  obtain ⟨hendpoint, -, htime, -, -⟩ := merge_stored hmerge
  have hothers : (others entries normalized).countP (fun e => before locale e stored && p e) ≤
      (others entries normalized).countP (fun e => ties locale normalized e && p e) := by
    apply List.countP_mono_left
    intro e he hbefore
    rw [Bool.and_eq_true] at hbefore ⊢
    refine ⟨?_, hbefore.2⟩
    have hle := hpast e (mem_of_mem_others he)
    rcases before_iff.mp hbefore.1 with hlater | ⟨hsame, hle'⟩
    · rw [htime] at hlater
      omega
    · unfold ties
      rw [Bool.and_eq_true, decide_eq_true_eq, ← hendpoint, ← htime]
      exact ⟨hsame.symm, hle'⟩
  rw [(merge_spec hmerge).1.countP_eq, List.countP_cons]
  split_ifs
  · omega
  · omega

theorem mem_file_of_upsert {entries merged : List StoredWebPushSubscription}
    {normalized stored : StoredWebPushSubscription} {allowOwnerRebind : Bool}
    (hmerge : merge entries normalized allowOwnerRebind = some (stored, merged))
    (hpast : ∀ e ∈ entries, e.updatedAt ≤ normalized.updatedAt)
    (hroom : HasRoom locale maxEntries entries normalized) :
    stored ∈ capByOwner locale maxEntries merged normalized.ownerUserId := by
  have hmem : stored ∈ merged := (merge_spec hmerge).1.mem_iff.mpr List.mem_cons_self
  refine mem_capByOwner hmem ?_ ?_
  · intro howner _
    exact countP_before_le hmerge hpast _ (hroom.1 howner)
  · have hall := countP_before_le hmerge hpast (fun _ => true) (n := maxEntries)
      (by simpa using hroom.2)
    simpa using hall

theorem sound_upsert {entries merged : List StoredWebPushSubscription}
    {normalized stored : StoredWebPushSubscription} {allowOwnerRebind : Bool}
    (h : Sound maxEntries clock entries) (hnormalized : WellFormed normalized)
    (hclock : clock ≤ normalized.updatedAt) (hkeeps : KeepsDevices entries normalized)
    (hmerge : merge entries normalized allowOwnerRebind = some (stored, merged)) :
    Sound maxEntries normalized.updatedAt
      (capByOwner locale maxEntries merged normalized.ownerUserId) := by
  obtain ⟨hperm, -, -⟩ := merge_spec hmerge
  obtain ⟨-, -, htime, howner, -⟩ := merge_stored hmerge
  have hsub : (capByOwner locale maxEntries merged normalized.ownerUserId).Subperm
      (stored :: others entries normalized) := capByOwner_subperm.trans hperm.subperm
  have hmem : ∀ e ∈ capByOwner locale maxEntries merged normalized.ownerUserId,
      e = stored ∨ e ∈ entries := by
    intro e he
    exact (List.mem_cons.mp (hsub.subset he)).imp id mem_of_mem_others
  have hothers : (others entries normalized).Pairwise Compatible :=
    h.compatible.sublist others_sublist
  refine ⟨?_, ?_, ?_, ?_, capByOwner_length⟩
  · intro e he
    rcases hmem e he with rfl | he
    · exact wellFormed_merge hnormalized h.wellFormed hmerge
    · exact h.wellFormed e he
  · intro e he
    rcases hmem e he with rfl | he
    · exact htime.le
    · exact (h.past e he).trans hclock
  · obtain ⟨l, hl, hsublist⟩ := hsub
    rw [← pairwise_perm hl]
    exact (List.pairwise_cons.mpr
      ⟨compatible_stored h.compatible hkeeps hmerge, hothers⟩).sublist hsublist
  · refine capByOwner_count ?_
    intro o hne ho
    rw [hperm.countP_eq, List.countP_cons_of_neg]
    · exact others_sublist.countP_le.trans (h.perOwner o ho)
    · rw [howner, decide_eq_true_eq]
      exact Ne.symm hne

theorem eq_of_endpoint {entries : List StoredWebPushSubscription}
    (hentries : entries.Pairwise Compatible) {a b : StoredWebPushSubscription} (ha : a ∈ entries)
    (hb : b ∈ entries) (hab : a.endpoint = b.endpoint) : a = b := by
  have hnodup : (entries.map StoredWebPushSubscription.endpoint).Nodup := by
    rw [List.Nodup, List.pairwise_map]
    exact hentries.imp (fun h => h.1)
  exact List.inj_on_of_nodup_map hnodup ha hb hab

/-- An entry of another owner that an update changes had its keys and could be rebound. -/
theorem owners_kept {entries merged : List StoredWebPushSubscription}
    {normalized stored : StoredWebPushSubscription} {allowOwnerRebind : Bool}
    (hentries : entries.Pairwise Compatible)
    (hmerge : merge entries normalized allowOwnerRebind = some (stored, merged))
    {e e' : StoredWebPushSubscription} (he : e ∈ entries)
    (howner : e.ownerUserId ≠ stored.ownerUserId) (he' : e' ∈ merged)
    (hendpoint : e'.endpoint = e.endpoint) :
    e' = e ∨ allowOwnerRebind = true ∧ e.keys = stored.keys := by
  obtain ⟨hperm, -, hfree⟩ := merge_spec hmerge
  obtain ⟨hstored, hkeys, -, hstoredOwner, -⟩ := merge_stored hmerge
  rcases List.mem_cons.mp (hperm.mem_iff.mp he') with rfl | hother
  · right
    have hsome : (endpointIndex entries normalized).isSome := by
      unfold endpointIndex
      rw [List.findIdx?_isSome, List.any_eq_true]
      exact ⟨e, he, decide_eq_true (hendpoint.symm.trans hstored)⟩
    obtain ⟨i, hi⟩ := Option.isSome_iff_exists.mp hsome
    obtain ⟨existing, hexisting, hsame⟩ := endpointIndex_spec hi
    have heq : existing = e := eq_of_endpoint hentries (List.mem_of_getElem? hexisting) he
      (hsame.trans (hstored.symm.trans hendpoint))
    have hnot := hfree i existing hi hexisting
    rw [heq] at hnot
    unfold refused at hnot
    rw [hstoredOwner] at howner
    simp only [howner, ne_eq, not_false_eq_true, decide_true, Bool.true_and, Bool.or_eq_false_iff,
      Bool.not_eq_false', decide_eq_false_iff_not, not_not] at hnot
    obtain ⟨⟨hallow, hauth⟩, hp256dh⟩ := hnot
    refine ⟨hallow, ?_⟩
    rw [hkeys]
    cases hek : e.keys with
    | mk auth p256dh =>
      rw [hek] at hauth hp256dh
      cases hnk : normalized.keys with
      | mk auth' p256dh' =>
        rw [hnk] at hauth hp256dh
        exact congrArg₂ Keys.mk hauth hp256dh
  · exact Or.inl (eq_of_endpoint hentries (mem_of_mem_others hother) he hendpoint)

theorem upsert_eq_some {input : SubscriptionInput} {options : NormalizeOptions}
    {allowOwnerRebind : Bool} {stored : StoredWebPushSubscription}
    {file' : List StoredWebPushSubscription} :
    upsert locale maxEntries file input options allowOwnerRebind = some (stored, file') ↔
      ∃ normalized merged, normalizeStoredWebPushSubscription input options = some normalized ∧
        merge (listStored file) normalized allowOwnerRebind = some (stored, merged) ∧
        file' = capByOwner locale maxEntries merged normalized.ownerUserId := by
  unfold upsert
  constructor
  · intro h
    obtain ⟨normalized, hnormalized, h⟩ := Option.bind_eq_some_iff.mp h
    obtain ⟨⟨stored', merged⟩, hmerge, heq⟩ := Option.map_eq_some_iff.mp h
    cases heq
    exact ⟨normalized, merged, hnormalized, hmerge, rfl⟩
  · rintro ⟨normalized, merged, hnormalized, hmerge, rfl⟩
    rw [hnormalized, Option.bind_some, hmerge]
    rfl

theorem normalize_updatedAt {input : SubscriptionInput} {options : NormalizeOptions}
    {e : StoredWebPushSubscription}
    (h : normalizeStoredWebPushSubscription input options = some e) :
    e.updatedAt = options.now := by
  unfold normalizeStoredWebPushSubscription at h
  dsimp only at h
  split_ifs at h
  cases h
  rfl

theorem sound_step {call : Call} (h : Sound maxEntries clock file)
    (hclock : clock ≤ call.time clock) (hmeets : Meets locale maxEntries file call) :
    Sound maxEntries (call.time clock) (step locale maxEntries file call) := by
  cases call with
  | upsert input options allowOwnerRebind =>
    dsimp only [step]
    cases hupsert : upsert locale maxEntries file input options allowOwnerRebind with
    | none =>
      exact ⟨h.wellFormed, fun e he => (h.past e he).trans hclock, h.compatible, h.perOwner,
        h.total⟩
    | some result =>
      obtain ⟨normalized, merged, hnormalized, hmerge, hfile⟩ := upsert_eq_some.mp hupsert
      have htime := normalize_updatedAt hnormalized
      obtain ⟨hkeeps, -⟩ := hmeets normalized hnormalized (by rw [hmerge]; rfl)
      rw [listStored_eq_self h.wellFormed] at hmerge hkeeps
      rw [Option.map_some, Option.getD_some, hfile]
      dsimp only [Call.time] at hclock ⊢
      rw [← htime] at hclock ⊢
      exact sound_upsert h (wellFormed_normalize hnormalized) hclock hkeeps hmerge
  | remove endpoint scope =>
    dsimp only [step, remove]
    split_ifs
    · exact h
    · exact h.writeRemaining _
  | prune predicate => exact h.writeRemaining _

theorem upsertKept_step {call : Call} (h : Sound maxEntries clock file)
    (hclock : clock ≤ call.time clock) (hmeets : Meets locale maxEntries file call) :
    UpsertKept locale maxEntries file call := by
  cases call with
  | upsert input options allowOwnerRebind =>
    intro stored file' hupsert
    obtain ⟨normalized, merged, hnormalized, hmerge, rfl⟩ := upsert_eq_some.mp hupsert
    obtain ⟨-, hroom⟩ := hmeets normalized hnormalized (by rw [hmerge]; rfl)
    rw [listStored_eq_self h.wellFormed] at hmerge hroom
    have hpast : ∀ e ∈ file, e.updatedAt ≤ normalized.updatedAt := by
      intro e he
      rw [normalize_updatedAt hnormalized]
      exact (h.past e he).trans hclock
    refine ⟨mem_file_of_upsert hmerge hpast hroom, ?_⟩
    intro e he howner e' he' hendpoint
    rcases owners_kept h.compatible hmerge he howner (capByOwner_subperm.subset he') hendpoint with
      rfl | hrebound
    · exact Or.inl ⟨rfl, rfl, rfl⟩
    · exact Or.inr hrebound
  | remove endpoint scope => trivial
  | prune predicate => trivial

/-- In every run whose upserts meet the condition the invariant holds in every state reached,
every upsert returns an entry that is stored, and entries of other owners are left alone unless
they may be rebound. -/
theorem push_store_invariant (locale : LocaleOrder) (configuredCap : Option ℤ) (start : ℤ)
    (calls : List Call) (hordered : Ordered start calls)
    (hmeets : Relational.Along (step locale (maxStored configuredCap))
      (Meets locale (maxStored configuredCap)) [] calls) :
    Relational.Along (step locale (maxStored configuredCap)) (fun file call =>
      Invariant (maxStored configuredCap) (step locale (maxStored configuredCap) file call) ∧
        UpsertKept locale (maxStored configuredCap) file call) [] calls := by
  have hempty : Sound (maxStored configuredCap) start [] :=
    ⟨fun _ h => absurd h List.not_mem_nil, fun _ h => absurd h List.not_mem_nil,
      List.Pairwise.nil, fun _ _ => Nat.zero_le _, Nat.zero_le _⟩
  generalize ([] : List StoredWebPushSubscription) = file at hempty hmeets ⊢
  induction calls generalizing start file with
  | nil => trivial
  | cons call calls ih =>
    have hstep := sound_step hempty hordered.1 hmeets.1
    exact ⟨⟨hstep.invariant, upsertKept_step hempty hordered.1 hmeets.1⟩,
      ih _ hordered.2 _ hstep hmeets.2⟩

instance (a b : StoredWebPushSubscription) : Decidable (SameDevice a b) :=
  inferInstanceAs (Decidable (_ ∧ _ ∧ _))

instance (entries : List StoredWebPushSubscription) (normalized : StoredWebPushSubscription) :
    Decidable (KeepsDevices entries normalized) :=
  inferInstanceAs (Decidable (∀ existing ∈ Option.bind _ _, _))

instance (entries : List StoredWebPushSubscription) (normalized : StoredWebPushSubscription) :
    Decidable (HasRoom locale maxEntries entries normalized) :=
  inferInstanceAs (Decidable (_ ∧ _))

instance (file : List StoredWebPushSubscription) :
    (call : Call) → Decidable (Meets locale maxEntries file call)
  | .upsert input options allowOwnerRebind => inferInstanceAs (Decidable
      (∀ normalized ∈ normalizeStoredWebPushSubscription input options,
        (merge (listStored file) normalized allowOwnerRebind).isSome →
          KeepsDevices (listStored file) normalized ∧
            HasRoom locale maxEntries (listStored file) normalized))
  | .remove _ _ => inferInstanceAs (Decidable True)
  | .prune _ => inferInstanceAs (Decidable True)

/-- The endpoints unit by unit, as `localeCompare` orders them when they differ in one letter. -/
def byUnit : LocaleOrder where
  le a b := decide (a ≤ b)
  trans a b c hab hbc := decide_eq_true ((of_decide_eq_true hab).trans (of_decide_eq_true hbc))
  total a b := by
    rw [Bool.or_eq_true, decide_eq_true_eq, decide_eq_true_eq]
    exact le_total a b

/-- A browser subscribes at `endpoint` at the time `now`. -/
def subscribe (endpoint : String) (deviceId : Option String) (now : ℤ) : Call :=
  .upsert ⟨some (units endpoint), some (units "p"), some (units "s"), none, deviceId.map units⟩
    ⟨now, none, none, none, none⟩ false

theorem push_store_invariant_witness :
    Relational.Along (step byUnit (maxStored none)) (fun file call =>
      Invariant (maxStored none) (step byUnit (maxStored none) file call) ∧
        UpsertKept byUnit (maxStored none) file call) []
      [subscribe "https://a" (some "d") 1, subscribe "https://b" none 2,
        subscribe "https://c" (some "d") 3] :=
  push_store_invariant byUnit none 0 _ ⟨by decide, by decide, by decide, trivial⟩
    ⟨by decide, by decide, by decide, trivial⟩

/-- The entry at `https://b` had no device and adopts the one of the entry at `https://a`, which
stays in the store. -/
theorem adopted_device_stored_twice :
    ¬ ∀ (locale : LocaleOrder) (configuredCap : Option ℤ) (start : ℤ) (calls : List Call),
      Ordered start calls →
      Relational.Along (step locale (maxStored configuredCap)) (fun file call =>
        Invariant (maxStored configuredCap) (step locale (maxStored configuredCap) file call)) []
        calls := by
  intro h
  have hrun := h byUnit none 0 [subscribe "https://a" (some "d") 1,
    subscribe "https://b" none 2, subscribe "https://b" (some "d") 3]
    ⟨by decide, by decide, by decide, trivial⟩
  exact absurd hrun.2.2.1.devices (by decide)

end Runs

end Piclaw.Push
