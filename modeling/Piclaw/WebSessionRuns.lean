import Piclaw.WebSessions

/-!
# Only issued tokens authenticate

A row stays with the token of the login that made it: stored under its hash or, before its repair,
under the token itself. The one statement that breaks this is the repair of a row that is no legacy
row, which a lookup reaches when it is given the stored value of a hashed row. Runs without such a
lookup keep every answer, every session identifier and every other login.
-/

namespace Piclaw.WebSessions
open Relational
variable {P : SessionPlatform} {used legacy : Set String} {s t : SessionState}
  {row : StoredWebSession} {logins : List Login} {lookup : Lookup}
  {rows rows' : List StoredWebSession}

section Statements

/-- The digest tells the tokens of a run apart, and is no legacy token of another. -/
structure Separated (P : SessionPlatform) (used legacy : Set String) : Prop where
  injective : Set.InjOn P.hashSessionToken used
  apart : ∀ p ∈ legacy, ∀ t ∈ used, P.hashSessionToken t = p → t = p

def Holds (login : Login) (row : StoredWebSession) : Prop :=
  row.userId = login.userId ∧ row.authMethod = login.authMethod ∧
    row.createdAt = login.createdAt ∧ row.expiresAt = login.expiresAt

/-- The row of a login, stored under its token's hash or as a legacy row. -/
def Owned (P : SessionPlatform) (used legacy : Set String) (logins : List Login)
    (row : StoredWebSession) : Prop :=
  ∃ login, logins[row.login]? = some login ∧ login.token ∈ used ∧ Holds login row ∧
    (row.token = P.hashSessionToken login.token ∨
      (row.token = login.token ∧ login.token ∈ legacy))

def OfToken (logins : List Login) (token : String) (row : StoredWebSession) : Prop :=
  ∃ login, logins[row.login]? = some login ∧ login.token = token ∧ Holds login row

/-- No other token of the run has this one as its hash. -/
def NoHash (P : SessionPlatform) (used : Set String) (token : String) : Prop :=
  ∀ a ∈ used, P.hashSessionToken a = token → a = token

/-- Tokens are those of the run, and a repairing lookup that finds a row under its token itself was
not given the hash of another token. -/
def Presented (P : SessionPlatform) (used : Set String) (s : SessionState) : SessionEvent → Prop
  | .createWebSession token _ _ _ _ => token ∈ used
  | .start _ token _ => token ∈ used
  | .advance i _ => ∀ lookup, s.lookups i = some lookup → lookup.place = .plain →
      lookup.mode = .repairing → (∃ row ∈ s.rows, row.token = lookup.token) →
      NoHash P used lookup.token
  | _ => True

/-- A session is that of an unexpired login of the token, whose row the last read found. -/
def Answered (P : SessionPlatform) (logins : List Login) (lookup : Lookup)
    (record : WebSessionRecord) : Prop :=
  ∃ row ∈ lookup.lastRead.rows, ∃ login, logins[row.login]? = some login ∧
    login.token = lookup.token ∧ unexpired P lookup.lastRead.clock login.expiresAt = true ∧
    ∃ sessionId, row.sessionId = some sessionId ∧
      record = ⟨login.token, sessionId, login.userId, login.authMethod, login.createdAt,
        login.expiresAt⟩

/-- Rows of a later state are new, or were there with the session identifier they have if any. -/
def Continues (s t : SessionState) : Prop :=
  s.logins.length ≤ t.logins.length ∧
  ∀ row' ∈ t.rows, s.logins.length ≤ row'.login ∨ ∃ row ∈ s.rows, row.login = row'.login ∧
    ∀ sessionId, row.sessionId = some sessionId → row'.sessionId = some sessionId

end Statements

section Rows

theorem Owned.of_hash (hsep : Separated P used legacy) (h : Owned P used legacy logins row)
    {token : String} (hused : token ∈ used) (hrow : row.token = P.hashSessionToken token) :
    OfToken logins token row := by
  obtain ⟨login, hlogin, hmem, hholds, hstored | ⟨hstored, hlegacy⟩⟩ := h
  · exact ⟨login, hlogin, hsep.injective hmem hused (hstored.symm.trans hrow), hholds⟩
  · have heq := hsep.apart login.token hlegacy token hused (hrow.symm.trans hstored)
    exact ⟨login, hlogin, heq.symm, hholds⟩

theorem Owned.of_plain (h : Owned P used legacy logins row) {token : String}
    (hnohash : NoHash P used token) (hrow : row.token = token) : OfToken logins token row := by
  obtain ⟨login, hlogin, hmem, hholds, hstored | ⟨hstored, -⟩⟩ := h
  · exact ⟨login, hlogin, hnohash login.token hmem (hstored.symm.trans hrow), hholds⟩
  · exact ⟨login, hlogin, hstored.symm.trans hrow, hholds⟩

theorem getElem?_append_login {more : List Login} {n : ℕ} {login : Login}
    (h : logins[n]? = some login) : (logins ++ more)[n]? = some login := by
  rw [List.getElem?_append_left (List.getElem?_eq_some_iff.mp h).1]
  exact h

theorem Owned.append {more : List Login} (h : Owned P used legacy logins row) :
    Owned P used legacy (logins ++ more) row := by
  obtain ⟨login, hlogin, hrest⟩ := h
  exact ⟨login, getElem?_append_login hlogin, hrest⟩

theorem OfToken.append {more : List Login} {token : String} (h : OfToken logins token row) :
    OfToken (logins ++ more) token row := by
  obtain ⟨login, hlogin, hrest⟩ := h
  exact ⟨login, getElem?_append_login hlogin, hrest⟩

theorem Owned.lt_length (h : Owned P used legacy logins row) : row.login < logins.length := by
  obtain ⟨login, hlogin, -⟩ := h
  exact (List.getElem?_eq_some_iff.mp hlogin).1

/-- Two rows of one login are the same row. -/
theorem eq_of_login {row' : StoredWebSession} (h : (rows.map StoredWebSession.login).Nodup)
    (hrow : row ∈ rows) (hrow' : row' ∈ rows) (heq : row.login = row'.login) : row = row' :=
  List.inj_on_of_nodup_map h hrow hrow' heq

theorem select_some {token : String} (h : select rows token = some row) :
    row ∈ rows ∧ row.token = token := by
  have hp := List.find?_some h
  exact ⟨List.mem_of_find?_eq_some h, by simpa using hp⟩

theorem updateRow_some {p taken : StoredWebSession → Bool}
    {f : StoredWebSession → StoredWebSession} {changed : Bool}
    (h : updateRow p f taken rows = some (rows', changed)) :
    rows' = rows.map fun row => if p row then f row else row := by
  unfold updateRow at h
  split_ifs at h
  cases h
  rfl

/-- A statement that rewrites rows of one token leaves the others, and every session identifier. -/
structure Rewrites (logins : List Login) (token : String) (rows rows' : List StoredWebSession) :
    Prop where
  kept : ∀ row ∈ rows, row ∈ rows' ∨ OfToken logins token row
  logins : rows'.map StoredWebSession.login = rows.map StoredWebSession.login
  identified : ∀ row' ∈ rows', ∃ row ∈ rows, row.login = row'.login ∧
    ∀ sessionId, row.sessionId = some sessionId → row'.sessionId = some sessionId

theorem Rewrites.refl (token : String) : Rewrites logins token rows rows :=
  ⟨fun _ h => Or.inl h, rfl, fun row h => ⟨row, h, rfl, fun _ h => h⟩⟩

theorem rewrites_map {token : String} {p : StoredWebSession → Bool}
    {f : StoredWebSession → StoredWebSession} (hlogin : ∀ row, (f row).login = row.login)
    (hid : ∀ row, p row = true → ∀ sessionId, row.sessionId = some sessionId →
      (f row).sessionId = some sessionId)
    (htoken : ∀ row ∈ rows, p row = true → OfToken logins token row) :
    Rewrites logins token rows (rows.map fun row => if p row then f row else row) := by
  refine ⟨fun row hrow => ?_, ?_, fun row' hrow' => ?_⟩
  · by_cases hp : p row = true
    · exact Or.inr (htoken row hrow hp)
    · exact Or.inl (List.mem_map.mpr ⟨row, hrow, if_neg hp⟩)
  · rw [List.map_map]
    refine List.map_congr_left fun row _ => ?_
    simp only [Function.comp]
    split_ifs with hp
    · exact hlogin row
    · rfl
  · obtain ⟨row, hrow, rfl⟩ := List.mem_map.mp hrow'
    refine ⟨row, hrow, ?_, fun sessionId h => ?_⟩
    · split_ifs with hp
      · exact (hlogin row).symm
      · rfl
    · split_ifs with hp
      · exact hid row hp sessionId h
      · exact h

end Rows

section Lookups

/-- What a lookup relies on at each of its places. -/
def PlaceOk (P : SessionPlatform) (used : Set String) (logins : List Login) (lookup : Lookup) :
    Place → Prop
  | .legacy _ | .migrate _ => NoHash P used lookup.token
  | .found row => row ∈ lookup.lastRead.rows ∧ OfToken logins lookup.token row
  | .assign row | .identified row _ _ => (P.parse row.expiresAt).isSome
  | .confirm row => row ∈ lookup.lastRead.rows ∧ OfToken logins lookup.token row ∧
      (P.parse row.expiresAt).isSome ∧ truthy row.sessionId = true
  | .done (some record) => Answered P logins lookup record
  | _ => True

structure LookupOk (P : SessionPlatform) (used : Set String) (logins : List Login) (clock : ℤ)
    (lookup : Lookup) : Prop where
  known : lookup.token ∈ used
  read : lookup.lastRead.clock ≤ clock
  place : PlaceOk P used logins lookup lookup.place

theorem LookupOk.mono {more : List Login} {clock clock' : ℤ} (hclock : clock ≤ clock')
    (h : LookupOk P used logins clock lookup) :
    LookupOk P used (logins ++ more) clock' lookup := by
  refine ⟨h.known, h.read.trans hclock, ?_⟩
  have hplace := h.place
  cases hp : lookup.place with
  | found row =>
    rw [hp] at hplace
    exact ⟨hplace.1, hplace.2.append⟩
  | confirm row =>
    rw [hp] at hplace
    exact ⟨hplace.1, hplace.2.1.append, hplace.2.2⟩
  | done result =>
    rw [hp] at hplace
    cases result with
    | none => trivial
    | some record =>
      obtain ⟨row, hrow, login, hlogin, hrest⟩ := hplace
      exact ⟨row, hrow, login, getElem?_append_login hlogin, hrest⟩
  | _ =>
    rw [hp] at hplace
    exact hplace

theorem LookupOk.reply_none {clock : ℤ} (hused : lookup.token ∈ used)
    (hread : lookup.lastRead.clock ≤ clock) :
    LookupOk P used logins clock (lookup.reply none) := by
  refine ⟨hused, hread, ?_⟩
  unfold Lookup.reply
  dsimp only
  split_ifs <;> trivial

/-- A session is answered when the row that the last read found has not expired. -/
theorem LookupOk.reply_some {clock : ℤ} (h : LookupOk P used logins clock lookup)
    (hrow : row ∈ lookup.lastRead.rows) (htoken : OfToken logins lookup.token row)
    (hexpires : unexpired P clock row.expiresAt = true) (hid : truthy row.sessionId = true) :
    LookupOk P used logins clock
      (lookup.reply (some (recordOf lookup.token (row.sessionId.getD "") row))) := by
  refine ⟨h.known, h.read, ?_⟩
  obtain ⟨login, hlogin, htok, huser, hmethod, hcreated, hexp⟩ := htoken
  obtain ⟨sessionId, hsession, -⟩ := (Option.any_eq_true _ _).mp hid
  obtain ⟨e, he, hlt⟩ := (Option.any_eq_true _ _).mp hexpires
  have hunexpired : unexpired P lookup.lastRead.clock login.expiresAt = true := by
    rw [← hexp]
    unfold unexpired
    rw [he]
    have hread := h.read
    simp only [decide_eq_true_eq] at hlt
    simp only [Option.any_some, decide_eq_true_eq]
    omega
  refine ⟨row, hrow, login, hlogin, htok, hunexpired, sessionId, hsession, ?_⟩
  rw [htok, ← huser, ← hmethod, ← hcreated, ← hexp, hsession]
  rfl

/-- Reading again, at the time of the statement. -/
theorem LookupOk.reread {clock : ℤ} (h : LookupOk P used logins clock lookup) {place : Place}
    (hplace : PlaceOk P used logins
      { lookup with lastRead := ⟨rows, clock⟩, place := place } place) :
    LookupOk P used logins clock { lookup with lastRead := ⟨rows, clock⟩, place := place } :=
  ⟨h.known, le_refl _, hplace⟩

theorem sameLogin_expires {a b : StoredWebSession} (h : sameLogin a b = true) :
    a.expiresAt = b.expiresAt := by
  unfold sameLogin at h
  simp only [Bool.and_eq_true, decide_eq_true_eq] at h
  exact h.2

theorem sameRepairIdentity_expires {a b : StoredWebSession}
    (h : sameRepairIdentity a (some b) = true) : a.expiresAt = b.expiresAt := by
  unfold sameRepairIdentity at h
  simp only [Option.any_some, Bool.and_eq_true] at h
  exact sameLogin_expires h.1

/-- The rows of a table are those of logins, under the hash of the token or as legacy rows. -/
def AllOwned (P : SessionPlatform) (used legacy : Set String) (logins : List Login)
    (rows : List StoredWebSession) : Prop :=
  ∀ row ∈ rows, Owned P used legacy logins row

theorem Owned.rehashed (h : OfToken logins lookup.token row) (hused : lookup.token ∈ used) :
    Owned P used legacy logins { row with token := P.hashSessionToken lookup.token } := by
  obtain ⟨login, hlogin, htoken, hholds⟩ := h
  refine ⟨login, hlogin, htoken ▸ hused, hholds, Or.inl ?_⟩
  rw [htoken]

theorem allOwned_map {p : StoredWebSession → Bool} {f : StoredWebSession → StoredWebSession}
    (h : AllOwned P used legacy logins rows)
    (hf : ∀ row ∈ rows, p row = true → Owned P used legacy logins (f row)) :
    AllOwned P used legacy logins (rows.map fun row => if p row then f row else row) := by
  intro row' hrow'
  obtain ⟨row, hrow, rfl⟩ := List.mem_map.mp hrow'
  split_ifs with hp
  · exact hf row hrow hp
  · exact h row hrow

/-- What one statement or check of a lookup preserves. -/
structure Advanced (P : SessionPlatform) (used legacy : Set String) (logins : List Login)
    (clock : ℤ) (token : String) (rows : List StoredWebSession)
    (result : Lookup × List StoredWebSession) : Prop where
  lookup : LookupOk P used logins clock result.1
  rewrites : Rewrites logins token rows result.2
  owned : AllOwned P used legacy logins result.2

theorem advanced_same {clock : ℤ} {token : String} {next : Lookup}
    (howned : AllOwned P used legacy logins rows) (h : LookupOk P used logins clock next) :
    Advanced P used legacy logins clock token rows (next, rows) :=
  ⟨h, Rewrites.refl token, howned⟩

section Advance
variable {clock : ℤ} {sessionId : String}

theorem advance_hashed (hsep : Separated P used legacy)
    (howned : AllOwned P used legacy logins rows) (h : LookupOk P used logins clock lookup)
    (hplace : lookup.place = .hashed) :
    Advanced P used legacy logins clock lookup.token rows
      (advanceLookup P rows clock sessionId lookup) := by
  unfold advanceLookup
  rw [hplace]
  cases hselect : select rows (P.hashSessionToken lookup.token) with
  | none =>
    simp only [hselect]
    exact advanced_same howned (h.reread trivial)
  | some row =>
    simp only [hselect]
    obtain ⟨hrow, htoken⟩ := select_some hselect
    exact advanced_same howned (h.reread ⟨hrow, (howned row hrow).of_hash hsep h.known htoken⟩)

theorem advance_plain (howned : AllOwned P used legacy logins rows)
    (h : LookupOk P used logins clock lookup) (hplace : lookup.place = .plain)
    (hsafe : lookup.mode = .repairing → (∃ row ∈ rows, row.token = lookup.token) →
      NoHash P used lookup.token) :
    Advanced P used legacy logins clock lookup.token rows
      (advanceLookup P rows clock sessionId lookup) := by
  unfold advanceLookup
  rw [hplace]
  cases hselect : select rows lookup.token with
  | none =>
    dsimp only
    exact advanced_same howned (LookupOk.reply_none h.known (le_refl _))
  | some row =>
    dsimp only
    split_ifs with hmode
    · obtain ⟨hrow, htoken⟩ := select_some hselect
      exact advanced_same howned (h.reread (hsafe hmode ⟨row, hrow, htoken⟩))
    · exact advanced_same howned (LookupOk.reply_none h.known (le_refl _))

theorem advance_migrate (howned : AllOwned P used legacy logins rows)
    (h : LookupOk P used logins clock lookup) {row : StoredWebSession}
    (hplace : lookup.place = .migrate row) :
    Advanced P used legacy logins clock lookup.token rows
      (advanceLookup P rows clock sessionId lookup) := by
  have hnohash := h.place
  rw [hplace] at hnohash
  unfold advanceLookup
  rw [hplace]
  dsimp only
  cases hupdate : updateRow (fun r => decide (r.token = lookup.token) && sameLogin row r &&
      decide (r.sessionId = row.sessionId))
      (fun r => { r with token := P.hashSessionToken lookup.token })
      (fun r => decide (r.token = P.hashSessionToken lookup.token)) rows with
  | none => exact advanced_same howned ⟨h.known, h.read, trivial⟩
  | some result =>
    obtain ⟨rows', changed⟩ := result
    dsimp only
    have hown : ∀ r ∈ rows, (decide (r.token = lookup.token) && sameLogin row r &&
        decide (r.sessionId = row.sessionId)) = true → OfToken logins lookup.token r := by
      intro r hr hp
      simp only [Bool.and_eq_true, decide_eq_true_eq] at hp
      exact (howned r hr).of_plain hnohash hp.1.1
    rw [updateRow_some hupdate]
    refine ⟨⟨h.known, h.read, trivial⟩, ?_, ?_⟩
    · exact rewrites_map (fun _ => rfl) (fun _ _ _ hid => hid) hown
    · exact allOwned_map howned fun r hr hp => Owned.rehashed (hown r hr hp) h.known

theorem advance_assign (hsep : Separated P used legacy)
    (howned : AllOwned P used legacy logins rows) (h : LookupOk P used logins clock lookup)
    {row : StoredWebSession} (hplace : lookup.place = .assign row) :
    Advanced P used legacy logins clock lookup.token rows
      (advanceLookup P rows clock sessionId lookup) := by
  have hparse := h.place
  rw [hplace] at hparse
  unfold advanceLookup
  rw [hplace]
  dsimp only
  cases hupdate : updateRow (fun r => decide (r.token = P.hashSessionToken lookup.token) &&
      r.sessionId.isNone && sameLogin row r) (fun r => { r with sessionId := some sessionId })
      (fun r => decide (r.sessionId = some sessionId)) rows with
  | none => exact advanced_same howned ⟨h.known, h.read, trivial⟩
  | some result =>
    obtain ⟨rows', changed⟩ := result
    dsimp only
    rw [updateRow_some hupdate]
    refine ⟨⟨h.known, h.read, hparse⟩, ?_, ?_⟩
    · refine rewrites_map (fun _ => rfl) (fun r hp id hid => ?_) fun r hr hp => ?_
      · simp [hid] at hp
      · simp only [Bool.and_eq_true, decide_eq_true_eq] at hp
        exact (howned r hr).of_hash hsep h.known hp.1.1
    · exact allOwned_map howned fun r hr _ => howned r hr

theorem advance_migrated (hsep : Separated P used legacy)
    (howned : AllOwned P used legacy logins rows) (h : LookupOk P used logins clock lookup)
    {row : StoredWebSession} (hplace : lookup.place = .migrated row) :
    Advanced P used legacy logins clock lookup.token rows
      (advanceLookup P rows clock sessionId lookup) := by
  unfold advanceLookup
  rw [hplace]
  dsimp only
  cases hselect : select rows (P.hashSessionToken lookup.token) with
  | none => exact advanced_same howned (LookupOk.reply_none h.known (le_refl _))
  | some repaired =>
    dsimp only
    obtain ⟨hrow, htoken⟩ := select_some hselect
    split_ifs
    · exact advanced_same howned
        (h.reread ⟨hrow, (howned repaired hrow).of_hash hsep h.known htoken⟩)
    · exact advanced_same howned (LookupOk.reply_none h.known (le_refl _))

theorem advance_found (howned : AllOwned P used legacy logins rows)
    (h : LookupOk P used logins clock lookup) {row : StoredWebSession}
    (hplace : lookup.place = .found row) :
    Advanced P used legacy logins clock lookup.token rows
      (advanceLookup P rows clock sessionId lookup) := by
  have hread := h.place
  rw [hplace] at hread
  obtain ⟨hrow, htoken⟩ := hread
  unfold advanceLookup
  rw [hplace]
  dsimp only
  split_ifs with hexpired hid hmode
  · exact advanced_same howned (LookupOk.reply_none h.known h.read)
  · exact advanced_same howned (h.reply_some hrow htoken (by simpa using hexpired) hid)
  · refine advanced_same howned ⟨h.known, h.read, ?_⟩
    simp only [Bool.not_eq_false] at hexpired
    obtain ⟨e, he, -⟩ := (Option.any_eq_true _ _).mp hexpired
    change (P.parse row.expiresAt).isSome = true
    rw [he]
    rfl
  · exact advanced_same howned (LookupOk.reply_none h.known h.read)

theorem advance_identified (hsep : Separated P used legacy)
    (howned : AllOwned P used legacy logins rows) (h : LookupOk P used logins clock lookup)
    {row : StoredWebSession} {made : String} {changed : Bool}
    (hplace : lookup.place = .identified row made changed) :
    Advanced P used legacy logins clock lookup.token rows
      (advanceLookup P rows clock sessionId lookup) := by
  have hparse := h.place
  rw [hplace] at hparse
  unfold advanceLookup
  rw [hplace]
  dsimp only
  cases hselect : select rows (P.hashSessionToken lookup.token) with
  | none => exact advanced_same howned (LookupOk.reply_none h.known (le_refl _))
  | some repaired =>
    dsimp only
    obtain ⟨hrow, htoken⟩ := select_some hselect
    split_ifs with hsame
    · simp only [Bool.and_eq_true] at hsame
      have hexpires := sameRepairIdentity_expires hsame.1.1
      refine advanced_same howned (h.reread ⟨hrow, ?_, ?_, hsame.1.2⟩)
      · exact (howned repaired hrow).of_hash hsep h.known htoken
      · rw [← hexpires]
        exact hparse
    · exact advanced_same howned (LookupOk.reply_none h.known (le_refl _))

theorem advance_confirm (howned : AllOwned P used legacy logins rows)
    (h : LookupOk P used logins clock lookup) {row : StoredWebSession}
    (hplace : lookup.place = .confirm row) :
    Advanced P used legacy logins clock lookup.token rows
      (advanceLookup P rows clock sessionId lookup) := by
  have hread := h.place
  rw [hplace] at hread
  obtain ⟨hrow, htoken, hparse, hid⟩ := hread
  unfold advanceLookup
  rw [hplace]
  dsimp only
  split_ifs with hexpired
  · exact advanced_same howned (LookupOk.reply_none h.known h.read)
  · refine advanced_same howned (h.reply_some hrow htoken ?_ hid)
    obtain ⟨e, he⟩ := Option.isSome_iff_exists.mp hparse
    unfold unexpired
    rw [he] at hexpired ⊢
    simp only [Option.any_some, decide_eq_true_eq] at hexpired ⊢
    omega

theorem advance_candidate (howned : AllOwned P used legacy logins rows)
    (h : LookupOk P used logins clock lookup) (hplace : lookup.place = .candidate) :
    Advanced P used legacy logins clock lookup.token rows
      (advanceLookup P rows clock sessionId lookup) := by
  unfold advanceLookup
  rw [hplace]
  dsimp only
  cases candidateOf P rows lookup.token with
  | none => exact advanced_same howned (h.reread trivial)
  | some observed =>
    dsimp only
    split_ifs
    · exact advanced_same howned (h.reread trivial)
    · exact advanced_same howned (h.reread trivial)

theorem advance_sound (hsep : Separated P used legacy)
    (howned : AllOwned P used legacy logins rows) (h : LookupOk P used logins clock lookup)
    (hsafe : lookup.place = .plain → lookup.mode = .repairing →
      (∃ row ∈ rows, row.token = lookup.token) → NoHash P used lookup.token) :
    Advanced P used legacy logins clock lookup.token rows
      (advanceLookup P rows clock sessionId lookup) := by
  cases hplace : lookup.place with
  | hashed => exact advance_hashed hsep howned h hplace
  | plain => exact advance_plain howned h hplace (hsafe hplace)
  | legacy row =>
    have hnohash := h.place
    rw [hplace] at hnohash
    unfold advanceLookup
    rw [hplace]
    dsimp only
    split_ifs
    · exact advanced_same howned ⟨h.known, h.read, hnohash⟩
    · exact advanced_same howned (LookupOk.reply_none h.known h.read)
  | migrate row => exact advance_migrate howned h hplace
  | migrated row => exact advance_migrated hsep howned h hplace
  | found row => exact advance_found howned h hplace
  | assign row => exact advance_assign hsep howned h hplace
  | identified row made changed => exact advance_identified hsep howned h hplace
  | confirm row => exact advance_confirm howned h hplace
  | candidate => exact advance_candidate howned h hplace
  | committed observed =>
    unfold advanceLookup
    rw [hplace]
    dsimp only
    split_ifs
    · exact advanced_same howned ⟨h.known, le_refl _, trivial⟩
    · exact advanced_same howned (h.reread trivial)
  | done result =>
    unfold advanceLookup
    rw [hplace]
    exact advanced_same howned h
  | failed =>
    unfold advanceLookup
    rw [hplace]
    exact advanced_same howned h

end Advance

end Lookups

section Runs

structure Sound (P : SessionPlatform) (used legacy : Set String) (s : SessionState) : Prop where
  owned : AllOwned P used legacy s.logins s.rows
  distinct : (s.rows.map StoredWebSession.login).Nodup
  lookups : ∀ i lookup, s.lookups i = some lookup → LookupOk P used s.logins s.clock lookup

theorem Sound.filtered {p : StoredWebSession → Bool} (h : Sound P used legacy s) :
    Sound P used legacy { s with rows := s.rows.filter p } :=
  ⟨fun row hrow => h.owned row (List.mem_of_mem_filter hrow),
    h.distinct.sublist (List.filter_sublist.map _), h.lookups⟩

theorem Sound.advance {i : ℕ} {sessionId : String} (hsep : Separated P used legacy)
    (h : Sound P used legacy s) (hc : Presented P used s (.advance i sessionId)) :
    Sound P used legacy (step P s (.advance i sessionId)) := by
  unfold step
  cases hlookup : s.lookups i with
  | none =>
    simp only [hlookup]
    exact h
  | some lookup =>
    simp only [hlookup]
    have hadvanced := @advance_sound _ _ _ _ _ _ _ sessionId hsep h.owned
      (h.lookups i lookup hlookup) (hc lookup hlookup)
    refine ⟨hadvanced.owned, ?_, fun j other hother => ?_⟩
    · rw [hadvanced.rewrites.logins]
      exact h.distinct
    · dsimp only at hother
      split_ifs at hother with hj
      · cases hother
        exact hadvanced.lookup
      · exact h.lookups j other hother

theorem Sound.create {token userId sessionId : String} {ttlSeconds : ℤ}
    {authMethod : Option String} (h : Sound P used legacy s) (htoken : token ∈ used) :
    Sound P used legacy
      (step P s (.createWebSession token userId ttlSeconds authMethod sessionId)) := by
  refine ⟨fun row hrow => ?_, ?_, fun i lookup hlookup => ?_⟩
  · rcases List.mem_cons.mp hrow with rfl | hrow
    · refine ⟨_, List.getElem?_concat_length, htoken, ⟨rfl, rfl, rfl, rfl⟩, Or.inl rfl⟩
    · exact (h.owned row (List.mem_of_mem_filter hrow)).append
  · change ((_ :: s.rows.filter _).map StoredWebSession.login).Nodup
    rw [List.map_cons, List.nodup_cons]
    refine ⟨fun hmem => ?_, h.distinct.sublist (List.filter_sublist.map _)⟩
    obtain ⟨row, hrow, hlogin⟩ := List.mem_map.mp hmem
    have hlt := (h.owned row (List.mem_of_mem_filter hrow)).lt_length
    dsimp only at hlogin
    omega
  · exact (h.lookups i lookup hlookup).mono (le_refl _)

theorem Sound.step {event : SessionEvent} (hsep : Separated P used legacy)
    (h : Sound P used legacy s) (hc : Presented P used s event) :
    Sound P used legacy (step P s event) := by
  cases event with
  | createWebSession token userId ttlSeconds authMethod sessionId => exact h.create hc
  | start i token mode =>
    unfold WebSessions.step
    dsimp only
    split_ifs with hstarted
    · exact h
    · refine ⟨h.owned, h.distinct, fun j lookup hlookup => ?_⟩
      dsimp only at hlookup
      split_ifs at hlookup
      · cases hlookup
        exact ⟨hc, le_refl _, trivial⟩
      · exact h.lookups j lookup hlookup
  | advance i sessionId => exact h.advance hsep hc
  | revokeUserWebSession userId sessionId => exact h.filtered
  | revokeUserWebSessions userId => exact h.filtered
  | deleteExpiredWebSessions nowIso => exact h.filtered
  | deleteAllWebSessions =>
    exact ⟨fun _ hrow => absurd hrow List.not_mem_nil, List.nodup_nil, h.lookups⟩
  | tick milliseconds =>
    refine ⟨h.owned, h.distinct, fun i lookup hlookup => ?_⟩
    have hmono : LookupOk P used (s.logins ++ []) (s.clock + milliseconds) lookup :=
      (h.lookups i lookup hlookup).mono (by omega)
    rw [List.append_nil] at hmono
    exact hmono

theorem Sound.run {events : List SessionEvent} (hsep : Separated P used legacy)
    (h : Sound P used legacy s) (hc : Along (WebSessions.step P) (Presented P used) s events) :
    Sound P used legacy (Relational.run (WebSessions.step P) s events) :=
  run_invariant (fun _ _ hs hc => hs.step hsep hc) h hc

theorem Continues.refl (s : SessionState) : Continues s s :=
  ⟨le_refl _, fun row' hrow' => Or.inr ⟨row', hrow', rfl, fun _ h => h⟩⟩

theorem Continues.trans {u : SessionState} (h : Continues s t) (h' : Continues t u) :
    Continues s u := by
  refine ⟨h.1.trans h'.1, fun row'' hrow'' => ?_⟩
  rcases h'.2 row'' hrow'' with hnew | ⟨row', hrow', hlogin', hid'⟩
  · exact Or.inl (h.1.trans hnew)
  · rcases h.2 row' hrow' with hnew | ⟨row, hrow, hlogin, hid⟩
    · rw [hlogin'] at hnew
      exact Or.inl hnew
    · exact Or.inr ⟨row, hrow, hlogin.trans hlogin', fun id h => hid' id (hid id h)⟩

theorem continues_filtered {p : StoredWebSession → Bool} :
    Continues s { s with rows := s.rows.filter p } :=
  ⟨le_refl _, fun row' hrow' =>
    Or.inr ⟨row', List.mem_of_mem_filter hrow', rfl, fun _ h => h⟩⟩

theorem Continues.advance {i : ℕ} {sessionId : String} (hsep : Separated P used legacy)
    (h : Sound P used legacy s) (hc : Presented P used s (.advance i sessionId)) :
    Continues s (WebSessions.step P s (.advance i sessionId)) := by
  unfold WebSessions.step
  cases hlookup : s.lookups i with
  | none =>
    simp only [hlookup]
    exact Continues.refl s
  | some lookup =>
    simp only [hlookup]
    have hadvanced := @advance_sound _ _ _ _ _ _ _ sessionId hsep h.owned
      (h.lookups i lookup hlookup) (hc lookup hlookup)
    exact ⟨le_refl _, fun row' hrow' => Or.inr (hadvanced.rewrites.identified row' hrow')⟩

theorem Continues.step {event : SessionEvent} (hsep : Separated P used legacy)
    (h : Sound P used legacy s) (hc : Presented P used s event) :
    Continues s (WebSessions.step P s event) := by
  cases event with
  | createWebSession token userId ttlSeconds authMethod sessionId =>
    refine ⟨by simp [WebSessions.step], fun row' hrow' => ?_⟩
    rcases List.mem_cons.mp hrow' with rfl | hrow'
    · exact Or.inl (le_refl _)
    · exact Or.inr ⟨row', List.mem_of_mem_filter hrow', rfl, fun _ h => h⟩
  | start i token mode =>
    unfold WebSessions.step
    dsimp only
    split_ifs
    · exact Continues.refl s
    · exact ⟨le_refl _, (Continues.refl s).2⟩
  | advance i sessionId => exact Continues.advance hsep h hc
  | revokeUserWebSession userId sessionId => exact continues_filtered
  | revokeUserWebSessions userId => exact continues_filtered
  | deleteExpiredWebSessions nowIso => exact continues_filtered
  | deleteAllWebSessions => exact ⟨le_refl _, fun _ hrow => absurd hrow List.not_mem_nil⟩
  | tick milliseconds => exact ⟨le_refl _, (Continues.refl s).2⟩

theorem Continues.run {events : List SessionEvent} (hsep : Separated P used legacy)
    (h : Sound P used legacy s) (hc : Along (WebSessions.step P) (Presented P used) s events) :
    Continues s (Relational.run (WebSessions.step P) s events) := by
  induction events generalizing s with
  | nil => exact Continues.refl s
  | cons event events ih =>
    exact (Continues.step hsep h hc.1).trans (ih (h.step hsep hc.1) hc.2)

/-- A lookup leaves the rows of every other token as they are. -/
def KeepsOthers (P : SessionPlatform) (s : SessionState) (event : SessionEvent) : Prop :=
  ∀ i sessionId lookup, event = .advance i sessionId → s.lookups i = some lookup →
    ∀ row ∈ s.rows, ∀ login, s.logins[row.login]? = some login → login.token ≠ lookup.token →
      row ∈ (WebSessions.step P s event).rows

theorem Sound.keepsOthers {event : SessionEvent} (hsep : Separated P used legacy)
    (h : Sound P used legacy s) (hc : Presented P used s event) : KeepsOthers P s event := by
  rintro i sessionId lookup rfl hlookup row hrow login hlogin hother
  unfold WebSessions.step
  simp only [hlookup]
  have hadvanced := @advance_sound _ _ _ _ _ _ _ sessionId hsep h.owned
    (h.lookups i lookup hlookup) (hc lookup hlookup)
  rcases hadvanced.rewrites.kept row hrow with hkept | ⟨found, hfound, htoken, -⟩
  · exact hkept
  · rw [hlogin] at hfound
    cases hfound
    exact absurd htoken hother

/-- The tokens that a table of legacy rows stores. -/
def legacyTokens (rows : List StoredWebSession) : Set String := {p | ∃ row ∈ rows, row.token = p}

theorem Sound.initial {clock : ℤ} (hused : legacyTokens rows ⊆ used) :
    Sound P used (legacyTokens rows) (SessionState.initial rows clock) := by
  refine ⟨fun row hrow => ?_, ?_, fun i lookup h => by cases h⟩
  · obtain ⟨n, hn, rfl⟩ := List.mem_mapIdx.mp hrow
    have hlogin : (rows.map legacyLogin)[n]? = some (legacyLogin rows[n]) := by
      rw [List.getElem?_map, List.getElem?_eq_getElem hn]
      rfl
    have hstored : rows[n].token ∈ legacyTokens rows := ⟨rows[n], List.getElem_mem hn, rfl⟩
    exact ⟨_, hlogin, hused hstored, ⟨rfl, rfl, rfl, rfl⟩, Or.inr ⟨rfl, hstored⟩⟩
  · have hlogins : ((SessionState.initial rows clock).rows.map StoredWebSession.login) =
        List.range rows.length := by
      refine List.ext_getElem (by simp [SessionState.initial]) fun n _ _ => ?_
      simp [SessionState.initial]
    rw [hlogins]
    exact List.nodup_range

/-- Over every run in which no repairing lookup is given the stored value of a hashed row: a session
is answered only for an unexpired login of the token itself, whose row the last read found; its row
keeps its identifier and does not come back once it is gone; and a lookup changes no row of another
token. -/
theorem sessions_authentic (P : SessionPlatform) {used : Set String} (rows : List StoredWebSession)
    (clock : ℤ) (hsep : Separated P used (legacyTokens rows)) (hused : legacyTokens rows ⊆ used)
    (events : List SessionEvent)
    (hc : Along (WebSessions.step P) (Presented P used) (SessionState.initial rows clock) events) :
    let run := Relational.run (WebSessions.step P) (SessionState.initial rows clock)
    (∀ i lookup record, (run events).lookups i = some lookup →
      lookup.place = .done (some record) → Answered P (run events).logins lookup record) ∧
    (∀ before after, events = before ++ after →
      (∀ row ∈ (run before).rows, ∀ sessionId, row.sessionId = some sessionId →
        ∀ row' ∈ (run events).rows, row'.login = row.login → row'.sessionId = some sessionId) ∧
      ∀ n < (run before).logins.length, (∀ row ∈ (run before).rows, row.login ≠ n) →
        ∀ row' ∈ (run events).rows, row'.login ≠ n) ∧
    Along (WebSessions.step P) (KeepsOthers P) (SessionState.initial rows clock) events := by
  intro run
  have hinitial : Sound P used (legacyTokens rows) (SessionState.initial rows clock) :=
    Sound.initial hused
  refine ⟨fun i lookup record hlookup hdone => ?_, fun before after hsplit => ?_, ?_⟩
  · have hplace := ((hinitial.run hsep hc).lookups i lookup hlookup).place
    rw [hdone] at hplace
    exact hplace
  · subst hsplit
    rw [along_append] at hc
    have hmiddle := hinitial.run hsep hc.1
    have hcontinues := Continues.run hsep hmiddle hc.2
    have hend : run (before ++ after) = Relational.run (WebSessions.step P) (run before) after :=
      run_append _ _ _ _
    rw [hend]
    refine ⟨fun row hrow sessionId hid row' hrow' hlogin => ?_,
      fun n hn hgone row' hrow' hlogin => ?_⟩
    · rcases hcontinues.2 row' hrow' with hnew | ⟨found, hfound, heq, hkeep⟩
      · have hlt := (hmiddle.owned row hrow).lt_length
        rw [hlogin] at hnew
        omega
      · have hsame := eq_of_login hmiddle.distinct hfound hrow (heq.trans hlogin)
        subst hsame
        exact hkeep sessionId hid
    · rcases hcontinues.2 row' hrow' with hnew | ⟨found, hfound, heq, -⟩
      · rw [hlogin] at hnew
        exact absurd hn (Nat.not_lt.mpr hnew)
      · exact hgone found hfound (heq.trans hlogin)
  · exact along_of_invariant (fun _ _ hs hc => Sound.step hsep hs hc)
      (fun _ _ hs hc => hs.keepsOthers hsep hc) hinitial hc

end Runs

section Samples

def samplePlatform : SessionPlatform where
  hashSessionToken token := "h" ++ token
  parse _ := some 1000
  toISOString _ := "time"

def advances (i n : ℕ) : List SessionEvent := List.replicate n (.advance i "login")

/-- The hash that is stored for a login is given as a token. -/
def storedHash : List SessionEvent :=
  [.createWebSession "a" "user" 60 none "login-1", .start 0 "ha" .repairing] ++ advances 0 6 ++
    [.start 1 "a" .repairing] ++ advances 1 2

/-- The stored value authenticates as the login's user, and the login's own token no longer does. -/
theorem stored_hash_authenticates :
    let s := run (step samplePlatform) (SessionState.initial [] 0) storedHash
    (s.lookups 0).map Lookup.place =
        some (.done (some ⟨"ha", "login-1", "user", none, "time", "time"⟩)) ∧
      (∀ login ∈ s.logins, login.token ≠ "ha") ∧
      (s.lookups 1).map Lookup.place = some (.done none) := by
  decide +kernel

def sampleLegacy : List StoredWebSession := [⟨"p", "user", none, "time", "time", none, 0⟩]

/-- A legacy token is looked up with repair, which gives its row a hash and an identifier. -/
def legacyRepair : List SessionEvent := .start 0 "p" .repairing :: advances 0 9

theorem sample_separated : Separated samplePlatform {"p"} (legacyTokens sampleLegacy) := by
  refine ⟨fun a ha b hb _ => ?_, ?_⟩
  · rw [Set.mem_singleton_iff.mp ha, Set.mem_singleton_iff.mp hb]
  · rintro p ⟨row, hrow, rfl⟩ t ht hhash
    simp only [sampleLegacy, List.mem_singleton] at hrow
    subst hrow
    exact Set.mem_singleton_iff.mp ht

theorem sample_presented {n : ℕ} {s : SessionState} (h : ∀ m < n, ∀ lookup,
    (run (step samplePlatform) s (advances 0 m)).lookups 0 = some lookup → lookup.token = "p") :
    Along (step samplePlatform) (Presented samplePlatform {"p"}) s (advances 0 n) := by
  induction n generalizing s with
  | zero => trivial
  | succ n ih =>
    refine ⟨fun lookup hlookup _ _ _ a ha _ => ?_, ih fun m hm => ?_⟩
    · rw [h 0 (Nat.succ_pos n) lookup hlookup]
      exact Set.mem_singleton_iff.mp ha
    · exact h (m + 1) (Nat.succ_lt_succ hm)

theorem sessions_authentic_legacy :
    let s := run (step samplePlatform) (SessionState.initial sampleLegacy 0) legacyRepair
    ∃ lookup record, s.lookups 0 = some lookup ∧ lookup.place = .done (some record) ∧
      Answered samplePlatform s.logins lookup record := by
  have hused : legacyTokens sampleLegacy ⊆ {"p"} := by
    rintro p ⟨row, hrow, rfl⟩
    simp only [sampleLegacy, List.mem_singleton] at hrow
    subst hrow
    rfl
  have hpresented : Along (step samplePlatform) (Presented samplePlatform {"p"})
      (SessionState.initial sampleLegacy 0) legacyRepair := by
    refine ⟨rfl, sample_presented fun m hm lookup hlookup => ?_⟩
    have htoken : ∀ m < 9, ((run (step samplePlatform) (step samplePlatform
        (SessionState.initial sampleLegacy 0) (.start 0 "p" .repairing))
          (advances 0 m)).lookups 0).all fun l => decide (l.token = "p") := by decide +kernel
    have hall := htoken m hm
    rw [hlookup] at hall
    simpa using hall
  intro s
  have hplace : (s.lookups 0).map Lookup.place =
      some (.done (some ⟨"p", "login", "user", none, "time", "time"⟩)) := by decide +kernel
  obtain ⟨lookup, hlookup, hdone⟩ := Option.map_eq_some_iff.mp hplace
  exact ⟨lookup, _, hlookup, hdone, (sessions_authentic samplePlatform sampleLegacy 0
    sample_separated hused legacyRepair hpresented).1 0 lookup _ hlookup hdone⟩

end Samples

end Piclaw.WebSessions
