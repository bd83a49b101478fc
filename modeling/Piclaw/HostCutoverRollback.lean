import Piclaw.HostCutoverRuns

/-!
# Rolling the writer back

The digest of the ledger determines the rows of every table up to their order: the canonical text of
a row determines its cells, because no column is an omitted field, and the sorted digests of the
rows determine the rows when digests do not collide. A rollback from the candidate compares the
digest with the one that `commitWriter` stored.
-/

namespace Piclaw

open Relational CutoverHost

/-! ## Canonical texts of rows and of lists of digests -/

theorem LedgerTable.columns_nodup (t : LedgerTable) : t.columns.Nodup := by
  cases t <;> decide

theorem LedgerTable.columns_hashed (t : LedgerTable) :
    ∀ column ∈ t.columns, omittedRequestHashFields.contains column = false := by
  cases t <;> decide

def LedgerCell.token : LedgerCell → CanonicalToken
  | .text s => .string s
  | .number n => .number n
  | _ => .null

theorem LedgerCell.canonicaliseRequest_eq (c : LedgerCell) :
    canonicaliseRequest c.canonical = [c.token] := by
  cases c <;> simp only [canonical, token, canonicaliseRequest]

theorem LedgerCell.token_inj {c d : LedgerCell} (hc : c ≠ .other) (hd : d ≠ .other)
    (h : c.token = d.token) : c = d := by
  cases c <;> cases d <;> first | rfl | exact absurd rfl hc | exact absurd rfl hd | cases h <;> rfl

def cellEntries (r : List (String × LedgerCell)) : List (String × List CanonicalToken) :=
  r.map fun e => (e.1, [e.2.token])

theorem canonicaliseValues_map (r : List (String × LedgerCell)) :
    canonicaliseValues (r.map fun e => (e.1, e.2.canonical)) = cellEntries r := by
  unfold cellEntries
  induction r with
  | nil => rw [List.map_nil, canonicaliseValues, List.map_nil]
  | cons e r ih =>
      rw [List.map_cons, canonicaliseValues, ih, LedgerCell.canonicaliseRequest_eq, List.map_cons]

/-- Entries of one token each are determined by the tokens of the object. -/
theorem flatMap_entries_inj {a b : List (String × LedgerCell)}
    (h : (cellEntries a).flatMap (fun e => CanonicalToken.key e.1 :: e.2) =
      (cellEntries b).flatMap fun e => CanonicalToken.key e.1 :: e.2) :
    cellEntries a = cellEntries b := by
  induction a generalizing b with
  | nil =>
      cases b with
      | nil => rfl
      | cons e b => cases h
  | cons e a ih =>
      cases b with
      | nil => cases h
      | cons f b =>
        have hcons : ∀ (e : String × LedgerCell) (r : List (String × LedgerCell)),
            (cellEntries (e :: r)).flatMap (fun e => CanonicalToken.key e.1 :: e.2) =
              .key e.1 :: e.2.token ::
                (cellEntries r).flatMap fun e => CanonicalToken.key e.1 :: e.2 := fun _ _ => rfl
        rw [hcons, hcons] at h
        obtain ⟨hkey, h⟩ := List.cons.inj h
        obtain ⟨htoken, hrest⟩ := List.cons.inj h
        have hsame : cellEntries a = cellEntries b := ih hrest
        change (e.1, [e.2.token]) :: cellEntries a = (f.1, [f.2.token]) :: cellEntries b
        rw [hsame, CanonicalToken.key.inj hkey, htoken]

theorem perm_of_flatMap_sorted {a b : List (String × LedgerCell)}
    (h : canonicalEntries (cellEntries a) = canonicalEntries (cellEntries b))
    (ha : ∀ e ∈ a, omittedRequestHashFields.contains e.1 = false)
    (hb : ∀ e ∈ b, omittedRequestHashFields.contains e.1 = false) :
    (cellEntries a).Perm (cellEntries b) := by
  have hfilter : ∀ r : List (String × LedgerCell),
      (∀ e ∈ r, omittedRequestHashFields.contains e.1 = false) →
      (cellEntries r).filter (fun e => !omittedRequestHashFields.contains e.1) =
        cellEntries r := by
    intro r hr
    rw [List.filter_eq_self]
    intro e he
    obtain ⟨x, hx, rfl⟩ := List.mem_map.mp he
    rw [hr x hx]
    rfl
  have hsorted : ∀ r : List (String × LedgerCell), ∃ r' : List (String × LedgerCell),
      (cellEntries r).insertionSort (fun e f => e.1 ≤ f.1) = cellEntries r' := by
    intro r
    refine ⟨r.insertionSort fun e f => e.1 ≤ f.1, ?_⟩
    exact (List.map_insertionSort (fun e f : String × LedgerCell => e.1 ≤ f.1)
      (fun e f : String × List CanonicalToken => e.1 ≤ f.1) (fun e => (e.1, [e.2.token])) r
      fun _ _ _ _ => Iff.rfl).symm
  unfold canonicalEntries at h
  rw [hfilter a ha, hfilter b hb] at h
  obtain ⟨a', ha'⟩ := hsorted a
  obtain ⟨b', hb'⟩ := hsorted b
  rw [ha', hb'] at h
  have hsame := flatMap_entries_inj h
  rw [← ha', ← hb'] at hsame
  have hleft := List.perm_insertionSort (fun e f => e.1 ≤ f.1) (cellEntries a)
  rw [hsame] at hleft
  exact hleft.symm.trans (List.perm_insertionSort _ _)

/-- Entries in the same order of their keys. -/
theorem eq_of_perm_of_keys {α β : Type} {a b : List (α × β)}
    (hkeys : a.map Prod.fst = b.map Prod.fst) (hnodup : (b.map Prod.fst).Nodup)
    (hperm : a.Perm b) : a = b := by
  induction a generalizing b with
  | nil => exact hperm.nil_eq
  | cons e a ih =>
      cases b with
      | nil => cases hkeys
      | cons f b =>
        obtain ⟨hkey, hrest⟩ := List.cons.inj hkeys
        obtain ⟨hnew, hnodup'⟩ := List.nodup_cons.mp hnodup
        have heq : e = f := by
          rcases List.mem_cons.mp (hperm.subset List.mem_cons_self) with heq | hmem
          · exact heq
          · rw [← hkey] at hnew
            exact absurd (List.mem_map_of_mem hmem) hnew
        subst heq
        rw [ih hrest hnodup' hperm.cons_inv]

theorem cellEntries_inj {a b : List (String × LedgerCell)} (ha : ∀ e ∈ a, e.2 ≠ .other)
    (hb : ∀ e ∈ b, e.2 ≠ .other) (h : cellEntries a = cellEntries b) : a = b := by
  induction a generalizing b with
  | nil =>
      cases b with
      | nil => rfl
      | cons f b => cases h
  | cons e a ih =>
      cases b with
      | nil => cases h
      | cons f b =>
        obtain ⟨hentry, hrest⟩ := List.cons.inj h
        obtain ⟨hkey, htokens⟩ := Prod.mk.inj hentry
        have hcell : e.2 = f.2 := LedgerCell.token_inj (ha e List.mem_cons_self)
          (hb f List.mem_cons_self) (List.cons.inj htokens).1
        have hrows := ih (fun x hx => ha x (List.mem_cons_of_mem _ hx))
          (fun x hx => hb x (List.mem_cons_of_mem _ hx)) hrest
        rw [hrows, Prod.ext hkey hcell]

/-- Two rows of one table with the same canonical text are the same row. -/
theorem LedgerRow.canonical_inj {t : LedgerTable} {r r' : LedgerRow t}
    (hr : r.supported = true) (hr' : r'.supported = true)
    (h : canonicaliseRequest r.canonical = canonicaliseRequest r'.canonical) : r = r' := by
  have hcolumns : ∀ r : LedgerRow t, ∀ e ∈ r.1, e.1 ∈ t.columns := by
    intro r e he
    rw [← r.2]
    exact List.mem_map_of_mem he
  have hhashed : ∀ r : LedgerRow t, ∀ e ∈ r.1, omittedRequestHashFields.contains e.1 = false :=
    fun r e he => t.columns_hashed e.1 (hcolumns r e he)
  unfold canonical at h
  rw [canonicaliseRequest, canonicaliseRequest, canonicaliseValues_map, canonicaliseValues_map]
    at h
  have hperm := perm_of_flatMap_sorted (List.append_cancel_right (List.cons.inj h).2)
    (hhashed r) (hhashed r')
  have hkeys : ∀ r : LedgerRow t, (cellEntries r.1).map Prod.fst = t.columns := by
    intro r
    unfold cellEntries
    rw [List.map_map]
    exact r.2
  have hsupported : ∀ x : LedgerRow t, x.supported = true → ∀ e ∈ x.1, e.2 ≠ .other :=
    fun x hx e he => of_decide_eq_true (List.all_eq_true.mp hx e he)
  have hnodup : ((cellEntries r'.1).map Prod.fst).Nodup := by
    rw [hkeys r']
    exact t.columns_nodup
  have hentries := eq_of_perm_of_keys ((hkeys r).trans (hkeys r').symm) hnodup hperm
  exact Subtype.ext (cellEntries_inj (hsupported r hr) (hsupported r' hr') hentries)

theorem string_tokens_inj {a b : List String} {x y : List CanonicalToken}
    (h : a.map CanonicalToken.string ++ .closeArray :: x =
      b.map CanonicalToken.string ++ .closeArray :: y) : a = b ∧ x = y := by
  induction a generalizing b with
  | nil =>
      cases b with
      | nil => exact ⟨rfl, (List.cons.inj h).2⟩
      | cons s b => cases (List.cons.inj h).1
  | cons s a ih =>
      cases b with
      | nil => cases (List.cons.inj h).1
      | cons s' b =>
        obtain ⟨hs, hrest⟩ := List.cons.inj h
        obtain ⟨hab, hxy⟩ := ih hrest
        exact ⟨by rw [hab, CanonicalToken.string.inj hs], hxy⟩

theorem strings_inj {a b : List String} {x y : List CanonicalToken}
    (h : canonicaliseRequest (strings a) ++ x = canonicaliseRequest (strings b) ++ y) :
    a = b ∧ x = y := by
  have hitems : ∀ l : List String,
      canonicaliseItems (l.map CanonicalJsonValue.string) = l.map CanonicalToken.string := by
    intro l
    induction l with
    | nil => rw [List.map_nil, canonicaliseItems, List.map_nil]
    | cons s l ih => rw [List.map_cons, canonicaliseItems, canonicaliseRequest, ih]; rfl
  have htext : ∀ (l : List String) (z : List CanonicalToken),
      canonicaliseRequest (strings l) ++ z =
        .openArray :: (l.map CanonicalToken.string ++ .closeArray :: z) := by
    intro l z
    unfold strings
    rw [canonicaliseRequest, hitems, List.cons_append, List.cons_append, List.append_assoc]
    rfl
  rw [htext, htext] at h
  exact string_tokens_inj (List.cons.inj h).2

theorem arrays_inj {a b : List (List String)} (hlength : a.length = b.length)
    {x y : List CanonicalToken}
    (h : canonicaliseItems (a.map strings) ++ x = canonicaliseItems (b.map strings) ++ y) :
    a = b := by
  induction a generalizing b with
  | nil =>
      cases b with
      | nil => rfl
      | cons l b => cases hlength
  | cons l a ih =>
      cases b with
      | nil => cases hlength
      | cons l' b =>
        rw [List.map_cons, List.map_cons, canonicaliseItems, canonicaliseItems,
          List.append_assoc, List.append_assoc] at h
        obtain ⟨hl, hrest⟩ := strings_inj h
        rw [hl, ih (Nat.succ.inj hlength) hrest]

/-! ## What the digest of a ledger determines -/

variable {δ : Type} {H : CutoverHost δ} {ports : CutoverPorts} {s s' : CutoverState δ}

/-- Distinct canonical texts have distinct digests. -/
def CollisionFree (H : CutoverHost δ) : Prop :=
  Function.Injective fun tokens => H.platform.hexDigest (H.platform.sha256Canonical tokens)

theorem hash_inj (hfree : CollisionFree H) {v w : CanonicalJsonValue} (h : H.hash v = H.hash w) :
    canonicaliseRequest v = canonicaliseRequest w := hfree h

theorem perm_of_map_inj {α β : Type} [DecidableEq α] [DecidableEq β] {f : α → β} {P : α → Prop}
    (hf : ∀ a b, P a → P b → f a = f b → a = b) {l l' : List α} (hl : ∀ a ∈ l, P a)
    (hl' : ∀ a ∈ l', P a) (h : (l.map f).Perm (l'.map f)) : l.Perm l' := by
  induction l generalizing l' with
  | nil =>
      have hnil : l'.map f = [] := h.symm.eq_nil
      rw [List.map_eq_nil_iff.mp hnil]
  | cons a l ih =>
      have hmem : f a ∈ l'.map f := h.subset List.mem_cons_self
      obtain ⟨b, hb, hab⟩ := List.mem_map.mp hmem
      obtain rfl := hf b a (hl' b hb) (hl a List.mem_cons_self) hab
      obtain ⟨first, rest, rfl⟩ := List.append_of_mem hb
      have hmiddle : (first ++ b :: rest).Perm (b :: (first ++ rest)) := List.perm_middle
      have htail := (h.trans (hmiddle.map f)).cons_inv
      have hsub : ∀ x ∈ first ++ rest, P x := fun x hx =>
        hl' x (hmiddle.symm.subset (List.mem_cons_of_mem _ hx))
      have hrest := ih (fun x hx => hl x (List.mem_cons_of_mem _ hx)) hsub htail
      exact (hrest.cons b).trans hmiddle.symm

theorem tableHashes_perm (hfree : CollisionFree H) {L L' : HostLedger} {t : LedgerTable}
    {rows rows' : List (LedgerRow t)} (hrows : L t = some rows) (hrows' : L' t = some rows')
    (hsupported : supportedTable L t = true) (hsupported' : supportedTable L' t = true)
    (h : H.tableHashes L t (fun _ => true) = H.tableHashes L' t fun _ => true) :
    rows.Perm rows' := by
  unfold supportedTable at hsupported hsupported'
  rw [hrows, Option.getD_some, List.all_eq_true] at hsupported
  rw [hrows', Option.getD_some, List.all_eq_true] at hsupported'
  unfold tableHashes hashes at h
  rw [hrows, hrows', Option.getD_some, Option.getD_some, List.filter_true, List.filter_true,
    List.map_map, List.map_map] at h
  have hleft := List.perm_insertionSort (· ≤ ·) (rows.map (H.hash ∘ LedgerRow.canonical))
  rw [h] at hleft
  have hperm := hleft.symm.trans (List.perm_insertionSort _ _)
  refine perm_of_map_inj (P := fun r => r.supported = true) ?_ hsupported hsupported' hperm
  intro r r' hr hr' heq
  exact LedgerRow.canonical_inj hr hr' (hash_inj hfree heq)

theorem rollbackFrontier_eq_some {L : HostLedger} {checkpoint : RollbackCheckpoint}
    (h : H.rollbackFrontier L = .ok (some checkpoint)) :
    checkpoint.digest = H.ledgerDigest L ∧
      ∀ t, (∃ rows, L t = some rows) ∧ supportedTable L t = true := by
  have hall : ∀ t : LedgerTable, t ∈ LedgerTable.all := by
    intro t
    cases t <;> decide
  unfold rollbackFrontier at h
  split_ifs at h with hmissing
  · cases h
  · rw [Bool.not_eq_true, List.any_eq_false] at hmissing
    rw [ensure_bind_eq_ok, List.all_eq_true] at h
    obtain ⟨hsupported, h⟩ := h
    obtain ⟨accepted, -, h⟩ := bind_eq_ok.mp h
    cases h
    refine ⟨rfl, fun t => ⟨?_, hsupported t (hall t)⟩⟩
    have hsome := hmissing t (hall t)
    cases ht : L t with
    | none =>
      rw [ht] at hsome
      exact absurd rfl hsome
    | some rows => exact ⟨rows, rfl⟩

/-- Two ledgers with one digest hold the same rows. -/
theorem rows_perm_of_digest (hfree : CollisionFree H) {L L' : HostLedger}
    {checkpoint checkpoint' : RollbackCheckpoint}
    (h : H.rollbackFrontier L = .ok (some checkpoint))
    (h' : H.rollbackFrontier L' = .ok (some checkpoint'))
    (hdigest : checkpoint.digest = checkpoint'.digest) (t : LedgerTable) :
    ∃ rows rows', L t = some rows ∧ L' t = some rows' ∧ rows.Perm rows' := by
  obtain ⟨hL, hsupported⟩ := rollbackFrontier_eq_some h
  obtain ⟨hL', hsupported'⟩ := rollbackFrontier_eq_some h'
  rw [hL, hL'] at hdigest
  unfold ledgerDigest at hdigest
  have htokens := hash_inj hfree hdigest
  rw [canonicaliseRequest, canonicaliseRequest] at htokens
  have hmap : ∀ L : HostLedger,
      (LedgerTable.all.map fun t => strings (H.tableHashes L t fun _ => true)) =
        (LedgerTable.all.map fun t => H.tableHashes L t fun _ => true).map strings := by
    intro L
    rw [List.map_map]
    rfl
  rw [hmap, hmap] at htokens
  have harrays := arrays_inj (by rw [List.length_map, List.length_map])
    (List.cons.inj htokens).2
  have htable : H.tableHashes L t (fun _ => true) = H.tableHashes L' t fun _ => true := by
    have hmem : t ∈ LedgerTable.all := by
      cases t <;> decide
    exact List.map_inj_left.mp harrays t hmem
  obtain ⟨⟨rows, hrows⟩, hall⟩ := hsupported t
  obtain ⟨⟨rows', hrows'⟩, hall'⟩ := hsupported' t
  exact ⟨rows, rows', hrows, hrows', tableHashes_perm hfree hrows hrows' hall hall' htable⟩

/-! ## What a successful rollback has seen -/

theorem rollbackPlan_safe {n work : ℕ} {m : CutoverManifest} {plan : RollbackPlan}
    (h : H.rollbackPlan ports s n work m = .ok plan)
    (hsafe : plan.disposition = .safeToRestore) : work = 0 ∧
      (m.writer = H.candidateStoreRef → ∃ current checkpoint,
        H.rollbackFrontier s.ledger = .ok (some current) ∧
        m.rollbackCheckpoint = some checkpoint ∧ current.digest = checkpoint.digest) := by
  unfold rollbackPlan at h
  obtain ⟨current, hcurrent, h⟩ := bind_eq_ok.mp h
  cases h
  dsimp only at hsafe
  split_ifs at hsafe with hreasons
  unfold rollbackReasons at hreasons
  rw [List.append_eq_nil_iff, List.append_eq_nil_iff, List.append_eq_nil_iff,
    List.append_eq_nil_iff] at hreasons
  obtain ⟨⟨⟨⟨havailable, -⟩, -⟩, hdigest⟩, hwork⟩ := hreasons
  refine ⟨?_, fun hactive => ?_⟩
  · by_contra hne
    rw [if_pos hne] at hwork
    cases hwork
  · have htrue : decide (m.writer = H.candidateStoreRef) = true := decide_eq_true hactive
    rw [htrue] at hcurrent havailable hdigest
    change H.rollbackFrontier s.ledger = .ok current at hcurrent
    cases hc : current with
    | none =>
      rw [hc, if_pos ⟨rfl, .inl rfl⟩] at havailable
      cases havailable
    | some c =>
      cases hp : m.rollbackCheckpoint with
      | none =>
        rw [hp, if_pos ⟨rfl, .inr rfl⟩] at havailable
        cases havailable
      | some checkpoint =>
        refine ⟨c, checkpoint, hc ▸ hcurrent, rfl, ?_⟩
        by_contra hne
        rw [hc, hp, if_pos] at hdigest
        · cases hdigest
        · exact ⟨rfl, rfl, rfl, fun heq => hne (Option.some.inj heq)⟩

theorem ensureSafe_eq_ok {n : ℕ} {m : CutoverManifest} (h : H.ensureSafe ports s n m = .ok ()) :
    s.work = [] ∧ ports.checkDrained (n + 1) = ⟨m.request.sourceDigest, 0, 0⟩ ∧
      (m.writer = H.candidateStoreRef → ∃ current checkpoint,
        H.rollbackFrontier s.ledger = .ok (some current) ∧
        m.rollbackCheckpoint = some checkpoint ∧ current.digest = checkpoint.digest) := by
  unfold ensureSafe at h
  obtain ⟨plan, hplan, h⟩ := bind_eq_ok.mp h
  rw [ensure_bind_eq_ok] at h
  obtain ⟨hsafe, hdrained⟩ := h
  obtain ⟨hwork, hdigest⟩ := rollbackPlan_safe hplan hsafe
  exact ⟨List.length_eq_zero_iff.mp hwork, ensure_eq_ok.mp hdrained, hdigest⟩

/-- An active manifest carries the frontier of the ledger that its commit saw. -/
def Checkpointed (H : CutoverHost δ) (s : CutoverState δ) : Prop :=
  ∀ row, s.row = some row → row.manifest.phase = .active →
    ∃ L, s.committed = some L ∧ H.rollbackFrontier L = .ok row.manifest.rollbackCheckpoint

theorem Checkpointed.same {t : CutoverState δ} (h : Checkpointed H s) (hrow : t.row = s.row)
    (hcommitted : t.committed = s.committed) : Checkpointed H t := by
  intro row hrow' hphase
  rw [hrow] at hrow'
  rw [hcommitted]
  exact h row hrow' hphase

theorem Checkpointed.inactive {t : CutoverState δ}
    (hinactive : ∀ row, t.row = some row → row.manifest.phase ≠ .active) : Checkpointed H t :=
  fun row hrow hphase => absurd hphase (hinactive row hrow)

theorem Moved.inactive {expected : ℕ} {move : CutoverManifest → CutoverManifest → Prop}
    {t t' : CutoverState δ} (h : Moved expected move t t')
    (hmove : ∀ m m', move m m' → m'.phase ≠ .active) : Checkpointed H t' := by
  obtain ⟨row, m', -, -, hm, hafter⟩ := h.row
  apply Checkpointed.inactive
  intro row' hrow'
  rw [hafter] at hrow'
  cases hrow'
  exact hmove _ _ hm

theorem checkpointed_step (turn : CutoverTurn δ) (h : Checkpointed H s) :
    Checkpointed H (cutoverStep H s turn) := by
  cases turn with
  | preflight ports request =>
    apply settleCall_cases h
    intro t ht
    rcases preflight_eq_ok ht with ⟨row, hrow, rfl⟩ | ⟨hnone, hash, rfl⟩
    · exact h
    · apply Checkpointed.inactive
      intro row hrow
      cases hrow
      intro heq
      cases heq
  | begin ports expected =>
    apply settleCall_cases h
    intro t ht
    obtain ⟨u, request, -, -, ⟨row, hrow, hphase, -⟩, rfl⟩ := beginIntent_eq_ok (H := H) ht
    apply Checkpointed.inactive
    intro row' hrow'
    dsimp only at hrow'
    rw [hrow] at hrow'
    cases hrow'
    rw [hphase]
    intro heq
    cases heq
  | copyReturned ports number value =>
    unfold cutoverStep
    dsimp only
    cases s.begins.find? fun c => decide (c.number = number ∧ c.stage = .copying) with
    | none => exact h
    | some call =>
      refine settleCall_cases (P := Checkpointed H) (h.same rfl rfl) fun t ht => ?_
      rw [copyReturned_eq_ok ht]
      exact h.same rfl rfl
  | importReturned ports number value =>
    unfold cutoverStep
    dsimp only
    cases s.begins.find? fun c => decide (c.number = number ∧ c.stage = .importing) with
    | none => exact h
    | some call =>
      refine settleCall_cases (P := Checkpointed H) (h.same rfl rfl) fun t ht => ?_
      obtain ⟨receipt, -, -, -, -, hmoved⟩ := importReturned_eq_ok ht
      apply hmoved.inactive
      rintro m m' ⟨hphase, rfl⟩
      change m.phase ≠ .active
      rw [hphase]
      intro heq
      cases heq
  | verify ports expected =>
    apply settleCall_cases h
    intro t ht
    obtain ⟨row, receipt, -, -, -, -, rfl⟩ := verifyStart_eq_ok ht
    exact h.same rfl rfl
  | verifierReturned ports number value =>
    unfold cutoverStep
    dsimp only
    cases s.verifies.find? fun c => decide (c.number = number) with
    | none => exact h
    | some call =>
      refine settleCall_cases (P := Checkpointed H) (h.same rfl rfl) fun t ht => ?_
      obtain ⟨receipt, -, -, -, -, hmoved⟩ := verifierReturned_eq_ok ht
      apply hmoved.inactive
      rintro m m' ⟨-, rfl⟩ heq
      cases heq
  | commitWriter ports expected guards =>
    apply settleCall_cases h
    intro t ht
    obtain ⟨checkpoint, hfrontier, -, hcommitted, hmoved⟩ := commitWriter_eq_ok ht
    obtain ⟨row, m', -, -, ⟨-, rfl⟩, hafter⟩ := hmoved.row
    intro row' hrow' _
    rw [hafter] at hrow'
    cases hrow'
    exact ⟨s.ledger, hcommitted, hfrontier⟩
  | recordPostCutoverWork ports expected operationId contentHash =>
    apply settleCall_cases h
    intro t ht
    obtain ⟨hmoved, hcommitted⟩ := recordPostCutoverWork_eq_ok ht
    obtain ⟨row, m', hrow, -, ⟨-, rfl⟩, hafter⟩ := hmoved.row
    intro row' hrow' hphase
    rw [hafter] at hrow'
    cases hrow'
    rw [hcommitted]
    exact h row hrow hphase
  | rollback ports expected earlier =>
    apply settleCall_cases h
    intro t ht
    obtain ⟨_, -, -, -, -, -, -, hmoved⟩ := switchBack_eq_ok (rollback_eq_ok ht)
    apply hmoved.inactive
    rintro m m' rfl heq
    cases heq
  | changeLedger ledger => exact h.same rfl rfl

theorem checkpointed_run (ledger : HostLedger) (turns : List (CutoverTurn δ)) :
    Checkpointed H (run (cutoverStep H) (.empty ledger) turns) := by
  apply run_invariant (C := fun _ _ => True) (fun s turn hs _ => checkpointed_step turn hs)
  · intro row hrow
    cases hrow
  · exact along_true _ _

section Samples

/-- A text that ends where its marks end. -/
def markedText (l : List Char) : List Char := l.flatMap (fun c => ['+', c]) ++ ['.']

theorem markedText_inj {l l' x y : List Char} (h : markedText l ++ x = markedText l' ++ y) :
    l = l' ∧ x = y := by
  have hcons : ∀ (c : Char) (l z : List Char),
      markedText (c :: l) ++ z = '+' :: c :: (markedText l ++ z) := fun _ _ _ => rfl
  have hnil : ∀ z : List Char, markedText [] ++ z = '.' :: z := fun _ => rfl
  induction l generalizing l' with
  | nil =>
      cases l' with
      | nil => exact ⟨rfl, (List.cons.inj h).2⟩
      | cons c l' =>
        rw [hnil, hcons] at h
        exact absurd (List.cons.inj h).1 (by decide)
  | cons c l ih =>
      cases l' with
      | nil =>
        rw [hnil, hcons] at h
        exact absurd (List.cons.inj h).1 (by decide)
      | cons c' l' =>
        rw [hcons, hcons] at h
        obtain ⟨hc, hrest⟩ := List.cons.inj (List.cons.inj h).2
        obtain ⟨hl, hxy⟩ := ih hrest
        exact ⟨by rw [hl, hc], hxy⟩

def tokenText : CanonicalToken → Char × List Char
  | .null => ('z', [])
  | .boolean true => ('t', [])
  | .boolean false => ('f', [])
  | .number (.ofNat n) => ('n', List.replicate n '1')
  | .number (.negSucc n) => ('m', List.replicate n '1')
  | .string s => ('s', s.toList)
  | .openArray => ('[', [])
  | .closeArray => (']', [])
  | .openObject => ('(', [])
  | .closeObject => (')', [])
  | .key s => ('k', s.toList)

theorem tokenText_inj {a b : CanonicalToken} (h : tokenText a = tokenText b) : a = b := by
  have hreplicate : ∀ m n : ℕ, List.replicate m '1' = List.replicate n '1' → m = n := by
    intro m n heq
    have hlength := congrArg List.length heq
    rwa [List.length_replicate, List.length_replicate] at hlength
  rcases a with _ | (_ | _) | (m | m) | s | _ | _ | _ | _ | s <;>
    rcases b with _ | (_ | _) | (n | n) | t | _ | _ | _ | _ | t <;>
    obtain ⟨hmark, htext⟩ := Prod.mk.inj h <;>
    first
    | rfl
    | exact absurd hmark (by decide)
    | rw [hreplicate m n htext]
    | rw [String.toList_inj.mp htext]

def tokensText (tokens : List CanonicalToken) : List Char :=
  tokens.flatMap fun t => (tokenText t).1 :: markedText (tokenText t).2

theorem tokensText_inj {a b : List CanonicalToken} (h : tokensText a = tokensText b) : a = b := by
  have hcons : ∀ (t : CanonicalToken) (l : List CanonicalToken), tokensText (t :: l) =
      (tokenText t).1 :: (markedText (tokenText t).2 ++ tokensText l) := fun _ _ => rfl
  induction a generalizing b with
  | nil =>
      cases b with
      | nil => rfl
      | cons t b => cases h
  | cons t a ih =>
      cases b with
      | nil => cases h
      | cons t' b =>
        rw [hcons, hcons] at h
        obtain ⟨hmark, hrest⟩ := List.cons.inj h
        obtain ⟨htext, hrest⟩ := markedText_inj hrest
        rw [ih hrest, tokenText_inj (Prod.ext hmark htext)]

theorem sample_distinct : "source" ≠ "candidate" := by decide

/-- A deployment whose digests are the canonical texts themselves. -/
def plainHost : CutoverHost (List CanonicalToken) where
  platform := ⟨id, fun s => [.string s], fun tokens => String.ofList (tokensText tokens), id⟩
  localeCompare := compare
  sourceEngineId := "source"
  candidateStoreRef := "candidate"
  distinct := sample_distinct

theorem plainHost_collisionFree : CollisionFree plainHost := by
  intro a b h
  have htext := congrArg String.toList h
  change (String.ofList (tokensText a)).toList = (String.ofList (tokensText b)).toList at htext
  rw [String.toList_ofList, String.toList_ofList] at htext
  exact tokensText_inj htext

def sampleCommitted : List (CutoverTurn (List CanonicalToken)) :=
  [.preflight samplePorts ⟨"request-1", sampleSource, sampleImport, none⟩,
    .begin samplePorts 0,
    .copyReturned samplePorts 0 (some ⟨sampleSource, sampleImport⟩),
    .importReturned samplePorts 0 (some ⟨sampleSource, sampleImport⟩),
    .verify samplePorts 2,
    .verifierReturned samplePorts 1 (some ⟨sampleSource, sampleImport⟩),
    .commitWriter samplePorts 3 (fun _ => true)]

def sampleActive : CutoverState (List CanonicalToken) :=
  run (cutoverStep plainHost) (.empty sampleLedger) sampleCommitted

end Samples

end Piclaw
