import Piclaw.WorkTransitions

/-!
# The order of queued sources

A claim takes the earliest pending source of its chat, unless the host puts another queued message
first. The queued messages it may choose among are those with nothing but queued messages pending
up to them: any other source is a barrier.
-/

namespace Piclaw
open Relational
variable {δ : Type} {s : WorkTables δ} {chatJid : Text} {source q : SourceRow δ}

def PendingIn (s : WorkTables δ) (chatJid : Text) (source : SourceRow δ) : Prop :=
  source ∈ s.sources.rows ∧ source.chatJid = chatJid ∧ source.state = .pending

def LowestPending (s : WorkTables δ) (chatJid : Text) (source : SourceRow δ) : Prop :=
  PendingIn s chatJid source ∧ ∀ q, PendingIn s chatJid q → source.sourceSeq ≤ q.sourceSeq

/-- A member of the leading batch: up to it, only queued messages are pending. -/
def InLeadingBatch (s : WorkTables δ) (chatJid : Text) (source : SourceRow δ) : Prop :=
  PendingIn s chatJid source ∧
    ∀ q, PendingIn s chatJid q → q.sourceSeq ≤ source.sourceSeq → queuedSource q = true

/-- `id` is the first of the order's ids that names a member of the leading batch. -/
def FirstOfBatch (s : WorkTables δ) (chatJid : Text) (order : List Text) (id : Text) : Prop :=
  ∃ earlier later, order = earlier ++ id :: later ∧
    ∀ e ∈ earlier, ∀ q, InLeadingBatch s chatJid q → q.sourceId ≠ e

section Batch

theorem mem_pendingSources : source ∈ pendingSources s chatJid ↔ PendingIn s chatJid source := by
  unfold pendingSources PendingIn
  rw [List.mem_insertionSort, List.mem_filter]
  simp only [Bool.and_eq_true, decide_eq_true_eq]

theorem pendingSources_sorted (s : WorkTables δ) (chatJid : Text) :
    (pendingSources s chatJid).Pairwise fun a b => a.sourceSeq ≤ b.sourceSeq := by
  have htotal : Std.Total fun a b : SourceRow δ => a.sourceSeq ≤ b.sourceSeq :=
    ⟨fun a b => Nat.le_total _ _⟩
  have htrans : IsTrans (SourceRow δ) fun a b => a.sourceSeq ≤ b.sourceSeq :=
    ⟨fun a b c => Nat.le_trans⟩
  exact List.pairwise_insertionSort _ _

/-- A chat numbers its sources, so two of them with one number are the same. -/
theorem PendingIn.eq_of_seq (h : PendingIn s chatJid source) (hq : PendingIn s chatJid q)
    (hseq : q.sourceSeq = source.sourceSeq) : q = source := by
  have hkey : (sourceSchema δ).key q = (sourceSchema δ).key source := by
    change (q.chatJid, q.sourceSeq) = (source.chatJid, source.sourceSeq)
    rw [h.2.1, hq.2.1, hseq]
  have hfind := Table.find?_of_mem hq.1
  rw [hkey, Table.find?_of_mem h.1] at hfind
  exact (Option.some.inj hfind).symm

/-- The rows the source collects into its map are the members of the leading batch. -/
theorem mem_leading : source ∈ (pendingSources s chatJid).takeWhile queuedSource ↔
    InLeadingBatch s chatJid source := by
  have hsorted := pendingSources_sorted s chatJid
  have hsplit := List.takeWhile_append_dropWhile (p := queuedSource)
    (l := pendingSources s chatJid)
  constructor
  · intro h
    have hpending := mem_pendingSources.mp ((List.takeWhile_prefix _).subset h)
    refine ⟨hpending, fun q hq hle => ?_⟩
    have hmem := mem_pendingSources.mpr hq
    rw [← hsplit, List.mem_append] at hmem
    rcases hmem with hmem | hmem
    · exact List.mem_takeWhile_imp hmem
    · rw [← hsplit, List.pairwise_append] at hsorted
      have hge : source.sourceSeq ≤ q.sourceSeq := hsorted.2.2 source h q hmem
      have heq : q = source := hpending.eq_of_seq hq (by omega)
      rw [heq]
      exact List.mem_takeWhile_imp h
  · rintro ⟨hpending, hbefore⟩
    obtain ⟨before, after, hrows⟩ := List.append_of_mem (mem_pendingSources.mpr hpending)
    rw [hrows] at hsorted ⊢
    have hqueued : ∀ q ∈ before, queuedSource q = true := by
      intro q hq
      have hmem : q ∈ pendingSources s chatJid := by
        rw [hrows]
        exact List.mem_append_left _ hq
      exact hbefore q (mem_pendingSources.mp hmem)
        ((List.pairwise_append.mp hsorted).2.2 q hq source List.mem_cons_self)
    rw [List.takeWhile_append_of_pos hqueued, List.takeWhile_cons,
      hbefore source hpending (Nat.le_refl _)]
    simp

theorem lowestPending_head {first : SourceRow δ}
    (h : (pendingSources s chatJid).head? = some first) : LowestPending s chatJid first := by
  have hsorted := pendingSources_sorted s chatJid
  obtain ⟨rest, hrows⟩ := List.head?_eq_some_iff.mp h
  refine ⟨mem_pendingSources.mp (by rw [hrows]; exact List.mem_cons_self), fun q hq => ?_⟩
  have hmem := mem_pendingSources.mpr hq
  rw [hrows] at hmem hsorted
  rcases List.mem_cons.mp hmem with rfl | hmem
  · exact Nat.le_refl _
  · exact (List.pairwise_cons.mp hsorted).1 q hmem

end Batch

section Order

/-- What the host's order puts first, when it names a member of the leading batch. -/
def orderedSource (s : WorkTables δ) (chatJid : Text) (order : List Text) :
    Option (SourceRow δ) :=
  order.findSome? fun id =>
    ((pendingSources s chatJid).takeWhile queuedSource).find? fun r => decide (r.sourceId = id)

theorem orderedSource_some {order : List Text} (h : orderedSource s chatJid order = some source) :
    InLeadingBatch s chatJid source ∧ FirstOfBatch s chatJid order source.sourceId := by
  obtain ⟨earlier, id, later, hsplit, hfind, hnone⟩ := List.findSome?_eq_some_iff.mp h
  have hid : source.sourceId = id := by simpa using List.find?_some hfind
  subst hid
  refine ⟨mem_leading.mp (List.mem_of_find?_eq_some hfind), earlier, later, hsplit, ?_⟩
  intro e he q hq heq
  have habsent := List.find?_eq_none.mp (hnone e he) q (mem_leading.mpr hq)
  simp [heq] at habsent

theorem nextPendingSource_none {order : Option (List Text)} :
    nextPendingSource order s chatJid = none ↔ ∀ q, ¬ PendingIn s chatJid q := by
  have hempty : pendingSources s chatJid = [] ↔ ∀ q, ¬ PendingIn s chatJid q := by
    rw [List.eq_nil_iff_forall_not_mem]
    simp only [mem_pendingSources]
  rw [← hempty]
  unfold nextPendingSource
  cases pendingSources s chatJid with
  | nil => simp
  | cons first rest => cases order <;> simp

/-- A source that is returned is the lowest pending one or the one the order puts first. -/
theorem nextPendingSource_some {order : Option (List Text)}
    (h : nextPendingSource order s chatJid = some source) :
    (LowestPending s chatJid source ∧
        ∀ ids, order = some ids → orderedSource s chatJid ids = none) ∨
      ∃ ids, order = some ids ∧ orderedSource s chatJid ids = some source := by
  unfold nextPendingSource at h
  cases hhead : (pendingSources s chatJid).head? with
  | none => simp [hhead] at h
  | some first =>
    have hlowest := lowestPending_head hhead
    cases order with
    | none =>
      simp only [hhead, Option.some.injEq] at h
      subst h
      exact Or.inl ⟨hlowest, by simp⟩
    | some ids =>
      simp only [hhead, Option.some.injEq] at h
      change (orderedSource s chatJid ids).getD first = source at h
      cases hordered : orderedSource s chatJid ids with
      | none =>
        rw [hordered] at h
        change first = source at h
        subst h
        refine Or.inl ⟨hlowest, ?_⟩
        rintro _ ⟨⟩
        exact hordered
      | some found =>
        rw [hordered] at h
        change found = source at h
        subst h
        exact Or.inr ⟨ids, rfl, hordered⟩

/-- Whatever the host's order, a claim's source never overtakes a barrier: it is the lowest pending
source or the first id of the order that names a member of the leading batch. -/
theorem nextPendingSource_keeps_barriers (s : WorkTables δ) (chatJid : Text)
    (order : Option (List Text)) :
    (nextPendingSource order s chatJid = none → ∀ q, ¬ PendingIn s chatJid q) ∧
    ∀ source, nextPendingSource order s chatJid = some source →
      PendingIn s chatJid source ∧
      (¬ LowestPending s chatJid source → InLeadingBatch s chatJid source ∧
        (∃ ids, order = some ids ∧ FirstOfBatch s chatJid ids source.sourceId) ∧
        ∀ q, PendingIn s chatJid q → q.sourceSeq < source.sourceSeq →
          InLeadingBatch s chatJid q) ∧
      ((∀ ids, order = some ids → ∀ id ∈ ids, ∀ q, InLeadingBatch s chatJid q →
        q.sourceId ≠ id) → LowestPending s chatJid source) := by
  refine ⟨nextPendingSource_none.mp, fun source h => ⟨nextPendingSource_pending h, ?_, ?_⟩⟩
  · intro hnot
    rcases nextPendingSource_some h with ⟨hlowest, -⟩ | ⟨ids, horder, hordered⟩
    · exact absurd hlowest hnot
    · obtain ⟨hbatch, hfirst⟩ := orderedSource_some hordered
      refine ⟨hbatch, ⟨ids, horder, hfirst⟩, fun q hq hlt => ⟨hq, fun e he hle => ?_⟩⟩
      exact hbatch.2 e he (by omega)
  · intro hunmatched
    rcases nextPendingSource_some h with ⟨hlowest, -⟩ | ⟨ids, horder, hordered⟩
    · exact hlowest
    · obtain ⟨hbatch, earlier, later, hsplit, -⟩ := orderedSource_some hordered
      have hmem : source.sourceId ∈ ids := by
        rw [hsplit]
        simp
      exact absurd rfl (hunmatched ids horder source.sourceId hmem source hbatch)

end Order

end Piclaw
