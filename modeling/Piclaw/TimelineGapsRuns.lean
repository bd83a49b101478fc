import Piclaw.TimelineGaps

/-!
# No hidden gap in the timeline

While the timeline refreshes and loads more only from posts that it can join, and edits neither put
in an older row nor take away the oldest one unnoticed, what is shown and what is cached has no gap
up to `contiguousThroughId`, and older rows are announced.
-/

namespace Piclaw
namespace TimelineHook

theorem mem_dedupePosts {posts : List ℕ} {id : ℕ} : id ∈ dedupePosts posts ↔ id ∈ posts := by
  simp [dedupePosts]

theorem le_maxId {posts : List ℕ} {id : ℕ} (hid : id ∈ posts) : id ≤ maxId posts := by
  induction posts with
  | nil => cases hid
  | cons first rest ih =>
    unfold maxId
    rw [List.foldr_cons]
    rcases List.mem_cons.mp hid with rfl | hrest
    · exact le_max_left _ _
    · exact (ih hrest).trans (le_max_right _ _)

theorem maxId_mem (posts : List ℕ) : maxId posts = 0 ∨ maxId posts ∈ posts := by
  induction posts with
  | nil => exact .inl rfl
  | cons first rest ih =>
    unfold maxId
    rw [List.foldr_cons]
    rcases le_total first (rest.foldr max 0) with hle | hle
    · rw [max_eq_right hle]
      exact ih.imp id (List.mem_cons_of_mem _)
    · rw [max_eq_left hle]
      exact .inr (List.mem_cons_self ..)

/-- A row that a page below the bound may have. -/
def Below (before : Option ℕ) (id : ℕ) : Prop := ∀ bound, before = some bound → id < bound

section Pages
variable {server : List ℕ} {limit : ℕ} {before : Option ℕ}

theorem mem_rows {id : ℕ} : id ∈ (server.filter fun id =>
    before.all fun bound => decide (id < bound)) ↔ id ∈ server ∧ Below before id := by
  cases before with
  | none => simp [Below]
  | some bound => simp [Below]

theorem page_mem {id : ℕ} (hid : id ∈ (getTimeline server limit before).posts) :
    id ∈ server ∧ Below before id :=
  mem_rows.mp (List.mem_of_mem_take hid)

/-- Between two rows of a page the server has no other. -/
theorem page_dense (hsorted : server.Pairwise (· > ·)) {id shown : ℕ} (hid : id ∈ server)
    (hbelow : Below before id) (hshown : shown ∈ (getTimeline server limit before).posts)
    (hle : shown ≤ id) : id ∈ (getTimeline server limit before).posts := by
  have hrow := mem_rows.mpr ⟨hid, hbelow⟩
  have hrows := hsorted.filter fun id => before.all fun bound => decide (id < bound)
  rw [← List.take_append_drop limit (server.filter _)] at hrow hrows
  rcases List.mem_append.mp hrow with htake | hdrop
  · exact htake
  · have hgt := (List.pairwise_append.mp hrows).2.2 shown hshown id hdrop
    exact absurd hgt (not_lt.mpr hle)

theorem page_whole (hmore : (getTimeline server limit before).hasMore = false) {id : ℕ}
    (hid : id ∈ server) (hbelow : Below before id) :
    id ∈ (getTimeline server limit before).posts := by
  have hrow := mem_rows.mpr ⟨hid, hbelow⟩
  unfold getTimeline at hmore ⊢
  dsimp only at hmore ⊢
  rw [List.take_of_length_le (not_lt.mp (of_decide_eq_false hmore))]
  exact hrow

theorem page_nil (hlimit : 0 < limit) (hnil : (getTimeline server limit before).posts = [])
    {id : ℕ} (hid : id ∈ server) : ¬ Below before id := by
  intro hbelow
  have hrow := mem_rows.mpr ⟨hid, hbelow⟩
  unfold getTimeline at hnil
  dsimp only at hnil
  rw [List.take_eq_nil_iff] at hnil
  rcases hnil with hzero | hempty
  · exact absurd hzero hlimit.ne'
  · rw [hempty] at hrow
    cases hrow

end Pages

/-- Posts with no gap up to `through`, from the oldest of them on. -/
structure Tidy (server removed posts : List ℕ) (hasMore : Bool) (through : ℕ) : Prop where
  rows : ∀ id ∈ posts, id ∈ server
  bound : through = 0 ∨ through ∈ server
  gapless : ∀ id ∈ server, (∃ shown ∈ posts, shown ≤ id) → id ≤ through →
    id ∈ posts ∨ id ∈ removed
  more : ∀ id ∈ server, posts ≠ [] → (∀ shown ∈ posts, id < shown) → hasMore = true

/-- The pages fetched so far. -/
structure Fetched (server fresh : List ℕ) (before : Option ℕ) : Prop where
  rows : ∀ id ∈ fresh, id ∈ server
  dense : ∀ id ∈ server, (∃ old ∈ fresh, old ≤ id) → (∃ new ∈ fresh, id ≤ new) → id ∈ fresh
  bound : ∀ oldest, before = some oldest → oldest ∈ fresh ∧ ∀ id ∈ fresh, oldest ≤ id
  first : before = none → fresh = []

theorem fetched_nil (server : List ℕ) : Fetched server [] none := by
  constructor <;> simp

section Fetching
variable {server removed fresh : List ℕ} {before : Option ℕ}

theorem Fetched.below (h : Fetched server fresh before) {id : ℕ}
    (hid : ∀ row ∈ fresh, id < row) : Below before id :=
  fun bound hbound => hid bound (h.bound bound hbound).1

/-- The next page continues what was fetched. -/
theorem Fetched.page (h : Fetched server fresh before) (hsorted : server.Pairwise (· > ·))
    (limit : ℕ) :
    (∀ id ∈ dedupePosts (fresh ++ (getTimeline server limit before).posts), id ∈ server) ∧
    ∀ id ∈ server, (∃ old ∈ dedupePosts (fresh ++ (getTimeline server limit before).posts),
      old ≤ id) → (∃ new ∈ dedupePosts (fresh ++ (getTimeline server limit before).posts),
        id ≤ new) → id ∈ dedupePosts (fresh ++ (getTimeline server limit before).posts) := by
  simp only [mem_dedupePosts, List.mem_append]
  refine ⟨fun id hid => hid.elim (h.rows id) fun hpage => (page_mem hpage).1, ?_⟩
  rintro id hid ⟨old, hold, hle⟩ ⟨new, hnew, hge⟩
  by_cases hbelow : Below before id
  · -- below the bound the row that is older belongs to the page
    have hpage : old ∈ (getTimeline server limit before).posts := by
      rcases hold with hold | hold
      · cases hbefore : before with
        | none =>
          rw [h.first hbefore] at hold
          cases hold
        | some oldest =>
          have hlt := hbelow oldest hbefore
          have hoverold := (h.bound oldest hbefore).2 old hold
          omega
      · exact hold
    exact .inr (page_dense hsorted hid hbelow hpage hle)
  · simp only [Below, not_forall, not_lt] at hbelow
    obtain ⟨oldest, hbefore, hover⟩ := hbelow
    have hfresh : new ∈ fresh := by
      rcases hnew with hnew | hnew
      · exact hnew
      · have hlt := (page_mem hnew).2 oldest hbefore
        omega
    exact .inl (h.dense id hid ⟨oldest, (h.bound oldest hbefore).1, hover⟩ ⟨new, hfresh, hge⟩)

theorem min_mem {posts : List ℕ} {oldest : ℕ} (hmin : posts.min? = some oldest) :
    oldest ∈ posts ∧ ∀ id ∈ posts, oldest ≤ id :=
  List.min?_eq_some_iff.mp hmin

theorem exists_min {posts : List ℕ} (hposts : posts ≠ []) : ∃ oldest, posts.min? = some oldest :=
  Option.ne_none_iff_exists'.mp (mt List.min?_eq_none_iff.mp hposts)

theorem Fetched.next (h : Fetched server fresh before) (hsorted : server.Pairwise (· > ·))
    {limit : ℕ} (hposts : (getTimeline server limit before).posts ≠ []) :
    Fetched server (dedupePosts (fresh ++ (getTimeline server limit before).posts))
      (getTimeline server limit before).posts.min? where
  rows := (h.page hsorted limit).1
  dense := (h.page hsorted limit).2
  bound oldest holdest := by
    obtain ⟨hmem, hmin⟩ := min_mem holdest
    refine ⟨mem_dedupePosts.mpr (List.mem_append_right _ hmem), fun id hid => ?_⟩
    rcases List.mem_append.mp (mem_dedupePosts.mp hid) with hid | hid
    · cases hbefore : before with
      | none =>
        rw [h.first hbefore] at hid
        cases hid
      | some bound =>
        have hlt := (page_mem hmem).2 bound hbefore
        have hle := (h.bound bound hbefore).2 id hid
        omega
    · exact hmin id hid
  first hnone := by
    obtain ⟨oldest, holdest⟩ := exists_min hposts
    rw [hnone] at holdest
    cases holdest

/-- Posts that are fetched whole, through their newest. -/
theorem tidy_fresh {posts : List ℕ} {hasMore : Bool} (hrows : ∀ id ∈ posts, id ∈ server)
    (hdense : ∀ id ∈ server, (∃ old ∈ posts, old ≤ id) → (∃ new ∈ posts, id ≤ new) → id ∈ posts)
    (hpositive : ∀ id ∈ server, 0 < id)
    (hmore : ∀ id ∈ server, (∀ shown ∈ posts, id < shown) → hasMore = true) :
    Tidy server removed posts hasMore (maxId posts) where
  rows := hrows
  bound := (maxId_mem posts).imp id (hrows _)
  gapless id hid hold hle := by
    rcases maxId_mem posts with hzero | hmem
    · have hpos := hpositive id hid
      omega
    · exact .inl (hdense id hid hold ⟨maxId posts, hmem, hle⟩)
  more id hid _ hall := hmore id hid hall

/-- The last page leaves a timeline with no gap, joined with the posts before or without them. -/
theorem tidy_joined (h : Fetched server fresh before) (hsorted : server.Pairwise (· > ·))
    (hpositive : ∀ id ∈ server, 0 < id) {currentPosts : List ℕ} {through limit : ℕ}
    (hrows : ∀ id ∈ currentPosts, id ∈ server)
    (hgapless : ∀ id ∈ server, (∃ shown ∈ currentPosts, shown ≤ id) → id ≤ through →
      id ∈ currentPosts ∨ id ∈ removed) :
    Tidy server removed
      (joinedPosts (dedupePosts (fresh ++ (getTimeline server limit before).posts)) currentPosts
        (joins (latestCached currentPosts through) (getTimeline server limit before).posts))
      (getTimeline server limit before).hasMore
      (maxId (joinedPosts (dedupePosts (fresh ++ (getTimeline server limit before).posts))
        currentPosts (joins (latestCached currentPosts through)
          (getTimeline server limit before).posts))) := by
  obtain ⟨hfreshRows, hdense⟩ := h.page hsorted limit
  have hmore : ∀ id ∈ server,
      (∀ shown ∈ dedupePosts (fresh ++ (getTimeline server limit before).posts), id < shown) →
        (getTimeline server limit before).hasMore = true := by
    intro id hid hall
    by_contra hno
    have hbelow := h.below fun row hrow =>
      hall row (mem_dedupePosts.mpr (List.mem_append_left _ hrow))
    have hpage := page_whole (by simpa using hno) hid hbelow
    exact lt_irrefl id (hall id (mem_dedupePosts.mpr (List.mem_append_right _ hpage)))
  have hplain := @tidy_fresh server removed _ _ hfreshRows hdense hpositive hmore
  unfold joinedPosts
  cases hmin : (dedupePosts (fresh ++ (getTimeline server limit before).posts)).min? with
  | none => exact hplain
  | some minFresh =>
    dsimp only
    split_ifs with hjoined
    case neg => exact hplain
    obtain ⟨hminMem, hminLe⟩ := min_mem hmin
    -- an older post that is kept is older than where the pages join
    have hkept : ∀ id ∈ server, id < minFresh → (∃ old ∈ currentPosts, old ≤ id) →
        id ≤ through := by
      rintro id hid hlt ⟨old, hold, hle⟩
      have hpositiveOld := hpositive old (hrows old hold)
      by_cases hthrough : 0 < through
      · have hlatest : latestCached currentPosts through = through := if_pos hthrough
        rw [hlatest] at hjoined
        simp only [joins, Bool.or_eq_true, decide_eq_true_eq, Option.any_eq_true] at hjoined
        rcases hjoined with hzero | ⟨oldest, holdest, hover⟩
        · omega
        · have hmem := hminLe oldest (mem_dedupePosts.mpr
            (List.mem_append_right _ (min_mem holdest).1))
          omega
      · have hpositives : (currentPosts.filter fun id => decide (0 < id)) ≠ [] := by
          intro hnil
          have hmem : old ∈ currentPosts.filter fun id => decide (0 < id) :=
            List.mem_filter.mpr ⟨hold, decide_eq_true hpositiveOld⟩
          rw [hnil] at hmem
          cases hmem
        obtain ⟨least, hleast⟩ := exists_min hpositives
        obtain ⟨hleastMem, hleastLe⟩ := min_mem hleast
        have hleastPos : 0 < least := of_decide_eq_true (List.mem_filter.mp hleastMem).2
        have hlatest : latestCached currentPosts through = least := by
          unfold latestCached
          rw [if_neg hthrough, hleast]
          rfl
        rw [hlatest] at hjoined
        simp only [joins, Bool.or_eq_true, decide_eq_true_eq, Option.any_eq_true] at hjoined
        rcases hjoined with hzero | ⟨oldest, holdest, hover⟩
        · omega
        · have hmem := hminLe oldest (mem_dedupePosts.mpr
            (List.mem_append_right _ (min_mem holdest).1))
          have holdLe := hleastLe old (List.mem_filter.mpr ⟨hold, decide_eq_true hpositiveOld⟩)
          omega
    have hmemJoined : ∀ id, id ∈ dedupePosts (dedupePosts (fresh ++
        (getTimeline server limit before).posts) ++
          currentPosts.filter fun id => decide (id < minFresh)) ↔
        id ∈ dedupePosts (fresh ++ (getTimeline server limit before).posts) ∨
          (id ∈ currentPosts ∧ id < minFresh) := by
      intro id
      rw [mem_dedupePosts, List.mem_append, List.mem_filter, decide_eq_true_eq]
    generalize hposts : dedupePosts (dedupePosts (fresh ++
      (getTimeline server limit before).posts) ++
        currentPosts.filter fun id => decide (id < minFresh)) = posts at hmemJoined ⊢
    have hrowsJoined : ∀ id ∈ posts, id ∈ server := fun id hid =>
      ((hmemJoined id).mp hid).elim (hfreshRows id) fun hold => hrows id hold.1
    exact {
      rows := hrowsJoined
      bound := (maxId_mem posts).imp id (hrowsJoined _)
      gapless := fun id hid hold hle => by
        by_cases hnew : minFresh ≤ id
        · have hmax : ∃ new ∈ dedupePosts (fresh ++ (getTimeline server limit before).posts),
              id ≤ new := by
            rcases maxId_mem posts with hzero | hmem
            · have hpos := hpositive id hid
              omega
            · rcases (hmemJoined _).mp hmem with hfresh | hcurrent
              · exact ⟨_, hfresh, hle⟩
              · omega
          exact .inl ((hmemJoined id).mpr (.inl (hdense id hid ⟨minFresh, hminMem, hnew⟩ hmax)))
        · rw [not_le] at hnew
          obtain ⟨old, hmem, hole⟩ := hold
          have hcurrent : old ∈ currentPosts := by
            rcases (hmemJoined old).mp hmem with hfresh | hcurrent
            · have hover := hminLe old hfresh
              omega
            · exact hcurrent.1
          have hle' := hkept id hid hnew ⟨old, hcurrent, hole⟩
          rcases hgapless id hid ⟨old, hcurrent, hole⟩ hle' with hshown | hremoved
          · exact .inl ((hmemJoined id).mpr (.inr ⟨hshown, hnew⟩))
          · exact .inr hremoved
      more := fun id hid _ hall => hmore id hid fun shown hshown =>
        hall shown ((hmemJoined shown).mpr (.inl hshown)) }

end Fetching
/-- A row is added that is newer than all. -/
structure Added (server : List ℕ) (id : ℕ) : Prop where
  newest : ∀ row ∈ server, row < id

theorem Tidy.added {server removed posts : List ℕ} {hasMore : Bool} {through id : ℕ}
    (h : Tidy server removed posts hasMore through) (hadded : Added server id) :
    Tidy (id :: server) removed posts hasMore through where
  rows row hrow := List.mem_cons_of_mem _ (h.rows row hrow)
  bound := h.bound.imp_right (List.mem_cons_of_mem _)
  gapless row hrow hold hle := by
    rcases List.mem_cons.mp hrow with rfl | hrow
    · rcases h.bound with hzero | hmem
      · obtain ⟨old, hmem, hole⟩ := hold
        have hlt := hadded.newest old (h.rows old hmem)
        omega
      · have hlt := hadded.newest through hmem
        omega
    · exact h.gapless row hrow hold hle
  more row hrow hposts hall := by
    rcases List.mem_cons.mp hrow with rfl | hrow
    · obtain ⟨shown, hshown⟩ := List.exists_mem_of_ne_nil _ hposts
      have hlt := hadded.newest shown (h.rows shown hshown)
      have hgt := hall shown hshown
      omega
    · exact h.more row hrow hposts hall

theorem Fetched.added {server fresh : List ℕ} {before : Option ℕ} {id : ℕ}
    (h : Fetched server fresh before) (hadded : Added server id) :
    Fetched (id :: server) fresh before where
  rows row hrow := List.mem_cons_of_mem _ (h.rows row hrow)
  dense row hrow hold hnew := by
    rcases List.mem_cons.mp hrow with rfl | hrow
    · obtain ⟨new, hmem, hge⟩ := hnew
      have hlt := hadded.newest new (h.rows new hmem)
      omega
    · exact h.dense row hrow hold hnew
  bound := h.bound
  first := h.first

/-- The hook is in the state in which the request started. -/
def Current (s : TimelineHook) (stamp : RequestStamp) : Prop :=
  stamp.token = s.chatToken ∧ stamp.mutationVersion = s.mutationVersion

structure StampSound (s : TimelineHook) (stamp : RequestStamp) : Prop where
  token : stamp.token ≤ s.chatToken
  chat : stamp.token = s.chatToken →
    stamp.chatJid = s.chatJid ∧ stamp.mutationVersion ≤ s.mutationVersion

/-- What is shown has no gap, or claims nothing. -/
def Joinable (s : TimelineHook) : Prop := s.ofMain = true ∨ s.contiguousThroughId = 0

def CallSound (s : TimelineHook) : TimelineRequestCall → Prop
  | .hashtag stamp => StampSound s stamp
  | .load stamp => StampSound s stamp
  | .catchUp call => StampSound s call.stamp ∧
      Fetched (s.server call.stamp.chatJid) call.fresh call.before ∧
        (Current s call.stamp → Joinable s ∧ s.posts.getD [] = call.currentPosts ∧
          call.latestCached = latestCached call.currentPosts s.contiguousThroughId)
  | .more stamp oldest => StampSound s stamp ∧
      (Current s stamp → Joinable s ∧ (s.posts.getD []).min? = some oldest)

/-- What holds of the hook in every state. -/
structure Sound (s : TimelineHook) : Prop where
  sorted : ∀ chatJid, (s.server chatJid).Pairwise (· > ·)
  positive : ∀ chatJid, ∀ id ∈ s.server chatJid, 0 < id
  rows : ∀ id ∈ s.posts.getD [], id ∈ s.server s.chatJid
  shown : s.ofMain = true → ∀ posts, s.posts = some posts →
    Tidy (s.server s.chatJid) (s.removed s.chatJid) posts s.hasMore s.contiguousThroughId
  unloaded : s.posts = none → s.contiguousThroughId = 0
  bound : s.contiguousThroughId = 0 ∨ s.contiguousThroughId ∈ s.server s.chatJid
  cached : ∀ chatJid snapshot, s.cache chatJid = some snapshot →
    Tidy (s.server chatJid) (s.removed chatJid) snapshot.posts snapshot.hasMore
      snapshot.contiguousThroughId
  calls : ∀ c call, s.pending c = some call → CallSound s call

theorem sound_initial (chatJid : String) : Sound (initial chatJid) := by
  constructor <;> simp [initial]

variable {s : TimelineHook}

/-- What is shown, also before anything is loaded. -/
theorem Sound.current (h : Sound s) (hjoin : Joinable s) :
    ∀ id ∈ s.server s.chatJid, (∃ shown ∈ s.posts.getD [], shown ≤ id) →
      id ≤ s.contiguousThroughId → id ∈ s.posts.getD [] ∨ id ∈ s.removed s.chatJid := by
  rcases hjoin with hmain | hzero
  · cases hposts : s.posts with
    | none => simp
    | some posts => exact (h.shown hmain posts hposts).gapless
  · intro id hid _ hle
    have hpos := h.positive _ id hid
    omega

/-- A request depends on the rows, the posts and the versions alone. -/
theorem CallSound.of_same {s' : TimelineHook} {call : TimelineRequestCall} (h : CallSound s call)
    (hserver : s'.server = s.server) (htoken : s'.chatToken = s.chatToken)
    (hchat : s'.chatJid = s.chatJid) (hversion : s'.mutationVersion = s.mutationVersion)
    (hposts : s'.posts = s.posts) (hmain : s'.ofMain = s.ofMain)
    (hthrough : s'.contiguousThroughId = s.contiguousThroughId) : CallSound s' call := by
  have hstamp : ∀ {stamp : RequestStamp}, StampSound s stamp → StampSound s' stamp := by
    intro stamp hsound
    refine ⟨htoken ▸ hsound.token, fun hsame => ?_⟩
    rw [hchat, hversion]
    exact hsound.chat (htoken ▸ hsame)
  have hcurrent : ∀ {stamp : RequestStamp}, Current s' stamp → Current s stamp :=
    fun hnow => ⟨htoken ▸ hnow.1, hversion ▸ hnow.2⟩
  have hjoin : Joinable s → Joinable s' := by
    unfold Joinable
    rw [hmain, hthrough]
    exact id
  cases call with
  | hashtag stamp => exact hstamp h
  | load stamp => exact hstamp h
  | catchUp call =>
    refine ⟨hstamp h.1, hserver ▸ h.2.1, fun hnow => ?_⟩
    obtain ⟨hold, hsame, hlatest⟩ := h.2.2 (hcurrent hnow)
    exact ⟨hjoin hold, hposts ▸ hsame, hthrough ▸ hlatest⟩
  | more stamp oldest =>
    refine ⟨hstamp h.1, fun hnow => ?_⟩
    obtain ⟨hold, holdest⟩ := h.2 (hcurrent hnow)
    exact ⟨hjoin hold, hposts ▸ holdest⟩

/-- Only requests and what does not concern the posts change. -/
theorem Sound.setRequests (h : Sound s) {mainView loadingMore : Bool} {refreshRequest nextCall : ℕ}
    {lastBeforeId : Option ℕ} {pending : ℕ → Option TimelineRequestCall}
    (hcalls : ∀ c call, pending c = some call → CallSound s call) :
    Sound { s with mainView, loadingMore, refreshRequest, nextCall, lastBeforeId, pending } := by
  exact { h with
    calls := fun c call hcall => (hcalls c call hcall).of_same rfl rfl rfl rfl rfl rfl rfl }

theorem calls_update (h : Sound s) {c : ℕ} {entry : Option TimelineRequestCall}
    (hentry : ∀ call, entry = some call → CallSound s call) (other : ℕ)
    (call : TimelineRequestCall) (hcall : Function.update s.pending c entry other = some call) :
    CallSound s call := by
  by_cases hother : other = c
  · subst other
    rw [Function.update_self] at hcall
    exact hentry call hcall
  · rw [Function.update_of_ne hother] at hcall
    exact h.calls other call hcall

theorem Sound.dropCall (h : Sound s) (c : ℕ) : Sound (s.dropCall c) :=
  h.setRequests (calls_update h fun _ hnone => nomatch hnone)

theorem Sound.addCall (h : Sound s) {call : TimelineRequestCall} (hcall : CallSound s call) :
    Sound (s.addCall call) :=
  h.setRequests (calls_update h fun made hmade => by
    cases hmade
    exact hcall)

theorem stampSound_stamp (s : TimelineHook) : StampSound s s.stamp :=
  ⟨le_rfl, fun _ => ⟨rfl, le_rfl⟩⟩

theorem Sound.startCatchUp (h : Sound s) (hmain : Joinable s) (background retried : Bool) :
    Sound (s.startCatchUp background retried) :=
  h.addCall ⟨stampSound_stamp s, fetched_nil _, fun _ => ⟨hmain, rfl, rfl⟩⟩

/-- After a change of the posts no earlier request is current. -/
theorem CallSound.bump {s' : TimelineHook} {call : TimelineRequestCall} (h : CallSound s call)
    (hserver : s'.server = s.server) (htoken : s'.chatToken = s.chatToken)
    (hchat : s'.chatJid = s.chatJid) (hversion : s'.mutationVersion = s.mutationVersion + 1) :
    CallSound s' call := by
  have hstamp : ∀ {stamp : RequestStamp}, StampSound s stamp → StampSound s' stamp := by
    intro stamp hsound
    refine ⟨htoken ▸ hsound.token, fun hsame => ?_⟩
    obtain ⟨hjid, hle⟩ := hsound.chat (htoken ▸ hsame)
    exact ⟨hchat ▸ hjid, hversion ▸ hle.trans (Nat.le_succ _)⟩
  have hstale : ∀ {stamp : RequestStamp}, StampSound s stamp → ¬ Current s' stamp := by
    rintro stamp hsound ⟨hsame, hmutation⟩
    have hle := (hsound.chat (htoken ▸ hsame)).2
    omega
  cases call with
  | hashtag stamp => exact hstamp h
  | load stamp => exact hstamp h
  | catchUp call =>
    exact ⟨hstamp h.1, hserver ▸ h.2.1, fun hcurrent => absurd hcurrent (hstale h.1)⟩
  | more stamp oldest => exact ⟨hstamp h.1, fun hcurrent => absurd hcurrent (hstale h.1)⟩

theorem Sound.cacheSnapshot (h : Sound s) {chatJid : String} {snapshot : TimelineSnapshot}
    (htidy : Tidy (s.server chatJid) (s.removed chatJid) snapshot.posts snapshot.hasMore
      snapshot.contiguousThroughId) : Sound (s.cacheSnapshot chatJid snapshot) := by
  refine { h with
    cached := fun other cached hcached => ?_
    calls := fun c call hcall => (h.calls c call hcall).of_same rfl rfl rfl rfl rfl rfl rfl }
  simp only [TimelineHook.cacheSnapshot] at hcached
  by_cases hsame : other = chatJid
  · subst other
    rw [Function.update_self] at hcached
    cases hcached
    exact htidy
  · rw [Function.update_of_ne hsame] at hcached
    exact h.cached other cached hcached

/-- `setTimelineState` with posts that have no gap, cached for the chat of the request. -/
theorem Sound.setTimelineState (h : Sound s) {stamp : RequestStamp}
    (hchat : stamp.chatJid = s.chatJid) {posts : List ℕ} {hasMore : Bool} {through : ℕ}
    (htidy : Tidy (s.server s.chatJid) (s.removed s.chatJid) posts hasMore through) :
    Sound (s.setTimelineState stamp posts hasMore through) := by
  have hshown : Sound { s with
      contiguousThroughId := through
      mutationVersion := s.mutationVersion + 1
      posts := some posts
      hasMore := hasMore
      ofMain := true } := {
    sorted := h.sorted
    positive := h.positive
    rows := htidy.rows
    shown := fun _ shown hshown => by
      cases hshown
      exact htidy
    unloaded := fun hnone => nomatch hnone
    bound := htidy.bound
    cached := h.cached
    calls := fun c call hcall => (h.calls c call hcall).bump rfl rfl rfl rfl }
  unfold TimelineHook.setTimelineState
  dsimp only
  split_ifs
  · refine hshown.cacheSnapshot ?_
    rw [hchat]
    exact htidy
  · exact hshown

theorem Sound.loadPosts (h : Sound s) (hashtag : Bool) : Sound (s.loadPosts hashtag) := by
  have hstarted : Sound { s with refreshRequest := s.refreshRequest + 1 } :=
    h.setRequests h.calls
  unfold TimelineHook.loadPosts
  dsimp only
  split_ifs
  · exact hstarted.addCall (stampSound_stamp _)
  · split
    · rename_i cached hcached
      have htidy := h.cached _ cached hcached
      have hset : Sound (TimelineHook.setTimelineState
          { s with refreshRequest := s.refreshRequest + 1 }
          (TimelineHook.stamp { s with refreshRequest := s.refreshRequest + 1 })
          cached.posts cached.hasMore cached.contiguousThroughId) :=
        hstarted.setTimelineState rfl htidy
      refine hset.startCatchUp (.inl ?_) true false
      unfold TimelineHook.setTimelineState
      dsimp only
      split_ifs
      · rfl
      · rfl
    · exact hstarted.addCall (stampSound_stamp _)

theorem Sound.refreshTimeline (h : Sound s) (hmain : Joinable s) (retried : Bool) :
    Sound (s.refreshTimeline retried) := by
  have hstarted : Sound { s with refreshRequest := s.refreshRequest + 1 } :=
    h.setRequests h.calls
  exact hstarted.startCatchUp hmain false retried

theorem Sound.loadMore (h : Sound s) (hmain : Joinable s) (allowRepeat : Bool) :
    Sound (s.loadMore allowRepeat) := by
  unfold TimelineHook.loadMore
  split
  · exact h
  · rename_i oldest holdest
    split_ifs
    · exact h
    · exact h
    · have hbusy : Sound { s with loadingMore := true, lastBeforeId := some oldest } :=
        h.setRequests h.calls
      exact hbusy.addCall ⟨{ stampSound_stamp s with }, fun _ => ⟨hmain, holdest⟩⟩

theorem StampSound.chat_of_current {stamp : RequestStamp} (h : StampSound s stamp)
    (hcurrent : s.isCurrent stamp = true) : Current s stamp ∧ stamp.chatJid = s.chatJid := by
  simp only [isCurrent, sameChat, Bool.and_eq_true, decide_eq_true_eq] at hcurrent
  exact ⟨⟨hcurrent.2, hcurrent.1.2⟩, (h.chat hcurrent.2).1⟩

/-- The retry of a refresh starts from posts that it can join. -/
def RetriesJoinable (s : TimelineHook) (c : ℕ) : Prop :=
  match s.pending c with
  | some (.catchUp call) =>
    (s.isCurrent call.stamp && (!call.background || s.mainView)) = false → Joinable s
  | _ => True

theorem Sound.catchUpPage (h : Sound s) {c : ℕ} {call : CatchUp}
    (hcall : s.pending c = some (.catchUp call)) (hretry : RetriesJoinable s c) :
    Sound (s.catchUpPage c call) := by
  obtain ⟨hstamp, hfetched, hsame⟩ := h.calls c _ hcall
  unfold RetriesJoinable at hretry
  rw [hcall] at hretry
  unfold TimelineHook.catchUpPage
  dsimp only
  cases hcurrent : s.isCurrent call.stamp && (!call.background || s.mainView) with
  | false =>
    rw [if_pos (by rfl)]
    split_ifs
    · exact (h.dropCall c).refreshTimeline (hretry hcurrent) true
    · exact h.dropCall c
  | true =>
    rw [if_neg (by simp)]
    obtain ⟨hnow, hchat⟩ := hstamp.chat_of_current (Bool.and_eq_true_iff.mp hcurrent).1
    obtain ⟨hjoin, hposts, hlatest⟩ := hsame hnow
    have hrows := h.rows
    have hgapless := h.current hjoin
    rw [hposts] at hrows hgapless
    rw [hchat] at hfetched ⊢
    by_cases hlast : (joins call.latestCached
        (getTimeline (s.server s.chatJid) 50 call.before).posts ||
          !(getTimeline (s.server s.chatJid) 50 call.before).hasMore ||
          decide ((getTimeline (s.server s.chatJid) 50 call.before).posts = []) ||
          decide (call.before = (getTimeline (s.server s.chatJid) 50 call.before).posts.min?) ||
            decide (9 ≤ call.page)) = true
    · rw [if_pos hlast]
      refine (h.dropCall c).setTimelineState hchat ?_
      rw [hlatest]
      exact tidy_joined hfetched (h.sorted _) (h.positive _) hrows hgapless
    · rw [if_neg hlast]
      have hsome : (getTimeline (s.server s.chatJid) 50 call.before).posts ≠ [] := by
        intro hnil
        simp [hnil] at hlast
      refine h.setRequests (calls_update h fun made hmade => ?_)
      cases hmade
      refine ⟨hstamp, ?_, hsame⟩
      rw [hchat]
      exact hfetched.next (h.sorted _) hsome

/-- The first page alone. -/
theorem tidy_page {server removed : List ℕ} (hsorted : server.Pairwise (· > ·))
    (hpositive : ∀ id ∈ server, 0 < id) (limit : ℕ) :
    Tidy server removed (getTimeline server limit none).posts
      (getTimeline server limit none).hasMore (maxId (getTimeline server limit none).posts) := by
  have hbelow : ∀ id, Below none id := fun _ _ hnone => nomatch hnone
  refine tidy_fresh (fun id hid => (page_mem hid).1) (fun id hid hold _ => ?_) hpositive
    fun id hid hall => ?_
  · obtain ⟨old, hold, hle⟩ := hold
    exact page_dense hsorted hid (hbelow id) hold hle
  · by_contra hno
    have hpage := page_whole (by simpa using hno) hid (hbelow id)
    exact lt_irrefl id (hall id hpage)

/-- A page of older posts is put before what is shown. -/
theorem tidy_older {server removed posts : List ℕ} {through : ℕ}
    (hrows : ∀ id ∈ posts, id ∈ server) (hbound : through = 0 ∨ through ∈ server)
    (hgapless : ∀ id ∈ server, (∃ shown ∈ posts, shown ≤ id) → id ≤ through →
      id ∈ posts ∨ id ∈ removed)
    (hsorted : server.Pairwise (· > ·)) {oldest : ℕ} (holdest : posts.min? = some oldest)
    (limit : ℕ) :
    Tidy server removed (dedupePosts ((getTimeline server limit (some oldest)).posts ++ posts))
      (getTimeline server limit (some oldest)).hasMore through where
  rows id hid := by
    rcases List.mem_append.mp (mem_dedupePosts.mp hid) with hpage | hshown
    · exact (page_mem hpage).1
    · exact hrows id hshown
  bound := hbound
  gapless id hid hold hle := by
    obtain ⟨holdestMem, holdestLe⟩ := min_mem holdest
    rw [mem_dedupePosts, List.mem_append]
    by_cases hover : oldest ≤ id
    · exact (hgapless id hid ⟨oldest, holdestMem, hover⟩ hle).imp_left .inr
    · have hbelow : Below (some oldest) id := fun bound hbound => by
        cases hbound
        exact not_le.mp hover
      obtain ⟨old, hmem, hole⟩ := hold
      rcases List.mem_append.mp (mem_dedupePosts.mp hmem) with hpage | hshown
      · exact .inl (.inl (page_dense hsorted hid hbelow hpage hole))
      · have hge := holdestLe old hshown
        omega
  more id hid _ hall := by
    by_contra hno
    have hbelow : Below (some oldest) id := fun bound hbound => by
      cases hbound
      exact hall oldest (mem_dedupePosts.mpr (List.mem_append_right _ (min_mem holdest).1))
    have hpage := page_whole (by simpa using hno) hid hbelow
    exact lt_irrefl id (hall id (mem_dedupePosts.mpr (List.mem_append_left _ hpage)))

theorem Sound.answer (h : Sound s) (c : ℕ) (tagged : List ℕ) (hretry : RetriesJoinable s c) :
    Sound (s.answer c tagged) := by
  unfold TimelineHook.answer
  split
  · exact h
  · rename_i stamp hcall
    have hstamp : StampSound s stamp := h.calls c _ hcall
    split_ifs with hcurrent
    · exact {
        sorted := h.sorted
        positive := h.positive
        rows := fun id hid => by
          have hmem := (List.mem_filter.mp hid).2
          exact (hstamp.chat_of_current hcurrent).2 ▸ of_decide_eq_true hmem
        shown := fun hmain => nomatch hmain
        unloaded := fun hnone => nomatch hnone
        bound := h.bound
        cached := h.cached
        calls := fun other call hother =>
          ((h.dropCall c).calls other call hother).bump rfl rfl rfl rfl }
    · exact h.dropCall c
  · rename_i stamp hcall
    have hstamp : StampSound s stamp := h.calls c _ hcall
    split_ifs with hcurrent
    · obtain ⟨-, hchat⟩ := hstamp.chat_of_current hcurrent
      refine (h.dropCall c).setTimelineState hchat ?_
      rw [hchat]
      exact tidy_page (h.sorted _) (h.positive _) 50
    · exact h.dropCall c
  · rename_i call hcall
    exact h.catchUpPage hcall hretry
  · rename_i stamp oldest hcall
    obtain ⟨hstamp, hsame⟩ : StampSound s stamp ∧ (Current s stamp → Joinable s ∧
        (s.posts.getD []).min? = some oldest) := h.calls c _ hcall
    have hdone : Sound { s.dropCall c with loadingMore := false } :=
      (h.dropCall c).setRequests (h.dropCall c).calls
    by_cases hother : (!s.sameChat stamp) = true
    · rw [if_pos hother]
      exact h.dropCall c
    rw [if_neg hother]
    by_cases hstale : stamp.mutationVersion ≠ s.mutationVersion
    · rw [if_pos hstale]
      exact (h.dropCall c).setRequests (h.dropCall c).calls
    rw [if_neg hstale]
    have htoken : stamp.token = s.chatToken := by simpa [sameChat] using hother
    obtain ⟨hjoin, holdest⟩ := hsame ⟨htoken, not_not.mp hstale⟩
    obtain ⟨hchat, -⟩ := hstamp.chat htoken
    have hgapless := h.current hjoin
    dsimp only
    rw [hchat]
    split_ifs with hempty
    · -- nothing is older than what is shown
      refine hdone.setTimelineState hchat ⟨h.rows, h.bound, hgapless, fun id hid _ hall => ?_⟩
      have hbelow : Below (some oldest) id := fun bound hbound => by
        cases hbound
        exact hall oldest (min_mem holdest).1
      exact absurd hbelow (page_nil (by simp) hempty hid)
    · exact hdone.setTimelineState hchat
        (tidy_older h.rows h.bound hgapless (h.sorted _) holdest 10)

theorem Sound.fail (h : Sound s) (c : ℕ) : Sound (s.fail c) := by
  unfold TimelineHook.fail
  split
  · split_ifs
    · exact (h.dropCall c).setRequests (h.dropCall c).calls
    · exact h.dropCall c
  · exact h.dropCall c

theorem Sound.switchChat (h : Sound s) (chatJid : String) : Sound (s.switchChat chatJid) where
  sorted := h.sorted
  positive := h.positive
  rows _ hid := nomatch hid
  shown _ _ hshown := nomatch hshown
  unloaded _ := rfl
  bound := .inl rfl
  cached := h.cached
  calls c call hcall := by
    have hsound := h.calls c call hcall
    have hstamp : ∀ {stamp : RequestStamp}, StampSound s stamp →
        StampSound (s.switchChat chatJid) stamp ∧ ¬ Current (s.switchChat chatJid) stamp := by
      intro stamp hold
      have hle := hold.token
      refine ⟨⟨hle.trans (Nat.le_succ _), fun hsame => ?_⟩, fun hcurrent => ?_⟩
      · have heq : stamp.token = s.chatToken + 1 := hsame
        omega
      · have heq : stamp.token = s.chatToken + 1 := hcurrent.1
        omega
    cases call with
    | hashtag stamp => exact (hstamp hsound).1
    | load stamp => exact (hstamp hsound).1
    | catchUp call =>
      exact ⟨(hstamp hsound.1).1, hsound.2.1, fun hcurrent =>
        absurd hcurrent (hstamp hsound.1).2⟩
    | more stamp oldest =>
      exact ⟨(hstamp hsound.1).1, fun hcurrent => absurd hcurrent (hstamp hsound.1).2⟩

theorem Sound.serverAdd (h : Sound s) (chatJid : String) (id : ℕ) :
    Sound (s.serverAdd chatJid id) := by
  unfold TimelineHook.serverAdd
  split_ifs with hnewest
  · have hadded : Added (s.server chatJid) id :=
      ⟨fun row hrow => (le_maxId hrow).trans_lt hnewest⟩
    have htidy : ∀ {other : String} {posts : List ℕ} {hasMore : Bool} {through : ℕ},
        Tidy (s.server other) (s.removed other) posts hasMore through →
        Tidy (Function.update s.server chatJid (id :: s.server chatJid) other) (s.removed other)
          posts hasMore through := by
      intro other posts hasMore through hold
      by_cases hsame : other = chatJid
      · subst other
        rw [Function.update_self]
        exact hold.added hadded
      · rw [Function.update_of_ne hsame]
        exact hold
    have hgrows : ∀ other, ∀ row ∈ s.server other,
        row ∈ Function.update s.server chatJid (id :: s.server chatJid) other := by
      intro other row hrow
      by_cases hsame : other = chatJid
      · subst other
        rw [Function.update_self]
        exact List.mem_cons_of_mem _ hrow
      · rwa [Function.update_of_ne hsame]
    exact {
      sorted := fun other => by
        dsimp only
        by_cases hsame : other = chatJid
        · subst other
          rw [Function.update_self]
          exact List.pairwise_cons.mpr ⟨hadded.newest, h.sorted _⟩
        · rw [Function.update_of_ne hsame]
          exact h.sorted other
      positive := fun other row hrow => by
        dsimp only at hrow
        by_cases hsame : other = chatJid
        · subst other
          rw [Function.update_self] at hrow
          rcases List.mem_cons.mp hrow with rfl | hrow
          · omega
          · exact h.positive _ row hrow
        · rw [Function.update_of_ne hsame] at hrow
          exact h.positive other row hrow
      rows := fun row hrow => hgrows _ _ (h.rows row hrow)
      shown := fun hmain posts hposts => htidy (h.shown hmain posts hposts)
      unloaded := h.unloaded
      bound := h.bound.imp_right (hgrows _ _)
      cached := fun other snapshot hcached => htidy (h.cached other snapshot hcached)
      calls := fun c call hcall => by
        have hsound := h.calls c call hcall
        cases call with
        | hashtag stamp => exact ⟨hsound.token, hsound.chat⟩
        | load stamp => exact ⟨hsound.token, hsound.chat⟩
        | catchUp call =>
          refine ⟨{ hsound.1 with }, ?_, hsound.2.2⟩
          dsimp only
          by_cases hsame : call.stamp.chatJid = chatJid
          · rw [hsame, Function.update_self]
            exact (hsame ▸ hsound.2.1).added hadded
          · rw [Function.update_of_ne hsame]
            exact hsound.2.1
        | more stamp oldest => exact ⟨{ hsound.1 with }, hsound.2⟩ }
  · exact h

/-- An edit puts in no row older than all shown and not newer than `contiguousThroughId`; and it
fills an empty timeline, or takes away its oldest row but not all, only where older rows are
announced or there are none. -/
def EditSafe (s : TimelineHook) : TimelineEdit → Prop
  | .append id =>
    (s.contiguousThroughId < id ∨ ∃ shown ∈ s.posts.getD [], shown ≤ id) ∧
      (s.posts.getD [] = [] → s.hasMore = true ∨ ∀ row ∈ s.server s.chatJid, id ≤ row)
  | .replace _ => True
  | .remove ids =>
    ((s.posts.getD []).filter fun id => decide (id ∉ ids)) = [] ∨ s.hasMore = true ∨
      ∃ oldest ∈ (s.posts.getD []).filter fun id => decide (id ∉ ids),
        ∀ shown ∈ s.posts.getD [], oldest ≤ shown

def removedAfter (s : TimelineHook) : TimelineEdit → List ℕ
  | .remove ids => s.removed s.chatJid ++ ids
  | _ => s.removed s.chatJid

theorem Tidy.removed_mono {server removed removed' posts : List ℕ} {hasMore : Bool} {through : ℕ}
    (h : Tidy server removed posts hasMore through) (hmono : ∀ id ∈ removed, id ∈ removed') :
    Tidy server removed' posts hasMore through :=
  { h with gapless := fun id hid hold hle => (h.gapless id hid hold hle).imp_right (hmono id) }

theorem Sound.tidy_append (h : Sound s) (hmain : s.ofMain = true) {id : ℕ}
    (hid : id ∈ s.server s.chatJid) (hsafe : EditSafe s (.append id)) :
    Tidy (s.server s.chatJid) (s.removed s.chatJid) (dedupePosts (s.posts.getD [] ++ [id]))
      s.hasMore s.contiguousThroughId := by
  have hrows := h.rows
  have hgapless := h.current (.inl hmain)
  have hmem : ∀ row, row ∈ dedupePosts (s.posts.getD [] ++ [id]) ↔
      row ∈ s.posts.getD [] ∨ row = id := by
    intro row
    rw [mem_dedupePosts, List.mem_append, List.mem_singleton]
  refine ⟨fun row hrow => ?_, h.bound, fun row hrow hold hle => ?_, fun row hrow _ hall => ?_⟩
  · rcases (hmem row).mp hrow with hshown | rfl
    · exact hrows row hshown
    · exact hid
  · have hshown : ∃ shown ∈ s.posts.getD [], shown ≤ row := by
      obtain ⟨old, hmemOld, hole⟩ := hold
      rcases (hmem old).mp hmemOld with hshown | rfl
      · exact ⟨old, hshown, hole⟩
      · rcases hsafe.1 with hnew | ⟨shown, hshown, hlower⟩
        · omega
        · exact ⟨shown, hshown, hlower.trans hole⟩
    exact (hgapless row hrow hshown hle).imp_left fun hmemRow => (hmem row).mpr (.inl hmemRow)
  · by_cases hempty : s.posts.getD [] = []
    · rcases hsafe.2 hempty with hmore | hleast
      · exact hmore
      · have hlt := hall id ((hmem id).mpr (.inr rfl))
        have hge := hleast row hrow
        omega
    · cases hposts : s.posts with
      | none =>
        rw [hposts] at hempty
        exact absurd rfl hempty
      | some posts =>
        rw [hposts] at hempty hmem
        exact (h.shown hmain posts hposts).more row hrow hempty fun shown hshown =>
          hall shown (by rw [hposts]; exact (hmem shown).mpr (.inl hshown))

theorem Tidy.remove {server removed posts : List ℕ} {hasMore : Bool} {through : ℕ}
    (h : Tidy server removed posts hasMore through) (ids : List ℕ)
    (hsafe : (posts.filter fun id => decide (id ∉ ids)) = [] ∨ hasMore = true ∨
      ∃ oldest ∈ posts.filter fun id => decide (id ∉ ids), ∀ shown ∈ posts, oldest ≤ shown) :
    Tidy server (removed ++ ids) (posts.filter fun id => decide (id ∉ ids)) hasMore through where
  rows id hid := h.rows id (List.mem_of_mem_filter hid)
  bound := h.bound
  gapless id hid hold hle := by
    obtain ⟨old, hmem, hole⟩ := hold
    rcases h.gapless id hid ⟨old, List.mem_of_mem_filter hmem, hole⟩ hle with hshown | hremoved
    · by_cases hids : id ∈ ids
      · exact .inr (List.mem_append_right _ hids)
      · exact .inl (List.mem_filter.mpr ⟨hshown, decide_eq_true hids⟩)
    · exact .inr (List.mem_append_left _ hremoved)
  more id hid hposts hall := by
    rcases hsafe with hempty | hmore | ⟨oldest, holdest, hleast⟩
    · exact absurd hempty hposts
    · exact hmore
    · have hsome : posts ≠ [] := List.ne_nil_of_mem (List.mem_of_mem_filter holdest)
      exact h.more id hid hsome fun shown hshown =>
        (hall oldest holdest).trans_le (hleast shown hshown)

/-- What a safe edit leaves has no gap but what edits removed. -/
theorem Sound.tidy_edited (h : Sound s) (hmain : s.ofMain = true) {edit : TimelineEdit}
    (hsafe : EditSafe s edit) {posts : List ℕ} (hedited : s.edited edit = some posts) :
    Tidy (s.server s.chatJid) (s.removedAfter edit) posts s.hasMore s.contiguousThroughId := by
  cases edit with
  | append id =>
    simp only [edited] at hedited
    split_ifs at hedited with hid
    · cases hedited
      exact h.tidy_append hmain hid hsafe
    · exact h.shown hmain posts hedited
  | replace id => exact h.shown hmain posts hedited
  | remove ids =>
    simp only [edited, Option.map_eq_some_iff] at hedited
    obtain ⟨shown, hshown, rfl⟩ := hedited
    unfold EditSafe at hsafe
    rw [hshown] at hsafe
    exact (h.shown hmain shown hshown).remove ids hsafe

theorem edited_none {edit : TimelineEdit} (hedited : s.edited edit = none) : s.posts = none := by
  cases edit with
  | append id =>
    simp only [edited] at hedited
    split_ifs at hedited
    exact hedited
  | replace id => exact hedited
  | remove ids => simpa [edited] using hedited

theorem Sound.rows_edited (h : Sound s) (edit : TimelineEdit) :
    ∀ id ∈ (s.edited edit).getD [], id ∈ s.server s.chatJid := by
  cases edit with
  | append id =>
    simp only [edited]
    split_ifs with hid
    · intro row hrow
      rcases List.mem_append.mp (mem_dedupePosts.mp hrow) with hshown | hnew
      · exact h.rows row hshown
      · exact List.mem_singleton.mp hnew ▸ hid
    · exact h.rows
  | replace id => exact h.rows
  | remove ids =>
    intro row hrow
    cases hposts : s.posts with
    | none => simp [edited, hposts] at hrow
    | some posts =>
      simp only [edited, hposts, Option.map_some, Option.getD_some] at hrow
      exact h.rows row (by rw [hposts]; exact List.mem_of_mem_filter hrow)

theorem Sound.clearPosts (h : Sound s) : Sound s.clearPosts where
  sorted := h.sorted
  positive := h.positive
  rows _ hid := nomatch hid
  shown _ _ hshown := nomatch hshown
  unloaded _ := rfl
  bound := .inl rfl
  cached := h.cached
  calls c call hcall := (h.calls c call hcall).bump rfl rfl rfl rfl

theorem Sound.setPosts (h : Sound s) {edit : TimelineEdit}
    (hsafe : s.ofMain = true → EditSafe s edit)
    (htagged : s.ofMain = false → s.mainView = false) : Sound (s.setPosts edit) := by
  have hremoved : ∀ chatJid, ∀ id ∈ s.removed chatJid, id ∈ (match edit with
      | .remove ids => Function.update s.removed s.chatJid (s.removed s.chatJid ++ ids)
      | _ => s.removed) chatJid := by
    intro chatJid id hid
    cases edit with
    | append => exact hid
    | replace => exact hid
    | remove ids =>
      dsimp only
      by_cases hsame : chatJid = s.chatJid
      · subst chatJid
        rw [Function.update_self]
        exact List.mem_append_left _ hid
      · rwa [Function.update_of_ne hsame]
  have hafter : (match edit with
      | .remove ids => Function.update s.removed s.chatJid (s.removed s.chatJid ++ ids)
      | _ => s.removed) s.chatJid = s.removedAfter edit := by
    cases edit with
    | append => rfl
    | replace => rfl
    | remove ids => exact Function.update_self ..
  have hshown : Sound { s with
      mutationVersion := s.mutationVersion + 1
      posts := s.edited edit
      removed := match edit with
        | .remove ids => Function.update s.removed s.chatJid (s.removed s.chatJid ++ ids)
        | _ => s.removed } := {
    sorted := h.sorted
    positive := h.positive
    rows := h.rows_edited edit
    shown := fun hmain posts hedited => by
      dsimp only
      rw [hafter]
      exact h.tidy_edited hmain (hsafe hmain) hedited
    unloaded := fun hnone => h.unloaded (edited_none hnone)
    bound := h.bound
    cached := fun chatJid snapshot hcached =>
      (h.cached chatJid snapshot hcached).removed_mono (hremoved chatJid)
    calls := fun c call hcall => (h.calls c call hcall).bump rfl rfl rfl rfl }
  unfold TimelineHook.setPosts
  dsimp only
  split
  · rename_i posts hedited
    split_ifs with hview
    · have hmain : s.ofMain = true := by
        by_contra hother
        rw [htagged (by simpa using hother)] at hview
        cases hview
      exact hshown.cacheSnapshot (hshown.shown hmain posts hedited)
    · exact hshown
  · exact hshown

/-- A refresh, its retry and a page of older posts start from posts of the main view or from posts
that are verified through no id; and edits are safe, or in the view of a hashtag. -/
def SafeStep (s : TimelineHook) : TimelineHookEvent → Prop
  | .refreshTimeline => Joinable s
  | .loadMore _ => Joinable s
  | .answer c _ => RetriesJoinable s c
  | .setPosts edit =>
    (s.ofMain = true → EditSafe s edit) ∧ (s.ofMain = false → s.mainView = false)
  | _ => True

def SafeRun : TimelineHook → List TimelineHookEvent → Prop
  | _, [] => True
  | s, event :: events => SafeStep s event ∧ SafeRun (s.step event) events

theorem Sound.step (h : Sound s) {event : TimelineHookEvent} (hsafe : SafeStep s event) :
    Sound (s.step event) := by
  cases event with
  | loadPosts hashtag => exact h.loadPosts hashtag
  | refreshTimeline => exact h.refreshTimeline hsafe false
  | loadMore allowRepeat => exact h.loadMore hsafe allowRepeat
  | answer c tagged => exact h.answer c tagged hsafe
  | fail c => exact h.fail c
  | switchChat chatJid => exact h.switchChat chatJid
  | switchView main => exact h.setRequests h.calls
  | setPosts edit => exact h.setPosts hsafe.1 hsafe.2
  | clearPosts => exact h.clearPosts
  | serverAdd chatJid id => exact h.serverAdd chatJid id
  | forget chatJid =>
    refine { h with
      cached := fun other snapshot hcached => ?_
      calls := fun c call hcall => ?_ }
    · simp only [TimelineHook.step] at hcached
      by_cases hsame : other = chatJid
      · subst other
        rw [Function.update_self] at hcached
        cases hcached
      · rw [Function.update_of_ne hsame] at hcached
        exact h.cached other snapshot hcached
    · exact (h.calls c call hcall).of_same rfl rfl rfl rfl rfl rfl rfl

/-- By induction on the run. -/
theorem Sound.run {events : List TimelineHookEvent} :
    ∀ {s : TimelineHook}, Sound s → SafeRun s events → Sound (s.run events) := by
  induction events with
  | nil => exact fun h _ => h
  | cons event events ih => exact fun h hsafe => ih (h.step hsafe.1) hsafe.2

/-- Rows from the oldest shown one up to `through` are shown or were removed by an edit, and older
rows of the server are announced. -/
def NoHiddenGap (server removed posts : List ℕ) (hasMore : Bool) (through : ℕ) : Prop :=
  (∀ id ∈ server, (∃ shown ∈ posts, shown ≤ id) → id ≤ through → id ∈ posts ∨ id ∈ removed) ∧
    ∀ id ∈ server, posts ≠ [] → (∀ shown ∈ posts, id < shown) → hasMore = true

theorem Tidy.noHiddenGap {server removed posts : List ℕ} {hasMore : Bool} {through : ℕ}
    (h : Tidy server removed posts hasMore through) :
    NoHiddenGap server removed posts hasMore through :=
  ⟨h.gapless, h.more⟩

/-- In every state of a safe run the main timeline and every cached snapshot have no hidden gap. -/
theorem run_noHiddenGap (chatJid : String) (events : List TimelineHookEvent)
    (hsafe : SafeRun (initial chatJid) events) :
    let s := (initial chatJid).run events
    (s.ofMain = true → ∀ posts, s.posts = some posts →
      NoHiddenGap (s.server s.chatJid) (s.removed s.chatJid) posts s.hasMore
        s.contiguousThroughId) ∧
    ∀ other snapshot, s.cache other = some snapshot →
      NoHiddenGap (s.server other) (s.removed other) snapshot.posts snapshot.hasMore
        snapshot.contiguousThroughId := by
  have h : Sound ((initial chatJid).run events) := (sound_initial chatJid).run hsafe
  exact ⟨fun hmain posts hposts => (h.shown hmain posts hposts).noHiddenGap,
    fun other snapshot hcached => (h.cached other snapshot hcached).noHiddenGap⟩

/-- Two rows are loaded, a third comes as an edit and with a refresh, and one is removed. -/
def sampleRun : List TimelineHookEvent :=
  [.serverAdd "chat" 1, .serverAdd "chat" 2, .loadPosts false, .answer 0 [], .serverAdd "chat" 3,
    .setPosts (.append 3), .refreshTimeline, .answer 1 [], .setPosts (.remove [2])]

theorem run_noHiddenGap_sample :
    NoHiddenGap [3, 2, 1] [2] [3, 1] false 3 := by
  have hsafe : SafeRun (initial "chat") sampleRun :=
    ⟨trivial, trivial, trivial, trivial, trivial,
      ⟨fun _ => ⟨.inl (by decide), fun hnil => absurd hnil (by decide)⟩, fun hmain => nomatch hmain⟩,
      .inl rfl, fun _ => .inl rfl,
      ⟨fun _ => .inr (.inr ⟨1, by decide, by decide⟩), fun hmain => nomatch hmain⟩, trivial⟩
  exact (run_noHiddenGap "chat" sampleRun hsafe).1 rfl [3, 1] (by decide)

/-- An edit that comes before the first page makes the hook drop the page. -/
theorem page_dropped :
    let s := (initial "chat").run [.serverAdd "chat" 1, .serverAdd "chat" 2, .loadPosts false,
      .serverAdd "chat" 3, .setPosts (.append 3), .answer 0 []]
    s.mainView = true ∧ s.ofMain = true ∧ s.posts = some [3] ∧
      ¬ NoHiddenGap (s.server s.chatJid) (s.removed s.chatJid) [3] s.hasMore
        s.contiguousThroughId := by
  refine ⟨by decide, by decide, by decide, fun hgap => ?_⟩
  have hmore := hgap.2 1 (by decide) (by decide) (by decide)
  revert hmore
  decide

end TimelineHook
end Piclaw
