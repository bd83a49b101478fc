import Piclaw.BranchHandles

/-!
# The timeline of the browser

The hook that shows the posts of a chat: it loads a page, joins fresh pages with what it shows or
has cached, loads older pages and takes edits in real time, while requests are answered at any
later time. `contiguousThroughId` is the newest id up to which what is shown has no gap.
-/

namespace Piclaw

/-- A post is its id here: nothing below depends on the rest of it. -/
structure TimelinePage where
  posts : List ℕ
  hasMore : Bool
  deriving DecidableEq

structure TimelineSnapshot where
  posts : List ℕ
  hasMore : Bool
  contiguousThroughId : ℕ
  deriving DecidableEq

/-- What a request remembers of the hook at its start; `cacheable` says that its closure belongs
to the main view. -/
structure RequestStamp where
  token : ℕ
  mutationVersion : ℕ
  requestId : ℕ
  chatJid : String
  cacheable : Bool
  deriving DecidableEq

/-- `fetchContiguousTimeline` between two pages. -/
structure CatchUp where
  stamp : RequestStamp
  background : Bool
  retried : Bool
  currentPosts : List ℕ
  latestCached : ℕ
  fresh : List ℕ
  before : Option ℕ
  page : ℕ
  deriving DecidableEq

inductive TimelineRequestCall
  | hashtag (stamp : RequestStamp)
  | load (stamp : RequestStamp)
  | catchUp (call : CatchUp)
  | more (stamp : RequestStamp) (oldest : ℕ)
  deriving DecidableEq

/-- An edit in real time of the posts shown. -/
inductive TimelineEdit
  | append (id : ℕ)
  | replace (id : ℕ)
  | remove (ids : List ℕ)
  deriving DecidableEq

/-- `server` has the rows of each chat, newest first. `removed` and `ofMain` are histories: the rows
that edits removed, and whether the posts were those of the main view. -/
structure TimelineHook where
  server : String → List ℕ
  removed : String → List ℕ
  cache : String → Option TimelineSnapshot
  chatJid : String
  mainView : Bool
  posts : Option (List ℕ)
  hasMore : Bool
  contiguousThroughId : ℕ
  chatToken : ℕ
  mutationVersion : ℕ
  refreshRequest : ℕ
  loadingMore : Bool
  lastBeforeId : Option ℕ
  ofMain : Bool
  nextCall : ℕ
  pending : ℕ → Option TimelineRequestCall

namespace TimelineHook

def initial (chatJid : String) : TimelineHook where
  server _ := []
  removed _ := []
  cache _ := none
  chatJid := chatJid
  mainView := true
  posts := none
  hasMore := false
  contiguousThroughId := 0
  chatToken := 1
  mutationVersion := 0
  refreshRequest := 1
  loadingMore := false
  lastBeforeId := none
  ofMain := true
  nextCall := 0
  pending _ := none

def dedupePosts (posts : List ℕ) : List ℕ :=
  posts.eraseDups

def maxId (posts : List ℕ) : ℕ :=
  posts.foldr max 0

/-- The newest rows below `before`, at most the limit, and whether there are older ones. -/
def getTimeline (server : List ℕ) (limit : ℕ) (before : Option ℕ) : TimelinePage :=
  let rows := server.filter fun id => before.all fun bound => decide (id < bound)
  ⟨rows.take limit, decide (limit < rows.length)⟩

/-- The id at which fresh pages join: without a verified one, that of the oldest post. -/
def latestCached (currentPosts : List ℕ) (contiguousThroughId : ℕ) : ℕ :=
  if 0 < contiguousThroughId then contiguousThroughId
  else ((currentPosts.filter fun id => decide (0 < id)).min?).getD 0

/-- Whether the page with these rows joins what was shown. -/
def joins (latestCached : ℕ) (rows : List ℕ) : Bool :=
  decide (latestCached = 0) || rows.min?.any fun oldest => decide (oldest ≤ latestCached)

/-- The posts after the last page. -/
def joinedPosts (fresh currentPosts : List ℕ) (joined : Bool) : List ℕ :=
  match fresh.min? with
  | some minFresh =>
    if joined then dedupePosts (fresh ++ currentPosts.filter fun id => decide (id < minFresh))
    else fresh
  | none => fresh

section Operations
variable (s : TimelineHook)

def stamp : RequestStamp :=
  ⟨s.chatToken, s.mutationVersion, s.refreshRequest, s.chatJid, s.mainView⟩

def addCall (call : TimelineRequestCall) : TimelineHook :=
  { s with nextCall := s.nextCall + 1, pending := Function.update s.pending s.nextCall (some call) }

def dropCall (call : ℕ) : TimelineHook :=
  { s with pending := Function.update s.pending call none }

def sameChat (stamp : RequestStamp) : Bool :=
  decide (stamp.token = s.chatToken)

/-- `isTimelineRequestCurrent`. -/
def isCurrent (stamp : RequestStamp) : Bool :=
  decide (stamp.requestId = s.refreshRequest) &&
    decide (stamp.mutationVersion = s.mutationVersion) && s.sameChat stamp

def cacheSnapshot (chatJid : String) (snapshot : TimelineSnapshot) : TimelineHook :=
  { s with cache := Function.update s.cache chatJid (some snapshot) }

/-- `setTimelineState`, with the new `contiguousThroughId` set before. -/
def setTimelineState (stamp : RequestStamp) (posts : List ℕ) (hasMore : Bool) (through : ℕ) :
    TimelineHook :=
  let shown : TimelineHook := { s with
    contiguousThroughId := through
    mutationVersion := s.mutationVersion + 1
    posts := some posts
    hasMore := hasMore
    ofMain := true }
  if stamp.cacheable then shown.cacheSnapshot stamp.chatJid ⟨posts, hasMore, through⟩ else shown

/-- The first request of `fetchContiguousTimeline`. -/
def startCatchUp (background retried : Bool) : TimelineHook :=
  s.addCall (.catchUp ⟨s.stamp, background, retried, s.posts.getD [],
    latestCached (s.posts.getD []) s.contiguousThroughId, [], none, 0⟩)

def loadPosts (hashtag : Bool) : TimelineHook :=
  let started : TimelineHook := { s with refreshRequest := s.refreshRequest + 1 }
  if hashtag then started.addCall (.hashtag started.stamp)
  else match s.cache s.chatJid with
    | some cached =>
      (started.setTimelineState started.stamp cached.posts cached.hasMore
        cached.contiguousThroughId).startCatchUp true false
    | none => started.addCall (.load started.stamp)

def refreshTimeline (retried : Bool) : TimelineHook :=
  { s with refreshRequest := s.refreshRequest + 1 }.startCatchUp false retried

def loadMore (allowRepeat : Bool) : TimelineHook :=
  match (s.posts.getD []).min? with
  | none => s
  | some oldest =>
    if s.loadingMore then s
    else if !allowRepeat && decide (s.lastBeforeId = some oldest) then s
    else { s with loadingMore := true, lastBeforeId := some oldest }.addCall (.more s.stamp oldest)

/-- A page of `fetchContiguousTimeline` has come. -/
def catchUpPage (c : ℕ) (call : CatchUp) : TimelineHook :=
  let result := getTimeline (s.server call.stamp.chatJid) 50 call.before
  if !(s.isCurrent call.stamp && (!call.background || s.mainView)) then
    if !call.background && !call.retried && s.sameChat call.stamp &&
        decide (call.stamp.requestId = s.refreshRequest) && s.mainView then
      (s.dropCall c).refreshTimeline true
    else s.dropCall c
  else
    let fresh := dedupePosts (call.fresh ++ result.posts)
    let joined := joins call.latestCached result.posts
    if joined || !result.hasMore || decide (result.posts = []) ||
        decide (call.before = result.posts.min?) || decide (9 ≤ call.page) then
      let posts := joinedPosts fresh call.currentPosts joined
      (s.dropCall c).setTimelineState call.stamp posts result.hasMore (maxId posts)
    else { s with pending := Function.update s.pending c (some (.catchUp
      { call with fresh := fresh, before := result.posts.min?, page := call.page + 1 })) }

/-- The request is answered; `tagged` says which posts have the hashtag. -/
def answer (c : ℕ) (tagged : List ℕ) : TimelineHook :=
  match s.pending c with
  | none => s
  | some (.hashtag stamp) =>
    if s.isCurrent stamp then
      { s.dropCall c with
        mutationVersion := s.mutationVersion + 1
        posts := some (tagged.filter fun id => decide (id ∈ s.server stamp.chatJid))
        hasMore := false
        ofMain := false }
    else s.dropCall c
  | some (.load stamp) =>
    if s.isCurrent stamp then
      let result := getTimeline (s.server stamp.chatJid) 50 none
      (s.dropCall c).setTimelineState stamp result.posts result.hasMore (maxId result.posts)
    else s.dropCall c
  | some (.catchUp call) => s.catchUpPage c call
  | some (.more stamp oldest) =>
    if !s.sameChat stamp then s.dropCall c
    else if stamp.mutationVersion ≠ s.mutationVersion then
      { s.dropCall c with lastBeforeId := none, loadingMore := false }
    else
      let result := getTimeline (s.server stamp.chatJid) 10 (some oldest)
      let done : TimelineHook := { s.dropCall c with loadingMore := false }
      if result.posts = [] then
        done.setTimelineState stamp (s.posts.getD []) false s.contiguousThroughId
      else done.setTimelineState stamp (dedupePosts (result.posts ++ s.posts.getD []))
        result.hasMore s.contiguousThroughId

def fail (c : ℕ) : TimelineHook :=
  match s.pending c with
  | some (.more stamp _) =>
    if s.sameChat stamp then { s.dropCall c with lastBeforeId := none, loadingMore := false }
    else s.dropCall c
  | _ => s.dropCall c

def switchChat (chatJid : String) : TimelineHook :=
  { s with
    chatJid := chatJid
    chatToken := s.chatToken + 1
    posts := none
    contiguousThroughId := 0
    lastBeforeId := none
    loadingMore := false
    hasMore := false
    mutationVersion := 0
    refreshRequest := s.refreshRequest + 1
    ofMain := true }

/-- What an edit makes of the posts. Only a row of the server is appended. -/
def edited (edit : TimelineEdit) : Option (List ℕ) :=
  match edit with
  | .append id =>
    if id ∈ s.server s.chatJid then some (dedupePosts (s.posts.getD [] ++ [id])) else s.posts
  | .replace _ => s.posts
  | .remove ids => s.posts.map fun posts => posts.filter fun id => decide (id ∉ ids)

/-- `setPosts` with a function. -/
def setPosts (edit : TimelineEdit) : TimelineHook :=
  let shown : TimelineHook := { s with
    mutationVersion := s.mutationVersion + 1
    posts := s.edited edit
    removed := match edit with
      | .remove ids => Function.update s.removed s.chatJid (s.removed s.chatJid ++ ids)
      | _ => s.removed }
  match s.edited edit with
  | some posts =>
    if s.mainView then
      shown.cacheSnapshot s.chatJid ⟨posts, s.hasMore, s.contiguousThroughId⟩
    else shown
  | none => shown

/-- `setPosts(null)`, with which a view is left. -/
def clearPosts : TimelineHook :=
  { s with
    mutationVersion := s.mutationVersion + 1
    contiguousThroughId := 0
    posts := none
    ofMain := true }

/-- The server adds a row, newer than all of the chat. -/
def serverAdd (chatJid : String) (id : ℕ) : TimelineHook :=
  if maxId (s.server chatJid) < id then
    { s with server := Function.update s.server chatJid (id :: s.server chatJid) }
  else s

end Operations

inductive TimelineHookEvent
  | loadPosts (hashtag : Bool)
  | refreshTimeline
  | loadMore (allowRepeat : Bool)
  | answer (c : ℕ) (tagged : List ℕ)
  | fail (c : ℕ)
  | switchChat (chatJid : String)
  | switchView (main : Bool)
  | setPosts (edit : TimelineEdit)
  | clearPosts
  | serverAdd (chatJid : String) (id : ℕ)
  | forget (chatJid : String)

def step (s : TimelineHook) : TimelineHookEvent → TimelineHook
  | .loadPosts hashtag => s.loadPosts hashtag
  | .refreshTimeline => s.refreshTimeline false
  | .loadMore allowRepeat => s.loadMore allowRepeat
  | .answer c tagged => s.answer c tagged
  | .fail c => s.fail c
  | .switchChat chatJid => s.switchChat chatJid
  | .switchView main => { s with mainView := main }
  | .setPosts edit => s.setPosts edit
  | .clearPosts => s.clearPosts
  | .serverAdd chatJid id => s.serverAdd chatJid id
  | .forget chatJid => { s with cache := Function.update s.cache chatJid none }

def run (s : TimelineHook) (events : List TimelineHookEvent) : TimelineHook :=
  events.foldl step s

end TimelineHook
end Piclaw
