import Piclaw.OrderedMap
import Piclaw.Transactions

/-!
# The tab store

Open tabs by id, the active id and the recency list, which every operation updates separately. A
tab is an object: its number tells it apart from every other tab ever opened, whatever its id is
changed to.
-/

namespace Piclaw.Tabs

structure TabViewState where
  cursorLine : Option ℤ
  cursorCol : Option ℤ
  scrollTop : Option ℚ
deriving DecidableEq

structure TabState where
  /-- The identity of the object. -/
  object : ℕ
  id : String
  label : String
  path : String
  dirty : Bool
  pinned : Bool
  viewState : Option TabViewState
deriving DecidableEq

structure TabStore where
  tabs : OrderedMap String TabState
  activeId : Option String
  mruOrder : List String
  /-- The number of the next object. -/
  nextObject : ℕ

def empty : TabStore := ⟨OrderedMap.empty, none, [], 0⟩

/-- `label || path.split('/').pop() || path` -/
def tabLabel (path : String) (label : Option String) : String :=
  let last := String.ofList (path.toList.reverse.takeWhile (fun ch => ch ≠ '/')).reverse
  if label.getD "" ≠ "" then label.getD "" else if last ≠ "" then last else path

/-- `id || null` of an element that may be missing. -/
def idOrNull (id : Option String) : Option String := if id.getD "" ≠ "" then id else none

def activate (s : TabStore) (id : String) : TabStore :=
  if (s.tabs.get id).isNone then s
  else { s with activeId := some id, mruOrder := id :: s.mruOrder.filter (fun x => x ≠ id) }

def «open» (s : TabStore) (path : String) (label : Option String) : TabStore :=
  let s :=
    match s.tabs.get path with
    | some _ => s
    | none =>
      { s with
        tabs := s.tabs.set path
          ⟨s.nextObject, path, tabLabel path label, path, false, false, none⟩
        nextObject := s.nextObject + 1 }
  activate s path

def remove (s : TabStore) (id : String) : TabStore :=
  { s with tabs := s.tabs.delete id, mruOrder := s.mruOrder.filter (fun x => x ≠ id) }

def close (s : TabStore) (id : String) : TabStore :=
  match s.tabs.get id with
  | none => s
  | some _ =>
    let s := remove s id
    if s.activeId = some id then { s with activeId := idOrNull s.mruOrder.head? } else s

/-- The loop of `closeOthers` and `closeAll` over the tabs. -/
def removeUnless (keeps : String → TabState → Bool) (s : TabStore) : TabStore :=
  s.tabs.entries.foldl (fun s e => if keeps e.1 e.2 then s else remove s e.1) s

/-- `this.activeId && !this.tabs.has(this.activeId)` -/
def activeGone (s : TabStore) : Bool :=
  (idOrNull s.activeId).any (fun id => (s.tabs.get id).isNone)

def closeOthers (s : TabStore) (keepId : String) : TabStore :=
  let s := removeUnless (fun id tab => id = keepId || tab.pinned) s
  if activeGone s then { s with activeId := some keepId } else s

def closeAll (s : TabStore) : TabStore :=
  let s := removeUnless (fun _ tab => tab.pinned) s
  if activeGone s then { s with activeId := idOrNull s.mruOrder.head? } else s

/-- An assignment to fields of the tab `id`. -/
def update (s : TabStore) (id : String) (f : TabState → TabState) : TabStore :=
  { s with tabs := s.tabs.mapValues (fun k tab => if k = id then f tab else tab) }

def setDirty (s : TabStore) (id : String) (dirty : Bool) : TabStore :=
  update s id (fun tab => { tab with dirty := dirty })

def togglePin (s : TabStore) (id : String) : TabStore :=
  update s id (fun tab => { tab with pinned := !tab.pinned })

def saveViewState (s : TabStore) (id : String) (viewState : TabViewState) : TabStore :=
  update s id (fun tab => { tab with viewState := some viewState })

def rename (s : TabStore) (oldId newPath : String) (newLabel : Option String) : TabStore :=
  match s.tabs.get oldId with
  | none => s
  | some tab =>
    let tab := { tab with id := newPath, path := newPath, label := tabLabel newPath newLabel }
    { s with
      tabs := (s.tabs.delete oldId).set newPath tab
      mruOrder := s.mruOrder.map (fun x => if x = oldId then newPath else x)
      activeId := if s.activeId = some oldId then some newPath else s.activeId }

def getTabs (s : TabStore) : List TabState := s.tabs.entries.map Prod.snd

/-- `tabs.findIndex(t => t.id === this.activeId)`, which is -1 where there is none. -/
def activeIndex (s : TabStore) : ℤ :=
  match (getTabs s).findIdx? (fun tab => some tab.id = s.activeId) with
  | some i => i
  | none => -1

def activateIndex (s : TabStore) (i : ℤ) : TabStore :=
  match (getTabs s)[i.toNat]? with
  | some tab => activate s tab.id
  | none => s

def nextTab (s : TabStore) : TabStore :=
  if s.tabs.entries.length ≤ 1 then s
  else activateIndex s ((activeIndex s + 1).tmod s.tabs.entries.length)

def prevTab (s : TabStore) : TabStore :=
  if s.tabs.entries.length ≤ 1 then s
  else activateIndex s
    ((activeIndex s - 1 + s.tabs.entries.length).tmod s.tabs.entries.length)

def mruSwitch (s : TabStore) : TabStore :=
  match s.mruOrder[1]? with
  | some id => activate s id
  | none => s

inductive Call
  | open (path : String) (label : Option String)
  | activate (id : String)
  | close (id : String)
  | closeOthers (keepId : String)
  | closeAll
  | setDirty (id : String) (dirty : Bool)
  | togglePin (id : String)
  | saveViewState (id : String) (viewState : TabViewState)
  | rename (oldId newPath : String) (newLabel : Option String)
  | nextTab
  | prevTab
  | mruSwitch
deriving DecidableEq

def step (s : TabStore) : Call → TabStore
  | .open path label => «open» s path label
  | .activate id => activate s id
  | .close id => close s id
  | .closeOthers keepId => closeOthers s keepId
  | .closeAll => closeAll s
  | .setDirty id dirty => setDirty s id dirty
  | .togglePin id => togglePin s id
  | .saveViewState id viewState => saveViewState s id viewState
  | .rename oldId newPath newLabel => rename s oldId newPath newLabel
  | .nextTab => nextTab s
  | .prevTab => prevTab s
  | .mruSwitch => mruSwitch s

def Call.ids : Call → List String
  | .open path _ => [path]
  | .activate id => [id]
  | .close id => [id]
  | .closeOthers keepId => [keepId]
  | .setDirty id _ => [id]
  | .togglePin id => [id]
  | .saveViewState id _ => [id]
  | .rename oldId newPath _ => [oldId, newPath]
  | _ => []

/-- The views of the open tabs agree. -/
structure Consistent (s : TabStore) : Prop where
  keyed : ∀ id tab, s.tabs.get id = some tab → tab.id = id
  mru_nodup : s.mruOrder.Nodup
  mru_open : ∀ id, id ∈ s.mruOrder ↔ (s.tabs.get id).isSome
  active_first : ∀ id, s.activeId = some id → s.mruOrder.head? = some id
  active_open : ∀ id, s.activeId = some id → (s.tabs.get id).isSome
  null_only : s.activeId = none → ∀ id, s.tabs.get id = none

def Gone (s : TabStore) (tab : TabState) : Prop :=
  ∀ id tab', s.tabs.get id = some tab' → tab'.object ≠ tab.object

/-- A tab that disappears in the call was closed by it. -/
def OnlyCloses (s : TabStore) (call : Call) : Prop :=
  ∀ id tab, s.tabs.get id = some tab → Gone (step s call) tab →
    call = .close id ∨
      tab.pinned = false ∧ ((∃ keepId, call = .closeOthers keepId) ∨ call = .closeAll)

/-- `closeOthers(keepId)` leaves the tab `id` open. -/
def keptBy (s : TabStore) (keepId id : String) : Bool :=
  (s.tabs.get id).any (fun tab => id = keepId || tab.pinned)

/-- A renamed tab does not take the path of another open tab; `closeOthers` leaves the active tab
open, or is called with an open tab than which no pinned tab was used more recently. -/
def Meets (s : TabStore) : Call → Prop
  | .rename oldId newPath _ =>
    s.tabs.get oldId = none ∨ newPath = oldId ∨ s.tabs.get newPath = none
  | .closeOthers keepId =>
    (∀ id, s.activeId = some id → keptBy s keepId id = true) ∨
      s.mruOrder.find? (keptBy s keepId) = some keepId
  | _ => True

end Piclaw.Tabs
