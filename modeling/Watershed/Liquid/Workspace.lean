/-
  The Workspace and its mutation pipeline: permission check, validation, atomic apply,
  recorded Action, changed resources (`workspace.rs`).

  A method with `&mut self` is a `Fallible` computation over the Workspace: an error keeps
  what was written before it. The state also carries the position in the random source,
  which the source draws from without naming it.
-/
import Mathlib.Logic.Function.Basic
import Watershed.Liquid.Order
import Watershed.Liquid.Database
import Watershed.Liquid.Store

namespace Watershed.Liquid

open Fallible (change fail lift okOr)

/-- What the core takes from outside the repository: the CRDT library, the system's random
    source and Rust's Unicode lowercase mapping. -/
structure Platform where
  automerge : Automerge
  random : Random
  toLowercase : String → String

/-- A document is stored again as one snapshot once it has this many chunks. -/
def compactAfter : Nat := 1000

/-- A document in memory with what is kept beside it: how many chunks the store holds for
    it, a Page's View order and its Database Blocks' rows, each read once it is first
    needed. -/
structure Loaded (A : Automerge) where
  doc : A.AutoCommit
  chunks : Nat
  order : Option Order
  databases : BlockId → Option Index

/-- What the document shows. -/
abbrev Loaded.state {A : Automerge} (l : Loaded A) : State := A.state l.doc

/-- One person's Workspace on this device. -/
structure Workspace (P : Platform) (S : Store P.automerge) where
  store : S.State
  device : RandomBytes
  owner : PersonId
  docs : Document → Option (Loaded P.automerge)
  drawn : Nat

/-- What a mutation wrote before its changes are committed. -/
structure Written (A : Automerge) where
  created : Option Created
  changed : List Changed
  touched : List Document
  new : List (Document × A.AutoCommit)

def Written.of (A : Automerge) (touched : Document) (changed : Changed) : Written A :=
  ⟨none, [changed], [touched], []⟩

/-! ## Page mutations -/

section
variable {A : Automerge} {κ : Type} (random : Random)

/-- A live Text Block's entry; none for a Block of another type. -/
def textBlock (s : State) (block : BlockId) : Option Path :=
  (live s "blocks" block.asStr).filter fun entry => string s entry "kind" = some "text"

/-- A live Text Block's text object; none for a Block of another kind. -/
def textOf (s : State) (block : BlockId) : Except Error Path :=
  match textBlock s block with
  | none => .error .notFound
  | some entry =>
    match child s entry "text" with
    | none => .error .notFound
    | some content => .ok content

/-- Adds a View of `block` after `after` or first. -/
def addView (after : Option ViewId) (block : BlockId) (kind : BlockKind) : DocM A Order ViewId := do
  let sort ← lift ((← Fallible.read Ctx.cache).keyAfter after)
  let view : ViewId ← newId random
  let _ ← insert "views" view.asStr [("block", block.asStr), ("sort", sort)]
  let entry ← okOr (live (← state) "views" view.asStr) .notFound
  put entry "boundary" (.bool false)
  change fun c => { c with cache := c.cache.insert sort ⟨view, block, false, kind⟩ }
  return view

/-- Adds a Text Block of `style` holding `text`, with its View after `after` or first. -/
def addTextBlock (after : Option ViewId) (text : String) (style : TextStyle) :
    DocM A Order (BlockId × ViewId) := do
  let style ← lift (styleName style)
  let block : BlockId ← newId random
  let entry ← insert "blocks" block.asStr [("kind", "text"), ("style", style)]
  let content ← putObject entry "text" .text
  spliceText content 0 0 text
  let view ← addView random after block .text
  return (block, view)

/-- Sets a View's boundary in the document and in the order. -/
def putBoundary (view : ViewId) (boundary : Bool) : DocM A Order Unit := do
  let entry ← okOr (live (← state) "views" view.asStr) .notFound
  put entry "boundary" (.bool boundary)
  change fun c => { c with cache := c.cache.setBoundary view boundary }

/-- Moves a Section boundary from the View `from_` to the View `to_`. -/
def moveBoundary (from_ to_ : ViewId) : DocM A Order Unit := do
  putBoundary from_ false
  putBoundary to_ true

/-- The characters of `text` from the UTF-16 offset `at_` on: the source cuts at the first
    character that starts there or later. -/
def tailFrom : List Char → Nat → List Char
  | cs, 0 => cs
  | [], _ + 1 => []
  | c :: cs, at_ + 1 => tailFrom cs (at_ + 1 - lenUtf16 c)

def splitTextBlock (block : BlockId) (view : ViewId) (at_ : Nat) (style : TextStyle) :
    DocM A Order (BlockId × ViewId) := do
  let order ← Fallible.read Ctx.cache
  if (order.view view).all fun shown => shown.block ≠ block then fail .notFound
  else
    let s ← state
    let content ← lift (textOf s block)
    if !onBoundary s content at_ then fail .outOfRange
    else
      let text ← okOr (chars s content) (.document (A.misread content))
      let tail := String.ofList (tailFrom text at_)
      if at_ = 0 then
        let above := (order.above view).map View.id
        let startsSection := (order.view view).any View.boundary
        let added ← addTextBlock random above "" style
        -- A Section that started here now starts at the new Text Block above.
        if startsSection then moveBoundary view added.2
        return added
      else
        let length := length s content - at_
        if 2 ^ 63 ≤ length then fail .outOfRange
        else
          spliceText content at_ length ""
          addTextBlock random (some view) tail style

/-- Joins the Text Block that `view` shows to the one above. Returns the Block above, and the
    joined Block if it goes with its last View. -/
def joinTextBlock (view : ViewId) : DocM A Order (BlockId × Option BlockId) := do
  let order ← Fallible.read Ctx.cache
  let joining ← okOr (order.view view) .notFound
  if joining.boundary then fail .sectionBoundary
  else
    let above ← okOr (order.above view) .notFound
    let s ← state
    let text ← okOr (text s joining.block.asStr) .notFound
    let target ← lift (textOf s above.block)
    spliceText target (length s target) 0 text
    let entry ← okOr (live (← state) "views" view.asStr) .notFound
    markDeleted entry
    let gone := !order.shows joining.block view
    if gone then
      match live (← state) "blocks" joining.block.asStr with
      | some entry => markDeleted entry
      | none => pure ()
    change fun c => { c with cache := c.cache.remove view }
    return (above.block, if gone then some joining.block else none)

def setTextStyle (block : BlockId) (name : String) : DocM A κ Unit := do
  let entry ← okOr (textBlock (← state) block) .notFound
  put entry "style" (.str name)

def editText (block : BlockId) (at_ delete : Nat) (insert : String) : DocM A κ Unit := do
  let s ← state
  let content ← lift (textOf s block)
  -- `at.checked_add(delete)` and `isize::try_from(delete)`
  if 2 ^ 64 ≤ at_ + delete then fail .outOfRange
  else if !onBoundary s content at_ || !onBoundary s content (at_ + delete) then
    fail .outOfRange
  else if 2 ^ 63 ≤ delete then fail .outOfRange
  else spliceText content at_ delete insert

def addDatabaseBlock (after : Option ViewId) (name : String) :
    DocM A Order (BlockId × ViewId) := do
  let block : BlockId ← newId random
  Database.create random block name
  let view ← addView random after block .database
  return (block, view)

/-- Removes a View. Returns its Block if no other View shows it, so that it went too. -/
def removeView (view : ViewId) : DocM A Order (Option BlockId) := do
  let s ← state
  let entry ← okOr (live s "views" view.asStr) .notFound
  let block : BlockId := .stored (← okOr (string s entry "block") .notFound)
  markDeleted entry
  let gone := !(← Fallible.read Ctx.cache).shows block view
  if gone then
    match live (← state) "blocks" block.asStr with
    | some entry => markDeleted entry
    | none => pure ()
  change fun c => { c with cache := c.cache.remove view }
  return if gone then some block else none

/-! ## Area mutations -/

/-- Adds an area after the existing ones to the Workspace document. -/
def addArea (id : AreaId) (name : String) : DocM A κ Unit := do
  let siblings := sorted (← state) "areas"
  let sort ← lift (sortAfter siblings (siblings.getLast?.map Entry.id))
  let _ ← insert "areas" id.asStr [("name", name), ("sort", sort)]
  return ()

/-- Adds a Page after its siblings to an area's document. -/
def addPage (parent : Option PageId) (title : String) : DocM A κ PageId := do
  let s ← state
  if parent.any fun parent => (live s "pages" parent.asStr).isNone then fail .notFound
  else
    let siblings := (sorted s "pages").filter fun entry =>
      entry.get "parent" = parent.map Id.asStr
    let sort ← lift (sortAfter siblings (siblings.getLast?.map Entry.id))
    let id ← newId random
    let _ ← insert "pages" id.asStr ([("title", title), ("sort", sort)] ++
      (parent.map fun parent => ("parent", parent.asStr)).toList)
    return id

/-- Changes a Page's title if this area's document holds the Page. -/
def renamePageHere (page : PageId) (title : String) : DocM A κ Bool := do
  match live (← state) "pages" page.asStr with
  | some entry => do
    put entry "title" (.str title)
    return true
  | none => return false

end

/-! ## The Workspace -/

namespace Workspace

variable {P : Platform} {S : Store P.automerge} {α : Type}

abbrev M (P : Platform) (S : Store P.automerge) (α : Type) := Fallible Error (Workspace P S) α

variable (ws : Workspace P S) (document : Document)

def setDoc (loaded : Option (Loaded P.automerge)) : Workspace P S :=
  { ws with docs := Function.update ws.docs document loaded }

/-- A document, loaded from the store on first use. -/
def load : M P S (Loaded P.automerge) := fun ws =>
  match ws.docs document with
  | some loaded => (.ok loaded, ws)
  | none =>
    match S.chunks ws.store document with
    | .error e => (.error e, ws)
    | .ok chunks =>
      if chunks = [] then (.error .notFound, ws)
      else
        match P.automerge.load chunks.flatten ws.device with
        | .error e => (.error (.document e), ws)
        | .ok doc =>
          let loaded := ⟨doc, chunks.length, none, fun _ => none⟩
          (.ok loaded, ws.setDoc document (some loaded))

/-- What a document shows. -/
def doc : M P S State := do
  return P.automerge.state (← load document).doc

/-- Runs a mutation on a loaded document and what is kept beside it. -/
def onLoaded {κ : Type} (document : Document) (loaded : Loaded P.automerge) (cache : κ)
    (keep : κ → Loaded P.automerge → Loaded P.automerge) (body : DocM P.automerge κ α) :
    M P S α := fun ws =>
  let r := body ⟨loaded.doc, cache, ws.drawn⟩
  (r.1, { ws.setDoc document (some (keep r.2.cache { loaded with doc := r.2.doc })) with
    drawn := r.2.drawn })

/-- Runs a mutation on a document. -/
def onDoc (body : DocM P.automerge Unit α) : M P S α := do
  onLoaded document (← load document) () (fun _ loaded => loaded) body

/-- Runs a mutation on a Page document with its View order. -/
def onPage (page : PageId) (body : DocM P.automerge Order α) : M P S α := do
  let loaded ← load (.page page)
  let order := loaded.order.getD (Order.read loaded.state)
  onLoaded (.page page) loaded order (fun order loaded => { loaded with order := some order }) body

/-- Runs a mutation on a Page document with the row index of one of its Database Blocks. -/
def onDatabase (page : PageId) (block : BlockId) (body : DocM P.automerge Index α) : M P S α := do
  let loaded ← load (.page page)
  let index ← match loaded.databases block with
    | some index => pure index
    | none => lift (Index.read loaded.state block)
  onLoaded (.page page) loaded index (fun index loaded =>
      { loaded with databases := Function.update loaded.databases block (some index) })
    body

def randomBytes : M P S RandomBytes := fun ws =>
  match P.random ws.drawn with
  | some bytes => (.ok bytes, { ws with drawn := ws.drawn + 1 })
  | none => (.error .random, { ws with drawn := ws.drawn + 1 })

def newId {ι : IdKind} : M P S (Id ι) := do
  return ⟨hex (← randomBytes)⟩

def permit (actor : Actor) : M P S Permission := fun ws =>
  match actor with
  | .person person => (if person = ws.owner then .ok .owner else .error .notAllowed, ws)

/-- A new document with its empty top-level maps. -/
def newDocument (maps : List String) : M P S P.automerge.AutoCommit := fun ws =>
  let r := createMaps maps (⟨P.automerge.new ws.device, (), 0⟩ : Ctx P.automerge Unit)
  (r.1.map fun _ => r.2.doc, ws)

/-- Looks for the Page in one area after the other. -/
def renamePage (page : PageId) (title : String) : List Area → M P S (Written P.automerge)
  | [] => fail .notFound
  | area :: areas => do
    if ← onDoc (.area area.id) (renamePageHere page title) then
      return .of _ (.area area.id) (.pages area.id)
    else renamePage page title areas

/-- What a write to a Database Block changed: only that Block. -/
def databaseChanged (page : PageId) (block : BlockId) (created : Option Created) :
    Written P.automerge :=
  { Written.of P.automerge (.page page) (.block page block) with created := created }

/-- What a write to a Page's Views changed. -/
def viewsChanged (page : PageId) (blocks : List BlockId) (created : Option (BlockId × ViewId)) :
    Written P.automerge where
  created := created.map fun c => .block c.1 c.2
  changed := .views page :: blocks.map (.block page)
  touched := [.page page]
  new := []

def write (mutation : Mutation) : M P S (Written P.automerge) :=
  match mutation with
  | .createArea name => do
    let id : AreaId ← newId
    let doc ← newDocument ["pages"]
    onDoc .workspace (addArea id name)
    return ⟨some (.area id), [.areas], [.workspace, .area id], [(.area id, doc)]⟩
  | .createPage area parent title => do
    let id ← onDoc (.area area) (addPage P.random parent title)
    let doc ← newDocument ["blocks", "views"]
    return ⟨some (.page id), [.pages area], [.area area, .page id], [(.page id, doc)]⟩
  | .renamePage page title => do
    renamePage page title (areas (← doc .workspace))
  | .addTextBlock page after text => do
    let added ← onPage page (addTextBlock P.random after text .paragraph)
    return viewsChanged page [] (some added)
  | .splitTextBlock page block view at_ style => do
    let added ← onPage page (splitTextBlock P.random block view at_ style)
    return viewsChanged page [block] (some added)
  | .joinTextBlock page view => do
    let (above, gone) ← onPage page (joinTextBlock view)
    return viewsChanged page (above :: gone.toList) none
  | .setTextStyle page block style => do
    let name ← lift (styleName style)
    onPage page (setTextStyle block name)
    return .of _ (.page page) (.block page block)
  | .setSectionBoundary page view boundary => do
    onPage page (putBoundary view boundary)
    return viewsChanged page [] none
  | .editText page block at_ delete insert => do
    onDoc (.page page) (editText block at_ delete insert)
    return .of _ (.page page) (.block page block)
  | .addDatabaseBlock page after name => do
    let added ← onPage page (addDatabaseBlock P.random after name)
    return viewsChanged page [] (some added)
  | .renameDatabase page block name => do
    onDoc (.page page) (Database.rename block name)
    return databaseChanged page block none
  | .addField page block place name kind => do
    let field ← onDoc (.page page) (Database.addField P.random block place name kind)
    return databaseChanged page block (some (.field field))
  | .renameField page block field name => do
    onDoc (.page page) (Database.renameField block field name)
    return databaseChanged page block none
  | .removeField page block field => do
    onDoc (.page page) (Database.removeField block field)
    return databaseChanged page block none
  | .addOption page block field name color => do
    let option ← onDoc (.page page) (Database.addOption P.random block field name color)
    return databaseChanged page block (some (.option option))
  | .addRow page block place => do
    let row ← onDatabase page block (Database.addRow P.random block place)
    return databaseChanged page block (some (.row row))
  | .removeRow page block row => do
    onDatabase page block (Database.removeRow block row)
    return databaseChanged page block none
  | .setCell page block row field value => do
    onDatabase page block (Database.setCell block row field value)
    return databaseChanged page block none
  | .removeView page view => do
    let gone ← onPage page (removeView view)
    return viewsChanged page gone.toList none

/-- Discards every uncommitted write. -/
def rollback : Workspace P S :=
  { ws with docs := fun d => (ws.docs d).map fun l => { l with doc := P.automerge.rollback l.doc } }

/-- Adds new documents to those in memory. -/
def addNew (new : List (Document × P.automerge.AutoCommit)) : Workspace P S :=
  new.foldl (fun ws n => ws.setDoc n.1 (some ⟨n.2, 0, none, fun _ => none⟩)) ws

/-- The loop of `record`: commits each touched document as one change and collects the
    changes and what to store. -/
def commitTouched (header : Header) : List Document → Workspace P S →
    List (Document × P.automerge.ChangeHash) × List (Write P.automerge) × Workspace P S
  | [], ws => ([], [], ws)
  | document :: touched, ws =>
    match ws.docs document with
    | none => commitTouched header touched ws
    | some loaded =>
      let (change, doc) := P.automerge.commitWith loaded.doc header
      match change with
      | none => commitTouched header touched (ws.setDoc document (some { loaded with doc := doc }))
      | some hash =>
        let (writes, chunks) :=
          if compactAfter ≤ loaded.chunks then
            ([Write.replace document (P.automerge.save doc)], 1)
          else
            match P.automerge.changeBytes doc hash with
            | some chunk => ([Write.append document chunk], loaded.chunks + 1)
            | none => ([], loaded.chunks)
        let rest := commitTouched header touched
          (ws.setDoc document (some { loaded with doc := doc, chunks := chunks }))
        ((document, hash) :: rest.1, writes ++ rest.2.1, rest.2.2)

/-- Drops documents from memory. -/
def forget (touched : List Document) : Workspace P S :=
  touched.foldl (fun ws d => ws.setDoc d none) ws

/-- Commits each touched document as one change that carries the Action's header and writes
    them with the Action to the store. If the store fails, the touched documents are dropped
    from memory. -/
def record (action : Action P.automerge.ChangeHash) (touched : List Document)
    (new : List (Document × P.automerge.AutoCommit)) : M P S Unit := fun ws =>
  let (changes, writes, ws) := commitTouched (Header.of action) touched (ws.addNew new)
  match S.commit ws.store ⟨{ action with changes := action.changes ++ changes }, writes⟩ with
  | (.ok _, store) => (.ok (), { ws with store := store })
  | (.error e, store) => (.error e, { ws with store := store }.forget touched)

/-- Runs `write`, and rolls back what it wrote if it fails. -/
def writeOrRollback (mutation : Mutation) : M P S (Written P.automerge) := fun ws =>
  match write mutation ws with
  | (.ok written, ws') => (.ok written, ws')
  | (.error e, ws') => (.error e, ws'.rollback)

/-- Whether a mutation left nothing to commit. -/
def unchanged (written : Written P.automerge) : Bool :=
  written.new.isEmpty && written.touched.all fun d =>
    (ws.docs d).all fun loaded => P.automerge.pendingOps loaded.doc = 0

/-- Applies one write through the pipeline and acknowledges it once it is durably recorded as
    one Action, or refuses it. -/
def apply (request : Request) : M P S Applied := do
  let permission ← permit request.actor
  let id ← newId
  let written ← writeOrRollback request.mutation
  if (← Fallible.read fun ws => ws.unchanged written) then fail .noChange
  else
    record ⟨id, request.actor, request.origin, permission, .mutation request.mutation, []⟩
      written.touched written.new
    return ⟨id, written.created, written.changed⟩

/-! ## Opening -/

/-- A Workspace before its documents are loaded. -/
def fresh (store : S.State) (device : RandomBytes) (owner : PersonId) (drawn : Nat) :
    Workspace P S :=
  ⟨store, device, owner, fun _ => none, drawn⟩

/-- Creates an empty Workspace in `store`, recorded as its first Action. `drawn` is how far
    the random source has been used. -/
def create (owner : PersonId) (store : S.State) (drawn : Nat) : Except Error (Workspace P S) :=
  match S.chunks store .workspace with
  | .error e => .error e
  | .ok (_ :: _) => .error (.storage "the store already holds a Workspace")
  | .ok [] =>
    match P.random drawn with
    | none => .error .random
    | some device =>
      let body : DocM P.automerge Unit Unit := do
        put [] "owner" (.str owner.asStr)
        createMaps ["areas"]
      match body ⟨P.automerge.new device, (), 0⟩ with
      | (.error e, _) => .error e
      | (.ok _, c) =>
        let m : M P S Unit := do
          let id ← newId
          record ⟨id, .person owner, .ui, .owner, .createWorkspace, []⟩ [.workspace]
            [(.workspace, c.doc)]
        match m (fresh store device owner (drawn + 1)) with
        | (.ok _, ws) => .ok ws
        | (.error e, _) => .error e

/-- Opens the Workspace that `store` holds. -/
def «open» (store : S.State) (drawn : Nat) : Except Error (Workspace P S) :=
  match P.random drawn with
  | none => .error .random
  | some device =>
    match doc .workspace (fresh store device ⟨""⟩ (drawn + 1) : Workspace P S) with
    | (.error e, _) => .error e
    | (.ok s, ws) =>
      match string s [] "owner" with
      | none => .error (.document "the Workspace document names no owner")
      | some owner => .ok { ws with owner := ⟨owner⟩ }

/-! ## Reads -/

/-- What a reader can ask. -/
inductive Read where
  | areas
  | pages (area : AreaId)
  | views (page : PageId) (start limit : Nat)
  | viewCount (page : PageId)
  | style (page : PageId) (block : BlockId)
  | text (page : PageId) (block : BlockId)
  | database (page : PageId) (block : BlockId)
  | rows (page : PageId) (block : BlockId) (query : RowQuery)
  | history (before : Option ActionId) (limit : Nat)

/-- What a reader gets. -/
inductive Answer (H : Type) where
  | areas (areas : List Area)
  | pages (pages : List PageEntry)
  | views (views : List View)
  | viewCount (count : Nat)
  | style (style : Option TextStyle)
  | text (text : Option String)
  | database (database : Option Database)
  | rows (rows : Rows)
  | history (actions : List (Action H))

/-- How a live Text Block reads. -/
def styleOf (s : State) (block : BlockId) : Option TextStyle :=
  (textBlock s block).map fun entry => Liquid.style (string s entry "style")

def read : Read → M P S (Answer P.automerge.ChangeHash)
  | .areas => do return .areas (Liquid.areas (← doc .workspace))
  | .pages area => do return .pages (Liquid.pages (← doc (.area area)))
  | .views page start limit =>
    onPage page (Fallible.read fun c => .views (c.cache.window start limit))
  | .viewCount page => onPage page (Fallible.read fun c => .viewCount c.cache.placed.length)
  | .style page block => do return .style (styleOf (← doc (.page page)) block)
  | .text page block => do return .text (Liquid.text (← doc (.page page)) block.asStr)
  | .database page block => do
    return .database (← lift (Database.read (← doc (.page page)) block))
  | .rows page block query =>
    onDatabase page block do
      let index ← Fallible.read Ctx.cache
      return .rows (← lift (Database.rows P.toLowercase (← state) index block query))
  | .history before limit => do
    let ws ← Fallible.read id
    return .history (← lift (S.history ws.store before limit))

/-- Releases a Page from memory; the next read loads it again from the store. -/
def closePage (page : PageId) : Workspace P S := ws.setDoc (.page page) none

end Workspace

end Watershed.Liquid
