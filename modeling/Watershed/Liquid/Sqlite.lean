/-
  The Workspace store in SQLite (`liquid-storage`), and that it answers as the store in memory.

  A table is a list of rows; `seq INTEGER PRIMARY KEY` numbers a new row one above the largest
  number in the table. `serde_json` writes an Action's record and reads it back, except that it
  writes a number that is not finite as `null`, which is not read back as a number.
-/
import Watershed.Lib.Rows
import Watershed.Liquid.Journal

open List

namespace Watershed.Liquid

open MemoryStore

/-! ## Keys -/

/-- The name a store files the document under. -/
def Document.key : Document → String
  | .workspace => "workspace"
  | .area id => "area/" ++ id.asStr
  | .page id => "page/" ++ id.asStr

variable (d : Document)

/-- The first character of a key tells the kind of the document. -/
theorem Document.head_key : d.key.toList.head? = some (match d with
    | .workspace => 'w' | .area _ => 'a' | .page _ => 'p') := by
  cases d <;> simp [Document.key]

/-- Different documents have different keys. -/
theorem Document.key_injective : Function.Injective Document.key := by
  intro d e h
  have hhead := d.head_key
  rw [h, e.head_key] at hhead
  cases d <;> cases e <;> simp at hhead
  · rfl
  · rw [Id.ext ((String.append_right_inj _).mp h)]
  · rw [Id.ext ((String.append_right_inj _).mp h)]

/-! ## Records -/

/-- Every number in the Action is finite. -/
def Action.isFinite {H : Type} (action : Action H) : Bool :=
  match action.operation with
  | .mutation (.setCell _ _ _ _ (.number value)) => value.isFinite
  | _ => true

/-- `serde_json` on Actions. It writes a number that is not finite as `null`, so nothing is said
    about reading such an Action. -/
structure RecordCodec (H : Type) where
  Record : Type
  toString : Action H → Record
  fromStr : Record → Except Error (Action H)
  fromStr_toString : ∀ action, action.isFinite = true → fromStr (toString action) = .ok action

/-! ## Tables -/

def i64Max : Nat := 2 ^ 63 - 1

variable {A : Automerge} {codec : RecordCodec A.ChangeHash}

variable (A) in
structure ChunkRow where
  seq : Nat
  document : String
  bytes : Bytes A

structure ActionRow (codec : RecordCodec A.ChangeHash) where
  seq : Nat
  id : String
  record : codec.Record

/-- A Workspace store in an encrypted SQLite database. -/
structure Sqlite (codec : RecordCodec A.ChangeHash) where
  chunkRows : List (ChunkRow A)
  actionRows : List (ActionRow codec)

namespace Sqlite

/-- A new database. -/
def empty : Sqlite codec := ⟨[], []⟩

/-- `INSERT INTO chunks (document, bytes) VALUES (?1, ?2)`. -/
def insertChunk (rows : List (ChunkRow A)) (document : String) (bytes : Bytes A) :
    List (ChunkRow A) :=
  rows ++ [⟨Rows.next ChunkRow.seq rows, document, bytes⟩]

/-- One write of a transaction. -/
def write (rows : List (ChunkRow A)) : Write A → List (ChunkRow A)
  | .append document chunk => insertChunk rows document.key chunk
  | .replace document snapshot =>
    insertChunk (rows.filter fun row => row.document ≠ document.key) document.key snapshot

/-- `INSERT INTO actions (id, record) VALUES (?1, ?2)`; `id` is unique. -/
def insertAction (rows : List (ActionRow codec)) (id : String) (record : codec.Record) :
    Except Error (List (ActionRow codec)) :=
  if rows.any fun row => row.id = id then
    .error (.storage "UNIQUE constraint failed: actions.id")
  else .ok (rows ++ [⟨Rows.next ActionRow.seq rows, id, record⟩])

/-- One transaction: when it fails, the database stays as it was. -/
def commit (db : Sqlite codec) (commit : Commit A) : Except Error (Sqlite codec) := do
  let record := codec.toString commit.action
  let chunkRows := commit.writes.foldl write db.chunkRows
  let actionRows ← insertAction db.actionRows commit.action.id.asStr record
  return ⟨chunkRows, actionRows⟩

def chunks (db : Sqlite codec) (document : Document) : Except Error (List (Bytes A)) :=
  let rows := db.chunkRows.filter fun row => row.document = document.key
  .ok ((Rows.ascending ChunkRow.seq rows).map ChunkRow.bytes)

def history (db : Sqlite codec) (before : Option ActionId) (limit : Nat) :
    Except Error (List (Action A.ChangeHash)) := do
  let end_ ← match before with
    | none => .ok i64Max
    | some id =>
      match db.actionRows.find? fun row => row.id = id.asStr with
      | some row => .ok row.seq
      | none => .error .notFound
  let rows := db.actionRows.filter fun row => row.seq < end_
  ((Rows.descending ActionRow.seq rows).take (min limit i64Max)).mapM fun row =>
    codec.fromStr row.record

end Sqlite

/-- `MemoryStore::history`. -/
def MemoryStore.history (store : MemoryStore A) (before : Option ActionId) (limit : Nat) :
    Except Error (List (Action A.ChangeHash)) :=
  historyOf store.actions before limit

/-! ## Both stores after the same commits -/

variable (commits : List (Commit A))

/-- The store in memory after some commits. -/
def MemoryStore.after : MemoryStore A := commits.foldl commit default

/-- The database after some commits. -/
def Sqlite.after (codec : RecordCodec A.ChangeHash) (commits : List (Commit A)) :
    Except Error (Sqlite codec) :=
  commits.foldlM Sqlite.commit Sqlite.empty

theorem MemoryStore.after_append (commit : Commit A) :
    after (commits ++ [commit]) = (after commits).commit commit := by
  simp [after]

theorem Sqlite.after_append (commit : Commit A) :
    Sqlite.after codec (commits ++ [commit]) = Sqlite.after codec commits >>= (·.commit commit) := by
  simp only [Sqlite.after, foldlM_append, foldlM_cons, foldlM_nil, bind_pure]

theorem MemoryStore.after_actions : (after commits).actions = commits.map Commit.action := by
  induction commits using List.reverseRecOn with
  | nil => rfl
  | append_singleton commits commit ih =>
    rw [after_append, map_append, ← ih]
    rfl

/-! ### Chunks -/

/-- The rows hold the chunks of every document in the order of their numbers. -/
structure HoldsChunks (rows : List (ChunkRow A)) (chunks : Document → List (Bytes A)) : Prop where
  increasing : Rows.Increasing ChunkRow.seq rows
  bytes : ∀ d, (rows.filter fun row => row.document = d.key).map ChunkRow.bytes = chunks d

variable {actions : List (Action A.ChangeHash)} {chunks : Document → List (Bytes A)}
    {rows : List (ChunkRow A)}

variable (h : HoldsChunks rows chunks)
include h

/-- A new row comes last in its document and is in no other document. -/
theorem HoldsChunks.insertChunk (bytes : Bytes A) :
    HoldsChunks (Sqlite.insertChunk rows d.key bytes)
      fun e => if d = e then chunks e ++ [bytes] else chunks e where
  increasing := h.increasing.append_next rfl
  bytes e := by
    rw [Sqlite.insertChunk, filter_append, map_append, h.bytes e]
    by_cases heq : d = e
    · simp [heq]
    · have hne : d.key ≠ e.key := fun hkey => heq (Document.key_injective hkey)
      simp [heq, hne]

/-- Deleting the rows of a document leaves the other documents alone. -/
theorem HoldsChunks.delete :
    HoldsChunks (rows.filter fun row => row.document ≠ d.key)
      fun e => if d = e then [] else chunks e where
  increasing := h.increasing.filter _
  bytes e := by
    rw [filter_filter]
    by_cases heq : d = e
    · subst heq
      rw [if_pos rfl, map_eq_nil_iff, filter_eq_nil_iff]
      simp
    · rw [if_neg heq, ← h.bytes e]
      congr 1
      refine filter_congr fun row _ => ?_
      have hne : d.key ≠ e.key := fun hkey => heq (Document.key_injective hkey)
      by_cases hrow : row.document = e.key
      · simp [hrow, hne.symm]
      · simp [hrow]

theorem HoldsChunks.write (write : Write A) :
    HoldsChunks (Sqlite.write rows write) fun d => write.chunks d (chunks d) := by
  cases write with
  | append d chunk => exact h.insertChunk d chunk
  | replace d snapshot =>
    have hreplaced := (h.delete d).insertChunk d snapshot
    refine ⟨hreplaced.increasing, fun e => (hreplaced.bytes e).trans ?_⟩
    show _ = if d = e then [snapshot] else chunks e
    by_cases heq : d = e <;> simp [heq]

/-- A transaction's writes, one after the other. -/
theorem HoldsChunks.writes (writes : List (Write A)) :
    HoldsChunks (writes.foldl Sqlite.write rows) fun d => chunksAfter writes d (chunks d) := by
  induction writes generalizing rows chunks with
  | nil => exact h
  | cons write writes ih => exact ih (h.write write)


omit h
/-! ### Actions -/

/-- The rows hold the Actions in the order of their numbers, which count from one. -/
structure HoldsActions (rows : List (ActionRow codec)) (actions : List (Action A.ChangeHash)) :
    Prop where
  increasing : Rows.Increasing ActionRow.seq rows
  bound : ∀ row ∈ rows, row.seq ≤ rows.length
  rows : List.Forall₂ (fun row action => row.id = action.id.asStr ∧
    row.record = codec.toString action) rows actions

variable {rows : List (ActionRow codec)} {db : Sqlite codec}

theorem HoldsActions.insertAction (h : HoldsActions rows actions)
    {action : Action A.ChangeHash} (hnew : ∀ other ∈ actions, other.id ≠ action.id) :
    ∃ rows', Sqlite.insertAction rows action.id.asStr (codec.toString action) = .ok rows' ∧
      HoldsActions rows' (actions ++ [action]) := by
  have hfresh : (rows.any fun row => row.id = action.id.asStr) = false := by
    rw [any_eq_false]
    intro row hrow heq
    obtain ⟨other, hother, hid, -⟩ := Rows.exists_item_of_mem h.rows hrow
    rw [decide_eq_true_eq, hid] at heq
    exact hnew other hother (Id.ext heq)
  refine ⟨_, by rw [Sqlite.insertAction, hfresh]; rfl, h.increasing.append_next rfl, ?_, ?_⟩
  · intro row hrow
    rw [length_append, length_singleton]
    rcases mem_append.mp hrow with hrow | hrow
    · exact Nat.le_succ_of_le (h.bound row hrow)
    · rw [mem_singleton.mp hrow]
      exact Rows.next_le h.bound
  · exact rel_append h.rows (.cons ⟨rfl, rfl⟩ .nil)

theorem HoldsActions.length
    (h : HoldsActions rows actions) : rows.length = actions.length := h.rows.length_eq

/-- The records of rows are read back as their Actions. -/
theorem mapM_records (h : List.Forall₂ (fun row action => row.id = action.id.asStr ∧
      row.record = codec.toString action) rows actions)
    (hfinite : ∀ action ∈ actions, action.isFinite = true) :
    (rows.mapM fun row => codec.fromStr row.record) = .ok actions := by
  rw [mapM_eq_ok]
  induction h with
  | nil => exact .nil
  | cons hrow _ ih =>
    rw [forall_mem_cons] at hfinite
    refine .cons ?_ (ih hfinite.2)
    rw [hrow.2, codec.fromStr_toString _ hfinite.1]

/-- The query with a bound on the row number, newest first. -/
theorem select_history {rows before : List (ActionRow codec)}
    (hincreasing : Rows.Increasing ActionRow.seq before)
    (hrows : List.Forall₂ (fun row action => row.id = action.id.asStr ∧
      row.record = codec.toString action) before actions)
    (hfinite : ∀ action ∈ actions, action.isFinite = true) {end_ : Nat}
    (hbefore : (rows.filter fun row => row.seq < end_) = before) (hroom : actions.length < i64Max)
    (limit : Nat) :
    (((Rows.descending ActionRow.seq (rows.filter fun row => row.seq < end_)).take
      (min limit i64Max)).mapM fun row => codec.fromStr row.record) =
      .ok (actions.reverse.take limit) := by
  rw [hbefore, hincreasing.descending_eq, ← take_take, take_of_length_le (l := before.reverse)]
  · have hreverse := forall₂_take limit (rel_reverse hrows)
    refine mapM_records hreverse fun action haction => hfinite action ?_
    exact mem_reverse.mp (mem_of_mem_take haction)
  · rw [length_reverse, hrows.length_eq]
    exact le_of_lt hroom

/-- The database answers a query of History as the list of Actions does. -/
theorem HoldsActions.history (h : HoldsActions db.actionRows actions)
    (hfinite : ∀ action ∈ actions, action.isFinite = true) (hroom : actions.length < i64Max)
    (before : Option ActionId) (limit : Nat) :
    db.history before limit = historyOf actions before limit := by
  cases before with
  | none =>
    have hall : (db.actionRows.filter fun row => row.seq < i64Max) = db.actionRows := by
      refine filter_eq_self.mpr fun row hrow => decide_eq_true ?_
      exact lt_of_le_of_lt (h.bound row hrow) (h.length ▸ hroom)
    exact select_history h.increasing h.rows hfinite hall hroom limit
  | some id =>
    have hids : ∀ (row : ActionRow codec) (action : Action A.ChangeHash),
        (row.id = action.id.asStr ∧ row.record = codec.toString action) →
        decide (row.id = id.asStr) = decide (action.id = id) := by
      intro row action hrow
      rw [hrow.1]
      exact decide_eq_decide.mpr ⟨fun heq => Id.ext heq, fun heq => heq ▸ rfl⟩
    rw [Sqlite.history, historyOf]
    rcases Rows.find?_rows h.rows hids with ⟨hnone, hnone'⟩ |
      ⟨earlier, row, later, actions₁, action, actions₂, hrows, rfl, hearlier, hfind, hfindIdx⟩
    · rw [hnone, hnone']
      rfl
    · rw [hfind, hfindIdx]
      have hlt : (db.actionRows.filter fun r => r.seq < row.seq) = earlier := by
        rw [hrows]
        have hincreasing := h.increasing
        rw [hrows] at hincreasing
        exact hincreasing.filter_lt
      have htake : (actions₁ ++ action :: actions₂).take actions₁.length = actions₁ := by simp
      dsimp only
      rw [htake]
      have hincreasing : Rows.Increasing ActionRow.seq earlier :=
        hlt ▸ h.increasing.filter fun r => r.seq < row.seq
      refine select_history hincreasing hearlier (fun a ha => hfinite a ?_) hlt ?_ limit
      · exact mem_append_left _ ha
      · rw [length_append] at hroom
        omega

/-- Both stores stand for the same commits. -/
structure Agrees (db : Sqlite codec) (store : MemoryStore A) : Prop where
  chunks : HoldsChunks db.chunkRows store.chunks
  actions : HoldsActions db.actionRows store.actions

/-- A commit with a new identity succeeds and keeps the stores in agreement. -/
theorem Agrees.commit {store : MemoryStore A} (h : Agrees db store)
    {commit : Commit A} (hnew : ∀ action ∈ store.actions, action.id ≠ commit.action.id) :
    ∃ db', db.commit commit = .ok db' ∧ Agrees db' (store.commit commit) := by
  obtain ⟨actionRows, hinsert, hactions⟩ := h.actions.insertAction hnew
  refine ⟨⟨commit.writes.foldl Sqlite.write db.chunkRows, actionRows⟩, ?_,
    h.chunks.writes commit.writes, hactions⟩
  rw [Sqlite.commit, hinsert]
  rfl

/-- Commits with distinct identities succeed and leave the stores in agreement. -/
theorem agrees_after (codec : RecordCodec A.ChangeHash) {commits : List (Commit A)}
    (hids : (commits.map fun commit => commit.action.id).Nodup) :
    ∃ db, Sqlite.after codec commits = .ok db ∧ Agrees db (after commits) := by
  induction commits using List.reverseRecOn with
  | nil => exact ⟨Sqlite.empty, rfl, ⟨.nil, fun d => rfl⟩, .nil, by simp [Sqlite.empty], .nil⟩
  | append_singleton commits commit ih =>
    rw [map_append, nodup_append] at hids
    obtain ⟨db, hdb, hagrees⟩ := ih hids.1
    have hnew : ∀ action ∈ (after commits).actions, action.id ≠ commit.action.id := by
      rw [after_actions]
      intro action haction
      obtain ⟨other, hother, rfl⟩ := mem_map.mp haction
      exact hids.2.2 _ (mem_map_of_mem hother) _ (by simp)
    obtain ⟨db', hcommit, hagrees'⟩ := hagrees.commit hnew
    refine ⟨db', ?_, by rwa [after_append]⟩
    rw [Sqlite.after_append, hdb]
    exact hcommit

/-! ### What the answers are -/

namespace Write

def document : Write A → Document
  | append document _ | replace document _ => document

def bytes : Write A → Bytes A
  | append _ bytes | replace _ bytes => bytes

def isReplace : Write A → Bool
  | append _ _ => false
  | replace _ _ => true

end Write

/-- The chunks are those of the document's writes since its last replacement, in the order of the
    writes. -/
def SinceReplace (writes : List (Write A)) (chunks : List (Bytes A)) : Prop :=
  ∃ dropped kept, writes.filter (fun write => write.document = d) = dropped ++ kept ∧
    chunks = kept.map Write.bytes ∧ (∀ write ∈ kept.tail, write.isReplace = false) ∧
    (dropped ≠ [] → ∃ write ∈ kept.head?, write.isReplace = true)

theorem SinceReplace.write {d : Document} {writes : List (Write A)} {chunks : List (Bytes A)}
    (h : SinceReplace d writes chunks) (write : Write A) :
    SinceReplace d (writes ++ [write]) (write.chunks d chunks) := by
  obtain ⟨dropped, kept, hfilter, rfl, htail, hhead⟩ := h
  by_cases hd : write.document = d
  · have hfilter' : (writes ++ [write]).filter (fun write => write.document = d) =
        dropped ++ kept ++ [write] := by
      rw [filter_append, hfilter]
      simp [hd]
    cases write with
    | append document chunk =>
      obtain rfl : document = d := hd
      refine ⟨dropped, kept ++ [.append document chunk], by rw [hfilter', append_assoc], ?_, ?_, ?_⟩
      · simp [Write.chunks, Write.bytes]
      · intro write hwrite
        cases kept with
        | nil => simp at hwrite
        | cons first kept =>
          rcases mem_append.mp hwrite with hwrite | hwrite
          · exact htail write hwrite
          · rw [mem_singleton.mp hwrite]
            rfl
      · intro hdropped
        obtain ⟨first, hfirst, hreplace⟩ := hhead hdropped
        exact ⟨first, mem_head?_append_of_mem_head? hfirst, hreplace⟩
    | replace document snapshot =>
      obtain rfl : document = d := hd
      refine ⟨dropped ++ kept, [.replace document snapshot], hfilter', ?_, by simp, ?_⟩
      · simp [Write.chunks, Write.bytes]
      · exact fun _ => ⟨_, rfl, rfl⟩
  · have hsame : write.chunks d (kept.map Write.bytes) = kept.map Write.bytes := by
      cases write <;> exact if_neg hd
    refine ⟨dropped, kept, ?_, hsame, htail, hhead⟩
    rw [filter_append, hfilter]
    simp [hd]

theorem sinceReplace_chunksAfter (writes : List (Write A)) :
    SinceReplace d writes (chunksAfter writes d []) := by
  induction writes using List.reverseRecOn with
  | nil => exact ⟨[], [], rfl, rfl, by simp, by simp⟩
  | append_singleton writes write ih =>
    rw [chunksAfter, foldl_append]
    exact ih.write write

theorem MemoryStore.after_chunks :
    (after commits).chunks d = chunksAfter (commits.flatMap Commit.writes) d [] := by
  induction commits using List.reverseRecOn with
  | nil => rfl
  | append_singleton commits commit ih =>
    rw [after_append, flatMap_append, flatMap_singleton, chunksAfter, foldl_append]
    show chunksAfter commit.writes d ((after commits).chunks d) = _
    rw [ih]
    rfl

/-- History is cut into pages, newest first. -/
theorem cuts_historyOf {H : Type} (actions : List (Action H))
    (hids : (actions.map Action.id).Nodup) (limit : Nat) :
    Rows.Cuts (fun before => historyOf actions before limit) Action.id limit actions.reverse where
  first := rfl
  after newer action older hactions := by
    have hsplit : actions = older.reverse ++ action :: newer.reverse := by
      rw [← reverse_reverse actions, hactions]
      simp
    have hfind : actions.findIdx? (fun other => other.id = action.id) = some older.length := by
      rw [hsplit, List.findIdx?_append, List.findIdx?_eq_none_iff.mpr ?hearlier]
      · simp [List.findIdx?_cons]
      case hearlier =>
        intro other hother
        refine decide_eq_false fun heq => ?_
        rw [hsplit, map_append, nodup_append] at hids
        exact hids.2.2 _ (mem_map_of_mem hother) action.id (by simp) heq
    have htake : actions.take older.length = older.reverse := by
      rw [hsplit]
      simp
    show historyOf actions (some action.id) limit = _
    rw [historyOf, hfind]
    dsimp only
    rw [htake, reverse_reverse]

/-- After the same commits with distinct identities, the database answers as the store in memory:
    the chunks of a document since its last replacement in the order of the writes, and History
    newest first, which read page by page gives every Action once. -/
theorem sqlite_answers_as_memory (codec : RecordCodec A.ChangeHash) (commits : List (Commit A))
    (hids : (commits.map fun commit => commit.action.id).Nodup)
    (hfinite : ∀ commit ∈ commits, commit.action.isFinite = true)
    (hroom : commits.length < i64Max) :
    Function.Injective Document.key ∧ ∃ db, Sqlite.after codec commits = .ok db ∧
      (∀ d, db.chunks d = .ok ((after commits).chunks d)) ∧
      (∀ before limit, db.history before limit = (after commits).history before limit) ∧
      (∀ d, SinceReplace d (commits.flatMap Commit.writes) ((after commits).chunks d)) ∧
      (∀ limit, db.history none limit = .ok ((commits.map Commit.action).reverse.take limit)) ∧
      ∀ limit, 0 < limit → ∀ fuel, commits.length < fuel →
        Rows.pages (fun before => db.history before limit) Action.id fuel none =
          .ok (commits.map Commit.action).reverse := by
  obtain ⟨db, hdb, hagrees⟩ := agrees_after codec hids
  have hactions := after_actions commits
  have hhistory : ∀ before limit, db.history before limit =
      historyOf (commits.map Commit.action) before limit := by
    have hholds := hagrees.actions
    rw [hactions] at hholds
    refine hholds.history ?_ (by rwa [length_map])
    intro action haction
    obtain ⟨commit, hcommit, rfl⟩ := mem_map.mp haction
    exact hfinite commit hcommit
  refine ⟨Document.key_injective, db, hdb, fun d => ?_, fun before limit => ?_, fun d => ?_,
    fun limit => hhistory none limit, fun limit hlimit fuel hfuel => ?_⟩
  · rw [Sqlite.chunks, (hagrees.chunks.increasing.filter _).ascending_eq, hagrees.chunks.bytes d]
  · rw [hhistory, history, hactions]
  · rw [after_chunks]
    exact sinceReplace_chunksAfter d _
  · have hcuts := cuts_historyOf (commits.map Commit.action) (by rwa [map_map]) limit
    simp only [hhistory]
    exact hcuts.pages_eq hlimit (by rwa [length_reverse, length_map])

/-- Records that hold the Action itself, with a number that is not finite lost. The text of the
    error is left out. -/
def plainRecords : RecordCodec Nat where
  Record := Action Nat
  toString := id
  fromStr action := if action.isFinite then .ok action else .error (.storage "")
  fromStr_toString _ h := if_pos h

/-- An Action of one person through the interface. -/
def personAction (id : String) (operation : Operation) : Action Nat :=
  ⟨⟨id⟩, .person ⟨"p"⟩, .ui, .owner, operation, []⟩

/-- A Page is written twice, an area once, and the Page is then replaced. -/
def pageCommits : List (Commit journal) := [⟨personAction "1" .createWorkspace,
      [.append (.page ⟨"x"⟩) [[]], .append (.area ⟨"x"⟩) [[], []], .append (.page ⟨"x"⟩) []]⟩,
    ⟨personAction "2" (.mutation (.createArea "a")), [.replace (.page ⟨"x"⟩) [[], [], []]]⟩]

theorem sqlite_answers_as_memory_pageCommits : ∃ db, Sqlite.after plainRecords pageCommits = .ok db ∧
    db.chunks (.page ⟨"x"⟩) = .ok [[[], [], []]] ∧ db.chunks (.area ⟨"x"⟩) = .ok [[[], []]] ∧
    Rows.pages (fun before => db.history before 1) Action.id 3 none =
      .ok [personAction "2" (.mutation (.createArea "a")), personAction "1" .createWorkspace] := by
  obtain ⟨-, db, hdb, hchunks, -, -, -, hpages⟩ := sqlite_answers_as_memory plainRecords pageCommits
    (by decide) (by decide) (by decide)
  exact ⟨db, hdb, hchunks _, hchunks _, hpages 1 (by decide) 3 (by decide)⟩

/-- A cell is set to a number that is not finite. -/
def nanCommits : List (Commit journal) := [⟨personAction "1" (.mutation
      (.setCell ⟨"p"⟩ ⟨"b"⟩ ⟨"r"⟩ ⟨"f"⟩ (.number ⟨⟨0x7ff8000000000000, by decide⟩⟩))), []⟩]

/-- Such an Action is committed by both stores, but its record is not read back. -/
theorem sqlite_loses_nanCommits : (nanCommits.map fun commit => commit.action.id).Nodup ∧
    ∃ db, Sqlite.after plainRecords nanCommits = .ok db ∧
      (∃ error, db.history none 1 = .error error) ∧
      (after nanCommits).history none 1 = .ok (nanCommits.map Commit.action) :=
  ⟨by decide, _, rfl, ⟨_, rfl⟩, rfl⟩

end Watershed.Liquid
