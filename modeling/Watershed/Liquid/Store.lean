/-
  The durable store a Workspace commits to before it acknowledges a write (`store.rs`).

  `Store` is the trait with the contract its documentation states: a commit applies all its
  writes and records its Action, or fails and stores nothing. Whether a commit fails is up to
  the store, so a statement about every `Store` covers every pattern of failures.
-/
import Watershed.Liquid.Document

namespace Watershed.Liquid

variable (A : Automerge)

abbrev Bytes := List A.Byte

/-- What a document stores after a commit. -/
inductive Write where
  | append (document : Document) (chunk : Bytes A)
  | replace (document : Document) (snapshot : Bytes A)

/-- One Action's durable writes. -/
structure Commit where
  action : Action A.ChangeHash
  writes : List (Write A)

variable {A}

/-- The stored chunks of `document` after a write. -/
def Write.chunks (document : Document) (chunks : List (Bytes A)) : Write A → List (Bytes A)
  | .append d chunk => if d = document then chunks ++ [chunk] else chunks
  | .replace d snapshot => if d = document then [snapshot] else chunks

/-- The stored chunks of `document` after all writes of a commit. -/
def chunksAfter (writes : List (Write A)) (document : Document) (chunks : List (Bytes A)) :
    List (Bytes A) :=
  writes.foldl (Write.chunks document) chunks

/-- Up to `limit` recorded Actions, newest first, starting before `before`. -/
def historyOf {H : Type} (actions : List (Action H)) (before : Option ActionId) (limit : Nat) :
    Except Error (List (Action H)) :=
  match before with
  | none => .ok (actions.reverse.take limit)
  | some id =>
    match actions.findIdx? fun action => action.id = id with
    | some i => .ok ((actions.take i).reverse.take limit)
    | none => .error .notFound

variable (A)

/-- Where a Workspace keeps its documents and History. -/
structure Store where
  State : Type
  chunks : State → Document → Except Error (List (Bytes A))
  commit : State → Commit A → Except Error Unit × State
  history : State → Option ActionId → Nat → Except Error (List (Action A.ChangeHash))
  /-- The recorded Actions, oldest first. -/
  actions : State → List (Action A.ChangeHash)
  history_eq : ∀ s before limit, history s before limit = historyOf (actions s) before limit
  /-- A commit that succeeds stores all of it. -/
  commit_ok : ∀ s c s', commit s c = (.ok (), s') →
    (∀ d, chunks s' d = (chunks s d).map (chunksAfter c.writes d)) ∧
    actions s' = actions s ++ [c.action]
  /-- A commit that fails stores nothing. -/
  commit_error : ∀ s c e s', commit s c = (.error e, s') →
    chunks s' = chunks s ∧ actions s' = actions s

/-! ## The store in memory -/

structure MemoryStore where
  chunks : Document → List (Bytes A)
  actions : List (Action A.ChangeHash)

variable {A}

def MemoryStore.commit (s : MemoryStore A) (c : Commit A) : MemoryStore A where
  chunks d := chunksAfter c.writes d (s.chunks d)
  actions := s.actions ++ [c.action]

def MemoryStore.default : MemoryStore A := ⟨fun _ => [], []⟩

variable (A)

/-- A `MemoryStore` whose commits fail as `failures` says, one answer for each commit: the
    tests' `Flaky` store. -/
def flakyStore (failures : Nat → Option Error) : Store A where
  State := MemoryStore A × Nat
  chunks s d := .ok (s.1.chunks d)
  commit s c :=
    match failures s.2 with
    | some e => (.error e, (s.1, s.2 + 1))
    | none => (.ok (), (s.1.commit c, s.2 + 1))
  history s before limit := historyOf s.1.actions before limit
  actions s := s.1.actions
  history_eq _ _ _ := rfl
  commit_ok s c s' h := by
    split at h
    · simp at h
    · cases h
      exact ⟨fun d => rfl, rfl⟩
  commit_error s c e s' h := by
    split at h
    · cases h
      exact ⟨rfl, rfl⟩
    · simp at h

/-- The `MemoryStore`, whose commits never fail. -/
def memoryStore : Store A := flakyStore A fun _ => none

end Watershed.Liquid
