/-
  Automerge documents as the Liquid core uses them.

  Automerge is a third-party crate, so it is a parameter of the model (`Automerge`): an
  abstract document type with the operations the core calls and the documented behaviour it
  relies on. Reads and writes are described through `State`, the tree of maps, texts and
  scalars that a document shows.

  An object is named by the path of keys that leads to it from the root, innermost key
  first, so the child `k` of `p` is `k :: p`. Automerge's object handles are opaque; the core
  uses a handle only in the call that looked it up, where handle and path correspond.
-/
import Mathlib.Data.List.Sort
import Mathlib.Data.List.Infix
import Watershed.Lib.Fallible
import Watershed.Liquid.Mutation

namespace Watershed.Liquid

/-! ## States -/

/-- A scalar value; `other` stands for the kinds the core neither writes nor reads. -/
inductive Scalar where
  | str (s : String)
  | bool (b : Bool)
  | f64 (x : F64)
  | other (code : Nat)
  deriving DecidableEq

/-- What a key of a map holds: a scalar or an object. A text holds its characters; of a list
    only the length matters. -/
inductive Node where
  | scalar (v : Scalar)
  | map
  | table
  | list (length : Nat)
  | text (chars : List Char)
  deriving DecidableEq

/-- The keys that lead from the root to an object or value, innermost first. -/
abbrev Path := List String

/-- What a document shows: the node at every path, and the keys of every map in order. -/
structure State where
  node : Path → Option Node
  keys : Path → List String
  root : node [] = some .map
  sorted : ∀ p, (keys p).Pairwise (· < ·)
  mem_keys : ∀ p k, k ∈ keys p ↔ (node (k :: p)).isSome

namespace State

/-- The keys of a map are those that lead somewhere, so the nodes make the state. -/
theorem ext_node {s t : State} (h : s.node = t.node) : s = t := by
  have hk : s.keys = t.keys := by
    funext p
    apply (s.sorted p).eq_of_mem_iff (t.sorted p)
    intro k
    rw [s.mem_keys, t.mem_keys, h]
  cases s; cases t; simp_all

/-- A new document: an empty root map. -/
def empty : State where
  node p := if p = [] then some .map else none
  keys _ := []
  root := rfl
  sorted _ := List.Pairwise.nil
  mem_keys p k := by simp

variable (k : String)

/-- `ks` with `k` added at its place. -/
def addKey (ks : List String) : List String :=
  if k ∈ ks then ks else ks.orderedInsert (· ≤ ·) k

theorem mem_addKey {k x : String} {ks : List String} : x ∈ addKey k ks ↔ x = k ∨ x ∈ ks := by
  unfold addKey
  split
  · rename_i h
    constructor
    · exact .inr
    · rintro (rfl | hx)
      · exact h
      · exact hx
  · rw [List.mem_orderedInsert]

theorem sorted_addKey {ks : List String} (h : ks.Pairwise (· < ·)) :
    (addKey k ks).Pairwise (· < ·) := by
  unfold addKey
  split
  · exact h
  · rename_i hk
    have hle : (ks.orderedInsert (· ≤ ·) k).Pairwise (· ≤ ·) :=
      (h.imp (fun {a b} hab => le_of_lt hab)).orderedInsert k ks
    have hnd : (ks.orderedInsert (· ≤ ·) k).Nodup := (List.perm_orderedInsert _ k ks).nodup_iff.mpr
        (List.nodup_cons.mpr ⟨hk, h.imp (fun {a b} hab => ne_of_lt hab)⟩)
    exact (hle.and hnd).imp (fun {a b} hab => lt_of_le_of_ne hab.1 hab.2)

variable (s : State)

/-- The state with `n` under the key `k` of `p` and nothing below it. -/
def set (p : Path) (n : Option Node) : State where
  node q := if q = k :: p then n else if k :: p <:+ q then none else s.node q
  keys q :=
    if q = p then (if n.isSome then addKey k (s.keys p) else (s.keys p).filter (· ≠ k))
    else if k :: p <:+ q then []
    else s.keys q
  root := by simp [s.root]
  sorted q := by
    split
    · split
      · exact sorted_addKey k (s.sorted p)
      · exact (s.sorted p).filter _
    · split
      · exact List.Pairwise.nil
      · exact s.sorted q
  mem_keys q x := by
    by_cases hq : q = p
    · subst hq
      by_cases hx : x = k
      · subst hx
        cases n <;> simp [mem_addKey]
      · have hne : ¬ k :: q <:+ x :: q := by
          intro h
          have := h.eq_of_length (by simp)
          simp_all
        cases n <;> simp [mem_addKey, hx, hne, s.mem_keys]
    · have hne : x :: q ≠ k :: p := by simp [hq]
      by_cases hs : k :: p <:+ q
      · simp [hq, hs, hs.trans (List.suffix_cons x q)]
      · have hns : ¬ k :: p <:+ x :: q := by
          rw [List.suffix_cons_iff]
          rintro (h | h)
          · exact hne h.symm
          · exact hs h
        simp [hq, hs, hns, s.mem_keys]

@[simp] theorem node_set_self (p : Path) (n : Option Node) : (s.set k p n).node (k :: p) = n := by
  simp [set]

theorem node_set_below (p : Path) (n : Option Node) {q : Path}
    (h : k :: p <:+ q) (hq : q ≠ k :: p) : (s.set k p n).node q = none := by
  simp [set, h, hq]

/-- A write changes nothing outside the key it writes. -/
theorem node_set_frame (p : Path) (n : Option Node) {q : Path}
    (h : ¬ k :: p <:+ q) : (s.set k p n).node q = s.node q := by
  have hq : q ≠ k :: p := by
    rintro rfl
    exact h (List.suffix_refl _)
  simp [set, h, hq]

/-- The last of two writes to one key counts. -/
theorem set_set (p : Path) (n n' : Option Node) : (s.set k p n).set k p n' = s.set k p n' := by
  apply ext_node
  funext q
  by_cases hq : q = k :: p
  · simp [hq]
  · by_cases hs : k :: p <:+ q <;> simp [set, hq, hs]

/-- Whether keys can be read and written at `p`. -/
def isMap (p : Path) : Bool :=
  match s.node p with
  | some .map => true
  | some .table => true
  | _ => false

/-- `doc.get(p, k)`: what the key holds, or an error where `p` has no keys. -/
def get (p : Path) (k : String) : Option (Option Node) :=
  if s.isMap p then some (s.node (k :: p)) else none

/-- `doc.map_range(p, ..)`: a map's keys in order with what they hold. -/
def mapRange (p : Path) : List (String × Node) :=
  if s.isMap p then (s.keys p).filterMap fun k => (s.node (k :: p)).map (k, ·) else []

end State

/-! ## Texts -/

/-- How many UTF-16 code units a character takes. -/
def lenUtf16 (c : Char) : Nat := if c.val < 0x10000 then 1 else 2

/-- The length of a text in UTF-16 code units. -/
def units (cs : List Char) : Nat := (cs.map lenUtf16).sum

/-- How many characters end at or before the code unit `at`. -/
def charsBefore : List Char → Nat → Nat
  | [], _ => 0
  | c :: cs, at_ => if lenUtf16 c ≤ at_ then charsBefore cs (at_ - lenUtf16 c) + 1 else 0

/-- The characters of a text after `del` units at `at_` are replaced by `ins`. -/
def spliced (cs : List Char) (at_ del : Nat) (ins : List Char) : List Char :=
  cs.take (charsBefore cs at_) ++ ins ++ cs.drop (charsBefore cs (at_ + del))

/-! ## Edits -/

/-- The kinds of object the core creates. -/
inductive NewObject where
  | map | text
  deriving DecidableEq

def NewObject.node : NewObject → Node
  | .map => .map
  | .text => .text []

/-- The write operations of an Automerge transaction that the core calls. -/
inductive Edit where
  | put (p : Path) (k : String) (v : Scalar)
  | putObject (p : Path) (k : String) (t : NewObject)
  | delete (p : Path) (k : String)
  | spliceText (p : Path) (at_ del : Nat) (ins : String)
  deriving DecidableEq

namespace State

/-- What an edit makes of a state; `none` where Automerge refuses it: keys are written only
    in maps, and text only within a text. -/
def edit (s : State) : Edit → Option State
  | .put p k v => if s.isMap p then some (s.set k p (some (.scalar v))) else none
  | .putObject p k t => if s.isMap p then some (s.set k p (some t.node)) else none
  | .delete p k => if s.isMap p then some (s.set k p none) else none
  | .spliceText [] _ _ _ => none
  | .spliceText (k :: p) at_ del ins =>
    match s.node (k :: p) with
    | some (.text cs) =>
      if at_ + del ≤ units cs then
        some (s.set k p (some (.text (spliced cs at_ del ins.toList))))
      else none
    | _ => none

end State

/-! ## Automerge -/

/-- A committed version of a document: its changes, oldest first, and the state they make. -/
structure Version (Hash : Type) where
  changes : List Hash
  state : State

/-- The Automerge crate: documents with an open transaction (`AutoCommit`), the operations
    the core calls, and the documented behaviour it relies on. -/
structure Automerge where
  AutoCommit : Type
  ChangeHash : Type
  Byte : Type
  /-- A new document that the actor writes. -/
  new : RandomBytes → AutoCommit
  /-- What reads see, uncommitted operations included. -/
  state : AutoCommit → State
  /-- The committed part. -/
  version : AutoCommit → Version ChangeHash
  pendingOps : AutoCommit → Nat
  /-- The document after an edit that is not refused. -/
  edited : AutoCommit → Edit → AutoCommit
  /-- The message of a refused edit. -/
  refusal : Edit → String
  /-- The message of a read from an object of another type. -/
  misread : Path → String
  commitWith : AutoCommit → Header → Option ChangeHash × AutoCommit
  rollback : AutoCommit → AutoCommit
  save : AutoCommit → List Byte
  /-- The bytes of the change that `get_change_by_hash` finds. -/
  changeBytes : AutoCommit → ChangeHash → Option (List Byte)
  load : List Byte → RandomBytes → Except String AutoCommit
  /-- The version that bytes hold, or why they hold none. -/
  parse : List Byte → Except String (Version ChangeHash)
  version_new : ∀ a, version (new a) = ⟨[], State.empty⟩
  pendingOps_new : ∀ a, pendingOps (new a) = 0
  /-- Nothing pending means nothing changed since the last commit. -/
  clean : ∀ d, pendingOps d = 0 → state d = (version d).state
  /-- An edit shows at once and commits nothing. -/
  edited_spec : ∀ d e s, (state d).edit e = some s →
    state (edited d e) = s ∧ version (edited d e) = version d
  /-- A rollback discards exactly the uncommitted operations. -/
  rollback_spec : ∀ d, version (rollback d) = version d ∧ pendingOps (rollback d) = 0
  commit_nothing : ∀ d m, pendingOps d = 0 → commitWith d m = (none, d)
  /-- A commit makes one new change; its bytes extend whatever bytes held the document. -/
  commit_change : ∀ d m, pendingOps d ≠ 0 → ∃ h d' bytes,
    commitWith d m = (some h, d') ∧ h ∉ (version d).changes ∧
    version d' = ⟨(version d).changes ++ [h], state d⟩ ∧ pendingOps d' = 0 ∧
    changeBytes d' h = some bytes ∧
    ∀ bs, parse bs = .ok (version d) → parse (bs ++ bytes) = .ok (version d')
  parse_nil : parse [] = .ok ⟨[], State.empty⟩
  parse_save : ∀ d, pendingOps d = 0 → parse (save d) = .ok (version d)
  load_ok : ∀ bs a v, parse bs = .ok v →
    ∃ d, load bs a = .ok d ∧ version d = v ∧ pendingOps d = 0
  load_error : ∀ bs a e, parse bs = .error e → load bs a = .error e

/-! ## Working on one document -/

/-- What a mutation of one document works on: the document, what the Workspace keeps beside
    it (a Page's View order, a Database's row index, or nothing), and the position in the
    random source. -/
structure Ctx (A : Automerge) (κ : Type) where
  doc : A.AutoCommit
  cache : κ
  drawn : Nat

section
variable {A : Automerge} {κ α : Type}

/-- What the document shows. -/
abbrev Ctx.state (c : Ctx A κ) : State := A.state c.doc

abbrev DocM (A : Automerge) (κ α : Type) := Fallible Error (Ctx A κ) α

/-- The state that reads see now. -/
def state : DocM A κ State := Fallible.read fun c => A.state c.doc

/-- One edit; a refused one is an error of the CRDT library. -/
def edit (e : Edit) : DocM A κ Unit := fun c =>
  match (A.state c.doc).edit e with
  | some _ => (.ok (), { c with doc := A.edited c.doc e })
  | none => (.error (.document (A.refusal e)), c)

def put (p : Path) (k : String) (v : Scalar) : DocM A κ Unit := edit (.put p k v)

/-- Creates an object and returns it. -/
def putObject (p : Path) (k : String) (t : NewObject) : DocM A κ Path := do
  edit (.putObject p k t)
  return k :: p

def delete (p : Path) (k : String) : DocM A κ Unit := edit (.delete p k)

def spliceText (p : Path) (at_ del : Nat) (ins : String) : DocM A κ Unit :=
  edit (.spliceText p at_ del ins)

/-- A new identity, if the random source gives one. -/
def newId {ι : IdKind} (random : Random) : DocM A κ (Id ι) := fun c =>
  match random c.drawn with
  | some bytes => (.ok ⟨hex bytes⟩, { c with drawn := c.drawn + 1 })
  | none => (.error .random, { c with drawn := c.drawn + 1 })

end

end Watershed.Liquid
