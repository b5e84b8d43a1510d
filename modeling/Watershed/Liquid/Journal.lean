/-
  An instance of the platform: a CRDT library that keeps a document as the log of its edits,
  and a random source that counts.

  The instance shows that the laws assumed of Automerge hold together, and the concrete runs
  of the development are runs on it.
-/
import Watershed.Liquid.PageRun

namespace Watershed.Liquid

open List

/-- A document as its log: the edits of each change, oldest first, and the uncommitted ones. -/
structure Journal where
  changes : List (List Edit)
  pending : List Edit

namespace Journal

/-- The state that edits make, one after the other; a refused one makes no difference. -/
def replay (s : State) (edits : List Edit) : State := edits.foldl (fun s e => (s.edit e).getD s) s

def state (d : Journal) : State := replay .empty (d.changes.flatten ++ d.pending)

/-- A change is named by its place in the log. -/
def versionOf (changes : List (List Edit)) : Version Nat :=
  ⟨range changes.length, replay .empty changes.flatten⟩

def commitWith (d : Journal) : Option Nat × Journal :=
  if d.pending = [] then (none, d)
  else (some d.changes.length, ⟨d.changes ++ [d.pending], []⟩)

theorem replay_append (s : State) (es es' : List Edit) :
    replay s (es ++ es') = replay (replay s es) es' := by
  simp [replay]

/-- A change extends whatever log makes the same version. -/
theorem versionOf_append {bs changes : List (List Edit)} (h : versionOf bs = versionOf changes)
    (es : List Edit) : versionOf (bs ++ [es]) = versionOf (changes ++ [es]) := by
  obtain ⟨hlen, hstate⟩ := Version.mk.inj h
  have hlen : bs.length = changes.length := by simpa using congrArg List.length hlen
  simp only [versionOf, length_append, hlen, flatten_append, replay_append, hstate]

theorem commit_pending {d : Journal} (h : d.pending ≠ []) :
    d.commitWith = (some d.changes.length, ⟨d.changes ++ [d.pending], []⟩) := if_neg h

end Journal

/-- The log of edits as a CRDT library. A byte of a stored document stands for a change. -/
def journal : Automerge where
  AutoCommit := Journal
  ChangeHash := Nat
  Byte := List Edit
  new _ := ⟨[], []⟩
  state := Journal.state
  version d := Journal.versionOf d.changes
  pendingOps d := d.pending.length
  edited d e := { d with pending := d.pending ++ [e] }
  refusal _ := "refused"
  misread _ := "not a text"
  commitWith d _ := d.commitWith
  rollback d := { d with pending := [] }
  save d := d.changes
  changeBytes d h := (d.changes[h]?).map fun es => [es]
  load bs _ := .ok ⟨bs, []⟩
  parse bs := .ok (Journal.versionOf bs)
  version_new _ := rfl
  pendingOps_new _ := rfl
  clean d h := by
    rw [length_eq_zero_iff] at h
    simp [Journal.state, Journal.versionOf, h]
  edited_spec d e s h := by
    refine ⟨?_, rfl⟩
    simp only [Journal.state, ← append_assoc] at h ⊢
    rw [Journal.replay_append]
    simp [Journal.replay] at h ⊢
    simp [h]
  rollback_spec d := ⟨rfl, rfl⟩
  commit_nothing d m h := by
    rw [length_eq_zero_iff] at h
    simp [Journal.commitWith, h]
  commit_change d m h := by
    have hp : d.pending ≠ [] := by simpa [length_eq_zero_iff] using h
    refine ⟨d.changes.length, ⟨d.changes ++ [d.pending], []⟩, [d.pending],
      Journal.commit_pending hp, by simp [Journal.versionOf], ?_, rfl, by simp, fun bs hbs => ?_⟩
    · simp [Journal.versionOf, Journal.state, range_succ]
    · exact congrArg Except.ok (Journal.versionOf_append (Except.ok.inj hbs) d.pending)
  parse_nil := rfl
  parse_save _ _ := rfl
  load_ok bs a v h := ⟨⟨bs, []⟩, rfl, Except.ok.inj h, rfl⟩
  load_error bs a e h := by cases h

/-- A random source that counts, for 256 draws. -/
def countingRandom : Random := fun i => if h : i < 256 then some fun _ => ⟨i, h⟩ else none

/-- The log, the counting source, and a lowercase mapping that leaves text alone. -/
def journalPlatform : Platform := ⟨journal, countingRandom, id⟩

theorem distinct_journalPlatform : Distinct journalPlatform.random := by
  intro i j bytes hi hj
  change countingRandom i = _ at hi
  change countingRandom j = _ at hj
  unfold countingRandom at hi hj
  split at hi <;> split at hj
  · have := congrFun (Option.some.inj (hi.trans hj.symm)) 0
    simpa using this
  all_goals simp_all

/-- The store in memory for the documents of the log. -/
def journalStore : Store journalPlatform.automerge := memoryStore journal

abbrev JournalWorkspace := Workspace journalPlatform journalStore

/-- The identity that the counting source draws at `n`. -/
def journalId {κ : IdKind} (n : Fin 256) : Id κ := ⟨hex fun _ => n⟩

/-- A new Workspace on the store in memory. -/
def journalStart : Except Error JournalWorkspace :=
  Workspace.create ⟨"me"⟩ (.default, 0) 0

theorem journalStart_isSome : journalStart.toOption.isSome = true := by decide +kernel

/-- The Workspace after these requests of its owner. -/
def journalRun (mutations : List Mutation) : JournalWorkspace :=
  mutations.foldl (fun ws m => (Workspace.apply ⟨.person ⟨"me"⟩, .ui, m⟩ ws).2)
    (journalStart.toOption.get journalStart_isSome)

end Watershed.Liquid
