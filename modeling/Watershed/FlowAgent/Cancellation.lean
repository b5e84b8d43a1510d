/-
  The coordinator of Ctrl-C and the productive operation (`cancellation.rs`).

  Every method takes the lock once, so a run is a sequence of these methods; interrupts come in
  between. A permit is held across an effect or a commit: an interrupt that comes while it is held
  is seen when it is released.
-/
import Watershed.FlowAgent.Basic

namespace Watershed.FlowAgent

open List

/-- Result of linearizing one Unix interrupt against the productive-operation state. -/
inductive ProductiveInterruptAction where
  /-- The interrupt won and controlled cancellation must begin. -/
  | cancel
  /-- Durable completion already won, so the interrupt is deferred until disarm. -/
  | defer
  /-- No cancellable operation exists, or cancellation is already in progress. -/
  | exit
  deriving DecidableEq

inductive ProductiveTerminalClaim where
  | cancellation
  | completion
  deriving DecidableEq

inductive ProductiveOperationState where
  | idle
  | active
  | publishingRun
  | committingRun
  | dispatching
  | committingDurableState
  | cancelling
  | completing
  deriving DecidableEq

structure ProductiveOperationCoordinator where
  state : ProductiveOperationState
  cancelled : Bool
  deferredInterrupt : Bool
  deriving DecidableEq

namespace ProductiveOperationCoordinator

def new : ProductiveOperationCoordinator :=
  { state := .idle, cancelled := false, deferredInterrupt := false }

variable (c : ProductiveOperationCoordinator)

def begin : Except RuntimeError Unit × ProductiveOperationCoordinator :=
  if c.state ≠ .idle then
    (.error (.protocol "CLI productive operation registration is already active"), c)
  else (.ok (), { state := .active, cancelled := false, deferredInterrupt := false })

def interrupt : ProductiveInterruptAction × ProductiveOperationCoordinator :=
  match c.state with
  | .idle | .cancelling => (.exit, c)
  | .completing =>
    (if c.deferredInterrupt then .exit else .defer, { c with deferredInterrupt := true })
  | .publishingRun | .committingRun | .committingDurableState =>
    (if c.cancelled then .exit else .cancel, { c with cancelled := true })
  | .active | .dispatching => (.cancel, { c with cancelled := true, state := .cancelling })

def claimTerminal : ProductiveTerminalClaim × ProductiveOperationCoordinator :=
  match c.state with
  | .idle | .completing => (.completion, c)
  | .cancelling => (.cancellation, c)
  | .active => (.completion, { c with state := .completing })
  | .publishingRun | .committingRun | .dispatching | .committingDurableState =>
    (.cancellation, { c with cancelled := true, state := .cancelling })

/-- Takes a permit; `false` when no operation is registered. -/
def claimOperation (claimedState : ProductiveOperationState) (c : ProductiveOperationCoordinator) :
    Except RuntimeError Bool × ProductiveOperationCoordinator :=
  match c.state with
  | .idle => (.ok false, c)
  | .active => (.ok true, { c with state := claimedState })
  | _ => (.error .cancelled, c)

def commitRunCreationPublication : Except RuntimeError Bool × ProductiveOperationCoordinator :=
  match c.state with
  | .idle => (.ok false, c)
  | .publishingRun =>
    if c.cancelled then (.error .cancelled, { c with state := .cancelling })
    else (.ok true, { c with state := .committingRun })
  | _ => (.error .cancelled, c)

def finishRunCreationPublication : Except RuntimeError Unit × ProductiveOperationCoordinator :=
  match c.state with
  | .idle => (.ok (), c)
  | .committingRun =>
    if c.cancelled then (.error .cancelled, { c with state := .cancelling })
    else (.ok (), { c with state := .active })
  | _ => (.error .cancelled, c)

def releaseOperation (expected : ProductiveOperationState) (c : ProductiveOperationCoordinator) :
    ProductiveOperationCoordinator :=
  if c.state = expected then
    { c with state := if c.cancelled then .cancelling else .active }
  else c

def effectDispatchAllowed : Bool := c.state = .idle || c.state = .active

def settle : Bool × ProductiveOperationCoordinator := (c.deferredInterrupt, new)

/-! ## Reachable states -/

/-- The states with a permit for which `claim_operation` is called. -/
def isPermit : ProductiveOperationState → Bool
  | .publishingRun | .dispatching | .committingDurableState => true
  | _ => false

inductive Reachable : ProductiveOperationCoordinator → Prop where
  | new : Reachable new
  | begin {d} (h : Reachable d) : Reachable d.begin.2
  | interrupt {d} (h : Reachable d) : Reachable d.interrupt.2
  | claimTerminal {d} (h : Reachable d) : Reachable d.claimTerminal.2
  | claimOperation {d} (permit) (hpermit : isPermit permit = true) (h : Reachable d) :
      Reachable (d.claimOperation permit).2
  | commitRunCreationPublication {d} (h : Reachable d) : Reachable d.commitRunCreationPublication.2
  | finishRunCreationPublication {d} (h : Reachable d) : Reachable d.finishRunCreationPublication.2
  | releaseOperation {d} (expected) (h : Reachable d) : Reachable (d.releaseOperation expected)
  | settle {d} (h : Reachable d) : Reachable d.settle.2

/-- While an operation may still dispatch, it is not marked as cancelled. -/
def NotMarked : Prop := (c.state = .active ∨ c.state = .dispatching) → c.cancelled = false

theorem notMarked_of_reachable {c : ProductiveOperationCoordinator} (h : Reachable c) :
    NotMarked c := by
  induction h with
  | new => simp [NotMarked, ProductiveOperationCoordinator.new]
  | @begin c _ ih =>
    unfold ProductiveOperationCoordinator.begin
    split
    · exact ih
    · simp [NotMarked]
  | @interrupt c _ ih =>
    unfold ProductiveOperationCoordinator.interrupt
    split <;> simp_all [NotMarked]
  | @claimTerminal c _ ih =>
    unfold ProductiveOperationCoordinator.claimTerminal
    split <;> simp_all [NotMarked]
  | @claimOperation c permit hpermit _ ih =>
    unfold ProductiveOperationCoordinator.claimOperation
    split <;> simp_all [NotMarked]
  | @commitRunCreationPublication c _ ih =>
    unfold ProductiveOperationCoordinator.commitRunCreationPublication
    split
    · exact ih
    · split <;> simp [NotMarked]
    · exact ih
  | @finishRunCreationPublication c _ ih =>
    unfold ProductiveOperationCoordinator.finishRunCreationPublication
    split
    · exact ih
    · split <;> simp_all [NotMarked]
    · exact ih
  | @releaseOperation c expected _ ih =>
    unfold ProductiveOperationCoordinator.releaseOperation
    split
    · by_cases hcancelled : c.cancelled = true <;> simp [NotMarked, hcancelled]
    · exact ih
  | settle => simp [NotMarked, ProductiveOperationCoordinator.settle,
    ProductiveOperationCoordinator.new]

/-! ## One operation and its interrupts -/

/-- What the guards of the operation hold. -/
inductive Permit where
  | effectDispatch
  | durableCommit
  | runPublication
  | runPublicationCommit

def Permit.state : Permit → ProductiveOperationState
  | .effectDispatch => .dispatching
  | .durableCommit => .committingDurableState
  | .runPublication => .publishingRun
  | .runPublicationCommit => .committingRun

inductive Call where
  | interrupt
  | claimTerminal
  | claim (permit : Permit)
  | finish
  | drop (permit : Permit)

inductive Answer where
  | interrupt (action : ProductiveInterruptAction)
  | terminal (claim : ProductiveTerminalClaim)
  | claimed (permit : Permit) (result : Except RuntimeError Bool)
  | finished (result : Except RuntimeError Unit)
  | dropped

/-- The permit of a Run publication is turned into that of its commit; the others are claimed. -/
def claim :
    Permit → Except RuntimeError Bool × ProductiveOperationCoordinator
  | .runPublicationCommit => c.commitRunCreationPublication
  | permit => c.claimOperation permit.state

def call : Call → Answer × ProductiveOperationCoordinator
  | .interrupt => (.interrupt c.interrupt.1, c.interrupt.2)
  | .claimTerminal => (.terminal c.claimTerminal.1, c.claimTerminal.2)
  | .claim permit => (.claimed permit (c.claim permit).1, (c.claim permit).2)
  | .finish => (.finished c.finishRunCreationPublication.1, c.finishRunCreationPublication.2)
  | .drop permit => (.dropped, c.releaseOperation permit.state)

/-- The calls in the order in which they take the lock. -/
def run : ProductiveOperationCoordinator → List Call → List Answer × ProductiveOperationCoordinator
  | c, [] => ([], c)
  | c, next :: calls =>
    ((c.call next).1 :: ((c.call next).2.run calls).1, ((c.call next).2.run calls).2)

/-- An interrupt won: the operation ends as soon as its permit is released. -/
def Cancelled : Prop := c.cancelled = true ∧
    c.state ∈ [.cancelling, .publishingRun, .committingRun, .committingDurableState]

/-- The answers that leave a cancellation final. -/
def AfterCancel : Answer → Prop
  | .interrupt action => action = .exit
  | .terminal claim => claim = .cancellation
  | .claimed _ result => result = .error .cancelled
  | .finished result => result = .error .cancelled
  | .dropped => True

/-- The answers that leave a completion final. -/
def AfterCompletion : Answer → Prop
  | .interrupt action => action ≠ .cancel
  | .terminal claim => claim = .completion
  | .claimed _ result => result = .error .cancelled
  | .finished result => result = .error .cancelled
  | .dropped => True

variable {c : ProductiveOperationCoordinator}

attribute [local simp] call claim interrupt claimTerminal claimOperation releaseOperation
  commitRunCreationPublication finishRunCreationPublication Permit.state

theorem Cancelled.call (h : Cancelled c) (next : Call) :
    Cancelled (c.call next).2 ∧ AfterCancel (c.call next).1 := by
  obtain ⟨hcancelled, hstate⟩ := h
  simp only [mem_cons, not_mem_nil, or_false] at hstate
  rcases next with _ | _ | (_ | _ | _ | _) | _ | (_ | _ | _ | _) <;>
    rcases hstate with hstate | hstate | hstate | hstate <;>
    simp [Cancelled, AfterCancel, hcancelled, hstate]

theorem completing_call (h : c.state = .completing) (next : Call) :
    (c.call next).2.state = .completing ∧ AfterCompletion (c.call next).1 := by
  rcases next with _ | _ | (_ | _ | _ | _) | _ | (_ | _ | _ | _) <;> simp [AfterCompletion, h]
  split <;> simp

/-- What one call of a registered operation does. -/
theorem call_spec (h : c.state ≠ .idle) (next : Call) :
    (c.call next).2.state ≠ .idle ∧
      ((c.call next).1 = .interrupt .cancel → Cancelled (c.call next).2) ∧
      ((c.call next).1 = .terminal .completion → (c.call next).2.state = .completing) ∧
      ((c.call next).1 = .interrupt .defer → (c.call next).2.deferredInterrupt = true) ∧
      (c.deferredInterrupt = true → (c.call next).2.deferredInterrupt = true) := by
  rcases next with _ | _ | (_ | _ | _ | _) | _ | (_ | _ | _ | _) <;> cases hstate : c.state <;>
    simp [Cancelled, hstate] at h ⊢
  all_goals split <;> simp_all

theorem run_forall {I : ProductiveOperationCoordinator → Prop} {P : Answer → Prop}
    (hcall : ∀ c, I c → ∀ next, I (c.call next).2 ∧ P (c.call next).1) (calls : List Call) :
    ∀ c, I c → I (c.run calls).2 ∧ ∀ answer ∈ (c.run calls).1, P answer := by
  induction calls with
  | nil => exact fun c h => ⟨h, by simp [run]⟩
  | cons next calls ih =>
    intro c h
    obtain ⟨hI, hP⟩ := hcall c h next
    obtain ⟨hrun, hrest⟩ := ih _ hI
    exact ⟨hrun, forall_mem_cons.mpr ⟨hP, hrest⟩⟩

/-- The call that gave an answer, and the calls after it. -/
theorem exists_call_of_answer {before after : List Answer} {answer : Answer} {calls : List Call}
    (harmed : c.state ≠ .idle) (h : (c.run calls).1 = before ++ answer :: after) :
    ∃ (middle : ProductiveOperationCoordinator) (next : Call) (rest : List Call),
      middle.state ≠ .idle ∧ answer = (middle.call next).1 ∧
      after = ((middle.call next).2.run rest).1 ∧
      ((middle.call next).2.run rest).2 = (c.run calls).2 := by
  induction calls generalizing c before with
  | nil => simp [run] at h
  | cons next calls ih =>
    cases before with
    | nil =>
      rw [run, nil_append, cons.injEq] at h
      exact ⟨c, next, calls, harmed, h.1.symm, h.2.symm, rfl⟩
    | cons first before =>
      rw [run, cons_append, cons.injEq] at h
      exact ih (call_spec harmed next).1 h.2

/-- An interrupt that cancels is the only one, nothing is claimed after it, and the operation ends
    cancelled. Once the completion was claimed no interrupt cancels. A deferred interrupt is
    reported when the operation is settled. -/
theorem interrupts_linearized {started : ProductiveOperationCoordinator}
    (hbegin : c.begin = (.ok (), started)) (calls : List Call) :
    (∀ before after, (started.run calls).1 = before ++ .interrupt .cancel :: after →
      ∀ answer ∈ after, AfterCancel answer) ∧
    (∀ before after, (started.run calls).1 = before ++ .terminal .completion :: after →
      ∀ answer ∈ after, AfterCompletion answer) ∧
    (.interrupt .defer ∈ (started.run calls).1 → (started.run calls).2.settle.1 = true) := by
  have harmed : started.state ≠ .idle := by
    unfold begin at hbegin
    split at hbegin
    · cases hbegin
    · cases hbegin
      decide
  refine ⟨fun before after h => ?_, fun before after h => ?_, fun h => ?_⟩
  · obtain ⟨middle, next, rest, hmiddle, hanswer, rfl, -⟩ := exists_call_of_answer harmed h
    exact (run_forall (fun _ => Cancelled.call) rest _
      ((call_spec hmiddle next).2.1 hanswer.symm)).2
  · obtain ⟨middle, next, rest, hmiddle, hanswer, rfl, -⟩ := exists_call_of_answer harmed h
    exact (run_forall (I := fun c => c.state = .completing) (fun _ => completing_call) rest _
      ((call_spec hmiddle next).2.2.1 hanswer.symm)).2
  · obtain ⟨before, after, h⟩ := append_of_mem h
    obtain ⟨middle, next, rest, hmiddle, hanswer, -, hlast⟩ := exists_call_of_answer harmed h
    obtain ⟨hidle, -, -, hdefer, -⟩ := call_spec hmiddle next
    rw [settle, ← hlast]
    -- The mark is never removed before the operation is settled.
    refine (run_forall (I := fun c => c.state ≠ .idle ∧ c.deferredInterrupt = true)
      (P := fun _ => True) (fun c hc next => ?_) rest _ ⟨hidle, hdefer hanswer.symm⟩).1.2
    obtain ⟨hidle, -, -, -, hkept⟩ := call_spec hc.1 next
    exact ⟨⟨hidle, hkept hc.2⟩, trivial⟩

theorem interrupts_linearized_commit :
    let answers := (new.begin.2.run
      [.claim .durableCommit, .interrupt, .drop .durableCommit, .claimTerminal]).1
    answers = [.claimed .durableCommit (.ok true), .interrupt .cancel, .dropped,
      .terminal .cancellation] ∧ ∀ answer ∈ answers.drop 2, AfterCancel answer :=
  ⟨rfl, (interrupts_linearized (c := new) rfl
    [.claim .durableCommit, .interrupt, .drop .durableCommit, .claimTerminal]).1
      [.claimed .durableCommit (.ok true)] _ rfl⟩

end ProductiveOperationCoordinator

end Watershed.FlowAgent
