/-
  When the attempt of a Tool call is settled before its start.

  The interrupts before one taking of the coordinator's lock either end the process or close the
  coordinator, and a closed coordinator gives no further permit. So a call that goes on saw no
  interrupt, and each of its exits is met by a case of its own.
-/
import Watershed.FlowAgent.ToolAttempt

namespace Watershed.FlowAgent

open Fallible List ToolMachine ProductiveOperationCoordinator
open Watershed.Proto Watershed.Proto.Executor
open Watershed.Script (FlowValue PhaseBlock ToolBlock)
open Watershed.Policy (CommandPolicy PolicyArtifact)

/-! ## Interrupts -/

namespace ProductiveOperationCoordinator

/-- No operation may start an effect any more. -/
def Closed (c : ProductiveOperationCoordinator) : Prop :=
  c.state ≠ .idle ∧ c.state ≠ .active ∧ c.state ≠ .dispatching

variable {c : ProductiveOperationCoordinator}

theorem Closed.not_allowed (h : c.Closed) :
    c.effectDispatchAllowed = false := by
  simp [effectDispatchAllowed, h.1, h.2.1]

theorem Closed.claimOperation (h : c.Closed)
    (permit : ProductiveOperationState) : c.claimOperation permit = (.error .cancelled, c) := by
  unfold ProductiveOperationCoordinator.claimOperation
  split
  · exact absurd ‹_› h.1
  · exact absurd ‹_› h.2.1
  · rfl

theorem claimOperation_eq_error {permit : ProductiveOperationState} {error : RuntimeError}
    {c' : ProductiveOperationCoordinator} (h : c.claimOperation permit = (.error error, c')) :
    error = .cancelled ∧ c.state ≠ .idle ∧ c.effectDispatchAllowed = false := by
  unfold ProductiveOperationCoordinator.claimOperation at h
  split at h <;> cases h
  simp_all [effectDispatchAllowed]

theorem Closed.releaseOperation (h : c.Closed) :
    c.releaseOperation .dispatching = c := if_neg h.2.2

/-- An interrupt that does not end the process closes the coordinator. -/
theorem closed_interrupt (h : c.interrupt.1 ≠ .exit) :
    c.interrupt.2.Closed ∧ c.state ≠ .idle := by
  unfold interrupt at h ⊢
  split at h <;> simp_all [Closed]

end ProductiveOperationCoordinator

open ProductiveOperationCoordinator (Closed)

section
variable {α : Type} {machine : ToolMachine}
  {E : Stop → ToolMachine → Prop} {Q : α → ToolMachine → Prop}

@[simp] theorem wp_answer {result : Except RuntimeError α} :
    wp (answer result) Q E machine ↔
      (∀ a, result = .ok a → Q a machine) ∧ (∀ e, result = .error e → E (.error e) machine) := by
  cases result <;> simp [answer, wp, lift, Except.mapError]

theorem wp_answer_ok {a : α} : wp (answer (.ok a)) Q E machine ↔ Q a machine := Iff.rfl

@[simp] theorem wp_stop {error : RuntimeError} :
    wp (stop error : Productive α) Q E machine ↔ E (.error error) machine := Iff.rfl

theorem wp_settled {m : Productive α} {Q : Except RuntimeError α → ToolMachine → Prop} :
    wp (settled m) Q E machine ↔
      wp m (fun a => Q (.ok a)) (fun stop machine' => (∀ error, stop = .error error →
        Q (.error error) machine') ∧ (stop = .exit → E .exit machine')) machine := by
  unfold wp settled
  rcases m machine with ⟨(error | _) | a, machine'⟩ <;> simp

theorem wp_interruptTimes {count : Nat} {Q : Unit → ToolMachine → Prop}
    (hquiet : count = 0 → Q () machine)
    (hclosed : ∀ c : ProductiveOperationCoordinator, c.Closed → 0 < count →
      machine.coordinator.state ≠ .idle → Q () { machine with coordinator := c })
    (hexit : ∀ machine', E .exit machine') : wp (interruptTimes count) Q E machine := by
  induction count generalizing machine with
  | zero => exact hquiet rfl
  | succ count ih =>
    simp only [interruptTimes, interrupt, wp_bind, wp_read]
    cases haction : machine.coordinator.interrupt.1 with
    | exit => exact hexit _
    | _ =>
      have hstep := closed_interrupt
        (c := machine.coordinator) (by simp [haction])
      refine ih (fun _ => hclosed _ hstep.1 (by omega) hstep.2) fun c hc _ _ => ?_
      exact hclosed c hc (by omega) hstep.2

end

section
variable {Prepared Waiting α : Type} {host : ToolHost Prepared Waiting} {machine : ToolMachine}

/-- The machine after one taking of the lock. -/
def ToolMachine.afterLock (machine : ToolMachine) (c : ProductiveOperationCoordinator) :
    ToolMachine :=
  { machine with coordinator := c, moments := machine.moments + 1 }

variable {E : Stop → ToolMachine → Prop} {before after : ToolMachine}

theorem wp_locked
    {method : ProductiveOperationCoordinator → α × ProductiveOperationCoordinator}
    {Q : α → ToolMachine → Prop} (hquiet : host.interrupts machine.moments = 0 →
      Q (method machine.coordinator).1 (machine.afterLock (method machine.coordinator).2))
    (hclosed : ∀ c : ProductiveOperationCoordinator, c.Closed → 0 < host.interrupts machine.moments →
      machine.coordinator.state ≠ .idle → Q (method c).1 (machine.afterLock (method c).2))
    (hexit : ∀ machine', E .exit machine') : wp (locked host method) Q E machine := by
  simp only [locked, wp_bind]
  exact wp_interruptTimes hquiet hclosed hexit

variable {Q : Unit → ToolMachine → Prop} {permit : ProductiveOperationState}
    {effects : List ToolEffect} {final : ToolMachine} {reply : Nat → Option RuntimeError}
  {effect : ToolEffect}

/-- The check passes only without an interrupt. -/
theorem wp_ensureProductiveDispatchAllowed (hpass : host.interrupts machine.moments = 0 →
      machine.coordinator.effectDispatchAllowed = true →
        Q () (machine.afterLock machine.coordinator))
    (hrefuse : ∀ c, ¬ (host.interrupts machine.moments = 0 ∧
      machine.coordinator.effectDispatchAllowed = true) →
        E (.error .cancelled) (machine.afterLock c))
    (hexit : ∀ machine', E .exit machine') :
    wp (ensureProductiveDispatchAllowed host) Q E machine := by
  simp only [ensureProductiveDispatchAllowed, wp_bind]
  refine wp_locked (fun hquiet => ?_) (fun c hc hcount _ => ?_) hexit
  · cases hallowed : machine.coordinator.effectDispatchAllowed with
    | true => exact hpass hquiet hallowed
    | false => exact hrefuse _ (by simp [hallowed])
  · rw [hc.not_allowed]
    exact hrefuse c (by omega)

/-- A permit is given only without an interrupt. -/
theorem wp_claimOperation {Q : Bool → ToolMachine → Prop}
    (hclaim : ∀ claimed c, host.interrupts machine.moments = 0 →
      machine.coordinator.claimOperation permit = (.ok claimed, c) →
        Q claimed (machine.afterLock c))
    (hrefuse : ∀ c, ¬ (host.interrupts machine.moments = 0 ∧
      machine.coordinator.effectDispatchAllowed = true) → machine.coordinator.state ≠ .idle →
        E (.error .cancelled) (machine.afterLock c))
    (hexit : ∀ machine', E .exit machine') :
    wp (claimOperation host permit) Q E machine := by
  simp only [claimOperation, wp_bind]
  refine wp_locked (fun hquiet => ?_) (fun c hc hcount hstate => ?_) hexit
  · rcases hresult : machine.coordinator.claimOperation permit with ⟨error | claimed, c⟩
    · obtain ⟨rfl, hstate, hallowed⟩ := claimOperation_eq_error hresult
      exact hrefuse c (by simp [hallowed]) hstate
    · exact hclaim claimed c hquiet hresult
  · rw [wp_answer, hc.claimOperation]
    refine ⟨fun _ h => (by cases h), fun error herror => ?_⟩
    cases herror
    exact hrefuse c (by omega) hstate

/-! ## What a call adds -/

/-- The effects of `after` are those of `before` and others, among them no intent. -/
def Extends (before after : ToolMachine) : Prop :=
  ∃ added, after.effects = before.effects ++ added ∧ ∀ intent, .intent intent ∉ added

instance : Std.Refl Extends := ⟨fun _ => ⟨[], (append_nil _).symm, by simp⟩⟩

instance : IsTrans ToolMachine Extends where
  trans := by
    rintro a b c ⟨first, hfirst, hno⟩ ⟨second, hsecond, hno'⟩
    refine ⟨first ++ second, by rw [hsecond, hfirst, append_assoc], fun intent hmem => ?_⟩
    exact (mem_append.mp hmem).elim (hno intent) (hno' intent)

theorem Extends.mem (h : Extends before after)
    (hmem : effect ∈ before.effects) : effect ∈ after.effects := by
  obtain ⟨added, hadded, _⟩ := h
  rw [hadded]
  exact mem_append_left _ hmem

theorem Extends.intent (h : Extends before after)
    {intent : RunAttemptIntent} (hmem : .intent intent ∈ after.effects) :
    .intent intent ∈ before.effects := by
  obtain ⟨added, hadded, hno⟩ := h
  rw [hadded] at hmem
  exact (mem_append.mp hmem).resolve_right (hno intent)

theorem extends_of_effects (h : after.effects = before.effects) :
    Extends before after := ⟨[], by simp [h], by simp⟩

/-- A computation that records no intent. -/
abbrev Adds {α : Type} (m : Productive α) : Prop := Moves Extends m

namespace Adds

variable {α : Type}

theorem change {f : ToolMachine → ToolMachine} (h : ∀ machine, (f machine).effects = machine.effects) :
    Adds (Fallible.change f) := Moves.change fun machine => extends_of_effects (h machine)

theorem append {effect : ToolMachine → ToolEffect} (h : ∀ machine intent, effect machine ≠ .intent intent) :
    Adds (Fallible.change fun machine =>
      { machine with effects := machine.effects ++ [effect machine] }) :=
  Moves.change fun machine => ⟨[effect machine], rfl, fun intent hmem =>
    h machine intent (mem_singleton.mp hmem).symm⟩

theorem answer (result : Except RuntimeError α) : Adds (answer result) := .lift _

theorem stop (error : RuntimeError) : Adds (stop error : Productive α) := .fail _

theorem settled {m : Productive α} (h : Adds m) : Adds (settled m) := by
  intro machine
  have hm := h machine
  unfold FlowAgent.settled
  rcases hresult : m machine with ⟨(_ | _) | _, machine'⟩ <;> rw [hresult] at hm <;> exact hm

theorem markRecoveryFailure {m : Productive α} (h : Adds m) : Adds (markRecoveryFailure m) := by
  refine .bind (settled h) fun result => ?_
  cases result with
  | ok a => exact .pure a
  | error error => exact .bind (change (by intro; rfl)) fun _ => stop error

theorem write
    (h : ∀ intent, effect ≠ .intent intent) : Adds (write reply effect) := by
  refine .bind (.read _) fun before => ?_
  cases reply before with
  | none => exact append fun _ => h
  | some error => exact stop error

theorem interruptTimes (count : Nat) : Adds (interruptTimes count) := by
  induction count with
  | zero => exact .pure ()
  | succ count ih =>
    refine .bind ?_ fun _ => ih
    refine .bind (.read _) fun action => .bind (change (by intro; rfl)) fun _ => ?_
    cases action with
    | exit => exact .fail _
    | _ => exact .pure ()

theorem locked (method : ProductiveOperationCoordinator → α × ProductiveOperationCoordinator) :
    Adds (locked host method) :=
  .bind (.read _) fun _ => .bind (interruptTimes _) fun _ =>
    .bind (.read _) fun _ => .bind (change (by intro; rfl)) fun _ => .pure _

theorem ensureProductiveDispatchAllowed : Adds (ensureProductiveDispatchAllowed host) := by
  refine .bind (locked _) fun allowed => ?_
  cases allowed with
  | true => exact .pure ()
  | false => exact stop _

theorem claimOperation (permit : ProductiveOperationState) : Adds (claimOperation host permit) :=
  .bind (locked _) fun _ => answer _

theorem releaseOperation (permit : ProductiveOperationState) (claimed : Bool) :
    Adds (releaseOperation host permit claimed) := by
  cases claimed with
  | true => exact locked _
  | false => exact .pure ()

theorem claimDurableCommit : Adds (claimDurableCommit host) := by
  refine .bind (settled (claimOperation _)) fun result => ?_
  rcases result with error | claimed
  · cases error with
    | cancelled => exact .pure none
    | _ => exact stop _
  · exact .pure (some claimed)

theorem emitAndCommit (eventType : EventType) (payload : Value) :
    Adds (emitAndCommit host eventType payload) := by
  refine .bind (.read _) fun before => ?_
  rcases host.emit before with _ | error | error
  · exact append fun _ _ h => by cases h
  · exact stop error
  · exact .bind (change (by intro; rfl)) fun _ => stop error

variable {L : RuntimeLibraries} (call : ToolCall Prepared)

theorem persistResult (result : RunAttemptResult) : Adds (persistResult host call result) :=
  .bind (write fun _ h => by cases h) fun _ =>
    markRecoveryFailure (write fun _ h => by cases h)

theorem persistExecutorDispatchFailure (stage : ExecutorAttemptStage) (code : ExecutorErrorCodeV0) :
    Adds (persistExecutorDispatchFailure host call stage code) :=
  .bind claimDurableCommit fun _ => .bind (settled (persistResult call _)) fun _ =>
    .bind (releaseOperation _ _) fun _ => answer _

theorem settleCancelled : Adds (settleCancelled host call : Productive α) :=
  .bind (persistResult call _) fun _ => .bind (emitAndCommit _ _) fun _ => stop _

theorem recordExecution (enforcement : EnforcementReceiptV0) (outcome : ToolExecutionOutcome)
    (durable : DurableToolResult) : Adds (recordExecution host call enforcement outcome durable) :=
  .bind (answer _) fun _ => .bind (persistResult call _) fun _ => .pure _

theorem commitExecution (enforcement : EnforcementReceiptV0) (outcome : ToolExecutionOutcome)
    (durable : DurableToolResult) (commit : Option Bool) :
    Adds (commitExecution host L call enforcement outcome durable commit) := by
  unfold FlowAgent.commitExecution
  split
  · exact .bind (answer _) fun _ => recordExecution call _ _ _
  · exact recordExecution call _ _ _

theorem interruptedExecution (outcome : ToolExecutionOutcome) :
    Adds (interruptedExecution host outcome) := by
  unfold FlowAgent.interruptedExecution
  cases outcome.status with
  | completed =>
    exact .bind (settled ensureProductiveDispatchAllowed) fun _ => .pure _
  | _ => exact .pure false

theorem persistExecution (execution : ExecutorToolExecution) :
    Adds (persistExecution host L call execution) := by
  refine .bind (interruptedExecution _) fun interrupted => .bind (answer _) fun durable =>
    .bind (write ?_) fun _ => .bind claimDurableCommit fun commit =>
      .bind (settled (commitExecution call _ _ _ _)) fun _ =>
        .bind (releaseOperation _ _) fun _ => answer _
  intro _ h
  cases h

theorem startTool (waiting : Waiting) : Adds (startTool host waiting) :=
  .bind (append fun _ _ h => by cases h) fun _ => answer _

theorem settleExecution (execution : Except RuntimeError ExecutorDispatchOutcome) :
    Adds (settleExecution host L call execution) := by
  rcases execution with error | execution | code
  · cases error with
    | cancelled => exact settleCancelled call
    | _ => exact .bind (emitAndCommit _ _) fun _ => stop _
  · exact persistExecution call execution
  · exact .bind (persistExecutorDispatchFailure call _ _) fun _ =>
      .bind (emitAndCommit _ _) fun _ => stop _

theorem startWithPermit (waiting : Waiting) (claimed : Bool) :
    Adds (startWithPermit host L call waiting claimed) :=
  .bind (settled (startTool waiting)) fun _ =>
    .bind (releaseOperation _ _) fun _ => settleExecution call _

theorem startAndSettle (waiting : Waiting) : Adds (startAndSettle host L call waiting) := by
  refine .bind (settled (claimOperation _)) fun claimed => ?_
  rcases claimed with error | claimed
  · cases error with
    | cancelled => exact settleCancelled call
    | _ =>
      refine .bind (settled ensureProductiveDispatchAllowed) fun allowed => ?_
      cases allowed with
      | error _ => exact settleCancelled call
      | ok _ => exact .bind (emitAndCommit _ _) fun _ => stop _
  · exact startWithPermit call waiting claimed

theorem continueTool (claimed : Bool)
    (reply : Except RuntimeError (ProductiveToolPreflight Waiting)) :
    Adds (continueTool host L call claimed reply) := by
  refine .bind (releaseOperation _ _) fun _ => .bind (answer _) fun reply => ?_
  cases reply with
  | ready waiting =>
    exact .bind ensureProductiveDispatchAllowed fun _ =>
      .bind (emitAndCommit _ _) fun _ => startAndSettle call waiting
  | rejected code =>
    exact .bind (persistExecutorDispatchFailure call _ _) fun _ => stop _

theorem recoverTool (result : RunAttemptResult) : Adds (recoverTool host L call result) := by
  unfold FlowAgent.recoverTool
  cases result.attemptKind with
  | provider => exact markRecoveryFailure (stop _)
  | tool =>
    refine .bind (markRecoveryFailure (answer _)) fun error => ?_
    rcases error with _ | ⟨_ | _, code⟩
    · refine .bind (emitAndCommit _ _) fun _ => ?_
      cases result.outcome with
      | cancelled =>
        exact .bind (markRecoveryFailure (answer _)) fun _ =>
          .bind (emitAndCommit _ _) fun _ => stop _
      | _ =>
        exact .bind (markRecoveryFailure (answer _)) fun _ =>
          .bind (markRecoveryFailure (answer _)) fun _ =>
            .bind (markRecoveryFailure (answer _)) fun _ => .pure _
    · exact stop _
    · exact .bind (emitAndCommit _ _) fun _ => .bind (emitAndCommit _ _) fun _ => stop _

theorem finishTool (recovered : Bool) (value : FlowValue) (result : RunAttemptResult) :
    Adds (finishTool host call recovered value result) := by
  refine .bind ?_ fun terminal => .bind (emitAndCommit _ _) fun _ => ?_
  · cases recovered with
    | true => exact markRecoveryFailure (answer _)
    | false => exact answer _
  · cases result.outcome with
    | completed => exact .pure value
    | _ => exact stop _

end Adds

/-! ## Settlement -/

/-- Every log, object and event write succeeds. -/
structure ToolHost.WritesSucceed (host : ToolHost Prepared Waiting) : Prop where
  intent : ∀ n, host.intent n = none
  persistObjects : ∀ n, host.persistObjects n = none
  terminal : ∀ n, host.terminal n = none
  recordAttempt : ∀ n, host.recordAttempt n = none
  emit : ∀ n, host.emit n = none

/-- An effect has been done. -/
abbrev Has (effect : ToolEffect) (machine : ToolMachine) : Prop := effect ∈ machine.effects

variable {E : Stop → ToolMachine → Prop} {claimed : Bool} {effect : ToolEffect} {α : Type}

theorem wp_write (hreply : ∀ n, reply n = none) :
    wp (write reply effect) Q E machine ↔
      Q () { machine with effects := machine.effects ++ [effect] } := by
  simp only [write, wp_bind, wp_read, hreply, wp_change]

/-- What has been done stays done. -/
theorem has_of_adds {m : Productive α} (h : Adds m)
    (hhas : Has effect machine) : wp m (fun _ => Has effect) (fun _ => Has effect) machine :=
  (h.wp machine).mono (fun _ _ hext => hext.mem hhas) fun _ _ hext => hext.mem hhas

theorem has_bind {β : Type} {m : Productive α} {f : α → Productive β}
    (hm : wp m (fun _ => Has effect) E machine)
    (hE : ∀ error machine', Has effect machine' → E error machine') (hf : ∀ a, Adds (f a)) :
    wp (m >>= f) (fun _ => Has effect) E machine := by
  rw [wp_bind]
  exact hm.mono_ok fun a _ hhas => (has_of_adds (hf a) hhas).mono (fun _ _ => id) hE

variable {L : RuntimeLibraries} (call : ToolCall Prepared)

variable (hwrites : host.WritesSucceed)
include hwrites

theorem wp_persistResult (result : RunAttemptResult) :
    wp (persistResult host call result) (fun _ => Has (.terminal result))
      (fun _ => Has (.terminal result)) machine := by
  refine has_bind ?_ (fun _ _ => id) fun _ =>
    Adds.markRecoveryFailure (Adds.write fun _ h => by cases h)
  rw [wp_write hwrites.terminal]
  exact mem_append_right _ (mem_singleton_self _)

theorem wp_settleCancelled :
    wp (settleCancelled host call : Productive α) (fun _ _ => False)
      (fun _ => Has (.terminal (cancelledToolResult call))) machine := by
  simp only [settleCancelled, wp_bind]
  refine (wp_persistResult call hwrites _).mono_ok (fun _ s hhas => ?_)
  exact has_of_adds (Adds.emitAndCommit _ _) hhas

omit hwrites in
theorem wp_claimDurableCommit :
    wp (claimDurableCommit host) (fun _ _ => True) (fun stop _ => stop = .exit) machine := by
  simp only [claimDurableCommit, wp_bind, wp_settled]
  refine wp_claimOperation (fun _ _ _ _ => trivial) (fun c _ _ => ?_) ?_
  · exact ⟨fun _ h => (by cases h; trivial), fun h => (by cases h)⟩
  · exact fun _ => ⟨fun _ h => (by cases h), fun _ => trivial⟩

theorem wp_persistExecutorDispatchFailure
    (stage : ExecutorAttemptStage) (code : ExecutorErrorCodeV0) :
    wp (persistExecutorDispatchFailure host call stage code)
      (fun _ => Has (.terminal (executorDispatchFailureResult call stage code)))
      (fun stop machine' => stop ≠ .exit →
        Has (.terminal (executorDispatchFailureResult call stage code)) machine') machine := by
  unfold persistExecutorDispatchFailure
  rw [wp_bind]
  refine wp_claimDurableCommit.mono (fun commit s _ => ?_) fun stop _ hexit h => absurd hexit h
  refine has_bind ?_ (fun _ _ hhas _ => hhas) fun _ =>
    .bind (Adds.releaseOperation _ _) fun _ => Adds.answer _
  rw [wp_settled]
  exact (wp_persistResult call hwrites _).mono (fun _ _ => id) fun _ _ hhas =>
    ⟨fun _ _ => hhas, fun _ h => absurd rfl h⟩

variable (waiting : Waiting)

omit hwrites in
/-- A permit leads to the start, whatever the Executor then says. -/
theorem wp_startWithPermit (claimed : Bool) :
    wp (startWithPermit host L call waiting claimed) (fun _ => Has .start) (fun _ => Has .start)
      machine := by
  have hstart : wp (startTool host waiting) (fun _ => Has .start) (fun _ => Has .start) machine := by
    refine has_bind ?_ (fun _ _ => id) fun _ => Adds.answer _
    exact mem_append_right _ (mem_singleton_self _)
  have hsettled : wp (settled (startTool host waiting)) (fun _ => Has .start) (fun _ => Has .start)
      machine := wp_settled.mpr (hstart.mono (fun _ _ => id) fun _ _ hhas =>
        ⟨fun _ _ => hhas, fun _ => hhas⟩)
  exact has_bind hsettled (fun _ _ => id) fun _ =>
    .bind (Adds.releaseOperation _ _) fun _ => Adds.settleExecution call _

/-- Once `tool.started` is out, the attempt is started or settled as cancelled. -/
theorem wp_startAndSettle :
    wp (startAndSettle host L call waiting)
      (fun _ machine' => Has .start machine' ∧
        (machine.coordinator.state = .idle → host.interrupts machine.moments = 0))
      (fun stop machine' => stop ≠ .exit →
        (Has .start machine' ∨ Has (.terminal (cancelledToolResult call)) machine') ∧
        (machine.coordinator.state = .idle → host.interrupts machine.moments = 0)) machine := by
  simp only [startAndSettle, wp_bind, wp_settled]
  refine wp_claimOperation (fun _ _ hquiet _ => ?_) (fun c _ hstate => ?_) ?_
  · exact (wp_startWithPermit call waiting _).mono (fun _ _ hhas => ⟨hhas, fun _ => hquiet⟩)
      fun _ _ hhas _ => ⟨.inl hhas, fun _ => hquiet⟩
  · refine ⟨fun error herror => ?_, fun h => (by cases h)⟩
    cases herror
    exact (wp_settleCancelled call hwrites).mono (fun _ _ h => h.elim)
      fun _ _ hhas _ => ⟨.inr hhas, fun hidle => absurd hidle hstate⟩
  · exact fun _ => ⟨fun _ h => (by cases h), fun _ h => absurd rfl h⟩

/-! ## The call -/

/-- Preflight gave an answer. -/
def Answered (effects : List ToolEffect) : Prop :=
  .preflightReady ∈ effects ∨ ∃ code, .preflightRejected code ∈ effects

/-- An attempt has a terminal result: cancelled, or rejected by preflight. -/
def SettledBeforeStart (attemptId : String) (effects : List ToolEffect) : Prop :=
  ∃ result, .terminal result ∈ effects ∧ result.attemptId = attemptId ∧
    (result.outcome = .cancelled ∧ result.durableOutput = some cancelledAttemptOutput ∨
      ∃ code, result.outcome = .failed ∧
        result.durableOutput = some (executorDispatchFailureOutput .preflight code))

/-- Every attempt that preflight answered and that was not started has its result. -/
def LeftCertain (effects : List ToolEffect) : Prop :=
  ∀ intent, .intent intent ∈ effects → .start ∉ effects → Answered effects →
    SettledBeforeStart intent.attemptId effects

/-- A call that gets to its preflight and is told that the Executor is ready. -/
def PreflightReady (host : ToolHost Prepared Waiting) (call : ToolCall Prepared)
    (machine : ToolMachine) : Prop :=
  machine.coordinator.effectDispatchAllowed = true ∧ host.interrupts machine.moments = 0 ∧
    host.reserveProductiveDispatch = .ok () ∧ host.interrupts (machine.moments + 1) = 0 ∧
    ∃ waiting, host.preflight call.prepared = .ok (.ready waiting)

/-- No interrupt comes from the taking of preflight's permit to the check that follows. -/
def QuietUntilStarted (host : ToolHost Prepared Waiting) (machine : ToolMachine) : Prop :=
  host.interrupts (machine.moments + 2) = 0 ∧ host.interrupts (machine.moments + 3) = 0

/-- What a dispatch comes to. -/
def Settles (host : ToolHost Prepared Waiting) (call : ToolCall Prepared)
    (machine final : ToolMachine) : Prop :=
  LeftCertain final.effects ↔ (PreflightReady host call machine → QuietUntilStarted host machine)

omit hwrites in
theorem leftCertain_of_not_answered (h : ¬ Answered effects) :
    LeftCertain effects := fun _ _ _ hanswered => absurd hanswered h

omit hwrites in
theorem leftCertain_of_start (h : .start ∈ effects) :
    LeftCertain effects := fun _ _ hstart _ => absurd h hstart

/-- The only attempt of a machine is the call's. -/
def OnlyAttempt (call : ToolCall Prepared) (machine : ToolMachine) : Prop :=
  ∀ intent, Has (.intent intent) machine → intent.attemptId = call.attemptId

omit hwrites in
theorem leftCertain_of_settled (honly : OnlyAttempt call before) (hext : Extends before final)
    (hsettled : SettledBeforeStart call.attemptId final.effects) : LeftCertain final.effects := by
  intro intent hintent _ _
  rwa [honly intent (hext.intent hintent)]

theorem wp_emitAndCommit {eventType : EventType} {payload : Value} :
    wp (emitAndCommit host eventType payload) Q E machine ↔
      Q () { machine with effects := machine.effects ++ [.event eventType payload] } := by
  simp only [emitAndCommit, wp_bind, wp_read, hwrites.emit, wp_change]

/-- After the check that follows preflight, the attempt is started or settled. -/
theorem wp_startAfterCheck
    (heffects : machine.effects = [.intent (intentOf host call), .preflightReady]) :
    wp (do emitToolStarted host call; startAndSettle host L call waiting)
      (fun _ machine' => Has .start machine' ∧
        (machine.coordinator.state = .idle → host.interrupts machine.moments = 0))
      (fun stop machine' => stop ≠ .exit → LeftCertain machine'.effects ∧
        (machine.coordinator.state = .idle → host.interrupts machine.moments = 0)) machine := by
  rw [wp_bind, emitToolStarted, wp_emitAndCommit hwrites]
  refine ((wp_startAndSettle call hwrites waiting).and
    ((Adds.startAndSettle call waiting).wp _)).mono (fun _ _ h => h.1) fun stop final h hexit => ?_
  refine ⟨?_, (h.1 hexit).2⟩
  rcases (h.1 hexit).1 with hstart | hterminal
  · exact leftCertain_of_start hstart
  · refine leftCertain_of_settled call ?_ h.2 ⟨_, hterminal, rfl, .inl ⟨rfl, rfl⟩⟩
    intro intent hintent
    simp only [Has, heffects] at hintent
    simp at hintent
    rw [hintent]
    rfl

omit hwrites in
/-- Ready without a result is what an interrupt in the window leaves. -/
theorem not_leftCertain_ready
    (heffects : final.effects = [.intent (intentOf host call), .preflightReady]) :
    ¬ LeftCertain final.effects := by
  intro h
  rw [heffects] at h
  obtain ⟨result, hmem, _⟩ := h (intentOf host call) (by simp) (by simp) (.inl (by simp))
  simp at hmem

/-- The permit that preflight has, and what the coordinator says about it. -/
def HoldsPermit (claimed : Bool) (machine : ToolMachine) : Prop :=
  claimed = false ∧ machine.coordinator.state = .idle ∨
    claimed = true ∧ machine.coordinator.state = .dispatching ∧
      machine.coordinator.cancelled = false

omit hwrites in
theorem holdsPermit_of_claim {c : ProductiveOperationCoordinator}
    (hnotMarked : machine.coordinator.NotMarked)
    (h : machine.coordinator.claimOperation .dispatching = (.ok claimed, c)) :
    HoldsPermit claimed (machine.afterLock c) := by
  unfold ProductiveOperationCoordinator.claimOperation at h
  split at h <;> cases h
  · exact .inl ⟨rfl, ‹_›⟩
  · exact .inr ⟨rfl, rfl, hnotMarked (.inl ‹_›)⟩

theorem wp_continueTool_ready
    (heffects : machine.effects = [.intent (intentOf host call), .preflightReady])
    (hpermit : HoldsPermit claimed machine) :
    wp (continueTool host L call claimed (.ok (.ready waiting)))
      (fun _ machine' => Has .start machine' ∧
        host.interrupts machine.moments = 0 ∧ host.interrupts (machine.moments + 1) = 0)
      (fun stop machine' => stop ≠ .exit → (LeftCertain machine'.effects ↔
        host.interrupts machine.moments = 0 ∧ host.interrupts (machine.moments + 1) = 0))
      machine := by
  unfold continueTool
  rw [wp_bind]
  rcases hpermit with ⟨rfl, hidle⟩ | ⟨rfl, hdispatching, hcancelled⟩
  · -- Without an operation the permit has no lock, and an interrupt ends the process.
    simp only [releaseOperation, wp_pure]
    rw [wp_bind, wp_answer_ok, wp_bind]
    refine wp_ensureProductiveDispatchAllowed (fun hquiet _ => ?_) (fun c hrefused _ => ?_)
      fun _ h => absurd rfl h
    · refine wp.mono (wp_startAfterCheck call hwrites waiting heffects)
        (fun _ _ h => ⟨h.1, hquiet, h.2 hidle⟩) fun _ _ h hexit => ?_
      exact iff_of_true (h hexit).1 ⟨hquiet, (h hexit).2 hidle⟩
    · have hallowed : machine.coordinator.effectDispatchAllowed = true := by
        simp [ProductiveOperationCoordinator.effectDispatchAllowed, hidle]
      exact iff_of_false (not_leftCertain_ready call heffects) fun h => hrefused ⟨h.1, hallowed⟩
  · simp only [releaseOperation]
    refine wp_locked (fun hquiet => ?_) (fun c hc hcount _ => ?_) fun _ h => absurd rfl h
    all_goals rw [wp_bind, wp_answer_ok, wp_bind]
    · refine wp_ensureProductiveDispatchAllowed (fun hquiet' _ => ?_) (fun c hrefused _ => ?_)
        fun _ h => absurd rfl h
      · refine wp.mono (wp_startAfterCheck call hwrites waiting heffects)
          (fun _ _ h => ⟨h.1, hquiet, hquiet'⟩) fun _ _ h hexit => ?_
        exact iff_of_true (h hexit).1 ⟨hquiet, hquiet'⟩
      · refine iff_of_false (not_leftCertain_ready call heffects) fun h => hrefused ⟨h.2, ?_⟩
        simp [afterLock, ProductiveOperationCoordinator.releaseOperation, hdispatching,
          hcancelled, ProductiveOperationCoordinator.effectDispatchAllowed]
    · -- A closed coordinator stays closed, so the check refuses.
      rw [hc.releaseOperation]
      refine wp_ensureProductiveDispatchAllowed (fun _ hallowed => ?_) (fun _ _ _ => ?_)
        fun _ h => absurd rfl h
      · exact absurd (hc.not_allowed.symm.trans hallowed) (by simp)
      · exact iff_of_false (not_leftCertain_ready call heffects) fun h => by omega

omit hwrites in
theorem wp_releaseOperation :
    wp (releaseOperation host permit claimed) (fun _ final => final.effects = machine.effects)
      (fun stop _ => stop = .exit) machine := by
  cases claimed with
  | true =>
    simp only [releaseOperation]
    exact wp_locked (fun _ => rfl) (fun _ _ _ _ => rfl) fun _ => rfl
  | false => exact rfl

theorem wp_continueTool_rejected {code : ExecutorErrorCodeV0} (honly : OnlyAttempt call machine) :
    wp (continueTool host L call claimed (.ok (.rejected code))) (fun _ _ => False)
      (fun stop final => stop ≠ .exit → LeftCertain final.effects) machine := by
  have hterminal : wp (continueTool host L call claimed (.ok (.rejected code))) (fun _ _ => False)
      (fun stop final => stop ≠ .exit →
        Has (.terminal (executorDispatchFailureResult call .preflight code)) final) machine := by
    unfold continueTool
    rw [wp_bind]
    refine wp_releaseOperation.mono (fun _ s _ => ?_) fun _ _ hexit h => absurd hexit h
    rw [wp_bind, wp_answer_ok, wp_bind]
    exact (wp_persistExecutorDispatchFailure call hwrites _ _).mono (fun _ _ hhas _ => hhas)
      fun _ _ => id
  refine (hterminal.and ((Adds.continueTool call claimed _).wp machine)).mono
    (fun _ _ h => h.1) fun _ final h hexit => ?_
  exact leftCertain_of_settled call honly h.2 ⟨_, h.1 hexit, rfl, .inr ⟨code, rfl, rfl⟩⟩

omit hwrites in
/-- Preflight that fails without an answer. -/
theorem wp_continueTool_error {error : RuntimeError} (hanswered : ¬ Answered machine.effects) :
    wp (continueTool host L call claimed (.error error)) (fun _ _ => False)
      (fun stop final => stop ≠ .exit → LeftCertain final.effects) machine := by
  unfold continueTool
  rw [wp_bind]
  refine wp_releaseOperation.mono (fun _ final hfinal => ?_) fun _ _ hexit h => absurd hexit h
  rw [wp_bind, wp_answer, hfinal]
  exact ⟨fun _ h => (by cases h), fun _ _ _ => leftCertain_of_not_answered hanswered⟩

/-- A call whose dispatch has its permit. -/
theorem wp_preflightAndContinue (heffects : machine.effects = [.intent (intentOf host call)])
    (hpermit : HoldsPermit claimed machine) :
    wp (do
      let reply ← settled (preflightTool host call.prepared)
      continueTool host L call claimed reply)
      (fun _ final => Has .start final ∧
        host.interrupts machine.moments = 0 ∧ host.interrupts (machine.moments + 1) = 0)
      (fun stop final => stop ≠ .exit → (LeftCertain final.effects ↔
        ((∃ waiting, host.preflight call.prepared = .ok (.ready waiting)) →
          host.interrupts machine.moments = 0 ∧ host.interrupts (machine.moments + 1) = 0)))
      machine := by
  simp only [preflightTool, wp_bind, wp_settled, wp_answer, wp_change, wp_pure]
  refine ⟨fun reply hreply => ?_, fun error herror => ⟨fun _ h => ?_, fun h => (by cases h)⟩⟩
  · rw [hreply]
    cases reply with
    | ready waiting =>
      refine wp.mono (wp_continueTool_ready call hwrites waiting (by simp [heffects]) hpermit)
        (fun _ _ h => h) fun _ _ h hexit => (h hexit).trans ?_
      exact ⟨fun h _ => h, fun h => h ⟨waiting, rfl⟩⟩
    | rejected code =>
      refine wp.mono (wp_continueTool_rejected call hwrites ?_) (fun _ _ h => h.elim)
        fun _ _ h hexit => iff_of_true (h hexit) ?_
      · intro intent hintent
        simp only [Has, heffects, cons_append, nil_append, mem_cons,
          ToolEffect.intent.injEq, reduceCtorEq, not_mem_nil, or_false] at hintent
        rw [hintent]
        rfl
      · rintro ⟨_, h⟩
        cases h
  · rw [herror]
    refine wp.mono (wp_continueTool_error call ?_) (fun _ _ h => h.elim)
      fun _ _ h hexit => iff_of_true (h hexit) ?_
    · simp [Answered, heffects]
    · rintro ⟨_, h⟩
      cases h

theorem wp_dispatchTool (heffects : machine.effects = [])
    (hnotMarked : machine.coordinator.NotMarked) :
    wp (dispatchTool host L call)
      (fun _ final => Has .start final ∧
        (PreflightReady host call machine → QuietUntilStarted host machine))
      (fun stop final => stop ≠ .exit → Settles host call machine final) machine := by
  unfold dispatchTool
  rw [wp_bind]
  refine wp_ensureProductiveDispatchAllowed (fun hquiet hallowed => ?_) (fun c hrefused _ => ?_)
    fun _ h => absurd rfl h
  · rw [wp_bind, wp_answer]
    refine ⟨fun _ hreserved => ?_, fun error herror _ => ?_⟩
    · rw [wp_bind, wp_write hwrites.intent, wp_bind]
      refine wp_claimOperation (fun claimed c hquiet' hclaim => ?_) (fun c hrefused _ _ => ?_)
        fun _ h => absurd rfl h
      · refine wp.mono (wp_preflightAndContinue call hwrites
          (by simp [afterLock, heffects]) (holdsPermit_of_claim hnotMarked hclaim))
          (fun _ _ h => ⟨h.1, fun _ => h.2⟩) fun _ _ h hexit => (h hexit).trans ?_
        -- What is known of the answers before preflight turns its window into the dispatch's.
        change host.interrupts (machine.moments + 1) = 0 at hquiet'
        exact imp_congr (by simp [PreflightReady, hquiet, hallowed, hreserved, hquiet']) Iff.rfl
      · refine iff_of_true (leftCertain_of_not_answered ?_) fun h => ?_
        · simp [Answered, afterLock, heffects]
        · exact absurd ⟨h.2.2.2.1, hallowed⟩ hrefused
    · refine iff_of_true (leftCertain_of_not_answered ?_) fun hready => ?_
      · simp [Answered, afterLock, heffects]
      · exact absurd (herror.symm.trans hready.2.2.1) (by simp)
  · refine iff_of_true (leftCertain_of_not_answered ?_) fun hready => ?_
    · simp [Answered, afterLock, heffects]
    · exact absurd ⟨hready.2.1, hready.1⟩ hrefused


omit hwrites
/-- Preparation leaves the log and the coordinator alone. -/
def SameCourse (before after : ToolMachine) : Prop :=
  after.effects = before.effects ∧ after.coordinator = before.coordinator ∧
    after.moments = before.moments

instance : Std.Refl SameCourse := ⟨fun _ => ⟨rfl, rfl, rfl⟩⟩

instance : IsTrans ToolMachine SameCourse where
  trans _ _ _ h h' := ⟨h'.1.trans h.1, h'.2.1.trans h.2.1, h'.2.2.trans h.2.2⟩

theorem moves_prepareToolCall (phase : PhaseBlock) (tool : ToolBlock) (arguments : FlowValue) :
    Moves SameCourse (prepareToolCall host phase tool arguments) :=
  .bind (.lift _) fun _ => .bind (.lift _) fun _ =>
    .bind (.lift _) fun _ =>
      .bind (.change fun _ => ⟨rfl, rfl, rfl⟩) fun _ => .bind (.read _) fun _ =>
        .bind (.read _) fun _ => .bind (.lift _) fun _ =>
          .bind (.lift _) fun _ => .pure _

/-- A call whose Executor is ready: everything before preflight succeeds, and preflight is asked
    before an interrupt comes. -/
def ExecutorReady (host : ToolHost Prepared Waiting) (phase : PhaseBlock) (tool : ToolBlock)
    (arguments : FlowValue) (machine : ToolMachine) : Prop :=
  ∃ call machine', prepareToolCall host phase tool arguments machine = (.ok call, machine') ∧
    host.recoverAttempt .tool call.attemptId (call.requestHash host) (some tool.identity.id) =
      .ok none ∧
    PreflightReady host call machine

theorem wp_markRecoveryFailure_answer {reply : Except RuntimeError α} {Q : α → ToolMachine → Prop} :
    wp (markRecoveryFailure (answer reply)) Q E machine ↔
      (∀ a, reply = .ok a → Q a machine) ∧
        (∀ e, reply = .error e → E (.error e) { machine with recoveryFailed := true }) := by
  simp only [markRecoveryFailure, wp_bind, wp_settled]
  cases reply <;> simp

theorem wp_executeProductiveTool (hwrites : host.WritesSucceed) (heffects : machine.effects = [])
    (hnotMarked : machine.coordinator.NotMarked) (phase : PhaseBlock) (tool : ToolBlock)
    (arguments : FlowValue) :
    wp (executeProductiveTool host L phase tool arguments)
      (fun _ final => LeftCertain final.effects ↔
        (ExecutorReady host phase tool arguments machine → QuietUntilStarted host machine))
      (fun stop final => stop ≠ .exit → (LeftCertain final.effects ↔
        (ExecutorReady host phase tool arguments machine → QuietUntilStarted host machine)))
      machine := by
  have hsame : SameCourse machine (prepareToolCall host phase tool arguments machine).2 :=
    moves_prepareToolCall phase tool arguments machine
  unfold executeProductiveTool
  rw [wp_bind]
  rcases hprepare : prepareToolCall host phase tool arguments machine with ⟨error | call, machine'⟩
  all_goals
    rw [hprepare] at hsame
    obtain ⟨hsameEffects, hcoordinator, hmoments⟩ := hsame
    have hempty : machine'.effects = [] := hsameEffects.trans heffects
  · rw [wp_of_error hprepare]
    refine fun _ => iff_of_true (leftCertain_of_not_answered ?_) ?_
    · simp [Answered, hempty]
    · rintro ⟨call, _, hcall, _⟩
      cases hprepare.symm.trans hcall
  rw [wp_of_ok hprepare, wp_bind]
  -- What the call found out is all that the condition knows of it.
  have hready : ExecutorReady host phase tool arguments machine ↔
      host.recoverAttempt .tool call.attemptId (call.requestHash host) (some tool.identity.id) =
        .ok none ∧ PreflightReady host call machine := by
    constructor
    · rintro ⟨_, _, hcall, h⟩
      cases hprepare.symm.trans hcall
      exact h
    · exact fun h => ⟨call, machine', hprepare, h⟩
  have hwindow : (PreflightReady host call machine' → QuietUntilStarted host machine') ↔
      (PreflightReady host call machine → QuietUntilStarted host machine) := by
    simp only [PreflightReady, QuietUntilStarted, show machine'.coordinator = _ from hcoordinator,
      show machine'.moments = _ from hmoments]
  rw [hready, wp_markRecoveryFailure_answer]
  refine ⟨fun recovered hrecovered => ?_, fun error herror _ => ?_⟩
  · rw [hrecovered]
    cases recovered with
    | some result =>
      -- A recovered attempt is not a new one.
      have hadds : Adds (do
          let ended ← settleTool host L call (some result)
          finishTool host call true ended.1 ended.2) :=
        .bind (Adds.recoverTool call result) fun _ => Adds.finishTool call _ _ _
      have hcertain : ∀ final, Extends machine' final → LeftCertain final.effects :=
        fun final hext intent hintent => absurd (hext.intent hintent) (by simp [hempty])
      refine (hadds.wp machine').mono (fun _ final hext => ?_) fun _ final hext _ => ?_
      all_goals exact iff_of_true (hcertain final hext) fun h => (by cases h.1)
    | none =>
      simp only [true_and]
      rw [wp_bind]
      refine (wp_dispatchTool call hwrites hempty ?_).mono
        (fun ended s h => ?_) fun _ _ h hexit => (h hexit).trans hwindow
      · rw [show machine'.coordinator = _ from hcoordinator]
        exact hnotMarked
      · have hfinish : wp (finishTool host call false ended.1 ended.2) (fun _ => Has .start)
            (fun _ => Has .start) s := has_of_adds (Adds.finishTool call _ _ _) h.1
        exact hfinish.mono (fun _ _ hhas => iff_of_true (leftCertain_of_start hhas) (hwindow.mp h.2))
          fun _ _ hhas _ => iff_of_true (leftCertain_of_start hhas) (hwindow.mp h.2)
  · refine iff_of_true (leftCertain_of_not_answered ?_) fun h => ?_
    · simp [Answered, hempty]
    · cases herror.symm.trans h.1

/-- A Tool attempt that preflight answered and that was not started has its terminal result,
    exactly when no interrupt comes between preflight's permit and the check after a ready
    answer. -/
theorem tool_attempt_settled_iff (hwrites : host.WritesSucceed) (machine : ToolMachine)
    (heffects : machine.effects = []) (hreachable : machine.coordinator.Reachable)
    (phase : PhaseBlock) (tool : ToolBlock) (arguments : FlowValue)
    (result : Except Stop FlowValue) (final : ToolMachine)
    (hrun : executeProductiveTool host L phase tool arguments machine = (result, final))
    (hreturns : result ≠ .error .exit) :
    LeftCertain final.effects ↔
      (ExecutorReady host phase tool arguments machine → QuietUntilStarted host machine) := by
  have h := wp_executeProductiveTool (L := L) hwrites heffects
    (notMarked_of_reachable hreachable) phase tool arguments
  cases result with
  | ok value => exact h.of_ok hrun
  | error stop => exact h.of_error hrun fun hstop => hreturns (congrArg _ hstop)

end

/-! ## An interrupt during preflight -/

/-- The libraries on ASCII texts; no digest is computed with them here. -/
def runtimeLibraries : RuntimeLibraries :=
  { Script.scriptLibraries with
    sha256Hex := fun _ => String.ofList (List.replicate 64 '0')
    fromValueError := fun _ => "invalid value" }

def echoTool : ToolBlock :=
  { identity := { id := "echo", name := "Echo" }
    toolKind := .predefinedCommand
    command := .predefined "agent-echo" []
    scriptRuntime := none
    scriptBody := none
    allowedParameters := [] }

def echoPhase : PhaseBlock :=
  { identity := { id := "talk", name := "Talk" }
    instructionRefs := []
    toolRefs := ["echo"]
    phaseRefs := []
    output := .boolean
    resultFrom := none
    loopConfig := none
    transitions := [] }

def echoCommand : CommandPolicy :=
  { allowedParameters := []
    argv := []
    commandId := "agent-echo"
    environment := { allow := [], default := .clear }
    executable := "registry:agent-echo"
    scriptRuntime := none
    toolId := "echo"
    toolKind := .predefinedCommand }

def echoPolicy : PolicyArtifact :=
  { commands := [echoCommand]
    phaseScope := [{ phaseId := "talk", toolIds := ["echo"] }]
    policyVersion := "0"
    runtimeLimits := { headless := true, timeoutMs := 1000 }
    sourceFlowDefinitionId := "flow" }

/-- A host whose Executor is ready and whose writes succeed. -/
def readyHost (interrupts : Nat → Nat) : ToolHost Unit Unit :=
  { policy := echoPolicy
    buildToolInvocation := fun _ _ => .ok { executable := "registry:agent-echo", argv := [] }
    verifyBinding := .ok ()
    timestamp := fun _ => .ok "2026-01-01T00:00:00Z"
    prepare := fun _ _ _ => .ok ()
    requestHash := fun _ => "sha256:request"
    policyDigest := fun _ => "sha256:policy"
    validateEnforcementReceipt := fun _ _ => .ok ()
    preflight := fun _ => .ok (.ready ())
    start := fun _ => .error .cancelled
    recoverAttempt := fun _ _ _ _ => .ok none
    readObject := fun _ => .error (.protocol "productive recovery object access is unavailable")
    reserveProductiveDispatch := .ok ()
    intent := fun _ => none
    persistObjects := fun _ => none
    terminal := fun _ => none
    recordAttempt := fun _ => none
    emit := fun _ => none
    interrupts := interrupts }

theorem readyHost_writesSucceed (interrupts : Nat → Nat) : (readyHost interrupts).WritesSucceed :=
  ⟨fun _ => rfl, fun _ => rfl, fun _ => rfl, fun _ => rfl, fun _ => rfl⟩

/-- A machine whose operation has begun. -/
def begunMachine : ToolMachine :=
  { coordinator := new.begin.2
    moments := 0
    providerAttempts := 1
    toolAttempts := 0
    recoveryFailed := false
    eventCommitFailed := false
    effects := [] }

/-- One interrupt while preflight is asked. -/
def interruptedPreflight : Nat → Nat := fun moment => if moment = 2 then 1 else 0

/-- One interrupt before the start's permit. -/
def interruptedStart : Nat → Nat := fun moment => if moment = 4 then 1 else 0

/-- The interrupted call ends with an intent, a ready Executor and nothing else: an attempt that
    needs manual reconciliation, although it was never started. -/
theorem interrupted_preflight_uncertain :
    (readyHost interruptedPreflight).WritesSucceed ∧ begunMachine.coordinator.Reachable ∧
    (executeProductiveTool (readyHost interruptedPreflight) runtimeLibraries echoPhase echoTool
      (.map []) begunMachine).1 = .error (.error .cancelled) ∧
    ¬ LeftCertain (executeProductiveTool (readyHost interruptedPreflight) runtimeLibraries echoPhase
      echoTool (.map []) begunMachine).2.effects := by
  refine ⟨readyHost_writesSucceed _, .begin .new, rfl, fun h => ?_⟩
  change LeftCertain [.intent _, .preflightReady] at h
  obtain ⟨result, hmem, _⟩ := h _ (.head _) (by simp) (.inl (by simp))
  simp at hmem

/-- An interrupt after the check is met by the start's permit, and the attempt is cancelled. -/
theorem interrupted_start_settled :
    (executeProductiveTool (readyHost interruptedStart) runtimeLibraries echoPhase echoTool (.map [])
      begunMachine).1 = .error (.error .cancelled) ∧
    LeftCertain (executeProductiveTool (readyHost interruptedStart) runtimeLibraries echoPhase
      echoTool (.map []) begunMachine).2.effects := by
  refine ⟨rfl, (tool_attempt_settled_iff (readyHost_writesSucceed interruptedStart) begunMachine rfl
    (.begin .new) echoPhase echoTool (.map []) _ _ Prod.mk.eta.symm ?_).mpr fun _ => ⟨rfl, rfl⟩⟩
  rintro ⟨⟩

end Watershed.FlowAgent
