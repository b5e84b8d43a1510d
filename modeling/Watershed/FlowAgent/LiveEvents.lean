/-
  The live-event channel (`live_events.rs`): a producer announces committed sequences through a
  channel that holds one wake-up and a shared high-watermark, and a receiver waits for wake-ups.

  An announcement is two atomic operations, one on the high-watermark and one on the channel, and
  so is a receive. Calls of different threads interleave between them: `LiveStep` is one atomic
  operation, and a run is any list of them.
-/
import Mathlib.Data.List.Basic

open List

namespace Watershed.FlowAgent

/-! ## The channel -/

def liveEventNotificationCapacity : Nat := 1

inductive LiveEventNotifyStatus where
  | queued
  | coalesced
  | closed
  deriving DecidableEq

/-- What a producer sends: the conversation, the session and the committed sequence. -/
structure WakeUp where
  conversationId : Option String
  sessionId : String
  committedSequence : Nat
  deriving DecidableEq

/-- The run that a wake-up is about. -/
def WakeUp.run (wakeUp : WakeUp) : Option String × String :=
  (wakeUp.conversationId, wakeUp.sessionId)

structure LiveEventNotification where
  conversationId : Option String
  sessionId : String
  firstCommittedSequence : Nat
  highestCommittedSequence : Nat
  deriving DecidableEq

def LiveEventNotification.run (notification : LiveEventNotification) : Option String × String :=
  (notification.conversationId, notification.sessionId)

inductive LiveEventReceiveError where
  | timeout
  | closed
  deriving DecidableEq

structure LiveChannel where
  /-- The atomic counter that both sides share. -/
  highestCommittedSequence : Nat
  queue : List WakeUp
  notifierOpen : Bool
  receiverOpen : Bool
  deriving DecidableEq

namespace LiveChannel

def liveEventChannel : LiveChannel :=
  { highestCommittedSequence := 0, queue := [], notifierOpen := true, receiverOpen := true }

/-- `fetch_max` of the shared counter. -/
def fetchMax (committedSequence : Nat) (channel : LiveChannel) : LiveChannel := { channel with
    highestCommittedSequence := max channel.highestCommittedSequence committedSequence }

/-- `try_send` of the bounded channel. -/
def trySend (wakeUp : WakeUp) (channel : LiveChannel) : LiveEventNotifyStatus × LiveChannel :=
  if channel.receiverOpen = false then (.closed, channel)
  else if channel.queue.length < liveEventNotificationCapacity then
    (.queued, { channel with queue := channel.queue ++ [wakeUp] })
  else (.coalesced, channel)

/-- The call as a whole, when nothing runs in between. -/
def tryNotifyRun (wakeUp : WakeUp) (channel : LiveChannel) : LiveEventNotifyStatus × LiveChannel :=
  (channel.fetchMax wakeUp.committedSequence).trySend wakeUp

/-- `Receiver::recv_timeout`, once it returns: the oldest wake-up, or an error when there is
    none. -/
def takeWakeUp (channel : LiveChannel) : Except LiveEventReceiveError (WakeUp × LiveChannel) :=
  match channel.queue with
  | wakeUp :: rest => .ok (wakeUp, { channel with queue := rest })
  | [] => .error (if channel.notifierOpen then .timeout else .closed)

/-- What the receiver returns for a wake-up that it has taken. -/
def notification (wakeUp : WakeUp) (channel : LiveChannel) : LiveEventNotification :=
  { conversationId := wakeUp.conversationId
    sessionId := wakeUp.sessionId
    firstCommittedSequence := wakeUp.committedSequence
    highestCommittedSequence := channel.highestCommittedSequence }

/-- The call as a whole, when nothing runs in between. -/
def recvTimeout (channel : LiveChannel) :
    Except LiveEventReceiveError (LiveEventNotification × LiveChannel) := do
  let (wakeUp, channel) ← channel.takeWakeUp
  pure (channel.notification wakeUp, channel)

end LiveChannel

/-! ## Interleavings -/

/-- The channel with the calls that are under way and those that have returned. -/
structure LiveState where
  channel : LiveChannel
  /-- The calls of `try_notify_run` that have advanced the counter and not yet sent. -/
  sending : List WakeUp
  /-- The calls of `try_notify_run` that have returned. -/
  notified : List (WakeUp × LiveEventNotifyStatus)
  /-- The wake-up that a call of `recv_timeout` has taken, before it reads the counter. -/
  receiving : Option WakeUp
  /-- What the calls of `recv_timeout` returned, the last one first. -/
  obtained : List (Except LiveEventReceiveError LiveEventNotification)

inductive LiveStep where
  /-- A call of `try_notify_run` begins and advances the counter. -/
  | advance (wakeUp : WakeUp)
  /-- The call at this place of the calls under way sends its wake-up and returns. -/
  | send (place : Nat)
  /-- A call of `recv_timeout` takes a wake-up, or returns an error. -/
  | take
  /-- The call that has taken a wake-up reads the counter and returns. -/
  | load
  | dropNotifier
  | dropReceiver
  deriving DecidableEq

namespace LiveState

def start : LiveState :=
  { channel := .liveEventChannel, sending := [], notified := [], receiving := none,
    obtained := [] }

variable (state : LiveState)

/-- One atomic operation; `none` where it cannot be made. A handle is dropped only when none of
    its calls is under way. -/
def step : LiveStep → Option LiveState
  | .advance wakeUp =>
    if state.channel.notifierOpen then
      some { state with
        channel := state.channel.fetchMax wakeUp.committedSequence
        sending := state.sending ++ [wakeUp] }
    else none
  | .send place => do
    let wakeUp ← state.sending[place]?
    let (status, channel) := state.channel.trySend wakeUp
    some { state with
      channel := channel
      sending := state.sending.eraseIdx place
      notified := (wakeUp, status) :: state.notified }
  | .take =>
    if state.channel.receiverOpen ∧ state.receiving = none then
      match state.channel.takeWakeUp with
      | .ok (wakeUp, channel) => some { state with channel := channel, receiving := some wakeUp }
      | .error error => some { state with obtained := .error error :: state.obtained }
    else none
  | .load => do
    let wakeUp ← state.receiving
    some { state with
      receiving := none
      obtained := .ok (state.channel.notification wakeUp) :: state.obtained }
  | .dropNotifier =>
    if state.sending = [] then
      some { state with channel := { state.channel with notifierOpen := false } }
    else none
  | .dropReceiver =>
    if state.receiving = none then
      some { state with channel := { state.channel with receiverOpen := false, queue := [] } }
    else none

/-- The state after every step of a list, where each of them can be made. -/
def run (steps : List LiveStep) : Option LiveState := steps.foldlM step state

/-- The calls of `try_notify_run` that have advanced the counter. -/
def announced : List WakeUp := state.notified.map (·.1) ++ state.sending

/-- The last notification that the receiver obtained. -/
def lastObtained : Option LiveEventNotification := state.obtained.findSome? Except.toOption

/-- The last notification about one run that the receiver obtained. -/
def lastObtainedFor (run : Option String × String) (state : LiveState) :
    Option LiveEventNotification :=
  state.obtained.findSome? fun result => result.toOption.filter (·.run = run)

end LiveState

/-! ## A call that nothing interrupts -/

namespace LiveState

variable {state : LiveState}

/-- The two operations of `try_notify_run` in a row are the call. -/
theorem run_tryNotifyRun (hopen : state.channel.notifierOpen = true)
    (hidle : state.sending = []) (wakeUp : WakeUp) :
    state.run [.advance wakeUp, .send 0] = some { state with
        channel := (state.channel.tryNotifyRun wakeUp).2
        notified := (wakeUp, (state.channel.tryNotifyRun wakeUp).1) :: state.notified } := by
  simp [run, step, hopen, hidle, LiveChannel.tryNotifyRun]

/-- The two operations of `recv_timeout` in a row are the call. -/
theorem run_recvTimeout {notification : LiveEventNotification}
    {channel : LiveChannel} (hopen : state.channel.receiverOpen = true)
    (hidle : state.receiving = none)
    (hrecv : state.channel.recvTimeout = .ok (notification, channel)) :
    state.run [.take, .load] =
      some { state with channel := channel, obtained := .ok notification :: state.obtained } := by
  unfold LiveChannel.recvTimeout at hrecv
  cases htake : state.channel.takeWakeUp with
  | error error => simp [htake] at hrecv
  | ok taken =>
    simp only [htake, bind, Except.bind, pure, Except.pure, Except.ok.injEq, Prod.mk.injEq] at hrecv
    simp [run, step, hopen, hidle, htake, ← hrecv.1, ← hrecv.2]

/-! ## What every interleaving keeps -/

/-- The receiver was given a sequence that is at least this one. -/
def Reached (state : LiveState) (committedSequence : Nat) : Prop :=
  ∃ notification, state.lastObtained = some notification ∧
    committedSequence ≤ notification.highestCommittedSequence

/-- What holds between any two atomic operations. -/
structure Coalesces (state : LiveState) : Prop where
  announced_le : ∀ wakeUp ∈ state.announced,
    wakeUp.committedSequence ≤ state.channel.highestCommittedSequence
  wakes : state.channel.receiverOpen = true → state.channel.queue = [] →
    state.receiving = none → ∀ call ∈ state.notified, state.Reached call.1.committedSequence
  queue_notified : ∀ wakeUp ∈ state.channel.queue, ∃ call ∈ state.notified, call.1 = wakeUp
  receiving_notified : ∀ wakeUp, state.receiving = some wakeUp →
    ∃ call ∈ state.notified, call.1 = wakeUp
  obtained_notified : ∀ notification, .ok notification ∈ state.obtained →
    ∃ call ∈ state.notified, call.1.run = notification.run

theorem coalesces_start : Coalesces start := by
  constructor <;> simp [start, announced, LiveChannel.liveEventChannel]

section Steps

variable {state : LiveState}

variable (h : Coalesces state) {wakeUp : WakeUp}
include h

theorem Coalesces.advance (wakeUp : WakeUp) :
    Coalesces { state with
      channel := state.channel.fetchMax wakeUp.committedSequence
      sending := state.sending ++ [wakeUp] } := by
  refine ⟨?_, h.wakes, h.queue_notified, h.receiving_notified, h.obtained_notified⟩
  intro w hw
  have hw : w ∈ state.announced ∨ w = wakeUp := by
    simpa [announced, ← or_assoc] using hw
  rcases hw with hw | rfl
  · exact Nat.le_trans (h.announced_le w hw) (Nat.le_max_left _ _)
  · exact Nat.le_max_right _ _

omit h in
/-- A send leaves the receiver's side alone, except that it may queue its wake-up. -/
theorem trySend_cases (wakeUp : WakeUp) (channel : LiveChannel) :
    (channel.trySend wakeUp).2.highestCommittedSequence = channel.highestCommittedSequence ∧
    (channel.trySend wakeUp).2.receiverOpen = channel.receiverOpen ∧
    (channel.receiverOpen = true → (channel.trySend wakeUp).2.queue ≠ []) ∧
    ∀ w ∈ (channel.trySend wakeUp).2.queue, w ∈ channel.queue ∨ w = wakeUp := by
  unfold LiveChannel.trySend
  by_cases hopen : channel.receiverOpen = false
  · simp [hopen]
    exact fun w hw => .inl hw
  · by_cases hroom : channel.queue.length < liveEventNotificationCapacity
    · simp [hopen, hroom]
    · have hfull : channel.queue ≠ [] := by
        intro hnil
        rw [hnil] at hroom
        exact hroom (by decide)
      simp [hopen, hroom, hfull]
      exact fun w hw => .inl hw

theorem Coalesces.send {place : Nat}
    (hplace : state.sending[place]? = some wakeUp) :
    Coalesces { state with
      channel := (state.channel.trySend wakeUp).2
      sending := state.sending.eraseIdx place
      notified := (wakeUp, (state.channel.trySend wakeUp).1) :: state.notified } := by
  obtain ⟨hhighest, hopen, hqueued, hqueue⟩ := trySend_cases wakeUp state.channel
  have hmem : wakeUp ∈ state.sending := mem_of_getElem? hplace
  refine ⟨?_, ?_, ?_, ?_, ?_⟩
  · intro w hw
    rw [hhighest]
    apply h.announced_le
    simp only [announced, map_cons, cons_append, mem_cons, mem_append] at hw ⊢
    rcases hw with rfl | hw | hw
    · exact .inr hmem
    · exact .inl hw
    · exact .inr (mem_of_mem_eraseIdx hw)
  · intro hreceiver hempty
    exact absurd hempty (hqueued (hopen ▸ hreceiver))
  · intro w hw
    rcases hqueue w hw with hw | rfl
    · exact exists_mem_cons_of_exists (h.queue_notified w hw)
    · exact exists_mem_cons_of _ rfl
  · exact fun w hw => exists_mem_cons_of_exists (h.receiving_notified w hw)
  · exact fun n hn => exists_mem_cons_of_exists (h.obtained_notified n hn)

theorem Coalesces.take {rest : List WakeUp}
    (hqueue : state.channel.queue = wakeUp :: rest) :
    Coalesces { state with
      channel := { state.channel with queue := rest }, receiving := some wakeUp } := by
  refine ⟨h.announced_le, fun _ _ hnone => (by cases hnone), ?_, ?_, h.obtained_notified⟩
  · intro w hw
    exact h.queue_notified w (hqueue ▸ mem_cons_of_mem _ hw)
  · intro w hw
    cases hw
    exact h.queue_notified wakeUp (hqueue ▸ mem_cons_self)

/-- A call of `recv_timeout` that returns an error gives the receiver nothing. -/
theorem Coalesces.fail (error : LiveEventReceiveError) :
    Coalesces { state with obtained := .error error :: state.obtained } := by
  refine ⟨h.announced_le, h.wakes, h.queue_notified, h.receiving_notified, ?_⟩
  intro notification hn
  exact h.obtained_notified notification (by simpa using hn)

/-- The counter that the receiver reads covers every call that has advanced it. -/
theorem Coalesces.load
    (hreceiving : state.receiving = some wakeUp) :
    Coalesces { state with
      receiving := none
      obtained := .ok (state.channel.notification wakeUp) :: state.obtained } := by
  refine ⟨h.announced_le, ?_, h.queue_notified, fun _ hnone => (by cases hnone), ?_⟩
  · intro _ _ _ call hcall
    refine ⟨state.channel.notification wakeUp, rfl, ?_⟩
    exact h.announced_le call.1 (mem_append_left _ (mem_map_of_mem hcall))
  · intro notification hn
    rcases mem_cons.mp hn with heq | hn
    · obtain ⟨call, hcall, hwake⟩ := h.receiving_notified wakeUp hreceiving
      cases heq
      exact ⟨call, hcall, by rw [hwake]; rfl⟩
    · exact h.obtained_notified notification hn

theorem Coalesces.step {action : LiveStep} {next : LiveState}
    (hstep : state.step action = some next) : Coalesces next := by
  cases action with
  | advance wakeUp =>
    obtain ⟨-, hnext⟩ := Option.ite_none_right_eq_some.mp hstep
    exact Option.some.inj hnext ▸ h.advance wakeUp
  | send place =>
    obtain ⟨wakeUp, hplace, hnext⟩ := Option.bind_eq_some_iff.mp hstep
    exact Option.some.inj hnext ▸ h.send hplace
  | take =>
    obtain ⟨-, hstep⟩ := Option.ite_none_right_eq_some.mp hstep
    unfold LiveChannel.takeWakeUp at hstep
    cases hqueue : state.channel.queue with
    | nil =>
      simp only [hqueue, Option.some.injEq] at hstep
      exact hstep ▸ h.fail _
    | cons wakeUp rest =>
      simp only [hqueue, Option.some.injEq] at hstep
      exact hstep ▸ h.take hqueue
  | load =>
    obtain ⟨wakeUp, hreceiving, hnext⟩ := Option.bind_eq_some_iff.mp hstep
    exact Option.some.inj hnext ▸ h.load hreceiving
  | dropNotifier =>
    obtain ⟨-, hnext⟩ := Option.ite_none_right_eq_some.mp hstep
    exact Option.some.inj hnext ▸
      ⟨h.announced_le, h.wakes, h.queue_notified, h.receiving_notified, h.obtained_notified⟩
  | dropReceiver =>
    obtain ⟨-, hnext⟩ := Option.ite_none_right_eq_some.mp hstep
    exact Option.some.inj hnext ▸ ⟨h.announced_le, fun hopen => (by cases hopen),
      fun _ hw => (by cases hw), h.receiving_notified, h.obtained_notified⟩

theorem Coalesces.run {steps : List LiveStep} {last : LiveState}
    (hrun : state.run steps = some last) : Coalesces last := by
  induction steps generalizing state with
  | nil => exact Option.some.inj hrun ▸ h
  | cons action steps ih =>
    obtain ⟨next, hstep, hrun⟩ := Option.bind_eq_some_iff.mp hrun
    exact ih (h.step hstep) hrun


omit h
end Steps

/-! ## No lost wake-up -/

/-- When every notification is about one run, the last one is the last one about it. -/
theorem lastObtainedFor_eq {run : Option String × String}
    (h : ∀ notification, .ok notification ∈ state.obtained → notification.run = run) :
    state.lastObtainedFor run = state.lastObtained := by
  unfold lastObtainedFor lastObtained
  generalize state.obtained = obtained at h
  induction obtained with
  | nil => rfl
  | cons result rest ih =>
    have hrest := ih fun n hn => h n (mem_cons_of_mem _ hn)
    cases result with
    | error error => exact hrest
    | ok notification =>
      have hnotification := h notification mem_cons_self
      simp [List.findSome?_cons, Except.toOption, hnotification]

/-- While the receiver exists, a wake-up is queued for it, or it has taken one and the counter
    that it reads next covers every announcement that has returned, or the last sequence that it
    obtained covers them. On a channel for one run that sequence is the run's. A receiver that
    finds no wake-up has obtained everything announced. -/
theorem wakeUp_queued_or_reached {steps : List LiveStep} {state : LiveState}
    (hrun : start.run steps = some state) (hopen : state.channel.receiverOpen = true) :
    (state.channel.queue ≠ [] ∨ (state.receiving ≠ none ∧ ∀ call ∈ state.notified,
        call.1.committedSequence ≤ state.channel.highestCommittedSequence) ∨
      ∀ call ∈ state.notified, state.Reached call.1.committedSequence) ∧
    (∀ run, (∀ call ∈ state.notified, call.1.run = run) →
      state.lastObtainedFor run = state.lastObtained) ∧
    (∀ error, state.receiving = none → state.channel.takeWakeUp = .error error →
      ∀ call ∈ state.notified, state.Reached call.1.committedSequence) := by
  have h := coalesces_start.run hrun
  refine ⟨?_, ?_, ?_⟩
  · by_cases hempty : state.channel.queue = []
    · by_cases hidle : state.receiving = none
      · exact .inr (.inr (h.wakes hopen hempty hidle))
      · refine .inr (.inl ⟨hidle, fun call hcall => ?_⟩)
        exact h.announced_le call.1 (mem_append_left _ (mem_map_of_mem hcall))
    · exact .inl hempty
  · intro run hone
    apply lastObtainedFor_eq
    intro notification hn
    obtain ⟨call, hcall, heq⟩ := h.obtained_notified notification hn
    rw [← heq, hone call hcall]
  · intro error hidle htake
    have hempty : state.channel.queue = [] := by
      unfold LiveChannel.takeWakeUp at htake
      cases hqueue : state.channel.queue with
      | nil => rfl
      | cons wakeUp rest => simp [hqueue] at htake
    exact h.wakes hopen hempty hidle

def sampleWakeUp (session : String) (committedSequence : Nat) : WakeUp :=
  { conversationId := none, sessionId := session, committedSequence := committedSequence }

/-- Two announcements, the second while the first is queued, and one receive. -/
def coalescedSteps : List LiveStep :=
  [.advance (sampleWakeUp "bounded001" 1), .advance (sampleWakeUp "bounded001" 2), .send 0,
    .send 0, .take, .load]

theorem wakeUp_queued_or_reached_coalesced :
    ∃ state, start.run coalescedSteps = some state ∧
      state.notified.map (·.2) = [.coalesced, .queued] ∧
      state.channel.queue = [] ∧ state.receiving = none ∧
      (∀ call ∈ state.notified, state.Reached call.1.committedSequence) ∧
      ∃ notification, state.lastObtainedFor (none, "bounded001") = some notification ∧
        notification.firstCommittedSequence = 1 ∧ notification.highestCommittedSequence = 2 := by
  refine ⟨_, rfl, rfl, rfl, rfl, ?_, ?_⟩
  · exact (@wakeUp_queued_or_reached coalescedSteps _ rfl rfl).2.2 .timeout rfl rfl
  · rw [(@wakeUp_queued_or_reached coalescedSteps _ rfl rfl).2.1 (none, "bounded001") (by decide)]
    exact ⟨_, rfl, rfl, rfl⟩

/-- A queued wake-up, or a sequence obtained for the run that covers every announcement of it. -/
def QueuedOrObtained (state : LiveState) (run : Option String × String) : Prop :=
  state.channel.queue ≠ [] ∨
    ∀ call ∈ state.notified, call.1.run = run →
      ∃ notification, state.lastObtainedFor run = some notification ∧
        call.1.committedSequence ≤ notification.highestCommittedSequence

/-- Three moments with neither: a receive has taken the wake-up and not yet read the counter; the
    announcement of a second run was coalesced with the one that was received; the receiver was
    dropped. -/
theorem not_queuedOrObtained :
    (∃ state, start.run [.advance (sampleWakeUp "first001" 1), .send 0, .take] = some state ∧
      ¬ state.QueuedOrObtained (none, "first001")) ∧
    (∃ state, start.run [.advance (sampleWakeUp "first001" 1), .send 0,
        .advance (sampleWakeUp "second001" 1), .send 0, .take, .load] = some state ∧
      ¬ state.QueuedOrObtained (none, "second001")) ∧
    (∃ state, start.run [.dropReceiver, .advance (sampleWakeUp "first001" 1), .send 0] =
        some state ∧
      ¬ state.QueuedOrObtained (none, "first001")) := by
  refine ⟨⟨_, rfl, ?_⟩, ⟨_, rfl, ?_⟩, ⟨_, rfl, ?_⟩⟩ <;>
  · simp only [QueuedOrObtained, not_or]
    refine ⟨fun h => h rfl, fun h => ?_⟩
    obtain ⟨notification, hlast, -⟩ := h _ mem_cons_self rfl
    cases hlast

end LiveState

end Watershed.FlowAgent
