/-
  The adapter from pi's records to agent events (`pi.rs`), and what its events say about items.

  An item starts and completes while a turn runs; the adapter keeps the running items of the turn
  under keys that pi chooses, a content index or a tool call id. `History` reads the events alone:
  it allows an event only where items and turns permit it. The adapter follows it as long as no
  record starts an item under the key of a running one (`items_closed`): such a start replaces the
  running item, which then never completes (`repeated_call_stays_running`). Its counters wrap, so
  fewer than `2 ^ 64` turns and items may start.

  An item's details, times and changed lines and the contents of `notice` events are left out.
-/
import Mathlib.Data.List.AList
import Watershed.MetaHarness.Approval

namespace Watershed.MetaHarness

open Proto List Sigma

abbrev TurnId := UInt64

inductive ItemStatus where
  | completed
  | failed
  deriving DecidableEq

inductive AgentEvent where
  | turnStarted (turn : TurnId)
  | turnCompleted (turn : TurnId)
  | turnAborted (turn : TurnId)
  | itemStarted (turn : TurnId) (item : ItemId) (kind : ItemKind)
  | contentDelta (item : ItemId) (delta : String)
  | itemUpdated (item : ItemId) (output : String)
  | itemCompleted (turn : TurnId) (item : ItemId) (kind : ItemKind) (text : String)
      (status : ItemStatus)
  | requestOpened (call : Approval)
  | requestResolved (request : RequestId)
  | userInputRequested (request : RequestId)
  | userInputResolved (request : RequestId)
  /-- A notification, a status line, a widget, the queue, a text for the input, or the outcome of
      a model request. -/
  | notice
  deriving DecidableEq

namespace AgentEvent

def startsTurn : AgentEvent → Bool
  | .turnStarted _ => true
  | _ => false

def startsItem : AgentEvent → Bool
  | .itemStarted .. => true
  | _ => false

end AgentEvent

/-- A running item with its text so far. -/
structure OpenItem where
  item : ItemId
  kind : ItemKind
  text : String
  deriving DecidableEq

structure PiAdapter where
  turns : UInt64 := 0
  items : UInt64 := 0
  turn : Option TurnId := none
  /-- The content blocks of the streaming message, by content index. -/
  blocks : AList fun _ : Nat => OpenItem := ∅
  /-- The running tool calls, by pi's tool call id. -/
  tools : AList fun _ : String => OpenItem := ∅

/-! ## The source's functions -/

def u64? (record : Value) (field : String) : Option Nat :=
  match record.get field with
  | some (.number n) => n.asU64
  | _ => none

def stripPrefix (start text : String) : Option String :=
  if start.toList <+: text.toList then some (.ofList (text.toList.drop start.length)) else none

/-- The text of message content: a string, or the text blocks of a list. -/
def contentText : Option Value → String
  | some (.string text) => text
  | some (.array blocks) =>
    String.join ((blocks.filter (str? · "type" = some "text")).filterMap (str? · "text"))
  | _ => ""

/-- Ends items as failed, in the order they started. -/
def fail (turn : TurnId) (items : List OpenItem) : List AgentEvent :=
  (items.insertionSort (·.item ≤ ·.item)).map fun o =>
    .itemCompleted turn o.item o.kind o.text .failed

namespace PiAdapter

variable (L : JsonLibrary) (a : PiAdapter) (turn : TurnId) (record : Value)

def openItems : List OpenItem := a.blocks.entries.map snd ++ a.tools.entries.map snd

def userMessage : PiAdapter × List AgentEvent :=
  match record.get "message" with
  | none => (a, [])
  | some message =>
    ({ a with items := a.items + 1 }, [.itemStarted turn (a.items + 1) .userMessage,
       .itemCompleted turn (a.items + 1) .userMessage (contentText (message.get "content"))
         .completed])

def startBlock (index : Nat) (kind : ItemKind) : PiAdapter × List AgentEvent :=
  ({ a with items := a.items + 1, blocks := a.blocks.insert index ⟨a.items + 1, kind, ""⟩ },
    [.itemStarted turn (a.items + 1) kind])

def assistantUpdate (update : Value) : PiAdapter × List AgentEvent :=
  match u64? update "contentIndex" with
  | none => (a, [])
  | some index =>
    match str? update "type", a.blocks.lookup index with
    | some "text_start", _ => a.startBlock turn index .assistantMessage
    | some "thinking_start", _ => a.startBlock turn index .reasoning
    | some "text_delta", some o | some "thinking_delta", some o =>
      ({ a with blocks := a.blocks.insert index { o with text := o.text ++ strField update "delta" } },
        [.contentDelta o.item (strField update "delta")])
    | some "text_end", some o | some "thinking_end", some o =>
      ({ a with blocks := a.blocks.erase index },
        [.itemCompleted turn o.item o.kind (strField update "content") .completed])
    | _, _ => (a, [])

def toolStart : PiAdapter × List AgentEvent := let kind := itemKind (strField record "toolName")
  ({ a with
      items := a.items + 1
      tools := a.tools.insert (strField record "toolCallId") ⟨a.items + 1, kind, ""⟩ },
    [.itemStarted turn (a.items + 1) kind])

/-- A record of the running turn. -/
def during : PiAdapter × List AgentEvent :=
  match str? record "type" with
  | some "agent_settled" =>
    ({ a with turn := none, blocks := ∅, tools := ∅ }, fail turn a.openItems ++
        [if isTrue record "aborted" then .turnAborted turn else .turnCompleted turn])
  | some "message_end" =>
    match (record.get "message").bind (str? · "role") with
    | some "user" => a.userMessage turn record
    | some "assistant" =>
      ({ a with blocks := ∅ }, fail turn (a.blocks.entries.map snd) ++ [.notice])
    | _ => (a, [])
  | some "message_update" =>
    match record.get "assistantMessageEvent" with
    | some update => a.assistantUpdate turn update
    | none => (a, [])
  | some "tool_execution_start" => a.toolStart turn record
  | some "tool_execution_update" =>
    match a.tools.lookup (strField record "toolCallId") with
    | some o => (a, [.itemUpdated o.item
        (contentText ((record.get "partialResult").bind (·.get "content")))])
    | none => (a, [])
  | some "tool_execution_end" =>
    match a.tools.lookup (strField record "toolCallId") with
    | some o =>
      ({ a with tools := a.tools.erase (strField record "toolCallId") },
        [.itemCompleted turn o.item o.kind
          (contentText ((record.get "result").bind (·.get "content")))
          (if isTrue record "isError" then .failed else .completed)])
    | none => (a, [])
  | _ => (a, [])

/-- One dialog of an extension; unknown methods yield nothing. -/
def extensionUi : Option AgentEvent :=
  let request := strField record "id"
  match strField record "method" with
  | "select" =>
    match stripPrefix "watershed.approval " (strField record "title") with
    | some text =>
      some (.requestOpened (approval L request text fun id => (a.tools.lookup id).map (·.item)))
    | none => some (.userInputRequested request)
  | "confirm" | "input" | "editor" => some (.userInputRequested request)
  | "notify" | "setStatus" | "setWidget" | "set_editor_text" => some .notice
  | _ => none

/-- `agent_start` starts a turn unless one runs: a retry starts another run inside it. -/
def start : PiAdapter × List AgentEvent :=
  if str? record "type" = some "agent_start" ∧ a.turn = none then
    ({ a with turns := a.turns + 1, turn := some (a.turns + 1) }, [.turnStarted (a.turns + 1)])
  else (a, [])

def translate : PiAdapter × List AgentEvent :=
  match str? record "type" with
  | some "extension_ui_request" => (a, (a.extensionUi L record).toList)
  | some "queue_update" | some "extension_error" => (a, [.notice])
  | _ =>
    match (a.start record).1.turn with
    | none => a.start record
    | some turn =>
      (((a.start record).1.during turn record).1,
        (a.start record).2 ++ ((a.start record).1.during turn record).2)

/-- All records of a session. -/
def run (a : PiAdapter) : List Value → PiAdapter × List AgentEvent
  | [] => (a, [])
  | record :: records =>
    (((a.translate L record).1.run records).1,
      (a.translate L record).2 ++ ((a.translate L record).1.run records).2)

/-- Whether a record starts an item under the key of a running one. -/
def replaces : Bool :=
  match str? record "type" with
  | some "tool_execution_start" => (a.tools.lookup (strField record "toolCallId")).isSome
  | some "message_update" =>
    match record.get "assistantMessageEvent" with
    | some update =>
      (str? update "type" = some "text_start" || str? update "type" = some "thinking_start") &&
        (u64? update "contentIndex").any fun index => (a.blocks.lookup index).isSome
    | none => false
  | _ => false

/-- No record of a session does. -/
def NeverReplaces (a : PiAdapter) : List Value → Prop
  | [] => True
  | record :: records => a.replaces record = false ∧ (a.translate L record).1.NeverReplaces records

end PiAdapter

/-! ## What events say -/

/-- The last ids, the running turn and the running items with their turns. -/
structure History where
  lastTurn : TurnId := 0
  lastItem : ItemId := 0
  turn : Option TurnId := none
  running : List (TurnId × OpenItem) := []

namespace History

def note (h : History) : AgentEvent → History
  | .turnStarted turn => { h with lastTurn := turn, turn := some turn }
  | .turnCompleted _ | .turnAborted _ => { h with turn := none }
  | .itemStarted turn item kind =>
    { h with lastItem := item, running := (turn, ⟨item, kind, ""⟩) :: h.running }
  | .contentDelta item delta =>
    { h with running := h.running.map fun r =>
        if r.2.item = item then (r.1, { r.2 with text := r.2.text ++ delta }) else r }
  | .itemCompleted _ item _ _ _ => { h with running := h.running.filter (·.2.item ≠ item) }
  | _ => h

def streamed (kind : ItemKind) : Prop := kind = .assistantMessage ∨ kind = .reasoning

/-- Turns do not overlap and have increasing ids, and none ends before its items. An item starts
    with the next id, is running at each later event, and a streamed item that fails has the text of
    its deltas. -/
def Allows (h : History) : AgentEvent → Prop
  | .turnStarted turn => h.turn = none ∧ turn.toNat = h.lastTurn.toNat + 1
  | .turnCompleted turn | .turnAborted turn => h.turn = some turn ∧ h.running = []
  | .itemStarted turn item _ => h.turn = some turn ∧ item.toNat = h.lastItem.toNat + 1
  | .contentDelta item _ | .itemUpdated item _ => ∃ r ∈ h.running, r.2.item = item
  | .itemCompleted turn item kind text status => ∃ r ∈ h.running, r.1 = turn ∧ r.2.item = item ∧
      r.2.kind = kind ∧ (status = .failed → streamed kind → text = r.2.text)
  | _ => True

def AllowsAll (h : History) : List AgentEvent → Prop
  | [] => True
  | e :: events => h.Allows e ∧ (h.note e).AllowsAll events

theorem allowsAll_append {h : History} {events more : List AgentEvent} :
    h.AllowsAll (events ++ more) ↔ h.AllowsAll events ∧ (events.foldl note h).AllowsAll more := by
  induction events generalizing h with
  | nil => simp [AllowsAll]
  | cons e events ih => rw [cons_append, AllowsAll, ih, AllowsAll, foldl_cons, and_assoc]

/-- The ids that events take fit in 64 bits. -/
def Fits (h : History) (events : List AgentEvent) : Prop :=
  h.lastTurn.toNat + events.countP AgentEvent.startsTurn < 2 ^ 64 ∧
    h.lastItem.toNat + events.countP AgentEvent.startsItem < 2 ^ 64

variable {h : History} {events more : List AgentEvent}

theorem Fits.left (hfits : h.Fits (events ++ more)) : h.Fits events := by
  simp only [Fits, countP_append] at hfits ⊢
  omega

theorem Fits.right (hfits : h.Fits (events ++ more)) (hallows : h.AllowsAll events) :
    (events.foldl note h).Fits more := by
  induction events generalizing h with
  | nil => exact hfits
  | cons e events ih =>
    refine ih ?_ hallows.2
    have hallowed := hallows.1
    rw [Fits, cons_append, countP_cons, countP_cons] at hfits
    cases e <;> simp_all [Fits, Allows, note, AgentEvent.startsTurn, AgentEvent.startsItem] <;>
      omega

/-- The running items of a turn, as the adapter keeps them. -/
structure Tracks (h : History) (turn : TurnId) (items : UInt64) (running : List OpenItem) :
    Prop where
  runs : h.turn = some turn
  lastTurn : h.lastTurn = turn
  last : h.lastItem = items
  perm : h.running.Perm (running.map (turn, ·))
  distinct : (running.map OpenItem.item).Nodup
  le : ∀ o ∈ running, o.item ≤ items

namespace Tracks

variable {h : History} {turn : TurnId} {items : UInt64} {running rest : List OpenItem}
  {o : OpenItem}

theorem of_perm (t : h.Tracks turn items running) (hperm : running.Perm rest) :
    h.Tracks turn items rest :=
  ⟨t.runs, t.lastTurn, t.last, t.perm.trans (hperm.map _), (hperm.map _).nodup_iff.mp t.distinct,
    fun o ho => t.le o (hperm.mem_iff.mpr ho)⟩

variable (t : h.Tracks turn items (o :: rest))
include t

theorem mem : (turn, o) ∈ h.running := t.perm.mem_iff.mpr (by simp)

/-- No other running item has the id of this one. -/
theorem ne : ∀ x ∈ rest, x.item ≠ o.item := by
  have hdistinct := t.distinct
  rw [map_cons, nodup_cons, mem_map] at hdistinct
  exact fun x hx heq => hdistinct.1 ⟨x, hx, heq⟩

omit t in
theorem started (t : h.Tracks turn items running) (kind : ItemKind)
    (hfits : items.toNat + 1 < 2 ^ 64) : h.Allows (.itemStarted turn (items + 1) kind) ∧
      (h.note (.itemStarted turn (items + 1) kind)).Tracks turn (items + 1)
        (⟨items + 1, kind, ""⟩ :: running) := by
  have hnext : (items + 1).toNat = items.toNat + 1 := by
    rw [UInt64.toNat_add]
    exact Nat.mod_eq_of_lt hfits
  refine ⟨⟨t.runs, t.last ▸ hnext⟩, t.runs, t.lastTurn, rfl, t.perm.cons _, ?_, ?_⟩
  · rw [map_cons, nodup_cons, mem_map]
    refine ⟨?_, t.distinct⟩
    rintro ⟨o, ho, heq⟩
    have hle := UInt64.le_iff_toNat_le.mp (t.le o ho)
    rw [heq, hnext] at hle
    exact absurd hle (Nat.not_succ_le_self _)
  · simp only [forall_mem_cons]
    refine ⟨UInt64.le_refl _, fun o ho => UInt64.le_trans (t.le o ho) ?_⟩
    rw [UInt64.le_iff_toNat_le, hnext]
    exact Nat.le_succ _

theorem delta (text : String) :
    h.Allows (.contentDelta o.item text) ∧ (h.note (.contentDelta o.item text)).Tracks turn items
        ({ o with text := o.text ++ text } :: rest) := by
  refine ⟨⟨_, t.mem, rfl⟩, t.runs, t.lastTurn, t.last, ?_, t.distinct, ?_⟩
  · refine (t.perm.map _).trans ?_
    simp only [map_map, map_cons, Function.comp_def, if_true]
    exact .of_eq (congrArg _ (map_congr_left fun x hx => if_neg (t.ne x hx)))
  · simpa using t.le

theorem completed (text : String) (status : ItemStatus)
    (htext : status = .failed → streamed o.kind → text = o.text) :
    h.Allows (.itemCompleted turn o.item o.kind text status) ∧
      (h.note (.itemCompleted turn o.item o.kind text status)).Tracks turn items rest := by
  have hrest : rest.filter (fun x => x.item ≠ o.item) = rest :=
    filter_eq_self.mpr fun x hx => by simpa using t.ne x hx
  refine ⟨⟨_, t.mem, rfl, rfl, rfl, htext⟩, t.runs, t.lastTurn, t.last, ?_,
    (nodup_cons.mp t.distinct).2, (forall_mem_cons.mp t.le).2⟩
  refine (t.perm.filter _).trans ?_
  rw [filter_map, filter_cons_of_neg (by simp)]
  simp only [Function.comp_def]
  rw [hrest]


omit t
theorem fail (t : h.Tracks turn items (running ++ rest)) :
    h.AllowsAll (fail turn running) ∧
      ((MetaHarness.fail turn running).foldl note h).Tracks turn items rest := by
  unfold MetaHarness.fail
  replace t := t.of_perm ((perm_insertionSort (·.item ≤ ·.item) running).symm.append_right rest)
  generalize running.insertionSort (·.item ≤ ·.item) = sorted at *
  induction sorted generalizing h with
  | nil => exact ⟨trivial, t⟩
  | cons o sorted ih =>
    obtain ⟨hallows, hnote⟩ := t.completed o.text .failed fun _ _ => rfl
    exact ⟨⟨hallows, (ih hnote).1⟩, (ih hnote).2⟩

end Tracks

/-- The history and the adapter agree on the running turn and its items, and calls are not
    streamed. -/
structure Agrees (h : History) (a : PiAdapter) : Prop where
  tools : ∀ e ∈ a.tools.entries, ¬ streamed e.2.kind
  idle : a.turn = none → h = ⟨a.turns, a.items, none, []⟩ ∧ a.openItems = []
  runs : ∀ turn, a.turn = some turn → turn = a.turns ∧ h.Tracks turn a.items a.openItems

/-- Events that are allowed, after which the history and the adapter agree again. -/
def Follow (h : History) (a : PiAdapter) (events : List AgentEvent) : Prop :=
  h.AllowsAll events ∧ (events.foldl note h).Agrees a

theorem Follow.append {h : History} {a b : PiAdapter} {events more : List AgentEvent}
    (hfirst : h.Follow a events) (hmore : (events.foldl note h).Follow b more) :
    h.Follow b (events ++ more) := by
  unfold Follow
  rw [allowsAll_append, foldl_append]
  exact ⟨⟨hfirst.1, hmore.1⟩, hmore.2⟩

end History

/-! ## The adapter follows -/

theorem entries_perm_erase {κ : Type} [DecidableEq κ] {m : AList fun _ : κ => OpenItem} {k : κ}
    {o : OpenItem} (h : m.lookup k = some o) :
    (m.entries.map snd).Perm (o :: (m.erase k).entries.map snd) := by
  have hmem : k ∈ m.entries.keys := AList.lookup_isSome.mp (by rw [h]; rfl)
  obtain ⟨b, front, back, -, hentries, herase⟩ := exists_of_kerase hmem
  have hb : b = o := by
    have hlookup := AList.mem_lookup_iff.mpr (show mk k b ∈ m.entries by simp [hentries])
    rw [h] at hlookup
    exact (Option.some.inj hlookup).symm
  rw [hentries, show (m.erase k).entries = front ++ back from herase, hb]
  simp

namespace PiAdapter

open History

variable {a b : PiAdapter} {h : History} {turn : TurnId} {record : Value} {o : OpenItem}

theorem openItems_perm_tool {id : String} (hopen : a.tools.lookup id = some o) :
    a.openItems.Perm (o :: (a.blocks.entries.map snd ++ (a.tools.erase id).entries.map snd)) :=
  ((entries_perm_erase hopen).append_left _).trans perm_middle

section
variable (hturn : a.turn = some turn) (hagrees : h.Agrees a)
include hturn hagrees

/-- A step inside the turn. -/
theorem follow_of_tracks {events : List AgentEvent} (hb : b.turn = a.turn) (hbs : b.turns = a.turns)
    (htools : ∀ e ∈ b.tools.entries, ¬ streamed e.2.kind) (hallows : h.AllowsAll events)
    (htracks : (events.foldl note h).Tracks turn b.items b.openItems) : h.Follow b events := by
  refine ⟨hallows, htools, fun hidle => ?_, fun _ hruns => ?_⟩
  · rw [hb, hturn] at hidle
    cases hidle
  · rw [hb, hturn] at hruns
    cases hruns
    exact ⟨hbs ▸ (hagrees.runs turn hturn).1, htracks⟩

theorem follow_startBlock {index : Nat} {kind : ItemKind} (hnew : a.blocks.lookup index = none)
    (hfits : h.Fits (a.startBlock turn index kind).2) :
    h.Follow (a.startBlock turn index kind).1 (a.startBlock turn index kind).2 := by
  have htracks := (hagrees.runs turn hturn).2
  obtain ⟨hallows, hstarted⟩ := htracks.started kind (htracks.last ▸ hfits.2)
  refine follow_of_tracks hturn hagrees rfl rfl hagrees.tools ⟨hallows, trivial⟩ ?_
  simp only [openItems, startBlock, AList.entries_insert_of_notMem (AList.lookup_eq_none.mp hnew),
    map_cons, cons_append]
  exact hstarted

theorem follow_toolStart (hnew : a.tools.lookup (strField record "toolCallId") = none)
    (hfits : h.Fits (a.toolStart turn record).2) :
    h.Follow (a.toolStart turn record).1 (a.toolStart turn record).2 := by
  have htracks := (hagrees.runs turn hturn).2
  obtain ⟨hallows, hstarted⟩ :=
    htracks.started (itemKind (strField record "toolName")) (htracks.last ▸ hfits.2)
  have hentries := AList.entries_insert_of_notMem
    (b := (⟨a.items + 1, itemKind (strField record "toolName"), ""⟩ : OpenItem))
    (AList.lookup_eq_none.mp hnew)
  refine follow_of_tracks hturn hagrees rfl rfl ?_ ⟨hallows, trivial⟩ (hstarted.of_perm ?_)
  · simp only [toolStart, hentries, forall_mem_cons]
    refine ⟨?_, hagrees.tools⟩
    unfold itemKind streamed
    split <;> (try split) <;> simp
  · simp only [openItems, toolStart, hentries, map_cons]
    exact perm_middle.symm

theorem follow_completed {text : String} {status : ItemStatus} (hb : b.turn = a.turn)
    (hbs : b.turns = a.turns) (hitems : b.items = a.items)
    (htools : ∀ e ∈ b.tools.entries, ¬ streamed e.2.kind)
    (hopen : a.openItems.Perm (o :: b.openItems))
    (htext : status = .failed → streamed o.kind → text = o.text) :
    h.Follow b [.itemCompleted turn o.item o.kind text status] := by
  obtain ⟨hallows, hcompleted⟩ := ((hagrees.runs turn hturn).2.of_perm hopen).completed text status htext
  refine follow_of_tracks hturn hagrees hb hbs htools ⟨hallows, trivial⟩ ?_
  rw [hitems]
  exact hcompleted

theorem follow_assistantUpdate {update : Value}
    (hupdate : record.get "assistantMessageEvent" = some update)
    (htype : str? record "type" = some "message_update") (hnew : a.replaces record = false)
    (hfits : h.Fits (a.assistantUpdate turn update).2) :
    h.Follow (a.assistantUpdate turn update).1 (a.assistantUpdate turn update).2 := by
  simp only [replaces, htype, hupdate] at hnew
  unfold assistantUpdate at hfits ⊢
  split
  case h_1 => exact ⟨trivial, hagrees⟩
  case h_2 index hindex =>
    rw [hindex] at hnew hfits
    split
    case h_1 hstart | h_2 hstart =>
      rw [hstart] at hfits
      refine follow_startBlock hturn hagrees ?_ hfits
      simpa [hstart] using hnew
    case h_3 o _ hopen | h_4 o _ hopen =>
      have hperm : a.openItems.Perm (o :: ((a.blocks.erase index).entries.map snd ++
          a.tools.entries.map snd)) := (entries_perm_erase hopen).append_right _
      obtain ⟨hallows, hdelta⟩ := ((hagrees.runs turn hturn).2.of_perm hperm).delta
        (strField update "delta")
      exact follow_of_tracks hturn hagrees rfl rfl hagrees.tools ⟨hallows, trivial⟩ hdelta
    case h_5 o _ hopen | h_6 o _ hopen =>
      exact follow_completed hturn hagrees rfl rfl rfl hagrees.tools
        ((entries_perm_erase hopen).append_right _) (by simp)
    case h_7 => exact ⟨trivial, hagrees⟩

theorem follow_userMessage (hfits : h.Fits (a.userMessage turn record).2) :
    h.Follow (a.userMessage turn record).1 (a.userMessage turn record).2 := by
  unfold userMessage at hfits ⊢
  split
  case h_1 => exact ⟨trivial, hagrees⟩
  case h_2 message hmessage =>
    rw [hmessage] at hfits
    have htracks := (hagrees.runs turn hturn).2
    obtain ⟨hallows, hstarted⟩ := htracks.started .userMessage (htracks.last ▸ hfits.2)
    obtain ⟨hends, hcompleted⟩ := hstarted.completed
      (contentText (message.get "content")) .completed (by simp)
    exact follow_of_tracks hturn hagrees rfl rfl hagrees.tools ⟨hallows, hends, trivial⟩ hcompleted

/-- All running items end with their turn. -/
theorem follow_settled {e : AgentEvent} (he : e = .turnAborted turn ∨ e = .turnCompleted turn) :
    h.Follow { a with turn := none, blocks := ∅, tools := ∅ } (fail turn a.openItems ++ [e]) := by
  obtain ⟨hturns, htracks⟩ := hagrees.runs turn hturn
  rw [← append_nil a.openItems] at htracks
  obtain ⟨hallows, hfailed⟩ := htracks.fail
  have hrunning := hfailed.perm.eq_nil
  refine ⟨allowsAll_append.mpr ⟨hallows, ?_, trivial⟩, by simp, fun _ => ⟨?_, rfl⟩, by simp⟩
  · rcases he with rfl | rfl <;> exact ⟨hfailed.runs, hrunning⟩
  · rw [foldl_append]
    rcases he with rfl | rfl <;> simp [note, hfailed.lastTurn.trans hturns, hfailed.last, hrunning]

/-- The blocks of a message end with it. -/
theorem follow_messageEnd :
    h.Follow { a with blocks := ∅ } (fail turn (a.blocks.entries.map snd) ++ [.notice]) := by
  obtain ⟨hallows, hfailed⟩ := (hagrees.runs turn hturn).2.fail
  refine follow_of_tracks hturn hagrees rfl rfl hagrees.tools
    (allowsAll_append.mpr ⟨hallows, trivial, trivial⟩) ?_
  rw [foldl_append]
  exact hfailed

theorem follow_during (hnew : a.replaces record = false)
    (hfits : h.Fits (a.during turn record).2) :
    h.Follow (a.during turn record).1 (a.during turn record).2 := by
  unfold during at hfits ⊢
  split
  case h_1 =>
    refine follow_settled hturn hagrees ?_
    split
    · exact .inl rfl
    · exact .inr rfl
  case h_2 htype =>
    rw [htype] at hfits
    split
    · rename_i hrole
      exact follow_userMessage hturn hagrees (by simpa only [hrole] using hfits)
    · exact follow_messageEnd hturn hagrees
    · exact ⟨trivial, hagrees⟩
  case h_3 htype =>
    rw [htype] at hfits
    split
    · rename_i hupdate
      exact follow_assistantUpdate hturn hagrees hupdate htype hnew
        (by simpa only [hupdate] using hfits)
    · exact ⟨trivial, hagrees⟩
  case h_4 htype =>
    rw [htype] at hfits
    refine follow_toolStart hturn hagrees ?_ hfits
    simpa [replaces, htype] using hnew
  case h_5 =>
    split
    case h_1 o hopen =>
      have hmem := ((hagrees.runs turn hturn).2.of_perm (openItems_perm_tool hopen)).mem
      exact ⟨⟨⟨_, hmem, rfl⟩, trivial⟩, hagrees⟩
    case h_2 => exact ⟨trivial, hagrees⟩
  case h_6 =>
    split
    case h_1 o hopen =>
      refine follow_completed hturn hagrees rfl rfl rfl ?_ (openItems_perm_tool hopen) ?_
      · exact fun e he => hagrees.tools e ((kerase_sublist _ _).subset he)
      · exact fun _ hstreamed => absurd hstreamed (hagrees.tools _ (AList.mem_lookup_iff.mp hopen))
    case h_2 => exact ⟨trivial, hagrees⟩
  case h_7 => exact ⟨trivial, hagrees⟩

end

theorem follow_start (hagrees : h.Agrees a) (record : Value) (hfits : h.Fits (a.start record).2) :
    h.Follow (a.start record).1 (a.start record).2 := by
  unfold start at hfits ⊢
  split
  case isFalse => exact ⟨trivial, hagrees⟩
  case isTrue hstart =>
    obtain ⟨rfl, hopen⟩ := hagrees.idle hstart.2
    rw [if_pos hstart] at hfits
    have hnext : (a.turns + 1).toNat = a.turns.toNat + 1 := by
      rw [UInt64.toNat_add]
      exact Nat.mod_eq_of_lt hfits.1
    refine ⟨⟨⟨rfl, hnext⟩, trivial⟩, hagrees.tools, by simp, fun turn hturn => ?_⟩
    cases hturn
    change _ ∧ Tracks _ _ _ a.openItems
    rw [hopen]
    exact ⟨rfl, rfl, rfl, rfl, List.Perm.nil, nodup_nil, by simp⟩

variable (L : JsonLibrary)

theorem follow_translate (hagrees : h.Agrees a) (hnew : a.replaces record = false)
    (hfits : h.Fits (a.translate L record).2) :
    h.Follow (a.translate L record).1 (a.translate L record).2 := by
  unfold translate at hfits ⊢
  split
  case h_1 =>
    -- A dialog changes neither turns nor items.
    unfold extensionUi
    split <;> try split
    all_goals first
      | exact ⟨⟨trivial, trivial⟩, hagrees⟩
      | exact ⟨trivial, hagrees⟩
  case h_2 | h_3 => exact ⟨⟨trivial, trivial⟩, hagrees⟩
  case h_4 =>
    have hsame : (a.start record).1.replaces record = false := by
      rw [← hnew]
      unfold start
      split <;> rfl
    split
    case h_1 hturn =>
      exact follow_start hagrees record (by simpa only [hturn] using hfits)
    case h_2 turn hturn =>
      simp only [hturn] at hfits
      have hstart := follow_start hagrees record hfits.left
      exact hstart.append (follow_during hturn hstart.2 hsame (hfits.right hstart.1))

theorem allowsAll_run (hagrees : h.Agrees a) {records : List Value}
    (hnew : a.NeverReplaces L records) (hfits : h.Fits (a.run L records).2) :
    h.AllowsAll (a.run L records).2 := by
  induction records generalizing a h with
  | nil => trivial
  | cons record records ih =>
    obtain ⟨hallows, hrest⟩ := follow_translate L hagrees hnew.1 hfits.left
    exact allowsAll_append.mpr ⟨hallows, ih hrest hnew.2 (hfits.right hallows)⟩

end PiAdapter

/-! ## Results -/

/-- Every item starts once with a new id and completes once, before its turn ends; turns do not
    overlap; a streamed item that fails has the text of its deltas. -/
theorem items_closed (L : JsonLibrary) {records : List Value}
    (hnew : PiAdapter.NeverReplaces L {} records)
    (hturns : (PiAdapter.run L {} records).2.countP AgentEvent.startsTurn < 2 ^ 64)
    (hitems : (PiAdapter.run L {} records).2.countP AgentEvent.startsItem < 2 ^ 64) :
    History.AllowsAll {} (PiAdapter.run L {} records).2 :=
  PiAdapter.allowsAll_run L ⟨by simp, fun _ => ⟨rfl, rfl⟩, by simp⟩ hnew
    ⟨by simpa using hturns, by simpa using hitems⟩

/-- A library for sessions without approval requests. -/
def noRequests : JsonLibrary := ⟨fun _ => none, fun _ => ""⟩

def recordOf (fields : List (String × String)) : Value :=
  .object (fields.map fun x => (x.1, .string x.2))

theorem items_closed_sample :
    let records := [recordOf [("type", "agent_start")],
      recordOf [("type", "tool_execution_start"), ("toolCallId", "c1"), ("toolName", "bash")],
      recordOf [("type", "agent_settled")]]
    (PiAdapter.run noRequests {} records).2 = [.turnStarted 1, .itemStarted 1 1 .commandExecution,
       .itemCompleted 1 1 .commandExecution "" .failed, .turnCompleted 1] ∧
    History.AllowsAll {} (PiAdapter.run noRequests {} records).2 :=
  ⟨by decide, items_closed noRequests ⟨by decide, by decide, by decide, trivial⟩ (by decide)
    (by decide)⟩

/-- Two calls with one id: the second one takes the place of the first one, which is still running
    when the turn completes. -/
theorem repeated_call_stays_running :
    let call := recordOf [("type", "tool_execution_start"), ("toolCallId", "")]
    let ended := recordOf [("type", "tool_execution_end"), ("toolCallId", "")]
    let records := [recordOf [("type", "agent_start")], call, call, ended, ended,
      recordOf [("type", "agent_settled")]]
    (PiAdapter.run noRequests {} records).2 =
      [.turnStarted 1, .itemStarted 1 1 .dynamicToolCall, .itemStarted 1 2 .dynamicToolCall,
       .itemCompleted 1 2 .dynamicToolCall "" .completed, .turnCompleted 1] ∧
    ¬ History.AllowsAll {} (PiAdapter.run noRequests {} records).2 := by
  intro call ended records
  suffices hevents : _ from ⟨hevents, by
    rw [hevents]
    simp [History.AllowsAll, History.Allows, History.note]⟩
  decide

end Watershed.MetaHarness
