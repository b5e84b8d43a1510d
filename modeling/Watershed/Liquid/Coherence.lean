/-
  A Workspace in memory agrees with its store.

  `shown` is what the store alone says a document shows, and `answer` what it says a reader
  gets. A Workspace that satisfies `Inv` answers every read accordingly, whatever it has in
  memory (`read_spec`): the documents in memory are the stored ones, and the View orders and
  row indexes beside them are right.
-/
import Watershed.Liquid.DatabaseBodies

namespace Watershed.Liquid

open Function
open Fallible (wp lift wp_bind wp_lift wp_pure wp_read)

variable {P : Platform} {S : Store P.automerge}

/-! ## What the store says -/

section
variable (S)

/-- What the stored chunks of a document show. -/
def shown (store : S.State) (d : Document) : Except Error State :=
  match S.chunks store d with
  | .error e => .error e
  | .ok [] => .error .notFound
  | .ok chunks =>
    match P.automerge.parse chunks.flatten with
    | .error e => .error (.document e)
    | .ok v => .ok v.state

/-- The answer to a read, from the store alone. -/
def answer (store : S.State) :
    Workspace.Read → Except Error (Workspace.Answer P.automerge.ChangeHash)
  | .areas => (shown S store .workspace).bind fun s => .ok (.areas (areas s))
  | .pages area => (shown S store (.area area)).bind fun s => .ok (.pages (pages s))
  | .views page start limit => (shown S store (.page page)).bind fun s =>
    .ok (.views ((Order.read s).window start limit))
  | .viewCount page => (shown S store (.page page)).bind fun s =>
    .ok (.viewCount (Order.read s).placed.length)
  | .style page block => (shown S store (.page page)).bind fun s =>
    .ok (.style (Workspace.styleOf s block))
  | .text page block => (shown S store (.page page)).bind fun s => .ok (.text (text s block.asStr))
  | .database page block => (shown S store (.page page)).bind fun s =>
    (Database.read s block).map .database
  | .rows page block query => (shown S store (.page page)).bind fun s =>
    ((Index.read s block).bind fun ix =>
      Database.rows P.toLowercase s ix block query).map .rows
  | .history before limit => (S.history store before limit).map .history

/-- Answers depend on the stored chunks and Actions only. -/
theorem answer_congr {store store' : S.State} (hc : S.chunks store' = S.chunks store)
    (ha : S.actions store' = S.actions store) : answer S store' = answer S store := by
  have hshown : ∀ d, shown S store' d = shown S store d := by
    intro d
    unfold shown
    rw [hc]
  funext r
  cases r <;> simp only [answer, hshown, S.history_eq, ha]

end

/-! ## The invariant -/

/-- The store holds the committed version of a document in memory, in as many chunks as the
    Workspace counts. -/
def Backed (S : Store P.automerge) (store : S.State) (d : Document) (l : Loaded P.automerge) :
    Prop :=
  ∃ chunks, S.chunks store d = .ok chunks ∧ chunks ≠ [] ∧ l.chunks = chunks.length ∧
    P.automerge.parse chunks.flatten = .ok (P.automerge.version l.doc)

/-- What is kept beside a document agrees with the state `s`. -/
structure Coherent {A : Automerge} (d : Document) (l : Loaded A) (s : State) : Prop where
  order : ∀ o, l.order = some o → o = Order.read s
  databases : ∀ b ix, l.databases b = some ix → IndexOk s b ix
  page : (∀ p, d ≠ .page p) → l.order = none ∧ ∀ b, l.databases b = none

/-- The identities still to be drawn name no document, and nothing in a Page. -/
def FreshStore (random : Random) (S : Store P.automerge) (store : S.State) (n : Nat) : Prop :=
  ∀ i bytes, n ≤ i → random i = some bytes →
    S.chunks store (.area ⟨hex bytes⟩) = .ok [] ∧ S.chunks store (.page ⟨hex bytes⟩) = .ok [] ∧
    ∀ p s, shown S store (.page p) = .ok s → hex bytes ∉ Names s

/-- Every document in memory is as the store holds it, and so is what is kept beside it. -/
structure Inv (ws : Workspace P S) : Prop where
  loaded : ∀ d l, ws.docs d = some l → Backed S ws.store d l ∧
    P.automerge.pendingOps l.doc = 0 ∧ Coherent d l l.state
  fresh : FreshStore P.random S ws.store ws.drawn

variable {p : PageId} {s : State} {random : Random} {store : S.State} {n : Nat} {d : Document}
    {l : Loaded P.automerge}

/-- A new index beside a Page that is otherwise right. -/
theorem Coherent.updateIndex {A : Automerge} {l : Loaded A} {b : BlockId}
    {ix : Index} (horder : ∀ o, l.order = some o → o = Order.read s)
    (hothers : ∀ b', b' ≠ b → ∀ ix, l.databases b' = some ix → IndexOk s b' ix)
    (hix : IndexOk s b ix) :
    Coherent (.page p) { l with databases := update l.databases b (some ix) } s := by
  refine ⟨horder, fun b' ix' hix' => ?_, fun hne => absurd rfl (hne p)⟩
  change update l.databases b (some ix) b' = some ix' at hix'
  by_cases hb : b' = b
  · subst hb
    rw [update_self] at hix'
    cases hix'
    exact hix
  · rw [update_of_ne hb] at hix'
    exact hothers b' hb ix' hix'

/-- Filling in the order that the document gives. -/
theorem Coherent.withOrder (hc : Coherent (.page p) l s) :
    Coherent (.page p) { l with order := some (l.order.getD (Order.read s)) } s := by
  refine ⟨?_, hc.databases, fun hne => absurd rfl (hne p)⟩
  rintro o ⟨⟩
  cases ho : l.order with
  | none => rfl
  | some o => exact hc.order o ho

theorem FreshStore.mono {m : Nat}
    (h : FreshStore random S store n) (hm : n ≤ m) : FreshStore random S store m :=
  fun i bytes hi hr => h i bytes (hm.trans hi) hr

theorem FreshStore.fresh (h : FreshStore random S store n)
    (hs : shown S store (.page p) = .ok s) : Fresh random n s :=
  fun i bytes hi hr => (h i bytes hi hr).2.2 p s hs

/-- A document without uncommitted writes shows what the store says. -/
theorem Backed.shown (h : Backed S store d l) (hp : P.automerge.pendingOps l.doc = 0) :
    shown S store d = .ok l.state := by
  obtain ⟨chunks, hc, hne, -, hparse⟩ := h
  obtain ⟨c, cs, rfl⟩ := List.exists_cons_of_ne_nil hne
  unfold Liquid.shown
  simp only [hc, hparse]
  rw [Loaded.state, P.automerge.clean _ hp]

/-! ## Loading -/

/-- Nothing but the documents in memory differs. -/
structure SameBase (ws ws' : Workspace P S) : Prop where
  store : ws'.store = ws.store
  device : ws'.device = ws.device
  owner : ws'.owner = ws.owner
  drawn : ws'.drawn = ws.drawn

theorem SameBase.refl (ws : Workspace P S) : SameBase ws ws := ⟨rfl, rfl, rfl, rfl⟩

theorem SameBase.trans {ws ws' ws'' : Workspace P S} (h : SameBase ws ws')
    (h' : SameBase ws' ws'') : SameBase ws ws'' :=
  ⟨h'.store.trans h.store, h'.device.trans h.device, h'.owner.trans h.owner, h'.drawn.trans h.drawn⟩

namespace Workspace

variable {ws : Workspace P S}

@[simp] theorem docs_setDoc_self (ws : Workspace P S) (d : Document)
    (l : Option (Loaded P.automerge)) : (ws.setDoc d l).docs d = l := by
  simp [setDoc]

theorem docs_setDoc_ne (ws : Workspace P S) {d d' : Document} (l : Option (Loaded P.automerge))
    (h : d' ≠ d) : (ws.setDoc d l).docs d' = ws.docs d' := by
  simp [setDoc, h]

end Workspace

/-- A document that is put into memory as the store holds it. -/
theorem Inv.setDoc {ws : Workspace P S} (h : Inv ws)
    (hb : Backed S ws.store d l) (hp : P.automerge.pendingOps l.doc = 0)
    (hc : Coherent d l l.state) : Inv (ws.setDoc d (some l)) := by
  refine ⟨fun d' l' hl' => ?_, h.fresh⟩
  by_cases hd : d' = d
  · subst hd
    rw [Workspace.docs_setDoc_self] at hl'
    cases hl'
    exact ⟨hb, hp, hc⟩
  · rw [Workspace.docs_setDoc_ne _ _ hd] at hl'
    exact h.loaded d' l' hl'

namespace Workspace

variable {ws : Workspace P S} {α : Type}

theorem load_spec (h : Inv ws) (d : Document) :
    wp (load d) (fun l ws' => Inv ws' ∧ SameBase ws ws' ∧ ws'.docs d = some l ∧
        shown S ws.store d = .ok l.state)
      (fun e ws' => ws' = ws ∧ shown S ws.store d = .error e) ws := by
  unfold wp load
  cases hd : ws.docs d with
  | some l =>
    obtain ⟨hb, hp, -⟩ := h.loaded d l hd
    exact ⟨h, SameBase.refl ws, hd, hb.shown hp⟩
  | none =>
    cases hc : S.chunks ws.store d with
    | error e => exact ⟨rfl, by simp [shown, hc]⟩
    | ok chunks =>
      dsimp only
      cases chunks with
      | nil => exact ⟨rfl, by simp [shown, hc]⟩
      | cons chunk chunks =>
        cases hparse : P.automerge.parse (chunk :: chunks).flatten with
        | error e =>
          rw [P.automerge.load_error _ _ _ hparse]
          exact ⟨rfl, by unfold shown; simp only [hc, hparse]⟩
        | ok v =>
          obtain ⟨doc, hload, hv, hp⟩ := P.automerge.load_ok _ ws.device _ hparse
          rw [hload]
          have hb : Backed S ws.store d
              (⟨doc, (chunk :: chunks).length, none, fun _ => none⟩ : Loaded P.automerge) :=
            ⟨_, hc, by simp, rfl, by rw [hparse, hv]⟩
          refine ⟨h.setDoc hb hp ⟨?_, ?_, fun _ => ⟨rfl, fun _ => rfl⟩⟩,
            ⟨rfl, rfl, rfl, rfl⟩, docs_setDoc_self _ _ _, hb.shown hp⟩
          · rintro o ⟨⟩
          · rintro b ix ⟨⟩

theorem doc_spec (h : Inv ws) (d : Document) :
    wp (doc d)
      (fun s ws' => Inv ws' ∧ SameBase ws ws' ∧ shown S ws.store d = .ok s)
      (fun e ws' => ws' = ws ∧ shown S ws.store d = .error e) ws := by
  unfold doc
  simp only [wp_bind]
  exact (load_spec h d).mono_ok (fun l ws' h => ⟨h.1, h.2.1, h.2.2.2⟩)

theorem wp_onLoaded {κ α : Type} {cache : κ}
    {keep : κ → Loaded P.automerge → Loaded P.automerge} {body : DocM P.automerge κ α}
    {Q : α → Workspace P S → Prop} {E : Error → Workspace P S → Prop} :
    wp (onLoaded d l cache keep body) Q E ws ↔ wp body
        (fun a c => Q a { ws.setDoc d (some (keep c.cache { l with doc := c.doc })) with
          drawn := c.drawn })
        (fun e c => E e { ws.setDoc d (some (keep c.cache { l with doc := c.doc })) with
          drawn := c.drawn })
        ⟨l.doc, cache, ws.drawn⟩ := by
  unfold wp onLoaded
  rcases body ⟨l.doc, cache, ws.drawn⟩ with ⟨_ | _, c⟩ <;> rfl

/-! ## Reading -/

/-- A read of a Page's View order answers from the order that the document gives. -/
theorem onPage_read_spec (h : Inv ws) (p : PageId) (f : Order → α) :
    wp (onPage p (Fallible.read fun c => f c.cache)) (fun a ws' => Inv ws' ∧ SameBase ws ws' ∧
        ∃ s, shown S ws.store (.page p) = .ok s ∧ a = f (Order.read s))
      (fun e ws' => ws' = ws ∧ shown S ws.store (.page p) = .error e) ws := by
  unfold onPage
  rw [wp_bind]
  refine (load_spec h (.page p)).mono_ok (fun l ws' hl => ?_)
  obtain ⟨h', hbase, hdoc, hshown⟩ := hl
  obtain ⟨hb, hp, hc⟩ := h'.loaded _ _ hdoc
  exact ⟨h'.setDoc hb hp hc.withOrder, hbase.trans ⟨rfl, rfl, rfl, rfl⟩, _, hshown,
    congrArg f (hc.withOrder.order _ rfl)⟩

/-- `m` answers `result`, and only loads what it reads. -/
abbrev Answers (m : M P S α) (result : Except Error α) (ws : Workspace P S) : Prop :=
  wp m (fun a ws' => Inv ws' ∧ SameBase ws ws' ∧ result = .ok a)
    (fun e ws' => Inv ws' ∧ SameBase ws ws' ∧ result = .error e) ws

/-- A read of a document answers from what the store says it shows. -/
theorem doc_read_spec (h : Inv ws) (d : Document) (g : State → Except Error α) :
    Answers (doc d >>= fun s => lift (g s)) ((shown S ws.store d).bind g) ws := by
  rw [Answers, wp_bind]
  refine (doc_spec h d).mono (fun s ws' hs => ?_) fun e ws' he => ?_
  · obtain ⟨h1, h2, hs⟩ := hs
    rw [hs, wp_lift]
    exact ⟨fun a ha => ⟨h1, h2, ha⟩, fun e he => ⟨h1, h2, he⟩⟩
  · obtain ⟨rfl, he⟩ := he
    exact ⟨h, SameBase.refl _, by rw [he]; rfl⟩

theorem rows_answered (h : Inv ws) (p : PageId) (b : BlockId) (query : RowQuery) :
    Answers (read (.rows p b query)) (answer S ws.store (.rows p b query)) ws := by
  unfold read onDatabase
  rw [Answers, wp_bind]
  refine (load_spec h (.page p)).mono (fun l ws' hl => ?_) fun e ws' he => ?_
  swap
  · obtain ⟨rfl, he⟩ := he
    exact ⟨h, SameBase.refl _, by rw [answer, he]; rfl⟩
  obtain ⟨h', hbase, hdoc, hshown⟩ := hl
  obtain ⟨hb, hp, hc⟩ := h'.loaded _ _ hdoc
  have hanswer : answer S ws.store (.rows p b query) = ((Index.read l.state b).bind fun ix =>
        Database.rows P.toLowercase l.state ix b query).map .rows := by
    rw [answer, hshown]
    rfl
  -- with an index that is right, cached or just read
  have hwith : ∀ ix, IndexOk l.state b ix → wp (onLoaded (.page p) l ix (fun index loaded =>
          { loaded with databases := update loaded.databases b (some index) })
        (do
          let index ← Fallible.read Ctx.cache
          return .rows (← lift (Database.rows P.toLowercase (← state) index b query))))
        (fun a ws'' => Inv ws'' ∧ SameBase ws ws'' ∧ answer S ws.store (.rows p b query) = .ok a)
        (fun e ws'' => Inv ws'' ∧ SameBase ws ws'' ∧
          answer S ws.store (.rows p b query) = .error e) ws' := by
    intro ix hix
    have hi : Inv _ := h'.setDoc (l := { l with databases := update l.databases b (some ix) })
      hb hp (Coherent.updateIndex hc.order (fun b' _ ix' => hc.databases b' ix') hix)
    rw [hanswer, ← hix.rows_eq P.toLowercase query, wp_onLoaded]
    simp only [wp_bind, wp_read, wp_state, wp_lift, wp_pure]
    constructor
    · intro rows hrows
      exact ⟨hi, hbase.trans ⟨rfl, rfl, rfl, rfl⟩, by rw [hrows]; rfl⟩
    · intro e he
      exact ⟨hi, hbase.trans ⟨rfl, rfl, rfl, rfl⟩, by rw [he]; rfl⟩
  cases hix : l.databases b with
  | some ix => exact hwith ix (hc.databases b ix hix)
  | none =>
    rw [wp_bind, wp_lift]
    constructor
    · intro ix hread
      exact hwith ix (Index.indexOk_read hread)
    · intro e he
      exact ⟨h', hbase, by rw [hanswer, he]; rfl⟩

/-- Every read answers as the store does, and only loads what it reads. -/
theorem read_spec (h : Inv ws) (r : Read) : Answers (read r) (answer S ws.store r) ws := by
  have hpage : ∀ (p : PageId) (f : Order → Answer P.automerge.ChangeHash),
      Answers (onPage p (Fallible.read fun c => f c.cache))
        ((shown S ws.store (.page p)).bind fun s => .ok (f (Order.read s))) ws := by
    intro p f
    refine (onPage_read_spec h p f).mono (fun a ws' ha => ?_) fun e ws' he => ?_
    · obtain ⟨h1, h2, s, hs, rfl⟩ := ha
      exact ⟨h1, h2, by rw [hs]; rfl⟩
    · obtain ⟨rfl, he⟩ := he
      exact ⟨h, SameBase.refl _, by rw [he]; rfl⟩
  cases r
  case areas => exact doc_read_spec h .workspace fun s => .ok (Answer.areas (Liquid.areas s))
  case pages a => exact doc_read_spec h (.area a) fun s => .ok (Answer.pages (Liquid.pages s))
  case views p start limit => exact hpage p fun o => .views (o.window start limit)
  case viewCount p => exact hpage p fun o => .viewCount o.placed.length
  case style p b => exact doc_read_spec h (.page p) fun s => .ok (Answer.style (styleOf s b))
  case text p b =>
    exact doc_read_spec h (.page p) fun s => .ok (Answer.text (Liquid.text s b.asStr))
  case database p b =>
    have hread : (read (.database p b) : M P S _) = (doc (.page p) >>= fun s =>
        lift ((Database.read s b).map .database)) := by
      refine congrArg (fun k => doc (.page p) >>= k) (funext fun s => ?_)
      cases Database.read s b <;> rfl
    rw [hread]
    exact doc_read_spec h (.page p) _
  case rows p b query => exact rows_answered h p b query
  case history before limit =>
    unfold read
    simp only [wp_bind, wp_lift, answer]
    exact ⟨fun actions ha => ⟨h, SameBase.refl _, by rw [show S.history ws.store _ _ = _ from ha]; rfl⟩,
      fun e he => ⟨h, SameBase.refl _, by rw [show S.history ws.store _ _ = _ from he]; rfl⟩⟩

end Workspace

end Watershed.Liquid
