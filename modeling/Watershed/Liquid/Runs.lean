/-
  Runs of a Workspace: created or opened, then any sequence of requests, reads and closed
  Pages.

  Every Workspace of a run agrees with its store (`Reached.inv`), so a refused request, which
  leaves the store as it was, leaves every later answer as it was.
-/
import Watershed.Liquid.Applying
import Watershed.Liquid.Journal

namespace Watershed.Liquid

open Fallible (wp wp_bind)

variable {P : Platform} {S : Store P.automerge} {ws ws' : Workspace P S} {device : RandomBytes}
  {n : Nat} {store : S.State}

/-! ## Reading and closing -/

/-- A read answers as the store does, and only loads documents. -/
theorem Inv.read (h : Inv ws) (r : Workspace.Read) :
    Inv (Workspace.read r ws).2 ∧ SameBase ws (Workspace.read r ws).2 ∧
      answer S ws.store r = (Workspace.read r ws).1 := by
  have hr := Workspace.read_spec h r
  unfold Workspace.Answers wp at hr
  rcases hrun : Workspace.read r ws with ⟨e | a, ws'⟩ <;> rw [hrun] at hr <;> exact hr

theorem Inv.read_eq (h : Inv ws) (r : Workspace.Read) :
    (Workspace.read r ws).1 = answer S ws.store r := (h.read r).2.2.symm

theorem Inv.closePage (h : Inv ws) (p : PageId) : Inv (ws.closePage p) := by
  refine ⟨fun d l hl => ?_, h.fresh⟩
  unfold Workspace.closePage at hl
  by_cases hd : d = .page p
  · subst hd
    rw [Workspace.docs_setDoc_self] at hl
    cases hl
  · rw [Workspace.docs_setDoc_ne _ _ hd] at hl
    exact h.loaded d l hl

/-- From `ws`, some reads and closed Pages lead to `ws'`. -/
inductive ReadOn (ws : Workspace P S) : Workspace P S → Prop
  | refl : ReadOn ws ws
  | read {ws' : Workspace P S} (r : Workspace.Read) : ReadOn ws ws' →
      ReadOn ws (Workspace.read r ws').2
  | closePage {ws' : Workspace P S} (p : PageId) : ReadOn ws ws' → ReadOn ws (ws'.closePage p)

theorem ReadOn.inv (hr : ReadOn ws ws') (h : Inv ws) : Inv ws' ∧ SameBase ws ws' := by
  induction hr with
  | refl => exact ⟨h, .refl ws⟩
  | read r _ ih =>
    obtain ⟨hi, hb, -⟩ := ih.1.read r
    exact ⟨hi, ih.2.trans hb⟩
  | closePage p _ ih => exact ⟨ih.1.closePage p, ih.2.trans ⟨rfl, rfl, rfl, rfl⟩⟩

/-! ## Creating and opening -/

/-- What a new Workspace document holds. -/
def ownedBy (owner : PersonId) : State :=
  (State.empty.set "owner" [] (some (.scalar (.str owner.asStr)))).withMaps ["areas"]

theorem Inv.fresh_of_store (h : FreshStore P.random S store n)
    (device : RandomBytes) (owner : PersonId) :
    Inv (Workspace.fresh store device owner n : Workspace P S) :=
  ⟨fun _ _ hl => (by cases hl), h⟩

/-- A new Workspace document holds its owner and an empty map of areas, uncommitted. -/
theorem createBody_spec {owner : PersonId} :
    wp (do
        put [] "owner" (.str owner.asStr)
        createMaps ["areas"] : DocM P.automerge Unit Unit)
      (fun _ c => P.automerge.version c.doc = ⟨[], .empty⟩ ∧
        c.state = ownedBy owner ∧ P.automerge.pendingOps c.doc ≠ 0)
      (fun _ _ => False) ⟨P.automerge.new device, (), 0⟩ := by
  have hnew : P.automerge.state (P.automerge.new device) = .empty := by
    rw [P.automerge.clean _ (P.automerge.pendingOps_new _), P.automerge.version_new]
  rw [wp_bind]
  refine wp_put (fun _ d hd hv => ?_) fun hm => ?_
  · refine wp_createMaps fun d' hd' hv' => ?_
    have hs : P.automerge.state d' = ownedBy owner := by
      rw [hd', hd]
      simp only [hnew]
      rfl
    have hver : P.automerge.version d' = ⟨[], .empty⟩ :=
      hv'.trans (hv.trans (P.automerge.version_new _))
    refine ⟨hver, hs, fun hp => ?_⟩
    have hclean := P.automerge.clean _ hp
    rw [hs, hver] at hclean
    have := congrArg (fun s => s.node ["areas"]) hclean
    simp [ownedBy, State.withMaps, State.empty] at this
  · simp only [hnew] at hm
    cases hm

/-- An empty store names nothing. -/
theorem FreshStore.of_empty (h : ∀ d, S.chunks store d = .ok []) :
    FreshStore P.random S store n := by
  refine fun i bytes _ _ => ⟨h _, h _, fun p s hs => ?_⟩
  simp [Liquid.shown, h] at hs

namespace Workspace

variable {owner : PersonId} {store : S.State} {n : Nat}

/-- The first Action records the new Workspace document. -/
theorem createRecord_spec
    {doc : P.automerge.AutoCommit} (hf : FreshStore P.random S store n)
    (hc : S.chunks store .workspace = .ok []) (hv : P.automerge.version doc = ⟨[], .empty⟩)
    (hs : P.automerge.state doc = ownedBy owner) (hp : P.automerge.pendingOps doc ≠ 0) :
    wp (do
        let id ← newId
        record ⟨id, .person owner, .ui, .owner, .createWorkspace, []⟩ [.workspace]
          [(.workspace, doc)] : M P S Unit)
      (fun _ ws => Inv ws ∧ ws.owner = owner ∧ n ≤ ws.drawn ∧ ∃ action,
        Stored S store ws.store [(.workspace, ownedBy owner)] action)
      (fun _ _ => True) (fresh store device owner (n + 1)) := by
  rw [wp_bind]
  refine newId_spec.mono ?_ fun _ _ _ => trivial
  rintro id _ ⟨rfl, -⟩
  have hready : Ready (fresh store device owner (n + 1 + 1) : Workspace P S)
      ⟨none, [], [.workspace], [(.workspace, doc)]⟩ [(.workspace, ownedBy owner)] := by
    refine ⟨rfl, by simp, ?_, ?_, by simp, by simp, hf.mono (show n ≤ n + 1 + 1 by omega)⟩
    · intro x hx
      rw [List.mem_singleton.mp hx]
      refine ⟨_, [], docs_setDoc_self _ _ _, hs, hc, ⟨rfl, ?_⟩, .inr hp, ?_, ?_,
        fun _ => ⟨rfl, fun _ => rfl⟩⟩
      · rw [hv]
        exact P.automerge.parse_nil
      · rintro o ⟨⟩
      · rintro b ix ⟨⟩
    · intro d l hd hl
      have hne : d ≠ .workspace := by simpa using hd
      change ((fresh store device owner (n + 1 + 1) : Workspace P S).setDoc _ _).docs d = _ at hl
      rw [docs_setDoc_ne _ _ hne] at hl
      cases hl
  refine (record_spec hready rfl).mono ?_ fun _ _ _ => trivial
  rintro - ws ⟨hi, hsame, changes, hstored⟩
  have hdrawn : n + 1 + 1 ≤ ws.drawn := hsame.drawn
  exact ⟨hi, hsame.owner, by omega, _, hstored⟩

theorem create_spec (hf : FreshStore P.random S store n) (h : create owner store n = .ok ws) :
    Inv ws ∧ ws.owner = owner ∧ n ≤ ws.drawn ∧ ∃ action,
      Stored S store ws.store [(.workspace, ownedBy owner)] action := by
  unfold create at h
  cases hc : S.chunks store .workspace with
  | error e => simp [hc] at h
  | ok chunks =>
    cases chunks with
    | cons c cs => simp [hc] at h
    | nil =>
      cases hr : P.random n with
      | none => simp [hc, hr] at h
      | some device =>
        simp only [hc, hr] at h
        split at h
        · cases h
        · rename_i c hbody
          obtain ⟨hv, hs, hp⟩ := createBody_spec.of_ok hbody
          split at h
          · rename_i hrecord
            cases h
            exact createRecord_spec hf hc hv hs hp |>.of_ok hrecord
          · cases h

theorem open_spec (hf : FreshStore P.random S store n)
    (h : «open» store n = .ok ws) : Inv ws ∧ ws.store = store ∧ n ≤ ws.drawn := by
  unfold «open» at h
  cases hr : P.random n with
  | none => simp [hr] at h
  | some device =>
    simp only [hr] at h
    split at h
    · cases h
    · rename_i s ws₁ hdoc
      have hi : Inv (fresh store device ⟨""⟩ (n + 1) : Workspace P S) :=
        Inv.fresh_of_store (hf.mono (Nat.le_succ n)) device ⟨""⟩
      obtain ⟨h₁, hbase, -⟩ := (doc_spec hi .workspace).of_ok hdoc
      have hdrawn : n + 1 = ws₁.drawn := hbase.drawn.symm
      split at h
      · cases h
      · cases h
        exact ⟨⟨h₁.loaded, h₁.fresh⟩, hbase.store, show n ≤ ws₁.drawn by omega⟩

end Workspace

/-! ## Runs -/

/-- A Workspace reached from `create` or `open` by any sequence of `apply`, `read` and
    `close_page` calls, whatever their results. The store may hold documents of other
    devices; it holds none of the random identities that are still to be drawn. -/
inductive Reached : Workspace P S → Prop
  | create {owner : PersonId} {store : S.State} {n : Nat} {ws : Workspace P S}
      (fresh : FreshStore P.random S store n) (h : Workspace.create owner store n = .ok ws) :
      Reached ws
  | «open» {store : S.State} {n : Nat} {ws : Workspace P S}
      (fresh : FreshStore P.random S store n) (h : Workspace.open store n = .ok ws) : Reached ws
  | apply {ws : Workspace P S} (request : Request) : Reached ws →
      Reached (Workspace.apply request ws).2
  | read {ws : Workspace P S} (r : Workspace.Read) : Reached ws → Reached (Workspace.read r ws).2
  | closePage {ws : Workspace P S} (page : PageId) : Reached ws → Reached (ws.closePage page)

variable (hd : Distinct P.random)
include hd

theorem Inv.apply (h : Inv ws) (request : Request) : Inv (Workspace.apply request ws).2 := by
  have ha := Workspace.apply_spec hd h request
  unfold wp at ha
  rcases hrun : Workspace.apply request ws with ⟨e | a, ws'⟩
  · rw [hrun] at ha
    exact ha.inv
  · rw [hrun] at ha
    obtain ⟨states, action, ha⟩ := ha
    exact ha.inv

/-- Every Workspace of a run agrees with its store. -/
theorem Reached.inv (h : Reached ws) : Inv ws := by
  induction h with
  | create hf hc => exact (Workspace.create_spec hf hc).1
  | «open» hf ho => exact (Workspace.open_spec hf ho).1
  | apply request _ ih => exact ih.apply hd request
  | read r _ ih => exact (ih.read r).1
  | closePage page _ ih => exact ih.closePage page

/-- A store that holds nothing yet. -/
structure EmptyStore (S : Store P.automerge) (store : S.State) : Prop where
  chunks : ∀ d, S.chunks store d = .ok []
  actions : S.actions store = []

/-- A Workspace of a run that starts with `create` on an empty store, so that every document
    is written by this code; the Workspace may be opened again on the way. -/
inductive Started : Workspace P S → Prop
  | create {owner : PersonId} {store : S.State} {n : Nat} {ws : Workspace P S}
      (empty : EmptyStore S store) (h : Workspace.create owner store n = .ok ws) : Started ws
  | apply {ws : Workspace P S} (request : Request) : Started ws →
      Started (Workspace.apply request ws).2
  | read {ws : Workspace P S} (r : Workspace.Read) : Started ws → Started (Workspace.read r ws).2
  | closePage {ws : Workspace P S} (page : PageId) : Started ws → Started (ws.closePage page)
  | reopen {ws ws' : Workspace P S} {n : Nat} : Started ws → ws.drawn ≤ n →
      Workspace.open ws.store n = .ok ws' → Started ws'

theorem Started.inv (h : Started ws) : Inv ws := by
  induction h with
  | create hempty hc => exact (Workspace.create_spec (.of_empty hempty.chunks) hc).1
  | apply request _ ih => exact ih.apply hd request
  | read r _ ih => exact (ih.read r).1
  | closePage page _ ih => exact ih.closePage page
  | reopen _ hn ho ih => exact (Workspace.open_spec (ih.fresh.mono hn) ho).1

theorem Started.reached (h : Started ws) : Reached ws := by
  induction h with
  | create hempty hc => exact .create (.of_empty hempty.chunks) hc
  | apply request _ ih => exact ih.apply request
  | read r _ ih => exact ih.read r
  | closePage page _ ih => exact ih.closePage page
  | reopen hst hn ho _ => exact .open ((hst.inv hd).fresh.mono hn) ho

omit hd in
/-- Requests on the log's platform make a run. -/
theorem started_journalRun (mutations : List Mutation) : Started (journalRun mutations) := by
  have hstart := toOption_eq_some.mp (Option.some_get journalStart_isSome).symm
  unfold journalRun
  induction mutations using List.reverseRecOn with
  | nil => exact .create ⟨fun _ => rfl, rfl⟩ hstart
  | append_singleton ms m ih =>
    rw [List.foldl_append]
    exact ih.apply _

omit hd in
/-- What can be evaluated of a run holds for some run, of which nothing more is known. -/
theorem exists_started (mutations : List Mutation)
    {Q : JournalWorkspace → Prop} (h : Q (journalRun mutations)) :
    ∃ ws, Started ws ∧ Q ws := ⟨_, started_journalRun mutations, h⟩

omit hd in
theorem exists_applied (mutations : List Mutation) (request : Request)
    (h : (Workspace.apply request (journalRun mutations)).1.isOk = true) :
    ∃ ws ws' : JournalWorkspace, ∃ applied, Started ws ∧
      Workspace.apply request ws = (.ok applied, ws') := by
  rcases hrun : Workspace.apply request (journalRun mutations) with ⟨e | applied, ws'⟩
  · rw [hrun] at h
    cases h
  · exact ⟨_, ws', applied, started_journalRun mutations, hrun⟩

/-- The rule for what the store of a run holds: it is enough that the first commit makes it
    true and every accepted request keeps it. -/
theorem Started.store_rule {Φ : S.State → Prop}
    (hcongr : ∀ store store', S.chunks store' = S.chunks store →
      S.actions store' = S.actions store → Φ store → Φ store')
    (hcreate : ∀ owner store store' action, EmptyStore S store →
      Stored S store store' [(.workspace, ownedBy owner)] action → Φ store')
    (hstep : ∀ (ws ws' : Workspace P S) request applied states action, Inv ws → Φ ws.store →
      Workspace.Accepted ws ws' request applied states action → Φ ws'.store)
    (h : Started ws) : Φ ws.store := by
  induction h with
  | create hempty hc =>
    obtain ⟨-, -, -, action, hs⟩ := Workspace.create_spec (.of_empty hempty.chunks) hc
    exact hcreate _ _ _ _ hempty hs
  | @apply ws request hst ih =>
    have ha := Workspace.apply_spec hd (hst.inv hd) request
    unfold wp at ha
    rcases hrun : Workspace.apply request ws with ⟨e | a, ws'⟩
    · rw [hrun] at ha
      exact hcongr _ _ ha.chunks ha.actions ih
    · rw [hrun] at ha
      obtain ⟨states, action, ha⟩ := ha
      exact hstep _ _ _ _ _ _ (hst.inv hd) ih ha
  | read r hst ih =>
    rw [((hst.inv hd).read r).2.1.store]
    exact ih
  | closePage page _ ih => exact ih
  | reopen hst hn ho ih =>
    rw [(Workspace.open_spec ((hst.inv hd).fresh.mono hn) ho).2.1]
    exact ih


omit hd
/-! ## Refused requests -/

/-- `apply` is all or nothing: when it fails, whatever the error, the store holds what it
    held, every later read answers as it would have before the call, and no View order or row
    index in memory differs from what its document gives. -/
theorem apply_error_changes_nothing (hd : Distinct P.random) (h : Reached ws) (request : Request)
    (e : Error) (he : Workspace.apply request ws = (.error e, ws')) :
    (S.chunks ws'.store = S.chunks ws.store ∧ S.actions ws'.store = S.actions ws.store) ∧
    (∀ later, ReadOn ws' later → ∀ r, (Workspace.read r later).1 = (Workspace.read r ws).1) ∧
    ∀ p l, ws'.docs (.page p) = some l →
      (∀ o, l.order = some o → o = Order.read (P.automerge.state l.doc)) ∧
      ∀ b ix query, l.databases b = some ix →
        Database.rows P.toLowercase (P.automerge.state l.doc) ix b query =
          (Index.read (P.automerge.state l.doc) b).bind fun ix =>
            Database.rows P.toLowercase (P.automerge.state l.doc) ix b query := by
  have hi := h.inv hd
  obtain ⟨hi', -, hchunks, hactions⟩ := (Workspace.apply_spec hd hi request).of_error he
  refine ⟨⟨hchunks, hactions⟩, fun later hlater r => ?_, fun p l hl => ?_⟩
  · obtain ⟨hilater, hbase⟩ := hlater.inv hi'
    rw [hilater.read_eq, hi.read_eq, hbase.store, answer_congr S hchunks hactions]
  · obtain ⟨-, -, hc⟩ := hi'.loaded _ l hl
    exact ⟨hc.order, fun b ix query hix => (hc.databases b ix hix).rows_eq P.toLowercase query⟩

/-- A store that fails its second commit. -/
def diskFull : Store journalPlatform.automerge :=
  flakyStore journal fun n => if n = 1 then some (.storage "disk full") else none

/-- The first request of a new Workspace meets a full disk. -/
theorem apply_error_changes_nothing_diskFull :
    ∃ ws ws' : Workspace journalPlatform diskFull,
      Workspace.create ⟨"me"⟩ (.default, 0) 0 = .ok ws ∧
      Workspace.apply ⟨.person ⟨"me"⟩, .ui, .createArea "Work"⟩ ws =
        (.error (.storage "disk full"), ws') ∧
      ∀ r, (Workspace.read r ws').1 = (Workspace.read r ws).1 := by
  have hrun : ((Workspace.create ⟨"me"⟩ (.default, 0) 0 :
      Except Error (Workspace journalPlatform diskFull)).toOption.map fun ws =>
        (Workspace.apply ⟨.person ⟨"me"⟩, .ui, .createArea "Work"⟩ ws).1) =
      some (.error (.storage "disk full")) := by decide +kernel
  cases hc : (Workspace.create ⟨"me"⟩ (.default, 0) 0 :
      Except Error (Workspace journalPlatform diskFull)) with
  | error e =>
    rw [hc] at hrun
    cases hrun
  | ok ws =>
    rw [hc] at hrun
    have ha : _ = (_, _) := Prod.ext (Option.some.inj hrun) rfl
    exact ⟨ws, _, rfl, ha, (apply_error_changes_nothing distinct_journalPlatform
      (.create (FreshStore.of_empty fun d => rfl) hc) _ _ ha).2.1 _ .refl⟩

end Watershed.Liquid
