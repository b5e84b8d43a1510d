/-
  The rows of Databases over whole runs.

  The index that is kept beside a Page is never rebuilt: it keeps cells of removed fields and
  rows of removed Blocks. `rows` cannot tell it from an index that is read afresh, and a row
  that is added is exactly where it was to go.
-/
import Watershed.Liquid.OrderRuns
import Watershed.Liquid.RowOrder

open List

namespace Watershed.Liquid

variable {P : Platform} {S : Store P.automerge} {ws ws' : Workspace P S}

/-! ## Places -/

/-- `after` is `before` with `a` put at `place`. -/
def InsertedAt {α : Type} (place : Place α) (a : α) (before after : List α) : Prop :=
  match place with
  | .first => after = a :: before
  | .after b => ∃ pre post, before = pre ++ b :: post ∧ after = pre ++ b :: a :: post
  | .last => after = before ++ [a]

/-- The rows as readers see them: their identities in order. -/
def Index.ids (ix : Index) : List RowId := ix.rows.map Indexed.id

variable {b : BlockId} {place : Place RowId} {s : State} {ix : Index} {p : PageId}

/-- A row put into the slot for `place` is at `place`. -/
theorem Index.insertedAt_slot {i : Nat} (row : Indexed) (h : ix.slot place = some i) :
    InsertedAt place row.id ix.ids ((ix.rows.take i ++ row :: ix.rows.drop i).map Indexed.id) := by
  cases place with
  | first =>
    obtain rfl : 0 = i := by simpa [slot] using h
    simp [InsertedAt, ids]
  | last =>
    obtain rfl : ix.rows.length = i := by simpa [slot] using h
    simp [InsertedAt, ids]
  | after r =>
    obtain ⟨j, hj, rfl⟩ := Option.map_eq_some_iff.mp h
    obtain ⟨hlt, hid⟩ := position_lt hj
    have hr : ix.rows[j].id = r := hid _ (List.getElem?_eq_getElem hlt)
    refine ⟨(ix.rows.take j).map Indexed.id, (ix.rows.drop (j + 1)).map Indexed.id, ?_, ?_⟩
    · rw [ids, ← hr, ← map_cons, ← drop_eq_getElem_cons hlt, ← map_append, take_append_drop]
    · have htake : ix.rows.take (j + 1) = ix.rows.take j ++ [ix.rows[j]] := by
        rw [take_add_one, List.getElem?_eq_getElem hlt]
        rfl
      rw [htake, map_append, map_append, map_singleton, hr, map_cons,
        append_assoc, singleton_append]

/-! ## One mutation -/

/-- A Database that was live is live after a new row. -/
theorem LiveDatabase.newRow (h : LiveDatabase s b)
    (place : Place RowId) (r : RowId) (sort : String) :
    LiveDatabase ((PageStep.newRow place b r sort).apply s) b := by
  have hnode : ∀ q, q.length ≤ 3 → ((PageStep.newRow place b r sort).apply s).node q = s.node q := by
    intro q hq
    refine PageStep.node_apply _ s fun hs => ?_
    have := hs.length_le
    simp [PageStep.part] at this
    omega
  exact ⟨by rw [State.isMap_congr (hnode _ (by simp))]; exact h.blocks,
    by rw [State.isMap_congr (hnode _ (by simp))]; exact h.entry,
    by rw [hnode _ (by simp)]; exact h.live, by rw [hnode _ (by simp)]; exact h.kind⟩

/-- A new row is at its place in the rows that the document gives. -/
theorem newRow_insertedAt (hok : RowsOk s b)
    {r : RowId} {sort : String} (hg : (PageStep.newRow place b r sort).Guard s) :
    ∃ before after, Index.read s b = .ok before ∧
      Index.read ((PageStep.newRow place b r sort).apply s) b = .ok after ∧
      InsertedAt place r before.ids after.ids := by
  have hg' := hg
  obtain ⟨hl, -, -, ix, hix, hkey⟩ := hg
  have hokix := (Index.indexOk_read hix).apply hg'
  obtain ⟨-, -, -, rfl⟩ := Index.read_eq_ok.mp hix
  obtain ⟨i, hi, hrows, -⟩ := Index.insert_slot (rowsOk_iff.mp hok) r hkey
  refine ⟨_, _, hix, Index.read_eq_ok.mpr ⟨hl.newRow place r sort, hokix.fields, hokix.rows, rfl⟩, ?_⟩
  have hat := Index.insertedAt_slot ⟨sort, r, fun _ => none⟩ hi
  rw [← hrows] at hat
  rw [rowsOf_newRow hg']
  exact hat

/-- Without filter and sort, `rows` answers a window of the index. -/
theorem Database.rows_plain (h : Index.read s b = .ok ix)
    (toLowercase : String → String) (start limit : Nat) :
    ∃ rows, Database.rows toLowercase s ix b ⟨none, none, start, limit⟩ = .ok rows ∧
      rows.count = ix.ids.length ∧ rows.rows.map Row.id = (ix.ids.drop start).take limit := by
  obtain ⟨hl, hf, -, -⟩ := Index.read_eq_ok.mp h
  have hread := Database.read_eq_some.mpr ⟨hl, hf, rfl⟩
  refine ⟨_, by unfold Database.rows; rw [hread]; rfl, by simp [Index.ids], ?_⟩
  simp only [map_map, map_take, map_drop]
  rfl

/-- What a plain query of the rows returns. -/
theorem Inv.read_rows (h : Inv ws)
    (hs : shown S ws.store (.page p) = .ok s) (hix : Index.read s b = .ok ix) (start limit : Nat) :
    ∃ rows, (Workspace.read (.rows p b ⟨none, none, start, limit⟩) ws).1 = .ok (.rows rows) ∧
      rows.count = ix.ids.length ∧ rows.rows.map Row.id = (ix.ids.drop start).take limit := by
  obtain ⟨rows, hrows, hcount, hids⟩ := Database.rows_plain hix P.toLowercase start limit
  refine ⟨rows, ?_, hcount, hids⟩
  rw [h.read_eq, answer, hs]
  simp only [Except.bind, hix, hrows]
  rfl

/-- A row is added by one step. -/
theorem Effect.of_addRow {store : S.State}
    {created : Option Created} {changed : List Changed} {states : List (Document × State)}
    (h : Effect S store (.addRow p b place) created changed states) :
    ∃ s r sort, Liquid.shown S store (.page p) = .ok s ∧
      (PageStep.newRow place b r sort).Guard s ∧ created = some (.row r) ∧
      (Document.page p, (PageStep.newRow place b r sort).apply s) ∈ states := by
  cases h
  case page hs hr ht =>
    cases ht
    obtain ⟨hg, rfl⟩ := hr
    exact ⟨_, _, _, hs, hg, rfl, mem_singleton_self _⟩

/-! ## Runs -/

theorem Started.rowsOk (hd : Distinct P.random) (h : Started ws)
    (hs : shown S ws.store (.page p) = .ok s) (b : BlockId) : RowsOk s b := by
  refine h.page_rule hd (Ψ := fun s => RowsOk s b) ?_ (fun _ _ _ _ _ _ _ hok hr _ => hok.run hr) hs
  refine RowsOk.of_none fun k => ?_
  rw [State.node_withMaps_empty, if_neg (by simp)]

/-- `rows` answers from the index it keeps as it would from one read afresh from the current
    document, for every Page, Block and query, in every run; and a row that is added is exactly
    at its place, with the other rows in their order. -/
theorem cached_rows_correct (hd : Distinct P.random) (h : Started ws) :
    (∀ p b query, (Workspace.read (.rows p b query) ws).1 =
      (shown S ws.store (.page p)).bind fun s => ((Index.read s b).bind fun ix =>
        Database.rows P.toLowercase s ix b query).map .rows) ∧
    (∀ p l, ws.docs (.page p) = some l →
      shown S ws.store (.page p) = .ok (P.automerge.state l.doc) ∧
      ∀ b ix query, l.databases b = some ix →
        Database.rows P.toLowercase (P.automerge.state l.doc) ix b query =
          (Index.read (P.automerge.state l.doc) b).bind fun ix =>
            Database.rows P.toLowercase (P.automerge.state l.doc) ix b query) ∧
    ∀ request applied ws', Workspace.apply request ws = (.ok applied, ws') →
      ∀ p b place, request.mutation = .addRow p b place →
        ∃ r before after, applied.created = some (.row r) ∧ (∀ start limit, ∃ rows,
            (Workspace.read (.rows p b ⟨none, none, start, limit⟩) ws).1 = .ok (.rows rows) ∧
            rows.count = before.length ∧ rows.rows.map Row.id = (before.drop start).take limit) ∧
          (∀ start limit, ∃ rows,
            (Workspace.read (.rows p b ⟨none, none, start, limit⟩) ws').1 = .ok (.rows rows) ∧
            rows.count = after.length ∧ rows.rows.map Row.id = (after.drop start).take limit) ∧
          InsertedAt place r before after := by
  have hi := h.inv hd
  refine ⟨fun p b query => hi.read_eq _, fun p l hl => ?_, ?_⟩
  · obtain ⟨hb, hp, hc⟩ := hi.loaded _ l hl
    exact ⟨hb.shown hp, fun b ix query hix => (hc.databases b ix hix).rows_eq P.toLowercase query⟩
  · intro request applied ws' ha p b place hm
    obtain ⟨states, action, hacc⟩ := (Workspace.apply_spec hd hi request).of_ok ha
    have heffect := hacc.effect
    rw [hm] at heffect
    obtain ⟨s, r, sort, hs, hg, hcreated, hx⟩ := heffect.of_addRow
    obtain ⟨before, after, hbefore, hafter, hat⟩ := newRow_insertedAt (h.rowsOk hd hs b) hg
    exact ⟨r, _, _, hcreated, hi.read_rows hs hbefore,
      hacc.inv.read_rows (hacc.stored.shown hx) hafter, hat⟩

/-- A row is added after the first one of a new Database. -/
theorem cached_rows_correct_addRow :
    ∃ ws ws' : JournalWorkspace, ∃ applied, Started ws ∧
      Workspace.apply ⟨.person ⟨"me"⟩, .ui, .addRow (journalId 5) (journalId 7)
        (.after (journalId 11))⟩ ws = (.ok applied, ws') ∧
      ∃ r before after, applied.created = some (.row r) ∧
        (∀ start limit, ∃ rows, (Workspace.read (.rows (journalId 5) (journalId 7)
            ⟨none, none, start, limit⟩) ws').1 = .ok (.rows rows) ∧
          rows.count = after.length ∧ rows.rows.map Row.id = (after.drop start).take limit) ∧
        InsertedAt (.after (journalId 11)) r before after := by
  obtain ⟨ws, ws', applied, hstarted, hrun⟩ := exists_applied [.createArea "Work",
      .createPage (journalId 3) none "Notes", .addDatabaseBlock (journalId 5) none "Tasks",
      .addRow (journalId 5) (journalId 7) .first]
    ⟨.person ⟨"me"⟩, .ui, .addRow (journalId 5) (journalId 7) (.after (journalId 11))⟩
    (by decide +kernel)
  obtain ⟨r, before, after, hcreated, -, hafter, hat⟩ :=
    (cached_rows_correct distinct_journalPlatform hstarted).2.2 _ _ _ hrun _ _ _ rfl
  exact ⟨ws, ws', applied, hstarted, hrun, r, before, after, hcreated, hafter, hat⟩

end Watershed.Liquid
