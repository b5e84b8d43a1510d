/-
  What each mutation of a Database does, as a run of Page steps.
-/
import Watershed.Liquid.PageBodies

namespace Watershed.Liquid

open Kept PageStep

open Fallible (wp wp_bind wp_change wp_lift wp_pure wp_read)

variable {A : Automerge} {κ : Type} {random : Random} {b : BlockId}

/-! ## Looking up -/

namespace Database

variable {c : Ctx A κ} {name : String} {f : FieldId} {kind : FieldKind} {s : State} {r : RowId}
    {p : Path} {place : Place FieldId} {value : Cell}

/-- A map in the entry of a live Database. -/
theorem entry_map_eq_ok {k : String} (h : (entry s b >>= fun entry => map s entry k) = .ok p) :
    LiveDatabase s b ∧ HasObject s (k :: blockPath b) ∧ p = k :: blockPath b := by
  obtain ⟨_, he, h⟩ := bind_eq_ok.mp h
  obtain ⟨hl, rfl⟩ := entry_eq_ok.mp he
  obtain ⟨-, h2, rfl⟩ := map_eq_ok.mp h
  exact ⟨hl, h2, rfl⟩

theorem field_eq_ok {x : Path × FieldKind} (h : field s b f = .ok x) :
    LiveField s b f x.2 ∧ x.1 = fieldPath b f := by
  obtain ⟨_, he, h⟩ := bind_eq_ok.mp h
  obtain ⟨hl, rfl⟩ := entry_eq_ok.mp he
  obtain ⟨_, hm, h⟩ := bind_eq_ok.mp h
  obtain ⟨-, -, rfl⟩ := map_eq_ok.mp hm
  split at h
  · cases h
  · rename_i q hq
    obtain ⟨rfl, h1, h2, h3⟩ := liveIn_eq_some.mp hq
    split at h
    · cases h
    · rename_i kind hk
      cases h
      refine ⟨⟨hl, h1, h2, h3, ?_⟩, rfl⟩
      cases hs : string s (fieldPath b f) "kind" with
      | none => simp [hs, fieldKind] at hk
      | some name => exact ⟨name, (string_eq_some.mp hs).2, by rwa [← hs]⟩

theorem row_eq_ok (h : row s b r = .ok p) : LiveRow s b r ∧ p = rowPath b r := by
  obtain ⟨_, he, h⟩ := bind_eq_ok.mp h
  obtain ⟨hl, rfl⟩ := entry_eq_ok.mp he
  obtain ⟨_, hm, h⟩ := bind_eq_ok.mp h
  obtain ⟨-, -, rfl⟩ := map_eq_ok.mp hm
  split at h
  · cases h
  · rename_i q hq
    obtain ⟨rfl, h1, h2, h3⟩ := liveIn_eq_some.mp hq
    cases h
    exact ⟨⟨hl, h1, h2, h3⟩, rfl⟩

/-! ## Fields -/

theorem addFieldTo_wp {fields : Path}
    {Q : Unit → Ctx A κ → Prop} {E : Error → Ctx A κ → Prop}
    (hok : c.state.isMap fields = true → ∀ sort d, A.state d = (c.state.insertEntry fields f.asStr
        [("name", name), ("kind", kindName kind), ("sort", sort)]).set "options"
        (f.asStr :: fields) (some .map) →
      A.version d = A.version c.doc → Q () { c with doc := d })
    (herr : ∀ error d, A.version d = A.version c.doc → E error { c with doc := d }) :
    wp (addFieldTo fields f place name kind) Q E c := by
  have herr' : ∀ error, E error c := fun error => herr error c.doc rfl
  unfold addFieldTo
  simp only [wp_bind, wp_state]
  split
  · exact herr' _
  simp only [wp_bind, wp_lift]
  refine ⟨fun sort _ => ?_, fun _ _ => herr' _⟩
  refine wp_insertIn (fun hm d hs hv => ?_) fun _ => herr'
  refine wp_putObject (fun _ d' hs' hv' => ?_) fun _ error => herr error d hv
  refine hok hm sort d' ?_ (hv'.trans hv)
  rw [hs', hs]
  rfl

theorem rename_spec (random : Random) :
    Meets (rename b name)
      (fun _ c' => Did random c c' [.databaseName b name] ∧ c'.cache = c.cache) c := by
  unfold Meets rename
  simp only [wp_bind, wp_lift]
  refine ⟨fun p hp => ?_, fun _ _ => refl c⟩
  obtain ⟨hl, rfl⟩ := entry_eq_ok.mp hp
  refine wp_put (fun _ d hs hv => ?_) fun _ _ => refl c
  exact ⟨Did.single hl hs hv le_rfl (by simp [ids]), rfl⟩

theorem addField_spec (hf : c.Fresh random) :
    Meets (addField random b place name kind)
      (fun f c' => ∃ sort, Did random c c' [.newField b f name kind sort] ∧ c'.cache = c.cache) c := by
  unfold Meets addField
  simp only [wp_bind, wp_lift]
  refine ⟨fun p hp => ?_, fun _ _ => refl c⟩
  obtain ⟨hl, -, rfl⟩ := entry_map_eq_ok hp
  refine wp_newId (fun bytes hr => ?_) fun _ => ⟨rfl, rfl, Nat.le_succ _⟩
  refine addFieldTo_wp (fun hm sort d hs hv => ?_) fun _ d hv => ⟨rfl, hv, Nat.le_succ _⟩
  exact ⟨sort, Did.single ⟨hl, hm, fresh_id hf hr⟩ hs hv (Nat.le_succ _) (drawn_now hr), rfl⟩

theorem renameField_spec (random : Random) :
    Meets (renameField b f name)
      (fun _ c' => Did random c c' [.fieldName b f name] ∧ c'.cache = c.cache) c := by
  unfold Meets renameField
  simp only [wp_bind, wp_lift]
  refine ⟨fun x hx => ?_, fun _ _ => refl c⟩
  obtain ⟨p, kind⟩ := x
  obtain ⟨hl, rfl⟩ := field_eq_ok hx
  refine wp_put (fun _ d hs hv => ?_) fun _ _ => refl c
  exact ⟨Did.single ⟨kind, hl⟩ hs hv le_rfl (by simp [ids]), rfl⟩

theorem removeField_spec (random : Random) :
    Meets (removeField b f)
      (fun _ c' => Did random c c' [.removeField b f] ∧ c'.cache = c.cache) c := by
  unfold Meets removeField
  simp only [wp_bind, wp_lift]
  refine ⟨fun x hx => ?_, fun _ _ => refl c⟩
  obtain ⟨p, kind⟩ := x
  obtain ⟨hl, rfl⟩ := field_eq_ok hx
  refine wp_put (fun _ d hs hv => ?_) fun _ _ => refl c
  exact ⟨Did.single ⟨kind, hl⟩ hs hv le_rfl (by simp [ids]), rfl⟩

theorem addOption_spec {color : Fin 256} (hf : c.Fresh random) :
    Meets (addOption random b f name color)
      (fun o c' => ∃ sort, Did random c c' [.newOption b f o name color sort] ∧
        c'.cache = c.cache) c := by
  unfold Meets addOption
  simp only [wp_bind, wp_lift]
  refine ⟨fun x hx => ?_, fun _ _ => refl c⟩
  obtain ⟨p, kind⟩ := x
  obtain ⟨hl, rfl⟩ := field_eq_ok hx
  split
  · exact refl c
  simp only [wp_bind, wp_lift]
  refine ⟨fun p hp => ?_, fun _ _ => refl c⟩
  obtain ⟨-, -, rfl⟩ := map_eq_ok.mp hp
  split
  · exact refl c
  simp only [wp_bind, wp_lift]
  refine ⟨fun sort _ => ?_, fun _ _ => refl c⟩
  refine wp_newId (fun bytes hr => ?_) fun _ => ⟨rfl, rfl, Nat.le_succ _⟩
  refine wp_insertIn (fun hm d hs hv => ?_) fun _ _ => ⟨rfl, rfl, Nat.le_succ _⟩
  exact ⟨sort, Did.single ⟨⟨kind, hl⟩, hm, fresh_id hf hr⟩ hs hv (Nat.le_succ _) (drawn_now hr), rfl⟩

/-! ## A new Database -/

theorem create_spec (hb : b.asStr ∉ Names c.state)
    (hdrawn : Drawn random c.drawn b.asStr) (hf : c.Fresh random) :
    Meets (create random b name)
      (fun _ c' => ∃ f sort, Did random c c' [.newDatabase b name f sort] ∧ c'.cache = c.cache) c := by
  unfold Meets create
  simp only [wp_bind]
  refine wp_insert (fun hm d hs hv => ?_) fun _ => refl c
  refine wp_putObject (fun _ d₁ hs₁ hv₁ => ?_) fun _ _ => ⟨rfl, hv, le_rfl⟩
  refine wp_putObject (fun _ d₂ hs₂ hv₂ => ?_) fun _ _ => ⟨rfl, hv₁.trans hv, le_rfl⟩
  have hver : A.version d₂ = A.version c.doc := hv₂.trans (hv₁.trans hv)
  refine wp_newId (fun bytes hr => ?_) fun _ => ⟨rfl, hver, Nat.le_succ _⟩
  refine addFieldTo_wp (fun _ sort d₃ hs₃ hv₃ => ?_) fun _ d hv => ⟨rfl, hv.trans hver, Nat.le_succ _⟩
  refine ⟨⟨hex bytes⟩, sort, Did.single ⟨hb, fresh_id hf hr, hm⟩ ?_ (hv₃.trans hver)
    (Nat.le_succ _) (List.forall_mem_cons.mpr ⟨hdrawn.mono (Nat.le_succ _), drawn_now hr⟩), rfl⟩
  simp only [Ctx.state, hs₃, hs₂, hs₁, hs]
  rfl

/-! ## Rows -/

theorem addRow_spec {c : Ctx A Index} {place : Place RowId}
    (hix : IndexOk c.state b c.cache) (hf : c.Fresh random) :
    Meets (addRow random b place)
      (fun r c' => ∃ sort, DidIndex random b c c' [.newRow place b r sort]) c := by
  unfold Meets addRow
  simp only [wp_bind, wp_lift]
  refine ⟨fun p hp => ?_, fun _ _ => refl c⟩
  obtain ⟨hl, -, rfl⟩ := entry_map_eq_ok hp
  refine ⟨fun sort hsort => ?_, fun _ _ => refl c⟩
  refine wp_newId (fun bytes hr => ?_) fun _ => ⟨rfl, rfl, Nat.le_succ _⟩
  refine wp_insertIn (fun hm d hs hv => ?_) fun _ _ => ⟨rfl, rfl, Nat.le_succ _⟩
  refine wp_putObject (fun _ d' hs' hv' => ?_) fun _ _ => ⟨rfl, hv, Nat.le_succ _⟩
  have hread := Index.read_eq_ok.mpr ⟨hl, hix.fields, hix.rows, hix.agrees⟩
  refine ⟨sort, ⟨Did.single ⟨hl, hm, fresh_id hf hr, _, hread, ?_⟩ ?_ (hv'.trans hv)
    (Nat.le_succ _) (drawn_now hr), ?_⟩⟩
  · rw [Index.keyAt_restrict]
    exact hsort
  · simp only [Ctx.state, hs', hs]
    rfl
  · simp [onIndex]

theorem removeRow_spec (random : Random) {c : Ctx A Index} :
    Meets (removeRow b r) (fun _ c' => DidIndex random b c c' [.removeRow b r]) c := by
  unfold Meets removeRow
  simp only [wp_bind, wp_lift]
  refine ⟨fun p hp => ?_, fun _ _ => refl c⟩
  obtain ⟨hl, rfl⟩ := row_eq_ok hp
  refine wp_put (fun _ d hs hv => ?_) fun _ _ => refl c
  exact ⟨Did.single hl hs hv le_rfl (by simp [ids]), by simp [onIndex]⟩

/-- A stored scalar reads back as the cell that the index keeps. -/
theorem typed_scalarOf {scalar : Scalar} (h : scalarOf s p kind value = .ok scalar) :
    typed kind (.scalar scalar) = some (storedCell scalar value) ∧
      storedCell scalar value ≠ .empty := by
  cases kind <;> cases value <;> simp only [scalarOf, reduceCtorEq] at h
  case text.text | checkbox.checkbox =>
    cases h
    exact ⟨rfl, by simp [storedCell]⟩
  case number.number | date.date =>
    split at h <;> cases h
    exact ⟨rfl, by simp [storedCell]⟩
  case select.select option =>
    obtain ⟨_, -, h⟩ := bind_eq_ok.mp h
    split at h <;> cases h
    exact ⟨rfl, by simp [storedCell]⟩

/-- The steps of setting a cell: none where an empty cell is cleared. -/
def SetCellSteps (b : BlockId) (r : RowId) (f : FieldId) (μs : List PageStep) : Prop :=
  μs = [] ∨ μs = [.clearCell b r f] ∨ ∃ v cell, μs = [.putCell b r f v cell]

theorem setCell_spec (random : Random) {c : Ctx A Index}
    (hix : IndexOk c.state b c.cache) :
    Meets (setCell b r f value) (fun _ c' => ∃ μs, Did random c c' μs ∧ SetCellSteps b r f μs ∧
        IndexOk c'.state b c'.cache) c := by
  unfold Meets setCell
  simp only [wp_bind, wp_lift]
  refine ⟨fun x hx => ?_, fun _ _ => refl c⟩
  obtain ⟨p, kind⟩ := x
  obtain ⟨hfield, rfl⟩ := field_eq_ok hx
  refine ⟨fun p hp => ?_, fun _ _ => refl c⟩
  obtain ⟨hrow, rfl⟩ : LiveRow c.state b r ∧ p = cellsPath b r := by
    obtain ⟨_, hr, hp⟩ := bind_eq_ok.mp hp
    obtain ⟨hl, rfl⟩ := row_eq_ok hr
    exact ⟨hl, (map_eq_ok.mp hp).2.2⟩
  by_cases hvalue : value = .empty
  · rw [if_pos hvalue]
    cases hget : c.state.get (cellsPath b r) f.asStr with
    | none => exact refl c
    | some held =>
      obtain ⟨hcells, hheld⟩ : c.state.isMap (cellsPath b r) = true ∧
          c.state.node (f.asStr :: cellsPath b r) = held := by
        unfold State.get at hget
        split at hget
        · exact ⟨‹_›, Option.some.inj hget⟩
        · cases hget
      dsimp only
      split
      · rw [wp_bind]
        refine wp_delete (fun _ d hs hv => ?_) fun _ _ => refl c
        have hdid : Did random c { c with doc := d, cache := c.cache.set r f value }
            [.clearCell b r f] :=
          Did.single ⟨hrow, hcells, kind, hfield⟩ hs hv le_rfl (by simp [ids])
        refine ⟨_, hdid, .inr (.inl rfl), ?_⟩
        have := hdid.run.indexOk hix
        simpa [onIndex, hvalue] using this
      · -- nothing is stored: the document stays, and the index forgets what it may still hold
        rename_i hnone
        rw [Option.not_isSome_iff_eq_none] at hnone
        refine ⟨[], ⟨rfl, rfl, le_rfl, by simp⟩, .inl rfl, ?_⟩
        refine hix.of_cell (fun _ _ => rfl) hrow hcells hfield ?_
        rw [if_pos hvalue, hheld, hnone]
        rfl
  · rw [if_neg hvalue]
    simp only [wp_bind, wp_lift]
    refine ⟨fun scalar hscalar => ?_, fun _ _ => refl c⟩
    obtain ⟨htyped, hne⟩ := typed_scalarOf hscalar
    refine wp_put (fun hcells d hs hv => ?_) fun _ _ => refl c
    have hdid : Did random c { c with doc := d, cache := c.cache.set r f (storedCell scalar value) }
        [.putCell b r f scalar (storedCell scalar value)] :=
      Did.single ⟨hrow, hcells, kind, hfield, htyped, hne⟩ hs hv le_rfl (by simp [ids])
    refine ⟨_, hdid, .inr (.inr ⟨_, _, rfl⟩), ?_⟩
    have := hdid.run.indexOk hix
    simpa [onIndex] using this

end Database

/-! ## A new Database with its View -/

theorem addDatabaseBlock_spec {c : Ctx A Order} {after : Option ViewId} {name : String}
    (hd : Distinct random) (hc : c.Coherent) (hf : c.Fresh random) :
    Meets (addDatabaseBlock random after name) (fun added c' => ∃ f sort sort', DidOrder random c c'
        [.newDatabase added.1 name f sort, .newView after added.2 added.1 sort' .database]) c := by
  unfold Meets addDatabaseBlock
  simp only [wp_bind]
  refine wp_newId (fun bytes hr => ?_) fun _ => ⟨rfl, rfl, Nat.le_succ _⟩
  have hb := fresh_id hf hr
  have hk : Kept c { c with drawn := c.drawn + 1 } := ⟨rfl, rfl, Nat.le_succ _⟩
  refine (Database.create_spec (c := { c with drawn := c.drawn + 1 }) hb (drawn_now hr _ List.mem_cons_self)
    (hf.mono (Nat.le_succ _))).mono ?_ fun _ _ h => hk.trans h
  rintro - c₁ ⟨f, sort, hdid, hcache⟩
  have hnew : DidOrder random c c₁ [.newDatabase ⟨hex bytes⟩ name f sort] :=
    ⟨⟨hdid.run, hdid.version, (Nat.le_succ _).trans hdid.drawn, hdid.ids⟩, hcache⟩
  have hstate : c₁.state = (newDatabase ⟨hex bytes⟩ name f sort).apply c.state := hnew.run.2
  have hkind : Order.blockKinds c₁.state (hex bytes) = some .database := by
    rw [Order.blockKinds_eq_some, hstate, isMap_apply_top]
    refine ⟨hnew.run.1.2.2, ?_, ?_, ?_⟩ <;>
      simp [fieldOfNode, apply, State.insertField, State.insertEntry, State.setFields,
        State.set, List.suffix_cons_iff, fieldText, BlockKind.of]
  refine (addView_spec (hnew.coherent hc) (hnew.fresh hd hf) hkind ?_).mono ?_ fun _ c' h =>
    (hnew.kept hcache).trans h
  · rw [hstate]
    exact unreferenced_apply rfl hb
  · rintro v c' ⟨sort', hview⟩
    exact ⟨f, sort, sort', hnew.append hview⟩

end Watershed.Liquid
