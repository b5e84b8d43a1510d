/-
  What a codec promises, and that the codecs of `Codec` keep it.

  Reading takes back what was written, and writing takes back what was read from the writer's own
  spelling. A change of the texts that leaves the type's own names alone can be made on either side:
  to the typed value, or to the JSON value, whose members are then sorted again.
-/
import Watershed.Lib.Codec
import Watershed.Lib.OrderedList

open List hiding get

namespace Watershed

variable {N α β : Type} {v : Json N} {fields others : List (String × Json N)}

namespace Json

/-! ## Members by key -/

variable {fields : List (String × Json N)} {f g : String → String} {x : String × Json N}

theorem mem_of_get {k : String} (h : (object fields).get k = some v) : (k, v) ∈ fields := by
  obtain ⟨x, hx, rfl⟩ := Option.map_eq_some_iff.mp h
  obtain rfl : x.1 = k := by simpa using List.find?_some hx
  exact mem_of_find?_eq_some hx

theorem get_of_mem (hkeys : (fields.map Prod.fst).Nodup)
    (hx : x ∈ fields) : (object fields).get x.1 = some x.2 :=
  Option.map_eq_some_iff.mpr ⟨x, find?_key hkeys hx, rfl⟩

/-- Members with strictly increasing keys are what the same members give when they are sorted. -/
theorem byKey_eq_of_mem
    (hordered : (fields.map Prod.fst).Pairwise (· < ·)) (hothers : (others.map Prod.fst).Nodup)
    (h : ∀ x, x ∈ others ↔ x ∈ fields) : byKey others = fields := by
  have hfields : (fields.map Prod.fst).Nodup := hordered.imp fun h => ne_of_lt h
  have hperm : others.Perm fields := (perm_ext_iff_of_nodup hothers.of_map hfields.of_map).mpr h
  rw [byKey_eq_of_perm hperm hothers, byKey_eq_self hordered]

theorem sorted_byKey (hkeys : (fields.map Prod.fst).Nodup)
    (hvalues : ∀ x ∈ fields, x.2.sorted = true) : (object (byKey fields)).sorted = true :=
  sorted_object.mpr ⟨byKey_sorted hkeys, fun x hx => hvalues x (mem_byKey.mp hx)⟩

theorem sortMembers_mapWith_byKey
    (hkeys : (fields.map Prod.fst).Nodup) (hg : ∀ x ∈ fields, g x.1 = x.1) :
    ((object (byKey fields)).mapWith f g).sortMembers =
      .object (byKey (fields.map fun x => (x.1, (x.2.mapWith f g).sortMembers))) := by
  have hmap : (byKey fields).map (fun x => (g x.1, (x.2.mapWith f g).sortMembers)) =
      (byKey fields).map fun x => (x.1, (x.2.mapWith f g).sortMembers) :=
    map_congr_left fun x hx => Prod.ext (hg x (mem_byKey.mp hx)) rfl
  rw [mapWith_object, sortMembers_object, map_map]
  refine congrArg Json.object ((congrArg byKey hmap).trans ?_)
  refine byKey_eq_of_perm ((perm_byKey fields).map _) ?_
  rw [map_map]
  exact ((perm_byKey fields).map Prod.fst).symm.nodup hkeys

theorem distinctKeys_of_mapWith_byKey
    (h : ((object (byKey fields)).mapWith f g).DistinctKeys)
    (hx : x ∈ fields) : (x.2.mapWith f g).DistinctKeys := by
  rw [mapWith_object, distinctKeys_object, forall_mem_map] at h
  exact h.2 x (mem_byKey.mpr hx)

end Json

/-! ## The laws -/

/-- What a codec promises; `number` tells the numbers that it writes. -/
structure Codec.Lawful (number : N → Bool) (c : Codec N α) : Prop where
  decode_encode : ∀ a, c.decode (c.encode a) = some a
  exact_encode : ∀ a, c.exact (c.encode a) = true
  /-- Nothing is lost when the writer's own spelling is read. -/
  encode_decode : ∀ v a, v.sorted = true → c.decode v = some a → c.exact v = true → c.encode a = v
  sorted_encode : ∀ a, (c.encode a).sorted = true
  numbers_encode : ∀ a, (c.encode a).numbersAll number = true
  sortMembers_encode : ∀ f g a, (∀ name ∈ c.names, f name = name ∧ g name = name) →
    ((c.encode a).mapWith f g).DistinctKeys →
    ((c.encode a).mapWith f g).sortMembers = c.encode (c.map f g a)

/-- Mapped strings need no new order. -/
theorem Codec.Lawful.mapStrings_encode {number : N → Bool} {c : Codec N α} (hc : c.Lawful number)
    (f : String → String) (a : α) (hf : ∀ name ∈ c.names, f name = name) :
    (c.encode a).mapStrings f = c.encode (c.map f id a) := by
  have hsorted := Json.sorted_mapStrings f _ (hc.sorted_encode a)
  rw [← hc.sortMembers_encode f id a (fun name h => ⟨hf name h, rfl⟩)
    (Json.distinctKeys_of_sorted _ hsorted), Json.sortMembers_eq_self _ hsorted]

/-- The members that are written are those that a key leads to. -/
def Fields.Holds (members : List (String × Json N)) (get : String → Option (Json N)) : Prop :=
  ∀ x ∈ members, get x.1 = some x.2

/-- Only sorted values are found. -/
def Fields.Sorted (get : String → Option (Json N)) : Prop := ∀ k v, get k = some v → v.sorted = true

structure Fields.Lawful (number : N → Bool) (f : Fields N α) : Prop where
  keys_encode : ∀ a, (f.encode a).map Prod.fst = f.keys
  keys_names : ∀ k ∈ f.keys, k ∈ f.names
  decode_encode : ∀ a get, Holds (f.encode a) get → f.decode get = some a
  exact_encode : ∀ a get, Holds (f.encode a) get → f.exact get = true
  encode_decode : ∀ get a, Sorted get → f.decode get = some a → f.exact get = true →
    Holds (f.encode a) get
  sorted_encode : ∀ a, ∀ x ∈ f.encode a, x.2.sorted = true
  numbers_encode : ∀ a, ∀ x ∈ f.encode a, x.2.numbersAll number = true
  sortMembers_encode : ∀ t g a, (∀ name ∈ f.names, t name = name ∧ g name = name) →
    (∀ x ∈ f.encode a, (x.2.mapWith t g).DistinctKeys) →
    (f.encode a).map (fun x => (x.1, (x.2.mapWith t g).sortMembers)) = f.encode (f.map t g a)

structure Variants.Lawful (number : N → Bool) (v : Variants N α) : Prop where
  tag_mem : ∀ a, (v.encode a).1 ∈ v.tags
  tags_names : ∀ t ∈ v.tags, t ∈ v.names
  keys_encode : ∀ a, (v.encode a).2.map Prod.fst = v.keys (v.encode a).1
  keys_nodup : ∀ a, (v.keys (v.encode a).1).Nodup
  keys_names : ∀ a, ∀ k ∈ v.keys (v.encode a).1, k ∈ v.names
  decode_encode : ∀ a get, Fields.Holds (v.encode a).2 get → v.decode (v.encode a).1 get = some a
  exact_encode : ∀ a get, Fields.Holds (v.encode a).2 get → v.exact (v.encode a).1 get = true
  encode_decode : ∀ t get a, Fields.Sorted get → v.decode t get = some a → v.exact t get = true →
    (v.encode a).1 = t ∧ Fields.Holds (v.encode a).2 get
  sorted_encode : ∀ a, ∀ x ∈ (v.encode a).2, x.2.sorted = true
  numbers_encode : ∀ a, ∀ x ∈ (v.encode a).2, x.2.numbersAll number = true
  map_tag : ∀ f g a, (v.encode (v.map f g a)).1 = (v.encode a).1
  sortMembers_encode : ∀ f g a, (∀ name ∈ v.names, f name = name ∧ g name = name) →
    (∀ x ∈ (v.encode a).2, (x.2.mapWith f g).DistinctKeys) →
    (v.encode a).2.map (fun x => (x.1, (x.2.mapWith f g).sortMembers)) = (v.encode (v.map f g a)).2

variable {number : N → Bool} {f : Fields N α} {members : List (String × Json N)} {c : Codec N α}

/-! ## Texts, numbers, lists and maps -/

theorem mapM_eq_some {f : α → Option β} {l : List α} {bs : List β} :
    l.mapM f = some bs ↔ List.Forall₂ (fun a b => f a = some b) l bs := by
  induction l generalizing bs with
  | nil => cases bs <;> simp
  | cons a l ih =>
    rw [mapM_cons]
    simp only [Option.bind_eq_bind, Option.bind_eq_some_iff, Option.pure_def, ih,
      forall₂_cons_left_iff, Option.some.injEq]
    constructor
    · rintro ⟨b, hb, rest, hrest, rfl⟩
      exact ⟨b, rest, hb, hrest, rfl⟩
    · rintro ⟨b, rest, hb, hrest, rfl⟩
      exact ⟨b, hb, rest, hrest, rfl⟩

namespace Codec

theorem string_lawful : (string : Codec N String).Lawful number where
  decode_encode _ := rfl
  exact_encode _ := rfl
  encode_decode v a _ h _ := by
    cases v with
    | string s => exact congrArg Json.string (Option.some.inj h).symm
    | _ => cases h
  sorted_encode _ := rfl
  numbers_encode _ := rfl
  sortMembers_encode _ _ _ _ _ := rfl

theorem bool_lawful : (bool : Codec N Bool).Lawful number where
  decode_encode _ := rfl
  exact_encode _ := rfl
  encode_decode v a _ h _ := by
    cases v with
    | bool b => exact congrArg Json.bool (Option.some.inj h).symm
    | _ => cases h
  sorted_encode _ := rfl
  numbers_encode _ := rfl
  sortMembers_encode _ _ _ _ _ := rfl

theorem number_lawful {toNumber : α → N} {ofNumber : N → Option α}
    (hof : ∀ a, ofNumber (toNumber a) = some a) (hto : ∀ n a, ofNumber n = some a → toNumber a = n)
    (hnumber : ∀ a, number (toNumber a) = true) :
    (Codec.number toNumber ofNumber).Lawful number where
  decode_encode := hof
  exact_encode _ := rfl
  encode_decode v a _ h _ := by
    cases v with
    | number n => exact congrArg Json.number (hto n a h)
    | _ => cases h
  sorted_encode _ := rfl
  numbers_encode := hnumber
  sortMembers_encode _ _ _ _ _ := rfl

theorem unit_lawful {variants : List α} {name : α → String} {isEmpty : Json N → Bool}
    (hall : ∀ a, a ∈ variants) (hnames : (variants.map name).Nodup) :
    (unit variants name isEmpty).Lawful number where
  decode_encode a := find?_key hnames (hall a)
  exact_encode _ := rfl
  encode_decode v a _ h hexact := by
    cases v with
    | string s => exact congrArg Json.string (by simpa using List.find?_some h)
    | _ => cases hexact
  sorted_encode _ := rfl
  numbers_encode _ := rfl
  sortMembers_encode f g a hf _ := congrArg Json.string (hf _ (mem_map_of_mem (hall a))).1

theorem list_lawful (hc : c.Lawful number) : (list c).Lawful number where
  decode_encode l := by
    refine mapM_eq_some.mpr (forall₂_map_left_iff.mpr ?_)
    exact forall₂_same.mpr fun a _ => hc.decode_encode a
  exact_encode l := all_eq_true.mpr (forall_mem_map.mpr fun a _ => hc.exact_encode a)
  encode_decode v l hsorted h hexact := by
    cases v with
    | array items =>
      have hread := mapM_eq_some.mp h
      have hitems := Json.sortedItems_iff.mp hsorted
      have hall := all_eq_true.mp hexact
      clear h hsorted hexact
      refine congrArg Json.array ?_
      -- item by item
      induction hread with
      | nil => rfl
      | cons hitem _ ih =>
        rw [forall_mem_cons] at hitems hall
        rw [map_cons, hc.encode_decode _ _ hitems.1 hitem hall.1, ih hitems.2 hall.2]
    | _ => cases hexact
  sorted_encode l := Json.sortedItems_iff.mpr (forall_mem_map.mpr fun a _ => hc.sorted_encode a)
  numbers_encode l := Json.allItems_iff.mpr (forall_mem_map.mpr fun a _ => hc.numbers_encode a)
  sortMembers_encode f g l hf hkeys := by
    rw [show (list c).encode l = .array (l.map c.encode) from rfl, Json.mapWith_array] at hkeys ⊢
    rw [Json.distinctKeys_array, map_map, forall_mem_map] at hkeys
    show _ = Json.array ((l.map (c.map f g)).map c.encode)
    rw [Json.sortMembers_array, map_map, map_map, map_map]
    exact congrArg Json.array
      (map_congr_left fun a ha => hc.sortMembers_encode f g a hf (hkeys a ha))

theorem textMap_lawful (hc : c.Lawful number) : (textMap c).Lawful number where
  decode_encode m := by
    have hread : (m.entries.map fun x => (x.1, c.encode x.2)).mapM
        (fun x => (c.decode x.2).map fun a => (x.1, a)) = some m.entries := by
      refine mapM_eq_some.mpr (forall₂_map_left_iff.mpr (forall₂_same.mpr fun x _ => ?_))
      rw [hc.decode_encode]
      rfl
    show Option.map _ _ = _
    rw [hread, Option.map_some, TextMap.collect_entries]
  exact_encode m := all_eq_true.mpr (forall_mem_map.mpr fun x _ => hc.exact_encode x.2)
  encode_decode v m hsorted h hexact := by
    cases v with
    | object fields =>
      obtain ⟨hordered, hvalues⟩ := Json.sorted_object.mp hsorted
      obtain ⟨entries, hentries, rfl⟩ := Option.map_eq_some_iff.mp h
      have hall := all_eq_true.mp hexact
      have hfields : entries.map (fun x => (x.1, c.encode x.2)) = fields := by
        have hread := mapM_eq_some.mp hentries
        clear h hentries hsorted hexact hordered
        induction hread with
        | nil => rfl
        | cons hx _ ih =>
          obtain ⟨a, ha, rfl⟩ := Option.map_eq_some_iff.mp hx
          rw [forall_mem_cons] at hvalues hall
          rw [map_cons, hc.encode_decode _ _ hvalues.1 ha hall.1, ih hvalues.2 hall.2]
      subst hfields
      rw [map_map] at hordered
      exact congrArg (textMap c).encode (TextMap.collect_entries ⟨entries, hordered⟩)
    | _ => cases hexact
  sorted_encode m := by
    refine Json.sorted_object.mpr ⟨?_, forall_mem_map.mpr fun x _ => hc.sorted_encode x.2⟩
    rw [map_map]
    exact m.ordered
  numbers_encode m := Json.allFields_iff.mpr (forall_mem_map.mpr fun x _ =>
    ⟨rfl, hc.numbers_encode x.2⟩)
  sortMembers_encode f g m hf hkeys := by
    rw [show (textMap c).encode m = .object (m.entries.map fun x => (x.1, c.encode x.2)) from rfl,
      Json.mapWith_object, map_map] at hkeys ⊢
    obtain ⟨hnodup, hvalues⟩ := Json.distinctKeys_object.mp hkeys
    rw [forall_mem_map] at hvalues
    rw [map_map] at hnodup
    have hentries : ((textMap c).map f g m).entries =
        Json.byKey (m.entries.map fun x => (g x.1, c.map f g x.2)) :=
      TextMap.entries_collect (by rwa [map_map])
    show _ = Json.object (((textMap c).map f g m).entries.map fun x => (x.1, c.encode x.2))
    rw [Json.sortMembers_object, map_map, hentries,
      map_insertionSort (fun left right : String × α => left.1 ≤ right.1)
        (fun left right : String × Json N => left.1 ≤ right.1) _ _ fun _ _ _ _ => Iff.rfl,
      map_map]
    refine congrArg (fun fields => Json.object (Json.byKey fields)) (map_congr_left fun x hx => ?_)
    exact Prod.ext rfl (hc.sortMembers_encode f g x.2 hf (hvalues x hx))

/-! ## Records -/

/-- The members of an object that has just these keys, the values of which are known. -/
theorem byKey_eq_of_holds
    (hordered : (fields.map Prod.fst).Pairwise (· < ·)) (hnodup : (members.map Prod.fst).Nodup)
    (hkeys : ∀ x ∈ fields, x.1 ∈ members.map Prod.fst)
    (hholds : Fields.Holds members (Json.object fields).get) : Json.byKey members = fields := by
  refine Json.byKey_eq_of_mem hordered hnodup fun x => ⟨fun hx => ?_, fun hx => ?_⟩
  · exact Json.mem_of_get (hholds x hx)
  · obtain ⟨y, hy, hkey⟩ := mem_map.mp (hkeys x hx)
    have hmem := Json.mem_of_get (hholds y hy)
    have hfields : (fields.map Prod.fst).Nodup := hordered.imp fun h => ne_of_lt h
    rwa [← inj_on_of_nodup_map hfields hmem hx hkey]

theorem holds_byKey (hnodup : (members.map Prod.fst).Nodup) :
    Fields.Holds members (Json.object (Json.byKey members)).get := fun _ hx =>
  Json.get_of_mem (((Json.perm_byKey members).map Prod.fst).symm.nodup hnodup)
    (Json.mem_byKey.mpr hx)

theorem sorted_get (h : ∀ x ∈ fields, x.2.sorted = true) :
    Fields.Sorted (Json.object fields).get := fun _ _ hget => h _ (Json.mem_of_get hget)

theorem record_lawful (hf : f.Lawful number) (hkeys : f.keys.Nodup) :
    (record f).Lawful number where
  decode_encode a := by
    have hnodup : ((f.encode a).map Prod.fst).Nodup := by rwa [hf.keys_encode]
    have hall : (Json.byKey (f.encode a)).all (fun x => x.1 ∈ f.keys) = true := by
      refine all_eq_true.mpr fun x hx => decide_eq_true ?_
      rw [← hf.keys_encode a]
      exact mem_map_of_mem (Json.mem_byKey.mp hx)
    show (if _ then _ else _) = _
    rw [if_pos hall]
    exact hf.decode_encode a _ (holds_byKey hnodup)
  exact_encode a := hf.exact_encode a _ (holds_byKey (by rwa [hf.keys_encode]))
  encode_decode v a hsorted h hexact := by
    cases v with
    | object fields =>
      obtain ⟨hordered, hvalues⟩ := Json.sorted_object.mp hsorted
      obtain ⟨hall, hread⟩ := Option.ite_none_right_eq_some.mp h
      have hholds := hf.encode_decode _ a (sorted_get hvalues) hread hexact
      refine congrArg Json.object (byKey_eq_of_holds hordered ?_ (fun x hx => ?_) hholds)
      · rwa [hf.keys_encode]
      · rw [hf.keys_encode]
        exact of_decide_eq_true (all_eq_true.mp hall x hx)
    | _ => cases hexact
  sorted_encode a := Json.sorted_byKey (by rwa [hf.keys_encode]) (hf.sorted_encode a)
  numbers_encode a := Json.allFields_iff.mpr fun x hx =>
    ⟨rfl, hf.numbers_encode a x (Json.mem_byKey.mp hx)⟩
  sortMembers_encode t g a ht hdistinct := by
    have hfixed : ∀ x ∈ f.encode a, g x.1 = x.1 := fun x hx =>
      (ht _ (hf.keys_names _ (hf.keys_encode a ▸ mem_map_of_mem hx))).2
    show ((Json.object (Json.byKey (f.encode a))).mapWith t g).sortMembers = .object (Json.byKey _)
    rw [Json.sortMembers_mapWith_byKey (by rwa [hf.keys_encode]) hfixed,
      hf.sortMembers_encode t g a ht fun x hx => Json.distinctKeys_of_mapWith_byKey hdistinct hx]
    rfl

end Codec

namespace Fields

variable {get : String → Option (Json N)} {c : Codec N α} {key : String}

theorem field_lawful (hc : c.Lawful number) :
    (field key c).Lawful number where
  keys_encode _ := rfl
  keys_names k hk := mem_cons.mpr (.inl (mem_singleton.mp hk))
  decode_encode a get h := by
    have hget : get key = some (c.encode a) := h _ mem_cons_self
    show (get key).bind c.decode = some a
    rw [hget, Option.bind_some, hc.decode_encode]
  exact_encode a get h := by
    have hget : get key = some (c.encode a) := h _ mem_cons_self
    show (get key).any c.exact = true
    rw [hget, Option.any_some, hc.exact_encode]
  encode_decode get a hsorted h hexact := by
    obtain ⟨v, hv, hread⟩ := Option.bind_eq_some_iff.mp h
    have hexact : c.exact v = true := by simpa [field, hv] using hexact
    refine forall_mem_singleton.mpr ?_
    rw [hv, hc.encode_decode v a (hsorted key v hv) hread hexact]
  sorted_encode a := forall_mem_singleton.mpr (hc.sorted_encode a)
  numbers_encode a := forall_mem_singleton.mpr (hc.numbers_encode a)
  sortMembers_encode t g a ht hdistinct := by
    rw [field, map_singleton, hc.sortMembers_encode t g a (fun name h => ht name (.tail _ h))
      (hdistinct _ mem_cons_self)]

theorem optional_of_ne (hget : get key = some v) (hv : v ≠ .null) :
    (optional key c).decode get = (c.decode v).map some ∧
      (optional key c).exact get = c.exact v := by
  simp only [optional, hget]
  cases v with
  | null => exact absurd rfl hv
  | _ => exact ⟨trivial, trivial⟩

theorem optional_of_null (hget : get key = some .null) :
    (optional key c).decode get = some none ∧ (optional key c).exact get = true := by
  simp only [optional, hget, and_self]

/-- What is written for a field that is there must not be null. -/
theorem optional_lawful (hc : c.Lawful number)
    (hnull : ∀ a, c.encode a ≠ .null) : (optional key c).Lawful number where
  keys_encode _ := rfl
  keys_names k hk := mem_cons.mpr (.inl (mem_singleton.mp hk))
  decode_encode a get h := by
    cases a with
    | none => exact (optional_of_null (h _ mem_cons_self)).1
    | some a =>
      rw [(optional_of_ne (h _ mem_cons_self) (hnull a)).1]
      exact congrArg (Option.map some) (hc.decode_encode a)
  exact_encode a get h := by
    cases a with
    | none => exact (optional_of_null (h _ mem_cons_self)).2
    | some a =>
      rw [(optional_of_ne (h _ mem_cons_self) (hnull a)).2]
      exact hc.exact_encode a
  encode_decode get a hsorted h hexact := by
    refine forall_mem_singleton.mpr ?_
    match hget : get key with
    | none =>
      simp only [optional, hget] at hexact
      cases hexact
    | some v =>
      by_cases hv : v = .null
      · subst hv
        rw [(optional_of_null hget).1] at h
        cases h
        rfl
      · rw [(optional_of_ne hget hv).1] at h
        rw [(optional_of_ne hget hv).2] at hexact
        obtain ⟨b, hb, rfl⟩ := Option.map_eq_some_iff.mp h
        have hencode := hc.encode_decode v b (hsorted key v hget) hb hexact
        exact congrArg some hencode.symm
  sorted_encode a := by
    refine forall_mem_singleton.mpr ?_
    cases a with
    | none => rfl
    | some a => exact hc.sorted_encode a
  numbers_encode a := by
    refine forall_mem_singleton.mpr ?_
    cases a with
    | none => rfl
    | some a => exact hc.numbers_encode a
  sortMembers_encode t g a ht hdistinct := by
    cases a with
    | none => rfl
    | some a =>
      have hmap := hc.sortMembers_encode t g a (fun name h => ht name (.tail _ h))
        (hdistinct _ mem_cons_self)
      exact congrArg (fun v => [(key, v)]) hmap

theorem holds_append :
    Holds (members ++ others) get ↔ Holds members get ∧ Holds others get := forall_mem_append

theorem and_lawful {g : Fields N β} (hf : f.Lawful number)
    (hg : g.Lawful number) : (f.and g).Lawful number where
  keys_encode a := by
    show ((f.encode a.1 ++ g.encode a.2).map Prod.fst) = f.keys ++ g.keys
    rw [map_append, hf.keys_encode, hg.keys_encode]
  keys_names k hk := mem_append.mpr ((mem_append.mp hk).imp (hf.keys_names k) (hg.keys_names k))
  decode_encode a get h := by
    obtain ⟨hleft, hright⟩ := holds_append.mp h
    show (f.decode get).bind _ = _
    rw [hf.decode_encode _ _ hleft, hg.decode_encode _ _ hright]
    rfl
  exact_encode a get h := by
    obtain ⟨hleft, hright⟩ := holds_append.mp h
    exact Bool.and_eq_true_iff.mpr ⟨hf.exact_encode _ _ hleft, hg.exact_encode _ _ hright⟩
  encode_decode get a hsorted h hexact := by
    obtain ⟨left, hleft, h⟩ := Option.bind_eq_some_iff.mp h
    obtain ⟨right, hright, h⟩ := Option.bind_eq_some_iff.mp h
    obtain rfl := Option.some.inj h
    obtain ⟨hexactLeft, hexactRight⟩ := Bool.and_eq_true_iff.mp hexact
    exact holds_append.mpr ⟨hf.encode_decode get left hsorted hleft hexactLeft,
      hg.encode_decode get right hsorted hright hexactRight⟩
  sorted_encode a := forall_mem_append.mpr ⟨hf.sorted_encode a.1, hg.sorted_encode a.2⟩
  numbers_encode a := forall_mem_append.mpr ⟨hf.numbers_encode a.1, hg.numbers_encode a.2⟩
  sortMembers_encode t u a ht hdistinct := by
    obtain ⟨hleft, hright⟩ := forall_mem_append.mp ht
    obtain ⟨hdleft, hdright⟩ := forall_mem_append.mp hdistinct
    show (f.encode a.1 ++ g.encode a.2).map _ = _
    rw [map_append, hf.sortMembers_encode t u a.1 hleft hdleft,
      hg.sortMembers_encode t u a.2 hright hdright]
    rfl

theorem iso_lawful (hf : f.Lawful number) (e : α ≃ β) :
    (f.iso e).Lawful number where
  keys_encode b := hf.keys_encode (e.symm b)
  keys_names := hf.keys_names
  decode_encode b get h := by
    show (f.decode get).map e = some b
    rw [hf.decode_encode _ _ h, Option.map_some, e.apply_symm_apply]
  exact_encode b := hf.exact_encode (e.symm b)
  encode_decode get b hsorted h hexact := by
    obtain ⟨a, ha, rfl⟩ := Option.map_eq_some_iff.mp h
    have hholds := hf.encode_decode get a hsorted ha hexact
    rwa [← e.symm_apply_apply a] at hholds
  sorted_encode b := hf.sorted_encode (e.symm b)
  numbers_encode b := hf.numbers_encode (e.symm b)
  sortMembers_encode t g b ht hdistinct := by
    refine (hf.sortMembers_encode t g (e.symm b) ht hdistinct).trans ?_
    exact congrArg f.encode (e.symm_apply_apply _).symm

end Fields

/-! ## Variants -/

namespace Variants

theorem variant_lawful {tag : String} (hf : f.Lawful number)
    (hkeys : f.keys.Nodup) : (variant tag f).Lawful number where
  tag_mem _ := mem_cons_self
  tags_names t ht := mem_cons.mpr (.inl (mem_singleton.mp ht))
  keys_encode := hf.keys_encode
  keys_nodup _ := hkeys
  keys_names _ k hk := mem_cons_of_mem _ (hf.keys_names k hk)
  decode_encode a get h := (if_pos rfl).trans (hf.decode_encode a get h)
  exact_encode := hf.exact_encode
  encode_decode t get a hsorted h hexact := by
    obtain ⟨htag, hread⟩ := Option.ite_none_right_eq_some.mp h
    exact ⟨htag.symm, hf.encode_decode get a hsorted hread hexact⟩
  sorted_encode := hf.sorted_encode
  numbers_encode := hf.numbers_encode
  map_tag _ _ _ := rfl
  sortMembers_encode t g a ht := hf.sortMembers_encode t g a fun name h => ht name (.tail _ h)

variable {v : Variants N α} {w : Variants N β}

theorem or_keys_inl (hv : v.Lawful number) (a : α) :
    (v.or w).keys ((v.or w).encode (.inl a)).1 = v.keys (v.encode a).1 := if_pos (hv.tag_mem a)

theorem or_keys_inr (hw : w.Lawful number) (htags : ∀ t ∈ w.tags, t ∉ v.tags) (b : β) :
    (v.or w).keys ((v.or w).encode (.inr b)).1 = w.keys (w.encode b).1 :=
  if_neg (htags _ (hw.tag_mem b))

theorem or_lawful (hv : v.Lawful number)
    (hw : w.Lawful number) (htags : ∀ t ∈ w.tags, t ∉ v.tags) : (v.or w).Lawful number where
  tag_mem
    | .inl a => mem_append_left _ (hv.tag_mem a)
    | .inr b => mem_append_right _ (hw.tag_mem b)
  tags_names t ht := mem_append.mpr ((mem_append.mp ht).imp (hv.tags_names t) (hw.tags_names t))
  keys_encode
    | .inl a => (hv.keys_encode a).trans (or_keys_inl hv a).symm
    | .inr b => (hw.keys_encode b).trans (or_keys_inr hw htags b).symm
  keys_nodup
    | .inl a => by
      rw [or_keys_inl hv]
      exact hv.keys_nodup a
    | .inr b => by
      rw [or_keys_inr hw htags]
      exact hw.keys_nodup b
  keys_names
    | .inl a, k, hk => by
      rw [or_keys_inl hv] at hk
      exact mem_append_left _ (hv.keys_names a k hk)
    | .inr b, k, hk => by
      rw [or_keys_inr hw htags] at hk
      exact mem_append_right _ (hw.keys_names b k hk)
  decode_encode
    | .inl a, get, h => (if_pos (hv.tag_mem a)).trans
      (congrArg (Option.map Sum.inl) (hv.decode_encode a get h))
    | .inr b, get, h => (if_neg (htags _ (hw.tag_mem b))).trans
      (congrArg (Option.map Sum.inr) (hw.decode_encode b get h))
  exact_encode
    | .inl a, get, h => (if_pos (hv.tag_mem a)).trans (hv.exact_encode a get h)
    | .inr b, get, h => (if_neg (htags _ (hw.tag_mem b))).trans (hw.exact_encode b get h)
  encode_decode t get s hsorted h hexact := by
    simp only [or] at h hexact
    by_cases ht : t ∈ v.tags
    · rw [if_pos ht] at h hexact
      obtain ⟨a, ha, rfl⟩ := Option.map_eq_some_iff.mp h
      exact hv.encode_decode t get a hsorted ha hexact
    · rw [if_neg ht] at h hexact
      obtain ⟨b, hb, rfl⟩ := Option.map_eq_some_iff.mp h
      exact hw.encode_decode t get b hsorted hb hexact
  sorted_encode
    | .inl a => hv.sorted_encode a
    | .inr b => hw.sorted_encode b
  numbers_encode
    | .inl a => hv.numbers_encode a
    | .inr b => hw.numbers_encode b
  map_tag f g
    | .inl a => hv.map_tag f g a
    | .inr b => hw.map_tag f g b
  sortMembers_encode f g
    | .inl a, hf => hv.sortMembers_encode f g a (forall_mem_append.mp hf).1
    | .inr b, hf => hw.sortMembers_encode f g b (forall_mem_append.mp hf).2

theorem iso_lawful (hv : v.Lawful number) (e : α ≃ β) :
    (v.iso e).Lawful number where
  tag_mem b := hv.tag_mem (e.symm b)
  tags_names := hv.tags_names
  keys_encode b := hv.keys_encode (e.symm b)
  keys_nodup b := hv.keys_nodup (e.symm b)
  keys_names b := hv.keys_names (e.symm b)
  decode_encode b get h := by
    show (v.decode (v.encode (e.symm b)).1 get).map e = some b
    rw [hv.decode_encode _ _ h, Option.map_some, e.apply_symm_apply]
  exact_encode b := hv.exact_encode (e.symm b)
  encode_decode t get b hsorted h hexact := by
    obtain ⟨a, ha, rfl⟩ := Option.map_eq_some_iff.mp h
    have hencode := hv.encode_decode t get a hsorted ha hexact
    rwa [← e.symm_apply_apply a] at hencode
  sorted_encode b := hv.sorted_encode (e.symm b)
  numbers_encode b := hv.numbers_encode (e.symm b)
  map_tag f g b := by
    show (v.encode (e.symm (e _))).1 = _
    rw [e.symm_apply_apply]
    exact hv.map_tag f g (e.symm b)
  sortMembers_encode f g b hf hdistinct := by
    refine (hv.sortMembers_encode f g (e.symm b) hf hdistinct).trans ?_
    exact congrArg (fun a => (v.encode a).2) (e.symm_apply_apply _).symm

end Variants

namespace Codec

section
variable {tag : String} {v : Variants N α} {a : α}

/-- The members of a tagged variant. -/
abbrev taggedMembers (tag : String) (v : Variants N α) (a : α) : List (String × Json N) :=
  (tag, .string (v.encode a).1) :: (v.encode a).2

theorem keys_taggedMembers (hv : v.Lawful number) (a : α) :
    (taggedMembers tag v a).map Prod.fst = tag :: v.keys (v.encode a).1 := by
  rw [map_cons, hv.keys_encode]

theorem nodup_taggedMembers (hv : v.Lawful number) (htag : ∀ t ∈ v.tags, tag ∉ v.keys t)
    (a : α) :
    ((taggedMembers tag v a).map Prod.fst).Nodup := by
  rw [keys_taggedMembers hv]
  exact nodup_cons.mpr ⟨htag _ (hv.tag_mem a), hv.keys_nodup a⟩

variable {get : String → Option (Json N)}

theorem holds_taggedMembers :
    Fields.Holds (taggedMembers tag v a) get ↔
      get tag = some (.string (v.encode a).1) ∧ Fields.Holds (v.encode a).2 get :=
  forall_mem_cons

/-- Hiding the tag changes nothing for the fields. -/
theorem holds_without (hv : v.Lawful number) (htag : ∀ t ∈ v.tags, tag ∉ v.keys t) :
    Fields.Holds (v.encode a).2 (without tag get) ↔ Fields.Holds (v.encode a).2 get := by
  have hwithout : ∀ x ∈ (v.encode a).2, without tag get x.1 = get x.1 := by
    intro x hx
    refine if_neg fun heq => htag _ (hv.tag_mem a) ?_
    rw [← heq, ← hv.keys_encode]
    exact mem_map_of_mem hx
  exact forall₂_congr fun x hx => by rw [hwithout x hx]

theorem sorted_without (h : Fields.Sorted get) : Fields.Sorted (without tag get) := by
  intro k value hvalue
  unfold without at hvalue
  split at hvalue
  · cases hvalue
  · exact h k value hvalue

theorem tagged_lawful (hv : v.Lawful number) (htag : ∀ t ∈ v.tags, tag ∉ v.keys t) :
    (tagged tag v).Lawful number where
  decode_encode a := by
    obtain ⟨hget, hfields⟩ := holds_taggedMembers.mp (holds_byKey (nodup_taggedMembers hv htag a))
    have hall : (Json.byKey (taggedMembers tag v a)).all
        (fun x => x.1 = tag ∨ x.1 ∈ v.keys (v.encode a).1) = true := by
      refine all_eq_true.mpr fun x hx => decide_eq_true (mem_cons.mp ?_)
      rw [← keys_taggedMembers hv a]
      exact mem_map_of_mem (Json.mem_byKey.mp hx)
    simp only [tagged, hget, hall]
    exact hv.decode_encode a _ ((holds_without hv htag).mpr hfields)
  exact_encode a := by
    obtain ⟨hget, hfields⟩ := holds_taggedMembers.mp (holds_byKey (nodup_taggedMembers hv htag a))
    simp only [tagged, hget]
    exact hv.exact_encode a _ ((holds_without hv htag).mpr hfields)
  encode_decode value a hsorted h hexact := by
    cases value with
    | object fields =>
      obtain ⟨hordered, hvalues⟩ := Json.sorted_object.mp hsorted
      simp only [tagged] at h hexact
      split at h
      · rename_i t hget
        simp only [hget] at hexact
        obtain ⟨hall, hread⟩ := Option.ite_none_right_eq_some.mp h
        obtain ⟨rfl, hfields⟩ :=
          hv.encode_decode t _ a (sorted_without (sorted_get hvalues)) hread hexact
        rw [holds_without hv htag] at hfields
        refine congrArg Json.object (byKey_eq_of_holds hordered
          (nodup_taggedMembers hv htag a) (fun x hx => ?_)
          (holds_taggedMembers.mpr ⟨hget, hfields⟩))
        rw [keys_taggedMembers hv, mem_cons]
        exact of_decide_eq_true (all_eq_true.mp hall x hx)
      · cases h
    | _ => cases hexact
  sorted_encode a := Json.sorted_byKey (nodup_taggedMembers hv htag a)
    (forall_mem_cons.mpr ⟨rfl, hv.sorted_encode a⟩)
  numbers_encode a := Json.allFields_iff.mpr fun x hx => ⟨rfl,
    (forall_mem_cons (p := fun x : String × Json N =>
      x.2.numbersAll number = true)).mpr
      ⟨rfl, hv.numbers_encode a⟩ x (Json.mem_byKey.mp hx)⟩
  sortMembers_encode f g a hf hdistinct := by
    have hf := forall_mem_cons.mp hf
    have htext := (hf.2 _ (hv.tags_names _ (hv.tag_mem a))).1
    have hfixed : ∀ x ∈ taggedMembers tag v a, g x.1 = x.1 := by
      refine forall_mem_cons.mpr ⟨hf.1.2, fun x hx => (hf.2 _ (hv.keys_names a _ ?_)).2⟩
      rw [← hv.keys_encode]
      exact mem_map_of_mem hx
    have hfields := hv.sortMembers_encode f g a hf.2 fun x hx =>
      Json.distinctKeys_of_mapWith_byKey hdistinct (mem_cons_of_mem _ hx)
    show ((Json.object (Json.byKey (taggedMembers tag v a))).mapWith f g).sortMembers =
      .object (Json.byKey (taggedMembers tag v (v.map f g a)))
    rw [Json.sortMembers_mapWith_byKey (nodup_taggedMembers hv htag a) hfixed, map_cons,
      hfields, taggedMembers, hv.map_tag, Json.mapWith, htext, Json.sortMembers]

end

end Codec

end Watershed
