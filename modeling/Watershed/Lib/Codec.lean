/-
  Typed values as JSON, in the way of derived serialization.

  A record is written as an object. It is read from an object without other members, and also from
  an array of its fields in the order of their declaration; a variant without fields is written as
  a string and also read from an object with one member. The readers thus take more spellings than
  the writers give. `exact` tells the writer's own spelling from the others (`encode_decode`), and
  `map` is what a change of the texts of the written value does to the typed one
  (`sortMembers_encode`).
-/
import Mathlib.Logic.Equiv.Defs
import Watershed.Lib.JsonMembers

open List

namespace Watershed

open Json

/-! ## Maps with text keys -/

/-- A map with text keys, as its entries in the order of the keys. -/
@[ext] structure TextMap (α : Type) where
  entries : List (String × α)
  ordered : (entries.map Prod.fst).Pairwise (· < ·)
  deriving DecidableEq

namespace TextMap

variable {α β : Type}

/-- Each key once, with the value that comes last. -/
def lastOfEach : List (String × α) → List (String × α)
  | [] => []
  | x :: l => if l.any fun y => y.1 = x.1 then lastOfEach l else x :: lastOfEach l

variable {l : List (String × α)}

theorem fst_mem_lastOfEach {k : String} : k ∈ (lastOfEach l).map Prod.fst → k ∈ l.map Prod.fst := by
  fun_induction lastOfEach l with
  | case1 => exact id
  | case2 x l hany ih => exact fun h => mem_cons_of_mem _ (ih h)
  | case3 x l hany ih =>
    rw [map_cons, map_cons, mem_cons, mem_cons]
    exact fun h => h.imp_right ih

theorem nodup_lastOfEach (l : List (String × α)) : ((lastOfEach l).map Prod.fst).Nodup := by
  fun_induction lastOfEach l with
  | case1 => exact nodup_nil
  | case2 x l hany ih => exact ih
  | case3 x l hany ih =>
    refine nodup_cons.mpr ⟨fun hmem => hany ?_, ih⟩
    obtain ⟨y, hy, heq⟩ := mem_map.mp (fst_mem_lastOfEach hmem)
    exact any_eq_true.mpr ⟨y, hy, decide_eq_true heq⟩

theorem lastOfEach_eq_self (h : (l.map Prod.fst).Nodup) : lastOfEach l = l := by
  fun_induction lastOfEach l with
  | case1 => rfl
  | case2 x l hany ih =>
    obtain ⟨y, hy, heq⟩ := any_eq_true.mp hany
    exact absurd (mem_map.mpr ⟨y, hy, of_decide_eq_true heq⟩) (nodup_cons.mp h).1
  | case3 x l hany ih => rw [ih (nodup_cons.mp h).2]

/-- The map with the entries of a list put in one after the other. -/
def collect (l : List (String × α)) : TextMap α :=
  ⟨byKey (lastOfEach l), byKey_sorted (nodup_lastOfEach l)⟩

theorem entries_collect (h : (l.map Prod.fst).Nodup) : (collect l).entries = byKey l := by
  show byKey (lastOfEach l) = byKey l
  rw [lastOfEach_eq_self h]

theorem nodup (m : TextMap α) : (m.entries.map Prod.fst).Nodup := m.ordered.imp fun h => ne_of_lt h

theorem collect_entries (m : TextMap α) : collect m.entries = m := by
  refine TextMap.ext ?_
  rw [entries_collect m.nodup, byKey_eq_self m.ordered]

/-- The map with its keys and its values changed. -/
def map (g : String → String) (f : α → β) (m : TextMap α) : TextMap β :=
  collect (m.entries.map fun x => (g x.1, f x.2))

theorem entries_map_id (f : α → β) (m : TextMap α) :
    (m.map id f).entries = m.entries.map fun x => (x.1, f x.2) := by
  have hordered : ((m.entries.map fun x => (x.1, f x.2)).map Prod.fst).Pairwise (· < ·) := by
    rw [map_map]
    exact m.ordered
  exact congrArg entries (collect_entries ⟨_, hordered⟩)

end TextMap

/-! ## Codecs -/

/-- How the values of a type are written as JSON and read from it. -/
structure Codec (N α : Type) where
  /-- The names that the type gives to members and variants. -/
  names : List String
  encode : α → Json N
  decode : Json N → Option α
  /-- Whether a value is spelled as `encode` spells it. -/
  exact : Json N → Bool
  /-- The value with its texts changed: by the first function, and by the second the keys of its
      maps. -/
  map : (String → String) → (String → String) → α → α

/-- The fields of a record, or of a variant with fields. They are read through the function that
    gives the value of a key. -/
structure Fields (N α : Type) where
  /-- The keys in the order of their declaration. -/
  keys : List String
  names : List String
  encode : α → List (String × Json N)
  decode : (String → Option (Json N)) → Option α
  exact : (String → Option (Json N)) → Bool
  map : (String → String) → (String → String) → α → α

/-- The variants of a type, each with its tag and its fields. -/
structure Variants (N α : Type) where
  tags : List String
  names : List String
  /-- The keys of the variant with a tag. -/
  keys : String → List String
  encode : α → String × List (String × Json N)
  decode : String → (String → Option (Json N)) → Option α
  exact : String → (String → Option (Json N)) → Bool
  map : (String → String) → (String → String) → α → α

variable {N α β : Type}

namespace Codec

def string : Codec N String where
  names := []
  encode := .string
  decode
    | .string s => some s
    | _ => none
  exact _ := true
  map f _ := f

def bool : Codec N Bool where
  names := []
  encode := .bool
  decode
    | .bool b => some b
    | _ => none
  exact _ := true
  map _ _ := id

/-- Numbers of a type that has less numbers than JSON. -/
def number (toNumber : α → N) (ofNumber : N → Option α) : Codec N α where
  names := []
  encode a := .number (toNumber a)
  decode
    | .number n => ofNumber n
    | _ => none
  exact _ := true
  map _ _ := id

def list (c : Codec N α) : Codec N (List α) where
  names := c.names
  encode l := .array (l.map c.encode)
  decode
    | .array items => items.mapM c.decode
    | _ => none
  exact
    | .array items => items.all c.exact
    | _ => false
  map f g := List.map (c.map f g)

def textMap (c : Codec N α) : Codec N (TextMap α) where
  names := c.names
  encode m := .object (m.entries.map fun x => (x.1, c.encode x.2))
  decode
    | .object fields =>
      (fields.mapM fun x => (c.decode x.2).map fun a => (x.1, a)).map TextMap.collect
    | _ => none
  exact
    | .object fields => fields.all fun x => c.exact x.2
    | _ => false
  map f g := TextMap.map g (c.map f g)

/-- A type of variants without fields. The object form has the variant's name as its key and a
    value with nothing in it. -/
def unit (variants : List α) (name : α → String) (isEmpty : Json N → Bool) : Codec N α where
  names := variants.map name
  encode a := .string (name a)
  decode
    | .string s => variants.find? fun a => name a = s
    | .object [(s, v)] => if isEmpty v then variants.find? fun a => name a = s else none
    | _ => none
  exact
    | .string _ => true
    | _ => false
  map _ _ := id

/-- A record whose unknown members are refused. -/
def record (f : Fields N α) : Codec N α where
  names := f.names
  encode a := .object (byKey (f.encode a))
  decode
    | .object fields =>
      if fields.all fun x => x.1 ∈ f.keys then f.decode (object fields).get else none
    | .array items =>
      if items.length = f.keys.length then f.decode (object (f.keys.zip items)).get
      else none
    | _ => none
  exact
    | .object fields => f.exact (object fields).get
    | _ => false
  map := f.map

/-- The value of a key, with one key hidden. -/
def without (tag : String) (get : String → Option (Json N)) (key : String) : Option (Json N) :=
  if key = tag then none else get key

/-- A type of variants whose tag is a member of the object, or the first item of the array. -/
def tagged (tag : String) (v : Variants N α) : Codec N α where
  names := tag :: v.names
  encode a := .object (byKey ((tag, .string (v.encode a).1) :: (v.encode a).2))
  decode
    | .object fields =>
      match (object fields).get tag with
      | some (.string t) =>
        if fields.all fun x => x.1 = tag ∨ x.1 ∈ v.keys t
        then v.decode t (without tag (object fields).get) else none
      | _ => none
    | .array (.string t :: items) =>
      if items.length = (v.keys t).length then v.decode t (object ((v.keys t).zip items)).get
      else none
    | _ => none
  exact
    | .object fields =>
      match (object fields).get tag with
      | some (.string t) => v.exact t (without tag (object fields).get)
      | _ => false
    | _ => false
  map := v.map

end Codec

namespace Fields

def field (key : String) (c : Codec N α) : Fields N α where
  keys := [key]
  names := key :: c.names
  encode a := [(key, c.encode a)]
  decode get := (get key).bind c.decode
  exact get := (get key).any c.exact
  map := c.map

/-- A field that may be missing or null. -/
def optional (key : String) (c : Codec N α) : Fields N (Option α) where
  keys := [key]
  names := key :: c.names
  encode a := [(key, (a.map c.encode).getD .null)]
  decode get :=
    match get key with
    | none | some .null => some none
    | some v => (c.decode v).map some
  exact get :=
    match get key with
    | none => false
    | some .null => true
    | some v => c.exact v
  map f g := Option.map (c.map f g)

/-- The fields of both. -/
def and (f : Fields N α) (g : Fields N β) : Fields N (α × β) where
  keys := f.keys ++ g.keys
  names := f.names ++ g.names
  encode a := f.encode a.1 ++ g.encode a.2
  decode get := do return (← f.decode get, ← g.decode get)
  exact get := f.exact get && g.exact get
  map s k a := (f.map s k a.1, g.map s k a.2)

/-- The same fields for another type. -/
def iso (f : Fields N α) (e : α ≃ β) : Fields N β where
  keys := f.keys
  names := f.names
  encode b := f.encode (e.symm b)
  decode get := (f.decode get).map e
  exact := f.exact
  map s k b := e (f.map s k (e.symm b))

end Fields

namespace Variants

def variant (tag : String) (f : Fields N α) : Variants N α where
  tags := [tag]
  names := tag :: f.names
  keys _ := f.keys
  encode a := (tag, f.encode a)
  decode t get := if t = tag then f.decode get else none
  exact _ := f.exact
  map := f.map

/-- The variants of both. -/
def or (v : Variants N α) (w : Variants N β) : Variants N (α ⊕ β) where
  tags := v.tags ++ w.tags
  names := v.names ++ w.names
  keys t := if t ∈ v.tags then v.keys t else w.keys t
  encode
    | .inl a => v.encode a
    | .inr b => w.encode b
  decode t get :=
    if t ∈ v.tags then (v.decode t get).map .inl else (w.decode t get).map .inr
  exact t get := if t ∈ v.tags then v.exact t get else w.exact t get
  map f g := Sum.map (v.map f g) (w.map f g)

/-- The same variants for another type. -/
def iso (v : Variants N α) (e : α ≃ β) : Variants N β where
  tags := v.tags
  names := v.names
  keys := v.keys
  encode b := v.encode (e.symm b)
  decode t get := (v.decode t get).map e
  exact := v.exact
  map f g b := e (v.map f g (e.symm b))

end Variants

end Watershed
