import Mathlib.Algebra.Group.Int.Defs
import Mathlib.Algebra.Group.Nat.Defs
import Xxlib.Lib.AssocMap

/-! The ids of types (`TypeIds` of `gens/gen_library/TypeIdMappings.cs`, with the reflection of
`gens/gen_library/Exts.cs`).

A template is what reflection finds in the assembly. Ids are fixed for strings and buffers, mapped by the properties of
an interface, or counted up from the largest one, in the order in which the types are met.
-/

set_option autoImplicit false

namespace Xxlib.Gens

open Lib

/-- Classes, structs and the types of numbers go by their names. -/
inductive TemplateType where
  | number (name : String)
  | string
  | bbuffer
  | object
  | list (element : TemplateType)
  | ref (target : TemplateType)
  | userClass (name : String)
  | userStruct (name : String)
  deriving DecidableEq

namespace TemplateType

def isUserClass : TemplateType → Bool
  | .userClass _ => true
  | _ => false

def isList : TemplateType → Bool
  | .list _ => true
  | _ => false

end TemplateType

structure TemplateField where
  type : TemplateType
  notSerialize : Bool := false

/-- `fields` are those that `_GetFields` returns, also from the bases. -/
structure TemplateClass where
  name : String
  base : Option String := none
  fields : List TemplateField := []

structure TemplateStruct where
  name : String
  fields : List TemplateField := []

/-- What is marked `External` is not among the classes and structs. A property `_N` of the interface `TypeIdMappings` has
the id `N`. -/
structure Template where
  classes : List TemplateClass
  structs : List TemplateStruct := []
  mappings : List (Nat × TemplateType) := []
  ushort : ∀ property ∈ mappings, property.1 < 2 ^ 16 := by decide

/-- Of the two dictionaries, `dict` has also what is mapped and does not occur. -/
structure TypeIds where
  dict : List (TemplateType × Nat)
  maxId : Nat
  types : List (TemplateType × Nat) := []

inductive MappingError where
  | idExists (id : Nat)
  | typeExists (t : TemplateType)
  deriving DecidableEq

namespace TypeIds

/-! ## The constructor -/

def find (d : List (TemplateType × Nat)) (t : TemplateType) : Option Nat := AssocMap.lookup (fun a b => a == b) d t

def initial : TypeIds := { dict := [(.string, 1), (.bbuffer, 2)], maxId := 2 }

/-- A property of the interface. -/
def map (s : TypeIds) (property : Nat × TemplateType) : Except MappingError TypeIds :=
  if s.dict.any fun entry => entry.2 = property.1 then .error (.idExists property.1)
  else if (find s.dict property.2).isSome then .error (.typeExists property.2)
  else .ok { s with
    dict := s.dict ++ [(property.2, property.1)]
    maxId := if property.1 > s.maxId then property.1 else s.maxId }

def mapAll (s : TypeIds) : List (Nat × TemplateType) → Except MappingError TypeIds
  | [] => .ok s
  | property :: rest =>
      match s.map property with
      | .error error => .error error
      | .ok s => s.mapAll rest

def getTypeId (s : TypeIds) (t : TemplateType) : Nat × TypeIds :=
  match find s.dict t with
  | some id => (id, s)
  | none =>
      -- `++maxId` of a `ushort`
      let maxId := (s.maxId + 1) % 2 ^ 16
      (maxId, { s with dict := s.dict ++ [(t, maxId)], maxId := maxId })

/-- `if (!types.ContainsKey(t)) types.Add(t, GetTypeId(t));` -/
def add (s : TypeIds) (t : TemplateType) : TypeIds :=
  if (find s.types t).isSome then s
  else
    let (id, s) := s.getTypeId t
    { s with types := s.types ++ [(t, id)] }

/-- The types that are added for the type of a field: itself, and the elements of lists. -/
def fieldTypes : TemplateType → List TemplateType
  | .list element => .list element :: fieldTypes element
  | .userClass name => [.userClass name]
  | _ => []

def classTypes (c : TemplateClass) : List TemplateType :=
  .userClass c.name :: (c.base.toList.map .userClass ++ c.fields.flatMap fun f => fieldTypes f.type)

/-- In the order of the loops. -/
def scanned (template : Template) : List TemplateType := template.classes.flatMap classTypes

def construct (template : Template) : Except MappingError TypeIds :=
  match initial.mapAll template.mappings with
  | .error error => .error error
  | .ok s => .ok ((scanned template).foldl add { s with types := [(.string, 1), (.bbuffer, 2)] })

/-- Distinct types have distinct ids, which are those that are fixed or mapped, and none is that of a null pointer. -/
structure Numbered (template : Template) (s : TypeIds) : Prop where
  distinct : ∀ t t' id, find s.types t = some id → find s.types t' = some id → t = t'
  nonzero : ∀ t, find s.types t ≠ some 0
  string : ∀ t, find s.types t = some 1 ↔ t = .string
  bbuffer : ∀ t, find s.types t = some 2 ↔ t = .bbuffer
  mapped : ∀ property ∈ template.mappings, ∀ id, find s.types property.2 = some id → id = property.1

/-! ## The condition -/

/-- The types that are not known when they are met. -/
def newTypes (known : List TemplateType) : List TemplateType → List TemplateType
  | [] => []
  | t :: ts => if t ∈ known then newTypes known ts else t :: newTypes (t :: known) ts

/-- The types that have ids before the classes are gone through. -/
def known (template : Template) : List TemplateType := .string :: .bbuffer :: template.mappings.map Prod.snd

/-- The largest of these ids. -/
def largest (template : Template) : Nat := template.mappings.foldl (fun largest property => max largest property.1) 2

/-- No type that occurs is mapped to 0, and the ids of the others do not go beyond a `ushort`. -/
def Roomy (template : Template) : Prop :=
  (∀ t ∈ scanned template, (0, t) ∉ template.mappings) ∧
    largest template + (newTypes (known template) (scanned template)).length < 2 ^ 16

instance (template : Template) : Decidable (Roomy template) := inferInstanceAs (Decidable (_ ∧ _))

/-! ## The dictionaries -/

/-- The ids that are counted up behind `maxId`. -/
def number (maxId : Nat) : List TemplateType → List (TemplateType × Nat)
  | [] => []
  | t :: ts => (t, (maxId + 1) % 2 ^ 16) :: number ((maxId + 1) % 2 ^ 16) ts

section
variable {known known' ts : List TemplateType} {t : TemplateType} {maxId : Nat}

theorem newTypes_congr (same : ∀ t, t ∈ known ↔ t ∈ known') : newTypes known ts = newTypes known' ts := by
  induction ts generalizing known known' with
  | nil => rfl
  | cons t ts ih =>
    have more : ∀ other, other ∈ t :: known ↔ other ∈ t :: known' := by
      intro other
      rw [List.mem_cons, List.mem_cons, same]
    simp only [newTypes, same t, ih same, ih more]

theorem mem_newTypes : t ∈ newTypes known ts ↔ t ∉ known ∧ t ∈ ts := by
  induction ts generalizing known with
  | nil => simp [newTypes]
  | cons head ts ih =>
    unfold newTypes
    by_cases old : head ∈ known
    · rw [if_pos old, ih, List.mem_cons]
      constructor
      · exact fun ⟨unknown, member⟩ => ⟨unknown, .inr member⟩
      · rintro ⟨unknown, rfl | member⟩
        · exact absurd old unknown
        · exact ⟨unknown, member⟩
    · rw [if_neg old, List.mem_cons, ih, List.mem_cons, List.mem_cons]
      constructor
      · rintro (rfl | ⟨unknown, member⟩)
        · exact ⟨old, .inl rfl⟩
        · exact ⟨fun inside => unknown (.inr inside), .inr member⟩
      · rintro ⟨unknown, here⟩
        by_cases first : t = head
        · exact .inl first
        · exact .inr ⟨fun inside => inside.elim first unknown, here.resolve_left first⟩

theorem number_keys : (number maxId ts).map Prod.fst = ts := by
  induction ts generalizing maxId with
  | nil => rfl
  | cons t ts ih => exact congrArg (t :: ·) ih

theorem number_getElem? (i : Nat) :
    (number maxId ts)[i]? = ts[i]?.map fun t => (t, (maxId + 1 + i) % 2 ^ 16) := by
  induction ts generalizing maxId i with
  | nil => rfl
  | cons t ts ih =>
    cases i with
    | zero => rfl
    | succ i =>
      have sum : ((maxId + 1) % 2 ^ 16 + 1 + i) % 2 ^ 16 = (maxId + 1 + (i + 1)) % 2 ^ 16 := by omega
      rw [number, List.getElem?_cons_succ, List.getElem?_cons_succ, ih, sum]

/-- Below the end of a `ushort` the ids follow each other. -/
theorem number_ids (room : maxId + ts.length < 2 ^ 16) :
    (number maxId ts).map Prod.snd = List.range' (maxId + 1) ts.length := by
  induction ts generalizing maxId with
  | nil => rfl
  | cons t ts ih =>
    rw [List.length_cons] at room
    have next : (maxId + 1) % 2 ^ 16 = maxId + 1 := Nat.mod_eq_of_lt (by omega)
    rw [number, next, List.map_cons, ih (by omega), List.length_cons, List.range'_succ]

end

/-- No type is in a dictionary twice, and `types` has the ids of `dict`. -/
structure Fitting (s : TypeIds) : Prop where
  keys : (s.dict.map Prod.fst).Nodup
  types : (s.types.map Prod.fst).Nodup
  subset : ∀ entry ∈ s.types, entry ∈ s.dict

section
variable {s s' : TypeIds} {t : TemplateType} {ts : List TemplateType} {id : Nat}

theorem find_isSome {d : List (TemplateType × Nat)} : (find d t).isSome = true ↔ t ∈ d.map Prod.fst := by
  unfold find AssocMap.lookup
  rw [Option.isSome_map, List.find?_isSome, List.mem_map]
  simp only [beq_iff_eq]

theorem Fitting.find_types (fitting : Fitting s) : find s.types t = some id ↔ (t, id) ∈ s.types :=
  AssocMap.lookup_eq_some_iff fitting.types

/-- What `add` can do. -/
theorem add_cases (s : TypeIds) (t : TemplateType) :
    (t ∈ s.types.map Prod.fst ∧ s.add t = s) ∨
      (∃ id, (t, id) ∈ s.dict ∧ t ∉ s.types.map Prod.fst ∧ s.add t = { s with types := s.types ++ [(t, id)] }) ∨
      (t ∉ s.dict.map Prod.fst ∧ t ∉ s.types.map Prod.fst ∧ s.add t =
        { dict := s.dict ++ [(t, (s.maxId + 1) % 2 ^ 16)]
          maxId := (s.maxId + 1) % 2 ^ 16
          types := s.types ++ [(t, (s.maxId + 1) % 2 ^ 16)] }) := by
  unfold add
  by_cases present : t ∈ s.types.map Prod.fst
  · exact .inl ⟨present, if_pos (find_isSome.mpr present)⟩
  · rw [if_neg fun found => present (find_isSome.mp found)]
    unfold getTypeId
    cases found : find s.dict t with
    | some id => exact .inr (.inl ⟨id, AssocMap.mem_of_lookup found, present, rfl⟩)
    | none =>
      refine .inr (.inr ⟨fun inside => ?_, present, rfl⟩)
      have some := find_isSome.mpr inside
      rw [found] at some
      cases some

/-- One type of the scan. -/
theorem Fitting.add (fitting : Fitting s) (t : TemplateType) : Fitting (s.add t) ∧
    (s.add t).dict = s.dict ++ number s.maxId (newTypes (s.dict.map Prod.fst) [t]) ∧
    (s.maxId < 2 ^ 16 → (s.add t).maxId = (s.maxId + (newTypes (s.dict.map Prod.fst) [t]).length) % 2 ^ 16) ∧
    ∀ other, other ∈ (s.add t).types.map Prod.fst ↔ other ∈ s.types.map Prod.fst ∨ other = t := by
  have known : t ∈ s.types.map Prod.fst → t ∈ s.dict.map Prod.fst := by
    intro member
    obtain ⟨entry, inside, rfl⟩ := List.mem_map.mp member
    exact List.mem_map_of_mem (fitting.subset entry inside)
  have old : t ∈ s.dict.map Prod.fst → newTypes (s.dict.map Prod.fst) [t] = [] := fun member => if_pos member
  have extend : t ∉ s.types.map Prod.fst → ∀ id, ((s.types ++ [(t, id)]).map Prod.fst).Nodup := by
    intro absent id
    rw [List.map_append, List.map_singleton, ← List.concat_eq_append]
    exact List.Nodup.concat absent fitting.types
  have member : ∀ id other, other ∈ (s.types ++ [(t, id)]).map Prod.fst ↔ other ∈ s.types.map Prod.fst ∨ other = t := by
    intro id other
    rw [List.map_append, List.mem_append, List.map_singleton, List.mem_singleton]
  rcases add_cases s t with ⟨present, same⟩ | ⟨id, inside, absent, same⟩ | ⟨unknown, absent, same⟩
  · -- a type that was met before
    rw [same, old (known present)]
    refine ⟨fitting, (List.append_nil _).symm, fun small => (Nat.mod_eq_of_lt small).symm, fun other => ?_⟩
    exact ⟨.inl, fun either => either.elim id fun here => here ▸ present⟩
  · -- a type of the mapping, at its first meeting
    rw [same, old (List.mem_map_of_mem inside)]
    refine ⟨⟨fitting.keys, extend absent id, fun entry here => ?_⟩, (List.append_nil _).symm,
      fun small => (Nat.mod_eq_of_lt small).symm, member id⟩
    rcases List.mem_append.mp here with before | last
    · exact fitting.subset entry before
    · rw [List.mem_singleton.mp last]
      exact inside
  · -- a type that the counter numbers
    have fresh : newTypes (s.dict.map Prod.fst) [t] = [t] := if_neg unknown
    rw [same, fresh]
    refine ⟨⟨?_, extend absent _, fun entry here => ?_⟩, rfl, fun _ => rfl, member _⟩
    · dsimp only
      rw [List.map_append, List.map_singleton, ← List.concat_eq_append]
      exact List.Nodup.concat unknown fitting.keys
    · rcases List.mem_append.mp here with before | last
      · exact List.mem_append_left _ (fitting.subset entry before)
      · exact List.mem_append_right _ last

theorem number_append (first second : List TemplateType) (maxId : Nat) (small : maxId < 2 ^ 16) :
    number maxId (first ++ second) = number maxId first ++ number ((maxId + first.length) % 2 ^ 16) second := by
  induction first generalizing maxId with
  | nil =>
    rw [List.nil_append, List.length_nil, Nat.add_zero, Nat.mod_eq_of_lt small]
    rfl
  | cons t first ih =>
    have sum : ((maxId + 1) % 2 ^ 16 + first.length) % 2 ^ 16 = (maxId + (first.length + 1)) % 2 ^ 16 := by omega
    rw [List.cons_append, number, ih _ (Nat.mod_lt _ (by decide)), sum]
    rfl

theorem newTypes_cons (known : List TemplateType) :
    newTypes known (t :: ts) = newTypes known [t] ++ newTypes (known ++ newTypes known [t]) ts := by
  by_cases old : t ∈ known
  · have nothing : newTypes known [t] = [] := if_pos old
    rw [nothing, List.append_nil]
    exact if_pos old
  · have fresh : newTypes known [t] = [t] := if_neg old
    rw [fresh, newTypes, if_neg old]
    refine congrArg (t :: ·) (newTypes_congr fun other => ?_)
    rw [List.mem_cons, List.mem_append, List.mem_singleton, or_comm]

theorem Fitting.scan (fitting : Fitting s) (small : s.maxId < 2 ^ 16) : Fitting (ts.foldl TypeIds.add s) ∧
    (ts.foldl TypeIds.add s).dict = s.dict ++ number s.maxId (newTypes (s.dict.map Prod.fst) ts) ∧
    ∀ other, other ∈ (ts.foldl TypeIds.add s).types.map Prod.fst ↔ other ∈ s.types.map Prod.fst ∨ other ∈ ts := by
  induction ts generalizing s with
  | nil => exact ⟨fitting, (List.append_nil _).symm, fun other => by simp⟩
  | cons t ts ih =>
    obtain ⟨fitting₁, dict₁, maxId₁, keys₁⟩ := fitting.add t
    have small₁ : (s.add t).maxId < 2 ^ 16 := by
      rw [maxId₁ small]
      exact Nat.mod_lt _ (by decide)
    obtain ⟨fitting', dict', keys'⟩ := ih fitting₁ small₁
    refine ⟨fitting', dict'.trans ?_, fun other => (keys' other).trans ?_⟩
    · have split : newTypes (s.dict.map Prod.fst) (t :: ts) = _ := newTypes_cons _
      rw [dict₁, List.map_append, number_keys, split, number_append _ _ _ small, maxId₁ small, List.append_assoc]
    · rw [keys₁, List.mem_cons, or_assoc]

/-! ## What is mapped -/

theorem map_ok {property : Nat × TemplateType} (ran : s.map property = .ok s') :
    s' = { s with
      dict := s.dict ++ [(property.2, property.1)]
      maxId := max s.maxId property.1 } ∧
      property.2 ∉ s.dict.map Prod.fst ∧ property.1 ∉ s.dict.map Prod.snd := by
  unfold map at ran
  split at ran
  · cases ran
  next unused =>
    split at ran
    · cases ran
    next unknown =>
      cases ran
      refine ⟨?_, fun member => unknown (find_isSome.mpr member), fun member => unused ?_⟩
      · congr 1
        split <;> omega
      · obtain ⟨entry, inside, same⟩ := List.mem_map.mp member
        exact List.any_eq_true.mpr ⟨entry, inside, by simpa using same⟩

/-- The properties come behind what is there, with new ids. -/
theorem mapAll_ok {properties : List (Nat × TemplateType)} (ran : s.mapAll properties = .ok s')
    (keys : (s.dict.map Prod.fst).Nodup) (ids : (s.dict.map Prod.snd).Nodup) :
    s'.dict = s.dict ++ properties.map Prod.swap ∧
      s'.maxId = properties.foldl (fun largest property => max largest property.1) s.maxId ∧
      (s'.dict.map Prod.fst).Nodup ∧ (s'.dict.map Prod.snd).Nodup := by
  induction properties generalizing s with
  | nil =>
    cases ran
    exact ⟨(List.append_nil _).symm, rfl, keys, ids⟩
  | cons property rest ih =>
    unfold mapAll at ran
    split at ran
    · cases ran
    next s₁ first =>
      obtain ⟨rfl, unknown, unused⟩ := map_ok first
      have keys₁ : ((s.dict ++ [(property.2, property.1)]).map Prod.fst).Nodup := by
        rw [List.map_append, List.map_singleton, ← List.concat_eq_append]
        exact List.Nodup.concat unknown keys
      have ids₁ : ((s.dict ++ [(property.2, property.1)]).map Prod.snd).Nodup := by
        rw [List.map_append, List.map_singleton, ← List.concat_eq_append]
        exact List.Nodup.concat unused ids
      obtain ⟨dict', maxId', keys', ids'⟩ := ih ran keys₁ ids₁
      refine ⟨?_, maxId', keys', ids'⟩
      rw [dict', List.append_assoc]
      rfl

end

/-! ## What the constructor leaves -/

theorem foldl_max (properties : List (Nat × TemplateType)) (start : Nat) :
    start ≤ properties.foldl (fun largest property => max largest property.1) start ∧
      (∀ property ∈ properties, property.1 ≤ properties.foldl (fun largest property => max largest property.1) start) ∧
      ∀ bound, start < bound → (∀ property ∈ properties, property.1 < bound) →
        properties.foldl (fun largest property => max largest property.1) start < bound := by
  induction properties generalizing start with
  | nil => exact ⟨Nat.le_refl _, nofun, fun _ below _ => below⟩
  | cons property rest ih =>
    obtain ⟨above, all, below⟩ := ih (max start property.1)
    refine ⟨Nat.le_trans (Nat.le_max_left _ _) above, fun other member => ?_, fun bound first others => ?_⟩
    · rcases List.mem_cons.mp member with rfl | later
      · exact Nat.le_trans (Nat.le_max_right _ _) above
      · exact all other later
    · refine below bound (Nat.max_lt.mpr ⟨first, others property List.mem_cons_self⟩) fun other member => ?_
      exact others other (List.mem_cons_of_mem _ member)

/-- The ids before the classes are gone through. -/
def mapped (template : Template) : List (TemplateType × Nat) :=
  (.string, 1) :: (.bbuffer, 2) :: template.mappings.map Prod.swap

theorem mapped_keys (template : Template) : (mapped template).map Prod.fst = known template := by
  simp [mapped, known, Function.comp_def]

section
variable {template : Template} {s : TypeIds} {t : TemplateType} {id : Nat}

/-- The dictionaries in terms of the template. -/
structure Constructed (template : Template) (s : TypeIds) : Prop where
  fitting : Fitting s
  ids : ((mapped template).map Prod.snd).Nodup
  dict : s.dict = mapped template ++ number (largest template) (newTypes (known template) (scanned template))
  types : ∀ t, t ∈ s.types.map Prod.fst ↔ t = .string ∨ t = .bbuffer ∨ t ∈ scanned template

/-- What the constructor begins the scan with. -/
theorem construct_mapped (ran : construct template = .ok s) : ∃ s₀ : TypeIds, initial.mapAll template.mappings = .ok s₀ ∧
    s = (scanned template).foldl add { s₀ with types := [(.string, 1), (.bbuffer, 2)] } ∧
    Fitting { s₀ with types := [(.string, 1), (.bbuffer, 2)] } ∧ s₀.dict = mapped template ∧ s₀.maxId = largest template ∧
    ((mapped template).map Prod.snd).Nodup := by
  unfold construct at ran
  split at ran
  · cases ran
  next s₀ mapping =>
    cases ran
    obtain ⟨dict, maxId, keys, ids⟩ := mapAll_ok mapping (by decide) (by decide)
    have dict : s₀.dict = mapped template := dict
    have fixed : [TemplateType.string, .bbuffer].Nodup := by decide
    refine ⟨s₀, mapping, rfl, ⟨keys, fixed, fun entry member => ?_⟩, dict, maxId, dict ▸ ids⟩
    dsimp only
    rw [dict]
    rcases List.mem_cons.mp member with rfl | member
    · exact List.mem_cons_self
    · rw [List.mem_singleton.mp member]
      exact List.mem_cons_of_mem _ List.mem_cons_self

theorem construct_ok (ran : construct template = .ok s) : Constructed template s := by
  obtain ⟨s₀, -, rfl, fitting, dict, maxId, ids⟩ := construct_mapped ran
  have small : s₀.maxId < 2 ^ 16 := by
    rw [maxId]
    exact (foldl_max template.mappings 2).2.2 _ (by decide) template.ushort
  obtain ⟨fitting', dict', types'⟩ := @Fitting.scan _ (scanned template) fitting small
  refine ⟨fitting', ids, ?_, fun t => (types' t).trans ?_⟩
  · rw [dict', maxId]
    dsimp only
    rw [dict, mapped_keys]
  · simp [or_assoc]

theorem mapped_le {entry : TemplateType × Nat} (member : entry ∈ mapped template) : entry.2 ≤ largest template := by
  obtain ⟨above, all, -⟩ := foldl_max template.mappings 2
  rcases List.mem_cons.mp member with rfl | member
  · exact Nat.le_trans (by decide) above
  rcases List.mem_cons.mp member with rfl | member
  · exact above
  obtain ⟨property, inside, rfl⟩ := List.mem_map.mp member
  exact all property inside

section
variable (constructed : Constructed template s)
include constructed

/-- An id of `types` is that of `dict`. -/
theorem Constructed.mem_dict (found : find s.types t = some id) : (t, id) ∈ s.dict :=
  constructed.fitting.subset _ (constructed.fitting.find_types.mp found)

theorem Constructed.functional {id' : Nat} (first : (t, id) ∈ s.dict) (second : (t, id') ∈ s.dict) : id = id' :=
  congrArg Prod.snd (List.inj_on_of_nodup_map constructed.fitting.keys first second rfl)

/-- What is scanned has the id that `dict` has for it. -/
theorem Constructed.find_scanned (member : t ∈ scanned template) (entry : (t, id) ∈ s.dict) :
    find s.types t = some id := by
  obtain ⟨⟨_, id'⟩, inside, rfl⟩ := List.mem_map.mp ((constructed.types t).mpr (.inr (.inr member)))
  rw [constructed.functional entry (constructed.fitting.subset _ inside)]
  exact constructed.fitting.find_types.mpr inside

theorem Constructed.mapped_mem {entry : TemplateType × Nat} (member : entry ∈ mapped template) : entry ∈ s.dict := by
  rw [constructed.dict]
  exact List.mem_append_left _ member

theorem Constructed.ids_nodup
    (room : largest template + (newTypes (known template) (scanned template)).length < 2 ^ 16) :
    (s.dict.map Prod.snd).Nodup := by
  rw [constructed.dict, List.map_append, number_ids room, List.nodup_append]
  refine ⟨constructed.ids, List.nodup_range', ?_⟩
  rintro id old _ new rfl
  obtain ⟨entry, member, rfl⟩ := List.mem_map.mp old
  have below := mapped_le member
  have above := (List.mem_range'_1.mp new).1
  omega

/-- A type that occurs has the id 0 if it is mapped to it, or if it is one at which the counter starts again. -/
theorem Constructed.zero_iff (member : t ∈ scanned template) : find s.types t = some 0 ↔
    (0, t) ∈ template.mappings ∨ ∃ i, (newTypes (known template) (scanned template))[i]? = some t ∧
      (largest template + 1 + i) % 2 ^ 16 = 0 := by
  constructor
  · intro zero
    have entry := constructed.mem_dict zero
    rw [constructed.dict] at entry
    rcases List.mem_append.mp entry with old | new
    · left
      rcases List.mem_cons.mp old with first | old
      · cases first
      rcases List.mem_cons.mp old with second | old
      · cases second
      obtain ⟨property, inside, same⟩ := List.mem_map.mp old
      rw [← Prod.swap_swap property, same] at inside
      exact inside
    · right
      obtain ⟨i, here⟩ := List.mem_iff_getElem?.mp new
      rw [number_getElem?] at here
      obtain ⟨other, found, same⟩ := Option.map_eq_some_iff.mp here
      obtain ⟨rfl, wraps⟩ := Prod.mk.inj same
      exact ⟨i, found, wraps⟩
  · rintro (zero | ⟨i, here, wraps⟩)
    · apply constructed.find_scanned member
      apply constructed.mapped_mem
      exact List.mem_cons_of_mem _ (List.mem_cons_of_mem _ (List.mem_map.mpr ⟨(0, t), zero, rfl⟩))
    · apply constructed.find_scanned member
      rw [constructed.dict]
      refine List.mem_append_right _ (List.mem_iff_getElem?.mpr ⟨i, ?_⟩)
      rw [number_getElem?, here, Option.map_some, wraps]

/-- The fixed ids. -/
theorem Constructed.fixed {fixed : TemplateType} (room : (s.dict.map Prod.snd).Nodup)
    (entry : (fixed, id) ∈ mapped template)
    (kept : find s.types fixed = some id) (t : TemplateType) : find s.types t = some id ↔ t = fixed := by
  constructor
  · intro found
    have same := List.inj_on_of_nodup_map room (constructed.mem_dict found) (constructed.mapped_mem entry) rfl
    exact congrArg Prod.fst same
  · rintro rfl
    exact kept

end

theorem Constructed.kept (constructed : Constructed template s) (here : t = .string ∨ t = .bbuffer)
    (entry : (t, id) ∈ mapped template) : find s.types t = some id := by
  obtain ⟨⟨_, id'⟩, inside, rfl⟩ := List.mem_map.mp ((constructed.types t).mpr (here.imp_right .inl))
  rw [constructed.functional (constructed.mapped_mem entry) (constructed.fitting.subset _ inside)]
  exact constructed.fitting.find_types.mpr inside

/-- Whenever the constructor does not throw, the ids are as they should be if and only if there is room for them. -/
theorem construct_numbered_iff (ran : construct template = .ok s) : Numbered template s ↔ Roomy template := by
  have constructed := construct_ok ran
  have small : largest template < 2 ^ 16 := (foldl_max template.mappings 2).2.2 _ (by decide) template.ushort
  constructor
  · intro numbered
    have nonzero : ∀ t ∈ scanned template, ¬ find s.types t = some 0 := fun t _ => numbered.nonzero t
    refine ⟨fun t member zero => nonzero t member ((constructed.zero_iff member).mpr (.inl zero)), ?_⟩
    -- with too many new types one of them is at the place where the counter wraps to 0
    by_contra full
    have bound : 2 ^ 16 - 1 - largest template < (newTypes (known template) (scanned template)).length := by omega
    have found := List.getElem?_eq_getElem bound
    have member := (mem_newTypes.mp (List.getElem_mem bound)).2
    refine nonzero _ member ((constructed.zero_iff member).mpr (.inr ⟨_, found, ?_⟩))
    omega
  · rintro ⟨positive, room⟩
    have ids := constructed.ids_nodup room
    have string : (TemplateType.string, 1) ∈ mapped template := List.mem_cons_self
    have bbuffer : (TemplateType.bbuffer, 2) ∈ mapped template := List.mem_cons_of_mem _ List.mem_cons_self
    have first := constructed.kept (.inl rfl) string
    have second := constructed.kept (.inr rfl) bbuffer
    constructor
    case distinct =>
      intro t t' id one other
      have same := List.inj_on_of_nodup_map ids (constructed.mem_dict one) (constructed.mem_dict other) rfl
      exact congrArg Prod.fst same
    -- string and BBuffer have their ids; of the others none is mapped to 0, and the counter stays below
    case nonzero =>
      intro t zero
      have present : t ∈ s.types.map Prod.fst := find_isSome.mp (Option.isSome_iff_exists.mpr ⟨0, zero⟩)
      rcases (constructed.types t).mp present with rfl | rfl | member
      · rw [first] at zero
        cases zero
      · rw [second] at zero
        cases zero
      · rcases (constructed.zero_iff member).mp zero with null | ⟨i, here, wraps⟩
        · exact positive t member null
        · have bound := (List.getElem?_eq_some_iff.mp here).1
          omega
    case string => exact constructed.fixed ids string first
    case bbuffer => exact constructed.fixed ids bbuffer second
    case mapped =>
      intro property member id found
      refine constructed.functional (constructed.mem_dict found) (constructed.mapped_mem ?_)
      exact List.mem_cons_of_mem _ (List.mem_cons_of_mem _ (List.mem_map.mpr ⟨property, member, rfl⟩))

end

/-- The classes of `gens/pkggen_template_PKG/Generic.cs`, with the properties of some interface. -/
def pkgTemplate (mappings : List (Nat × TemplateType)) (ushort : ∀ property ∈ mappings, property.1 < 2 ^ 16) :
    Template where
  classes := [
    { name := "Player", fields := [⟨.number "int", false⟩, ⟨.string, true⟩, ⟨.ref (.userClass "Monster"), false⟩] },
    { name := "Monster" },
    { name := "Scene", fields := [⟨.list (.userClass "Monster"), false⟩, ⟨.list (.ref (.userClass "Player")), false⟩] },
    { name := "Sync", fields := [⟨.list (.userClass "Player"), false⟩, ⟨.userClass "Scene", false⟩] },
    { name := "Foo", fields := [⟨.ref (.userClass "Foo"), false⟩, ⟨.list (.ref (.userClass "Foo")), false⟩] }]
  mappings := mappings
  ushort := ushort

theorem construct_numbered_pkg :
    ∃ s, construct (pkgTemplate [(5, .userClass "Player"), (7, .userClass "Scene")] (by decide)) = .ok s ∧
      Numbered (pkgTemplate [(5, .userClass "Player"), (7, .userClass "Scene")] (by decide)) s :=
  ⟨_, rfl, (construct_numbered_iff rfl).mpr (by decide)⟩

/-- Behind a class that is mapped to the largest id, the next type has the id of a null pointer, and another one that of
a string. -/
theorem construct_wraps : ∃ s, construct (pkgTemplate [(65535, .userClass "Player")] (by decide)) = .ok s ∧
    find s.types (.userClass "Monster") = some 0 ∧ find s.types (.userClass "Scene") = some 1 ∧
    ¬ Numbered (pkgTemplate [(65535, .userClass "Player")] (by decide)) s :=
  ⟨_, rfl, by decide, by decide, fun numbered => numbered.nonzero (.userClass "Monster") (by decide)⟩

end TypeIds

end Xxlib.Gens
