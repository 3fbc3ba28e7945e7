import Xxlib.Gens.TypeIds

/-! Generating the interface of ids, round after round (`gens/pkggen/GenTypeId.cs`, as `gens/pkggen/Program.cs` calls it).

The file that `Gen` writes is put into the template project, and the generator is run again. In between the classes of the
project are edited. The declarations of the file stand for their types, as the compiler reads them.
-/

set_option autoImplicit false

namespace Xxlib.Gens

namespace TypeIds

/-- `GetTypeId` sets `hasNewMappings` where it counts an id up. -/
def hasNewMappings (s : TypeIds) : List TemplateType → Bool
  | [] => false
  | t :: ts => ((find s.types t).isNone && (find s.dict t).isNone) || hasNewMappings (s.add t) ts

/-- The properties that are written, without strings and buffers. -/
def properties (s : TypeIds) : List (Nat × TemplateType) :=
  (s.types.filter fun entry => entry.1 ≠ .string ∧ entry.1 ≠ .bbuffer).map Prod.swap

/-- What `Gen` returns, and the properties of the interface if it writes one. -/
def gen (template : Template) : Except MappingError (Bool × Option (List (Nat × TemplateType))) :=
  match initial.mapAll template.mappings with
  | .error error => .error error
  | .ok s =>
      let s := { s with types := [(.string, 1), (.bbuffer, 2)] }
      if template.mappings ≠ [] ∧ hasNewMappings s (scanned template) = false then .ok (true, none)
      else
        let written := ((scanned template).foldl add s).properties
        if written.length = 0 then .ok (true, none) else .ok (false, some written)

section
variable {template : Template} {s s' : TypeIds} {t t' : TemplateType} {ts : List TemplateType} {id : Nat}
  {written : List (Nat × TemplateType)}

theorem hasNewMappings_iff (fitting : Fitting s) : hasNewMappings s ts = true ↔ newTypes (s.dict.map Prod.fst) ts ≠ [] := by
  induction ts generalizing s with
  | nil => simp [hasNewMappings, newTypes]
  | cons t ts ih =>
    obtain ⟨fitting', dict, -⟩ := fitting.add t
    have split : newTypes (s.dict.map Prod.fst) (t :: ts) = _ := newTypes_cons _
    have keys : (s.add t).dict.map Prod.fst = s.dict.map Prod.fst ++ newTypes (s.dict.map Prod.fst) [t] := by
      rw [dict, List.map_append, number_keys]
    rw [hasNewMappings, Bool.or_eq_true, ih fitting', keys, split]
    by_cases old : t ∈ s.dict.map Prod.fst
    · have some := find_isSome.mpr old
      have nothing : newTypes (s.dict.map Prod.fst) [t] = [] := if_pos old
      simp [nothing, Option.isNone_eq_false_iff.mpr some]
    · have fresh : newTypes (s.dict.map Prod.fst) [t] = [t] := if_neg old
      have unknown : find s.dict t = none := Option.not_isSome_iff_eq_none.mp fun some => old (find_isSome.mp some)
      have unmet : find s.types t = none := by
        refine Option.not_isSome_iff_eq_none.mp fun some => ?_
        obtain ⟨entry, member, rfl⟩ := List.mem_map.mp (find_isSome.mp some)
        exact old (List.mem_map_of_mem (fitting.subset entry member))
      simp [fresh, unknown, unmet]

theorem add_types (s : TypeIds) (t : TemplateType) : s.types <+: (s.add t).types := by
  rcases add_cases s t with ⟨-, same⟩ | ⟨id, -, -, same⟩ | ⟨-, -, same⟩
  · exact same.symm ▸ List.prefix_refl _
  · rw [same]
    exact List.prefix_append ..
  · rw [same]
    exact List.prefix_append ..

theorem scan_types (s : TypeIds) (ts : List TemplateType) : s.types <+: (ts.foldl add s).types := by
  induction ts generalizing s with
  | nil => exact List.prefix_refl _
  | cons t ts ih => exact (add_types s t).trans (ih _)

/-- Put back, the properties are what `types` has. -/
theorem properties_types (ran : construct template = .ok s) :
    (.string, 1) :: (.bbuffer, 2) :: s.properties.map Prod.swap = s.types := by
  have keys := (construct_ok ran).fitting.types
  obtain ⟨s₀, -, result, -⟩ := construct_mapped ran
  obtain ⟨rest, whole⟩ := scan_types { s₀ with types := [(.string, 1), (.bbuffer, 2)] } (scanned template)
  rw [← result] at whole
  have whole : s.types = (.string, 1) :: (.bbuffer, 2) :: rest := whole.symm
  rw [whole, List.map_cons, List.map_cons, List.nodup_cons, List.nodup_cons, List.mem_cons, not_or] at keys
  obtain ⟨⟨-, noString⟩, noBbuffer, -⟩ := keys
  have others : rest.filter (fun entry => entry.1 ≠ .string ∧ entry.1 ≠ .bbuffer) = rest := by
    rw [List.filter_eq_self]
    intro entry member
    have inside := List.mem_map_of_mem (f := Prod.fst) member
    refine decide_eq_true ⟨fun same => noString ?_, fun same => noBbuffer ?_⟩
    · rwa [same] at inside
    · rwa [same] at inside
  have filtered : s.types.filter (fun entry => entry.1 ≠ .string ∧ entry.1 ≠ .bbuffer) = rest := by
    rw [whole]
    exact others
  unfold properties
  rw [filtered, List.map_map, Prod.swap_swap_eq, List.map_id, whole]

/-- Every id is one of a `ushort`. -/
theorem properties_ushort (ran : construct template = .ok s) : ∀ property ∈ s.properties, property.1 < 2 ^ 16 := by
  intro property member
  have constructed := construct_ok ran
  obtain ⟨entry, inside, rfl⟩ := List.mem_map.mp member
  have there := constructed.fitting.subset entry (List.mem_filter.mp inside).1
  rw [constructed.dict] at there
  rcases List.mem_append.mp there with old | new
  · exact Nat.lt_of_le_of_lt (mapped_le old) ((foldl_max template.mappings 2).2.2 _ (by decide) template.ushort)
  · obtain ⟨i, here⟩ := List.mem_iff_getElem?.mp new
    rw [number_getElem?] at here
    obtain ⟨other, -, rfl⟩ := Option.map_eq_some_iff.mp here
    exact Nat.mod_lt _ (by decide)

end

/-! ## The next round -/

/-- The project with the interface that was written. -/
def generated {template : Template} {s : TypeIds} (ran : construct template = .ok s) : Template :=
  { template with mappings := s.properties, ushort := properties_ushort ran }

section
variable {template : Template} {s s' : TypeIds} {t t' : TemplateType} {ts : List TemplateType} {id : Nat}

theorem mapped_generated (ran : construct template = .ok s) : mapped (generated ran) = s.types := properties_types ran

theorem map_of_new {property : Nat × TemplateType} (unknown : property.2 ∉ s.dict.map Prod.fst)
    (unused : property.1 ∉ s.dict.map Prod.snd) : ∃ s₁, s.map property = .ok s₁ ∧ s₁.dict = s.dict ++ [property.swap] := by
  refine ⟨_, (if_neg fun used => unused ?_).trans (if_neg fun found => unknown (find_isSome.mp found)), rfl⟩
  obtain ⟨entry, member, same⟩ := List.any_eq_true.mp used
  exact of_decide_eq_true same ▸ List.mem_map_of_mem member

/-- The constructor does not throw where all types and ids differ. -/
theorem mapAll_of_nodup {properties : List (Nat × TemplateType)}
    (keys : ((s.dict ++ properties.map Prod.swap).map Prod.fst).Nodup)
    (ids : ((s.dict ++ properties.map Prod.swap).map Prod.snd).Nodup) : ∃ s', s.mapAll properties = .ok s' := by
  induction properties generalizing s with
  | nil => exact ⟨s, rfl⟩
  | cons property rest ih =>
    have front : s.dict ++ (property :: rest).map Prod.swap = s.dict ++ [property.swap] ++ rest.map Prod.swap := by simp
    have apart {α : Type} (f : TemplateType × Nat → α) (nodup : ((s.dict ++ (property :: rest).map Prod.swap).map f).Nodup) :
        f property.swap ∉ s.dict.map f := by
      intro member
      rw [List.map_append, List.nodup_append] at nodup
      exact nodup.2.2 _ member _ (List.mem_map_of_mem List.mem_cons_self) rfl
    obtain ⟨s₁, first, dict⟩ := map_of_new (apart Prod.fst keys) (apart Prod.snd ids)
    rw [front, ← dict] at keys ids
    obtain ⟨s', others⟩ := ih keys ids
    exact ⟨s', by rw [mapAll, first]; exact others⟩

theorem construct_of_mapped {s₀ : TypeIds} (mapping : initial.mapAll template.mappings = .ok s₀) :
    construct template = .ok ((scanned template).foldl add { s₀ with types := [(.string, 1), (.bbuffer, 2)] }) := by
  unfold construct
  rw [mapping]

/-- When an interface is written, and with what. -/
theorem gen_written {written : List (Nat × TemplateType)} (wrote : gen template = .ok (false, some written)) :
    ∃ s, construct template = .ok s ∧ written = s.properties ∧ written ≠ [] ∧
      (template.mappings = [] ∨ newTypes (known template) (scanned template) ≠ []) := by
  unfold gen at wrote
  split at wrote
  · cases wrote
  next s₀ mapping =>
    have ran := construct_of_mapped mapping
    obtain ⟨_, mapping', -, fitting, dict, -⟩ := construct_mapped ran
    cases mapping.symm.trans mapping'
    have fresh (new : hasNewMappings { s₀ with types := [(.string, 1), (.bbuffer, 2)] } (scanned template) = true) :
        newTypes (known template) (scanned template) ≠ [] := by
      rw [← mapped_keys, ← dict]
      exact (hasNewMappings_iff fitting).mp new
    dsimp only at wrote
    split at wrote
    · cases wrote
    next due =>
      split at wrote
      · cases wrote
      next some =>
        cases wrote
        refine ⟨_, ran, rfl, fun none => some (List.length_eq_zero_iff.mpr none), ?_⟩
        by_cases first : template.mappings = []
        · exact .inl first
        · exact .inr (fresh ((Bool.not_eq_false _).mp fun same => due ⟨first, same⟩))

/-- The next round knows all types. -/
theorem newTypes_generated (ran : construct template = .ok s) :
    newTypes (known (generated ran)) (scanned (generated ran)) = [] := by
  refine List.eq_nil_iff_forall_not_mem.mpr fun t member => ?_
  obtain ⟨unknown, met⟩ := mem_newTypes.mp member
  rw [← mapped_keys, mapped_generated ran] at unknown
  exact unknown (((construct_ok ran).types t).mpr (.inr (.inr met)))

/-- After a round that wrote the interface the next one writes nothing and gives the same ids, if all ids differ. Otherwise it
throws. -/
theorem gen_generated (ran : construct template = .ok s) (wrote : gen template = .ok (false, some s.properties)) :
    ((s.types.map Prod.snd).Nodup → gen (generated ran) = .ok (true, none) ∧
      ∃ s', construct (generated ran) = .ok s' ∧ ∀ t, find s'.types t = find s.types t) ∧
    (¬ (s.types.map Prod.snd).Nodup → ∃ error, gen (generated ran) = .error error) := by
  have constructed := construct_ok ran
  have same := mapped_generated ran
  constructor
  · intro ids
    obtain ⟨_, _, -, some, -⟩ := gen_written wrote
    obtain ⟨s₁, mapping⟩ : ∃ s₁, initial.mapAll (generated ran).mappings = .ok s₁ := by
      have keys := constructed.fitting.types
      rw [← same] at keys ids
      exact mapAll_of_nodup keys ids
    have again := construct_of_mapped mapping
    obtain ⟨_, mapping', -, fitting, dict, -⟩ := construct_mapped again
    cases mapping.symm.trans mapping'
    generalize (scanned (generated ran)).foldl add { s₁ with types := [(.string, 1), (.bbuffer, 2)] } = s₁' at again
    have next := construct_ok again
    have nothing := newTypes_generated ran
    refine ⟨?_, _, again, fun t => Option.ext fun id => ?_⟩
    · have old : hasNewMappings { s₁ with types := [(.string, 1), (.bbuffer, 2)] } (scanned (generated ran)) = false := by
        rw [Bool.eq_false_iff]
        intro new
        refine (hasNewMappings_iff fitting).mp new ?_
        rw [dict, mapped_keys]
        exact nothing
      unfold gen
      rw [mapping]
      exact if_pos ⟨some, old⟩
    · -- the dictionary of the next round is what the types were, and the same types are met
      have entries := next.dict
      rw [nothing, same, number, List.append_nil] at entries
      have types (t : TemplateType) := (next.types t).trans (constructed.types t).symm
      rw [next.fitting.find_types, constructed.fitting.find_types]
      constructor
      · exact fun member => entries ▸ next.fitting.subset _ member
      · intro member
        obtain ⟨⟨_, id'⟩, inside, rfl⟩ := List.mem_map.mp ((types _).mpr (List.mem_map_of_mem member))
        have there : (_, id) ∈ s₁'.dict := entries ▸ member
        rw [next.functional there (next.fitting.subset _ inside)]
        exact inside
  · intro doubled
    cases mapping : initial.mapAll (generated ran).mappings with
    | ok s₁ => exact absurd (same ▸ (construct_ok (construct_of_mapped mapping)).ids) doubled
    | error error =>
      refine ⟨error, ?_⟩
      unfold gen
      rw [mapping]

theorem gen_generated_pkg :
    ∃ (s : TypeIds) (ran : construct (pkgTemplate [(5, .userClass "Player"), (7, .userClass "Scene")] (by decide)) = .ok s),
      gen (generated ran) = .ok (true, none) ∧ ∃ s', construct (generated ran) = .ok s' ∧ ∀ t, find s'.types t = find s.types t :=
  ⟨_, rfl, (gen_generated rfl rfl).1 (by decide)⟩

end

/-! ## All rounds -/

/-- The ids that are counted up fit a `ushort`. -/
def Room (template : Template) : Prop := largest template + (newTypes (known template) (scanned template)).length < 2 ^ 16

instance (template : Template) : Decidable (Room template) := inferInstanceAs (Decidable (_ < _))

/-- What becomes of a project: its classes are edited, and an interface that is written takes the place of the one before. The
types of `kept` occur in every such round. -/
inductive Evolves (kept : List TemplateType) (first : Template) : Template → Prop where
  | begin : Evolves kept first first
  | edit {template : Template} (before : Evolves kept first template) (classes : List TemplateClass)
      (structs : List TemplateStruct) : Evolves kept first { template with classes := classes, structs := structs }
  | generate {template : Template} {s : TypeIds} (before : Evolves kept first template) (ran : construct template = .ok s)
      (wrote : gen template = .ok (false, some s.properties)) (room : Room template) (occur : ∀ t ∈ kept, t ∈ scanned template) :
      Evolves kept first (generated ran)

section
variable {kept : List TemplateType} {first template : Template} {s : TypeIds} {t t' : TemplateType} {id : Nat}

/-- What an id stands for. -/
structure Stands (t : TemplateType) (id : Nat) (template : Template) : Prop where
  alone : ∀ t', (id, t') ∈ template.mappings → t' = t
  below : id ≤ largest template
  present : template.mappings ≠ []
  free : id ≠ 1 ∧ id ≠ 2

/-- An id that was counted up is new. -/
theorem number_fresh {maxId : Nat} {ts : List TemplateType} {entry : TemplateType × Nat} (room : maxId + ts.length < 2 ^ 16)
    (member : entry ∈ number maxId ts) : maxId < entry.2 := by
  have inside := List.mem_map_of_mem (f := Prod.snd) member
  rw [number_ids room] at inside
  exact (List.mem_range'_1.mp inside).1

theorem Constructed.apart (constructed : Constructed template s) {property : Nat × TemplateType}
    (member : property ∈ template.mappings) :
    (property.2 ≠ .string ∧ property.2 ≠ .bbuffer) ∧ property.1 ≠ 1 ∧ property.1 ≠ 2 := by
  have keys := constructed.fitting.keys
  have ids := constructed.ids
  rw [constructed.dict, List.map_append] at keys
  have keys := keys.of_append_left
  unfold mapped at keys ids
  simp only [List.map_cons, List.nodup_cons, List.mem_cons, not_or, List.map_map] at keys ids
  obtain ⟨⟨-, noString⟩, noBbuffer, -⟩ := keys
  obtain ⟨⟨-, no1⟩, no2, -⟩ := ids
  refine ⟨⟨fun same => noString ?_, fun same => noBbuffer ?_⟩, fun same => no1 ?_, fun same => no2 ?_⟩
  all_goals exact List.mem_map.mpr ⟨property, member, same⟩

/-- Nothing else gets the id. -/
theorem Stands.mem_dict (stands : Stands t id template) (constructed : Constructed template s) (room : Room template)
    (member : (t', id) ∈ s.dict) : t' = t := by
  rw [constructed.dict] at member
  rcases List.mem_append.mp member with old | new
  · rcases List.mem_cons.mp old with first | old
    · exact absurd (Prod.mk.inj first).2 stands.free.1
    rcases List.mem_cons.mp old with second | old
    · exact absurd (Prod.mk.inj second).2 stands.free.2
    obtain ⟨property, inside, same⟩ := List.mem_map.mp old
    rw [← Prod.swap_swap property, same] at inside
    exact stands.alone t' inside
  · exact absurd (number_fresh room new) (Nat.not_lt.mpr stands.below)

theorem Stands.generate (stands : Stands t id template) (ran : construct template = .ok s)
    (wrote : gen template = .ok (false, some s.properties)) (room : Room template) : Stands t id (generated ran) := by
  have constructed := construct_ok ran
  obtain ⟨_, _, -, some, new⟩ := gen_written wrote
  obtain ⟨counted, _, new⟩ := List.exists_cons_of_ne_nil (new.resolve_left stands.present)
  obtain ⟨unknown, met⟩ := mem_newTypes.mp (new ▸ List.mem_cons_self : counted ∈ newTypes (known template) (scanned template))
  obtain ⟨⟨t₁, id₁⟩, there, rfl⟩ := List.mem_map.mp ((constructed.types counted).mpr (.inr (.inr met)))
  have numbered : (t₁, id₁) ∈ number (largest template) (newTypes (known template) (scanned template)) := by
    have inside := constructed.fitting.subset _ there
    rw [constructed.dict] at inside
    refine (List.mem_append.mp inside).resolve_left fun old => unknown ?_
    rw [← mapped_keys]
    exact List.mem_map_of_mem old
  refine ⟨fun t' member => ?_, ?_, some, stands.free⟩
  · obtain ⟨entry, inside, same⟩ := List.mem_map.mp member
    have inside := (List.mem_filter.mp inside).1
    rw [← Prod.swap_swap entry, same] at inside
    exact stands.mem_dict constructed room (constructed.fitting.subset _ inside)
  · calc
      id ≤ largest template := stands.below
      _ ≤ id₁ := Nat.le_of_lt (number_fresh room numbered)
      _ ≤ largest (generated ran) := mapped_le (mapped_generated ran ▸ there)

theorem Evolves.stands (evolves : Evolves kept first template) (stands : Stands t id first) : Stands t id template := by
  induction evolves with
  | begin => exact stands
  | edit classes structs _ ih => exact ⟨ih.alone, ih.below, ih.present, ih.free⟩
  | generate _ ran wrote room _ ih => exact ih.generate ran wrote room

theorem Evolves.mapped (evolves : Evolves kept first template) (here : t ∈ kept) (mapped : (id, t) ∈ first.mappings) :
    (id, t) ∈ template.mappings := by
  induction evolves with
  | begin => exact mapped
  | edit classes structs _ ih => exact ih
  | generate _ ran _ _ occur ih =>
    have constructed := construct_ok ran
    have entry := constructed.mapped_mem (List.mem_cons_of_mem _ (List.mem_cons_of_mem _ (List.mem_map_of_mem ih)))
    have found := constructed.fitting.find_types.mp (constructed.find_scanned (occur t here) entry)
    exact List.mem_map.mpr ⟨(t, id), List.mem_filter.mpr ⟨found, decide_eq_true (constructed.apart ih).1⟩, rfl⟩

/-- An id is never given to another type, and a type that occurs in every round keeps its id. -/
theorem Evolves.keeps_id {s₀ : TypeIds} (evolves : Evolves kept first template) (ran₀ : construct first = .ok s₀)
    (mapped : (id, t) ∈ first.mappings) (ran : construct template = .ok s) (room : Room template) :
    (∀ t', find s.types t' = some id → t' = t) ∧ (t ∈ kept → t ∈ scanned template → find s.types t = some id) := by
  have before := construct_ok ran₀
  have constructed := construct_ok ran
  have entry (t' : TemplateType) (member : (id, t') ∈ first.mappings) : (t', id) ∈ TypeIds.mapped first :=
    List.mem_cons_of_mem _ (List.mem_cons_of_mem _ (List.mem_map_of_mem member))
  have stands : Stands t id first := by
    refine ⟨fun t' member => ?_, mapped_le (entry t mapped), List.ne_nil_of_mem mapped, (before.apart mapped).2⟩
    exact congrArg Prod.fst (List.inj_on_of_nodup_map before.ids (entry t' member) (entry t mapped) rfl)
  constructor
  · intro t' found
    exact (evolves.stands stands).mem_dict constructed room (constructed.mem_dict found)
  · intro here occurs
    have entry := evolves.mapped here mapped
    exact constructed.find_scanned occurs
      (constructed.mapped_mem (List.mem_cons_of_mem _ (List.mem_cons_of_mem _ (List.mem_map_of_mem entry))))

end

/-- `Scene` goes and `Chat` comes, between two rounds. -/
def chatClasses : List TemplateClass := [
  { name := "Player", fields := [⟨.number "int", false⟩, ⟨.ref (.userClass "Monster"), false⟩] },
  { name := "Monster" },
  { name := "Chat", fields := [⟨.list (.userClass "Player"), false⟩] }]

theorem keeps_id_chat : ∃ template s, Evolves [.userClass "Player"]
      (pkgTemplate [(5, .userClass "Player"), (7, .userClass "Scene")] (by decide)) template ∧
    template.classes = chatClasses ∧ construct template = .ok s ∧ find s.types (.userClass "Player") = some 5 ∧
      ∀ t, find s.types t = some 5 → t = .userClass "Player" := by
  have first : Evolves [.userClass "Player"] (pkgTemplate [(5, .userClass "Player"), (7, .userClass "Scene")] (by decide)) _ :=
    Evolves.begin.generate rfl rfl (by decide) (by decide)
  have second := (first.edit chatClasses []).generate rfl rfl (by decide) (by decide)
  obtain ⟨alone, kept⟩ := second.keeps_id rfl (by decide : (5, .userClass "Player") ∈ _) rfl (by decide)
  exact ⟨_, _, second, rfl, rfl, kept (by decide) (by decide), alone⟩

end TypeIds

end Xxlib.Gens
