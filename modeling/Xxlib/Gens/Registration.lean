import Xxlib.Gens.TypeIds

/-! Which types are written through pointers, and which are registered (`AllTypesRegister` of
`gens/pkggen/GenCPP_Class.cs`).

A field of a class, and an element of a list, is declared as a pointer if its type is a class or a list. In a struct it is
not (`_GetTypeDecl_Cpp` without the suffix `_s`), so that there only a `Ref` is one.
-/

set_option autoImplicit false

namespace Xxlib.Gens

namespace TypeIds

/-- Where a value of the first type is written, one of the second is written through a pointer. `inClass` tells apart
how the first one is declared. -/
inductive Points (template : Template) : Bool → TemplateType → TemplateType → Prop where
  | list {element : TemplateType} : Points template true (.list element) (.list element)
  | element {element p : TemplateType} (inner : Points template true element p) : Points template true (.list element) p
  | userClass {name : String} : Points template true (.userClass name) (.userClass name)
  | target {inClass : Bool} {target : TemplateType} (pointer : (target.isList || target.isUserClass) = true) :
      Points template inClass (.ref target) target
  | targetElement {inClass : Bool} {element p : TemplateType} (inner : Points template true element p) :
      Points template inClass (.ref (.list element)) p
  | field {inClass : Bool} {s : TemplateStruct} {f : TemplateField} {p : TemplateType} (declared : s ∈ template.structs)
      (member : f ∈ s.fields) (serialised : f.notSerialize = false) (inner : Points template false f.type p) :
      Points template inClass (.userStruct s.name) p

/-- By the `ToBBuffer` of a class, or by the `WriteTo` of a struct. -/
inductive Written (template : Template) (p : TemplateType) : Prop where
  | byClass {c : TemplateClass} {f : TemplateField} (declared : c ∈ template.classes) (member : f ∈ c.fields)
      (serialised : f.notSerialize = false) (points : Points template true f.type p)
  | byStruct {s : TemplateStruct} {f : TemplateField} (declared : s ∈ template.structs) (member : f ∈ s.fields)
      (serialised : f.notSerialize = false) (points : Points template false f.type p)

/-- The calls of `Register`. -/
def allTypesRegister (s : TypeIds) : List (TemplateType × Nat) :=
  s.types.filter fun entry => entry.1 ≠ .string ∧ entry.1 ≠ .bbuffer

/-- What is written through a pointer has an id and is registered with it. -/
def Complete (template : Template) (s : TypeIds) : Prop :=
  ∀ p, Written template p → ∃ id, find s.types p = some id ∧ id ≠ 0 ∧ (p, id) ∈ allTypesRegister s

/-! ## The condition -/

/-- The targets of a `Ref` that is written where a value of the type is written. -/
inductive Targets (template : Template) : Bool → TemplateType → TemplateType → Prop where
  | here {inClass : Bool} {target : TemplateType} : Targets template inClass (.ref target) target
  | element {element target : TemplateType} (inner : Targets template true element target) :
      Targets template true (.list element) target
  | inside {inClass : Bool} {element target : TemplateType} (inner : Targets template true element target) :
      Targets template inClass (.ref (.list element)) target
  | field {inClass : Bool} {s : TemplateStruct} {f : TemplateField} {target : TemplateType}
      (declared : s ∈ template.structs) (member : f ∈ s.fields) (serialised : f.notSerialize = false)
      (inner : Targets template false f.type target) : Targets template inClass (.userStruct s.name) target

/-- A class or a list is also met without the `Ref`. -/
def Covered (template : Template) (inClass : Bool) (t : TemplateType) : Prop :=
  ∀ target, Targets template inClass t target → (target.isList || target.isUserClass) = true → target ∈ scanned template

/-- All targets of `Ref`s are. -/
def TargetsScanned (template : Template) : Prop :=
  (∀ c ∈ template.classes, ∀ f ∈ c.fields, f.notSerialize = false → Covered template true f.type) ∧
    ∀ s ∈ template.structs, ∀ f ∈ s.fields, f.notSerialize = false → Covered template false f.type

/-- What is written through a pointer is neither mapped to 0, nor a type at which the counter starts again. -/
def WrittenNonzero (template : Template) : Prop :=
  ∀ p, Written template p → (0, p) ∉ template.mappings ∧
    ∀ i, (newTypes (known template) (scanned template))[i]? = some p → (largest template + 1 + i) % 2 ^ 16 ≠ 0

section
variable {template : Template} {inClass : Bool} {t p target : TemplateType}

theorem Points.pointer (points : Points template inClass t p) : (p.isList || p.isUserClass) = true := by
  induction points with
  | list | userClass => rfl
  | target pointer => exact pointer
  | element _ ih | targetElement _ ih | field _ _ _ _ ih => exact ih

/-- The elements of a list that is met are met. -/
theorem fieldTypes_trans (member : t ∈ fieldTypes p) : ∀ other ∈ fieldTypes t, other ∈ fieldTypes p := by
  induction p with
  | list element ih =>
    rcases List.mem_cons.mp member with rfl | inner
    · exact fun _ => id
    · exact fun other deeper => List.mem_cons_of_mem _ (ih inner other deeper)
  | userClass name =>
    rw [List.mem_singleton.mp member]
    exact fun _ => id
  | number | string | bbuffer | object | ref | userStruct => cases member

theorem mem_scanned_of_field {c : TemplateClass} {f : TemplateField} (declared : c ∈ template.classes)
    (member : f ∈ c.fields)
    (here : t ∈ fieldTypes f.type) : t ∈ scanned template := by
  refine List.mem_flatMap.mpr ⟨c, declared, List.mem_cons_of_mem _ (List.mem_append_right _ ?_)⟩
  exact List.mem_flatMap.mpr ⟨f, member, here⟩

theorem scanned_closed (member : t ∈ scanned template) : ∀ other ∈ fieldTypes t, other ∈ scanned template := by
  intro other deeper
  obtain ⟨c, declared, here⟩ := List.mem_flatMap.mp member
  -- the class itself and its base have no elements
  have named : ∀ name, t = .userClass name → other ∈ scanned template := by
    rintro name rfl
    rw [List.mem_singleton.mp deeper]
    exact member
  rcases List.mem_cons.mp here with first | here
  · exact named c.name first
  rcases List.mem_append.mp here with base | field
  · obtain ⟨name, -, same⟩ := List.mem_map.mp base
    exact named name same.symm
  · obtain ⟨f, inside, found⟩ := List.mem_flatMap.mp field
    exact mem_scanned_of_field declared inside (fieldTypes_trans found other deeper)

/-- The target of a `Ref` is written through a pointer. -/
theorem Targets.points (targets : Targets template inClass t target)
    (pointer : (target.isList || target.isUserClass) = true) :
    Points template inClass t target := by
  induction targets with
  | here => exact .target pointer
  | element _ ih => exact .element (ih pointer)
  | inside _ ih => exact .targetElement (ih pointer)
  | field declared member serialised _ ih => exact .field declared member serialised (ih pointer)

/-- Everything that is written through a pointer is met, if what is behind a `Ref` is. -/
theorem Points.scanned (points : Points template inClass t p) (covered : Covered template inClass t)
    (met : inClass = true → ∀ other ∈ fieldTypes t, other ∈ scanned template) : p ∈ scanned template := by
  induction points with
  | list => exact met rfl _ List.mem_cons_self
  | userClass => exact met rfl _ List.mem_cons_self
  | element _ ih =>
    refine ih (fun target inner => covered target (.element inner)) fun _ other member => ?_
    exact met rfl other (List.mem_cons_of_mem _ member)
  | target pointer => exact covered _ .here pointer
  | targetElement _ ih =>
    have list := covered _ .here rfl
    refine ih (fun target inner => covered target (.inside inner)) fun _ other member => ?_
    exact scanned_closed list other (List.mem_cons_of_mem _ member)
  | field declared member serialised _ ih =>
    refine ih (fun target inner => covered target (.field declared member serialised inner)) fun impossible => ?_
    cases impossible

theorem Written.pointer (written : Written template p) : (p.isList || p.isUserClass) = true := by
  cases written with
  | byClass _ _ _ points | byStruct _ _ _ points => exact points.pointer

theorem targetsScanned_iff : TargetsScanned template ↔ ∀ p, Written template p → p ∈ scanned template := by
  constructor
  · rintro ⟨classes, structs⟩ p written
    cases written with
    | byClass declared member serialised points =>
      exact points.scanned (classes _ declared _ member serialised) fun _ _ => mem_scanned_of_field declared member
    | byStruct declared member serialised points =>
      refine points.scanned (structs _ declared _ member serialised) fun impossible => ?_
      cases impossible
  · intro all
    constructor
    · intro c declared f member serialised target targets pointer
      exact all target (.byClass declared member serialised (targets.points pointer))
    · intro s declared f member serialised target targets pointer
      exact all target (.byStruct declared member serialised (targets.points pointer))

/-- Whenever the constructor does not throw, everything that is written through a pointer is registered if and only if all
targets of `Ref`s are met without them, and have other ids than 0. -/
theorem registered_iff {s : TypeIds} (ran : construct template = .ok s) :
    Complete template s ↔ TargetsScanned template ∧ WrittenNonzero template := by
  have constructed := construct_ok ran
  constructor
  · intro complete
    have scanned : ∀ p, Written template p → p ∈ scanned template := by
      intro p written
      obtain ⟨id, found, -⟩ := complete p written
      have present : p ∈ s.types.map Prod.fst := find_isSome.mp (Option.isSome_iff_exists.mpr ⟨id, found⟩)
      have pointer := written.pointer
      rcases (constructed.types p).mp present with rfl | rfl | member
      · cases pointer
      · cases pointer
      · exact member
    refine ⟨targetsScanned_iff.mpr scanned, fun p written => ?_⟩
    obtain ⟨id, found, nonzero, -⟩ := complete p written
    have other : ¬ find s.types p = some 0 := by
      rw [found]
      rintro ⟨⟩
      exact nonzero rfl
    rw [constructed.zero_iff (scanned p written)] at other
    exact ⟨fun zero => other (.inl zero), fun i here wraps => other (.inr ⟨i, here, wraps⟩)⟩
  · rintro ⟨targets, nonzero⟩ p written
    have member := targetsScanned_iff.mp targets p written
    obtain ⟨⟨_, id⟩, inside, rfl⟩ := List.mem_map.mp ((constructed.types p).mpr (.inr (.inr member)))
    have found := constructed.fitting.find_types.mpr inside
    refine ⟨id, found, ?_, List.mem_filter.mpr ⟨inside, ?_⟩⟩
    · rintro rfl
      obtain ⟨unmapped, apart⟩ := nonzero _ written
      rcases (constructed.zero_iff member).mp found with zero | ⟨i, here, wraps⟩
      · exact unmapped zero
      · exact apart i here wraps
    · have pointer := written.pointer
      rw [decide_eq_true_eq]
      constructor
      · intro same
        rw [same] at pointer
        cases pointer
      · intro same
        rw [same] at pointer
        cases pointer

/-- Where there is room for all ids, none is 0. -/
theorem Roomy.writtenNonzero (roomy : Roomy template) (targets : TargetsScanned template) :
    WrittenNonzero template := by
  intro p written
  refine ⟨roomy.1 p (targetsScanned_iff.mp targets p written), fun i here => ?_⟩
  have bound := (List.getElem?_eq_some_iff.mp here).1
  have room := roomy.2
  omega

theorem covered_list {element : TemplateType} (covered : Covered template true element) :
    Covered template true (.list element) := by
  intro target targets
  cases targets with
  | element inner => exact covered target inner

theorem covered_ref_class {name : String} (member : .userClass name ∈ scanned template) :
    Covered template inClass (.ref (.userClass name)) := by
  intro target targets _
  cases targets with
  | here => exact member

end

/-- The template of the repository. -/
theorem registered_pkg :
    ∃ s, construct (pkgTemplate [] (by decide)) = .ok s ∧ Complete (pkgTemplate [] (by decide)) s := by
  have targets : TargetsScanned (pkgTemplate [] (by decide)) := by
    refine ⟨?_, nofun⟩
    have plain : ∀ t, (∀ target, ¬ Targets (pkgTemplate [] (by decide)) true t target) →
        Covered (pkgTemplate [] (by decide)) true t := fun t none target targets => absurd targets (none target)
    refine List.forall_mem_cons.mpr ⟨?_, List.forall_mem_cons.mpr ⟨nofun, List.forall_mem_cons.mpr ⟨?_,
      List.forall_mem_cons.mpr ⟨?_, List.forall_mem_singleton.mpr ?_⟩⟩⟩⟩
    · refine List.forall_mem_cons.mpr ⟨fun _ => plain _ nofun, List.forall_mem_cons.mpr ⟨nofun,
        List.forall_mem_singleton.mpr fun _ => covered_ref_class (by decide)⟩⟩
    · exact List.forall_mem_cons.mpr ⟨fun _ => covered_list (plain _ nofun),
        List.forall_mem_singleton.mpr fun _ => covered_list (covered_ref_class (by decide))⟩
    · exact List.forall_mem_cons.mpr ⟨fun _ => covered_list (plain _ nofun),
        List.forall_mem_singleton.mpr fun _ => plain _ nofun⟩
    · exact List.forall_mem_cons.mpr ⟨fun _ => covered_ref_class (by decide),
        List.forall_mem_singleton.mpr fun _ => covered_list (covered_ref_class (by decide))⟩
  have roomy : Roomy (pkgTemplate [] (by decide)) := by decide
  exact ⟨_, rfl, (registered_iff rfl).mpr ⟨targets, roomy.writtenNonzero targets⟩⟩

/-- A class with a `Ref` of a list that is nowhere else. -/
def watcherTemplate : Template where
  classes := [{ name := "Watcher", fields := [⟨.ref (.list (.number "int")), false⟩] }]

theorem watched_unregistered : ∃ s, construct watcherTemplate = .ok s ∧ Written watcherTemplate (.list (.number "int")) ∧
    find s.types (.list (.number "int")) = none ∧ ¬ Complete watcherTemplate s := by
  have written : Written watcherTemplate (.list (.number "int")) :=
    .byClass List.mem_cons_self List.mem_cons_self rfl (.target rfl)
  refine ⟨_, rfl, written, by decide, fun complete => ?_⟩
  obtain ⟨id, found, -⟩ := complete _ written
  exact nomatch found

end TypeIds

end Xxlib.Gens
