import Mathlib.Data.List.Perm.Basic

/-! The C++ that `GenCPP_Class.Gen` emits for the fields of classes and structs (`gens/pkggen/GenCPP_Class.cs`, with
the reflection of `gens/gen_library/Exts.cs`).

A type of the template assembly is what reflection says about its fields. What is emitted is a list of C++ statements,
and the arguments of a call with the separators in front of them.
-/

set_option autoImplicit false

namespace Xxlib.Gens

/-! ## Templates -/

inductive Access where
  | privateAccess
  | protectedAccess
  | internalAccess
  | publicAccess
  deriving DecidableEq

/-- Reflection on a derived class also returns the field. -/
def Access.inherited : Access → Bool
  | .privateAccess => false
  | .protectedAccess | .internalAccess | .publicAccess => true

/-- `external` is what the attribute `External` of the type says about `serializable`. -/
structure FieldType where
  isContainer : Bool := false
  external : Option Bool := none
  deriving DecidableEq

def FieldType.isExternal (t : FieldType) : Bool := t.external.isSome

def FieldType.getExternalSerializable (t : FieldType) : Bool := t.external.getD false

structure FieldInfo where
  declaringType : String
  name : String
  type : FieldType := {}
  access : Access := .privateAccess
  notSerialize : Bool := false
  customSerialize : Bool := false
  limit : Int := 0
  deriving DecidableEq

namespace FieldInfo

/-- The field is of an external type that is not serialisable. -/
def foreign (f : FieldInfo) : Bool := f.type.isExternal && !f.type.getExternalSerializable

/-- What the template says about the field. -/
def serialisable (f : FieldInfo) : Bool := !f.foreign && !f.notSerialize

end FieldInfo

/-- The fields that a class declares, and those that its bases declare, the nearest one first. -/
structure Class where
  own : List FieldInfo
  bases : List (List FieldInfo) := []
  distinct : (own :: bases).flatten.Nodup := by decide
  noCustom : ∀ f ∈ (own :: bases).flatten, f.customSerialize = false := by decide

structure Struct where
  fields : List FieldInfo
  distinct : fields.Nodup := by decide
  noCustom : ∀ f ∈ fields, f.customSerialize = false := by decide

structure Assembly where
  classes : List Class
  structs : List Struct

/-- `_GetFields` of a class: its own fields, and those of its bases that are not private. -/
def getFields (own : List FieldInfo) (bases : List (List FieldInfo)) : List FieldInfo :=
  own ++ bases.flatten.filter (·.access.inherited)

/-! ## What is emitted for a class -/

inductive Stmt where
  /-- `this->BaseType::ToBBuffer(bb);` -/
  | baseToBBuffer
  /-- `bb.Write(this->` name `);` -/
  | write (f : FieldInfo)
  /-- `if (int r = this->BaseType::FromBBuffer(bb)) return r;` -/
  | baseFromBBuffer
  /-- `return this->FromBBufferCore(bb);` -/
  | fromBBufferCore
  /-- `bb.readLengthLimit = ` limit `;` -/
  | readLengthLimit (limit : Int)
  /-- `if (int r = bb.Read(this->` name `)) return r;` -/
  | read (f : FieldInfo)
  /-- `return 0;` -/
  | returnZero

/-- `throw new NotImplementedException()` -/
inductive GenError where
  | notImplemented

def genWrite (f : FieldInfo) : Except GenError (List Stmt) :=
  if f.type.isExternal && !f.type.getExternalSerializable then .ok []
  else if f.notSerialize then .ok []
  else if f.customSerialize then .error .notImplemented
  else .ok [.write f]

def genRead (f : FieldInfo) : List Stmt :=
  if f.type.isExternal && !f.type.getExternalSerializable then []
  -- `NotSerialize` is not asked here
  else (if f.type.isContainer then [.readLengthLimit f.limit] else []) ++ [.read f]

/-- The body of `ToBBuffer`. -/
def genToBBuffer (own : List FieldInfo) (bases : List (List FieldInfo)) : Except GenError (List Stmt) := do
  -- `GetFields` goes through the bases too, although the base writes its fields itself
  let writes ← (getFields own bases).mapM genWrite
  return (if bases.isEmpty then [] else [.baseToBBuffer]) ++ writes.flatten

/-- The body of `FromBBuffer`. -/
def genFromBBuffer (bases : List (List FieldInfo)) : List Stmt :=
  (if bases.isEmpty then [] else [.baseFromBBuffer]) ++ [.fromBBufferCore]

def genFromBBufferCore (own : List FieldInfo) (bases : List (List FieldInfo)) : List Stmt :=
  (getFields own bases).flatMap genRead ++ [.returnZero]

/-! ## What the emitted methods write and read -/

/-- The fields that `ToBBuffer` writes, in order. -/
def written : List (List FieldInfo) → Except GenError (List FieldInfo)
  | [] => .ok []
  | own :: bases => do
      let base ← written bases
      let body ← genToBBuffer own bases
      return body.flatMap fun
        | .baseToBBuffer => base
        | .write f => [f]
        | _ => []

/-- The fields that `FromBBufferCore` reads, without an error. -/
def readCore (own : List FieldInfo) (bases : List (List FieldInfo)) : List FieldInfo :=
  (genFromBBufferCore own bases).flatMap fun
    | .read f => [f]
    | _ => []

/-- The fields that `FromBBuffer` reads, without an error. -/
def readBack : List (List FieldInfo) → List FieldInfo
  | [] => []
  | own :: bases => (genFromBBuffer bases).flatMap fun
      | .baseFromBBuffer => readBack bases
      | .fromBBufferCore => readCore own bases
      | _ => []

/-! ## What is emitted for a struct -/

/-- An argument: the text of the separator in front of it, and the field. -/
abbrev Arg := String × FieldInfo

/-- `(f == fs.First() ? "" : @", ")` -/
def separator (fs : List FieldInfo) (f : FieldInfo) : String := if fs.head? = some f then "" else ", "

/-- The arguments of `bb.Write(`, each one as `in.` name. -/
def genWriteTo (fs : List FieldInfo) : List Arg :=
  -- the separator looks at the first of all fields, also where that one is left out
  (fs.filter fun f => !f.notSerialize).map fun f => (separator fs f, f)

/-- The arguments of `bb.Read(`, each one as `out.` name. -/
def genReadFrom (fs : List FieldInfo) : List Arg := fs.map fun f => (separator fs f, f)

/-- A comma between every two arguments, and no other one. -/
def WellFormed : List Arg → Prop
  | [] => True
  | (first, _) :: rest => first = "" ∧ ∀ arg ∈ rest, arg.1 = ", "

/-! ## Agreement -/

/-- Writer and reader of the class agree, on each of its serialisable fields once. -/
def Class.Agrees (c : Class) : Prop :=
  written (c.own :: c.bases) = .ok (readBack (c.own :: c.bases)) ∧
    (readBack (c.own :: c.bases)).Perm ((c.own :: c.bases).flatten.filter (·.serialisable))

def Struct.Agrees (s : Struct) : Prop :=
  (genWriteTo s.fields).map Prod.snd = (genReadFrom s.fields).map Prod.snd ∧
    ((genReadFrom s.fields).map Prod.snd).Perm (s.fields.filter (·.serialisable)) ∧
    WellFormed (genWriteTo s.fields) ∧ WellFormed (genReadFrom s.fields)

/-- No field of the class is left out by the writer alone, and no base shows a serialisable field to a class derived
from it. -/
def Class.Regular (c : Class) : Prop :=
  (∀ f ∈ (c.own :: c.bases).flatten, f.notSerialize = true → f.foreign = true) ∧
    ∀ f ∈ c.bases.flatten, f.access.inherited = true → f.serialisable = false

/-- All fields are serialisable. -/
def Struct.Regular (s : Struct) : Prop := ∀ f ∈ s.fields, f.serialisable = true

def Assembly.Agrees (asm : Assembly) : Prop := (∀ c ∈ asm.classes, c.Agrees) ∧ ∀ s ∈ asm.structs, s.Agrees

def Assembly.Regular (asm : Assembly) : Prop := (∀ c ∈ asm.classes, c.Regular) ∧ ∀ s ∈ asm.structs, s.Regular

/-! ## The methods in terms of the fields -/

/-- What a method does that has its base do the same first. -/
def collect (p : FieldInfo → Bool) : List (List FieldInfo) → List FieldInfo
  | [] => []
  | own :: bases => collect p bases ++ (getFields own bases).filter p

theorem getFields_subset {own : List FieldInfo} {bases : List (List FieldInfo)} {f : FieldInfo}
    (member : f ∈ getFields own bases) : f ∈ (own :: bases).flatten := by
  rw [List.flatten_cons, List.mem_append]
  rcases List.mem_append.mp member with declared | inherited
  · exact .inl declared
  · exact .inr (List.mem_of_mem_filter inherited)

theorem genWrite_eq {f : FieldInfo} (noCustom : f.customSerialize = false) :
    genWrite f = .ok (if f.serialisable then [.write f] else []) := by
  unfold genWrite FieldInfo.serialisable FieldInfo.foreign
  rw [noCustom]
  cases f.type.isExternal && !f.type.getExternalSerializable <;> cases f.notSerialize <;> rfl

theorem mapM_genWrite {fs : List FieldInfo} (noCustom : ∀ f ∈ fs, f.customSerialize = false) :
    fs.mapM genWrite = .ok (fs.map fun f => if f.serialisable then [.write f] else []) := by
  induction fs with
  | nil => rfl
  | cons f fs ih =>
    rw [List.mapM_cons, genWrite_eq (noCustom f List.mem_cons_self),
      ih fun other member => noCustom other (List.mem_cons_of_mem f member)]
    rfl

theorem written_eq {levels : List (List FieldInfo)} (noCustom : ∀ f ∈ levels.flatten, f.customSerialize = false) :
    written levels = .ok (collect (·.serialisable) levels) := by
  induction levels with
  | nil => rfl
  | cons own bases ih =>
    have base := ih fun f member => noCustom f (by rw [List.flatten_cons]; exact List.mem_append_right _ member)
    have body : genToBBuffer own bases = .ok ((if bases.isEmpty then [] else [.baseToBBuffer]) ++
        ((getFields own bases).map fun f => if f.serialisable then [Stmt.write f] else []).flatten) := by
      unfold genToBBuffer
      rw [mapM_genWrite fun f member => noCustom f (getFields_subset member)]
      rfl
    unfold written
    rw [base, body]
    show Except.ok _ = Except.ok _
    rw [List.flatMap_append]
    congr 2
    · cases bases with
      | nil => rfl
      | cons base bases => exact List.append_nil _
    · induction getFields own bases with
      | nil => rfl
      | cons f fs more =>
        rw [List.map_cons, List.flatten_cons, List.flatMap_append, more, List.filter_cons]
        cases f.serialisable <;> rfl

theorem readCore_eq (own : List FieldInfo) (bases : List (List FieldInfo)) :
    readCore own bases = (getFields own bases).filter fun f => !f.foreign := by
  unfold readCore genFromBBufferCore
  rw [List.flatMap_append]
  show _ ++ [] = _
  rw [List.append_nil]
  induction getFields own bases with
  | nil => rfl
  | cons f fs ih =>
    rw [List.flatMap_cons, List.flatMap_append, ih, List.filter_cons]
    unfold genRead FieldInfo.foreign
    cases f.type.isExternal && !f.type.getExternalSerializable <;> cases f.type.isContainer <;> rfl

theorem readBack_eq (levels : List (List FieldInfo)) : readBack levels = collect (fun f => !f.foreign) levels := by
  induction levels with
  | nil => rfl
  | cons own bases ih =>
    unfold readBack genFromBBuffer
    rw [List.flatMap_append]
    congr 1
    · cases bases with
      | nil => rfl
      | cons base bases =>
        rw [← ih]
        exact List.append_nil _
    · rw [← readCore_eq]
      exact List.append_nil _

/-! ## Comparing what is collected -/

section
variable {p q : FieldInfo → Bool} {levels : List (List FieldInfo)}

theorem filter_length_le (weaker : ∀ f, p f = true → q f = true) (fs : List FieldInfo) :
    (fs.filter p).length ≤ (fs.filter q).length := by
  rw [← List.countP_eq_length_filter, ← List.countP_eq_length_filter]
  exact List.countP_mono_left fun f _ => weaker f

/-- Two filters that leave as much leave the same. -/
theorem filter_length_eq (weaker : ∀ f, p f = true → q f = true) (fs : List FieldInfo)
    (same : (fs.filter p).length = (fs.filter q).length) : ∀ f ∈ fs, q f = true → p f = true := by
  have both : (fs.filter q).filter p = fs.filter p := by
    rw [List.filter_filter]
    apply List.filter_congr
    intro f _
    cases holds : p f with
    | false => rfl
    | true => rw [weaker f holds]; rfl
  rw [← both, List.length_filter_eq_length_iff] at same
  exact fun f member holds => same f (List.mem_filter.mpr ⟨member, holds⟩)

theorem collect_congr (same : ∀ f ∈ levels.flatten, p f = q f) : collect p levels = collect q levels := by
  induction levels with
  | nil => rfl
  | cons own bases ih =>
    unfold collect
    rw [ih fun f member => same f (by rw [List.flatten_cons]; exact List.mem_append_right _ member),
      List.filter_congr fun f member => same f (getFields_subset member)]

theorem collect_length_le (weaker : ∀ f, p f = true → q f = true) (levels : List (List FieldInfo)) :
    (collect p levels).length ≤ (collect q levels).length := by
  induction levels with
  | nil => exact Nat.le_refl _
  | cons own bases ih =>
    unfold collect
    rw [List.length_append, List.length_append]
    exact Nat.add_le_add ih (filter_length_le weaker _)

theorem collect_length_eq (weaker : ∀ f, p f = true → q f = true)
    (same : (collect p levels).length = (collect q levels).length) :
    ∀ f ∈ levels.flatten, q f = true → p f = true := by
  induction levels with
  | nil => nofun
  | cons own bases ih =>
    unfold collect at same
    rw [List.length_append, List.length_append] at same
    have below := collect_length_le weaker bases
    have here := filter_length_le weaker (getFields own bases)
    intro f member
    rw [List.flatten_cons] at member
    rcases List.mem_append.mp member with declared | base
    -- both parts have as many fields as they could have, since their sum has
    · exact filter_length_eq weaker (getFields own bases) (by omega) f (List.mem_append_left _ declared)
    · exact ih (by omega) f base

/-- Every field is collected, where it is declared. -/
theorem flatten_length_le (p : FieldInfo → Bool) (levels : List (List FieldInfo)) :
    (levels.flatten.filter p).length ≤ (collect p levels).length := by
  induction levels with
  | nil => exact Nat.le_refl _
  | cons own bases ih =>
    unfold collect getFields
    rw [List.flatten_cons, List.filter_append, List.filter_append, List.length_append, List.length_append,
      List.length_append]
    omega

/-- What a base shows is collected again. -/
theorem collect_again {own : List FieldInfo} {bases : List (List FieldInfo)}
    (same : (collect p (own :: bases)).length = ((own :: bases).flatten.filter p).length) :
    ∀ f ∈ bases.flatten, f.access.inherited = true → p f = false := by
  unfold collect getFields at same
  rw [List.flatten_cons, List.filter_append, List.filter_append, List.length_append, List.length_append,
    List.length_append] at same
  have below := flatten_length_le p bases
  have none : ((bases.flatten.filter (·.access.inherited)).filter p).length = 0 := by omega
  have empty := List.length_eq_zero_iff.mp none
  intro f member inherited
  have absent := List.filter_eq_nil_iff.mp empty f (List.mem_filter.mpr ⟨member, inherited⟩)
  exact Bool.not_eq_true _ ▸ absent

theorem collect_perm (hidden : ∀ f ∈ levels.tail.flatten, f.access.inherited = true → p f = false) :
    (collect p levels).Perm (levels.flatten.filter p) := by
  induction levels with
  | nil => exact .nil
  | cons own bases ih =>
    have shown : (bases.flatten.filter (·.access.inherited)).filter p = [] := by
      rw [List.filter_eq_nil_iff]
      intro f member
      obtain ⟨base, inherited⟩ := List.mem_filter.mp member
      rw [hidden f base inherited]
      exact Bool.false_ne_true
    have deeper : ∀ f ∈ bases.tail.flatten, f.access.inherited = true → p f = false := by
      intro f member
      refine hidden f ?_
      cases bases with
      | nil => exact member
      | cons base bases => exact List.mem_append_right _ member
    unfold collect getFields
    rw [List.filter_append, shown, List.append_nil, List.flatten_cons, List.filter_append]
    exact (List.Perm.append_right _ (ih deeper)).trans List.perm_append_comm

end

/-! ## When both sides agree -/

theorem serialisable_not_foreign (f : FieldInfo) (holds : f.serialisable = true) : (!f.foreign) = true :=
  (Bool.and_eq_true_iff.mp holds).1

theorem Class.agrees_iff (c : Class) : c.Agrees ↔ c.Regular := by
  have writes := written_eq c.noCustom
  have reads := readBack_eq (c.own :: c.bases)
  constructor
  · rintro ⟨same, all⟩
    rw [writes, reads] at same
    rw [reads] at all
    have equal : collect (·.serialisable) (c.own :: c.bases) = collect (fun f => !f.foreign) (c.own :: c.bases) :=
      Except.ok.inj same
    constructor
    · intro f member excluded
      by_contra native
      -- a field that only the reader takes would make its list longer
      have holds := collect_length_eq serialisable_not_foreign (congrArg List.length equal) f member
        (by simpa using native)
      simp [FieldInfo.serialisable, excluded] at holds
    · rw [← equal] at all
      exact collect_again all.length_eq
  · rintro ⟨kept, hidden⟩
    have equal : collect (·.serialisable) (c.own :: c.bases) = collect (fun f => !f.foreign) (c.own :: c.bases) := by
      apply collect_congr
      intro f member
      unfold FieldInfo.serialisable
      cases excluded : f.notSerialize with
      | false => exact Bool.and_true _
      | true => rw [kept f member excluded]; rfl
    refine ⟨?_, ?_⟩
    · rw [writes, reads, equal]
    · rw [reads, ← equal]
      exact collect_perm hidden

theorem wellFormed_map {fs : List FieldInfo} (distinct : fs.Nodup) :
    WellFormed (fs.map fun f => (separator fs f, f)) := by
  cases fs with
  | nil => trivial
  | cons first rest =>
    refine ⟨if_pos rfl, fun arg member => ?_⟩
    obtain ⟨f, inside, rfl⟩ := List.mem_map.mp member
    -- only the first field is its own head, because no field occurs twice
    have other : first ≠ f := by
      rintro rfl
      exact (List.nodup_cons.mp distinct).1 inside
    exact if_neg fun same => other (Option.some.inj same)

theorem Struct.agrees_iff (s : Struct) : s.Agrees ↔ s.Regular := by
  have reads : (genReadFrom s.fields).map Prod.snd = s.fields := by
    unfold genReadFrom
    rw [List.map_map]
    exact List.map_id _
  constructor
  · rintro ⟨-, all, -⟩
    rw [reads] at all
    exact List.length_filter_eq_length_iff.mp all.length_eq.symm
  · intro regular
    have kept : (s.fields.filter fun f => !f.notSerialize) = s.fields :=
      List.filter_eq_self.mpr fun f member => (Bool.and_eq_true_iff.mp (regular f member)).2
    have same : genWriteTo s.fields = genReadFrom s.fields := by
      unfold genWriteTo genReadFrom
      rw [kept]
    have all : s.fields.filter (·.serialisable) = s.fields := List.filter_eq_self.mpr regular
    refine ⟨by rw [same], ?_, ?_, wellFormed_map s.distinct⟩
    · rw [reads, all]
    · rw [same]
      exact wellFormed_map s.distinct

/-- The emitted writers and readers of an assembly agree exactly if it marks no field `NotSerialize` that a reader does
not leave out, has no class that inherits a serialisable field it can see, and only structs without external fields. -/
theorem generated_agree_iff (asm : Assembly) : asm.Agrees ↔ asm.Regular := by
  constructor
  · rintro ⟨classes, structs⟩
    exact ⟨fun c member => c.agrees_iff.mp (classes c member), fun s member => s.agrees_iff.mp (structs s member)⟩
  · rintro ⟨classes, structs⟩
    exact ⟨fun c member => c.agrees_iff.mpr (classes c member), fun s member => s.agrees_iff.mpr (structs s member)⟩

/-- `Player` of `pkggen_template_PKG/Generic.cs`. -/
def player : Class where
  own := [{ declaringType := "Player", name := "id" },
    { declaringType := "Player", name := "token", type := { isContainer := true }, notSerialize := true },
    { declaringType := "Player", name := "target" }]

/-- `FromBBuffer` reads `token`, which `ToBBuffer` has not written. -/
theorem player_token_read : ¬ ∀ asm : Assembly, asm.Agrees := by
  intro always
  have agrees := (always ⟨[player], []⟩).1 player (List.mem_singleton.mpr rfl)
  have lengths := congrArg (fun fields => fields.toOption.map List.length) agrees.1
  exact absurd lengths (by decide)

end Xxlib.Gens
