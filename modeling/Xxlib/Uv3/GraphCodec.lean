import Xxlib.Uv3.ObjectGraph

/-! What `WriteTo` and `ToBBuffer` write, `ReadFrom` and `FromBBuffer` read back.

The content of an object is considered without the recursion: `Pointers` is what it needs to know about the pointers in
it.
-/

set_option autoImplicit false

namespace Xxlib.Uv3

open Lib

/-- The bytes of a `size_t`. -/
abbrev sizeBytes (n : Nat) : List UInt8 := varInteger (BitVec.ofNat 64 n)

theorem floatBytes_eq (v : BitVec 32) :
    (v >>> 24).setWidth 8 ++ (v >>> 16).setWidth 8 ++ (v >>> 8).setWidth 8 ++ v.setWidth 8 = v := by
  apply BitVec.eq_of_getLsbD_eq
  intro i inside
  simp only [BitVec.getLsbD_append, BitVec.getLsbD_setWidth, BitVec.getLsbD_ushiftRight]
  by_cases first : i < 8
  · simp [first]
  by_cases second : i < 16
  · simp [first, show i - 8 < 8 by omega, show 8 + (i - 8) = i by omega]
  by_cases third : i < 24
  · simp [first, show ¬ i - 8 < 8 by omega, show i - 8 - 8 < 8 by omega, show 16 + (i - 8 - 8) = i by omega]
  · simp [first, show ¬ i - 8 < 8 by omega, show ¬ i - 8 - 8 < 8 by omega, show i - 8 - 8 - 8 < 8 by omega,
      show 24 + (i - 8 - 8 - 8) = i by omega]

section
variable {types : Types} {root : Option Addr} {graph : Graph types root} {base : Nat}

/-! ## Values without pointers -/

theorem integer_codec {w : Nat} (some : 0 < w) (word : w ≤ 32) (signed : Bool) (v : BitVec w) :
    (graphLink graph base).Codec (fun _ => True) (writeVarIntger signed v) (fun _ => readVarInteger signed w)
      fun _ _ r => r = v := by
  apply plain (varInteger (if signed then zigZagEncode v else v)) (fun _ => rfl)
  intro _ m _ tail _ _ input _
  have fits : ∀ u : BitVec w, u.toNat < 2 ^ 32 :=
    fun u => Nat.lt_of_lt_of_le u.isLt (Nat.pow_le_pow_right (by decide) word)
  rw [readVarInteger_eq some (fits _) input]
  cases signed with
  | false => rfl
  | true => rw [if_pos rfl, if_pos rfl, zigZagDecode_zigZagEncode]

theorem string_codec (data : List UInt8) : (graphLink graph base).Codec (fun _ => True) (writeString data)
    (fun _ => readString) fun _ _ r => r = data := by
  apply plain (sizeBytes data.length ++ data)
  · intro m
    exact congrArg (EStateM.Result.ok ()) (appended_appended m _ data)
  · intro few m _ tail unlimited behind input _
    rw [List.length_append] at few
    rw [List.append_assoc] at input
    have length := readLength_eq (-16) (-17) unlimited behind (Nat.le_refl _) (by omega) input
    have content := readFixed_eq .invalid (inside_of_unread input behind) (unread_advanced input)
    rw [advanced_advanced, ← List.length_append] at content
    exact bind_run length content

theorem bbuffer_codec (data : List UInt8) : (graphLink graph base).Codec (fun _ => True)
    (do writeSize data.length; append data) (fun _ => readBuffer) fun _ _ r => r = data := by
  apply plain (sizeBytes data.length ++ data)
  · intro m
    exact congrArg (EStateM.Result.ok ()) (appended_appended m _ data)
  · intro few m _ tail unlimited behind input _
    rw [List.length_append] at few
    rw [List.append_assoc] at input
    have room := inside_of_unread input behind
    have length := checkEnd_eq (-11) room (Nat.le_refl _) (unread_advanced input)
    have content := readFixed_eq .invalid room (unread_advanced input)
    rw [advanced_advanced, ← List.length_append] at content
    exact bind_run (readSize_eq (by omega) input) (bind_run length content)

/-- The same value, as far as objects have been copied. -/
abbrev AlikeValue (heap : List (Option Object)) (log : List Copied) (type : FieldType) : type.Value → type.Value → Prop :=
  SameValue (SamePtr (Paired log)) (fun v r => SamePtr (Paired log) (lock heap v) r) type

/-! ## What is written -/

/-- At least one byte is written. -/
def Extends (s s' : Memory) : Prop := s.bb.buf <+: s'.bb.buf ∧ s.bb.buf.length < s'.bb.buf.length

theorem append_longer {bytes : List UInt8} {s s' : Memory} {u : Unit} (ran : append bytes s = .ok u s') :
    s.bb.buf <+: s'.bb.buf := by
  cases ran
  exact List.prefix_append _ _

theorem append_extends {bytes : List UInt8} (some : 0 < bytes.length) {s s' : Memory} {u : Unit}
    (ran : append bytes s = .ok u s') : Extends s s' := by
  refine ⟨append_longer ran, ?_⟩
  cases ran
  change s.bb.buf.length < (s.bb.buf ++ bytes).length
  rw [List.length_append]
  omega

theorem Extends.further {s s₁ s' : Memory} (first : Extends s s₁) (rest : s₁.bb.buf <+: s'.bb.buf) : Extends s s' :=
  ⟨first.1.trans rest, Nat.lt_of_lt_of_le first.2 rest.length_le⟩

theorem writeString_extends {data : List UInt8} {s s' : Memory} {u : Unit} (ran : writeString data s = .ok u s') :
    Extends s s' := by
  obtain ⟨_, s₁, first, rest⟩ := bind_ok ran
  exact (append_extends (varInteger_pos _) first).further (append_longer rest)

/-- What `WriteTo` does for a `weak_ptr`. -/
theorem writeWeak_some {write : Option Addr → Run Unit} {T : PtrType} {v : Option Addr} {m : Memory} {p : Addr}
    (locked : lock m.heap v = some p) : writeValue write (.weak T) v m = write (some p) m := by
  apply bind_run rfl
  rw [locked]

theorem writeWeak_none {write : Option Addr → Run Unit} {T : PtrType} {v : Option Addr} {m : Memory}
    (expired : lock m.heap v = none) : writeValue write (.weak T) v m = writeUInt16 0 m := by
  apply bind_run rfl
  rw [expired]

section
variable {write : Option Addr → Run Unit} (extend : ∀ v s u s', write v s = .ok u s' → Extends s s')
include extend

theorem writeValue_extends {type : FieldType} {x : type.Value} {s s' : Memory} {u : Unit}
    (ran : writeValue write type x s = .ok u s') : Extends s s' := by
  cases type with
  | bool | int8 | uint8 => exact append_extends (List.length_pos_of_ne_nil (List.cons_ne_nil _ _)) ran
  | int16 | uint16 | int32 | uint32 => exact append_extends (varInteger_pos _) ran
  | float => exact append_extends (List.length_pos_of_ne_nil (List.cons_ne_nil _ _)) ran
  | string => exact writeString_extends ran
  | shared T => exact extend x s u s' ran
  | weak T =>
    cases locked : lock s.heap x with
    | none =>
      rw [writeWeak_none locked] at ran
      exact append_extends (varInteger_pos _) ran
    | some p =>
      rw [writeWeak_some locked] at ran
      exact extend _ _ _ _ ran

theorem toBBuffer_longer {object : Object} {s s' : Memory} {u : Unit} (ran : toBBuffer write object s = .ok u s') :
    s.bb.buf <+: s'.bb.buf := by
  have all : ∀ {α : Type} {each : α → Run Unit}, (∀ x s u s', each x s = .ok u s' → Extends s s') →
      ∀ (items : List α) {s s' u}, items.forM each s = .ok u s' → s.bb.buf <+: s'.bb.buf :=
    fun every items => forM_trans (R := fun s s' : Memory => s.bb.buf <+: s'.bb.buf) (fun _ => List.prefix_rfl)
      (fun one two => one.trans two) (fun x s u s' ran => (every x s u s' ran).1) items
  cases object with
  | string data | bbuffer data => exact (writeString_extends ran).1
  | list type items =>
    obtain ⟨_, s₁, first, rest⟩ := bind_ok ran
    exact (append_longer first).trans (all (fun _ _ _ _ => writeValue_extends extend) items rest)
  | user type cells => exact all (fun _ _ _ _ => writeValue_extends extend) cells ran

end

/-! ## Pointers -/

/-- What objects need to know about the pointers in them. -/
structure Pointers {root : Option Addr} (graph : Graph types root) (base : Nat) (write : Option Addr → Run Unit)
    (read : Nat → PtrType → Run (Option Addr)) : Prop where
  codec : ∀ T v, (∀ a, v = some a → Reaches (Points graph.heap) root a) → Has types graph.heap T v →
    (graphLink graph base).Codec (fun _ => True) (write v) (fun fuel => read fuel T)
      fun w _ r => SamePtr (Paired w.log) v r
  null : ∀ T fuel m tail, 0 < fuel → m.unread = 0 :: tail → read fuel T m = .ok none (m.advanced 1)
  appends : ∀ v s u s', write v s = .ok u s' → Extends s s'

/-- Only the objects of the graph matter, but what is written may be looked at anywhere. -/
theorem on_graph {α : Type} {Before : Worlds → Prop} {write write' : Run Unit} {read : Nat → Run α}
    {After : Worlds → Unit → α → Prop} (longer : ∀ s u s', write s = .ok u s' → s.bb.buf <+: s'.bb.buf)
    (same : ∀ s, s.heap = graph.heap → write s = write' s)
    (codec : (graphLink graph base).Codec Before write' read After) :
    (graphLink graph base).Codec Before write read After := by
  intro s u s' ran
  by_cases here : s.heap = graph.heap
  · exact codec s u s' ((same s here).symm.trans ran)
  · obtain ⟨bytes, written⟩ := longer s u s' ran
    exact ⟨bytes, written.symm, fun _ _ _ _ _ agree => absurd agree.source here⟩

instance (type : FieldType) : Nonempty type.Value := ⟨type.zero⟩

instance : Nonempty Cell := ⟨⟨.string, []⟩⟩

theorem stable_value (type : FieldType) (x y : type.Value) :
    (graphLink graph base).Stable fun w => AlikeValue graph.heap w.log type x y := by
  intro v w grows same
  exact same.imp (fun _ _ _ => SamePtr.mono (Grows.paired grows)) fun _ _ => SamePtr.mono (Grows.paired grows)

theorem stable_cell (c d : Cell) : (graphLink graph base).Stable fun w =>
    SameCell (SamePtr (Paired w.log)) (fun v r => SamePtr (Paired w.log) (lock graph.heap v) r) c d := by
  rintro v w grows ⟨same⟩
  exact .cell (stable_value _ _ _ v w grows same)

section
variable {write : Option Addr → Run Unit} {read : Nat → PtrType → Run (Option Addr)}
  (pointers : Pointers graph base write read)
include pointers

/-- A value of a member, or an element. -/
theorem Pointers.value (short : Fault) (type : FieldType) (x : type.Value)
    (reached : ∀ a ∈ Cell.links graph.heap ⟨type, x⟩, Reaches (Points graph.heap) root a)
    (typed : Cell.Typed types graph.heap ⟨type, x⟩) :
    (graphLink graph base).Codec (fun _ => True) (writeValue write type x) (fun fuel => readValue short (read fuel) type)
      fun w _ r => AlikeValue graph.heap w.log type x r := by
  have equal : ∀ {α : Type} {read : Nat → Run α} {write : Run Unit} {x : α},
      (graphLink graph base).Codec (fun _ => True) write read (fun _ _ r => r = x) →
      (graphLink graph base).Codec (fun _ => True) write read (fun _ _ r => x = r) :=
    fun codec => codec.imp (fun _ _ => trivial) fun _ _ _ same => same.symm
  cases type with
  | bool =>
    apply equal
    apply plain [boolByte x] (fun _ => rfl)
    intro _ m _ tail _ behind input _
    have fixed : readFixed short 1 m = _ := readFixed_eq short behind input
    apply bind_run fixed
    cases (x : Bool) <;> rfl
  | int8 | uint8 =>
    apply equal
    apply plain [⟨x⟩] (fun _ => rfl)
    intro _ m _ tail _ behind input _
    have fixed : readFixed short 1 m = _ := readFixed_eq short behind input
    exact bind_run fixed rfl
  | int16 | uint16 => exact equal (integer_codec (by decide) (by decide) _ x)
  | int32 | uint32 => exact equal (integer_codec (by decide) (by decide) _ x)
  | float =>
    apply equal
    apply plain (floatBytes x) (fun _ => rfl)
    intro _ m _ tail _ behind input _
    have fixed : readFixed short 4 m = _ := readFixed_eq short behind input
    apply bind_run fixed
    exact congrArg (EStateM.Result.ok · _) (floatBytes_eq x)
  | string => exact equal (string_codec x)
  | shared T => exact pointers.codec T x (fun a here => reached a (Option.mem_toList.mpr here)) typed
  | weak T =>
    have longer : ∀ s u s', writeValue write (.weak T) x s = .ok u s' → s.bb.buf <+: s'.bb.buf :=
      fun s u s' ran => (writeValue_extends pointers.appends ran).1
    cases locked : lock graph.heap x with
    | none =>
      have null : (graphLink graph base).Codec (fun _ => True) (writeUInt16 0) (fun fuel => read fuel T)
          fun w _ r => AlikeValue graph.heap w.log (.weak T) x r := by
        have codec : (graphLink graph base).Codec (fun _ => True) (writeUInt16 0) (fun fuel => read fuel T)
            fun _ _ r => r = none :=
          plain [0] (fun _ => rfl) fun _ m fuel tail _ _ input enough => pointers.null T fuel m tail enough input
        apply codec.imp fun _ _ => trivial
        rintro w _ r rfl
        change SamePtr (Paired w.log) (lock graph.heap x) none
        rw [locked]
        exact .null
      exact on_graph longer (fun s here => writeWeak_none (here ▸ locked)) null
    | some p =>
      have codec := pointers.codec T (some p) (fun a here => reached a ?_) (locked ▸ typed)
      · refine on_graph longer (fun s here => writeWeak_some (here ▸ locked)) (codec.imp (fun _ _ => trivial) ?_)
        intro w _ r same
        change SamePtr (Paired w.log) (lock graph.heap x) r
        rw [locked]
        exact same
      · change a ∈ (lock graph.heap x).toList
        rw [locked]
        exact Option.mem_toList.mpr here

/-- A list: the number of its elements, and the elements. -/
theorem Pointers.list (type : FieldType) (items : List type.Value)
    (reached : ∀ x ∈ items, ∀ a ∈ Cell.links graph.heap ⟨type, x⟩, Reaches (Points graph.heap) root a)
    (typed : ∀ x ∈ items, Cell.Typed types graph.heap ⟨type, x⟩) :
    (graphLink graph base).Codec (fun _ => True) (do writeSize items.length; items.forM (writeValue write type))
      (fun fuel => do return .list type (← collect (readValue .invalid (read fuel) type) (← readLength (-1) (-2))))
      fun w _ z => Alike graph.heap w.log (.list type items) z := by
  intro s u s' ran
  obtain ⟨_, s₁, first, rest⟩ := bind_ok ran
  cases first
  have count := forM_size (fun x s u s' ran => (writeValue_extends pointers.appends (x := x) ran).2) items rest
  have each : ∀ x ∈ items, (graphLink graph base).Codec (fun _ => True) (writeValue write type x)
      (fun fuel => readValue .invalid (read fuel) type) fun w _ y => AlikeValue graph.heap w.log type x y :=
    fun x member => pointers.value .invalid type x (reached x member) (typed x member)
  have elements := Link.Codec.forM items (Link.Stable.fixed True) (stable_value type) each
  obtain ⟨bytes, written, reads⟩ := elements _ _ _ rest
  have written : s'.bb.buf = s.bb.buf ++ sizeBytes items.length ++ bytes := written
  refine ⟨sizeBytes items.length ++ bytes, by rw [← List.append_assoc]; exact written, ?_⟩
  intro short t log fuel tail agree _ input enough
  rw [List.append_assoc] at input
  rw [List.length_append] at enough
  have few : items.length ≤ bytes.length := by
    have count : (s.bb.buf ++ sizeBytes items.length).length + items.length ≤ s'.bb.buf.length := count
    have total := congrArg List.length written
    rw [List.length_append] at total
    omega
  have fits : items.length < 2 ^ 32 := by
    have short : s'.bb.buf.length < 2 ^ 32 := short
    rw [written, List.length_append] at short
    omega
  have length := readLength_eq (-1) (-2) agree.placed.unlimited agree.placed.behind few fits input
  obtain ⟨ys, t', log', read, rest', agree', grows, same⟩ :=
    reads short _ log fuel tail (agree.advance input) trivial (unread_advanced input) (by omega)
  exact ⟨.list type ys, t', log', bind_run length (bind_run read rfl), rest', agree', (Grows.advance _).trans grows,
    .list type same⟩

/-- The content of an object that was reached. -/
theorem Pointers.body (object : Object) (valid : object.Valid types graph.heap)
    (reached : ∀ c ∈ object.cells, ∀ a ∈ c.links graph.heap, Reaches (Points graph.heap) root a) :
    (graphLink graph base).Codec (fun _ => True) (toBBuffer write object)
      (fun fuel => fromBBuffer types (read fuel) object.class) fun w _ z => Alike graph.heap w.log object z := by
  cases object with
  | string data =>
    apply (string_codec data).inspect
    rintro w _ r _ rfl
    exact ⟨_, rfl, .string r⟩
  | bbuffer data =>
    apply (bbuffer_codec data).inspect
    rintro w _ r _ rfl
    exact ⟨_, rfl, .bbuffer r⟩
  | list type items =>
    have cell : ∀ x ∈ items, (⟨type, x⟩ : Cell) ∈ (Object.list type items).cells := fun x member =>
      List.mem_map_of_mem member
    exact pointers.list type items (fun x member => reached _ (cell x member)) fun x member =>
      valid.typed _ (cell x member)
  | user type cells =>
    have each : ∀ c ∈ cells, (graphLink graph base).Codec (fun _ => True) (writeCell write c)
        (fun fuel => readCell (read fuel) c.1) fun w _ d =>
          SameCell (SamePtr (Paired w.log)) (fun v r => SamePtr (Paired w.log) (lock graph.heap v) r) c d := by
      intro c member
      apply (pointers.value (.code (-12)) c.1 c.2 (reached c member) (valid.typed c member)).inspect
      intro w _ r _ same
      exact ⟨⟨c.1, r⟩, rfl, .cell same⟩
    have members := Link.Codec.forM_each cells (Link.Stable.fixed True) stable_cell each
    have fields : ∀ fuel, cells.map (fun c => readCell (read fuel) c.1) =
        (types.fields type).map (readCell (read fuel)) := by
      intro fuel
      rw [← valid.members type cells rfl, List.map_map]
      rfl
    simp only [fields] at members
    apply members.inspect
    intro w _ ys _ same
    exact ⟨.user type ys, rfl, .user type same⟩

end

end

end Xxlib.Uv3
