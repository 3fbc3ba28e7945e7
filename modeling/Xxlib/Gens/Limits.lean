import Xxlib.Gens.LimitCodec
import Xxlib.Lib.Traversal

/-! A message is read back exactly if every length in it is within the limit that happens to be set.

`readLengthLimit` is set in front of a container field and stays until the next one: it holds for what is nested in the
container, and for the objects behind other fields.
-/

set_option autoImplicit false

namespace Xxlib.Gens.Messages

open Lib
open Interop (IntType)
open Uv3 (Addr PtrType Fault)

/-! ## Pointers that are written -/

/-- The store when the content of an object comes to be written. -/
def Store.opened (s : Store) (addr : Addr) (typeId : UInt16) : Store := { s with bb := (s.core.opened addr typeId).bb }

section
variable {schema : Schema} {s : Store} {fuel : Nat} {addr : Addr} {x : Object}

theorem load_found (found : Lives s.heap addr x) : load addr s = .ok x s := by
  unfold load
  rw [found]

theorem writePtr_known {offs : Nat} (found : Lives s.heap addr x) (known : s.bb.ptrs addr = some offs) :
    writePtr schema (fuel + 1) (some addr) s =
      .ok () (s.appended (Uv3.headBytes (schema.types.typeId x.class) offs)) := by
  apply bind_run (load_found found)
  apply bind_run (onBuffer_appended (fun _ => rfl) s)
  apply bind_run rfl
  simp only [Store.appended, Store.core, Uv3.Memory.appended, known]
  refine (onBuffer_appended (fun _ => rfl) _).trans ?_
  simp [Store.appended, Store.core, Uv3.Memory.appended, Uv3.headBytes]

theorem writePtr_new (found : Lives s.heap addr x) (unknown : s.bb.ptrs addr = none) :
    writePtr schema (fuel + 1) (some addr) s =
      toBBuffer schema (writePtr schema fuel) x (s.opened addr (schema.types.typeId x.class)) := by
  apply bind_run (load_found found)
  apply bind_run (onBuffer_appended (fun _ => rfl) s)
  apply bind_run rfl
  simp only [Store.appended, Store.core, Uv3.Memory.appended, unknown]
  apply bind_run rfl
  apply bind_run (onBuffer_appended (fun _ => rfl) _)
  simp [Store.opened, Store.appended, Store.core, Uv3.Memory.opened, Uv3.Memory.appended, Uv3.Memory.nextOffset,
    Uv3.headBytes]

end

/-! ## Pointers that are read -/

section
variable {schema : Schema} {t : Store} {offs fuel : Nat} {tail : List UInt8} {T : PtrType} {C : Uv3.Class}

theorem readPtr_null (input : t.unread = 0 :: tail) :
    readPtr schema (fuel + 1) T t = .ok none (t.advanced 1) := by
  have read : Uv3.readUInt16 t.core = .ok 0 (t.core.advanced 1) := Uv3.readUInt16_eq input
  exact bind_run (onBuffer_advanced read) rfl

theorem readKnown_eq {p : Addr} {y : Object} (fits : schema.types.Fits T C)
    (known : Uv3.find (t.bb.idxs C) offs = some p) (found : Lives t.heap p y) (same : y.class = C) :
    readKnown schema (schema.types.typeId C) offs T t = .ok (some p) t := by
  cases T with
  | string =>
    obtain rfl : C = .string := fits
    have known : Uv3.find t.bb.strIdxs offs = some p := known
    simp only [readKnown, known]
  | object type =>
    have known : Uv3.find t.bb.objIdxs offs = some p := by
      rwa [Uv3.BBuffer.idxs, if_neg fits.1] at known
    have derived : schema.derives y.class type = true := same ▸ fits.2
    simp only [readKnown, known, load_found found, derived, if_true]
    rw [if_neg (by rw [same]; exact fun other => other rfl)]

/-- What comes behind the type id and the offset. -/
theorem readPtr_head (registered : schema.types.Registered C) (fits : schema.types.Fits T C)
    (input : t.unread = Uv3.headBytes (schema.types.typeId C) offs ++ tail) (small : offs < 2 ^ 32) :
    readPtr schema (fuel + 1) T t =
      (if offs = t.bb.offset + (Uv3.varInteger (schema.types.typeId C).toBitVec).length - t.bb.offsetRoot then
          readNew schema (readPtr schema fuel) offs C
        else readKnown schema (schema.types.typeId C) offs T)
      (t.advanced (Uv3.headBytes (schema.types.typeId C) offs).length) := by
  obtain ⟨id, size⟩ := Uv3.head_reads input small
  apply bind_run (onBuffer_advanced id)
  rw [if_neg registered.pos]
  simp only [Uv3.refused_eq registered fits]
  apply bind_run rfl
  apply bind_run (onBuffer_ok (s := t.advanced _) size)
  simp only [Uv3.createFor_eq registered fits]
  rfl

end

/-! ## Maps -/

section
variable {bb : Uv3.BBuffer} {offs k : Nat} {C D : Uv3.Class} {p : Addr}

theorem entered_rest (bb : Uv3.BBuffer) (offs : Nat) (C : Uv3.Class) (p : Addr) :
    (entered bb offs C p).buf = bb.buf ∧ (entered bb offs C p).offset = bb.offset ∧
      (entered bb offs C p).offsetRoot = bb.offsetRoot ∧
      (entered bb offs C p).readLengthLimit = bb.readLengthLimit := by
  unfold entered
  split <;> exact ⟨rfl, rfl, rfl, rfl⟩

variable (fresh : ∀ entry ∈ bb.objIdxs ++ bb.strIdxs, entry.1 ≠ offs)
include fresh

theorem entered_found : Uv3.find ((entered bb offs C p).idxs C) offs = some p := by
  unfold entered Uv3.BBuffer.idxs
  split
  · rw [Uv3.insert_fresh fun entry member => fresh entry (List.mem_append_right _ member)]
    exact Uv3.find_cons_self
  · rw [Uv3.insert_fresh fun entry member => fresh entry (List.mem_append_left _ member)]
    exact Uv3.find_cons_self

theorem entered_kept (other : offs ≠ k) :
    Uv3.find ((entered bb offs C p).idxs D) k = Uv3.find (bb.idxs D) k := by
  unfold entered Uv3.BBuffer.idxs
  rw [Uv3.insert_fresh fun entry member => fresh entry (List.mem_append_right _ member),
    Uv3.insert_fresh fun entry member => fresh entry (List.mem_append_left _ member)]
  by_cases first : C = .string <;> by_cases second : D = .string <;>
    simp only [first, second, if_true, if_false, Uv3.find_cons_ne other]

theorem entered_listed {entry : Nat × Addr}
    (member : entry ∈ (entered bb offs C p).objIdxs ++ (entered bb offs C p).strIdxs) :
    entry = (offs, p) ∨ entry ∈ bb.objIdxs ++ bb.strIdxs := by
  unfold entered at member
  rw [Uv3.insert_fresh fun entry member => fresh entry (List.mem_append_right _ member),
    Uv3.insert_fresh fun entry member => fresh entry (List.mem_append_left _ member)] at member
  by_cases string : C = .string <;>
    simp only [string, if_true, if_false, List.mem_append, List.mem_cons] at member ⊢ <;> tauto

end

/-! ## While an object is read -/

section
variable {schema : Schema} {heap : List (Option Object)} {s t s' t' : Store} {trail trail' : Trail} {addr : Addr}
  {x z : Object} {offs count : Nat} {tail : List UInt8}

theorem make_class (schema : Schema) (x : Object) : (schema.make x.class).class = x.class := by
  cases x with
  | string data | bbuffer data => rfl
  -- the class is the number of the type, whatever stands behind it
  | list type items | generated type member =>
    simp only [Object.class, Schema.make]
    cases schema.shape type <;> rfl

/-- An object that is read has the class it was made for. -/
theorem fromBBuffer_class {read : PtrType → Run (Option Addr)}
    (ran : fromBBuffer schema read x.class t = .ok z t') : z.class = x.class := by
  cases x with
  | string data | bbuffer data =>
    obtain ⟨_, _, -, last⟩ := bind_ok ran
    cases last
    rfl
  | list type items | generated type member =>
    simp only [Object.class, fromBBuffer] at ran
    cases shape : schema.shape type with
    | list item =>
      simp only [shape] at ran
      obtain ⟨_, _, -, ran⟩ := bind_ok ran
      obtain ⟨_, _, -, last⟩ := bind_ok ran
      cases last
      rfl
    | generated c =>
      simp only [shape] at ran
      obtain ⟨_, _, -, last⟩ := bind_ok ran
      cases last
      rfl

/-- Offsets count from the root. -/
theorem nextOffset_add (id : UInt16) (start : s.bb.offsetRoot ≤ s.bb.buf.length) :
    s.bb.offsetRoot + s.core.nextOffset id = s.bb.buf.length + (Uv3.varInteger id.toBitVec).length := by
  simp only [Uv3.Memory.nextOffset, Store.core]
  omega

/-- A new object is entered. -/
theorem Agree.opened {id : UInt16} (agree : Agree heap ⟨s, t, trail⟩) (found : Lives heap addr x)
    (unknown : s.bb.ptrs addr = none) (next : offs = s.core.nextOffset id)
    (input : t.unread = Uv3.headBytes id offs ++ tail) :
    Agree heap ⟨s.opened addr id, (t.advanced (Uv3.headBytes id offs).length).published schema offs x.class,
      ⟨addr :: trail.met, trail.limit⟩⟩ := by
  have ahead := agree.advance input
  have start : s.bb.offsetRoot ≤ s.bb.buf.length := agree.start
  have place : t.bb.offset = t.bb.offsetRoot + (s.bb.buf.length - s.bb.offsetRoot) := agree.place
  have size : 0 < (Uv3.sizeBytes offs).length := Uv3.varInteger_pos _
  have head : (Uv3.headBytes id offs).length = (Uv3.varInteger id.toBitVec).length + (Uv3.sizeBytes offs).length :=
    List.length_append
  -- the offset lies behind all that were given out, and before what comes next
  have here : s.bb.offsetRoot + offs = s.bb.buf.length + (Uv3.varInteger id.toBitVec).length := by
    rw [next]
    exact nextOffset_add id start
  have fresh : ∀ entry ∈ t.bb.objIdxs ++ t.bb.strIdxs, entry.1 ≠ offs := by
    intro entry member same
    have listed : t.bb.offsetRoot + entry.1 < t.bb.offset := agree.listed entry member
    omega
  have buf : (s.opened addr id).bb.buf = (s.appended (Uv3.headBytes id offs)).bb.buf := by rw [next]; rfl
  obtain ⟨-, offset, offsetRoot, limit⟩ :=
    entered_rest (t.advanced (Uv3.headBytes id offs).length).bb offs x.class
      (t.advanced (Uv3.headBytes id offs).length).heap.length
  have fresh' : ∀ entry ∈ (t.advanced (Uv3.headBytes id offs).length).bb.objIdxs ++
      (t.advanced (Uv3.headBytes id offs).length).bb.strIdxs, entry.1 ≠ offs := fresh
  constructor
  case start =>
    change s.bb.offsetRoot ≤ (s.opened addr id).bb.buf.length
    rw [buf]
    exact ahead.start
  case place =>
    change (entered _ _ _ _).offset =
      (entered _ _ _ _).offsetRoot + ((s.opened addr id).bb.buf.length - s.bb.offsetRoot)
    rw [offset, offsetRoot, buf]
    exact ahead.place
  case behind =>
    change (entered _ _ _ _).offset ≤ (entered _ _ _ _).buf.length
    rw [offset, (entered_rest _ _ _ _).1]
    exact ahead.behind
  case limited => exact limit.trans agree.limited
  case met =>
    intro a
    change a ∈ addr :: trail.met ↔ Function.update s.bb.ptrs addr (some (s.core.nextOffset id)) a ≠ none
    by_cases same : a = addr
    · subst same
      simp
    · rw [Function.update_of_ne same, List.mem_cons, or_iff_right same]
      exact agree.met a
  case known =>
    intro a k known
    change s.bb.offsetRoot + k < (s.opened addr id).bb.buf.length ∧ _
    have known : Function.update s.bb.ptrs addr (some (s.core.nextOffset id)) a = some k := known
    have longer : (s.opened addr id).bb.buf.length = s.bb.buf.length + (Uv3.headBytes id offs).length := by
      rw [buf]
      exact List.length_append
    by_cases same : a = addr
    · subst same
      rw [Function.update_self, ← next] at known
      obtain rfl := Option.some.inj known
      exact ⟨by omega, x, t.heap.length, schema.make x.class, found, entered_found fresh', List.getElem?_concat_length,
        make_class schema x⟩
    · rw [Function.update_of_ne same] at known
      obtain ⟨passed, z, p, y, source, listed, copy, class'⟩ := agree.known a k known
      have passed : s.bb.offsetRoot + k < s.bb.buf.length := passed
      exact ⟨by omega, z, p, y, source, (entered_kept fresh' (by omega)).trans listed, getElem?_append_of_some copy, class'⟩
  case listed =>
    intro entry member
    change (entered _ _ _ _).offsetRoot + entry.1 < (entered _ _ _ _).offset
    rw [offset, offsetRoot]
    rcases entered_listed fresh' member with rfl | old
    · change t.bb.offsetRoot + offs < t.bb.offset + (Uv3.headBytes id offs).length
      omega
    · exact ahead.listed entry old

/-- The content of an object has been read. -/
theorem Agree.closed {p : Addr} (agree : Agree heap ⟨s, t, trail⟩) {y : Object} (alive : Lives t.heap p y)
    (same : z.class = y.class) : Agree heap ⟨s, { t with heap := t.heap.set p (some z) }, trail⟩ := by
  refine ⟨agree.start, agree.place, agree.behind, agree.limited, agree.met, fun a k known => ?_, agree.listed⟩
  obtain ⟨passed, x, q, o, source, listed, copy, class'⟩ := agree.known a k known
  refine ⟨passed, x, q, ?_⟩
  by_cases here : q = p
  · subst here
    cases alive.symm.trans copy
    exact ⟨z, source, listed, List.getElem?_set_self (List.getElem?_eq_some_iff.mp copy).1, same.trans class'⟩
  · exact ⟨o, source, listed, (List.getElem?_set_ne (Ne.symm here)).trans copy, class'⟩

end

/-! ## The recursion -/

section
variable {schema : Schema} {heap : List (Option Object)} {t t' : Store} {trail : Trail} {fuel offs : Nat} {addr : Addr}
  {x : Object} {C : Uv3.Class}

theorem published_unread : (t.published schema offs C).unread = t.unread := by
  obtain ⟨buf, offset, -⟩ := entered_rest t.bb offs C t.heap.length
  change (entered _ _ _ _).buf.drop (entered _ _ _ _).offset = t.bb.buf.drop t.bb.offset
  rw [buf, offset]

theorem guard_met (member : addr ∈ trail.met) :
    Visit.guard (visitPtr schema heap (fuel + 1) (some addr)) trail = some trail := by
  simp [Visit.guard, visitPtr, member, judge]

theorem guard_unmet (unmet : addr ∉ trail.met) (found : Lives heap addr x) :
    Visit.guard (visitPtr schema heap (fuel + 1) (some addr)) trail =
      Visit.guard (visitObject heap (visitPtr schema heap fuel) schema x) ⟨addr :: trail.met, trail.limit⟩ := by
  have found : heap[addr]? = some (some x) := found
  simp only [Visit.guard, visitPtr, if_neg unmet, found]

theorem null_follows (depth : Nat) (T : PtrType) : Follows heap 1 (visitPtr schema heap depth none)
    (onBuffer (Uv3.writeUInt16 0)) fun fuel => readPtr schema fuel T := by
  have nothing : visitPtr schema heap depth none = .marks [] := by cases depth <;> rfl
  rw [nothing]
  refine follows_plain [0] (Nat.le_refl 1) (onBuffer_appended fun _ => rfl) fun _ t k tail _ input deep => ?_
  obtain ⟨k, rfl⟩ : ∃ before, k = before + 1 := ⟨k - 1, (Nat.sub_add_cancel deep).symm⟩
  exact ⟨none, readPtr_null input⟩

/-- From the pointer on, objects stay. -/
theorem Grows.closed {s s' : Store} {trail' : Trail} {count : Nat} {z : Object}
    (grows : Grows ⟨s, (t.advanced count).published schema offs C, trail⟩ ⟨s', t', trail'⟩) (s₀ : Store)
    (trail₀ : Trail) :
    Grows ⟨s₀, t, trail₀⟩ ⟨s', { t' with heap := t'.heap.set t.heap.length (some z) }, trail'⟩ := by
  constructor
  case classes =>
    intro b y alive
    obtain ⟨o, alive', same⟩ := grows.classes b y (getElem?_append_of_some alive)
    have other : t.heap.length ≠ b := Nat.ne_of_gt (List.getElem?_eq_some_iff.mp alive).1
    exact ⟨o, (List.getElem?_set_ne other).trans alive', same⟩
  case start => exact grows.start.trans (entered_rest _ _ _ _).2.2.1

end

section
variable {schema : Schema} {heap : List (Option Object)} {s s' t : Store} {trail : Trail} {fuel k offs : Nat}
  {addr : Addr} {x : Object} {T : PtrType} {bytes tail : List UInt8}

/-- A pointer to an object that was written before is always read. -/
theorem Agree.read_known (agree : Agree heap ⟨s, t, trail⟩) (found : Lives heap addr x)
    (registered : schema.types.Registered x.class) (fits : schema.types.Fits T x.class)
    (known : s.bb.ptrs addr = some offs) (small : offs < 2 ^ 32)
    (input : t.unread = Uv3.headBytes (schema.types.typeId x.class) offs ++ tail) :
    (limitLink heap).Outcome ⟨s, t, trail⟩ (s.appended (Uv3.headBytes (schema.types.typeId x.class) offs)) tail
      (Visit.guard (visitPtr schema heap (fuel + 1) (some addr)) trail) (readPtr schema (k + 1) T t) := by
  have member : addr ∈ trail.met := (agree.met addr).mpr fun missing => nomatch missing.symm.trans known
  obtain ⟨passed, z, p, y, source, listed, copy, same⟩ := agree.known addr offs known
  cases found.symm.trans source
  have passed : s.bb.offsetRoot + offs < s.bb.buf.length := passed
  have place : t.bb.offset = t.bb.offsetRoot + (s.bb.buf.length - s.bb.offsetRoot) := agree.place
  -- an offset that was given out lies before this place
  have back : offs ≠ t.bb.offset + (Uv3.varInteger (schema.types.typeId x.class).toBitVec).length -
      t.bb.offsetRoot := by omega
  have head : readPtr schema (k + 1) T t = _ := readPtr_head registered fits input small
  rw [if_neg back] at head
  have read := readKnown_eq (t := t.advanced (Uv3.headBytes (schema.types.typeId x.class) offs).length) fits listed copy
    same
  exact .accepted (guard_met member) (head.trans read) (Uv3.unread_advanced input) (agree.advance input)
    (Grows.advance _)

/-- A pointer to a new object is read if its content is. -/
theorem Agree.read_new (agree : Agree heap ⟨s, t, trail⟩) (found : Lives heap addr x)
    (registered : schema.types.Registered x.class) (fits : schema.types.Fits T x.class)
    (unknown : s.bb.ptrs addr = none) (next : offs = s.core.nextOffset (schema.types.typeId x.class))
    (small : offs < 2 ^ 32) (input : t.unread = Uv3.headBytes (schema.types.typeId x.class) offs ++ bytes)
    (content : (limitLink heap).Outcome ⟨s.opened addr (schema.types.typeId x.class),
      (t.advanced (Uv3.headBytes (schema.types.typeId x.class) offs).length).published schema offs x.class,
      ⟨addr :: trail.met, trail.limit⟩⟩ s' tail
      (Visit.guard (visitObject heap (visitPtr schema heap fuel) schema x) ⟨addr :: trail.met, trail.limit⟩)
      (fromBBuffer schema (readPtr schema k) x.class
        ((t.advanced (Uv3.headBytes (schema.types.typeId x.class) offs).length).published schema offs x.class))) :
    (limitLink heap).Outcome ⟨s, t, trail⟩ s' tail
      (Visit.guard (visitPtr schema heap (fuel + 1) (some addr)) trail) (readPtr schema (k + 1) T t) := by
  have unmet : addr ∉ trail.met := fun member => (agree.met addr).mp member unknown
  have start : s.bb.offsetRoot ≤ s.bb.buf.length := agree.start
  have place : t.bb.offset = t.bb.offsetRoot + (s.bb.buf.length - s.bb.offsetRoot) := agree.place
  have counted := nextOffset_add (schema.types.typeId x.class) start
  have here : offs = t.bb.offset + (Uv3.varInteger (schema.types.typeId x.class).toBitVec).length -
      t.bb.offsetRoot := by omega
  have head : readPtr schema (k + 1) T t = _ := readPtr_head registered fits input small
  rw [if_pos here] at head
  rcases content.cases with ⟨decided, fault, t', failed⟩ | ⟨trail', z, t', decided, read, input', agree', grows⟩
  · exact .refused ((guard_unmet unmet found).trans decided) (head.trans (bind_run rfl (bind_error failed)))
  · -- the new object is still where it was made, and gets its content now
    obtain ⟨y, copy, class'⟩ := grows.classes t.heap.length (schema.make x.class) List.getElem?_concat_length
    have same : z.class = y.class := (fromBBuffer_class read).trans (class'.trans (make_class schema x)).symm
    exact .accepted ((guard_unmet unmet found).trans decided)
      (head.trans (bind_run rfl (bind_run read (bind_run rfl rfl)))) input' (agree'.closed copy same)
      (grows.closed s trail)

end

section
variable {schema : Schema} (regular : schema.Regular) (message : Message schema) {fuel : Nat}
include regular

theorem next_follows (pointers : Pointers schema message.heap message.part (visitPtr schema message.heap fuel)
      (writePtr schema fuel) (readPtr schema)) (T : PtrType) (v : Option Addr)
    (leads : Leads schema message.heap message.part T v) :
    Follows message.heap 1 (visitPtr schema message.heap (fuel + 1) v) (writePtr schema (fuel + 1) v) fun k =>
      readPtr schema k T := by
  cases v with
  | none => exact null_follows (fuel + 1) T
  | some addr =>
    obtain ⟨inside, x, found, fits⟩ := leads addr rfl
    have registered := message.registered addr x inside found
    have body := pointers.body regular (message.sound addr x inside found)
    intro s u s' source ran
    have alive : Lives s.heap addr x := by rw [source.heap]; exact found
    have head := Uv3.headBytes_length (schema.types.typeId x.class)
    cases known : s.bb.ptrs addr with
    | some offs =>
      rw [writePtr_known alive known] at ran
      cases ran
      have two := head offs
      refine ⟨source.appended _, Uv3.headBytes (schema.types.typeId x.class) offs, source.message _,
        Nat.le_of_succ_le two, fun short t trail k tail agree input deep => ?_⟩
      obtain ⟨k, rfl⟩ : ∃ before, k = before + 1 := ⟨k - 1, by omega⟩
      have passed : s.bb.offsetRoot + offs < s.bb.buf.length := (agree.known addr offs known).1
      have short : (s.appended (Uv3.headBytes (schema.types.typeId x.class) offs)).message.length < 2 ^ 32 := short
      rw [source.message, List.length_append, Store.message, List.length_drop] at short
      exact agree.read_known found registered fits known (by omega) input
    | none =>
      rw [writePtr_new alive known] at ran
      have source₁ : Source message.heap (s.opened addr (schema.types.typeId x.class)) :=
        ⟨source.heap, (source.appended _).start⟩
      obtain ⟨source', bytes, written, -, reads⟩ := body _ _ _ source₁ ran
      obtain ⟨offs, next⟩ : ∃ offs, offs = s.core.nextOffset (schema.types.typeId x.class) := ⟨_, rfl⟩
      have written : s'.message = s.message ++ (Uv3.headBytes (schema.types.typeId x.class) offs ++ bytes) := by
        rw [← List.append_assoc, ← source.message, next]
        exact written
      have two := head offs
      refine ⟨source', Uv3.headBytes (schema.types.typeId x.class) offs ++ bytes,
        written, by rw [List.length_append]; omega, fun short t trail k tail agree input deep => ?_⟩
      rw [List.append_assoc] at input
      rw [List.length_append] at deep
      obtain ⟨k, rfl⟩ : ∃ before, k = before + 1 := ⟨k - 1, by omega⟩
      have small : offs < 2 ^ 32 := by
        have short : s'.message.length < 2 ^ 32 := short
        rw [written, List.length_append, List.length_append, Uv3.headBytes, List.length_append, Store.message,
          List.length_drop] at short
        have counted := nextOffset_add (schema.types.typeId x.class) source.start
        omega
      have opened : Agree message.heap ⟨_, Store.published _ schema offs x.class, _⟩ :=
        agree.opened found known next input
      have rest : ((t.advanced (Uv3.headBytes (schema.types.typeId x.class) offs).length).published schema offs
          x.class).unread = bytes ++ tail := published_unread.trans (Uv3.unread_advanced input)
      exact agree.read_new found registered fits known next small input
        (reads short _ _ k tail opened rest (by omega))

theorem pointers (fuel : Nat) : Pointers schema message.heap message.part (visitPtr schema message.heap fuel)
    (writePtr schema fuel) (readPtr schema) := by
  induction fuel with
  | zero =>
    -- without fuel nothing is written
    refine ⟨fun T v _ s u s' _ ran => ?_, null_follows 0⟩
    cases ran
  | succ fuel ih => exact ⟨next_follows regular message ih, null_follows (fuel + 1)⟩

end

/-! ## Writing returns -/

/-- A message is written behind the bytes `before`. -/
structure Writing (heap : List (Option Object)) (before : List UInt8) (s : Store) : Prop extends Source heap s where
  root : s.bb.offsetRoot = before.length
  kept : before <+: s.bb.buf

/-- Writing returns, where `depth` objects have not been met. -/
abbrev Returns (heap : List (Option Object)) (before : List UInt8) (depth : Nat) (run : Run Unit) : Prop :=
  Completes (Writing heap before) (fun s => unmetCount heap.length s.bb.ptrs) depth run

section
variable {schema : Schema} {heap : List (Option Object)} {before : List UInt8} {part : Addr → Prop} {depth : Nat}

theorem Writing.appended {s : Store} (writing : Writing heap before s) (bytes : List UInt8) :
    Writing heap before (s.appended bytes) :=
  ⟨writing.toSource.appended bytes, writing.root, writing.kept.trans (List.prefix_append _ _)⟩

theorem Writing.opened {s : Store} (writing : Writing heap before s) (addr : Addr) (id : UInt16) :
    Writing heap before (s.opened addr id) :=
  have head := writing.appended (Uv3.headBytes id (s.core.nextOffset id))
  ⟨⟨writing.heap, head.start⟩, writing.root, head.kept⟩

theorem onBuffer_returns {run : Uv3.Run Unit} (appends : ∃ bytes, ∀ m, run m = .ok () (m.appended bytes)) :
    Returns heap before depth (onBuffer run) := by
  intro s writing _
  obtain ⟨bytes, writes⟩ := appends
  exact ⟨(), s.appended bytes, onBuffer_appended writes s, writing.appended bytes, Nat.le_refl _⟩

theorem cppWrite_appends (type : IntType) (v : type.Value) :
    ∃ bytes, ∀ m, Interop.cppWrite type v m = .ok () (m.appended bytes) := by
  cases type <;> exact ⟨_, fun _ => rfl⟩

theorem writeDouble_appends (v : Float) : ∃ bytes, ∀ m, writeDouble v m = .ok () (m.appended bytes) := by
  have whole : ∃ bytes, ∀ m, (do Uv3.append [4]; Uv3.writeVarIntger true v.toInt32.toBitVec) m =
      .ok () (Uv3.Memory.appended m bytes) :=
    ⟨_, fun m => bind_run rfl (congrArg (EStateM.Result.ok ()) (Uv3.appended_appended m [4] _))⟩
  unfold writeDouble
  iterate 4
    split
    · exact ⟨_, fun _ => rfl⟩
  split
  · exact whole
  · exact ⟨_, fun _ => rfl⟩

theorem writeString_appends (data : List UInt8) : ∃ bytes, ∀ m, Uv3.writeString data m = .ok () (m.appended bytes) :=
  ⟨_, fun m => congrArg (EStateM.Result.ok ()) (Uv3.appended_appended m _ data)⟩

section
variable {write : Option Addr → Run Unit}
  (writes : ∀ T v, Leads schema heap part T v → Returns heap before depth (write v))
include writes

theorem writeWire_returns {cell : Cell} (sound : Cell.Sound schema heap part cell) :
    Returns heap before depth (writeWire write cell.1 cell.2) := by
  obtain ⟨type, v⟩ := cell
  cases type with
  | number type => exact onBuffer_returns (cppWrite_appends type v)
  | float => exact onBuffer_returns ⟨_, fun _ => rfl⟩
  | double => exact onBuffer_returns (writeDouble_appends v)
  | string => exact onBuffer_returns (writeString_appends v)
  | shared T => exact writes T v sound
  | weak T =>
    have sound : Leads schema heap part T (lock heap v) := sound
    intro s writing few
    cases locked : lock heap v with
    | none =>
      have null : Returns heap before depth (onBuffer (Uv3.writeUInt16 0)) := onBuffer_returns ⟨_, fun _ => rfl⟩
      obtain ⟨u, s', ran, rest⟩ := null s writing few
      refine ⟨u, s', bind_run rfl ?_, rest⟩
      rw [writing.heap, locked]
      exact ran
    | some p =>
      obtain ⟨u, s', ran, rest⟩ := writes T (some p) (locked ▸ sound) s writing few
      refine ⟨u, s', bind_run rfl ?_, rest⟩
      rw [writing.heap, locked]
      exact ran

theorem writeValue_returns {layout : Layout} {value : Value} (regular : layout.Regular)
    (sound : Value.Sound schema heap part layout value) : Returns heap before depth (writeValue write value) := by
  induction sound with
  | cell sound => exact writeWire_returns writes sound
  | @struct S layout member _ ih =>
    unfold writeValue
    rw [writeTo_fields regular.1]
    exact .forM fun f inside => ih f inside (regular.2.2 f inside)

theorem toBBuffer_returns (regular : schema.Regular) {x : Object} (sound : x.Sound schema heap part) :
    Returns heap before depth (toBBuffer schema write x) := by
  cases sound with
  | string data | bbuffer data => exact onBuffer_returns (writeString_appends data)
  | @list type items item shape sound =>
    refine (onBuffer_returns ⟨_, fun _ => rfl⟩).bind fun _ => .forM fun v member => ?_
    exact writeValue_returns writes (regular.items type item shape) (sound v member)
  | @generated type member c shape sound =>
    have order : schema.written type = readBack (Class.levels c) := by
      simp only [Schema.written, shape]
      exact written_eq_readBack (regular.classes type c shape)
    change Returns heap before depth ((schema.written type).forM fun f => writeValue write (member f))
    rw [order]
    exact .forM fun f inside => writeValue_returns writes (regular.fields type c shape f inside) (sound f inside)

end

end

theorem writePtr_returns {schema : Schema} (regular : schema.Regular) (message : Message schema) (before : List UInt8)
    (depth : Nat) {T : PtrType} {v : Option Addr} (leads : Leads schema message.heap message.part T v) :
    Returns message.heap before depth (writePtr schema (depth + 1) v) := by
  induction depth using Nat.strong_induction_on generalizing T v with
  | h depth ih =>
    cases v with
    | none => exact onBuffer_returns ⟨_, fun _ => rfl⟩
    | some addr =>
      intro s writing few
      obtain ⟨inside, x, found, -⟩ := leads addr rfl
      have alive : Lives s.heap addr x := by rw [writing.heap]; exact found
      have bound := (List.getElem?_eq_some_iff.mp found).1
      cases known : s.bb.ptrs addr with
      | some offs => exact ⟨(), _, writePtr_known alive known, writing.appended _, Nat.le_refl _⟩
      | none =>
        -- this object has not been met, so that `depth` is not 0
        have fewer := unmetCount_update_lt bound known (s.core.nextOffset (schema.types.typeId x.class))
        have few : unmetCount message.heap.length s.bb.ptrs ≤ depth := few
        obtain ⟨depth, rfl⟩ : ∃ before, depth = before + 1 := ⟨depth - 1, by omega⟩
        have less : unmetCount message.heap.length (Function.update s.bb.ptrs addr _) ≤ depth :=
          Nat.le_of_lt_succ (Nat.lt_of_lt_of_le fewer few)
        obtain ⟨u, s', ran, writing', rest⟩ := toBBuffer_returns (fun _ _ => ih depth (Nat.lt_succ_self depth)) regular
          (message.sound addr x inside found) (s.opened addr (schema.types.typeId x.class)) (writing.opened addr _) less
        exact ⟨u, s', (writePtr_new alive known).trans ran, writing', Nat.le_trans rest (Nat.le_of_lt fewer)⟩

/-! ## Roots -/

def Store.begun (s : Store) : Store := { s with bb := { s.bb with offsetRoot := s.bb.buf.length } }

def Store.begunRead (t : Store) : Store := { t with bb := { t.bb with offsetRoot := t.bb.offset } }

section
variable {schema : Schema} {heap : List (Option Object)} {s t t' : Store} {T : PtrType} {r : Option Addr}

/-- Nothing has been met. -/
theorem agree_begun (ptrs : s.bb.ptrs = fun _ => none) (objIdxs : t.bb.objIdxs = []) (strIdxs : t.bb.strIdxs = [])
    (behind : t.bb.offset ≤ t.bb.buf.length) :
    Agree heap ⟨s.begun, t.begunRead, ⟨[], t.bb.readLengthLimit⟩⟩ := by
  refine ⟨Nat.le_refl _, ?_, behind, rfl, fun a => ?_, fun a offs known => ?_, fun entry member => ?_⟩
  · simp [Store.begun, Store.begunRead]
  · exact iff_of_false List.not_mem_nil fun some => some (congrFun ptrs a)
  · exact nomatch (congrFun ptrs a).symm.trans known
  · change entry ∈ t.bb.objIdxs ++ t.bb.strIdxs at member
    rw [objIdxs, strIdxs] at member
    cases member

theorem readRoot_ok (read : readPtr schema (t.bb.buf.length + 1) T t.begunRead = .ok r t') :
    readRoot schema T t = .ok r t'.cleared :=
  bind_run rfl (bind_run rfl (catch_run (bind_run read rfl)))

theorem readRoot_error {fault : Fault} (failed : readPtr schema (t.bb.buf.length + 1) T t.begunRead = .error fault t') :
    readRoot schema T t = .error fault t'.cleared := by
  refine bind_run rfl (bind_run rfl ?_)
  exact (catch_error (bind_error failed)).trans (bind_run rfl rfl)

end

/-- A message that is appended to a buffer is written, and read back by any program from where it begins, if and only if
every length in it is within the limit that was set last before it. The first limit is what an earlier message has
left. -/
theorem message_read_iff {schema : Schema} (regular : schema.Regular) (message : Message schema) (s : Store)
    (same : s.heap = message.heap) (ptrs : s.bb.ptrs = fun _ => none) :
    ∃ bytes s', writeRoot schema message.root s = .ok () s' ∧ s'.bb.buf = s.bb.buf ++ bytes ∧
      (bytes.length < 2 ^ 32 → ∀ (t : Store) (tail : List UInt8), t.unread = bytes ++ tail → t.bb.objIdxs = [] →
        t.bb.strIdxs = [] →
        ((∃ r t', readRoot schema message.T t = .ok r t' ∧ t'.bb.offset = t.bb.offset + bytes.length) ↔
          Within t.bb.readLengthLimit message.marks)) := by
  have begins : Writing message.heap s.bb.buf s.begun := ⟨⟨same, Nat.le_refl _⟩, rfl, List.prefix_rfl⟩
  obtain ⟨u, s', ran, writing, -⟩ := writePtr_returns regular message s.bb.buf message.heap.length message.leads s.begun
    begins (unmetCount_le _ _)
  have follows := next_follows regular message (pointers regular message message.heap.length) message.T message.root
    message.leads
  obtain ⟨-, bytes, written, some, reads⟩ := follows s.begun u s' begins.toSource ran
  -- the message begins where the buffer ended
  have start : s.begun.message = [] := List.drop_length
  have written : s'.message = bytes := by
    rw [← List.nil_append bytes, ← start]
    exact written
  have buf : s'.bb.buf = s.bb.buf ++ bytes := by
    obtain ⟨more, split⟩ := writing.kept
    rw [← split, ← written, Store.message, ← split, writing.root, List.drop_left]
  refine ⟨bytes, _, bind_run rfl (bind_run rfl (bind_run (by rw [← same] at ran; exact ran) rfl)), buf, ?_⟩
  intro short t tail input objIdxs strIdxs
  have count := congrArg List.length input
  have count : t.bb.buf.length - t.bb.offset = bytes.length + tail.length := by
    rw [List.length_append] at count
    rw [← count]
    exact List.length_drop.symm
  have begun : Agree message.heap ⟨s.begun, t.begunRead, ⟨[], t.bb.readLengthLimit⟩⟩ :=
    agree_begun ptrs objIdxs strIdxs (by omega)
  have outcome := reads (by change s'.message.length < _; rw [written]; exact short) t.begunRead _ (t.bb.buf.length + 1)
    tail begun input (by omega)
  rw [← judge_isSome_iff]
  have guard : Visit.guard (visitPtr schema message.heap (message.heap.length + 1) message.root)
      ⟨[], t.bb.readLengthLimit⟩ = (judge t.bb.readLengthLimit message.marks).map fun limit =>
        ⟨(visitPtr schema message.heap (message.heap.length + 1) message.root []).1, limit⟩ := rfl
  -- the monitor of the root decides as `Within` does
  rcases outcome.cases with ⟨decided, fault, t', failed⟩ | ⟨trail, r, t', decided, read, -, agree, grows⟩
  · rw [guard, Option.map_eq_none_iff] at decided
    rw [decided, readRoot_error failed]
    exact iff_of_false (fun ⟨r, t', impossible, _⟩ => nomatch impossible) Bool.false_ne_true
  · rw [guard] at decided
    obtain ⟨limit, last, -⟩ := Option.map_eq_some_iff.mp decided
    have place : t'.bb.offset = t'.bb.offsetRoot + (s'.bb.buf.length - s'.bb.offsetRoot) := agree.place
    have root : t'.bb.offsetRoot = t.bb.offset := grows.start
    refine iff_of_true ⟨r, t'.cleared, readRoot_ok read, ?_⟩ (by rw [last]; rfl)
    change t'.bb.offset = t.bb.offset + bytes.length
    rw [place, root, writing.root, buf, List.length_append]
    omega

/-! ## A list of strings -/

/-- `[Limit(2)] List<string> names` -/
def names : FieldInfo :=
  { declaringType := "Names", name := "names", type := { isContainer := true }, limit := 2 }

/-- A class with the one field, and the `List` that it needs. -/
def namesSchema : Schema where
  shape := fun
    | 0 => .generated { own := [names] }
    | _ => .list (.wire (.shared .string))
  layout := fun _ => .wire (.shared (.object 1))
  initial := fun _ => .cell ⟨.shared (.object 1), none⟩
  typeId := fun type => if type = 0 then 3 else 4
  creators := fun typeId => if typeId = 3 then some 0 else if typeId = 4 then some 1 else none
  derives := fun C type => decide (C = .user type)

/-- One name. -/
def namesHeap (text : List UInt8) : List (Option Object) :=
  [some (.generated 0 fun _ => .cell ⟨.shared (.object 1), some 1⟩), some (.list 1 [.cell ⟨.shared .string, some 2⟩]),
    some (.string text)]

theorem namesHeap_lives {text : List UInt8} {a : Addr} {x : Object} (found : Lives (namesHeap text) a x) :
    (a = 0 ∧ x = .generated 0 fun _ => .cell ⟨.shared (.object 1), some 1⟩) ∨
      a = 1 ∧ x = .list 1 [.cell ⟨.shared .string, some 2⟩] ∨ a = 2 ∧ x = .string text := by
  match a with
  | 0 => cases found; exact .inl ⟨rfl, rfl⟩
  | 1 => cases found; exact .inr (.inl ⟨rfl, rfl⟩)
  | 2 => cases found; exact .inr (.inr ⟨rfl, rfl⟩)
  | a + 3 => cases found

theorem namesSchema_regular : namesSchema.Regular := by
  constructor
  case items =>
    intro type item shape
    match type with
    | 0 => cases shape
    | type + 1 => cases shape; trivial
  case classes =>
    intro type c shape
    match type with
    | 0 => cases shape; exact ⟨by decide, by decide⟩
    | type + 1 => cases shape
  case fields => exact fun _ _ _ _ _ => trivial

theorem names_lead (text : List UInt8) {T : PtrType} {a : Addr} {x : Object} (found : Lives (namesHeap text) a x)
    (fits : namesSchema.types.Fits T x.class) :
    Leads namesSchema (namesHeap text) (fun a => a < 3) T (some a) := by
  rintro b ⟨⟩
  exact ⟨(List.getElem?_eq_some_iff.mp found).1, x, found, fits⟩

def namesMessage (text : List UInt8) : Message namesSchema where
  heap := namesHeap text
  part := fun a => a < 3
  T := .object 0
  root := some 0
  leads := names_lead text rfl ⟨nofun, rfl⟩
  registered := by
    intro a x _ found
    rcases namesHeap_lives found with ⟨-, rfl⟩ | ⟨-, rfl⟩ | ⟨-, rfl⟩
    · exact .inr (.inr ⟨by decide, rfl⟩)
    · exact .inr (.inr ⟨by decide, rfl⟩)
    · exact .inl rfl
  sound := by
    intro a x _ found
    rcases namesHeap_lives found with ⟨-, rfl⟩ | ⟨-, rfl⟩ | ⟨-, rfl⟩
    · exact .generated _ rfl fun _ _ => .cell (names_lead text rfl ⟨nofun, rfl⟩)
    · refine .list _ rfl fun v member => ?_
      rw [List.mem_singleton.mp member]
      exact .cell (names_lead text rfl rfl)
    · exact .string text

/-- The list is not longer than the limit. -/
theorem namesMessage_legal (text : List UInt8) : (namesMessage text).Legal := by
  intro a type member c _ found shape f inside
  rcases namesHeap_lives found with ⟨-, same⟩ | ⟨-, same⟩ | ⟨-, same⟩
  · cases same
    cases shape
    obtain rfl := List.mem_singleton.mp (inside : f ∈ [names])
    rintro - - n ⟨⟩
    decide
  · cases same
  · cases same

/-- A name of two letters is read. -/
theorem message_read_iff_names : ∃ bytes s' r t',
    writeRoot namesSchema (some 0) { heap := namesHeap [97, 98] } = .ok () s' ∧ s'.bb.buf = bytes ∧ readRoot namesSchema (.object 0) { bb := { buf := bytes } } = .ok r t' ∧
      t'.bb.offset = bytes.length := by
  obtain ⟨bytes, s', wrote, written, reads⟩ :=
    message_read_iff namesSchema_regular (namesMessage [97, 98]) { heap := namesHeap [97, 98] } rfl rfl
  have facts : (match writeRoot namesSchema (some 0) { heap := namesHeap [97, 98] } with
      | .ok _ s => decide (s.bb.buf.length < 2 ^ 32)
      | .error _ _ => false) = true := by decide +kernel
  have wrote : writeRoot namesSchema (some 0) { heap := namesHeap [97, 98] } = .ok () s' := wrote
  rw [wrote] at facts
  have written : s'.bb.buf = bytes := written
  have short : bytes.length < 2 ^ 32 := by
    rw [← written]
    exact of_decide_eq_true facts
  have within : Within 0 (namesMessage [97, 98]).marks := ⟨.inr (by decide), .inr (by decide), trivial⟩
  obtain ⟨r, t', read, place⟩ :=
    (reads short { bb := { buf := bytes } } [] (List.append_nil bytes).symm rfl rfl).mpr within
  exact ⟨bytes, s', r, t', wrote, written, read, by rw [place]; exact Nat.zero_add _⟩

/-- The limit of the list holds for the names in it. -/
theorem long_name_refused : ¬ ∀ (schema : Schema) (message : Message schema), schema.Regular → message.Legal →
    ∃ s' r t', writeRoot schema message.root { heap := message.heap } = .ok () s' ∧
      readRoot schema message.T { bb := { buf := s'.bb.buf } } = .ok r t' := by
  intro always
  obtain ⟨s', r, t', wrote, read⟩ :=
    always namesSchema (namesMessage [97, 98, 99]) namesSchema_regular (namesMessage_legal _)
  have refused : (match writeRoot namesSchema (some 0) { heap := namesHeap [97, 98, 99] } with
      | .ok _ s =>
          match readRoot namesSchema (.object 0) { bb := { buf := s.bb.buf } } with
          | .ok _ _ => false
          | .error fault _ => decide (fault = .code (-16))
      | .error _ _ => false) = true := by decide +kernel
  have wrote : writeRoot namesSchema (some 0) { heap := namesHeap [97, 98, 99] } = .ok () s' := wrote
  have read : readRoot namesSchema (.object 0) { bb := { buf := s'.bb.buf } } = .ok r t' := read
  rw [wrote] at refused
  simp only [read] at refused
  cases refused

end Xxlib.Gens.Messages
