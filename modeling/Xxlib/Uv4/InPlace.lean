import Xxlib.Uv4.CharList
import Xxlib.Uv4.VarintCodec

/-! Writing into a `BBuffer` at a place before its end (`xx_bbuffer.hpp`, `xx_bytesutils.hpp`, `xx_list.hpp`).

A writer does not look at the bytes of the buffer, so what it does is told as its steps. The object behind a pointer
stands with the pointer. If it was written before nothing looks at it, so that a cycle of pointers is cut there.
-/

set_option autoImplicit false

namespace Xxlib.Uv4

open Lib CharList

/-- What `Write` is given. An enumeration is an integer, and a `Ref` is the pointer that it locks. -/
inductive Value where
  | byte (v : UInt8)
  | float (v : Float32)
  | integer (signed : Bool) (w : Width) (v : BitVec w.bits)
  | double (v : Float)
  /-- A `char[len]`, without the zero in the end. -/
  | literal (chars : List UInt8)
  | nullopt
  | optional (v : Value)
  /-- A list with elements of one byte, and a `String`. -/
  | bytes (data : List UInt8)
  | floats (data : List Float32)
  | list (sizeofT : Nat) (items : List Value)
  | bbuffer (data : List UInt8)
  /-- A `Random`: two numbers and a table of 56, of four bytes each. -/
  | random (numbers : Fin 58 → BitVec 32)
  /-- An object of another class writes its members. -/
  | object (members : List Value)
  | nullptr
  | ptr (addr : Nat) (typeId : UInt16) (pointee : Value)

/-- Where a writer is, and what it has done. -/
structure Writing where
  dataLen : Nat
  offsetRoot : Nat
  ptrStore : Nat → Option Nat
  steps : List Step := []

def Writing.reserve (more : Nat) (s : Writing) : Writing := { s with steps := s.steps ++ [.reserve more] }

def Writing.append (bytes : List UInt8) (s : Writing) : Writing :=
  { s with dataLen := s.dataLen + bytes.length, steps := s.steps ++ [.append bytes] }

/-- The bytes of a number in memory, the low one first. -/
def memoryBytes (count : Nat) {bits : Nat} (v : BitVec bits) : List UInt8 :=
  (List.range count).map fun i => ⟨(v >>> (8 * i)).setWidth 8⟩

/-! ## `BytesFunc<T>::WriteTo` -/

namespace Writing

def writeByte (v : UInt8) (s : Writing) : Writing := (s.reserve 1).append [v]

def writeFloat (v : Float32) (s : Writing) : Writing := (s.reserve 4).append (memoryBytes 4 v.toBits.toBitVec)

def writeInteger (signed : Bool) (w : Width) (v : BitVec w.bits) (s : Writing) : Writing :=
  (s.reserve (w.bits / 8 + 1)).append (w.varWrite7 (if signed then zigZagEncode v else v))

def writeSizeT (n : Nat) : Writing → Writing := writeInteger false .w64 (BitVec.ofNat 64 n)

def writeDouble (v : Float) (s : Writing) : Writing :=
  let infinity := Float.ofBits 0x7FF0000000000000
  let s := s.reserve 9
  if v == 0 then s.append [0]
  else if v.isNaN then s.append [1]
  else if v == -infinity then s.append [2]
  else if v == infinity then s.append [3]
  else if v == v.toInt32.toFloat then writeInteger true .w32 v.toInt32.toBitVec (s.append [4])
  else s.append (5 :: memoryBytes 8 v.toBits.toBitVec)

/-- `ToBBuffer` of a list whose elements are copied as one block, of `sizeofT` bytes each. -/
def writeBlock (sizeofT len : Nat) (data : List UInt8) (s : Writing) : Writing :=
  let s := writeSizeT len (s.reserve (5 + len * sizeofT))
  if len = 0 then s else s.append data

/-- `BBuffer::WriteBuf` -/
def writeBuf (buf : List UInt8) (s : Writing) : Writing := (s.reserve buf.length).append buf

/-- What `WritePtr` writes before the object, and whether the object follows. -/
def writePtrHead (addr : Nat) (typeId : UInt16) (s : Writing) : Writing × Bool :=
  let s := writeInteger false .w16 typeId.toBitVec s
  match s.ptrStore addr with
  | some offset => (writeSizeT offset s, false)
  | none =>
      let offset := (s.dataLen + (2 ^ 64 - s.offsetRoot)) % 2 ^ 64
      (writeSizeT offset { s with ptrStore := fun a => if a = addr then some offset else s.ptrStore a }, true)

end Writing

open Writing in
mutual

def Value.writeTo : Value → Writing → Writing
  | .byte v, s => writeByte v s
  | .float v, s => writeFloat v s
  | .integer signed w v, s => Writing.writeInteger signed w v s
  | .double v, s => writeDouble v s
  | .literal chars, s => writeBlock 1 chars.length chars (s.reserve (chars.length + 9))
  | .nullopt, s => writeByte 0 s
  | .optional v, s => v.writeTo (writeByte 1 s)
  | .bytes data, s => writeBlock 1 data.length data s
  | .floats data, s => writeBlock 4 data.length (data.flatMap fun v => memoryBytes 4 v.toBits.toBitVec) s
  | .list sizeofT items, s => Value.write items (writeSizeT items.length (s.reserve (5 + items.length * sizeofT)))
  | .bbuffer data, s => writeBuf data (writeSizeT data.length s)
  | .random numbers, s => (s.reserve 232).append ((List.finRange 58).flatMap fun i => memoryBytes 4 (numbers i))
  | .object members, s => Value.write members s
  | .nullptr, s => writeByte 0 s
  | .ptr addr typeId pointee, s =>
      match writePtrHead addr typeId s with
      | (s, true) => pointee.writeTo s
      | (s, false) => s

/-- `BBuffer::Write` -/
def Value.write : List Value → Writing → Writing
  | [], s => s
  | v :: vs, s => Value.write vs (v.writeTo s)

end

/-! ## What is reserved -/

mutual

/-- The lists that are copied as one block have less than 2 ^ 35 elements, so that their number takes five bytes. -/
def Value.Short : Value → Prop
  | .literal chars => chars.length < 2 ^ 35
  | .bytes data => data.length < 2 ^ 35
  | .floats data => data.length < 2 ^ 35
  | .optional v => v.Short
  | .list _ items => Value.AllShort items
  | .object members => Value.AllShort members
  | .ptr _ _ pointee => pointee.Short
  | _ => True

def Value.AllShort : List Value → Prop
  | [] => True
  | v :: vs => v.Short ∧ Value.AllShort vs

end

/-- The steps copy no more than they reserve themselves. -/
def Covers (steps : List Step) : Prop := ∀ slack rest, Covered 0 rest → Covered slack (steps ++ rest)

theorem Covers.append {first second : List Step} (covers : Covers first) (covers' : Covers second) : Covers (first ++ second) := by
  intro slack rest covered
  rw [List.append_assoc]
  exact covers slack _ (covers' 0 rest covered)

theorem covers_nil : Covers [] := fun _ _ covered => covered.mono (Nat.zero_le _)

theorem covers_copy {more : Nat} {bytes : List UInt8} (fits : bytes.length ≤ more) :
    Covers [.reserve more, .append bytes] := fun slack _ covered =>
  ⟨fits.trans (Nat.le_max_right slack more), covered.mono (Nat.zero_le _)⟩

namespace Writing

/-- A writer adds steps, and these cover what they copy. -/
def Reserves (f : Writing → Writing) : Prop := ∀ s, ∃ steps, (f s).steps = s.steps ++ steps ∧ Covers steps

theorem Reserves.comp {f g : Writing → Writing} (second : Reserves g) (first : Reserves f) : Reserves fun s => g (f s) := by
  intro s
  obtain ⟨steps, eq, covers⟩ := first s
  obtain ⟨steps', eq', covers'⟩ := second (f s)
  exact ⟨steps ++ steps', by rw [eq', eq, List.append_assoc], covers.append covers'⟩

theorem reserves_reserve (more : Nat) : Reserves (reserve more) := fun _ =>
  ⟨[.reserve more], rfl, fun _ _ covered => covered.mono (Nat.zero_le _)⟩

theorem reserves_copy {more : Nat} {bytes : List UInt8} (fits : bytes.length ≤ more) :
    Reserves fun s => (s.reserve more).append bytes := fun _ =>
  ⟨[.reserve more, .append bytes], List.append_assoc _ _ _, covers_copy fits⟩

theorem memoryBytes_length (count : Nat) {bits : Nat} (v : BitVec bits) : (memoryBytes count v).length = count := by
  rw [memoryBytes, List.length_map, List.length_range]

theorem reserves_byte (v : UInt8) : Reserves (writeByte v) := reserves_copy (Nat.le_refl 1)

theorem reserves_integer (signed : Bool) (w : Width) (v : BitVec w.bits) : Reserves (writeInteger signed w v) :=
  reserves_copy (w.varWrite7_length_le _)

theorem reserves_double (v : Float) : Reserves (writeDouble v) := by
  have tag : ∀ b : UInt8, Reserves fun s => (s.reserve 9).append [b] := fun b => reserves_copy (by simp)
  intro s
  unfold writeDouble
  dsimp only
  split
  · exact tag 0 s
  split
  · exact tag 1 s
  split
  · exact tag 2 s
  split
  · exact tag 3 s
  split
  · exact (reserves_integer true .w32 _).comp (tag 4) s
  · exact reserves_copy (by rw [List.length_cons, memoryBytes_length]) s

theorem writeBlock_steps (sizeofT len : Nat) (data : List UInt8) (s : Writing) : (writeBlock sizeofT len data s).steps =
    s.steps ++ ([.reserve (5 + len * sizeofT), .reserve 9, .append (varWrite7U64 ⟨BitVec.ofNat 64 len⟩)] ++
      if len = 0 then [] else [.append data]) := by
  unfold writeBlock
  split <;> simp [writeSizeT, writeInteger, reserve, append, Width.varWrite7, Width.bits]

theorem reserves_block {sizeofT len : Nat} {data : List UInt8} (length : data.length = len * sizeofT) (short : len < 2 ^ 35) :
    Reserves (writeBlock sizeofT len data) := by
  intro s
  refine ⟨_, writeBlock_steps sizeofT len data s, fun slack rest covered => ?_⟩
  have few : (varWrite7U64 ⟨BitVec.ofNat 64 len⟩).length ≤ 5 := by
    rw [varWrite7U64, varWrite7U64Loop_eq]
    refine Varint.encodeFull_length_le (by decide) ?_ 8
    exact (Nat.mod_le _ _).trans_lt short
  refine ⟨?_, ?_⟩
  · omega
  · split
    · exact covered.mono (Nat.zero_le _)
    · exact ⟨by omega, covered.mono (Nat.zero_le _)⟩

theorem reserves_ptrHead (addr : Nat) (typeId : UInt16) : Reserves fun s => (writePtrHead addr typeId s).1 := by
  intro s
  obtain ⟨steps, eq, covers⟩ := reserves_integer false .w16 typeId.toBitVec s
  have offset : ∀ (n : Nat) (s' : Writing), s'.steps = s.steps ++ steps →
      ∃ all, (writeSizeT n s').steps = s.steps ++ all ∧ Covers all := by
    intro n s' same
    obtain ⟨steps', eq', covers'⟩ := reserves_integer false .w64 (BitVec.ofNat 64 n) s'
    exact ⟨steps ++ steps', by rw [writeSizeT, eq', same, List.append_assoc], covers.append covers'⟩
  simp only [writePtrHead]
  split
  · exact offset _ _ eq
  · exact offset _ _ eq

theorem floats_length (data : List Float32) :
    (data.flatMap fun v => memoryBytes 4 v.toBits.toBitVec).length = data.length * 4 := by
  simp [List.length_flatMap, memoryBytes_length]

end Writing

open Writing

mutual

theorem Value.reserves : ∀ v : Value, v.Short → Reserves v.writeTo
  | .byte v, _ => reserves_byte v
  | .float v, _ => reserves_copy (memoryBytes_length 4 _).le
  | .integer signed w v, _ => reserves_integer signed w v
  | .double v, _ => reserves_double v
  | .literal chars, short => (reserves_block (Nat.mul_one _).symm short).comp (reserves_reserve _)
  | .nullopt, _ => reserves_byte 0
  | .optional v, short => (v.reserves short).comp (reserves_byte 1)
  | .bytes data, short => reserves_block (Nat.mul_one _).symm short
  | .floats data, short => reserves_block (floats_length data) short
  | .list _ items, short => (Value.write_reserves items short).comp ((reserves_integer false .w64 _).comp (reserves_reserve _))
  | .bbuffer data, _ => (reserves_copy (Nat.le_refl data.length)).comp (reserves_integer false .w64 _)
  | .random numbers, _ => reserves_copy (by simp [List.length_flatMap, memoryBytes_length])
  | .object members, short => Value.write_reserves members short
  | .nullptr, _ => reserves_byte 0
  | .ptr addr typeId pointee, short => by
      intro s
      have head := reserves_ptrHead addr typeId
      simp only [Value.writeTo]
      split
      · rename_i s' written
        have same : (writePtrHead addr typeId s).1 = s' := by rw [written]
        exact same ▸ (pointee.reserves short).comp head s
      · rename_i s' written
        have same : (writePtrHead addr typeId s).1 = s' := by rw [written]
        exact same ▸ head s

theorem Value.write_reserves : ∀ vs : List Value, Value.AllShort vs → Reserves (Value.write vs)
  | [], _ => fun s => ⟨[], (List.append_nil s.steps).symm, covers_nil⟩
  | v :: vs, short => (Value.write_reserves vs short.2).comp (v.reserves short.1)

end

/-! ## Writing in place -/

/-- What writing pointers depends on. -/
structure Pool where
  offsetRoot : Nat := 0
  ptrStore : Nat → Option Nat := fun _ => none

def Pool.at' (pool : Pool) (pos : Nat) : Writing := ⟨pos, pool.offsetRoot, pool.ptrStore, []⟩

def Pool.steps (pool : Pool) (pos : Nat) (vs : List Value) : List Step := (Value.write vs (pool.at' pos)).steps

/-- There is room for short lists, if a block can be as large as what is reserved. -/
theorem Pool.room_of_short (pool : Pool) {bufLen pos : Nat} {vs : List Value} (short : Value.AllShort vs)
    (inside : pos ≤ bufLen) (small : ∀ capacity ∈ asks pos (pool.steps pos vs), capacity + sizeofMemHeader ≤ 2 ^ 63) :
    Room bufLen pos (pool.steps pos vs) := by
  obtain ⟨steps, eq, covers⟩ := Value.write_reserves vs short (pool.at' pos)
  have same : pool.steps pos vs = steps := eq
  have covered := covers 0 [] trivial
  rw [List.append_nil, ← same] at covered
  exact covered.room inside small

namespace CharList

/-- Steps at `pos`, after which `dataLen` is not below what it was. -/
def inPlace (blocks : Blocks) (pos : Nat) (steps : List Step) (l : CharList) : Option CharList :=
  (run blocks steps { l with dataLen := pos }).map fun l' =>
    if l'.dataLen < l.dataLen then { l' with dataLen := l.dataLen } else l'

/-- `BBuffer::WriteAt` -/
def writeAt (blocks : Blocks) (pool : Pool) (pos : Nat) (vs : List Value) (l : CharList) : Option CharList :=
  l.inPlace blocks pos (pool.steps pos vs)

/-- `BBuffer::WriteBufAt`, where `buf` does not lie in the buffer itself. -/
def writeBufAt (blocks : Blocks) (pos : Nat) (buf : List UInt8) (l : CharList) : Option CharList :=
  l.inPlace blocks pos [.reserve buf.length, .append buf]

/-- The bytes are in their range, and nothing else is changed. -/
structure InPlace (l : CharList) (pos : Nat) (bytes : List UInt8) (l' : CharList) : Prop where
  dataLen : l'.dataLen = max l.dataLen (pos + bytes.length)
  written : ∀ i, pos ≤ i → i < pos + bytes.length → bytes[i - pos]? = some (l'.buf i)
  kept : ∀ i < l.dataLen, i < pos ∨ pos + bytes.length ≤ i → l'.buf i = l.buf i

section
variable {blocks : Blocks} {pos : Nat} {steps : List Step} {l l' : CharList}

theorem inPlace_some (done : l.inPlace blocks pos steps = some l') :
    ∃ m, Ran blocks steps { l with dataLen := pos } m ∧ l'.buf = m.buf ∧ l'.dataLen = max l.dataLen m.dataLen := by
  obtain ⟨m, runs, rfl⟩ := Option.map_eq_some_iff.mp done
  refine ⟨m, run_ran runs, ?_⟩
  split
  · exact ⟨rfl, by simp only; omega⟩
  · exact ⟨rfl, by omega⟩

/-- The bytes behind the range stay where they are, or they do not count. -/
theorem inPlace_of_stays (done : l.inPlace blocks pos steps = some l')
    (safe : l.dataLen ≤ pos + (written steps).length ∨ Stays l.bufLen pos steps) : InPlace l pos (written steps) l' := by
  obtain ⟨m, ran, buf, dataLen⟩ := inPlace_some done
  have grown := ran.dataLen
  refine ⟨by rw [dataLen, grown], fun i behind before => ?_, fun i inside out => ?_⟩
  · rw [buf]
    exact ran.data i behind (by rw [grown]; exact before)
  · rw [buf]
    rcases out with before | behind
    · exact ran.front i before
    · rcases safe with covered | stays
      · omega
      · exact (ran.stays stays).2 i (by rw [grown]; exact behind)

/-- A new block does not have the bytes behind the range. -/
theorem stays_of_inPlace (inPlace : ∀ blocks, ∃ l', l.inPlace blocks pos steps = some l' ∧ InPlace l pos (written steps) l')
    (before : pos + (written steps).length < l.dataLen) : Stays l.bufLen pos steps := by
  by_contra moved
  obtain ⟨l', done, inPlace⟩ := inPlace fun _ i => l.buf i + 1
  obtain ⟨m, ran, buf, -⟩ := inPlace_some done
  obtain ⟨_, other⟩ := ran.moves moved
  have kept := inPlace.kept _ before (.inr (Nat.le_refl _))
  rw [buf, other _ (by rw [ran.dataLen])] at kept
  exact absurd kept (by simp)

theorem inPlace_some_iff : (∃ l', l.inPlace blocks pos steps = some l') ↔ Room l.bufLen pos steps := by
  rw [← run_some_iff blocks steps { l with dataLen := pos }]
  unfold inPlace
  simp

/-- A write that has the blocks it needs is in place, if and only if it covers all bytes behind `pos` or needs no block. -/
theorem inPlace_iff :
    (∀ blocks, ∃ l', l.inPlace blocks pos steps = some l' ∧ InPlace l pos (written steps) l') ↔
      Room l.bufLen pos steps ∧ (l.dataLen ≤ pos + (written steps).length ∨ Stays l.bufLen pos steps) := by
  constructor
  · intro inPlace
    obtain ⟨l', done, -⟩ := inPlace fun _ _ => 0
    refine ⟨inPlace_some_iff.mp ⟨l', done⟩, ?_⟩
    rcases Nat.lt_or_ge (pos + (written steps).length) l.dataLen with before | covered
    · exact .inr (stays_of_inPlace inPlace before)
    · exact .inl covered
  · rintro ⟨room, safe⟩ blocks
    obtain ⟨l', done⟩ := inPlace_some_iff.mpr room
    exact ⟨l', done, inPlace_of_stays done safe⟩

end

end CharList

/-! ## Values -/

/-- Writing in place leaves everything else alone, if and only if there are the blocks, and the range goes up to the
end of the data or nothing that is reserved goes beyond the block. A block of bytes never reserves too much. -/
theorem writeAt_inPlace_iff (pool : Pool) (l : CharList) (filled : l.dataLen ≤ l.bufLen) (pos : Nat) :
    (∀ vs : List Value,
      (∀ blocks, ∃ l', l.writeAt blocks pool pos vs = some l' ∧ InPlace l pos (written (pool.steps pos vs)) l') ↔
        Room l.bufLen pos (pool.steps pos vs) ∧
          (l.dataLen ≤ pos + (written (pool.steps pos vs)).length ∨ Stays l.bufLen pos (pool.steps pos vs))) ∧
    ∀ buf : List UInt8,
      (∀ blocks, ∃ l', l.writeBufAt blocks pos buf = some l' ∧ InPlace l pos buf l') ↔
        Room l.bufLen pos [.reserve buf.length, .append buf] := by
  refine ⟨fun vs => inPlace_iff, fun buf => ?_⟩
  have iff := @inPlace_iff pos [.reserve buf.length, .append buf] l
  rw [written_reserve, written_append, written_nil, List.append_nil] at iff
  refine iff.trans (and_iff_left_of_imp fun room => ?_)
  rcases Nat.lt_or_ge (pos + buf.length) l.dataLen with before | covered
  · refine .inr (stays_reserve.mpr ⟨(Nat.mod_le _ _).trans (before.le.trans filled), ?_⟩)
    exact fun _ none => absurd none List.not_mem_nil
  · exact .inl covered

/-- Two numbers among ten bytes, and three bytes, in a block of 24. -/
theorem writeAt_inPlace_middle :
    (∀ blocks, ∃ l', (CharList.mk (fun _ => 1) 24 10).writeAt blocks {} 2 [.integer false .w32 300, .byte 7] = some l' ∧
      InPlace ⟨fun _ => 1, 24, 10⟩ 2 (written (Pool.steps {} 2 [.integer false .w32 300, .byte 7])) l') ∧
    ∀ blocks, ∃ l', (CharList.mk (fun _ => 1) 24 10).writeBufAt blocks 9 [5, 6, 7] = some l' ∧
      InPlace ⟨fun _ => 1, 24, 10⟩ 9 [5, 6, 7] l' := by
  have stays : Stays 24 2 (Pool.steps {} 2 [.integer false .w32 300, .byte 7]) := by
    unfold Stays
    decide
  have short : Value.AllShort [.integer false .w32 300, .byte 7] := ⟨trivial, trivial, trivial⟩
  have room : Room 24 2 (Pool.steps {} 2 [.integer false .w32 300, .byte 7]) :=
    Pool.room_of_short {} short (by decide) (by decide)
  refine ⟨((writeAt_inPlace_iff {} ⟨fun _ => 1, 24, 10⟩ (by decide) 2).1 _).mpr ⟨room, .inr stays⟩, ?_⟩
  exact ((writeAt_inPlace_iff {} ⟨fun _ => 1, 24, 10⟩ (by decide) 9).2 _).mpr ⟨by decide, trivial⟩

/-- A number of one byte at the beginning of a full block. The other bytes are those of the new block. -/
theorem writeAt_loses : ∃ l', (CharList.mk (fun _ => 1) 8 8).writeAt (fun _ _ => 0) {} 0 [.integer false .w64 1] = some l' ∧
    written (Pool.steps {} 0 [.integer false .w64 1]) = [1] ∧ l'.dataLen = 8 ∧ l'.buf 1 = 0 ∧
      ¬ InPlace ⟨fun _ => 1, 8, 8⟩ 0 [1] l' := by
  refine ⟨_, rfl, by decide, rfl, rfl, fun inPlace => ?_⟩
  exact absurd (inPlace.kept 1 (by decide) (.inr (Nat.le_refl 1))) (by decide)

end Xxlib.Uv4
