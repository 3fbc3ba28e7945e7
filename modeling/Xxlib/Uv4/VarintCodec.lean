import Xxlib.Lib.Invariant
import Xxlib.Lib.ZigZag
import Xxlib.Uv4.Bytes

/-! Integers of variable length in the memory of a `BBuffer` (`xx_bytesutils.hpp`).

Here the bytes behind `dataLen` are there as well, and a reader leaves a trace of the bytes that it has looked at. A
plain `char` has a sign on most platforms, and none on others.
-/

set_option autoImplicit false

namespace Xxlib.Uv4

open Lib

/-! ## Memory -/

/-- What a reader is given: the memory from `buf` on, of which the bytes below `dataLen` count. -/
structure Input where
  buf : Nat → UInt8
  dataLen : Nat

/-- Bytes next to each other. -/
structure Span where
  index : Nat
  count : Nat

def Span.Below (limit : Nat) (s : Span) : Prop := ∀ i < s.count, s.index + i < limit

/-- Where a reader is, and what it has looked at. -/
structure Cursor where
  offset : Nat
  seen : List Span := []

/-- A reader fails with the code that it returns. -/
abbrev Decode := EStateM Int Cursor

def Cursor.looked (c : Cursor) (s : Span) : Cursor := { c with seen := s :: c.seen }

def look (src : Input) (i : Nat) : Decode UInt8 := fun c => .ok (src.buf i) (c.looked ⟨i, 1⟩)

/-- A `char` that becomes a word of `w` bits. -/
def charWord (signedChar : Bool) (w : Nat) (b : UInt8) : Nat :=
  if signedChar ∧ b.toNat ≥ 128 then b.toNat + (2 ^ w - 256) else b.toNat

/-! ## Reading -/

inductive Width where
  | w16 | w32 | w64

def Width.bits : Width → Nat
  | .w16 => 16
  | .w32 => 32
  | .w64 => 64

section
variable (signedChar : Bool) (src : Input)

/-- The loop of `VarRead7` for a `uint16_t` and for a `uint32_t`: the number and `idx`. -/
def lookGroups (last top offset dataLen : Nat) : Nat → Nat → Nat → Nat → Decode (Nat × Nat)
  | 0, _, _, _ => throw (-2)
  | fuel + 1, idx, lshift, i => do
      let b7 := charWord signedChar 32 (← look src (offset + idx))
      let idx := idx + 1
      if b7 > 0x7F then
        if idx = last then throw (-2)
        else if idx ≥ dataLen then throw (-1)
        else lookGroups last top offset dataLen fuel idx (lshift + 7) (i ||| ((b7 &&& 0x7F) <<< lshift) % 2 ^ 32)
      else if idx = last ∧ b7 > top then throw (-2)
      else return (i ||| (b7 <<< lshift) % 2 ^ 32, idx)

/-- The loop of `VarRead7` for a `uint64_t`. -/
def lookU64 (offset dataLen : Nat) : Nat → Nat → Nat → Nat → Decode (Nat × Nat)
  | 0, _, _, _ => throw (-1)
  | fuel + 1, idx, lshift, i => do
      let b7 := charWord signedChar 64 (← look src (offset + idx))
      let idx := idx + 1
      if b7 > 0x7F then
        if idx ≥ dataLen then throw (-1)
        else
          let i := i ||| ((b7 &&& 0x7F) <<< lshift) % 2 ^ 64
          if idx < 8 then lookU64 offset dataLen fuel idx (lshift + 7) i
          else
            let whole := charWord signedChar 64 (← look src (offset + idx))
            return (i ||| (whole <<< 28 <<< 28) % 2 ^ 64, idx + 1)
      else return (i ||| (b7 <<< lshift) % 2 ^ 64, idx)

def Width.loop (offset dataLen : Nat) : Width → Decode (Nat × Nat)
  | .w16 => lookGroups signedChar src 3 3 offset dataLen 3 0 0 0
  | .w32 => lookGroups signedChar src 5 15 offset dataLen 5 0 0 0
  | .w64 => lookU64 signedChar src offset dataLen 8 0 0 0

/-- `VarRead7`. The offset is set last. -/
def Width.varRead7 (w : Width) : Decode Nat := do
  let c ← get
  if c.offset ≥ src.dataLen then throw (-1)
  else
    let (i, idx) ← w.loop signedChar src c.offset (src.dataLen - c.offset)
    modify fun c => { c with offset := c.offset + idx }
    return i % 2 ^ w.bits

/-- `BytesFunc<T>::ReadFrom` -/
def Width.readFrom (signed : Bool) (w : Width) : Decode (BitVec w.bits) := do
  let u := BitVec.ofNat w.bits (← w.varRead7 signedChar src)
  return if signed then zigZagDecode u else u

end

/-! ## Writing -/

def Width.varWrite7 : (w : Width) → BitVec w.bits → List UInt8
  | .w16, u => varWrite7U16 ⟨u⟩
  | .w32, u => Uv4.varWrite7 ⟨u⟩
  | .w64, u => varWrite7U64 ⟨u⟩

/-- The bytes go where the data end. -/
def Input.append (bb : Input) (bytes : List UInt8) : Input where
  buf i := if h : bb.dataLen ≤ i ∧ i - bb.dataLen < bytes.length then bytes.get ⟨i - bb.dataLen, h.2⟩ else bb.buf i
  dataLen := bb.dataLen + bytes.length

/-- `BytesFunc<T>::WriteTo`, in a block with enough room. -/
def Width.writeTo (signed : Bool) (w : Width) (v : BitVec w.bits) (bb : Input) : Input :=
  bb.append (w.varWrite7 (if signed then zigZagEncode v else v))

/-! ## The sign of a `char` -/

section
variable {signedChar : Bool} {b : UInt8} {w : Nat}

theorem charWord_small (small : b.toNat < 128) : charWord signedChar w b = b.toNat :=
  if_neg fun large => absurd large.2 (by omega)

theorem charWord_large (large : ¬ b.toNat < 128) : 0x7F < charWord signedChar w b := by
  unfold charWord
  split <;> omega

/-- A sign changes nothing below it. -/
theorem charWord_mod (signedChar : Bool) (b : UInt8) (word : 8 ≤ w) : charWord signedChar w b % 256 = b.toNat := by
  have bound := b.toNat_lt
  unfold charWord
  split
  · obtain ⟨high, rfl⟩ := Nat.exists_eq_add_of_le word
    have multiple : 2 ^ (8 + high) = 256 * 2 ^ high := Nat.pow_add 2 8 high
    omega
  · omega

theorem charWord_group (word : 8 ≤ w) : charWord signedChar w b &&& 0x7F = b.toNat &&& 0x7F := by
  have low := charWord_mod signedChar b word
  rw [Varint.low_group, Varint.low_group]
  omega

/-- Of the ninth byte the sign is shifted out. -/
theorem charWord_whole : charWord signedChar 64 b <<< 28 <<< 28 % 2 ^ 64 = b.toNat <<< 56 % 2 ^ 64 := by
  have low := charWord_mod signedChar b (w := 64) (by decide)
  rw [← Nat.shiftLeft_add, Nat.shiftLeft_eq, Nat.shiftLeft_eq]
  omega

end

/-! ## Readers look at the data only -/

/-- The bytes that count. -/
def Input.data (src : Input) : List UInt8 := (List.range src.dataLen).map src.buf

theorem Input.data_length (src : Input) : src.data.length = src.dataLen := by simp [Input.data]

theorem Input.byteAt_data (src : Input) {i : Nat} (inside : i < src.dataLen) : byteAt src.data i = (src.buf i).toNat := by
  simp [byteAt, Input.data, inside]

def Cursor.after (c : Cursor) (seen : List Span) : Cursor := { c with seen := seen ++ c.seen }

/-- What a loop does, if `result` is what it should return and `seen` is what it looks at. -/
def Cursor.follow (c : Cursor) (offset : Nat) (seen : List Span) : Except Int (Nat × Nat) → EStateM.Result Int Cursor (Nat × Nat)
  | .ok (n, after) => .ok (n, after - offset) (c.after seen)
  | .error r => .error r (c.after seen)

section
variable {signedChar : Bool} {src : Input} {last top offset fuel idx lshift i : Nat} {c : Cursor}

theorem below_byte {limit : Nat} (inside : offset + idx < limit) : Span.Below limit ⟨offset + idx, 1⟩ := by
  intro i first
  have none : i = 0 := Nat.lt_one_iff.mp first
  rw [none]
  exact inside

theorem looked_after (c : Cursor) (s : Span) (seen : List Span) : (c.looked s).after seen = c.after (seen ++ [s]) := by
  simp [Cursor.after, Cursor.looked]

theorem below_concat {limit : Nat} {seen : List Span} (below : ∀ s ∈ seen, s.Below limit) (inside : offset + idx < limit) :
    ∀ s ∈ seen ++ [⟨offset + idx, 1⟩], s.Below limit := by
  intro s member
  rcases List.mem_append.mp member with old | new
  · exact below s old
  · rw [List.mem_singleton.mp new]
    exact below_byte inside

theorem lookGroups_refines (inside : offset + idx < src.dataLen) (c : Cursor) :
    ∃ seen, (∀ s ∈ seen, s.Below src.dataLen) ∧
      lookGroups signedChar src last top offset (src.dataLen - offset) fuel idx lshift i c =
        c.follow offset seen (varRead7Groups last top src.data offset (src.dataLen - offset) fuel idx lshift i) := by
  induction fuel generalizing idx lshift i c with
  | zero => exact ⟨[], fun _ member => absurd member List.not_mem_nil, rfl⟩
  | succ fuel ih =>
    have byte := src.byteAt_data inside
    have nothing : ∀ s ∈ ([] : List Span), s.Below src.dataLen := fun _ member => absurd member List.not_mem_nil
    have only := below_concat nothing inside
    rw [varRead7Groups]
    simp only [byte]
    rw [lookGroups]
    change ∃ seen, _ ∧ (ite _ _ _ : Decode (Nat × Nat)) (c.looked ⟨offset + idx, 1⟩) = _
    by_cases small : (src.buf (offset + idx)).toNat < 128
    · have ends : ¬ (src.buf (offset + idx)).toNat > 0x7F := by omega
      rw [charWord_small small, if_neg ends, if_neg ends]
      by_cases high : idx + 1 = last ∧ (src.buf (offset + idx)).toNat > top
      · rw [if_pos high, if_pos high]
        exact ⟨_, only, rfl⟩
      · rw [if_neg high, if_neg high]
        refine ⟨_, only, ?_⟩
        simp only [Cursor.follow, Nat.add_sub_cancel_left]
        rfl
    · have follows : (src.buf (offset + idx)).toNat > 0x7F := by omega
      rw [if_pos (charWord_large small), if_pos follows, charWord_group (by decide)]
      by_cases full : idx + 1 = last
      · rw [if_pos full, if_pos full]
        exact ⟨_, only, rfl⟩
      · rw [if_neg full, if_neg full]
        by_cases short : idx + 1 ≥ src.dataLen - offset
        · rw [if_pos short, if_pos short]
          exact ⟨_, only, rfl⟩
        · rw [if_neg short, if_neg short]
          obtain ⟨seen, below, same⟩ := ih (by omega : offset + (idx + 1) < src.dataLen) (c.looked ⟨offset + idx, 1⟩)
          refine ⟨_, below_concat below inside, ?_⟩
          rw [same]
          unfold Cursor.follow
          rw [looked_after]

theorem lookU64_refines (inside : offset + idx < src.dataLen) (c : Cursor) :
    ∃ seen, (∀ s ∈ seen, s.Below src.dataLen) ∧
      lookU64 signedChar src offset (src.dataLen - offset) fuel idx lshift i c =
        c.follow offset seen (varRead7U64Loop src.data offset (src.dataLen - offset) fuel idx lshift i) := by
  have nothing : ∀ s ∈ ([] : List Span), s.Below src.dataLen := fun _ member => absurd member List.not_mem_nil
  induction fuel generalizing idx lshift i c with
  | zero => exact ⟨[], nothing, rfl⟩
  | succ fuel ih =>
    have byte := src.byteAt_data inside
    have only := below_concat nothing inside
    rw [varRead7U64Loop]
    simp only [byte]
    rw [lookU64]
    change ∃ seen, _ ∧ (ite _ _ _ : Decode (Nat × Nat)) (c.looked ⟨offset + idx, 1⟩) = _
    by_cases small : (src.buf (offset + idx)).toNat < 128
    · have ends : ¬ (src.buf (offset + idx)).toNat > 0x7F := by omega
      rw [charWord_small small, if_neg ends, if_neg ends]
      refine ⟨_, only, ?_⟩
      simp only [Cursor.follow, Nat.add_sub_cancel_left]
      rfl
    · have follows : (src.buf (offset + idx)).toNat > 0x7F := by omega
      rw [if_pos (charWord_large small), if_pos follows, charWord_group (by decide)]
      by_cases short : idx + 1 ≥ src.dataLen - offset
      · rw [if_pos short, if_pos short]
        exact ⟨_, only, rfl⟩
      · rw [if_neg short, if_neg short]
        have next : offset + (idx + 1) < src.dataLen := by omega
        by_cases few : idx + 1 < 8
        · obtain ⟨seen, below, same⟩ := ih next (c.looked ⟨offset + idx, 1⟩)
          refine ⟨_, below_concat below inside, ?_⟩
          rw [if_pos few, if_pos few, same]
          unfold Cursor.follow
          rw [looked_after]
        · refine ⟨_, below_concat (below_concat nothing next) inside, ?_⟩
          rw [if_neg few, if_neg few, src.byteAt_data next]
          simp only [Cursor.follow, Nat.add_sub_cancel_left]
          change EStateM.Result.ok (_ ||| _ <<< 28 <<< 28 % 2 ^ 64, idx + 1 + 1) _ = _
          rw [charWord_whole]
          rfl

end

/-! ## What the bytes denote -/

section
variable {last top bits : Nat} {srcBuf : List UInt8} {offset fuel idx i v after : Nat}

/-- The byte at an index is the first one from there on. -/
theorem drop_byteAt (inside : offset < srcBuf.length) :
    ∃ b : UInt8, srcBuf.drop offset = b :: srcBuf.drop (offset + 1) ∧ byteAt srcBuf offset = b.toNat := by
  refine ⟨srcBuf[offset], List.drop_eq_getElem_cons inside, ?_⟩
  simp [byteAt, inside]

/-- A group below the others. -/
theorem group_join (i b n shift : Nat) :
    i + b % 128 * 2 ^ shift + n * 2 ^ (shift + 7) = i + (b % 128 + n * 128) * 2 ^ shift := by
  have split := Varint.group_split i (b % 128 + n * 128) shift
  have low : (b % 128 + n * 128) % 128 = b % 128 := by omega
  have high : (b % 128 + n * 128) / 128 = n := by omega
  rw [low, high] at split
  exact split

theorem varRead7Groups_decode (word : bits ≤ 32) (room : 2 ^ bits = (top + 1) * 2 ^ (7 * (last - 1)))
    (round : idx + fuel = last) (low : i < 2 ^ (7 * idx)) (inside : offset + idx < srcBuf.length)
    (read : varRead7Groups last top srcBuf offset (srcBuf.length - offset) fuel idx (7 * idx) i = .ok (v, after)) :
    ∃ n k, Varint.decode (srcBuf.drop (offset + idx)) = some (n, k) ∧ v = i + n * 2 ^ (7 * idx) ∧
      after = offset + idx + k ∧ v < 2 ^ bits := by
  have narrow : 2 ^ bits ≤ 2 ^ 32 := Nat.pow_le_pow_right (by decide) word
  -- a group before the last one leaves room for those that follow
  have early {idx : Nat} (more : idx + 1 < last) : 2 ^ (7 * idx + 7) ≤ 2 ^ bits := by
    have fewer : 2 ^ (7 * idx + 7) ≤ 2 ^ (7 * (last - 1)) := Nat.pow_le_pow_right (by decide) (by omega)
    rw [room]
    exact Nat.le_trans fewer (Nat.le_mul_of_pos_left _ (Nat.succ_pos _))
  induction fuel generalizing idx i with
  | zero => cases read
  | succ fuel ih =>
    obtain ⟨b, shape, byte⟩ := drop_byteAt inside
    have group := Varint.group_lt (b := b.toNat) low
    rw [varRead7Groups] at read
    simp only [byte] at read
    by_cases small : b.toNat < 128
    · have whole : b.toNat % 128 = b.toNat := Nat.mod_eq_of_lt small
      rw [whole] at group
      have ends : ¬ b.toNat > 0x7F := by omega
      rw [if_neg ends] at read
      split at read
      · cases read
      · rename_i high
        have fits : i + b.toNat * 2 ^ (7 * idx) < 2 ^ bits := by
          by_cases final : idx + 1 = last
          · have top' : b.toNat + 1 ≤ top + 1 := by omega
            have scaled := Nat.mul_le_mul_right (2 ^ (7 * idx)) top'
            rw [Nat.add_mul, Nat.one_mul] at scaled
            rw [room, ← final, Nat.add_sub_cancel]
            omega
          · exact Nat.lt_of_lt_of_le group (early (by omega))
        rw [Varint.or_group low (Nat.lt_of_lt_of_le fits narrow)] at read
        cases read
        exact ⟨b.toNat, 1, by rw [shape, Varint.decode_last small], rfl, by omega, fits⟩
    · have follows : b.toNat > 0x7F := by omega
      rw [if_pos follows] at read
      split at read
      · cases read
      · rename_i more
        split at read
        · cases read
        · rename_i enough
          have below := Nat.lt_of_lt_of_le group (Nat.le_trans (early (by omega)) narrow)
          rw [Varint.low_group, Varint.or_group low below] at read
          obtain ⟨n, k, found, value, ended, fits⟩ := ih (by omega) group (by omega) read
          refine ⟨b.toNat % 128 + n * 128, k + 1, ?_, ?_, by omega, fits⟩
          · rw [shape, Varint.decode_more small]
            change (Varint.decode (srcBuf.drop (offset + (idx + 1)))).map _ = _
            rw [found]
            rfl
          · rw [value, ← group_join]
            rfl

theorem varRead7U64Loop_decode (round : idx + fuel = 8) (low : i < 2 ^ (7 * idx)) (inside : offset + idx < srcBuf.length)
    (read : varRead7U64Loop srcBuf offset (srcBuf.length - offset) fuel idx (7 * idx) i = .ok (v, after)) :
    ∃ n k, Varint.decodeFull fuel (srcBuf.drop (offset + idx)) = some (n, k) ∧ v = i + n * 2 ^ (7 * idx) ∧
      after = offset + idx + k ∧ v < 2 ^ 64 := by
  induction fuel generalizing idx i with
  | zero => cases read
  | succ fuel ih =>
    obtain ⟨b, shape, byte⟩ := drop_byteAt inside
    have group := Varint.group_lt (b := b.toNat) low
    have wide : 2 ^ (7 * idx + 7) ≤ 2 ^ 64 := Nat.pow_le_pow_right (by decide) (by omega)
    rw [varRead7U64Loop] at read
    simp only [byte] at read
    by_cases small : b.toNat < 128
    · have whole : b.toNat % 128 = b.toNat := Nat.mod_eq_of_lt small
      rw [whole] at group
      have ends : ¬ b.toNat > 0x7F := by omega
      have fits := Nat.lt_of_lt_of_le group wide
      rw [if_neg ends, Varint.or_group low fits] at read
      cases read
      exact ⟨b.toNat, 1, by rw [shape, Varint.decodeFull_last small], rfl, by omega, fits⟩
    · have follows : b.toNat > 0x7F := by omega
      rw [if_pos follows] at read
      split at read
      · cases read
      · rename_i enough
        rw [Varint.low_group, Varint.or_group low (Nat.lt_of_lt_of_le group wide)] at read
        have next : offset + (idx + 1) < srcBuf.length := by omega
        by_cases few : idx + 1 < 8
        · rw [if_pos few] at read
          obtain ⟨n, k, found, value, ended, fits⟩ := ih (by omega) group next read
          refine ⟨b.toNat % 128 + n * 128, k + 1, ?_, ?_, by omega, fits⟩
          · rw [shape, Varint.decodeFull_more small]
            change (Varint.decodeFull fuel (srcBuf.drop (offset + (idx + 1)))).map _ = _
            rw [found]
            rfl
          · rw [value, ← group_join]
            rfl
        · -- the ninth byte is a whole one
          obtain rfl : idx = 7 := by omega
          obtain rfl : fuel = 0 := by omega
          obtain ⟨b₉, shape₉, byte₉⟩ := drop_byteAt next
          have bound := b₉.toNat_lt
          have fits : i + b.toNat % 128 * 2 ^ (7 * 7) + b₉.toNat * 2 ^ 56 < 2 ^ 64 := by omega
          rw [if_neg few, byte₉, Varint.or_group group fits] at read
          cases read
          refine ⟨b.toNat % 128 + b₉.toNat * 128, 2, ?_, ?_, by omega, fits⟩
          · rw [shape, Varint.decodeFull_more small]
            change (Varint.decodeFull 0 (srcBuf.drop (offset + (7 + 1)))).map _ = _
            rw [shape₉]
            rfl
          · exact group_join i b.toNat b₉.toNat (7 * 7)

end

/-! ## Every width -/

/-- `VarRead7` for the bytes that count. -/
def Width.readList : Width → List UInt8 → Nat → Except Int (Nat × Nat)
  | .w16 => varRead7U16
  | .w32 => Uv4.varRead7
  | .w64 => varRead7U64

/-- The bytes are a number in the format of the width. For 64 bits, a ninth byte counts as a whole. -/
def Width.Denotes (w : Width) (bytes : List UInt8) (n : Nat) : Prop :=
  match w with
  | .w16 | .w32 => Varint.decode bytes = some (n, bytes.length)
  | .w64 => Varint.decodeFull 8 bytes = some (n, bytes.length)

section
variable {data : List UInt8} {offset v after : Nat}

theorem varRead7Groups_denotes {last top bits : Nat} (word : bits ≤ 32)
    (room : 2 ^ bits = (top + 1) * 2 ^ (7 * (last - 1))) (inside : offset < data.length)
    (read : varRead7Groups last top data offset (data.length - offset) last 0 (7 * 0) 0 = .ok (v, after)) :
    offset < after ∧ after ≤ data.length ∧
      Varint.decode ((data.drop offset).take (after - offset)) = some (v, after - offset) ∧ v < 2 ^ bits := by
  obtain ⟨n, k, found, value, ended, fits⟩ := varRead7Groups_decode word room (Nat.zero_add last) (by decide) inside read
  obtain ⟨some, bound⟩ := Varint.decode_length found
  rw [List.length_drop] at bound
  have size : after - offset = k := by omega
  have same : v = n := by simpa using value
  rw [size, same]
  refine ⟨by omega, by omega, ?_, same ▸ fits⟩
  simpa using Varint.decode_take found []

theorem Width.readList_ok {w : Width} (read : w.readList data offset = .ok (v, after)) :
    offset < after ∧ after ≤ data.length ∧ w.Denotes ((data.drop offset).take (after - offset)) v ∧ v < 2 ^ w.bits := by
  have length (bound : after ≤ data.length) : ((data.drop offset).take (after - offset)).length = after - offset := by
    rw [List.length_take, List.length_drop]
    omega
  cases w with
  | w16 =>
    simp only [Width.readList, varRead7U16] at read
    split at read
    · cases read
    · rename_i inside
      obtain ⟨later, bound, denotes, fits⟩ := varRead7Groups_denotes (by decide : 16 ≤ 32) rfl (by omega) read
      refine ⟨later, bound, ?_, fits⟩
      rw [Width.Denotes, length bound]
      exact denotes
  | w32 =>
    simp only [Width.readList, Uv4.varRead7] at read
    split at read
    · cases read
    · rename_i inside
      rw [varRead7Loop_eq] at read
      obtain ⟨later, bound, denotes, fits⟩ := varRead7Groups_denotes (Nat.le_refl 32) rfl (by omega) read
      refine ⟨later, bound, ?_, fits⟩
      rw [Width.Denotes, length bound]
      exact denotes
  | w64 =>
    simp only [Width.readList, varRead7U64] at read
    split at read
    · cases read
    · rename_i inside
      obtain ⟨n, k, found, value, ended, fits⟩ :=
        varRead7U64Loop_decode (Nat.zero_add 8) (by decide) (by omega : offset + 0 < data.length) read
      obtain ⟨some, bound⟩ := Varint.decodeFull_length found
      rw [List.length_drop] at bound
      have size : after - offset = k := by omega
      have same : v = n := by simpa using value
      refine ⟨by omega, by omega, ?_, fits⟩
      rw [Width.Denotes, length (by omega), size, same]
      simpa using Varint.decodeFull_take found []

end

section
variable (signedChar : Bool) (src : Input) (w : Width)

/-- What `VarRead7` does, if `result` is what it returns and `seen` is what it looks at. -/
def Width.settle (c : Cursor) (seen : List Span) : Except Int (Nat × Nat) → EStateM.Result Int Cursor Nat
  | .ok (n, after) => .ok n ⟨after, seen ++ c.seen⟩
  | .error r => .error r (c.after seen)

theorem Width.loop_refines {offset : Nat} (inside : offset < src.dataLen) (c : Cursor) :
    ∃ seen, (∀ s ∈ seen, s.Below src.dataLen) ∧
      w.loop signedChar src offset (src.dataLen - offset) c = c.follow offset seen (w.readList src.data offset) := by
  have length := src.data_length
  have starts : ¬ offset ≥ src.data.length := by omega
  cases w with
  | w16 =>
    simp only [Width.readList, varRead7U16]
    rw [if_neg starts, length]
    exact lookGroups_refines inside c
  | w32 =>
    simp only [Width.readList, Uv4.varRead7]
    rw [if_neg starts, length, varRead7Loop_eq]
    exact lookGroups_refines inside c
  | w64 =>
    simp only [Width.readList, varRead7U64]
    rw [if_neg starts, length]
    exact lookU64_refines inside c

theorem Width.readList_beyond {data : List UInt8} {offset : Nat} (beyond : offset ≥ data.length) :
    w.readList data offset = .error (-1) := by
  cases w with
  | w16 => exact if_pos beyond
  | w32 => exact if_pos beyond
  | w64 => exact if_pos beyond

theorem Width.varRead7_refines (c : Cursor) :
    ∃ seen, (∀ s ∈ seen, s.Below src.dataLen) ∧
      w.varRead7 signedChar src c = Width.settle c seen (w.readList src.data c.offset) := by
  by_cases beyond : c.offset ≥ src.dataLen
  · refine ⟨[], fun _ member => absurd member List.not_mem_nil, ?_⟩
    rw [w.readList_beyond (by rw [src.data_length]; exact beyond)]
    change (if c.offset ≥ src.dataLen then throw (-1) else _ : Decode Nat) c = _
    rw [if_pos beyond]
    rfl
  · obtain ⟨seen, below, ran⟩ := w.loop_refines signedChar src (Nat.lt_of_not_le beyond) c
    refine ⟨seen, below, ?_⟩
    change (if c.offset ≥ src.dataLen then throw (-1) else _ : Decode Nat) c = _
    rw [if_neg beyond]
    cases read : w.readList src.data c.offset with
    | error r =>
      rw [read] at ran
      exact bind_error ran
    | ok result =>
      obtain ⟨n, after⟩ := result
      rw [read] at ran
      obtain ⟨later, -, -, fits⟩ := Width.readList_ok read
      refine bind_run ran ?_
      change EStateM.Result.ok (n % 2 ^ w.bits) (Cursor.mk (c.offset + (after - c.offset)) (seen ++ c.seen)) = _
      rw [Nat.mod_eq_of_lt fits, Nat.add_sub_cancel' later.le]
      rfl

/-- The bytes from one index to another. -/
def Input.slice (src : Input) (first after : Nat) : List UInt8 := (List.range' first (after - first)).map src.buf

theorem Input.slice_eq {first after : Nat} (ordered : first ≤ after) (bound : after ≤ src.dataLen) :
    (src.data.drop first).take (after - first) = src.slice first after := by
  refine List.ext_getElem ?_ ?_
  · rw [List.length_take, List.length_drop, src.data_length, Input.slice, List.length_map, List.length_range']
    omega
  · intro i _ _
    simp [Input.data, Input.slice]

/-- Only bytes below `dataLen` have been looked at since. -/
def Cursor.LooksBelow (limit : Nat) (c c' : Cursor) : Prop := ∀ s ∈ c'.seen, s ∈ c.seen ∨ s.Below limit

/-- The number is what the bytes denote that were taken for it, and it is one of the width. -/
def Width.Faithful (c : Cursor) : EStateM.Result Int Cursor Nat → Prop
  | .ok n c' => c.LooksBelow src.dataLen c' ∧ c.offset < c'.offset ∧ c'.offset ≤ src.dataLen ∧
      w.Denotes (src.slice c.offset c'.offset) n ∧ n < 2 ^ w.bits
  | .error _ c' => c.LooksBelow src.dataLen c' ∧ c'.offset = c.offset

theorem Width.varRead7_faithful (c : Cursor) : w.Faithful src c (w.varRead7 signedChar src c) := by
  obtain ⟨seen, below, ran⟩ := w.varRead7_refines signedChar src c
  have looks (s : Span) (member : s ∈ seen ++ c.seen) : s ∈ c.seen ∨ s.Below src.dataLen := by
    rcases List.mem_append.mp member with new | old
    · exact .inr (below s new)
    · exact .inl old
  rw [ran]
  cases read : w.readList src.data c.offset with
  | error r => exact ⟨looks, rfl⟩
  | ok result =>
    obtain ⟨n, after⟩ := result
    obtain ⟨later, bound, denotes, fits⟩ := Width.readList_ok read
    rw [src.data_length] at bound
    rw [src.slice_eq later.le bound] at denotes
    exact ⟨looks, later, bound, denotes, fits⟩

/-! ## There and back -/

theorem Width.varWrite7_length_le (u : BitVec w.bits) : (w.varWrite7 u).length ≤ w.bits / 8 + 1 := by
  cases w with
  | w16 =>
    simp only [Width.varWrite7, varWrite7U16, varWrite7Loop_eq]
    exact Varint.encode_length_le 3 _
  | w32 =>
    simp only [Width.varWrite7, Uv4.varWrite7, varWrite7Loop_eq]
    exact Varint.encode_length_le 5 _
  | w64 =>
    simp only [Width.varWrite7, varWrite7U64, varWrite7U64Loop_eq]
    exact Varint.encodeFull_length_le_size 8 _

theorem Width.readList_varWrite7 {data rest : List UInt8} {offset : Nat} {u : BitVec w.bits}
    (shape : data.drop offset = w.varWrite7 u ++ rest) :
    w.readList data offset = .ok (u.toNat, offset + (w.varWrite7 u).length) := by
  cases w with
  | w16 => exact varRead7U16_varWrite7U16 shape
  | w32 => exact varRead7_varWrite7 shape
  | w64 => exact varRead7U64_varWrite7U64 shape

/-- The bytes lie at the index. -/
def Input.Holds (src : Input) (offset : Nat) (bytes : List UInt8) : Prop :=
  offset + bytes.length ≤ src.dataLen ∧ ∀ i, (inside : i < bytes.length) → src.buf (offset + i) = bytes.get ⟨i, inside⟩

theorem Input.Holds.shape {src : Input} {offset : Nat} {bytes : List UInt8} (holds : src.Holds offset bytes) :
    ∃ rest, src.data.drop offset = bytes ++ rest := by
  obtain ⟨bound, same⟩ := holds
  have front : src.slice offset (offset + bytes.length) = bytes := by
    refine List.ext_getElem ?_ ?_
    · rw [Input.slice, List.length_map, List.length_range']
      omega
    · intro i _ inside
      simpa [Input.slice] using same i inside
  have taken := src.slice_eq (Nat.le_add_right offset bytes.length) bound
  rw [front, Nat.add_sub_cancel_left] at taken
  refine ⟨(src.data.drop offset).drop bytes.length, ?_⟩
  have whole := List.take_append_drop bytes.length (src.data.drop offset)
  rw [taken] at whole
  exact whole.symm

theorem Width.readFrom_written (signed : Bool) (v : BitVec w.bits) (c : Cursor)
    (holds : src.Holds c.offset (w.varWrite7 (if signed then zigZagEncode v else v))) :
    ∃ seen, w.readFrom signedChar src signed c =
      .ok v ⟨c.offset + (w.varWrite7 (if signed then zigZagEncode v else v)).length, seen⟩ := by
  obtain ⟨rest, shape⟩ := holds.shape
  obtain ⟨seen, -, ran⟩ := w.varRead7_refines signedChar src c
  rw [w.readList_varWrite7 shape] at ran
  refine ⟨seen ++ c.seen, bind_run ran ?_⟩
  change EStateM.Result.ok (if signed then zigZagDecode (BitVec.ofNat w.bits _) else BitVec.ofNat w.bits _) _ = _
  rw [BitVec.ofNat_toNat, BitVec.setWidth_eq]
  cases signed with
  | false => rfl
  | true => simp [zigZagDecode_zigZagEncode]

theorem Input.append_holds (bb : Input) (bytes : List UInt8) : (bb.append bytes).Holds bb.dataLen bytes := by
  refine ⟨Nat.le_refl _, fun i inside => ?_⟩
  simp [Input.append, inside]

end

/-- What is written goes into the space that is reserved for it and is read back, whatever lies around it. And whatever there
is to read, a number is one that the bytes denote, and nothing is looked at behind the data. -/
theorem varint_codec (signedChar : Bool) (w : Width) :
    (∀ (signed : Bool) (v : BitVec w.bits) (bb : Input), ∃ bytes : List UInt8,
      bytes.length ≤ w.bits / 8 + 1 ∧ (w.writeTo signed v bb).dataLen = bb.dataLen + bytes.length ∧
      (w.writeTo signed v bb).Holds bb.dataLen bytes ∧
      ∀ (src : Input) (c : Cursor), src.Holds c.offset bytes →
        ∃ seen, w.readFrom signedChar src signed c = .ok v ⟨c.offset + bytes.length, seen⟩) ∧
    ∀ (src : Input) (c : Cursor), w.Faithful src c (w.varRead7 signedChar src c) := by
  refine ⟨fun signed v bb => ?_, fun src c => w.varRead7_faithful signedChar src c⟩
  refine ⟨w.varWrite7 (if signed then zigZagEncode v else v), w.varWrite7_length_le _, rfl, bb.append_holds _, ?_⟩
  exact fun src c holds => w.readFrom_written signedChar src signed v c holds

end Xxlib.Uv4
