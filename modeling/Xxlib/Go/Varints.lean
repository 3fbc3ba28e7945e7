import Xxlib.Go.Values
import Xxlib.Lib.ZigZag

/-! The bytes of `WriteVarUInt64` and `WriteVarInt64`, whatever is in the buffer before and behind them. -/

set_option autoImplicit false

namespace Xxlib.Go

open Lib

/-- Ten rounds are enough for the loop of the writer. -/
theorem varUInt64Bytes_full (more : Nat) (v : UInt64) : varUInt64Bytes (10 + more) v = Varint.encodeFull 9 v.toNat := by
  have bound := v.toNat_lt
  rw [varUInt64Bytes_eq]
  exact @Varint.encode_eq_encodeFull 9 _ (Nat.lt_trans bound (by decide)) more

theorem varUInt64Bytes_length (v : UInt64) : (varUInt64Bytes 10 v).length ≤ 10 := by
  rw [varUInt64Bytes_eq]
  exact Varint.encode_length_le 10 v.toNat

/-- Both numbers can be read from the longer text. -/
theorem varUInt64Bytes_continued {v w : UInt64} {rest : List UInt8} (longer : varUInt64Bytes 10 w = varUInt64Bytes 10 v ++ rest) :
    rest = [] ∧ w = v := by
  have first : readVarUInt64Loop (varUInt64Bytes 10 w) 10 0 0 0 = .ok (v, 0 + (varUInt64Bytes 10 v).length) :=
    readVarUInt64Loop_varUInt64Bytes longer
  have second : readVarUInt64Loop (varUInt64Bytes 10 w) 10 0 0 0 = .ok (w, 0 + (varUInt64Bytes 10 w).length) :=
    readVarUInt64Loop_varUInt64Bytes (List.append_nil _).symm
  have same := Except.ok.inj (first.symm.trans second)
  have lengths := congrArg Prod.snd same
  rw [longer, List.length_append] at lengths
  exact ⟨List.eq_nil_of_length_eq_zero (by omega), (congrArg Prod.fst same).symm⟩

theorem zigzag_toNat (v : Int64) : ((zigzag v).toNat : Int) = if 0 ≤ v.toInt then 2 * v.toInt else -2 * v.toInt - 1 :=
  zigZagEncode_toNat (w := 64) (by decide) v.toBitVec

/-- Values with few bits have few bytes. -/
theorem zigzag_length {v : Int64} {k : Nat} (some : 0 < k) (small : v.toInt.natAbs < 2 ^ (7 * k - 1)) :
    (varUInt64Bytes 10 (zigzag v)).length ≤ k := by
  have value := zigzag_toNat v
  have half : 2 ^ (7 * k) = 2 * 2 ^ (7 * k - 1) := by
    rw [← Nat.pow_succ']
    congr 1
    omega
  have few : (zigzag v).toNat < 2 ^ (7 * k) := by
    rw [half]
    generalize 2 ^ (7 * k - 1) = bound at small
    split at value <;> omega
  have full : varUInt64Bytes 10 (zigzag v) = Varint.encodeFull 9 (zigzag v).toNat := varUInt64Bytes_full 0 (zigzag v)
  rw [full]
  exact Varint.encodeFull_length_le some few 9

theorem readVarInt64_eq {m : Memory} {tail : List UInt8} {v : Int64} (input : m.unread = varUInt64Bytes 10 (zigzag v) ++ tail) :
    readVarInt64 m = .ok v (m.advanced (varUInt64Bytes 10 (zigzag v)).length) := by
  change EStateM.bind readVarUInt64 (fun x => pure (unzigzag x)) m = _
  rw [EStateM.bind, readVarUInt64_eq input]
  exact congrArg (EStateM.Result.ok · _) (unzigzag_zigzag v)

/-- Numbers are read back from the place where they begin, and no bytes of one begin those of another. -/
theorem varint_core (v : UInt64) (x : Int64) :
    (∀ more, varUInt64Bytes (10 + more) v = varUInt64Bytes 10 v) ∧
      (∀ m, writeVarUInt64 v m = .ok () (m.appended (varUInt64Bytes 10 v))) ∧
      (1 ≤ (varUInt64Bytes 10 v).length ∧ (varUInt64Bytes 10 v).length ≤ 10) ∧
      (∀ m tail, m.unread = varUInt64Bytes 10 v ++ tail → readVarUInt64 m = .ok v (m.advanced (varUInt64Bytes 10 v).length)) ∧
      (∀ w rest, varUInt64Bytes 10 w = varUInt64Bytes 10 v ++ rest → rest = []) ∧
      (∀ m, writeVarInt64 x m = .ok () (m.appended (varUInt64Bytes 10 (zigzag x)))) ∧
      (∀ m tail, m.unread = varUInt64Bytes 10 (zigzag x) ++ tail →
        readVarInt64 m = .ok x (m.advanced (varUInt64Bytes 10 (zigzag x)).length)) ∧
      ∀ k, 0 < k → x.toInt.natAbs < 2 ^ (7 * k - 1) → (varUInt64Bytes 10 (zigzag x)).length ≤ k :=
  ⟨fun more => (varUInt64Bytes_full more v).trans (varUInt64Bytes_full 0 v).symm, fun _ => rfl,
    ⟨varUInt64Bytes_pos v, varUInt64Bytes_length v⟩, fun _ _ => readVarUInt64_eq, fun _ _ longer => (varUInt64Bytes_continued longer).1,
    fun _ => rfl, fun _ _ => readVarInt64_eq, fun _ => zigzag_length⟩

theorem varint_core_300 :
    readVarUInt64 ⟨[], { buf := ⟨[9, 0xAC, 0x02, 7], []⟩, offset := 1 }⟩ =
        .ok 300 ⟨[], { buf := ⟨[9, 0xAC, 0x02, 7], []⟩, offset := 3 }⟩ ∧
      (varUInt64Bytes 10 (zigzag (-63))).length ≤ 1 :=
  ⟨(varint_core 300 0).2.2.2.1 ⟨[], { buf := ⟨[9, 0xAC, 0x02, 7], []⟩, offset := 1 }⟩ [7] rfl,
    (varint_core 0 (-63)).2.2.2.2.2.2.2 1 (by decide) (by decide)⟩

end Xxlib.Go
