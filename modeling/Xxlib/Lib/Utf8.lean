import Mathlib.Data.Nat.Basic

/-! Code points as bytes, also those of surrogates. -/

set_option autoImplicit false

namespace Xxlib.Lib.Utf8

def encode (n : Nat) : List UInt8 :=
  if n < 0x80 then [UInt8.ofNat n]
  else if n < 0x800 then [UInt8.ofNat (0xC0 + n / 64), UInt8.ofNat (0x80 + n % 64)]
  else if n < 0x10000 then
    [UInt8.ofNat (0xE0 + n / 4096), UInt8.ofNat (0x80 + n / 64 % 64), UInt8.ofNat (0x80 + n % 64)]
  else
    [UInt8.ofNat (0xF0 + n / 262144), UInt8.ofNat (0x80 + n / 4096 % 64), UInt8.ofNat (0x80 + n / 64 % 64),
      UInt8.ofNat (0x80 + n % 64)]

/-- A byte that does not begin a character. -/
def Tail (b : UInt8) : Prop := 0x80 ≤ b.toNat ∧ b.toNat < 0xC0

theorem tail_group (n : Nat) : Tail (UInt8.ofNat (0x80 + n % 64)) := by
  unfold Tail
  rw [UInt8.toNat_ofNat']
  omega

/-- One byte that begins the character, and then others. -/
structure Shape (n : Nat) (first : UInt8) (rest : List UInt8) : Prop where
  eq : encode n = first :: rest
  begins : ¬ Tail first
  follow : ∀ b ∈ rest, Tail b
  single : rest = [] ↔ n < 0x80

theorem encode_shape {n : Nat} (valid : n < 0x110000) : ∃ first rest, Shape n first rest := by
  have first : ∀ m, (m < 0x80 ∨ 0xC0 ≤ m ∧ m < 0x100) → ¬ Tail (UInt8.ofNat m) := by
    intro m range tail
    unfold Tail at tail
    rw [UInt8.toNat_ofNat'] at tail
    omega
  by_cases one : n < 0x80
  · exact ⟨UInt8.ofNat n, [], if_pos one, first _ (.inl one), by simp, iff_of_true rfl one⟩
  · have more : ∀ {b : UInt8} {l : List UInt8}, b :: l = [] ↔ n < 0x80 := iff_of_false (List.cons_ne_nil _ _) one
    by_cases two : n < 0x800
    · refine ⟨_, _, by rw [encode, if_neg one, if_pos two], first _ (.inr (by omega)), ?_, more⟩
      simp only [List.forall_mem_cons, List.not_mem_nil, false_imp_iff, implies_true, tail_group, and_self]
    · by_cases three : n < 0x10000
      · refine ⟨_, _, by rw [encode, if_neg one, if_neg two, if_pos three], first _ (.inr (by omega)), ?_, more⟩
        simp only [List.forall_mem_cons, List.not_mem_nil, false_imp_iff, implies_true, tail_group, and_self]
      · refine ⟨_, _, by rw [encode, if_neg one, if_neg two, if_neg three], first _ (.inr (by omega)), ?_, more⟩
        simp only [List.forall_mem_cons, List.not_mem_nil, false_imp_iff, implies_true, tail_group, and_self]

/-- It is the encoding of a character that is one. -/
theorem encode_char (c : Char) : encode c.toNat = String.utf8EncodeChar c := by
  have valid : c.toNat < 0x110000 := by
    rcases c.valid with low | high
    · exact Nat.lt_trans low (by decide)
    · exact high.2
  unfold String.utf8EncodeChar
  change _ = if c.toNat ≤ 0x7f then _ else if c.toNat ≤ 0x7ff then _ else if c.toNat ≤ 0xffff then _ else _
  by_cases one : c.toNat < 0x80
  · rw [if_pos (show c.toNat ≤ 0x7f by omega)]
    exact if_pos one
  · rw [if_neg (show ¬ c.toNat ≤ 0x7f by omega)]
    by_cases two : c.toNat < 0x800
    · have high : c.toNat / 64 % 0x20 = c.toNat / 64 := Nat.mod_eq_of_lt (by omega)
      rw [if_pos (show c.toNat ≤ 0x7ff by omega), encode, if_neg one, if_pos two]
      change _ = [UInt8.ofNat (c.toNat / 64 % 0x20 + 0xc0), UInt8.ofNat (c.toNat % 0x40 + 0x80)]
      rw [high, Nat.add_comm, Nat.add_comm (c.toNat % 64)]
    · rw [if_neg (show ¬ c.toNat ≤ 0x7ff by omega)]
      by_cases three : c.toNat < 0x10000
      · have high : c.toNat / 4096 % 0x10 = c.toNat / 4096 := Nat.mod_eq_of_lt (by omega)
        rw [if_pos (show c.toNat ≤ 0xffff by omega), encode, if_neg one, if_neg two, if_pos three]
        change _ = [UInt8.ofNat (c.toNat / 4096 % 0x10 + 0xe0), UInt8.ofNat (c.toNat / 64 % 0x40 + 0x80),
          UInt8.ofNat (c.toNat % 0x40 + 0x80)]
        rw [high, Nat.add_comm, Nat.add_comm (c.toNat / 64 % 64), Nat.add_comm (c.toNat % 64)]
      · have high : c.toNat / 262144 % 0x08 = c.toNat / 262144 := Nat.mod_eq_of_lt (by omega)
        rw [if_neg (show ¬ c.toNat ≤ 0xffff by omega), encode, if_neg one, if_neg two, if_neg three]
        change _ = [UInt8.ofNat (c.toNat / 262144 % 0x08 + 0xf0), UInt8.ofNat (c.toNat / 4096 % 0x40 + 0x80),
          UInt8.ofNat (c.toNat / 64 % 0x40 + 0x80), UInt8.ofNat (c.toNat % 0x40 + 0x80)]
        rw [high, Nat.add_comm, Nat.add_comm (c.toNat / 4096 % 64), Nat.add_comm (c.toNat / 64 % 64),
          Nat.add_comm (c.toNat % 64)]

end Xxlib.Lib.Utf8
