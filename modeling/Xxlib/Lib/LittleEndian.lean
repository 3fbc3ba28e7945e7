import Mathlib.Algebra.Group.Int.Defs
import Mathlib.Algebra.Group.Nat.Defs
import Xxlib.Lib.CString

/-! Words in memory, the low byte first, and the functions that compare memory and strings. -/

set_option autoImplicit false

namespace Xxlib.Lib

/-- The number that `k` bytes from `p` on make. -/
def littleEndian (mem : Nat → UInt8) : Nat → Nat → Nat
  | 0, _ => 0
  | k + 1, p => (mem p).toNat + 256 * littleEndian mem k (p + 1)

/-- The bytes from `p` on and those from `q` on are the same `k` bytes. -/
def SameBytes (mem mem' : Nat → UInt8) (p q k : Nat) : Prop := ∀ i, i < k → mem (p + i) = mem' (q + i)

section
variable {mem mem' : Nat → UInt8} {p q k m rounds : Nat} {x : List UInt8}

theorem SameBytes.part (same : SameBytes mem mem' p q k) (s : Nat) (inside : s + m ≤ k) : SameBytes mem mem' (p + s) (q + s) m := by
  intro i small
  rw [Nat.add_assoc, Nat.add_assoc]
  exact same (s + i) (by omega)

theorem SameBytes.first (same : SameBytes mem mem' p q (k + 1)) : mem p = mem' q := same 0 (Nat.zero_lt_succ k)

theorem SameBytes.rest (same : SameBytes mem mem' p q (k + 1)) : SameBytes mem mem' (p + 1) (q + 1) k :=
  same.part 1 (Nat.le_of_eq (Nat.add_comm 1 k))

theorem sameBytes_succ : SameBytes mem mem' p q (k + 1) ↔ mem p = mem' q ∧ SameBytes mem mem' (p + 1) (q + 1) k := by
  constructor
  · exact fun same => ⟨same.first, same.rest⟩
  · rintro ⟨first, rest⟩ i small
    cases i with
    | zero => exact first
    | succ i =>
      have next := rest i (Nat.lt_of_succ_lt_succ small)
      rwa [Nat.add_assoc, Nat.add_assoc, Nat.add_comm 1] at next

theorem Stored.sameBytes (first : Stored mem p x) (second : Stored mem' q x) : SameBytes mem mem' p q x.length := by
  intro i small
  rw [first.getElem i small, second.getElem i small]

theorem littleEndian_congr (same : SameBytes mem mem' p q k) : littleEndian mem k p = littleEndian mem' k q := by
  induction k generalizing p q with
  | zero => rfl
  | succ k ih => rw [littleEndian, littleEndian, same.first, ih same.rest]

theorem littleEndian_lt (mem : Nat → UInt8) (k p : Nat) : littleEndian mem k p < 256 ^ k := by
  induction k generalizing p with
  | zero => exact Nat.one_pos
  | succ k ih =>
    have low := (mem p).toNat_lt
    have high := ih (p + 1)
    rw [littleEndian, Nat.pow_succ]
    omega

/-- The low bytes of a word are the first ones. -/
theorem littleEndian_mod (few : m ≤ k) (p : Nat) : littleEndian mem k p % 256 ^ m = littleEndian mem m p := by
  induction m generalizing k p with
  | zero => exact Nat.mod_one _
  | succ m ih =>
    obtain ⟨k, rfl⟩ := Nat.exists_eq_add_one_of_ne_zero (Nat.ne_zero_of_lt few)
    have low := (mem p).toNat_lt
    have head : ((mem p).toNat + 256 * littleEndian mem k (p + 1)) % 256 = (mem p).toNat := by omega
    have tail : ((mem p).toNat + 256 * littleEndian mem k (p + 1)) / 256 = littleEndian mem k (p + 1) := by omega
    rw [littleEndian, littleEndian, ← ih (Nat.le_of_succ_le_succ few), Nat.pow_succ', Nat.mod_mul, head, tail]

/-- What a loop over `k` bytes from `p` on makes of `r`. -/
def foldBytes {β : Type} (f : β → UInt8 → β) (mem : Nat → UInt8) : Nat → Nat → β → β
  | 0, _, r => r
  | k + 1, p, r => foldBytes f mem k (p + 1) (f r (mem p))

theorem foldBytes_congr {β : Type} (f : β → UInt8 → β) (same : SameBytes mem mem' p q k) (r : β) :
    foldBytes f mem k p r = foldBytes f mem' k q r := by
  induction k generalizing p q r with
  | zero => rfl
  | succ k ih => rw [foldBytes, foldBytes, same.first, ih same.rest]

/-! ## Comparing -/

/-- `memcmp`: the difference of the first two bytes that are not the same. -/
def memcmp (mem : Nat → UInt8) (p q : Nat) : Nat → Int
  | 0 => 0
  | k + 1 => if mem p = mem q then memcmp mem (p + 1) (q + 1) k else (mem p).toNat - (mem q).toNat

/-- `strcmp`, if it ends after so many bytes. -/
def strcmp (mem : Nat → UInt8) : Nat → Nat → Nat → Option Int
  | 0, _, _ => none
  | rounds + 1, p, q =>
      if mem p = mem q then if mem p = 0 then some 0 else strcmp mem rounds (p + 1) (q + 1)
      else some ((mem p).toNat - (mem q).toNat)

/-- `strlen`, if it ends after so many bytes. -/
def strlen (mem : Nat → UInt8) : Nat → Nat → Option Nat
  | 0, _ => none
  | rounds + 1, p => if mem p = 0 then some 0 else (strlen mem rounds (p + 1)).map (· + 1)

theorem difference_ne_zero {a b : UInt8} (differ : ¬ a = b) : (a.toNat : Int) - b.toNat ≠ 0 := by
  intro zero
  exact differ (UInt8.toNat_inj.mp (by omega))

theorem memcmp_eq_zero_iff : memcmp mem p q k = 0 ↔ SameBytes mem mem p q k := by
  induction k generalizing p q with
  | zero => exact ⟨fun _ i small => absurd small (Nat.not_lt_zero i), fun _ => rfl⟩
  | succ k ih =>
    rw [memcmp, sameBytes_succ]
    split
    · rw [ih]
      exact ⟨fun rest => ⟨‹_›, rest⟩, And.right⟩
    · exact ⟨fun zero => absurd zero (difference_ne_zero ‹_›), fun same => absurd same.1 ‹_›⟩

theorem CString.cons (string : CString mem (p + 1) x) (some : mem p ≠ 0) : CString mem p (mem p :: x) where
  stored := ⟨rfl, string.stored⟩
  solid member := by
    rcases List.mem_cons.mp member with zero | later
    · exact some zero.symm
    · exact string.solid later
  zero := by
    rw [List.length_cons, Nat.add_comm x.length, ← Nat.add_assoc]
    exact string.zero

theorem CString.nil (zero : mem p = 0) : CString mem p [] := ⟨trivial, List.not_mem_nil, zero⟩

/-- Strings that compare as equal are the same string at both places. -/
theorem cstring_of_strcmp (equal : strcmp mem rounds p q = some 0) :
    ∃ x : List UInt8, CString mem p x ∧ CString mem q x := by
  induction rounds generalizing p q with
  | zero => cases equal
  | succ rounds ih =>
    rw [strcmp] at equal
    split at equal
    · rename_i same
      split at equal
      · exact ⟨[], .nil ‹_›, .nil (same.symm.trans ‹_›)⟩
      · obtain ⟨x, first, second⟩ := ih equal
        refine ⟨mem p :: x, first.cons ‹_›, ?_⟩
        rw [same]
        exact second.cons (same ▸ ‹_›)
    · exact absurd (Option.some.inj equal) (difference_ne_zero ‹_›)

theorem cstring_of_strlen {n : Nat} (found : strlen mem rounds p = some n) : ∃ x : List UInt8, CString mem p x ∧ x.length = n := by
  induction rounds generalizing p n with
  | zero => cases found
  | succ rounds ih =>
    rw [strlen] at found
    split at found
    · exact ⟨[], .nil ‹_›, Option.some.inj found⟩
    · obtain ⟨n, later, rfl⟩ := Option.map_eq_some_iff.mp found
      obtain ⟨x, string, rfl⟩ := ih later
      exact ⟨mem p :: x, string.cons ‹_›, rfl⟩

theorem CString.strlen (string : CString mem p x) (enough : x.length < rounds) : Lib.strlen mem rounds p = some x.length := by
  induction x generalizing p rounds with
  | nil =>
    obtain ⟨rounds, rfl⟩ := Nat.exists_eq_add_one_of_ne_zero (Nat.ne_zero_of_lt enough)
    exact if_pos string.zero
  | cons b x ih =>
    obtain ⟨rounds, rfl⟩ := Nat.exists_eq_add_one_of_ne_zero (Nat.ne_zero_of_lt enough)
    have solid := string.solid
    rw [List.mem_cons, not_or, ← string.stored.1] at solid
    have rest : CString mem (p + 1) x := @CString.drop mem p [b] x string
    rw [Lib.strlen, if_neg (Ne.symm solid.1), ih rest (Nat.lt_of_succ_lt_succ enough)]
    rfl

end

end Xxlib.Lib
