import Xxlib.Lib.LittleEndian

/-! The hash code of a buffer (`xx_hashutils.hpp`), which is hashed in words of four bytes.

Memory is one space of bytes, of which every byte can be loaded. What overflows an `int32_t` wraps. A function that
runs into an `assert`, or into a loop that goes on, has no result.
-/

set_option autoImplicit false

namespace Xxlib.Uv4

open Lib

/-- `*(int32_t*)p`, as a word. -/
def loadWord (mem : Nat → UInt8) (p : Nat) : UInt32 := UInt32.ofNat (littleEndian mem 4 p)

def mixHash (n : Int32) (word : UInt32) : Int32 := (((n <<< 5) + n) + (n >>> 0x1b)) ^^^ word.toInt32

/-- The loop over eight bytes at a time. `i` is a `uint32_t`, and `len - mod` is a `size_t`. -/
def hashWords (mem : Nat → UInt8) (buf len : Nat) : Nat → Nat → Int32 → Int32 → Option (Nat × Int32 × Int32)
  | 0, _, _, _ => none
  | rounds + 1, i, n1, n2 =>
      if i < len - len % 8 then
        hashWords mem buf len rounds ((i + 8) % 2 ^ 32) (mixHash n1 (loadWord mem (buf + i)))
          (mixHash n2 (loadWord mem (buf + i + 4)))
      else some (i, n1, n2)

def joinHash (n1 n2 : Int32) : UInt32 := (n2 + n1 * 0x5d588b65).toUInt32

/-- What the loop leaves, from `p` on. -/
def hashRest (mem : Nat → UInt8) (p mod : Nat) (n1 n2 : Int32) : UInt32 :=
  if mod > 4 then
    joinHash (mixHash n1 (loadWord mem p))
      (mixHash n2 (loadWord mem (p + 4) &&& (0xFFFFFFFF >>> UInt32.ofNat ((8 - mod) * 8))))
  else if mod ≠ 0 then
    joinHash (mixHash n1 (loadWord mem p &&& (0xFFFFFFFF >>> UInt32.ofNat ((4 - mod) * 8)))) n2
  else joinHash n1 n2

/-- What the function asserts of its buffer. With `NDEBUG`, nothing is asserted. -/
def PassesAssert (ndebug : Bool) (buf : Nat) : Prop := ndebug = true ∨ buf % 4 = 0

instance (ndebug : Bool) (buf : Nat) : Decidable (PassesAssert ndebug buf) := inferInstanceAs (Decidable (_ ∨ _))

/-- `HashFunc<std::pair<char*, size_t>>`. -/
def hashBuffer (ndebug : Bool) (mem : Nat → UInt8) (rounds buf len : Nat) : Option UInt32 :=
  if ¬ PassesAssert ndebug buf then none
  else if len = 0 then some 0
  else (hashWords mem buf len rounds 0 0x15051505 0x15051505).map fun r => hashRest mem (buf + r.1) (len % 8) r.2.1 r.2.2

section
variable {ndebug : Bool} {mem mem' : Nat → UInt8} {p q i k m len rounds : Nat} {n1 n2 : Int32} {r : Nat × Int32 × Int32}

theorem loadWord_congr (same : SameBytes mem mem' p q 4) : loadWord mem p = loadWord mem' q :=
  congrArg UInt32.ofNat (littleEndian_congr same)

theorem mask_toNat (some : 0 < k) (few : k ≤ 4) : ((0xFFFFFFFF : UInt32) >>> UInt32.ofNat ((4 - k) * 8)).toNat = 2 ^ (8 * k) - 1 := by
  obtain rfl | rfl | rfl | rfl : k = 1 ∨ k = 2 ∨ k = 3 ∨ k = 4 := by omega
  all_goals rfl

/-- The mask for `k` bytes leaves these bytes of the word, whatever is behind them. -/
theorem loadWord_masked (some : 0 < k) (few : k ≤ 4) :
    loadWord mem p &&& (0xFFFFFFFF >>> UInt32.ofNat ((4 - k) * 8)) = UInt32.ofNat (littleEndian mem k p) := by
  have whole : littleEndian mem 4 p < 2 ^ 32 := littleEndian_lt mem 4 p
  have part : littleEndian mem k p ≤ littleEndian mem 4 p := by
    rw [← littleEndian_mod few p]
    exact Nat.mod_le _ _
  apply UInt32.toNat_inj.mp
  rw [UInt32.toNat_and, mask_toNat some few, Nat.and_two_pow_sub_one_eq_mod, loadWord, UInt32.toNat_ofNat_of_lt' whole,
    UInt32.toNat_ofNat_of_lt' (Nat.lt_of_le_of_lt part whole), Nat.pow_mul]
  exact littleEndian_mod few p

theorem masked_congr (same : SameBytes mem mem' p q k) (some : 0 < k) (few : k ≤ 4) :
    loadWord mem p &&& (0xFFFFFFFF >>> UInt32.ofNat ((4 - k) * 8)) =
      loadWord mem' q &&& (0xFFFFFFFF >>> UInt32.ofNat ((4 - k) * 8)) := by
  rw [loadWord_masked some few, loadWord_masked some few, littleEndian_congr same]

/-- The rest of a buffer is hashed from its own bytes. -/
theorem hashRest_congr (same : SameBytes mem mem' p q m) (few : m < 8) (n1 n2 : Int32) :
    hashRest mem p m n1 n2 = hashRest mem' q m n1 n2 := by
  unfold hashRest
  split
  · rename_i more
    have first : loadWord mem p = loadWord mem' q := loadWord_congr (same.part 0 (by omega))
    rw [show 8 - m = 4 - (m - 4) by omega, first, masked_congr (same.part 4 (by omega)) (Nat.sub_pos_of_lt more) (by omega)]
  · split
    · rw [masked_congr same (by omega) (by omega)]
    · rfl

/-! ## The loop

It stands at a multiple of eight, which is at most `len - mod`.
-/

structure AtWords (len i : Nat) : Prop where
  multiple : 8 ∣ i
  inside : i ≤ len - len % 8

theorem AtWords.start (len : Nat) : AtWords len 0 := ⟨Nat.dvd_zero 8, Nat.zero_le _⟩

theorem AtWords.fits (here : AtWords len i) (more : i < len - len % 8) : i + 8 ≤ len - len % 8 := by
  have multiple := here.multiple
  omega

theorem AtWords.next (here : AtWords len i) (more : i < len - len % 8) : AtWords len ((i + 8) % 2 ^ 32) := by
  have multiple := here.multiple
  have fits := here.fits more
  exact ⟨by omega, Nat.le_trans (Nat.mod_le _ _) fits⟩

theorem hashWords_congr (same : SameBytes mem mem' p q len) (here : AtWords len i) :
    hashWords mem p len rounds i n1 n2 = hashWords mem' q len rounds i n1 n2 := by
  induction rounds generalizing i n1 n2 with
  | zero => rfl
  | succ rounds ih =>
    rw [hashWords, hashWords]
    by_cases more : i < len - len % 8
    · have fits := here.fits more
      rw [if_pos more, if_pos more, ih (here.next more), loadWord_congr (same.part i (by omega)), Nat.add_assoc p, Nat.add_assoc q,
        loadWord_congr (same.part (i + 4) (by omega))]
    · rw [if_neg more, if_neg more]

/-- The loop ends where the last whole words do. -/
theorem hashWords_end (here : AtWords len i) (done : hashWords mem p len rounds i n1 n2 = some r) : r.1 = len - len % 8 := by
  induction rounds generalizing i n1 n2 with
  | zero => cases done
  | succ rounds ih =>
    rw [hashWords] at done
    split at done
    · exact ih (here.next ‹_›) done
    · cases done
      have inside := here.inside
      omega

theorem hashWords_more (done : hashWords mem p len rounds i n1 n2 = some r) (more : Nat) :
    hashWords mem p len (rounds + more) i n1 n2 = some r := by
  induction rounds generalizing i n1 n2 with
  | zero => cases done
  | succ rounds ih =>
    rw [Nat.add_right_comm, hashWords]
    rw [hashWords] at done
    split at done
    · rw [if_pos ‹_›, ih done]
    · rw [if_neg ‹_›, done]

/-- A length that a `uint32_t` counts is reached. -/
theorem hashWords_returns (here : AtWords len i) (small : len < 2 ^ 32) (enough : (len - i) / 8 < rounds) :
    (hashWords mem p len rounds i n1 n2).isSome := by
  induction rounds generalizing i n1 n2 with
  | zero => cases enough
  | succ rounds ih =>
    rw [hashWords]
    split
    · have fits := here.fits ‹_›
      apply ih (here.next ‹_›)
      rw [Nat.mod_eq_of_lt (by omega)]
      omega
    · rfl

/-- A longer buffer hangs: `i` wraps before it gets there. -/
theorem hashWords_never (large : 2 ^ 32 ≤ len) (word : i < 2 ^ 32) (here : 8 ∣ i) : hashWords mem p len rounds i n1 n2 = none := by
  induction rounds generalizing i n1 n2 with
  | zero => rfl
  | succ rounds ih =>
    rw [hashWords, if_pos (by omega)]
    exact ih (Nat.mod_lt _ (by decide)) (by omega)

/-! ## The hash code -/

/-- Buffers that hold the same bytes have the same hash code, if they have one. -/
theorem hashBuffer_congr (same : SameBytes mem mem' p q len) (aligned : PassesAssert ndebug p)
    (aligned' : PassesAssert ndebug q) (rounds : Nat) :
    hashBuffer ndebug mem rounds p len = hashBuffer ndebug mem' rounds q len := by
  unfold hashBuffer
  rw [if_neg (not_not_intro aligned), if_neg (not_not_intro aligned')]
  split
  · rfl
  · rw [hashWords_congr same (AtWords.start len)]
    apply Option.map_congr
    intro r done
    rw [hashWords_end (AtWords.start len) done]
    exact hashRest_congr (same.part _ (by omega)) (Nat.mod_lt len (by decide)) r.2.1 r.2.2

theorem hashBuffer_more {h : UInt32} (done : hashBuffer ndebug mem rounds p len = some h) (more : Nat) :
    hashBuffer ndebug mem (rounds + more) p len = some h := by
  unfold hashBuffer at done ⊢
  split at done
  · cases done
  · rw [if_neg ‹_›]
    split at done
    · rw [if_pos ‹_›, done]
    · obtain ⟨r, found, rfl⟩ := Option.map_eq_some_iff.mp done
      rw [if_neg ‹_›, hashWords_more found]
      rfl

theorem hashBuffer_returns (aligned : PassesAssert ndebug p) (small : len < 2 ^ 32) (enough : len / 8 < rounds) :
    (hashBuffer ndebug mem rounds p len).isSome := by
  unfold hashBuffer
  rw [if_neg (not_not_intro aligned)]
  split
  · rfl
  · rw [Option.isSome_map]
    exact hashWords_returns (AtWords.start len) small enough

theorem hashBuffer_aligned {h : UInt32} (done : hashBuffer ndebug mem rounds p len = some h) : PassesAssert ndebug p := by
  by_contra skew
  rw [hashBuffer, if_pos skew] at done
  cases done

/-- The buffers that have a hash code. -/
theorem hashBuffer_returns_iff : (∃ rounds, (hashBuffer ndebug mem rounds p len).isSome) ↔ PassesAssert ndebug p ∧ len < 2 ^ 32 := by
  constructor
  · rintro ⟨rounds, done⟩
    obtain ⟨h, done⟩ := Option.isSome_iff_exists.mp done
    refine ⟨hashBuffer_aligned done, ?_⟩
    by_contra large
    rw [Nat.not_lt] at large
    rw [hashBuffer, if_neg (not_not_intro (hashBuffer_aligned done)), if_neg (by omega),
      hashWords_never large (by decide) (Nat.dvd_zero 8)] at done
    cases done
  · rintro ⟨aligned, small⟩
    exact ⟨len / 8 + 1, hashBuffer_returns aligned small (Nat.lt_succ_self _)⟩

/-- A hash code does not depend on what the memory holds elsewhere, nor on when the loop is stopped. -/
theorem hashBuffer_unique {rounds' : Nat} {h h' : UInt32} (same : SameBytes mem mem' p q len)
    (first : hashBuffer ndebug mem rounds p len = some h) (second : hashBuffer ndebug mem' rounds' q len = some h') : h = h' := by
  have longer := hashBuffer_more first rounds'
  rw [hashBuffer_congr same (hashBuffer_aligned first) (hashBuffer_aligned second), Nat.add_comm,
    hashBuffer_more second rounds] at longer
  exact (Option.some.inj longer).symm

end

end Xxlib.Uv4
