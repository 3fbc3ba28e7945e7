import Mathlib.Data.UInt
import Xxlib.Lib.Invariant
import Xxlib.Uv3.Capacity

/-! Which writes stay within the capacity of their buffer.

Each request reserves what it believes to need. Whether that is enough depends on the request and on the buffer that it
comes to, and a request that does not fit stores beyond the capacity.
-/

set_option autoImplicit false

namespace Xxlib.Uv3.Capacity

open Lib

/-! ## Requests that fit -/

/-- The capacity that `Reserve` leaves. -/
def room (cap n : Nat) : Nat := if n ≤ cap then cap else round2n n

/-- A number of ten groups is written only if more than its nine bytes have been reserved, the copy of a block
after a length of more than five groups only if the block goes in all the same. -/
def Step.Fits (s : Step) : Prop :=
  match s.request with
  | .copy _ _ => False
  | .append count => s.len + count ≤ 2 ^ 63
  | .varInteger size u =>
      s.len + (size + 1) ≤ 2 ^ 63 ∧ (u < 2 ^ 63 ∨ room s.cap (s.len + (size + 1)) ≠ s.len + (size + 1))
  | .double _ => s.len + 9 ≤ 2 ^ 63
  | .block bytes count =>
      s.len + 5 + bytes ≤ 2 ^ 63 ∧ s.len + 9 ≤ 2 ^ 63 ∧
        (count < 2 ^ 35 ∨ s.len + (varInteger (BitVec.ofNat 64 count)).length + bytes ≤
          room (room s.cap (s.len + 5 + bytes)) (s.len + 9))
  | .reserve bytes => (s.len + 5 + bytes) % 2 ^ 64 ≤ 2 ^ 63 ∨ s.len = 0
  | .resize len => len ≤ 2 ^ 63

/-- What should hold of a buffer at all times. -/
structure Machine.Sound (m : Machine) : Prop where
  length : m.len ≤ m.cap
  allocated : m.cap ≤ m.buf.getD 0
  stores : ∀ s ∈ m.stores, s.Within

def Machine.Fitting (m : Machine) : Prop := ∀ s ∈ m.steps, s.Fits

/-- A capacity that `Round2n` leaves is a power of two. -/
structure Machine.Whole (m : Machine) : Prop extends m.Sound where
  word : m.cap ≤ 2 ^ 63

/-- The buffer is sound and every request has fitted, or one has not and something was stored beyond the capacity. -/
def Machine.Tells (m : Machine) : Prop := Told m.Whole (∀ s ∈ m.stores, s.Within) m.Fitting

/-- A request that gets no block may have been one that does not fit. -/
def Machine.Halts (fault : Halt) (m : Machine) : Prop :=
  match fault with
  | .noBlock => m.Fitting → m.Whole
  | .asserted | .invalid | .endless => m.Tells

abbrev Upholds {α : Type} (x : Run α) : Prop := Keeps Machine.Tells Machine.Halts x

/-! ## Stores -/

theorem Store.within_iff (s : Store) : s.Within ↔ s.count = 0 ∨ s.index + s.count ≤ s.cap := by
  unfold Store.Within
  constructor
  · intro within
    rcases Nat.eq_zero_or_pos s.count with none | some
    · exact .inl none
    · have last := within (s.count - 1) (by omega)
      exact .inr (by omega)
  · intro fits i inside
    omega

instance (s : Store) : Decidable s.Within := decidable_of_iff _ s.within_iff.symm

instance (m : Machine) : Decidable m.Sound :=
  decidable_of_iff (m.len ≤ m.cap ∧ m.cap ≤ m.buf.getD 0 ∧ ∀ s ∈ m.stores, s.Within)
    ⟨fun ⟨length, allocated, stores⟩ => ⟨length, allocated, stores⟩,
      fun sound => ⟨sound.length, sound.allocated, sound.stores⟩⟩

section
variable {m m' : Machine}

theorem beyond_of_mem {s : Store} (stored : s ∈ m.stores) (some : s.count ≠ 0) (beyond : s.cap < s.index + s.count) :
    ¬ ∀ s ∈ m.stores, s.Within := by
  intro within
  have inside := s.within_iff.mp (within s stored)
  omega

/-- Only the buffer and what was stored count. -/
theorem Machine.Whole.same (whole : m.Whole) (len : m'.len = m.len) (cap : m'.cap = m.cap) (buf : m'.buf = m.buf)
    (stores : m'.stores = m.stores) : m'.Whole := by
  refine ⟨⟨?_, ?_, ?_⟩, ?_⟩
  · rw [len, cap]
    exact whole.length
  · rw [cap, buf]
    exact whole.allocated
  · rw [stores]
    exact whole.stores
  · rw [cap]
    exact whole.word

theorem Machine.Whole.stored {count : Nat} (whole : m.Whole) (fits : m.len + count ≤ m.cap) :
    (m.stored count).Whole := by
  have word := whole.word
  refine ⟨⟨?_, whole.allocated, ?_⟩, word⟩
  · change (m.len + count) % 2 ^ 64 ≤ m.cap
    rw [Nat.mod_eq_of_lt (by omega)]
    exact fits
  · intro s member
    rcases List.mem_cons.mp member with rfl | old
    · exact (Store.within_iff _).mpr (.inr fits)
    · exact whole.stores s old

/-- What `Reserve` leaves if it gets its block. -/
def Machine.reserved (m : Machine) (n : Nat) : Machine := if n ≤ m.cap then m else m.grown (round2n n)

@[simp] theorem Machine.reserved_cap (m : Machine) (n : Nat) : (m.reserved n).cap = room m.cap n := by
  unfold reserved room
  split <;> rfl

@[simp] theorem Machine.reserved_len (m : Machine) (n : Nat) : (m.reserved n).len = m.len := by
  unfold reserved
  split <;> rfl

@[simp] theorem Machine.reserved_steps (m : Machine) (n : Nat) : (m.reserved n).steps = m.steps := by
  unfold reserved
  split <;> rfl

theorem Machine.reserved_stores (m : Machine) (n : Nat) : ∀ s ∈ m.stores, s ∈ (m.reserved n).stores := by
  unfold reserved
  split
  · exact fun _ member => member
  · exact fun _ member => List.mem_cons_of_mem _ member

theorem reserve_eq (malloc : Nat → Bool) (n : Nat) (m : Machine) :
    reserve malloc n m = .ok () (m.reserved n) ∨ reserve malloc n m = .error .noBlock m.refused := by
  unfold reserve Machine.reserved
  split
  · exact .inl rfl
  · split
    · exact .inl rfl
    · exact .inr rfl

theorem room_le {cap n : Nat} (word : cap ≤ 2 ^ 63) (small : n < 2 ^ 64) : room cap n ≤ 2 ^ 63 := by
  unfold room
  split
  · exact word
  · exact roundUp_le small

theorem le_room (cap : Nat) {n : Nat} (small : n ≤ 2 ^ 63) : n ≤ room cap n := by
  unfold room
  split
  · assumption
  · exact (roundUp_bounds (by omega) small).1

theorem room_lost {cap n : Nat} (word : cap ≤ 2 ^ 63) (large : 2 ^ 63 < n) (small : n < 2 ^ 64) : room cap n = 0 := by
  unfold room
  rw [if_neg (by omega)]
  exact roundUp_lost large small

theorem room_ge {cap n : Nat} (small : n ≤ 2 ^ 63) : cap ≤ room cap n := by
  unfold room
  split
  · exact Nat.le_refl _
  · have enough := (roundUp_bounds (by omega) small).1
    change cap ≤ roundUp n
    omega

theorem Machine.Whole.grown {cap : Nat} (whole : m.Whole) (enough : m.len ≤ cap) (word : cap ≤ 2 ^ 63) :
    (m.grown cap).Whole := by
  refine ⟨⟨enough, Nat.le_refl _, ?_⟩, word⟩
  intro s member
  rcases List.mem_cons.mp member with rfl | old
  · refine (Store.within_iff _).mpr (.inr ?_)
    change 0 + m.len ≤ cap
    omega
  · exact whole.stores s old

theorem Machine.Whole.reserved {n : Nat} (whole : m.Whole) (small : n ≤ 2 ^ 63) : (m.reserved n).Whole := by
  have length := whole.length
  unfold Machine.reserved
  split
  · exact whole
  · obtain ⟨enough, word⟩ := roundUp_bounds (by omega) small
    exact whole.grown (Nat.le_trans (by omega) enough) word

theorem Machine.Whole.reserved_empty {n : Nat} (whole : m.Whole) (empty : m.len = 0) (small : n < 2 ^ 64) :
    (m.reserved n).Whole := by
  unfold Machine.reserved
  split
  · exact whole
  · exact whole.grown (by omega) (roundUp_le small)

/-- The copy of what was there before has no room. -/
theorem Machine.Whole.reserved_lost {n : Nat} (whole : m.Whole) (some : 0 < m.len) (large : 2 ^ 63 < n)
    (small : n < 2 ^ 64) : ¬ ∀ s ∈ (m.reserved n).stores, s.Within := by
  have word := whole.word
  have lost : round2n n = 0 := roundUp_lost large small
  unfold Machine.reserved
  rw [if_neg (by omega), lost]
  refine beyond_of_mem List.mem_cons_self (Nat.ne_of_gt some) ?_
  change 0 < 0 + m.len
  omega

end

/-! ## One request -/

/-- Nothing was asked for, and nothing is forgotten. -/
structure Machine.Before (m m' : Machine) : Prop where
  steps : m'.steps = m.steps
  stores : ∀ s ∈ m.stores, s ∈ m'.stores

/-- Part of a request. -/
def Quiet (x : Run Unit) : Prop := ∀ m : Machine, Keeps m.Before (fun fault m' => fault = .noBlock ∧ m.Before m') x

/-- A part of a request leaves a buffer as it should be. -/
abbrev EndsWhole (result : EStateM.Result Halt Machine Unit) : Prop := Ends Machine.Whole (fun _ => Machine.Whole) result

theorem fitting_cons {m m' : Machine} {step : Step} (steps : m'.steps = step :: m.steps) :
    m'.Fitting ↔ step.Fits ∧ m.Fitting := by
  unfold Machine.Fitting
  rw [steps, List.forall_mem_cons]

/-- A request is judged by what it is and by the buffer that it comes to. -/
theorem upholds_noted {request : Request} {body : Run Unit} (quiet : Quiet body)
    (fits : ∀ m : Machine, m.Whole → (Step.mk m.cap m.len request).Fits → EndsWhole (body m))
    (breaks : ∀ m m' : Machine, m.Whole → ¬ (Step.mk m.cap m.len request).Fits → body m = .ok () m' →
      ¬ ∀ s ∈ m'.stores, s.Within) :
    Upholds (do note request; body) := by
  intro m tells
  change Ends Machine.Tells Machine.Halts (body (m.noted request))
  have parts := quiet (m.noted request) (m.noted request) ⟨rfl, fun _ member => member⟩
  have fits' := fits (m.noted request)
  have breaks' := breaks (m.noted request)
  have noted (whole : m.Whole) : (m.noted request).Whole := whole.same rfl rfl rfl rfl
  cases ran : body (m.noted request) with
  | ok _ m' =>
    rw [ran] at parts fits'
    have asked := fitting_cons parts.steps
    rcases tells with ⟨whole, fitting⟩ | ⟨beyond, unfitting⟩
    · by_cases fit : (Step.mk m.cap m.len request).Fits
      · exact .inl ⟨fits' (noted whole) fit, asked.mpr ⟨fit, fitting⟩⟩
      · exact .inr ⟨breaks' m' (noted whole) fit ran, fun all => fit (asked.mp all).1⟩
    · -- what went beyond before is still known
      have still : ¬ ∀ s ∈ m'.stores, s.Within := fun within => beyond fun s member => within s (parts.stores s member)
      exact .inr ⟨still, fun all => unfitting (asked.mp all).2⟩
  | error fault m' =>
    rw [ran] at parts fits'
    obtain ⟨rfl, before⟩ := parts
    have asked := fitting_cons before.steps
    intro all
    rcases tells with ⟨whole, -⟩ | ⟨-, unfitting⟩
    · exact fits' (noted whole) (asked.mp all).1
    · exact absurd (asked.mp all).2 unfitting

section
variable (malloc : Nat → Bool)

theorem reserve_quiet (n : Nat) : Quiet (reserve malloc n) := by
  intro m s before
  rcases reserve_eq malloc n s with ran | ran
  · rw [ran]
    exact ⟨(s.reserved_steps n).trans before.steps, fun x member => s.reserved_stores n x (before.stores x member)⟩
  · rw [ran]
    exact ⟨rfl, before.steps, before.stores⟩

theorem put_quiet (count : Nat) : Quiet (put count) := by
  intro m
  exact Keeps.modify fun s before => ⟨before.steps, fun x member => List.mem_cons_of_mem _ (before.stores x member)⟩

theorem extend_quiet (asked count : Nat) : Quiet (extend malloc asked count) := by
  intro m
  refine Keeps.get fun s before => ?_
  exact (reserve_quiet malloc _ m).bind (fun _ => put_quiet count m) s before

theorem extend_eq (asked count : Nat) (m : Machine) :
    extend malloc asked count m = .ok () ((m.reserved ((m.len + asked) % 2 ^ 64)).stored count) ∨
      extend malloc asked count m = .error .noBlock m.refused := by
  change (reserve malloc ((m.len + asked) % 2 ^ 64) >>= fun _ => put count) m = _ ∨
    (reserve malloc ((m.len + asked) % 2 ^ 64) >>= fun _ => put count) m = _
  rcases reserve_eq malloc ((m.len + asked) % 2 ^ 64) m with ran | ran
  · exact .inl (bind_run ran rfl)
  · exact .inr (bind_error ran)

/-- The bytes go into what was reserved for them. -/
def Holds (cap len asked count : Nat) : Prop := len + asked ≤ 2 ^ 63 ∧ len + count ≤ room cap (len + asked)

theorem Machine.Whole.refused {m : Machine} (whole : m.Whole) : m.refused.Whole := whole.same rfl rfl rfl rfl

variable {m m' : Machine} {asked count : Nat}

theorem extend_fits (whole : m.Whole) (holds : Holds m.cap m.len asked count) :
    EndsWhole (extend malloc asked count m) := by
  obtain ⟨small, fits⟩ := holds
  have exactly : (m.len + asked) % 2 ^ 64 = m.len + asked := Nat.mod_eq_of_lt (by omega)
  rcases extend_eq malloc asked count m with ran | ran
  · rw [ran, exactly]
    refine (whole.reserved small).stored ?_
    rw [Machine.reserved_len, Machine.reserved_cap]
    exact fits
  · rw [ran]
    exact whole.refused

/-- What is asked for is what is stored, or little. -/
def Sized (asked count : Nat) : Prop := asked = count ∧ count < 2 ^ 64 ∨ asked ≤ 9 ∧ 0 < count

theorem extend_breaks (sized : Sized asked count) (whole : m.Whole) (fails : ¬ Holds m.cap m.len asked count)
    (ran : extend malloc asked count m = .ok () m') : ¬ ∀ s ∈ m'.stores, s.Within := by
  have length := whole.length
  have word := whole.word
  have reached : (m.reserved ((m.len + asked) % 2 ^ 64)).stored count = m' := by
    rcases extend_eq malloc asked count m with done | failed
    · rw [done] at ran
      injection ran
    · rw [failed] at ran
      cases ran
  subst reached
  have top := room_le (n := (m.len + asked) % 2 ^ 64) word (Nat.mod_lt _ (by decide))
  -- the bytes are too many for every capacity, or for the one that is left
  refine beyond_of_mem List.mem_cons_self ?_ ?_
  · change count ≠ 0
    rintro rfl
    rcases sized with ⟨rfl, -⟩ | ⟨-, some⟩
    · refine fails ⟨by omega, ?_⟩
      unfold room
      rw [if_pos (by omega)]
      omega
    · omega
  · change (m.reserved _).cap < (m.reserved _).len + count
    rw [Machine.reserved_len, Machine.reserved_cap]
    by_cases small : m.len + asked ≤ 2 ^ 63
    · rw [Nat.mod_eq_of_lt (by omega)]
      by_contra fits
      exact fails ⟨small, by omega⟩
    · by_cases wraps : m.len + asked < 2 ^ 64
      · rw [Nat.mod_eq_of_lt wraps, room_lost word (by omega) wraps]
        rcases sized with ⟨rfl, -⟩ | ⟨-, some⟩ <;> omega
      · rcases sized with ⟨rfl, -⟩ | ⟨few, -⟩ <;> omega

theorem upholds_extend {request : Request} (sized : Sized asked count)
    (same : ∀ m : Machine, m.Whole → ((Step.mk m.cap m.len request).Fits ↔ Holds m.cap m.len asked count)) :
    Upholds (do note request; extend malloc asked count) := by
  refine upholds_noted (extend_quiet malloc asked count) ?_ ?_
  · intro m whole fits
    exact extend_fits malloc whole ((same m whole).mp fits)
  · intro m m' whole unfit ran
    exact extend_breaks malloc sized whole (fun holds => unfit ((same m whole).mpr holds)) ran

/-! ## Every request -/

theorem upholds_append (small : count < 2 ^ 64) : Upholds (do note (.append count); extend malloc count count) := by
  refine upholds_extend malloc (.inl ⟨rfl, small⟩) fun m _ => ?_
  change m.len + count ≤ 2 ^ 63 ↔ _
  exact ⟨fun fits => ⟨fits, le_room _ fits⟩, fun holds => holds.1⟩

theorem upholds_double (some : 0 < count) (few : count ≤ 9) : Upholds (do note (.double count); extend malloc 9 count) := by
  refine upholds_extend malloc (.inr ⟨Nat.le_refl _, some⟩) fun m _ => ?_
  change m.len + 9 ≤ 2 ^ 63 ↔ _
  constructor
  · intro fits
    have enough := le_room m.cap fits
    exact ⟨fits, by omega⟩
  · exact fun holds => holds.1

theorem varInteger_length_le {w : Nat} (u : BitVec w) (groups : Nat) (some : 0 < groups) (few : u.toNat < 2 ^ (7 * groups)) :
    (varInteger u).length ≤ groups := by
  rw [varInteger, varIntegerLoop_eq]
  exact Varint.encodeFull_length_le some few _

/-- A byte more than the number has is enough for seven bits a byte, if the number has less than 64 bits. -/
theorem varInteger_fits (width : Width) (u : BitVec width.bits) (small : u.toNat < 2 ^ 63) :
    (varInteger u).length ≤ width.bits / 8 + 1 := by
  have bound := u.isLt
  refine varInteger_length_le u _ (Nat.succ_pos _) ?_
  cases width with
  | w16 => exact Nat.lt_of_lt_of_le bound (by decide)
  | w32 => exact Nat.lt_of_lt_of_le bound (by decide)
  | w64 => exact small

theorem varInteger_ten (u : BitVec 64) (large : 2 ^ 63 ≤ u.toNat) : (varInteger u).length = 10 := by
  have most := varInteger_length_le u 10 (by decide) (Nat.lt_of_lt_of_le u.isLt (by decide))
  have least : 9 < (varInteger u).length := by
    rw [varInteger, varIntegerLoop_eq]
    exact Varint.encodeFull_length_gt (Nat.le_refl 9) large
  omega

theorem holds_varInteger (cap len : Nat) (width : Width) (u : BitVec width.bits) :
    (Step.mk cap len (.varInteger (width.bits / 8) u.toNat)).Fits ↔
      Holds cap len (width.bits / 8 + 1) (varInteger u).length := by
  change len + (width.bits / 8 + 1) ≤ 2 ^ 63 ∧ (u.toNat < 2 ^ 63 ∨ _) ↔ _
  by_cases small : u.toNat < 2 ^ 63
  · have enough := varInteger_fits width u small
    constructor
    · intro fits
      have reserved := le_room cap fits.1
      exact ⟨fits.1, by omega⟩
    · exact fun holds => ⟨holds.1, .inl small⟩
  · -- only a number of 64 bits is that large
    have bound := u.isLt
    cases width with
    | w16 => exact absurd (Nat.lt_trans bound (by decide)) small
    | w32 => exact absurd (Nat.lt_trans bound (by decide)) small
    | w64 =>
      have ten : (varInteger u).length = 10 := varInteger_ten u (Nat.le_of_not_lt small)
      change len + 9 ≤ 2 ^ 63 ∧ (_ ∨ room cap (len + 9) ≠ len + 9) ↔ len + 9 ≤ 2 ^ 63 ∧ len + _ ≤ room cap (len + 9)
      rw [ten]
      constructor
      · rintro ⟨fits, few | more⟩
        · exact absurd few small
        · have reserved := le_room cap fits
          exact ⟨fits, by omega⟩
      · exact fun holds => ⟨holds.1, .inr (by omega)⟩

theorem upholds_integer (width : Width) (signed : Bool) (v : BitVec width.bits) :
    Upholds (writeInteger malloc width signed v) := by
  refine upholds_extend malloc (.inr ⟨?_, varInteger_pos _⟩) fun m _ => holds_varInteger m.cap m.len width _
  cases width <;> decide

theorem upholds_size (n : Nat) : Upholds (writeSize malloc n) := upholds_integer malloc .w64 false _

/-- The elements from `len` on, which `Resize` makes. -/
def Machine.filled (m : Machine) (len : Nat) : Machine :=
  { m with len := len, stores := ⟨m.len, len - m.len, m.cap⟩ :: m.stores }

/-- `Resize` to a greater length. -/
def lengthen (len : Nat) : Run Unit := do
  reserve malloc len
  modify fun m => m.filled len

theorem lengthen_eq (len : Nat) (m : Machine) :
    lengthen malloc len m = .ok () ((m.reserved len).filled len) ∨ lengthen malloc len m = .error .noBlock m.refused := by
  rcases reserve_eq malloc len m with ran | ran
  · exact .inl (bind_run ran rfl)
  · exact .inr (bind_error ran)

theorem lengthen_quiet (len : Nat) : Quiet (lengthen malloc len) := by
  intro m
  refine (reserve_quiet malloc len m).bind fun _ => ?_
  exact Keeps.modify fun s before => ⟨before.steps, fun x member => List.mem_cons_of_mem _ (before.stores x member)⟩

theorem lengthen_fits {len : Nat} (whole : m.Whole) (longer : m.len ≤ len) (small : len ≤ 2 ^ 63) :
    EndsWhole (lengthen malloc len m) := by
  have enough := le_room m.cap small
  rcases lengthen_eq malloc len m with ran | ran
  · rw [ran]
    have reserved := whole.reserved small
    have cap : (m.reserved len).cap = room m.cap len := m.reserved_cap len
    have old : (m.reserved len).len = m.len := m.reserved_len len
    refine ⟨⟨?_, reserved.allocated, ?_⟩, reserved.word⟩
    · change len ≤ (m.reserved len).cap
      omega
    · intro s member
      rcases List.mem_cons.mp member with rfl | before
      · refine (Store.within_iff _).mpr (.inr ?_)
        change (m.reserved len).len + (len - (m.reserved len).len) ≤ (m.reserved len).cap
        omega
      · exact reserved.stores s before
  · rw [ran]
    exact whole.refused

theorem upholds_resize {len : Nat} (small : len < 2 ^ 64) : Upholds (resize malloc len) := by
  refine upholds_noted ?_ ?_ ?_
  · intro m
    refine Keeps.get fun s before => ?_
    split
    · exact before
    · split
      · exact ⟨before.steps, before.stores⟩
      · exact lengthen_quiet malloc len m s before
  · intro m whole fits
    change EndsWhole ((if len = m.len then pure () else if len < m.len then set { m with len := len }
      else lengthen malloc len : Run Unit) m)
    have length := whole.length
    split
    · exact whole
    · split
      · exact ⟨⟨by change len ≤ m.cap; omega, whole.allocated, whole.stores⟩, whole.word⟩
      · exact lengthen_fits malloc whole (by omega) fits
  · intro m m' whole unfit ran
    change ¬ len ≤ 2 ^ 63 at unfit
    change (if len = m.len then pure () else if len < m.len then set { m with len := len }
      else lengthen malloc len : Run Unit) m = _ at ran
    have length := whole.length
    have word := whole.word
    rw [if_neg (by omega), if_neg (by omega)] at ran
    rcases lengthen_eq malloc len m with done | failed
    · rw [done] at ran
      injection ran with _ reached
      subst reached
      have lost := room_lost word (by omega) small
      refine beyond_of_mem List.mem_cons_self ?_ ?_
      · change len - (m.reserved len).len ≠ 0
        rw [Machine.reserved_len]
        omega
      · change (m.reserved len).cap < (m.reserved len).len + (len - (m.reserved len).len)
        rw [Machine.reserved_cap, Machine.reserved_len]
        omega
    · rw [failed] at ran
      cases ran

theorem upholds_reserve (bytes : Nat) :
    Upholds (do note (.reserve bytes); let m ← get; reserve malloc ((m.len + 5 + bytes) % 2 ^ 64)) := by
  refine upholds_noted ?_ ?_ ?_
  · intro m
    exact Keeps.get fun s before => reserve_quiet malloc _ m s before
  · intro m whole fits
    change EndsWhole (reserve malloc ((m.len + 5 + bytes) % 2 ^ 64) m)
    rcases reserve_eq malloc ((m.len + 5 + bytes) % 2 ^ 64) m with ran | ran
    · rw [ran]
      rcases fits with small | empty
      · exact whole.reserved small
      · exact whole.reserved_empty empty (Nat.mod_lt _ (by decide))
    · rw [ran]
      exact whole.refused
  · intro m m' whole unfit ran
    change ¬ ((m.len + 5 + bytes) % 2 ^ 64 ≤ 2 ^ 63 ∨ m.len = 0) at unfit
    change reserve malloc ((m.len + 5 + bytes) % 2 ^ 64) m = _ at ran
    rcases reserve_eq malloc ((m.len + 5 + bytes) % 2 ^ 64) m with done | failed
    · rw [done] at ran
      injection ran with _ reached
      subst reached
      exact whole.reserved_lost (by omega) (by omega) (Nat.mod_lt _ (by decide))
    · rw [failed] at ran
      cases ran

section block
variable (bytes : Nat)

/-- The bytes of the length. -/
def lengthSize (count : Nat) : Nat := (varInteger (BitVec.ofNat 64 count)).length

/-- `ToBBuffer` of a list that is copied. -/
def copyBlock (count : Nat) : Run Unit := do
  let m ← get
  reserve malloc ((m.len + 5 + bytes) % 2 ^ 64)
  writeVarIntger malloc (BitVec.ofNat 64 count)
  if count = 0 then return
  put bytes

/-- The buffer after the length. -/
def Machine.measured (m : Machine) (count : Nat) : Machine :=
  ((m.reserved ((m.len + 5 + bytes) % 2 ^ 64)).reserved ((m.len + 9) % 2 ^ 64)).stored (lengthSize count)

def Machine.copied (m : Machine) (count : Nat) : Machine :=
  if count = 0 then m.measured bytes count else (m.measured bytes count).stored bytes

theorem copyBlock_eq (count : Nat) (m : Machine) :
    copyBlock malloc bytes count m = .ok () (m.copied bytes count) ∨
      copyBlock malloc bytes count m = .error .noBlock m.refused ∨
      copyBlock malloc bytes count m = .error .noBlock (m.reserved ((m.len + 5 + bytes) % 2 ^ 64)).refused := by
  have start : (get : Run Machine) m = .ok m m := rfl
  rcases reserve_eq malloc ((m.len + 5 + bytes) % 2 ^ 64) m with ran | ran
  · rcases extend_eq malloc 9 (lengthSize count) (m.reserved ((m.len + 5 + bytes) % 2 ^ 64)) with ran₂ | ran₂
    · rw [Machine.reserved_len] at ran₂
      refine .inl (bind_run start (bind_run ran (bind_run ran₂ ?_)))
      unfold Machine.copied
      split <;> rfl
    · exact .inr (.inr (bind_run start (bind_run ran (bind_error ran₂))))
  · exact .inr (.inl (bind_run start (bind_error ran)))

theorem copyBlock_quiet (count : Nat) : Quiet (copyBlock malloc bytes count) := by
  intro m
  refine Keeps.get fun s before => ?_
  refine (reserve_quiet malloc _ m).bind (fun _ => ?_) s before
  refine (extend_quiet malloc _ _ m).bind fun _ => ?_
  split
  · exact Keeps.pure ()
  · exact put_quiet bytes m

theorem lengthSize_bounds (count : Nat) : 0 < lengthSize count ∧ lengthSize count ≤ 10 :=
  ⟨varInteger_pos _, varInteger_length_le _ 10 (by decide) (Nat.lt_of_lt_of_le (BitVec.isLt _) (by decide))⟩

theorem lengthSize_le {count : Nat} (short : count < 2 ^ 35) : lengthSize count ≤ 5 := by
  refine varInteger_length_le _ 5 (by decide) ?_
  rw [BitVec.toNat_ofNat]
  exact Nat.lt_of_le_of_lt (Nat.mod_le _ _) short

/-- The capacity for a block and its length. -/
abbrev blockRoom (cap len bytes : Nat) : Nat := room (room cap (len + 5 + bytes)) (len + 9)

variable {bytes} {count : Nat}

theorem measured_len (whole : m.Whole) : (m.measured bytes count).len = m.len + lengthSize count := by
  have length := whole.length
  have word := whole.word
  have size := lengthSize_bounds count
  change (Machine.len _ + lengthSize count) % 2 ^ 64 = _
  rw [Machine.reserved_len, Machine.reserved_len, Nat.mod_eq_of_lt (by omega)]

theorem measured_cap (bytes count : Nat) (m : Machine) : (m.measured bytes count).cap =
    room (room m.cap ((m.len + 5 + bytes) % 2 ^ 64)) ((m.len + 9) % 2 ^ 64) := by
  change Machine.cap (Machine.reserved _ _) = _
  rw [Machine.reserved_cap, Machine.reserved_cap]

/-- What was stored for the length is still known. -/
theorem copied_stores (m : Machine) : ∀ s ∈ (m.measured bytes count).stores, s ∈ (m.copied bytes count).stores := by
  unfold Machine.copied
  split
  · exact fun _ member => member
  · exact fun _ member => List.mem_cons_of_mem _ member

theorem copyBlock_fits (whole : m.Whole) (fits : (Step.mk m.cap m.len (.block bytes count)).Fits) :
    EndsWhole (copyBlock malloc bytes count m) := by
  change m.len + 5 + bytes ≤ 2 ^ 63 ∧ m.len + 9 ≤ 2 ^ 63 ∧
    (count < 2 ^ 35 ∨ m.len + lengthSize count + bytes ≤ blockRoom m.cap m.len bytes) at fits
  obtain ⟨small, length, enough⟩ := fits
  have first : (m.len + 5 + bytes) % 2 ^ 64 = m.len + 5 + bytes := Nat.mod_eq_of_lt (by omega)
  have second : (m.len + 9) % 2 ^ 64 = m.len + 9 := Nat.mod_eq_of_lt (by omega)
  have reserved := whole.reserved small
  have space : m.len + lengthSize count + bytes ≤ blockRoom m.cap m.len bytes := by
    rcases enough with short | enough
    · have few := lengthSize_le short
      have asked := le_room m.cap small
      have kept : room m.cap (m.len + 5 + bytes) ≤ blockRoom m.cap m.len bytes := room_ge length
      omega
    · exact enough
  have measured : (m.measured bytes count).Whole := by
    unfold Machine.measured
    rw [first, second]
    refine (reserved.reserved length).stored ?_
    rw [Machine.reserved_len, Machine.reserved_len, Machine.reserved_cap, Machine.reserved_cap]
    exact Nat.le_trans (Nat.le_add_right _ _) space
  rcases copyBlock_eq malloc bytes count m with ran | ran | ran
  · rw [ran]
    unfold Machine.copied
    split
    · exact measured
    · refine measured.stored ?_
      rw [measured_len whole, measured_cap bytes count m, first, second]
      exact space
  · rw [ran]
    exact whole.refused
  · rw [ran, first]
    exact reserved.refused

/-- The copy of the block goes beyond what there is. -/
theorem copied_beyond (whole : m.Whole) (some : count ≠ 0) (nonempty : bytes ≠ 0)
    (beyond : (m.measured bytes count).cap < m.len + lengthSize count + bytes) :
    ¬ ∀ s ∈ (m.copied bytes count).stores, s.Within := by
  unfold Machine.copied
  rw [if_neg some]
  refine beyond_of_mem List.mem_cons_self nonempty ?_
  change Machine.cap _ < Machine.len _ + bytes
  rw [measured_len whole]
  exact beyond

/-- The bytes of the length go beyond it already. -/
theorem measured_beyond (beyond : (m.measured bytes count).cap < m.len + lengthSize count) :
    ¬ ∀ s ∈ (m.copied bytes count).stores, s.Within := by
  intro within
  have size := lengthSize_bounds count
  refine beyond_of_mem (m := m.measured bytes count) List.mem_cons_self (Nat.ne_of_gt size.1) ?_ fun s member =>
    within s (copied_stores m s member)
  change Machine.cap _ < Machine.len (Machine.reserved (m.reserved _) _) + lengthSize count
  rw [Machine.reserved_len, Machine.reserved_len]
  exact beyond

theorem copied_breaks (whole : m.Whole) (none : count = 0 → bytes = 0) (word : bytes < 2 ^ 64)
    (unfit : ¬ (Step.mk m.cap m.len (.block bytes count)).Fits) : ¬ ∀ s ∈ (m.copied bytes count).stores, s.Within := by
  change ¬ (m.len + 5 + bytes ≤ 2 ^ 63 ∧ m.len + 9 ≤ 2 ^ 63 ∧
    (count < 2 ^ 35 ∨ m.len + lengthSize count + bytes ≤ blockRoom m.cap m.len bytes)) at unfit
  have length := whole.length
  have bound := whole.word
  have size := lengthSize_bounds count
  have lost : 0 < m.len → 2 ^ 63 < (m.len + 5 + bytes) % 2 ^ 64 → ¬ ∀ s ∈ (m.copied bytes count).stores, s.Within := by
    intro some large within
    refine whole.reserved_lost some large (Nat.mod_lt _ (by decide)) fun s member => within s (copied_stores m s ?_)
    exact List.mem_cons_of_mem _ (Machine.reserved_stores _ _ s member)
  have cap := measured_cap bytes count m
  have second : (m.len + 9) % 2 ^ 64 = m.len + 9 := Nat.mod_eq_of_lt (by omega)
  rw [second] at cap
  by_cases small : m.len + 5 + bytes ≤ 2 ^ 63
  · have first : (m.len + 5 + bytes) % 2 ^ 64 = m.len + 5 + bytes := Nat.mod_eq_of_lt (by omega)
    rw [first] at cap
    change _ = blockRoom m.cap m.len bytes at cap
    by_cases short : m.len + 9 ≤ 2 ^ 63
    · -- only the many bytes of a great length have not been asked for
      have many : ¬ count < 2 ^ 35 ∧ blockRoom m.cap m.len bytes < m.len + lengthSize count + bytes := by omega
      rcases Nat.eq_zero_or_pos bytes with rfl | nonempty
      · exact measured_beyond (by omega)
      · exact copied_beyond whole (by omega) (Nat.ne_of_gt nonempty) (by omega)
    · have none : blockRoom m.cap m.len bytes = 0 := room_lost (room_le bound (by omega)) (by omega) (by omega)
      exact measured_beyond (by omega)
  · by_cases wraps : m.len + 5 + bytes < 2 ^ 64
    · rw [Nat.mod_eq_of_lt wraps] at lost cap
      rcases Nat.eq_zero_or_pos m.len with empty | some
      · -- there is nothing to copy, and the length gets a block of its own
        have none' := room_lost bound (n := m.len + 5 + bytes) (by omega) wraps
        have nine : room 0 9 = 16 := by decide
        rw [none', empty, nine] at cap
        exact copied_beyond whole (fun zero => by have := none zero; omega) (by omega) (by omega)
      · exact lost some (by omega)
    · have top : (m.measured bytes count).cap ≤ 2 ^ 63 := by
        rw [cap]
        exact room_le (room_le bound (Nat.mod_lt _ (by decide))) (by omega)
      exact copied_beyond whole (fun zero => by have := none zero; omega) (by omega) (by omega)

theorem upholds_block {size : Nat} : Upholds (writeBlock malloc size count) := by
  refine upholds_noted (copyBlock_quiet malloc _ count) (fun m whole fits => copyBlock_fits malloc whole fits) ?_
  intro m m' whole unfit ran
  change copyBlock malloc (count * size % 2 ^ 64) count m = _ at ran
  rcases copyBlock_eq malloc (count * size % 2 ^ 64) count m with done | failed | failed
  · rw [done] at ran
    injection ran with _ reached
    subst reached
    refine copied_breaks whole ?_ (Nat.mod_lt _ (by decide)) unfit
    rintro rfl
    rw [Nat.zero_mul, Nat.zero_mod]
  · rw [failed] at ran
    cases ran
  · rw [failed] at ran
    cases ran

end block

/-! ## Every call -/

/-- A change that neither asks nor stores. -/
theorem Machine.Tells.kept (tells : m.Tells) (steps : m'.steps = m.steps) (stores : m'.stores = m.stores)
    (whole : m.Whole → m'.Whole) : m'.Tells := by
  unfold Machine.Tells Machine.Fitting at tells ⊢
  rw [steps, stores]
  rcases tells with ⟨old, fitting⟩ | broken
  · exact .inl ⟨whole old, fitting⟩
  · exact .inr broken

theorem upholds_throw {fault : Halt} (other : fault ≠ .noBlock) : Upholds (throw fault : Run Unit) := by
  refine Keeps.throw fun m tells => ?_
  cases fault with
  | noBlock => exact absurd rfl other
  | asserted | invalid | endless => exact tells

theorem upholds_removeFront (len : Nat) : Upholds (removeFront len) := by
  intro m tells
  unfold removeFront
  split
  · exact tells
  · split
    · exact tells
    · split
      · exact tells.kept rfl rfl fun whole => ⟨⟨Nat.zero_le _, whole.allocated, whole.stores⟩, whole.word⟩
      · rcases tells with ⟨whole, fitting⟩ | ⟨beyond, unfitting⟩
        · have length := whole.length
          refine .inl ⟨⟨⟨?_, whole.allocated, ?_⟩, whole.word⟩, fitting⟩
          · change m.len - len ≤ m.cap
            omega
          · intro s member
            rcases List.mem_cons.mp member with rfl | old
            · refine (Store.within_iff _).mpr (.inr ?_)
              change 0 + (m.len - len) ≤ m.cap
              omega
            · exact whole.stores s old
        · exact .inr ⟨fun within => beyond fun s member => within s (List.mem_cons_of_mem _ member), unfitting⟩

theorem upholds_clear (freeBuf : Bool) : Upholds (clear freeBuf) := by
  refine Keeps.modify fun m tells => ?_
  split
  · exact tells
  · exact tells.kept rfl rfl fun whole => ⟨⟨Nat.zero_le _, whole.allocated, whole.stores⟩, whole.word⟩
  · exact tells.kept rfl rfl fun whole => ⟨⟨Nat.le_refl _, Nat.zero_le _, whole.stores⟩, Nat.zero_le _⟩

theorem upholds_string (small : count < 2 ^ 64) : Upholds (writeString malloc count) :=
  (upholds_size malloc count).bind fun _ => upholds_append malloc small

theorem upholds_writeDouble (bits : BitVec 64) : Upholds (writeDouble malloc bits) := by
  unfold writeDouble
  split
  · exact upholds_double malloc (by decide) (by decide)
  · exact upholds_double malloc (by decide) (by decide)
  · exact upholds_double malloc (by decide) (by decide)
  · exact upholds_double malloc (by decide) (by decide)
  · have tag : Upholds (do note (.double 1); extend malloc 9 1) := upholds_double malloc (by decide) (by decide)
    exact tag.bind fun _ => upholds_integer malloc .w32 true _
  · exact upholds_double malloc (by decide) (by decide)

theorem upholds_write (v : Value) : Upholds (write malloc v) := by
  cases v with
  | integer width signed v => exact upholds_integer malloc width signed v
  | byte => exact upholds_append malloc (by decide)
  | float => exact upholds_append malloc (by decide)
  | guid => exact upholds_append malloc (by decide)
  | double bits => exact upholds_writeDouble malloc bits
  | string size => exact upholds_string malloc size.toNat_lt
  | bbuffer len => exact upholds_string malloc len.toNat_lt
  | block type count => exact upholds_block malloc

section objects
variable {heap : Heap} {writePtr : Option Addr → Run Unit}

theorem upholds_typeId (typeId : UInt16) : Upholds (writeTypeId malloc typeId) := upholds_integer malloc .w16 false _

theorem upholds_item (inner : ∀ p, Upholds (writePtr p)) (item : Item) : Upholds (writeItem malloc heap writePtr item) := by
  cases item with
  | value v => exact upholds_write malloc v
  | shared p => exact inner p
  | weak p =>
    simp only [writeItem]
    split
    · exact inner _
    · exact upholds_typeId malloc 0

theorem upholds_toBBuffer (inner : ∀ p, Upholds (writePtr p)) (object : Object) :
    Upholds (toBBuffer malloc heap writePtr object) := by
  have each (items : List Item) : Upholds (items.forM (writeItem malloc heap writePtr)) :=
    Keeps.forM items fun item _ => upholds_item malloc inner item
  cases object with
  | string size => exact upholds_string malloc size.toNat_lt
  | members typeId items => exact each items
  | list typeId sizeofT items =>
    have rest := (upholds_size malloc items.length).bind fun _ => each items
    exact (upholds_reserve malloc (items.length * sizeofT % 2 ^ 64)).bind fun _ => rest

/-- By induction on how deep objects nest. -/
theorem upholds_writePtr (heap : Heap) (fuel : Nat) (v : Option Addr) : Upholds (Capacity.writePtr malloc heap fuel v) := by
  induction fuel generalizing v with
  | zero => exact upholds_throw (by decide)
  | succ fuel ih =>
    cases v with
    | none => exact upholds_typeId malloc 0
    | some v =>
      unfold Capacity.writePtr
      split
      · exact upholds_throw (by decide)
      · split
        · exact upholds_throw (by decide)
        · rename_i object _ _
          refine (upholds_typeId malloc object.typeId).bind fun _ => Keeps.get fun m tells => ?_
          cases found : m.ptrs.lookup v with
          | some offs => exact upholds_size malloc offs m tells
          | none =>
            have body : Upholds (toBBuffer malloc heap (Capacity.writePtr malloc heap fuel) object) :=
              upholds_toBBuffer malloc ih object
            have rest := (upholds_size malloc ((m.len + (2 ^ 64 - m.offsetRoot)) % 2 ^ 64)).bind fun _ => body
            exact rest _ (tells.kept rfl rfl fun whole => whole.same rfl rfl rfl rfl)

theorem upholds_writeRoot (heap : Heap) (fuel : Nat) (v : Option Addr) : Upholds (writeRoot malloc heap fuel v) := by
  have begins : Upholds (modify fun m => { m with offsetRoot := m.len } : Run Unit) :=
    Keeps.modify fun m tells => tells.kept rfl rfl fun whole => whole.same rfl rfl rfl rfl
  have ends : Upholds (modify fun m => { m with ptrs := [] } : Run Unit) :=
    Keeps.modify fun m tells => tells.kept rfl rfl fun whole => whole.same rfl rfl rfl rfl
  refine begins.bind fun _ => Keeps.get fun m tells => ?_
  split
  · exact upholds_throw (by decide) m tells
  · exact (upholds_writePtr malloc heap fuel v).bind (fun _ => ends) m tells

end objects

theorem upholds_perform (call : Call) : Upholds (perform malloc call) := by
  cases call with
  | write v => exact upholds_write malloc v
  | writeFixed sizeofT => exact upholds_append malloc sizeofT.toNat_lt
  | writeRoot heap fuel v => exact upholds_writeRoot malloc heap fuel v
  | addRange count => exact upholds_append malloc count.toNat_lt
  | resize len => exact upholds_resize malloc len.toNat_lt
  | removeFront len => exact upholds_removeFront len.toNat
  | clear freeBuf => exact upholds_clear freeBuf

/-- There is no buffer yet. -/
theorem starts_whole : ({} : Machine).Tells := by
  refine .inl ⟨⟨⟨Nat.le_refl _, Nat.le_refl _, ?_⟩, Nat.zero_le _⟩, ?_⟩
  · exact fun _ member => absurd member List.not_mem_nil
  · exact fun _ member => absurd member List.not_mem_nil

theorem construct_ends (start : Constructor) : Ends Machine.Tells Machine.Halts (construct malloc start {}) := by
  have fresh := starts_whole
  cases start with
  | default => exact fresh
  | capacity cap =>
    simp only [construct]
    split
    · exact fresh
    · split
      · refine fresh.kept rfl rfl fun whole => ⟨⟨Nat.zero_le _, Nat.le_refl _, whole.stores⟩, ?_⟩
        exact roundUp_le cap.toNat_lt
      · rcases fresh with ⟨whole, -⟩ | ⟨-, unfitting⟩
        · exact fun _ => whole.refused
        · exact fun fitting => absurd fitting unfitting
  | copy len front =>
    simp only [construct]
    split
    · exact fresh
    · rename_i some
      -- the capacity does not count the bytes that are copied
      refine .inr ⟨?_, fun fitting => fitting _ List.mem_cons_self⟩
      refine beyond_of_mem List.mem_cons_self ?_ ?_
      · exact fun zero => some (UInt64.toNat_inj.mp zero)
      · change (0 + front.toNat) % 2 ^ 64 < front.toNat + len.toNat
        have nonzero : len.toNat ≠ 0 := fun zero => some (UInt64.toNat_inj.mp zero)
        have bound := front.toNat_lt
        omega

theorem run_ends (start : Constructor) (calls : List Call) : Ends Machine.Tells Machine.Halts (run malloc start calls) := by
  have performs : Upholds (calls.forM (perform malloc)) := Keeps.forM calls fun call _ => upholds_perform malloc call
  have starts := construct_ends malloc start
  cases ran : construct malloc start {} with
  | ok a m =>
    rw [ran] at starts
    have same : run malloc start calls = calls.forM (perform malloc) m := bind_run ran rfl
    rw [same]
    exact performs m starts
  | error fault m =>
    rw [ran] at starts
    have same : run malloc start calls = .error fault m := bind_error ran
    rw [same]
    exact starts

theorem Machine.Tells.sound_iff (tells : m.Tells) : m.Sound ↔ m.Fitting :=
  tells.iff (fun whole => whole.toSound) fun sound => sound.stores

/-- A buffer is as it should be if every request fits the buffer that it comes to. If no call of `malloc` has failed, then
only if. -/
theorem writes_within (start : Constructor) (calls : List Call) :
    ((final (run malloc start calls)).Fitting → (final (run malloc start calls)).Sound) ∧
      ((∀ m, run malloc start calls ≠ .error .noBlock m) →
        ((final (run malloc start calls)).Sound ↔ (final (run malloc start calls)).Fitting)) := by
  have ends := run_ends malloc start calls
  cases ran : run malloc start calls with
  | ok _ m =>
    rw [ran] at ends
    have told := Machine.Tells.sound_iff ends
    exact ⟨told.mpr, fun _ => told⟩
  | error fault m =>
    rw [ran] at ends
    cases fault with
    | noBlock => exact ⟨fun fitting => (ends fitting).toSound, fun never => absurd rfl (never m)⟩
    | asserted | invalid | endless =>
      have told := Machine.Tells.sound_iff ends
      exact ⟨told.mpr, fun _ => told⟩

/-- A number of ten bytes at the end of its block, a buffer that was copied, a list whose length takes six bytes, and a
length that no power of two reaches. -/
theorem writes_beyond :
    ¬ (final (run (fun _ => true) .default [.writeFixed 7, .write (.integer .w64 false (2 ^ 63))])).Sound ∧
      ¬ (final (run (fun _ => true) (.copy 1 0) [])).Sound ∧
      ¬ (final (run (fun _ => true) .default [.write (.block .byte (2 ^ 36 - 5))])).Sound ∧
      ¬ (final (run (fun _ => true) .default [.resize (2 ^ 63 + 1)])).Sound := by
  decide +kernel

end

end Xxlib.Uv3.Capacity
