import Mathlib.Tactic.LinearCombination
import Xxlib.Lib.Subtractive

/-! `Random` (`xx_random.hpp`), as far as it makes integers.

An operation whose result is not an `int32_t` has no result here.
-/

set_option autoImplicit false

namespace Xxlib.Uv4

open Lib Subtractive

structure Random where
  inext : Nat
  inextp : Nat
  seedArray : Nat → Int

namespace Random

def MBIG : Int := 2147483647

def MSEED : Int := 161803398

def Fits (v : Int) : Prop := -2147483648 ≤ v ∧ v ≤ 2147483647

instance (v : Int) : Decidable (Fits v) := inferInstanceAs (Decidable (_ ∧ _))

def int32 (v : Int) : Option Int := if Fits v then some v else none

/-- `a -= b; if (a < 0) a += MBIG` -/
def difference (a b : Int) : Option Int := (int32 (a - b)).bind fun v => if v < 0 then int32 (v + MBIG) else some v

def subtraction (seed : BitVec 32) : Int := if seed.toInt = -2147483648 then MBIG else |seed.toInt|

/-- The first loop of `Init`, for `i` up to a number: the array, `mj` and `mk`. -/
def fill (m : Int) : Nat → Option ((Nat → Int) × Int × Int)
  | 0 => some (Function.update (fun _ => 0) 55 m, m, 1)
  | i + 1 => (fill m i).bind fun (array, mj, mk') =>
      let ii := 21 * (i + 1) % 55
      let array := Function.update array ii mk'
      (difference mj mk').map fun mk' => (array, array ii, mk')

/-- A round of the second loop, for `i` up to a number. -/
def mix (array : Nat → Int) : Nat → Option (Nat → Int)
  | 0 => some array
  | i + 1 => (mix array i).bind fun array =>
      (difference (array (i + 1)) (array (1 + (i + 1 + 30) % 55))).map (Function.update array (i + 1))

def mixes (array : Nat → Int) : Nat → Option (Nat → Int)
  | 0 => some array
  | k + 1 => (mixes array k).bind fun array => mix array 55

/-- The constructor, with `Init`. -/
def init (seed : BitVec 32) : Option Random :=
  (int32 (MSEED - subtraction seed)).bind fun m =>
    (fill m 54).bind fun (array, _, _) => (mixes array 4).map fun array => ⟨0, 21, array⟩

def internalSample (r : Random) : Option (Int × Random) :=
  let locINext := if r.inext + 1 ≥ 56 then 1 else r.inext + 1
  let locINextp := if r.inextp + 1 ≥ 56 then 1 else r.inextp + 1
  (int32 (r.seedArray locINext - r.seedArray locINextp)).bind fun retVal =>
    let retVal := if retVal = MBIG then retVal - 1 else retVal
    (if retVal < 0 then int32 (retVal + MBIG) else some retVal).map fun retVal =>
      (retVal, ⟨locINext, locINextp, Function.update r.seedArray locINext retVal⟩)

def next (r : Random) : Option (Int × Random) := r.internalSample

/-- After so many calls of `Next`. -/
def calls (seed : BitVec 32) : Nat → Option Random
  | 0 => init seed
  | n + 1 => (calls seed n).bind fun r => r.next.map Prod.snd

/-! ## Differences -/

section
variable {a b v m : Int}

theorem difference_eq (fits : Fits (a - b)) : difference a b = some (reduce MBIG (a - b)) := by
  rw [difference, int32, if_pos fits, Option.bind_some, reduce]
  split
  · exact if_pos (by unfold Fits MBIG at *; omega)
  · rfl

theorem difference_none (wide : ¬ Fits (a - b)) : difference a b = none := by
  rw [difference, int32, if_neg wide]
  rfl

/-! ## The first loop -/

/-- The array of the sequence. -/
structure Filled (m : Int) (n : Nat) (array : Nat → Int) : Prop where
  terms : ∀ j, 1 ≤ j → j ≤ n → array (21 * j % 55) = term MBIG m j
  last : array 55 = m

theorem fill_filled (low : -MBIG < m) (high : m ≤ MBIG) {n : Nat} (inside : n ≤ 54) :
    ∃ array, fill m n = some (array, term MBIG m n, term MBIG m (n + 1)) ∧ Filled m n array := by
  induction n with
  | zero => exact ⟨_, rfl, fun j first last => absurd first (by omega), Function.update_self _ _ _⟩
  | succ n ih =>
    obtain ⟨array, filled, terms, last⟩ := ih (by omega)
    have fits : Fits (term MBIG m n - term MBIG m (n + 1)) := by
      have range := term_range low high (by decide) n
      cases n with
      | zero =>
        change Fits (m - 1)
        unfold Fits
        unfold MBIG at low high
        omega
      | succ n =>
        have before := (term_range low high (by decide) n).1
        unfold Fits
        unfold MBIG at before range ⊢
        omega
    refine ⟨Function.update array (21 * (n + 1) % 55) (term MBIG m (n + 1)), ?_, fun j first before => ?_, ?_⟩
    · rw [fill, filled, Option.bind_some]
      simp only [difference_eq fits, Option.map_some, Function.update_self]
      rfl
    · by_cases here : j = n + 1
      · rw [here, Function.update_self]
      · rw [Function.update_of_ne (by omega)]
        exact terms j first (by omega)
    · rw [Function.update_of_ne (by omega)]
      exact last

/-! ## Rounds -/

/-- What the entries but the last one are before and after a round. -/
structure Reduced (array : Nat → Int) : Prop where
  low : ∀ k, 1 ≤ k → k ≤ 54 → 0 ≤ array k
  high : ∀ k, 1 ≤ k → k ≤ 54 → k ≠ 24 → array k < MBIG
  middle : array 24 ≤ MBIG

theorem Reduced.le {array : Nat → Int} (reduced : Reduced array) {k : Nat} (first : 1 ≤ k) (last : k ≤ 54) : array k ≤ MBIG := by
  by_cases middle : k = 24
  · exact middle ▸ reduced.middle
  · exact (reduced.high k first last middle).le

theorem Reduced.update {array : Nat → Int} (reduced : Reduced array) {i : Nat} (low : 0 ≤ v) (high : i ≠ 24 → v < MBIG)
    (top : v ≤ MBIG) : Reduced (Function.update array i v) where
  low k first last := by
    by_cases here : k = i
    · rwa [here, Function.update_self]
    · rw [Function.update_of_ne here]
      exact reduced.low k first last
  high k first last other := by
    by_cases here : k = i
    · rw [here, Function.update_self]
      exact high (here ▸ other)
    · rw [Function.update_of_ne here]
      exact reduced.high k first last other
  middle := by
    by_cases here : 24 = i
    · rwa [here, Function.update_self]
    · rw [Function.update_of_ne here]
      exact reduced.middle

/-- Nothing is said about the last entry. -/
theorem Reduced.update_last {array : Nat → Int} (reduced : Reduced array) (v : Int) : Reduced (Function.update array 55 v) where
  low k first last := by
    rw [Function.update_of_ne (by omega)]
    exact reduced.low k first last
  high k first last other := by
    rw [Function.update_of_ne (by omega)]
    exact reduced.high k first last other
  middle := by
    rw [Function.update_of_ne (by decide)]
    exact reduced.middle

variable {array now : Nat → Int} {i n : Nat}

/-- A step that does not use the last entry. -/
theorem mix_step (run : mix array i = some now) (reduced : Reduced now) (inside : i + 1 ≤ 54) (other : i + 1 ≠ 24) :
    mix array (i + 1) =
        some (Function.update now (i + 1) (reduce MBIG (now (i + 1) - now (1 + (i + 1 + 30) % 55)))) ∧
      Reduced (Function.update now (i + 1) (reduce MBIG (now (i + 1) - now (1 + (i + 1 + 30) % 55)))) := by
  have low := reduced.low (i + 1) (by omega) inside
  have high := reduced.high (i + 1) (by omega) inside other
  have low' := reduced.low (1 + (i + 1 + 30) % 55) (by omega) (by omega)
  have high' := reduced.le (k := 1 + (i + 1 + 30) % 55) (by omega) (by omega)
  have fits : Fits (now (i + 1) - now (1 + (i + 1 + 30) % 55)) := by
    unfold Fits
    unfold MBIG at high high'
    omega
  obtain ⟨positive, small⟩ := @reduce_range MBIG (now (i + 1) - now (1 + (i + 1 + 30) % 55)) (by omega) (by omega)
  refine ⟨?_, reduced.update positive (fun _ => small) small.le⟩
  rw [mix, run, Option.bind_some, difference_eq fits]
  rfl

/-- Steps before or behind the one that uses the last entry. -/
theorem mix_stretch (run : mix array i = some now) (reduced : Reduced now) (inside : i + n ≤ 54) (other : 24 ≤ i ∨ i + n < 24) :
    ∃ later, mix array (i + n) = some later ∧ Reduced later ∧ ∀ k, (k ≤ i ∨ i + n < k) → later k = now k := by
  induction n with
  | zero => exact ⟨now, run, reduced, fun _ _ => rfl⟩
  | succ n ih =>
    obtain ⟨later, runs, reduced', same⟩ := ih (by omega) (by omega)
    obtain ⟨step, stays⟩ := mix_step runs reduced' (by omega) (by omega)
    refine ⟨_, step, stays, fun k out => ?_⟩
    rw [Function.update_of_ne (by omega)]
    exact same k (by omega)

theorem mix_none (stuck : mix array i = none) (n : Nat) : mix array (i + n) = none := by
  induction n with
  | zero => exact stuck
  | succ n ih => rw [← Nat.add_assoc, mix, ih, Option.bind_none]

/-- What a round takes from the last entry. -/
def lastTaken (array : Nat → Int) : Int := reduce MBIG (array 31 - reduce MBIG (array 7 - array 38))

/-- The steps before the one that uses the last entry. -/
theorem mix_before (reduced : Reduced array) :
    ∃ now, mix array 23 = some now ∧ Reduced now ∧ now 7 = reduce MBIG (array 7 - array 38) ∧ ∀ k, 23 < k → now k = array k := by
  obtain ⟨six, run₆, reduced₆, same₆⟩ := @mix_stretch array array 0 6 rfl reduced (by decide) (by decide)
  obtain ⟨run₇, reduced₇⟩ := mix_step run₆ reduced₆ (by decide) (by decide)
  obtain ⟨now, run, reduced', same⟩ := @mix_stretch array _ 7 16 run₇ reduced₇ (by decide) (by decide)
  refine ⟨now, run, reduced', ?_, fun k behind => ?_⟩
  · rw [same 7 (.inl (Nat.le_refl 7)), Function.update_self, same₆ _ (.inr (by decide)), same₆ _ (.inr (by decide))]
  · rw [same k (.inr behind), Function.update_of_ne (by omega), same₆ k (.inr (by omega))]

/-- The steps behind it. -/
theorem mix_behind (run : mix array 24 = some now) (reduced : Reduced now) :
    ∃ later, mix array 54 = some later ∧ Reduced later ∧ later 31 = reduce MBIG (now 31 - now 7) ∧ later 24 = now 24 ∧
      later 55 = now 55 := by
  obtain ⟨thirty, run₃₀, reduced₃₀, same₃₀⟩ := @mix_stretch array now 24 6 run reduced (by decide) (by decide)
  obtain ⟨run₃₁, reduced₃₁⟩ := mix_step run₃₀ reduced₃₀ (by decide) (by decide)
  obtain ⟨later, runs, reduced', same⟩ := @mix_stretch array _ 31 23 run₃₁ reduced₃₁ (by decide) (by decide)
  refine ⟨later, runs, reduced', ?_, ?_, ?_⟩
  · rw [same 31 (.inl (Nat.le_refl 31)), Function.update_self, same₃₀ _ (.inr (by decide)), same₃₀ _ (.inl (by decide))]
  · rw [same 24 (.inl (by decide)), Function.update_of_ne (by decide), same₃₀ 24 (.inl (Nat.le_refl 24))]
  · rw [same 55 (.inr (by decide)), Function.update_of_ne (by decide), same₃₀ 55 (.inr (by decide))]

/-- A round ends if two differences with the last entry are in range. -/
theorem mix_round (reduced : Reduced array) (small : array 55 ≤ MBIG) :
    (∃ later, mix array 55 = some later ∧ Reduced later ∧ later 24 = reduce MBIG (array 24 - array 55) ∧
        later 55 = reduce MBIG (array 55 - lastTaken array) ∧ Fits (array 24 - array 55) ∧ Fits (array 55 - lastTaken array)) ∨
      mix array 55 = none ∧ ¬ (Fits (array 24 - array 55) ∧ Fits (array 55 - lastTaken array)) := by
  obtain ⟨before, run₂₃, reduced₂₃, seven, same₂₃⟩ := mix_before reduced
  have step : mix array 24 = (difference (array 24) (array 55)).map (Function.update before 24) := by
    rw [mix, run₂₃, Option.bind_some, same₂₃ (23 + 1) (by decide), same₂₃ _ (by decide)]
  by_cases first : Fits (array 24 - array 55)
  · have positive := reduced.low 24 (by decide) (by decide)
    rw [difference_eq first, Option.map_some] at step
    have middle : 0 ≤ reduce MBIG (array 24 - array 55) ∧ reduce MBIG (array 24 - array 55) ≤ MBIG := by
      unfold Fits at first
      rcases reduce_cases MBIG (array 24 - array 55) with ⟨negative, eq⟩ | ⟨positive, eq⟩
      · rw [eq]
        omega
      · rw [eq]
        unfold MBIG
        omega
    have reduced₂₄ : Reduced (Function.update before 24 (reduce MBIG (array 24 - array 55))) :=
      reduced₂₃.update middle.1 (fun other => absurd rfl other) middle.2
    obtain ⟨later, run, reduced', taken, twentyFour, last⟩ := mix_behind step reduced₂₄
    rw [Function.update_of_ne (by decide), Function.update_of_ne (by decide), same₂₃ 31 (by decide), seven] at taken
    rw [Function.update_self] at twentyFour
    rw [Function.update_of_ne (by decide), same₂₃ 55 (by decide)] at last
    have end_step : mix array 55 = (difference (array 55) (lastTaken array)).map (Function.update later 55) := by
      rw [mix, run, Option.bind_some]
      change (difference (later 55) (later 31)).map _ = _
      rw [last, taken]
      rfl
    by_cases second : Fits (array 55 - lastTaken array)
    · rw [difference_eq second, Option.map_some] at end_step
      refine .inl ⟨_, end_step, reduced'.update_last _, ?_, ?_, first, second⟩
      · rw [Function.update_of_ne (by decide), twentyFour]
      · rw [Function.update_self]
    · rw [difference_none second] at end_step
      exact .inr ⟨end_step, fun both => second both.2⟩
  · rw [difference_none first] at step
    exact .inr ⟨@mix_none array 24 step 31, fun both => first both.1⟩

theorem lastTaken_range (reduced : Reduced array) : 0 ≤ lastTaken array ∧ lastTaken array < MBIG := by
  have low := reduced.low
  have high := reduced.high
  obtain ⟨first, second⟩ := @reduce_range MBIG (array 7 - array 38)
    (by have := low 7 (by decide) (by decide); have := high 38 (by decide) (by decide) (by decide); omega)
    (by have := high 7 (by decide) (by decide) (by decide); have := low 38 (by decide) (by decide); omega)
  exact @reduce_range MBIG (array 31 - reduce MBIG (array 7 - array 38))
    (by have := low 31 (by decide) (by decide); omega) (by have := high 31 (by decide) (by decide) (by decide); omega)

/-- A round does not fail if the last entry is not below −1. -/
theorem mix_sound (reduced : Reduced array) (small : array 55 < MBIG) (near : 0 ≤ array 55 ∨ array 55 = -1 ∧ array 24 < MBIG) :
    ∃ later, mix array 55 = some later ∧ Reduced later ∧ 0 ≤ later 55 ∧ later 55 < MBIG := by
  have taken := lastTaken_range reduced
  have low := reduced.low 24 (by decide) (by decide)
  have high := reduced.middle
  rcases mix_round reduced small.le with ⟨later, run, reduced', -, last, -⟩ | ⟨-, wide⟩
  · refine ⟨later, run, reduced', ?_⟩
    rw [last]
    exact reduce_range (by omega) (by omega)
  · refine absurd ⟨?_, ?_⟩ wide
    · unfold Fits
      unfold MBIG at small high near
      omega
    · unfold Fits
      unfold MBIG at small taken
      omega

theorem mixes_succ (array : Nat → Int) (k : Nat) : mixes array (k + 1) = (mix array 55).bind fun later => mixes later k := by
  induction k with
  | zero => simp only [mixes, Option.bind_some, Option.bind_fun_some]
  | succ k ih =>
    rw [mixes, ih, Option.bind_assoc]
    rfl

theorem mixes_sound (reduced : Reduced array) (low : 0 ≤ array 55) (high : array 55 < MBIG) (k : Nat) :
    ∃ later, mixes array k = some later ∧ Reduced later ∧ 0 ≤ later 55 ∧ later 55 < MBIG := by
  induction k with
  | zero => exact ⟨array, rfl, reduced, low, high⟩
  | succ k ih =>
    obtain ⟨before, run, reduced', low', high'⟩ := ih
    obtain ⟨later, runs, rest⟩ := mix_sound reduced' high' (.inl low')
    exact ⟨later, by rw [mixes, run, Option.bind_some, runs], rest⟩

/-! ## Seeds -/

/-- What the first round adds to an entry, and takes from the last one, is not too much. -/
def Near (m : Int) : Prop :=
  0 ≤ m ∨ (34 - 21 * m) % MBIG ≤ MBIG + m ∧ (1150029940 * m + 286696116) % MBIG ≤ MBIG + 1 + m

instance (m : Int) : Decidable (Near m) := inferInstanceAs (Decidable (_ ∨ _ ∧ _))

theorem Filled.entry (filled : Filled m 54 array) {k : Nat} (first : 1 ≤ k) (last : k ≤ 54) :
    array k = term MBIG m (21 * k % 55) := by
  have place : 21 * (21 * k % 55) % 55 = k := by omega
  rw [← filled.terms (21 * k % 55) (by omega) (by omega), place]

theorem Filled.range (filled : Filled m 54 array) (low : -MBIG < m) (high : m ≤ MBIG) {k : Nat} (first : 1 ≤ k) (last : k ≤ 54) :
    0 ≤ array k ∧ array k < MBIG := by
  obtain ⟨n, place⟩ := Nat.exists_eq_add_one_of_ne_zero (show 21 * k % 55 ≠ 0 by omega)
  rw [filled.entry first last, place]
  exact (term_range low high (by decide) n).1

theorem Filled.reduced (filled : Filled m 54 array) (low : -MBIG < m) (high : m ≤ MBIG) : Reduced array where
  low k first last := (filled.range low high first last).1
  high k first last _ := (filled.range low high first last).2
  middle := (filled.range low high (by decide) (by decide)).2.le

theorem Filled.middle (filled : Filled m 54 array) (low : -MBIG < m) (high : m ≤ MBIG) : array 24 = (34 - 21 * m) % MBIG := by
  obtain ⟨positive, small⟩ := @Filled.range m array filled low high 24 (by decide) (by decide)
  have ninth : array 24 ≡ 34 - 21 * m [ZMOD MBIG] := by
    rw [filled.entry (by decide) (by decide)]
    refine (term_fib MBIG m 8).1.trans ?_
    norm_num [Nat.fib]
  rw [← Int.emod_eq_of_lt positive small]
  exact ninth

theorem Filled.lastTaken (filled : Filled m 54 array) (low : -MBIG < m) (high : m ≤ MBIG) :
    lastTaken array = (1150029940 * m + 286696116) % MBIG := by
  obtain ⟨positive, small⟩ := lastTaken_range (filled.reduced low high)
  have sum : Random.lastTaken array ≡ 1150029940 * m + 286696116 [ZMOD MBIG] := by
    have terms : Random.lastTaken array ≡ term MBIG m 46 - (term MBIG m 37 - term MBIG m 28) [ZMOD MBIG] := by
      unfold Random.lastTaken
      rw [filled.entry (by decide) (by decide), filled.entry (by decide) (by decide), filled.entry (by decide) (by decide)]
      exact (reduce_modEq MBIG _).trans ((Int.ModEq.refl _).sub (reduce_modEq MBIG _))
    refine terms.trans ((((term_fib MBIG m 45).1).sub (((term_fib MBIG m 36).1).sub (term_fib MBIG m 27).1)).trans ?_)
    norm_num [Nat.fib]
    exact Int.modEq_iff_dvd.mpr ⟨1, by unfold MBIG; omega⟩
  rw [← Int.emod_eq_of_lt positive small]
  exact sum

/-- There is only one number with which the last entry becomes −1, and with that the other one is small. -/
theorem middle_small (negative : m < 0) (low : -MBIG < m) (least : (1150029940 * m + 286696116) % MBIG = MBIG + 1 + m) :
    (34 - 21 * m) % MBIG - m < MBIG := by
  have quotient := Int.emod_add_mul_ediv (1150029940 * m + 286696116) MBIG
  rw [least] at quotient
  generalize (1150029940 * m + 286696116) / MBIG = q at quotient
  unfold MBIG at quotient low
  -- 1526534390 is the inverse of 1150029939
  have multiple : m + 452475753 = 2147483647 * (1526534390 * (q + 1) - 817496447 * m - 203797351) := by
    linear_combination -1526534390 * quotient
  generalize 1526534390 * (q + 1) - 817496447 * m - 203797351 = z at multiple
  have only : m = -452475753 := by
    clear quotient least
    omega
  rw [only]
  decide

/-- The rounds end if the first one does, and what they leave is in range. -/
theorem mixes_iff (filled : Filled m 54 array) (low : -MBIG < m) (high : m < MBIG) :
    (Near m ∧ ∃ later, mixes array 4 = some later ∧ ∀ k, 1 ≤ k → k ≤ 55 → 0 ≤ later k ∧ later k ≤ MBIG) ∨
      ¬ Near m ∧ mixes array 4 = none := by
  have reduced := filled.reduced low high.le
  have middle := filled.middle low high.le
  have taken := filled.lastTaken low high.le
  have last := filled.last
  obtain ⟨positive, small⟩ := lastTaken_range reduced
  obtain ⟨low24, high24⟩ := @Filled.range m array filled low high.le 24 (by decide) (by decide)
  have ends : ∀ {now : Nat → Int}, mix array 55 = some now → Reduced now → now 55 < MBIG →
      (0 ≤ now 55 ∨ now 55 = -1 ∧ now 24 < MBIG) →
      ∃ later, mixes array 4 = some later ∧ ∀ k, 1 ≤ k → k ≤ 55 → 0 ≤ later k ∧ later k ≤ MBIG := by
    intro now first reduced' high' near
    obtain ⟨second, run₂, reduced₂, low₂, high₂⟩ := mix_sound reduced' high' near
    obtain ⟨later, run, reducedₙ, lowₙ, highₙ⟩ := mixes_sound reduced₂ low₂ high₂ 2
    refine ⟨later, by rw [mixes_succ, first, Option.bind_some, mixes_succ, run₂, Option.bind_some, run], fun k one most => ?_⟩
    by_cases here : k = 55
    · rw [here]
      exact ⟨lowₙ, highₙ.le⟩
    · exact ⟨reducedₙ.low k one (by omega), reducedₙ.le one (by omega)⟩
  by_cases natural : 0 ≤ m
  · obtain ⟨now, first, reduced', low', high'⟩ := mix_sound reduced (by omega) (.inl (by omega))
    exact .inl ⟨.inl natural, ends first reduced' high' (.inl low')⟩
  · have near : Near m ↔ Fits (array 24 - array 55) ∧ Fits (array 55 - lastTaken array) := by
      have bounds : Fits (array 24 - array 55) ∧ Fits (array 55 - lastTaken array) ↔
          array 24 ≤ MBIG + m ∧ lastTaken array ≤ MBIG + 1 + m := by
        unfold Fits
        unfold MBIG at low high24 small ⊢
        omega
      rw [bounds, middle, taken]
      exact or_iff_right natural
    rcases mix_round reduced (by omega) with ⟨now, first, reduced', next24, next55, fits, fits'⟩ | ⟨stuck, wide⟩
    · have holds := near.mpr ⟨fits, fits'⟩
      have moved : now 24 = (34 - 21 * m) % MBIG - m := by
        rw [next24, last, middle, reduce, if_neg (by omega)]
      have lost : now 55 = m - lastTaken array + MBIG := by
        rw [next55, last, reduce, if_pos (by omega)]
      have least : -2147483648 ≤ m - lastTaken array := last ▸ fits'.1
      refine .inl ⟨holds, ends first reduced' (by omega) ?_⟩
      by_cases one : now 55 = -1
      · rw [moved]
        exact .inr ⟨one, middle_small (by omega) low (by rw [← taken]; omega)⟩
      · unfold MBIG at lost
        exact .inl (by omega)
    · exact .inr ⟨fun holds => wide (near.mp holds), by rw [mixes_succ, stuck, Option.bind_none]⟩

/-! ## Calls -/

/-- What every call finds and leaves. -/
structure Sound (r : Random) : Prop where
  entries : ∀ k, 1 ≤ k → k ≤ 55 → 0 ≤ r.seedArray k ∧ r.seedArray k ≤ MBIG
  inext : r.inext ≤ 55
  inextp : r.inextp ≤ 55

theorem init_iff (seed : BitVec 32) :
    (Near (MSEED - subtraction seed) ∧ ∃ r, init seed = some r ∧ r.Sound) ∨
      ¬ Near (MSEED - subtraction seed) ∧ init seed = none := by
  have bounds : 0 ≤ subtraction seed ∧ subtraction seed ≤ MBIG := by
    have high := BitVec.toInt_lt (x := seed)
    have low := BitVec.le_toInt seed
    unfold subtraction MBIG
    split
    · decide
    · rcases abs_cases seed.toInt with ⟨eq, sign⟩ | ⟨eq, sign⟩ <;> omega
  have fits : Fits (MSEED - subtraction seed) := by
    unfold Fits MSEED
    unfold MBIG at bounds
    omega
  have low : -MBIG < MSEED - subtraction seed := by
    unfold MSEED
    omega
  have high : MSEED - subtraction seed < MBIG := by
    unfold MBIG MSEED
    omega
  obtain ⟨array, filled, shape⟩ := fill_filled low high.le (Nat.le_refl 54)
  have unfolded : init seed = (mixes array 4).map fun array => ⟨0, 21, array⟩ := by
    rw [init, int32, if_pos fits, Option.bind_some, filled, Option.bind_some]
  rw [unfolded]
  rcases mixes_iff shape low high with ⟨near, later, run, range⟩ | ⟨far, stuck⟩
  · exact .inl ⟨near, ⟨0, 21, later⟩, by rw [run, Option.map_some], range, Nat.zero_le 55, show 21 ≤ 55 by decide⟩
  · exact .inr ⟨far, by rw [stuck, Option.map_none]⟩

/-- What a call makes of a difference. -/
theorem sample_value {d : Int} (low : -MBIG ≤ d) (high : d ≤ MBIG) :
    ∃ v, (if (if d = MBIG then d - 1 else d) < 0 then int32 ((if d = MBIG then d - 1 else d) + MBIG)
      else some (if d = MBIG then d - 1 else d)) = some v ∧ 0 ≤ v ∧ v < MBIG := by
  have adjusted : -MBIG ≤ (if d = MBIG then d - 1 else d) ∧ (if d = MBIG then d - 1 else d) < MBIG := by
    unfold MBIG at *
    split <;> omega
  generalize (if d = MBIG then d - 1 else d) = v at adjusted ⊢
  have fits : v < 0 → Fits (v + MBIG) := by
    intro negative
    unfold Fits
    unfold MBIG at adjusted ⊢
    omega
  split
  · rename_i negative
    exact ⟨v + MBIG, if_pos (fits negative), by omega, by omega⟩
  · exact ⟨v, rfl, by omega, adjusted.2⟩

theorem internalSample_sound {r : Random} (sound : r.Sound) :
    ∃ v r', r.internalSample = some (v, r') ∧ r'.Sound ∧ (1 ≤ r'.inext ∧ 1 ≤ r'.inextp) ∧ 0 ≤ v ∧ v < MBIG := by
  have place : ∀ n ≤ 55, 1 ≤ (if n + 1 ≥ 56 then 1 else n + 1) ∧ (if n + 1 ≥ 56 then 1 else n + 1) ≤ 55 := by
    intro n most
    split <;> omega
  obtain ⟨first, last⟩ := place r.inext sound.inext
  obtain ⟨firstp, lastp⟩ := place r.inextp sound.inextp
  unfold internalSample
  generalize (if r.inext + 1 ≥ 56 then 1 else r.inext + 1) = i at first last ⊢
  generalize (if r.inextp + 1 ≥ 56 then 1 else r.inextp + 1) = j at firstp lastp ⊢
  obtain ⟨low, high⟩ := sound.entries i first last
  obtain ⟨lowp, highp⟩ := sound.entries j firstp lastp
  have fits : Fits (r.seedArray i - r.seedArray j) := by
    unfold Fits
    unfold MBIG at high highp
    omega
  obtain ⟨v, eq, positive, small⟩ := @sample_value (r.seedArray i - r.seedArray j) (by omega) (by omega)
  refine ⟨v, ⟨i, j, Function.update r.seedArray i v⟩, ?_, ⟨fun k one most => ?_, last, lastp⟩, ⟨first, firstp⟩, positive, small⟩
  · have subtracted : int32 (r.seedArray i - r.seedArray j) = some (r.seedArray i - r.seedArray j) := if_pos fits
    simp only [subtracted, Option.bind_some]
    rw [eq, Option.map_some]
  · change 0 ≤ Function.update r.seedArray i v k ∧ Function.update r.seedArray i v k ≤ MBIG
    by_cases here : k = i
    · rw [here, Function.update_self]
      exact ⟨positive, small.le⟩
    · rw [Function.update_of_ne here]
      exact sound.entries k one most

theorem calls_sound {seed : BitVec 32} {r₀ : Random} (begins : init seed = some r₀) (sound : r₀.Sound) (n : Nat) :
    ∃ r, calls seed n = some r ∧ r.Sound := by
  induction n with
  | zero => exact ⟨r₀, begins, sound⟩
  | succ n ih =>
    obtain ⟨r, run, sound'⟩ := ih
    obtain ⟨v, r', sampled, sound'', -⟩ := internalSample_sound sound'
    exact ⟨r', by rw [calls, run, Option.bind_some, next, sampled, Option.map_some], sound''⟩

end

/-- Nothing overflows, and every call is in range. -/
def InRange (seed : BitVec 32) : Prop :=
  ∀ n, ∃ r v r', calls seed n = some r ∧ r.next = some (v, r') ∧ (1 ≤ r'.inext ∧ r'.inext ≤ 55) ∧
    (1 ≤ r'.inextp ∧ r'.inextp ≤ 55) ∧ 0 ≤ v ∧ v ≤ 2147483646

theorem inRange_iff (seed : BitVec 32) : InRange seed ↔ Near (MSEED - subtraction seed) := by
  rcases init_iff seed with ⟨near, r₀, begins, sound⟩ | ⟨far, stuck⟩
  · refine iff_of_true (fun n => ?_) near
    obtain ⟨r, run, sound'⟩ := calls_sound begins sound n
    obtain ⟨v, r', sampled, after, ⟨first, firstp⟩, low, high⟩ := internalSample_sound sound'
    exact ⟨r, v, r', run, sampled, ⟨first, after.inext⟩, ⟨firstp, after.inextp⟩, low, Int.lt_add_one_iff.mp high⟩
  · refine iff_of_false (fun all => ?_) far
    obtain ⟨r, v, r', run, -⟩ := all 0
    exact absurd (stuck.symm.trans run) (by simp)

/-- With the largest seed `Init` overflows. -/
theorem not_inRange_max : init (BitVec.ofInt 32 2147483647) = none ∧ ¬ InRange (BitVec.ofInt 32 2147483647) := by
  rcases init_iff (BitVec.ofInt 32 2147483647) with ⟨near, -⟩ | ⟨-, stuck⟩
  · exact absurd near (by decide)
  · refine ⟨stuck, fun all => ?_⟩
    obtain ⟨r, v, r', run, -⟩ := all 0
    exact absurd (stuck.symm.trans run) (by simp)

end Random

end Xxlib.Uv4
