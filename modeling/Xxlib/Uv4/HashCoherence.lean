import Xxlib.Uv4.HashFuncs
import Xxlib.Uv4.Hashing
import Xxlib.Uv4.VarintCodec

/-! `HashFunc` and `EqualsFunc` of the key types (`xx_hashutils.hpp`, `xx_string.hpp`, `xx_guid.hpp`).

A function that is given a null pointer it does not test for, or that does not end, has no result.
-/

set_option autoImplicit false

namespace Xxlib.Uv4

open Lib

/-! ## Keys -/

/-- The integral types by their sizes. Signed or not, a value is its bits. -/
inductive IntegralSize where
  | one | two | four | eight

def IntegralSize.bits : IntegralSize → Nat
  | .one => 8
  | .two => 16
  | .four => 32
  | .eight => 64

/-- How the source is compiled. -/
structure Build where
  ndebug : Bool
  signedChar : Bool

/-- Where the characters of a `String` or of a `std::string` are, and how many. -/
structure Chars where
  buf : Nat
  dataLen : Nat

/-- The bytes by their addresses, and the `String` objects by theirs. -/
structure KeyMemory where
  byte : Nat → UInt8
  string : Nat → Chars

inductive KeyType where
  | integral (size : IntegralSize)
  | string
  | stringPtr
  | stdString
  | charPtr
  | guid

/-- A `String` is given by its address. A pointer is an address, and null is zero. -/
def KeyType.Key : KeyType → Type
  | .integral size => BitVec size.bits
  | .string | .stringPtr | .charPtr => Nat
  | .stdString => Chars
  | .guid => Guid

/-! ## Equality -/

/-- The built-in `==`. -/
def integralEquals (size : IntegralSize) (a b : BitVec size.bits) : Bool := a == b

/-- `String::Equals(String const&)`. -/
def KeyMemory.stringEquals (m : KeyMemory) (a b : Nat) : Bool :=
  if a = b then true
  else if (m.string a).dataLen ≠ (m.string b).dataLen then false
  else memcmp m.byte (m.string a).buf (m.string b).buf (m.string a).dataLen == 0

/-- `EqualsFunc<String_p>`. -/
def KeyMemory.stringPtrEquals (m : KeyMemory) (a b : Nat) : Bool :=
  if a = b then true
  else if a ≠ 0 ∧ b ≠ 0 then m.stringEquals a b
  else false

/-- `operator==` of `std::string`. -/
def Chars.equals (mem : Nat → UInt8) (a b : Chars) : Bool :=
  a.dataLen == b.dataLen && memcmp mem a.buf b.buf a.dataLen == 0

/-- `EqualsFunc<char const*>`. -/
def charPtrEquals (mem : Nat → UInt8) (rounds a b : Nat) : Option Bool :=
  if a = 0 ∨ b = 0 then none else (strcmp mem rounds a b).map (· == 0)

def Guid.part1 (g : Guid) : UInt64 := UInt64.ofNat (g.word0.toNat + 2 ^ 32 * g.word1.toNat)

def Guid.part2 (g : Guid) : UInt64 := UInt64.ofNat (g.word2.toNat + 2 ^ 32 * g.word3.toNat)

/-- `Guid::operator==`. -/
def Guid.equals (a b : Guid) : Bool := a.part1 == b.part1 && a.part2 == b.part2

/-- `EqualsTo`, and `==` where there is none. -/
def equalsTo (m : KeyMemory) (rounds : Nat) : (t : KeyType) → t.Key → t.Key → Option Bool
  | .integral size, a, b => some (integralEquals size a b)
  | .string, a, b => some (m.stringEquals a b)
  | .stringPtr, a, b => some (m.stringPtrEquals a b)
  | .stdString, a, b => some (Chars.equals m.byte a b)
  | .charPtr, a, b => charPtrEquals m.byte rounds a b
  | .guid, a, b => some (Guid.equals a b)

/-! ## Hash codes -/

/-- Less than four bytes are extended by zeros, and the halves of eight are joined. -/
def hashIntegral : (size : IntegralSize) → BitVec size.bits → UInt32
  | .one, v => UInt32.ofNat v.toNat
  | .two, v => UInt32.ofNat v.toNat
  | .four, v => UInt32.ofBitVec v
  | .eight, v => UInt32.ofBitVec (v.extractLsb' 0 32) ^^^ UInt32.ofBitVec (v.extractLsb' 32 32)

/-- `HashFunc<String>`. -/
def KeyMemory.hashString (build : Build) (m : KeyMemory) (rounds a : Nat) : Option UInt32 :=
  if (m.string a).dataLen = 0 then some 0 else hashBuffer build.ndebug m.byte rounds (m.string a).buf (m.string a).dataLen

/-- `HashFunc<String_p>`. -/
def KeyMemory.hashStringPtr (build : Build) (m : KeyMemory) (rounds a : Nat) : Option UInt32 :=
  if a ≠ 0 then m.hashString build rounds a else some 0

/-- The sign of a `char` gets into the word. -/
def mixChar (signedChar : Bool) (seed : UInt32) (c : UInt8) : UInt32 :=
  (seed ^^^ UInt32.ofNat (charWord signedChar 32 c)) * 0x1000193

/-- The loop of `HashFunc<char const*>`. -/
def hashChars (signedChar : Bool) (mem : Nat → UInt8) (size src : Nat) (seed : UInt32) : UInt32 :=
  foldBytes (mixChar signedChar) mem size src seed

/-- `HashFunc<char const*>`. -/
def hashCharPtr (signedChar : Bool) (mem : Nat → UInt8) (rounds a : Nat) : Option UInt32 :=
  if a = 0 then some 0x811C9DC5
  else (strlen mem rounds a).map fun size => if size = 0 then 0x811C9DC5 else hashChars signedChar mem size a 0x811C9DC5

/-- `HashFunc<Guid>`. -/
def Guid.hash (g : Guid) : UInt32 := g.word0 ^^^ g.word1 ^^^ g.word2 ^^^ g.word3

/-- `GetHashCode`. -/
def getHashCode (build : Build) (m : KeyMemory) (rounds : Nat) : (t : KeyType) → t.Key → Option UInt32
  | .integral size, a => some (hashIntegral size a)
  | .string, a => m.hashString build rounds a
  | .stringPtr, a => m.hashStringPtr build rounds a
  | .stdString, (a : Chars) => hashBuffer build.ndebug m.byte rounds a.buf a.dataLen
  | .charPtr, a => hashCharPtr build.signedChar m.byte rounds a
  | .guid, a => some (Guid.hash a)

/-- `EqualsTo` answers `true`. -/
def Equal (m : KeyMemory) (t : KeyType) (a b : t.Key) : Prop := ∃ rounds, equalsTo m rounds t a b = some true

/-- `GetHashCode` answers `h`. -/
def Hashes (build : Build) (m : KeyMemory) (t : KeyType) (a : t.Key) (h : UInt32) : Prop :=
  ∃ rounds, getHashCode build m rounds t a = some h

/-- The buffers that have a hash code. -/
def Chars.Hashable (build : Build) (c : Chars) : Prop := PassesAssert build.ndebug c.buf ∧ c.dataLen < 2 ^ 32

/-- The strings of a key are in such buffers. -/
def Hashable (build : Build) (m : KeyMemory) : (t : KeyType) → t.Key → Prop
  | .string, a => (m.string a).Hashable build
  | .stringPtr, (a : Nat) => a ≠ 0 → (m.string a).Hashable build
  | .stdString, a => Chars.Hashable build a
  | .integral _, _ | .charPtr, _ | .guid, _ => True

/-! ## What equal keys share -/

/-- Both are the same characters. -/
structure Chars.Same (mem : Nat → UInt8) (a b : Chars) : Prop where
  dataLen : a.dataLen = b.dataLen
  bytes : SameBytes mem mem a.buf b.buf a.dataLen

section
variable {build : Build} {signedChar : Bool} {m : KeyMemory} {mem : Nat → UInt8} {rounds rounds' a b : Nat} {c d : Chars}
  {h h' : UInt32} {x : List UInt8}

theorem Chars.Same.refl (mem : Nat → UInt8) (c : Chars) : Chars.Same mem c c := ⟨rfl, fun _ _ => rfl⟩

theorem Chars.same_of_equals (equal : Chars.equals mem c d = true) : Chars.Same mem c d := by
  rw [Chars.equals, Bool.and_eq_true, beq_iff_eq, beq_iff_eq] at equal
  exact ⟨equal.1, memcmp_eq_zero_iff.mp equal.2⟩

theorem integralEquals_iff {size : IntegralSize} {v w : BitVec size.bits} : integralEquals size v w = true ↔ v = w := beq_iff_eq

theorem KeyMemory.same_of_stringEquals (equal : m.stringEquals a b = true) : Chars.Same m.byte (m.string a) (m.string b) := by
  unfold KeyMemory.stringEquals at equal
  split at equal
  · rename_i same
    rw [same]
    exact Chars.Same.refl _ _
  · split at equal
    · cases equal
    · rename_i length
      exact ⟨Decidable.not_not.mp length, memcmp_eq_zero_iff.mp (beq_iff_eq.mp equal)⟩

theorem KeyMemory.stringPtrEquals_cases (equal : m.stringPtrEquals a b = true) :
    a = b ∨ a ≠ 0 ∧ b ≠ 0 ∧ m.stringEquals a b = true := by
  unfold KeyMemory.stringPtrEquals at equal
  split at equal
  · exact .inl ‹_›
  · split at equal
    · rename_i pointers
      exact .inr ⟨pointers.1, pointers.2, equal⟩
    · cases equal

theorem charPtrEquals_cases (equal : charPtrEquals mem rounds a b = some true) :
    a ≠ 0 ∧ b ≠ 0 ∧ ∃ x : List UInt8, CString mem a x ∧ CString mem b x := by
  unfold charPtrEquals at equal
  split at equal
  · cases equal
  · rename_i pointers
    rw [not_or] at pointers
    obtain ⟨difference, compared, zero⟩ := Option.map_eq_some_iff.mp equal
    rw [beq_iff_eq] at zero
    rw [zero] at compared
    exact ⟨pointers.1, pointers.2, cstring_of_strcmp compared⟩

theorem Guid.eq_of_equals {a b : Guid} (equal : a.equals b = true) : a = b := by
  obtain ⟨a0, a1, a2, a3⟩ := a
  obtain ⟨b0, b1, b2, b3⟩ := b
  have halves : ∀ {v v' w w' : UInt32},
      UInt64.ofNat (v.toNat + 2 ^ 32 * w.toNat) = UInt64.ofNat (v'.toNat + 2 ^ 32 * w'.toNat) → v = v' ∧ w = w' := by
    intro v v' w w' same
    have number := congrArg UInt64.toNat same
    have bounds := And.intro (And.intro v.toNat_lt v'.toNat_lt) (And.intro w.toNat_lt w'.toNat_lt)
    rw [UInt64.toNat_ofNat', UInt64.toNat_ofNat', Nat.mod_eq_of_lt (by omega), Nat.mod_eq_of_lt (by omega)] at number
    exact ⟨UInt32.toNat_inj.mp (by omega), UInt32.toNat_inj.mp (by omega)⟩
  rw [Guid.equals, Bool.and_eq_true, beq_iff_eq, beq_iff_eq] at equal
  obtain ⟨rfl, rfl⟩ := halves equal.1
  obtain ⟨rfl, rfl⟩ := halves equal.2
  rfl

/-! ## Their hash codes -/

theorem KeyMemory.hashString_unique (same : Chars.Same m.byte (m.string a) (m.string b))
    (first : m.hashString build rounds a = some h) (second : m.hashString build rounds' b = some h') : h = h' := by
  unfold KeyMemory.hashString at first second
  rw [← same.dataLen] at second
  split at first
  · rw [if_pos ‹_›] at second
    exact Option.some.inj (first.symm.trans second)
  · rw [if_neg ‹_›] at second
    exact hashBuffer_unique same.bytes first second

theorem KeyMemory.hashStringPtr_unique (equal : m.stringPtrEquals a b = true)
    (first : m.hashStringPtr build rounds a = some h) (second : m.hashStringPtr build rounds' b = some h') : h = h' := by
  unfold KeyMemory.hashStringPtr at first second
  rcases KeyMemory.stringPtrEquals_cases equal with rfl | ⟨pointer, pointer', strings⟩
  · split at first
    · rw [if_pos ‹_›] at second
      exact KeyMemory.hashString_unique (Chars.Same.refl _ _) first second
    · rw [if_neg ‹_›] at second
      exact Option.some.inj (first.symm.trans second)
  · rw [if_pos pointer] at first
    rw [if_pos pointer'] at second
    exact KeyMemory.hashString_unique (KeyMemory.same_of_stringEquals strings) first second

theorem KeyMemory.hashString_returns (fit : (m.string a).Hashable build) : ∃ rounds h, m.hashString build rounds a = some h := by
  unfold KeyMemory.hashString
  refine ⟨(m.string a).dataLen / 8 + 1, Option.isSome_iff_exists.mp ?_⟩
  split
  · rfl
  · exact hashBuffer_returns fit.1 fit.2 (Nat.lt_succ_self _)

/-- What the hash code of a string is, once its end is found. -/
theorem hashCharPtr_eq (string : CString mem a x) (pointer : a ≠ 0) (enough : x.length < rounds) :
    hashCharPtr signedChar mem rounds a = some (hashChars signedChar mem x.length a 0x811C9DC5) := by
  rw [hashCharPtr, if_neg pointer, string.strlen enough, Option.map_some]
  cases x with
  | nil => rfl
  | cons b x => rfl

theorem hashCharPtr_unique (string : CString mem a x) (pointer : a ≠ 0)
    (done : hashCharPtr signedChar mem rounds a = some h) : h = hashChars signedChar mem x.length a 0x811C9DC5 := by
  rw [hashCharPtr, if_neg pointer] at done
  obtain ⟨size, found, rfl⟩ := Option.map_eq_some_iff.mp done
  obtain ⟨y, string', rfl⟩ := cstring_of_strlen found
  rw [string.unique string']
  split
  · rw [‹y.length = 0›]
    rfl
  · rfl

end

/-! ## Coherence -/

section
variable {build : Build} {m : KeyMemory} {t : KeyType} {a b : t.Key} {h h' : UInt32}

/-- The hash codes of equal keys are equal. -/
theorem Equal.hash_eq (equal : Equal m t a b) (first : Hashes build m t a h) (second : Hashes build m t b h') : h = h' := by
  obtain ⟨rounds, equal⟩ := equal
  obtain ⟨r, first⟩ := first
  obtain ⟨r', second⟩ := second
  cases t with
  | integral size =>
    have same : a = b := integralEquals_iff.mp (Option.some.inj equal)
    subst same
    exact Option.some.inj (first.symm.trans second)
  | string => exact KeyMemory.hashString_unique (KeyMemory.same_of_stringEquals (Option.some.inj equal)) first second
  | stringPtr => exact KeyMemory.hashStringPtr_unique (Option.some.inj equal) first second
  | stdString =>
    have same := Chars.same_of_equals (Option.some.inj equal)
    have second : hashBuffer build.ndebug m.byte r' (Chars.buf b) (Chars.dataLen b) = some h' := second
    rw [← same.dataLen] at second
    exact hashBuffer_unique same.bytes first second
  | charPtr =>
    obtain ⟨pointer, pointer', x, string, string'⟩ := charPtrEquals_cases equal
    rw [hashCharPtr_unique string pointer first, hashCharPtr_unique string' pointer' second]
    exact foldBytes_congr _ (string.stored.sameBytes string'.stored) _
  | guid =>
    have same := Guid.eq_of_equals (Option.some.inj equal)
    subst same
    exact Option.some.inj (first.symm.trans second)

theorem hashes_of_hashable (fit : Hashable build m t a) (strings : t ≠ .charPtr) : ∃ h, Hashes build m t a h := by
  cases t with
  | integral size => exact ⟨_, 0, rfl⟩
  | string =>
    obtain ⟨rounds, h, done⟩ := KeyMemory.hashString_returns fit
    exact ⟨h, rounds, done⟩
  | stringPtr =>
    by_cases null : @Ne Nat a 0
    · obtain ⟨rounds, h, done⟩ := KeyMemory.hashString_returns (fit null)
      exact ⟨h, rounds, (if_pos null).trans done⟩
    · exact ⟨0, 0, if_neg null⟩
  | stdString =>
    obtain ⟨h, done⟩ := Option.isSome_iff_exists.mp (hashBuffer_returns fit.1 fit.2 (Nat.lt_succ_self _))
    exact ⟨h, _, done⟩
  | charPtr => exact absurd rfl strings
  | guid => exact ⟨_, 0, rfl⟩

/-- Equal keys have hash codes, if their strings are where a buffer can be hashed. -/
theorem Equal.hashes (equal : Equal m t a b) (fit : Hashable build m t a) (fit' : Hashable build m t b) :
    ∃ h, Hashes build m t a h ∧ Hashes build m t b h := by
  have both : (∃ h, Hashes build m t a h) ∧ ∃ h, Hashes build m t b h := by
    by_cases strings : t = .charPtr
    · subst strings
      obtain ⟨rounds, compared⟩ := equal
      obtain ⟨pointer, pointer', x, string, string'⟩ := charPtrEquals_cases compared
      exact ⟨⟨_, x.length + 1, hashCharPtr_eq string pointer (Nat.lt_succ_self _)⟩,
        ⟨_, x.length + 1, hashCharPtr_eq string' pointer' (Nat.lt_succ_self _)⟩⟩
    · exact ⟨hashes_of_hashable fit strings, hashes_of_hashable fit' strings⟩
  obtain ⟨⟨h, first⟩, h', second⟩ := both
  obtain rfl := equal.hash_eq first second
  exact ⟨h, first, second⟩

end

/-- Equal keys hash alike, and a buffer by its own bytes only. -/
theorem hash_coherent (build : Build) :
    (∀ (m : KeyMemory) (t : KeyType) (a b : t.Key), Equal m t a b →
      (∀ h h', Hashes build m t a h → Hashes build m t b h' → h = h') ∧
      (Hashable build m t a → Hashable build m t b → ∃ h, Hashes build m t a h ∧ Hashes build m t b h)) ∧
    (∀ (mem mem' : Nat → UInt8) (buf buf' len : Nat), buf % 4 = 0 → buf' % 4 = 0 → len < 2 ^ 32 →
      (∀ i, i < len → mem (buf + i) = mem' (buf' + i)) →
      ∃ h, ∀ rounds, len / 8 < rounds →
        hashBuffer build.ndebug mem rounds buf len = some h ∧ hashBuffer build.ndebug mem' rounds buf' len = some h) := by
  constructor
  · intro m t a b equal
    exact ⟨fun h h' => equal.hash_eq, equal.hashes⟩
  · intro mem mem' buf buf' len aligned aligned' small same
    have returns : (hashBuffer build.ndebug mem (len / 8 + 1) buf len).isSome :=
      hashBuffer_returns (.inr aligned) small (Nat.lt_succ_self _)
    obtain ⟨h, first⟩ := Option.isSome_iff_exists.mp returns
    refine ⟨h, fun rounds enough => ?_⟩
    obtain ⟨more, rfl⟩ := Nat.exists_eq_add_of_le enough
    have found := hashBuffer_more first more
    exact ⟨found, hashBuffer_congr same (.inr aligned) (.inr aligned') _ ▸ found⟩

/-- Two strings of five bytes, with other bytes behind them. -/
def staleMemory : KeyMemory where
  byte i := if i = 9 then 7 else 1
  string a := if a = 1 then ⟨4, 5⟩ else ⟨16, 5⟩

theorem hash_coherent_stale :
    (∃ h, Hashes ⟨false, true⟩ staleMemory .string (1 : Nat) h ∧ Hashes ⟨false, true⟩ staleMemory .string (2 : Nat) h) ∧
    ∃ h, ∀ rounds, 5 / 8 < rounds →
      hashBuffer false staleMemory.byte rounds 4 5 = some h ∧ hashBuffer false staleMemory.byte rounds 16 5 = some h :=
  ⟨((hash_coherent ⟨false, true⟩).1 staleMemory .string (1 : Nat) (2 : Nat) ⟨0, by decide⟩).2 ⟨.inr rfl, by decide⟩ ⟨.inr rfl, by decide⟩,
    (hash_coherent ⟨false, true⟩).2 staleMemory.byte staleMemory.byte 4 16 5 rfl rfl (by decide) (by decide)⟩

/-! ## What the containers are given -/

/-- Texts, as keys that are hashed in a buffer of their own. -/
def KeyFuncs.text (ndebug : Bool) : KeyFuncs {x : List UInt8 // x.length < 2 ^ 32} where
  getHashCode x := (hashBuffer ndebug (memory x.1 fun _ => 0) (x.1.length / 8 + 1) 0 x.1.length).getD 0
  equalsTo x y := decide (x = y)
  equals_refl := by simp
  equals_symm := by
    intro x y same
    simp only [decide_eq_true_eq] at same ⊢
    exact same.symm
  equals_trans := by simp +contextual
  hash_respects := by simp +contextual

section
variable {build : Build} {m : KeyMemory} {c d : Chars} {x y : {x : List UInt8 // x.length < 2 ^ 32}}

/-- The text `x` is in memory. -/
structure Chars.Holds (mem : Nat → UInt8) (c : Chars) (x : List UInt8) : Prop where
  dataLen : c.dataLen = x.length
  stored : Lib.Stored mem c.buf x

theorem Chars.Holds.eq_iff (first : Chars.Holds m.byte c x.1) (second : Chars.Holds m.byte d y.1) :
    Chars.equals m.byte c d = (KeyFuncs.text build.ndebug).equalsTo x y := by
  apply Bool.eq_iff_iff.mpr
  rw [Chars.equals, Bool.and_eq_true, beq_iff_eq, beq_iff_eq, memcmp_eq_zero_iff, first.dataLen, second.dataLen,
    KeyFuncs.text, decide_eq_true_iff, Subtype.ext_iff]
  constructor
  · rintro ⟨length, bytes⟩
    apply List.ext_getElem length
    intro i small small'
    rw [← first.stored.getElem i small, ← second.stored.getElem i small']
    exact bytes i small
  · intro same
    have stored := second.stored
    rw [← same] at stored
    exact ⟨congrArg List.length same, first.stored.sameBytes stored⟩

/-- A `std::string` is hashed as its text is. -/
theorem Chars.Holds.hashes (holds : Chars.Holds m.byte c x.1) (aligned : PassesAssert build.ndebug c.buf) :
    Hashes build m .stdString c ((KeyFuncs.text build.ndebug).getHashCode x) := by
  have origin : PassesAssert build.ndebug 0 := .inr rfl
  have same : SameBytes (memory x.1 fun _ => 0) m.byte 0 c.buf x.1.length := (memory_stored _ _).sameBytes holds.stored
  obtain ⟨h, done⟩ := Option.isSome_iff_exists.mp
    (@hashBuffer_returns build.ndebug (memory x.1 fun _ => 0) 0 _ _ origin x.2 (Nat.lt_succ_self _))
  refine ⟨x.1.length / 8 + 1, ?_⟩
  have found : hashBuffer build.ndebug m.byte (x.1.length / 8 + 1) c.buf c.dataLen = some h := by
    rw [holds.dataLen, ← hashBuffer_congr same origin aligned]
    exact done
  exact found.trans (congrArg some (congrArg (Option.getD · 0) done).symm)

end

end Xxlib.Uv4
