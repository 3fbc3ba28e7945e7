import Mathlib.Data.Nat.Log
import Xxlib.Uv4.PoolUse

/-! The pool keeps account of its blocks, and a handle notices when its object is gone. -/

set_option autoImplicit false

namespace Xxlib.Uv4

open Function (update update_self update_of_ne)
open Lib

theorem HeaderType.sizeof_bounds (mh : HeaderType) : 8 ≤ mh.sizeof ∧ mh.sizeof ≤ 16 := by
  cases mh <;> decide

/-! ## The word of a block -/

theorem mpIndex_add {n idx : Nat} (small : n < 2 ^ 56) (index : idx < 64) : mpIndex (n + idx * 2 ^ 56) = idx := by
  unfold mpIndex
  omega

theorem setMpIndex_eq {n idx : Nat} (small : n < 2 ^ 56) (index : idx < 64) :
    setMpIndex n idx = n + idx * 2 ^ 56 := by
  unfold setMpIndex
  omega

/-- Neither a link nor the zero of a released object, and the serial number can be read off. -/
theorem word_inj {n m i j : Nat} (first : n < 2 ^ 56) (second : m < 2 ^ 56)
    (same : n + i * 2 ^ 56 = m + j * 2 ^ 56) : n = m := by
  omega

theorem MemPool.sizeClass_eq {siz : Nat} (low : 9 ≤ siz) (high : siz ≤ 2 ^ 63) :
    ∃ idx, sizeClass siz = (idx, 2 ^ idx) ∧ 4 ≤ idx ∧ idx < 64 ∧ siz ≤ 2 ^ idx := by
  have below : 2 ^ calc2n siz ≤ siz := Nat.log2_self_le (by omega)
  have above : siz < 2 ^ (calc2n siz + 1) := Nat.lt_log2_self
  have at_least : 3 ≤ calc2n siz := by
    by_contra short
    have : 2 ^ (calc2n siz + 1) ≤ 2 ^ 3 := Nat.pow_le_pow_right (by decide) (by omega)
    omega
  unfold sizeClass
  simp only [Nat.one_shiftLeft]
  by_cases rounded : 2 ^ calc2n siz < siz
  · rw [if_pos rounded]
    have less : calc2n siz < 63 := (Nat.pow_lt_pow_iff_right (by decide)).mp (rounded.trans_le high)
    exact ⟨_, rfl, by omega, by omega, above.le⟩
  · rw [if_neg rounded]
    have exactly : siz = 2 ^ calc2n siz := by omega
    have most : calc2n siz ≤ 63 := (Nat.pow_le_pow_iff_right (by decide)).mp (exactly ▸ high)
    refine ⟨calc2n siz, by rw [← exactly], ?_, by omega, exactly.le⟩
    -- eight bytes would be a header without a request
    by_contra short
    have three : calc2n siz = 3 := by omega
    rw [three] at exactly
    omega

/-! ## Blocks and their users -/

/-- What holds of a pool whose blocks are used as `owner` says. -/
structure Sound (m : MemPool) (owner : Nat → Option (Use × Nat)) (released : Nat → Bool)
    (lists : Nat → List Nat) : Prop where
  version : m.versionNumber < 2 ^ 56
  free : FreeLists m.headers m.word lists
  listed : ∀ {c a}, a ∈ lists c ↔ m.size a = some (2 ^ c) ∧ owner a = none
  block : ∀ {a n}, m.size a = some n → a ≠ 0 ∧ a < 2 ^ 56 ∧ ∃ idx, 4 ≤ idx ∧ idx < 64 ∧ n = 2 ^ idx
  owned : ∀ {a use n}, owner a = some (use, n) → n ≤ m.versionNumber ∧ (released n = true ↔ use = .releasing) ∧
    ∃ idx, m.size a = some (2 ^ idx) ∧ m.word a = if use = .releasing then 0 else n + idx * 2 ^ 56
  serial : ∀ {a b u v n}, owner a = some (u, n) → owner b = some (v, n) → a = b
  past : ∀ {n}, released n = true → n ≤ m.versionNumber

/-- `m'` is `m` after an allocation that took the block `a` of `2 ^ idx` bytes. -/
structure HandsOut (m m' : MemPool) (a idx : Nat) : Prop where
  version : m'.versionNumber = m.versionNumber + 1
  size : m'.size = update m.size a (some (2 ^ idx))
  word : m'.word = update m.word a (m.versionNumber + 1 + idx * 2 ^ 56)
  refs : m'.refs = m.refs
  bytes : m'.bytes = m.bytes

section
variable {m m' : MemPool} {owner : Nat → Option (Use × Nat)} {released : Nat → Bool} {lists : Nat → List Nat}
  {a n idx : Nat} {use : Use}

theorem pow_inj {i j : Nat} (same : some (2 ^ i) = some (2 ^ j)) : i = j :=
  Nat.pow_right_injective (le_refl 2) (Option.some.inj same)

theorem Sound.index (sound : Sound m owner released lists) (size : m.size a = some (2 ^ idx)) : 4 ≤ idx ∧ idx < 64 := by
  obtain ⟨-, -, i, low, high, same⟩ := sound.block size
  have equal : idx = i := Nat.pow_right_injective (le_refl 2) same
  subst equal
  exact ⟨low, high⟩

/-- The list that the index in the header names is the one of the block's size. -/
theorem Sound.mpIndex_word (sound : Sound m owner released lists) (held : owner a = some (use, n))
    (running : use ≠ .releasing) : ∃ idx, m.size a = some (2 ^ idx) ∧ mpIndex (m.word a) = idx ∧
      m.word a = n + idx * 2 ^ 56 ∧ 4 ≤ idx ∧ idx < 64 := by
  obtain ⟨old, -, i, size, word⟩ := sound.owned held
  rw [if_neg running] at word
  have index := sound.index size
  refine ⟨i, size, ?_, word, index⟩
  rw [word]
  exact mpIndex_add (old.trans_lt sound.version) index.2

theorem Sound.outside (sound : Sound m owner released lists) (held : owner a = some (use, n)) (c : Nat) :
    a ∉ lists c := by
  intro member
  have unused := (sound.listed.mp member).2
  rw [held] at unused
  cases unused

/-- A block that no one uses gets a user. -/
theorem Sound.taken {rest : Nat → List Nat} (sound : Sound m owner released lists)
    (less : m.versionNumber + 1 < 2 ^ 56) (unused : owner a = none) (running : use ≠ .releasing)
    (address : a ≠ 0 ∧ a < 2 ^ 56) (index : 4 ≤ idx ∧ idx < 64) (out : HandsOut m m' a idx)
    (free : FreeLists m'.headers m.word rest) (dropped : ∀ {c b}, b ∈ rest c ↔ b ∈ lists c ∧ b ≠ a) :
    Sound m' (update owner a (some (use, m'.versionNumber))) released rest where
  version := by rw [out.version]; exact less
  free := by
    rw [out.word]
    exact free.frame fun c member => (dropped.mp member).2 rfl
  listed := by
    intro c b
    rw [dropped, sound.listed, out.size]
    by_cases same : b = a
    · simp [same]
    · simp [same]
  block := by
    intro b n size
    rw [out.size] at size
    by_cases same : b = a
    · subst same
      rw [update_self] at size
      exact ⟨address.1, address.2, idx, index.1, index.2, (Option.some.inj size).symm⟩
    · rw [update_of_ne same] at size
      exact sound.block size
  -- the block that is handed out, and those of other users
  owned := by
    intro b u n held
    rw [out.version, out.size, out.word]
    by_cases same : b = a
    · subst same
      simp only [update_self, Option.some.injEq, Prod.mk.injEq] at held
      obtain ⟨rfl, rfl⟩ := held
      rw [out.version]
      refine ⟨le_refl _, ?_, idx, by simp, by simp [running]⟩
      -- the serial number is new
      simp only [running, iff_false]
      intro early
      have := sound.past early
      omega
    · rw [update_of_ne same] at held
      obtain ⟨old, gone, i, size, word⟩ := sound.owned held
      exact ⟨by omega, gone, i, by rw [update_of_ne same, size], by rw [update_of_ne same, word]⟩
  serial := by
    intro b c u v n first second
    rw [out.version] at first second
    by_cases left : b = a
    · by_cases right : c = a
      · rw [left, right]
      · subst left
        simp only [update_self, Option.some.injEq, Prod.mk.injEq] at first
        rw [update_of_ne right] at second
        have := (sound.owned second).1
        omega
    · rw [update_of_ne left] at first
      by_cases right : c = a
      · subst right
        simp only [update_self, Option.some.injEq, Prod.mk.injEq] at second
        have := (sound.owned first).1
        omega
      · rw [update_of_ne right] at second
        exact sound.serial first second
  past := by
    intro n early
    have := sound.past early
    rw [out.version]
    omega

/-- A block goes back to the list of its size. -/
theorem Sound.linked (sound : Sound m owner released lists) (held : owner a = some (use, n))
    (size : m.size a = some (2 ^ idx)) :
    Sound (m.link a idx) (update owner a none) released (update lists idx (a :: lists idx)) where
  version := sound.version
  free := sound.free.push idx (sound.block size).1 (sound.outside held)
  listed := by
    intro c b
    show b ∈ update lists idx (a :: lists idx) c ↔ m.size b = some (2 ^ c) ∧ update owner a none b = none
    by_cases here : c = idx
    · subst here
      rw [update_self, List.mem_cons, sound.listed]
      by_cases same : b = a
      · simp [same, size]
      · simp [same]
    -- on another list: the block has one size only
    · rw [update_of_ne here, sound.listed]
      by_cases same : b = a
      · subst same
        rw [size, held]
        simp only [reduceCtorEq, and_false, update_self, and_true, false_iff]
        exact fun equal => here (pow_inj equal).symm
      · simp [same]
  block := sound.block
  owned := by
    intro b u n other
    have apart : b ≠ a := by
      rintro rfl
      simp at other
    rw [update_of_ne apart] at other
    obtain ⟨old, gone, i, room, word⟩ := sound.owned other
    exact ⟨old, gone, i, room, by simpa only [MemPool.link, update_of_ne apart] using word⟩
  serial := by
    intro b c u v n first second
    have left : b ≠ a := by
      rintro rfl
      simp at first
    have right : c ≠ a := by
      rintro rfl
      simp at second
    rw [update_of_ne left] at first
    rw [update_of_ne right] at second
    exact sound.serial first second
  past := sound.past

/-- A serial number that no block carries counts as released. -/
theorem Sound.retired (sound : Sound m owner released lists) (old : n ≤ m.versionNumber)
    (nowhere : ∀ b u, owner b ≠ some (u, n)) : Sound m owner (update released n true) lists where
  version := sound.version
  free := sound.free
  listed := sound.listed
  block := sound.block
  owned := by
    intro b u k held
    have apart : k ≠ n := by
      rintro rfl
      exact nowhere b u held
    rw [update_of_ne apart]
    exact sound.owned held
  serial := sound.serial
  past := by
    intro k gone
    by_cases same : k = n
    · omega
    · rw [update_of_ne same] at gone
      exact sound.past gone

/-- The use of a block changes, and with it its word. -/
theorem Sound.become {other : Use} {value : Nat} {gone : Nat → Bool} (sound : Sound m owner released lists)
    (held : owner a = some (use, n))
    (word : ∃ idx, m.size a = some (2 ^ idx) ∧ value = if other = .releasing then 0 else n + idx * 2 ^ 56)
    (marked : gone n = true ↔ other = .releasing) (kept : ∀ k, k ≠ n → gone k = released k) :
    Sound { m with word := update m.word a value } (update owner a (some (other, n))) gone lists where
  version := sound.version
  free := sound.free.frame (sound.outside held)
  listed := by
    intro c b
    rw [sound.listed]
    by_cases same : b = a
    · simp [same, held]
    · simp [same]
  block := sound.block
  owned := by
    intro b u k user
    by_cases same : b = a
    · subst same
      simp only [update_self, Option.some.injEq, Prod.mk.injEq] at user ⊢
      obtain ⟨rfl, rfl⟩ := user
      exact ⟨(sound.owned held).1, marked, word⟩
    · simp only [update_of_ne same] at user ⊢
      have apart : k ≠ n := by
        rintro rfl
        exact same (sound.serial user held)
      rw [kept k apart]
      exact sound.owned user
  serial := by
    have before : ∀ {b u k}, update owner a (some (other, n)) b = some (u, k) → ∃ x, owner b = some (x, k) := by
      intro b u k user
      by_cases same : b = a
      · subst same
        simp only [update_self, Option.some.injEq, Prod.mk.injEq] at user
        exact ⟨use, user.2 ▸ held⟩
      · exact ⟨u, by rwa [update_of_ne same] at user⟩
    intro b c u v k first second
    obtain ⟨_, left⟩ := before first
    obtain ⟨_, right⟩ := before second
    exact sound.serial left right
  past := by
    intro k early
    by_cases same : k = n
    · exact same ▸ (sound.owned held).1
    · exact sound.past (kept k same ▸ early)

/-! ## Allocation -/

theorem MemPool.fill_eq {h : Nat} (index : 4 ≤ idx ∧ idx < 64) (size : m.size h = some (2 ^ idx))
    (less : m.versionNumber + 1 < 2 ^ 56) :
    m.fill h idx = some { m with
      versionNumber := m.versionNumber + 1
      word := update m.word h (m.versionNumber + 1 + idx * 2 ^ 56) } := by
  have room : 2 ^ 4 ≤ 2 ^ idx := Nat.pow_le_pow_right (by decide) index.1
  have wraps : (m.versionNumber + 1) % 2 ^ 64 = m.versionNumber + 1 := Nat.mod_eq_of_lt (by omega)
  unfold fill
  rw [size, Option.getD_some, if_neg (by omega)]
  simp only [wraps, setMpIndex_eq less index.2]

/-- The call fails, or hands out a block that no one used and that has room. -/
theorem Sound.alloc {siz fresh : Nat} (sound : Sound m owner released lists) (mh : HeaderType) (use : Use)
    (request : siz ≠ 0) (small : siz + mh.sizeof ≤ 2 ^ 63)
    (contract : fresh ≠ 0 → m.size fresh = none ∧ fresh < 2 ^ 56)
    (less : m.versionNumber + 1 < 2 ^ 56) (running : use ≠ .releasing) :
    (fresh = 0 ∧ m.alloc mh siz fresh = some (m, 0)) ∨
      ∃ m' a idx rest, m.alloc mh siz fresh = some (m', a + mh.sizeof) ∧ owner a = none ∧ mh.sizeof + siz ≤ 2 ^ idx ∧
        HandsOut m m' a idx ∧ (m.size a = none ∨ m.size a = some (2 ^ idx)) ∧
        Sound m' (update owner a (some (use, m'.versionNumber))) released rest := by
  have header := mh.sizeof_bounds
  obtain ⟨idx, rounded, low, high, room⟩ := MemPool.sizeClass_eq (by omega : 9 ≤ siz + mh.sizeof) small
  have wraps : (siz + mh.sizeof) % 2 ^ 64 = siz + mh.sizeof := Nat.mod_eq_of_lt (by omega)
  unfold MemPool.alloc
  simp only [wraps, rounded, if_neg request, if_neg (by omega : ¬siz + mh.sizeof = 0), if_neg (by omega : ¬64 ≤ idx)]
  -- the list of this size is empty, and `malloc` is called
  by_cases kept : m.headers idx = 0
  · by_cases fails : fresh = 0
    · exact .inl ⟨fails, by simp [kept, fails]⟩
    · right
      obtain ⟨new, address⟩ := contract fails
      have unused : owner fresh = none := by
        cases held : owner fresh with
        | none => rfl
        | some user =>
          obtain ⟨-, -, i, size, -⟩ := sound.owned held
          rw [new] at size
          cases size
      have outside : ∀ c, fresh ∉ lists c := by
        intro c member
        have size := (sound.listed.mp member).1
        rw [new] at size
        cases size
      have filled := MemPool.fill_eq (m := { m with size := update m.size fresh (some (2 ^ idx)) }) (h := fresh)
        ⟨low, high⟩ (by simp) less
      simp only [kept, ne_eq, not_true_eq_false, if_false, fails, filled]
      refine ⟨_, fresh, idx, lists, rfl, unused, by omega, ⟨rfl, rfl, rfl, rfl, rfl⟩, .inl new, ?_⟩
      refine sound.taken less unused running ⟨fails, address⟩ ⟨low, high⟩ ⟨rfl, rfl, rfl, rfl, rfl⟩ sound.free ?_
      intro c b
      exact ⟨fun member => ⟨member, fun same => outside c (same ▸ member)⟩, fun both => both.1⟩
  · right
    obtain ⟨rest, shape, popped⟩ := sound.free.pop kept
    have member : m.headers idx ∈ lists idx := by simp [shape]
    obtain ⟨size, unused⟩ := sound.listed.mp member
    have address := sound.block size
    have filled := MemPool.fill_eq (m := { m with headers := update m.headers idx (m.word (m.headers idx)) })
      (h := m.headers idx) ⟨low, high⟩ size less
    have sized : m.size = update m.size (m.headers idx) (some (2 ^ idx)) := by rw [← size, Function.update_eq_self]
    simp only [kept, ne_eq, not_false_eq_true, if_true, filled]
    refine ⟨_, m.headers idx, idx, update lists idx rest, rfl, unused, by omega, ⟨rfl, sized, rfl, rfl, rfl⟩,
      .inr size, ?_⟩
    refine sound.taken less unused running ⟨address.1, address.2.1⟩ ⟨low, high⟩ ⟨rfl, sized, rfl, rfl, rfl⟩ popped ?_
    intro c b
    have nodup := sound.free.nodup idx
    rw [shape] at nodup
    by_cases here : c = idx
    · subst here
      rw [update_self, shape, List.mem_cons]
      constructor
      · intro inside
        exact ⟨.inr inside, fun same => (List.nodup_cons.mp nodup).1 (same ▸ inside)⟩
      · rintro ⟨first | inside, apart⟩
        · exact absurd first apart
        · exact inside
    · rw [update_of_ne here]
      exact ⟨fun inside => ⟨inside, fun same => here (sound.free.apart (same ▸ inside) member)⟩, fun both => both.1⟩

theorem Sound.free_eq {p : Nat} (sound : Sound m owner released lists) (mh : HeaderType) (pointer : p ≠ 0)
    (held : owner (p - mh.sizeof) = some (use, n)) (running : use ≠ .releasing) :
    ∃ idx, m.size (p - mh.sizeof) = some (2 ^ idx) ∧ m.free mh p = some (m.link (p - mh.sizeof) idx) := by
  obtain ⟨idx, size, index, -, low, high⟩ := sound.mpIndex_word held running
  refine ⟨idx, size, ?_⟩
  unfold MemPool.free
  rw [if_neg pointer]
  simp only [index]
  rw [if_pos ⟨by omega, high⟩]

theorem Sound.bytes (sound : Sound m owner released lists) (bytes : Nat → Nat → UInt8) (refs : Nat → Nat) :
    Sound { m with bytes, refs } owner released lists :=
  ⟨sound.version, sound.free, sound.listed, sound.block, sound.owned, sound.serial, sound.past⟩

/-- The bytes that fit into both blocks. -/
theorem MemPool.memcpy_eq {b j : Nat} (count : Nat) (source : m.size a = some (2 ^ idx)) (target : m.size b = some (2 ^ j))
    (fits : 8 + count ≤ 2 ^ idx) (less : idx ≤ j) :
    ∃ bytes, m.memcpy (b + sizeofMemHeader) (a + sizeofMemHeader) count = some { m with bytes } ∧
      ∀ i < count, bytes b (sizeofMemHeader + i) = m.bytes a (sizeofMemHeader + i) := by
  have larger : 2 ^ idx ≤ 2 ^ j := Nat.pow_le_pow_right (by decide) less
  unfold memcpy
  simp only [Nat.add_sub_cancel, source, target, Option.getD_some, sizeofMemHeader]
  rw [if_neg (by omega)]
  refine ⟨_, rfl, fun i inside => ?_⟩
  simp [inside]

/-- A block that stays, or one that takes over the bytes. -/
theorem Sound.realloc {newSize fresh : Nat} (sound : Sound m owner released lists) (dataLen : Nat)
    (held : owner a = some (.raw .memHeader, n)) (size : m.size a = some (2 ^ idx)) (request : newSize ≠ 0)
    (small : newSize + sizeofMemHeader ≤ 2 ^ 63)
    (contract : fresh ≠ 0 ∧ m.size fresh = none ∧ fresh < 2 ^ 56) (less : m.versionNumber + 1 < 2 ^ 56) :
    (m.realloc (a + sizeofMemHeader) newSize dataLen fresh = some (m, a + sizeofMemHeader) ∧
        sizeofMemHeader + newSize ≤ 2 ^ idx) ∨
      ∃ m' b j rest, m.realloc (a + sizeofMemHeader) newSize dataLen fresh = some (m', b + sizeofMemHeader) ∧
        b ≠ a ∧ owner b = none ∧ sizeofMemHeader + newSize ≤ 2 ^ j ∧ m'.versionNumber = m.versionNumber + 1 ∧
        m'.size = update m.size b (some (2 ^ j)) ∧ (m.size b = none ∨ m.size b = some (2 ^ j)) ∧
        (∀ i < min (2 ^ idx - sizeofMemHeader) dataLen,
          m'.bytes b (sizeofMemHeader + i) = m.bytes a (sizeofMemHeader + i)) ∧
        Sound m' (update (update owner a none) b (some (.raw .memHeader, m'.versionNumber))) released rest := by
  obtain ⟨i, sized, index, -, low, high⟩ := sound.mpIndex_word held (by decide)
  have same : i = idx := pow_inj (sized.symm.trans size)
  subst same
  have room : 2 ^ 4 ≤ 2 ^ i := Nat.pow_le_pow_right (by decide) low
  have most : 2 ^ i ≤ 2 ^ 63 := Nat.pow_le_pow_right (by decide) (by omega)
  have capacity : (1 <<< i + (2 ^ 64 - sizeofMemHeader)) % 2 ^ 64 = 2 ^ i - sizeofMemHeader := by
    rw [Nat.one_shiftLeft]
    simp only [sizeofMemHeader]
    omega
  unfold MemPool.realloc
  rw [if_neg request, if_neg (by simp [sizeofMemHeader])]
  simp only [Nat.add_sub_cancel, index, if_neg (by omega : ¬64 ≤ i), capacity]
  by_cases enough : newSize ≤ 2 ^ i - sizeofMemHeader
  · left
    rw [if_pos enough]
    exact ⟨rfl, by simp only [sizeofMemHeader] at *; omega⟩
  · right
    rw [if_neg enough]
    rcases sound.alloc .memHeader (.raw .memHeader) request small (fun _ => contract.2) less (by decide)
      with ⟨fails, -⟩ | ⟨m', b, j, rest, allocated, unused, fits, out, known, sound'⟩
    · exact absurd fails contract.1
    have apart : b ≠ a := by
      rintro rfl
      rw [held] at unused
      cases unused
    have source : m'.size a = some (2 ^ i) := by rw [out.size, update_of_ne apart.symm, sized]
    have target : m'.size b = some (2 ^ j) := by rw [out.size, update_self]
    simp only [HeaderType.sizeof, sizeofMemHeader] at fits enough allocated
    have grows : i ≤ j := by
      have : 2 ^ i ≤ 2 ^ j := by omega
      exact (Nat.pow_le_pow_iff_right (by decide)).mp this
    obtain ⟨bytes, copied, same⟩ := MemPool.memcpy_eq (min (2 ^ i - 8) dataLen) source target (by omega) grows
    simp only [sizeofMemHeader] at copied same ⊢
    have held' : update owner b (some (.raw .memHeader, m'.versionNumber)) (a + 8 - HeaderType.memHeader.sizeof) =
        some (.raw .memHeader, n) := by
      simp only [HeaderType.sizeof, sizeofMemHeader, Nat.add_sub_cancel, update_of_ne apart.symm, held]
    obtain ⟨k, known', freed⟩ := (sound'.bytes bytes m'.refs).free_eq .memHeader
      (by omega : a + 8 ≠ 0) held' (by decide)
    simp only [HeaderType.sizeof, sizeofMemHeader, Nat.add_sub_cancel] at freed known' held'
    have index' : k = i := pow_inj (known'.symm.trans source)
    subst index'
    simp only [allocated, copied, freed, Option.bind_eq_bind, Option.bind_some, Option.pure_def]
    refine ⟨_, b, j, update rest k (a :: rest k), rfl, apart, unused, by omega, out.version, out.size, known, ?_, ?_⟩
    · intro l inside
      exact (same l inside).trans (by rw [out.bytes])
    · have linked := (sound'.bytes bytes m'.refs).linked held' known'
      rw [Function.update_comm apart.symm]
      exact linked

end

end Xxlib.Uv4
