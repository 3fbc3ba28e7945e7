import Xxlib.Uv4.PoolInvariant

/-! Every program over the pool whose sizes do not wrap around keeps all accounts, and all
its handles notice when their objects are released.
-/

set_option autoImplicit false

namespace Xxlib.Uv4

open Function (update update_self update_of_ne)
open Lib

def Use.isRaw : Use → Bool
  | .raw _ => true
  | _ => false

def Frame.pointer : Frame → Nat
  | .create p => p
  | .release p _ => p

def Frame.use : Frame → Use
  | .create _ => .constructing
  | .release _ _ => .releasing

theorem Frame.use_not_raw (f : Frame) : f.use.isRaw = false := by cases f <;> rfl

namespace PoolState

/-! ## The invariant -/

/-- The block of a running constructor or destructor. -/
def Runs (s : PoolState) (f : Frame) : Prop :=
  s.InUse .memHeaderObject f.pointer f.use ∧
    ∀ p idx, f = .release p idx → s.pool.size (base p) = some (2 ^ idx)

/-- `w` is a handle of the object with the serial number `n`. -/
def Watches (s : PoolState) (w : Weak) (n : Nat) : Prop :=
  n ≤ s.pool.versionNumber ∧
    (w = {} ∧ s.released n = true ∨
      ∃ a idx, w.pointer = a + HeaderType.memHeaderObject.sizeof ∧ s.pool.size a = some (2 ^ idx) ∧
        w.versionNumber = n + idx * 2 ^ 56 ∧
        (s.released n = false → ∃ use, s.owner a = some (use, n) ∧ use.isRaw = false))

structure Invariant (s : PoolState) : Prop where
  sound : ∃ lists, Sound s.pool s.owner s.released lists
  runs : ∀ f ∈ s.frames, s.Runs f
  apart : (s.frames.map fun f => base f.pointer).Nodup
  watches : ∀ k n, s.target k = some n → s.Watches (s.weak k) n

/-- What no event undoes. -/
structure Evolves (s s' : PoolState) : Prop where
  version : s.pool.versionNumber ≤ s'.pool.versionNumber
  size : ∀ {a n}, s.pool.size a = some n → s'.pool.size a = some n
  released : ∀ {n}, s.released n = true → s'.released n = true
  owner : ∀ {a use n}, s.owner a = some (use, n) → use.isRaw = false → s'.released n = false →
    ∃ other, s'.owner a = some (other, n) ∧ other.isRaw = false

variable {s s' : PoolState} {w : Weak} {n : Nat} {f : Frame}

theorem Watches.evolves (watches : s.Watches w n) (evolves : Evolves s s') : s'.Watches w n := by
  obtain ⟨old, ⟨reset, gone⟩ | ⟨a, idx, pointer, size, version, alive⟩⟩ := watches
  · exact ⟨old.trans evolves.version, .inl ⟨reset, evolves.released gone⟩⟩
  · refine ⟨old.trans evolves.version, .inr ⟨a, idx, pointer, evolves.size size, version, fun present => ?_⟩⟩
    have before : s.released n = false := by
      by_contra gone
      rw [Bool.not_eq_false] at gone
      rw [evolves.released gone] at present
      cases present
    -- an object that is not released keeps its block
    obtain ⟨use, held, object⟩ := alive before
    exact evolves.owner held object present

theorem Runs.kept (runs : s.Runs f) (evolves : Evolves s s')
    (same : s'.owner (base f.pointer) = s.owner (base f.pointer)) : s'.Runs f := by
  obtain ⟨⟨pointer, n, held⟩, size⟩ := runs
  exact ⟨⟨pointer, n, same.trans held⟩, fun p idx shape => evolves.size (size p idx shape)⟩

/-- An event that changes no handle and no block of a call that goes on. -/
theorem Invariant.kept (invariant : Invariant s) (evolves : Evolves s s') (handles : s'.weak = s.weak)
    (targets : s'.target = s.target) (sound : ∃ lists, Sound s'.pool s'.owner s'.released lists)
    (fewer : s'.frames.Sublist s.frames)
    (same : ∀ f ∈ s'.frames, s'.owner (base f.pointer) = s.owner (base f.pointer)) : Invariant s' where
  sound := sound
  runs f running := (invariant.runs f (fewer.subset running)).kept evolves (same f running)
  apart := invariant.apart.sublist (fewer.map _)
  watches k n target := by
    rw [handles]
    rw [targets] at target
    exact (invariant.watches k n target).evolves evolves

/-- A constructor or a destructor is called. -/
theorem Invariant.push (invariant : Invariant s) (runs : s.Runs f)
    (apart : ∀ g ∈ s.frames, base g.pointer ≠ base f.pointer) : Invariant { s with frames := f :: s.frames } where
  sound := invariant.sound
  runs g running := by
    rcases List.mem_cons.mp running with rfl | before
    · exact runs
    · exact invariant.runs g before
  apart := by
    simp only [List.map_cons, List.nodup_cons, List.mem_map, not_exists, not_and]
    exact ⟨apart, invariant.apart⟩
  watches := invariant.watches

/-- The user of a block of a call. -/
theorem Invariant.frame_owner (invariant : Invariant s) (running : f ∈ s.frames) :
    ∃ n, s.owner (base f.pointer) = some (f.use, n) := (invariant.runs f running).1.2

/-- The objects stay where they are. -/
theorem Invariant.objects (invariant : Invariant s) {m : MemPool} {owner : Nat → Option (Use × Nat)}
    (version : s.pool.versionNumber ≤ m.versionNumber)
    (size : ∀ {a n}, s.pool.size a = some n → m.size a = some n)
    (objects : ∀ {a use n}, s.owner a = some (use, n) → use.isRaw = false → owner a = some (use, n))
    (sound : ∃ lists, Sound m owner s.released lists) : Invariant { s with pool := m, owner } := by
  refine invariant.kept ⟨version, size, id, fun held object _ => ⟨_, objects held object, object⟩⟩ rfl rfl sound
    (List.Sublist.refl _) fun f running => ?_
  obtain ⟨n, held⟩ := invariant.frame_owner running
  exact (objects held f.use_not_raw).trans held.symm

/-! ## Handles -/

theorem Watches.test_iff (invariant : Invariant s) (watches : s.Watches w n) :
    w.test s.pool = true ↔ s.released n = false := by
  obtain ⟨lists, sound⟩ := invariant.sound
  obtain ⟨old, ⟨rfl, gone⟩ | ⟨a, idx, pointer, size, version, alive⟩⟩ := watches
  · simp [Weak.test, gone]
  have index := sound.index size
  have tests : w.test s.pool = true ↔ s.pool.word a = n + idx * 2 ^ 56 := by
    simp [Weak.test, pointer, version, HeaderType.sizeof]
  rw [tests]
  constructor
  · intro same
    by_contra gone
    rw [Bool.not_eq_false] at gone
    cases held : s.owner a with
    | none =>
      -- on a list the word is an address
      have member := sound.listed.mpr ⟨size, held⟩
      rcases (sound.free.threaded idx).next_mem member with ends | inside
      · omega
      · have := (sound.block (sound.listed.mp inside).1).2.1
        omega
    | some user =>
      obtain ⟨use, k⟩ := user
      obtain ⟨known, released, i, -, word⟩ := sound.owned held
      -- the block was handed out again, with another serial number
      by_cases releasing : use = .releasing
      · rw [if_pos releasing] at word
        omega
      · rw [if_neg releasing, same] at word
        have equal : n = k := word_inj (old.trans_lt sound.version) (known.trans_lt sound.version) word
        exact releasing (released.mp (equal ▸ gone))
  · intro present
    obtain ⟨use, held, -⟩ := alive present
    obtain ⟨-, released, i, room, word⟩ := sound.owned held
    have running : use ≠ .releasing := by
      intro releasing
      rw [released.mpr releasing] at present
      cases present
    rw [if_neg running] at word
    rw [word, pow_inj (room.symm.trans size)]

/-! ## Calls -/

theorem update_known {size : Nat → Option Nat} {a b x y : Nat} (known : size a = none ∨ size a = some x)
    (sized : size b = some y) : update size a (some x) b = some y := by
  by_cases same : b = a
  · subst same
    rw [update_self]
    rcases known with absent | present
    · rw [absent] at sized
      cases sized
    · rw [← present, sized]
  · rw [update_of_ne same, sized]

theorem update_unused {owner : Nat → Option (Use × Nat)} {a b : Nat} {user held : Use × Nat} (unused : owner a = none)
    (known : owner b = some held) : update owner a (some user) b = some held := by
  have apart : b ≠ a := by
    rintro rfl
    rw [known] at unused
    cases unused
  rw [update_of_ne apart, known]

theorem update_raw {owner : Nat → Option (Use × Nat)} {a b n k : Nat} {mh : HeaderType} {use : Use}
    (raw : owner a = some (.raw mh, n)) (known : owner b = some (use, k)) (object : use.isRaw = false) :
    update owner a none b = some (use, k) := by
  have apart : b ≠ a := by
    rintro rfl
    rw [raw] at known
    obtain ⟨rfl, -⟩ := Prod.mk.inj (Option.some.inj known)
    cases object
  rw [update_of_ne apart, known]

/-- What holds after each event of a program. -/
def Goes (s : PoolState) (e : PoolEvent) : Prop :=
  ∃ s' p, s.step e = some (s', p) ∧ Invariant s' ∧ s.Served s' p e

theorem goes_alloc {mh : HeaderType} {siz fresh : Nat} (invariant : Invariant s)
    (permitted : s.Permitted (.alloc mh siz fresh)) (regular : s.Regular (.alloc mh siz fresh)) :
    s.Goes (.alloc mh siz fresh) := by
  obtain ⟨lists, sound⟩ := invariant.sound
  obtain ⟨request, -, contract, less⟩ := permitted
  rcases sound.alloc mh (.raw mh) request regular contract less (by simp) with
    ⟨-, failed⟩ | ⟨m', a, idx, rest, allocated, unused, fits, out, known, sound'⟩
  · refine ⟨s, 0, ?_, invariant, fun nonnull => absurd rfl nonnull⟩
    simp [step, failed, handOut]
  · have header := mh.sizeof_bounds
    unfold Goes
    simp only [step, allocated, Option.map_some]
    refine ⟨_, _, rfl, ?_, fun _ => ?_⟩
    · simp only [handOut, if_neg (by omega : a + mh.sizeof ≠ 0), Nat.add_sub_cancel]
      refine invariant.objects (by rw [out.version]; omega) (fun sized => ?_) (fun held _ => ?_) ⟨rest, sound'⟩
      · rw [out.size]
        exact update_known known sized
      · exact update_unused unused held
    · simp only [Provides, handOut, if_neg (by omega : a + mh.sizeof ≠ 0), Nat.add_sub_cancel]
      exact ⟨by omega, unused, 2 ^ idx, by rw [out.size, update_self], fits⟩

theorem goes_free {mh : HeaderType} {p : Nat} (invariant : Invariant s) (permitted : s.Permitted (.free mh p)) :
    s.Goes (.free mh p) := by
  by_cases null : p = 0
  · exact ⟨s, 0, by simp [step, MemPool.free, handBack, null], invariant, trivial⟩
  obtain ⟨lists, sound⟩ := invariant.sound
  obtain ⟨pointer, n, held⟩ := permitted null
  obtain ⟨idx, size, freed⟩ := sound.free_eq mh null held (by simp)
  unfold Goes
  simp only [step, freed, Option.map_some, handBack, if_neg null]
  refine ⟨_, _, rfl, ?_, trivial⟩
  refine invariant.objects (le_refl _) id (fun other object => ?_) ⟨_, sound.linked held size⟩
  exact update_raw held other object

theorem step_realloc_zero (p dataLen fresh : Nat) :
    s.step (.realloc p 0 dataLen fresh) = s.step (.free .memHeader p) := by
  simp only [step, MemPool.realloc, if_true, Option.map_map]
  congr 1
  funext pool
  by_cases null : p = 0
  · simp [null, handBack]
  · simp [Ne.symm null, handOut]

theorem step_realloc_null {newSize : Nat} (request : newSize ≠ 0) (dataLen fresh : Nat) :
    s.step (.realloc 0 newSize dataLen fresh) = s.step (.alloc .memHeader newSize fresh) := by
  simp only [step, MemPool.realloc, if_neg request, if_true]
  congr 1
  funext r
  by_cases failed : r.2 = 0
  · simp [failed, handOut]
  · simp [failed, handBack]

theorem goes_realloc {p newSize dataLen fresh : Nat} (invariant : Invariant s)
    (permitted : s.Permitted (.realloc p newSize dataLen fresh))
    (regular : s.Regular (.realloc p newSize dataLen fresh)) : s.Goes (.realloc p newSize dataLen fresh) := by
  obtain ⟨owned, allocates, -⟩ := permitted
  -- `Realloc` is `Free` for no bytes, and `Alloc` for a null pointer
  by_cases request : newSize = 0
  · subst request
    obtain ⟨s', q, freed, invariant', -⟩ := goes_free invariant owned
    exact ⟨s', q, (step_realloc_zero p dataLen fresh).trans freed, invariant', by simp [Served]⟩
  by_cases null : p = 0
  · subst null
    have permitted : s.Permitted (.alloc .memHeader newSize fresh) := allocates request
    obtain ⟨s', q, allocated, invariant', served⟩ := goes_alloc invariant permitted regular.1
    refine ⟨s', q, (step_realloc_null request dataLen fresh).trans allocated, invariant', ?_, ?_⟩
    · exact fun _ nonnull _ => served nonnull
    · exact fun _ nonnull => absurd rfl nonnull
  obtain ⟨-, -, contract, less⟩ := allocates request
  obtain ⟨pointer, n, held⟩ := owned null
  obtain ⟨a, rfl⟩ : ∃ a, p = a + sizeofMemHeader := ⟨p - sizeofMemHeader, (Nat.sub_add_cancel pointer).symm⟩
  simp only [HeaderType.sizeof, Nat.add_sub_cancel] at held
  obtain ⟨lists, sound⟩ := invariant.sound
  obtain ⟨-, -, idx, size, -⟩ := sound.owned held
  have fresh_block := regular.2 null
  unfold Goes
  rcases sound.realloc dataLen held size request regular.1 ⟨fresh_block, contract fresh_block⟩ less with
    ⟨stays, fits⟩ | ⟨m', b, j, rest, moved, apart, unused, fits, version, sized, known, copied, sound'⟩
  · simp only [step, stays, Option.map_some, if_true]
    refine ⟨_, _, rfl, invariant, ?_, fun _ _ => ⟨null, fun room known => ?_⟩⟩
    · exact fun _ _ differs => absurd rfl differs
    · simp only [Nat.add_sub_cancel, size, Option.some.injEq] at known
      exact ⟨fun _ => known ▸ fits, fun _ _ => rfl⟩
  · have differs : b + sizeofMemHeader ≠ a + sizeofMemHeader := fun same => apart (Nat.add_right_cancel same)
    have nonnull : b + sizeofMemHeader ≠ 0 := by simp [sizeofMemHeader]
    simp only [step, moved, Option.map_some, if_neg differs, handBack, if_neg null, handOut, if_neg nonnull,
      HeaderType.sizeof, Nat.add_sub_cancel]
    refine ⟨_, _, rfl, ?_, ?_, fun _ _ => ⟨nonnull, fun room present => ?_⟩⟩
    · refine invariant.objects (by rw [version]; omega) (fun block => ?_) (fun other object => ?_) ⟨rest, sound'⟩
      · rw [sized]
        exact update_known known block
      · have stays := update_raw held other object
        refine update_unused ?_ stays
        rw [update_of_ne apart, unused]
    · intro _ _ _
      simp only [Provides, HeaderType.sizeof, Nat.add_sub_cancel]
      exact ⟨by omega, unused, 2 ^ j, by rw [sized, update_self], fits⟩
    · simp only [Nat.add_sub_cancel, size, Option.some.injEq] at present ⊢
      subst present
      exact ⟨fun same => absurd same differs, copied⟩

theorem goes_createBegin {sizeofT fresh : Nat} (invariant : Invariant s)
    (permitted : s.Permitted (.createBegin sizeofT fresh)) (regular : s.Regular (.createBegin sizeofT fresh)) :
    s.Goes (.createBegin sizeofT fresh) := by
  obtain ⟨lists, sound⟩ := invariant.sound
  obtain ⟨request, -, contract, less⟩ := permitted
  unfold Goes
  rcases sound.alloc .memHeaderObject .constructing request regular contract less (by simp) with
    ⟨-, failed⟩ | ⟨m', a, idx, rest, allocated, unused, fits, out, known, sound'⟩
  · simp only [step, MemPool.createBegin, failed, Option.bind_eq_bind, Option.bind_some, if_true, Option.pure_def,
      Option.map_some]
    exact ⟨_, _, rfl, invariant, fun nonnull => absurd rfl nonnull⟩
  · have nonnull : a + HeaderType.memHeaderObject.sizeof ≠ 0 := by simp [HeaderType.sizeof]
    simp only [step, MemPool.createBegin, allocated, Option.bind_eq_bind, Option.bind_some, if_neg nonnull,
      Option.pure_def, Option.map_some, handOut, Nat.add_sub_cancel]
    refine ⟨_, _, rfl, ?_, fun _ => ?_⟩
    · have objects : Invariant { s with
          pool := { m' with refs := update m'.refs a 0 }
          owner := update s.owner a (some (.constructing, m'.versionNumber)) } := by
        refine invariant.objects (by simp only [out.version]; omega) (fun sized => ?_) (fun held _ => ?_)
          ⟨rest, sound'.bytes m'.bytes (update m'.refs a 0)⟩
        · simp only [out.size]
          exact update_known known sized
        · exact update_unused unused held
      refine objects.push ⟨⟨Nat.le_add_left _ _, m'.versionNumber, ?_⟩, ?_⟩ fun g running => ?_
      · simp [Frame.pointer, Frame.use]
      · intro p i shape
        cases shape
      · intro same
        obtain ⟨n, held⟩ := invariant.frame_owner running
        simp only [base, Frame.pointer, Nat.add_sub_cancel] at same held
        rw [same, unused] at held
        cases held
    · simp only [Provides, Nat.add_sub_cancel]
      exact ⟨Nat.le_add_left _ _, unused, 2 ^ idx, by rw [out.size, update_self], fits⟩

/-- The calls below the one that returns go on. -/
theorem Invariant.below (invariant : Invariant s) {frames : List Frame} (shape : s.frames = f :: frames) :
    frames.Sublist s.frames ∧ ∀ g ∈ frames, base g.pointer ≠ base f.pointer := by
  rw [shape]
  refine ⟨List.sublist_cons_self f frames, fun g below same => ?_⟩
  have apart := invariant.apart
  rw [shape, List.map_cons, List.nodup_cons] at apart
  exact apart.1 (List.mem_map.mpr ⟨g, below, same⟩)

/-- The block of the call that returns goes back, and its object counts as released. -/
theorem Invariant.returned (invariant : Invariant s) {frames : List Frame} {idx : Nat}
    (shape : s.frames = f :: frames) (held : s.owner (base f.pointer) = some (f.use, n))
    (size : s.pool.size (base f.pointer) = some (2 ^ idx)) :
    Invariant { s with
      pool := s.pool.link (base f.pointer) idx
      frames
      owner := update s.owner (base f.pointer) none
      released := update s.released n true } := by
  obtain ⟨lists, sound⟩ := invariant.sound
  obtain ⟨fewer, others⟩ := invariant.below shape
  refine invariant.kept ⟨le_refl _, id, fun {k} gone => ?_, fun {b use k} user object present => ?_⟩ rfl rfl ?_ fewer ?_
  · by_cases same : k = n
    · simp [same]
    · simp [same, gone]
  · by_cases same : b = base f.pointer
    · rw [same, held] at user
      obtain ⟨-, rfl⟩ := Prod.mk.inj (Option.some.inj user)
      simp at present
    · exact ⟨use, by simp [same, user], object⟩
  · refine ⟨_, (sound.linked held size).retired (sound.owned held).1 fun b use user => ?_⟩
    by_cases same : b = base f.pointer
    · simp [same] at user
    · rw [update_of_ne same] at user
      exact same (sound.serial user held)
  · intro g below
    simp [others g below]

theorem goes_createEnd {thrown : Bool} (invariant : Invariant s) (permitted : s.Permitted (.createEnd thrown)) :
    s.Goes (.createEnd thrown) := by
  obtain ⟨p, frames, shape⟩ := permitted
  obtain ⟨lists, sound⟩ := invariant.sound
  obtain ⟨⟨pointer, n, held⟩, -⟩ := invariant.runs (.create p) (by simp [shape])
  obtain ⟨fewer, others⟩ := invariant.below shape
  simp only [Frame.pointer, Frame.use] at pointer held
  have nonnull : p ≠ 0 := by
    rintro rfl
    simp [HeaderType.sizeof] at pointer
  unfold Goes
  cases thrown with
  | true =>
    obtain ⟨idx, size, freed⟩ := sound.free_eq .memHeaderObject nonnull held (by simp)
    have retired : ({ s with pool := s.pool.link (p - HeaderType.memHeaderObject.sizeof) idx, frames } : PoolState).retire p =
        { s with
          pool := s.pool.link (p - HeaderType.memHeaderObject.sizeof) idx
          frames
          released := update s.released n true } := by
      simp [retire, base, held]
    simp only [step, shape, if_true, freed, Option.map_some, retired, handBack, if_neg nonnull]
    exact ⟨_, _, rfl, invariant.returned (f := .create p) shape held size, trivial⟩
  | false =>
    obtain ⟨idx, size, -, word, -⟩ := sound.mpIndex_word held (by simp)
    have held' : s.owner (base p) = some (.constructing, n) := held
    simp only [step, shape, become, held', Option.map_some, Bool.false_eq_true, if_false]
    refine ⟨_, _, rfl, ?_, trivial⟩
    refine invariant.kept ⟨le_refl _, id, id, fun {b use k} user object _ => ?_⟩ rfl rfl ?_ fewer fun g below => ?_
    · by_cases same : b = base p
      · rw [same, held'] at user
        obtain ⟨-, rfl⟩ := Prod.mk.inj (Option.some.inj user)
        exact ⟨.object, by simp [same], rfl⟩
      · exact ⟨use, by simp [same, user], object⟩
    · have became : Sound { s.pool with word := update s.pool.word (base p) (s.pool.word (base p)) }
          (update s.owner (base p) (some (.object, n))) s.released lists :=
        sound.become held' ⟨idx, size, word⟩ (by simpa using (sound.owned held').2.1) fun _ _ => rfl
      rw [Function.update_eq_self] at became
      exact ⟨lists, became⟩
    · exact update_of_ne (others g below) _ _

theorem goes_releaseBegin {p : Nat} (invariant : Invariant s) (permitted : s.Permitted (.releaseBegin p)) :
    s.Goes (.releaseBegin p) := by
  unfold Goes
  by_cases null : p = 0
  · simp only [step, MemPool.releaseBegin, if_pos null, Option.map_some]
    exact ⟨_, _, rfl, invariant, trivial⟩
  obtain ⟨lists, sound⟩ := invariant.sound
  rcases permitted null with ⟨⟨pointer, n, held⟩, unreferenced⟩ | ⟨-, n, held⟩
  · obtain ⟨idx, size, index, word, low, high⟩ := sound.mpIndex_word held (by simp)
    have held' : s.owner (base p) = some (.object, n) := held
    have alive : s.pool.word (p - HeaderType.memHeaderObject.sizeof) ≠ 0 := by omega
    simp only [step, MemPool.releaseBegin, if_neg null, if_neg alive, index,
      if_neg (not_not_intro unreferenced : ¬s.pool.refs (p - HeaderType.memHeaderObject.sizeof) ≠ 0),
      if_pos (⟨by omega, high⟩ : 0 < idx ∧ idx < 64), Option.map_some, retire, held', become]
    refine ⟨_, _, rfl, ?_, trivial⟩
    have running : ∀ g ∈ s.frames, base g.pointer ≠ base p := by
      intro g running same
      obtain ⟨k, user⟩ := invariant.frame_owner running
      rw [same, held'] at user
      obtain ⟨use, -⟩ := Prod.mk.inj (Option.some.inj user)
      cases g <;> cases use
    have marked : Invariant { s with
        pool := { s.pool with word := update s.pool.word (base p) 0 }
        owner := update s.owner (base p) (some (.releasing, n))
        released := update s.released n true } := by
      refine invariant.kept ⟨le_refl _, id, fun {k} gone => ?_, fun {b use k} user object present => ?_⟩ rfl rfl
        ⟨lists, ?_⟩ (List.Sublist.refl _) fun g below => ?_
      · by_cases same : k = n
        · simp [same]
        · simp [same, gone]
      · by_cases same : b = base p
        · rw [same, held'] at user
          obtain ⟨-, rfl⟩ := Prod.mk.inj (Option.some.inj user)
          simp at present
        · exact ⟨use, by simp [same, user], object⟩
      · exact sound.become held' ⟨idx, size, rfl⟩ (by simp) fun k apart => update_of_ne apart _ _
      · exact update_of_ne (running g below) _ _
    refine marked.push ⟨⟨pointer, n, ?_⟩, ?_⟩ running
    · simp [Frame.pointer, Frame.use, base]
    · intro q i shape
      cases shape
      exact size
  · -- the destructor is running
    obtain ⟨-, -, idx, -, word⟩ := sound.owned held
    have zero : s.pool.word (p - HeaderType.memHeaderObject.sizeof) = 0 := word
    simp only [step, MemPool.releaseBegin, if_neg null, if_pos zero, Option.map_some]
    exact ⟨_, _, rfl, invariant, trivial⟩

theorem goes_releaseEnd (invariant : Invariant s) (permitted : s.Permitted .releaseEnd) : s.Goes .releaseEnd := by
  obtain ⟨p, idx, frames, shape⟩ := permitted
  obtain ⟨lists, sound⟩ := invariant.sound
  obtain ⟨⟨pointer, n, held⟩, size⟩ := invariant.runs (.release p idx) (by simp [shape])
  have nonnull : p ≠ 0 := by
    rintro rfl
    simp [Frame.pointer, HeaderType.sizeof] at pointer
  -- the object is counted already
  have gone : update s.released n true = s.released := by
    have marked := (sound.owned held).2.1.mpr rfl
    rw [← marked, Function.update_eq_self]
  have returned := invariant.returned (f := .release p idx) shape held (size p idx rfl)
  rw [gone] at returned
  unfold Goes
  simp only [step, shape, handBack, if_neg nonnull]
  exact ⟨_, _, rfl, returned, trivial⟩

/-- A call that reaches neither the lists nor a word. -/
theorem Invariant.payload (invariant : Invariant s) (bytes : Nat → Nat → UInt8) (refs : Nat → Nat) :
    Invariant { s with pool := { s.pool with bytes, refs } } := by
  obtain ⟨lists, sound⟩ := invariant.sound
  exact invariant.objects (le_refl _) id (fun held _ => held) ⟨lists, sound.bytes bytes refs⟩

theorem Invariant.setHandle (invariant : Invariant s) (k : Nat) {target : Option Nat}
    (watches : ∀ n, target = some n → s.Watches w n) : Invariant (s.setHandle k w target) where
  sound := invariant.sound
  runs := invariant.runs
  apart := invariant.apart
  watches j n known := by
    by_cases same : j = k
    · subst same
      simp only [PoolState.setHandle, update_self] at known ⊢
      exact watches n known
    · simp only [PoolState.setHandle, update_of_ne same] at known ⊢
      exact invariant.watches j n known

/-- A handle that is taken on an object which is not being released. -/
theorem watches_ofPointer {p : Nat} (invariant : Invariant s) (object : s.IsObject p)
    (alive : ¬s.InUse .memHeaderObject p .releasing) (known : (s.owner (base p)).map (·.2) = some n) :
    s.Watches (.ofPointer s.pool p) n := by
  obtain ⟨lists, sound⟩ := invariant.sound
  have held : ∃ use, HeaderType.memHeaderObject.sizeof ≤ p ∧ s.owner (base p) = some (use, n) ∧ use.isRaw = false ∧
      use ≠ .releasing := by
    rcases object with ⟨pointer, k, user⟩ | ⟨pointer, k, user⟩ | releasing
    · have user : s.owner (base p) = some (.constructing, k) := user
      simp only [user, Option.map_some, Option.some.injEq] at known
      exact ⟨_, pointer, known ▸ user, rfl, by simp⟩
    · have user : s.owner (base p) = some (.object, k) := user
      simp only [user, Option.map_some, Option.some.injEq] at known
      exact ⟨_, pointer, known ▸ user, rfl, by simp⟩
    · exact absurd releasing alive
  obtain ⟨use, pointer, held, kind, running⟩ := held
  obtain ⟨idx, size, -, word, -⟩ := sound.mpIndex_word held running
  have nonnull : p ≠ 0 := by
    rintro rfl
    simp [HeaderType.sizeof] at pointer
  refine ⟨(sound.owned held).1, .inr ⟨base p, idx, (Nat.sub_add_cancel pointer).symm, size, ?_, fun _ => ⟨use, held, kind⟩⟩⟩
  simp only [Weak.ofPointer, if_neg nonnull]
  exact word

theorem Watches.settle (invariant : Invariant s) (watches : s.Watches w n) : s.Watches (w.settle s.pool) n := by
  unfold Weak.settle
  by_cases present : w.test s.pool = true
  · rw [if_pos present]
    exact watches
  · rw [if_neg present]
    have gone : s.released n = true := by
      by_contra alive
      rw [Bool.not_eq_true] at alive
      exact present ((watches.test_iff invariant).mpr alive)
    exact ⟨watches.1, .inl ⟨rfl, gone⟩⟩

/-- The step lemma: a permitted event of regular size serves its caller and keeps the invariant. -/
theorem Invariant.goes (invariant : Invariant s) {e : PoolEvent} (permitted : s.Permitted e) (regular : s.Regular e) :
    s.Goes e := by
  cases e with
  | alloc mh siz fresh => exact goes_alloc invariant permitted regular
  | free mh p => exact goes_free invariant permitted
  | realloc p newSize dataLen fresh => exact goes_realloc invariant permitted regular
  | createBegin sizeofT fresh => exact goes_createBegin invariant permitted regular
  | createEnd thrown => exact goes_createEnd invariant permitted
  | releaseBegin p => exact goes_releaseBegin invariant permitted
  | releaseEnd => exact goes_releaseEnd invariant permitted
  | write mh p i value =>
    unfold Goes
    simp only [step, if_neg (not_le.mpr permitted.2)]
    exact ⟨_, _, rfl, invariant.payload _ s.pool.refs, trivial⟩
  | setRefs p n => exact ⟨_, _, rfl, invariant.payload s.pool.bytes _, trivial⟩
  | take k p =>
    refine ⟨_, _, rfl, invariant.setHandle k fun n known => ?_, trivial⟩
    by_cases null : p = 0
    · simp [null] at known
    · rw [if_neg null] at known
      exact watches_ofPointer invariant (permitted null) regular known
  | copy k j => exact ⟨_, _, rfl, invariant.setHandle k fun n known => invariant.watches j n known, trivial⟩
  | move k j =>
    have copied := invariant.setHandle k fun n known => invariant.watches j n known
    exact ⟨_, _, rfl, copied.setHandle j fun n known => by simp at known, trivial⟩
  | test k =>
    refine ⟨_, _, rfl, invariant.setHandle k fun n known => ?_, trivial⟩
    exact (invariant.watches k n known).settle invariant
  | reset k => exact ⟨_, _, rfl, invariant.setHandle k fun n known => by simp at known, trivial⟩

/-! ## Whole programs -/

theorem Invariant.start (word refs : Nat → Nat) (bytes : Nat → Nat → UInt8) :
    Invariant { pool := { word, refs, bytes } } where
  sound := ⟨fun _ => [], (by decide : 0 < 2 ^ 56), .empty, by simp, by simp, by simp, by simp, by simp⟩
  runs f running := by simp at running
  apart := List.nodup_nil
  watches k n target := by simp at target

theorem Reached.invariant (reached : Reached Regular s) : Invariant s := by
  induction reached with
  | start word refs bytes => exact .start word refs bytes
  | step _ permitted regular stepped ih =>
    obtain ⟨s', p, found, invariant, -⟩ := ih.goes permitted regular
    rw [stepped] at found
    obtain ⟨rfl, -⟩ := Prod.mk.inj (Option.some.inj found)
    exact invariant

theorem Invariant.accounted (invariant : Invariant s) : s.Accounted := by
  obtain ⟨lists, sound⟩ := invariant.sound
  refine ⟨lists, sound.free, fun a n size => ?_⟩
  obtain ⟨-, -, idx, -, high, rfl⟩ := sound.block size
  refine ⟨idx, high, rfl, ?_⟩
  cases held : s.owner a with
  | some user => exact .inl ⟨by simp, sound.outside held⟩
  | none =>
    refine .inr ⟨rfl, fun c => ?_⟩
    rw [sound.listed, size]
    exact ⟨fun both => (pow_inj both.1).symm, fun same => ⟨by rw [same], held⟩⟩

/-- In every program whose requests do not wrap around, each block is in use or on the list of its size, no block in
use is handed out, and each handle tests true until its object is released. -/
theorem blocks_accounted (reached : Reached Regular s) :
    s.Accounted ∧ s.Noticed ∧ ∀ e, s.Permitted e → s.Regular e → ∃ s' p, s.step e = some (s', p) ∧ s.Served s' p e := by
  have invariant := reached.invariant
  refine ⟨invariant.accounted, fun k n target => ?_, fun e permitted regular => ?_⟩
  · exact (invariant.watches k n target).test_iff invariant
  · obtain ⟨s', p, stepped, -, served⟩ := invariant.goes permitted regular
    exact ⟨s', p, stepped, served⟩

/-- An object of 24 bytes is watched and released, and its block is handed out again as raw memory. -/
theorem blocks_accounted_reused : ∃ s : PoolState, Reached Regular s ∧ s.owner 4096 = some (.raw .memHeader, 2) ∧
    s.target 0 = some 1 ∧ s.released 1 = true ∧ s.Noticed := by
  have made : Reached Regular _ := .step (e := .createBegin 24 4096) (.start (fun _ => 0) (fun _ => 0) fun _ _ => 0)
    ⟨by decide, by decide, fun _ => ⟨rfl, by decide⟩, by decide⟩ (by decide : 24 + 16 ≤ 2 ^ 63) rfl
  have built : Reached Regular _ := made.step (e := .createEnd false) ⟨_, _, rfl⟩ trivial rfl
  have watched : Reached Regular _ := built.step (e := .take 0 4112)
    (fun _ => .inr (.inl ⟨by decide, 1, rfl⟩)) (fun used => by obtain ⟨-, n, held⟩ := used; cases held) rfl
  have begun : Reached Regular _ := watched.step (e := .releaseBegin 4112)
    (fun _ => .inl ⟨⟨by decide, 1, rfl⟩, rfl⟩) trivial rfl
  have ended : Reached Regular _ := begun.step (e := .releaseEnd) ⟨_, _, _, rfl⟩ trivial rfl
  have reused : Reached Regular _ := ended.step (e := .alloc .memHeader 30 8192)
    ⟨by decide, by decide, fun _ => ⟨rfl, by decide⟩, by decide⟩ (by decide : 30 + 8 ≤ 2 ^ 63) rfl
  exact ⟨_, reused, rfl, rfl, rfl, (blocks_accounted reused).2.1⟩

/-- A request for 2^64 - 1 bytes gets a block without room for one, a `Realloc` without memory copies to null, and a
handle that the destructor takes on its object tests true behind the end of `Release`. -/
theorem request_wraps_and_handle_survives :
    (∃ (s s' : PoolState) (p : Nat) (e : PoolEvent), Reached (fun _ _ => True) s ∧ s.Permitted e ∧
        s.step e = some (s', p) ∧ ¬s.Served s' p e) ∧
      (∃ (s : PoolState) (e : PoolEvent), Reached (fun _ _ => True) s ∧ s.Permitted e ∧ s.step e = none) ∧
      ∃ s : PoolState, Reached (fun _ _ => True) s ∧ s.frames = [] ∧ s.owner 4096 = none ∧ ¬s.Noticed := by
  refine ⟨?_, ?_, ?_⟩
  · refine ⟨_, _, 4104, .alloc .memHeader (2 ^ 64 - 1) 4096, .start (fun _ => 0) (fun _ => 0) fun _ _ => 0,
      ⟨by decide, by decide, fun _ => ⟨rfl, by decide⟩, by decide⟩, rfl, fun served => ?_⟩
    obtain ⟨-, -, n, size, fits⟩ := served (by decide)
    have eight : n = 8 := (Option.some.inj size).symm
    simp only [eight, HeaderType.sizeof, sizeofMemHeader] at fits
    omega
  · have held : Reached (fun _ _ => True) _ := .step (e := .alloc .memHeader 8 4096)
      (.start (fun _ => 0) (fun _ => 0) fun _ _ => 0)
      ⟨by decide, by decide, fun _ => ⟨rfl, by decide⟩, by decide⟩ trivial rfl
    exact ⟨_, .realloc 4104 100 8 0, held, ⟨fun _ => ⟨by decide, 1, rfl⟩,
      fun _ => ⟨by decide, by decide, fun called => absurd rfl called, by decide⟩, by decide⟩, rfl⟩
  · have made : Reached (fun _ _ => True) _ := .step (e := .createBegin 24 4096)
      (.start (fun _ => 0) (fun _ => 0) fun _ _ => 0)
      ⟨by decide, by decide, fun _ => ⟨rfl, by decide⟩, by decide⟩ trivial rfl
    have built : Reached (fun _ _ => True) _ := made.step (e := .createEnd false) ⟨_, _, rfl⟩ trivial rfl
    have begun : Reached (fun _ _ => True) _ := built.step (e := .releaseBegin 4112)
      (fun _ => .inl ⟨⟨by decide, 1, rfl⟩, rfl⟩) trivial rfl
    have watched : Reached (fun _ _ => True) _ := begun.step (e := .take 0 4112)
      (fun _ => .inr (.inr ⟨by decide, 1, rfl⟩)) trivial rfl
    have ended : Reached (fun _ _ => True) _ := watched.step (e := .releaseEnd) ⟨_, _, _, rfl⟩ trivial rfl
    refine ⟨_, ended, rfl, rfl, fun noticed => ?_⟩
    have alive : (_ : Bool) = false := (noticed 0 1 rfl).mp rfl
    cases alive

end PoolState

end Xxlib.Uv4
