import Xxlib.Uv4.MemPool

/-! Programs over the memory pool (`xx_mempool.hpp`): who uses which block, the constructors
and destructors that are running, and the handles that were taken.

An event is one call, or the part of a call in front of or behind a constructor or a
destructor, so that anything may happen in between. Beside the pool the state records what
each block is used for, by an allocation's serial number; no call reads that record.
-/

set_option autoImplicit false

namespace Xxlib.Uv4

open Function (update)
open Lib

/-- What a block that lies on no list is used for. -/
inductive Use where
  | raw (mh : HeaderType)
  | constructing
  | object
  | releasing
  deriving DecidableEq

/-- A call whose constructor or destructor is running. -/
inductive Frame where
  | create (p : Nat)
  | release (p idx : Nat)
  deriving DecidableEq

structure PoolState where
  pool : MemPool
  frames : List Frame := []
  /-- The use of a block and the serial number of the allocation it comes from. -/
  owner : Nat → Option (Use × Nat) := fun _ => none
  /-- The objects that were released, by their serial numbers. -/
  released : Nat → Bool := fun _ => false
  weak : Nat → Weak := fun _ => {}
  /-- The object that a handle was taken on. -/
  target : Nat → Option Nat := fun _ => none

inductive PoolEvent where
  | alloc (mh : HeaderType) (siz fresh : Nat)
  | free (mh : HeaderType) (p : Nat)
  | realloc (p newSize dataLen fresh : Nat)
  | createBegin (sizeofT fresh : Nat)
  | createEnd (thrown : Bool)
  | releaseBegin (p : Nat)
  | releaseEnd
  | write (mh : HeaderType) (p i : Nat) (value : UInt8)
  | setRefs (p n : Nat)
  | take (k p : Nat)
  | copy (k j : Nat)
  | move (k j : Nat)
  | test (k : Nat)
  | reset (k : Nat)

namespace PoolState

def base (p : Nat) : Nat := p - HeaderType.memHeaderObject.sizeof

/-- The block behind `p` was just allocated, unless `p` is null. -/
def handOut (s : PoolState) (mh : HeaderType) (p : Nat) (use : Use) : PoolState :=
  if p = 0 then s else { s with owner := update s.owner (p - mh.sizeof) (some (use, s.pool.versionNumber)) }

def handBack (s : PoolState) (mh : HeaderType) (p : Nat) : PoolState :=
  if p = 0 then s else { s with owner := update s.owner (p - mh.sizeof) none }

def become (s : PoolState) (p : Nat) (use : Use) : PoolState :=
  { s with owner := update s.owner (base p) ((s.owner (base p)).map fun held => (use, held.2)) }

/-- The object at `p` counts as released from now on. -/
def retire (s : PoolState) (p : Nat) : PoolState :=
  match s.owner (base p) with
  | some (_, n) => { s with released := update s.released n true }
  | none => s

def setHandle (s : PoolState) (k : Nat) (w : Weak) (target : Option Nat) : PoolState :=
  { s with weak := update s.weak k w, target := update s.target k target }

/-- The next state and the pointer that is returned. -/
def step (s : PoolState) : PoolEvent → Option (PoolState × Nat)
  | .alloc mh siz fresh =>
    (s.pool.alloc mh siz fresh).map fun r => ({ s with pool := r.1 }.handOut mh r.2 (.raw mh), r.2)
  | .free mh p => (s.pool.free mh p).map fun pool => ({ s with pool }.handBack mh p, 0)
  | .realloc p newSize dataLen fresh =>
    (s.pool.realloc p newSize dataLen fresh).map fun r =>
      if r.2 = p then ({ s with pool := r.1 }, p)
      else (({ s with pool := r.1 }.handBack .memHeader p).handOut .memHeader r.2 (.raw .memHeader), r.2)
  | .createBegin sizeofT fresh =>
    (s.pool.createBegin sizeofT fresh).map fun r =>
      if r.2 = 0 then ({ s with pool := r.1 }, 0)
      else ({ s with pool := r.1, frames := .create r.2 :: s.frames }.handOut .memHeaderObject r.2 .constructing, r.2)
  | .createEnd thrown =>
    match s.frames with
    | .create p :: frames =>
      if thrown then
        (s.pool.free .memHeaderObject p).map fun pool =>
          (({ s with pool, frames }.retire p).handBack .memHeaderObject p, 0)
      else some ({ s with frames }.become p .object, p)
    | _ => none
  | .releaseBegin p =>
    (s.pool.releaseBegin p).map fun r =>
      match r.2 with
      | none => ({ s with pool := r.1 }, 0)
      | some idx => (({ s with pool := r.1, frames := .release p idx :: s.frames }.retire p).become p .releasing, 0)
  | .releaseEnd =>
    match s.frames with
    | .release p idx :: frames =>
      some ({ s with pool := s.pool.link (base p) idx, frames }.handBack .memHeaderObject p, 0)
    | _ => none
  | .write mh p i value =>
    if (s.pool.size (p - mh.sizeof)).getD 0 ≤ mh.sizeof + i then none
    else
      let h := p - mh.sizeof
      some ({ s with pool.bytes := update s.pool.bytes h (update (s.pool.bytes h) (mh.sizeof + i) value) }, 0)
  | .setRefs p n => some ({ s with pool.refs := update s.pool.refs (base p) n }, 0)
  | .take k p =>
    some (s.setHandle k (.ofPointer s.pool p) (if p = 0 then none else (s.owner (base p)).map (·.2)), 0)
  | .copy k j => some (s.setHandle k (s.weak j) (s.target j), 0)
  | .move k j => some ((s.setHandle k (s.weak j) (s.target j)).setHandle j {} none, 0)
  | .test k => some (s.setHandle k ((s.weak k).settle s.pool) (s.target k), 0)
  | .reset k => some (s.setHandle k {} none, 0)

/-! ## Programs -/

/-- `p` points behind the header of a block that is used so. -/
def InUse (s : PoolState) (mh : HeaderType) (p : Nat) (use : Use) : Prop :=
  mh.sizeof ≤ p ∧ ∃ n, s.owner (p - mh.sizeof) = some (use, n)

/-- `p` points to an object, complete or not. -/
def IsObject (s : PoolState) (p : Nat) : Prop :=
  s.InUse .memHeaderObject p .constructing ∨ s.InUse .memHeaderObject p .object ∨
    s.InUse .memHeaderObject p .releasing

/-- What a call of `malloc` may return, and that there are fewer than 2^56 allocations. -/
def MayAllocate (s : PoolState) (siz fresh : Nat) : Prop :=
  siz ≠ 0 ∧ siz < 2 ^ 64 ∧ (fresh ≠ 0 → s.pool.size fresh = none ∧ fresh < 2 ^ 56) ∧
    s.pool.versionNumber + 1 < 2 ^ 56

/-- What the program may do: a block goes back once and through its owner, and only objects are watched. -/
def Permitted (s : PoolState) : PoolEvent → Prop
  | .alloc _ siz fresh => s.MayAllocate siz fresh
  | .free mh p => p ≠ 0 → s.InUse mh p (.raw mh)
  | .realloc p newSize dataLen fresh =>
    (p ≠ 0 → s.InUse .memHeader p (.raw .memHeader)) ∧ (newSize ≠ 0 → s.MayAllocate newSize fresh) ∧
      dataLen < 2 ^ 64
  | .createBegin sizeofT fresh => s.MayAllocate sizeofT fresh
  | .createEnd _ => ∃ p frames, s.frames = .create p :: frames
  | .releaseBegin p =>
    p ≠ 0 → (s.InUse .memHeaderObject p .object ∧ s.pool.refs (base p) = 0) ∨ s.InUse .memHeaderObject p .releasing
  | .releaseEnd => ∃ p idx frames, s.frames = .release p idx :: frames
  | .write mh p i _ =>
    (mh = .memHeaderObject ∧ s.IsObject p ∨ s.InUse mh p (.raw mh)) ∧
      mh.sizeof + i < (s.pool.size (p - mh.sizeof)).getD 0
  | .setRefs p _ => s.IsObject p
  | .take _ p => p ≠ 0 → s.IsObject p
  | .copy _ _ | .move _ _ | .test _ | .reset _ => True

/-- The sizes are such that they do not wrap around, a `Realloc` gets the memory it asks for, and no handle is taken
on an object whose `Release` is under way. -/
def Regular (s : PoolState) : PoolEvent → Prop
  | .alloc mh siz _ => siz + mh.sizeof ≤ 2 ^ 63
  | .realloc p newSize _ fresh => newSize + sizeofMemHeader ≤ 2 ^ 63 ∧ (p ≠ 0 → fresh ≠ 0)
  | .createBegin sizeofT _ => sizeofT + HeaderType.memHeaderObject.sizeof ≤ 2 ^ 63
  | .take _ p => ¬s.InUse .memHeaderObject p .releasing
  | _ => True

/-- The states of the programs all of whose events are as `condition` says. New memory may hold anything. -/
inductive Reached (condition : PoolState → PoolEvent → Prop) : PoolState → Prop where
  | start (word refs : Nat → Nat) (bytes : Nat → Nat → UInt8) :
      Reached condition { pool := { word, refs, bytes } }
  | step {s s' : PoolState} {e : PoolEvent} {p : Nat} : Reached condition s → s.Permitted e → condition s e →
      s.step e = some (s', p) → Reached condition s'

/-! ## What the pool is for -/

/-- Each block is in use, or lies on the list of its size and on no other. -/
def Accounted (s : PoolState) : Prop :=
  ∃ lists, FreeLists s.pool.headers s.pool.word lists ∧
    ∀ a n, s.pool.size a = some n → ∃ idx < 64, n = 2 ^ idx ∧
      (s.owner a ≠ none ∧ (∀ c, a ∉ lists c) ∨ s.owner a = none ∧ ∀ c, a ∈ lists c ↔ c = idx)

/-- A handle tests true until its object is released. -/
def Noticed (s : PoolState) : Prop :=
  ∀ k n, s.target k = some n → ((s.weak k).test s.pool = true ↔ s.released n = false)

/-- The block behind `p` was not in use, and has room for `siz` bytes now. -/
def Provides (s s' : PoolState) (mh : HeaderType) (p siz : Nat) : Prop :=
  mh.sizeof ≤ p ∧ s.owner (p - mh.sizeof) = none ∧
    ∃ n, s'.pool.size (p - mh.sizeof) = some n ∧ mh.sizeof + siz ≤ n

/-- What the caller of an event gets. -/
def Served (s s' : PoolState) (p : Nat) : PoolEvent → Prop
  | .alloc mh siz _ => p ≠ 0 → s.Provides s' mh p siz
  | .createBegin sizeofT _ => p ≠ 0 → s.Provides s' .memHeaderObject p sizeofT
  | .realloc old newSize dataLen _ =>
    (newSize ≠ 0 → p ≠ 0 → p ≠ old → s.Provides s' .memHeader p newSize) ∧
      (newSize ≠ 0 → old ≠ 0 → p ≠ 0 ∧ ∀ n, s.pool.size (old - sizeofMemHeader) = some n →
        (p = old → sizeofMemHeader + newSize ≤ n) ∧
        ∀ i < min (n - sizeofMemHeader) dataLen,
          s'.pool.bytes (p - sizeofMemHeader) (sizeofMemHeader + i) =
            s.pool.bytes (old - sizeofMemHeader) (sizeofMemHeader + i))
  | _ => True

end PoolState

end Xxlib.Uv4
