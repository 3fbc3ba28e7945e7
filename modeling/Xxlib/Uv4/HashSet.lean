import Xxlib.Uv4.DictRefinement

/-! The hash set `HashSet<TK>` (`xx_hashset.h`, `xx_hashset.hpp`).

It is `Dict` without values. Seen as a `Dict` whose values are units, each of its
functions is the one of `Dict`, except that `Reserve` forgets the hash codes of
keys that are not trivial.
-/

set_option autoImplicit false

namespace Xxlib.Uv4

structure HashSet.Node (K : Type) where
  hashCode : UInt32
  next : Int
  key : Option K
  prev : Int

structure HashSet (K : Type) where
  freeList : Int
  freeCount : Nat
  count : Nat
  bucketsLen : Nat
  buckets : Nat → Int
  nodes : Nat → HashSet.Node K

namespace HashSet

variable {K : Type}

/-! ## Single assignments -/

def setBucket (s : HashSet K) (b : Nat) (i : Int) : HashSet K :=
  { s with buckets := Function.update s.buckets b i }

def setHashCode (s : HashSet K) (i : Nat) (hashCode : UInt32) : HashSet K :=
  { s with nodes := Function.update s.nodes i { s.nodes i with hashCode } }

def setNext (s : HashSet K) (i : Nat) (next : Int) : HashSet K :=
  { s with nodes := Function.update s.nodes i { s.nodes i with next } }

def setPrev (s : HashSet K) (i : Nat) (prev : Int) : HashSet K :=
  { s with nodes := Function.update s.nodes i { s.nodes i with prev } }

def setKey (s : HashSet K) (i : Nat) (key : Option K) : HashSet K :=
  { s with nodes := Function.update s.nodes i { s.nodes i with key } }

/-- `freeList = i; freeCount++` -/
def pushFree (s : HashSet K) (i : Nat) : HashSet K :=
  { s with freeList := i, freeCount := s.freeCount + 1 }

/-! ## Operations -/

/-- The constructor. `nodes` is what `Alloc` left in the new block. -/
def create (sizing : Sizing) (nodes : Nat → Node K) : HashSet K where
  freeList := -1
  freeCount := 0
  count := 0
  bucketsLen := sizing.getPrime sizing.capacity
  buckets _ := -1
  nodes := nodes

def hit (keys : KeyFuncs K) (s : HashSet K) (hashCode : UInt32) (k : K) (i : Nat) : Bool :=
  (s.nodes i).hashCode == hashCode && (s.nodes i).key.any (keys.equalsTo · k)

/-- The loop over one bucket that `Add`, `Exists` and `Remove` run. It answers `none` if it does not
end. -/
def scanBucket (keys : KeyFuncs K) (s : HashSet K) (k : K) : Option Int :=
  Lib.scan (fun i => (s.nodes i).next) (hit keys s (keys.getHashCode k) k) (s.count + 1)
    (s.buckets ((keys.getHashCode k).toNat % s.bucketsLen))

/-- The last loop of `Reserve`, over the indices below `n`. -/
def rebuild : Nat → HashSet K → HashSet K
  | 0, s => s
  | n + 1, s =>
      let s := rebuild n s
      let index := (s.nodes n).hashCode.toNat % s.bucketsLen
      let s := if 0 ≤ s.buckets index then s.setPrev (s.buckets index).toNat n else s
      let s := s.setPrev n (-1)
      let s := s.setNext n (s.buckets index)
      s.setBucket index n

/-- The nodes in a new block. Of a key that is not trivial only the key itself is moved; the rest of
the node is what `Alloc` left there. -/
def moveNodes (isTrivial : Bool) (alloc : Nat → Node K) (s : HashSet K) : HashSet K :=
  if isTrivial then s
  else { s with nodes := fun i => if i < s.count then { alloc i with key := (s.nodes i).key } else alloc i }

def reserve (sizing : Sizing) (isTrivial : Bool) (alloc : Nat → Node K) (capacity : Nat)
    (s : HashSet K) : HashSet K :=
  let capacity := if capacity = 0 then s.count * 2 else capacity
  if capacity ≤ s.bucketsLen then s
  else
    let s := { s with bucketsLen := sizing.getPrime capacity, buckets := fun _ => -1 }
    rebuild s.count (moveNodes isTrivial alloc s)

def takeSlot (sizing : Sizing) (isTrivial : Bool) (alloc : Nat → Node K) (s : HashSet K) :
    Nat × HashSet K :=
  if 0 < s.freeCount then
    (s.freeList.toNat,
      { s with freeList := (s.nodes s.freeList.toNat).next, freeCount := s.freeCount - 1 })
  else
    let s := if s.count = s.bucketsLen then reserve sizing isTrivial alloc 0 s else s
    (s.count, { s with count := s.count + 1 })

def linkFront (s : HashSet K) (index targetBucket : Nat) : HashSet K :=
  let s := s.setNext index (s.buckets targetBucket)
  let s := if 0 ≤ s.buckets targetBucket then s.setPrev (s.buckets targetBucket).toNat index else s
  s.setBucket targetBucket index

def add (keys : KeyFuncs K) (sizing : Sizing) (isTrivial : Bool) (alloc : Nat → Node K) (k : K)
    (s : HashSet K) : Option (Bool × HashSet K) := do
  let hashCode := keys.getHashCode k
  let i ← scanBucket keys s k
  if 0 ≤ i then return (false, s)
  let (index, s) := takeSlot sizing isTrivial alloc s
  let targetBucket := hashCode.toNat % s.bucketsLen
  let s := (s.setHashCode index hashCode).linkFront index targetBucket
  return (true, (s.setKey index (some k)).setPrev index (-1))

/-- `Exists` -/
def contains (keys : KeyFuncs K) (s : HashSet K) (k : K) : Option Bool := do
  let i ← scanBucket keys s k
  return decide (0 ≤ i)

def unlink (s : HashSet K) (i bucket : Nat) : HashSet K :=
  let s := if (s.nodes i).prev < 0 then s.setBucket bucket (s.nodes i).next
    else s.setNext (s.nodes i).prev.toNat (s.nodes i).next
  if 0 ≤ (s.nodes i).next then s.setPrev (s.nodes i).next.toNat (s.nodes i).prev else s

def remove (keys : KeyFuncs K) (s : HashSet K) (k : K) : Option (Bool × HashSet K) := do
  let i ← scanBucket keys s k
  if i < 0 then return (false, s)
  let i := i.toNat
  let s := s.unlink i ((s.nodes i).hashCode.toNat % s.bucketsLen)
  let s := (s.setNext i s.freeList).pushFree i
  return (true, (s.setKey i none).setPrev i (-2))

def deleteKs (s : HashSet K) : HashSet K :=
  { s with nodes := fun i =>
    if i < s.count ∧ (s.nodes i).prev ≠ -2 then { s.nodes i with key := none, prev := -2 } else s.nodes i }

def clear (s : HashSet K) : HashSet K :=
  if s.count = 0 then s
  else { s.deleteKs with buckets := fun _ => -1, freeList := -1, freeCount := 0, count := 0 }

/-- `Count()` -/
def getCount (s : HashSet K) : Nat := s.count - s.freeCount

/-- The loops of `begin` and `operator++`: the first node in use, of `n` from `i` on. -/
def seek (s : HashSet K) : Nat → Nat → Nat
  | 0, i => i
  | n + 1, i => if (s.nodes i).prev ≠ -2 then i else seek s n (i + 1)

def begin (s : HashSet K) : Nat := if s.count = s.freeCount then s.count else seek s s.count 0

/-- `operator++` -/
def advance (s : HashSet K) (i : Nat) : Nat := seek s (s.count - (i + 1)) (i + 1)

/-! ## A set as a table of units -/

/-- The same arrays, with a unit beside every key. -/
def toDict (s : HashSet K) : Dict K Unit where
  freeList := s.freeList
  freeCount := s.freeCount
  count := s.count
  bucketsLen := s.bucketsLen
  buckets := s.buckets
  nodes i := ⟨(s.nodes i).hashCode, (s.nodes i).next⟩
  items i := ⟨(s.nodes i).key, (s.nodes i).key.map fun _ => (), (s.nodes i).prev⟩

section
variable (s : HashSet K)

@[simp] theorem toDict_setBucket (b : Nat) (i : Int) :
    (s.setBucket b i).toDict = s.toDict.setBucket b i := rfl

@[simp] theorem toDict_pushFree (i : Nat) : (s.pushFree i).toDict = s.toDict.pushFree i := rfl

/-- Both views of the arrays change in one place. -/
theorem toDict_update (i : Nat) (node : Node K) :
    toDict { s with nodes := Function.update s.nodes i node } =
      { s.toDict with
        nodes := Function.update s.toDict.nodes i ⟨node.hashCode, node.next⟩
        items := Function.update s.toDict.items i ⟨node.key, node.key.map fun _ => (), node.prev⟩ } := by
  simp only [toDict, Dict.mk.injEq, true_and]
  constructor <;> funext j <;> by_cases same : j = i <;> simp [same]

@[simp] theorem toDict_setHashCode (i : Nat) (h : UInt32) :
    (s.setHashCode i h).toDict = s.toDict.setHashCode i h := by
  rw [setHashCode, toDict_update]
  simp [Dict.setHashCode, toDict]

@[simp] theorem toDict_setNext (i : Nat) (p : Int) : (s.setNext i p).toDict = s.toDict.setNext i p := by
  rw [setNext, toDict_update]
  simp [Dict.setNext, toDict]

@[simp] theorem toDict_setPrev (i : Nat) (p : Int) : (s.setPrev i p).toDict = s.toDict.setPrev i p := by
  rw [setPrev, toDict_update]
  simp [Dict.setPrev, toDict]

@[simp] theorem toDict_setKey (i : Nat) (k : Option K) :
    (s.setKey i k).toDict = (s.toDict.setKey i k).setValue i (k.map fun _ => ()) := by
  rw [setKey, toDict_update]
  simp [Dict.setKey, Dict.setValue, toDict]

theorem toDict_scanBucket (keys : KeyFuncs K) (k : K) : s.toDict.find keys k = scanBucket keys s k := rfl

@[simp] theorem toDict_linkFront (i b : Nat) : (s.linkFront i b).toDict = s.toDict.linkFront i b := by
  unfold linkFront Dict.linkFront
  have buckets : (s.toDict.setNext i (s.toDict.buckets b)).buckets b = (s.setNext i (s.buckets b)).buckets b := rfl
  simp only [toDict_setBucket, buckets]
  split <;> simp only [toDict_setPrev, toDict_setNext] <;> rfl

@[simp] theorem toDict_unlink (i b : Nat) : (s.unlink i b).toDict = s.toDict.unlink i b := by
  unfold unlink Dict.unlink
  extract_lets t u
  have first : t.toDict = u := by
    simp only [t, u]
    by_cases head : (s.nodes i).prev < 0
    · rw [if_pos head, if_pos (show (s.toDict.items i).prev < 0 from head), toDict_setBucket]
      rfl
    · rw [if_neg head, if_neg (show ¬ (s.toDict.items i).prev < 0 from head), toDict_setNext]
      rfl
  rw [← first]
  by_cases last : 0 ≤ (t.nodes i).next
  · rw [if_pos last, if_pos (show 0 ≤ (t.toDict.nodes i).next from last), toDict_setPrev]
    rfl
  · rw [if_neg last, if_neg (show ¬ 0 ≤ (t.toDict.nodes i).next from last)]

theorem toDict_rebuild (n : Nat) : (s.rebuild n).toDict = s.toDict.rebuild n := by
  induction n with
  | zero => rfl
  | succ n ih =>
    unfold rebuild Dict.rebuild
    rw [← ih]
    extract_lets t b u v w t' b' u' v' w'
    have forward : u.toDict = u' := by
      simp only [u, u']
      by_cases nonneg : 0 ≤ t.buckets b
      · rw [if_pos nonneg, if_pos (show 0 ≤ t'.buckets b' from nonneg), toDict_setPrev]
        rfl
      · rw [if_neg nonneg, if_neg (show ¬ 0 ≤ t'.buckets b' from nonneg)]
    have backward : v.toDict = v' := by simp only [v, v', ← forward, toDict_setPrev]
    simp only [w, w', toDict_setBucket, toDict_setNext, ← backward]
    rfl

/-- With trivial keys `Reserve` is the one of `Dict`. -/
theorem toDict_reserve (sizing : Sizing) (alloc : Nat → Node K) (alloc' : Nat → Dict.Data K Unit)
    (capacity : Nat) : (s.reserve sizing true alloc capacity).toDict =
      s.toDict.reserve sizing true alloc' capacity := by
  unfold reserve Dict.reserve
  extract_lets wanted t wanted' t'
  by_cases fits : wanted ≤ s.bucketsLen
  · rw [if_pos fits, if_pos (show wanted' ≤ s.toDict.bucketsLen from fits)]
  · rw [if_neg fits, if_neg (show ¬ wanted' ≤ s.toDict.bucketsLen from fits), toDict_rebuild]
    rfl

/-- An `Add` of a new key in this state does not run into the branch of `Reserve` that loses hash codes. -/
def Keeping (isTrivial : Bool) (s : HashSet K) : Prop :=
  isTrivial = true ∨ 0 < s.freeCount ∨ s.count ≠ s.bucketsLen

variable {s} in
theorem toDict_takeSlot {isTrivial : Bool} (keeping : Keeping isTrivial s) (sizing : Sizing)
    (alloc : Nat → Node K) (alloc' : Nat → Dict.Data K Unit) :
    ((s.takeSlot sizing isTrivial alloc).1, (s.takeSlot sizing isTrivial alloc).2.toDict) =
      s.toDict.takeSlot sizing isTrivial alloc' := by
  unfold takeSlot Dict.takeSlot
  by_cases free : 0 < s.freeCount
  · rw [if_pos free, if_pos (show 0 < s.toDict.freeCount from free)]
    rfl
  · rw [if_neg free, if_neg (show ¬ 0 < s.toDict.freeCount from free)]
    extract_lets t t'
    have same : t.toDict = t' := by
      simp only [t, t']
      by_cases full : s.count = s.bucketsLen
      · have trivial' : isTrivial = true := by
          rcases keeping with yes | some | room
          · exact yes
          · exact absurd some free
          · exact absurd full room
        subst trivial'
        rw [if_pos full, if_pos (show s.toDict.count = s.toDict.bucketsLen from full),
          toDict_reserve s sizing alloc alloc' 0]
      · rw [if_neg full, if_neg (show ¬ s.toDict.count = s.toDict.bucketsLen from full)]
    rw [← same]
    rfl

variable {s} in
theorem toDict_add (keys : KeyFuncs K) (k : K) {isTrivial : Bool} (keeping : Keeping isTrivial s)
    (sizing : Sizing) (alloc : Nat → Node K) (alloc' : Nat → Dict.Data K Unit) :
    (s.add keys sizing isTrivial alloc k).map (fun r => (r.1, r.2.toDict)) =
      (s.toDict.add keys sizing isTrivial alloc' k () false).map fun r => (r.1.success, r.2) := by
  have slot := toDict_takeSlot keeping sizing alloc alloc'
  simp only [add, Dict.add, ← slot]
  rw [show s.toDict.scanBucket keys (keys.getHashCode k) k = scanBucket keys s k from rfl]
  cases scanBucket keys s k with
  | none => rfl
  | some i =>
    by_cases found : 0 ≤ i
    · simp [found]
    · simp only [Option.bind_eq_bind, Option.bind_some, found, ↓reduceIte]
      simp
      rfl

variable {s} in
theorem remove_found {keys : KeyFuncs K} {k : K} {i : Nat} (scanned : scanBucket keys s k = some (i : Int)) :
    ∃ s', s.remove keys k = some (true, s') ∧ s'.toDict = s.toDict.removeAt i := by
  have inside : ¬ (i : Int) < 0 := by omega
  have head : ∀ b, (s.unlink i b).freeList = (s.toDict.unlink i b).freeList := by
    intro b
    rw [← toDict_unlink]
    rfl
  refine ⟨_, by simp only [remove, scanned, Option.bind_eq_bind, Option.bind_some, inside, ↓reduceIte]; rfl, ?_⟩
  simp [head]
  rfl

theorem toDict_clear : s.clear.toDict = s.toDict.clear := by
  unfold clear Dict.clear
  by_cases empty : s.count = 0
  · rw [if_pos empty, if_pos (show s.toDict.count = 0 from empty)]
  · rw [if_neg empty, if_neg (show ¬ s.toDict.count = 0 from empty)]
    simp only [toDict, deleteKs, Dict.deleteKVs, Dict.mk.injEq, true_and]
    constructor <;> funext i <;> by_cases used : i < s.count ∧ (s.nodes i).prev ≠ -2 <;> simp [used]

end

end HashSet

end Xxlib.Uv4
