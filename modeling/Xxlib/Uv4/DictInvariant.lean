import Xxlib.Uv4.Dict

/-! The invariant of `Dict` and what each operation does to it.

`Wired` relates the arrays to three ghost values: the bucket chains, the free
list and the table of entries by index. `Valid` adds that the keys differ.
-/

set_option autoImplicit false

namespace Xxlib.Uv4.Dict

open Lib (Index)

variable {K V : Type}

/-! ## How single assignments change the links -/

section
variable (d : Dict K V) (i b : Nat) (h : UInt32) (p : Int) (k : Option K) (v : Option V)

@[simp] theorem links_buckets : d.links.buckets = d.buckets := rfl

@[simp] theorem links_bucketsLen : d.links.bucketsLen = d.bucketsLen := rfl

@[simp] theorem links_count : d.links.count = d.count := rfl

theorem links_hashCode : d.links.hashCode i = (d.nodes i).hashCode.toNat := rfl

theorem links_next : d.links.next i = (d.nodes i).next := rfl

theorem links_prev : d.links.prev i = (d.items i).prev := rfl

@[simp] theorem setBucket_links : (d.setBucket b p).links =
    { d.links with buckets := Function.update d.links.buckets b p } := rfl

@[simp] theorem pushFree_links : (d.pushFree i).links =
    { d.links with freeList := i, freeCount := d.links.freeCount + 1 } := rfl

@[simp] theorem setHashCode_links : (d.setHashCode i h).links =
    { d.links with hashCode := Function.update d.links.hashCode i h.toNat } := by
  simp only [setHashCode, links, Index.mk.injEq, true_and, and_true]
  constructor <;> funext j <;> by_cases same : j = i <;> simp [same]

@[simp] theorem setNext_links : (d.setNext i p).links =
    { d.links with next := Function.update d.links.next i p } := by
  simp only [setNext, links, Index.mk.injEq, true_and, and_true]
  constructor <;> funext j <;> by_cases same : j = i <;> simp [same]

@[simp] theorem setPrev_links : (d.setPrev i p).links =
    { d.links with prev := Function.update d.links.prev i p } := by
  simp only [setPrev, links, Index.mk.injEq, true_and, and_true]
  funext j
  by_cases same : j = i <;> simp [same]

@[simp] theorem setKey_links : (d.setKey i k).links = d.links := by
  simp only [setKey, links, Index.mk.injEq, true_and, and_true]
  funext j
  by_cases same : j = i <;> simp [same]

@[simp] theorem setValue_links : (d.setValue i v).links = d.links := by
  simp only [setValue, links, Index.mk.injEq, true_and, and_true]
  funext j
  by_cases same : j = i <;> simp [same]

end

/-! ## Keys and values -/

section
variable (d : Dict K V)

/-- The constructed parts of a slot. -/
def content (i : Nat) : Option K × Option V := ((d.items i).key, (d.items i).value)

@[simp] theorem setBucket_content (b : Nat) (p : Int) : (d.setBucket b p).content = d.content := rfl

@[simp] theorem pushFree_content (i : Nat) : (d.pushFree i).content = d.content := rfl

@[simp] theorem setHashCode_content (i : Nat) (h : UInt32) : (d.setHashCode i h).content = d.content := rfl

@[simp] theorem setNext_content (i : Nat) (p : Int) : (d.setNext i p).content = d.content := rfl

@[simp] theorem setPrev_content (i : Nat) (p : Int) : (d.setPrev i p).content = d.content := by
  funext j
  by_cases same : j = i <;> simp [setPrev, content, same]

@[simp] theorem setKey_content (i : Nat) (k : Option K) :
    (d.setKey i k).content = Function.update d.content i (k, (d.content i).2) := by
  funext j
  by_cases same : j = i <;> simp [setKey, content, same]

@[simp] theorem setValue_content (i : Nat) (v : Option V) :
    (d.setValue i v).content = Function.update d.content i ((d.content i).1, v) := by
  funext j
  by_cases same : j = i <;> simp [setValue, content, same]

@[simp] theorem linkFront_content (i b : Nat) : (d.linkFront i b).content = d.content := by
  simp only [linkFront]
  split <;> simp

@[simp] theorem unlink_content (i b : Nat) : (d.unlink i b).content = d.content := by
  unfold unlink
  extract_lets e
  have same : e.content = d.content := by
    simp only [e]
    split <;> simp
  split
  · rw [setPrev_content, same]
  · exact same

@[simp] theorem rebuild_content (n : Nat) : (d.rebuild n).content = d.content := by
  induction n with
  | zero => rfl
  | succ n ih =>
    unfold rebuild
    extract_lets e b f g h
    have same : f.content = e.content := by
      simp only [f]
      split <;> simp
    simp only [h, g, setBucket_content, setNext_content, setPrev_content, same]
    exact ih

end

/-! ## Code fragments are moves of the index -/

section
variable (d : Dict K V)

theorem linkFront_links (i : Nat) (h : UInt32) (k : Option K) (v : Option V) :
    (((((d.setHashCode i h).linkFront i (h.toNat % d.bucketsLen)).setKey i k).setValue i v).setPrev
      i (-1)).links = d.links.link i h.toNat := by
  simp only [setPrev_links, setValue_links, setKey_links]
  have bucket : (d.setHashCode i h).buckets = d.buckets := rfl
  have after : ∀ p, ((d.setHashCode i h).setNext i p).buckets = d.buckets := fun _ => rfl
  by_cases nonneg : 0 ≤ d.buckets (h.toNat % d.bucketsLen) <;>
    simp [linkFront, bucket, after, nonneg, Index.link]

theorem unlink_links (i : Nat) :
    (d.unlink i ((d.nodes i).hashCode.toNat % d.bucketsLen)).links = d.links.unlink i := by
  unfold unlink
  extract_lets e
  -- Redirecting the predecessor leaves the slot's own links alone, even if it were itself.
  have next : (e.nodes i).next = (d.nodes i).next := by
    simp only [e]
    split
    · rfl
    · by_cases same : i = (d.items i).prev.toNat
      · simp [setNext, ← same]
      · simp [setNext, same]
  have prev : (e.items i).prev = (d.items i).prev := by
    simp only [e]
    split <;> rfl
  rw [next, prev]
  by_cases first : (d.items i).prev < 0 <;> by_cases last : 0 ≤ (d.nodes i).next <;>
    simp [e, first, last, Index.unlink, links_prev, links_next, links_hashCode]

theorem removeAt_links (i : Nat) : (d.removeAt i).links = (d.links.unlink i).release i := by
  unfold removeAt
  extract_lets e f
  have start : e.links = d.links.unlink i := d.unlink_links i
  have middle : f.links = { e.links with
      next := Function.update e.links.next i e.links.freeList
      freeList := i
      freeCount := e.links.freeCount + 1 } := by
    simp only [f, pushFree_links, setNext_links]
    rfl
  simp only [setPrev_links, setValue_links, setKey_links, middle, start, Index.release]

theorem rebuild_links (n : Nat) : (d.rebuild n).links = d.links.relink n := by
  induction n with
  | zero => rfl
  | succ n ih =>
    unfold rebuild
    extract_lets e b f g h
    have start : e.links = d.links.relink n := ih
    have hash : (e.nodes n).hashCode.toNat = d.links.hashCode n := by
      have := congrFun (Index.relink_hashCode (x := d.links) n) n
      rw [← start] at this
      exact this
    have place : b = d.links.hashCode n % e.links.bucketsLen := by simp only [b, hash]; rfl
    have buckets : g.buckets = e.buckets := by
      simp only [g, f]
      split <;> rfl
    have forward : f.links = if 0 ≤ e.buckets b then
        { e.links with prev := Function.update e.links.prev (e.buckets b).toNat n } else e.links := by
      simp only [f]
      split <;> simp
    have keep : Function.update e.links.hashCode n (d.links.hashCode n) = e.links.hashCode := by
      rw [← hash]
      exact Function.update_eq_self n e.links.hashCode
    rw [Index.relink, ← start, Index.link, ← place, keep]
    simp only [h, buckets, g, setBucket_links, setNext_links, setPrev_links, forward]
    by_cases nonneg : 0 ≤ e.buckets b <;> simp [nonneg]

end

/-! ## The invariant -/

/-- The arrays hold the `entries`, each in the chain of its hash code, and `free` is the free list. -/
structure Wired (keys : KeyFuncs K) (d : Dict K V) (chains : Nat → List Nat) (free : List Nat)
    (entries : Nat → Option (K × V)) : Prop where
  layout : d.links.Layout chains free
  covered : d.links.Covered chains free
  stored : ∀ {i k v}, entries i = some (k, v) →
    d.content i = (some k, some v) ∧ d.links.hashCode i = (keys.getHashCode k).toNat
  occupied : ∀ i, (entries i).isSome ↔ i < d.count ∧ i ∉ free

/-- No two entries have equal keys. -/
def Distinct (keys : KeyFuncs K) (entries : Nat → Option (K × V)) : Prop :=
  ∀ ⦃i j k l v w⦄, entries i = some (k, v) → entries j = some (l, w) → keys.equalsTo k l = true → i = j

/-- `k` is the key of some entry. -/
def HasKey (keys : KeyFuncs K) (entries : Nat → Option (K × V)) (k : K) : Prop :=
  ∃ i l v, entries i = some (l, v) ∧ keys.equalsTo l k = true

section
variable {keys : KeyFuncs K} {d : Dict K V} {chains : Nat → List Nat} {free : List Nat}
  {entries : Nat → Option (K × V)}

theorem Wired.entry_of_live (wired : Wired keys d chains free entries) {i : Nat} (bound : i < d.count)
    (notFree : i ∉ free) : ∃ k v, entries i = some (k, v) := by
  obtain ⟨⟨k, v⟩, found⟩ := Option.isSome_iff_exists.mp ((wired.occupied i).mpr ⟨bound, notFree⟩)
  exact ⟨k, v, found⟩

theorem Wired.bounds (wired : Wired keys d chains free entries) {i : Nat} {e : K × V}
    (found : entries i = some e) : i < d.count ∧ i ∉ free :=
  (wired.occupied i).mp (by simp [found])

theorem Wired.chained (wired : Wired keys d chains free entries) {i : Nat} {k : K} {v : V}
    (found : entries i = some (k, v)) : i ∈ chains ((keys.getHashCode k).toNat % d.bucketsLen) := by
  obtain ⟨bound, notFree⟩ := wired.bounds found
  have member := wired.covered i bound notFree
  rwa [(wired.stored found).2] at member

/-- A slot is live, in the sense of `IndexExists`, exactly if it holds an entry. -/
theorem Wired.live_iff (wired : Wired keys d chains free entries) (i : Nat) :
    d.Live i ↔ (entries i).isSome := by
  rw [wired.occupied]
  constructor
  · rintro ⟨bound, unmarked⟩
    exact ⟨bound, fun member => unmarked (wired.layout.freeMarked i member)⟩
  · rintro ⟨bound, notFree⟩
    exact ⟨bound, fun marked => notFree ((wired.layout.prev_eq_iff wired.covered bound).mp marked)⟩

/-- The entries are determined by the arrays. -/
theorem Wired.entry_eq (wired : Wired keys d chains free entries) (i : Nat) :
    entries i = if d.Live i then
      match d.content i with
      | (some k, some v) => some (k, v)
      | _ => none
    else none := by
  have live := wired.live_iff i
  cases found : entries i with
  | none => simp [live, found]
  | some e =>
    obtain ⟨k, v⟩ := e
    simp [live, found, (wired.stored found).1]

theorem Wired.hit_iff (wired : Wired keys d chains free entries) {i : Nat} {l : K} {v : V}
    (found : entries i = some (l, v)) (k : K) :
    hit keys d (keys.getHashCode k) k i = true ↔ keys.equalsTo l k = true := by
  obtain ⟨content, hash⟩ := wired.stored found
  have key : (d.items i).key = some l := congrArg Prod.fst content
  have hash : (d.nodes i).hashCode = keys.getHashCode l := UInt32.toNat_inj.mp hash
  simp only [hit, hash, key, Option.any_some, Bool.and_eq_true, beq_iff_eq, and_iff_right_iff_imp]
  exact keys.hash_respects

/-- The bucket loop ends, and finds an entry with the key if there is one. -/
theorem Wired.find_cases (wired : Wired keys d chains free entries) (k : K) :
    (find keys d k = some (-1) ∧ ¬ HasKey keys entries k) ∨
      ∃ (i : Nat) (l : K) (v : V), find keys d k = some (i : Int) ∧ entries i = some (l, v) ∧ keys.equalsTo l k = true := by
  have hb := wired.layout.bucket_lt (keys.getHashCode k).toNat
  have length := wired.layout.chain_length hb
  have searched := Lib.scan_eq (hit keys d (keys.getHashCode k) k) (wired.layout.walks _ hb)
    (Nat.lt_succ_of_le length)
  change find keys d k = _ at searched
  rw [searched]
  cases result : (chains ((keys.getHashCode k).toNat % d.links.bucketsLen)).find?
      (hit keys d (keys.getHashCode k) k) with
  | none =>
    refine .inl ⟨rfl, ?_⟩
    rintro ⟨i, l, v, found, equal⟩
    have member := wired.chained found
    rw [keys.hash_respects equal] at member
    exact List.find?_eq_none.mp result i member ((wired.hit_iff found k).mpr equal)
  | some i =>
    have member := List.mem_of_find?_eq_some result
    obtain ⟨bound, notFree, -⟩ := wired.layout.member _ hb i member
    obtain ⟨l, v, found⟩ := wired.entry_of_live bound notFree
    exact .inr ⟨i, l, v, rfl, found, (wired.hit_iff found k).mp (List.find?_some result)⟩

theorem Wired.find_absent (wired : Wired keys d chains free entries) {k : K}
    (absent : ¬ HasKey keys entries k) : find keys d k = some (-1) := by
  rcases wired.find_cases k with ⟨result, -⟩ | ⟨i, l, v, -, found, equal⟩
  · exact result
  · exact absurd ⟨i, l, v, found, equal⟩ absent

theorem Wired.find_present (wired : Wired keys d chains free entries) (distinct : Distinct keys entries)
    {i : Nat} {k l : K} {v : V} (found : entries i = some (l, v)) (equal : keys.equalsTo l k = true) :
    find keys d k = some (i : Int) := by
  rcases wired.find_cases k with ⟨-, absent⟩ | ⟨j, m, w, result, other, same⟩
  · exact absurd ⟨i, l, v, found, equal⟩ absent
  · rw [result, distinct found other (keys.equals_trans equal (keys.equals_symm same))]

end

/-! ## One slot on the move -/

/-- As `Wired`, but slot `i` is neither free nor in a chain. -/
structure Pending (keys : KeyFuncs K) (d : Dict K V) (chains : Nat → List Nat) (free : List Nat)
    (entries : Nat → Option (K × V)) (i : Nat) : Prop where
  layout : d.links.Layout chains free
  loose : d.links.Loose chains free i
  covered : ∀ j < d.count, j ≠ i → j ∉ free → j ∈ chains (d.links.hashCode j % d.bucketsLen)
  stored : ∀ {j k v}, entries j = some (k, v) →
    d.content j = (some k, some v) ∧ d.links.hashCode j = (keys.getHashCode k).toNat
  occupied : ∀ j, (entries j).isSome ↔ j < d.count ∧ j ∉ free ∧ j ≠ i

/-- The second half of `Add`, which `UpdateAt` repeats. -/
def place (d : Dict K V) (index : Nat) (hashCode : UInt32) (k : K) (v : V) : Dict K V :=
  let linked := (d.setHashCode index hashCode).linkFront index (hashCode.toNat % d.bucketsLen)
  ((linked.setKey index (some k)).setValue index (some v)).setPrev index (-1)

theorem place_links (d : Dict K V) (i : Nat) (h : UInt32) (k : K) (v : V) :
    (d.place i h k v).links = d.links.link i h.toNat := d.linkFront_links i h (some k) (some v)

theorem place_content (d : Dict K V) (i : Nat) (h : UInt32) (k : K) (v : V) :
    (d.place i h k v).content = Function.update d.content i (some k, some v) := by
  simp [place]

/-- The index a new entry gets. -/
def nextSlot (free : List Nat) (count : Nat) : Nat := free.headD count

section
variable {keys : KeyFuncs K} {d : Dict K V} {chains : Nat → List Nat} {free : List Nat}
  {entries : Nat → Option (K × V)} {i : Nat}

theorem Pending.absent (pending : Pending keys d chains free entries i) : entries i = none := by
  have empty := (pending.occupied i).not.mpr (by simp)
  simpa using empty

theorem Pending.placed (pending : Pending keys d chains free entries i) (k : K) (v : V) :
    ∃ chains', Wired keys (d.place i (keys.getHashCode k) k v) chains' free
      (Function.update entries i (some (k, v))) := by
  have links := d.place_links i (keys.getHashCode k) k v
  have count : (d.place i (keys.getHashCode k) k v).count = d.count := congrArg Index.count links
  have layout := Index.link_layout pending.layout pending.loose (keys.getHashCode k).toNat
  have covered := Index.link_covered (x := d.links) pending.covered (keys.getHashCode k).toNat
  rw [← links] at layout covered
  refine ⟨_, layout, covered, ?_, ?_⟩
  · intro j l w found
    rw [links, place_content]
    by_cases same : j = i
    · subst same
      simp only [Function.update_self, Option.some.injEq, Prod.mk.injEq] at found
      obtain ⟨rfl, rfl⟩ := found
      simp [Index.link]
    · rw [Function.update_of_ne same] at found
      simpa [Index.link, same] using pending.stored found
  · intro j
    rw [count]
    by_cases same : j = i
    · subst same
      simpa using ⟨pending.loose.bound, pending.loose.notFree⟩
    · rw [Function.update_of_ne same, pending.occupied]
      simp [same]

theorem Wired.unlinked (wired : Wired keys d chains free entries) {e : K × V}
    (found : entries i = some e) : ∃ chains',
    Pending keys (d.unlink i ((d.nodes i).hashCode.toNat % d.bucketsLen)) chains' free
      (Function.update entries i none) i := by
  obtain ⟨k, v⟩ := e
  obtain ⟨bound, notFree⟩ := wired.bounds found
  have links := d.unlink_links i
  have member := wired.covered i bound notFree
  obtain ⟨layout, loose⟩ := Index.unlink_layout wired.layout (wired.layout.bucket_lt _) member
  have count : (d.unlink i ((d.nodes i).hashCode.toNat % d.bucketsLen)).count = d.count :=
    congrArg Index.count links
  rw [← links] at layout loose
  refine ⟨_, layout, loose, ?_, ?_, ?_⟩
  · intro j inside other outside
    have len : (d.unlink i ((d.nodes i).hashCode.toNat % d.bucketsLen)).bucketsLen = d.bucketsLen :=
      congrArg Index.bucketsLen links
    rw [count] at inside
    rw [links, len]
    exact Index.unlink_covered wired.covered inside other outside
  · intro j l w present
    have other : j ≠ i := by
      rintro rfl
      simp at present
    rw [Function.update_of_ne other] at present
    rw [links, unlink_content]
    exact wired.stored present
  · intro j
    rw [count]
    by_cases same : j = i
    · simp [same]
    · rw [Function.update_of_ne same, wired.occupied]
      simp [same]

theorem Wired.removed (wired : Wired keys d chains free entries) {e : K × V}
    (found : entries i = some e) : ∃ chains',
    Wired keys (d.removeAt i) chains' (i :: free) (Function.update entries i none) := by
  obtain ⟨chains', pending⟩ := wired.unlinked found
  have links := d.removeAt_links i
  have before := d.unlink_links i
  have layout := pending.layout
  have loose := pending.loose
  rw [before] at layout loose
  have content : (d.removeAt i).content = Function.update d.content i (none, none) := by
    simp [removeAt]
  have count : (d.removeAt i).count = d.count := congrArg Index.count links
  have oldCount : (d.unlink i ((d.nodes i).hashCode.toNat % d.bucketsLen)).count = d.count :=
    congrArg Index.count before
  have oldLen : (d.unlink i ((d.nodes i).hashCode.toNat % d.bucketsLen)).bucketsLen = d.bucketsLen :=
    congrArg Index.bucketsLen before
  refine ⟨chains', ⟨?_, ?_, ?_, ?_⟩⟩
  · rw [links]
    exact Index.release_layout layout loose
  · intro j bound outside
    simp only [List.mem_cons, not_or] at outside
    rw [links] at bound ⊢
    have inside := pending.covered j (by rw [oldCount]; exact bound) outside.1 outside.2
    rw [before, oldLen] at inside
    exact inside
  · intro j l w present
    have other : j ≠ i := by
      rintro rfl
      simp at present
    obtain ⟨stored, hash⟩ := pending.stored present
    rw [links, content, Function.update_of_ne other]
    rw [unlink_content] at stored
    rw [before] at hash
    exact ⟨stored, hash⟩
  · intro j
    rw [pending.occupied, oldCount, count]
    simp only [List.mem_cons, not_or]
    tauto

/-! ## Growth -/

/-- Rebuilding puts a table without free slots in order, whatever its buckets and links were. -/
theorem rebuild_wired {e : Dict K V} (room : e.count ≤ e.bucketsLen) (sized : 0 < e.bucketsLen)
    (empty : ∀ b, e.buckets b = -1) (noFree : e.freeList < 0) (zero : e.freeCount = 0)
    (stored : ∀ {i k v}, entries i = some (k, v) →
      e.content i = (some k, some v) ∧ e.links.hashCode i = (keys.getHashCode k).toNat)
    (occupied : ∀ i, (entries i).isSome ↔ i < e.count) :
    ∃ chains', Wired keys (rebuild e.count e) chains' [] entries := by
  have links := e.rebuild_links e.count
  have count : (rebuild e.count e).count = e.count := by
    have := congrArg Index.count links
    rw [Index.relink_count] at this
    exact this
  obtain ⟨chains', layout, members⟩ := Index.relink_layout (x := e.links) sized room
    (fun b _ => by simp [empty]) noFree zero e.count (Nat.le_refl _)
  rw [← links] at layout
  refine ⟨chains', layout, ?_, ?_, ?_⟩
  · intro i bound _
    rw [links, Index.relink_count, links_count] at bound
    rw [links, Index.relink_hashCode, Index.relink_bucketsLen]
    exact (members _ (Nat.mod_lt _ sized) i).mpr ⟨bound, rfl⟩
  · intro i k v found
    rw [rebuild_content, links, Index.relink_hashCode]
    exact stored found
  · intro i
    rw [occupied, count]
    simp

theorem moveItems_content (isTrivial : Bool) (alloc : Nat → Data K V) (d : Dict K V) {i : Nat}
    (bound : i < d.count) : (moveItems isTrivial alloc d).content i = d.content i := by
  unfold moveItems
  cases isTrivial <;> simp [content, bound]

/-- The capacity that `Reserve` asks `GetPrime` for. -/
def wantedCapacity (d : Dict K V) (capacity : Nat) : Nat := if capacity = 0 then d.count * 2 else capacity

/-- `Reserve` on a table without free slots, for trivial and other element types. -/
theorem Wired.reserved (wired : Wired keys d chains [] entries) (sizing : Sizing) (isTrivial : Bool)
    (alloc : Nat → Data K V) {capacity : Nat} (needed : ¬ d.wantedCapacity capacity ≤ d.bucketsLen)
    (larger : d.count < sizing.getPrime (d.wantedCapacity capacity)) :
    ∃ chains', Wired keys (reserve sizing isTrivial alloc capacity d) chains' [] entries ∧
      (reserve sizing isTrivial alloc capacity d).count = d.count ∧
      (reserve sizing isTrivial alloc capacity d).bucketsLen = sizing.getPrime (d.wantedCapacity capacity) := by
  unfold wantedCapacity at needed larger ⊢
  simp only [reserve]
  generalize (if capacity = 0 then d.count * 2 else capacity) = wanted at needed larger ⊢
  rw [if_neg needed]
  generalize hw : ({ d with bucketsLen := sizing.getPrime wanted, buckets := fun _ => -1 } : Dict K V) = wide
  have wideCount : wide.count = d.count := by rw [← hw]
  have moved : (moveItems isTrivial alloc wide).count = wide.count := by cases isTrivial <;> rfl
  have size : (moveItems isTrivial alloc wide).bucketsLen = sizing.getPrime wanted := by
    cases isTrivial <;> simp [moveItems, ← hw]
  have noFree : d.freeList < 0 := wired.layout.freeWalks
  have zero : 0 = d.freeCount := wired.layout.freeLength
  obtain ⟨chains', rebuilt⟩ : ∃ chains', Wired keys
      (rebuild (moveItems isTrivial alloc wide).count (moveItems isTrivial alloc wide)) chains' [] entries := by
    apply rebuild_wired
    · rw [moved, wideCount, size]
      exact Nat.le_of_lt larger
    · rw [size]
      exact Nat.lt_of_le_of_lt (Nat.zero_le _) larger
    · intro b
      cases isTrivial <;> simp [moveItems, ← hw]
    · cases isTrivial <;> simpa [moveItems, ← hw] using noFree
    · cases isTrivial <;> simpa [moveItems, ← hw] using zero.symm
    · intro i k v found
      rw [moveItems_content isTrivial alloc wide (wideCount ▸ (wired.bounds found).1), ← hw]
      cases isTrivial <;> exact wired.stored found
    · intro i
      rw [wired.occupied, moved, wideCount]
      simp
  have links := (moveItems isTrivial alloc wide).rebuild_links d.count
  rw [moved, wideCount] at rebuilt
  have count := congrArg Index.count links
  rw [Index.relink_count] at count
  have bucketsLen := congrArg Index.bucketsLen links
  rw [Index.relink_bucketsLen] at bucketsLen
  exact ⟨chains', rebuilt, count.trans (moved.trans wideCount), bucketsLen.trans size⟩

/-- `Reserve()` on a full table. -/
theorem Wired.grown (wired : Wired keys d chains [] entries) (full : d.count = d.bucketsLen)
    (sizing : Sizing) (isTrivial : Bool) (alloc : Nat → Data K V) :
    ∃ chains', Wired keys (reserve sizing isTrivial alloc 0 d) chains' [] entries ∧
      (reserve sizing isTrivial alloc 0 d).count = d.count ∧
      d.count < (reserve sizing isTrivial alloc 0 d).bucketsLen := by
  have positive : 0 < d.count := by
    rw [full]
    exact wired.layout.sized
  have wanted : d.wantedCapacity 0 = d.count * 2 := if_pos rfl
  have larger : d.count < sizing.getPrime (d.wantedCapacity 0) := by
    rw [wanted]
    exact sizing.grows positive
  obtain ⟨chains', wired', count, bucketsLen⟩ := wired.reserved sizing isTrivial alloc (by omega) larger
  exact ⟨chains', wired', count, by rwa [bucketsLen]⟩

/-! ## Adding an entry -/

theorem Wired.slotTaken (wired : Wired keys d chains free entries) (sizing : Sizing)
    (isTrivial : Bool) (alloc : Nat → Data K V) :
    (takeSlot sizing isTrivial alloc d).1 = nextSlot free d.count ∧
    (takeSlot sizing isTrivial alloc d).2.count = (if free = [] then d.count + 1 else d.count) ∧
    ∃ chains', Pending keys (takeSlot sizing isTrivial alloc d).2 chains' free.tail entries
      (nextSlot free d.count) := by
  cases free with
  | cons i rest =>
    obtain ⟨first, layout, loose⟩ := Index.take_free wired.layout
    have positive : 0 < d.freeCount := by
      have := wired.layout.freeLength
      simp only [List.length_cons] at this
      exact Nat.lt_of_lt_of_eq (Nat.succ_pos _) this
    have links : (takeSlot sizing isTrivial alloc d).2.links = d.links.take.2 := by
      simp only [takeSlot, positive, ↓reduceIte, Index.take,
        show 0 < d.links.freeCount from positive]
      rfl
    have taken : (takeSlot sizing isTrivial alloc d).1 = i := by
      rw [← first]
      simp only [takeSlot, positive, ↓reduceIte, Index.take,
        show 0 < d.links.freeCount from positive]
      rfl
    have content : (takeSlot sizing isTrivial alloc d).2.content = d.content := by
      simp only [takeSlot, positive, ↓reduceIte]
      rfl
    have count : (takeSlot sizing isTrivial alloc d).2.count = d.count := by
      simp [takeSlot, positive]
    have len : (takeSlot sizing isTrivial alloc d).2.bucketsLen = d.bucketsLen := by
      simp [takeSlot, positive]
    have hashes : d.links.take.2.hashCode = d.links.hashCode := by
      simp [Index.take, show 0 < d.links.freeCount from positive]
    rw [← links] at layout loose
    refine ⟨taken, by simpa using count, chains, layout, loose, ?_, ?_, ?_⟩
    · intro j bound other outside
      rw [links, hashes, len]
      rw [count] at bound
      simp only [nextSlot, List.headD_cons, List.tail_cons] at other outside
      exact wired.covered j bound (by simp [outside, other])
    · intro j k v found
      rw [content, links, hashes]
      exact wired.stored found
    · intro j
      rw [wired.occupied, count]
      simp only [List.tail_cons, List.mem_cons, not_or, nextSlot, List.headD_cons]
      tauto
  | nil =>
    have zero : ¬ 0 < d.freeCount := by
      have := wired.layout.freeLength
      simp only [List.length_nil] at this
      exact fun positive => by rw [show d.freeCount = 0 from this.symm] at positive; omega
    -- With or without growth, there is room for one more slot.
    obtain ⟨grown, chains', hgrown, wired', count', room⟩ : ∃ grown chains',
        grown = (if d.count = d.bucketsLen then reserve sizing isTrivial alloc 0 d else d) ∧
        Wired keys grown chains' [] entries ∧ grown.count = d.count ∧ d.count < grown.bucketsLen := by
      by_cases full : d.count = d.bucketsLen
      · obtain ⟨chains', wired', count', room⟩ := wired.grown full sizing isTrivial alloc
        exact ⟨_, chains', by rw [if_pos full], wired', count', room⟩
      · exact ⟨d, chains, by rw [if_neg full], wired, rfl, Nat.lt_of_le_of_ne wired.layout.room full⟩
    have shape : takeSlot sizing isTrivial alloc d = (grown.count, { grown with count := grown.count + 1 }) := by
      simp only [takeSlot, zero, ↓reduceIte, hgrown]
    obtain ⟨-, layout, loose⟩ := Index.take_fresh wired'.layout (by rw [links_count, count']; exact room)
    have empty : ¬ 0 < grown.links.freeCount := by
      have := wired'.layout.freeLength
      simp only [List.length_nil] at this
      omega
    simp only [Index.take, empty, ↓reduceIte] at layout loose
    rw [shape]
    refine ⟨by simp [nextSlot, count'], by simp [count'], chains', ?_⟩
    rw [show nextSlot [] d.count = grown.links.count by simp [nextSlot, count']]
    refine ⟨layout, loose, ?_, ?_, ?_⟩
    · intro j bound other _
      have inside : j < grown.count := by
        have : j < grown.count + 1 := bound
        have : j ≠ grown.count := other
        omega
      exact wired'.covered j inside (by simp)
    · intro j k v found
      exact wired'.stored found
    · intro j
      rw [wired'.occupied]
      simp only [links_count, List.tail_nil, List.not_mem_nil, not_false_eq_true, true_and, and_true]
      omega

theorem Wired.add_absent (wired : Wired keys d chains free entries) {k : K}
    (absent : ¬ HasKey keys entries k) (sizing : Sizing) (isTrivial : Bool)
    (alloc : Nat → Data K V) (v : V) (override : Bool) :
    ∃ d' chains', add keys sizing isTrivial alloc k v override d =
        some (⟨true, (nextSlot free d.count : Int)⟩, d') ∧
      Wired keys d' chains' free.tail
        (Function.update entries (nextSlot free d.count) (some (k, v))) ∧
      d'.count = (if free = [] then d.count + 1 else d.count) := by
  have searched : scanBucket keys d (keys.getHashCode k) k = some (-1) := wired.find_absent absent
  obtain ⟨index, count, chains', pending⟩ := wired.slotTaken sizing isTrivial alloc
  obtain ⟨chains'', placed⟩ := pending.placed k v
  refine ⟨_, chains'', ?_, placed, ?_⟩
  · simp only [add, searched, Option.bind_eq_bind, Option.bind_some]
    rw [← index]
    rfl
  · rw [← count]
    exact congrArg Index.count (place_links _ _ _ k v)

theorem Wired.overwritten (wired : Wired keys d chains free entries) {i : Nat} {l : K} {w : V}
    (found : entries i = some (l, w)) (v : V) :
    Wired keys (d.setValue i (some v)) chains free (Function.update entries i (some (l, v))) := by
  have links := d.setValue_links i (some v)
  have layout := wired.layout
  have covered := wired.covered
  rw [← links] at layout covered
  refine ⟨layout, covered, ?_, ?_⟩
  · intro j k u present
    rw [links, setValue_content]
    by_cases same : j = i
    · subst same
      simp only [Function.update_self, Option.some.injEq, Prod.mk.injEq] at present
      obtain ⟨rfl, rfl⟩ := present
      obtain ⟨stored, hash⟩ := wired.stored found
      exact ⟨by simp [stored], hash⟩
    · rw [Function.update_of_ne same] at present ⊢
      exact wired.stored present
  · intro j
    by_cases same : j = i
    · subst same
      simpa [setValue] using wired.bounds found
    · rw [Function.update_of_ne same]
      exact wired.occupied j

/-- What `Add` does with a key that is there: it replaces the value if told to. -/
theorem add_found {i : Nat} {k : K} (searched : find keys d k = some (i : Int)) (sizing : Sizing)
    (isTrivial : Bool) (alloc : Nat → Data K V) (v : V) (override : Bool) :
    add keys sizing isTrivial alloc k v override d =
      some (⟨override, i⟩, if override then d.setValue i (some v) else d) := by
  have scanned : scanBucket keys d (keys.getHashCode k) k = some (i : Int) := searched
  have nonneg : (0 : Int) ≤ i := by omega
  cases override <;> simp [add, scanned, nonneg]

theorem create_wired (sizing : Sizing) (nodes : Nat → Node) (items : Nat → Data K V) :
    Wired keys (create sizing nodes items) (fun _ => []) [] (fun _ => none) := by
  refine ⟨?_, ?_, by simp, by simp [create]⟩
  · exact {
      sized := sizing.positive
      room := Nat.zero_le _
      walks := fun _ _ => show (-1 : Int) < 0 by decide
      backs := fun _ _ => trivial
      nodup := fun _ _ => List.nodup_nil
      member := by simp
      freeWalks := show (-1 : Int) < 0 by decide
      freeNodup := List.nodup_nil
      freeBound := by simp
      freeMarked := by simp
      freeLength := rfl }
  · intro i bound
    exact absurd bound (Nat.not_lt_zero i)

theorem Wired.cleared (wired : Wired keys d chains free entries) :
    ∃ chains', Wired keys d.clear chains' [] (fun _ => none) ∧ d.clear.count = 0 := by
  by_cases zero : d.count = 0
  · have none' : ∀ i, entries i = none := by
      intro i
      have := (wired.occupied i).not.mpr (by omega)
      simpa using this
    have empty : free = [] := by
      cases free with
      | nil => rfl
      | cons i rest =>
        have : i < d.count := wired.layout.freeBound i (by simp)
        omega
    have same : d.clear = d := by simp [clear, zero]
    rw [same]
    refine ⟨chains, ?_, zero⟩
    rw [← show entries = fun _ => none from funext none', ← empty]
    exact wired
  · have shape : d.clear = { d.deleteKVs with
        buckets := fun _ => -1, freeList := -1, freeCount := 0, count := 0 } := by
      simp [clear, zero]
    rw [shape]
    refine ⟨fun _ => [], ⟨?_, ?_, by simp, by simp⟩, rfl⟩
    · exact {
        sized := wired.layout.sized
        room := Nat.zero_le _
        walks := fun _ _ => show (-1 : Int) < 0 by decide
        backs := fun _ _ => trivial
        nodup := fun _ _ => List.nodup_nil
        member := by simp
        freeWalks := show (-1 : Int) < 0 by decide
        freeNodup := List.nodup_nil
        freeBound := by simp
        freeMarked := by simp
        freeLength := rfl }
    · intro i bound
      exact absurd bound (Nat.not_lt_zero i)

end

end Xxlib.Uv4.Dict
