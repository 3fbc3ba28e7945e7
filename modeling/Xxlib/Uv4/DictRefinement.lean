import Xxlib.Lib.AssocMap
import Xxlib.Uv4.DictInvariant

/-! `Dict` refines a finite map.

The map a table stands for is the list of its live entries. Every operation of
the table is matched by one of the map, and what it answers is what the map says.
-/

set_option autoImplicit false

namespace Xxlib.Uv4.Dict

open Lib

variable {K V : Type}

/-! ## Valid tables -/

/-- What a live slot holds. -/
def entryAt (d : Dict K V) (i : Nat) : Option (K × V) :=
  if d.Live i then
    match d.content i with
    | (some k, some v) => some (k, v)
    | _ => none
  else none

def toMap (d : Dict K V) : List (K × V) := AssocMap.listed d.entryAt d.count

/-- The arrays of `d` are in order, its free slots are `free`, and its keys differ. -/
structure Valid (keys : KeyFuncs K) (d : Dict K V) (free : List Nat) : Prop where
  wired : ∃ chains, Wired keys d chains free d.entryAt
  distinct : Distinct keys d.entryAt

section
variable {keys : KeyFuncs K} {d : Dict K V} {free : List Nat} {chains : Nat → List Nat}
  {entries : Nat → Option (K × V)} {i : Nat} {k l : K} {v w : V}

theorem Wired.entryAt_eq (wired : Wired keys d chains free entries) : d.entryAt = entries := by
  funext i
  rw [wired.entry_eq i]
  rfl

theorem Wired.valid (wired : Wired keys d chains free entries) (distinct : Distinct keys entries) :
    Valid keys d free := by
  cases wired.entryAt_eq
  exact ⟨⟨chains, wired⟩, distinct⟩

theorem entryAt_lt {e : K × V} (found : d.entryAt i = some e) : i < d.count := by
  unfold entryAt at found
  split at found
  · next live => exact live.1
  · cases found

theorem Valid.live_iff (valid : Valid keys d free) (i : Nat) : d.Live i ↔ (d.entryAt i).isSome := by
  obtain ⟨chains, wired⟩ := valid.wired
  exact wired.live_iff i

theorem hasKey_iff (keys : KeyFuncs K) (d : Dict K V) (k : K) :
    HasKey keys d.entryAt k ↔ AssocMap.contains keys.equalsTo d.toMap k = true := by
  rw [AssocMap.contains_iff]
  constructor
  · rintro ⟨i, l, v, found, equal⟩
    exact ⟨(l, v), AssocMap.mem_listed.mpr ⟨i, entryAt_lt found, found⟩, equal⟩
  · rintro ⟨⟨l, v⟩, member, equal⟩
    obtain ⟨i, -, found⟩ := AssocMap.mem_listed.mp member
    exact ⟨i, l, v, found, equal⟩

theorem Distinct.update_some (distinct : Distinct keys entries)
    (apart : ∀ {j l w}, entries j = some (l, w) → keys.equalsTo l k = true → j = i) :
    Distinct keys (Function.update entries i (some (k, v))) := by
  intro a b l m x y foundA foundB equal
  by_cases sameA : a = i <;> by_cases sameB : b = i
  · rw [sameA, sameB]
  · subst sameA
    rw [Function.update_self] at foundA
    rw [Function.update_of_ne sameB] at foundB
    cases foundA
    exact (apart foundB (keys.equals_symm equal)).symm
  · subst sameB
    rw [Function.update_self] at foundB
    rw [Function.update_of_ne sameA] at foundA
    cases foundB
    exact apart foundA equal
  · rw [Function.update_of_ne sameA] at foundA
    rw [Function.update_of_ne sameB] at foundB
    exact distinct foundA foundB equal

theorem Distinct.update_none (distinct : Distinct keys entries) :
    Distinct keys (Function.update entries i none) := by
  intro a b l m x y foundA foundB equal
  by_cases sameA : a = i
  · subst sameA
    simp at foundA
  · by_cases sameB : b = i
    · subst sameB
      simp at foundB
    · rw [Function.update_of_ne sameA] at foundA
      rw [Function.update_of_ne sameB] at foundB
      exact distinct foundA foundB equal

/-! ## What each operation does to a valid table -/

theorem create_valid (sizing : Sizing) (nodes : Nat → Node) (items : Nat → Data K V) :
    Valid keys (create sizing nodes items) [] :=
  (create_wired sizing nodes items).valid fun _ _ _ _ _ _ found => by cases found

theorem Valid.find_cases (valid : Valid keys d free) (k : K) :
    (find keys d k = some (-1) ∧ ¬ HasKey keys d.entryAt k) ∨
      ∃ (i : Nat) (l : K) (v : V),
        find keys d k = some (i : Int) ∧ d.entryAt i = some (l, v) ∧ keys.equalsTo l k = true := by
  obtain ⟨chains, wired⟩ := valid.wired
  exact wired.find_cases k

theorem Valid.add_absent (valid : Valid keys d free) (absent : ¬ HasKey keys d.entryAt k)
    (sizing : Sizing) (isTrivial : Bool) (alloc : Nat → Data K V) (v : V) (override : Bool) :
    ∃ d', add keys sizing isTrivial alloc k v override d =
        some (⟨true, (nextSlot free d.count : Int)⟩, d') ∧
      Valid keys d' free.tail ∧ d.entryAt (nextSlot free d.count) = none ∧
      d'.entryAt = Function.update d.entryAt (nextSlot free d.count) (some (k, v)) ∧
      d'.count = (if free = [] then d.count + 1 else d.count) := by
  obtain ⟨chains, wired⟩ := valid.wired
  obtain ⟨d', chains', result, wired', count⟩ :=
    wired.add_absent absent sizing isTrivial alloc v override
  have vacant : d.entryAt (nextSlot free d.count) = none := by
    have empty : ¬ (d.entryAt (nextSlot free d.count)).isSome = true := by
      rw [wired.occupied]
      cases free with
      | nil => simp [nextSlot]
      | cons first rest => simp [nextSlot]
    simpa using empty
  refine ⟨d', result, wired'.valid (valid.distinct.update_some ?_), vacant, wired'.entryAt_eq, count⟩
  intro j l w found equal
  exact absurd ⟨j, l, w, found, equal⟩ absent

theorem Valid.overwritten (valid : Valid keys d free) (found : d.entryAt i = some (l, w)) (v : V) :
    Valid keys (d.setValue i (some v)) free ∧
      (d.setValue i (some v)).entryAt = Function.update d.entryAt i (some (l, v)) := by
  obtain ⟨chains, wired⟩ := valid.wired
  have wired' := wired.overwritten found v
  exact ⟨wired'.valid (valid.distinct.update_some fun other equal =>
    valid.distinct other found equal), wired'.entryAt_eq⟩

theorem Valid.removed (valid : Valid keys d free) {e : K × V} (found : d.entryAt i = some e) :
    Valid keys (d.removeAt i) (i :: free) ∧
      (d.removeAt i).entryAt = Function.update d.entryAt i none := by
  obtain ⟨chains, wired⟩ := valid.wired
  obtain ⟨chains', wired'⟩ := wired.removed found
  exact ⟨wired'.valid valid.distinct.update_none, wired'.entryAt_eq⟩

theorem Valid.cleared (valid : Valid keys d free) :
    Valid keys d.clear [] ∧ d.clear.entryAt = fun _ => none := by
  obtain ⟨chains, wired⟩ := valid.wired
  obtain ⟨chains', wired', -⟩ := wired.cleared
  exact ⟨wired'.valid (fun _ _ _ _ _ _ found => by cases found), wired'.entryAt_eq⟩

end

/-! ## The effect on the map -/

section
variable {keys : KeyFuncs K} {d d' : Dict K V} {free : List Nat} {i : Nat} {k l : K} {v w : V}

theorem comparison (keys : KeyFuncs K) : AssocMap.Comparison keys.equalsTo :=
  ⟨keys.equals_symm, keys.equals_trans⟩

theorem Valid.toMap_distinct (valid : Valid keys d free) :
    AssocMap.Distinct keys.equalsTo d.toMap := by
  apply AssocMap.listed_pairwise
  intro i j a b foundA foundB different
  rw [Bool.eq_false_iff]
  exact fun equal => different (valid.distinct foundA foundB equal)

theorem toMap_of_le (bound : d.count ≤ d'.count) :
    AssocMap.listed d.entryAt d'.count = d.toMap := by
  obtain ⟨extra, same⟩ := Nat.exists_eq_add_of_le bound
  rw [same]
  clear same
  induction extra with
  | zero => rfl
  | succ extra ih =>
    -- Behind `count` there are no entries.
    have outside : d.entryAt (d.count + extra) = none := by
      cases found : d.entryAt (d.count + extra) with
      | none => rfl
      | some e => exact absurd (entryAt_lt found) (by omega)
    rw [← Nat.add_assoc, AssocMap.listed_extend outside]
    exact ih

/-- One slot more gives one pair more. -/
theorem toMap_update (bound : d.count ≤ d'.count) (vacant : d.entryAt i = none) {e : K × V}
    (same : d'.entryAt = Function.update d.entryAt i (some e)) : d'.toMap.Perm (e :: d.toMap) := by
  have inside : i < d'.count := by
    apply entryAt_lt (e := e)
    rw [same, Function.update_self]
  rw [← toMap_of_le bound]
  unfold toMap
  rw [same]
  exact AssocMap.listed_update inside vacant

/-- The pairs without the one in slot `i`. -/
theorem toMap_split {e : K × V} (found : d.entryAt i = some e) :
    d.toMap.Perm (e :: AssocMap.listed (Function.update d.entryAt i none) d.count) :=
  AssocMap.listed_remove (entryAt_lt found) found

theorem Valid.toMap_removed (valid : Valid keys d free) (found : d.entryAt i = some (l, w))
    (equal : keys.equalsTo l k = true) :
    (d.removeAt i).toMap.Perm (AssocMap.erase keys.equalsTo d.toMap k) := by
  have split := toMap_split found
  have count : (d.removeAt i).count = d.count := congrArg Index.count (d.removeAt_links i)
  have rest : (d.removeAt i).toMap = AssocMap.listed (Function.update d.entryAt i none) d.count := by
    rw [toMap, valid.removed found |>.2, count]
  rw [rest]
  refine .trans ?_ (split.filter _).symm
  have distinct := valid.toMap_distinct.perm (comparison keys) split
  exact .of_eq (AssocMap.erase_cons (comparison keys) distinct equal).symm

theorem Valid.toMap_overwritten (valid : Valid keys d free) (found : d.entryAt i = some (l, w))
    (equal : keys.equalsTo l k = true) (v : V) :
    (d.setValue i (some v)).toMap.Perm (AssocMap.replace keys.equalsTo d.toMap k v) := by
  have split := toMap_split found
  have rest : (d.setValue i (some v)).toMap.Perm
      ((l, v) :: AssocMap.listed (Function.update d.entryAt i none) d.count) := by
    have twice : Function.update d.entryAt i (some (l, v)) =
        Function.update (Function.update d.entryAt i none) i (some (l, v)) := by
      rw [Function.update_idem]
    rw [toMap, (valid.overwritten found v).2, twice]
    have bound : i < d.count := entryAt_lt found
    exact AssocMap.listed_update bound (Function.update_self ..)
  refine rest.trans (.trans ?_ (split.map _).symm)
  have distinct := valid.toMap_distinct.perm (comparison keys) split
  exact .of_eq (AssocMap.replace_cons (comparison keys) distinct equal v).symm

theorem Valid.lookup_eq (valid : Valid keys d free) (found : d.entryAt i = some (l, w))
    (equal : keys.equalsTo l k = true) : AssocMap.lookup keys.equalsTo d.toMap k = some w :=
  AssocMap.lookup_eq_some_of_mem (comparison keys) valid.toMap_distinct
    (AssocMap.mem_listed.mpr ⟨i, entryAt_lt found, found⟩) equal

theorem Valid.value_eq (valid : Valid keys d free) (found : d.entryAt i = some (l, w)) :
    d.valueAt i = some w := by
  obtain ⟨chains, wired⟩ := valid.wired
  exact congrArg Prod.snd (wired.stored found).1

end

/-! ## Counting and iterating -/

section
variable {keys : KeyFuncs K} {d : Dict K V} {free : List Nat}

/-- The loops of `begin` and `operator++` together pass over the free slots. -/
theorem visit_seek (d : Dict K V) (n i fuel : Nat) (last : i + n = d.count) (enough : n < fuel) :
    visit d fuel (seek d n i) = (List.range' i n).filter fun j => (d.items j).prev ≠ -2 := by
  induction n generalizing i fuel with
  | zero =>
    obtain ⟨fuel, rfl⟩ := Nat.exists_eq_add_one_of_ne_zero (Nat.ne_of_gt enough)
    have ends : i = d.count := last
    simp [seek, visit, ends]
  | succ n ih =>
    have next := ih (i + 1)
    rw [List.range'_succ]
    by_cases free : (d.items i).prev = -2
    · rw [show seek d (n + 1) i = seek d n (i + 1) by simp [seek, free]]
      rw [next fuel (by omega) (by omega)]
      simp [free]
    · obtain ⟨fuel, rfl⟩ := Nat.exists_eq_add_one_of_ne_zero (Nat.ne_of_gt (Nat.zero_lt_of_lt enough))
      have inside : i ≠ d.count := by omega
      have rest : d.advance i = seek d n (i + 1) := by
        unfold advance
        congr 1
        omega
      simp only [seek, ne_eq, free, not_false_eq_true, ↓reduceIte, visit, inside, rest]
      rw [next fuel (by omega) (by omega)]
      simp [free]

theorem Valid.prev_iff (valid : Valid keys d free) {i : Nat} (bound : i < d.count) :
    (d.items i).prev = -2 ↔ i ∈ free := by
  obtain ⟨chains, wired⟩ := valid.wired
  exact wired.layout.prev_eq_iff wired.covered bound

theorem Valid.free_length (valid : Valid keys d free) : free.length = d.freeCount := by
  obtain ⟨chains, wired⟩ := valid.wired
  exact wired.layout.freeLength

theorem Valid.free_perm (valid : Valid keys d free) :
    free.Perm ((List.range d.count).filter fun j => (d.items j).prev = -2) := by
  obtain ⟨chains, wired⟩ := valid.wired
  rw [List.perm_ext_iff_of_nodup wired.layout.freeNodup (List.nodup_range.filter _)]
  intro i
  simp only [List.mem_filter, List.mem_range, decide_eq_true_eq]
  constructor
  · intro member
    exact ⟨wired.layout.freeBound i member, wired.layout.freeMarked i member⟩
  · rintro ⟨bound, marked⟩
    exact (valid.prev_iff bound).mp marked

/-- `Count()` is the number of slots that are not free. -/
theorem Valid.getCount_eq (valid : Valid keys d free) :
    d.getCount = ((List.range d.count).filter fun j => (d.items j).prev ≠ -2).length := by
  have both := List.length_eq_countP_add_countP (fun j => decide ((d.items j).prev = -2))
    (l := List.range d.count)
  have marked := valid.free_perm.length_eq
  rw [valid.free_length] at marked
  rw [List.length_range, List.countP_eq_length_filter, ← marked, List.countP_eq_length_filter] at both
  have kept : ((List.range d.count).filter fun j => (d.items j).prev ≠ -2).length = d.count - d.freeCount := by
    simp only [ne_eq, decide_not, Bool.not_eq_true, decide_eq_false_iff_not] at both ⊢
    omega
  exact kept.symm

theorem Valid.iterate_eq (valid : Valid keys d free) :
    d.iterate = (List.range d.count).filter fun j => (d.items j).prev ≠ -2 := by
  have visited := visit_seek d d.count 0 (d.count + 1) (Nat.zero_add _) (Nat.lt_succ_self _)
  rw [← List.range_eq_range'] at visited
  unfold iterate begin
  split
  · next zero =>
    -- `Empty()` makes `begin` skip the search.
    rw [valid.getCount_eq, List.length_eq_zero_iff] at zero
    rw [zero]
    simp [visit]
  · exact visited

theorem Valid.getCount_toMap (valid : Valid keys d free) : d.getCount = d.toMap.length := by
  rw [valid.getCount_eq, toMap, AssocMap.listed, List.length_filterMap_eq_countP,
    List.countP_eq_length_filter]
  congr 1
  apply List.filter_congr
  intro i member
  have live := valid.live_iff i
  have bound := List.mem_range.mp member
  simp only [Live, bound, true_and] at live
  rw [Bool.eq_iff_iff, ← live]
  simp

end

/-! ## Runs -/

/-- A call. `alloc` is what `Alloc` leaves in a new block, should the call need one; `write` is what
the caller assigns through the reference that `operator[]` answers with. -/
inductive Op (K V : Type) where
  | add (k : K) (v : V) (override : Bool) (alloc : Nat → Data K V)
  | atKey (k : K) (write : Option V) (alloc : Nat → Data K V)
  | remove (k : K)
  | removeAt (idx : Nat)
  | find (k : K)
  | tryGetValue (k : K)
  | clear

inductive Reply (V : Type) where
  | added (result : DictAddResult)
  | index (idx : Int)
  | value (value : Option V)
  | done

/-- What stays the same over a run: the key functions, the table sizes, which branch of `Reserve` is
compiled, and `TV()`. -/
structure Setting (K V : Type) where
  keys : KeyFuncs K
  sizing : Sizing
  isTrivial : Bool
  fresh : V

def assign (d : Dict K V) (idx : Nat) : Option V → Dict K V
  | some v => d.setValue idx (some v)
  | none => d

/-- One call on the table; `none` if a loop of it does not end. -/
def step (setting : Setting K V) : Op K V → Dict K V → Option (Reply V × Dict K V)
  | .add k v override alloc, d => do
      let (r, d) ← add setting.keys setting.sizing setting.isTrivial alloc k v override d
      return (.added r, d)
  | .atKey k write alloc, d => do
      let (idx, d) ← atKey setting.keys setting.sizing setting.isTrivial alloc setting.fresh k d
      return (.value (d.valueAt idx), d.assign idx write)
  | .remove k, d => do
      let d ← remove setting.keys d k
      return (.done, d)
  | .removeAt idx, d => return (.done, d.removeAt idx)
  | .find k, d => do
      let idx ← find setting.keys d k
      return (.index idx, d)
  | .tryGetValue k, d => do
      let v ← tryGetValue setting.keys d k
      return (.value v, d)
  | .clear, d => return (.done, d.clear)

/-- The assertion of `RemoveAt`. -/
def Allowed (d : Dict K V) : Op K V → Prop
  | .removeAt idx => d.Live idx
  | _ => True

/-- The same call on the finite map; `RemoveAt` is the removal of the key found in the slot. -/
def mapStep (setting : Setting K V) (d : Dict K V) (m : List (K × V)) : Op K V → List (K × V)
  | .add k v override _ => AssocMap.put setting.keys.equalsTo m k v override
  | .atKey k write _ =>
      let m := AssocMap.put setting.keys.equalsTo m k setting.fresh false
      match write with
      | some v => AssocMap.replace setting.keys.equalsTo m k v
      | none => m
  | .remove k => AssocMap.erase setting.keys.equalsTo m k
  | .removeAt idx =>
      match d.entryAt idx with
      | some (k, _) => AssocMap.erase setting.keys.equalsTo m k
      | none => m
  | .find _ => m
  | .tryGetValue _ => m
  | .clear => []

/-- `idx` is the index of the entry of `k`, or `-1` if there is none. -/
def Denotes (keys : KeyFuncs K) (d : Dict K V) (m : List (K × V)) (k : K) (idx : Int) : Prop :=
  if AssocMap.contains keys.equalsTo m k then
    ∃ (i : Nat) (l : K) (v : V), idx = i ∧ d.entryAt i = some (l, v) ∧ keys.equalsTo l k = true
  else idx = -1

/-- What the map `m` before and the table `d'` after the call say about the reply. -/
def Answers (setting : Setting K V) (m : List (K × V)) (d' : Dict K V) : Op K V → Reply V → Prop
  | .add k v override _, .added r =>
      r.success = (!AssocMap.contains setting.keys.equalsTo m k || override) ∧
        Denotes setting.keys d' (AssocMap.put setting.keys.equalsTo m k v override) k r.index
  | .atKey k _ _, .value v => v = some ((AssocMap.lookup setting.keys.equalsTo m k).getD setting.fresh)
  | .find k, .index idx => Denotes setting.keys d' m k idx
  | .tryGetValue k, .value v => v = AssocMap.lookup setting.keys.equalsTo m k
  | .remove _, .done => True
  | .removeAt _, .done => True
  | .clear, .done => True
  | _, _ => False

/-- An entry whose key is still in the map `m` is where it was. -/
def Stable (keys : KeyFuncs K) (d d' : Dict K V) (m : List (K × V)) : Prop :=
  ∀ i k v, d.entryAt i = some (k, v) → AssocMap.contains keys.equalsTo m k = true →
    ∃ w, d'.entryAt i = some (k, w)

/-- The states a fresh table can get into, with the map the calls made so far add up to. -/
inductive Reachable (setting : Setting K V) : Dict K V → List (K × V) → Prop where
  | create (nodes : Nat → Node) (items : Nat → Data K V) :
      Reachable setting (create setting.sizing nodes items) []
  | step {d d' : Dict K V} {m : List (K × V)} {reply : Reply V} (op : Op K V)
      (before : Reachable setting d m) (allowed : d.Allowed op)
      (runs : step setting op d = some (reply, d')) :
      Reachable setting d' (mapStep setting d m op)

/-- The links of a table, spelled out. -/
structure WellFormed (keys : KeyFuncs K) (d : Dict K V) : Prop where
  chain : ∀ b < d.bucketsLen, ∃ chain : List Nat, chain.Nodup ∧
    Walks (fun i => (d.nodes i).next) (d.buckets b) chain ∧
    BackLinked (fun i => (d.items i).prev) (-1) chain ∧
    ∀ i, i ∈ chain ↔ d.Live i ∧ (d.nodes i).hashCode.toNat % d.bucketsLen = b
  free : ∃ free : List Nat, free.Nodup ∧ Walks (fun i => (d.nodes i).next) d.freeList free ∧
    free.length = d.freeCount ∧ (∀ i ∈ free, i < d.count ∧ ¬ d.Live i) ∧
    ∀ i < d.count, (d.items i).prev = -2 ↔ i ∈ free
  constructed : ∀ i, d.Live i → ∃ k v, d.content i = (some k, some v) ∧
    (d.nodes i).hashCode = keys.getHashCode k

structure Represents (keys : KeyFuncs K) (d : Dict K V) (m : List (K × V)) : Prop where
  valid : ∃ free, Valid keys d free
  perm : d.toMap.Perm m

/-- No entry moves or gets another key. -/
def Keeps (d d' : Dict K V) : Prop :=
  ∀ i k v, d.entryAt i = some (k, v) → ∃ w, d'.entryAt i = some (k, w)

section
variable {keys : KeyFuncs K} {d d' : Dict K V} {m : List (K × V)} {i : Nat} {k l : K} {v w : V}

theorem Keeps.refl (d : Dict K V) : Keeps d d := fun _ _ v found => ⟨v, found⟩

theorem Keeps.trans {e : Dict K V} (first : Keeps d d') (second : Keeps d' e) : Keeps d e := by
  intro i k v found
  obtain ⟨w, found⟩ := first i k v found
  exact second i k w found

theorem Keeps.stable (keeps : Keeps d d') (m : List (K × V)) : Stable keys d d' m :=
  fun i k v found _ => keeps i k v found

theorem Valid.wellFormed {free : List Nat} (valid : Valid keys d free) : WellFormed keys d := by
  obtain ⟨chains, wired⟩ := valid.wired
  have live : ∀ i, d.Live i ↔ i < d.count ∧ i ∉ free := fun i => by
    rw [wired.live_iff, wired.occupied]
  constructor
  · intro b hb
    refine ⟨chains b, wired.layout.nodup b hb, wired.layout.walks b hb, wired.layout.backs b hb, ?_⟩
    intro i
    rw [live]
    constructor
    · intro member
      obtain ⟨bound, notFree, hash⟩ := wired.layout.member b hb i member
      exact ⟨⟨bound, notFree⟩, hash⟩
    · rintro ⟨⟨bound, notFree⟩, hash⟩
      have member := wired.covered i bound notFree
      rw [links_hashCode, links_bucketsLen, hash] at member
      exact member
  · refine ⟨free, wired.layout.freeNodup, wired.layout.freeWalks, wired.layout.freeLength, ?_,
      fun i bound => valid.prev_iff bound⟩
    intro i member
    exact ⟨wired.layout.freeBound i member, fun alive => ((live i).mp alive).2 member⟩
  · intro i alive
    obtain ⟨⟨k, v⟩, found⟩ := Option.isSome_iff_exists.mp ((wired.live_iff i).mp alive)
    obtain ⟨stored, hash⟩ := wired.stored found
    exact ⟨k, v, stored, UInt32.toNat_inj.mp hash⟩

theorem Represents.contains_eq (represents : Represents keys d m) (k : K) :
    AssocMap.contains keys.equalsTo m k = true ↔ HasKey keys d.entryAt k := by
  rw [hasKey_iff, AssocMap.contains_perm represents.perm]

theorem Represents.distinct (represents : Represents keys d m) :
    AssocMap.Distinct keys.equalsTo m := by
  obtain ⟨free, valid⟩ := represents.valid
  exact valid.toMap_distinct.perm (comparison keys) represents.perm

theorem Represents.lookup_eq (represents : Represents keys d m) (found : d.entryAt i = some (l, w))
    (equal : keys.equalsTo l k = true) : AssocMap.lookup keys.equalsTo m k = some w := by
  obtain ⟨free, valid⟩ := represents.valid
  rw [← AssocMap.lookup_perm (comparison keys) valid.toMap_distinct represents.perm]
  exact valid.lookup_eq found equal

/-- `Find` answers `-1`, or with the index of the entry of the key. -/
theorem Represents.find_cases (represents : Represents keys d m) (k : K) :
    (find keys d k = some (-1) ∧ AssocMap.contains keys.equalsTo m k = false) ∨
      ∃ (i : Nat) (l : K) (v : V), find keys d k = some (i : Int) ∧ d.entryAt i = some (l, v) ∧
        keys.equalsTo l k = true ∧ AssocMap.contains keys.equalsTo m k = true ∧
        AssocMap.lookup keys.equalsTo m k = some v := by
  obtain ⟨free, valid⟩ := represents.valid
  rcases valid.find_cases k with ⟨result, absent⟩ | ⟨i, l, v, result, found, equal⟩
  · refine .inl ⟨result, ?_⟩
    rw [Bool.eq_false_iff, ne_eq, represents.contains_eq]
    exact absent
  · exact .inr ⟨i, l, v, result, found, equal, (represents.contains_eq k).mpr ⟨i, l, v, found, equal⟩,
      represents.lookup_eq found equal⟩

theorem Represents.tryGetValue_eq (represents : Represents keys d m) (k : K) :
    tryGetValue keys d k = some (AssocMap.lookup keys.equalsTo m k) := by
  rcases represents.find_cases k with ⟨result, absent⟩ | ⟨i, l, v, result, found, -, -, value⟩
  · simp [tryGetValue, result, AssocMap.lookup_eq_none absent]
  · obtain ⟨free, valid⟩ := represents.valid
    have read : (d.items i).value = some v := valid.value_eq found
    simp [tryGetValue, result, read, value]

theorem Represents.overwritten (represents : Represents keys d m) (found : d.entryAt i = some (l, w))
    (equal : keys.equalsTo l k = true) (v : V) :
    Represents keys (d.setValue i (some v)) (AssocMap.replace keys.equalsTo m k v) ∧
      (d.setValue i (some v)).entryAt i = some (l, v) ∧ Keeps d (d.setValue i (some v)) := by
  obtain ⟨free, valid⟩ := represents.valid
  obtain ⟨valid', entries⟩ := valid.overwritten found v
  refine ⟨⟨⟨free, valid'⟩, ?_⟩, by rw [entries, Function.update_self], ?_⟩
  · exact (valid.toMap_overwritten found equal v).trans (represents.perm.map _)
  · intro j x y other
    rw [entries]
    by_cases same : j = i
    · subst same
      rw [found] at other
      cases other
      exact ⟨v, Function.update_self ..⟩
    · exact ⟨y, by rw [Function.update_of_ne same, other]⟩

theorem Represents.removed (represents : Represents keys d m) (found : d.entryAt i = some (l, w))
    (equal : keys.equalsTo l k = true) :
    Represents keys (d.removeAt i) (AssocMap.erase keys.equalsTo m k) ∧
      Stable keys d (d.removeAt i) (AssocMap.erase keys.equalsTo m k) := by
  obtain ⟨free, valid⟩ := represents.valid
  obtain ⟨valid', entries⟩ := valid.removed found
  refine ⟨⟨⟨i :: free, valid'⟩, ?_⟩, ?_⟩
  · exact (valid.toMap_removed found equal).trans (represents.perm.filter _)
  · intro j x y other present
    rw [entries]
    by_cases same : j = i
    · subst same
      rw [found] at other
      cases other
      -- The key of the removed entry is gone from the map.
      rw [AssocMap.erase_contains (comparison keys) equal] at present
      cases present
    · exact ⟨y, by rw [Function.update_of_ne same, other]⟩

theorem Represents.added (represents : Represents keys d m)
    (absent : AssocMap.contains keys.equalsTo m k = false) (sizing : Sizing) (isTrivial : Bool)
    (alloc : Nat → Data K V) (v : V) (override : Bool) :
    ∃ (i : Nat) (d' : Dict K V), add keys sizing isTrivial alloc k v override d = some (⟨true, i⟩, d') ∧
      Represents keys d' ((k, v) :: m) ∧ d'.entryAt i = some (k, v) ∧ Keeps d d' := by
  obtain ⟨free, valid⟩ := represents.valid
  have missing : ¬ HasKey keys d.entryAt k := by
    rw [← represents.contains_eq, absent]
    exact Bool.false_ne_true
  obtain ⟨d', result, valid', vacant, entries, count⟩ :=
    valid.add_absent missing sizing isTrivial alloc v override
  have larger : d.count ≤ d'.count := by
    rw [count]
    split <;> omega
  refine ⟨_, d', result, ⟨⟨free.tail, valid'⟩, ?_⟩, by rw [entries, Function.update_self], ?_⟩
  · exact (toMap_update larger vacant entries).trans (represents.perm.cons _)
  · intro j x y other
    have different : j ≠ nextSlot free d.count := by
      rintro rfl
      rw [vacant] at other
      cases other
    exact ⟨y, by rw [entries, Function.update_of_ne different, other]⟩

theorem Represents.cleared (represents : Represents keys d m) : Represents keys d.clear [] := by
  obtain ⟨free, valid⟩ := represents.valid
  obtain ⟨valid', entries⟩ := valid.cleared
  have empty : d.clear.toMap = [] := by simp [toMap, AssocMap.listed, entries]
  refine ⟨⟨[], valid'⟩, ?_⟩
  rw [empty]

theorem Represents.atKey_spec (represents : Represents keys d m) (sizing : Sizing) (isTrivial : Bool)
    (alloc : Nat → Data K V) (fresh : V) (k : K) :
    ∃ (i : Nat) (d' : Dict K V) (l : K), atKey keys sizing isTrivial alloc fresh k d = some (i, d') ∧
      Represents keys d' (AssocMap.put keys.equalsTo m k fresh false) ∧
      d'.entryAt i = some (l, (AssocMap.lookup keys.equalsTo m k).getD fresh) ∧
      keys.equalsTo l k = true ∧ Keeps d d' := by
  rcases represents.find_cases k with ⟨result, absent⟩ | ⟨i, l, v, result, found, equal, present, value⟩
  · obtain ⟨i, d', runs, represents', found, keeps⟩ :=
      represents.added absent sizing isTrivial alloc fresh true
    refine ⟨i, d', k, by simp [atKey, result, runs], ?_, ?_, keys.equals_refl k, keeps⟩
    · rw [AssocMap.put_absent absent]
      exact represents'
    · rw [AssocMap.lookup_eq_none absent]
      exact found
  · have inside : ¬ (i : Int) < 0 := by omega
    refine ⟨i, d, l, by simp [atKey, result, inside], ?_, ?_, equal, Keeps.refl d⟩
    · rw [AssocMap.put_present present]
      exact represents
    · rw [value]
      exact found

end

/-! ## The simulation -/

/-- One call on the table does what the call on the map does. -/
structure Simulates (setting : Setting K V) (d : Dict K V) (m : List (K × V)) (op : Op K V)
    (reply : Reply V) (d' : Dict K V) : Prop where
  represents : Represents setting.keys d' (mapStep setting d m op)
  answers : Answers setting m d' op reply
  stable : Stable setting.keys d d' (mapStep setting d m op)

section
variable {setting : Setting K V} {d : Dict K V} {m : List (K × V)}

theorem simulates_add (represents : Represents setting.keys d m) (k : K) (v : V) (override : Bool)
    (alloc : Nat → Data K V) : ∃ reply d', step setting (.add k v override alloc) d = some (reply, d') ∧
      Simulates setting d m (.add k v override alloc) reply d' := by
  rcases represents.find_cases k with ⟨-, absent⟩ | ⟨i, l, w, result, found, equal, present, -⟩
  · obtain ⟨i, d', runs, represents', found, keeps⟩ :=
      represents.added absent setting.sizing setting.isTrivial alloc v override
    have effect : mapStep setting d m (.add k v override alloc) = (k, v) :: m :=
      AssocMap.put_absent absent
    refine ⟨.added ⟨true, i⟩, d', by simp [step, runs], by rw [effect]; exact represents', ?_,
      keeps.stable _⟩
    refine ⟨by simp [absent], ?_⟩
    rw [AssocMap.put_absent absent, Denotes, if_pos (by simp [AssocMap.contains, setting.keys.equals_refl])]
    exact ⟨i, k, v, rfl, found, setting.keys.equals_refl k⟩
  · have runs := add_found result setting.sizing setting.isTrivial alloc v override
    refine ⟨.added ⟨override, i⟩, if override then d.setValue i (some v) else d, by simp [step, runs], ?_⟩
    obtain ⟨represents', found', keeps⟩ := represents.overwritten found equal v
    have effect : mapStep setting d m (.add k v override alloc) =
        if override then AssocMap.replace setting.keys.equalsTo m k v else m :=
      AssocMap.put_present present
    cases override with
    | false =>
      refine ⟨by rw [effect]; exact represents, ⟨by simp [present], ?_⟩, (Keeps.refl d).stable _⟩
      rw [AssocMap.put_present present, Denotes]
      simp only [Bool.false_eq_true, ↓reduceIte, present]
      exact ⟨i, l, w, rfl, found, equal⟩
    | true =>
      refine ⟨by rw [effect]; exact represents', ⟨by simp, ?_⟩, keeps.stable _⟩
      have still := (represents'.contains_eq k).mpr ⟨i, l, v, found', equal⟩
      rw [AssocMap.put_present present, Denotes]
      simp only [↓reduceIte, still]
      exact ⟨i, l, v, rfl, found', equal⟩

theorem simulates_atKey (represents : Represents setting.keys d m) (k : K) (write : Option V)
    (alloc : Nat → Data K V) : ∃ reply d', step setting (.atKey k write alloc) d = some (reply, d') ∧
      Simulates setting d m (.atKey k write alloc) reply d' := by
  obtain ⟨i, d', l, runs, represents', found, equal, keeps⟩ :=
    represents.atKey_spec setting.sizing setting.isTrivial alloc setting.fresh k
  have value : d'.valueAt i = some ((AssocMap.lookup setting.keys.equalsTo m k).getD setting.fresh) := by
    obtain ⟨free, valid⟩ := represents'.valid
    exact valid.value_eq found
  refine ⟨.value (d'.valueAt i), d'.assign i write, by simp [step, runs], ?_⟩
  cases write with
  | none => exact ⟨represents', value, keeps.stable _⟩
  | some v =>
    obtain ⟨written, -, rest⟩ := represents'.overwritten found equal v
    exact ⟨written, value, (keeps.trans rest).stable _⟩

theorem simulates_remove (represents : Represents setting.keys d m) (k : K) :
    ∃ reply d', step setting (.remove k) d = some (reply, d') ∧
      Simulates setting d m (.remove k) reply d' := by
  rcases represents.find_cases k with ⟨result, absent⟩ | ⟨i, l, v, result, found, equal, -, -⟩
  · refine ⟨.done, d, by simp [step, remove, result], ?_, trivial, (Keeps.refl d).stable _⟩
    rw [mapStep, AssocMap.erase_of_absent absent]
    exact represents
  · obtain ⟨represents', stable⟩ := represents.removed found equal
    have inside : ¬ (i : Int) = -1 := by omega
    exact ⟨.done, d.removeAt i, by simp [step, remove, result, inside], represents', trivial, stable⟩

theorem simulates_removeAt (represents : Represents setting.keys d m) (idx : Nat) (live : d.Live idx) :
    ∃ reply d', step setting (.removeAt idx) d = some (reply, d') ∧
      Simulates setting d m (.removeAt idx) reply d' := by
  obtain ⟨free, valid⟩ := represents.valid
  obtain ⟨⟨k, v⟩, found⟩ := Option.isSome_iff_exists.mp ((valid.live_iff idx).mp live)
  have effect : mapStep setting d m (.removeAt idx) = AssocMap.erase setting.keys.equalsTo m k := by
    simp [mapStep, found]
  obtain ⟨represents', stable⟩ := represents.removed found (setting.keys.equals_refl k)
  refine ⟨.done, d.removeAt idx, rfl, ?_, trivial, ?_⟩
  · rw [effect]
    exact represents'
  · rw [effect]
    exact stable

theorem simulates_find (represents : Represents setting.keys d m) (k : K) :
    ∃ reply d', step setting (.find k) d = some (reply, d') ∧
      Simulates setting d m (.find k) reply d' := by
  rcases represents.find_cases k with ⟨result, absent⟩ | ⟨i, l, v, result, found, equal, present, -⟩
  · refine ⟨.index (-1), d, by simp [step, result], represents, ?_, (Keeps.refl d).stable _⟩
    simp [Answers, Denotes, absent]
  · refine ⟨.index i, d, by simp [step, result], represents, ?_, (Keeps.refl d).stable _⟩
    simp only [Answers, Denotes, present, ↓reduceIte]
    exact ⟨i, l, v, rfl, found, equal⟩

theorem simulates_tryGetValue (represents : Represents setting.keys d m) (k : K) :
    ∃ reply d', step setting (.tryGetValue k) d = some (reply, d') ∧
      Simulates setting d m (.tryGetValue k) reply d' := by
  refine ⟨.value (AssocMap.lookup setting.keys.equalsTo m k), d, ?_, represents, rfl, (Keeps.refl d).stable _⟩
  simp [step, represents.tryGetValue_eq]

theorem simulates_clear (represents : Represents setting.keys d m) :
    ∃ reply d', step setting .clear d = some (reply, d') ∧ Simulates setting d m .clear reply d' := by
  refine ⟨.done, d.clear, rfl, represents.cleared, trivial, ?_⟩
  intro i k v found present
  cases present

/-- Every call on a table that represents a map returns, and simulates the call on the map. -/
theorem step_simulates (represents : Represents setting.keys d m) (op : Op K V)
    (allowed : d.Allowed op) : ∃ reply d', step setting op d = some (reply, d') ∧
      Simulates setting d m op reply d' := by
  cases op with
  | add k v override alloc => exact simulates_add represents k v override alloc
  | atKey k write alloc => exact simulates_atKey represents k write alloc
  | remove k => exact simulates_remove represents k
  | removeAt idx => exact simulates_removeAt represents idx allowed
  | find k => exact simulates_find represents k
  | tryGetValue k => exact simulates_tryGetValue represents k
  | clear => exact simulates_clear represents

theorem Reachable.represents (reachable : Reachable setting d m) : Represents setting.keys d m := by
  induction reachable with
  | create nodes items =>
    refine ⟨⟨[], create_valid setting.sizing nodes items⟩, ?_⟩
    simp [toMap, AssocMap.listed, Dict.create]
  | step op before allowed runs ih =>
    obtain ⟨reply, d', result, simulates⟩ := step_simulates ih _ allowed
    rw [runs] at result
    cases result
    exact simulates.represents

/-- In every reachable state the table is well formed and holds the map, its size and its iteration
are those of the map, and every next call returns with what the map says. -/
theorem reachable_refines (reachable : Reachable setting d m) :
    WellFormed setting.keys d ∧ AssocMap.Distinct setting.keys.equalsTo m ∧ d.toMap.Perm m ∧
      d.getCount = m.length ∧ d.iterate.Nodup ∧ (∀ i, i ∈ d.iterate ↔ d.Live i) ∧
      ∀ op, d.Allowed op → ∃ reply d', step setting op d = some (reply, d') ∧
        d'.toMap.Perm (mapStep setting d m op) ∧ Answers setting m d' op reply ∧
        Stable setting.keys d d' (mapStep setting d m op) := by
  have represents := reachable.represents
  obtain ⟨free, valid⟩ := represents.valid
  refine ⟨valid.wellFormed, represents.distinct, represents.perm, ?_, ?_, ?_, ?_⟩
  · rw [valid.getCount_toMap, represents.perm.length_eq]
  · rw [valid.iterate_eq]
    exact List.nodup_range.filter _
  · intro i
    rw [valid.iterate_eq, List.mem_filter, List.mem_range, decide_eq_true_eq]
    rfl
  · intro op allowed
    obtain ⟨reply, d', runs, simulates⟩ := step_simulates represents op allowed
    exact ⟨reply, d', runs, simulates.represents.perm, simulates.answers, simulates.stable⟩

end

/-- Words as keys and values, in tables of odd sizes. -/
def Setting.word : Setting UInt32 UInt32 where
  keys := .word
  sizing := {
    capacity := 1
    getPrime n := n * 2 + 1
    positive := by decide
    grows := by omega }
  isTrivial := true
  fresh := 0

/-- Two keys of one bucket, of which the first is removed again. -/
theorem reachable_refines_collision : ∃ d : Dict UInt32 UInt32,
    Reachable Setting.word d [(8, 80)] ∧ d.getCount = 1 := by
  have reachable : ∃ d, Reachable Setting.word d [(8, 80)] := by
    have created : Reachable Setting.word (create Setting.word.sizing (fun _ => ⟨0, 0⟩) fun _ => ⟨none, none, 0⟩)
        [] := .create _ _
    have first := Reachable.step (.add 5 50 false fun _ => ⟨none, none, 0⟩) created trivial rfl
    have second := Reachable.step (.add 8 80 false fun _ => ⟨none, none, 0⟩) first trivial rfl
    exact ⟨_, Reachable.step (.remove 5) second trivial rfl⟩
  obtain ⟨d, reachable⟩ := reachable
  exact ⟨d, reachable, (reachable_refines reachable).2.2.2.1⟩

end Xxlib.Uv4.Dict
