import Xxlib.Uv4.HashSet

/-! `HashSet` refines a finite set, as long as no hash code is lost.

A set is a list of keys. `Reserve` with keys that are not trivial moves only the
keys to the new nodes, so what comes after depends on what the new block held.
-/

set_option autoImplicit false

namespace Xxlib.Uv4.HashSet

open Lib (Walks BackLinked)

variable {K : Type}

/-! ## Finite sets and runs -/

structure Setting (K : Type) where
  keys : KeyFuncs K
  sizing : Sizing
  isTrivial : Bool

/-- A call. `alloc` is what `Alloc` leaves in a new block, should the call need one. -/
inductive Op (K : Type) where
  | add (k : K) (alloc : Nat → Node K)
  | remove (k : K)
  | contains (k : K)
  | clear

def member (keys : KeyFuncs K) (m : List K) (k : K) : Bool := m.any (keys.equalsTo · k)

def insert (keys : KeyFuncs K) (m : List K) (k : K) : List K := if member keys m k then m else k :: m

def erase (keys : KeyFuncs K) (m : List K) (k : K) : List K := m.filter fun l => !keys.equalsTo l k

/-- One call on the table, with what it returns. -/
def step (setting : Setting K) : Op K → HashSet K → Option (Option Bool × HashSet K)
  | .add k alloc, s => do
      let (ok, s) ← add setting.keys setting.sizing setting.isTrivial alloc k s
      return (some ok, s)
  | .remove k, s => do
      let (ok, s) ← remove setting.keys s k
      return (some ok, s)
  | .contains k, s => do
      let ok ← contains setting.keys s k
      return (some ok, s)
  | .clear, s => return (none, s.clear)

def setStep (keys : KeyFuncs K) (m : List K) : Op K → List K
  | .add k _ => insert keys m k
  | .remove k => erase keys m k
  | .contains _ => m
  | .clear => []

def answer (keys : KeyFuncs K) (m : List K) : Op K → Option Bool
  | .add k _ => some (!member keys m k)
  | .remove k => some (member keys m k)
  | .contains k => some (member keys m k)
  | .clear => none

/-- The states a fresh set gets into by calls that meet `guard`, with the finite set they add up to. -/
inductive Run (setting : Setting K) (guard : HashSet K → List K → Op K → Prop) :
    HashSet K → List K → Prop where
  | create (nodes : Nat → Node K) : Run setting guard (create setting.sizing nodes) []
  | step {s s' : HashSet K} {m : List K} {reply : Option Bool} (op : Op K)
      (before : Run setting guard s m) (meets : guard s m op)
      (runs : step setting op s = some (reply, s')) : Run setting guard s' (setStep setting.keys m op)

/-- The call does not make a full table of keys that are not trivial grow. -/
def Safe (setting : Setting K) (s : HashSet K) (m : List K) : Op K → Prop
  | .add k _ => setting.isTrivial = true ∨ member setting.keys m k = true ∨ m.length ≠ s.bucketsLen
  | _ => True

/-! ## The specification of a state -/

def Live (s : HashSet K) (i : Nat) : Prop := i < s.count ∧ (s.nodes i).prev ≠ -2

structure WellFormed (keys : KeyFuncs K) (s : HashSet K) : Prop where
  chain : ∀ b < s.bucketsLen, ∃ chain : List Nat, chain.Nodup ∧
    Walks (fun i => (s.nodes i).next) (s.buckets b) chain ∧
    BackLinked (fun i => (s.nodes i).prev) (-1) chain ∧
    ∀ i, i ∈ chain ↔ s.Live i ∧ (s.nodes i).hashCode.toNat % s.bucketsLen = b
  free : ∃ free : List Nat, free.Nodup ∧ Walks (fun i => (s.nodes i).next) s.freeList free ∧
    free.length = s.freeCount ∧ (∀ i ∈ free, i < s.count ∧ ¬ s.Live i) ∧
    ∀ i < s.count, (s.nodes i).prev = -2 ↔ i ∈ free
  constructed : ∀ i, s.Live i → ∃ k, (s.nodes i).key = some k ∧ (s.nodes i).hashCode = keys.getHashCode k

/-- The table holds the set `m`, is in order, and answers for it. -/
structure Holds (setting : Setting K) (s : HashSet K) (m : List K) : Prop where
  wellFormed : WellFormed setting.keys s
  distinct : m.Pairwise fun a b => setting.keys.equalsTo a b = false
  count : s.getCount = m.length
  contains : ∀ k, s.contains setting.keys k = some (member setting.keys m k)
  remove : ∀ k, (s.remove setting.keys k).map Prod.fst = some (member setting.keys m k)

/-- The call returns what the finite set says and leaves a table that holds the new set. -/
def Meets (setting : Setting K) (s : HashSet K) (m : List K) (op : Op K) : Prop :=
  ∃ s', step setting op s = some (answer setting.keys m op, s') ∧
    Holds setting s' (setStep setting.keys m op)

/-! ## Sets are tables of units -/

def pairs (m : List K) : List (K × Unit) := m.map fun k => (k, ())

section
variable {keys : KeyFuncs K} {setting : Setting K} {s : HashSet K} {m : List K} {k : K}

def Represents (keys : KeyFuncs K) (s : HashSet K) (m : List K) : Prop :=
  Dict.Represents keys s.toDict (pairs m)

theorem contains_pairs (keys : KeyFuncs K) (m : List K) (k : K) :
    Lib.AssocMap.contains keys.equalsTo (pairs m) k = member keys m k := by
  simp [Lib.AssocMap.contains, pairs, member, Function.comp_def]

theorem erase_pairs (keys : KeyFuncs K) (m : List K) (k : K) :
    Lib.AssocMap.erase keys.equalsTo (pairs m) k = pairs (erase keys m k) := by
  simp [Lib.AssocMap.erase, pairs, erase, List.filter_map, Function.comp_def]

theorem Represents.scan_cases (represents : Represents keys s m) (k : K) :
    (scanBucket keys s k = some (-1) ∧ member keys m k = false) ∨
      ∃ (i : Nat) (l : K), scanBucket keys s k = some (i : Int) ∧ s.toDict.entryAt i = some (l, ()) ∧
        keys.equalsTo l k = true ∧ member keys m k = true := by
  rw [← contains_pairs]
  rcases Dict.Represents.find_cases represents k with ⟨result, absent⟩ | ⟨i, l, v, result, found, equal, present, -⟩
  · exact .inl ⟨result, absent⟩
  · exact .inr ⟨i, l, result, found, equal, present⟩

theorem Represents.removed (represents : Represents keys s m) {i : Nat} {l : K}
    (scanned : scanBucket keys s k = some (i : Int)) (found : s.toDict.entryAt i = some (l, ()))
    (equal : keys.equalsTo l k = true) :
    ∃ s', s.remove keys k = some (true, s') ∧ Represents keys s' (erase keys m k) := by
  obtain ⟨s', runs, same⟩ := remove_found scanned
  refine ⟨s', runs, ?_⟩
  unfold Represents
  rw [same, ← erase_pairs]
  exact (Dict.Represents.removed represents found equal).1

theorem Represents.remove_spec (represents : Represents keys s m) (k : K) :
    ∃ s', s.remove keys k = some (member keys m k, s') ∧ Represents keys s' (erase keys m k) := by
  rcases represents.scan_cases k with ⟨scanned, absent⟩ | ⟨i, l, scanned, found, equal, present⟩
  · refine ⟨s, by simp [remove, scanned, absent], ?_⟩
    have same : erase keys m k = m := by
      unfold erase
      rw [List.filter_eq_self]
      intro l inside
      have apart := List.any_eq_false.mp absent l inside
      simpa using apart
    rw [same]
    exact represents
  · obtain ⟨s', runs, represents'⟩ := represents.removed scanned found equal
    rw [present]
    exact ⟨s', runs, represents'⟩

/-! ### Slots -/

instance (s : HashSet K) (i : Nat) : Decidable (s.Live i) := inferInstanceAs (Decidable (_ ∧ _))

/-- The key in a node that is in use. -/
def slot (s : HashSet K) (i : Nat) : Option K := if s.Live i then (s.nodes i).key else none

theorem live_of_slot {s : HashSet K} {i : Nat} {k : K} (there : s.slot i = some k) : s.Live i := by
  unfold slot at there
  by_contra dead
  rw [if_neg dead] at there
  cases there

theorem key_of_slot {s : HashSet K} {i : Nat} {k : K} (there : s.slot i = some k) : (s.nodes i).key = some k := by
  have live := live_of_slot there
  unfold slot at there
  rwa [if_pos live] at there

theorem entryAt_slot (s : HashSet K) (i : Nat) : s.toDict.entryAt i = (s.slot i).map fun k => (k, ()) := by
  unfold Dict.entryAt slot
  have same : s.toDict.Live i ↔ s.Live i := Iff.rfl
  by_cases live : s.Live i
  · rw [if_pos (same.mpr live), if_pos live]
    have content : s.toDict.content i = ((s.nodes i).key, (s.nodes i).key.map fun _ => ()) := rfl
    rw [content]
    cases (s.nodes i).key <;> rfl
  · rw [if_neg (fun l => live (same.mp l)), if_neg live]
    rfl

theorem Represents.mem_slot (represents : Represents keys s m) : k ∈ m ↔ ∃ i, s.slot i = some k := by
  have entry : (k, ()) ∈ s.toDict.toMap ↔ k ∈ m := by
    rw [(Dict.Represents.perm represents).mem_iff]
    simp [pairs]
  rw [← entry, Dict.toMap, Lib.AssocMap.mem_listed]
  constructor
  · rintro ⟨i, -, found⟩
    rw [entryAt_slot] at found
    obtain ⟨l, there, same⟩ := Option.map_eq_some_iff.mp found
    cases same
    exact ⟨i, there⟩
  · rintro ⟨i, there⟩
    have found : s.toDict.entryAt i = some (k, ()) := by rw [entryAt_slot, there]; rfl
    exact ⟨i, Dict.entryAt_lt found, found⟩

theorem Represents.live_slot (represents : Represents keys s m) {i : Nat} (live : s.Live i) :
    ∃ k, s.slot i = some k := by
  obtain ⟨free, valid⟩ := Dict.Represents.valid represents
  have some' := (valid.live_iff i).mp live
  rw [entryAt_slot, Option.isSome_map, Option.isSome_iff_exists] at some'
  exact some'

/-- `Remove` empties one slot, and leaves the others where they are. -/
theorem Represents.remove_slots (represents : Represents keys s m) (k : K) :
    ∃ ok s', s.remove keys k = some (ok, s') ∧ Represents keys s' (erase keys m k) ∧ s'.count = s.count ∧
      ∀ i l, s'.slot i = some l → s.slot i = some l ∧ keys.equalsTo l k = false := by
  rcases represents.scan_cases k with ⟨scanned, absent⟩ | ⟨i, l, scanned, found, equal, present⟩
  · obtain ⟨s', runs, represents'⟩ := represents.remove_spec k
    have same : s' = s := by
      simp only [remove, scanned, Option.bind_eq_bind, Option.bind_some] at runs
      exact (Prod.mk.inj (Option.some.inj runs)).2.symm
    subst same
    refine ⟨_, s', runs, represents', rfl, fun i l there => ⟨there, ?_⟩⟩
    have member' := represents.mem_slot.mpr ⟨i, there⟩
    simpa using List.any_eq_false.mp absent l member'
  · obtain ⟨s', runs, same⟩ := remove_found scanned
    obtain ⟨s'', runs', represents'⟩ := represents.removed scanned found equal
    cases runs.symm.trans runs'
    obtain ⟨free, valid⟩ := Dict.Represents.valid represents
    obtain ⟨-, entries⟩ := valid.removed found
    have count : s'.count = s.count := by
      have links := congrArg Lib.Index.count (s.toDict.removeAt_links i)
      rw [← same] at links
      exact links
    refine ⟨true, s', runs, represents', count, fun j n there => ?_⟩
    have entry : s'.toDict.entryAt j = some (n, ()) := by rw [entryAt_slot, there]; rfl
    rw [same, entries] at entry
    by_cases here : j = i
    · rw [here, Function.update_self] at entry
      cases entry
    · rw [Function.update_of_ne here] at entry
      have old : s.slot j = some n := by
        have slot := entryAt_slot s j
        rw [entry] at slot
        obtain ⟨n', at', pair⟩ := Option.map_eq_some_iff.mp slot.symm
        cases pair
        exact at'
      refine ⟨old, ?_⟩
      rw [Bool.eq_false_iff]
      intro equal'
      exact here (valid.distinct entry found (keys.equals_trans equal' (keys.equals_symm equal)))

theorem seek_spec (s : HashSet K) (n i : Nat) (last : i + n = s.count) :
    (s.seek n i = s.count ∧ ∀ j, i ≤ j → ¬ s.Live j) ∨
      (s.Live (s.seek n i) ∧ i ≤ s.seek n i ∧ ∀ j, i ≤ j → j < s.seek n i → ¬ s.Live j) := by
  induction n generalizing i with
  | zero =>
    left
    refine ⟨last, fun j beyond live => ?_⟩
    have inside := live.1
    omega
  | succ n ih =>
    by_cases used : (s.nodes i).prev ≠ -2
    · right
      rw [seek, if_pos used]
      exact ⟨⟨by omega, used⟩, Nat.le_refl i, fun j low high => absurd high (Nat.not_lt.mpr low)⟩
    · have skip : ∀ j, i ≤ j → ¬ s.Live j ∨ i + 1 ≤ j := by
        intro j low
        by_cases here : j = i
        · rw [here]
          exact .inl fun live => used live.2
        · exact .inr (by omega)
      rw [seek, if_neg used]
      rcases ih (i + 1) (by omega) with ⟨ends, none'⟩ | ⟨live, low, none'⟩
      · refine .inl ⟨ends, fun j at' => ?_⟩
        rcases skip j at' with dead | later
        · exact dead
        · exact none' j later
      · refine .inr ⟨live, by omega, fun j at' before => ?_⟩
        rcases skip j at' with dead | later
        · exact dead
        · exact none' j later before

theorem Represents.contains_eq (represents : Represents keys s m) (k : K) :
    s.contains keys k = some (member keys m k) := by
  rcases represents.scan_cases k with ⟨scanned, absent⟩ | ⟨i, l, scanned, -, -, present⟩
  · simp [contains, scanned, absent]
  · simp [contains, scanned, present]

theorem Represents.getCount_eq (represents : Represents keys s m) : s.getCount = m.length := by
  obtain ⟨free, valid⟩ := Dict.Represents.valid represents
  have count : s.toDict.getCount = (pairs m).length := by
    rw [valid.getCount_toMap, (Dict.Represents.perm represents).length_eq]
  rw [pairs, List.length_map] at count
  exact count

/-- A set without free slots is full exactly if it holds as many keys as it has buckets. -/
theorem Represents.keeping_iff (represents : Represents keys s m) (isTrivial : Bool) :
    Keeping isTrivial s ↔ isTrivial = true ∨ m.length ≠ s.bucketsLen := by
  obtain ⟨free, valid⟩ := Dict.Represents.valid represents
  obtain ⟨chains, wired⟩ := valid.wired
  have count := represents.getCount_eq
  have room : s.count ≤ s.bucketsLen := wired.layout.room
  have sized : 0 < s.bucketsLen := wired.layout.sized
  unfold getCount at count
  unfold Keeping
  constructor
  · rintro (yes | free | room)
    · exact .inl yes
    · exact .inr (by omega)
    · exact .inr (by omega)
  · rintro (yes | room)
    · exact .inl yes
    · exact .inr (by omega)

theorem Represents.add_spec (represents : Represents setting.keys s m) (alloc : Nat → Node K)
    (safe : Safe setting s m (.add k alloc)) :
    ∃ s', s.add setting.keys setting.sizing setting.isTrivial alloc k = some (!member setting.keys m k, s') ∧
      Represents setting.keys s' (insert setting.keys m k) := by
  unfold insert
  rcases represents.scan_cases k with ⟨scanned, absent⟩ | ⟨i, l, scanned, found, equal, present⟩
  · have keeping : Keeping setting.isTrivial s := by
      rw [represents.keeping_iff]
      rcases safe with yes | present | room
      · exact .inl yes
      · rw [absent] at present
        cases present
      · exact .inr room
    have missing : Lib.AssocMap.contains setting.keys.equalsTo (pairs m) k = false := by
      rw [contains_pairs, absent]
    obtain ⟨i, d', runs, represents', -, -⟩ := Dict.Represents.added represents missing setting.sizing
      setting.isTrivial (fun _ => ⟨none, none, 0⟩) () false
    have same := toDict_add setting.keys k keeping setting.sizing alloc fun _ => ⟨none, none, 0⟩
    rw [runs] at same
    obtain ⟨⟨ok, s'⟩, result, equal⟩ := Option.map_eq_some_iff.mp same
    simp only [Prod.mk.injEq] at equal
    refine ⟨s', by rw [result, absent, equal.1]; rfl, ?_⟩
    simp only [absent, Bool.false_eq_true, ↓reduceIte]
    unfold Represents
    rw [equal.2]
    exact represents'
  · refine ⟨s, by simp [add, scanned, present], ?_⟩
    simp only [present, ↓reduceIte]
    exact represents

theorem Represents.wellFormed (represents : Represents keys s m) : WellFormed keys s := by
  obtain ⟨free, valid⟩ := Dict.Represents.valid represents
  obtain ⟨chain, free, constructed⟩ := valid.wellFormed
  refine ⟨chain, free, ?_⟩
  intro i live
  obtain ⟨k, v, content, hash⟩ := constructed i live
  exact ⟨k, congrArg Prod.fst content, hash⟩

theorem Represents.holds (represents : Represents setting.keys s m) : Holds setting s m := by
  refine ⟨represents.wellFormed, ?_, represents.getCount_eq, represents.contains_eq, ?_⟩
  · have distinct := Dict.Represents.distinct represents
    exact List.pairwise_map.mp distinct
  · intro k
    obtain ⟨s', runs, -⟩ := represents.remove_spec k
    simp [runs]

/-- A safe call on a table that represents a set returns and keeps representing it. -/
theorem Represents.step_spec (represents : Represents setting.keys s m) (op : Op K)
    (safe : Safe setting s m op) : ∃ s', step setting op s = some (answer setting.keys m op, s') ∧
      Represents setting.keys s' (setStep setting.keys m op) := by
  cases op with
  | add k alloc =>
    obtain ⟨s', runs, represents'⟩ := represents.add_spec alloc safe
    exact ⟨s', by simp [step, runs, answer], represents'⟩
  | remove k =>
    obtain ⟨s', runs, represents'⟩ := represents.remove_spec k
    exact ⟨s', by simp [step, runs, answer], represents'⟩
  | contains k => exact ⟨s, by simp [step, represents.contains_eq k, answer], represents⟩
  | clear =>
    refine ⟨s.clear, rfl, ?_⟩
    obtain ⟨free, valid⟩ := Dict.Represents.valid represents
    obtain ⟨valid', entries⟩ := valid.cleared
    unfold Represents
    rw [toDict_clear]
    refine ⟨⟨[], valid'⟩, ?_⟩
    simp [Dict.toMap, Lib.AssocMap.listed, entries, pairs, setStep]

theorem Run.represents (run : Run setting (Safe setting) s m) : Represents setting.keys s m := by
  induction run with
  | create nodes =>
    refine ⟨⟨[], Dict.create_valid setting.sizing _ _⟩, ?_⟩
    simp [Dict.toMap, Lib.AssocMap.listed, toDict, HashSet.create, pairs]
  | step op before meets runs ih =>
    obtain ⟨s', result, represents⟩ := ih.step_spec op meets
    rw [runs] at result
    cases result
    exact represents

end

/-! ## Growth that forgets the hash codes -/

/-- The same keys, with other hash codes. -/
def shifted (keys : KeyFuncs K) : KeyFuncs K where
  getHashCode k := keys.getHashCode k + 1
  equalsTo := keys.equalsTo
  equals_refl := keys.equals_refl
  equals_symm := keys.equals_symm
  equals_trans := keys.equals_trans
  hash_respects := fun equal => by rw [keys.hash_respects equal]

theorem shifted_ne (keys : KeyFuncs K) {l k : K} (equal : keys.equalsTo l k = true) :
    (shifted keys).getHashCode l ≠ keys.getHashCode k := by
  intro same
  simp only [shifted, keys.hash_respects equal] at same
  have words := congrArg UInt32.toNat same
  simp only [UInt32.toNat_add, UInt32.reduceToNat] at words
  have bound := (keys.getHashCode k).toNat_lt
  omega

section
variable {keys : KeyFuncs K} {setting : Setting K} {s : HashSet K} {m : List K} {k x : K}

/-- In a table of shifted hash codes no old key is found, also after one more key is placed. -/
theorem find_shifted {d : Dict K Unit} {chains : Nat → List Nat} {free : List Nat}
    {entries : Nat → Option (K × Unit)} {i : Nat}
    (pending : Dict.Pending (shifted keys) d chains free entries i) (hash : UInt32)
    (apart : ¬ keys.equalsTo k x = true) : (d.place i hash k ()).find keys x = some (-1) := by
  have links := d.place_links i hash k ()
  have content := d.place_content i hash k ()
  have layout := Lib.Index.link_layout pending.layout pending.loose hash.toNat
  rw [← links] at layout
  have hb := layout.bucket_lt (keys.getHashCode x).toNat
  have searched := Lib.scan_eq (Dict.hit keys (d.place i hash k ()) (keys.getHashCode x) x)
    (layout.walks _ hb) (Nat.lt_succ_of_le (layout.chain_length hb))
  change Dict.find keys (d.place i hash k ()) x = _ at searched
  rw [searched, List.find?_eq_none.mpr]
  · rfl
  · intro j member hit
    obtain ⟨bound, notFree, -⟩ := layout.member _ hb j member
    simp only [Dict.hit, Bool.and_eq_true, beq_iff_eq] at hit
    by_cases same : j = i
    · subst same
      have key : ((d.place j hash k ()).content j).1 = some k := by rw [content, Function.update_self]
      rw [show ((d.place j hash k ()).items j).key = some k from key] at hit
      exact apart hit.2
    · rw [links] at bound
      obtain ⟨⟨l, v⟩, found⟩ := Option.isSome_iff_exists.mp
        ((pending.occupied j).mpr ⟨bound, notFree, same⟩)
      obtain ⟨stored, code⟩ := pending.stored found
      have key : ((d.place i hash k ()).content j).1 = some l := by
        rw [content, Function.update_of_ne same, stored]
      have old : ((d.place i hash k ()).nodes j).hashCode = (shifted keys).getHashCode l := by
        have := congrFun (congrArg Lib.Index.hashCode links) j
        simp only [Lib.Index.link, Function.update_of_ne same, code] at this
        exact UInt32.toNat_inj.mp this
      rw [show ((d.place i hash k ()).items j).key = some l from key, old] at hit
      exact shifted_ne keys hit.2 hit.1

/-- The nodes of a new block whose old content happens to be the hash codes plus one. -/
def shiftedNodes (s : HashSet K) (i : Nat) : Node K := ⟨(s.nodes i).hashCode + 1, 0, none, 0⟩

theorem Represents.full_table (represents : Represents keys s m) (full : m.length = s.bucketsLen) :
    s.freeCount = 0 ∧ s.count = s.bucketsLen := by
  have growing := (represents.keeping_iff false).not.mpr (by simp [full])
  simp only [Keeping, Bool.false_eq_true, false_or, not_or, ne_eq, Decidable.not_not] at growing
  exact ⟨by omega, growing.2⟩

/-- Growing into such a block gives a table in order, for the shifted hash codes. -/
theorem Represents.reserve_shifted (represents : Represents keys s m) (sizing : Sizing)
    (full : m.length = s.bucketsLen) :
    (∃ chains, Dict.Wired (shifted keys) (s.reserve sizing false s.shiftedNodes 0).toDict chains []
      s.toDict.entryAt) ∧
    (s.reserve sizing false s.shiftedNodes 0).count = s.count ∧
    s.count < (s.reserve sizing false s.shiftedNodes 0).bucketsLen := by
  obtain ⟨free, valid⟩ := Dict.Represents.valid represents
  obtain ⟨chains, wired⟩ := valid.wired
  obtain ⟨zero, growing⟩ := represents.full_table full
  have sized : 0 < s.bucketsLen := wired.layout.sized
  have larger : s.count < sizing.getPrime (s.count * 2) := sizing.grows (by omega)
  obtain rfl : free = [] := by
    rw [← List.length_eq_zero_iff, wired.layout.freeLength]
    exact zero
  have noFree : s.freeList < 0 := wired.layout.freeWalks
  -- The new block, before its links are made.
  generalize hmoved : moveNodes false s.shiftedNodes
    { s with bucketsLen := sizing.getPrime (s.count * 2), buckets := fun _ => -1 } = moved
  have count : moved.count = s.count := by rw [← hmoved]; rfl
  have size : moved.bucketsLen = sizing.getPrime (s.count * 2) := by rw [← hmoved]; rfl
  obtain ⟨chains', rebuilt⟩ : ∃ chains', Dict.Wired (shifted keys)
      (moved.toDict.rebuild moved.toDict.count) chains' [] s.toDict.entryAt := by
    apply Dict.rebuild_wired
    · rw [show moved.toDict.count = s.count from count, show moved.toDict.bucketsLen = _ from size]
      exact Nat.le_of_lt larger
    · rw [show moved.toDict.bucketsLen = _ from size]
      omega
    · intro b
      rw [← hmoved]
      rfl
    · rw [← hmoved]
      exact noFree
    · rw [← hmoved]
      exact zero
    · intro i l v found
      have bound : i < s.count := Dict.entryAt_lt found
      obtain ⟨stored, hash⟩ := wired.stored found
      have code : (s.nodes i).hashCode = keys.getHashCode l := UInt32.toNat_inj.mp hash
      rw [← hmoved]
      constructor
      · simpa [moveNodes, Dict.content, toDict, bound] using stored
      · simp [moveNodes, Dict.links, toDict, bound, shiftedNodes, shifted, code]
    · intro i
      rw [wired.occupied, show moved.toDict.count = s.count from count]
      simp [toDict]
  rw [← toDict_rebuild] at rebuilt
  have grown : s.reserve sizing false s.shiftedNodes 0 = moved.rebuild moved.count := by
    have needed : ¬ s.count * 2 ≤ s.bucketsLen := by omega
    simp only [reserve, ↓reduceIte, needed, hmoved, count]
  rw [show moved.toDict.count = moved.count from rfl, ← grown] at rebuilt
  have links := moved.toDict.rebuild_links moved.count
  rw [← toDict_rebuild, ← grown] at links
  refine ⟨⟨chains', rebuilt⟩, ?_, ?_⟩
  · have same := congrArg Lib.Index.count links
    rw [Lib.Index.relink_count] at same
    exact same.trans count
  · have same := congrArg Lib.Index.bucketsLen links
    rw [Lib.Index.relink_bucketsLen] at same
    exact Nat.lt_of_lt_of_eq larger (same.trans size).symm

theorem Represents.add_shifted (represents : Represents keys s m) (sizing : Sizing)
    (full : m.length = s.bucketsLen) (absent : member keys m k = false) (present : member keys m x = true) :
    ∃ s', s.add keys sizing false s.shiftedNodes k = some (true, s') ∧ s'.contains keys x = some false := by
  obtain ⟨⟨chains, wired⟩, count, room⟩ := represents.reserve_shifted sizing full
  obtain ⟨zero, growing⟩ := represents.full_table full
  generalize hgrown : s.reserve sizing false s.shiftedNodes 0 = grown at wired count room
  have noFree : ¬ 0 < grown.freeCount := by
    have length : 0 = grown.freeCount := wired.layout.freeLength
    omega
  have notFull : ¬ grown.count = grown.bucketsLen := by omega
  have slot : s.takeSlot sizing false s.shiftedNodes = (grown.count, { grown with count := grown.count + 1 }) := by
    simp only [takeSlot, zero, Nat.lt_irrefl, ↓reduceIte, growing, hgrown]
  obtain ⟨index, -, chains', pending⟩ := wired.slotTaken sizing true fun _ => ⟨none, none, 0⟩
  have same : grown.toDict.takeSlot sizing true (fun _ => ⟨none, none, 0⟩) =
      (grown.count, toDict { grown with count := grown.count + 1 }) := by
    rw [← toDict_takeSlot (.inl rfl) sizing s.shiftedNodes]
    simp only [takeSlot, noFree, ↓reduceIte, notFull]
  rw [← index, same] at pending
  have apart : ¬ keys.equalsTo k x = true := by
    intro equal
    obtain ⟨l, inside, other⟩ := List.any_eq_true.mp present
    have : member keys m k = true :=
      List.any_eq_true.mpr ⟨l, inside, keys.equals_trans other (keys.equals_symm equal)⟩
    rw [absent] at this
    cases this
  have scanned : scanBucket keys s k = some (-1) := by
    rcases represents.scan_cases k with ⟨scanned, -⟩ | ⟨i, l, -, -, -, there⟩
    · exact scanned
    · rw [absent] at there
      cases there
  have lost := find_shifted pending (keys.getHashCode k) apart
  refine ⟨_, by simp only [add, scanned, Option.bind_eq_bind, Option.bind_some, slot]; rfl, ?_⟩
  have final : ∀ s' : HashSet K, s'.toDict = Dict.place (toDict { grown with count := grown.count + 1 })
      grown.count (keys.getHashCode k) k () → s'.contains keys x = some false := by
    intro s' whole
    rw [← whole, toDict_scanBucket] at lost
    simp [contains, lost]
  apply final
  simp [Dict.place]
  rfl

/-- In a run of safe calls the table holds the finite set in every state, and a call meets its
specification whatever new memory holds exactly if it is safe too. -/
theorem run_meets_iff (run : Run setting (Safe setting) s m) : Holds setting s m ∧
    (∀ op, Safe setting s m op → Meets setting s m op) ∧
    ∀ k, (∀ alloc, Meets setting s m (.add k alloc)) ↔
      setting.isTrivial = true ∨ member setting.keys m k = true ∨ m.length ≠ s.bucketsLen := by
  have represents := run.represents
  have safe : ∀ op, Safe setting s m op → Meets setting s m op := by
    intro op safe
    obtain ⟨s', runs, represents'⟩ := represents.step_spec op safe
    exact ⟨s', runs, represents'.holds⟩
  refine ⟨represents.holds, safe, fun k => ⟨?_, fun condition alloc => safe (.add k alloc) condition⟩⟩
  intro meets
  apply Classical.byContradiction
  intro failing
  simp only [not_or, Bool.not_eq_true, ne_eq, Decidable.not_not] at failing
  obtain ⟨nontrivial, absent, full⟩ := failing
  -- A full table is not empty, so there is a key to lose.
  obtain ⟨x, inside⟩ : ∃ x, x ∈ m := by
    apply List.exists_mem_of_length_pos
    obtain ⟨free, valid⟩ := Dict.Represents.valid represents
    obtain ⟨chains, wired⟩ := valid.wired
    rw [full]
    exact wired.layout.sized
  have present : member setting.keys m x = true :=
    List.any_eq_true.mpr ⟨x, inside, setting.keys.equals_refl x⟩
  obtain ⟨s', runs, lost⟩ := represents.add_shifted setting.sizing full absent present
  obtain ⟨s'', result, holds⟩ := meets s.shiftedNodes
  simp only [step, nontrivial, runs, Option.bind_eq_bind, Option.bind_some, Option.pure_def,
    Option.some.injEq, Prod.mk.injEq] at result
  obtain ⟨-, rfl⟩ := result
  have kept : member setting.keys (setStep setting.keys m (.add k s.shiftedNodes)) x = true := by
    simp only [setStep, insert, absent, Bool.false_eq_true, ↓reduceIte]
    exact List.any_eq_true.mpr ⟨x, List.mem_cons_of_mem k inside, setting.keys.equals_refl x⟩
  have there := holds.contains x
  rw [lost, kept] at there
  cases there

end

/-- Sets of `Guid`, whose first table has three buckets. -/
def Setting.guid : Setting Guid where
  keys := .guid
  sizing := Dict.Setting.word.sizing
  isTrivial := false

theorem run_meets_iff_guid : ∃ s, Run Setting.guid (Safe Setting.guid) s [⟨5, 0, 0, 0⟩] ∧
    Holds Setting.guid s [⟨5, 0, 0, 0⟩] := by
  have created : Run Setting.guid (Safe Setting.guid) (create Setting.guid.sizing fun _ => ⟨0, 0, none, 0⟩) [] :=
    .create _
  have first := Run.step (.add ⟨5, 0, 0, 0⟩ fun _ => ⟨0, 0, none, 0⟩) created (.inr (.inr (by decide))) rfl
  exact ⟨_, first, (run_meets_iff first).1⟩

/-- Growing for the fourth key into memory full of zeros, a set loses the three keys it had. -/
theorem growth_loses_keys : ¬ ∀ s m, Run Setting.guid (fun _ _ _ => True) s m → Holds Setting.guid s m := by
  intro always
  have reached : ∃ s m, Run Setting.guid (fun _ _ _ => True) s m ∧
      member Setting.guid.keys m ⟨1, 0, 0, 0⟩ = true ∧ s.contains Setting.guid.keys ⟨1, 0, 0, 0⟩ = some false := by
    have created : Run Setting.guid (fun _ _ _ => True) (create Setting.guid.sizing fun _ => ⟨0, 0, none, 0⟩) [] :=
      .create _
    have first := Run.step (.add ⟨1, 0, 0, 0⟩ fun _ => ⟨0, 0, none, 0⟩) created trivial rfl
    have second := Run.step (.add ⟨2, 0, 0, 0⟩ fun _ => ⟨0, 0, none, 0⟩) first trivial rfl
    have third := Run.step (.add ⟨3, 0, 0, 0⟩ fun _ => ⟨0, 0, none, 0⟩) second trivial rfl
    have fourth := Run.step (.add ⟨4, 0, 0, 0⟩ fun _ => ⟨0, 0, none, 0⟩) third trivial rfl
    exact ⟨_, _, fourth, rfl, rfl⟩
  obtain ⟨s, m, run, present, lost⟩ := reached
  have there := (always s m run).contains ⟨1, 0, 0, 0⟩
  rw [lost, present] at there
  cases there

end Xxlib.Uv4.HashSet
