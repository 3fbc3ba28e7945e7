import Xxlib.Uv4.DictRefinement

/-! The map with several keys, `DictEx<V, KS...>` (`xx_dictex.h`).

The columns never tell each other where they put a record. They agree because they
take and free slots in the same order; a column that took part in an `Add` that was
undone later may be one slot ahead, and that slot is the last one it gives away.
-/

set_option autoImplicit false

namespace Xxlib.Uv4

/-- The value type of `DictType_t<keyIndex, V, KS...>`: column 0 has the values, the others an index. -/
def Stored (V : Type) : Nat → Type
  | 0 => V
  | _ + 1 => Int

/-- `dicts` from `numKeys` on do not exist. -/
structure DictEx (V : Type) (K : Nat → Type) where
  dicts : (k : Nat) → Dict (K k) (Stored V k)

namespace DictEx

variable {V : Type} {K : Nat → Type}

/-- What the columns are compiled with. `more` is the number of columns after the first two. -/
structure Setting (K : Nat → Type) where
  more : Nat
  keys : (k : Nat) → KeyFuncs (K k)
  sizing : Nat → Sizing
  isTrivial : Nat → Bool

def Setting.numKeys (setting : Setting K) : Nat := setting.more + 2

/-- `*DictAt<k>() = d` -/
def setDict (ex : DictEx V K) (k : Nat) (d : Dict (K k) (Stored V k)) : DictEx V K :=
  ⟨Function.update ex.dicts k d⟩

def create (setting : Setting K) (nodes : Nat → Nat → Dict.Node)
    (items : (k : Nat) → Nat → Dict.Data (K k) (Stored V k)) : DictEx V K :=
  ⟨fun k => Dict.create (setting.sizing k) (nodes k) (items k)⟩

/-- `DictForEach<keyIndex, V, KS...>::RemoveAt` -/
def forEachRemoveAt : Nat → Nat → DictEx V K → DictEx V K
  | 0, idx, ex => ex.setDict 0 ((ex.dicts 0).removeAt idx)
  | k + 1, idx, ex => forEachRemoveAt k idx (ex.setDict (k + 1) ((ex.dicts (k + 1)).removeAt idx))

/-- `DictAt<k>()->Add(keys[k], v, false)` -/
def addAt (setting : Setting K) (alloc : (k : Nat) → Nat → Dict.Data (K k) (Stored V k)) (k : Nat) (key : K k)
    (v : Stored V k) (ex : DictEx V K) : Option (DictAddResult × DictEx V K) := do
  let (r, d) ← (ex.dicts k).add (setting.keys k) (setting.sizing k) (setting.isTrivial k) (alloc k) key v false
  return (r, ex.setDict k d)

/-- `AddCore<j + 1>`, with `more` columns behind this one. -/
def addCore (setting : Setting K) (alloc : (k : Nat) → Nat → Dict.Data (K k) (Stored V k)) (index : Int)
    (keys : (k : Nat) → K k) : Nat → Nat → DictEx V K → Option (DictAddResult × DictEx V K)
  | 0, j, ex => do
      let (r, ex) ← addAt setting alloc (j + 1) (keys (j + 1)) index ex
      if r.success then return (r, ex)
      return (r, forEachRemoveAt j index.toNat ex)
  | more + 1, j, ex => do
      let (r, ex) ← addAt setting alloc (j + 1) (keys (j + 1)) index ex
      if r.success then addCore setting alloc index keys more (j + 1) ex
      else return (r, forEachRemoveAt j index.toNat ex)

/-- `Add`, which is `AddCore0`. -/
def add (setting : Setting K) (alloc : (k : Nat) → Nat → Dict.Data (K k) (Stored V k)) (value : V)
    (keys : (k : Nat) → K k) (ex : DictEx V K) : Option (DictAddResult × DictEx V K) := do
  let (r, ex) ← addAt setting alloc 0 (keys 0) value ex
  if r.success then addCore setting alloc r.index keys setting.more 0 ex
  else return (r, ex)

def find (setting : Setting K) (ex : DictEx V K) (k : Nat) (key : K k) : Option Int :=
  (ex.dicts k).find (setting.keys k) key

def keyAt (ex : DictEx V K) (k index : Nat) : Option (K k) := ((ex.dicts k).items index).key

def valueAt (ex : DictEx V K) (index : Nat) : Option V := (ex.dicts 0).valueAt index

def tryGetValue (setting : Setting K) (ex : DictEx V K) (k : Nat) (key : K k) : Option (Option V) := do
  let index ← ex.find setting k key
  if index = -1 then return none
  return ex.valueAt index.toNat

def removeAt (setting : Setting K) (ex : DictEx V K) (index : Nat) : DictEx V K :=
  forEachRemoveAt (setting.numKeys - 1) index ex

def remove (setting : Setting K) (ex : DictEx V K) (k : Nat) (key : K k) : Option (Bool × DictEx V K) := do
  let index ← ex.find setting k key
  if index = -1 then return (false, ex)
  return (true, ex.removeAt setting index.toNat)

/-- `Count()` -/
def getCount (ex : DictEx V K) : Nat := (ex.dicts 0).getCount

/-! ## Columns in step -/

/-- `free` and `count` are those of the leading columns, or one slot ahead of them. -/
def Ahead (free : List Nat) (count : Nat) (lead : List Nat) (base : Nat) : Prop :=
  (free = lead ∧ count = base) ∨ (free = lead ++ [base] ∧ count = base + 1)

section
variable {T W : Type} {keys : KeyFuncs T} {d d' : Dict T W} {lead : List Nat} {base i : Nat}

/-- A column that will hand out the slots `lead` and then those from `base` on. -/
def InStep (keys : KeyFuncs T) (d : Dict T W) (lead : List Nat) (base : Nat) : Prop :=
  ∃ free, Dict.Valid keys d free ∧ Ahead free d.count lead base

/-- The same column after it handed out the next slot. -/
def Advanced (keys : KeyFuncs T) (d : Dict T W) (lead : List Nat) (base : Nat) : Prop :=
  ∃ free, Dict.Valid keys d free ∧ Ahead (Dict.nextSlot lead base :: free) d.count lead base

theorem Ahead.nextSlot_eq {free : List Nat} {count : Nat} (ahead : Ahead free count lead base) :
    Dict.nextSlot free count = Dict.nextSlot lead base := by
  rcases ahead with ⟨rfl, rfl⟩ | ⟨rfl, rfl⟩
  · rfl
  · cases lead <;> rfl

theorem Advanced.inStep (advanced : Advanced keys d lead base) :
    InStep keys d lead.tail (if lead = [] then base + 1 else base) := by
  obtain ⟨free, valid, ahead⟩ := advanced
  refine ⟨free, valid, ?_⟩
  cases lead with
  | nil =>
    rcases ahead with ⟨empty, -⟩ | ⟨same, count⟩
    · cases empty
    · simp only [List.nil_append, List.cons.injEq] at same
      exact .inl ⟨same.2, count⟩
  | cons first rest =>
    rcases ahead with ⟨same, count⟩ | ⟨same, count⟩
    · simp only [List.cons.injEq] at same
      exact .inl ⟨same.2, count⟩
    · simp only [List.cons_append, List.cons.injEq] at same
      exact .inr ⟨same.2, count⟩

theorem InStep.added (inStep : InStep keys d lead base) {k : T} (absent : ¬ Dict.HasKey keys d.entryAt k)
    (sizing : Sizing) (isTrivial : Bool) (alloc : Nat → Dict.Data T W) (v : W) :
    ∃ d', d.add keys sizing isTrivial alloc k v false = some (⟨true, (Dict.nextSlot lead base : Int)⟩, d') ∧
      Advanced keys d' lead base ∧ d.entryAt (Dict.nextSlot lead base) = none ∧
      d'.entryAt = Function.update d.entryAt (Dict.nextSlot lead base) (some (k, v)) := by
  obtain ⟨free, valid, ahead⟩ := inStep
  obtain ⟨d', result, valid', vacant, entries, count⟩ :=
    valid.add_absent absent sizing isTrivial alloc v false
  rw [ahead.nextSlot_eq] at result vacant entries
  refine ⟨d', result, ⟨free.tail, valid', ?_⟩, vacant, entries⟩
  rw [count]
  rcases ahead with ⟨rfl, rfl⟩ | ⟨rfl, same⟩
  · cases free with
    | nil => exact .inr ⟨rfl, rfl⟩
    | cons first rest => exact .inl ⟨rfl, rfl⟩
  · cases lead with
    | nil => exact .inr ⟨rfl, same⟩
    | cons first rest => exact .inr ⟨rfl, same⟩

theorem InStep.removed (inStep : InStep keys d lead base) {e : T × W} (found : d.entryAt i = some e) :
    InStep keys (d.removeAt i) (i :: lead) base ∧
      (d.removeAt i).entryAt = Function.update d.entryAt i none := by
  obtain ⟨free, valid, ahead⟩ := inStep
  obtain ⟨valid', entries⟩ := valid.removed found
  have count : (d.removeAt i).count = d.count := congrArg Lib.Index.count (d.removeAt_links i)
  refine ⟨⟨i :: free, valid', ?_⟩, entries⟩
  rw [count]
  rcases ahead with ⟨rfl, rfl⟩ | ⟨rfl, same⟩
  · exact .inl ⟨rfl, rfl⟩
  · exact .inr ⟨rfl, same⟩

/-- Undoing the last addition brings a column back in step. -/
theorem Advanced.undone (advanced : Advanced keys d' lead base) {e : T × W}
    (vacant : d.entryAt (Dict.nextSlot lead base) = none)
    (entries : d'.entryAt = Function.update d.entryAt (Dict.nextSlot lead base) (some e)) :
    InStep keys (d'.removeAt (Dict.nextSlot lead base)) lead base ∧
      (d'.removeAt (Dict.nextSlot lead base)).entryAt = d.entryAt := by
  obtain ⟨free, valid, ahead⟩ := advanced
  have found : d'.entryAt (Dict.nextSlot lead base) = some e := by rw [entries, Function.update_self]
  obtain ⟨valid', removed⟩ := valid.removed found
  have count : (d'.removeAt (Dict.nextSlot lead base)).count = d'.count :=
    congrArg Lib.Index.count (d'.removeAt_links _)
  refine ⟨⟨_, valid', by rw [count]; exact ahead⟩, ?_⟩
  rw [removed, entries, Function.update_idem, ← vacant, Function.update_eq_self]

end

/-! ## Adding a record -/

/-- What column `k` stores beside the key of a record at `index`. -/
def stored (value : V) (index : Nat) : (k : Nat) → Stored V k
  | 0 => value
  | _ + 1 => (index : Int)

section
variable {setting : Setting K} {ex start : DictEx V K} {lead : List Nat} {base : Nat}

@[simp] theorem setDict_same (ex : DictEx V K) (k : Nat) (d : Dict (K k) (Stored V k)) :
    (ex.setDict k d).dicts k = d := Function.update_self ..

theorem setDict_other (ex : DictEx V K) {k j : Nat} (d : Dict (K k) (Stored V k)) (other : j ≠ k) :
    (ex.setDict k d).dicts j = ex.dicts j := Function.update_of_ne other ..

/-- The loop over the columns frees the slot in each column up to `k`, and in no other. -/
theorem forEachRemoveAt_dicts (k idx : Nat) (ex : DictEx V K) (j : Nat) :
    (forEachRemoveAt k idx ex).dicts j = if j ≤ k then (ex.dicts j).removeAt idx else ex.dicts j := by
  induction k generalizing ex with
  | zero =>
    by_cases first : j = 0
    · subst first
      simp [forEachRemoveAt]
    · rw [if_neg (by omega), forEachRemoveAt, setDict_other _ _ first]
  | succ k ih =>
    rw [forEachRemoveAt, ih]
    by_cases last : j = k + 1
    · subst last
      rw [if_neg (by omega), if_pos (Nat.le_refl _), setDict_same]
    · rw [setDict_other _ _ last]
      congr 1
      simp only [eq_iff_iff]
      omega

/-- Every column, up to the last one, is ready for the same slot. -/
def Together (setting : Setting K) (ex : DictEx V K) (lead : List Nat) (base : Nat) : Prop :=
  ∀ k < setting.numKeys, InStep (setting.keys k) (ex.dicts k) lead base

/-- The keys of a new record are unused in the columns before `k`. -/
def Unused (setting : Setting K) (ex : DictEx V K) (keys : (k : Nat) → K k) (k : Nat) : Prop :=
  ∀ j < k, ¬ Dict.HasKey (setting.keys j) (ex.dicts j).entryAt (keys j)

/-- In the middle of an `Add` that began at `start`: the columns before `k` have the record. -/
structure Entered (setting : Setting K) (start ex : DictEx V K) (lead : List Nat) (base : Nat)
    (keys : (k : Nat) → K k) (value : V) (k : Nat) : Prop where
  advanced : ∀ j < k, Advanced (setting.keys j) (ex.dicts j) lead base
  vacant : ∀ j < k, (start.dicts j).entryAt (Dict.nextSlot lead base) = none
  entries : ∀ j < k, (ex.dicts j).entryAt = Function.update (start.dicts j).entryAt
    (Dict.nextSlot lead base) (some (keys j, stored value (Dict.nextSlot lead base) j))
  rest : ∀ j, k ≤ j → ex.dicts j = start.dicts j

/-- Nothing that was stored has changed, and the columns are ready for the slot they were ready for. -/
structure Restored (setting : Setting K) (start ex : DictEx V K) (lead : List Nat) (base : Nat) : Prop where
  together : Together setting ex lead base
  entries : ∀ k < setting.numKeys, (ex.dicts k).entryAt = (start.dicts k).entryAt

variable {keys : (k : Nat) → K k} {value : V} {k : Nat}

theorem Entered.next (together : Together setting start lead base)
    (entered : Entered setting start ex lead base keys value k) (column : k < setting.numKeys)
    (absent : ¬ Dict.HasKey (setting.keys k) (start.dicts k).entryAt (keys k))
    (alloc : (k : Nat) → Nat → Dict.Data (K k) (Stored V k)) :
    ∃ ex', addAt setting alloc k (keys k) (stored value (Dict.nextSlot lead base) k) ex =
        some (⟨true, (Dict.nextSlot lead base : Int)⟩, ex') ∧
      Entered setting start ex' lead base keys value (k + 1) := by
  -- the dictionaries behind the column are still those of the start
  have same := entered.rest k (Nat.le_refl k)
  obtain ⟨d, result, advanced, vacant, entries⟩ := (together k column).added absent (setting.sizing k)
    (setting.isTrivial k) (alloc k) (stored value (Dict.nextSlot lead base) k)
  refine ⟨ex.setDict k d, by simp [addAt, same, result], ?_, ?_, ?_, ?_⟩
  · intro j bound
    rcases Nat.lt_succ_iff_lt_or_eq.mp bound with before | rfl
    · rw [setDict_other _ _ (Nat.ne_of_lt before)]
      exact entered.advanced j before
    · rw [setDict_same]
      exact advanced
  · intro j bound
    rcases Nat.lt_succ_iff_lt_or_eq.mp bound with before | rfl
    · exact entered.vacant j before
    · exact vacant
  · intro j bound
    rcases Nat.lt_succ_iff_lt_or_eq.mp bound with before | rfl
    · rw [setDict_other _ _ (Nat.ne_of_lt before)]
      exact entered.entries j before
    · rw [setDict_same]
      exact entries
  · intro j bound
    rw [setDict_other _ _ (Nat.ne_of_gt bound)]
    exact entered.rest j (Nat.le_of_succ_le bound)

/-- A column that has the key answers with the index it has it at. -/
theorem Entered.refused (together : Together setting start lead base)
    (entered : Entered setting start ex lead base keys value k) (column : k < setting.numKeys)
    (present : Dict.HasKey (setting.keys k) (start.dicts k).entryAt (keys k))
    (alloc : (k : Nat) → Nat → Dict.Data (K k) (Stored V k)) (v : Stored V k) :
    ∃ i : Nat, addAt setting alloc k (keys k) v ex = some (⟨false, i⟩, ex) := by
  obtain ⟨free, valid, -⟩ := together k column
  rcases valid.find_cases (keys k) with ⟨-, absent⟩ | ⟨i, l, w, result, -⟩
  · exact absurd present absent
  · rw [← entered.rest k (Nat.le_refl k)] at result
    refine ⟨i, ?_⟩
    have refused := Dict.add_found result (setting.sizing k) (setting.isTrivial k) (alloc k) v false
    have unchanged : ex.setDict k (ex.dicts k) = ex := by simp [setDict]
    simp [addAt, refused, unchanged]

theorem Entered.undone (together : Together setting start lead base)
    (entered : Entered setting start ex lead base keys value (k + 1)) :
    Restored setting start (forEachRemoveAt k (Dict.nextSlot lead base) ex) lead base := by
  constructor
  · intro j column
    rw [forEachRemoveAt_dicts]
    split
    · next before =>
      have bound := Nat.lt_succ_of_le before
      exact ((entered.advanced j bound).undone (entered.vacant j bound) (entered.entries j bound)).1
    · rw [entered.rest j (by omega)]
      exact together j column
  · intro j column
    rw [forEachRemoveAt_dicts]
    split
    · next before =>
      have bound := Nat.lt_succ_of_le before
      exact ((entered.advanced j bound).undone (entered.vacant j bound) (entered.entries j bound)).2
    · rw [entered.rest j (by omega)]

/-- A key that is there ends the loop, with everything undone. -/
theorem Entered.addCore_refused {j : Nat} (together : Together setting start lead base)
    (entered : Entered setting start ex lead base keys value (j + 1)) (column : j + 1 < setting.numKeys)
    (present : Dict.HasKey (setting.keys (j + 1)) (start.dicts (j + 1)).entryAt (keys (j + 1)))
    (alloc : (k : Nat) → Nat → Dict.Data (K k) (Stored V k)) (more : Nat) :
    ∃ i ex', addCore setting alloc (Dict.nextSlot lead base : Int) keys more j ex = some (⟨false, i⟩, ex') ∧
      Restored setting start ex' lead base := by
  obtain ⟨i, result⟩ := entered.refused together column present alloc (Dict.nextSlot lead base : Int)
  refine ⟨i, _, ?_, entered.undone together⟩
  cases more <;> simp [addCore, result]

/-- `AddCore` either enters the record in all columns or leaves things as `Add` found them. -/
theorem addCore_spec (together : Together setting start lead base) (more j : Nat)
    (columns : j + more + 2 = setting.numKeys)
    (entered : Entered setting start ex lead base keys value (j + 1))
    (alloc : (k : Nat) → Nat → Dict.Data (K k) (Stored V k)) :
    (∃ ex', addCore setting alloc (Dict.nextSlot lead base : Int) keys more j ex =
        some (⟨true, (Dict.nextSlot lead base : Int)⟩, ex') ∧
      (∀ k, j + 1 ≤ k → k < setting.numKeys →
        ¬ Dict.HasKey (setting.keys k) (start.dicts k).entryAt (keys k)) ∧
      Entered setting start ex' lead base keys value setting.numKeys) ∨
    ∃ i ex', addCore setting alloc (Dict.nextSlot lead base : Int) keys more j ex = some (⟨false, i⟩, ex') ∧
      (∃ k < setting.numKeys, Dict.HasKey (setting.keys k) (start.dicts k).entryAt (keys k)) ∧
      Restored setting start ex' lead base := by
  -- the columns up to `j` have the new keys; the induction is on those that are still to come
  induction more generalizing j ex with
  | zero =>
    have column : j + 1 < setting.numKeys := by omega
    by_cases present : Dict.HasKey (setting.keys (j + 1)) (start.dicts (j + 1)).entryAt (keys (j + 1))
    · obtain ⟨i, ex', result, undone⟩ := entered.addCore_refused together column present alloc _
      exact .inr ⟨i, ex', result, ⟨j + 1, column, present⟩, undone⟩
    · obtain ⟨ex', result, entered'⟩ := entered.next together column present alloc
      simp only [stored] at result
      refine .inl ⟨ex', by simp [addCore, result], ?_, ?_⟩
      · intro k after before
        obtain rfl : k = j + 1 := by omega
        exact present
      · rw [← columns]
        exact entered'
  | succ more ih =>
    have column : j + 1 < setting.numKeys := by omega
    by_cases present : Dict.HasKey (setting.keys (j + 1)) (start.dicts (j + 1)).entryAt (keys (j + 1))
    · obtain ⟨i, ex', result, undone⟩ := entered.addCore_refused together column present alloc _
      exact .inr ⟨i, ex', result, ⟨j + 1, column, present⟩, undone⟩
    · obtain ⟨ex', result, entered'⟩ := entered.next together column present alloc
      simp only [stored] at result
      have unfolds : addCore setting alloc (Dict.nextSlot lead base : Int) keys (more + 1) j ex =
          addCore setting alloc (Dict.nextSlot lead base : Int) keys more (j + 1) ex' := by
        simp [addCore, result]
      rw [unfolds]
      rcases ih (j + 1) (by omega) entered' with ⟨ex'', added, absent, whole⟩ | failed
      · refine .inl ⟨ex'', added, ?_, whole⟩
        intro k after before
        rcases Nat.eq_or_lt_of_le after with rfl | later
        · exact present
        · exact absent k later before
      · exact .inr failed

theorem add_spec (together : Together setting start lead base)
    (alloc : (k : Nat) → Nat → Dict.Data (K k) (Stored V k)) (value : V) (keys : (k : Nat) → K k) :
    (∃ ex', add setting alloc value keys start = some (⟨true, (Dict.nextSlot lead base : Int)⟩, ex') ∧
      Unused setting start keys setting.numKeys ∧
      Entered setting start ex' lead base keys value setting.numKeys) ∨
    ∃ i ex', add setting alloc value keys start = some (⟨false, i⟩, ex') ∧
      ¬ Unused setting start keys setting.numKeys ∧ Restored setting start ex' lead base := by
  have nothing : Entered setting start start lead base keys value 0 :=
    ⟨by simp, by simp, by simp, fun _ _ => rfl⟩
  have column : 0 < setting.numKeys := Nat.succ_pos _
  by_cases present : Dict.HasKey (setting.keys 0) (start.dicts 0).entryAt (keys 0)
  · obtain ⟨i, result⟩ := nothing.refused together column present alloc value
    exact .inr ⟨i, start, by simp [add, result], fun unused => unused 0 column present,
      together, fun _ _ => rfl⟩
  · obtain ⟨ex', result, entered⟩ := nothing.next together column present alloc
    simp only [stored] at result
    have unfolds : add setting alloc value keys start =
        addCore setting alloc (Dict.nextSlot lead base : Int) keys setting.more 0 ex' := by
      simp [add, result]
    rw [unfolds]
    rcases addCore_spec together setting.more 0 (by simp [Setting.numKeys]) entered alloc with
      ⟨ex'', added, absent, whole⟩ | ⟨i, ex'', failed, ⟨k, before, taken⟩, restored⟩
    · refine .inl ⟨ex'', added, ?_, whole⟩
      intro k before
      cases k with
      | zero => exact present
      | succ k => exact absent (k + 1) (by omega) before
    · exact .inr ⟨i, ex'', failed, fun unused => unused k before taken, restored⟩

end

/-! ## Runs -/

structure Record (V : Type) (K : Nat → Type) where
  keys : (k : Nat) → K k
  value : V

/-- The records without those whose key in column `k` is `key`. -/
def erase (setting : Setting K) (records : Nat → Option (Record V K)) (k : Nat) (key : K k) (i : Nat) :
    Option (Record V K) :=
  (records i).filter fun r => !(setting.keys k).equalsTo (r.keys k) key

/-- The states a fresh table gets into, with the records by the index `Add` answered with. -/
inductive Reachable (setting : Setting K) : DictEx V K → (Nat → Option (Record V K)) → Prop where
  | create (nodes : Nat → Nat → Dict.Node) (items : (k : Nat) → Nat → Dict.Data (K k) (Stored V k)) :
      Reachable setting (create setting nodes items) fun _ => none
  | add {ex ex' : DictEx V K} {records : Nat → Option (Record V K)} {r : DictAddResult}
      (alloc : (k : Nat) → Nat → Dict.Data (K k) (Stored V k)) (value : V) (keys : (k : Nat) → K k)
      (before : Reachable setting ex records) (runs : add setting alloc value keys ex = some (r, ex')) :
      Reachable setting ex'
        (if r.success then Function.update records r.index.toNat (some ⟨keys, value⟩) else records)
  | remove {ex ex' : DictEx V K} {records : Nat → Option (Record V K)} {ok : Bool} (k : Nat) (key : K k)
      (before : Reachable setting ex records) (column : k < setting.numKeys)
      (runs : remove setting ex k key = some (ok, ex')) : Reachable setting ex' (erase setting records k key)
  | removeAt {ex : DictEx V K} {records : Nat → Option (Record V K)} (index : Nat)
      (before : Reachable setting ex records) (live : (ex.dicts 0).Live index) :
      Reachable setting (removeAt setting ex index) (Function.update records index none)

/-- Column `k` holds the `k`-th key of each record at the index of the record. -/
def image (records : Nat → Option (Record V K)) (k i : Nat) : Option (K k × Stored V k) :=
  (records i).map fun r => (r.keys k, stored r.value i k)

structure Agrees (setting : Setting K) (ex : DictEx V K) (records : Nat → Option (Record V K)) : Prop where
  together : ∃ lead base, Together setting ex lead base
  entries : ∀ k < setting.numKeys, (ex.dicts k).entryAt = image records k

section
variable {setting : Setting K} {ex ex' : DictEx V K} {records : Nat → Option (Record V K)} {k i : Nat}

theorem image_update (records : Nat → Option (Record V K)) (k i : Nat) (r : Option (Record V K)) :
    image (Function.update records i r) k =
      Function.update (image records k) i (r.map fun r => (r.keys k, stored r.value i k)) := by
  funext j
  by_cases same : j = i
  · subst same
    simp [image]
  · simp [image, same]

theorem Agrees.valid (agrees : Agrees setting ex records) (column : k < setting.numKeys) :
    ∃ free, Dict.Valid (setting.keys k) (ex.dicts k) free := by
  obtain ⟨lead, base, together⟩ := agrees.together
  obtain ⟨free, valid, -⟩ := together k column
  exact ⟨free, valid⟩

theorem Agrees.entry (agrees : Agrees setting ex records) (column : k < setting.numKeys) {r : Record V K}
    (found : records i = some r) : (ex.dicts k).entryAt i = some (r.keys k, stored r.value i k) := by
  rw [agrees.entries k column]
  simp [image, found]

/-- A column has a key exactly if a record has it. -/
theorem Agrees.hasKey_iff (agrees : Agrees setting ex records) (column : k < setting.numKeys) (key : K k) :
    Dict.HasKey (setting.keys k) (ex.dicts k).entryAt key ↔
      ∃ i r, records i = some r ∧ (setting.keys k).equalsTo (r.keys k) key = true := by
  constructor
  · rintro ⟨i, l, v, found, equal⟩
    rw [agrees.entries k column] at found
    obtain ⟨r, present, same⟩ := Option.map_eq_some_iff.mp found
    cases same
    exact ⟨i, r, present, equal⟩
  · rintro ⟨i, r, present, equal⟩
    exact ⟨i, _, _, agrees.entry column present, equal⟩

theorem Agrees.find_record (agrees : Agrees setting ex records) (column : k < setting.numKeys)
    {r : Record V K} (found : records i = some r) {key : K k}
    (equal : (setting.keys k).equalsTo (r.keys k) key = true) : ex.find setting k key = some (i : Int) := by
  obtain ⟨free, valid⟩ := agrees.valid column
  obtain ⟨chains, wired⟩ := valid.wired
  exact wired.find_present valid.distinct (agrees.entry column found) equal

theorem Agrees.find_nothing (agrees : Agrees setting ex records) (column : k < setting.numKeys) {key : K k}
    (absent : ¬ ∃ i r, records i = some r ∧ (setting.keys k).equalsTo (r.keys k) key = true) :
    ex.find setting k key = some (-1) := by
  obtain ⟨free, valid⟩ := agrees.valid column
  obtain ⟨chains, wired⟩ := valid.wired
  rw [← agrees.hasKey_iff column] at absent
  exact wired.find_absent absent

theorem Agrees.value (agrees : Agrees setting ex records) {r : Record V K} (found : records i = some r) :
    ex.valueAt i = some r.value := by
  obtain ⟨free, valid⟩ := agrees.valid (Nat.succ_pos _)
  exact valid.value_eq (agrees.entry (Nat.succ_pos _) found)

theorem Agrees.key (agrees : Agrees setting ex records) (column : k < setting.numKeys) {r : Record V K}
    (found : records i = some r) : ex.keyAt k i = some (r.keys k) := by
  obtain ⟨free, valid⟩ := agrees.valid column
  obtain ⟨chains, wired⟩ := valid.wired
  exact congrArg Prod.fst (wired.stored (agrees.entry column found)).1

theorem Agrees.live_iff (agrees : Agrees setting ex records) (column : k < setting.numKeys) (i : Nat) :
    (ex.dicts k).Live i ↔ (records i).isSome := by
  obtain ⟨free, valid⟩ := agrees.valid column
  rw [valid.live_iff, agrees.entries k column]
  simp [image]

theorem Agrees.removed (agrees : Agrees setting ex records) {r : Record V K} (found : records i = some r) :
    Agrees setting (ex.removeAt setting i) (Function.update records i none) := by
  obtain ⟨lead, base, together⟩ := agrees.together
  have column : ∀ k < setting.numKeys, (ex.removeAt setting i).dicts k = (ex.dicts k).removeAt i := by
    intro k bound
    rw [removeAt, forEachRemoveAt_dicts, if_pos (by omega)]
  constructor
  · refine ⟨i :: lead, base, fun k bound => ?_⟩
    rw [column k bound]
    exact ((together k bound).removed (agrees.entry bound found)).1
  · intro k bound
    rw [column k bound, ((together k bound).removed (agrees.entry bound found)).2, image_update,
      agrees.entries k bound]
    rfl

/-- Keys differ within a column, so at most one record is erased. -/
theorem Agrees.erase_eq (agrees : Agrees setting ex records) (column : k < setting.numKeys) {r : Record V K}
    (found : records i = some r) {key : K k} (equal : (setting.keys k).equalsTo (r.keys k) key = true) :
    erase setting records k key = Function.update records i none := by
  obtain ⟨free, valid⟩ := agrees.valid column
  funext j
  unfold erase
  by_cases same : j = i
  · subst same
    simp [found, equal]
  · rw [Function.update_of_ne same]
    cases other : records j with
    | none => rfl
    | some s =>
      have apart : ¬ (setting.keys k).equalsTo (s.keys k) key = true := fun equal' =>
        same (valid.distinct (agrees.entry column other) (agrees.entry column found)
          ((setting.keys k).equals_trans equal' ((setting.keys k).equals_symm equal)))
      simp [apart]

theorem erase_absent {key : K k}
    (absent : ¬ ∃ i r, records i = some r ∧ (setting.keys k).equalsTo (r.keys k) key = true) :
    erase setting records k key = records := by
  funext j
  unfold erase
  cases other : records j with
  | none => rfl
  | some s =>
    have apart : ¬ (setting.keys k).equalsTo (s.keys k) key = true := fun equal => absent ⟨j, s, other, equal⟩
    simp [apart]

/-- What `Remove<k>` does. -/
theorem Agrees.remove_cases (agrees : Agrees setting ex records) (column : k < setting.numKeys) (key : K k) :
    (∃ i r, records i = some r ∧ (setting.keys k).equalsTo (r.keys k) key = true ∧
      remove setting ex k key = some (true, ex.removeAt setting i)) ∨
    (¬ ∃ i r, records i = some r ∧ (setting.keys k).equalsTo (r.keys k) key = true) ∧
      remove setting ex k key = some (false, ex) := by
  by_cases present : ∃ i r, records i = some r ∧ (setting.keys k).equalsTo (r.keys k) key = true
  · obtain ⟨i, r, found, equal⟩ := present
    have inside : ¬ (i : Int) = -1 := by omega
    exact .inl ⟨i, r, found, equal, by simp [remove, agrees.find_record column found equal, inside]⟩
  · exact .inr ⟨present, by simp [remove, agrees.find_nothing column present]⟩

theorem Agrees.entered (agrees : Agrees setting ex records) {lead : List Nat} {base : Nat}
    {keys : (k : Nat) → K k} {value : V}
    (entered : Entered setting ex ex' lead base keys value setting.numKeys) :
    Agrees setting ex' (Function.update records (Dict.nextSlot lead base) (some ⟨keys, value⟩)) := by
  constructor
  · exact ⟨_, _, fun k bound => (entered.advanced k bound).inStep⟩
  · intro k bound
    rw [entered.entries k bound, image_update, agrees.entries k bound]
    rfl

theorem Agrees.restored (agrees : Agrees setting ex records) {lead : List Nat} {base : Nat}
    (restored : Restored setting ex ex' lead base) : Agrees setting ex' records := by
  constructor
  · exact ⟨lead, base, restored.together⟩
  · intro k bound
    rw [restored.entries k bound, agrees.entries k bound]

theorem Reachable.agrees (reachable : Reachable setting ex records) : Agrees setting ex records := by
  induction reachable with
  | create nodes items =>
    have fresh : ∀ k, Dict.Valid (setting.keys k) ((DictEx.create setting nodes items).dicts k) [] :=
      fun k => Dict.create_valid (setting.sizing k) (nodes k) (items k)
    constructor
    · exact ⟨[], 0, fun k _ => ⟨[], fresh k, .inl ⟨rfl, rfl⟩⟩⟩
    · intro k _
      have wired : Dict.Wired (setting.keys k) ((DictEx.create setting nodes items).dicts k) _ _ _ :=
        Dict.create_wired (setting.sizing k) (nodes k) (items k)
      exact wired.entryAt_eq
  | add alloc value keys before runs ih =>
    obtain ⟨lead, base, together⟩ := ih.together
    rcases add_spec together alloc value keys with ⟨ex', result, -, entered⟩ | ⟨i, ex', result, -, restored⟩
    · rw [result] at runs
      cases runs
      exact ih.entered entered
    · rw [result] at runs
      cases runs
      exact ih.restored restored
  | remove k key before column runs ih =>
    rcases ih.remove_cases column key with ⟨i, r, found, equal, result⟩ | ⟨absent, result⟩
    · rw [result] at runs
      cases runs
      rw [ih.erase_eq column found equal]
      exact ih.removed found
    · rw [result] at runs
      cases runs
      rw [erase_absent absent]
      exact ih
  | removeAt index before live ih =>
    obtain ⟨r, found⟩ := Option.isSome_iff_exists.mp ((ih.live_iff (Nat.succ_pos _) index).mp live)
    exact ih.removed found

/-- Every question has the same answer in both states. -/
structure SameAnswers (setting : Setting K) (ex ex' : DictEx V K) : Prop where
  find : ∀ k < setting.numKeys, ∀ key, ex'.find setting k key = ex.find setting k key
  tryGetValue : ∀ k < setting.numKeys, ∀ key, ex'.tryGetValue setting k key = ex.tryGetValue setting k key
  live : ∀ k < setting.numKeys, ∀ i, (ex'.dicts k).Live i ↔ (ex.dicts k).Live i
  valueAt : ∀ i, (ex.dicts 0).Live i → ex'.valueAt i = ex.valueAt i
  count : ex'.getCount = ex.getCount

theorem Agrees.find_eq (agrees : Agrees setting ex records) (agrees' : Agrees setting ex' records)
    (column : k < setting.numKeys) (key : K k) : ex'.find setting k key = ex.find setting k key := by
  by_cases present : ∃ i r, records i = some r ∧ (setting.keys k).equalsTo (r.keys k) key = true
  · obtain ⟨i, r, found, equal⟩ := present
    rw [agrees.find_record column found equal, agrees'.find_record column found equal]
  · rw [agrees.find_nothing column present, agrees'.find_nothing column present]

theorem Agrees.tryGetValue_record (agrees : Agrees setting ex records) (column : k < setting.numKeys)
    {r : Record V K} (found : records i = some r) {key : K k}
    (equal : (setting.keys k).equalsTo (r.keys k) key = true) :
    ex.tryGetValue setting k key = some (some r.value) := by
  have inside : ¬ (i : Int) = -1 := by omega
  simp [tryGetValue, agrees.find_record column found equal, inside, agrees.value found]

theorem Agrees.tryGetValue_nothing (agrees : Agrees setting ex records) (column : k < setting.numKeys)
    {key : K k} (absent : ¬ ∃ i r, records i = some r ∧ (setting.keys k).equalsTo (r.keys k) key = true) :
    ex.tryGetValue setting k key = some none := by
  simp [tryGetValue, agrees.find_nothing column absent]

/-- `Count()` is the number of live slots, whatever a column is ahead by. -/
theorem Agrees.getCount_eq (agrees : Agrees setting ex records) (agrees' : Agrees setting ex' records) :
    ex'.getCount = ex.getCount := by
  obtain ⟨free, valid⟩ := agrees.valid (k := 0) (Nat.succ_pos _)
  obtain ⟨free', valid'⟩ := agrees'.valid (k := 0) (Nat.succ_pos _)
  have same : (ex'.dicts 0).entryAt = (ex.dicts 0).entryAt := by
    rw [agrees.entries 0 (Nat.succ_pos _), agrees'.entries 0 (Nat.succ_pos _)]
  have maps : (ex'.dicts 0).toMap = (ex.dicts 0).toMap := by
    rcases Nat.le_total (ex.dicts 0).count (ex'.dicts 0).count with more | less
    · rw [← Dict.toMap_of_le more, ← same]
      rfl
    · rw [← Dict.toMap_of_le less, same]
      rfl
  unfold getCount
  rw [valid.getCount_toMap, valid'.getCount_toMap, maps]

theorem Agrees.sameAnswers (agrees : Agrees setting ex records) (agrees' : Agrees setting ex' records) :
    SameAnswers setting ex ex' := by
  constructor
  · intro k column key
    exact agrees.find_eq agrees' column key
  · intro k column key
    by_cases present : ∃ i r, records i = some r ∧ (setting.keys k).equalsTo (r.keys k) key = true
    · obtain ⟨i, r, found, equal⟩ := present
      rw [agrees.tryGetValue_record column found equal, agrees'.tryGetValue_record column found equal]
    · rw [agrees.tryGetValue_nothing column present, agrees'.tryGetValue_nothing column present]
  · intro k column i
    rw [agrees.live_iff column, agrees'.live_iff column]
  · intro i live
    obtain ⟨r, found⟩ := Option.isSome_iff_exists.mp ((agrees.live_iff (Nat.succ_pos _) i).mp live)
    rw [agrees.value found, agrees'.value found]
  · exact agrees.getCount_eq agrees'

/-- In every reachable state all columns have the records at the same indices, every key of a record
leads to its value, and an `Add` that is refused by some column changes no answer. -/
theorem reachable_columns_agree (reachable : Reachable setting ex records) :
    (∀ k < setting.numKeys, ∀ i, (ex.dicts k).Live i ↔ (records i).isSome) ∧
    (∀ i r, records i = some r → ex.valueAt i = some r.value ∧ ∀ k < setting.numKeys,
      ex.keyAt k i = some (r.keys k) ∧ ∀ key, (setting.keys k).equalsTo (r.keys k) key = true →
        ex.find setting k key = some (i : Int) ∧ ex.tryGetValue setting k key = some (some r.value)) ∧
    (∀ k < setting.numKeys, ∀ key,
      (¬ ∃ i r, records i = some r ∧ (setting.keys k).equalsTo (r.keys k) key = true) →
        ex.find setting k key = some (-1) ∧ ex.tryGetValue setting k key = some none) ∧
    (∀ k < setting.numKeys, ∀ key, ∃ ok ex', remove setting ex k key = some (ok, ex')) ∧
    ∀ alloc value keys, ∃ r ex', add setting alloc value keys ex = some (r, ex') ∧
      (r.success = true ↔ ∀ k < setting.numKeys,
        ¬ ∃ i r, records i = some r ∧ (setting.keys k).equalsTo (r.keys k) (keys k) = true) ∧
      (r.success = false → SameAnswers setting ex ex') := by
  have agrees := reachable.agrees
  refine ⟨fun k column => agrees.live_iff column, ?_, ?_, ?_, ?_⟩
  · intro i r found
    refine ⟨agrees.value found, fun k column => ⟨agrees.key column found, fun key equal => ?_⟩⟩
    exact ⟨agrees.find_record column found equal, agrees.tryGetValue_record column found equal⟩
  · intro k column key absent
    exact ⟨agrees.find_nothing column absent, agrees.tryGetValue_nothing column absent⟩
  · intro k column key
    rcases agrees.remove_cases column key with ⟨i, r, -, -, result⟩ | ⟨-, result⟩
    · exact ⟨true, _, result⟩
    · exact ⟨false, _, result⟩
  · intro alloc value keys
    have unused_iff : Unused setting ex keys setting.numKeys ↔ ∀ k < setting.numKeys,
        ¬ ∃ i r, records i = some r ∧ (setting.keys k).equalsTo (r.keys k) (keys k) = true := by
      unfold Unused
      exact forall₂_congr fun k column => not_congr (agrees.hasKey_iff column (keys k))
    obtain ⟨lead, base, together⟩ := agrees.together
    rcases add_spec together alloc value keys with ⟨ex', result, unused, -⟩ | ⟨i, ex', result, used, restored⟩
    · exact ⟨_, ex', result, by simpa using unused_iff.mp unused, by simp⟩
    · refine ⟨_, ex', result, ?_, fun _ => agrees.sameAnswers (agrees.restored restored)⟩
      rw [← unused_iff]
      simpa using used

end

/-- Two columns of words. -/
def Setting.words : Setting (fun _ => UInt32) where
  more := 0
  keys _ := .word
  sizing _ := Dict.Setting.word.sizing
  isTrivial _ := true

/-- The second record is refused by the second column, so that the first column is one slot ahead. -/
theorem reachable_columns_agree_refused : ∃ (ex : DictEx UInt32 fun _ => UInt32) (records : Nat → Option _),
    Reachable Setting.words ex records ∧ (ex.dicts 0).count = 2 ∧ (ex.dicts 1).count = 1 ∧
      ex.tryGetValue Setting.words 1 7 = some (some 50) := by
  have reached : ∃ (ex : DictEx UInt32 fun _ => UInt32) (records : Nat → Option _),
      Reachable Setting.words ex records ∧ (ex.dicts 0).count = 2 ∧ (ex.dicts 1).count = 1 ∧
        records 0 = some ⟨fun k => if k = 0 then 5 else 7, 50⟩ := by
    have created : Reachable Setting.words
        (create (V := UInt32) Setting.words (fun _ _ => ⟨0, 0⟩) fun _ _ => ⟨none, none, 0⟩) fun _ => none :=
      .create _ _
    have first := Reachable.add (fun _ _ => ⟨none, none, 0⟩) 50 (fun k => if k = 0 then 5 else 7) created rfl
    have second := Reachable.add (fun _ _ => ⟨none, none, 0⟩) 60 (fun k => if k = 0 then 6 else 7) first rfl
    exact ⟨_, _, second, rfl, rfl, rfl⟩
  obtain ⟨ex, records, reachable, ahead, behind, found⟩ := reached
  refine ⟨ex, records, reachable, ahead, behind, ?_⟩
  exact (((reachable_columns_agree reachable).2.1 0 _ found).2 1 (by decide)).2 7 rfl |>.2

end DictEx

end Xxlib.Uv4
