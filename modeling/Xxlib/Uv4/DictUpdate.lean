import Xxlib.Uv4.DictRefinement

/-! Replacing a key: `Dict::Update` and `Dict::UpdateAt`.

Only the branch that moves an entry to another bucket looks whether the new key is
taken. The last theorem says for which calls this matters.
-/

set_option autoImplicit false

namespace Xxlib.Uv4.Dict

open Lib (Index)

variable {K V : Type}

/-- `UpdateAt`, for an index that its assertion lets through. -/
def updateAt (keys : KeyFuncs K) (d : Dict K V) (idx : Nat) (newKey : K) : Option (Bool × Dict K V) := do
  let newHashCode := keys.getHashCode newKey
  if (d.nodes idx).hashCode = newHashCode then
    return (true, d.setKey idx (some newKey))
  let targetBucket := (d.nodes idx).hashCode.toNat % d.bucketsLen
  let newTargetBucket := newHashCode.toNat % d.bucketsLen
  if targetBucket = newTargetBucket then
    return (true, (d.setHashCode idx newHashCode).setKey idx (some newKey))
  let i ← scanBucket keys d newHashCode newKey
  if 0 ≤ i then return (false, d)
  let d := ((d.unlink idx targetBucket).setHashCode idx newHashCode).linkFront idx newTargetBucket
  return (true, (d.setKey idx (some newKey)).setPrev idx (-1))

def update (keys : KeyFuncs K) (d : Dict K V) (oldKey newKey : K) : Option (Bool × Dict K V) := do
  let idx ← find keys d oldKey
  if idx = -1 then return (false, d)
  updateAt keys d idx.toNat newKey

/-! ## The specification -/

/-- A slot other than `i` has the key `k`. -/
def Taken (keys : KeyFuncs K) (d : Dict K V) (i : Nat) (k : K) : Prop :=
  ∃ j l v, j ≠ i ∧ d.entryAt j = some (l, v) ∧ keys.equalsTo l k = true

/-- Slot `i`, which has the value `v`, now has the key `newKey`, and nothing else is different. -/
structure Rekeyed (keys : KeyFuncs K) (d d' : Dict K V) (i : Nat) (newKey : K) (v : V) : Prop where
  entries : d'.entryAt = Function.update d.entryAt i (some (newKey, v))
  wellFormed : WellFormed keys d'
  distinct : Distinct keys d'.entryAt
  found : ∀ j k w, d'.entryAt j = some (k, w) → find keys d' k = some (j : Int)

/-- What `Update(oldKey, newKey)`, and `UpdateAt` on the index of `oldKey`, are to do. -/
def UpdateSpec (keys : KeyFuncs K) (d : Dict K V) (oldKey newKey : K) : Prop :=
  (¬ HasKey keys d.entryAt oldKey → update keys d oldKey newKey = some (false, d)) ∧
  ∀ i l v, d.entryAt i = some (l, v) → keys.equalsTo l oldKey = true →
    ∃ ok d', update keys d oldKey newKey = some (ok, d') ∧ updateAt keys d i newKey = some (ok, d') ∧
      (Taken keys d i newKey → ok = false ∧ d' = d) ∧
      (¬ Taken keys d i newKey → ok = true ∧ Rekeyed keys d d' i newKey v)

/-- The new key is in use, in the very bucket that the old key is in. -/
def Clash (keys : KeyFuncs K) (d : Dict K V) (oldKey newKey : K) : Prop :=
  ∃ i l v, d.entryAt i = some (l, v) ∧ keys.equalsTo l oldKey = true ∧ Taken keys d i newKey ∧
    (keys.getHashCode newKey).toNat % d.bucketsLen = (keys.getHashCode oldKey).toNat % d.bucketsLen

/-! ## The three branches -/

section
variable {keys : KeyFuncs K} {d : Dict K V} {chains : Nat → List Nat} {free : List Nat}
  {entries : Nat → Option (K × V)} {i : Nat} {k l : K} {v : V}

theorem setValue_self (value : (d.items i).value = some v) : d.setValue i (some v) = d := by
  unfold setValue
  rw [← value, Function.update_eq_self]

theorem Wired.rekeyed_in_bucket (wired : Wired keys d chains free entries)
    (found : entries i = some (l, v))
    (bucket : (keys.getHashCode k).toNat % d.bucketsLen = (d.nodes i).hashCode.toNat % d.bucketsLen) :
    Wired keys ((d.setHashCode i (keys.getHashCode k)).setKey i (some k)) chains free
      (Function.update entries i (some (k, v))) := by
  have links : ((d.setHashCode i (keys.getHashCode k)).setKey i (some k)).links =
      { d.links with hashCode := Function.update d.links.hashCode i (keys.getHashCode k).toNat } := by
    rw [setKey_links, setHashCode_links]
  have layout := Index.rehash_layout wired.layout bucket
  have covered := Index.rehash_covered wired.covered bucket
  rw [← links] at layout covered
  refine ⟨layout, covered, ?_, ?_⟩
  · intro j m w present
    rw [links, setKey_content, setHashCode_content]
    by_cases same : j = i
    · subst same
      simp only [Function.update_self, Option.some.injEq, Prod.mk.injEq] at present
      obtain ⟨rfl, rfl⟩ := present
      simp [(wired.stored found).1]
    · rw [Function.update_of_ne same] at present
      simpa [same] using wired.stored present
  · intro j
    by_cases same : j = i
    · subst same
      simpa [setKey, setHashCode] using wired.bounds found
    · rw [Function.update_of_ne same]
      exact wired.occupied j

/-- With the same hash code, storing it again changes nothing. -/
theorem setHashCode_self (h : UInt32) (same : (d.nodes i).hashCode = h) : d.setHashCode i h = d := by
  unfold setHashCode
  rw [← same, Function.update_eq_self]

theorem Wired.rekeyed_to_bucket (wired : Wired keys d chains free entries)
    (found : entries i = some (l, v)) (k : K) : ∃ chains', Wired keys
      (((((d.unlink i ((d.nodes i).hashCode.toNat % d.bucketsLen)).setHashCode i
        (keys.getHashCode k)).linkFront i ((keys.getHashCode k).toNat % d.bucketsLen)).setKey i
        (some k)).setPrev i (-1)) chains' free (Function.update entries i (some (k, v))) := by
  obtain ⟨chains', pending⟩ := wired.unlinked found
  obtain ⟨chains'', placed⟩ := pending.placed k v
  refine ⟨chains'', ?_⟩
  rw [Function.update_idem] at placed
  have len : (d.unlink i ((d.nodes i).hashCode.toNat % d.bucketsLen)).bucketsLen = d.bucketsLen :=
    congrArg Index.bucketsLen (d.unlink_links i)
  simp only [place, len] at placed
  -- `place` also stores the value, which is there already.
  rw [setValue_self] at placed
  · exact placed
  · generalize hlinked : linkFront _ i _ = linked
    have kept : linked.content = d.content := by
      rw [← hlinked]
      simp
    have value : ((linked.setKey i (some k)).content i).2 = some v := by
      rw [setKey_content, Function.update_self, kept, (wired.stored found).1]
    exact value

theorem Valid.finds (valid : Valid keys d free) {j : Nat} {w : V} (found : d.entryAt j = some (k, w)) :
    find keys d k = some (j : Int) := by
  obtain ⟨chains, wired⟩ := valid.wired
  exact wired.find_present valid.distinct found (keys.equals_refl k)

theorem not_taken (absent : ¬ Taken keys d i k) {j : Nat} {m : K} {w : V}
    (found : d.entryAt j = some (m, w)) (equal : keys.equalsTo m k = true) : j = i := by
  apply Classical.byContradiction
  intro other
  exact absent ⟨j, m, w, other, found, equal⟩

/-- A table with one key replaced is in order if no other slot has the new key. -/
theorem Valid.rekeyed (valid : Valid keys d free) {d' : Dict K V}
    (wired : Wired keys d' chains free (Function.update d.entryAt i (some (k, v))))
    (absent : ¬ Taken keys d i k) : Valid keys d' free ∧ Rekeyed keys d d' i k v := by
  have valid' := wired.valid (valid.distinct.update_some fun found equal => not_taken absent found equal)
  refine ⟨valid', wired.entryAt_eq, valid'.wellFormed, valid'.distinct, ?_⟩
  intro j m w found
  exact valid'.finds found

/-- Every branch that stores the new key leaves a table with the key replaced. -/
theorem Wired.updateAt_cases (wired : Wired keys d chains free entries)
    (found : entries i = some (l, v)) (k : K) :
    ((keys.getHashCode k).toNat % d.bucketsLen = (keys.getHashCode l).toNat % d.bucketsLen ∧
      ∃ d', updateAt keys d i k = some (true, d') ∧
        Wired keys d' chains free (Function.update entries i (some (k, v)))) ∨
    ((keys.getHashCode k).toNat % d.bucketsLen ≠ (keys.getHashCode l).toNat % d.bucketsLen ∧
      ((HasKey keys entries k ∧ updateAt keys d i k = some (false, d)) ∨
        (¬ HasKey keys entries k ∧ ∃ d' chains', updateAt keys d i k = some (true, d') ∧
          Wired keys d' chains' free (Function.update entries i (some (k, v)))))) := by
  have hash : (d.nodes i).hashCode = keys.getHashCode l :=
    UInt32.toNat_inj.mp (wired.stored found).2
  by_cases same : (d.nodes i).hashCode = keys.getHashCode k
  · have bucket : (keys.getHashCode k).toNat % d.bucketsLen = (d.nodes i).hashCode.toNat % d.bucketsLen := by
      rw [same]
    have stored := wired.rekeyed_in_bucket found bucket
    rw [setHashCode_self _ same] at stored
    refine .inl ⟨by rw [bucket, hash], _, ?_, stored⟩
    simp [updateAt, same]
  · by_cases bucket : (d.nodes i).hashCode.toNat % d.bucketsLen = (keys.getHashCode k).toNat % d.bucketsLen
    · refine .inl ⟨by rw [← bucket, hash], _, ?_, wired.rekeyed_in_bucket found bucket.symm⟩
      simp [updateAt, same, bucket]
    · refine .inr ⟨by rw [← hash]; exact Ne.symm bucket, ?_⟩
      rcases wired.find_cases k with ⟨result, absent⟩ | ⟨j, m, w, result, other, equal⟩
      · have scanned : scanBucket keys d (keys.getHashCode k) k = some (-1) := result
        obtain ⟨chains', moved⟩ := wired.rekeyed_to_bucket found k
        refine .inr ⟨absent, _, chains', ?_, moved⟩
        simp [updateAt, same, bucket, scanned]
      · have scanned : scanBucket keys d (keys.getHashCode k) k = some (j : Int) := result
        have inside : (0 : Int) ≤ j := by omega
        refine .inl ⟨⟨j, m, w, other, equal⟩, ?_⟩
        simp [updateAt, same, bucket, scanned, inside]

theorem Valid.update_eq (valid : Valid keys d free) (found : d.entryAt i = some (l, v)) {oldKey : K}
    (equal : keys.equalsTo l oldKey = true) (newKey : K) :
    update keys d oldKey newKey = updateAt keys d i newKey := by
  obtain ⟨chains, wired⟩ := valid.wired
  have result := wired.find_present valid.distinct found equal
  have inside : ¬ (i : Int) = -1 := by omega
  simp [update, result, inside]

/-- `UpdateAt` does what it is to do if the new key is not taken or is in another bucket. -/
theorem Valid.updateAt_meets (valid : Valid keys d free) (found : d.entryAt i = some (l, v)) (k : K)
    (safe : ¬ (Taken keys d i k ∧
      (keys.getHashCode k).toNat % d.bucketsLen = (keys.getHashCode l).toNat % d.bucketsLen)) :
    ∃ ok d', updateAt keys d i k = some (ok, d') ∧ Valid keys d' free ∧
      (Taken keys d i k → ok = false ∧ d' = d) ∧
      (¬ Taken keys d i k → ok = true ∧ Rekeyed keys d d' i k v) := by
  obtain ⟨chains, wired⟩ := valid.wired
  rcases wired.updateAt_cases found k with ⟨bucket, d', runs, wired'⟩ | ⟨bucket, other⟩
  · have free : ¬ Taken keys d i k := fun taken => safe ⟨taken, bucket⟩
    obtain ⟨valid', rekeyed⟩ := valid.rekeyed wired' free
    exact ⟨true, d', runs, valid', fun taken => absurd taken free, fun _ => ⟨rfl, rekeyed⟩⟩
  · rcases other with ⟨⟨j, m, w, present, equal⟩, runs⟩ | ⟨absent, d', chains', runs, wired'⟩
    · -- An equal key has the same hash code, so slot `j` cannot be slot `i`.
      have different : j ≠ i := by
        rintro rfl
        rw [found] at present
        cases present
        exact bucket (by rw [keys.hash_respects equal])
      have taken : Taken keys d i k := ⟨j, m, w, different, present, equal⟩
      exact ⟨false, d, runs, valid, fun _ => ⟨rfl, rfl⟩, fun free => absurd taken free⟩
    · have free : ¬ Taken keys d i k := by
        rintro ⟨j, m, w, -, present, equal⟩
        exact absent ⟨j, m, w, present, equal⟩
      obtain ⟨valid', rekeyed⟩ := valid.rekeyed wired' free
      exact ⟨true, d', runs, valid', fun taken => absurd taken free, fun _ => ⟨rfl, rekeyed⟩⟩

end

/-! ## Runs -/

/-- The states a fresh table gets into by the calls of `Op` and by key replacements that meet `guard`,
a condition on the state before the call, the old key and the new key. -/
inductive UpdateRun (setting : Setting K V) (guard : Dict K V → K → K → Prop) : Dict K V → Prop where
  | create (nodes : Nat → Node) (items : Nat → Data K V) :
      UpdateRun setting guard (create setting.sizing nodes items)
  | call {d d' : Dict K V} {reply : Reply V} (op : Op K V) (before : UpdateRun setting guard d)
      (allowed : d.Allowed op) (runs : step setting op d = some (reply, d')) : UpdateRun setting guard d'
  | update {d d' : Dict K V} {oldKey newKey : K} {ok : Bool} (before : UpdateRun setting guard d)
      (meets : guard d oldKey newKey) (runs : update setting.keys d oldKey newKey = some (ok, d')) :
      UpdateRun setting guard d'
  | updateAt {d d' : Dict K V} {idx : Nat} {oldKey newKey : K} {v : V} {ok : Bool}
      (before : UpdateRun setting guard d) (live : d.entryAt idx = some (oldKey, v))
      (meets : guard d oldKey newKey) (runs : updateAt setting.keys d idx newKey = some (ok, d')) :
      UpdateRun setting guard d'

section
variable {keys : KeyFuncs K} {setting : Setting K V} {d d' : Dict K V} {free : List Nat} {i : Nat}
  {l oldKey newKey : K} {v : V} {ok : Bool}

theorem taken_apart (safe : ¬ Clash keys d oldKey newKey) (found : d.entryAt i = some (l, v))
    (equal : keys.equalsTo l oldKey = true) : ¬ (Taken keys d i newKey ∧
      (keys.getHashCode newKey).toNat % d.bucketsLen = (keys.getHashCode l).toNat % d.bucketsLen) := by
  rintro ⟨taken, bucket⟩
  refine safe ⟨i, l, v, found, equal, taken, ?_⟩
  rw [bucket, keys.hash_respects equal]

theorem Valid.update_absent (valid : Valid keys d free) (absent : ¬ HasKey keys d.entryAt oldKey) :
    update keys d oldKey newKey = some (false, d) := by
  obtain ⟨chains, wired⟩ := valid.wired
  simp [update, wired.find_absent absent]

theorem Valid.updateAt_keeps (valid : Valid keys d free) (safe : ¬ Clash keys d oldKey newKey)
    (found : d.entryAt i = some (l, v)) (equal : keys.equalsTo l oldKey = true)
    (runs : updateAt keys d i newKey = some (ok, d')) : Valid keys d' free := by
  obtain ⟨ok', d'', runs', valid', -⟩ := valid.updateAt_meets found newKey (taken_apart safe found equal)
  rw [runs'] at runs
  cases runs
  exact valid'

theorem UpdateRun.valid (run : UpdateRun setting (fun d oldKey newKey => ¬ Clash setting.keys d oldKey newKey) d) :
    ∃ free, Valid setting.keys d free := by
  induction run with
  | create nodes items => exact ⟨[], create_valid setting.sizing nodes items⟩
  | call op before allowed runs ih =>
    obtain ⟨free, valid⟩ := ih
    obtain ⟨reply, d', result, simulates⟩ := step_simulates ⟨⟨free, valid⟩, .refl _⟩ _ allowed
    rw [runs] at result
    cases result
    exact simulates.represents.valid
  | @update d d' oldKey newKey ok before meets runs ih =>
    obtain ⟨free, valid⟩ := ih
    by_cases present : HasKey setting.keys d.entryAt oldKey
    · obtain ⟨i, l, v, found, equal⟩ := present
      rw [valid.update_eq found equal] at runs
      exact ⟨free, valid.updateAt_keeps meets found equal runs⟩
    · rw [valid.update_absent present] at runs
      cases runs
      exact ⟨free, valid⟩
  | updateAt before live meets runs ih =>
    obtain ⟨free, valid⟩ := ih
    exact ⟨free, valid.updateAt_keeps meets live (setting.keys.equals_refl _) runs⟩

theorem Valid.updateSpec (valid : Valid keys d free) (safe : ¬ Clash keys d oldKey newKey) :
    UpdateSpec keys d oldKey newKey := by
  refine ⟨valid.update_absent, ?_⟩
  intro i l v found equal
  obtain ⟨ok, d', runs, -, clash, rekeyed⟩ :=
    valid.updateAt_meets found newKey (taken_apart safe found equal)
  exact ⟨ok, d', (valid.update_eq found equal newKey).trans runs, runs, clash, rekeyed⟩

/-- On a clash the code stores the new key and answers `true`. -/
theorem Valid.updateSpec_fails (valid : Valid keys d free) (clash : Clash keys d oldKey newKey) :
    ¬ UpdateSpec keys d oldKey newKey := by
  obtain ⟨i, l, v, found, equal, taken, bucket⟩ := clash
  rintro ⟨-, spec⟩
  obtain ⟨ok, d', -, runs, refused, -⟩ := spec i l v found equal
  obtain ⟨rfl, -⟩ := refused taken
  obtain ⟨chains, wired⟩ := valid.wired
  rcases wired.updateAt_cases found newKey with ⟨-, d'', stored, -⟩ | ⟨apart, -⟩
  · rw [stored] at runs
    cases runs
  · rw [← keys.hash_respects equal] at bucket
    exact apart bucket

/-- In a run without clashes the table stays in order, and the next replacement does what it is to do
exactly if it does not clash either. -/
theorem update_meets_iff (run : UpdateRun setting (fun d oldKey newKey => ¬ Clash setting.keys d oldKey newKey) d) :
    WellFormed setting.keys d ∧ Distinct setting.keys d.entryAt ∧
      (∀ j k w, d.entryAt j = some (k, w) → find setting.keys d k = some (j : Int)) ∧
      ∀ oldKey newKey, UpdateSpec setting.keys d oldKey newKey ↔ ¬ Clash setting.keys d oldKey newKey := by
  obtain ⟨free, valid⟩ := run.valid
  refine ⟨valid.wellFormed, valid.distinct, fun j k w found => valid.finds found, ?_⟩
  intro oldKey newKey
  constructor
  · intro spec clash
    exact valid.updateSpec_fails clash spec
  · exact valid.updateSpec

end

/-- The keys 5 and 8 share a bucket of the first table. -/
theorem two_keys (guard : Dict UInt32 UInt32 → UInt32 → UInt32 → Prop) :
    ∃ d, UpdateRun Setting.word guard d ∧ d.toMap = [(5, 50), (8, 80)] ∧
      d.entryAt 0 = some (5, 50) ∧ d.entryAt 1 = some (8, 80) ∧
      (updateAt Setting.word.keys d 0 8).map Prod.fst = some true := by
  have created : UpdateRun Setting.word guard
      (create Setting.word.sizing (fun _ => ⟨0, 0⟩) fun _ => ⟨none, none, 0⟩) := .create _ _
  have first := UpdateRun.call (.add 5 50 false fun _ => ⟨none, none, 0⟩) created trivial rfl
  have second := UpdateRun.call (.add 8 80 false fun _ => ⟨none, none, 0⟩) first trivial rfl
  exact ⟨_, second, rfl, rfl, rfl, rfl⟩

/-- The unused key 2 would share it too. -/
theorem update_meets_iff_unused : ∃ d, UpdateRun Setting.word
    (fun d oldKey newKey => ¬ Clash Setting.word.keys d oldKey newKey) d ∧ d.toMap = [(5, 50), (8, 80)] ∧
    UpdateSpec Setting.word.keys d 5 2 := by
  obtain ⟨d, run, content, -⟩ := two_keys fun d oldKey newKey => ¬ Clash Setting.word.keys d oldKey newKey
  refine ⟨d, run, content, ((update_meets_iff run).2.2.2 5 2).mpr ?_⟩
  rintro ⟨i, l, v, -, -, ⟨j, m, w, -, found, equal⟩, -⟩
  have member : (m, w) ∈ d.toMap := Lib.AssocMap.mem_listed.mpr ⟨j, entryAt_lt found, found⟩
  rw [content, show m = 2 from beq_iff_eq.mp equal] at member
  exact absurd member (by simp)

/-- `Update(5, 8)` answers `true` and leaves two entries with the key 8. -/
theorem update_duplicates : ¬ ∀ d, UpdateRun Setting.word (fun _ _ _ => True) d →
    ∀ oldKey newKey, UpdateSpec Setting.word.keys d oldKey newKey := by
  intro always
  obtain ⟨d, run, -, first, second, answer⟩ := two_keys fun _ _ _ => True
  obtain ⟨ok, d', -, runs, refused, -⟩ := (always d run 5 8).2 0 5 50 first rfl
  obtain ⟨rfl, -⟩ := refused ⟨1, 8, 80, by decide, second, rfl⟩
  rw [runs] at answer
  cases answer

end Xxlib.Uv4.Dict
