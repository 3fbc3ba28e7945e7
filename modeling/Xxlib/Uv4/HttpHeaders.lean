import Xxlib.Lib.CarriedKeys
import Xxlib.Uv4.HttpParser

/-! Whether the `headers` of `UvHttpPeer` and `UvHttpClient` are what was received.

A repeated name stays in `lastKey`, and the next name is put behind it.
-/

set_option autoImplicit false

namespace Xxlib.Uv4

open Lib

/-- The keys of the table are the names of the lines, and a name that comes once has its own value. -/
structure Accumulated (keys : KeyFuncs (List UInt8)) (d : Dict (List UInt8) (List UInt8)) (lines : List Line) : Prop where
  names : ∀ k, (∃ i v, d.entryAt i = some (k, v)) ↔ ∃ line ∈ lines, line.name = k
  once : ∀ (i : Nat) (line : Line), lines[i]? = some line →
    (∀ (j : Nat) (other : Line), lines[j]? = some other → other.name = line.name → j = i) →
      d.tryGetValue keys line.name = some (some line.value)

def nameAt (lines : List Line) (i : Nat) : List UInt8 := (lines[i]?.map Line.name).getD []

def valueAt (lines : List Line) (i : Nat) : List UInt8 := (lines[i]?.map Line.value).getD []

/-- What `lastKey` holds in front of a line. -/
def carryAt (lines : List Line) (i : Nat) : List UInt8 := ((lines.take i).foldl Collected.collect {}).lastKey

section
variable {lines : List Line} {i : Nat}

theorem collected_pairs (inside : i ≤ lines.length) : ((lines.take i).foldl Collected.collect {}).pairs =
    (List.range i).map fun j => (carryAt lines j ++ nameAt lines j, valueAt lines j) := by
  induction i with
  | zero => rfl
  | succ i ih =>
    have step : lines.take (i + 1) = lines.take i ++ [lines[i]] := List.take_succ_eq_append_getElem inside
    rw [step, List.foldl_append, List.range_succ, List.map_append, ← ih (Nat.le_of_succ_le inside)]
    simp only [List.foldl_cons, List.foldl_nil, Collected.collect, carryAt, nameAt, valueAt,
      List.getElem?_eq_getElem (Nat.lt_of_succ_le inside), Option.map_some, Option.getD_some, List.map_cons, List.map_nil]

/-- A key that was taken before stays in `lastKey`. -/
theorem carries (lines : List Line) : Carries lines.length (nameAt lines) (carryAt lines) := by
  have next : ∀ i < lines.length, carryAt lines (i + 1) =
      if carryAt lines i ++ nameAt lines i ∈ (List.range i).map fun j => carryAt lines j ++ nameAt lines j then
        carryAt lines i ++ nameAt lines i else [] := by
    intro i inside
    have pairs := collected_pairs (Nat.le_of_lt inside)
    have step : lines.take (i + 1) = lines.take i ++ [lines[i]] := List.take_succ_eq_append_getElem inside
    have name : nameAt lines i = lines[i].name := by rw [nameAt, List.getElem?_eq_getElem inside]; rfl
    rw [carryAt, step, List.foldl_append, List.foldl_cons, List.foldl_nil, Collected.collect]
    dsimp only
    rw [pairs, List.map_map, name]
    rfl
  refine ⟨rfl, fun i inside j before same => ?_, fun i inside fresh => ?_⟩
  · rw [next i inside, if_pos]
    exact List.mem_map.mpr ⟨j, List.mem_range.mpr before, same⟩
  · rw [next i inside, if_neg]
    intro member
    obtain ⟨j, before, same⟩ := List.mem_map.mp member
    exact fresh j (List.mem_range.mp before) same

end

/-! ## Values -/

section
variable {n : Nat} {key value : Nat → List UInt8} {k : List UInt8}

theorem gather_range_ne_none : gather ((List.range n).map fun i => (key i, value i)) k ≠ none ↔ ∃ i < n, key i = k := by
  rw [ne_eq, gather_eq_none, Classical.not_not, List.map_map, List.mem_map]
  simp only [List.mem_range, Function.comp_apply]

theorem gather_range (present : ∃ i < n, key i = k) : gather ((List.range n).map fun i => (key i, value i)) k =
    some (((List.range n).filter fun i => key i = k).flatMap value) := by
  unfold gather
  rw [if_pos, List.filter_map, List.flatMap_map]
  · rfl
  · rw [List.map_map, List.mem_map]
    obtain ⟨i, inside, same⟩ := present
    exact ⟨i, List.mem_range.mpr inside, same⟩

/-- A key that was taken once has the value of that line. -/
theorem gather_single {m : Nat} (inside : m < n) (single : ∀ j < n, key j = k ↔ j = m) :
    gather ((List.range n).map fun i => (key i, value i)) k = some (value m) := by
  rw [gather_range ⟨m, inside, (single m inside).mpr rfl⟩]
  obtain ⟨front, back, shape⟩ := List.append_of_mem (List.mem_range.mpr inside)
  have nodup : (front ++ m :: back).Nodup := shape ▸ List.nodup_range
  have apart := (List.nodup_cons.mp (List.nodup_middle.mp nodup)).1
  have others : ∀ xs : List Nat, (∀ i ∈ xs, i ∈ front ++ back) → xs.filter (fun i => key i = k) = [] := by
    intro xs within
    rw [List.filter_eq_nil_iff]
    intro i member same
    have there := within i member
    have below : i < n := List.mem_range.mp (shape ▸ (List.perm_middle.mem_iff.mpr (List.mem_cons_of_mem m there)))
    exact apart ((single i below).mp (of_decide_eq_true same) ▸ there)
  have here : decide (key m = k) = true := decide_eq_true ((single m inside).mpr rfl)
  rw [shape, List.filter_append, List.filter_cons, if_pos here, others front fun i => List.mem_append_left back, others back fun i => List.mem_append_right front, List.nil_append,
    List.flatMap_singleton]

/-- A key that was taken twice has more than the value of one line. -/
theorem gather_twice {j m : Nat} (inside : m < n) (inside' : j < n) (different : j ≠ m) (same : key m = k) (same' : key j = k)
    (filled : value j ≠ []) : gather ((List.range n).map fun i => (key i, value i)) k ≠ some (value m) := by
  rw [gather_range ⟨m, inside, same⟩]
  intro equal
  have member : m ∈ (List.range n).filter fun i => key i = k := by simp [inside, same]
  have member' : j ∈ (List.range n).filter fun i => key i = k := by simp [inside', same']
  have perm := (List.perm_cons_erase member').trans ((List.perm_cons_erase ((List.mem_erase_of_ne (Ne.symm different)).mpr member)).cons j)
  have lengths := (perm.flatMap_right value).length_eq
  rw [Option.some.inj equal, List.flatMap_cons, List.flatMap_cons, List.length_append, List.length_append] at lengths
  have positive := List.length_pos_iff.mpr filled
  omega

end

/-! ## The claim -/

section
variable {getHashCode : List UInt8 → UInt32} {d : Dict (List UInt8) (List UInt8)}
  {f : List UInt8 → Option (List UInt8)}

theorem Holds.entry_iff (holds : Holds getHashCode d f) (k : List UInt8) :
    (∃ i v, d.entryAt i = some (k, v)) ↔ f k ≠ none := by
  obtain ⟨m, represents, rfl⟩ := holds.represents
  constructor
  · rintro ⟨i, v, found⟩
    rw [represents.lookup_eq found ((KeyFuncs.string getHashCode).equals_refl k)]
    exact Option.some_ne_none v
  · intro some'
    rcases represents.find_cases k with ⟨-, absent⟩ | ⟨i, l, v, -, found, equal, -⟩
    · exact absurd (AssocMap.lookup_eq_none absent) some'
    · obtain rfl : l = k := eq_of_beq equal
      exact ⟨i, v, found⟩

theorem Holds.tryGetValue_eq (holds : Holds getHashCode d f) (k : List UInt8) :
    d.tryGetValue (.string getHashCode) k = some (f k) := by
  obtain ⟨m, represents, rfl⟩ := holds.represents
  exact represents.tryGetValue_eq k

theorem line_at {lines : List Line} {i : Nat} {line : Line} (found : lines[i]? = some line) :
    i < lines.length ∧ nameAt lines i = line.name ∧ valueAt lines i = line.value := by
  refine ⟨(List.getElem?_eq_some_iff.mp found).1, ?_, ?_⟩
  · rw [nameAt, found]
    rfl
  · rw [valueAt, found]
    rfl

theorem mem_names_iff {lines : List Line} {k : List UInt8} :
    (∃ line ∈ lines, line.name = k) ↔ ∃ i < lines.length, nameAt lines i = k := by
  constructor
  · rintro ⟨line, member, rfl⟩
    obtain ⟨i, found⟩ := List.getElem?_of_mem member
    obtain ⟨inside, name, -⟩ := line_at found
    exact ⟨i, inside, name⟩
  · rintro ⟨i, inside, rfl⟩
    exact ⟨lines[i], List.getElem_mem inside, (line_at (List.getElem?_eq_getElem inside)).2.1.symm⟩

theorem Holds.accumulated_iff {lines : List Line}
    (holds : Holds getHashCode d (gather (lines.foldl Collected.collect {}).pairs)) :
    Accumulated (.string getHashCode) d lines ↔ Separated lines.length (nameAt lines) (carryAt lines) := by
  have pairs := collected_pairs (Nat.le_refl lines.length)
  rw [List.take_length] at pairs
  rw [pairs] at holds
  have entries : ∀ k, (∃ i v, d.entryAt i = some (k, v)) ↔ ∃ i < lines.length, carryAt lines i ++ nameAt lines i = k := by
    intro k
    rw [holds.entry_iff, gather_range_ne_none]
  constructor
  · intro accumulated
    have same : ∀ k, (∃ i < lines.length, carryAt lines i ++ nameAt lines i = k) ↔ ∃ i < lines.length, nameAt lines i = k := by
      intro k
      rw [← entries, ← mem_names_iff]
      exact accumulated.names k
    refine ⟨fun i inside => (same _).mp ⟨i, inside, rfl⟩, fun m inside => (same _).mpr ⟨m, inside, rfl⟩,
      fun m inside single j inside' key key' => ?_⟩
    by_contra different
    have found := List.getElem?_eq_getElem inside
    have found' := List.getElem?_eq_getElem inside'
    obtain ⟨-, name, value⟩ := line_at found
    have own := accumulated.once m _ found fun t line' found'' equal => by
      obtain ⟨inside'', name'', -⟩ := line_at found''
      exact single t inside'' (by rw [name'', name, equal])
    rw [holds.tryGetValue_eq, ← name, ← value] at own
    refine gather_twice inside inside' different key' key ?_ (Option.some.inj own)
    rw [(line_at found').2.2]
    exact lines[j].valued
  · intro separated
    refine ⟨fun k => ?_, fun m line found single => ?_⟩
    · rw [entries, mem_names_iff]
      constructor
      · rintro ⟨i, inside, rfl⟩
        exact separated.named i inside
      · rintro ⟨m, inside, rfl⟩
        exact separated.keyed m inside
    · obtain ⟨inside, name, value⟩ := line_at found
      have single' : ∀ j < lines.length, nameAt lines j = nameAt lines m → j = m := by
        intro j inside' equal
        have found' := List.getElem?_eq_getElem inside'
        exact single j _ found' (by rw [← (line_at found').2.1, equal, name])
      have key := separated.key_eq (carries lines) inside single'
      rw [holds.tryGetValue_eq, ← name, ← value]
      congr 1
      refine gather_single inside fun j inside' => ⟨fun same => separated.once m inside single' j inside' same key, ?_⟩
      rintro rfl
      exact key

/-- The headers are what was received, if and only if a name that is repeated comes last (or only empty names come after it, of
which there is one before it, too). -/
theorem headers_accumulated_iff (getHashCode : List UInt8 → UInt32) (sizing : Sizing) (s : HttpHeaders)
    (before : ∃ m, Dict.Represents (.string getHashCode) s.headers m) (lines : List Line) :
    ∃ s', UvHttpPeer.receiveHeader (.string getHashCode) sizing s lines = some s' ∧
      UvHttpClient.receiveHeader (.string getHashCode) sizing s lines = some s' ∧
      (∃ m, Dict.Represents (.string getHashCode) s'.headers m) ∧
      (Accumulated (.string getHashCode) s'.headers lines ↔ RepeatsLast lines.length (nameAt lines)) := by
  obtain ⟨s', runs, holds⟩ := header_collected getHashCode sizing s before lines
  obtain ⟨m, represents, -⟩ := holds.represents
  exact ⟨s', runs, runs, ⟨m, represents⟩, holds.accumulated_iff.trans (carries lines).separated_iff⟩

end

/-- A table that was just made. -/
def freshHeaders : HttpHeaders :=
  ⟨Dict.create Dict.Setting.word.sizing (fun _ => ⟨0, 0⟩) fun _ => ⟨none, none, 0⟩, [], none⟩

theorem freshHeaders_represents (getHashCode : List UInt8 → UInt32) :
    ∃ m, Dict.Represents (.string getHashCode) freshHeaders.headers m :=
  let setting : Dict.Setting (List UInt8) (List UInt8) := ⟨.string getHashCode, Dict.Setting.word.sizing, false, []⟩
  have fresh : Dict.Reachable setting freshHeaders.headers [] := .create _ _
  ⟨[], fresh.represents⟩

/-- A line with one piece of each. -/
def Line.whole (name : List UInt8) (first : UInt8) (rest : List UInt8) : Line :=
  ⟨[name], [first :: rest], fun _ => ⟨none, none, 0⟩, by simp, by simp⟩

/-- A name in two pieces, and then one that is repeated. -/
def repeatedLines : List Line :=
  [⟨[[97], [98]], [[1], [2]], fun _ => ⟨none, none, 0⟩, by decide, by decide⟩, .whole [99] 3 [], .whole [99] 4 []]

theorem repeatedLines_repeatsLast : RepeatsLast repeatedLines.length (nameAt repeatedLines) := by
  rintro i inside - ⟨j, before, same⟩
  have last : i = 2 := by
    change i < 3 at inside
    by_contra different
    obtain ⟨rfl, rfl⟩ : i = 1 ∧ j = 0 := by omega
    exact absurd same (by decide)
  subst last
  change (∀ t < 3, _) ∧ (3 < 3 → _)
  exact ⟨fun t below later => by omega, fun more => absurd more (Nat.lt_irrefl 3)⟩

theorem headers_accumulated_repeated : ∃ s', UvHttpPeer.receiveHeader (.string fun _ => 0) Dict.Setting.word.sizing freshHeaders
    repeatedLines = some s' ∧ Accumulated (.string fun _ => 0) s'.headers repeatedLines := by
  obtain ⟨s', runs, -, -, iff⟩ := headers_accumulated_iff (fun _ => 0) Dict.Setting.word.sizing freshHeaders
    (freshHeaders_represents _) repeatedLines
  exact ⟨s', runs, iff.mpr repeatedLines_repeatsLast⟩

/-- The name behind a repeated one gets its letters in front. -/
theorem headers_glued : ∃ s', UvHttpPeer.receiveHeader (.string fun _ => 0) Dict.Setting.word.sizing freshHeaders
    [.whole [97] 1 [], .whole [97] 2 [], .whole [98] 3 []] = some s' ∧
      (∃ i v, s'.headers.entryAt i = some ([97, 98], v)) ∧
      ¬ Accumulated (.string fun _ => 0) s'.headers [.whole [97] 1 [], .whole [97] 2 [], .whole [98] 3 []] := by
  obtain ⟨s', runs, holds⟩ := header_collected (fun _ => 0) Dict.Setting.word.sizing freshHeaders (freshHeaders_represents _)
    [.whole [97] 1 [], .whole [97] 2 [], .whole [98] 3 []]
  have glued := (holds.entry_iff [97, 98]).mpr (by decide)
  refine ⟨s', runs, glued, fun accumulated => ?_⟩
  obtain ⟨line, member, name⟩ := (accumulated.names [97, 98]).mp glued
  revert line
  decide

end Xxlib.Uv4
