import Xxlib.Uv4.DictRefinement

/-! The header callbacks of `UvHttpPeer` and `UvHttpClient` (`xx_uv.cpp`).

Names and values come in pieces. A name is collected in `lastKey`, and moved into the table when the first
piece of its value comes; the later pieces are appended through a pointer into the table. If the table has the key
already, nothing is moved.
-/

set_option autoImplicit false

namespace Xxlib.Uv4

open Lib

/-- Strings as keys, with any hash function of their bytes. -/
def KeyFuncs.string (getHashCode : List UInt8 → UInt32) : KeyFuncs (List UInt8) where
  getHashCode := getHashCode
  equalsTo a b := a == b
  equals_refl := by simp
  equals_symm := by
    intro a b same
    simp only [beq_iff_eq] at same ⊢
    exact same.symm
  equals_trans := by simp +contextual
  hash_respects := by simp +contextual

/-- A line of the header as it comes, in one or more pieces of its name and then of its value. `alloc` is what a new block of
the table holds, should it grow. -/
structure Line where
  names : List (List UInt8)
  values : List (List UInt8)
  alloc : Nat → Dict.Data (List UInt8) (List UInt8)
  named : names ≠ []
  valued : values.flatten ≠ []

def Line.name (line : Line) : List UInt8 := line.names.flatten

def Line.value (line : Line) : List UInt8 := line.values.flatten

/-- The members that the callbacks for the header use. The pointer `lastValue` is the index of its value. -/
structure HttpHeaders where
  headers : Dict (List UInt8) (List UInt8)
  lastKey : List UInt8
  lastValue : Option Nat

namespace HttpHeaders

/-! ## The code -/

inductive Callback where
  | onMessageBegin
  | onHeaderField (buf : List UInt8)
  | onHeaderValue (buf : List UInt8) (alloc : Nat → Dict.Data (List UInt8) (List UInt8))
  | onHeadersComplete

/-- `lastValue->AddRange(buf, length)` -/
def addRange (s : HttpHeaders) (i : Nat) (buf : List UInt8) : Option HttpHeaders :=
  (s.headers.valueAt i).map fun value => { s with headers := s.headers.setValue i (some (value ++ buf)) }

/-- `Add` moves the key only if it takes it. -/
def onHeaderValue (keys : KeyFuncs (List UInt8)) (sizing : Sizing) (s : HttpHeaders) (buf : List UInt8)
    (alloc : Nat → Dict.Data (List UInt8) (List UInt8)) : Option HttpHeaders :=
  match s.lastValue with
  | some i => s.addRange i buf
  | none => do
      let (r, headers) ← s.headers.add keys sizing false alloc s.lastKey [] false
      let lastKey := if r.success then [] else s.lastKey
      HttpHeaders.addRange ⟨headers, lastKey, some r.index.toNat⟩ r.index.toNat buf

def call (keys : KeyFuncs (List UInt8)) (sizing : Sizing) (s : HttpHeaders) : Callback → Option HttpHeaders
  | .onMessageBegin => some ⟨s.headers.clear, [], none⟩
  | .onHeaderField buf => some { s with lastKey := s.lastKey ++ buf, lastValue := none }
  | .onHeaderValue buf alloc => s.onHeaderValue keys sizing buf alloc
  | .onHeadersComplete => some { s with lastValue := none }

end HttpHeaders

def Line.callbacks (line : Line) : List HttpHeaders.Callback :=
  line.names.map .onHeaderField ++ line.values.map fun buf => .onHeaderValue buf line.alloc

/-- What `http_parser` calls for a header. -/
def headerCallbacks (lines : List Line) : List HttpHeaders.Callback :=
  .onMessageBegin :: lines.flatMap Line.callbacks ++ [.onHeadersComplete]

def UvHttpPeer.receiveHeader (keys : KeyFuncs (List UInt8)) (sizing : Sizing) (s : HttpHeaders) (lines : List Line) :
    Option HttpHeaders :=
  (headerCallbacks lines).foldlM (HttpHeaders.call keys sizing) s

def UvHttpClient.receiveHeader (keys : KeyFuncs (List UInt8)) (sizing : Sizing) (s : HttpHeaders) (lines : List Line) :
    Option HttpHeaders :=
  (headerCallbacks lines).foldlM (HttpHeaders.call keys sizing) s

/-! ## What the lines add up to -/

/-- The lines so far, with the keys that they were taken for, and what `lastKey` holds. -/
structure Collected where
  pairs : List (List UInt8 × List UInt8) := []
  lastKey : List UInt8 := []

namespace Collected

/-- A key that is there already stays in `lastKey`, in front of the next name. -/
def collect (c : Collected) (line : Line) : Collected :=
  let key := c.lastKey ++ line.name
  ⟨c.pairs ++ [(key, line.value)], if key ∈ c.pairs.map Prod.fst then key else []⟩

end Collected

/-- All that was received under a key. -/
def gather (pairs : List (List UInt8 × List UInt8)) (k : List UInt8) : Option (List UInt8) :=
  if k ∈ pairs.map Prod.fst then some ((pairs.filter fun pair => pair.1 = k).flatMap Prod.snd) else none

section
variable {pairs : List (List UInt8 × List UInt8)} {k v : List UInt8}

theorem gather_eq_none : gather pairs k = none ↔ k ∉ pairs.map Prod.fst := by
  unfold gather
  split
  next member => exact ⟨fun none' => (nomatch none'), fun absent => absurd member absent⟩
  next absent => exact ⟨fun _ => absent, fun _ => rfl⟩

theorem gather_concat : gather (pairs ++ [(k, v)]) = Function.update (gather pairs) k (some ((gather pairs k).getD [] ++ v)) := by
  funext l
  by_cases same : l = k
  · subst same
    rw [Function.update_self]
    unfold gather
    rw [if_pos (by simp), List.filter_append, List.flatMap_append]
    congr 1
    split
    next => simp
    next absent =>
      have nothing : pairs.filter (fun pair => pair.1 = l) = [] := by
        rw [List.filter_eq_nil_iff]
        intro pair member equal
        exact absent (List.mem_map.mpr ⟨pair, member, of_decide_eq_true equal⟩)
      simp [nothing]
  · rw [Function.update_of_ne same]
    have other : ¬ k = l := Ne.symm same
    unfold gather
    simp only [List.map_append, List.map_singleton, List.mem_append, List.mem_singleton, same, or_false, List.filter_append,
      List.filter_singleton, other, decide_false, cond_false, List.append_nil]

end

/-! ## The table follows -/

/-- The table holds a value for each key where the function has one. -/
structure Holds (getHashCode : List UInt8 → UInt32) (d : Dict (List UInt8) (List UInt8))
    (f : List UInt8 → Option (List UInt8)) : Prop where
  represents : ∃ m, Dict.Represents (.string getHashCode) d m ∧ AssocMap.lookup (KeyFuncs.string getHashCode).equalsTo m = f

section
variable {getHashCode : List UInt8 → UInt32} {d : Dict (List UInt8) (List UInt8)}
  {f : List UInt8 → Option (List UInt8)} {k l w : List UInt8} {i : Nat}

/-- A value is appended to, where it is. -/
theorem Holds.addRange (holds : Holds getHashCode d f) (found : d.entryAt i = some (k, w)) (lastKey buf : List UInt8) :
    ∃ d', HttpHeaders.addRange ⟨d, lastKey, some i⟩ i buf = some ⟨d', lastKey, some i⟩ ∧
      Holds getHashCode d' (Function.update f k (some (w ++ buf))) ∧ d'.entryAt i = some (k, w ++ buf) := by
  obtain ⟨m, represents, rfl⟩ := holds.represents
  have equal := (KeyFuncs.string getHashCode).equals_refl k
  obtain ⟨represents', found', -⟩ := represents.overwritten found equal (w ++ buf)
  obtain ⟨free, valid⟩ := represents.valid
  refine ⟨_, ?_, ⟨_, represents', ?_⟩, found'⟩
  · rw [HttpHeaders.addRange, valid.value_eq found]
    rfl
  · exact AssocMap.lookup_replace_present ((represents.contains_eq k).mpr ⟨i, k, w, found, equal⟩)

/-- The first piece of a value, for a key that is in the table or not. -/
theorem Holds.first (holds : Holds getHashCode d f) (sizing : Sizing) (buf : List UInt8) (alloc : Nat → Dict.Data (List UInt8) (List UInt8)) :
    ∃ d' i, HttpHeaders.onHeaderValue (.string getHashCode) sizing ⟨d, k, none⟩ buf alloc =
        some ⟨d', if f k = none then [] else k, some i⟩ ∧
      Holds getHashCode d' (Function.update f k (some ((f k).getD [] ++ buf))) ∧
      d'.entryAt i = some (k, (f k).getD [] ++ buf) := by
  obtain ⟨m, represents, rfl⟩ := holds.represents
  rcases represents.find_cases k with ⟨-, absent⟩ | ⟨i, l, v, result, found, equal, present, value⟩
  · have none' := AssocMap.lookup_eq_none absent
    obtain ⟨i, d', runs, represents', found, -⟩ := represents.added absent sizing false alloc [] false
    have holds' : Holds getHashCode d' (Function.update (AssocMap.lookup (KeyFuncs.string getHashCode).equalsTo m) k (some [])) :=
      ⟨_, represents', AssocMap.lookup_cons⟩
    obtain ⟨d'', appended, holds'', found'⟩ := holds'.addRange found [] buf
    rw [Function.update_idem] at holds''
    refine ⟨d'', i, ?_, by rwa [none'], by rwa [none']⟩
    rw [if_pos none', ← appended]
    simp only [HttpHeaders.onHeaderValue, runs, Option.bind_eq_bind, Option.bind_some, Int.toNat_natCast, if_true]
  · obtain rfl : l = k := eq_of_beq equal
    have runs := Dict.add_found result sizing false alloc [] false
    obtain ⟨d'', appended, holds'', found'⟩ := holds.addRange found l buf
    refine ⟨d'', i, ?_, by rwa [value], by rwa [value]⟩
    rw [if_neg (value ▸ Option.some_ne_none v), ← appended]
    simp only [HttpHeaders.onHeaderValue, runs, Option.bind_eq_bind, Option.bind_some, Int.toNat_natCast, Bool.false_eq_true,
      if_false]

/-- The later pieces. -/
theorem Holds.rest (holds : Holds getHashCode d f) (found : d.entryAt i = some (k, w)) (same : f k = some w)
    (sizing : Sizing) (lastKey : List UInt8) (alloc : Nat → Dict.Data (List UInt8) (List UInt8))
    (values : List (List UInt8)) : ∃ d', (values.map fun buf => HttpHeaders.Callback.onHeaderValue buf alloc).foldlM
        (HttpHeaders.call (.string getHashCode) sizing) ⟨d, lastKey, some i⟩ = some ⟨d', lastKey, some i⟩ ∧
      Holds getHashCode d' (Function.update f k (some (w ++ values.flatten))) := by
  induction values generalizing d f w with
  | nil =>
    refine ⟨d, rfl, ?_⟩
    rwa [List.flatten_nil, List.append_nil, ← same, Function.update_eq_self]
  | cons buf values ih =>
    obtain ⟨d', appended, holds', found'⟩ := holds.addRange found lastKey buf
    obtain ⟨d'', runs, holds''⟩ := ih holds' found' (Function.update_self _ _ _)
    refine ⟨d'', ?_, ?_⟩
    · rw [List.map_cons, List.foldlM_cons]
      exact (congrArg (Option.bind · _) appended).trans runs
    · rwa [Function.update_idem, List.append_assoc, ← List.flatten_cons] at holds''

/-- The pieces of a name. -/
theorem names_collected (keys : KeyFuncs (List UInt8)) (sizing : Sizing) (s : HttpHeaders) (names : List (List UInt8))
    (named : names ≠ []) : (names.map HttpHeaders.Callback.onHeaderField).foldlM (HttpHeaders.call keys sizing) s =
      some { s with lastKey := s.lastKey ++ names.flatten, lastValue := none } := by
  induction names generalizing s with
  | nil => exact absurd rfl named
  | cons buf names ih =>
    rw [List.map_cons, List.foldlM_cons]
    by_cases last : names = []
    · rw [last, List.flatten_cons, List.flatten_nil, List.append_nil]
      rfl
    · rw [List.flatten_cons, ← List.append_assoc]
      exact ih _ last

/-- The table and `lastKey`, between two lines. -/
structure Collects (getHashCode : List UInt8 → UInt32) (s : HttpHeaders) (c : Collected) : Prop where
  holds : Holds getHashCode s.headers (gather c.pairs)
  lastKey : s.lastKey = c.lastKey

theorem Collects.line {s : HttpHeaders} {c : Collected} (follows : Collects getHashCode s c) (sizing : Sizing) (line : Line) :
    ∃ s', line.callbacks.foldlM (HttpHeaders.call (.string getHashCode) sizing) s = some s' ∧
      Collects getHashCode s' (c.collect line) := by
  obtain ⟨holds, lastKey⟩ := follows
  obtain ⟨buf, values, pieces⟩ : ∃ buf values, line.values = buf :: values := by
    apply List.exists_cons_of_ne_nil
    intro none'
    exact line.valued (by rw [none', List.flatten_nil])
  obtain ⟨d', i, first, holds', found⟩ := holds.first (k := c.lastKey ++ line.name) sizing buf line.alloc
  obtain ⟨d'', runs, holds''⟩ := holds'.rest found (Function.update_self _ _ _) sizing
    (if gather c.pairs (c.lastKey ++ line.name) = none then [] else c.lastKey ++ line.name) line.alloc values
  refine ⟨⟨d'', if gather c.pairs (c.lastKey ++ line.name) = none then [] else c.lastKey ++ line.name, some i⟩, ?_, ?_, ?_⟩
  · unfold Line.callbacks
    rw [List.foldlM_append, names_collected _ _ _ _ line.named, Option.bind_eq_bind, Option.bind_some, pieces, List.map_cons,
      List.foldlM_cons, lastKey]
    exact (congrArg (Option.bind · _) first).trans runs
  · rw [Function.update_idem, List.append_assoc, ← List.flatten_cons, ← pieces] at holds''
    rw [Collected.collect, gather_concat]
    exact holds''
  · simp only [gather_eq_none, Collected.collect, ite_not]

theorem Collects.lines {s : HttpHeaders} {c : Collected} (follows : Collects getHashCode s c) (sizing : Sizing) (lines : List Line) :
    ∃ s', (lines.flatMap Line.callbacks).foldlM (HttpHeaders.call (.string getHashCode) sizing) s = some s' ∧
      Collects getHashCode s' (lines.foldl Collected.collect c) := by
  induction lines generalizing s c with
  | nil => exact ⟨s, rfl, follows⟩
  | cons line lines ih =>
    obtain ⟨s', taken, follows'⟩ := follows.line sizing line
    obtain ⟨s'', runs, follows''⟩ := ih follows'
    refine ⟨s'', ?_, follows''⟩
    rw [List.flatMap_cons, List.foldlM_append, taken]
    exact runs

/-- A header comes to its end, and the table holds what its lines add up to. -/
theorem header_collected (getHashCode : List UInt8 → UInt32) (sizing : Sizing) (s : HttpHeaders)
    (before : ∃ m, Dict.Represents (.string getHashCode) s.headers m) (lines : List Line) :
    ∃ s', (headerCallbacks lines).foldlM (HttpHeaders.call (.string getHashCode) sizing) s = some s' ∧
      Holds getHashCode s'.headers (gather (lines.foldl Collected.collect {}).pairs) := by
  obtain ⟨m, represents⟩ := before
  have cleared : Collects getHashCode ⟨s.headers.clear, [], none⟩ {} := by
    refine ⟨⟨[], represents.cleared, ?_⟩, rfl⟩
    funext k
    rfl
  obtain ⟨s', runs, follows⟩ := cleared.lines sizing lines
  refine ⟨{ s' with lastValue := none }, ?_, follows.holds⟩
  rw [headerCallbacks, List.cons_append, List.foldlM_cons]
  change (lines.flatMap Line.callbacks ++ [HttpHeaders.Callback.onHeadersComplete]).foldlM (HttpHeaders.call (.string getHashCode) sizing)
    ⟨s.headers.clear, [], none⟩ = _
  rw [List.foldlM_append, runs]
  rfl

end

end Xxlib.Uv4
