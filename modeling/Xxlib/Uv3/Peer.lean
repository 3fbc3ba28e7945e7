import Mathlib.Data.List.Nodup
import Mathlib.Logic.Function.Basic
import Xxlib.Lib.Bytes
import Xxlib.Lib.Growing

/-! Requests of `UvTcpPeer` and `UvUdpKcpPeer` (`test_uv_3/xx_uv.h`).

A callback is called while its entry is in the map, by code that then goes on with an iterator:
`HandlePack` and `TimeoutCallback` erase the entry, `Dispose` visits the next one. Calls that a
callback makes on the same peer come in between. The map is a list in the order of iteration; an
insertion that needs more buckets gives a new order, and makes all iterators invalid.
-/

set_option autoImplicit false

namespace Xxlib.Uv3

open Lib

/-- Where the two peers differ: when `Dispose` gives up the connection, and whether a package that cannot be sent
leads to `Dispose`. -/
structure PeerKind where
  closesFirst : Bool
  failureDisposes : Bool

def uvTcpPeer : PeerKind := ⟨false, true⟩

def uvUdpKcpPeer : PeerKind := ⟨true, false⟩

/-- Code that waits for a callback to return, with the iterator it goes on with: the serial that it points to, and
whether it is valid. -/
inductive Frame where
  | erasing (serial : Int) (valid : Bool)
  | visiting (serial : Int) (valid : Bool)
  deriving DecidableEq

/-- An iterator to an entry of which `gone` holds is no longer valid. -/
def Frame.invalidate (gone : Int → Bool) : Frame → Frame
  | .erasing serial valid => .erasing serial (valid && !gone serial)
  | .visiting serial valid => .visiting serial (valid && !gone serial)

/-- What the callback of a request is to be called with. -/
inductive Due (M : Type) where
  | pending
  | settled (argument : Option M)

def Due.settle {M : Type} (argument : Option M) : Due M → Due M
  | .pending => .settled argument
  | due => due

/-- A call of the callback of a request; `none` is the null pointer. -/
structure PeerCall (M : Type) where
  request : Nat
  argument : Option M

/-- The fields, the code that runs, and what happened so far: the serials of the requests that were sent, in their
order, what their callbacks are to be called with, and the calls. -/
structure Peer (M : Type) where
  active : Bool := true
  serial : Int := 0
  callbacks : List (Int × Nat) := []
  buckets : Nat
  stack : List Frame := []
  requests : List Int := []
  due : Nat → Due M := fun _ => .pending
  calls : List (PeerCall M) := []

namespace Peer

variable {M : Type}

/-! ## Calls -/

def find (s : Peer M) (serial : Int) : Option Nat := (s.callbacks.find? fun entry => entry.1 = serial).map Prod.snd

/-- The callback of the request is called. -/
def call (s : Peer M) (request : Nat) (argument : Option M) (frame : Frame) : Peer M :=
  { s with calls := s.calls ++ [⟨request, argument⟩], stack := frame :: s.stack }

/-- What happened to the requests with this serial. -/
def settle (s : Peer M) (serial : Int) (argument : Option M) : Peer M :=
  { s with due := fun request =>
      if s.requests[request]? = some serial then (s.due request).settle argument else s.due request }

/-- The callback is called, and its entry erased when it returns. -/
def answer (s : Peer M) (serial : Int) (argument : Option M) : Peer M :=
  match s.find serial with
  | none => s.settle serial argument
  | some request => (s.settle serial argument).call request argument (.erasing serial true)

/-- `HandlePack`, for a response. -/
def handlePack (s : Peer M) (serial : Int) (msg : M) : Peer M := s.answer serial (some msg)

def timeoutCallback (s : Peer M) (serial : Int) : Peer M := s.answer serial none

/-- The loop of `Dispose`, with the entries that are still to be visited, and what follows. -/
def visit (s : Peer M) : List (Int × Nat) → Peer M
  | [] => { s with
      active := false
      callbacks := []
      stack := s.stack.map (Frame.invalidate fun _ => true) }
  | (serial, request) :: _ => s.call request none (.visiting serial true)

def dispose (kind : PeerKind) (s : Peer M) : Peer M :=
  if s.active then
    { s with
      active := !kind.closesFirst
      due := fun request => if request < s.requests.length then (s.due request).settle none else s.due request }.visit
        s.callbacks
  else s

/-- The entries behind that with the serial. -/
def after (serial : Int) (entries : List (Int × Nat)) : List (Int × Nat) :=
  (entries.dropWhile fun entry => entry.1 ≠ serial).tail

/-- The callback that runs returns. An iterator that is not valid cannot be used. -/
def returned (s : Peer M) : Option (Peer M) :=
  match s.stack with
  | [] => none
  | .erasing serial valid :: rest =>
      if valid then
        some { s with
          callbacks := s.callbacks.filter fun entry => entry.1 ≠ serial
          stack := rest.map (Frame.invalidate fun other => other = serial) }
      else none
  | .visiting serial valid :: rest => if valid then some ({ s with stack := rest }.visit (after serial s.callbacks)) else none

/-- How a call of `SendRequest` goes: the timer cannot be started, the package cannot be sent, or it is sent; then the
entries have this order, and the map this number of buckets. -/
inductive Sending where
  | noTimer
  | failed
  | sent (order : List (Int × Nat)) (buckets : Nat)

/-- What `callbacks[serial] = v` can lead to. Without more buckets, the others keep their order. -/
def Inserts (s : Peer M) (entry : Int × Nat) (order : List (Int × Nat)) (buckets : Nat) : Prop :=
  if (s.find entry.1).isSome then
    order = s.callbacks.map (fun other => if other.1 = entry.1 then entry else other) ∧ buckets = s.buckets
  else if s.callbacks.length + 1 ≤ s.buckets then
    buckets = s.buckets ∧ ∃ front back, s.callbacks = front ++ back ∧ order = front ++ entry :: back
  else order.Perm (entry :: s.callbacks)

/-- Whether an insertion may need more buckets. -/
def Rehashes (s : Peer M) : Prop := s.buckets < s.callbacks.length + 1

instance (s : Peer M) : Decidable s.Rehashes := inferInstanceAs (Decidable (_ < _))

/-- The next serial is drawn. -/
def draw (s : Peer M) : Peer M := { s with serial := toInt32 (s.serial + 1) }

def SendsRequest (kind : PeerKind) (s : Peer M) : Sending → Peer M → Prop
  | .noTimer, s' => s' = if s.active then s.draw else s
  | .failed, s' => s' = if s.active then (if kind.failureDisposes then s.draw.dispose kind else s.draw) else s
  | .sent order buckets, s' =>
      if s.active then
        s.draw.Inserts (s.draw.serial, s.requests.length) order buckets ∧
          s' = { s.draw with
            callbacks := order
            buckets := buckets
            stack := if s.Rehashes then s.stack.map (Frame.invalidate fun _ => true) else s.stack
            requests := s.requests ++ [s.draw.serial] }
      else s' = s

/-! ## Runs -/

inductive Act (M : Type) where
  | sendRequest (sending : Sending)
  | handlePack (serial : Int) (msg : M)
  | timeoutCallback (serial : Int)
  | dispose
  | returned

def Steps (kind : PeerKind) (s : Peer M) : Act M → Peer M → Prop
  | .sendRequest sending, s' => s.SendsRequest kind sending s'
  | .handlePack serial msg, s' => s' = s.handlePack serial msg
  | .timeoutCallback serial, s' => s' = s.timeoutCallback serial
  | .dispose, s' => s' = s.dispose kind
  | .returned, s' => s.returned = some s'

/-- Packages and timeouts come from the event loop, and so not while a callback runs. -/
def Allowed (s : Peer M) : Act M → Prop
  | .handlePack _ _ | .timeoutCallback _ => s.stack = []
  | .returned => s.stack ≠ []
  | _ => True

/-- What a callback may do: while `HandlePack` or `TimeoutCallback` waits for it, it does not dispose of an active peer,
also not by a package that cannot be sent, and its requests do not need more buckets. While the loop of `Dispose` waits
for it, and the peer is still active, it does neither of these, and sends no request. -/
def Safe (kind : PeerKind) (s : Peer M) : Act M → Prop
  | .dispose => s.active = true → s.stack = []
  | .sendRequest .failed => s.active = true → s.serial + 1 < 2 ^ 31 ∧ (kind.failureDisposes = true → s.stack = [])
  | .sendRequest .noTimer => s.active = true → s.serial + 1 < 2 ^ 31
  | .sendRequest (.sent _ _) => s.active = true → s.serial + 1 < 2 ^ 31 ∧
      ∀ frame ∈ s.stack, (∃ serial valid, frame = .erasing serial valid) ∧ ¬ s.Rehashes
  | _ => True

inductive Run (kind : PeerKind) (guard : Peer M → Act M → Prop) : Peer M → Prop where
  | fresh (buckets : Nat) : Run kind guard { buckets := buckets }
  | step {s s' : Peer M} (act : Act M) (before : Run kind guard s) (meets : guard s act) (steps : s.Steps kind act s') :
      Run kind guard s'

/-- Every callback is called at most once, with what it is to be called with, and once when the peer was disposed
of. -/
structure Settled (s : Peer M) : Prop where
  once : (s.calls.map PeerCall.request).Nodup
  calls : ∀ call ∈ s.calls, s.due call.request = .settled call.argument
  disposed : s.active = false → s.stack = [] → ∀ request < s.requests.length, request ∈ s.calls.map PeerCall.request

/-! ## The invariant -/

/-- The entries whose callbacks were not yet called. -/
def waiting (s : Peer M) : List (Int × Nat) :=
  match s.stack with
  | [] => s.callbacks
  | .erasing serial _ :: _ => s.callbacks.filter fun entry => entry.1 ≠ serial
  | .visiting serial _ :: _ => after serial s.callbacks

/-- What they are to be called with, for all we know. -/
def expected (s : Peer M) : Due M :=
  match s.stack with
  | .visiting _ _ :: _ => .settled none
  | _ => .pending

structure Core (s : Peer M) (waiting : List (Int × Nat)) (expected : Due M) : Prop where
  nonneg : 0 ≤ s.serial
  bounded : ∀ serial ∈ s.requests, serial ≤ s.serial
  distinct : s.requests.Nodup
  entries : ∀ entry ∈ s.callbacks, s.requests[entry.2]? = some entry.1
  keys : (s.callbacks.map Prod.fst).Nodup
  subset : ∀ entry ∈ waiting, entry ∈ s.callbacks
  known : ∀ request < s.requests.length, request ∈ s.calls.map PeerCall.request ∨ request ∈ waiting.map Prod.snd
  uncalled : ∀ entry ∈ waiting, entry.2 ∉ s.calls.map PeerCall.request
  due : ∀ entry ∈ waiting, s.due entry.2 = expected
  calls : ∀ call ∈ s.calls, call.request < s.requests.length ∧ s.due call.request = .settled call.argument
  once : (s.calls.map PeerCall.request).Nodup
  fresh : ∀ request, s.requests.length ≤ request → s.due request = .pending

/-- At most one callback runs, and the iterator behind it is valid. -/
structure Inv (s : Peer M) : Prop where
  core : Core s s.waiting s.expected
  frame : s.stack = [] ∨ (∃ serial ∈ s.callbacks.map Prod.fst, s.stack = [.erasing serial true] ∧ s.active = true) ∨
    ∃ serial ∈ s.callbacks.map Prod.fst, s.stack = [.visiting serial true]
  gone : s.active = false → s.stack = [] → s.callbacks = []

section
variable {s : Peer M} {waiting waiting' : List (Int × Nat)} {expected : Due M} {entry : Int × Nat} {argument : Option M}

theorem Inv.settled (inv : Inv s) : Settled s := by
  have core := inv.core
  refine ⟨core.once, fun call member => (core.calls call member).2, fun closed quiet request inside => ?_⟩
  rcases core.known request inside with called | left
  · exact called
  · rw [Peer.waiting, quiet] at left
    simp only [inv.gone closed quiet, List.map_nil] at left
    cases left

theorem Core.entry_eq (core : Core s waiting expected) {other : Int × Nat} (member : entry ∈ s.callbacks)
    (member' : other ∈ s.callbacks) (same : entry.2 = other.2) : entry = other := by
  have first := core.entries entry member
  rw [same, core.entries other member'] at first
  exact Prod.ext (Option.some.inj first).symm same

theorem Core.request_eq (core : Core s waiting expected) {first second : Nat} {serial : Int}
    (number : s.requests[first]? = some serial) (number' : s.requests[second]? = some serial) : first = second :=
  (List.getElem?_inj (List.getElem?_eq_some_iff.mp number).1 core.distinct).mp (number.trans number'.symm)

/-- One of the waiting callbacks is called. -/
theorem Core.call (core : Core s waiting expected) {due : Nat → Due M} (member : entry ∈ waiting)
    (others : ∀ other ∈ waiting', other ∈ waiting ∧ other ≠ entry) (cover : ∀ other ∈ waiting, other = entry ∨ other ∈ waiting')
    (here : due entry.2 = .settled argument) (same : ∀ request, request ≠ entry.2 → due request = s.due request)
    (frame : Frame) : Core ({ s with due := due }.call entry.2 argument frame) waiting' expected := by
  have inside : entry.2 < s.requests.length :=
    (List.getElem?_eq_some_iff.mp (core.entries entry (core.subset entry member))).1
  -- a request number stands in one entry only
  have apart : ∀ other ∈ waiting', other.2 ≠ entry.2 := fun other left numbers => (others other left).2
    (core.entry_eq (core.subset other (others other left).1) (core.subset entry member) numbers)
  have calls : ∀ request, request ∈ (s.calls ++ [PeerCall.mk entry.2 argument]).map PeerCall.request ↔
      request ∈ s.calls.map PeerCall.request ∨ request = entry.2 := by
    intro request
    rw [List.map_append, List.mem_append, List.map_singleton, List.mem_singleton]
  constructor
  case nonneg => exact core.nonneg
  case bounded => exact core.bounded
  case distinct => exact core.distinct
  case entries => exact core.entries
  case keys => exact core.keys
  case subset => exact fun other left => core.subset other (others other left).1
  case known =>
    intro request known
    dsimp only [Peer.call] at known ⊢
    rw [calls]
    rcases core.known request known with called | left
    · exact .inl (.inl called)
    · obtain ⟨other, there, rfl⟩ := List.mem_map.mp left
      rcases cover other there with rfl | still
      · exact .inl (.inr rfl)
      · exact .inr (List.mem_map_of_mem still)
  case uncalled =>
    intro other left
    dsimp only [Peer.call]
    rw [calls]
    rintro (called | number)
    · exact core.uncalled other (others other left).1 called
    · exact apart other left number
  case due =>
    intro other left
    exact (same _ (apart other left)).trans (core.due other (others other left).1)
  case calls =>
    intro call there
    rcases List.mem_append.mp there with old | new
    · obtain ⟨known, settled⟩ := core.calls call old
      refine ⟨known, (same _ fun number => ?_).trans settled⟩
      exact core.uncalled entry member (number ▸ List.mem_map_of_mem old)
    · cases List.mem_singleton.mp new
      exact ⟨inside, here⟩
  case once =>
    dsimp only [Peer.call]
    rw [List.map_append, List.map_singleton, ← List.concat_eq_append]
    exact core.once.concat (core.uncalled entry member)
  case fresh =>
    intro request beyond
    refine (same request fun number => ?_).trans (core.fresh request beyond)
    dsimp only [Peer.call] at beyond
    omega

theorem find_eq_some {serial : Int} {request : Nat} (found : s.find serial = some request) :
    (serial, request) ∈ s.callbacks := by
  obtain ⟨entry, at', rfl⟩ := Option.map_eq_some_iff.mp found
  have key : entry.1 = serial := by simpa using List.find?_some at'
  rw [← key]
  exact List.mem_of_find?_eq_some at'

theorem find_eq_none {serial : Int} (absent : s.find serial = none) : ∀ entry ∈ s.callbacks, entry.1 ≠ serial := by
  intro entry member key
  rw [find, Option.map_eq_none_iff, List.find?_eq_none] at absent
  exact absent entry member (by simpa using key)

/-- Nothing happens to a request whose callback is not waiting. -/
theorem Core.settle_absent (core : Core s s.callbacks .pending) {serial : Int} (absent : s.find serial = none) :
    s.settle serial argument = s := by
  have same : (fun request =>
      if s.requests[request]? = some serial then (s.due request).settle argument else s.due request) = s.due := by
    funext request
    split
    next number =>
      rcases core.known request (List.getElem?_eq_some_iff.mp number).1 with called | left
      · obtain ⟨call, member, rfl⟩ := List.mem_map.mp called
        rw [(core.calls call member).2]
        rfl
      · obtain ⟨entry, member, rfl⟩ := List.mem_map.mp left
        rw [core.entries entry member] at number
        exact absurd (Option.some.inj number) (find_eq_none absent entry member)
    next => rfl
  unfold settle
  rw [same]

theorem Inv.answer (inv : Inv s) (quiet : s.stack = []) (serial : Int) (argument : Option M) :
    Inv (s.answer serial argument) := by
  have core := inv.core
  rw [Peer.waiting, Peer.expected, quiet] at core
  unfold Peer.answer
  cases found : s.find serial with
  | none =>
    -- a late answer or timeout finds nothing under its serial
    dsimp only
    rw [core.settle_absent found]
    exact inv
  | some request =>
    have member := find_eq_some found
    have number := core.entries _ member
    dsimp only at number
    -- the entry stays in the map while its callback runs, but no longer waits
    have taken : Core ((s.settle serial argument).call request argument (.erasing serial true))
        (s.callbacks.filter fun entry => entry.1 ≠ serial) .pending := by
      refine core.call member ?others ?cover ?here ?same _
      case others =>
        intro other left
        obtain ⟨there, key⟩ := List.mem_filter.mp left
        exact ⟨there, fun same => by simp [same] at key⟩
      case cover =>
        intro other there
        by_cases key : other.1 = serial
        · have number' := core.entries other there
          rw [key] at number'
          exact .inl (Prod.ext key (core.request_eq number' number))
        · exact .inr (List.mem_filter.mpr ⟨there, by simpa using key⟩)
      case here =>
        dsimp only
        rw [if_pos number, core.due _ member]
        rfl
      case same =>
        intro other different
        exact if_neg fun number' => different (core.request_eq number' number)
    have active : s.active = true := by
      by_contra closed
      rw [inv.gone (Bool.not_eq_true _ ▸ closed) quiet] at member
      cases member
    have stack : ((s.settle serial argument).call request argument (.erasing serial true)).stack = [.erasing serial true] :=
      congrArg _ quiet
    refine ⟨?_, .inr (.inl ⟨serial, List.mem_map_of_mem member, stack, active⟩), fun _ empty => ?_⟩
    · rw [Peer.waiting, Peer.expected, stack]
      exact taken
    · rw [stack] at empty
      cases empty

theorem after_append {serial : Int} {request : Nat} {front back : List (Int × Nat)}
    (keys : ((front ++ (serial, request) :: back).map Prod.fst).Nodup) :
    after serial (front ++ (serial, request) :: back) = back := by
  induction front with
  | nil => simp [after]
  | cons head front ih =>
    obtain ⟨absent, keys⟩ := List.nodup_cons.mp keys
    have different : head.1 ≠ serial := fun same => absent (by simp [same])
    refine Eq.trans ?_ (ih keys)
    simp [after, different]

theorem split_key {serial : Int} {entries : List (Int × Nat)} (key : serial ∈ entries.map Prod.fst) :
    ∃ front request back, entries = front ++ (serial, request) :: back := by
  obtain ⟨⟨_, request⟩, member, rfl⟩ := List.mem_map.mp key
  obtain ⟨front, back, shape⟩ := List.append_of_mem member
  exact ⟨front, request, back, shape⟩

/-- `Dispose` goes on with the entries that are left. -/
theorem Core.visit (core : Core s waiting (.settled none)) (empty : s.stack = []) {front : List (Int × Nat)}
    (shape : s.callbacks = front ++ waiting) : Inv (s.visit waiting) := by
  cases waiting with
  | nil =>
    -- the walk is over, and `callbacks` is cleared
    refine ⟨?_, .inl (by simp [Peer.visit, empty]), fun _ _ => rfl⟩
    simp only [Peer.visit, Peer.waiting, Peer.expected, empty, List.map_nil]
    refine ⟨core.nonneg, core.bounded, core.distinct, ?_, List.nodup_nil, fun _ member => member, core.known, ?_, ?_,
      core.calls, core.once, core.fresh⟩
    all_goals exact fun _ member => nomatch member
  | cons entry rest =>
    obtain ⟨serial, request⟩ := entry
    have keys := core.keys
    rw [shape] at keys
    have behind : after serial s.callbacks = rest := by
      rw [shape]
      exact after_append keys
    have nodup : ((serial, request) :: rest).Nodup := by
      apply List.Nodup.of_map Prod.fst
      rw [List.map_append] at keys
      exact (List.nodup_append.mp keys).2.1
    have called : Core (s.call request none (.visiting serial true)) rest (.settled none) := by
      refine core.call List.mem_cons_self ?others ?cover (core.due _ List.mem_cons_self) (fun _ _ => rfl) _
      case others =>
        intro other member
        exact ⟨List.mem_cons_of_mem _ member, fun same => (List.nodup_cons.mp nodup).1 (same ▸ member)⟩
      case cover => exact fun other member => List.mem_cons.mp member
    have stack : (s.call request none (.visiting serial true)).stack = [.visiting serial true] := congrArg _ empty
    have key : serial ∈ s.callbacks.map Prod.fst := by simp [shape]
    refine ⟨?_, .inr (.inr ⟨serial, key, stack⟩), fun _ quiet => ?_⟩
    · rw [Peer.visit, Peer.waiting, Peer.expected, stack]
      dsimp only
      rw [show (s.call request none (.visiting serial true)).callbacks = s.callbacks from rfl, behind]
      exact called
    · rw [Peer.visit, stack] at quiet
      cases quiet

theorem Inv.dispose (inv : Inv s) (kind : PeerKind) (quiet : s.active = true → s.stack = []) : Inv (s.dispose kind) := by
  unfold Peer.dispose
  split
  next active =>
    have empty := quiet active
    have core := inv.core
    rw [Peer.waiting, Peer.expected, empty] at core
    refine Core.visit ⟨core.nonneg, core.bounded, core.distinct, core.entries, core.keys, core.subset, core.known,
      core.uncalled, fun entry member => ?_, fun call member => ?_, core.once, fun request beyond => ?_⟩ empty
      (List.nil_append s.callbacks).symm
    · have inside := (List.getElem?_eq_some_iff.mp (core.entries entry member)).1
      dsimp only
      rw [if_pos inside, core.due entry member]
      rfl
    · obtain ⟨inside, settled⟩ := core.calls call member
      dsimp only
      rw [if_pos inside, settled]
      exact ⟨inside, rfl⟩
    · dsimp only at beyond ⊢
      rw [if_neg (Nat.not_lt.mpr beyond)]
      exact core.fresh request beyond
  next => exact inv

/-- The callback that runs can return, and `Dispose` has one entry less before it. -/
theorem Inv.returned (inv : Inv s) (busy : s.stack ≠ []) : ∃ s', s.returned = some s' ∧ Inv s' ∧
    ∀ serial valid rest, s.stack = .visiting serial valid :: rest →
      s'.stack = [] ∨ s'.waiting.length < s.waiting.length := by
  have core := inv.core
  rcases inv.frame with quiet | ⟨serial, key, stack, active⟩ | ⟨serial, key, stack⟩
  · exact absurd quiet busy
  · -- the callback of an answer returns, and its entry is erased
    rw [Peer.waiting, Peer.expected, stack] at core
    refine ⟨_, by rw [Peer.returned, stack]; rfl, ⟨?_, .inl rfl, fun closed => ?_⟩, fun _ _ _ other => ?_⟩
    · refine ⟨core.nonneg, core.bounded, core.distinct, ?_, ?_, fun _ member => member, core.known, core.uncalled,
        core.due, core.calls, core.once, core.fresh⟩
      · exact fun entry member => core.entries entry (List.mem_of_mem_filter member)
      · exact core.keys.sublist (List.filter_sublist.map _)
    · rw [active] at closed
      cases closed
    · rw [stack] at other
      cases other
  · rw [Peer.waiting, Peer.expected, stack] at core
    -- a callback of the walk returns, and the walk goes on behind it
    obtain ⟨front, request, back, shape⟩ := split_key key
    have keys := core.keys
    rw [shape] at keys
    have behind : after serial s.callbacks = back := by
      rw [shape]
      exact after_append keys
    dsimp only at core
    rw [behind] at core
    have core' : Core { s with stack := [] } back (.settled none) :=
      ⟨core.nonneg, core.bounded, core.distinct, core.entries, core.keys, core.subset, core.known, core.uncalled,
        core.due, core.calls, core.once, core.fresh⟩
    have shape' : s.callbacks = (front ++ [(serial, request)]) ++ back := by
      rw [shape, List.append_assoc]
      rfl
    refine ⟨{ s with stack := [] }.visit back, ?_, core'.visit rfl shape', fun _ _ _ _ => ?_⟩
    · rw [Peer.returned, stack]
      dsimp only
      rw [if_pos rfl, behind]
    · cases back with
      | nil => exact .inl rfl
      | cons entry rest =>
        right
        have following : ({ s with stack := [] }.visit (entry :: rest)).waiting = rest := by
          have keys' := core.keys
          rw [shape'] at keys'
          dsimp only [Peer.visit, Peer.call, Peer.waiting]
          rw [shape']
          exact after_append keys'
        rw [following, Peer.waiting, stack]
        dsimp only
        rw [behind]
        exact Nat.lt_succ_self _

theorem Core.draw (core : Core s waiting expected) (small : s.serial + 1 < 2 ^ 31) :
    Core s.draw waiting expected ∧ s.draw.serial = s.serial + 1 := by
  have nonneg := core.nonneg
  have next : s.draw.serial = s.serial + 1 := toInt32_of_lt (by omega) small
  refine ⟨⟨by omega, fun serial member => ?_, core.distinct, core.entries, core.keys, core.subset, core.known, core.uncalled,
    core.due, core.calls, core.once, core.fresh⟩, next⟩
  have bound := core.bounded serial member
  omega

theorem Inv.draw (inv : Inv s) (small : s.serial + 1 < 2 ^ 31) : Inv s.draw :=
  ⟨(inv.core.draw small).1, inv.frame, inv.gone⟩

/-- A key that is not in the map is inserted. -/
theorem Inserts.perm {order : List (Int × Nat)} {buckets : Nat} (inserts : s.Inserts entry order buckets)
    (absent : s.find entry.1 = none) : order.Perm (entry :: s.callbacks) := by
  unfold Inserts at inserts
  rw [absent, if_neg (by simp)] at inserts
  split at inserts
  next =>
    obtain ⟨-, front, back, shape, rfl⟩ := inserts
    rw [shape]
    exact List.perm_middle
  next => exact inserts

theorem Core.unused (core : Core s waiting expected) {serial : Int} (beyond : s.serial < serial) : s.find serial = none := by
  cases found : s.find serial with
  | none => rfl
  | some request =>
    have number := core.entries _ (find_eq_some found)
    have bound := core.bounded serial (List.mem_of_getElem? number)
    omega

/-- A request is entered, whose callback waits from now on. -/
theorem Core.sent (core : Core s waiting .pending) (small : s.serial + 1 < 2 ^ 31) {order : List (Int × Nat)} {buckets : Nat}
    {stack : List Frame} (perm : order.Perm ((s.draw.serial, s.requests.length) :: s.callbacks))
    (left : ∀ entry, entry ∈ waiting' ↔ entry = (s.draw.serial, s.requests.length) ∨ entry ∈ waiting) :
    Core { s.draw with
      callbacks := order, buckets := buckets, stack := stack, requests := s.requests ++ [s.draw.serial] } waiting' .pending := by
  have next := (core.draw small).2
  have nonneg := core.nonneg
  -- the new serial is above all that were drawn, which keeps serials and keys distinct
  have older : ∀ serial ∈ s.requests, serial < s.draw.serial := by
    intro serial member
    have bound := core.bounded serial member
    omega
  have unused : s.requests.length ∉ s.calls.map PeerCall.request := by
    intro called
    obtain ⟨call, member, same⟩ := List.mem_map.mp called
    have inside := (core.calls call member).1
    omega
  constructor
  case nonneg =>
    dsimp only
    omega
  case bounded =>
    intro serial member
    rcases List.mem_append.mp member with before | last
    · exact Int.le_of_lt (older serial before)
    · exact Int.le_of_eq (List.mem_singleton.mp last)
  case distinct =>
    rw [← List.concat_eq_append]
    exact core.distinct.concat fun before => Int.lt_irrefl _ (older _ before)
  case entries =>
    intro entry member
    rcases List.mem_cons.mp (perm.mem_iff.mp member) with rfl | before
    · exact List.getElem?_concat_length
    · exact getElem?_append_of_some (core.entries entry before)
  case keys =>
    refine (perm.map Prod.fst).nodup_iff.mpr (List.nodup_cons.mpr ⟨fun member => ?_, core.keys⟩)
    obtain ⟨entry, there, same⟩ := List.mem_map.mp member
    have smaller := older entry.1 (List.mem_of_getElem? (core.entries entry there))
    rw [same] at smaller
    exact Int.lt_irrefl _ smaller
  case subset =>
    intro entry member
    refine perm.mem_iff.mpr ?_
    rcases (left entry).mp member with rfl | before
    · exact List.mem_cons_self
    · exact List.mem_cons_of_mem _ (core.subset entry before)
  case known =>
    intro request inside
    rw [List.length_append, List.length_singleton] at inside
    by_cases last : request = s.requests.length
    · exact .inr (List.mem_map.mpr ⟨_, (left _).mpr (.inl rfl), last.symm⟩)
    · rcases core.known request (by omega) with called | before
      · exact .inl called
      · obtain ⟨entry, there, rfl⟩ := List.mem_map.mp before
        exact .inr (List.mem_map_of_mem ((left entry).mpr (.inr there)))
  case uncalled =>
    intro entry member
    rcases (left entry).mp member with rfl | before
    · exact unused
    · exact core.uncalled entry before
  case due =>
    intro entry member
    rcases (left entry).mp member with rfl | before
    · exact core.fresh _ (Nat.le_refl _)
    · exact core.due entry before
  case calls =>
    intro call member
    obtain ⟨inside, settled⟩ := core.calls call member
    refine ⟨?_, settled⟩
    rw [List.length_append, List.length_singleton]
    exact Nat.lt_succ_of_lt inside
  case once => exact core.once
  case fresh =>
    intro request beyond
    rw [List.length_append, List.length_singleton] at beyond
    exact core.fresh request (Nat.le_of_succ_le beyond)

/-- A request from the outside, or from a callback whose entry is erased when it returns. -/
theorem Inv.sent (inv : Inv s) (active : s.active = true) (small : s.serial + 1 < 2 ^ 31)
    (frames : ∀ frame ∈ s.stack, (∃ serial valid, frame = .erasing serial valid) ∧ ¬ s.Rehashes)
    {order : List (Int × Nat)} {buckets : Nat}
    (inserts : s.draw.Inserts (s.draw.serial, s.requests.length) order buckets) :
    Inv { s.draw with
      callbacks := order
      buckets := buckets
      stack := if s.Rehashes then s.stack.map (Frame.invalidate fun _ => true) else s.stack
      requests := s.requests ++ [s.draw.serial] } := by
  have core := inv.core
  obtain ⟨-, next⟩ := core.draw small
  have absent : s.find s.draw.serial = none := core.unused (by omega)
  have perm : order.Perm ((s.draw.serial, s.requests.length) :: s.callbacks) := inserts.perm absent
  -- a rehash would make the iterator of a running callback invalid, and is excluded
  have stack : (if s.Rehashes then s.stack.map (Frame.invalidate fun _ => true) else s.stack) = s.stack := by
    split
    next rehashes =>
      cases at' : s.stack with
      | nil => rfl
      | cons frame rest => exact absurd rehashes (frames frame (by simp [at'])).2
    next => rfl
  rw [stack]
  rcases inv.frame with quiet | ⟨serial, key, busy, -⟩ | ⟨serial, key, busy⟩
  · rw [Peer.waiting, Peer.expected, quiet] at core
    refine ⟨?_, .inl quiet, fun closed => ?_⟩
    · rw [Peer.waiting, Peer.expected]
      dsimp only
      rw [quiet]
      exact core.sent small perm fun entry => perm.mem_iff.trans List.mem_cons
    · rw [show s.draw.active = s.active from rfl, active] at closed
      cases closed
  · rw [Peer.waiting, Peer.expected, busy] at core
    have different : s.draw.serial ≠ serial := by
      rintro rfl
      obtain ⟨front, request, back, shape⟩ := split_key key
      exact find_eq_none absent (s.draw.serial, request) (by simp [shape]) rfl
    have left : ∀ entry, entry ∈ (order.filter fun entry => entry.1 ≠ serial) ↔
        entry = (s.draw.serial, s.requests.length) ∨ entry ∈ s.callbacks.filter fun entry => entry.1 ≠ serial := by
      intro entry
      rw [List.mem_filter, perm.mem_iff, List.mem_cons, List.mem_filter]
      constructor
      · rintro ⟨rfl | there, other⟩
        · exact .inl rfl
        · exact .inr ⟨there, other⟩
      · rintro (rfl | ⟨there, other⟩)
        · exact ⟨.inl rfl, by simpa using different⟩
        · exact ⟨.inr there, other⟩
    have key' : serial ∈ order.map Prod.fst := (perm.map Prod.fst).mem_iff.mpr (List.mem_cons_of_mem _ key)
    refine ⟨?_, .inr (.inl ⟨serial, key', busy, active⟩), fun _ empty => ?_⟩
    · rw [Peer.waiting, Peer.expected]
      dsimp only
      rw [busy]
      exact core.sent small perm left
    · rw [busy] at empty
      cases empty
  · -- no request is sent from a callback of the walk
    obtain ⟨⟨_, _, other⟩, -⟩ := frames (.visiting serial true) (by simp [busy])
    cases other

end

/-- The loop of `Dispose` waits for a callback. -/
def Disposing (s : Peer M) : Prop := ∃ serial valid rest, s.stack = .visiting serial valid :: rest

/-- Each return takes the loop of `Dispose` to a later entry or to its end, and no other step takes it back. -/
def Winds (kind : PeerKind) (s : Peer M) : Prop :=
  (∀ s', s.returned = some s' → s'.stack = [] ∨ s'.waiting.length < s.waiting.length) ∧
    ∀ act s', s.Allowed act → s.Safe kind act → s.Steps kind act s' → act ≠ .returned →
      s'.stack = s.stack ∧ s'.callbacks = s.callbacks

section
variable {s s' : Peer M} {kind : PeerKind} {act : Act M}

theorem Inv.step (inv : Inv s) (allowed : s.Allowed act) (safe : s.Safe kind act) (steps : s.Steps kind act s') : Inv s' := by
  cases act with
  | sendRequest sending =>
    by_cases active : s.active = true
    · cases sending with
      | noTimer =>
        simp only [Steps, SendsRequest, active, ↓reduceIte] at steps
        rw [steps]
        exact inv.draw (safe active)
      | failed =>
        obtain ⟨small, quiet⟩ := safe active
        simp only [Steps, SendsRequest, active, ↓reduceIte] at steps
        rw [steps]
        split
        next disposes => exact (inv.draw small).dispose kind fun _ => quiet disposes
        next => exact inv.draw small
      | sent order buckets =>
        obtain ⟨small, frames⟩ := safe active
        simp only [Steps, SendsRequest, active, ↓reduceIte] at steps
        rw [steps.2]
        exact inv.sent active small frames steps.1
    · have same : s' = s := by cases sending <;> simpa [Steps, SendsRequest, active] using steps
      rw [same]
      exact inv
  | handlePack serial msg =>
    rw [show s' = s.answer serial (some msg) from steps]
    exact inv.answer allowed serial (some msg)
  | timeoutCallback serial =>
    rw [show s' = s.answer serial none from steps]
    exact inv.answer allowed serial none
  | dispose =>
    rw [show s' = s.dispose kind from steps]
    exact inv.dispose kind safe
  | returned =>
    obtain ⟨next, done, inv', -⟩ := inv.returned allowed
    cases done.symm.trans steps
    exact inv'

theorem run_inv (run : Run kind (fun s act => s.Allowed act ∧ s.Safe kind act) s) : Inv s := by
  induction run with
  | fresh buckets =>
    refine ⟨⟨Int.le_refl _, ?_, List.nodup_nil, ?_, List.nodup_nil, ?_, ?_, ?_, ?_, ?_, List.nodup_nil, fun _ _ => rfl⟩,
      .inl rfl, fun _ _ => rfl⟩
    all_goals simp [Peer.waiting]
  | step act before meets steps ih => exact ih.step meets.1 meets.2 steps

theorem Inv.winds (inv : Inv s) (disposing : s.Disposing) : Winds kind s := by
  obtain ⟨serial, valid, rest, stack⟩ := disposing
  have busy : s.stack ≠ [] := by rw [stack]; exact List.cons_ne_nil _ _
  refine ⟨fun s' done => ?_, fun act s' allowed safe steps other => ?_⟩
  · obtain ⟨next, done', -, fewer⟩ := inv.returned busy
    cases done'.symm.trans done
    exact fewer serial valid rest stack
  · cases act with
    | sendRequest sending =>
      by_cases active : s.active = true
      · cases sending with
        | noTimer =>
          simp only [Steps, SendsRequest, active, ↓reduceIte] at steps
          rw [steps]
          exact ⟨rfl, rfl⟩
        | failed =>
          simp only [Steps, SendsRequest, active, ↓reduceIte] at steps
          rw [steps, if_neg fun disposes => busy ((safe active).2 disposes)]
          exact ⟨rfl, rfl⟩
        | sent order buckets =>
          obtain ⟨⟨_, _, erasing⟩, -⟩ := (safe active).2 (.visiting serial valid) (by simp [stack])
          cases erasing
      · have same : s' = s := by cases sending <;> simpa [Steps, SendsRequest, active] using steps
        rw [same]
        exact ⟨rfl, rfl⟩
    | handlePack _ _ => exact absurd allowed busy
    | timeoutCallback _ => exact absurd allowed busy
    | dispose =>
      have inactive : ¬ s.active = true := fun active => busy (safe active)
      rw [show s' = s.dispose kind from steps, Peer.dispose, if_neg inactive]
      exact ⟨rfl, rfl⟩
    | returned => exact absurd rfl other

/-- A run in which the callbacks spare the code that waits for them. -/
theorem run_settled (run : Run kind (fun s act => s.Allowed act ∧ s.Safe kind act) s) :
    Settled s ∧ (s.stack ≠ [] → ∃ s', s.returned = some s') ∧ (s.Disposing → Winds kind s) := by
  have inv := run_inv run
  refine ⟨inv.settled, fun busy => ?_, inv.winds⟩
  obtain ⟨s', done, -, -⟩ := inv.returned busy
  exact ⟨s', done⟩

end

/-- Two requests of which one is answered, with a callback that sends the second; then the peer is disposed of. -/
theorem run_settled_disposed : ∃ s : Peer Nat, Settled s ∧ s.active = false ∧
    s.calls = [⟨0, some 42⟩, ⟨1, none⟩] := by
  have run₀ : Run uvTcpPeer (fun s act => s.Allowed act ∧ s.Safe uvTcpPeer act) (({ buckets := 8 } : Peer Nat)) := .fresh 8
  have run₁ := Run.step (.sendRequest (.sent [(1, 0)] 8)) run₀
    ⟨trivial, fun _ => ⟨by decide, fun _ member => nomatch member⟩⟩
    ⟨⟨rfl, [], [], rfl, rfl⟩, rfl⟩
  have run₂ := Run.step (.handlePack 1 42) run₁ ⟨rfl, trivial⟩ rfl
  have run₃ := Run.step (.sendRequest (.sent [(2, 1), (1, 0)] 8)) run₂
    ⟨trivial, fun _ => ⟨by decide, fun frame member => ⟨⟨1, true, List.mem_singleton.mp member⟩, by decide⟩⟩⟩
    ⟨⟨rfl, [], [(1, 0)], rfl, rfl⟩, rfl⟩
  have run₄ := Run.step .returned run₃ ⟨List.cons_ne_nil _ _, trivial⟩ rfl
  have run₅ := Run.step .dispose run₄ ⟨trivial, fun _ => rfl⟩ rfl
  have run₆ := Run.step .returned run₅ ⟨List.cons_ne_nil _ _, trivial⟩ rfl
  exact ⟨_, (run_settled run₆).1, rfl, rfl⟩

/-- The callback of an answered request disposes of the peer, and is called again. -/
theorem run_calls_twice (kind : PeerKind) : ∃ s : Peer Nat, Run kind Allowed s ∧ ¬ Settled s := by
  have run₀ : Run kind Allowed ({ buckets := 8 } : Peer Nat) := .fresh 8
  have run₁ := Run.step (.sendRequest (.sent [(1, 0)] 8)) run₀ trivial ⟨⟨rfl, [], [], rfl, rfl⟩, rfl⟩
  have run₂ := Run.step (.handlePack 1 42) run₁ rfl rfl
  have run₃ := Run.step .dispose run₂ trivial rfl
  refine ⟨_, run₃, fun settled => ?_⟩
  have once : [0, 0].Nodup := settled.once
  cases once with
  | cons apart _ => exact apart 0 List.mem_cons_self rfl

theorem peers_call_twice : (∃ s : Peer Nat, Run uvTcpPeer Allowed s ∧ ¬ Settled s) ∧
    ∃ s : Peer Nat, Run uvUdpKcpPeer Allowed s ∧ ¬ Settled s :=
  ⟨run_calls_twice uvTcpPeer, run_calls_twice uvUdpKcpPeer⟩

end Peer

end Xxlib.Uv3
