import Xxlib.Uv4.HashSetRefinement
import Xxlib.Uv4.RpcManager

/-! Requests that end with their connection: `SendRequestEx` and `RpcTraceCallback` of `UvTcpUdpBase`, with the
`Disconnect` of `UvTcpClient` and the destructors of `UvTcpPeer` and `UvUdpPeer` (`xx_uv.cpp`, `xx_uv.hpp`).

An object keeps the serials of its requests in a hash set, and walks through it when the connection
ends; each callback takes its serial out first. A step is a call, or the return of a callback
that the walk has called. The manager is shared with other objects.
-/

set_option autoImplicit false

namespace Xxlib.Uv4

inductive ObjectKind where
  | tcpClient
  | tcpPeer
  | udpPeer
  deriving DecidableEq

/-- `Disconnect` of a client closes the connection before the walk, a destructor after it. -/
def ObjectKind.closesFirst : ObjectKind → Bool
  | .tcpClient => true
  | .tcpPeer | .udpPeer => false

/-- Whose callback the manager holds: that of a numbered request of the object, or another. -/
inductive Owner where
  | tracked (n : Nat)
  | other
  deriving DecidableEq

/-- Where the code is that ends the connection: nowhere, in a callback of the walk from the node `i` with the end at
`last`, or in the handler that is called behind the walk. -/
inductive TracePhase where
  | idle
  | tracing (i last : Nat)
  | finishing
  deriving DecidableEq

/-- The manager, the object, and what happened so far: the serials of the requests in their order, and the numbers of
those whose callbacks were called. -/
structure Traced where
  manager : RpcManager Owner
  connected : Bool := false
  rpcSerials : Option (HashSet UInt32) := none
  phase : TracePhase := .idle
  requests : List Nat := []
  calls : List Nat := []

namespace Traced

/-! ## Calls -/

/-- `if (rpcSerials) rpcSerials->Remove(ser)` -/
def forget (s : Traced) (serial : Nat) : Option (Option (HashSet UInt32)) :=
  match s.rpcSerials with
  | none => some none
  | some set => (set.remove .word (UInt32.ofNat serial)).map fun result => some result.2

/-- What a callback does that the manager has handed out. -/
def called (s : Traced) (serial : Nat) : Option Owner → Option Traced
  | some (.tracked n) => (s.forget serial).map fun set => { s with rpcSerials := set, calls := s.calls ++ [n] }
  | _ => some s

/-- `loop.rpcMgr->Callback(serial, bb)` -/
def callback (s : Traced) (serial : Nat) : Option Traced :=
  let (manager, cb) := s.manager.callback serial
  { s with manager := manager }.called serial cb

/-- A new `rpcSerials` has the nodes that `Alloc` left, as has one that grows. -/
def track (sizing : Sizing) (alloc : Nat → HashSet.Node UInt32) (s : Traced) (serial : Nat) : Option Traced :=
  ((s.rpcSerials.getD (HashSet.create sizing alloc)).add .word sizing true alloc (UInt32.ofNat serial)).map fun result =>
    { s with rpcSerials := some result.2 }

/-- `sent` is whether `SendBytes` succeeds, for a connection that is open. -/
def sendRequestEx (sizing : Sizing) (alloc : Nat → HashSet.Node UInt32) (s : Traced) (interval : Int) (sent : Bool) :
    Option Traced :=
  let (manager, serial) := s.manager.register (.tracked s.requests.length) interval
  let s := { s with manager := manager, requests := s.requests ++ [serial] }
  if s.connected && sent then
    if serial = 0 then some s else s.track sizing alloc serial
  else s.callback serial

/-- The serial that `Process` is at. -/
def processed (s : Traced) (result : RpcManager Owner × Option Owner) : Option Traced :=
  { s with manager := result.1 }.called ((result.1.serials.head?.map Prod.snd).getD 0) result.2

/-- The walk of `RpcTraceCallback` comes to the node `i`. The key of a node that is not in use cannot be read. -/
def visit (s : Traced) (set : HashSet UInt32) (i last : Nat) : Option Traced :=
  if i = last then some { s with phase := .finishing }
  else do
    let key ← (set.nodes i).key
    { s with phase := .tracing i last }.callback key.toNat

/-- `Disconnect`, or the destructor, with the walk up to its first callback. -/
def disconnect (kind : ObjectKind) (s : Traced) : Option Traced :=
  if s.connected then
    let s := { s with connected := !kind.closesFirst }
    match s.rpcSerials with
    | none => some { s with phase := .finishing }
    | some set => s.visit set set.begin set.count
  else some s

/-- The walk, from the return of a callback. -/
def resume (s : Traced) : Option Traced :=
  match s.phase, s.rpcSerials with
  | .tracing i last, some set => s.visit set (set.advance i) last
  | _, _ => none

/-- The handler behind the walk returns. -/
def finish (s : Traced) : Option Traced :=
  match s.phase with
  | .finishing => some { s with phase := .idle, connected := false }
  | _ => none

/-! ## Runs -/

inductive Act where
  | sendRequestEx (interval : Int) (sent : Bool) (alloc : Nat → HashSet.Node UInt32)
  | register (interval : Int)
  | respond (serial : Nat)
  | process
  | returned
  | connect
  | disconnect
  | resume
  | finish

def step (kind : ObjectKind) (sizing : Sizing) (s : Traced) : Act → Option Traced
  | .sendRequestEx interval sent alloc => s.sendRequestEx sizing alloc interval sent
  | .register interval => some { s with manager := (s.manager.register .other interval).1 }
  | .respond serial => s.callback serial
  | .process => s.processed s.manager.process
  | .returned => s.processed s.manager.returned
  | .connect => some { s with connected := true }
  | .disconnect => s.disconnect kind
  | .resume => s.resume
  | .finish => s.finish

/-- Responses and `Process` come from the event loop. A callback of `Process` may end the connection; it returns
behind that. -/
def Allowed (s : Traced) : Act → Prop
  | .sendRequestEx _ _ _ | .register _ => True
  | .respond serial => s.phase = .idle ∧ s.manager.calling = false ∧ serial < 2 ^ 32
  | .process => s.phase = .idle ∧ s.manager.calling = false
  | .returned => s.phase = .idle ∧ s.manager.calling = true
  | .connect | .disconnect => s.phase = .idle
  | .resume => ∃ i last, s.phase = .tracing i last
  | .finish => s.phase = .finishing

/-- The serials do not run out, and what is sent while the connection ends cannot be sent. -/
def Safe (s : Traced) : Act → Prop
  | .sendRequestEx _ sent _ => s.manager.serial + 1 < 2 ^ 32 ∧ (s.phase ≠ .idle → s.connected = true → sent = false)
  | .register _ => s.manager.serial + 1 < 2 ^ 32
  | _ => True

inductive Run (kind : ObjectKind) (sizing : Sizing) (guard : Traced → Act → Prop) : Traced → Prop where
  | fresh (defaultInterval : Int) (connected : Bool) :
      Run kind sizing guard { manager := .create defaultInterval, connected := connected }
  | step {s s' : Traced} (act : Act) (before : Run kind sizing guard s) (meets : guard s act)
      (steps : s.step kind sizing act = some s') : Run kind sizing guard s'

/-- Every callback is called at most once. When the connection has ended all were called, the manager holds none of
them, and no serial is left in the set. -/
structure Settled (s : Traced) : Prop where
  once : s.calls.Nodup
  called : s.phase = .idle → s.connected = false → ∀ n < s.requests.length, n ∈ s.calls
  released : s.phase = .idle → s.connected = false → ∀ serial n, s.manager.mapping serial ≠ some (.tracked n)
  empty : s.phase = .idle → s.connected = false → ∀ set, s.rpcSerials = some set → set.getCount = 0

/-! ## The invariant -/

/-- The set holds the serials of the requests whose callbacks the manager holds. -/
def Tracks (s : Traced) (m : List UInt32) : Prop :=
  (match s.rpcSerials with
    | none => m = []
    | some set => HashSet.Represents .word set m) ∧
  ∀ k, k ∈ m ↔ ∃ n, s.manager.mapping k.toNat = some (.tracked n)

structure Core (s : Traced) : Prop where
  bounded : s.manager.serial < 2 ^ 32
  mapping : ∀ serial owner, s.manager.mapping serial = some owner → 0 < serial ∧ serial ≤ s.manager.serial
  requests : ∀ serial ∈ s.requests, serial ≤ s.manager.serial
  distinct : s.requests.Nodup
  owned : ∀ serial n, s.manager.mapping serial = some (.tracked n) → s.requests[n]? = some serial
  known : ∀ (n serial : Nat), s.requests[n]? = some serial → n ∈ s.calls ∨ s.manager.mapping serial = some (.tracked n)
  uncalled : ∀ serial n, s.manager.mapping serial = some (.tracked n) → n ∉ s.calls
  calls : ∀ n ∈ s.calls, n < s.requests.length
  once : s.calls.Nodup
  tracks : ∃ m, s.Tracks m

/-- The manager holds no callback of the object. -/
def Released (s : Traced) : Prop := ∀ serial n, s.manager.mapping serial ≠ some (.tracked n)

/-- The walk has emptied the nodes up to that it is at. -/
def OnCourse (s : Traced) : Prop :=
  match s.phase with
  | .idle => s.connected = false → s.Released
  | .tracing i last => ∃ set, s.rpcSerials = some set ∧ last = set.count ∧ i < last ∧ ∀ j l, set.slot j = some l → i < j
  | .finishing => s.Released

structure Inv (s : Traced) : Prop where
  core : Core s
  course : s.OnCourse

section
variable {s s' : Traced} {serial n : Nat} {owner : Owner} {m : List UInt32}

theorem mem_erase {k l : UInt32} : l ∈ HashSet.erase .word m k ↔ l ∈ m ∧ l ≠ k := by
  simp [HashSet.erase, KeyFuncs.word]

theorem mem_insert {k l : UInt32} : l ∈ HashSet.insert .word m k ↔ l = k ∨ l ∈ m := by
  unfold HashSet.insert
  split
  next present =>
    have inside : k ∈ m := by simpa [HashSet.member, KeyFuncs.word] using present
    refine ⟨.inr, ?_⟩
    rintro (rfl | there)
    · exact inside
    · exact there
  next => exact List.mem_cons

theorem toNat_eq_iff {k : UInt32} (small : serial < 2 ^ 32) : k.toNat = serial ↔ k = UInt32.ofNat serial := by
  constructor
  · rintro rfl
    exact UInt32.ofNat_toNat.symm
  · rintro rfl
    exact UInt32.toNat_ofNat_of_lt' small

theorem Inv.settled (inv : Inv s) : Settled s := by
  have core := inv.core
  have course := inv.course
  unfold OnCourse at course
  have released : s.phase = .idle → s.connected = false → s.Released := by
    intro idle ended
    rw [idle] at course
    exact course ended
  refine ⟨core.once, fun idle ended n inside => ?_, released, fun idle ended set there => ?_⟩
  · rcases core.known n _ (List.getElem?_eq_getElem inside) with called | held
    · exact called
    · exact absurd held (released idle ended _ n)
  · obtain ⟨m, holds, member⟩ := core.tracks
    rw [there] at holds
    have none' : m = [] := by
      rw [List.eq_nil_iff_forall_not_mem]
      intro k inside
      obtain ⟨n, held⟩ := (member k).mp inside
      exact released idle ended _ n held
    rw [holds.getCount_eq, none', List.length_nil]

/-- What a call of a callback leaves as it was. -/
structure Follows (s s' : Traced) : Prop where
  phase : s'.phase = s.phase
  connected : s'.connected = s.connected
  held : ∀ serial n, s'.manager.mapping serial = some (.tracked n) → s.manager.mapping serial = some (.tracked n)
  nodes : ∀ set, s.rpcSerials = some set → ∃ set', s'.rpcSerials = some set' ∧ set'.count = set.count ∧
    ∀ j l, set'.slot j = some l → set.slot j = some l

theorem Follows.onCourse (follows : Follows s s') (course : s.OnCourse) : s'.OnCourse := by
  unfold OnCourse at course ⊢
  rw [follows.phase]
  have released : s.Released → s'.Released := fun empty serial n held => empty serial n (follows.held serial n held)
  cases phase : s.phase with
  | idle =>
    rw [phase] at course
    rw [follows.connected]
    exact fun ended => released (course ended)
  | tracing i last =>
    rw [phase] at course
    obtain ⟨set, there, count, inside, left⟩ := course
    obtain ⟨set', there', count', slots⟩ := follows.nodes set there
    exact ⟨set', there', count.trans count'.symm, inside, fun j l slot => left j l (slots j l slot)⟩
  | finishing =>
    rw [phase] at course
    exact released course

theorem Tracks.not_slot (tracks : s.Tracks m) (small : serial < 2 ^ 32) (gone : s.manager.mapping serial = none)
    {set : HashSet UInt32} (there : s.rpcSerials = some set) (j : Nat) : set.slot j ≠ some (UInt32.ofNat serial) := by
  intro slot
  obtain ⟨holds, member⟩ := tracks
  rw [there] at holds
  obtain ⟨n, held⟩ := (member _).mp (holds.mem_slot.mpr ⟨j, slot⟩)
  rw [UInt32.toNat_ofNat_of_lt' small, gone] at held
  cases held

theorem update_held {mapping : Nat → Option Owner} {k : Nat} :
    Function.update mapping serial none k = some owner ↔ k ≠ serial ∧ mapping k = some owner := by
  by_cases same : k = serial
  · simp [same]
  · simp [same]

/-- Another callback than one of the object is taken out of the manager. -/
theorem Core.take_other (core : Core s) (found : s.manager.mapping serial = some .other) (manager : RpcManager Owner)
    (same : manager.serial = s.manager.serial) (taken : manager.mapping = Function.update s.manager.mapping serial none) :
    Core { s with manager := manager } ∧ Follows s { s with manager := manager } := by
  have held : ∀ k n, manager.mapping k = some (.tracked n) ↔ s.manager.mapping k = some (.tracked n) := by
    intro k n
    rw [taken, update_held, and_iff_right_iff_imp]
    rintro held rfl
    rw [found] at held
    cases held
  constructor
  · constructor
    case bounded => exact same ▸ core.bounded
    case mapping =>
      intro k owner there
      dsimp only at there ⊢
      rw [taken, update_held] at there
      rw [same]
      exact core.mapping k owner there.2
    case requests => exact same ▸ core.requests
    case distinct => exact core.distinct
    case owned => exact fun k n there => core.owned k n ((held k n).mp there)
    case known =>
      intro n k number
      rcases core.known n k number with called | there
      · exact .inl called
      · exact .inr ((held k n).mpr there)
    case uncalled => exact fun k n there => core.uncalled k n ((held k n).mp there)
    case calls => exact core.calls
    case once => exact core.once
    case tracks =>
      obtain ⟨m, holds, member⟩ := core.tracks
      refine ⟨m, holds, fun k => (member k).trans ?_⟩
      exact exists_congr fun n => (held _ n).symm
  · exact ⟨rfl, rfl, fun k n there => (held k n).mp there, fun set there => ⟨set, there, rfl, fun _ _ slot => slot⟩⟩

/-- A callback of the object is taken out of the manager, and called. -/
theorem Core.take_tracked (core : Core s) (found : s.manager.mapping serial = some (.tracked n)) (manager : RpcManager Owner)
    (same : manager.serial = s.manager.serial) (taken : manager.mapping = Function.update s.manager.mapping serial none) :
    ∃ s', { s with manager := manager }.called serial (some (.tracked n)) = some s' ∧ Core s' ∧ Follows s s' ∧
      s'.manager = manager := by
  have small : serial < 2 ^ 32 := Nat.lt_of_le_of_lt (core.mapping serial _ found).2 core.bounded
  have inside := (List.getElem?_eq_some_iff.mp (core.owned serial n found)).1
  have held : ∀ {k l}, manager.mapping k = some (.tracked l) → k ≠ serial ∧ s.manager.mapping k = some (.tracked l) := by
    intro k l there
    rwa [taken, update_held] at there
  have apart : ∀ {k l}, manager.mapping k = some (.tracked l) → l ≠ n := by
    rintro k l there rfl
    obtain ⟨other, old⟩ := held there
    have number := core.owned k l old
    rw [core.owned serial l found] at number
    exact other (Option.some.inj number).symm
  obtain ⟨m, holds, member⟩ := core.tracks
  have key : UInt32.ofNat serial ∈ m := by
    rw [member, UInt32.toNat_ofNat_of_lt' small]
    exact ⟨n, found⟩
  cases there : s.rpcSerials with
  | none =>
    rw [there] at holds
    rw [show m = [] from holds] at key
    cases key
  | some set =>
    rw [there] at holds
    obtain ⟨ok, set', removed, holds', count, slots⟩ := HashSet.Represents.remove_slots holds (UInt32.ofNat serial)
    refine ⟨{ s with manager := manager, rpcSerials := some set', calls := s.calls ++ [n] }, ?_, ?_, ?_, rfl⟩
    · simp only [called, forget, removed, Option.map_some]
    · constructor
      case bounded => exact same ▸ core.bounded
      case mapping =>
        intro k owner at'
        dsimp only at at' ⊢
        rw [taken, update_held] at at'
        rw [same]
        exact core.mapping k owner at'.2
      case requests => exact same ▸ core.requests
      case distinct => exact core.distinct
      case owned => exact fun k l at' => core.owned k l (held at').2
      case known =>
        intro l k number
        rcases core.known l k number with before | at'
        · exact .inl (List.mem_append_left _ before)
        · by_cases here : k = serial
          · rw [here, found] at at'
            cases at'
            exact .inl (List.mem_append_right _ List.mem_cons_self)
          · refine .inr ?_
            dsimp only
            rw [taken, update_held]
            exact ⟨here, at'⟩
      case uncalled =>
        intro k l at' before
        rcases List.mem_append.mp before with old | new
        · exact core.uncalled k l (held at').2 old
        · exact apart at' (List.mem_singleton.mp new)
      case calls =>
        intro l before
        rcases List.mem_append.mp before with old | new
        · exact core.calls l old
        · exact List.mem_singleton.mp new ▸ inside
      case once =>
        rw [← List.concat_eq_append]
        exact core.once.concat (core.uncalled serial n found)
      case tracks =>
        refine ⟨_, holds', fun k => ?_⟩
        rw [mem_erase, member]
        dsimp only
        constructor
        · rintro ⟨⟨l, at'⟩, other⟩
          refine ⟨l, ?_⟩
          rw [taken, update_held]
          exact ⟨fun here => other ((toNat_eq_iff small).mp here), at'⟩
        · rintro ⟨l, at'⟩
          obtain ⟨other, old⟩ := held at'
          exact ⟨⟨l, old⟩, fun here => other ((toNat_eq_iff small).mpr here)⟩
    · refine ⟨rfl, rfl, fun k l at' => (held at').2, fun set₁ at' => ?_⟩
      cases there.symm.trans at'
      exact ⟨set', rfl, count, fun j l slot => (slots j l slot).1⟩

/-- A callback is taken out of the manager and called. -/
theorem Core.take (core : Core s) (found : s.manager.mapping serial = some owner) (manager : RpcManager Owner)
    (same : manager.serial = s.manager.serial) (taken : manager.mapping = Function.update s.manager.mapping serial none) :
    ∃ s', { s with manager := manager }.called serial (some owner) = some s' ∧ Core s' ∧ Follows s s' ∧
      s'.manager = manager := by
  cases owner with
  | tracked n => exact core.take_tracked found manager same taken
  | other =>
    obtain ⟨core', follows⟩ := core.take_other found manager same taken
    exact ⟨_, rfl, core', follows, rfl⟩

theorem Core.callback (core : Core s) (serial : Nat) : ∃ s', s.callback serial = some s' ∧ Core s' ∧ Follows s s' ∧
    s'.manager.mapping serial = none := by
  unfold Traced.callback RpcManager.callback
  cases found : s.manager.mapping serial with
  | none =>
    refine ⟨s, rfl, core, ?_, found⟩
    exact ⟨rfl, rfl, fun _ _ held => held, fun set there => ⟨set, there, rfl, fun _ _ slot => slot⟩⟩
  | some owner =>
    obtain ⟨s', runs, core', follows, manager⟩ :=
      core.take found { s.manager with mapping := Function.update s.manager.mapping serial none } rfl rfl
    refine ⟨s', runs, core', follows, ?_⟩
    rw [manager]
    exact Function.update_self _ _ _

/-- What `Process` hands out is called. -/
theorem Core.processed (core : Core s) {ticks : Int} (queue : List (Int × Nat)) :
    ∃ s', s.processed ({ s.manager with ticks := ticks }.drain queue) = some s' ∧ Core s' ∧ Follows s s' := by
  rcases RpcManager.drain_cases { s.manager with ticks := ticks } queue with
    ⟨manager, drained, mapping, serial⟩ | ⟨manager, serial, owner, drained, found, mapping, serials, head⟩
  · rw [drained]
    dsimp only at mapping serial
    refine ⟨{ s with manager := manager }, rfl, ?_, ?_⟩
    · refine ⟨serial ▸ core.bounded, ?_, serial ▸ core.requests, core.distinct, ?_, ?_, ?_, core.calls, core.once, ?_⟩
      · dsimp only
        rw [mapping, serial]
        exact core.mapping
      · exact mapping ▸ core.owned
      · exact mapping ▸ core.known
      · exact mapping ▸ core.uncalled
      · unfold Tracks
        dsimp only
        rw [mapping]
        exact core.tracks
    · exact ⟨rfl, rfl, fun k n held => mapping ▸ held, fun set there => ⟨set, there, rfl, fun _ _ slot => slot⟩⟩
  · obtain ⟨s', runs, core', follows, -⟩ := core.take found manager serials mapping
    refine ⟨s', ?_, core', follows⟩
    rw [drained, Traced.processed, head]
    exact runs

/-- A serial that was not drawn before. -/
theorem Core.unused (core : Core s) : s.manager.mapping (s.manager.serial + 1) = none := by
  cases found : s.manager.mapping (s.manager.serial + 1) with
  | none => rfl
  | some owner =>
    have bound := (core.mapping _ owner found).2
    omega

/-- The requests, with one more. -/
theorem Core.drawn (core : Core s) : (s.requests ++ [s.manager.serial + 1]).Nodup ∧
    (∀ serial ∈ s.requests ++ [s.manager.serial + 1], serial ≤ s.manager.serial + 1) ∧
    ∀ (n serial : Nat), (s.requests ++ [s.manager.serial + 1])[n]? = some serial →
      s.requests[n]? = some serial ∨ n = s.requests.length ∧ serial = s.manager.serial + 1 := by
  refine ⟨?_, fun serial member => ?_, fun n serial number => ?_⟩
  · rw [← List.concat_eq_append]
    refine core.distinct.concat fun old => ?_
    have bound := core.requests _ old
    omega
  · rcases List.mem_append.mp member with old | new
    · exact Nat.le_succ_of_le (core.requests serial old)
    · exact Nat.le_of_eq (List.mem_singleton.mp new)
  · exact Lib.getElem?_concat_cases number

theorem Core.register (core : Core s) (bounded : s.manager.serial + 1 < 2 ^ 32) (interval : Int) :
    Core { s with manager := (s.manager.register .other interval).1 } ∧
      Follows s { s with manager := (s.manager.register .other interval).1 } := by
  have next : (s.manager.serial + 1) % 2 ^ 32 = s.manager.serial + 1 := Nat.mod_eq_of_lt bounded
  have held : ∀ {k n}, Function.update s.manager.mapping (s.manager.serial + 1) (some .other) k = some (.tracked n) ↔
      s.manager.mapping k = some (.tracked n) := by
    intro k n
    by_cases same : k = s.manager.serial + 1
    · rw [same, Function.update_self, core.unused]
      exact ⟨fun never => (nomatch never), fun never => (nomatch never)⟩
    · rw [Function.update_of_ne same]
  unfold RpcManager.register
  dsimp only
  rw [next]
  constructor
  · constructor
    case bounded => exact bounded
    case mapping =>
      intro k owner there
      dsimp only at there ⊢
      by_cases same : k = s.manager.serial + 1
      · rw [same]
        exact ⟨Nat.succ_pos _, Nat.le_refl _⟩
      · rw [Function.update_of_ne same] at there
        obtain ⟨positive, bound⟩ := core.mapping k owner there
        exact ⟨positive, Nat.le_succ_of_le bound⟩
    case requests => exact fun k member => Nat.le_succ_of_le (core.requests k member)
    case distinct => exact core.distinct
    case owned => exact fun k n there => core.owned k n (held.mp there)
    case known =>
      intro n k number
      rcases core.known n k number with called | there
      · exact .inl called
      · exact .inr (held.mpr there)
    case uncalled => exact fun k n there => core.uncalled k n (held.mp there)
    case calls => exact core.calls
    case once => exact core.once
    case tracks =>
      obtain ⟨m, holds, member⟩ := core.tracks
      exact ⟨m, holds, fun k => (member k).trans (exists_congr fun n => held.symm)⟩
  · exact ⟨rfl, rfl, fun k n there => held.mp there, fun set there => ⟨set, there, rfl, fun _ _ slot => slot⟩⟩

theorem create_represents (sizing : Sizing) (alloc : Nat → HashSet.Node UInt32) :
    HashSet.Represents .word (HashSet.create sizing alloc) [] := by
  have run : HashSet.Run ⟨.word, sizing, true⟩ (HashSet.Safe ⟨.word, sizing, true⟩) (HashSet.create sizing alloc) [] :=
    .create alloc
  exact run.represents

/-- The keys of the set are trivial, so that it may grow. -/
theorem add_represents {set : HashSet UInt32} (holds : HashSet.Represents .word set m) (sizing : Sizing)
    (alloc : Nat → HashSet.Node UInt32) (k : UInt32) : ∃ ok set', set.add .word sizing true alloc k = some (ok, set') ∧
      HashSet.Represents .word set' (HashSet.insert .word m k) := by
  have safe : HashSet.Safe ⟨.word, sizing, true⟩ set m (.add k alloc) := .inl rfl
  have represents : HashSet.Represents (HashSet.Setting.mk KeyFuncs.word sizing true).keys set m := holds
  obtain ⟨set', added, holds'⟩ := represents.add_spec alloc safe
  exact ⟨_, set', added, holds'⟩

/-- A request is sent, and its serial kept. -/
theorem Core.sent (core : Core s) (bounded : s.manager.serial + 1 < 2 ^ 32) (open' : s.connected = true) (interval : Int)
    (sizing : Sizing) (alloc : Nat → HashSet.Node UInt32) :
    ∃ s', s.sendRequestEx sizing alloc interval true = some s' ∧ Core s' ∧ s'.phase = s.phase ∧
      s'.connected = s.connected := by
  have next : (s.manager.serial + 1) % 2 ^ 32 = s.manager.serial + 1 := Nat.mod_eq_of_lt bounded
  obtain ⟨distinct, requests, numbers⟩ := core.drawn
  obtain ⟨m, holds, member⟩ := core.tracks
  have holds' : HashSet.Represents .word (s.rpcSerials.getD (HashSet.create sizing alloc)) m := by
    cases there : s.rpcSerials with
    | none =>
      rw [there] at holds
      rw [show m = [] from holds]
      exact create_represents sizing alloc
    | some set =>
      rw [there] at holds
      exact holds
  obtain ⟨ok, set, added, holds''⟩ := add_represents holds' sizing alloc (UInt32.ofNat (s.manager.serial + 1))
  have held : ∀ {k n}, Function.update s.manager.mapping (s.manager.serial + 1) (some (.tracked s.requests.length)) k =
      some (.tracked n) ↔ k = s.manager.serial + 1 ∧ n = s.requests.length ∨ s.manager.mapping k = some (.tracked n) := by
    intro k n
    by_cases same : k = s.manager.serial + 1
    · rw [same, Function.update_self, core.unused]
      simp [eq_comm]
    · rw [Function.update_of_ne same]
      simp [same]
  have fresh : s.requests.length ∉ s.calls := fun called => Nat.lt_irrefl _ (core.calls _ called)
  refine ⟨{ s with
    manager := (s.manager.register (.tracked s.requests.length) interval).1
    requests := s.requests ++ [s.manager.serial + 1]
    rpcSerials := some set }, ?_, ?_, rfl, rfl⟩
  · simp only [sendRequestEx, RpcManager.register, next, open', Bool.and_self, ↓reduceIte, Nat.succ_ne_zero, track, added,
      Option.map_some]
  · constructor
    all_goals dsimp only [RpcManager.register]
    case distinct => exact distinct
    case calls =>
      intro n called
      rw [List.length_append, List.length_singleton]
      exact Nat.lt_succ_of_lt (core.calls n called)
    case once => exact core.once
    all_goals rw [next]
    case bounded => exact bounded
    case mapping =>
      intro k owner there
      by_cases same : k = s.manager.serial + 1
      · rw [same]
        exact ⟨Nat.succ_pos _, Nat.le_refl _⟩
      · rw [Function.update_of_ne same] at there
        obtain ⟨positive, bound⟩ := core.mapping k owner there
        exact ⟨positive, Nat.le_succ_of_le bound⟩
    case requests => exact requests
    case owned =>
      intro k n there
      rcases held.mp there with ⟨rfl, rfl⟩ | old
      · exact List.getElem?_concat_length
      · exact Lib.getElem?_append_of_some (core.owned k n old)
    case known =>
      intro n k number
      rcases numbers n k number with old | ⟨rfl, rfl⟩
      · rcases core.known n k old with called | there
        · exact .inl called
        · exact .inr (held.mpr (.inr there))
      · exact .inr (held.mpr (.inl ⟨rfl, rfl⟩))
    case uncalled =>
      intro k n there
      rcases held.mp there with ⟨rfl, rfl⟩ | old
      · exact fresh
      · exact core.uncalled k n old
    case tracks =>
      refine ⟨_, holds'', fun k => ?_⟩
      dsimp only
      rw [mem_insert, member]
      constructor
      · rintro (rfl | ⟨n, old⟩)
        · exact ⟨_, held.mpr (.inl ⟨UInt32.toNat_ofNat_of_lt' bounded, rfl⟩)⟩
        · exact ⟨n, held.mpr (.inr old)⟩
      · rintro ⟨n, there⟩
        rcases held.mp there with ⟨same, -⟩ | old
        · exact .inl ((toNat_eq_iff bounded).mp same)
        · exact .inr ⟨n, old⟩

/-- Taking a serial out of the set that is not in it. -/
theorem Tracks.forget (tracks : s.Tracks m) (small : serial < 2 ^ 32) (gone : s.manager.mapping serial = none) :
    ∃ set', s.forget serial = some set' ∧ { s with rpcSerials := set' }.Tracks m ∧
      ∀ set, s.rpcSerials = some set → ∃ set'', set' = some set'' ∧ set''.count = set.count ∧
        ∀ j l, set''.slot j = some l → set.slot j = some l := by
  have absent : UInt32.ofNat serial ∉ m := by
    rw [tracks.2, UInt32.toNat_ofNat_of_lt' small, gone]
    rintro ⟨n, held⟩
    cases held
  obtain ⟨holds, member⟩ := tracks
  unfold Traced.forget
  cases there : s.rpcSerials with
  | none =>
    rw [there] at holds
    exact ⟨none, rfl, ⟨holds, member⟩, fun set some' => nomatch some'⟩
  | some set =>
    rw [there] at holds
    obtain ⟨ok, set', removed, holds', count, slots⟩ := HashSet.Represents.remove_slots holds (UInt32.ofNat serial)
    have same : HashSet.erase .word m (UInt32.ofNat serial) = m := by
      refine List.filter_eq_self.mpr fun l inside => ?_
      have other : l ≠ UInt32.ofNat serial := fun here => absent (here ▸ inside)
      simpa [KeyFuncs.word] using other
    rw [same] at holds'
    refine ⟨some set', by simp only [removed, Option.map_some], ⟨holds', member⟩, fun set₁ some' => ?_⟩
    cases some'
    exact ⟨set', rfl, count, fun j l slot => (slots j l slot).1⟩

/-- A request cannot be sent, and its callback is called at once. -/
theorem Core.failed (core : Core s) (bounded : s.manager.serial + 1 < 2 ^ 32) {sent : Bool}
    (failed : (s.connected && sent) = false) (interval : Int) (sizing : Sizing) (alloc : Nat → HashSet.Node UInt32) :
    ∃ s', s.sendRequestEx sizing alloc interval sent = some s' ∧ Core s' ∧ Follows s s' := by
  have next : (s.manager.serial + 1) % 2 ^ 32 = s.manager.serial + 1 := Nat.mod_eq_of_lt bounded
  obtain ⟨distinct, requests, numbers⟩ := core.drawn
  obtain ⟨m, tracks⟩ := core.tracks
  obtain ⟨set', forgets, tracks', nodes⟩ := tracks.forget bounded core.unused
  -- the callback is in the manager only for the moment
  have back : Function.update (Function.update s.manager.mapping (s.manager.serial + 1)
      (some (.tracked s.requests.length))) (s.manager.serial + 1) none = s.manager.mapping := by
    rw [Function.update_idem, ← core.unused, Function.update_eq_self]
  have fresh : s.requests.length ∉ s.calls := fun called => Nat.lt_irrefl _ (core.calls _ called)
  refine ⟨{ s with
    manager := { (s.manager.register (.tracked s.requests.length) interval).1 with mapping := s.manager.mapping }
    requests := s.requests ++ [s.manager.serial + 1]
    rpcSerials := set'
    calls := s.calls ++ [s.requests.length] }, ?_, ?_, ?_⟩
  · simp only [sendRequestEx, RpcManager.register, next, failed, Bool.false_eq_true, ↓reduceIte, Traced.callback,
      RpcManager.callback, Function.update_self, back, Traced.called]
    rw [Option.map_eq_some_iff]
    exact ⟨set', forgets, rfl⟩
  · constructor
    all_goals dsimp only [RpcManager.register]
    case distinct => exact distinct
    case owned =>
      intro k n there
      exact Lib.getElem?_append_of_some (core.owned k n there)
    case known =>
      intro n k number
      rcases numbers n k number with old | ⟨rfl, rfl⟩
      · rcases core.known n k old with called | there
        · exact .inl (List.mem_append_left _ called)
        · exact .inr there
      · exact .inl (List.mem_append_right _ List.mem_cons_self)
    case uncalled =>
      intro k n there called
      rcases List.mem_append.mp called with old | new
      · exact core.uncalled k n there old
      · have inside := (List.getElem?_eq_some_iff.mp (core.owned k n there)).1
        rw [List.mem_singleton.mp new] at inside
        exact Nat.lt_irrefl _ inside
    case calls =>
      intro n called
      rw [List.length_append, List.length_singleton]
      rcases List.mem_append.mp called with old | new
      · exact Nat.lt_succ_of_lt (core.calls n old)
      · exact Nat.lt_succ_of_le (Nat.le_of_eq (List.mem_singleton.mp new))
    case once =>
      rw [← List.concat_eq_append]
      exact core.once.concat fresh
    case tracks => exact ⟨m, tracks'⟩
    all_goals rw [next]
    case bounded => exact bounded
    case mapping =>
      intro k owner there
      obtain ⟨positive, bound⟩ := core.mapping k owner there
      exact ⟨positive, Nat.le_succ_of_le bound⟩
    case requests => exact requests
  · exact ⟨rfl, rfl, fun _ _ held => held, nodes⟩

/-! ## Steps -/

/-- The core of the invariant does not read where the connection is. -/
theorem Core.moved (core : Core s) (phase : TracePhase) (connected : Bool) :
    Core { s with phase := phase, connected := connected } :=
  ⟨core.bounded, core.mapping, core.requests, core.distinct, core.owned, core.known, core.uncalled, core.calls, core.once,
    core.tracks⟩

/-- A callback that the manager holds is that of a serial in the set. -/
theorem Core.mem_tracks (core : Core s) (tracks : s.Tracks m) (held : s.manager.mapping serial = some (.tracked n)) :
    UInt32.ofNat serial ∈ m := by
  have small : serial < 2 ^ 32 := Nat.lt_of_le_of_lt (core.mapping serial _ held).2 core.bounded
  rw [tracks.2, UInt32.toNat_ofNat_of_lt' small]
  exact ⟨n, held⟩

/-- The walk comes to a node: all nodes before it are empty. -/
theorem Core.visit (core : Core s) {set : HashSet UInt32} (there : s.rpcSerials = some set) {i : Nat}
    (at' : (i = set.count ∧ ∀ j, ¬ set.Live j) ∨ (set.Live i ∧ ∀ j, set.Live j → i ≤ j)) :
    ∃ s', s.visit set i set.count = some s' ∧ Inv s' ∧
      (s'.phase = .finishing ∨ i < set.count ∧ s'.phase = .tracing i set.count) := by
  obtain ⟨m, tracks⟩ := core.tracks
  have holds : HashSet.Represents .word set m := by
    have holds := tracks.1
    rwa [there] at holds
  unfold Traced.visit
  rcases at' with ⟨rfl, none'⟩ | ⟨live, first⟩
  · refine ⟨_, if_pos rfl, ⟨core.moved .finishing s.connected, fun serial n held => ?_⟩, .inl rfl⟩
    obtain ⟨j, slot⟩ := holds.mem_slot.mp (core.mem_tracks tracks held)
    exact none' j (HashSet.live_of_slot slot)
  · obtain ⟨k, slot⟩ := holds.live_slot live
    obtain ⟨s', runs, core', follows, gone⟩ := (core.moved (.tracing i set.count) s.connected).callback k.toNat
    refine ⟨s', ?_, ⟨core', ?_⟩, .inr ⟨live.1, follows.phase⟩⟩
    · rw [if_neg (Nat.ne_of_lt live.1), HashSet.key_of_slot slot]
      exact runs
    · obtain ⟨set', there', count, slots⟩ := follows.nodes set there
      unfold OnCourse
      rw [follows.phase]
      refine ⟨set', there', count.symm, live.1, fun j l used => ?_⟩
      have old := slots j l used
      have low := first j (HashSet.live_of_slot old)
      -- the callback has emptied the node itself
      have other : j ≠ i := by
        rintro rfl
        cases slot.symm.trans old
        obtain ⟨m', tracks'⟩ := core'.tracks
        apply tracks'.not_slot k.toNat_lt gone there' j
        rw [UInt32.ofNat_toNat]
        exact used
      omega

/-- Where a walk begins. -/
theorem begin_spec {set : HashSet UInt32} (holds : HashSet.Represents .word set m) :
    (set.begin = set.count ∧ ∀ j, ¬ set.Live j) ∨ (set.Live set.begin ∧ ∀ j, set.Live j → set.begin ≤ j) := by
  unfold HashSet.begin
  split
  next same =>
    refine .inl ⟨rfl, fun j live => ?_⟩
    have count := holds.getCount_eq
    rw [HashSet.getCount, same, Nat.sub_self] at count
    obtain ⟨k, slot⟩ := holds.live_slot live
    have inside := holds.mem_slot.mpr ⟨j, slot⟩
    rw [List.length_eq_zero_iff.mp count.symm] at inside
    cases inside
  next =>
    rcases HashSet.seek_spec set set.count 0 (Nat.zero_add _) with ⟨last, none'⟩ | ⟨live, -, before⟩
    · exact .inl ⟨last, fun j => none' j (Nat.zero_le j)⟩
    · exact .inr ⟨live, fun j used => Nat.le_of_not_lt fun low => before j (Nat.zero_le j) low used⟩

/-- Where a walk goes on, when the nodes up to `i` are empty. -/
theorem advance_spec {set : HashSet UInt32} (holds : HashSet.Represents .word set m) {i : Nat} (inside : i < set.count)
    (left : ∀ j l, set.slot j = some l → i < j) : i < set.advance i ∧
      ((set.advance i = set.count ∧ ∀ j, ¬ set.Live j) ∨
        (set.Live (set.advance i) ∧ ∀ j, set.Live j → set.advance i ≤ j)) := by
  have left' : ∀ j, set.Live j → i + 1 ≤ j := by
    intro j live
    obtain ⟨l, slot⟩ := holds.live_slot live
    exact left j l slot
  unfold HashSet.advance
  rcases HashSet.seek_spec set (set.count - (i + 1)) (i + 1) (by omega) with ⟨last, none'⟩ | ⟨live, next, before⟩
  · exact ⟨Nat.lt_of_lt_of_eq inside last.symm, .inl ⟨last, fun j used => none' j (left' j used) used⟩⟩
  · exact ⟨next, .inr ⟨live, fun j used => Nat.le_of_not_lt fun low => before j (left' j used) low used⟩⟩

theorem Inv.follows (inv : Inv s) (core : Core s') (follows : Follows s s') : Inv s' :=
  ⟨core, follows.onCourse inv.course⟩

theorem Inv.disconnect (inv : Inv s) (kind : ObjectKind) :
    ∃ s', s.disconnect kind = some s' ∧ Inv s' := by
  have core := inv.core
  unfold Traced.disconnect
  cases s.connected with
  | false => exact ⟨s, rfl, inv⟩
  | true =>
    have core' := core.moved s.phase (!kind.closesFirst)
    obtain ⟨m, tracks⟩ := core.tracks
    have holds := tracks.1
    cases there : s.rpcSerials with
    | none =>
      rw [there] at holds
      refine ⟨{ s with phase := .finishing, connected := !kind.closesFirst }, by simp only [there, ↓reduceIte],
        core.moved _ _, fun serial n held => ?_⟩
      have inside := core.mem_tracks tracks held
      rw [show m = [] from holds] at inside
      cases inside
    | some set =>
      rw [there] at holds
      obtain ⟨s', runs, inv', -⟩ := core'.visit there (begin_spec holds)
      refine ⟨s', ?_, inv'⟩
      rw [there] at runs
      simpa only [↓reduceIte] using runs

theorem Inv.resume (inv : Inv s) {i last : Nat} (phase : s.phase = .tracing i last) :
    ∃ s', s.resume = some s' ∧ Inv s' ∧
      (s'.phase = .finishing ∨ ∃ j, i < j ∧ j < last ∧ s'.phase = .tracing j last) := by
  have course := inv.course
  unfold OnCourse at course
  rw [phase] at course
  obtain ⟨set, there, rfl, inside, left⟩ := course
  obtain ⟨m, holds, member⟩ := inv.core.tracks
  rw [there] at holds
  unfold Traced.resume
  rw [phase, there]
  obtain ⟨forward, at'⟩ := advance_spec holds inside left
  obtain ⟨s', runs, inv', next⟩ := inv.core.visit there at'
  refine ⟨s', runs, inv', ?_⟩
  rcases next with last | ⟨below, next⟩
  · exact .inl last
  · exact .inr ⟨_, forward, below, next⟩

theorem Inv.finish (inv : Inv s) (phase : s.phase = .finishing) : ∃ s', s.finish = some s' ∧ Inv s' := by
  have released := inv.course
  unfold OnCourse at released
  rw [phase] at released
  exact ⟨{ s with phase := .idle, connected := false }, by rw [Traced.finish, phase], inv.core.moved _ _, fun _ => released⟩

theorem Inv.connect (inv : Inv s) (idle : s.phase = .idle) : Inv { s with connected := true } := by
  refine ⟨inv.core.moved s.phase true, ?_⟩
  unfold OnCourse
  rw [idle]
  exact fun never => nomatch never

/-- A request that is sent leaves the walk alone: there is none. -/
theorem Inv.sendRequestEx (inv : Inv s) {sent : Bool} (bounded : s.manager.serial + 1 < 2 ^ 32)
    (closed : s.phase ≠ .idle → s.connected = true → sent = false) (interval : Int) (sizing : Sizing)
    (alloc : Nat → HashSet.Node UInt32) : ∃ s', s.sendRequestEx sizing alloc interval sent = some s' ∧ Inv s' := by
  cases sends : s.connected && sent with
  | false =>
    obtain ⟨s', runs, core, follows⟩ := inv.core.failed bounded sends interval sizing alloc
    exact ⟨s', runs, inv.follows core follows⟩
  | true =>
    obtain ⟨open', rfl⟩ := (Bool.and_eq_true _ _).mp sends
    obtain ⟨s', runs, core, phase, connected⟩ := inv.core.sent bounded open' interval sizing alloc
    have idle : s.phase = .idle := by
      by_contra ending
      exact nomatch closed ending open'
    refine ⟨s', runs, core, ?_⟩
    unfold OnCourse
    rw [phase, idle, connected, open']
    exact fun never => nomatch never

theorem Inv.step (inv : Inv s) (kind : ObjectKind) (sizing : Sizing) (act : Act) (allowed : s.Allowed act)
    (safe : s.Safe act) : ∃ s', s.step kind sizing act = some s' ∧ Inv s' := by
  cases act with
  | sendRequestEx interval sent alloc => exact inv.sendRequestEx safe.1 safe.2 interval sizing alloc
  | register interval =>
    obtain ⟨core, follows⟩ := inv.core.register safe interval
    exact ⟨_, rfl, inv.follows core follows⟩
  | respond serial =>
    obtain ⟨s', runs, core, follows, -⟩ := inv.core.callback serial
    exact ⟨s', runs, inv.follows core follows⟩
  | process =>
    obtain ⟨s', runs, core, follows⟩ := inv.core.processed s.manager.serials
    exact ⟨s', runs, inv.follows core follows⟩
  | returned =>
    obtain ⟨s', runs, core, follows⟩ := inv.core.processed s.manager.serials.tail
    exact ⟨s', runs, inv.follows core follows⟩
  | connect => exact ⟨_, rfl, inv.connect allowed⟩
  | disconnect => exact inv.disconnect kind
  | resume =>
    obtain ⟨i, last, phase⟩ := allowed
    obtain ⟨s', runs, inv', -⟩ := inv.resume phase
    exact ⟨s', runs, inv'⟩
  | finish => exact inv.finish allowed

theorem Inv.fresh (defaultInterval : Int) (connected : Bool) :
    Inv { manager := .create defaultInterval, connected := connected } := by
  refine ⟨⟨Nat.two_pow_pos 32, ?_, ?_, List.nodup_nil, ?_, ?_, ?_, ?_, List.nodup_nil, [], rfl, ?_⟩, ?_⟩
  · exact fun _ _ never => nomatch never
  · exact fun _ never => nomatch never
  · exact fun _ _ never => nomatch never
  · exact fun _ _ never => nomatch never
  · exact fun _ _ never => nomatch never
  · exact fun _ never => nomatch never
  · exact fun k => ⟨fun never => (nomatch never), fun ⟨_, never⟩ => nomatch never⟩
  · exact fun _ _ _ never => nomatch never

end

section
variable {kind : ObjectKind} {sizing : Sizing} {s s' : Traced}

theorem Run.inv (run : Run kind sizing (fun s act => s.Allowed act ∧ s.Safe act) s) : Inv s := by
  induction run with
  | fresh defaultInterval connected => exact .fresh defaultInterval connected
  | step act _ meets steps ih =>
    obtain ⟨s', steps', inv⟩ := ih.step kind sizing act meets.1 meets.2
    cases steps.symm.trans steps'
    exact inv

/-- In a run of safe calls the requests are settled whenever the connection has ended. A walk reads no node that is not
in use, and moves forward with every callback. -/
theorem run_traced_settled (run : Run kind sizing (fun s act => s.Allowed act ∧ s.Safe act) s) : Settled s ∧
    (∀ act, s.Allowed act → s.Safe act → ∃ s', s.step kind sizing act = some s') ∧
    ∀ i last s', s.phase = .tracing i last → s.resume = some s' →
      s'.phase = .finishing ∨ ∃ j, i < j ∧ j < last ∧ s'.phase = .tracing j last := by
  have inv := run.inv
  refine ⟨inv.settled, fun act allowed safe => ?_, fun i last s' phase resumes => ?_⟩
  · obtain ⟨s', steps, -⟩ := inv.step kind sizing act allowed safe
    exact ⟨s', steps⟩
  · obtain ⟨s'', resumes', -, next⟩ := inv.resume phase
    cases resumes.symm.trans resumes'
    exact next

end

/-- A peer is destroyed while a request waits. -/
theorem run_traced_settled_peer : ∃ s, Run .tcpPeer Dict.Setting.word.sizing (fun s act => s.Allowed act ∧ s.Safe act) s ∧
    s.calls = [0] ∧ Settled s := by
  have created : Run .tcpPeer Dict.Setting.word.sizing (fun s act => s.Allowed act ∧ s.Safe act) _ := .fresh 1 true
  have first := Run.step (.sendRequestEx 0 true fun _ => ⟨0, 0, none, 0⟩) created
    ⟨trivial, by decide, fun never => absurd rfl never⟩ rfl
  have walk := Run.step .disconnect first ⟨rfl, trivial⟩ rfl
  have behind := Run.step .resume walk ⟨⟨_, _, rfl⟩, trivial⟩ rfl
  have ended := Run.step .finish behind ⟨rfl, trivial⟩ rfl
  exact ⟨_, ended, rfl, (run_traced_settled ended).1⟩

/-- The callback of a request sends another one while the peer is destroyed. The serial goes to the node behind
the walk, and the callback waits in the manager. -/
theorem request_in_walk_unsettled :
    ¬ ∀ s, Run .tcpPeer Dict.Setting.word.sizing (fun s act => s.Allowed act) s → Settled s := by
  intro always
  have created : Run .tcpPeer Dict.Setting.word.sizing (fun s act => s.Allowed act) _ := .fresh 1 true
  have first := Run.step (.sendRequestEx 0 true fun _ => ⟨0, 0, none, 0⟩) created trivial rfl
  have walk := Run.step .disconnect first rfl rfl
  have second := Run.step (.sendRequestEx 0 true fun _ => ⟨0, 0, none, 0⟩) walk trivial rfl
  have behind := Run.step .resume second ⟨_, _, rfl⟩ rfl
  have ended := Run.step .finish behind rfl rfl
  exact (always _ ended).released rfl rfl 2 1 rfl

end Traced

end Xxlib.Uv4
