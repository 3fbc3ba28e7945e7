import Mathlib.Algebra.Group.Int.Defs
import Mathlib.Algebra.Group.Nat.Defs
import Xxlib.Lib.AssocMap

/-! Dialing: `UvTcpDialer` and its connect requests (`test_uv_3/xx_uv.h`).

A request is known by its address, a number that is given once. What libuv answers is part of the acts: the
result of `uv_tcp_connect`, the status of a callback, the result of `ReadStart`. `OnCreatePeer` and `OnConnect`
do not touch the dialer while they run: what they dial comes as acts of its own.
-/

set_option autoImplicit false

namespace Xxlib.Uv3

open Lib

/-- An `int` that may have overflowed. -/
def Dialer.int32 (n : Int) : Int := Int.bmod n (2 ^ 32)

/-- The parsers of addresses; 0 for success. -/
structure Dialer.Libuv where
  uvIp4Addr : List Char → Int → Int
  uvIp6Addr : List Char → Int → Int

/-- An address, and what `uv_tcp_connect` will return for it. -/
structure Dialer.Target where
  ip : List Char
  port : Int
  uvTcpConnect : Int

/-- `uv_connect_t_ex`. `dialed` is how often `Cancel` had been called before. -/
structure Dialer.Request where
  serial : Int
  batchNumber : Int
  dialed : Nat
  deriving DecidableEq

/-- `UvTimer`: whether the handle is still there, and whether it is active. -/
structure Dialer.Timer where
  uvTimer : Bool := true
  armed : Bool := false
  deriving DecidableEq

structure Dialer.Peer where
  request : Nat
  disposed : Bool := false
  deriving DecidableEq

/-- The fields of the source, and then what has happened so far: the requests whose callback has not run, the
number of requests, of calls of `Cancel` and of calls of `Connect`, the adoptions (with the number of calls of
`Cancel` at the `Dial` and at the adoption), whether `Dispose` has been called, and whether the last of all calls of
`Dial` and `Cancel` was a `Dial` with a timeout that returned 0. -/
structure Dialer where
  serial : Int := 0
  reqs : List (Int × Nat) := []
  batchNumber : Int := 0
  timeouter : Option Dialer.Timer := some {}
  peer : Option Dialer.Peer := none
  requests : Nat → Option Dialer.Request := fun _ => none
  created : Nat := 0
  cancels : Nat := 0
  connects : Nat := 0
  adoptions : List (Nat × Nat) := []
  disposeCalled : Bool := false
  timed : Bool := false

namespace Dialer

/-! ## The code -/

def Timer.stop (timer : Timer) : Int × Timer :=
  if timer.uvTimer then (0, { timer with armed := false }) else (-1, timer)

def Timer.start (timer : Timer) : Int × Timer :=
  if timer.uvTimer then (0, { timer with armed := true }) else (-1, timer)

def Timer.dispose (_ : Timer) : Timer := ⟨false, false⟩

def erase (reqs : List (Int × Nat)) (serial : Int) : List (Int × Nat) :=
  AssocMap.erase (fun a b => a == b) reqs serial

def insert (reqs : List (Int × Nat)) (serial : Int) (request : Nat) : List (Int × Nat) :=
  AssocMap.put (fun a b => a == b) reqs serial request true

/-- 0: free, 1: dialing, 2: connected, 3: disposed. -/
def state (s : Dialer) : Int :=
  match s.timeouter with
  | none => 3
  | some _ =>
      if s.peer.any fun peer => !peer.disposed then 2
      else if s.reqs.length ≠ 0 then 1
      else 0

/-- `uv_cancel` has no effect on a request to connect. -/
def cancel (s : Dialer) (resetPeer : Bool) : Dialer :=
  match s.timeouter with
  | none => { s with cancels := s.cancels + 1 }
  | some timer =>
      { s with
        timeouter := some timer.stop.2
        peer := if resetPeer then none else s.peer
        reqs := []
        serial := 0
        batchNumber := int32 (s.batchNumber + 1)
        cancels := s.cancels + 1 }

def dispose (s : Dialer) : Dialer :=
  match s.timeouter with
  | none => s
  | some _ =>
      let s := s.cancel true
      { s with timeouter := s.timeouter.map Timer.dispose }

def setTimeout (s : Dialer) (timeoutMS : Nat) : Int × Dialer :=
  match s.timeouter with
  | none => (-1, s)
  | some timer =>
      let (r, timer) := timer.stop
      if timeoutMS = 0 then (r, { s with timeouter := some timer })
      else
        let (r, timer) := timer.start
        (r, { s with timeouter := some timer })

def parse (libuv : Libuv) (ip : List Char) (port : Int) : Int :=
  if ip.contains ':' then libuv.uvIp6Addr ip port else libuv.uvIp4Addr ip port

/-- From `std::make_unique` on. The destructor of a request that fails at once erases it, too. -/
def launch (s : Dialer) (uvTcpConnect : Int) : Int × Dialer :=
  let serial := int32 (s.serial + 1)
  if uvTcpConnect ≠ 0 then (-3, { s with serial := serial, reqs := erase s.reqs serial })
  else
    (0, { s with
      serial := serial
      reqs := insert s.reqs serial s.created
      requests := Function.update s.requests s.created (some ⟨serial, s.batchNumber, s.cancels⟩)
      created := s.created + 1 })

/-- `Dial` behind its cleanup. -/
def attempt (libuv : Libuv) (s : Dialer) (target : Target) (timeoutMS : Nat) : Int × Dialer :=
  let r := parse libuv target.ip target.port
  if r ≠ 0 then (r, s)
  else
    let (r, s) := s.setTimeout timeoutMS
    if r ≠ 0 then (r, s) else s.launch target.uvTcpConnect

def dial (libuv : Libuv) (s : Dialer) (target : Target) (timeoutMS : Nat) (cleanup : Bool) : Int × Dialer :=
  match s.timeouter with
  | none => (-1, s)
  | some _ => (if cleanup then s.cancel true else s).attempt libuv target timeoutMS

/-- The loop of the two list forms. -/
def dialEach (libuv : Libuv) (s : Dialer) (targets : List Target) : Dialer :=
  targets.foldl (fun s target => (s.dial libuv target 0 false).2) s

/-- Both list forms; there is no `return` behind the loop. -/
def dialList (libuv : Libuv) (s : Dialer) (targets : List Target) (timeoutMS : Nat) : Option Int × Dialer :=
  match s.timeouter with
  | none => (some (-1), s)
  | some _ =>
      let (r, s) := (s.cancel true).setTimeout timeoutMS
      if r ≠ 0 then (some r, s) else (none, s.dialEach libuv targets)

/-- A connection that a callback takes over. -/
def Adopts (s : Dialer) (request : Request) (status readStart : Int) : Prop :=
  status = 0 ∧ ¬ s.batchNumber > request.batchNumber ∧ s.peer = none ∧ readStart = 0

instance (s : Dialer) (request : Request) (status readStart : Int) : Decidable (s.Adopts request status readStart) :=
  inferInstanceAs (Decidable (_ ∧ _))

/-- The connect callback, and the destructor of its request. -/
def connected (s : Dialer) (id : Nat) (request : Request) (status readStart : Int) : Dialer :=
  let s :=
    if s.Adopts request status readStart then
      { s with
        peer := some { request := id }
        timeouter := none
        connects := s.connects + 1
        adoptions := s.adoptions ++ [(request.dialed, s.cancels)] }
    else s
  { s with reqs := erase s.reqs request.serial, requests := Function.update s.requests id none }

/-- The callback of the timer. -/
def fired (s : Dialer) : Dialer :=
  let s := s.cancel true
  { s with connects := s.connects + 1 }

/-! ## Runs -/

/-- `found` is what the caller of a list form takes for its result. -/
inductive Act where
  | dial (target : Target) (timeoutMS : Nat) (cleanup : Bool)
  | dialList (targets : List Target) (timeoutMS : Nat) (found : Int)
  | cancel (resetPeer : Bool)
  | dispose
  | timeout
  | connected (request : Nat) (status readStart : Int)
  | disposePeer

def armed (s : Dialer) : Bool := s.timeouter.any Timer.armed

/-- The timer has not been disposed of. -/
def usable (s : Dialer) : Bool := s.timeouter.any Timer.uvTimer

def step (libuv : Libuv) (s : Dialer) : Act → Option Dialer
  | .dial target timeoutMS cleanup =>
      let (r, s) := s.dial libuv target timeoutMS cleanup
      some { s with timed := decide (0 < timeoutMS ∧ r = 0) }
  | .dialList targets timeoutMS found =>
      let (r, s) := s.dialList libuv targets timeoutMS
      some { s with timed := decide (0 < timeoutMS ∧ r.getD found = 0) }
  | .cancel resetPeer => some { s.cancel resetPeer with timed := false }
  | .dispose => some { s.dispose with disposeCalled := true, timed := false }
  | .timeout => if s.armed then some { s.fired with timed := false } else none
  | .connected id status readStart =>
      match s.requests id with
      | none => none
      | some request => some (s.connected id request status readStart)
  | .disposePeer => s.peer.map fun peer => { s with peer := some { peer with disposed := true } }

inductive Run (libuv : Libuv) (guard : Dialer → Act → Prop) : Dialer → Prop where
  | fresh : Run libuv guard {}
  | step {s s' : Dialer} (act : Act) (before : Run libuv guard s) (allowed : guard s act)
      (steps : s.step libuv act = some s') : Run libuv guard s'

theorem Run.acts {libuv : Libuv} {s s' : Dialer} {acts : List Act} (before : Run libuv (fun _ _ => True) s)
    (steps : acts.foldlM (Dialer.step libuv) s = some s') : Run libuv (fun _ _ => True) s' := by
  induction acts generalizing s with
  | nil =>
    cases steps
    exact before
  | cons act acts ih =>
    obtain ⟨middle, first, rest⟩ := Option.bind_eq_some_iff.mp steps
    exact ih (.step act before trivial first) rest

/-! ## Batches -/

/-- What every run keeps: as long as there is a timer no peer has been adopted, and the number of the batch counts
the calls of `Cancel`. -/
structure Batched (s : Dialer) : Prop where
  waiting : s.timeouter ≠ none → s.peer = none ∧ s.adoptions = [] ∧ s.batchNumber = int32 s.cancels
  adopted : s.timeouter = none → s.peer ≠ none ∧
    ∃ adoption, s.adoptions = [adoption] ∧ adoption.2 ≤ s.cancels ∧ (adoption.2 < 2 ^ 31 → adoption.1 = adoption.2)
  numbered : ∀ id request, s.requests id = some request →
    request.batchNumber = int32 request.dialed ∧ request.dialed ≤ s.cancels
  fresh : ∀ id, s.created ≤ id → s.requests id = none

theorem int32_succ (n : Int) : int32 (int32 n + 1) = int32 (n + 1) := Int.bmod_add_bmod

theorem int32_eq {n : Nat} (small : n < 2 ^ 31) : int32 n = n := by
  unfold int32
  rw [Int.bmod_eq_of_le] <;> omega

section
variable (libuv : Libuv) {s s' : Dialer}

/-- A timeout only sets or stops the timer. -/
theorem setTimeout_eq (s : Dialer) (timeoutMS : Nat) : ∃ timer,
    (s.setTimeout timeoutMS).2 = { s with timeouter := timer } ∧ (timer = none ↔ s.timeouter = none) := by
  unfold setTimeout
  split
  · next gone => exact ⟨none, by rw [← gone], by simp [gone]⟩
  · next timer there =>
    dsimp only
    split
    · exact ⟨_, rfl, by simp [there]⟩
    · exact ⟨_, rfl, by simp [there]⟩

theorem Batched.timer (batched : Batched s) {timer : Option Timer} (same : timer = none ↔ s.timeouter = none) :
    Batched { s with timeouter := timer } :=
  ⟨fun there => batched.waiting fun gone => there (same.mpr gone), fun gone => batched.adopted (same.mp gone),
    batched.numbered, batched.fresh⟩

theorem Batched.setTimeout (batched : Batched s) (timeoutMS : Nat) : Batched (s.setTimeout timeoutMS).2 := by
  obtain ⟨timer, after, same⟩ := setTimeout_eq s timeoutMS
  rw [after]
  exact batched.timer same

theorem Batched.cancel (batched : Batched s) (resetPeer : Bool) : Batched (s.cancel resetPeer) := by
  have older : ∀ id request, s.requests id = some request →
      request.batchNumber = int32 request.dialed ∧ request.dialed ≤ s.cancels + 1 := by
    intro id request pending
    obtain ⟨number, dialed⟩ := batched.numbered id request pending
    exact ⟨number, by omega⟩
  unfold Dialer.cancel
  split
  · next gone =>
    obtain ⟨peer, adoption, adoptions, before, same⟩ := batched.adopted gone
    exact ⟨fun there => absurd gone there, fun _ => ⟨peer, adoption, adoptions, by dsimp only; omega, same⟩, older,
      batched.fresh⟩
  · next timer there =>
    obtain ⟨peer, adoptions, number⟩ := batched.waiting (by simp [there])
    refine ⟨fun _ => ⟨?_, adoptions, ?_⟩, nofun, older, batched.fresh⟩
    · dsimp only
      rw [peer, ite_self]
    · dsimp only
      rw [number, int32_succ]
      rfl

theorem Batched.launch (batched : Batched s) (there : s.timeouter ≠ none) (uvTcpConnect : Int) :
    Batched (s.launch uvTcpConnect).2 := by
  obtain ⟨peer, adoptions, number⟩ := batched.waiting there
  unfold Dialer.launch
  dsimp only
  split
  · exact ⟨fun _ => ⟨peer, adoptions, number⟩, fun gone => absurd gone there, batched.numbered, batched.fresh⟩
  · refine ⟨fun _ => ⟨peer, adoptions, number⟩, fun gone => absurd gone there, ?_, ?_⟩
    · intro id request pending
      dsimp only at pending
      rw [Function.update_apply] at pending
      split at pending
      · cases pending
        exact ⟨number, Nat.le_refl _⟩
      · exact batched.numbered id request pending
    · intro id above
      dsimp only at above ⊢
      rw [Function.update_of_ne (by omega)]
      exact batched.fresh id (by omega)

theorem cancel_timeouter (s : Dialer) (resetPeer : Bool) :
    (s.cancel resetPeer).timeouter = none ↔ s.timeouter = none := by
  unfold Dialer.cancel
  split
  · next gone => exact Iff.rfl
  · next timer there => simp [there]

theorem Batched.attempt (batched : Batched s) (there : s.timeouter ≠ none) (target : Target) (timeoutMS : Nat) :
    Batched (s.attempt libuv target timeoutMS).2 := by
  unfold Dialer.attempt
  dsimp only
  split
  · exact batched
  · split
    · exact batched.setTimeout timeoutMS
    · refine (batched.setTimeout timeoutMS).launch ?_ target.uvTcpConnect
      obtain ⟨timer, after, same⟩ := setTimeout_eq s timeoutMS
      rw [after]
      exact fun gone => there (same.mp gone)

theorem Batched.dial (batched : Batched s) (target : Target) (timeoutMS : Nat) (cleanup : Bool) :
    Batched (s.dial libuv target timeoutMS cleanup).2 := by
  unfold Dialer.dial
  split
  · exact batched
  · next timer there =>
    split
    · exact (batched.cancel true).attempt libuv (by simp [cancel_timeouter, there]) target timeoutMS
    · exact batched.attempt libuv (by simp [there]) target timeoutMS

theorem Batched.dialEach (batched : Batched s) (targets : List Target) : Batched (s.dialEach libuv targets) := by
  induction targets generalizing s with
  | nil => exact batched
  | cons target targets ih => exact ih (batched.dial libuv target 0 false)

theorem Batched.dialList (batched : Batched s) (targets : List Target) (timeoutMS : Nat) :
    Batched (s.dialList libuv targets timeoutMS).2 := by
  unfold Dialer.dialList
  split
  · exact batched
  · dsimp only
    split
    · exact (batched.cancel true).setTimeout timeoutMS
    · exact ((batched.cancel true).setTimeout timeoutMS).dialEach libuv targets

theorem Batched.dispose (batched : Batched s) : Batched s.dispose := by
  unfold Dialer.dispose
  split
  · exact batched
  · exact (batched.cancel true).timer Option.map_eq_none_iff

/-- With fewer than `2 ^ 31` calls of `Cancel` only a request of the current batch is adopted. -/
theorem Batched.adopts_current {id : Nat} {request : Request} {status readStart : Int} (batched : Batched s)
    (pending : s.requests id = some request) (adopts : s.Adopts request status readStart)
    (few : s.cancels < 2 ^ 31) : s.timeouter ≠ none ∧ request.dialed = s.cancels := by
  obtain ⟨-, newer, free, -⟩ := adopts
  have there : s.timeouter ≠ none := fun gone => (batched.adopted gone).1 free
  obtain ⟨number, before⟩ := batched.numbered id request pending
  rw [(batched.waiting there).2.2, number, int32_eq few, int32_eq (by omega)] at newer
  exact ⟨there, by omega⟩

theorem Batched.connected {id : Nat} {request : Request} (batched : Batched s)
    (pending : s.requests id = some request) (status readStart : Int) :
    Batched (s.connected id request status readStart) := by
  have others : ∀ id' request', Function.update s.requests id none id' = some request' →
      request'.batchNumber = int32 request'.dialed ∧ request'.dialed ≤ s.cancels := by
    intro id' request' pending'
    rw [Function.update_apply] at pending'
    split at pending'
    · cases pending'
    · exact batched.numbered id' request' pending'
  have fresh : ∀ id', s.created ≤ id' → Function.update s.requests id none id' = none := by
    intro id' above
    rw [Function.update_apply]
    split
    · rfl
    · exact batched.fresh id' above
  unfold Dialer.connected
  split
  · next adopts =>
    have there : s.timeouter ≠ none := fun gone => (batched.adopted gone).1 adopts.2.2.1
    refine ⟨fun there => absurd rfl there, fun _ => ⟨nofun, (request.dialed, s.cancels), ?_, Nat.le_refl _, ?_⟩, others,
      fresh⟩
    · dsimp only
      rw [(batched.waiting there).2.1]
      rfl
    · exact fun few => (batched.adopts_current pending adopts few).2
  · exact ⟨batched.waiting, batched.adopted, others, fresh⟩

theorem Batched.noted (batched : Batched s) (timed disposeCalled : Bool) (connects : Nat) :
    Batched { s with timed := timed, disposeCalled := disposeCalled, connects := connects } :=
  ⟨batched.waiting, batched.adopted, batched.numbered, batched.fresh⟩

variable {libuv}

theorem Batched.step {act : Act} (batched : Batched s) (steps : s.step libuv act = some s') : Batched s' := by
  cases act with
  | dial target timeoutMS cleanup =>
    cases steps
    exact (batched.dial libuv target timeoutMS cleanup).noted _ _ _
  | dialList targets timeoutMS found =>
    cases steps
    exact (batched.dialList libuv targets timeoutMS).noted _ _ _
  | cancel resetPeer =>
    cases steps
    exact (batched.cancel resetPeer).noted _ _ _
  | dispose =>
    cases steps
    exact batched.dispose.noted _ _ _
  | timeout =>
    rw [Dialer.step] at steps
    split at steps
    · cases steps
      exact (batched.cancel true).noted _ _ _
    · cases steps
  | connected id status readStart =>
    rw [Dialer.step] at steps
    split at steps
    · cases steps
    · next request pending =>
      cases steps
      exact batched.connected pending status readStart
  | disposePeer =>
    obtain ⟨peer, there, rfl⟩ := Option.map_eq_some_iff.mp steps
    refine ⟨fun waiting => ?_, fun gone => ⟨nofun, (batched.adopted gone).2⟩, batched.numbered, batched.fresh⟩
    rw [(batched.waiting waiting).1] at there
    cases there

theorem batched_of_run {guard : Dialer → Act → Prop} (run : Run libuv guard s) : Batched s := by
  induction run with
  | fresh => exact ⟨fun _ => ⟨rfl, rfl, rfl⟩, nofun, nofun, fun _ _ => rfl⟩
  | step act before allowed steps ih => exact ih.step steps

/-- A connect callback sets the peer and calls `Connect` only for a request of the current batch, and only if that
batch has adopted no peer before: every batch adopts one peer at most, and none adopts that of an earlier one. -/
theorem run_adopts_once (run : Run libuv (fun _ _ => True) s) (few : s.cancels < 2 ^ 31) :
    (∀ id status readStart s', s.step libuv (.connected id status readStart) = some s' →
      s'.peer ≠ s.peer ∨ s'.connects ≠ s.connects →
        ∃ request, s.requests id = some request ∧ request.dialed = s.cancels ∧
          s.cancels ∉ s.adoptions.map Prod.snd ∧ s'.adoptions = s.adoptions ++ [(request.dialed, s.cancels)]) ∧
    (∀ adoption ∈ s.adoptions, adoption.1 = adoption.2) ∧ (s.adoptions.map Prod.snd).Nodup := by
  have batched := batched_of_run run
  refine ⟨fun id status readStart s' steps changes => ?_, ?_⟩
  · rw [Dialer.step] at steps
    split at steps
    · cases steps
    · next request pending =>
      cases steps
      unfold Dialer.connected at changes ⊢
      split at changes
      · next adopts =>
        obtain ⟨there, current⟩ := batched.adopts_current pending adopts few
        refine ⟨request, pending, current, ?_, by rw [if_pos adopts]⟩
        rw [(batched.waiting there).2.1]
        exact List.not_mem_nil
      · simp at changes
  · cases timer : s.timeouter with
    | some there =>
      rw [(batched.waiting (by simp [timer])).2.1]
      exact ⟨nofun, List.nodup_nil⟩
    | none =>
      obtain ⟨-, adoption, only, before, same⟩ := batched.adopted timer
      rw [only]
      refine ⟨fun adoption' member => ?_, List.nodup_singleton _⟩
      rw [List.mem_singleton.mp member]
      exact same (by omega)

end

/-- `127.0.0.1`, and nothing else, is an address. -/
def localhost : Libuv where
  uvIp4Addr ip _ := if ip = ['1', '2', '7', '.', '0', '.', '0', '.', '1'] then 0 else -22
  uvIp6Addr _ _ := -22

def localTarget : Target := ⟨['1', '2', '7', '.', '0', '.', '0', '.', '1'], 12345, 0⟩

/-- Two requests to one address, of which the second is of a later batch. -/
theorem run_adopts_once_redial : ∃ s : Dialer, s.adoptions = [(2, 2)] ∧ (s.adoptions.map Prod.snd).Nodup := by
  let acts : List Act := [.dial localTarget 0 true, .dial localTarget 0 true, .connected 0 0 0, .connected 1 0 0]
  have seen : (acts.foldlM (Dialer.step localhost) {}).map (fun s => (s.cancels, s.adoptions)) =
      some (2, [(2, 2)]) := by decide
  obtain ⟨s, ran, fields⟩ := Option.map_eq_some_iff.mp seen
  obtain ⟨cancels, adoptions⟩ := Prod.mk.inj fields
  exact ⟨s, adoptions, (run_adopts_once (Run.fresh.acts ran) (by rw [cancels]; decide)).2.2⟩

/-! ## Bookkeeping -/

/-- What the fields tell about the requests, the peer and the timer. -/
structure Bookkept (s : Dialer) : Prop where
  pending : ∀ serial id, (serial, id) ∈ s.reqs ↔
    ∃ request, s.requests id = some request ∧ request.dialed = s.cancels ∧ request.serial = serial
  connected : ∀ peer, s.peer = some peer → peer.disposed = false → s.state = 2
  dialing : (∀ peer, s.peer = some peer → peer.disposed = true) → s.reqs ≠ [] → s.state = 1
  disposed : s.state = 3 → s.disposeCalled = true
  timer : s.timed = true → s.reqs ≠ [] → s.peer = none → s.armed = true

/-- An address that leads to a request. -/
def Accepted (libuv : Libuv) (target : Target) : Prop :=
  parse libuv target.ip target.port = 0 ∧ target.uvTcpConnect = 0

/-- Serial numbers do not overflow, a list is not dialed with a timeout (unless none of its addresses is accepted, or
the dialer is disposed), no callback of an earlier batch comes while a request has the same serial number, and nothing
is adopted. -/
def Steady (libuv : Libuv) (s : Dialer) : Act → Prop
  | .dial _ _ cleanup => cleanup = true ∨ s.serial + 1 < 2 ^ 31
  | .dialList targets timeoutMS found =>
      targets.length < 2 ^ 31 ∧
        (timeoutMS = 0 ∨ found ≠ 0 ∨ s.usable = false ∨ ∀ target ∈ targets, ¬ Accepted libuv target)
  | .connected id status readStart => ∀ request, s.requests id = some request →
      (request.dialed ≠ s.cancels → request.serial ∉ s.reqs.map Prod.fst) ∧ ¬ s.Adopts request status readStart
  | _ => True

/-- The part of the bookkeeping that does not depend on the order of calls, and what it needs of the serial
numbers. -/
structure Kept (s : Dialer) : Prop where
  there : s.timeouter ≠ none
  pending : ∀ serial id, (serial, id) ∈ s.reqs ↔
    ∃ request, s.requests id = some request ∧ request.dialed = s.cancels ∧ request.serial = serial
  distinct : (s.reqs.map Prod.fst).Nodup
  used : ∀ serial ∈ s.reqs.map Prod.fst, serial ≤ s.serial
  nonneg : 0 ≤ s.serial

section
variable {libuv : Libuv} {s s' : Dialer}

theorem mem_erase {reqs : List (Int × Nat)} {serial key : Int} {id : Nat} :
    (key, id) ∈ erase reqs serial ↔ (key, id) ∈ reqs ∧ key ≠ serial := by
  simp [erase, AssocMap.erase]

theorem erase_keys {reqs : List (Int × Nat)} {serial : Int} :
    ((erase reqs serial).map Prod.fst).Sublist (reqs.map Prod.fst) := List.filter_sublist.map _

theorem erase_absent {reqs : List (Int × Nat)} {serial : Int} (absent : serial ∉ reqs.map Prod.fst) :
    erase reqs serial = reqs := by
  refine AssocMap.erase_of_absent (Bool.eq_false_iff.mpr fun present => absent ?_)
  obtain ⟨entry, member, same⟩ := AssocMap.contains_iff.mp present
  rw [← eq_of_beq same]
  exact List.mem_map_of_mem member

theorem insert_absent {reqs : List (Int × Nat)} {serial : Int} (absent : serial ∉ reqs.map Prod.fst) (id : Nat) :
    insert reqs serial id = (serial, id) :: reqs := by
  refine AssocMap.put_absent (Bool.eq_false_iff.mpr fun present => absent ?_)
  obtain ⟨entry, member, same⟩ := AssocMap.contains_iff.mp present
  rw [← eq_of_beq same]
  exact List.mem_map_of_mem member

theorem int32_next (nonneg : 0 ≤ s.serial) (small : s.serial + 1 < 2 ^ 31) : int32 (s.serial + 1) = s.serial + 1 := by
  unfold int32
  rw [Int.bmod_eq_of_le] <;> omega

theorem Kept.timer (kept : Kept s) {timer : Option Timer} (same : timer = none ↔ s.timeouter = none) :
    Kept { s with timeouter := timer } :=
  ⟨fun gone => kept.there (same.mp gone), kept.pending, kept.distinct, kept.used, kept.nonneg⟩

theorem Kept.noted (kept : Kept s) (timed disposeCalled : Bool) (connects : Nat) :
    Kept { s with timed := timed, disposeCalled := disposeCalled, connects := connects } :=
  ⟨kept.there, kept.pending, kept.distinct, kept.used, kept.nonneg⟩

theorem Kept.setTimeout (kept : Kept s) (timeoutMS : Nat) : Kept (s.setTimeout timeoutMS).2 := by
  obtain ⟨timer, after, same⟩ := setTimeout_eq s timeoutMS
  rw [after]
  exact kept.timer same

/-- No request of an earlier batch is one of the next. -/
theorem Kept.cancel (kept : Kept s) (batched : Batched s) (resetPeer : Bool) :
    Kept (s.cancel resetPeer) ∧ (s.cancel resetPeer).reqs = [] ∧ (s.cancel resetPeer).serial = 0 := by
  unfold Dialer.cancel
  split
  · next gone => exact absurd gone kept.there
  · refine ⟨⟨nofun, fun serial id => ⟨nofun, ?_⟩, List.nodup_nil, nofun, Int.le_refl 0⟩, rfl, rfl⟩
    rintro ⟨request, pending, current, -⟩
    have before := (batched.numbered id request pending).2
    dsimp only at current
    omega

theorem Kept.launch (kept : Kept s) (batched : Batched s) (small : s.serial + 1 < 2 ^ 31) (uvTcpConnect : Int) :
    Kept (s.launch uvTcpConnect).2 := by
  have next := int32_next kept.nonneg small
  have absent : s.serial + 1 ∉ s.reqs.map Prod.fst := fun member => by
    have := kept.used _ member
    omega
  have used : ∀ serial ∈ s.reqs.map Prod.fst, serial ≤ s.serial + 1 := fun serial member => by
    have := kept.used serial member
    omega
  have nonneg : 0 ≤ s.serial + 1 := by
    have := kept.nonneg
    omega
  unfold Dialer.launch
  rw [next]
  dsimp only
  split
  · -- libuv refuses, and the request erases the serial that it never had
    rw [erase_absent absent]
    exact ⟨kept.there, kept.pending, kept.distinct, used, nonneg⟩
  · rw [insert_absent absent]
    refine ⟨kept.there, fun serial id => ?_, List.nodup_cons.mpr ⟨absent, kept.distinct⟩, ?_, nonneg⟩
    · dsimp only
      rw [List.mem_cons, kept.pending, Function.update_apply]
      constructor
      · rintro (same | ⟨request, pending, current⟩)
        · cases same
          exact ⟨_, if_pos rfl, rfl, rfl⟩
        · -- requests that are pending were launched before
          refine ⟨request, ?_, current⟩
          rw [if_neg, pending]
          rintro rfl
          rw [batched.fresh _ (Nat.le_refl _)] at pending
          cases pending
      · rintro ⟨request, pending, current, same⟩
        split at pending
        · next fresh =>
          cases pending
          exact .inl (by rw [← same, fresh])
        · exact .inr ⟨request, pending, current, same⟩
    · intro serial member
      rcases List.mem_cons.mp member with rfl | member
      · exact Int.le_refl _
      · exact used serial member

theorem Kept.attempt (kept : Kept s) (libuv : Libuv) (batched : Batched s) (small : s.serial + 1 < 2 ^ 31)
    (target : Target) (timeoutMS : Nat) : Kept (s.attempt libuv target timeoutMS).2 ∧
      (s.attempt libuv target timeoutMS).2.serial ≤ s.serial + 1 := by
  obtain ⟨timer, after, same⟩ := setTimeout_eq s timeoutMS
  have serial : (s.setTimeout timeoutMS).2.serial = s.serial := by rw [after]
  unfold Dialer.attempt
  dsimp only
  split
  · exact ⟨kept, by dsimp only; omega⟩
  · split
    · exact ⟨kept.setTimeout timeoutMS, by dsimp only; omega⟩
    · have small' : (s.setTimeout timeoutMS).2.serial + 1 < 2 ^ 31 := by omega
      refine ⟨(kept.setTimeout timeoutMS).launch (batched.setTimeout timeoutMS) small' target.uvTcpConnect, ?_⟩
      have next := int32_next (kept.setTimeout timeoutMS).nonneg small'
      unfold Dialer.launch
      rw [next]
      dsimp only
      split <;> dsimp only <;> omega

theorem dial_eq (libuv : Libuv) (there : s.timeouter ≠ none) (target : Target) (timeoutMS : Nat) (cleanup : Bool) :
    s.dial libuv target timeoutMS cleanup =
      (if cleanup then s.cancel true else s).attempt libuv target timeoutMS := by
  unfold Dialer.dial
  split
  · next gone => exact absurd gone there
  · rfl

theorem Kept.dialEach (kept : Kept s) (batched : Batched s) (targets : List Target)
    (small : s.serial + targets.length < 2 ^ 31) : Kept (s.dialEach libuv targets) := by
  induction targets generalizing s with
  | nil => exact kept
  | cons target targets ih =>
    rw [List.length_cons] at small
    obtain ⟨kept', serial⟩ := kept.attempt libuv batched (by omega) target 0
    have batched' := batched.dial libuv target 0 false
    have dialed : s.dial libuv target 0 false = s.attempt libuv target 0 := dial_eq libuv kept.there target 0 false
    rw [dialed] at batched'
    have rest := ih kept' batched' (by omega)
    rw [← dialed] at rest
    exact rest

/-- Addresses that are not accepted leave no requests. -/
theorem attempt_rejected {target : Target} (rejected : ¬ Accepted libuv target) (none : s.reqs = []) (timeoutMS : Nat) :
    (s.attempt libuv target timeoutMS).2.reqs = [] := by
  obtain ⟨timer, after, same⟩ := setTimeout_eq s timeoutMS
  unfold Dialer.attempt
  dsimp only
  split
  · exact none
  · next parsed =>
    rw [after]
    split
    · exact none
    · unfold Dialer.launch
      dsimp only
      rw [none]
      split
      · rfl
      · next connects => exact absurd ⟨Decidable.not_not.mp parsed, Decidable.not_not.mp connects⟩ rejected

theorem dialEach_rejected (none : s.reqs = []) {targets : List Target}
    (rejected : ∀ target ∈ targets, ¬ Accepted libuv target) : (s.dialEach libuv targets).reqs = [] := by
  induction targets generalizing s with
  | nil => exact none
  | cons target targets ih =>
    refine ih ?_ fun other member => rejected other (List.mem_cons_of_mem _ member)
    dsimp only
    unfold Dialer.dial
    split
    · exact none
    · exact attempt_rejected (rejected target List.mem_cons_self) none 0

theorem setTimeout_armed {timeoutMS : Nat} (positive : 0 < timeoutMS) (set : (s.setTimeout timeoutMS).1 = 0) :
    (s.setTimeout timeoutMS).2.armed = true := by
  unfold Dialer.setTimeout at set ⊢
  split at set
  · cases set
  · dsimp only at set ⊢
    rw [if_neg (by omega)] at set ⊢
    unfold Timer.start at set ⊢
    split at set
    · next alive =>
      dsimp only
      rw [if_pos alive]
      rfl
    · cases set

theorem attempt_armed {target : Target} {timeoutMS : Nat} (positive : 0 < timeoutMS)
    (dialed : (s.attempt libuv target timeoutMS).1 = 0) : (s.attempt libuv target timeoutMS).2.armed = true := by
  unfold Dialer.attempt at dialed ⊢
  dsimp only at dialed ⊢
  split at dialed
  · next failed => exact absurd dialed failed
  · next parsed =>
    rw [if_neg parsed]
    split at dialed
    · next failed => exact absurd dialed failed
    · next set =>
      rw [if_neg set]
      have armed := setTimeout_armed positive (Decidable.not_not.mp set)
      unfold Dialer.launch
      dsimp only
      split <;> exact armed

theorem Kept.connected {id : Nat} {request : Request} {status readStart : Int} (kept : Kept s)
    (pending : s.requests id = some request)
    (apart : request.dialed ≠ s.cancels → request.serial ∉ s.reqs.map Prod.fst)
    (unadopted : ¬ s.Adopts request status readStart) : Kept (s.connected id request status readStart) := by
  unfold Dialer.connected
  rw [if_neg unadopted]
  refine ⟨kept.there, fun serial id' => ?_, kept.distinct.sublist erase_keys,
    fun serial member => kept.used serial (erase_keys.subset member), kept.nonneg⟩
  dsimp only
  rw [mem_erase, kept.pending, Function.update_apply]
  constructor
  · rintro ⟨⟨other, pending', current, same⟩, different⟩
    refine ⟨other, ?_, current, same⟩
    rw [if_neg, pending']
    rintro rfl
    rw [pending] at pending'
    cases pending'
    exact different same.symm
  · rintro ⟨other, pending', current, same⟩
    split at pending'
    · cases pending'
    · next different =>
      refine ⟨⟨other, pending', current, same⟩, fun collides => ?_⟩
      have listed : (serial, id') ∈ s.reqs := (kept.pending serial id').mpr ⟨other, pending', current, same⟩
      -- The request that is done is of the same batch, and its serial number leads to one request only.
      by_cases now : request.dialed = s.cancels
      · have mine : (serial, id) ∈ s.reqs := (kept.pending serial id).mpr ⟨request, pending, now, collides.symm⟩
        exact different ((Prod.mk.inj (List.inj_on_of_nodup_map kept.distinct listed mine rfl)).2)
      · exact apart now (collides ▸ List.mem_map_of_mem listed)

theorem Kept.dialList (kept : Kept s) (batched : Batched s) {targets : List Target} {timeoutMS : Nat}
    (few : targets.length < 2 ^ 31) : Kept (s.dialList libuv targets timeoutMS).2 := by
  obtain ⟨kept', none, serial⟩ := kept.cancel batched true
  have batched' := (batched.cancel true).setTimeout timeoutMS
  obtain ⟨timer, after, same⟩ := setTimeout_eq (s.cancel true) timeoutMS
  unfold Dialer.dialList
  split
  · exact kept
  · dsimp only
    split
    · exact kept'.setTimeout timeoutMS
    · refine (kept'.setTimeout timeoutMS).dialEach batched' targets ?_
      rw [after]
      dsimp only
      omega

theorem dialList_rejected (there : s.timeouter ≠ none) {targets : List Target} {timeoutMS : Nat}
    (rejected : ∀ target ∈ targets, ¬ Accepted libuv target) : (s.dialList libuv targets timeoutMS).2.reqs = [] := by
  have none : ((s.cancel true).setTimeout timeoutMS).2.reqs = [] := by
    obtain ⟨timer, after, same⟩ := setTimeout_eq (s.cancel true) timeoutMS
    rw [after]
    unfold Dialer.cancel
    split
    · next gone => exact absurd gone there
    · rfl
  unfold Dialer.dialList
  split
  · next gone => exact absurd gone there
  · dsimp only
    split
    · exact none
    · exact dialEach_rejected none rejected

theorem setTimeout_unusable (disposed : s.usable = false) (timeoutMS : Nat) : (s.setTimeout timeoutMS).1 = -1 := by
  unfold Dialer.setTimeout
  split
  · rfl
  · next timer there =>
    have dead : timer.uvTimer = false := by simpa [usable, there] using disposed
    unfold Timer.stop Timer.start
    simp only [dead, Bool.false_eq_true, ↓reduceIte]
    split <;> rfl

theorem cancel_usable (s : Dialer) (resetPeer : Bool) : (s.cancel resetPeer).usable = s.usable := by
  unfold Dialer.cancel
  split
  · rfl
  · next timer there =>
    unfold usable Timer.stop
    rw [there]
    dsimp only [Option.any_some]
    split <;> rfl

theorem dialList_unusable (disposed : s.usable = false) (targets : List Target) (timeoutMS : Nat) :
    (s.dialList libuv targets timeoutMS).1 = some (-1) := by
  have failed := setTimeout_unusable ((cancel_usable s true).trans disposed) timeoutMS
  unfold Dialer.dialList
  split
  · rfl
  · dsimp only
    rw [failed]
    rfl

theorem dialList_returns {targets : List Target} {timeoutMS : Nat} {r : Int}
    (returned : (s.dialList libuv targets timeoutMS).1 = some r) : r ≠ 0 := by
  unfold Dialer.dialList at returned
  split at returned
  · cases returned
    decide
  · dsimp only at returned
    split at returned
    · next failed =>
      cases returned
      exact failed
    · cases returned

/-- One step of a steady run. -/
theorem Kept.step {act : Act} (kept : Kept s) (batched : Batched s)
    (timed : s.timed = true → s.reqs ≠ [] → s.armed = true)
    (steady : Steady libuv s act) (steps : s.step libuv act = some s') :
    Kept s' ∧ (s'.timed = true → s'.reqs ≠ [] → s'.armed = true) := by
  cases act with
  | dial target timeoutMS cleanup =>
    rw [Dialer.step, dial_eq libuv kept.there] at steps
    cases steps
    -- serials start again with a `Cancel`, otherwise they go on
    have cleaned : Kept (if cleanup then s.cancel true else s) ∧ Batched (if cleanup then s.cancel true else s) ∧
        (if cleanup then s.cancel true else s).serial + 1 < 2 ^ 31 := by
      cases cleanup with
      | true =>
        obtain ⟨kept', -, serial⟩ := kept.cancel batched true
        exact ⟨kept', batched.cancel true, by rw [if_pos rfl]; omega⟩
      | false => exact ⟨kept, batched, by simpa [Steady] using steady⟩
    obtain ⟨kept', batched', small⟩ := cleaned
    refine ⟨(kept'.attempt libuv batched' small target timeoutMS).1.noted _ _ _, fun noted _ => ?_⟩
    obtain ⟨positive, dialed⟩ := of_decide_eq_true noted
    exact attempt_armed positive dialed
  | dialList targets timeoutMS found =>
    cases steps
    obtain ⟨few, exempt⟩ := steady
    refine ⟨(kept.dialList batched few).noted _ _ _, fun noted pending => ?_⟩
    obtain ⟨positive, returned⟩ := of_decide_eq_true noted
    have returned : (s.dialList libuv targets timeoutMS).1.getD found = 0 := returned
    -- the timer is stopped by the dials behind `SetTimeout`: the condition leaves nothing that is promised
    exfalso
    rcases exempt with untimed | other | disposed | rejected
    · omega
    · cases code : (s.dialList libuv targets timeoutMS).1 with
      | none => exact other (by rwa [code] at returned)
      | some r => exact dialList_returns code (by rwa [code] at returned)
    · rw [dialList_unusable disposed] at returned
      cases returned
    · exact pending (dialList_rejected kept.there rejected)
  | cancel resetPeer =>
    cases steps
    exact ⟨(kept.cancel batched resetPeer).1.noted _ _ _, nofun⟩
  | dispose =>
    cases steps
    refine ⟨Kept.noted (s := s.dispose) ?_ _ _ _, nofun⟩
    unfold Dialer.dispose
    split
    · exact kept
    · exact (kept.cancel batched true).1.timer Option.map_eq_none_iff
  | timeout =>
    rw [Dialer.step] at steps
    split at steps
    · cases steps
      exact ⟨(kept.cancel batched true).1.noted _ _ _, nofun⟩
    · cases steps
  | connected id status readStart =>
    rw [Dialer.step] at steps
    split at steps
    · cases steps
    · next request pending =>
      cases steps
      obtain ⟨apart, unadopted⟩ := steady request pending
      refine ⟨kept.connected pending apart unadopted, ?_⟩
      -- without an adoption the request is all that goes
      unfold Dialer.connected
      rw [if_neg unadopted]
      refine fun noted rest => timed noted fun none => rest ?_
      dsimp only
      rw [none]
      rfl
  | disposePeer =>
    obtain ⟨peer, there, rfl⟩ := Option.map_eq_some_iff.mp steps
    -- there is no peer as long as the timer is there
    rw [(batched.waiting kept.there).1] at there
    cases there

theorem kept_of_run (run : Run libuv (Steady libuv) s) :
    Kept s ∧ (s.timed = true → s.reqs ≠ [] → s.armed = true) := by
  induction run with
  | fresh => exact ⟨⟨nofun, fun serial id => ⟨nofun, nofun⟩, List.nodup_nil, nofun, Int.le_refl 0⟩, nofun⟩
  | step act before steady steps ih => exact ih.1.step (batched_of_run before) ih.2 steady steps

theorem bookkept_of_run (run : Run libuv (Steady libuv) s) : Bookkept s := by
  obtain ⟨kept, timed⟩ := kept_of_run run
  obtain ⟨peer, -, -⟩ := (batched_of_run run).waiting kept.there
  obtain ⟨timer, there⟩ := Option.ne_none_iff_exists'.mp kept.there
  refine ⟨kept.pending, fun other adopted => ?_, fun _ pending => ?_, fun gone => ?_,
    fun noted pending _ => timed noted pending⟩
  · rw [peer] at adopted
    cases adopted
  · unfold state
    rw [there, peer]
    exact if_pos fun none => pending (List.length_eq_zero_iff.mp none)
  · unfold state at gone
    rw [there, peer] at gone
    dsimp only [Option.any_none] at gone
    split at gone
    · cases gone
    · split at gone <;> cases gone

/-- An adopted peer, and a request that is erased in place of another, leave wrong fields behind. -/
theorem Kept.steady_of_bookkept {id : Nat} {status readStart : Int} (kept : Kept s)
    (steps : s.step libuv (.connected id status readStart) = some s') (bookkept : Bookkept s') :
    Steady libuv s (.connected id status readStart) := by
  intro request pending
  rw [Dialer.step, pending] at steps
  cases steps
  have unadopted : ¬ s.Adopts request status readStart := by
    intro adopts
    have state := bookkept.connected { request := id }
    unfold Dialer.connected at state
    rw [if_pos adopts] at state
    have wrong : (3 : Int) = 2 := state rfl rfl
    exact absurd wrong (by decide)
  refine ⟨fun stale member => ?_, unadopted⟩
  obtain ⟨⟨serial, id'⟩, listed, same⟩ := List.mem_map.mp member
  obtain ⟨other, pending', current, serial'⟩ := (kept.pending serial id').mp listed
  have different : id' ≠ id := by
    rintro rfl
    exact stale (Option.some.inj (pending.symm.trans pending') ▸ current)
  have still := bookkept.pending serial id'
  unfold Dialer.connected at still
  rw [if_neg unadopted] at still
  dsimp only at still same
  rw [mem_erase, Function.update_of_ne different] at still
  exact (still.mpr ⟨other, pending', current, serial'⟩).2 same

/-- In a steady run the fields are right in every state; a callback that is not steady leaves them wrong. -/
theorem run_bookkept (run : Run libuv (Steady libuv) s) :
    Bookkept s ∧ ∀ id status readStart s', s.step libuv (.connected id status readStart) = some s' →
      (Bookkept s' ↔ Steady libuv s (.connected id status readStart)) :=
  ⟨bookkept_of_run run, fun _ _ _ _ steps =>
    ⟨(kept_of_run run).1.steady_of_bookkept steps, fun steady => bookkept_of_run (.step _ run steady steps)⟩⟩

end

/-- Two addresses are dialed, then one; the callbacks come in another order. -/
theorem run_bookkept_redial : ∃ s : Dialer, Bookkept s ∧ s.reqs = [(1, 2)] ∧ s.state = 1 ∧ s.armed = true := by
  have run₁ : Run localhost (Steady localhost) _ :=
    Run.step (.dialList [localTarget, localTarget] 0 0) Run.fresh ⟨by decide, .inl rfl⟩ rfl
  have run₂ := Run.step (.dial localTarget 1000 true) run₁ (.inl rfl) rfl
  have run₃ := Run.step (.connected 1 (-4081) 0) run₂ ?_ rfl
  · exact ⟨_, (run_bookkept run₃).1, by decide, by decide, by decide⟩
  · rintro request pending
    cases pending
    exact ⟨by decide, by decide⟩

/-- A callback of an earlier batch erases a request of the current one; a connection that succeeds leaves a dialer that
passes for disposed; and a list is dialed without its timeout. -/
theorem runs_unkept :
    (∃ s, Run localhost (fun _ _ => True) s ∧ s.reqs = [] ∧ s.requests 1 = some ⟨1, 2, 2⟩ ∧ s.cancels = 2 ∧ ¬ Bookkept s) ∧
    (∃ s, Run localhost (fun _ _ => True) s ∧ s.peer = some ⟨0, false⟩ ∧ s.state = 3 ∧ ¬ Bookkept s) ∧
    ∃ s, Run localhost (fun _ _ => True) s ∧ s.timed = true ∧ s.reqs = [(1, 0)] ∧ s.peer = none ∧ s.armed = false ∧
      ¬ Bookkept s := by
  refine ⟨?_, ?_, ?_⟩
  · let acts : List Act := [.dial localTarget 0 true, .dial localTarget 0 true, .connected 0 (-4081) 0]
    have seen : (acts.foldlM (Dialer.step localhost) {}).map (fun s => (s.reqs, s.requests 1, s.cancels)) =
        some ([], some ⟨1, 2, 2⟩, 2) := by decide
    obtain ⟨s, ran, fields⟩ := Option.map_eq_some_iff.mp seen
    simp only [Prod.mk.injEq] at fields
    obtain ⟨reqs, request, cancels⟩ := fields
    refine ⟨s, Run.fresh.acts ran, reqs, request, cancels, fun bookkept => ?_⟩
    have listed := (bookkept.pending 1 1).mpr ⟨_, request, cancels.symm, rfl⟩
    rw [reqs] at listed
    cases listed
  · let acts : List Act := [.dial localTarget 0 true, .connected 0 0 0]
    have seen : (acts.foldlM (Dialer.step localhost) {}).map (fun s => (s.peer, s.state)) =
        some (some ⟨0, false⟩, 3) := by decide
    obtain ⟨s, ran, fields⟩ := Option.map_eq_some_iff.mp seen
    obtain ⟨peer, state⟩ := Prod.mk.inj fields
    refine ⟨s, Run.fresh.acts ran, peer, state, fun bookkept => ?_⟩
    exact absurd ((bookkept.connected _ peer rfl).symm.trans state) (by decide)
  · let acts : List Act := [.dialList [localTarget] 1000 0]
    have seen : (acts.foldlM (Dialer.step localhost) {}).map (fun s => (s.timed, s.reqs, s.peer, s.armed)) =
        some (true, [(1, 0)], none, false) := by decide
    obtain ⟨s, ran, fields⟩ := Option.map_eq_some_iff.mp seen
    simp only [Prod.mk.injEq] at fields
    obtain ⟨timed, reqs, peer, armed⟩ := fields
    refine ⟨s, Run.fresh.acts ran, timed, reqs, peer, armed, fun bookkept => ?_⟩
    have fires := bookkept.timer timed (by rw [reqs]; exact List.cons_ne_nil _ _) peer
    rw [armed] at fires
    cases fires

end Dialer

end Xxlib.Uv3
