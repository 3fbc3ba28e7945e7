import Mathlib.Logic.Function.Basic

/-! The connection of a `UvTcpClient`: `Connect`, `Disconnect`, and the callbacks of its request and its timer
(`xx_uv.cpp`).

The handle, the request and the timer of a `Connect` share one number, given when libuv accepts the request. The
client is alive and its handlers are set. What a handler calls in turn comes as a further act: behind a handler no
function changes the client.
-/

set_option autoImplicit false

namespace Xxlib.Uv4

inductive TcpState where
  | disconnected
  | connecting
  | connected
  deriving DecidableEq

/-- The fields of the source, and then the requests that libuv has accepted so far: their number, and those that
have not been called back yet, with whether their handle has been closed. -/
structure TcpClient where
  state : TcpState := .disconnected
  ptr : Option Nat := none
  req : Option Nat := none
  connTimeouter : Option Nat := none
  accepted : Nat := 0
  inFlight : Nat → Option Bool := fun _ => none

namespace TcpClient

/-! ## The code -/

inductive Call where
  | onConnect (status : Int)
  | onDisconnect
  deriving DecidableEq

/-- What the steps inside `Connect` answer. -/
structure Answers where
  allocPtr : Bool := true
  uvTcpInit : Int := 0
  allocReq : Bool := true
  uvTcpConnect : Int := 0
  createTimer : Bool := true

/-- `CloseAndFree`. -/
def close (inFlight : Nat → Option Bool) (handle : Nat) : Nat → Option Bool :=
  Function.update inFlight handle ((inFlight handle).map fun _ => true)

/-- `none` if libuv is given a null pointer. -/
def disconnect (s : TcpClient) (runCallback : Bool) : Option (TcpClient × List Call) :=
  if s.state = .disconnected then some (s, [])
  else
    match s.ptr with
    | none => none
    | some handle =>
        some ({ s with
          req := none
          state := .disconnected
          inFlight := close s.inFlight handle
          ptr := none
          connTimeouter := none }, if runCallback then [.onDisconnect] else [])

/-- `none` if libuv is given a null pointer: the allocation of the request is not checked. If there is no timer, the
guards free the request, which libuv still has, and close the handle. -/
def connect (s : TcpClient) (timeoutMS : Int) (answers : Answers) : Option (Int × TcpClient) :=
  if s.state ≠ .disconnected then some (-1, s)
  else if answers.allocPtr = false then some (-2, { s with ptr := none })
  else if answers.uvTcpInit ≠ 0 then some (answers.uvTcpInit, { s with ptr := none })
  else if answers.allocReq = false then none
  else if answers.uvTcpConnect ≠ 0 then some (answers.uvTcpConnect, { s with ptr := none, req := none })
  else
    let s := { s with
      ptr := some s.accepted
      req := some s.accepted
      accepted := s.accepted + 1
      inFlight := Function.update s.inFlight s.accepted (some false)
      state := .connecting }
    if timeoutMS = 0 then some (0, s)
    else if answers.createTimer = false then
      some (-2, { s with
        connTimeouter := none, req := none, ptr := none
        inFlight := Function.update s.inFlight (s.accepted - 1) none })
    else some (0, { s with connTimeouter := s.ptr })

/-- `OnConnectCBImpl`. libuv reports no success for a handle that has been closed. -/
def onConnectCB (s : TcpClient) (request : Nat) (status : Int) : Option (TcpClient × List Call) :=
  match s.inFlight request with
  | none => none
  | some closed =>
      if closed = true ∧ 0 ≤ status then none
      else
        let s := { s with req := none, inFlight := Function.update s.inFlight request none }
        if status = -4081 then some (s, [])
        else if status < 0 then (s.disconnect false).map fun (s, calls) => (s, calls ++ [.onConnect status])
        else some ({ s with connTimeouter := none, state := .connected }, [.onConnect status])

/-- The callback of the timer. -/
def onTimer (s : TcpClient) : Option (TcpClient × List Call) :=
  match s.connTimeouter with
  | none => none
  | some _ =>
      let s := { s with connTimeouter := none }
      if s.state ≠ .connecting then some (s, [])
      else (s.disconnect false).map fun (s, calls) => (s, calls ++ [.onConnect (-1)])

/-- `OnReadCBImpl` with an error; libuv reads while the client is connected. -/
def onReadError (s : TcpClient) : Option (TcpClient × List Call) :=
  if s.state = .connected then s.disconnect true else none

/-! ## Runs -/

inductive Act where
  | connect (timeoutMS : Int) (answers : Answers)
  | disconnect (runCallback : Bool)
  | timeout
  | readError
  | callback (request : Nat) (status : Int)

/-- What an act leaves: the result of `Connect`, the client, the calls of handlers. -/
structure Effect where
  returned : Int
  client : TcpClient
  calls : List Call

def step (s : TcpClient) : Act → Option Effect
  | .connect timeoutMS answers => (s.connect timeoutMS answers).map fun (r, s) => ⟨r, s, []⟩
  | .disconnect runCallback => (s.disconnect runCallback).map fun (s, calls) => ⟨0, s, calls⟩
  | .timeout => s.onTimer.map fun (s, calls) => ⟨0, s, calls⟩
  | .readError => s.onReadError.map fun (s, calls) => ⟨0, s, calls⟩
  | .callback request status => (s.onConnectCB request status).map fun (s, calls) => ⟨0, s, calls⟩

inductive Run (guard : TcpClient → Act → Prop) : TcpClient → Prop where
  | fresh : Run guard {}
  | step {s : TcpClient} {effect : Effect} (act : Act) (before : Run guard s) (allowed : guard s act)
      (steps : s.step act = some effect) : Run guard effect.client

/-- Whether a disconnection is reported. -/
def Act.runCallback : Act → Bool
  | .disconnect runCallback => runCallback
  | .readError => true
  | _ => false

/-- What is asked of an act. -/
structure Meets (s : TcpClient) (act : Act) (effect : Effect) : Prop where
  null : effect.client.ptr = none ↔ effect.client.state = .disconnected
  failed : effect.returned ≠ 0 → effect.client.state = .disconnected
  earlier : ∀ request status, act = .callback request status → request + 1 ≠ s.accepted →
    effect.client.state = s.state ∧ effect.client.req = s.req ∧ effect.client.connTimeouter = s.connTimeouter ∧
      effect.client.ptr = s.ptr ∧ ∀ code, .onConnect code ∉ effect.calls
  reported : effect.calls.count .onDisconnect =
    if s.state = .connected ∧ effect.client.state = .disconnected ∧ act.runCallback = true then 1 else 0

/-- Libuv accepts the request. -/
def Answers.Accepts (answers : Answers) : Prop :=
  answers.allocPtr = true ∧ answers.uvTcpInit = 0 ∧ answers.uvTcpConnect = 0

/-- `Connect` is called without a handle, as its assertion says, and gets its timer; `Disconnect` with its callback is
not called while connecting; a callback of an earlier request has the status of Windows for a cancelled one, and comes
when no request is on its way. -/
def Orderly (s : TcpClient) : Act → Prop
  | .connect timeoutMS answers =>
      s.ptr = none ∧ (answers.Accepts → timeoutMS ≠ 0 → answers.createTimer = true)
  | .disconnect runCallback => runCallback = true → s.state ≠ .connecting
  | .callback request status => request + 1 ≠ s.accepted → status = -4081 ∧ s.req = none
  | _ => True

/-! ## Orderly acts -/

/-- A request whose handle is open is that of the current handle. -/
structure Inv (s : TcpClient) : Prop where
  null : s.ptr = none ↔ s.state = .disconnected
  current : ∀ request, s.inFlight request = some false → s.ptr = some request

section
variable {s s' : TcpClient} {calls : List Call}

/-- What `Disconnect` does. -/
theorem disconnect_cases {runCallback : Bool} (ran : s.disconnect runCallback = some (s', calls)) :
    (s.state = .disconnected ∧ s' = s ∧ calls = []) ∨
    ∃ handle, s.state ≠ .disconnected ∧ s.ptr = some handle ∧
      s' = { s with
        req := none, state := .disconnected, inFlight := close s.inFlight handle, ptr := none, connTimeouter := none } ∧
      calls = if runCallback then [.onDisconnect] else [] := by
  unfold disconnect at ran
  split at ran
  · next before =>
    cases ran
    exact .inl ⟨before, rfl, rfl⟩
  · next before =>
    split at ran
    · cases ran
    · next handle there =>
      cases ran
      exact .inr ⟨handle, before, there, rfl, rfl⟩

theorem Inv.disconnect {runCallback : Bool} (inv : Inv s) (ran : s.disconnect runCallback = some (s', calls)) :
    Inv s' ∧ s'.state = .disconnected := by
  rcases disconnect_cases ran with ⟨before, rfl, -⟩ | ⟨handle, -, there, rfl, -⟩
  · exact ⟨inv, before⟩
  · refine ⟨⟨Iff.intro (fun _ => rfl) fun _ => rfl, fun request open' => ?_⟩, rfl⟩
    dsimp only at open'
    unfold close at open'
    rw [Function.update_apply] at open'
    split at open'
    · next same =>
      cases flying : s.inFlight handle with
      | none =>
        rw [flying] at open'
        cases open'
      | some closed =>
        rw [flying] at open'
        cases open'
    · next other =>
      have mine := inv.current request open'
      rw [there] at mine
      exact absurd (Option.some.inj mine).symm other

theorem disconnect_quiet (ran : s.disconnect false = some (s', calls)) : calls = [] := by
  rcases disconnect_cases ran with ⟨-, -, none⟩ | ⟨handle, -, -, -, none⟩
  · exact none
  · exact none

theorem Inv.landed (inv : Inv s) (request : Nat) :
    Inv { s with req := none, inFlight := Function.update s.inFlight request none } := by
  refine ⟨inv.null, fun other open' => ?_⟩
  dsimp only at open' ⊢
  rw [Function.update_apply] at open'
  split at open'
  · cases open'
  · exact inv.current other open'

/-- The callback of a request leaves an invariant state, and reports no disconnection. -/
theorem Inv.onConnectCB {request : Nat} {status : Int} (inv : Inv s)
    (ran : s.onConnectCB request status = some (s', calls)) :
    Inv s' ∧ .onDisconnect ∉ calls ∧ (status ≠ -4081 → ∃ code, .onConnect code ∈ calls) ∧
      (status = -4081 → s' = { s with req := none, inFlight := Function.update s.inFlight request none } ∧ calls = []) := by
  have landed := inv.landed request
  unfold TcpClient.onConnectCB at ran
  split at ran
  · cases ran
  · next closed flying =>
    split at ran
    · cases ran
    · next real =>
      dsimp only at ran
      split at ran
      · next cancelled =>
        cases ran
        exact ⟨landed, List.not_mem_nil, fun other => absurd cancelled other, fun _ => ⟨rfl, rfl⟩⟩
      · next other =>
        split at ran
        · next negative =>
          obtain ⟨⟨s₁, calls₁⟩, disconnected, same⟩ := Option.map_eq_some_iff.mp ran
          cases same
          rw [disconnect_quiet disconnected]
          exact ⟨(landed.disconnect disconnected).1, by simp, fun _ => ⟨status, by simp⟩, fun same => absurd same other⟩
        · next success =>
          cases ran
          -- A success comes for an open handle only, which is the client's.
          have open' : s.inFlight request = some false := by
            cases closed with
            | false => exact flying
            | true => exact absurd ⟨rfl, by omega⟩ real
          refine ⟨⟨?_, landed.current⟩, by simp, fun _ => ⟨status, by simp⟩, fun same => absurd same other⟩
          dsimp only
          rw [inv.current request open']
          exact ⟨nofun, nofun⟩

theorem connect_busy {timeoutMS r : Int} {answers : Answers} (inv : Inv s) (busy : s.ptr ≠ none)
    (ran : s.connect timeoutMS answers = some (r, s')) : r = -1 ∧ s' = s := by
  have state : s.state ≠ .disconnected := fun same => busy (inv.null.mpr same)
  unfold TcpClient.connect at ran
  rw [if_pos state] at ran
  cases ran
  exact ⟨rfl, rfl⟩

/-- A client without a handle has no request with an open one. -/
theorem Inv.not_open (inv : Inv s) (free : s.ptr = none) (request : Nat) : s.inFlight request ≠ some false := by
  intro open'
  have mine := inv.current request open'
  rw [free] at mine
  cases mine

/-- What the guards leave of a `Connect` that fails before libuv has the request. -/
theorem Inv.undone (inv : Inv s) (free : s.ptr = none) (req : Option Nat) :
    Inv { s with ptr := none, req := req } ∧ s.state = .disconnected := by
  have state := inv.null.mp free
  exact ⟨⟨⟨fun _ => state, fun _ => rfl⟩, fun request open' => absurd open' (inv.not_open free request)⟩, state⟩

/-- The handle of the client is that of its new request, whatever becomes of the timer. -/
theorem Inv.connecting (inv : Inv s) (free : s.ptr = none) (connTimeouter : Option Nat) :
    Inv { s with
      ptr := some s.accepted
      req := some s.accepted
      accepted := s.accepted + 1
      inFlight := Function.update s.inFlight s.accepted (some false)
      state := .connecting
      connTimeouter := connTimeouter } := by
  refine ⟨⟨nofun, nofun⟩, fun request open' => ?_⟩
  dsimp only at open' ⊢
  rw [Function.update_apply] at open'
  split at open'
  · next same => rw [same]
  · exact absurd open' (inv.not_open free request)

/-- Without a timer `Connect` fails and stays in the middle of connecting; otherwise it is all or nothing. -/
theorem Inv.connect {timeoutMS r : Int} {answers : Answers} (inv : Inv s) (free : s.ptr = none)
    (ran : s.connect timeoutMS answers = some (r, s')) :
    (¬ (answers.Accepts → timeoutMS ≠ 0 → answers.createTimer = true) → r = -2 ∧ s'.state = .connecting) ∧
    ((answers.Accepts → timeoutMS ≠ 0 → answers.createTimer = true) →
      Inv s' ∧ (r ≠ 0 → s'.state = .disconnected)) := by
  obtain ⟨undone, state⟩ := inv.undone free s.req
  obtain ⟨undone', -⟩ := inv.undone free none
  unfold TcpClient.connect at ran
  rw [if_neg (fun busy => busy state)] at ran
  -- the first failures come before libuv has accepted the request
  split at ran
  · next failed =>
    cases ran
    refine ⟨fun broken => absurd (fun accepts => ?_) broken, fun _ => ⟨undone, fun _ => state⟩⟩
    exact absurd accepts.1 (by rw [failed]; decide)
  split at ran
  · next failed =>
    cases ran
    refine ⟨fun broken => absurd (fun accepts => ?_) broken, fun _ => ⟨undone, fun _ => state⟩⟩
    exact absurd accepts.2.1 failed
  split at ran
  · cases ran
  split at ran
  · next failed =>
    cases ran
    refine ⟨fun broken => absurd (fun accepts => ?_) broken, fun _ => ⟨undone', fun _ => state⟩⟩
    exact absurd accepts.2.2 failed
  · next allocated initialised requested accepted =>
    have accepts : answers.Accepts :=
      ⟨by simpa using allocated, Decidable.not_not.mp initialised, Decidable.not_not.mp accepted⟩
    dsimp only at ran
    split at ran
    · next untimed =>
      cases ran
      exact ⟨fun broken => absurd (fun _ timed => absurd untimed timed) broken,
        fun _ => ⟨inv.connecting free _, fun failed => absurd rfl failed⟩⟩
    · next timed =>
      split at ran
      · next failed =>
        cases ran
        refine ⟨fun _ => ⟨rfl, rfl⟩, fun fine => ?_⟩
        have timer := fine accepts timed
        rw [failed] at timer
        cases timer
      · next created =>
        cases ran
        exact ⟨fun broken => absurd (fun _ _ => by simpa using created) broken,
          fun _ => ⟨inv.connecting free _, fun failed => absurd rfl failed⟩⟩

theorem Inv.connect_meets_iff {timeoutMS : Int} {answers : Answers} {effect : Effect} (inv : Inv s)
    (steps : s.step (.connect timeoutMS answers) = some effect) :
    (Orderly s (.connect timeoutMS answers) → Inv effect.client) ∧
      (Meets s (.connect timeoutMS answers) effect ↔ Orderly s (.connect timeoutMS answers)) := by
  obtain ⟨⟨r, s'⟩, ran, rfl⟩ := Option.map_eq_some_iff.mp steps
  have unreported : ([] : List Call).count .onDisconnect = if s.state = .connected ∧ s'.state = .disconnected ∧
      (Act.connect timeoutMS answers).runCallback = true then 1 else 0 := by
    rw [if_neg (fun both => nomatch both.2.2), List.count_nil]
  by_cases free : s.ptr = none
  · obtain ⟨broken, fine⟩ := inv.connect free ran
    refine ⟨fun orderly => (fine orderly.2).1, fun meets => ⟨free, ?_⟩, fun orderly => ?_⟩
    · by_contra untimed
      obtain ⟨failed, connecting⟩ := broken untimed
      have disconnected : s'.state = .disconnected := meets.failed (show r ≠ 0 by rw [failed]; decide)
      rw [connecting] at disconnected
      cases disconnected
    · obtain ⟨inv', failed⟩ := fine orderly.2
      exact ⟨inv'.null, failed, nofun, unreported⟩
  · obtain ⟨failed, rfl⟩ := connect_busy inv free ran
    refine ⟨fun orderly => absurd orderly.1 free, fun meets => ?_, fun orderly => absurd orderly.1 free⟩
    exact absurd (inv.null.mpr (meets.failed (show r ≠ 0 by rw [failed]; decide))) free

theorem disconnect_reports {runCallback : Bool} (ran : s.disconnect runCallback = some (s', calls)) :
    calls.count .onDisconnect = if s.state ≠ .disconnected ∧ runCallback = true then 1 else 0 := by
  rcases disconnect_cases ran with ⟨before, -, rfl⟩ | ⟨handle, before, -, -, rfl⟩
  · rw [if_neg (fun both => both.1 before), List.count_nil]
  · cases runCallback <;> simp [before]

theorem Inv.disconnect_meets_iff {runCallback : Bool} {effect : Effect} (inv : Inv s)
    (steps : s.step (.disconnect runCallback) = some effect) :
    Inv effect.client ∧ (Meets s (.disconnect runCallback) effect ↔ Orderly s (.disconnect runCallback)) := by
  obtain ⟨⟨s', calls⟩, ran, rfl⟩ := Option.map_eq_some_iff.mp steps
  obtain ⟨inv', disconnected⟩ := inv.disconnect ran
  have count := disconnect_reports ran
  refine ⟨inv', fun meets run connecting => ?_, fun orderly => ⟨inv'.null, fun failed => absurd rfl failed, nofun, ?_⟩⟩
  · have reported : calls.count .onDisconnect = _ := meets.reported
    rw [count, if_pos ⟨by rw [connecting]; decide, run⟩, if_neg fun both => by rw [connecting] at both; cases both.1]
      at reported
    cases reported
  · have same : (s.state ≠ .disconnected ∧ runCallback = true) ↔
        (s.state = .connected ∧ s'.state = .disconnected ∧ runCallback = true) := by
      constructor
      · intro ⟨busy, run⟩
        have state := orderly run
        cases now : s.state with
        | disconnected => exact absurd now busy
        | connecting => exact absurd now state
        | connected => exact ⟨rfl, disconnected, run⟩
      · intro ⟨connected, _, run⟩
        exact ⟨by rw [connected]; decide, run⟩
    dsimp only [Act.runCallback]
    rw [count]
    exact if_congr same rfl rfl

theorem Inv.readError_meets {effect : Effect} (inv : Inv s) (steps : s.step .readError = some effect) :
    Inv effect.client ∧ Meets s .readError effect := by
  obtain ⟨⟨s', calls⟩, ran, rfl⟩ := Option.map_eq_some_iff.mp steps
  unfold onReadError at ran
  split at ran
  · next connected =>
    obtain ⟨inv', disconnected⟩ := inv.disconnect ran
    refine ⟨inv', inv'.null, fun failed => absurd rfl failed, nofun, ?_⟩
    rw [disconnect_reports ran, if_pos ⟨by rw [connected]; decide, rfl⟩, if_pos ⟨connected, disconnected, rfl⟩]
  · cases ran

theorem Inv.callback_meets_iff {request : Nat} {status : Int} {effect : Effect} (inv : Inv s)
    (steps : s.step (.callback request status) = some effect) :
    Inv effect.client ∧ (Meets s (.callback request status) effect ↔ Orderly s (.callback request status)) := by
  obtain ⟨⟨s', calls⟩, ran, rfl⟩ := Option.map_eq_some_iff.mp steps
  obtain ⟨inv', unreported, called, cancelled⟩ := inv.onConnectCB ran
  refine ⟨inv', fun meets stale => ?_, fun orderly => ⟨inv'.null, fun failed => absurd rfl failed, ?_, ?_⟩⟩
  · obtain ⟨-, req, -, -, uncalled⟩ := meets.earlier request status rfl stale
    by_cases status' : status = -4081
    · refine ⟨status', ?_⟩
      obtain ⟨rfl, -⟩ := cancelled status'
      exact req.symm
    · obtain ⟨code, member⟩ := called status'
      exact absurd member (uncalled code)
  · intro request' status' same stale
    cases same
    obtain ⟨status'', req⟩ := orderly stale
    obtain ⟨rfl, rfl⟩ := cancelled status''
    exact ⟨rfl, req.symm, rfl, rfl, fun code => List.not_mem_nil⟩
  · rw [if_neg (fun both => nomatch both.2.2)]
    exact List.count_eq_zero.mpr unreported

theorem Inv.timeout_meets {effect : Effect} (inv : Inv s) (steps : s.step .timeout = some effect) :
    Inv effect.client ∧ Meets s .timeout effect := by
  obtain ⟨⟨s', calls⟩, ran, rfl⟩ := Option.map_eq_some_iff.mp steps
  have stopped : Inv { s with connTimeouter := none } := ⟨inv.null, inv.current⟩
  have done : Inv s' ∧ .onDisconnect ∉ calls := by
    unfold onTimer at ran
    split at ran
    · cases ran
    · dsimp only at ran
      split at ran
      · cases ran
        exact ⟨stopped, List.not_mem_nil⟩
      · obtain ⟨⟨s₁, calls₁⟩, disconnected, same⟩ := Option.map_eq_some_iff.mp ran
        cases same
        rw [disconnect_quiet disconnected]
        exact ⟨(stopped.disconnect disconnected).1, by simp⟩
  refine ⟨done.1, done.1.null, fun failed => absurd rfl failed, nofun, ?_⟩
  rw [if_neg (fun both => nomatch both.2.2)]
  exact List.count_eq_zero.mpr done.2

/-- One act: it meets what is asked of it exactly if it is orderly, and then the invariant stays. -/
theorem Inv.step {act : Act} {effect : Effect} (inv : Inv s) (steps : s.step act = some effect) :
    (Orderly s act → Inv effect.client) ∧ (Meets s act effect ↔ Orderly s act) := by
  cases act with
  | connect timeoutMS answers => exact inv.connect_meets_iff steps
  | disconnect runCallback =>
    obtain ⟨inv', iff⟩ := inv.disconnect_meets_iff steps
    exact ⟨fun _ => inv', iff⟩
  | timeout =>
    obtain ⟨inv', meets⟩ := inv.timeout_meets steps
    exact ⟨fun _ => inv', fun _ => trivial, fun _ => meets⟩
  | readError =>
    obtain ⟨inv', meets⟩ := inv.readError_meets steps
    exact ⟨fun _ => inv', fun _ => trivial, fun _ => meets⟩
  | callback request status =>
    obtain ⟨inv', iff⟩ := inv.callback_meets_iff steps
    exact ⟨fun _ => inv', iff⟩

theorem inv_of_run (run : Run Orderly s) : Inv s := by
  induction run with
  | fresh => exact ⟨⟨fun _ => rfl, fun _ => rfl⟩, nofun⟩
  | step act before orderly steps ih => exact (ih.step steps).1 orderly

/-- After orderly acts the pointer is null exactly in a disconnected client, and the next act meets what is asked of it
exactly if it is orderly, too. -/
theorem run_meets (run : Run Orderly s) : (s.ptr = none ↔ s.state = .disconnected) ∧
    ∀ act effect, s.step act = some effect → (Meets s act effect ↔ Orderly s act) := by
  have inv := inv_of_run run
  exact ⟨inv.null, fun act effect steps => (inv.step steps).2⟩

end

/-- A connection, another one after it, and the callback of a cancelled request at last. -/
theorem run_meets_reconnect : ∃ s : TcpClient, s.state = .connected ∧ s.ptr = some 1 ∧
    (s.ptr = none ↔ s.state = .disconnected) := by
  have run₁ := Run.step (.connect 1000 {}) (Run.fresh : Run Orderly {}) ⟨rfl, fun _ _ => rfl⟩ rfl
  have run₂ := Run.step .timeout run₁ trivial rfl
  have run₃ := Run.step (.connect 0 {}) run₂ ⟨rfl, fun _ _ => rfl⟩ rfl
  have run₄ := Run.step (.callback 1 0) run₃ (fun stale => absurd rfl stale) rfl
  have run₅ := Run.step (.callback 0 (-4081)) run₄ (fun _ => ⟨rfl, rfl⟩) rfl
  exact ⟨_, rfl, rfl, (run_meets run₅).1⟩

/-- `Connect` fails without a timer; a cancelled request calls back after the next `Connect`, with the status that it has
on Windows or with another one; the user disconnects while connecting. -/
theorem acts_unmet :
    (∃ effect, ({} : TcpClient).step (.connect 1000 { createTimer := false }) = some effect ∧
      effect.returned = -2 ∧ effect.client.state = .connecting ∧ effect.client.ptr = none ∧
      ¬ Meets {} (.connect 1000 { createTimer := false }) effect) ∧
    (∃ s, Run Orderly s ∧ s.state = .connecting ∧ s.req = some 1 ∧
      (∃ effect, s.step (.callback 0 (-4081)) = some effect ∧ effect.client.req = none ∧
        ¬ Meets s (.callback 0 (-4081)) effect) ∧
      ∃ effect, s.step (.callback 0 (-125)) = some effect ∧ effect.client.state = .disconnected ∧
        effect.calls = [.onConnect (-125)] ∧ ¬ Meets s (.callback 0 (-125)) effect) ∧
    ∃ s effect, Run Orderly s ∧ s.state = .connecting ∧ s.step (.disconnect true) = some effect ∧
      effect.calls = [.onDisconnect] ∧ ¬ Meets s (.disconnect true) effect := by
  have run₁ := Run.step (.connect 0 {}) (Run.fresh : Run Orderly {}) ⟨rfl, fun _ _ => rfl⟩ rfl
  have run₂ := Run.step (.disconnect false) run₁ nofun rfl
  have run₃ := Run.step (.connect 0 {}) run₂ ⟨rfl, fun _ _ => rfl⟩ rfl
  refine ⟨⟨_, rfl, rfl, rfl, rfl, fun meets => nomatch meets.failed (by decide)⟩,
    ⟨_, run₃, rfl, rfl, ⟨_, rfl, rfl, fun meets => ?_⟩, ⟨_, rfl, rfl, rfl, fun meets => ?_⟩⟩,
    ⟨_, _, run₁, rfl, rfl, rfl, fun meets => nomatch meets.reported⟩⟩
  · exact nomatch (meets.earlier 0 (-4081) rfl (by decide)).2.1
  · exact nomatch (meets.earlier 0 (-125) rfl (by decide)).1

end TcpClient

end Xxlib.Uv4
