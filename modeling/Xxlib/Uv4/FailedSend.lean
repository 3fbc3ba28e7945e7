import Mathlib.Logic.Relation
import Xxlib.Uv4.Receive
import Xxlib.Uv4.RpcManager

/-! Requests that cannot be sent: `SendRequest` and `SendRoutingRequest` of `UvTcpUdpBase` (`xx_uv.hpp`).

Both move the callback into the manager before they know whether `SendBytes` fails. The first one
then settles the request through the manager, the second one calls what it has moved from.
-/

set_option autoImplicit false

namespace Xxlib.Uv4

open Relation

/-- A call of a callback: the number of its registration, and its arguments. -/
structure Invocation (B : Type) where
  callback : Nat
  serial : Nat
  bb : Option B

/-- The function that sends, with the address that it is given. -/
inductive Requester where
  | sendRequest
  | sendRoutingRequest (serviceAddr : List UInt8)
  deriving DecidableEq

/-- What is passed to `SendBytes`. -/
def Requester.bytes (serial : Nat) (pkg : List UInt8) : Requester → List UInt8
  | .sendRequest => Uv4.sendRequest (UInt32.ofNat serial) pkg
  | .sendRoutingRequest serviceAddr => Uv4.sendRoutingRequest serviceAddr (UInt32.ofNat serial) pkg

/-- The manager, how many callbacks it was given, and the calls of them. -/
structure Requests (B : Type) where
  manager : RpcManager Nat
  registered : Nat
  invoked : List (Invocation B)

namespace Requests

variable {B : Type}

/-! ## Calls -/

def fresh (defaultInterval : Int) : Requests B := ⟨.create defaultInterval, 0, []⟩

/-- The serial that `Register` gives out next. -/
def issued (s : Requests B) : Nat := (s.manager.serial + 1) % 2 ^ 32

def register (s : Requests B) (interval : Int) : Requests B :=
  { s with manager := (s.manager.register s.registered interval).1, registered := s.registered + 1 }

/-- A callback that the manager hands out is called. -/
def call (s : Requests B) (serial : Nat) (bb : Option B) (result : RpcManager Nat × Option Nat) : Requests B :=
  { s with
    manager := result.1
    invoked := s.invoked ++ (result.2.map fun callback => ⟨callback, serial, bb⟩).toList }

def callback (s : Requests B) (serial : Nat) (bb : Option B) : Requests B := s.call serial bb (s.manager.callback serial)

/-- `Process` has come to the next callback, with the serial at the front of its queue, or to its end. -/
def processed (s : Requests B) (result : RpcManager Nat × Option Nat) : Requests B :=
  s.call ((result.1.serials.head?.map Prod.snd).getD 0) none result

/-- A request with what it returns, where `sendBytes` is the result of `SendBytes`. A function that was moved from is
empty: the exception of calling it ends the program, as nothing may be thrown here. -/
def send (s : Requests B) (requester : Requester) (pkg : List UInt8) (interval : Int) (sendBytes : List UInt8 → Int) :
    Requests B × Option Nat :=
  let serial := s.issued
  let s := s.register interval
  if sendBytes (requester.bytes serial pkg) ≠ 0 then
    match requester with
    | .sendRequest => (s.callback serial none, some 0)
    | .sendRoutingRequest _ => (s, none)
  else (s, some serial)

/-! ## Runs -/

inductive Act (B : Type) where
  | send (requester : Requester) (pkg : List UInt8) (interval : Int) (sendBytes : List UInt8 → Int)
  | register (interval : Int)
  | callback (serial : Nat) (bb : Option B)
  | unregister (serial : Nat)
  | process
  | returned

/-- A call that comes to its end. What a callback calls are steps behind it. -/
def step (s : Requests B) : Act B → Option (Requests B)
  | .send requester pkg interval sendBytes =>
      let result := s.send requester pkg interval sendBytes
      result.2.map fun _ => result.1
  | .register interval => some (s.register interval)
  | .callback serial bb => some (s.callback serial bb)
  | .unregister serial => some { s with manager := s.manager.unregister serial }
  | .process => some (s.processed s.manager.process)
  | .returned => some (s.processed s.manager.returned)

def Reaches : Requests B → Requests B → Prop := ReflTransGen fun s s' => ∃ act, s.step act = some s'

/-- The request has come to its end: the callback is called once, within the call that returns 0, and never again. -/
structure Settles (s : Requests B) (result : Requests B × Option Nat) : Prop where
  returns : result.2 = some 0
  invoked : result.1.invoked = s.invoked ++ [⟨s.registered, s.issued, none⟩]
  closed : result.1.manager.mapping s.issued = none
  once : ∀ s', Reaches result.1 s' →
    s'.invoked.filter (fun call => call.callback = s.registered) = [⟨s.registered, s.issued, none⟩]

/-! ## Steps -/

/-- What a step adds: the callbacks that wait or are called behind it were waiting before, or are new. -/
structure Follows (s s' : Requests B) : Prop where
  registered : s.registered ≤ s'.registered
  mapping : ∀ serial n, s'.manager.mapping serial = some n →
    (∃ serial', s.manager.mapping serial' = some n) ∨ s.registered ≤ n ∧ n < s'.registered
  invoked : ∃ calls, s'.invoked = s.invoked ++ calls ∧ ∀ call ∈ calls,
    (∃ serial, s.manager.mapping serial = some call.callback) ∨ s.registered ≤ call.callback ∧ call.callback < s'.registered

section
variable {s s' s'' : Requests B} {n : Nat}

theorem Follows.refl (s : Requests B) : Follows s s :=
  ⟨Nat.le_refl _, fun serial _ held => .inl ⟨serial, held⟩, [], (List.append_nil _).symm, fun _ member => nomatch member⟩

theorem Follows.trans (first : Follows s s') (second : Follows s' s'') : Follows s s'' := by
  have older : ∀ n, (∃ serial, s'.manager.mapping serial = some n) ∨ s'.registered ≤ n ∧ n < s''.registered →
      (∃ serial, s.manager.mapping serial = some n) ∨ s.registered ≤ n ∧ n < s''.registered := by
    rintro n (⟨serial, held⟩ | ⟨above, below⟩)
    · rcases first.mapping serial n held with waited | ⟨above, below⟩
      · exact .inl waited
      · exact .inr ⟨above, Nat.lt_of_lt_of_le below second.registered⟩
    · exact .inr ⟨Nat.le_trans first.registered above, below⟩
  obtain ⟨calls, appended, known⟩ := first.invoked
  obtain ⟨calls', appended', known'⟩ := second.invoked
  refine ⟨Nat.le_trans first.registered second.registered, fun serial n held => older n (second.mapping serial n held),
    calls ++ calls', by rw [appended', appended, List.append_assoc], fun call member => ?_⟩
  rcases List.mem_append.mp member with early | late
  · rcases known call early with waited | ⟨above, below⟩
    · exact .inl waited
    · exact .inr ⟨above, Nat.lt_of_lt_of_le below second.registered⟩
  · exact older call.callback (known' call late)

/-- The manager lost an entry, or none, and what it handed out was in it. -/
theorem follows_call {result : RpcManager Nat × Option Nat} {serial : Nat} {bb : Option B}
    (mapping : ∀ serial n, result.1.mapping serial = some n → s.manager.mapping serial = some n)
    (handed : ∀ n, result.2 = some n → ∃ serial, s.manager.mapping serial = some n) : Follows s (s.call serial bb result) := by
  refine ⟨Nat.le_refl _, fun serial n held => .inl ⟨serial, mapping serial n held⟩, _, rfl, fun call member => ?_⟩
  cases found : result.2 with
  | none =>
    rw [found] at member
    cases member
  | some n =>
    rw [found] at member
    cases List.mem_singleton.mp member
    exact .inl (handed n found)

/-- An entry that is still there after another was taken out. -/
theorem held_of_update {mapping : Nat → Option Nat} {taken serial : Nat}
    (held : Function.update mapping taken none serial = some n) : mapping serial = some n := by
  by_cases same : serial = taken
  · rw [same, Function.update_self] at held
    cases held
  · rwa [Function.update_of_ne same] at held

theorem follows_callback (s : Requests B) (serial : Nat) (bb : Option B) : Follows s (s.callback serial bb) := by
  unfold callback RpcManager.callback
  cases found : s.manager.mapping serial with
  | none => exact follows_call (fun _ _ held => held) fun n handed => nomatch handed
  | some callback =>
    refine follows_call (fun _ _ held => held_of_update held) fun n handed => ?_
    cases handed
    exact ⟨serial, found⟩

theorem follows_processed {manager : RpcManager Nat} (queue : List (Int × Nat)) (same : manager.mapping = s.manager.mapping) :
    Follows s (s.processed (manager.drain queue)) := by
  rcases manager.drain_cases queue with ⟨m', drained, mapping, -⟩ | ⟨m', serial, callback, drained, found, mapping, -⟩
  · rw [drained]
    refine follows_call (fun serial n held => ?_) fun n handed => nomatch handed
    rwa [mapping, same] at held
  · rw [drained]
    refine follows_call (fun serial n held => ?_) fun n handed => ?_
    · rw [mapping, same] at held
      exact held_of_update held
    · cases handed
      exact ⟨serial, same ▸ found⟩

theorem follows_register (s : Requests B) (interval : Int) : Follows s (s.register interval) := by
  refine ⟨Nat.le_succ _, fun serial n held => ?_, [], (List.append_nil _).symm, fun _ member => nomatch member⟩
  dsimp only [register, RpcManager.register] at held ⊢
  by_cases same : serial = (s.manager.serial + 1) % 2 ^ 32
  · rw [same, Function.update_self] at held
    cases held
    exact .inr ⟨Nat.le_refl _, Nat.lt_succ_self _⟩
  · rw [Function.update_of_ne same] at held
    exact .inl ⟨serial, held⟩

theorem follows_send (s : Requests B) (requester : Requester) (pkg : List UInt8) (interval : Int)
    (sendBytes : List UInt8 → Int) : Follows s (s.send requester pkg interval sendBytes).1 := by
  have registered := follows_register s interval
  cases requester with
  | sendRequest =>
    dsimp only [send]
    split
    · exact registered.trans (follows_callback _ _ _)
    · exact registered
  | sendRoutingRequest serviceAddr =>
    dsimp only [send]
    split
    · exact registered
    · exact registered

theorem step_follows {act : Act B} (stepped : s.step act = some s') : Follows s s' := by
  cases act with
  | send requester pkg interval sendBytes =>
    obtain ⟨result, -, rfl⟩ := Option.map_eq_some_iff.mp stepped
    exact follows_send s requester pkg interval sendBytes
  | register interval =>
    cases stepped
    exact follows_register s interval
  | callback serial bb =>
    cases stepped
    exact follows_callback s serial bb
  | unregister serial =>
    cases stepped
    exact ⟨Nat.le_refl _, fun serial n held => .inl ⟨serial, held_of_update held⟩, [], (List.append_nil _).symm,
      fun _ member => nomatch member⟩
  | process =>
    cases stepped
    exact follows_processed _ rfl
  | returned =>
    cases stepped
    exact follows_processed _ rfl

theorem reaches_follows (reaches : Reaches s s') : Follows s s' := by
  induction reaches with
  | refl => exact Follows.refl s
  | tail _ stepped ih =>
    obtain ⟨act, stepped⟩ := stepped
    exact ih.trans (step_follows stepped)

/-- In a run, callbacks are known by numbers that were given out. -/
theorem reaches_known {defaultInterval : Int} (run : Reaches (fresh defaultInterval) s) :
    (∀ serial n, s.manager.mapping serial = some n → n < s.registered) ∧ ∀ call ∈ s.invoked, call.callback < s.registered := by
  obtain ⟨-, mapping, calls, appended, known⟩ := reaches_follows run
  have fresh : ∀ n, (∃ serial, (fresh defaultInterval : Requests B).manager.mapping serial = some n) ∨
      0 ≤ n ∧ n < s.registered → n < s.registered := by
    rintro n (⟨_, ⟨⟩⟩ | ⟨-, below⟩)
    exact below
  refine ⟨fun serial n held => fresh n (mapping serial n held), fun call member => ?_⟩
  rw [appended] at member
  exact fresh _ (known call member)

/-- A callback that is not in the manager any more is not called again. -/
theorem reaches_gone (reaches : Reaches s s') (old : n < s.registered) (gone : ∀ serial, s.manager.mapping serial ≠ some n) :
    s'.invoked.filter (fun call => call.callback = n) = s.invoked.filter fun call => call.callback = n := by
  obtain ⟨-, -, calls, appended, known⟩ := reaches_follows reaches
  have others : calls.filter (fun call => call.callback = n) = [] := by
    rw [List.filter_eq_nil_iff]
    intro call member same
    have same : call.callback = n := of_decide_eq_true same
    rcases known call member with ⟨serial, held⟩ | ⟨above, -⟩
    · exact gone serial (same ▸ held)
    · omega
  rw [appended, List.filter_append, others, List.append_nil]

/-! ## A failure -/

theorem send_sendRoutingRequest {serviceAddr pkg : List UInt8} {interval : Int} {sendBytes : List UInt8 → Int}
    (fails : sendBytes ((Requester.sendRoutingRequest serviceAddr).bytes s.issued pkg) ≠ 0) :
    s.send (.sendRoutingRequest serviceAddr) pkg interval sendBytes = (s.register interval, none) := by
  unfold send
  rw [if_pos fails]

/-- `SendRequest` takes out what it has just put in. -/
theorem send_settles {defaultInterval : Int} (run : Reaches (fresh defaultInterval) s) {pkg : List UInt8} {interval : Int}
    {sendBytes : List UInt8 → Int} (fails : sendBytes (Requester.sendRequest.bytes s.issued pkg) ≠ 0) :
    Settles s (s.send .sendRequest pkg interval sendBytes) := by
  obtain ⟨waiting, called⟩ := reaches_known run
  have sent : s.send .sendRequest pkg interval sendBytes =
      ({ manager := { (s.register interval).manager with
            mapping := Function.update (s.register interval).manager.mapping s.issued none }
         registered := s.registered + 1
         invoked := s.invoked ++ [⟨s.registered, s.issued, none⟩] }, some 0) := by
    unfold send
    rw [if_pos fails]
    dsimp only [callback, RpcManager.callback]
    rw [show (s.register interval).manager.mapping s.issued = some s.registered from Function.update_self _ _ _]
    rfl
  rw [sent]
  refine ⟨rfl, rfl, Function.update_self _ _ _, fun s' reaches => ?_⟩
  rw [reaches_gone reaches (Nat.lt_succ_self _) fun serial held => ?_, List.filter_append]
  · have others : s.invoked.filter (fun call => call.callback = s.registered) = [] := by
      rw [List.filter_eq_nil_iff]
      intro call member same
      exact Nat.lt_irrefl _ (of_decide_eq_true same ▸ called call member)
    rw [others, List.filter_singleton, decide_eq_true rfl]
    rfl
  · -- the number is new, so that it stood only where it was taken out
    have taken := held
    have held : Function.update s.manager.mapping s.issued (some s.registered) serial = some s.registered :=
      held_of_update held
    by_cases same : serial = s.issued
    · rw [same] at taken
      exact nomatch (Function.update_self _ _ _).symm.trans taken
    · rw [Function.update_of_ne same] at held
      exact Nat.lt_irrefl _ (waiting serial _ held)

/-- A failed request is settled by `SendRequest`, and not by `SendRoutingRequest`. -/
theorem send_settles_iff {defaultInterval : Int} (run : Reaches (fresh defaultInterval) s) (requester : Requester)
    (pkg : List UInt8) (interval : Int) (sendBytes : List UInt8 → Int) :
    (sendBytes (requester.bytes s.issued pkg) ≠ 0 → Settles s (s.send requester pkg interval sendBytes)) ↔
      requester = .sendRequest ∨ sendBytes (requester.bytes s.issued pkg) = 0 := by
  cases requester with
  | sendRequest => exact ⟨fun _ => .inl rfl, fun _ fails => send_settles run fails⟩
  | sendRoutingRequest serviceAddr =>
    constructor
    · intro settles
      right
      by_contra fails
      have returns := (settles fails).returns
      rw [send_sendRoutingRequest fails] at returns
      cases returns
    · rintro (other | succeeds) fails
      · cases other
      · exact absurd succeeds fails

end

/-- The first request of a connection that is closed. -/
theorem send_settles_closed : Settles (fresh 10) ((fresh 10 : Requests Unit).send .sendRequest [7] 5 fun _ => -1) :=
  (send_settles_iff .refl .sendRequest [7] 5 fun _ => -1).mpr (.inl rfl) (by decide)

/-- The callback is still in the manager when the program ends. -/
theorem sendRoutingRequest_unsettled :
    ((fresh 10 : Requests Unit).send (.sendRoutingRequest [5]) [7] 5 fun _ => -1).1.manager.mapping 1 = some 0 ∧
      ¬ Settles (fresh 10) ((fresh 10 : Requests Unit).send (.sendRoutingRequest [5]) [7] 5 fun _ => -1) := by
  refine ⟨rfl, fun settles => ?_⟩
  cases settles.returns

end Requests

end Xxlib.Uv4
