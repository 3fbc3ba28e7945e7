import Mathlib.Logic.Relation
import Xxlib.Uv4.Receive

/-! The two ends of a UDP connection, `UvUdpPeer` and `UvUdpClient` (`xx_uv.cpp`).

Both pass what arrives to `ReceiveImpl`, which asks `Disconnected()` after each event
whether to go on. The answer of `UvUdpClient` is the wrong way round.
-/

set_option autoImplicit false

namespace Xxlib.Uv4

open Lib Relation

/-! ## The two ends -/

structure UdpPeer where
  routingAddress : List UInt8

/-- `kcpPtr` is an address, 0 for `nullptr`. -/
structure UdpClient where
  routingAddress : List UInt8
  kcpPtr : Nat

def UdpPeer.disconnected (_ : UdpPeer) : Bool := false

def UdpClient.disconnected (client : UdpClient) : Bool := client.kcpPtr != 0

/-- What `ReceiveImpl` sees of them, as long as no handler disconnects. -/
def UdpPeer.peer (server : UdpPeer) : Peer := ⟨!server.routingAddress.isEmpty, server.disconnected⟩

def UdpClient.peer (client : UdpClient) : Peer := ⟨!client.routingAddress.isEmpty, client.disconnected⟩

/-- The loop of `ReceiveImpl` from `offset` on: the events, the bytes that stay in `bbRecv` and
`senderAddress` when it returns. There are no bytes if it called `DisconnectImpl`, which it does
without an event in the same round; behind an event it is left with an empty buffer. -/
inductive Receives (peer : Peer) (buf : List UInt8) :
    Nat → List UInt8 → List Event → Option (List UInt8) → List UInt8 → Prop where
  | finish {offset : Nat} {sender : List UInt8} (turn : round peer buf offset sender = .finish) :
      Receives peer buf offset sender [] (some (buf.drop offset)) sender
  | closed {offset : Nat} {sender sender' : List UInt8} (turn : round peer buf offset sender = .leave sender' []) :
      Receives peer buf offset sender [] none sender'
  | cleared {offset : Nat} {sender sender' : List UInt8} {event : Event} {events : List Event}
      (turn : round peer buf offset sender = .leave sender' (event :: events)) :
      Receives peer buf offset sender (event :: events) (some []) sender'
  | next {offset offset' : Nat} {sender sender' sender'' : List UInt8} {events events' : List Event}
      {left : Option (List UInt8)} (turn : round peer buf offset sender = .next offset' sender' events)
      (rest : Receives peer buf offset' sender' events' left sender'') :
      Receives peer buf offset sender (events ++ events') left sender''

/-- The calls of `ReceiveImpl` for a sequence of chunks, up to one that calls `DisconnectImpl`. -/
inductive ReceivesAll (peer : Peer) :
    List UInt8 → List UInt8 → List (List UInt8) → List Event → Option (List UInt8) → Prop where
  | nil (bbRecv sender : List UInt8) : ReceivesAll peer bbRecv sender [] [] (some bbRecv)
  | closed {bbRecv sender sender' chunk : List UInt8} {chunks : List (List UInt8)} {events : List Event}
      (call : Receives peer (bbRecv ++ chunk) 0 sender events none sender') :
      ReceivesAll peer bbRecv sender (chunk :: chunks) events none
  | cons {bbRecv bbRecv' sender sender' chunk : List UInt8} {chunks : List (List UInt8)}
      {events events' : List Event} {left : Option (List UInt8)}
      (call : Receives peer (bbRecv ++ chunk) 0 sender events (some bbRecv') sender')
      (rest : ReceivesAll peer bbRecv' sender' chunks events' left) :
      ReceivesAll peer bbRecv sender (chunk :: chunks) (events ++ events') left

/-- `Receives` is the loop of `ReceiveImpl`, with the two ways to leave it told apart. -/
theorem Receives.receiveLoop {peer : Peer} {buf : List UInt8} {offset : Nat} {sender sender' : List UInt8}
    {events : List Event} {left : Option (List UInt8)}
    (receives : Receives peer buf offset sender events left sender') :
    ∃ fuel bbRecv, Uv4.receiveLoop peer buf fuel offset sender = some ⟨events, bbRecv, sender'⟩ ∧
      (bbRecv = left ∨ bbRecv = none ∧ left = some []) := by
  induction receives with
  | finish turn => exact ⟨1, _, by rw [Uv4.receiveLoop, turn], .inl rfl⟩
  | closed turn => exact ⟨1, _, by rw [Uv4.receiveLoop, turn], .inl rfl⟩
  | cleared turn => exact ⟨1, _, by rw [Uv4.receiveLoop, turn], .inr ⟨rfl, rfl⟩⟩
  | next turn rest ih =>
    obtain ⟨fuel, bbRecv, ran, same⟩ := ih
    refine ⟨fuel + 1, bbRecv, ?_, same⟩
    rw [Uv4.receiveLoop, turn]
    simp only [ran, Option.map_some]

/-! ## Which packages are reported -/

inductive Fate where
  | reported
  | silent
  | broken
  deriving DecidableEq

/-- What becomes of a package that is there as a whole: the packages of type 3 are skipped, and a
serial number that cannot be read ends the connection. -/
def fate (isReceiver : Bool) (buf : List UInt8) (pkgOffset headerLen : Nat) : Fate :=
  let typeId := byteAt buf pkgOffset
  let routed := 0 < typeId &&& 8
  let addrLen := if routed then (typeId >>> 4) + 1 else 0
  if routed ∧ isReceiver = false then .reported
  else if typeId &&& 3 = 0 then .reported
  else
    match varRead7 buf (size (size (pkgOffset + headerLen) + addrLen)) with
    | .error _ => .broken
    | .ok _ => if typeId &&& 3 = 1 ∨ typeId &&& 3 = 2 then .reported else .silent

inductive Turn where
  | finish
  | broken
  | silent (offset : Nat)
  | reports (offset : Nat)
  deriving DecidableEq

/-- What the bytes at `offset` are. -/
def turn (isReceiver : Bool) (buf : List UInt8) (offset : Nat) : Turn :=
  match readHeader buf offset with
  | .short => .finish
  | .invalid => .broken
  | .whole headerLen dataLen =>
      match fate isReceiver buf offset headerLen with
      | .reported => .reports (size (size (offset + headerLen) + dataLen))
      | .silent => .silent (size (size (offset + headerLen) + dataLen))
      | .broken => .broken

/-- A package that is skipped, from one offset to the next. -/
def Silent (isReceiver : Bool) (buf : List UInt8) (offset offset' : Nat) : Prop :=
  turn isReceiver buf offset = .silent offset'

/-- Behind the first package that is reported there are only packages that are skipped, to the end of the
buffer. -/
def Lone (isReceiver : Bool) (buf : List UInt8) (offset : Nat) : Prop :=
  ∀ first behind, ReflTransGen (Silent isReceiver buf) offset first → turn isReceiver buf first = .reports behind →
    ∃ last, ReflTransGen (Silent isReceiver buf) behind last ∧ turn isReceiver buf last = .finish ∧
      buf.length ≤ last

/-- Each call of `ReceiveImpl` that the server makes finds such a buffer. -/
def LoneAll (isReceiver : Bool) : List UInt8 → List (List UInt8) → Prop
  | _, [] => True
  | bbRecv, chunk :: chunks => Lone isReceiver (bbRecv ++ chunk) 0 ∧
      ∀ sender events bbRecv' sender',
        Receives ⟨isReceiver, false⟩ (bbRecv ++ chunk) 0 sender events (some bbRecv') sender' →
          LoneAll isReceiver bbRecv' chunks

/-! ## Rounds -/

section
variable {isReceiver : Bool} {buf : List UInt8} {offset offset' : Nat}

/-- The event of a package depends on neither `Disconnected()` nor the former `senderAddress`. -/
theorem dispatch_reported {pkgOffset headerLen : Nat}
    (reported : fate isReceiver buf pkgOffset headerLen = .reported) (dataLen : Nat) :
    ∃ event, ∀ disconnected sender, ∃ sender',
      dispatch ⟨isReceiver, disconnected⟩ buf pkgOffset headerLen dataLen sender =
        (!disconnected, sender', [event]) := by
  simp only [fate] at reported
  simp only [dispatch]
  split at reported
  · next route => exact ⟨_, fun disconnected sender => ⟨_, if_pos route⟩⟩
  · next route =>
    split at reported
    · next plain =>
      exact ⟨_, fun disconnected sender => ⟨_, (if_neg route).trans (if_pos plain)⟩⟩
    · next plain =>
      split at reported
      · cases reported
      · next serial cursor read =>
        simp only [read]
        split at reported
        · next called =>
          rcases called with request | callback
          · exact ⟨_, fun disconnected sender =>
              ⟨_, (if_neg route).trans ((if_neg plain).trans (if_pos request))⟩⟩
          · have other : ¬ byteAt buf pkgOffset &&& 3 = 1 := by omega
            exact ⟨_, fun disconnected sender =>
              ⟨_, (if_neg route).trans ((if_neg plain).trans ((if_neg other).trans (if_pos callback)))⟩⟩
        · cases reported

theorem dispatch_silent {pkgOffset headerLen : Nat} (silent : fate isReceiver buf pkgOffset headerLen = .silent)
    (dataLen : Nat) (disconnected : Bool) (sender : List UInt8) :
    ∃ sender', dispatch ⟨isReceiver, disconnected⟩ buf pkgOffset headerLen dataLen sender = (true, sender', []) := by
  simp only [fate] at silent
  simp only [dispatch]
  split at silent
  · cases silent
  · next route =>
    split at silent
    · cases silent
    · next plain =>
      rw [if_neg route, if_neg plain]
      split at silent
      · cases silent
      · next serial cursor read =>
        split at silent
        · cases silent
        · next other =>
          obtain ⟨request, callback⟩ := not_or.mp other
          rw [read]
          simp only [if_neg request, if_neg callback]
          exact ⟨_, rfl⟩

theorem dispatch_broken {pkgOffset headerLen : Nat} (broken : fate isReceiver buf pkgOffset headerLen = .broken)
    (dataLen : Nat) (disconnected : Bool) (sender : List UInt8) :
    ∃ sender', dispatch ⟨isReceiver, disconnected⟩ buf pkgOffset headerLen dataLen sender = (false, sender', []) := by
  simp only [fate] at broken
  simp only [dispatch]
  split at broken
  · cases broken
  · next route =>
    split at broken
    · cases broken
    · next plain =>
      rw [if_neg route, if_neg plain]
      split at broken
      · next code read =>
        rw [read]
        exact ⟨_, rfl⟩
      · split at broken <;> cases broken

theorem round_finish (now : turn isReceiver buf offset = .finish) (disconnected : Bool) (sender : List UInt8) :
    round ⟨isReceiver, disconnected⟩ buf offset sender = .finish := by
  unfold turn at now
  unfold round
  cases header : readHeader buf offset with
  | short => rfl
  | invalid =>
    rw [header] at now
    cases now
  | whole headerLen dataLen =>
    simp only [header] at now
    cases kind : fate isReceiver buf offset headerLen <;> rw [kind] at now <;> cases now

theorem round_broken (now : turn isReceiver buf offset = .broken) (disconnected : Bool) (sender : List UInt8) :
    ∃ sender', round ⟨isReceiver, disconnected⟩ buf offset sender = .leave sender' [] := by
  unfold turn at now
  unfold round
  cases header : readHeader buf offset with
  | short =>
    rw [header] at now
    cases now
  | invalid => exact ⟨sender, rfl⟩
  | whole headerLen dataLen =>
    simp only [header] at now
    cases kind : fate isReceiver buf offset headerLen with
    | broken =>
      obtain ⟨sender', left⟩ := dispatch_broken kind dataLen disconnected sender
      exact ⟨sender', by simp only [left]⟩
    | reported | silent =>
      rw [kind] at now
      cases now

theorem round_silent (now : Silent isReceiver buf offset offset') (disconnected : Bool) (sender : List UInt8) :
    ∃ sender', round ⟨isReceiver, disconnected⟩ buf offset sender = .next offset' sender' [] := by
  unfold Silent turn at now
  unfold round
  cases header : readHeader buf offset with
  | short | invalid =>
    rw [header] at now
    cases now
  | whole headerLen dataLen =>
    simp only [header] at now
    cases kind : fate isReceiver buf offset headerLen with
    | silent =>
      rw [kind] at now
      cases now
      obtain ⟨sender', skipped⟩ := dispatch_silent kind dataLen disconnected sender
      exact ⟨sender', by simp only [skipped]⟩
    | reported | broken =>
      rw [kind] at now
      cases now

/-- The client is done after a package that is reported, where the server goes on. -/
theorem round_reports (now : turn isReceiver buf offset = .reports offset') : ∃ event,
    (∀ sender, ∃ sender', round ⟨isReceiver, false⟩ buf offset sender = .next offset' sender' [event]) ∧
      ∀ sender, ∃ sender', round ⟨isReceiver, true⟩ buf offset sender = .leave sender' [event] := by
  unfold turn at now
  unfold round
  cases header : readHeader buf offset with
  | short | invalid =>
    rw [header] at now
    cases now
  | whole headerLen dataLen =>
    simp only [header] at now
    cases kind : fate isReceiver buf offset headerLen with
    | reported =>
      rw [kind] at now
      cases now
      obtain ⟨event, calls⟩ := dispatch_reported kind dataLen
      refine ⟨event, fun sender => ?_, fun sender => ?_⟩
      · obtain ⟨sender', called⟩ := calls false sender
        exact ⟨sender', by simp only [called, Bool.not_false]⟩
      · obtain ⟨sender', called⟩ := calls true sender
        exact ⟨sender', by simp only [called, Bool.not_true]⟩
    | silent | broken =>
      rw [kind] at now
      cases now

end

/-! ## One call -/

/-- What can be seen of a call. -/
def Observed (peer : Peer) (buf : List UInt8) (offset : Nat) (events : List Event)
    (left : Option (List UInt8)) : Prop :=
  ∃ sender sender', Receives peer buf offset sender events left sender'

theorem Receives.unique {peer : Peer} {buf : List UInt8} {offset : Nat} {sender sender' : List UInt8}
    {events : List Event} {left : Option (List UInt8)}
    (receives : Receives peer buf offset sender events left sender') :
    ∀ {events₂ left₂ sender₂}, Receives peer buf offset sender events₂ left₂ sender₂ →
      events₂ = events ∧ left₂ = left := by
  induction receives with
  | finish turn =>
    intro events₂ left₂ sender₂ other
    cases other <;> simp_all
  | closed turn =>
    intro events₂ left₂ sender₂ other
    cases other <;> simp_all
  | cleared turn =>
    intro events₂ left₂ sender₂ other
    cases other <;> simp_all
  | next turn rest ih =>
    intro events₂ left₂ sender₂ other
    cases other with
    | finish turn' => rw [turn] at turn'; cases turn'
    | closed turn' => rw [turn] at turn'; cases turn'
    | cleared turn' => rw [turn] at turn'; cases turn'
    | next turn' rest' =>
      rw [turn] at turn'
      cases turn'
      obtain ⟨same, left⟩ := ih rest'
      exact ⟨by rw [same], left⟩

section
variable {isReceiver disconnected : Bool} {buf : List UInt8} {offset offset' : Nat} {events : List Event}
  {left : Option (List UInt8)}

/-- What a round decides does not depend on the `senderAddress` of an earlier package. -/
theorem round_any (peer : Peer) (buf : List UInt8) (offset : Nat) (sender other : List UInt8) :
    ∃ other', round peer buf offset other =
      match round peer buf offset sender with
      | .finish => .finish
      | .leave _ events => .leave other' events
      | .next offset' _ events => .next offset' other' events := by
  obtain ⟨isReceiver, disconnected⟩ := peer
  cases now : turn isReceiver buf offset with
  | finish => exact ⟨other, by rw [round_finish now, round_finish now]⟩
  | broken =>
    obtain ⟨sender', left⟩ := round_broken now disconnected sender
    obtain ⟨other', left'⟩ := round_broken now disconnected other
    exact ⟨other', by rw [left, left']⟩
  | silent offset' =>
    obtain ⟨sender', next⟩ := round_silent now disconnected sender
    obtain ⟨other', next'⟩ := round_silent now disconnected other
    exact ⟨other', by rw [next, next']⟩
  | reports offset' =>
    obtain ⟨event, goesOn, leaves⟩ := round_reports now
    cases disconnected with
    | false =>
      obtain ⟨sender', next⟩ := goesOn sender
      obtain ⟨other', next'⟩ := goesOn other
      exact ⟨other', by rw [next, next']⟩
    | true =>
      obtain ⟨sender', left⟩ := leaves sender
      obtain ⟨other', left'⟩ := leaves other
      exact ⟨other', by rw [left, left']⟩

theorem Receives.any {peer : Peer} {sender sender' : List UInt8}
    (receives : Receives peer buf offset sender events left sender') (other : List UInt8) :
    ∃ other', Receives peer buf offset other events left other' := by
  induction receives generalizing other with
  | @finish offset sender now =>
    obtain ⟨other', same⟩ := round_any peer buf offset sender other
    rw [now] at same
    exact ⟨other, .finish same⟩
  | @closed offset sender sender' now =>
    obtain ⟨other', same⟩ := round_any peer buf offset sender other
    rw [now] at same
    exact ⟨other', .closed same⟩
  | @cleared offset sender sender' event events now =>
    obtain ⟨other', same⟩ := round_any peer buf offset sender other
    rw [now] at same
    exact ⟨other', .cleared same⟩
  | @next offset offset' sender sender' sender'' events events' left now rest ih =>
    obtain ⟨middle, same⟩ := round_any peer buf offset sender other
    rw [now] at same
    obtain ⟨other', rest'⟩ := ih middle
    exact ⟨other', .next same rest'⟩

theorem Observed.unique {peer : Peer} {events₂ : List Event} {left₂ : Option (List UInt8)}
    (observed : Observed peer buf offset events left) (other : Observed peer buf offset events₂ left₂) :
    events₂ = events ∧ left₂ = left := by
  obtain ⟨sender, sender', receives⟩ := observed
  obtain ⟨sender₂, sender₂', receives₂⟩ := other
  obtain ⟨last, again⟩ := receives₂.any sender
  exact receives.unique again

theorem observed_finish (now : turn isReceiver buf offset = .finish) :
    Observed ⟨isReceiver, disconnected⟩ buf offset [] (some (buf.drop offset)) :=
  ⟨[], [], .finish (round_finish now disconnected [])⟩

theorem observed_broken (now : turn isReceiver buf offset = .broken) :
    Observed ⟨isReceiver, disconnected⟩ buf offset [] none := by
  obtain ⟨sender', leaves⟩ := round_broken now disconnected []
  exact ⟨[], sender', .closed leaves⟩

theorem observed_silent (now : Silent isReceiver buf offset offset') :
    Observed ⟨isReceiver, disconnected⟩ buf offset events left ↔
      Observed ⟨isReceiver, disconnected⟩ buf offset' events left := by
  constructor
  · rintro ⟨sender, last, receives⟩
    obtain ⟨sender', skips⟩ := round_silent now disconnected sender
    cases receives with
    | finish turn => rw [skips] at turn; cases turn
    | closed turn => rw [skips] at turn; cases turn
    | cleared turn => rw [skips] at turn; cases turn
    | next turn rest =>
      rw [skips] at turn
      cases turn
      exact ⟨_, _, rest⟩
  · rintro ⟨sender, last, receives⟩
    obtain ⟨sender', skips⟩ := round_silent now disconnected []
    obtain ⟨last', rest⟩ := receives.any sender'
    exact ⟨[], last', .next skips rest⟩

theorem observed_silents (skipped : ReflTransGen (Silent isReceiver buf) offset offset') :
    Observed ⟨isReceiver, disconnected⟩ buf offset events left ↔
      Observed ⟨isReceiver, disconnected⟩ buf offset' events left := by
  induction skipped with
  | refl => exact Iff.rfl
  | tail before now ih => exact ih.trans (observed_silent now)

/-- The client fires the event of a package and drops the buffer; the server fires the same event and
goes on. -/
theorem observed_reports (now : turn isReceiver buf offset = .reports offset') :
    ∃ event, Observed ⟨isReceiver, true⟩ buf offset [event] (some []) ∧
      ∀ events left, Observed ⟨isReceiver, false⟩ buf offset events left ↔
        ∃ rest, events = event :: rest ∧ Observed ⟨isReceiver, false⟩ buf offset' rest left := by
  obtain ⟨event, goesOn, leaves⟩ := round_reports now
  obtain ⟨sender', left⟩ := leaves []
  refine ⟨event, ⟨[], sender', .cleared left⟩, fun events left => ⟨?_, ?_⟩⟩
  · rintro ⟨sender, last, receives⟩
    obtain ⟨middle, next⟩ := goesOn sender
    cases receives with
    | finish turn => rw [next] at turn; cases turn
    | closed turn => rw [next] at turn; cases turn
    | cleared turn => rw [next] at turn; cases turn
    | next turn rest =>
      rw [next] at turn
      cases turn
      exact ⟨_, rfl, _, _, rest⟩
  · rintro ⟨rest, rfl, sender, last, receives⟩
    obtain ⟨middle, next⟩ := goesOn []
    obtain ⟨last', receives'⟩ := receives.any middle
    exact ⟨[], last', .next next receives'⟩

/-- What a round tells about the bytes it was at. -/
theorem turn_of_round (isReceiver disconnected : Bool) (buf : List UInt8) (offset : Nat) (sender : List UInt8) :
    match round ⟨isReceiver, disconnected⟩ buf offset sender with
    | .finish => turn isReceiver buf offset = .finish
    | .leave _ [] => turn isReceiver buf offset = .broken
    | .leave _ (_ :: _) => ∃ offset', turn isReceiver buf offset = .reports offset'
    | .next offset' _ [] => turn isReceiver buf offset = .silent offset'
    | .next offset' _ (_ :: _) => turn isReceiver buf offset = .reports offset' := by
  cases now : turn isReceiver buf offset with
  | finish => rw [round_finish now]
  | broken =>
    obtain ⟨sender', left⟩ := round_broken now disconnected sender
    rw [left]
  | silent offset' =>
    obtain ⟨sender', next⟩ := round_silent now disconnected sender
    rw [next]
  | reports offset' =>
    obtain ⟨event, goesOn, leaves⟩ := round_reports now
    cases disconnected with
    | false =>
      obtain ⟨sender', next⟩ := goesOn sender
      rw [next]
    | true =>
      obtain ⟨sender', left⟩ := leaves sender
      rw [left]
      exact ⟨offset', rfl⟩

/-- A call without an event skips packages until the loop ends. -/
theorem Observed.silents {rest : List UInt8} (observed : Observed ⟨isReceiver, disconnected⟩ buf offset [] (some rest)) :
    ∃ last, ReflTransGen (Silent isReceiver buf) offset last ∧ turn isReceiver buf last = .finish ∧
      rest = buf.drop last := by
  obtain ⟨sender, sender', receives⟩ := observed
  generalize none : [] = events at receives
  generalize kept : some rest = left at receives
  induction receives with
  | @finish offset sender now =>
    have kind := turn_of_round isReceiver disconnected buf offset sender
    rw [now] at kind
    exact ⟨offset, .refl, kind, Option.some.inj kept⟩
  | closed now => cases kept
  | cleared now => cases none
  | @next offset offset' sender sender' sender'' events events' left now after ih =>
    obtain ⟨rfl, rfl⟩ := List.append_eq_nil_iff.mp none.symm
    have kind := turn_of_round isReceiver disconnected buf offset sender
    rw [now] at kind
    obtain ⟨last, skipped, ends, same⟩ := ih rfl kept
    exact ⟨last, .head kind skipped, ends, same⟩

/-- Where no package is reported, the answer of `Disconnected()` is not asked for. -/
theorem Observed.unasked (observed : Observed ⟨isReceiver, disconnected⟩ buf offset events left)
    (unreported : ∀ first behind, ReflTransGen (Silent isReceiver buf) offset first →
      turn isReceiver buf first ≠ .reports behind) (other : Bool) :
    Observed ⟨isReceiver, other⟩ buf offset events left := by
  obtain ⟨sender, sender', receives⟩ := observed
  induction receives with
  | @finish offset sender now =>
    have kind := turn_of_round isReceiver disconnected buf offset sender
    rw [now] at kind
    exact observed_finish kind
  | @closed offset sender sender' now =>
    have kind := turn_of_round isReceiver disconnected buf offset sender
    rw [now] at kind
    exact observed_broken kind
  | @cleared offset sender sender' event events now =>
    have kind := turn_of_round isReceiver disconnected buf offset sender
    rw [now] at kind
    obtain ⟨behind, reports⟩ := kind
    exact absurd reports (unreported offset behind .refl)
  | @next offset offset' sender sender' sender'' events events' left now rest ih =>
    have kind := turn_of_round isReceiver disconnected buf offset sender
    rw [now] at kind
    cases events with
    | nil =>
      exact (observed_silent kind).mpr (ih fun first behind skipped => unreported first behind (.head kind skipped))
    | cons event events => exact absurd kind (unreported offset offset' .refl)

/-- One call is alike on both ends exactly if the buffer is such. -/
theorem observed_alike_iff : (∀ events left, Observed ⟨isReceiver, false⟩ buf offset events left ↔
    Observed ⟨isReceiver, true⟩ buf offset events left) ↔ Lone isReceiver buf offset := by
  constructor
  · intro alike first behind skipped now
    obtain ⟨event, client, server⟩ := observed_reports now
    have same := (alike _ _).mpr ((observed_silents skipped).mpr client)
    obtain ⟨rest, events, silent⟩ := (server _ _).mp ((observed_silents skipped).mp same)
    cases events
    obtain ⟨last, skipped', ends, empty⟩ := silent.silents
    exact ⟨last, skipped', ends, List.drop_eq_nil_iff.mp empty.symm⟩
  · intro lone events left
    by_cases reported : ∃ first behind, ReflTransGen (Silent isReceiver buf) offset first ∧
      turn isReceiver buf first = .reports behind
    · obtain ⟨first, behind, skipped, now⟩ := reported
      obtain ⟨last, skipped', ends, whole⟩ := lone first behind skipped now
      obtain ⟨event, client, server⟩ := observed_reports now
      have clientEnds := (observed_silents skipped).mpr client
      have rest : Observed ⟨isReceiver, false⟩ buf behind [] (some []) := by
        rw [observed_silents skipped', ← List.drop_eq_nil_iff.mpr whole]
        exact observed_finish ends
      have serverEnds := (observed_silents skipped).mpr ((server _ _).mpr ⟨[], rfl, rest⟩)
      constructor
      · intro observed
        obtain ⟨rfl, rfl⟩ := serverEnds.unique observed
        exact clientEnds
      · intro observed
        obtain ⟨rfl, rfl⟩ := clientEnds.unique observed
        exact serverEnds
    · have unreported : ∀ first behind, ReflTransGen (Silent isReceiver buf) offset first →
          turn isReceiver buf first ≠ .reports behind :=
        fun first behind skipped now => reported ⟨first, behind, skipped, now⟩
      exact ⟨fun observed => observed.unasked unreported true, fun observed => observed.unasked unreported false⟩

end

/-! ## All calls -/

section
variable {peer : Peer} {bbRecv bbRecv' sender chunk : List UInt8} {chunks : List (List UInt8)}
  {events : List Event} {left : Option (List UInt8)}

theorem ReceivesAll.any (all : ReceivesAll peer bbRecv sender chunks events left) (other : List UInt8) :
    ReceivesAll peer bbRecv other chunks events left := by
  induction all generalizing other with
  | nil bbRecv sender => exact .nil bbRecv other
  | closed call =>
    obtain ⟨other', again⟩ := call.any other
    exact .closed again
  | cons call rest ih =>
    obtain ⟨other', again⟩ := call.any other
    exact .cons again (ih other')

theorem receivesAll_cons (sender : List UInt8) :
    ReceivesAll peer bbRecv sender (chunk :: chunks) events left ↔
      (Observed peer (bbRecv ++ chunk) 0 events none ∧ left = none) ∨
      ∃ now bbRecv' later, Observed peer (bbRecv ++ chunk) 0 now (some bbRecv') ∧
        ReceivesAll peer bbRecv' sender chunks later left ∧ events = now ++ later := by
  constructor
  · intro all
    cases all with
    | closed call => exact .inl ⟨⟨_, _, call⟩, rfl⟩
    | cons call rest => exact .inr ⟨_, _, _, ⟨_, _, call⟩, rest.any sender, rfl⟩
  · rintro (⟨⟨_, _, call⟩, rfl⟩ | ⟨now, bbRecv', later, ⟨_, _, call⟩, rest, rfl⟩)
    · obtain ⟨last, again⟩ := call.any sender
      exact .closed again
    · obtain ⟨last, again⟩ := call.any sender
      exact .cons again (rest.any last)

theorem receivesAll_single (sender : List UInt8) : ReceivesAll peer bbRecv sender [chunk] events left ↔
    Observed peer (bbRecv ++ chunk) 0 events left := by
  rw [receivesAll_cons]
  constructor
  · rintro (⟨observed, rfl⟩ | ⟨now, bbRecv', later, observed, rest, rfl⟩)
    · exact observed
    · cases rest
      rw [List.append_nil]
      exact observed
  · intro observed
    cases left with
    | none => exact .inl ⟨observed, rfl⟩
    | some bbRecv' => exact .inr ⟨events, bbRecv', [], observed, .nil _ _, (List.append_nil _).symm⟩

/-- After one call the rest of the sequence is received from what it left. -/
theorem receivesAll_after {later : List Event} (observed : Observed peer (bbRecv ++ chunk) 0 events (some bbRecv')) :
    ReceivesAll peer bbRecv sender (chunk :: chunks) (events ++ later) left ↔
      ReceivesAll peer bbRecv' sender chunks later left := by
  rw [receivesAll_cons]
  constructor
  · rintro (⟨closed, -⟩ | ⟨now, kept, later', again, rest, same⟩)
    · cases (observed.unique closed).2
    · obtain ⟨rfl, kept'⟩ := observed.unique again
      cases kept'
      rw [List.append_cancel_left same]
      exact rest
  · intro rest
    exact .inr ⟨events, bbRecv', later, observed, rest, rfl⟩

/-- Both ends are alike after every chunk exactly if all buffers are such. -/
theorem receivesAll_alike_iff (isReceiver : Bool) : (∀ received, received <+: chunks → ∀ events left,
      ReceivesAll ⟨isReceiver, false⟩ bbRecv sender received events left ↔
        ReceivesAll ⟨isReceiver, true⟩ bbRecv sender received events left) ↔
    LoneAll isReceiver bbRecv chunks := by
  induction chunks generalizing bbRecv with
  | nil =>
    refine ⟨fun _ => trivial, fun _ received inside events left => ?_⟩
    rw [List.prefix_nil.mp inside]
    constructor <;> intro all <;> cases all <;> exact .nil _ _
  | cons chunk chunks ih =>
    constructor
    · -- the prefix of one chunk decides the first call, longer ones those behind it
      intro alike
      have first : ∀ events left, Observed ⟨isReceiver, false⟩ (bbRecv ++ chunk) 0 events left ↔
          Observed ⟨isReceiver, true⟩ (bbRecv ++ chunk) 0 events left := by
        intro events left
        rw [← receivesAll_single sender, ← receivesAll_single sender]
        exact alike [chunk] ⟨chunks, rfl⟩ events left
      refine ⟨observed_alike_iff.mp first, fun sender₁ events bbRecv' sender₂ call => ih.mp ?_⟩
      intro received inside later left
      have server : Observed ⟨isReceiver, false⟩ (bbRecv ++ chunk) 0 events (some bbRecv') := ⟨_, _, call⟩
      have client := (first events (some bbRecv')).mp server
      rw [← receivesAll_after server, ← receivesAll_after client]
      exact alike (chunk :: received) (List.cons_prefix_cons.mpr ⟨rfl, inside⟩) _ _
    · rintro ⟨lone, rest⟩ received inside events left
      have first := observed_alike_iff.mpr lone
      cases received with
      | nil => constructor <;> intro all <;> cases all <;> exact .nil _ _
      | cons chunk' received =>
        obtain ⟨rfl, inside'⟩ := List.cons_prefix_cons.mp inside
        -- both go on with the same bytes, from which the condition holds again
        rw [receivesAll_cons, receivesAll_cons, first]
        refine or_congr Iff.rfl (exists_congr fun now => exists_congr fun bbRecv' => exists_congr fun later => ?_)
        rw [first]
        refine and_congr_right fun observed => and_congr_left fun _ => ?_
        obtain ⟨sender₁, sender₂, call⟩ := (first _ _).mpr observed
        exact ih.mpr (rest _ _ _ _ call) received inside' later left

end

/-- The two ends of a connection receive alike, after every chunk, exactly if nothing but packages of
type 3 ever follows a package in the buffer. -/
theorem udp_alike_iff (server : UdpPeer) (client : UdpClient)
    (address : client.routingAddress = server.routingAddress) (connected : client.kcpPtr ≠ 0)
    (chunks : List (List UInt8)) :
    (∀ received, received <+: chunks → ∀ events left,
      ReceivesAll server.peer [] [] received events left ↔ ReceivesAll client.peer [] [] received events left) ↔
    LoneAll (!server.routingAddress.isEmpty) [] chunks := by
  have peer : client.peer = ⟨!server.routingAddress.isEmpty, true⟩ := by
    unfold UdpClient.peer UdpClient.disconnected
    rw [address, bne_iff_ne.mpr connected]
  rw [peer]
  exact receivesAll_alike_iff _

theorem reports_stays {isReceiver : Bool} {buf : List UInt8} {offset behind last : Nat}
    (now : turn isReceiver buf offset = .reports behind)
    (skipped : ReflTransGen (Silent isReceiver buf) offset last) : last = offset := by
  cases skipped.cases_head with
  | inl same => exact same.symm
  | inr step =>
    obtain ⟨next, silent, -⟩ := step
    exact absurd (silent.symm.trans now) (by simp)

/-- A package of one byte in each of two chunks. -/
theorem udp_alike_apart :
    LoneAll false [] [[0, 1, 0, 7], [0, 1, 0, 8]] ∧
    ∀ received, received <+: [[0, 1, 0, 7], [0, 1, 0, 8]] → ∀ events left,
      ReceivesAll (UdpPeer.mk []).peer [] [] received events left ↔
        ReceivesAll (UdpClient.mk [] 1).peer [] [] received events left := by
  have lone : ∀ byte : UInt8, turn false [0, 1, 0, byte] 0 = .reports 4 → turn false [0, 1, 0, byte] 4 = .finish →
      Lone false [0, 1, 0, byte] 0 := by
    intro byte now ends first behind skipped reports
    rw [reports_stays now skipped, now] at reports
    cases reports
    exact ⟨4, .refl, ends, Nat.le_refl 4⟩
  have first := lone 7 (by decide) (by decide)
  have all : LoneAll false [] [[0, 1, 0, 7], [0, 1, 0, 8]] := by
    refine ⟨first, fun sender events bbRecv sender' call => ?_⟩
    obtain ⟨event, client, -⟩ := observed_reports (show turn false [0, 1, 0, 7] 0 = .reports 4 by decide)
    have kept := (((observed_alike_iff.mpr first) _ _).mpr client).unique ⟨_, _, call⟩
    cases kept.2
    exact ⟨lone 8 (by decide) (by decide), fun _ _ _ _ _ => trivial⟩
  exact ⟨all, (udp_alike_iff ⟨[]⟩ ⟨[], 1⟩ rfl (by decide) _).mpr all⟩

/-- Two packages in one chunk: the client loses the second. -/
theorem udp_differ : ∃ (server : UdpPeer) (client : UdpClient) (chunks : List (List UInt8)),
    client.routingAddress = server.routingAddress ∧ client.kcpPtr ≠ 0 ∧
      ¬ ∀ received, received <+: chunks → ∀ events left,
        ReceivesAll server.peer [] [] received events left ↔ ReceivesAll client.peer [] [] received events left := by
  refine ⟨⟨[]⟩, ⟨[], 1⟩, [[0, 1, 0, 7, 0, 1, 0, 8]], rfl, by decide, fun alike => ?_⟩
  have lone := ((receivesAll_alike_iff false).mp alike).1
  obtain ⟨last, skipped, ends, -⟩ := lone 0 4 .refl (by decide)
  have second : turn false ([] ++ [0, 1, 0, 7, 0, 1, 0, 8]) 4 = .reports 8 := by decide
  rw [reports_stays second skipped, second] at ends
  cases ends

end Xxlib.Uv4
