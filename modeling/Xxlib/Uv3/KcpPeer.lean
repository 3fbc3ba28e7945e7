import Xxlib.Kcp.Runs
import Xxlib.Uv3.Unpack

/-! Two `UvUdpKcpPeer`s with a network between them (`test_uv_3/xx_uv.h`).

The packages of a peer are the messages of a KCP session, each with its length in front. The dialer or the listener gives a peer its
datagrams, and calls `Update`, whose loop hands packages to user code: a call of `Update` is one step and another for each round
of its loop. Whatever else goes on may come in between.
-/

set_option autoImplicit false

namespace Xxlib.Uv3

open Kcp (ikcpInput ikcpRecv ikcpSend ikcpCheck ikcpPeeksize headerSize)

/-- The size of `Uv::recvBuf` -/
def recvBufSize : Nat := 65536

/-- What `SendPackage` writes behind the length: the serial and the data. An `int` holds the length of all. -/
structure Body where
  bytes : List UInt8
  some : bytes ≠ []
  small : bytes.length + 4 < 2 ^ 31

/-- The length that `SendPackage` fills in, and what is behind. -/
def framed (bytes : List UInt8) : List UInt8 :=
  [UInt8.ofNat bytes.length, UInt8.ofNat (bytes.length >>> 8), UInt8.ofNat (bytes.length >>> 16), UInt8.ofNat (bytes.length >>> 24)]
    ++ bytes

/-- The fields, without `kcp`; whether `Update` is in its loop; what `SendPackage` took, and what `HandlePack` got. -/
structure UvUdpKcpPeer where
  createMS : UInt64
  currentMS : UInt64 := 0
  nextUpdateMS : UInt64 := 0
  receiveTimeoutMS : UInt64 := 0
  lastReceiveMS : UInt64 := 0
  buf : List UInt8 := []
  disposed : Bool := false
  updating : Bool := false
  sent : List Body := []
  handled : List (List UInt8) := []

/-- The check of `Update` for a receive timeout. -/
def UvUdpKcpPeer.TimedOut (p : UvUdpKcpPeer) (nowMS : UInt64) : Prop :=
  p.receiveTimeoutMS ≠ 0 ∧ p.receiveTimeoutMS + p.lastReceiveMS < nowMS - p.createMS

instance (p : UvUdpKcpPeer) (nowMS : UInt64) : Decidable (p.TimedOut nowMS) := inferInstanceAs (Decidable (_ ∧ _))

structure KcpPeers where
  session : Kcp.Session
  peers : Bool → UvUdpKcpPeer

namespace KcpPeers

/-- What user code does with its peer. -/
inductive Call where
  | sendPackage (body : Body)
  | flush
  | setReceiveTimeoutMS (receiveTimeoutMS : UInt64)
  | resetLastReceiveMS
  | dispose

/-- What the code under `HandlePack` does, and the result. -/
structure Handling where
  calls : List Call := []
  result : Int := 0

inductive Act where
  | call (call : Call)
  | unpack (i : Nat)
  | update (nowMS : UInt64)
  | receive (handlePack : List UInt8 → Handling)

/-! ## The code -/

def setPeer (s : KcpPeers) (b : Bool) (p : UvUdpKcpPeer) : KcpPeers := { s with peers := Function.update s.peers b p }

def dispose (s : KcpPeers) (b : Bool) : KcpPeers := s.setPeer b { s.peers b with disposed := true }

def sendPackage (s : KcpPeers) (b : Bool) (body : Body) : KcpPeers :=
  let r := (ikcpSend (s.session.ends b).kcp (framed body.bytes)).1
  let s := { s with session := s.session.step b (.send (framed body.bytes)) }
  if r = 0 then s.setPeer b { s.peers b with sent := (s.peers b).sent ++ [body] } else s

def call (s : KcpPeers) (b : Bool) : Call → KcpPeers
  | .sendPackage body => if (s.peers b).disposed then s else s.sendPackage b body
  | .flush => if (s.peers b).disposed then s else { s with session := s.session.step b .flush }
  | .setReceiveTimeoutMS receiveTimeoutMS => s.setPeer b { s.peers b with receiveTimeoutMS := receiveTimeoutMS }
  | .resetLastReceiveMS => s.setPeer b { s.peers b with lastReceiveMS := (s.peers b).currentMS }
  | .dispose => s.dispose b

/-- The calls of a handler, one after the other. -/
def calls (s : KcpPeers) (b : Bool) (calls : List Call) : KcpPeers := calls.foldl (fun s call => s.call b call) s

/-- A datagram: the owner of the peer calls `Input`, and disposes of the peer when it fails. -/
def unpack (s : KcpPeers) (b : Bool) (i : Nat) : Option KcpPeers :=
  match (s.session.wire (!b))[i]? with
  | none => some s
  | some d =>
      if (s.peers b).disposed then some s
      else
        match ikcpInput headerSize (s.session.ends b).kcp d.bytes d.bytes.length with
        | .fault => none
        | .returned r _ =>
            let s := { s with session := s.session.step b (.deliver i) }
            some (if r ≠ 0 then s.dispose b else s)

/-- `Update` up to its loop. The owner disposes of the peer when it fails. -/
def update (s : KcpPeers) (b : Bool) (nowMS : UInt64) : KcpPeers :=
  if (s.peers b).disposed then s
  else
    let p := { s.peers b with currentMS := nowMS - (s.peers b).createMS }
    if (s.peers b).TimedOut nowMS then (s.setPeer b p).dispose b
    else if p.currentMS < p.nextUpdateMS then s.setPeer b p
    else
      let s := { s with session := s.session.step b (.update p.currentMS.toUInt32) }
      s.setPeer b { p with
        nextUpdateMS := (ikcpCheck (s.session.ends b).kcp p.currentMS.toUInt32).toUInt64
        updating := true }

/-- One round of the loop of `Update`, whose `HandlePack` may dispose of the peer. Then the next round uses the null pointer. -/
def receive (s : KcpPeers) (b : Bool) (handlePack : List UInt8 → Handling) : Option KcpPeers :=
  if (s.peers b).disposed then none
  else
    let (recvLen, recvBuf, _) := ikcpRecv (s.session.ends b).kcp recvBufSize
    let s := { s with session := s.session.step b (.recv recvBufSize) }
    if recvLen ≤ 0 then some (s.setPeer b { s.peers b with updating := false })
    else do
      let unpacked ← UvUdpKcpPeer.unpack (fun pack => (handlePack pack).result) (s.peers b).buf recvBuf
      let s := s.setPeer b { s.peers b with
        buf := unpacked.buf
        handled := (s.peers b).handled ++ unpacked.packs
        updating := unpacked.result = 0 }
      let s := s.calls b (unpacked.packs.flatMap fun pack => (handlePack pack).calls)
      return if unpacked.result ≠ 0 then s.dispose b else s

/-- `none` if the code leaves its memory. -/
def step (s : KcpPeers) (b : Bool) : Act → Option KcpPeers
  | .call call => some (s.call b call)
  | .unpack i => s.unpack b i
  | .update nowMS => some (s.update b nowMS)
  | .receive handlePack => s.receive b handlePack

/-- How the constructors configure their control blocks. -/
def configuration : List (Bool × Kcp.Act) :=
  [(false, .wndsize 128 128), (false, .nodelay 1 10 2 1), (false, .minrto 10),
    (true, .wndsize 128 128), (true, .nodelay 1 10 2 1), (true, .minrto 10)]

/-- Both peers are constructed; their owners fill in `createMS`. -/
def start (conv : Kcp.Guid) (createMS : Bool → UInt64) : KcpPeers where
  session := (Kcp.Session.start conv fun _ => 1400).perform configuration
  peers b := { createMS := createMS b }

/-- The loop of `Update` goes on before its peer gets a datagram or is updated anew, and no datagram is out of date. -/
def Allowed (s : KcpPeers) (b : Bool) : Act → Prop
  | .call _ => True
  | .unpack i => (s.peers b).updating = false ∧ s.session.Allowed b (.deliver i)
  | .update _ => (s.peers b).updating = false
  | .receive _ => (s.peers b).updating = true

instance (s : KcpPeers) (b : Bool) : (act : Act) → Decidable (s.Allowed b act)
  | .call _ => isTrue trivial
  | .unpack i => inferInstanceAs (Decidable ((s.peers b).updating = false ∧ s.session.Allowed b (.deliver i)))
  | .update _ => inferInstanceAs (Decidable ((s.peers b).updating = false))
  | .receive _ => inferInstanceAs (Decidable ((s.peers b).updating = true))

inductive Run : KcpPeers → Prop where
  | start (conv : Kcp.Guid) (createMS : Bool → UInt64) : Run (start conv createMS)
  | step {s s' : KcpPeers} (b : Bool) (act : Act) (before : Run s) (allowed : s.Allowed b act) (steps : s.step b act = some s') :
      Run s'

/-! ## Packages -/

section
variable {bytes : List UInt8} {s s' : KcpPeers} {b : Bool}

theorem length_framed (bytes : List UInt8) : (framed bytes).length = bytes.length + 4 := rfl

theorem drop_framed (bytes : List UInt8) : (framed bytes).drop 4 = bytes := rfl

theorem map_drop_framed (packs : List (List UInt8)) : (packs.map framed).map (List.drop 4) = packs := by
  rw [List.map_map]
  exact List.map_id packs

theorem bytes_sum {n : Nat} (small : n < 2 ^ 31) :
    n % 2 ^ 8 + (((n >>> 8) % 2 ^ 8) <<< 8) + (((n >>> 16) % 2 ^ 8) <<< 16) + (((n >>> 24) % 2 ^ 8) <<< 24) = n := by
  simp only [Nat.shiftRight_eq_div_pow, Nat.shiftLeft_eq]
  omega

theorem bmod_of_small {n : Nat} (small : n < 2 ^ 31) : Int.bmod n (2 ^ 32) = n := Lib.toInt32_of_lt (Int.natCast_nonneg n) (by omega)

theorem readLen_framed (small : bytes.length < 2 ^ 31) : readLen (framed bytes) 0 = bytes.length := by
  have byte (n : Nat) : (UInt8.ofNat n).toNat = n % 2 ^ 8 := UInt8.toNat_ofNat'
  have first : Lib.byteAt (framed bytes) 0 = bytes.length % 2 ^ 8 := byte _
  have second : Lib.byteAt (framed bytes) (0 + 1) = (bytes.length >>> 8) % 2 ^ 8 := byte _
  have third : Lib.byteAt (framed bytes) (0 + 2) = (bytes.length >>> 16) % 2 ^ 8 := byte _
  have fourth : Lib.byteAt (framed bytes) (0 + 3) = (bytes.length >>> 24) % 2 ^ 8 := byte _
  unfold readLen
  rw [first, second, third, fourth, bytes_sum small, bmod_of_small small]

/-- A message that is one package is handed on whole, and nothing of it stays behind. -/
theorem unpack_framed (handlePack : List UInt8 → Int) (some : bytes ≠ []) (small : bytes.length + 4 < 2 ^ 31) :
    UvUdpKcpPeer.unpack handlePack [] (framed bytes) =
      Option.some ⟨handlePack bytes, [bytes], if handlePack bytes = 0 then [] else framed bytes⟩ := by
  have positive := List.length_pos_iff.mpr some
  have length := length_framed bytes
  have len := readLen_framed (by omega : bytes.length < 2 ^ 31)
  have header : add32 0 4 = 4 := rfl
  have next : add32 (4 : Nat) bytes.length = bytes.length + 4 := by
    have := add32_eq (by omega : 0 ≤ ((4 : Nat) : Int) + bytes.length) (by omega)
    omega
  have last : ¬ add32 (bytes.length + 4 : Nat) 4 ≤ (framed bytes).length := by
    have := add32_eq (by omega : 0 ≤ ((bytes.length + 4 : Nat) : Int) + 4) (by omega)
    omega
  unfold UvUdpKcpPeer.unpack Uv3.unpack
  rw [List.nil_append]
  dsimp only
  rw [length, unpackLoop]
  dsimp only
  rw [Int.natCast_zero, header, len, if_pos (by omega), if_neg (by omega), next, if_neg (by omega), drop_framed,
    Int.toNat_natCast, List.take_length]
  by_cases fine : handlePack bytes = 0
  · rw [if_neg (not_not.mpr fine), unpackLoop, if_neg last, Option.map_some, if_pos fine, fine, removeFront, ← length,
      List.drop_length]
  · rw [if_pos fine, if_neg fine]

/-! ## The invariant -/

/-- The session below is in a run of its own: what its ends sent and got are the packages, and each of those fits into `recvBuf`. -/
structure Core (s : KcpPeers) : Prop where
  run : Kcp.Session.Run s.session
  sent : ∀ b, (s.session.ends b).sent = (s.peers b).sent.map fun body => framed body.bytes
  got : ∀ b, (s.session.ends b).got = (s.peers b).handled.map framed
  fits : ∀ b, ∀ pack ∈ (s.peers b).handled, pack.length + 4 ≤ recvBufSize

/-- Between two messages nothing is left in `buf`. -/
def Clean (s : KcpPeers) : Prop := ∀ b, (s.peers b).disposed = false → (s.peers b).buf = []

/-- What user code does not change of a peer. -/
structure Keeps (p p' : UvUdpKcpPeer) : Prop where
  buf : p'.buf = p.buf
  updating : p'.updating = p.updating
  handled : p'.handled = p.handled
  disposed : p.disposed = true → p'.disposed = true

theorem Keeps.refl (p : UvUdpKcpPeer) : Keeps p p := ⟨rfl, rfl, rfl, id⟩

theorem Keeps.trans {p p₁ p₂ : UvUdpKcpPeer} (first : Keeps p p₁) (second : Keeps p₁ p₂) : Keeps p p₂ :=
  ⟨second.buf.trans first.buf, second.updating.trans first.updating, second.handled.trans first.handled,
    fun disposed => second.disposed (first.disposed disposed)⟩

@[simp] theorem peers_setPeer (s : KcpPeers) (b : Bool) (p : UvUdpKcpPeer) : (s.setPeer b p).peers b = p := Function.update_self ..

@[simp] theorem peers_setPeer_not (s : KcpPeers) (b : Bool) (p : UvUdpKcpPeer) : (s.setPeer b p).peers (!b) = s.peers (!b) :=
  Function.update_of_ne (Bool.eq_not.mp rfl) ..

theorem setPeer_setPeer (s : KcpPeers) (b : Bool) (p q : UvUdpKcpPeer) : (s.setPeer b p).setPeer b q = s.setPeer b q := by
  unfold setPeer
  rw [Function.update_idem]

@[simp] theorem session_setPeer (s : KcpPeers) (b : Bool) (p : UvUdpKcpPeer) : (s.setPeer b p).session = s.session := rfl

/-- What holds of both peers. -/
theorem both {P : Bool → Prop} (b : Bool) (this : P b) (other : P (!b)) (c : Bool) : P c := by
  by_cases same : c = b
  · rwa [same]
  · rwa [Bool.eq_not.mpr same]

theorem Core.setPeer (core : Core s) {p : UvUdpKcpPeer} (sent : p.sent = (s.peers b).sent)
    (handled : p.handled = (s.peers b).handled) : Core (s.setPeer b p) := by
  refine ⟨core.run, both b ?_ ?_, both b ?_ ?_, both b ?_ ?_⟩
  · rw [peers_setPeer, sent]
    exact core.sent b
  · rw [peers_setPeer_not]
    exact core.sent (!b)
  · rw [peers_setPeer, handled]
    exact core.got b
  · rw [peers_setPeer_not]
    exact core.got (!b)
  · rw [peers_setPeer, handled]
    exact core.fits b
  · rw [peers_setPeer_not]
    exact core.fits (!b)

/-- Steps of the session that neither take a message nor hand one over. -/
def Quiet : Kcp.Act → Prop
  | .send _ | .recv _ => False
  | _ => True

instance : (act : Kcp.Act) → Decidable (Quiet act)
  | .send _ | .recv _ => isFalse id
  | .deliver _ | .update _ | .flush | .wndsize .. | .nodelay .. | .minrto _ => isTrue trivial

theorem logs_emit (e : Kcp.Endpoint) (kcp : Kcp.Ikcpcb) (output : List (List UInt8)) :
    (e.emit kcp output).1.sent = e.sent ∧ (e.emit kcp output).1.got = e.got := ⟨rfl, rfl⟩

theorem logs_step {act : Kcp.Act} (quiet : Quiet act) (session : Kcp.Session) (b c : Bool) :
    ((session.step b act).ends c).sent = (session.ends c).sent ∧ ((session.step b act).ends c).got = (session.ends c).got := by
  have set {e : Kcp.Endpoint} (sent : e.sent = (session.ends b).sent) (got : e.got = (session.ends b).got) :
      (Function.update session.ends b e c).sent = (session.ends c).sent ∧
        (Function.update session.ends b e c).got = (session.ends c).got := by
    rw [Function.update_apply]
    split
    · rename_i same
      rw [same]
      exact ⟨sent, got⟩
    · exact ⟨rfl, rfl⟩
  cases act with
  | send buffer => exact quiet.elim
  | recv len => exact quiet.elim
  | deliver i =>
    rw [Kcp.Session.step]
    split
    · have same (bytes : List UInt8) : ((session.ends b).input bytes).sent = (session.ends b).sent ∧
          ((session.ends b).input bytes).got = (session.ends b).got := by
        unfold Kcp.Endpoint.input
        split
        · exact ⟨rfl, rfl⟩
        · exact ⟨rfl, rfl⟩
      exact set (same _).1 (same _).2
    · exact ⟨rfl, rfl⟩
  | update current =>
    have same := logs_emit (session.ends b) (Kcp.ikcpUpdate headerSize (session.ends b).kcp current).1
      (Kcp.ikcpUpdate headerSize (session.ends b).kcp current).2
    exact set same.1 same.2
  | flush =>
    have same := logs_emit (session.ends b) (Kcp.ikcpFlush headerSize (session.ends b).kcp).1
      (Kcp.ikcpFlush headerSize (session.ends b).kcp).2
    exact set same.1 same.2
  | wndsize sndwnd rcvwnd => exact set rfl rfl
  | nodelay nodelay interval resend nc => exact set rfl rfl
  | minrto rxMinrto => exact set rfl rfl

theorem Core.quiet (core : Core s) {act : Kcp.Act} (quiet : Quiet act) (allowed : s.session.Allowed b act) :
    Core { s with session := s.session.step b act } where
  run := core.run.step b act allowed
  sent c := (logs_step quiet s.session b c).1.trans (core.sent c)
  got c := (logs_step quiet s.session b c).2.trans (core.got c)
  fits := core.fits

theorem ends_set (session : Kcp.Session) (b : Bool) (e : Kcp.Endpoint) : (session.set b e).ends b = e := Function.update_self ..

theorem ends_set_not (session : Kcp.Session) (b : Bool) (e : Kcp.Endpoint) : (session.set b e).ends (!b) = session.ends (!b) :=
  Function.update_of_ne (Bool.eq_not.mp rfl) ..

/-! ## What user code keeps -/

theorem Core.sendPackage (core : Core s) (body : Body) : Core (s.sendPackage b body) := by
  have run := core.run.step b (.send (framed body.bytes)) trivial
  have mine : (s.session.step b (.send (framed body.bytes))).ends b = (s.session.ends b).send (framed body.bytes) := ends_set ..
  have other : (s.session.step b (.send (framed body.bytes))).ends (!b) = s.session.ends (!b) := ends_set_not ..
  unfold KcpPeers.sendPackage
  by_cases taken : (ikcpSend (s.session.ends b).kcp (framed body.bytes)).1 = 0
  · rw [if_pos taken]
    refine ⟨run, both b ?_ ?_, both b ?_ ?_, both b ?_ ?_⟩
    · rw [peers_setPeer, session_setPeer, mine, List.map_append, List.map_singleton, ← core.sent b]
      exact if_pos taken
    · rw [peers_setPeer_not, session_setPeer, other]
      exact core.sent (!b)
    · rw [peers_setPeer, session_setPeer, mine]
      exact core.got b
    · rw [peers_setPeer_not, session_setPeer, other]
      exact core.got (!b)
    · rw [peers_setPeer]
      exact core.fits b
    · rw [peers_setPeer_not]
      exact core.fits (!b)
  · rw [if_neg taken]
    refine ⟨run, both b ?_ ?_, both b ?_ ?_, core.fits⟩
    · rw [mine, ← core.sent b]
      exact if_neg taken
    · rw [other]
      exact core.sent (!b)
    · rw [mine]
      exact core.got b
    · rw [other]
      exact core.got (!b)

theorem Core.call (core : Core s) (call : Call) : Core (s.call b call) := by
  cases call with
  | sendPackage body =>
    rw [KcpPeers.call]
    split
    · exact core
    · exact core.sendPackage body
  | flush =>
    rw [KcpPeers.call]
    split
    · exact core
    · exact core.quiet trivial trivial
  | setReceiveTimeoutMS receiveTimeoutMS => exact core.setPeer rfl rfl
  | resetLastReceiveMS => exact core.setPeer rfl rfl
  | dispose => exact core.setPeer rfl rfl

theorem keeps_setPeer (s : KcpPeers) {p : UvUdpKcpPeer} (keeps : Keeps (s.peers b) p) (c : Bool) :
    Keeps (s.peers c) ((s.setPeer b p).peers c) := by
  refine both (P := fun c => Keeps (s.peers c) ((s.setPeer b p).peers c)) b ?_ ?_ c
  · rw [peers_setPeer]
    exact keeps
  · rw [peers_setPeer_not]
    exact .refl _

theorem call_keeps (s : KcpPeers) (b : Bool) (call : Call) (c : Bool) : Keeps (s.peers c) ((s.call b call).peers c) := by
  cases call with
  | sendPackage body =>
    rw [KcpPeers.call]
    split
    · exact .refl _
    · unfold KcpPeers.sendPackage
      dsimp only
      split
      · refine keeps_setPeer { s with session := _ } ?_ c
        exact ⟨rfl, rfl, rfl, id⟩
      · exact .refl _
  | flush =>
    rw [KcpPeers.call]
    split
    · exact .refl _
    · exact .refl _
  | setReceiveTimeoutMS receiveTimeoutMS =>
    rw [KcpPeers.call]
    refine keeps_setPeer s ?_ c
    exact ⟨rfl, rfl, rfl, id⟩
  | resetLastReceiveMS =>
    rw [KcpPeers.call]
    refine keeps_setPeer s ?_ c
    exact ⟨rfl, rfl, rfl, id⟩
  | dispose =>
    rw [KcpPeers.call, KcpPeers.dispose]
    refine keeps_setPeer s ?_ c
    exact ⟨rfl, rfl, rfl, fun _ => rfl⟩

/-- Only `Dispose` disposes of a peer. -/
theorem call_disposes {call : Call} (other : call ≠ .dispose) : ((s.call b call).peers b).disposed = (s.peers b).disposed := by
  cases call with
  | sendPackage body =>
    rw [KcpPeers.call]
    split
    · rfl
    · unfold KcpPeers.sendPackage
      dsimp only
      split
      · rw [peers_setPeer]
      · rfl
  | flush =>
    rw [KcpPeers.call]
    split
    · rfl
    · rfl
  | setReceiveTimeoutMS receiveTimeoutMS => rw [KcpPeers.call, peers_setPeer]
  | resetLastReceiveMS => rw [KcpPeers.call, peers_setPeer]
  | dispose => exact absurd rfl other

theorem Core.calls (core : Core s) (calls : List Call) : Core (s.calls b calls) := by
  induction calls generalizing s with
  | nil => exact core
  | cons call calls ih => exact ih (core.call call)

theorem calls_keeps (s : KcpPeers) (b : Bool) (calls : List Call) (c : Bool) : Keeps (s.peers c) ((s.calls b calls).peers c) := by
  induction calls generalizing s with
  | nil => exact .refl _
  | cons call calls ih => exact (call_keeps s b call c).trans (ih _)

theorem calls_disposes {calls : List Call} (none : .dispose ∉ calls) :
    ((s.calls b calls).peers b).disposed = (s.peers b).disposed := by
  induction calls generalizing s with
  | nil => rfl
  | cons call calls ih =>
    obtain ⟨first, rest⟩ := not_or.mp (fun there => none (List.mem_cons.mpr there))
    exact (ih rest).trans (call_disposes fun same => first same.symm)

/-! ## The rounds of the loop -/

/-- What a round leaves that finds no message. -/
def ended (s : KcpPeers) (b : Bool) : KcpPeers :=
  { s with session := s.session.step b (.recv recvBufSize) }.setPeer b { s.peers b with updating := false }

/-- What a round leaves before the calls of the handler. -/
def taken (s : KcpPeers) (b : Bool) (bytes : List UInt8) (handling : Handling) : KcpPeers :=
  { s with session := s.session.step b (.recv recvBufSize) }.setPeer b { s.peers b with
    buf := if handling.result = 0 then [] else framed bytes
    handled := (s.peers b).handled ++ [bytes]
    updating := handling.result = 0 }

/-- What a round leaves that hands on a package. -/
def handed (s : KcpPeers) (b : Bool) (bytes : List UInt8) (handling : Handling) : KcpPeers :=
  let s := (s.taken b bytes handling).calls b handling.calls
  if handling.result ≠ 0 then s.dispose b else s

/-- A round ends the loop, or hands on the next package. -/
theorem Core.receive_cases (core : Core s) (clean : Clean s) (there : (s.peers b).disposed = false)
    (handlePack : List UInt8 → Handling) :
    (s.receive b handlePack = some (s.ended b) ∧
        ((s.session.ends b).recv recvBufSize).got = (s.session.ends b).got ∧
        (ikcpPeeksize (s.session.ends b).kcp < 0 ∨ recvBufSize < ikcpPeeksize (s.session.ends b).kcp)) ∨
      ∃ body, (s.peers (!b)).sent[(s.peers b).handled.length]? = some body ∧ body.bytes.length + 4 ≤ recvBufSize ∧
        ((s.session.ends b).recv recvBufSize).got = (s.session.ends b).got ++ [framed body.bytes] ∧
        s.receive b handlePack = some (s.handed b body.bytes (handlePack body.bytes)) := by
  have cases := core.run.recv_cases b (Int.natCast_nonneg recvBufSize)
  unfold KcpPeers.receive
  rw [if_neg (Bool.eq_false_iff.mp there)]
  generalize ikcpRecv (s.session.ends b).kcp recvBufSize = result at cases ⊢
  obtain ⟨recvLen, recvBuf, kcp⟩ := result
  dsimp only at cases ⊢
  rcases cases with ⟨failed, same, reason⟩ | ⟨message, sent, fits, length, rfl, handed⟩
  · rw [if_pos (Int.le_of_lt failed)]
    exact .inl ⟨rfl, same, reason⟩
  · rw [core.sent, core.got, List.length_map, List.getElem?_map, Option.map_eq_some_iff] at sent
    obtain ⟨body, sent, rfl⟩ := sent
    have size := length_framed body.bytes
    rw [if_neg (by omega), clean b there, unpack_framed _ body.some body.small, Option.bind_eq_bind, Option.bind_some]
    dsimp only
    rw [List.flatMap_singleton]
    exact .inr ⟨body, sent, by omega, handed, rfl⟩

theorem Core.ended (core : Core s) (same : ((s.session.ends b).recv recvBufSize).got = (s.session.ends b).got) : Core (s.ended b) := by
  have mine : (s.session.step b (.recv recvBufSize)).ends b = (s.session.ends b).recv recvBufSize := ends_set ..
  have other : (s.session.step b (.recv recvBufSize)).ends (!b) = s.session.ends (!b) := ends_set_not ..
  have stepped : Core { s with session := s.session.step b (.recv recvBufSize) } := by
    refine ⟨core.run.step b (.recv recvBufSize) trivial, both b ?_ ?_, both b ?_ ?_, core.fits⟩
    · rw [mine]
      exact core.sent b
    · rw [other]
      exact core.sent (!b)
    · rw [mine, same]
      exact core.got b
    · rw [other]
      exact core.got (!b)
  exact stepped.setPeer rfl rfl

theorem Core.taken (core : Core s) {bytes : List UInt8} (fits : bytes.length + 4 ≤ recvBufSize) (handling : Handling)
    (got : ((s.session.ends b).recv recvBufSize).got = (s.session.ends b).got ++ [framed bytes]) :
    Core (s.taken b bytes handling) := by
  have mine : (s.session.step b (.recv recvBufSize)).ends b = (s.session.ends b).recv recvBufSize := ends_set ..
  have other : (s.session.step b (.recv recvBufSize)).ends (!b) = s.session.ends (!b) := ends_set_not ..
  unfold KcpPeers.taken
  refine ⟨core.run.step b (.recv recvBufSize) trivial, both b ?_ ?_, both b ?_ ?_, both b ?_ ?_⟩
  · rw [peers_setPeer, session_setPeer, mine]
    exact core.sent b
  · rw [peers_setPeer_not, session_setPeer, other]
    exact core.sent (!b)
  · rw [peers_setPeer, session_setPeer, mine, got, List.map_append, ← core.got b]
    rfl
  · rw [peers_setPeer_not, session_setPeer, other]
    exact core.got (!b)
  · rw [peers_setPeer]
    intro pack member
    rcases List.mem_append.mp member with old | new
    · exact core.fits b pack old
    · rw [List.mem_singleton.mp new]
      exact fits
  · rw [peers_setPeer_not]
    exact core.fits (!b)

theorem Core.handed (core : Core s) {bytes : List UInt8} (fits : bytes.length + 4 ≤ recvBufSize) (handling : Handling)
    (got : ((s.session.ends b).recv recvBufSize).got = (s.session.ends b).got ++ [framed bytes]) :
    Core (s.handed b bytes handling) := by
  have left := (core.taken fits handling got).calls handling.calls (b := b)
  unfold KcpPeers.handed
  dsimp only
  split
  · exact left.setPeer rfl rfl
  · exact left

/-! ## Every run -/

structure Inv (s : KcpPeers) : Prop where
  core : Core s
  clean : Clean s

theorem Clean.keeps (clean : Clean s) (keeps : ∀ c, Keeps (s.peers c) (s'.peers c)) : Clean s' := by
  intro c there
  rw [(keeps c).buf]
  refine clean c (Bool.eq_false_iff.mpr fun gone => ?_)
  rw [(keeps c).disposed gone] at there
  cases there

theorem Clean.handed (clean : Clean s) (bytes : List UInt8) (handling : Handling) : Clean (s.handed b bytes handling) := by
  have keeps := calls_keeps (s.taken b bytes handling) b handling.calls
  have other : (s.taken b bytes handling).peers (!b) = s.peers (!b) := peers_setPeer_not ..
  have mine : ((s.taken b bytes handling).peers b).buf = if handling.result = 0 then [] else framed bytes :=
    congrArg UvUdpKcpPeer.buf (peers_setPeer ..)
  unfold KcpPeers.handed
  dsimp only
  by_cases fine : handling.result = 0
  · rw [if_neg (not_not.mpr fine)]
    refine Clean.keeps (both b (fun _ => ?_) fun there => ?_) keeps
    · rw [mine, if_pos fine]
    · rw [other] at there ⊢
      exact clean (!b) there
  · rw [if_pos fine]
    refine both b (fun there => ?_) fun there => ?_
    · rw [KcpPeers.dispose, peers_setPeer] at there
      cases there
    · rw [KcpPeers.dispose, peers_setPeer_not] at there ⊢
      rw [(keeps (!b)).buf, other]
      refine clean (!b) (Bool.eq_false_iff.mpr fun gone => ?_)
      rw [(keeps (!b)).disposed (other ▸ gone)] at there
      cases there

/-- No datagram of the other peer is refused. -/
theorem Core.unpack_cases (core : Core s) {i : Nat} (allowed : s.session.Allowed b (.deliver i)) :
    s.unpack b i = some s ∨ s.unpack b i = some { s with session := s.session.step b (.deliver i) } := by
  unfold KcpPeers.unpack
  split
  · exact .inl rfl
  · rename_i d there
    split
    · exact .inl rfl
    · obtain ⟨kcp, returned⟩ := core.run.input_returns b there (allowed d there)
      rw [returned]
      exact .inr rfl

/-- `Update` touches neither the packages nor `buf`. -/
theorem update_cases (s : KcpPeers) (b : Bool) (nowMS : UInt64) :
    s.update b nowMS = s ∨ ∃ p, p.buf = (s.peers b).buf ∧ p.sent = (s.peers b).sent ∧ p.handled = (s.peers b).handled ∧
      (s.peers b).disposed = false ∧ (p.disposed = true → (s.peers b).TimedOut nowMS) ∧
      (s.update b nowMS = s.setPeer b p ∨
        ∃ current, s.update b nowMS = { s with session := s.session.step b (.update current) }.setPeer b p) := by
  unfold KcpPeers.update
  by_cases gone : (s.peers b).disposed = true
  · rw [if_pos gone]
    exact .inl rfl
  · have there := Bool.eq_false_iff.mpr gone
    rw [if_neg gone]
    dsimp only
    by_cases late : (s.peers b).TimedOut nowMS
    · rw [if_pos late, KcpPeers.dispose, peers_setPeer, setPeer_setPeer]
      refine .inr ⟨_, ?_, ?_, ?_, there, fun _ => late, .inl rfl⟩ <;> rfl
    · rw [if_neg late]
      split
      · refine .inr ⟨_, ?_, ?_, ?_, there, ?_, .inl rfl⟩
        · rfl
        · rfl
        · rfl
        · exact fun disposed => absurd disposed gone
      · refine .inr ⟨_, ?_, ?_, ?_, there, ?_, .inr ⟨_, rfl⟩⟩
        · rfl
        · rfl
        · rfl
        · exact fun disposed => absurd disposed gone

theorem Inv.update (inv : Inv s) (nowMS : UInt64) : Inv (s.update b nowMS) := by
  rcases update_cases s b nowMS with same | ⟨p, buf, sent, handled, there, -, result⟩
  · rwa [same]
  have clean : Clean (s.update b nowMS) := by
    have mine : (s.update b nowMS).peers b = p := by
      rcases result with result | ⟨current, result⟩ <;> rw [result, peers_setPeer]
    have other : (s.update b nowMS).peers (!b) = s.peers (!b) := by
      rcases result with result | ⟨current, result⟩ <;> rw [result, peers_setPeer_not]
    refine both b (fun _ => ?_) ?_
    · rw [mine, buf]
      exact inv.clean b there
    · rw [other]
      exact inv.clean (!b)
  rcases result with result | ⟨current, result⟩
  · exact ⟨result ▸ inv.core.setPeer sent handled, clean⟩
  · have stepped : Core { s with session := s.session.step b (.update current) } := inv.core.quiet trivial trivial
    exact ⟨result ▸ stepped.setPeer sent handled, clean⟩

theorem Inv.step (inv : Inv s) {act : Act} (allowed : s.Allowed b act) (steps : s.step b act = some s') : Inv s' := by
  cases act with
  | call call =>
    cases steps
    exact ⟨inv.core.call call, inv.clean.keeps (call_keeps s b call)⟩
  | unpack i =>
    have steps : s.unpack b i = some s' := steps
    rcases inv.core.unpack_cases allowed.2 with same | taken
    · cases same.symm.trans steps
      exact inv
    · cases taken.symm.trans steps
      exact ⟨inv.core.quiet trivial allowed.2, inv.clean⟩
  | update nowMS =>
    cases steps
    exact inv.update nowMS
  | receive handlePack =>
    have steps : s.receive b handlePack = some s' := steps
    cases there : (s.peers b).disposed with
    | true =>
      unfold KcpPeers.receive at steps
      rw [if_pos there] at steps
      cases steps
    | false =>
      rcases inv.core.receive_cases inv.clean there handlePack with ⟨ended, same, -⟩ | ⟨body, -, fits, got, handed⟩
      · cases ended.symm.trans steps
        refine ⟨inv.core.ended same, both b ?_ ?_⟩
        · rw [KcpPeers.ended, peers_setPeer]
          exact inv.clean b
        · rw [KcpPeers.ended, peers_setPeer_not]
          exact inv.clean (!b)
      · cases handed.symm.trans steps
        exact ⟨inv.core.handed fits _ got, inv.clean.handed _ _⟩

theorem logs_perform {acts : List (Bool × Kcp.Act)} (quiet : ∀ act ∈ acts, Quiet act.2) (session : Kcp.Session) (c : Bool) :
    ((session.perform acts).ends c).sent = (session.ends c).sent ∧ ((session.perform acts).ends c).got = (session.ends c).got := by
  induction acts generalizing session with
  | nil => exact ⟨rfl, rfl⟩
  | cons act acts ih =>
    have first := logs_step (quiet act List.mem_cons_self) session act.1 c
    have rest := ih (fun act member => quiet act (List.mem_cons_of_mem _ member)) (session.step act.1 act.2)
    exact ⟨rest.1.trans first.1, rest.2.trans first.2⟩

theorem inv_start (conv : Kcp.Guid) (createMS : Bool → UInt64) : Inv (start conv createMS) := by
  have logs (c : Bool) := @logs_perform configuration (by decide) (Kcp.Session.start conv fun _ => 1400) c
  refine ⟨⟨(Kcp.Session.Run.start conv fun _ => 1400).perform ?_, fun c => (logs c).1, fun c => (logs c).2, fun _ _ member => ?_⟩,
    fun _ _ => rfl⟩
  · have fits : (128 : Int32).toInt ≤ Kcp.Session.windowLimit := by decide
    exact ⟨fits, trivial, trivial, fits, trivial, trivial, trivial⟩
  · cases member

theorem Run.inv (run : Run s) : Inv s := by
  induction run with
  | start conv createMS => exact inv_start conv createMS
  | step b act before allowed steps ih => exact ih.step allowed steps

/-! ## What a run guarantees -/

/-- Steps one after the other; `none` if one of them is not allowed or does not return. -/
def perform : KcpPeers → List (Bool × Act) → Option KcpPeers
  | s, [] => some s
  | s, (b, act) :: acts => if s.Allowed b act then (s.step b act).bind fun s => s.perform acts else none

theorem Run.perform (run : Run s) {acts : List (Bool × Act)} (performs : s.perform acts = some s') : Run s' := by
  induction acts generalizing s with
  | nil =>
    cases performs
    exact run
  | cons act acts ih =>
    rw [KcpPeers.perform] at performs
    split at performs
    · rename_i allowed
      obtain ⟨next, steps, rest⟩ := Option.bind_eq_some_iff.mp performs
      exact ih (run.step act.1 act.2 allowed steps) rest
    · cases performs

/-- `HandlePack` gets the packages that the other peer sent, in their order, each once and unchanged. -/
theorem Run.handled_isPrefix (run : Run s) (b : Bool) : (s.peers b).handled <+: (s.peers (!b)).sent.map Body.bytes := by
  have core := run.inv.core
  have messages := core.run.got_isPrefix b
  rw [core.got, core.sent] at messages
  have unframed := messages.map (List.drop 4)
  rwa [map_drop_framed, List.map_map] at unframed

def greeting : Body := ⟨[0, 7], by decide, by decide⟩

/-- A package is sent, its datagram arrives twice, and the handler answers. -/
def greeted : Option KcpPeers :=
  (start .zero fun _ => 0).perform
    [(false, .call (.sendPackage greeting)), (false, .update 10), (false, .receive fun _ => {}), (true, .unpack 0), (true, .unpack 0),
      (true, .update 20), (true, .receive fun _ => { calls := [.sendPackage greeting] })]

theorem greeted_isSome : greeted.isSome = true := by decide

theorem greeted_run : Run (greeted.get greeted_isSome) := (Run.start .zero fun _ => 0).perform (Option.some_get greeted_isSome).symm

theorem handled_isPrefix_greeted : ((greeted.get greeted_isSome).peers true).handled = [[0, 7]] ∧
    ((greeted.get greeted_isSome).peers true).handled <+: ((greeted.get greeted_isSome).peers false).sent.map Body.bytes :=
  ⟨by decide, greeted_run.handled_isPrefix true⟩

/-- A package that is longer than `recvBuf` is in the way of all that follow. -/
theorem Run.blocked (run : Run s) (b : Bool) {i : Nat} {body : Body} (sent : (s.peers (!b)).sent[i]? = some body)
    (long : recvBufSize < body.bytes.length + 4) : (s.peers b).handled.length ≤ i := by
  refine Nat.not_lt.mp fun further => ?_
  obtain ⟨rest, split⟩ := run.handled_isPrefix b
  have there : ((s.peers b).handled ++ rest)[i]? = some body.bytes := by
    rw [split, List.getElem?_map, sent]
    rfl
  rw [List.getElem?_append_left further] at there
  exact absurd (run.inv.core.fits b _ (List.mem_of_getElem? there)) (Nat.not_le.mpr long)

theorem Run.call (run : Run s) (b : Bool) (call : Call) : Run (s.call b call) := run.step b (.call call) trivial rfl

/-- `ikcp_send` takes packages of 127 fragments. -/
theorem Run.sendPackage_taken (run : Run s) (b : Bool) (body : Body) (there : (s.peers b).disposed = false)
    (fits : body.bytes.length + 4 ≤ 127 * (s.session.ends b).kcp.mss.toNat) :
    ((s.call b (.sendPackage body)).peers b).sent = (s.peers b).sent ++ [body] := by
  obtain ⟨conv, _, _, _, _, own, -⟩ := run.inv.core.run.paired b
  have few : Kcp.fragmentCount (s.session.ends b).kcp.mss.toNat (framed body.bytes).length < Kcp.ikcpWndRcv := by
    rw [Kcp.fragmentCount, length_framed, Kcp.ikcpWndRcv]
    split
    · decide
    · rw [Nat.div_lt_iff_lt_mul own.own.some]
      omega
  have taken : (ikcpSend (s.session.ends b).kcp (framed body.bytes)).1 = 0 := by
    rcases Kcp.send_eq own.own.stream (framed body.bytes) own.own.some with ⟨many, -⟩ | ⟨-, segs, -, result⟩
    · exact absurd few (Nat.not_lt.mpr many)
    · rw [result]
  rw [KcpPeers.call, if_neg (Bool.eq_false_iff.mp there), KcpPeers.sendPackage]
  dsimp only
  rw [if_pos taken, peers_setPeer]

/-- The shortest package that does not fit. -/
def overlong : Body where
  bytes := List.replicate 65533 0
  some := List.ne_nil_of_length_pos (by rw [List.length_replicate]; omega)
  small := by
    rw [List.length_replicate]
    omega

def obstructed : KcpPeers := (start .zero fun _ => 0).call false (.sendPackage overlong)

theorem obstructed_sent : (obstructed.peers (!true)).sent = [overlong] := by
  have size : overlong.bytes.length = 65533 := List.length_replicate
  have mss : ((start .zero fun _ => 0).session.ends false).kcp.mss.toNat = 1364 := by decide
  rw [Bool.not_true, obstructed, (Run.start .zero fun _ => 0).sendPackage_taken false overlong rfl (by rw [size, mss]; omega)]
  rfl

theorem blocked_overlong : (obstructed.peers true).handled.length ≤ 0 := by
  have run : Run obstructed := (Run.start .zero fun _ => 0).call false (.sendPackage overlong)
  have size : overlong.bytes.length = 65533 := List.length_replicate
  exact @Run.blocked obstructed run true 0 overlong (by rw [obstructed_sent]; rfl) (by rw [size, recvBufSize]; omega)

/-- What disposes of a peer. -/
def Cause (s : KcpPeers) (b : Bool) : Act → Prop
  | .call call => call = .dispose
  | .unpack _ => False
  | .update nowMS => (s.peers b).TimedOut nowMS
  | .receive handlePack => ∃ body, (s.peers (!b)).sent[(s.peers b).handled.length]? = some body ∧
      ((handlePack body.bytes).result ≠ 0 ∨ .dispose ∈ (handlePack body.bytes).calls)

theorem handed_disposes {bytes : List UInt8} {handling : Handling} (there : (s.peers b).disposed = false)
    (gone : ((s.handed b bytes handling).peers b).disposed = true) : handling.result ≠ 0 ∨ .dispose ∈ handling.calls := by
  by_cases fine : handling.result = 0
  · refine .inr (Classical.byContradiction fun none => ?_)
    have same := calls_disposes (s := s.taken b bytes handling) (b := b) none
    have before : ((s.taken b bytes handling).peers b).disposed = false := by
      rw [KcpPeers.taken, peers_setPeer]
      exact there
    unfold KcpPeers.handed at gone
    dsimp only at gone
    rw [if_neg (not_not.mpr fine), same, before] at gone
    cases gone
  · exact .inl fine

theorem Run.cause (run : Run s) {b : Bool} {act : Act} (allowed : s.Allowed b act) (steps : s.step b act = some s')
    (there : (s.peers b).disposed = false) (gone : (s'.peers b).disposed = true) : s.Cause b act := by
  have core := run.inv.core
  cases act with
  | call call =>
    cases steps
    refine Classical.byContradiction fun other => ?_
    rw [call_disposes other, there] at gone
    cases gone
  | unpack i =>
    have steps : s.unpack b i = some s' := steps
    rcases core.unpack_cases allowed.2 with same | same
    · cases same.symm.trans steps
      rw [there] at gone
      cases gone
    · cases same.symm.trans steps
      dsimp only at gone
      rw [there] at gone
      cases gone
  | update nowMS =>
    cases steps
    rcases update_cases s b nowMS with same | ⟨p, -, -, -, -, late, result⟩
    · rw [same, there] at gone
      cases gone
    · refine late ?_
      rcases result with result | ⟨current, result⟩ <;> rwa [result, peers_setPeer] at gone
  | receive handlePack =>
    rcases core.receive_cases run.inv.clean there handlePack with ⟨result, -, -⟩ | ⟨body, sent, -, -, result⟩
    · cases result.symm.trans steps
      rw [KcpPeers.ended, peers_setPeer] at gone
      exact absurd gone (Bool.eq_false_iff.mp there)
    · cases result.symm.trans steps
      exact ⟨body, sent, handed_disposes there gone⟩

/-- When the sender keeps nothing and no package is too long, `Update` hands on everything that was sent before its loop ends. -/
theorem Run.handled_eq_sent (run : Run s) {b : Bool} {handlePack : List UInt8 → Handling} (there : (s.peers b).disposed = false)
    (steps : s.step b (.receive handlePack) = some s') (ended : (s'.peers b).updating = false) (goes : (s'.peers b).disposed = false)
    (queue : (s.session.ends (!b)).kcp.sndQueue = []) (buf : (s.session.ends (!b)).kcp.sndBuf = [])
    (short : ∀ body ∈ (s.peers (!b)).sent, body.bytes.length + 4 ≤ recvBufSize) :
    (s'.peers b).handled = (s.peers (!b)).sent.map Body.bytes := by
  have core := run.inv.core
  have steps : s.receive b handlePack = some s' := steps
  rcases core.receive_cases run.inv.clean there handlePack with ⟨result, -, reason⟩ | ⟨body, -, -, -, result⟩
  · cases result.symm.trans steps
    have none : ikcpPeeksize (s.session.ends b).kcp < 0 := by
      refine reason.resolve_right fun long => ?_
      obtain ⟨message, sent, size, -⟩ := core.run.recv_next b (.inl (by omega))
      rw [core.sent, List.getElem?_map, Option.map_eq_some_iff] at sent
      obtain ⟨body, sent, rfl⟩ := sent
      have fits := short body (List.mem_of_getElem? sent)
      rw [size, length_framed] at long
      omega
    have all := core.run.got_eq_sent b queue buf none
    rw [core.got, core.sent] at all
    have unframed := congrArg (List.map (List.drop 4)) all
    rw [map_drop_framed, List.map_map] at unframed
    rw [KcpPeers.ended, peers_setPeer]
    exact unframed
  · cases result.symm.trans steps
    have keeps := calls_keeps (s.taken b body.bytes (handlePack body.bytes)) b (handlePack body.bytes).calls b
    unfold KcpPeers.handed at ended goes
    dsimp only at ended goes
    by_cases fine : (handlePack body.bytes).result = 0
    · rw [if_neg (not_not.mpr fine), keeps.updating, KcpPeers.taken, peers_setPeer] at ended
      exact absurd fine (of_decide_eq_false ended)
    · rw [if_pos fine, KcpPeers.dispose, peers_setPeer] at goes
      cases goes

/-- The package was handed on and acknowledged, and the loop of `Update` has one more round. -/
def settled : Option KcpPeers :=
  (start .zero fun _ => 0).perform
    [(false, .call (.sendPackage greeting)), (false, .update 10), (false, .receive fun _ => {}), (true, .unpack 0), (true, .update 20),
      (true, .receive fun _ => {}), (false, .unpack 0)]

theorem settled_isSome : settled.isSome = true := by decide

theorem settled_run : Run (settled.get settled_isSome) := (Run.start .zero fun _ => 0).perform (Option.some_get settled_isSome).symm

theorem settled_ends : ((settled.get settled_isSome).step true (.receive fun _ => {})).isSome = true := by decide

theorem handled_eq_sent_settled :
    ((((settled.get settled_isSome).step true (.receive fun _ => {})).get settled_ends).peers true).handled =
    ((settled.get settled_isSome).peers false).sent.map Body.bytes :=
  @Run.handled_eq_sent _ _ settled_run true (fun _ => {}) (by decide) (Option.some_get settled_ends).symm (by decide) (by decide)
    (by decide) (by decide) (by decide)

end

end KcpPeers

end Xxlib.Uv3
