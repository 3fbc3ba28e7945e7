import Xxlib.Uv4.Progress
import Xxlib.Uv4.UdpReceive
import Xxlib.Uv4.VarintCodec

/-! Which bytes `ReceiveImpl` takes a package to be made of (`xx_uv.cpp`).

The header tells the length of a package, the mask byte that of the address, and the serial number its own. Nothing
compares the three.
-/

set_option autoImplicit false

namespace Xxlib.Uv4

open Lib

/-! ## Regions -/

/-- `addrLen` -/
def addressLen (buf : List UInt8) (pkgOffset : Nat) : Nat :=
  if 0 < byteAt buf pkgOffset &&& 8 then (byteAt buf pkgOffset >>> 4) + 1 else 0

/-- Where the data begin behind header and address. -/
def dataStart (buf : List UInt8) (pkgOffset headerLen : Nat) : Nat :=
  size (size (pkgOffset + headerLen) + addressLen buf pkgOffset)

/-- The regions that an event is about, each from its first byte to the one behind it: the address, the serial number
and what is handed to the handler. `OnReceiveRouting` is told the length of the package. -/
def Event.regions (buf : List UInt8) (pkgOffset headerLen : Nat) : Event → List (Nat × Nat)
  | .package view => [(size (pkgOffset + headerLen), size (pkgOffset + headerLen) + addressLen buf pkgOffset),
      (view.offset, view.readLengthLimit)]
  | .request _ view | .callback _ view =>
      [(size (pkgOffset + headerLen), size (pkgOffset + headerLen) + addressLen buf pkgOffset),
        (dataStart buf pkgOffset headerLen, view.offset), (view.offset, view.readLengthLimit)]
  | .routing offset pkgLen addrOffset addrLen => [(addrOffset, addrOffset + addrLen), (offset, offset + pkgLen)]

/-- The package, whose end was compared with the end of the buffer, holds the regions. -/
def Event.Inside (buf : List UInt8) (pkgOffset headerLen dataLen : Nat) (event : Event) : Prop :=
  ∀ region ∈ event.regions buf pkgOffset headerLen,
    pkgOffset ≤ region.1 ∧ region.1 ≤ region.2 ∧ region.2 ≤ size (pkgOffset + headerLen + dataLen)

instance (buf : List UInt8) (pkgOffset headerLen dataLen : Nat) (event : Event) :
    Decidable (event.Inside buf pkgOffset headerLen dataLen) := by
  unfold Event.Inside
  infer_instance

/-- The bytes of the serial number, for a package that has one. -/
def serialLen (isReceiver : Bool) (buf : List UInt8) (pkgOffset headerLen : Nat) : Nat :=
  if 0 < byteAt buf pkgOffset &&& 8 ∧ isReceiver = false ∨ byteAt buf pkgOffset &&& 3 = 0 then 0
  else
    match varRead7 buf (dataStart buf pkgOffset headerLen) with
    | .ok (_, cursor) => cursor - dataStart buf pkgOffset headerLen
    | .error _ => 0

/-- The length is not negative, and is enough for the address and the serial number. -/
def Consistent (isReceiver : Bool) (buf : List UInt8) (pkgOffset headerLen dataLen : Nat) : Prop :=
  dataLen < 2 ^ 31 ∧ addressLen buf pkgOffset + serialLen isReceiver buf pkgOffset headerLen ≤ dataLen

/-! ## Runs -/

/-- The rounds that calls of `ReceiveImpl` come to, with the chunks that have arrived, `bbRecv`, the offset and
`senderAddress`. What the handlers do to the peer may differ from round to round. Only what goes into memory can
be received. -/
inductive Arrives : List (List UInt8) → List UInt8 → Nat → List UInt8 → Prop where
  | first (chunk sender : List UInt8) (room : chunk.length < 2 ^ 63) : Arrives [chunk] chunk 0 sender
  | next {chunks : List (List UInt8)} {buf sender sender' : List UInt8} {offset offset' : Nat} {events : List Event}
      {peer : Peer} (before : Arrives chunks buf offset sender)
      (step : round peer buf offset sender = .next offset' sender' events) : Arrives chunks buf offset' sender'
  | more {chunks : List (List UInt8)} {buf sender : List UInt8} {offset : Nat} {peer : Peer}
      (before : Arrives chunks buf offset sender) (done : round peer buf offset sender = .finish) (chunk : List UInt8)
      (room : (buf.drop offset ++ chunk).length < 2 ^ 63) : Arrives (chunks ++ [chunk]) (buf.drop offset ++ chunk) 0 sender
  | cleared {chunks : List (List UInt8)} {buf sender sender' : List UInt8} {offset : Nat} {peer : Peer} {event : Event}
      {events : List Event} (before : Arrives chunks buf offset sender)
      (left : round peer buf offset sender = .leave sender' (event :: events)) (chunk : List UInt8)
      (room : chunk.length < 2 ^ 63) : Arrives (chunks ++ [chunk]) chunk 0 sender'

/-- A call of a handler for the package at `pkgOffset`. -/
structure Fires (chunks : List (List UInt8)) (peer : Peer) (buf : List UInt8) (pkgOffset headerLen dataLen : Nat)
    (sender : List UInt8) (event : Event) : Prop where
  arrives : Arrives chunks buf pkgOffset sender
  header : readHeader buf pkgOffset = .whole headerLen dataLen
  fired : event ∈ (dispatch peer buf pkgOffset headerLen dataLen sender).2.2

section
variable {chunks : List (List UInt8)} {peer : Peer} {buf sender : List UInt8} {offset headerLen dataLen : Nat}

theorem round_next_inside {offset' : Nat} {sender' : List UInt8} {events : List Event} (small : buf.length < 2 ^ 63)
    (inside : offset ≤ buf.length) (step : round peer buf offset sender = .next offset' sender' events) :
    offset' ≤ buf.length := by
  obtain ⟨headerLen, dataLen, header, -, rfl⟩ := (round_next_iff peer buf offset offset').mp ⟨sender, sender', events, step⟩
  rcases readHeader_whole small inside header with ⟨rfl, -, -, fits⟩ | ⟨rfl, -, -, room, -, fits⟩
  · unfold size
    omega
  · unfold size at fits ⊢
    omega

theorem Arrives.inside (arrives : Arrives chunks buf offset sender) : buf.length < 2 ^ 63 ∧ offset ≤ buf.length := by
  induction arrives with
  | first chunk sender room => exact ⟨room, Nat.zero_le _⟩
  | next before step ih => exact ⟨ih.1, round_next_inside ih.1 ih.2 step⟩
  | more before done chunk room ih => exact ⟨room, Nat.zero_le _⟩
  | cleared before left chunk room ih => exact ⟨room, Nat.zero_le _⟩

/-! ## Calls for chunks -/

theorem round_events {sender' : List UInt8} {events : List Event} {event : Event} (offset' : Nat)
    (turn : round peer buf offset sender = .leave sender' events ∨ round peer buf offset sender = .next offset' sender' events)
    (member : event ∈ events) : ∃ headerLen dataLen, readHeader buf offset = .whole headerLen dataLen ∧
      event ∈ (dispatch peer buf offset headerLen dataLen sender).2.2 := by
  unfold Uv4.round at turn
  cases header : readHeader buf offset with
  | short =>
    simp only [header] at turn
    rcases turn with turn | turn <;> cases turn
  | invalid =>
    simp only [header] at turn
    rcases turn with turn | turn <;> cases turn
    exact absurd member List.not_mem_nil
  | whole headerLen dataLen =>
    refine ⟨headerLen, dataLen, rfl, ?_⟩
    simp only [header] at turn
    split at turn
    · rename_i sent fired dispatched
      rcases turn with turn | turn <;> cases turn
      rw [dispatched]
      exact member
    · rename_i sent fired dispatched
      rcases turn with turn | turn <;> cases turn
      rw [dispatched]
      exact member

section
variable {events : List Event} {left : Option (List UInt8)} {sender' rest : List UInt8}

/-- A call brings no other events than those of its rounds. -/
theorem Receives.fires (receives : Receives peer buf offset sender events left sender')
    (arrives : Arrives chunks buf offset sender) : ∀ event ∈ events, ∃ pkgOffset headerLen dataLen sender,
      Fires chunks peer buf pkgOffset headerLen dataLen sender event := by
  induction receives with
  | finish turn => exact fun _ member => absurd member List.not_mem_nil
  | closed turn => exact fun _ member => absurd member List.not_mem_nil
  | cleared turn =>
    intro event member
    obtain ⟨headerLen, dataLen, header, fired⟩ := round_events 0 (.inl turn) member
    exact ⟨_, headerLen, dataLen, _, arrives, header, fired⟩
  | next turn rest ih =>
    intro event member
    rcases List.mem_append.mp member with now | later
    · obtain ⟨headerLen, dataLen, header, fired⟩ := round_events _ (.inr turn) now
      exact ⟨_, headerLen, dataLen, _, arrives, header, fired⟩
    · exact ih (arrives.next turn) event later

theorem Receives.arrives (receives : Receives peer buf offset sender events (some rest) sender')
    (arrives : Arrives chunks buf offset sender) (chunk : List UInt8) (room : (rest ++ chunk).length < 2 ^ 63) :
    Arrives (chunks ++ [chunk]) (rest ++ chunk) 0 sender' := by
  generalize same : some rest = left at receives
  induction receives with
  | finish turn =>
    cases same
    exact arrives.more turn chunk room
  | closed turn => cases same
  | cleared turn =>
    cases same
    exact arrives.cleared turn chunk room
  | next turn later ih => exact ih (arrives.next turn) same

theorem Receives.left_length (receives : Receives peer buf offset sender events (some rest) sender') :
    rest.length ≤ buf.length := by
  generalize same : some rest = left at receives
  induction receives with
  | finish turn =>
    cases same
    rw [List.length_drop]
    exact Nat.sub_le _ _
  | closed turn => cases same
  | cleared turn =>
    cases same
    exact Nat.zero_le _
  | next turn later ih => exact ih same

/-- `before` has been received, and what is left of it is in `bbRecv`. -/
theorem ReceivesAll.fires {bbRecv : List UInt8} (all : ReceivesAll peer bbRecv sender chunks events left)
    {before : List (List UInt8)}
    (arrives : ∀ chunk, (bbRecv ++ chunk).length < 2 ^ 63 → Arrives (before ++ [chunk]) (bbRecv ++ chunk) 0 sender)
    (room : bbRecv.length + chunks.flatten.length < 2 ^ 63) : ∀ event ∈ events, ∃ received, received <+: before ++ chunks ∧
      ∃ buf pkgOffset headerLen dataLen sender, Fires received peer buf pkgOffset headerLen dataLen sender event := by
  induction all generalizing before with
  | nil => exact fun _ member => absurd member List.not_mem_nil
  | @closed bbRecv sender sender' chunk chunks events call =>
    intro event member
    rw [List.flatten_cons, List.length_append] at room
    have here := arrives chunk (by rw [List.length_append]; omega)
    obtain ⟨pkgOffset, headerLen, dataLen, sender, fires⟩ := call.fires here event member
    exact ⟨_, ⟨chunks, by simp⟩, _, pkgOffset, headerLen, dataLen, sender, fires⟩
  | @cons bbRecv bbRecv' sender sender' chunk chunks events events' left call rest ih =>
    intro event member
    rw [List.flatten_cons, List.length_append] at room
    have here := arrives chunk (by rw [List.length_append]; omega)
    rcases List.mem_append.mp member with now | later
    · obtain ⟨pkgOffset, headerLen, dataLen, sender, fires⟩ := call.fires here event now
      exact ⟨_, ⟨chunks, by simp⟩, _, pkgOffset, headerLen, dataLen, sender, fires⟩
    · have shorter := call.left_length
      rw [List.length_append] at shorter
      obtain ⟨received, grown, found⟩ := ih (call.arrives here) (by omega) event later
      refine ⟨received, ?_, found⟩
      rwa [List.append_assoc, List.singleton_append] at grown

end

/-- The events of `ReceiveImpl` for a sequence of chunks are those of the rounds that the chunks lead to. -/
theorem receivesAll_fires {events : List Event} {left : Option (List UInt8)}
    (all : ReceivesAll peer [] sender chunks events left) (room : chunks.flatten.length < 2 ^ 63) :
    ∀ event ∈ events, ∃ received, received <+: chunks ∧ ∃ buf pkgOffset headerLen dataLen sender,
      Fires received peer buf pkgOffset headerLen dataLen sender event := by
  have starts (chunk : List UInt8) (small : ([] ++ chunk).length < 2 ^ 63) :
      Arrives ([] ++ [chunk]) ([] ++ chunk) 0 sender := .first chunk sender small
  exact all.fires starts (by simpa using room)

/-! ## Where a package ends -/

/-- A length that is not negative ends the package within the buffer, a negative one before its data. -/
theorem header_end (small : buf.length < 2 ^ 63) (inside : offset ≤ buf.length)
    (header : readHeader buf offset = .whole headerLen dataLen) :
    headerLen ≤ 5 ∧ offset + headerLen ≤ buf.length ∧
      (dataLen < 2 ^ 31 ∧ size (offset + headerLen + dataLen) = offset + headerLen + dataLen ∧
          offset + headerLen + dataLen ≤ buf.length ∨
        ¬ dataLen < 2 ^ 31 ∧ size (offset + headerLen + dataLen) < offset + headerLen) := by
  rcases readHeader_whole small inside header with ⟨rfl, length, -, fits⟩ | ⟨rfl, length, -, room, -, fits⟩
  · have short := shortLen_lt buf offset
    refine ⟨by decide, by omega, .inl ⟨by omega, ?_, fits⟩⟩
    exact Nat.mod_eq_of_lt (by omega)
  · have limit := lengthWord_lt buf offset
    have value := bigLen_eq buf offset
    refine ⟨by decide, room, ?_⟩
    unfold size at fits ⊢
    by_cases plain : lengthWord buf offset < 2 ^ 31
    · rw [if_pos plain] at value
      omega
    · rw [if_neg plain] at value
      omega

/-- The handlers that are called, with what they are given. -/
inductive Handled (isReceiver : Bool) (buf : List UInt8) (pkgOffset headerLen dataLen : Nat) : Event → Prop where
  | routing (routed : 0 < byteAt buf pkgOffset &&& 8 ∧ isReceiver = false) :
      Handled isReceiver buf pkgOffset headerLen dataLen
        (.routing pkgOffset (sizeOfInt (size (pkgOffset + headerLen) + dataLen - pkgOffset)) (size (pkgOffset + headerLen))
          (addressLen buf pkgOffset))
  | package (direct : ¬ (0 < byteAt buf pkgOffset &&& 8 ∧ isReceiver = false)) (type : byteAt buf pkgOffset &&& 3 = 0)
      (sender : List UInt8) : Handled isReceiver buf pkgOffset headerLen dataLen
        (.package ⟨dataStart buf pkgOffset headerLen, pkgOffset, size (size (pkgOffset + headerLen) + dataLen), sender⟩)
  | request (direct : ¬ (0 < byteAt buf pkgOffset &&& 8 ∧ isReceiver = false)) (type : ¬ byteAt buf pkgOffset &&& 3 = 0)
      (serial cursor : Nat) (read : varRead7 buf (dataStart buf pkgOffset headerLen) = .ok (serial, cursor))
      (sender : List UInt8) : Handled isReceiver buf pkgOffset headerLen dataLen
        (.request serial ⟨cursor, pkgOffset, size (size (pkgOffset + headerLen) + dataLen), sender⟩)
  | callback (direct : ¬ (0 < byteAt buf pkgOffset &&& 8 ∧ isReceiver = false)) (type : ¬ byteAt buf pkgOffset &&& 3 = 0)
      (serial cursor : Nat) (read : varRead7 buf (dataStart buf pkgOffset headerLen) = .ok (serial, cursor))
      (sender : List UInt8) : Handled isReceiver buf pkgOffset headerLen dataLen
        (.callback serial ⟨cursor, pkgOffset, size (size (pkgOffset + headerLen) + dataLen), sender⟩)

theorem addressLen_le (buf : List UInt8) (offset : Nat) : addressLen buf offset ≤ 16 := by
  have byte := byteAt_lt buf offset
  unfold addressLen
  split
  · rw [Nat.shiftRight_eq_div_pow]
    omega
  · exact Nat.zero_le _

/-- The data begin behind header and address. -/
theorem dataStart_eq (small : buf.length < 2 ^ 63) (room : offset + headerLen ≤ buf.length) :
    size (offset + headerLen) = offset + headerLen ∧
      dataStart buf offset headerLen = offset + headerLen + addressLen buf offset := by
  have address := addressLen_le buf offset
  have header : size (offset + headerLen) = offset + headerLen := Nat.mod_eq_of_lt (by omega)
  refine ⟨header, ?_⟩
  unfold dataStart
  rw [header]
  exact Nat.mod_eq_of_lt (by omega)

theorem Handled.address_mem {isReceiver : Bool} {event : Event}
    (handled : Handled isReceiver buf offset headerLen dataLen event) :
    (size (offset + headerLen), size (offset + headerLen) + addressLen buf offset) ∈ event.regions buf offset headerLen := by
  cases handled <;> exact List.mem_cons_self

/-- With a serial number, three regions follow each other. -/
theorem serial_inside_iff {isReceiver : Bool} {serial cursor : Nat} (start : size (offset + headerLen) = offset + headerLen)
    (data : dataStart buf offset headerLen = offset + headerLen + addressLen buf offset)
    (last : size (offset + headerLen + dataLen) = offset + headerLen + dataLen)
    (direct : ¬ (0 < byteAt buf offset &&& 8 ∧ isReceiver = false)) (type : ¬ byteAt buf offset &&& 3 = 0)
    (read : varRead7 buf (dataStart buf offset headerLen) = .ok (serial, cursor)) :
    (∀ region ∈ [(size (offset + headerLen), size (offset + headerLen) + addressLen buf offset),
        (dataStart buf offset headerLen, cursor), (cursor, size (size (offset + headerLen) + dataLen))],
      offset ≤ region.1 ∧ region.1 ≤ region.2 ∧ region.2 ≤ size (offset + headerLen + dataLen)) ↔
    addressLen buf offset + serialLen isReceiver buf offset headerLen ≤ dataLen := by
  have later : dataStart buf offset headerLen < cursor := (Width.readList_ok (w := .w32) read).1
  have length : serialLen isReceiver buf offset headerLen = cursor - dataStart buf offset headerLen := by
    unfold serialLen
    rw [if_neg fun none => none.elim direct type, read]
  rw [length]
  simp only [start, data, last, List.forall_mem_cons, List.not_mem_nil, false_implies, implies_true, and_true] at later ⊢
  omega

/-- An event needs the address, the serial number and what follows to be within the length. -/
theorem Handled.inside_iff {isReceiver : Bool} {event : Event} (small : buf.length < 2 ^ 63) (inside : offset ≤ buf.length)
    (header : readHeader buf offset = .whole headerLen dataLen)
    (handled : Handled isReceiver buf offset headerLen dataLen event) :
    event.Inside buf offset headerLen dataLen ↔ Consistent isReceiver buf offset headerLen dataLen := by
  obtain ⟨-, room, ended⟩ := header_end small inside header
  obtain ⟨start, data⟩ := dataStart_eq small room
  unfold Consistent
  rcases ended with ⟨plain, last, bound⟩ | ⟨negative, before⟩
  · rw [and_iff_right plain]
    cases handled with
    | routing routed =>
      have none : serialLen isReceiver buf offset headerLen = 0 := if_pos (.inl routed)
      have length : sizeOfInt (offset + headerLen + dataLen - offset : Int) = headerLen + dataLen := by
        unfold sizeOfInt
        omega
      simp only [Event.Inside, Event.regions, none, start, last, List.forall_mem_cons, List.not_mem_nil, false_implies,
        implies_true, and_true]
      push_cast
      rw [length]
      omega
    | package direct type sender =>
      have none : serialLen isReceiver buf offset headerLen = 0 := if_pos (.inr type)
      simp only [Event.Inside, Event.regions, none, start, data, last, List.forall_mem_cons, List.not_mem_nil,
        false_implies, implies_true, and_true]
      omega
    | request direct type serial cursor read sender => exact serial_inside_iff start data last direct type read
    | callback direct type serial cursor read sender => exact serial_inside_iff start data last direct type read
  · -- a package of negative length ends before the address could begin
    refine ⟨fun within => ?_, fun consistent => absurd consistent.1 negative⟩
    have address := within _ handled.address_mem
    rw [start] at address
    dsimp only at address
    omega

end

end Xxlib.Uv4
