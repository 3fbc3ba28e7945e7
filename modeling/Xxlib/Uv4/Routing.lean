import Xxlib.Uv4.Delivery

/-! The router: `SendRoutingByRouter` (`xx_uv.cpp`).

A package with an address is sent on with the address of its sender. If both addresses have the
same length the package is changed in place, else it is built anew. The bytes of the buffers are
read as signed characters.
-/

set_option autoImplicit false

namespace Xxlib.Uv4

open Lib

/-! ## Memory -/

/-- `memcpy` to `dst + at`, of bytes that `slice` gave. There is no result if the target is too small. -/
def copyTo (dst : List UInt8) (at' : Nat) (bytes : List UInt8) : Option (List UInt8) :=
  if at' + bytes.length ≤ dst.length then some (dst.take at' ++ bytes ++ dst.drop (at' + bytes.length)) else none

/-- The `length` bytes at `src + at`. -/
def slice (src : List UInt8) (at' length : Nat) : Option (List UInt8) :=
  if at' + length ≤ src.length then some ((src.drop at').take length) else none

/-- A `char` as an `int`. -/
def charAt (buf : List UInt8) (i : Nat) : Int := (byteAt buf i : Int).bmod (2 ^ 8)

/-! ## The router -/

/-- `addr_serial_data_len`, from the package at `p2`. -/
def routedLen (bb : List UInt8) (p2 : Nat) (isBig : Bool) : Nat :=
  let low := charAt bb (p2 + 1) + charAt bb (p2 + 2) * 2 ^ 8
  if isBig then sizeOfInt (low + charAt bb (p2 + 3) * 2 ^ 16 + charAt bb (p2 + 4) * 2 ^ 24) else sizeOfInt low

/-- The first bytes of the new package. -/
def routedHeader (mask len : Nat) (isBig : Bool) : List UInt8 :=
  if isBig then
    [UInt8.ofNat (mask ||| 0b00000100), UInt8.ofNat len, UInt8.ofNat (len >>> 8), UInt8.ofNat (len >>> 16),
      UInt8.ofNat (len >>> 24)]
  else [UInt8.ofNat (mask &&& 0b11111011), UInt8.ofNat len, UInt8.ofNat (len >>> 8)]

/-- The package is built in `bbSend`, whose block has room for `newPkgLen` bytes at least. -/
def rebuild (bb bbSend : List UInt8) (offset pkgLen addrLen : Nat) (senderAddr : List UInt8) :
    Option (List UInt8) := do
  let newPkgLen := sizeOfInt ((pkgLen : Int) - addrLen + senderAddr.length)
  let isBig : Bool := (byteAt bb offset &&& 4) ≠ 0
  let serialDataLen := sizeOfInt ((routedLen bb offset isBig : Int) - addrLen)
  let newLen := size (serialDataLen + senderAddr.length)
  let isBig := isBig || 65535 < newLen
  let headerLen := headerSize isBig
  let p1 ← copyTo bbSend 0 (routedHeader (byteAt bb offset) newLen isBig)
  let p1 ← copyTo p1 headerLen senderAddr
  let p1 ← copyTo p1 (headerLen + senderAddr.length) (← slice bb (offset + headerLen + addrLen) serialDataLen)
  slice p1 0 newPkgLen

/-- The bytes that are passed to `SendBytes`. `bb` and `bbSend` are the blocks of the two buffers. -/
def sendRoutingByRouter (bb bbSend : List UInt8) (offset pkgLen addrOffset addrLen : Nat) (senderAddr : List UInt8) :
    Option (List UInt8) :=
  if senderAddr.length = addrLen then do
    let bb ← copyTo bb addrOffset senderAddr
    slice bb offset pkgLen
  else rebuild bb bbSend offset pkgLen addrLen senderAddr

/-- A connected peer without a routing address. -/
def router : Peer := ⟨false, false⟩

/-! ## What the router is told -/

section
variable {m : Message} {buf tail : List UInt8} {offset : Nat} {big : Bool}

/-- The arguments of `OnReceiveRouting`. -/
theorem Message.round_router (fits : m.Fits) (form : big = true ∨ m.data.length ≤ 65535)
    (addressed : m.address.length ≠ 0) (small : buf.length < 2 ^ 63)
    (shape : buf.drop offset = m.framed big ++ tail) (sender : List UInt8) :
    Uv4.round router buf offset sender = .next (offset + (m.framed big).length) sender
      [.routing offset (m.framed big).length (offset + headerSize big) m.address.length] := by
  have header := m.headerAt fits form small shape
  obtain ⟨-, -, routed, addrLen, -⟩ := m.mask_bits fits big
  have whole := header.whole
  have start : size (offset + headerSize big) = offset + headerSize big := Nat.mod_eq_of_lt (by omega)
  have next : size (offset + headerSize big + m.data.length) = offset + (m.framed big).length := by
    rw [m.framed_length, ← Nat.add_assoc]
    exact Nat.mod_eq_of_lt (by omega)
  have length : sizeOfInt ((offset + headerSize big : Nat) + (m.data.length : Int) - offset) =
      (m.framed big).length := by
    rw [m.framed_length]
    unfold sizeOfInt
    omega
  unfold Uv4.round
  simp only [header.read, dispatch, header.typeId, start, routed.mpr addressed, router, true_and, ↓reduceIte,
    addrLen addressed, length, next, Bool.not_false]

end

/-! ## Packages that are changed in place -/

theorem copyTo_middle (front old back new : List UInt8) (same : new.length = old.length) :
    copyTo (front ++ (old ++ back)) front.length new = some (front ++ (new ++ back)) := by
  unfold copyTo
  rw [if_pos (by simp only [List.length_append]; omega), List.take_left, same, ← List.drop_drop, List.drop_left,
    List.drop_left, List.append_assoc]

theorem slice_middle (front middle back : List UInt8) :
    slice (front ++ (middle ++ back)) front.length middle.length = some middle := by
  unfold slice
  rw [if_pos (by simp only [List.length_append]; omega), List.drop_left, List.take_left]

/-- The header of a message says nothing about its address but the length. -/
theorem Message.framed_readdressed (m : Message) (big : Bool) : ∃ header : List UInt8,
    header.length = headerSize big ∧ ∀ address : List UInt8, address.length = m.address.length →
      Message.framed { m with address := address } big = header ++ (address ++ (m.kind.serialBytes ++ m.payload)) := by
  have parts : ∀ address : List UInt8, address.length = m.address.length →
      (Message.data { m with address := address }).length = m.data.length := by
    intro address same
    simp [Message.data, same]
  refine ⟨(m.framed big).take (headerSize big), ?_, fun address same => ?_⟩
  · rw [List.length_take, m.framed_length]
    omega
  · have length := parts address same
    cases big with
    | true =>
      simp only [Message.framed, ↓reduceIte, length, same]
      rfl
    | false =>
      simp only [Message.framed, Bool.false_eq_true, ↓reduceIte, length, same]
      rfl

section
variable {m : Message} {big : Bool}

theorem Message.sent_in_place (m : Message) (big : Bool) (before after bbSend sender : List UInt8)
    (same : sender.length = m.address.length) :
    sendRoutingByRouter (before ++ (m.framed big ++ after)) bbSend before.length (m.framed big).length
      (before.length + headerSize big) m.address.length sender =
        some (Message.framed { m with address := sender } big) := by
  obtain ⟨header, size, framed⟩ := m.framed_readdressed big
  have old : m.framed big = header ++ (m.address ++ (m.kind.serialBytes ++ m.payload)) := framed m.address rfl
  have new := framed sender same
  have length : (m.framed big).length = (Message.framed { m with address := sender } big).length := by
    rw [old, new]
    simp [same]
  have changed : copyTo (before ++ (m.framed big ++ after)) (before.length + headerSize big) sender =
      some (before ++ (Message.framed { m with address := sender } big ++ after)) := by
    have middle := copyTo_middle (before ++ header) m.address (m.kind.serialBytes ++ m.payload ++ after) sender same
    rw [List.length_append, size] at middle
    rw [old, new]
    simpa only [List.append_assoc] using middle
  unfold sendRoutingByRouter
  rw [if_pos same, changed, length]
  exact slice_middle before _ after

/-- A message behind either header is received as the only one. -/
theorem Message.receive_framed (fits : m.Fits) (form : big = true ∨ m.data.length ≤ 65535) (old : List UInt8)
    {fuel : Nat} (enough : 2 ≤ fuel) : ∃ event,
    receiveImpl receiver fuel [] old (m.framed big) = some ⟨[event], some [], m.address⟩ ∧
      event.message (m.framed big) = some m := by
  have most := fits.most
  have length := m.framed_length big
  have header : headerSize big ≤ 5 := by
    unfold headerSize
    split <;> omega
  have small : (m.framed big).length < 2 ^ 63 := by omega
  have shape : (m.framed big).drop 0 = m.framed big ++ [] := by simp
  have headerAt := m.headerAt fits form small shape
  obtain ⟨event, dispatched, same⟩ := headerAt.dispatch fits small old
  obtain ⟨more, rfl⟩ : ∃ more, fuel = more + 2 := ⟨fuel - 2, by omega⟩
  have place : size (size (0 + headerSize big) + m.data.length) = (m.framed big).length := by
    unfold size
    omega
  have ended : readHeader (m.framed big) (m.framed big).length = .short := by
    unfold readHeader size
    rw [if_neg (by omega)]
  refine ⟨event, ?_, same⟩
  simp only [receiveImpl, List.nil_append, receiveLoop, Uv4.round, headerAt.read, dispatched, place, ended,
    Option.map_some, List.drop_length, List.append_nil]

end

/-! ## Packages that are built anew -/

section
variable {dst dst' bytes : List UInt8} {at' i : Nat}

theorem copyTo_before (copied : copyTo dst at' bytes = some dst') (before : i < at') :
    byteAt dst' i = byteAt dst i := by
  unfold copyTo at copied
  split at copied
  · next room =>
    cases copied
    rw [List.append_assoc, byteAt_append (by rw [List.length_take]; omega)]
    conv_rhs => rw [← List.take_append_drop at' dst]
    rw [byteAt_append (by rw [List.length_take]; omega)]
  · cases copied

theorem copyTo_first (copied : copyTo dst 0 bytes = some dst') (inside : i < bytes.length) :
    byteAt dst' i = byteAt bytes i := by
  unfold copyTo at copied
  split at copied
  · cases copied
    rw [List.take_zero, List.nil_append, byteAt_append inside]
  · cases copied

theorem slice_byteAt {src : List UInt8} {length : Nat} (sliced : slice src 0 length = some bytes)
    (inside : i < length) : byteAt bytes i = byteAt src i := by
  unfold slice at sliced
  split at sliced
  · next room =>
    cases sliced
    rw [List.drop_zero]
    conv_rhs => rw [← List.take_append_drop length src]
    rw [byteAt_append (by rw [List.length_take]; omega)]
  · cases sliced

end

/-- The flag of big packages apart, the new mask byte is the old one. -/
theorem mask_kept : ∀ (type : Fin 3) (big big' : Bool) (addrLen : Fin 17), addrLen.val ≠ 0 →
    let kept := byteAt (routedHeader (mask type big addrLen) 0 big') 0
    0 < kept &&& 8 ∧ kept >>> 4 + 1 = addrLen ∧ kept &&& 3 ≠ 3 := by
  decide +kernel

/-- The address of what is built has the length it had before, as far as the mask byte goes. -/
theorem Message.rebuilt {m : Message} (fits : m.Fits) (addressed : m.address.length ≠ 0) {big : Bool}
    {bb bbSend sender bytes : List UInt8} {offset pkgLen : Nat}
    (typeId : byteAt bb offset = mask m.kind.type big m.address.length) (long : m.address.length < pkgLen)
    (small : pkgLen + sender.length < 2 ^ 64)
    (sent : rebuild bb bbSend offset pkgLen m.address.length sender = some bytes) :
    0 < byteAt bytes 0 &&& 8 ∧ byteAt bytes 0 >>> 4 + 1 = m.address.length ∧ byteAt bytes 0 &&& 3 ≠ 3 := by
  unfold rebuild at sent
  simp only [Option.bind_eq_bind, Option.bind_eq_some_iff] at sent
  obtain ⟨p1, first, p2, second, tail, -, p3, third, sliced⟩ := sent
  have positive : ∀ isBig, 0 < headerSize isBig := by decide
  have head : ∀ (kept len : Nat) (isBig : Bool), 0 < (routedHeader kept len isBig).length ∧
      byteAt (routedHeader kept len isBig) 0 = byteAt (routedHeader kept 0 isBig) 0 := by
    intro kept len isBig
    cases isBig <;> exact ⟨Nat.succ_pos _, rfl⟩
  have length : 0 < sizeOfInt ((pkgLen : Int) - m.address.length + sender.length) := by
    unfold sizeOfInt
    omega
  rw [slice_byteAt sliced length, copyTo_before third (Nat.add_pos_left (positive _) _),
    copyTo_before second (positive _), copyTo_first first (head _ _ _).1, (head _ _ _).2, typeId]
  exact mask_kept ⟨m.kind.type, type_lt m.kind⟩ big _ ⟨m.address.length, Nat.lt_succ_of_le fits.address⟩ addressed

/-- The address that a handler sees has the length that the mask byte says. -/
theorem View.address_length {view : View} {kind : Kind} {buf : List UInt8} {m : Message} {at' addrLen : Nat}
    (seen : view.message kind buf = some m) (sender : view.senderAddress = (buf.drop at').take addrLen)
    (behind : at' + addrLen ≤ view.offset ∨ at' + addrLen ≤ buf.length) : m.address.length = addrLen := by
  unfold View.message at seen
  split at seen
  · cases seen
    rw [sender, List.length_take, List.length_drop]
    omega
  · cases seen

theorem varRead7_inside {buf : List UInt8} {offset serial cursor : Nat}
    (read : varRead7 buf offset = .ok (serial, cursor)) : offset < buf.length := by
  unfold varRead7 at read
  split at read
  · cases read
  · omega

theorem dispatch_address {buf sender sender' : List UInt8} {headerLen dataLen : Nat} {events : List Event}
    (five : headerLen ≤ 5) (routed : 0 < byteAt buf 0 &&& 8) (type : byteAt buf 0 &&& 3 ≠ 3)
    (ran : dispatch receiver buf 0 headerLen dataLen sender = (true, sender', events)) :
    ∃ event, events = [event] ∧ ∀ m, event.message buf = some m → m.address.length = byteAt buf 0 >>> 4 + 1 := by
  have nibble : byteAt buf 0 >>> 4 < 2 ^ 4 := by
    rw [Nat.shiftRight_eq_div_pow]
    have byte := byteAt_lt buf 0
    omega
  have offset : size (0 + headerLen) = headerLen := by
    unfold size
    omega
  have start : size (headerLen + (byteAt buf 0 >>> 4 + 1)) = headerLen + (byteAt buf 0 >>> 4 + 1) := by
    unfold size
    omega
  unfold dispatch at ran
  simp only [offset, routed, receiver, Bool.true_eq_false, and_false, ↓reduceIte, start, Bool.not_false] at ran
  by_cases package : byteAt buf 0 &&& 3 = 0
  · rw [if_pos package] at ran
    cases ran
    exact ⟨_, rfl, fun m seen => View.address_length seen rfl (.inl (Nat.le_refl _))⟩
  · rw [if_neg package] at ran
    split at ran
    · cases ran
    · next serial cursor read =>
      have inside := varRead7_inside read
      split at ran
      · cases ran
        exact ⟨_, rfl, fun m seen => View.address_length seen rfl (.inr (by omega))⟩
      · split at ran
        · cases ran
          exact ⟨_, rfl, fun m seen => View.address_length seen rfl (.inr (by omega))⟩
        · have bits : byteAt buf 0 &&& 3 < 2 ^ 2 := Nat.and_lt_two_pow _ (by decide)
          omega

/-- If a receiver sees one message in `bytes`, the mask byte tells the length of its address. -/
theorem receive_address {bytes old left sender : List UInt8} {fuel : Nat} {event : Event} {m : Message}
    (small : bytes.length < 2 ^ 63) (routed : 0 < byteAt bytes 0 &&& 8) (type : byteAt bytes 0 &&& 3 ≠ 3)
    (ran : receiveImpl receiver fuel [] old bytes = some ⟨[event], some left, sender⟩)
    (seen : event.message bytes = some m) : m.address.length = byteAt bytes 0 >>> 4 + 1 := by
  cases fuel with
  | zero => cases ran
  | succ fuel =>
    rw [receiveImpl, List.nil_append, receiveLoop] at ran
    unfold Uv4.round at ran
    cases header : readHeader bytes 0 with
    | short =>
      rw [header] at ran
      cases ran
    | invalid =>
      rw [header] at ran
      cases ran
    | whole headerLen dataLen =>
      rw [header] at ran
      cases dispatched : dispatch receiver bytes 0 headerLen dataLen old with
      | mk goesOn rest =>
        obtain ⟨sender', events⟩ := rest
        simp only [dispatched] at ran
        cases goesOn with
        | false => cases ran
        | true =>
          simp only [Option.map_eq_some_iff, Received.mk.injEq] at ran
          obtain ⟨later, -, same, -, -⟩ := ran
          have five : headerLen ≤ 5 := by
            rcases readHeader_whole small (Nat.zero_le _) header with ⟨three, -⟩ | ⟨five, -⟩ <;> omega
          obtain ⟨first, rfl, address⟩ := dispatch_address five routed type dispatched
          obtain ⟨rfl, -⟩ := List.cons.inj same
          exact address m seen

/-- What is sent is one package, and a receiver takes it for the message `m` from `sender`. -/
def Transparent (m : Message) (sender : List UInt8) (sent : Option (List UInt8)) : Prop :=
  ∃ bytes, sent = some bytes ∧ ∀ fuel, 2 ≤ fuel → ∀ old, ∃ event,
    receiveImpl receiver fuel [] old bytes = some ⟨[event], some [], sender⟩ ∧
      event.message bytes = some { m with address := sender }

theorem rebuild_length {bb bbSend sender bytes : List UInt8} {offset pkgLen addrLen : Nat}
    (sent : rebuild bb bbSend offset pkgLen addrLen sender = some bytes) :
    bytes.length ≤ sizeOfInt ((pkgLen : Int) - addrLen + sender.length) := by
  unfold rebuild at sent
  simp only [Option.bind_eq_bind, Option.bind_eq_some_iff] at sent
  obtain ⟨-, -, -, -, -, -, p3, -, sliced⟩ := sent
  unfold slice at sliced
  split at sliced
  · cases sliced
    rw [List.length_take]
    exact Nat.min_le_left _ _
  · cases sliced

/-- The router passes a message on if and only if the addresses have the same length: what it builds anew
has the mask byte of the old address. -/
theorem routing_transparent_iff (m : Message) (big : Bool) (form : big = true ∨ m.data.length ≤ 65535)
    (addressed : 1 ≤ m.address.length ∧ m.address.length ≤ 16) (most : m.data.length ≤ 2 ^ 31 - 32)
    (before after bbSend : List UInt8) (small : (before ++ (m.framed big ++ after)).length < 2 ^ 63)
    (sender : List UInt8) (one : 1 ≤ sender.length ∧ sender.length ≤ 16) (old : List UInt8)
    (next offset pkgLen addrOffset addrLen : Nat)
    (told : round router (before ++ (m.framed big ++ after)) before.length old =
      .next next old [.routing offset pkgLen addrOffset addrLen]) :
    Transparent m sender (sendRoutingByRouter (before ++ (m.framed big ++ after)) bbSend offset pkgLen addrOffset
      addrLen sender) ↔ sender.length = addrLen := by
  have parts : m.data.length = m.address.length + (m.kind.serialBytes.length + m.payload.length) := by
    simp [Message.data]
  have fits : m.Fits := ⟨addressed.2, by omega, by omega⟩
  have shape : (before ++ (m.framed big ++ after)).drop before.length = m.framed big ++ after := List.drop_left
  have whole := m.framed_length big
  have total : (before ++ (m.framed big ++ after)).length = before.length + ((m.framed big).length + after.length) := by
    simp
  cases told.symm.trans (m.round_router fits form (by omega) small shape old)
  constructor
  · rintro ⟨bytes, sent, received⟩
    -- the rebuilt package still has the old length of the address in its first byte
    by_contra different
    rw [sendRoutingByRouter, if_neg different] at sent
    have typeId := (m.headerAt fits form small shape).typeId
    obtain ⟨routed, nibble, type⟩ :=
      m.rebuilt fits (by omega) typeId (by rw [whole]; unfold headerSize; split <;> omega) (by omega) sent
    obtain ⟨event, ran, seen⟩ := received 2 (Nat.le_refl 2) []
    have short : bytes.length < 2 ^ 63 := by
      have bound := rebuild_length sent
      have header : headerSize big ≤ 5 := by
        unfold headerSize
        split <;> omega
      unfold sizeOfInt at bound
      omega
    have length := receive_address short routed type ran seen
    exact different (length.trans nibble)
  · intro same
    -- the address is exchanged in place
    refine ⟨_, m.sent_in_place big before after bbSend sender same, fun fuel enough old => ?_⟩
    have length : (Message.data { m with address := sender }).length = m.data.length := by
      simp [Message.data, same]
    have fits' : Message.Fits { m with address := sender } := ⟨one.2, by omega, by omega⟩
    exact Message.receive_framed fits' (by rwa [length]) old enough

/-- A request with the address `[5]`, from the sender `[200]`. -/
theorem routing_transparent_request :
    Transparent ⟨.request 1, [5], [7]⟩ [200] (sendRoutingByRouter [9, 3, 0, 5, 1, 7] [] 0 6 3 1 [200]) := by
  have told : round router ([] ++ (Message.framed ⟨.request 1, [5], [7]⟩ false ++ [])) ([] : List UInt8).length [] =
      .next 6 [] [.routing 0 6 3 1] := rfl
  exact (routing_transparent_iff ⟨.request 1, [5], [7]⟩ false (.inr (by decide)) (by decide) (by decide) [] [] []
    (by decide) [200] (by decide) [] 6 0 6 3 1 told).mpr rfl

/-- The sender `[1, 2]` has a longer address than the package, so that its second byte is taken for data. -/
theorem routing_mangles_address : ¬ ∀ (m : Message) (big : Bool) (before after bbSend sender old : List UInt8)
    (next offset pkgLen addrOffset addrLen : Nat), (big = true ∨ m.data.length ≤ 65535) →
    1 ≤ m.address.length ∧ m.address.length ≤ 16 → m.data.length ≤ 2 ^ 31 - 32 →
    1 ≤ sender.length ∧ sender.length ≤ 16 → (before ++ (m.framed big ++ after)).length < 2 ^ 63 →
    pkgLen - addrLen + sender.length ≤ bbSend.length →
    round router (before ++ (m.framed big ++ after)) before.length old =
      .next next old [.routing offset pkgLen addrOffset addrLen] →
    Transparent m sender (sendRoutingByRouter (before ++ (m.framed big ++ after)) bbSend offset pkgLen addrOffset
      addrLen sender) := by
  intro always
  have told : round router ([] ++ (Message.framed ⟨.package, [5], [7]⟩ false ++ [])) ([] : List UInt8).length [] =
      .next 5 [] [.routing 0 5 3 1] := rfl
  obtain ⟨bytes, sent, received⟩ := always ⟨.package, [5], [7]⟩ false [] [] [0, 0, 0, 0, 0, 0, 0, 0] [1, 2] [] 5 0 5 3 1
    (.inr (by decide)) (by decide) (by decide) (by decide) (by decide) (by decide) told
  have built : sendRoutingByRouter ([] ++ (Message.framed ⟨.package, [5], [7]⟩ false ++ [])) [0, 0, 0, 0, 0, 0, 0, 0]
      0 5 3 1 [1, 2] = some [8, 3, 0, 1, 2, 7] := by decide +kernel
  cases built.symm.trans sent
  obtain ⟨event, ran, -⟩ := received 2 (Nat.le_refl 2) []
  have seen : (receiveImpl receiver 2 [] [] [8, 3, 0, 1, 2, 7]).map Received.senderAddress = some [1] := by
    decide +kernel
  rw [ran] at seen
  cases seen

end Xxlib.Uv4
