import Xxlib.Lib.Framing
import Xxlib.Uv4.Progress

/-! What is sent is received.

The six encoders share one layout, given here as `Message.bytes`. The packages of a
stream are its frames, so that it does not matter where the stream is cut.
-/

set_option autoImplicit false

namespace Xxlib.Uv4

open Lib

/-! ## Messages -/

/-- The three events of a receiver. -/
inductive Kind where
  | package
  | request (serial : UInt32)
  | callback (serial : UInt32)

structure Message where
  kind : Kind
  address : List UInt8
  payload : List UInt8

def Kind.type : Kind → Nat
  | .package => 0
  | .request _ => 1
  | .callback _ => 2

def Kind.serialBytes : Kind → List UInt8
  | .package => []
  | .request serial => varWrite7 serial
  | .callback serial => varWrite7 serial

/-- The mask byte: the type, the flag of big packages, and the length of the address. -/
def mask (type : Nat) (big : Bool) (addrLen : Nat) : Nat :=
  type ||| (if big then 4 else 0) ||| (if addrLen = 0 then 0 else 8 ||| (addrLen - 1) <<< 4)

def Message.data (m : Message) : List UInt8 := m.address ++ (m.kind.serialBytes ++ m.payload)

def Message.bytes (m : Message) : List UInt8 :=
  packageBytes (mask m.kind.type false m.address.length) (mask m.kind.type true m.address.length) m.data

structure Message.Fits (m : Message) : Prop where
  address : m.address.length ≤ 16
  least : 1 ≤ m.data.length
  most : m.data.length ≤ 2 ^ 31 - 6

/-- The message of a call, after `serial` was the last serial number given out. -/
def SendCall.message (serial : UInt32) : SendCall → Message
  | .send pkg => ⟨.package, [], pkg⟩
  | .sendRequest pkg => ⟨.request (serial + 1), [], pkg⟩
  | .sendResponse s pkg => ⟨.callback s, [], pkg⟩
  | .sendRouting addr pkg => ⟨.package, addr, pkg⟩
  | .sendRoutingRequest addr pkg => ⟨.request (serial + 1), addr, pkg⟩
  | .sendRoutingResponse addr s pkg => ⟨.callback s, addr, pkg⟩

/-- The routing calls have an address. -/
def SendCall.Addressed : SendCall → Prop
  | .send _ => True
  | .sendRequest _ => True
  | .sendResponse _ _ => True
  | .sendRouting addr _ => 1 ≤ addr.length
  | .sendRoutingRequest addr _ => 1 ≤ addr.length
  | .sendRoutingResponse addr _ _ => 1 ≤ addr.length

def messages (serial : UInt32) : List SendCall → List Message
  | [] => []
  | call :: calls => call.message serial :: messages (call.run serial).2 calls

/-- The six encoders write the same layout. -/
theorem run_bytes (serial : UInt32) (call : SendCall) (addressed : call.Addressed) :
    (call.run serial).1 = (call.message serial).bytes := by
  have routed : ∀ (type short big : Nat) (addr data : List UInt8), 1 ≤ addr.length →
      type ||| 0 ||| 8 = short → type ||| 4 ||| 8 = big →
      packageBytes (short ||| (addr.length - 1) <<< 4) (big ||| (addr.length - 1) <<< 4) data =
        packageBytes (mask type false addr.length) (mask type true addr.length) data := by
    intro type short big addr data some hshort hbig
    have positive : ¬ addr.length = 0 := by omega
    simp only [mask, positive, ↓reduceIte, Bool.false_eq_true, ← Nat.or_assoc, hshort, hbig]
  cases call with
  | send pkg => simp [SendCall.run, send, SendCall.message, Message.bytes, Message.data, mask, Kind.type,
      Kind.serialBytes]
  | sendRequest pkg => simp [SendCall.run, sendRequest, SendCall.message, Message.bytes, Message.data, mask,
      Kind.type, Kind.serialBytes]
  | sendResponse s pkg => simp [SendCall.run, sendResponse, SendCall.message, Message.bytes, Message.data, mask,
      Kind.type, Kind.serialBytes]
  | sendRouting addr pkg => exact routed 0 _ _ addr _ addressed rfl rfl
  | sendRoutingRequest addr pkg => exact routed 1 _ _ addr _ addressed rfl rfl
  | sendRoutingResponse addr s pkg => exact routed 2 _ _ addr _ addressed rfl rfl

theorem sendAll_eq (serial : UInt32) (calls : List SendCall) (addressed : ∀ call ∈ calls, call.Addressed) :
    sendAll serial calls = (messages serial calls).map Message.bytes := by
  induction calls generalizing serial with
  | nil => rfl
  | cons call calls ih =>
    have first := run_bytes serial call (addressed call (by simp))
    have rest := ih (call.run serial).2 fun other member => addressed other (by simp [member])
    rw [sendAll, messages, List.map_cons, first, rest]

/-! ## Reading the mask byte -/

theorem mask_bits : ∀ (type : Fin 3) (big : Bool) (addrLen : Fin 17),
    mask type big addrLen < 256 ∧ (0 < mask type big addrLen &&& 4 ↔ big = true) ∧
      (0 < mask type big addrLen &&& 8 ↔ addrLen.val ≠ 0) ∧
      (addrLen.val ≠ 0 → mask type big addrLen >>> 4 + 1 = addrLen) ∧
      mask type big addrLen &&& 3 = type := by
  decide +kernel

/-! ## The header of a message -/

section
variable {m : Message} {buf tail : List UInt8} {offset : Nat}

theorem type_lt (kind : Kind) : kind.type < 3 := by cases kind <;> simp [Kind.type]

theorem Message.mask_bits (fits : m.Fits) (big : Bool) :
    mask m.kind.type big m.address.length < 256 ∧
      (0 < mask m.kind.type big m.address.length &&& 4 ↔ big = true) ∧
      (0 < mask m.kind.type big m.address.length &&& 8 ↔ m.address.length ≠ 0) ∧
      (m.address.length ≠ 0 → mask m.kind.type big m.address.length >>> 4 + 1 = m.address.length) ∧
      mask m.kind.type big m.address.length &&& 3 = m.kind.type :=
  Uv4.mask_bits ⟨m.kind.type, type_lt m.kind⟩ big ⟨m.address.length, Nat.lt_succ_of_le fits.address⟩

/-- A message behind a header of the given size. -/
def Message.framed (m : Message) (big : Bool) : List UInt8 :=
  if big then
    UInt8.ofNat (mask m.kind.type true m.address.length) :: UInt8.ofNat m.data.length ::
      UInt8.ofNat (m.data.length >>> 8) :: UInt8.ofNat (m.data.length >>> 16) ::
      UInt8.ofNat (m.data.length >>> 24) :: m.data
  else
    UInt8.ofNat (mask m.kind.type false m.address.length) :: UInt8.ofNat m.data.length ::
      UInt8.ofNat (m.data.length >>> 8) :: m.data

theorem Message.bytes_eq_framed (m : Message) : m.bytes = m.framed (decide (¬ m.data.length ≤ 65535)) := by
  unfold Message.bytes packageBytes Message.framed
  by_cases short : m.data.length ≤ 65535
  · simp [short]
  · simp [short]

def headerSize (big : Bool) : Nat := if big then 5 else 3

theorem Message.framed_length (m : Message) (big : Bool) :
    (m.framed big).length = headerSize big + m.data.length := by
  unfold Message.framed headerSize
  split
  · simp only [List.length_cons]
    omega
  · simp only [List.length_cons]
    omega

/-- Where a message begins, its mask byte and its length are read. -/
structure HeaderAt (m : Message) (buf tail : List UInt8) (offset headerLen : Nat) (big : Bool) : Prop where
  typeId : byteAt buf offset = mask m.kind.type big m.address.length
  data : buf.drop (offset + headerLen) = m.data ++ tail
  whole : offset + headerLen + m.data.length ≤ buf.length
  read : readHeader buf offset = .whole headerLen m.data.length

theorem Message.headerAt_short (fits : m.Fits) (short : m.data.length ≤ 65535) (small : buf.length < 2 ^ 63)
    (shape : buf.drop offset = m.framed false ++ tail) : HeaderAt m buf tail offset 3 false := by
  obtain ⟨byte, big, -, -, -⟩ := m.mask_bits fits false
  have least := fits.least
  have bytes : m.framed false = UInt8.ofNat (mask m.kind.type false m.address.length) ::
      UInt8.ofNat m.data.length :: UInt8.ofNat (m.data.length >>> 8) :: m.data := rfl
  have typeId : byteAt buf offset = mask m.kind.type false m.address.length := by
    rw [bytes] at shape
    rw [byteAt_cons_of_drop shape, UInt8.toNat_ofNat']
    exact Nat.mod_eq_of_lt byte
  have length : shortLen buf offset = m.data.length := by
    unfold shortLen
    rw [byteAt_of_drop shape, byteAt_of_drop shape, bytes]
    simp only [byteAt, List.cons_append, List.getD_cons_succ, List.getD_cons_zero, UInt8.toNat_ofNat',
      Nat.shiftLeft_eq, Nat.shiftRight_eq_div_pow]
    omega
  have behind : buf.drop (offset + 3) = m.data ++ tail := by
    rw [← List.drop_drop, shape, bytes]
    rfl
  have whole : offset + 3 + m.data.length ≤ buf.length := by
    have count := congrArg List.length behind
    rw [List.length_drop, List.length_append] at count
    omega
  refine ⟨typeId, behind, whole, ?_⟩
  have three : size (offset + 3) = offset + 3 := Nat.mod_eq_of_lt (by omega)
  have total : size (offset + 3 + m.data.length) = offset + 3 + m.data.length := Nat.mod_eq_of_lt (by omega)
  have notBig : ¬ 0 < byteAt buf offset &&& 4 := by
    rw [typeId, big]
    exact Bool.false_ne_true
  unfold readHeader
  simp only [notBig, false_and, ↓reduceIte, length, three, total]
  rw [if_pos (by omega), if_neg (by omega), if_neg (by omega)]

theorem Message.headerAt_big (fits : m.Fits) (small : buf.length < 2 ^ 63)
    (shape : buf.drop offset = m.framed true ++ tail) : HeaderAt m buf tail offset 5 true := by
  obtain ⟨byte, big, -, -, -⟩ := m.mask_bits fits true
  have least := fits.least
  have most := fits.most
  have bytes : m.framed true = UInt8.ofNat (mask m.kind.type true m.address.length) ::
      UInt8.ofNat m.data.length :: UInt8.ofNat (m.data.length >>> 8) :: UInt8.ofNat (m.data.length >>> 16) ::
      UInt8.ofNat (m.data.length >>> 24) :: m.data := rfl
  have typeId : byteAt buf offset = mask m.kind.type true m.address.length := by
    rw [bytes] at shape
    rw [byteAt_cons_of_drop shape, UInt8.toNat_ofNat']
    exact Nat.mod_eq_of_lt byte
  have word : lengthWord buf offset = m.data.length := by
    unfold lengthWord shortLen
    rw [byteAt_of_drop shape, byteAt_of_drop shape, byteAt_of_drop shape, byteAt_of_drop shape, bytes]
    simp only [byteAt, List.cons_append, List.getD_cons_succ, List.getD_cons_zero, UInt8.toNat_ofNat',
      Nat.shiftLeft_eq, Nat.shiftRight_eq_div_pow]
    omega
  have length : bigLen buf offset = m.data.length := by
    rw [bigLen_eq, word, if_pos (by omega)]
  have behind : buf.drop (offset + 5) = m.data ++ tail := by
    rw [← List.drop_drop, shape, bytes]
    rfl
  have whole : offset + 5 + m.data.length ≤ buf.length := by
    have count := congrArg List.length behind
    rw [List.length_drop, List.length_append] at count
    omega
  refine ⟨typeId, behind, whole, ?_⟩
  have three : size (offset + 3) = offset + 3 := Nat.mod_eq_of_lt (by omega)
  have five : size (offset + 5) = offset + 5 := Nat.mod_eq_of_lt (by omega)
  have total : size (offset + 5 + m.data.length) = offset + 5 + m.data.length := Nat.mod_eq_of_lt (by omega)
  have isBig : 0 < byteAt buf offset &&& 4 := by
    rw [typeId, big]
  unfold readHeader
  simp only [isBig, true_and, ↓reduceIte, length, three, five, total]
  rw [if_pos (by omega), if_neg (by omega), if_neg (by omega), if_neg (by omega)]

theorem Message.headerAt (fits : m.Fits) {big : Bool} (form : big = true ∨ m.data.length ≤ 65535)
    (small : buf.length < 2 ^ 63) (shape : buf.drop offset = m.framed big ++ tail) :
    HeaderAt m buf tail offset (headerSize big) big := by
  cases big with
  | true => exact m.headerAt_big fits small shape
  | false => exact m.headerAt_short fits (form.resolve_left Bool.false_ne_true) small shape

/-- The header of a message as it is sent. -/
structure HeaderOf (m : Message) (buf tail : List UInt8) (offset headerLen : Nat) (big : Bool) : Prop
    extends HeaderAt m buf tail offset headerLen big where
  bytesLen : m.bytes.length = headerLen + m.data.length

theorem Message.headerOf (fits : m.Fits) (small : buf.length < 2 ^ 63)
    (shape : buf.drop offset = m.bytes ++ tail) : ∃ headerLen big, HeaderOf m buf tail offset headerLen big := by
  rw [m.bytes_eq_framed] at shape
  have form : decide (¬ m.data.length ≤ 65535) = true ∨ m.data.length ≤ 65535 := by
    rw [decide_eq_true_iff]
    omega
  refine ⟨_, _, m.headerAt fits form small shape, ?_⟩
  rw [m.bytes_eq_framed, m.framed_length]

end

/-! ## Delivery of one message -/

/-- What a handler sees: its kind, the sender, and the bytes from `bbRecv.offset` to `readLengthLimit`, if
these delimit a part of the buffer. -/
def View.message (view : View) (kind : Kind) (buf : List UInt8) : Option Message :=
  if view.offset ≤ view.readLengthLimit ∧ view.readLengthLimit ≤ buf.length then
    some ⟨kind, view.senderAddress, (buf.drop view.offset).take (view.readLengthLimit - view.offset)⟩
  else none

def Event.message (buf : List UInt8) : Event → Option Message
  | .package view => view.message .package buf
  | .request serial view => view.message (.request (UInt32.ofNat serial)) buf
  | .callback serial view => view.message (.callback (UInt32.ofNat serial)) buf
  | .routing _ _ _ _ => none

/-- A connected peer that has a routing address of its own. -/
def receiver : Peer := ⟨true, false⟩

section
variable {m : Message} {buf tail : List UInt8} {offset headerLen : Nat} {big : Bool}

theorem HeaderAt.serial (header : HeaderAt m buf tail offset headerLen big) :
    buf.drop (offset + headerLen + m.address.length) = m.kind.serialBytes ++ (m.payload ++ tail) := by
  rw [← List.drop_drop, header.data, Message.data]
  simp

/-- The view of a handler that is called with the cursor behind the serial number. -/
theorem HeaderAt.view (header : HeaderAt m buf tail offset headerLen big) :
    View.message ⟨offset + headerLen + m.address.length + m.kind.serialBytes.length, offset,
      offset + headerLen + m.data.length, m.address⟩ m.kind buf = some m := by
  have whole := header.whole
  have count : m.data.length = m.address.length + (m.kind.serialBytes.length + m.payload.length) := by
    simp [Message.data]
  have payload : offset + headerLen + m.data.length -
      (offset + headerLen + m.address.length + m.kind.serialBytes.length) = m.payload.length := by
    omega
  simp only [View.message]
  rw [if_pos (by omega), ← List.drop_drop, header.serial, payload, List.drop_left, List.take_left]

theorem HeaderAt.dispatch (header : HeaderAt m buf tail offset headerLen big) (fits : m.Fits)
    (small : buf.length < 2 ^ 63) (sender : List UInt8) : ∃ event,
    dispatch receiver buf offset headerLen m.data.length sender = (true, m.address, [event]) ∧
      event.message buf = some m := by
  obtain ⟨-, -, routed, addrLen, type⟩ := m.mask_bits fits big
  have whole := header.whole
  have parts : m.data.length = m.address.length + (m.kind.serialBytes.length + m.payload.length) := by
    simp [Message.data]
  have start : size (offset + headerLen) = offset + headerLen := Nat.mod_eq_of_lt (by omega)
  have cursor : size (offset + headerLen + m.address.length) = offset + headerLen + m.address.length :=
    Nat.mod_eq_of_lt (by omega)
  have limit : size (offset + headerLen + m.data.length) = offset + headerLen + m.data.length :=
    Nat.mod_eq_of_lt (by omega)
  -- a message without an address has bit 3 clear and no bytes for it
  have length : (if 0 < mask m.kind.type big m.address.length &&& 8 then
      mask m.kind.type big m.address.length >>> 4 + 1 else 0) = m.address.length := by
    split
    · next yes => exact addrLen (routed.mp yes)
    · next no =>
      rw [routed, Decidable.not_not] at no
      exact no.symm
  have sender' : (if 0 < mask m.kind.type big m.address.length &&& 8 then
      (buf.drop (offset + headerLen)).take m.address.length else []) = m.address := by
    split
    · rw [header.data, Message.data]
      simp
    · next no =>
      rw [routed, Decidable.not_not, List.length_eq_zero_iff] at no
      exact no.symm
  have serialAt := header.serial
  have view := header.view
  unfold Uv4.dispatch
  simp only [header.typeId, start, length, cursor, limit, sender', type, receiver, Bool.true_eq_false,
    and_false, ↓reduceIte, Bool.not_false]
  -- only requests and callbacks have a serial in front of the payload
  obtain ⟨kind, address, content⟩ := m
  cases kind with
  | package => exact ⟨_, rfl, view⟩
  | request serial =>
    simp only [Kind.serialBytes] at serialAt view
    simp only [varRead7_varWrite7 serialAt]
    refine ⟨_, rfl, ?_⟩
    simpa only [Event.message, UInt32.ofNat_toNat] using view
  | callback serial =>
    simp only [Kind.serialBytes] at serialAt view
    simp only [varRead7_varWrite7 serialAt]
    refine ⟨_, rfl, ?_⟩
    simpa only [Event.message, UInt32.ofNat_toNat] using view

theorem Message.round (fits : m.Fits) (small : buf.length < 2 ^ 63)
    (shape : buf.drop offset = m.bytes ++ tail) (sender : List UInt8) : ∃ event,
    round receiver buf offset sender = .next (offset + m.bytes.length) m.address [event] ∧
      event.message buf = some m := by
  obtain ⟨headerLen, big, header⟩ := m.headerOf fits small shape
  obtain ⟨event, dispatched, same⟩ := header.dispatch fits small sender
  have whole := header.whole
  have place : size (size (offset + headerLen) + m.data.length) = offset + m.bytes.length := by
    rw [header.bytesLen]
    unfold size
    omega
  refine ⟨event, ?_, same⟩
  unfold Uv4.round
  simp only [header.read, dispatched, place]

end

/-! ## Packages as frames -/

section
variable {input more : List UInt8}

theorem shortLen_append (room : 3 ≤ input.length) : shortLen (input ++ more) 0 = shortLen input 0 := by
  unfold shortLen
  rw [byteAt_append (by omega), byteAt_append (by omega)]

theorem lengthWord_append (room : 5 ≤ input.length) : lengthWord (input ++ more) 0 = lengthWord input 0 := by
  unfold lengthWord
  rw [shortLen_append (by omega), byteAt_append (by omega), byteAt_append (by omega)]

theorem shortLen_drop (buf : List UInt8) (offset : Nat) : shortLen (buf.drop offset) 0 = shortLen buf offset := by
  unfold shortLen
  rw [byteAt_drop, byteAt_drop, Nat.zero_add, Nat.zero_add]

theorem lengthWord_drop (buf : List UInt8) (offset : Nat) :
    lengthWord (buf.drop offset) 0 = lengthWord buf offset := by
  unfold lengthWord
  rw [shortLen_drop, byteAt_drop, byteAt_drop, Nat.zero_add, Nat.zero_add]

end

/-- The verdict on a header whose bytes are all there. -/
def judge (available headerLen dataLen : Nat) : Verdict :=
  if dataLen = 0 ∨ 2 ^ 31 ≤ dataLen then .bad
  else if available < headerLen + dataLen then .wait
  else .frame (headerLen + dataLen)

def nextPackage (input : List UInt8) : Verdict :=
  if input.length < 3 then .wait
  else if 0 < byteAt input 0 &&& 4 then
    if input.length < 5 then .wait else judge input.length 5 (lengthWord input 0)
  else judge input.length 3 (shortLen input 0)

section
variable {available more headerLen dataLen n : Nat}

theorem judge_frame (found : judge available headerLen dataLen = .frame n) :
    dataLen < 2 ^ 31 ∧ n = headerLen + dataLen ∧ 0 < n ∧ n ≤ available := by
  unfold judge at found
  split at found
  · cases found
  · split at found
    · cases found
    · cases found
      omega

theorem judge_frame_add (found : judge available headerLen dataLen = .frame n) :
    judge (available + more) headerLen dataLen = .frame n := by
  unfold judge at found ⊢
  split at found
  · cases found
  · split at found
    · cases found
    · next possible missing =>
      rw [if_neg possible, if_neg (by omega)]
      exact found

theorem judge_bad_add (found : judge available headerLen dataLen = .bad) :
    judge (available + more) headerLen dataLen = .bad := by
  unfold judge at found ⊢
  split at found
  · next impossible => rw [if_pos impossible]
  · split at found <;> cases found

end

theorem nextPackage_frame {input : List UInt8} {n : Nat} (found : nextPackage input = .frame n) :
    0 < n ∧ n ≤ input.length := by
  unfold nextPackage at found
  split at found
  · cases found
  · split at found
    · split at found
      · cases found
      · exact (judge_frame found).2.2
    · exact (judge_frame found).2.2

/-- More input changes a verdict only if it was to wait. -/
theorem nextPackage_append {input : List UInt8} (decided : nextPackage input ≠ .wait) (more : List UInt8) :
    nextPackage (input ++ more) = nextPackage input := by
  unfold nextPackage at decided ⊢
  rw [List.length_append]
  by_cases short : input.length < 3
  · exact absurd (if_pos short) decided
  · rw [if_neg short] at decided ⊢
    rw [if_neg (by omega), byteAt_append (by omega)]
    have judged : ∀ headerLen dataLen, judge input.length headerLen dataLen ≠ .wait →
        judge (input.length + more.length) headerLen dataLen = judge input.length headerLen dataLen := by
      intro headerLen dataLen decided
      cases verdict : judge input.length headerLen dataLen with
      | wait => exact absurd verdict decided
      | bad => exact judge_bad_add verdict
      | frame n => exact judge_frame_add verdict
    by_cases big : 0 < byteAt input 0 &&& 4
    · rw [if_pos big] at decided ⊢
      rw [if_pos big]
      by_cases half : input.length < 5
      · exact absurd (if_pos half) decided
      · rw [if_neg half] at decided ⊢
        rw [if_neg (by omega), lengthWord_append (by omega)]
        exact judged 5 _ decided
    · rw [if_neg big] at decided ⊢
      rw [if_neg big, shortLen_append (by omega)]
      exact judged 3 _ decided

def packages : Framer UInt8 where
  next := nextPackage
  nonempty := rfl
  positive := fun found => (nextPackage_frame found).1
  bound := fun found => (nextPackage_frame found).2
  frame_append := fun found more => by rw [nextPackage_append (by rw [found]; simp), found]
  bad_append := fun found more => by rw [nextPackage_append (by rw [found]; simp), found]

section
variable {buf : List UInt8} {offset headerLen dataLen : Nat}

theorem bigLen_plain (plain : bigLen buf offset < 2 ^ 31) : bigLen buf offset = lengthWord buf offset := by
  have limit := lengthWord_lt buf offset
  rw [bigLen_eq] at plain ⊢
  split at plain
  · next positive => rw [if_pos positive]
  · omega

theorem nextPackage_of_whole (plain : dataLen < 2 ^ 31)
    (header : readHeader buf 0 = .whole headerLen dataLen) : nextPackage buf = .frame (headerLen + dataLen) := by
  have judged : ∀ headerLen dataLen', ¬ dataLen' = 0 → ¬ size (0 + headerLen + dataLen') > buf.length →
      dataLen' < 2 ^ 31 → headerLen ≤ 5 →
      judge buf.length headerLen dataLen' = .frame (headerLen + dataLen') := by
    intro headerLen dataLen some whole plain five
    have total : size (0 + headerLen + dataLen) = headerLen + dataLen := by
      unfold size
      omega
    unfold judge
    rw [if_neg (by omega), if_neg (by omega)]
  unfold readHeader at header
  unfold nextPackage
  -- both look at the first three bytes, and with the flag at five
  split at header
  · next room =>
    have three : size (0 + 3) = 3 := rfl
    have five : size (0 + 5) = 5 := rfl
    rw [three] at room
    rw [five] at header
    rw [if_neg (Nat.not_lt.mpr room)]
    by_cases big : 0 < byteAt buf 0 &&& 4
    · simp only [big, true_and, ↓reduceIte] at header ⊢
      split at header
      · cases header
      · next half =>
        split at header
        · cases header
        · next some =>
          split at header
          · cases header
          · next whole =>
            cases header
            rw [if_neg half, ← bigLen_plain plain]
            exact judged 5 _ some whole plain (by decide)
    · simp only [big, false_and, ↓reduceIte] at header ⊢
      split at header
      · cases header
      · next some =>
        split at header
        · cases header
        · next whole =>
          cases header
          exact judged 3 _ some whole plain (by decide)
  · cases header

/-- A message is a frame, whatever follows. -/
theorem Message.next {m : Message} (fits : m.Fits) (tail : List UInt8) :
    packages.next (m.bytes ++ tail) = .frame m.bytes.length := by
  have most := fits.most
  have bound : m.bytes.length ≤ 5 + m.data.length := by
    simp only [Message.bytes, packageBytes]
    split <;> simp <;> omega
  have start : m.bytes.drop 0 = m.bytes ++ [] := by simp
  obtain ⟨headerLen, big, header⟩ := m.headerOf fits (by omega) start
  apply packages.frame_append
  rw [header.bytesLen]
  exact nextPackage_of_whole (by omega) header.read

/-- The messages at the front of a stream are its frames, as long as a whole frame is missing. -/
theorem drain_messages {ms : List Message} (fits : ∀ m ∈ ms, m.Fits) {rest : List UInt8}
    (waiting : packages.next rest = .wait) :
    packages.drain ((ms.map Message.bytes).flatten ++ rest) = (ms.map Message.bytes, some rest) := by
  induction ms with
  | nil => exact Framer.drain_wait waiting
  | cons m ms ih =>
    have tail := ih fun other member => fits other (by simp [member])
    rw [List.map_cons, List.flatten_cons, List.append_assoc, Framer.drain_frame (m.next (fits m (by simp)) _),
      List.take_left, List.drop_left, tail]

/-- Where a whole frame is missing, the loop ends. -/
theorem wait_short (small : buf.length < 2 ^ 63) (inside : offset ≤ buf.length)
    (waiting : packages.next (buf.drop offset) = .wait) : readHeader buf offset = .short := by
  -- what is waited for has a length that is not negative as an int
  have judged : ∀ headerLen dataLen, judge (buf.length - offset) headerLen dataLen = .wait → headerLen ≤ 5 →
      dataLen ≠ 0 ∧ dataLen < 2 ^ 31 ∧ size (offset + headerLen + dataLen) > buf.length := by
    intro headerLen dataLen waiting five
    unfold judge at waiting
    split at waiting
    · cases waiting
    · split at waiting
      · unfold size
        omega
      · cases waiting
  have three : size (offset + 3) = offset + 3 := Nat.mod_eq_of_lt (by omega)
  have five : size (offset + 5) = offset + 5 := Nat.mod_eq_of_lt (by omega)
  have verdict : nextPackage (buf.drop offset) = .wait := waiting
  unfold nextPackage at verdict
  rw [List.length_drop, byteAt_drop, Nat.add_zero, shortLen_drop, lengthWord_drop] at verdict
  unfold readHeader
  rw [three, five]
  by_cases room : offset + 3 ≤ buf.length
  · rw [if_pos room]
    rw [if_neg (by omega)] at verdict
    by_cases big : 0 < byteAt buf offset &&& 4
    · simp only [big, true_and, ↓reduceIte] at verdict ⊢
      by_cases half : offset + 5 > buf.length
      · rw [if_pos half]
      · rw [if_neg half]
        rw [if_neg (by omega)] at verdict
        obtain ⟨some, plain, missing⟩ := judged 5 _ verdict (by decide)
        have length : bigLen buf offset = lengthWord buf offset := by rw [bigLen_eq, if_pos plain]
        rw [length, if_neg some, if_pos missing]
    · simp only [big, false_and, ↓reduceIte] at verdict ⊢
      obtain ⟨some, -, missing⟩ := judged 3 _ verdict (by decide)
      rw [if_neg some, if_pos missing]
  · rw [if_neg room]

theorem wait_length {rest : List UInt8} (waiting : packages.next rest = .wait) : rest.length < 2 ^ 31 + 5 := by
  have judged : ∀ headerLen dataLen, judge rest.length headerLen dataLen = .wait → headerLen ≤ 5 →
      rest.length < 2 ^ 31 + 5 := by
    intro headerLen dataLen waiting five
    unfold judge at waiting
    split at waiting
    · cases waiting
    · split at waiting
      · omega
      · cases waiting
  have verdict : nextPackage rest = .wait := waiting
  unfold nextPackage at verdict
  split at verdict
  · omega
  · split at verdict
    · split at verdict
      · omega
      · exact judged 5 _ verdict (by decide)
    · exact judged 3 _ verdict (by decide)

end

/-! ## Delivery of a stream -/

/-- The loop delivers the messages of the buffer, and keeps what follows them. -/
theorem receiveLoop_messages {buf rest : List UInt8} (small : buf.length < 2 ^ 63)
    (waiting : packages.next rest = .wait) {ms : List Message} (fits : ∀ m ∈ ms, m.Fits) {fuel offset : Nat}
    (inside : offset ≤ buf.length) (enough : ms.length < fuel)
    (shape : buf.drop offset = (ms.map Message.bytes).flatten ++ rest) (sender : List UInt8) :
    ∃ events sender', receiveLoop receiver buf fuel offset sender = some ⟨events, some rest, sender'⟩ ∧
      events.map (Event.message buf) = ms.map some := by
  induction ms generalizing fuel offset sender with
  | nil =>
    obtain ⟨fuel, rfl⟩ : ∃ before, fuel = before + 1 := ⟨fuel - 1, by simp at enough; omega⟩
    have here : buf.drop offset = rest := by simpa using shape
    have header := wait_short small inside (by rw [here]; exact waiting)
    refine ⟨[], sender, ?_, rfl⟩
    simp only [receiveLoop, Uv4.round, header, here]
  | cons m ms ih =>
    obtain ⟨fuel, rfl⟩ : ∃ before, fuel = before + 1 := ⟨fuel - 1, by simp at enough; omega⟩
    have split : buf.drop offset = m.bytes ++ ((ms.map Message.bytes).flatten ++ rest) := by
      rw [shape, List.map_cons, List.flatten_cons, List.append_assoc]
    obtain ⟨event, step, same⟩ := m.round (fits m (by simp)) small split sender
    have after : buf.drop (offset + m.bytes.length) = (ms.map Message.bytes).flatten ++ rest := by
      rw [← List.drop_drop, split, List.drop_left]
    have within : offset + m.bytes.length ≤ buf.length := by
      have count := congrArg List.length split
      rw [List.length_drop, List.length_append] at count
      omega
    obtain ⟨events, sender', returned, rest⟩ := ih (fun other member => fits other (by simp [member])) within
      (by simpa using enough) after m.address
    refine ⟨event :: events, sender', ?_, by rw [List.map_cons, List.map_cons, same, rest]⟩
    simp only [receiveLoop, step, returned, Option.map_some, List.singleton_append]

/-- What the handlers of a peer see, chunk after chunk, and the content of `bbRecv` after the last one. -/
def receiveAll (peer : Peer) (fuel : Nat) (bbRecv senderAddress : List UInt8) :
    List (List UInt8) → Option (List (Option Message) × Option (List UInt8))
  | [] => some ([], some bbRecv)
  | chunk :: chunks => do
      let received ← receiveImpl peer fuel bbRecv senderAddress chunk
      let seen := received.events.map (Event.message (bbRecv ++ chunk))
      match received.bbRecv with
      | none => some (seen, none)
      | some kept =>
          let later ← receiveAll peer fuel kept received.senderAddress chunks
          some (seen ++ later.1, later.2)

theorem messages_length (ms : List Message) : ms.length ≤ ((ms.map Message.bytes).flatten).length := by
  induction ms with
  | nil => exact Nat.le_refl 0
  | cons m ms ih =>
    have some : 1 ≤ m.bytes.length := by
      simp only [Message.bytes, packageBytes]
      split <;> simp
    rw [List.map_cons, List.flatten_cons, List.length_append, List.length_cons]
    omega

/-- `kept` is what the chunks before have left of a message. -/
theorem receiveAll_messages {kept : List UInt8} (waiting : packages.next kept = .wait) {chunks : List (List UInt8)}
    (each : ∀ chunk ∈ chunks, chunk.length < 2 ^ 31) {ms : List Message} (fits : ∀ m ∈ ms, m.Fits)
    (whole : packages.drain (kept ++ chunks.flatten) = (ms.map Message.bytes, some [])) {fuel : Nat}
    (enough : 2 ^ 33 ≤ fuel) (sender : List UInt8) :
    receiveAll receiver fuel kept sender chunks = some (ms.map some, some []) := by
  induction chunks generalizing kept ms sender with
  | nil =>
    rw [List.flatten_nil, List.append_nil, Framer.drain_wait waiting] at whole
    obtain ⟨nothing, empty⟩ := Prod.ext_iff.mp whole
    obtain rfl : ms = [] := List.map_eq_nil_iff.mp nothing.symm
    cases empty
    rfl
  | cons chunk chunks ih =>
    rw [List.flatten_cons, ← List.append_assoc] at whole
    -- the chunk completes some of the messages, the rest waits for those behind it
    obtain ⟨front, back, rest, both, first, later⟩ := Framer.drain_front whole
    obtain ⟨arrived, missing, rfl, rfl, rfl⟩ := List.map_eq_append_iff.mp both
    have shape := Framer.drain_flatten (Prod.ext_iff.mp first).2
    have wait := Framer.drain_rest (Prod.ext_iff.mp first).2
    rw [first] at shape
    have small : (kept ++ chunk).length < 2 ^ 33 := by
      have short := wait_length waiting
      have limit := each chunk (by simp)
      rw [List.length_append]
      omega
    have few : arrived.length < fuel := by
      have count := congrArg List.length shape
      have least := messages_length arrived
      simp only [List.length_append] at count small
      omega
    obtain ⟨events, sender', returned, seen⟩ := receiveLoop_messages (by omega) wait
      (fun m member => fits m (by simp [member])) (Nat.zero_le _) few shape.symm sender
    have next := ih wait (fun other member => each other (by simp [member]))
      (fun m member => fits m (by simp [member])) later sender'
    simp only [receiveAll, receiveImpl, returned, next, seen, Option.bind_eq_bind, Option.bind_some,
      List.map_append]

/-- However the bytes of a sequence of calls are cut into chunks, the handlers of the receiver see the
messages that were sent, in order, and nothing is left in `bbRecv`. -/
theorem receive_delivers (serial : UInt32) (calls : List SendCall) (addressed : ∀ call ∈ calls, call.Addressed)
    (fits : ∀ m ∈ messages serial calls, m.Fits) (chunks : List (List UInt8))
    (cut : chunks.flatten = (sendAll serial calls).flatten) (each : ∀ chunk ∈ chunks, chunk.length < 2 ^ 31)
    (sender : List UInt8) (fuel : Nat) (enough : 2 ^ 33 ≤ fuel) :
    receiveAll receiver fuel [] sender chunks = some ((messages serial calls).map some, some []) := by
  apply receiveAll_messages rfl each fits _ enough
  rw [List.nil_append, cut, sendAll_eq serial calls addressed, ← drain_messages fits rfl, List.append_nil]

/-- A request that arrives byte by byte. -/
theorem receive_delivers_request : receiveAll receiver (2 ^ 33) [] [] [[9], [3, 0], [8], [1, 7]] =
    some ([some ⟨.request 1, [8], [7]⟩], some []) := by
  apply receive_delivers 0 [.sendRoutingRequest [8] [7]]
  · simp [SendCall.Addressed]
  · intro m member
    obtain rfl : m = ⟨.request 1, [8], [7]⟩ := by simpa [messages, SendCall.message] using member
    exact ⟨by decide, by decide, by decide⟩
  · decide
  · decide
  · decide

end Xxlib.Uv4
