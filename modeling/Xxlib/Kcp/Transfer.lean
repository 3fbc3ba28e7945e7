import Mathlib.Data.List.Infix
import Xxlib.Kcp.Link
import Xxlib.Kcp.Messages

/-! Whole messages over one direction of a session: what each end was given to send, and what the other end hands over. -/

set_option autoImplicit false

namespace Xxlib.Kcp

open Session (windowLimit)

/-- What is true of an end by itself. -/
structure Local (conv : Guid) (e : Endpoint) : Prop where
  conv : e.kcp.conv = conv
  stream : e.kcp.stream = 0
  mtu : e.kcp.mss.toNat + headerSize = e.kcp.mtu.toNat
  some : 0 < e.kcp.mss.toNat
  small : e.kcp.mtu.toNat < 2 ^ 31
  least : ikcpWndRcv ≤ e.kcp.rcvWnd.toNat
  most : e.kcp.rcvWnd.toNat ≤ windowLimit
  rmtWnd : e.kcp.rmtWnd.toNat ≤ 65535
  queued : e.kcp.nsndQue = UInt32.ofNat e.kcp.sndQueue.length
  /-- The fragments of all messages have got their numbers, or wait for them. -/
  messages : e.log ++ e.kcp.sndQueue.map Ikcpseg.payload = e.sent.flatMap (messagePayloads e.kcp.mss.toNat)
  few : ∀ message ∈ e.sent, fragmentCount e.kcp.mss.toNat message.length < ikcpWndRcv

/-- `y` has handed over the first messages of `x`, and what else it has taken waits in its queue. -/
def Delivered (x y : Endpoint) : Prop :=
  ∃ k ≤ x.sent.length, y.got = x.sent.take k ∧
    x.log.take y.taken = (x.sent.take k).flatMap (messagePayloads x.kcp.mss.toNat) ++ y.kcp.rcvQueue.map Ikcpseg.payload

section
variable {conv : Guid} {x y x' y' : Endpoint} {ns hs : List Nat} {p : Payload} {kcp' : Ikcpcb}

/-- The fields that belong to neither direction alone are the same. -/
structure SameConfig (kcp kcp' : Ikcpcb) : Prop where
  conv : kcp'.conv = kcp.conv
  stream : kcp'.stream = kcp.stream
  mtu : kcp'.mtu = kcp.mtu
  mss : kcp'.mss = kcp.mss
  rcvWnd : kcp'.rcvWnd = kcp.rcvWnd
  sndQueue : kcp'.sndQueue = kcp.sndQueue
  nsndQue : kcp'.nsndQue = kcp.nsndQue

theorem SameConfig.trans {kcp kcp₁ kcp₂ : Ikcpcb} (first : SameConfig kcp kcp₁) (second : SameConfig kcp₁ kcp₂) :
    SameConfig kcp kcp₂ where
  conv := second.conv.trans first.conv
  stream := second.stream.trans first.stream
  mtu := second.mtu.trans first.mtu
  mss := second.mss.trans first.mss
  rcvWnd := second.rcvWnd.trans first.rcvWnd
  sndQueue := second.sndQueue.trans first.sndQueue
  nsndQue := second.nsndQue.trans first.nsndQue

theorem Local.congr (own : Local conv x) (same : SameConfig x.kcp x'.kcp) (log : x'.log = x.log) (sent : x'.sent = x.sent)
    (rmtWnd : x'.kcp.rmtWnd.toNat ≤ 65535) : Local conv x' where
  conv := same.conv.trans own.conv
  stream := same.stream.trans own.stream
  mtu := by
    rw [same.mss, same.mtu]
    exact own.mtu
  some := by
    rw [same.mss]
    exact own.some
  small := by
    rw [same.mtu]
    exact own.small
  least := by
    rw [same.rcvWnd]
    exact own.least
  most := by
    rw [same.rcvWnd]
    exact own.most
  rmtWnd := rmtWnd
  queued := by rw [same.nsndQue, same.sndQueue, own.queued]
  messages := by
    rw [log, same.sndQueue, sent, same.mss]
    exact own.messages
  few := by
    rw [sent, same.mss]
    exact own.few

/-- What has a number is a fragment of a message. -/
theorem Local.fragment (own : Local conv x) (member : p ∈ x.log ++ x.kcp.sndQueue.map Ikcpseg.payload) :
    p.2.length ≤ x.kcp.mss.toNat ∧ p.1.toNat < ikcpWndRcv := by
  rw [own.messages] at member
  obtain ⟨message, sent, part⟩ := List.mem_flatMap.mp member
  obtain ⟨size, rest, less, same⟩ := mem_payloads part
  have few := own.few message sent
  refine ⟨size, ?_⟩
  rw [same, UInt32.toNat_ofNat']
  exact Nat.lt_of_le_of_lt (Nat.mod_le _ _) (Nat.lt_trans less few)

/-! ## Handing over -/

theorem Delivered.took {moved : List Ikcpseg} (delivered : Delivered x y) (took : Took x y y.kcp.rcvQueue moved kcp') :
    Delivered x { y with kcp := kcp', taken := y.taken + moved.length } := by
  obtain ⟨k, some, got, queue⟩ := delivered
  refine ⟨k, some, got, ?_⟩
  dsimp only
  rw [took.log, took.queue, queue, List.map_append, List.append_assoc]

/-- What is in the queue is the beginning of the messages that have not been handed over. -/
theorem Delivered.prefix_drop (own : Local conv x) {k : Nat}
    (queue : x.log.take y.taken = (x.sent.take k).flatMap (messagePayloads x.kcp.mss.toNat) ++ y.kcp.rcvQueue.map Ikcpseg.payload) :
    y.kcp.rcvQueue.map Ikcpseg.payload <+: (x.sent.drop k).flatMap (messagePayloads x.kcp.mss.toNat) := by
  have messages := own.messages
  rw [← List.take_append_drop y.taken x.log, queue, ← List.take_append_drop k x.sent, List.flatMap_append,
    List.take_append_drop, List.append_assoc, List.append_assoc] at messages
  exact ⟨_, List.append_cancel_left messages⟩

/-- Whether a message is complete is seen from its first fragment. -/
theorem peeksize_nonneg_iff {kcp : Ikcpcb} {seg : Ikcpseg} {rest : List Ikcpseg} (queue : kcp.rcvQueue = seg :: rest)
    (queued : kcp.nrcvQue.toNat = kcp.rcvQueue.length) (small : seg.frg.toNat < ikcpWndRcv) :
    0 ≤ ikcpPeeksize kcp ↔ seg.frg.toNat < kcp.rcvQueue.length := by
  have frg : (seg.frg + 1).toNat = seg.frg.toNat + 1 := by
    rw [ikcpWndRcv] at small
    rw [UInt32.toNat_add, UInt32.toNat_one]
    omega
  have zero : seg.frg = 0 ↔ seg.frg.toNat = 0 := by rw [← UInt32.toNat_inj, UInt32.toNat_zero]
  have few : kcp.nrcvQue < seg.frg + 1 ↔ rest.length < seg.frg.toNat := by
    rw [UInt32.lt_iff_toNat_lt, frg, queued, queue, List.length_cons, Nat.succ_lt_succ_iff]
  unfold ikcpPeeksize
  rw [queue]
  dsimp only
  rw [List.length_cons]
  by_cases last : seg.frg = 0
  · rw [if_pos last]
    have none := zero.mp last
    omega
  · rw [if_neg last]
    by_cases missing : kcp.nrcvQue < seg.frg + 1
    · rw [if_pos missing]
      have less := few.mp missing
      omega
    · rw [if_neg missing]
      have enough := mt few.mpr missing
      omega

/-- The first message in the queue. -/
theorem Delivered.front (own : Local conv x) (delivered : Delivered x y) (queued : y.kcp.nrcvQue.toNat = y.kcp.rcvQueue.length)
    (some : y.kcp.rcvQueue ≠ []) : ∃ k message later, y.got = x.sent.take k ∧ x.sent.drop k = message :: later ∧
      x.log.take y.taken = (x.sent.take k).flatMap (messagePayloads x.kcp.mss.toNat) ++ y.kcp.rcvQueue.map Ikcpseg.payload ∧
      y.kcp.rcvQueue.map Ikcpseg.payload <+:
        messagePayloads x.kcp.mss.toNat message ++ later.flatMap (messagePayloads x.kcp.mss.toNat) ∧
      (0 ≤ ikcpPeeksize y.kcp ↔ fragmentCount x.kcp.mss.toNat message.length ≤ y.kcp.rcvQueue.length) := by
  obtain ⟨k, inside, got, queue⟩ := delivered
  have front := prefix_drop own queue
  obtain ⟨seg, rest, shape⟩ := List.exists_cons_of_ne_nil some
  cases left : x.sent.drop k with
  | nil =>
    rw [left, List.flatMap_nil, List.prefix_nil, List.map_eq_nil_iff] at front
    exact absurd front some
  | cons message later =>
    rw [left, List.flatMap_cons] at front
    have sent : message ∈ x.sent := List.mem_of_mem_drop (left ▸ List.mem_cons_self)
    have few := own.few message sent
    have positive := fragmentCount_pos own.some message.length
    have first : seg.frg = UInt32.ofNat (fragmentCount x.kcp.mss.toNat message.length - 1) := by
      obtain ⟨tail, whole⟩ := front
      rw [shape, List.map_cons, messagePayloads, ← Nat.succ_pred_eq_of_pos positive, payloads, List.cons_append] at whole
      exact congrArg Prod.fst (List.cons.inj whole).1
    have frg : seg.frg.toNat = fragmentCount x.kcp.mss.toNat message.length - 1 := by
      rw [ikcpWndRcv] at few
      rw [first, UInt32.toNat_ofNat']
      omega
    refine ⟨k, message, later, got, left, queue, front, ?_⟩
    rw [peeksize_nonneg_iff shape queued (by omega), frg]
    omega

/-- A message that is complete is cut off as it was sent. -/
theorem cutMessage_front {mss : Nat} {queue : List Ikcpseg} {message : List UInt8} {later : List Payload}
    (front : queue.map Ikcpseg.payload <+: messagePayloads mss message ++ later) (positive : 0 < mss)
    (few : fragmentCount mss message.length < ikcpWndRcv) (enough : fragmentCount mss message.length ≤ queue.length) :
    ∃ segs rest, queue = segs ++ rest ∧ cutMessage queue = (segs, rest) ∧
      segs.map Ikcpseg.payload = messagePayloads mss message := by
  have whole : messagePayloads mss message <+: queue.map Ikcpseg.payload := by
    refine List.prefix_of_prefix_length_le (List.prefix_append _ later) front ?_
    rw [messagePayloads, length_payloads, List.length_map]
    exact enough
  obtain ⟨tail, split⟩ := whole
  obtain ⟨segs, rest, rfl, first, -⟩ := List.map_eq_append_iff.mp split.symm
  refine ⟨segs, rest, rfl, ?_, first⟩
  have some := fragmentCount_pos positive message.length
  have count : fragmentCount mss message.length - 1 < 2 ^ 32 := by
    rw [ikcpWndRcv] at few
    omega
  refine cutMessage_payloads count (?_ : segs.map Ikcpseg.payload = payloads mss _ message)
  rw [Nat.sub_add_cancel some]
  exact first

/-- The next message is handed over as it was sent. -/
theorem Delivered.next (own : Local conv x) (delivered : Delivered x y) (queued : y.kcp.nrcvQue.toNat = y.kcp.rcvQueue.length)
    (some : y.kcp.rcvQueue ≠ []) (whole : 0 ≤ ikcpPeeksize y.kcp) : ∃ message, x.sent[y.got.length]? = Option.some message ∧
      (cutMessage y.kcp.rcvQueue).1.flatMap Ikcpseg.data = message ∧
      Delivered x { y with kcp := takeMessage y.kcp, got := y.got ++ [message] } := by
  obtain ⟨k, message, later, got, left, queue, front, complete⟩ := delivered.front own queued some
  have sent : message ∈ x.sent := List.mem_of_mem_drop (left ▸ List.mem_cons_self)
  obtain ⟨segs, rest, split, cut, fragments⟩ := cutMessage_front front own.some (own.few message sent) (complete.mp whole)
  have inside : k < x.sent.length := by
    have length := congrArg List.length left
    rw [List.length_drop, List.length_cons] at length
    omega
  have next : x.sent.take (k + 1) = x.sent.take k ++ [message] := by
    rw [List.take_add, left]
    rfl
  have count : y.got.length = k := by
    rw [got, List.length_take]
    omega
  refine ⟨message, ?_, ?_, k + 1, inside, ?_, ?_⟩
  · rw [count, ← List.head?_drop, left]
    rfl
  · have bytes : segs.flatMap Ikcpseg.data = (segs.map Ikcpseg.payload).flatMap Prod.snd := by
      rw [List.flatMap_map]
      rfl
    rw [cut, bytes, fragments, flatMap_messagePayloads own.some]
  · rw [next, got]
  · change x.log.take y.taken = _ ++ (cutMessage y.kcp.rcvQueue).2.map Ikcpseg.payload
    rw [queue, cut, next, List.flatMap_append, List.flatMap_singleton, ← fragments, List.append_assoc, ← List.map_append, ← split]

/-- A queue without a complete message has room. -/
theorem Delivered.few (own : Local conv x) (delivered : Delivered x y) (queued : y.kcp.nrcvQue.toNat = y.kcp.rcvQueue.length)
    (partly : ikcpPeeksize y.kcp < 0) : y.kcp.rcvQueue.length < ikcpWndRcv := by
  by_cases empty : y.kcp.rcvQueue = []
  · rw [empty]
    decide
  · obtain ⟨k, message, later, -, left, -, -, complete⟩ := delivered.front own queued empty
    have few := own.few message (List.mem_of_mem_drop (left ▸ List.mem_cons_self))
    have missing : ¬ fragmentCount x.kcp.mss.toNat message.length ≤ y.kcp.rcvQueue.length :=
      fun enough => absurd (complete.mpr enough) (Int.not_le.mpr partly)
    omega

/-- When all segments were taken, everything that is not handed over is in the queue. -/
theorem Delivered.rest (own : Local conv x) {k : Nat} (unsent : x.kcp.sndQueue = []) (all : y.taken = x.log.length)
    (queue : x.log.take y.taken = (x.sent.take k).flatMap (messagePayloads x.kcp.mss.toNat) ++ y.kcp.rcvQueue.map Ikcpseg.payload) :
    (x.sent.drop k).flatMap (messagePayloads x.kcp.mss.toNat) = y.kcp.rcvQueue.map Ikcpseg.payload := by
  have messages := own.messages
  rw [unsent, List.map_nil, List.append_nil] at messages
  rw [all, List.take_length, messages] at queue
  nth_rewrite 1 [← List.take_append_drop k x.sent] at queue
  rw [List.flatMap_append] at queue
  exact List.append_cancel_left queue

theorem Delivered.all (own : Local conv x) (delivered : Delivered x y) (queued : y.kcp.nrcvQue.toNat = y.kcp.rcvQueue.length)
    (unsent : x.kcp.sndQueue = []) (all : y.taken = x.log.length) (partly : ikcpPeeksize y.kcp < 0) : y.got = x.sent := by
  by_cases empty : y.kcp.rcvQueue = []
  · obtain ⟨k, inside, got, queue⟩ := delivered
    have left := rest own unsent all queue
    rw [empty, List.map_nil] at left
    have none : x.sent.drop k = [] := by
      cases shape : x.sent.drop k with
      | nil => rfl
      | cons message later =>
        have some := fragmentCount_pos own.some message.length
        rw [shape, List.flatMap_cons] at left
        have length := congrArg List.length (List.append_eq_nil_iff.mp left).1
        rw [messagePayloads, length_payloads, List.length_nil] at length
        omega
    rw [got, ← List.append_nil (List.take k _), ← none, List.take_append_drop]
  · obtain ⟨k, message, later, -, rest, queue, -, complete⟩ := delivered.front own queued empty
    have left := congrArg List.length (Delivered.rest own unsent all queue)
    rw [rest, List.flatMap_cons, List.length_append, messagePayloads, length_payloads, List.length_map] at left
    exact absurd (complete.mpr (by omega)) (Int.not_le.mpr partly)

end

end Xxlib.Kcp
