import Mathlib.Data.List.TakeWhile
import Xxlib.Kcp.Flush

/-! What the functions of KCP may change: a lemma for each of them. -/

set_option autoImplicit false

namespace Xxlib.Kcp

open Lib (toInt32 Numbered)

/-- What is sent of a segment besides its number: which fragment it is, and its data. -/
abbrev Payload := UInt32 × List UInt8

def Ikcpseg.payload (seg : Ikcpseg) : Payload := (seg.frg, seg.data)

section
variable {kcp : Ikcpcb} {segs : List Ikcpseg} {seg newseg : Ikcpseg} {sn una : UInt32}

/-! ## What acknowledgements remove -/

theorem removeAcked_sublist : (removeAcked sn segs).2.Sublist segs := by
  induction segs with
  | nil => exact List.Sublist.refl _
  | cons seg rest ih =>
    rw [removeAcked]
    split
    · exact List.sublist_cons_self seg rest
    · split
      · exact List.Sublist.refl _
      · exact ih.cons_cons seg

/-- Only a segment of that number is removed. -/
theorem mem_removeAcked (member : seg ∈ segs) : seg ∈ (removeAcked sn segs).2 ∨ seg.sn = sn := by
  induction segs with
  | nil => cases member
  | cons first rest ih =>
    rw [removeAcked]
    split
    · rcases List.mem_cons.mp member with rfl | later
      · exact .inr (Eq.symm ‹_›)
      · exact .inl later
    · split
      · exact .inl member
      · rcases List.mem_cons.mp member with rfl | later
        · exact .inl List.mem_cons_self
        · exact (ih later).imp_left (List.mem_cons_of_mem first)

theorem length_removeAcked :
    (removeAcked sn segs).2.length + (if (removeAcked sn segs).1 then 1 else 0) = segs.length := by
  induction segs with
  | nil => rfl
  | cons seg rest ih =>
    rw [removeAcked]
    split
    · rfl
    · split
      · rfl
      · simp only [List.length_cons]
        omega

theorem parseUnaLoop_eq : ikcpParseUnaLoop una kcp segs = { kcp with
    sndBuf := segs.dropWhile fun seg => 0 < itimediff una seg.sn
    nsndBuf := kcp.nsndBuf - UInt32.ofNat (segs.takeWhile fun seg => 0 < itimediff una seg.sn).length } := by
  induction segs generalizing kcp with
  | nil => simp [ikcpParseUnaLoop]
  | cons seg rest ih =>
    rw [ikcpParseUnaLoop]
    by_cases behind : 0 < itimediff una seg.sn
    · rw [if_pos behind, ih, List.dropWhile_cons_of_pos (by simpa using behind), List.takeWhile_cons_of_pos (by simpa using behind)]
      have counted (k : Nat) : kcp.nsndBuf - 1 - UInt32.ofNat k = kcp.nsndBuf - UInt32.ofNat (k + 1) := by
        rw [UInt32.ofNat_add]
        grind
      rw [List.length_cons, ← counted]
    · rw [if_neg behind, List.dropWhile_cons_of_neg (by simpa using behind), List.takeWhile_cons_of_neg (by simpa using behind)]
      simp

theorem mem_dropWhile_una (member : seg ∈ segs) :
    (seg ∈ segs.dropWhile fun seg => 0 < itimediff una seg.sn) ∨ 0 < itimediff una seg.sn := by
  rw [← List.takeWhile_append_dropWhile (p := fun seg : Ikcpseg => decide (0 < itimediff una seg.sn)) (l := segs),
    List.mem_append] at member
  rcases member with taken | left
  · exact .inr (by simpa using List.mem_takeWhile_imp taken)
  · exact .inl left

/-- What `ikcp_shrink_buf` makes of `snd_una`. -/
def shrunkUna (sndNxt : UInt32) : List Ikcpseg → UInt32
  | seg :: _ => seg.sn
  | [] => sndNxt

theorem shrinkBuf_eq (kcp : Ikcpcb) : ikcpShrinkBuf kcp = { kcp with sndUna := shrunkUna kcp.sndNxt kcp.sndBuf } := by
  unfold ikcpShrinkBuf
  split <;> rename_i shape <;> rw [shape] <;> rfl

/-- Segments have been taken out of `snd_buf`, for the reason `gone`, and `nsnd_buf` counts those that are left. -/
structure Reduced (gone : Ikcpseg → Prop) (segs : List Ikcpseg) (count : UInt32) (segs' : List Ikcpseg) (count' : UInt32) :
    Prop where
  sublist : segs'.Sublist segs
  count : count' = count - UInt32.ofNat (segs.length - segs'.length)
  kept : ∀ seg ∈ segs, seg ∈ segs' ∨ gone seg

theorem Reduced.trans {gone gone' : Ikcpseg → Prop} {segs' segs'' : List Ikcpseg} {count count' count'' : UInt32}
    (first : Reduced gone segs count segs' count') (second : Reduced gone' segs' count' segs'' count'') :
    Reduced (fun seg => gone seg ∨ gone' seg) segs count segs'' count'' where
  sublist := second.sublist.trans first.sublist
  count := by
    have less := first.sublist.length_le
    have lesser := second.sublist.length_le
    have sum : segs.length - segs''.length = (segs.length - segs'.length) + (segs'.length - segs''.length) := by omega
    rw [second.count, first.count, sum, UInt32.ofNat_add]
    grind
  kept seg member := by
    rcases first.kept seg member with stays | gone
    · exact (second.kept seg stays).imp_right .inr
    · exact .inr (.inl gone)

theorem Reduced.imp {gone gone' : Ikcpseg → Prop} {segs' : List Ikcpseg} {count count' : UInt32}
    (reduced : Reduced gone segs count segs' count') (weaker : ∀ seg, gone seg → gone' seg) : Reduced gone' segs count segs' count' where
  sublist := reduced.sublist
  count := reduced.count
  kept seg member := (reduced.kept seg member).imp_right (weaker seg)

/-- `ikcp_parse_una` -/
theorem parseUna_reduced (kcp : Ikcpcb) (una : UInt32) :
    ∃ sndBuf nsndBuf, ikcpParseUna kcp una = { kcp with sndBuf := sndBuf, nsndBuf := nsndBuf } ∧
      Reduced (fun seg => 0 < itimediff una seg.sn) kcp.sndBuf kcp.nsndBuf sndBuf nsndBuf := by
  have split : (kcp.sndBuf.takeWhile fun seg => 0 < itimediff una seg.sn).length +
      (kcp.sndBuf.dropWhile fun seg => 0 < itimediff una seg.sn).length = kcp.sndBuf.length := by
    rw [← List.length_append, List.takeWhile_append_dropWhile]
  refine ⟨_, _, parseUnaLoop_eq, List.dropWhile_sublist _, ?_, fun seg member => mem_dropWhile_una member⟩
  rw [← split, Nat.add_sub_cancel]

/-- `ikcp_parse_ack` -/
theorem parseAck_reduced (kcp : Ikcpcb) (sn : UInt32) :
    ∃ sndBuf nsndBuf, ikcpParseAck kcp sn = { kcp with sndBuf := sndBuf, nsndBuf := nsndBuf } ∧
      Reduced (fun seg => seg.sn = sn) kcp.sndBuf kcp.nsndBuf sndBuf nsndBuf := by
  unfold ikcpParseAck
  split
  · refine ⟨kcp.sndBuf, kcp.nsndBuf, rfl, List.Sublist.refl _, ?_, fun seg member => .inl member⟩
    rw [Nat.sub_self]
    exact (UInt32.sub_zero _).symm
  · have count := @length_removeAcked kcp.sndBuf sn
    refine ⟨_, _, rfl, removeAcked_sublist, ?_, fun seg member => mem_removeAcked member⟩
    by_cases found : (removeAcked sn kcp.sndBuf).1 = true
    · rw [if_pos found] at count ⊢
      rw [← count, Nat.add_sub_cancel_left]
      rfl
    · rw [if_neg found] at count ⊢
      rw [← count, Nat.add_zero, Nat.sub_self]
      exact (UInt32.sub_zero _).symm

/-! ## Data that become available -/

/-- What `moveLoop` did: which segments it moved, and why it stopped. -/
structure Moved (kcp : Ikcpcb) (segs moved rest : List Ikcpseg) : Prop where
  split : segs = moved ++ rest
  inOrder : ∀ i (small : i < moved.length), (moved.get ⟨i, small⟩).sn = kcp.rcvNxt + UInt32.ofNat i
  room : ∀ i < moved.length, kcp.nrcvQue + UInt32.ofNat i < kcp.rcvWnd
  stop : ∀ seg ∈ rest.head?, seg.sn = kcp.rcvNxt + UInt32.ofNat moved.length →
    kcp.rcvWnd ≤ kcp.nrcvQue + UInt32.ofNat moved.length

/-- The control block behind it. -/
def afterMove (kcp : Ikcpcb) (moved rest : List Ikcpseg) : Ikcpcb := { kcp with
  rcvBuf := rest
  nrcvBuf := kcp.nrcvBuf - UInt32.ofNat moved.length
  rcvQueue := kcp.rcvQueue ++ moved
  nrcvQue := kcp.nrcvQue + UInt32.ofNat moved.length
  rcvNxt := kcp.rcvNxt + UInt32.ofNat moved.length }

theorem moveLoop_eq (kcp : Ikcpcb) (segs : List Ikcpseg) :
    ∃ moved rest, moveLoop kcp segs = afterMove kcp moved rest ∧ Moved kcp segs moved rest := by
  induction segs generalizing kcp with
  | nil =>
    refine ⟨[], [], ?_, rfl, fun i small => absurd small (Nat.not_lt_zero i), fun i small => absurd small (Nat.not_lt_zero i), ?_⟩
    · simp [moveLoop, afterMove]
    · rintro seg ⟨⟩
  | cons seg rest ih =>
    rw [moveLoop]
    split
    · rename_i next
      obtain ⟨moved, left, result, before⟩ := ih { kcp with
        nrcvBuf := kcp.nrcvBuf - 1
        rcvQueue := kcp.rcvQueue ++ [seg]
        nrcvQue := kcp.nrcvQue + 1
        rcvNxt := kcp.rcvNxt + 1 }
      have up (a : UInt32) (k : Nat) : a + 1 + UInt32.ofNat k = a + UInt32.ofNat (k + 1) := by
        rw [UInt32.ofNat_add]
        grind
      have down (a : UInt32) (k : Nat) : a - 1 - UInt32.ofNat k = a - UInt32.ofNat (k + 1) := by
        rw [UInt32.ofNat_add]
        grind
      refine ⟨seg :: moved, left, ?_, ?_, ?_, ?_, ?_⟩
      · rw [result, afterMove, afterMove, List.append_assoc, List.singleton_append, List.length_cons, up, up, down]
      · rw [before.split]
        rfl
      · intro i small
        cases i with
        | zero => simpa using next.1
        | succ i => exact (before.inOrder i (Nat.lt_of_succ_lt_succ small)).trans (up _ i)
      · intro i small
        cases i with
        | zero => simpa using next.2
        | succ i =>
          rw [← up]
          exact before.room i (Nat.lt_of_succ_lt_succ small)
      · intro seg head same
        rw [List.length_cons, ← up] at same ⊢
        exact before.stop seg head same
    · rename_i stops
      refine ⟨[], seg :: rest, ?_, rfl, fun i small => absurd small (Nat.not_lt_zero i),
        fun i small => absurd small (Nat.not_lt_zero i), ?_⟩
      · simp [afterMove]
      · rintro _ ⟨⟩ same
        have none (a : UInt32) : a + UInt32.ofNat ([] : List Ikcpseg).length = a := UInt32.add_zero a
        rw [none] at same ⊢
        exact UInt32.not_lt.mp fun room => stops ⟨same, room⟩

section
variable {P : Nat → Ikcpseg → Prop} {before : List Ikcpseg} {ms : List Nat} {m : Nat}

/-- A segment is put where its number belongs, unless there is one of that number. -/
theorem insertFromBack_spec (nums : Numbered Ikcpseg.sn P before ms) (sorted : ms.Pairwise (· > ·))
    (number : newseg.sn = UInt32.ofNat m) (holds : P m newseg) (near : ∀ n ∈ ms, n < m + 2 ^ 31 ∧ m < n + 2 ^ 31) :
    m ∈ ms ∧ insertFromBack newseg before = none ∨
      ∃ found ms', insertFromBack newseg before = some found ∧ Numbered Ikcpseg.sn P found ms' ∧ ms'.Pairwise (· > ·) ∧
        (∀ k, k ∈ ms' ↔ k = m ∨ k ∈ ms) ∧ found.length = before.length + 1 := by
  induction nums with
  | nil => exact .inr ⟨[newseg], [m], rfl, .cons ⟨number, holds⟩ .nil, List.pairwise_singleton _ _, by simp, rfl⟩
  | @cons seg n before ms first nums ih =>
    obtain ⟨sorted₀, sortedRest⟩ := List.pairwise_cons.mp sorted
    obtain ⟨behind, ahead⟩ := near n List.mem_cons_self
    have difference : itimediff newseg.sn seg.sn = m - n := by
      rw [itimediff, number, first.1]
      exact Lib.serialDiff_ofNat (by omega) (by omega)
    have equal : seg.sn = newseg.sn ↔ n = m := by
      rw [number, first.1]
      exact ⟨Lib.eq_of_ofNat_eq (by omega) (by omega), fun same => by rw [same]⟩
    rw [insertFromBack]
    by_cases same : n = m
    · rw [if_pos (equal.mpr same)]
      exact .inl ⟨same ▸ List.mem_cons_self, rfl⟩
    · rw [if_neg fun found => same (equal.mp found), difference]
      by_cases larger : 0 < (m : Int) - n
      · rw [if_pos larger]
        refine .inr ⟨_, m :: n :: ms, rfl, .cons ⟨number, holds⟩ (.cons first nums), ?_, fun k => List.mem_cons, rfl⟩
        refine List.pairwise_cons.mpr ⟨fun k member => ?_, sorted⟩
        rcases List.mem_cons.mp member with rfl | later
        · omega
        · have := sorted₀ k later
          omega
      · rw [if_neg larger]
        rcases ih sortedRest fun k member => near k (List.mem_cons_of_mem n member) with ⟨member, repeated⟩ | inserted
        · exact .inl ⟨List.mem_cons_of_mem n member, by rw [repeated]; rfl⟩
        · obtain ⟨found, ms', result, nums', sorted', members, count⟩ := inserted
          refine .inr ⟨seg :: found, n :: ms', by rw [result]; rfl, .cons first nums', ?_, fun k => ?_, ?_⟩
          · refine List.pairwise_cons.mpr ⟨fun k member => ?_, sorted'⟩
            rcases (members k).mp member with rfl | later
            · omega
            · exact sorted₀ k later
          · rw [List.mem_cons, members, List.mem_cons]
            exact or_left_comm
          · rw [List.length_cons, List.length_cons, count]

end

/-! ## What does not touch the queues -/

theorem updateAck_eq (kcp : Ikcpcb) (rtt : Int32) : ∃ srtt rttval rto, ikcpUpdateAck kcp rtt = { kcp with
    rxSrtt := srtt, rxRttval := rttval, rxRto := (ibound kcp.rxMinrto.toUInt32 rto ikcpRtoMax).toInt32 } := by
  unfold ikcpUpdateAck
  split
  · exact ⟨_, _, _, rfl⟩
  · exact ⟨_, _, _, rfl⟩

theorem raiseCwnd_eq (kcp : Ikcpcb) : ∃ cwnd incr, raiseCwnd kcp = { kcp with cwnd := cwnd, incr := incr } := by
  unfold raiseCwnd
  split
  · exact ⟨_, _, rfl⟩
  · exact ⟨_, _, rfl⟩

theorem capCwnd_eq (kcp : Ikcpcb) : ∃ cwnd incr, capCwnd kcp = { kcp with cwnd := cwnd, incr := incr } := by
  unfold capCwnd
  split
  · exact ⟨_, _, rfl⟩
  · exact ⟨kcp.cwnd, kcp.incr, rfl⟩

theorem growCwnd_eq (kcp : Ikcpcb) (una : UInt32) : ∃ cwnd incr, growCwnd kcp una = { kcp with cwnd := cwnd, incr := incr } := by
  unfold growCwnd
  split
  · obtain ⟨_, _, raised⟩ := raiseCwnd_eq kcp
    obtain ⟨cwnd, incr, capped⟩ := capCwnd_eq (raiseCwnd kcp)
    exact ⟨cwnd, incr, by rw [capped, raised]⟩
  · exact ⟨kcp.cwnd, kcp.incr, rfl⟩

/-- The number of a segment and what it carries are the same, if not when it is sent next. -/
structure Alike (seg seg' : Ikcpseg) : Prop where
  sn : seg'.sn = seg.sn
  payload : seg'.payload = seg.payload
  conv : seg'.conv = seg.conv
  cmd : seg'.cmd = seg.cmd

theorem Alike.refl (seg : Ikcpseg) : Alike seg seg := ⟨rfl, rfl, rfl, rfl⟩

def SameSegments : List Ikcpseg → List Ikcpseg → Prop := List.Forall₂ Alike

theorem SameSegments.refl (segs : List Ikcpseg) : SameSegments segs segs := List.forall₂_same.mpr fun seg _ => .refl seg

theorem countFastack_same : SameSegments segs (countFastack sn segs) := by
  induction segs with
  | nil => exact .nil
  | cons seg rest ih =>
    rw [countFastack]
    split
    · exact .refl _
    · split
      · exact .cons ⟨rfl, rfl, rfl, rfl⟩ ih
      · exact .cons (.refl seg) ih

theorem finishInput_eq (una : UInt32) (kcp : Ikcpcb) (maxack : Option UInt32) : ∃ sndBuf cwnd incr,
    finishInput una kcp maxack = { kcp with sndBuf := sndBuf, cwnd := cwnd, incr := incr } ∧ SameSegments kcp.sndBuf sndBuf := by
  have refl : SameSegments kcp.sndBuf kcp.sndBuf := .refl _
  cases maxack with
  | none =>
    obtain ⟨cwnd, incr, result⟩ := growCwnd_eq kcp una
    exact ⟨kcp.sndBuf, cwnd, incr, result, refl⟩
  | some maxack =>
    obtain ⟨cwnd, incr, result⟩ := growCwnd_eq (ikcpParseFastack kcp maxack) una
    rw [finishInput, result]
    unfold ikcpParseFastack
    split
    · exact ⟨kcp.sndBuf, cwnd, incr, rfl, refl⟩
    · exact ⟨_, cwnd, incr, rfl, countFastack_same⟩

/-! ## Configuration -/

theorem toNat_imax_ge (a b : UInt32) : b.toNat ≤ (imax a b).toNat ∧ (imax a b = a ∨ imax a b = b) := by
  unfold imax
  split
  · exact ⟨UInt32.le_iff_toNat_le.mp ‹_›, .inl rfl⟩
  · exact ⟨Nat.le_refl _, .inr rfl⟩

theorem nodelay_eq (kcp : Ikcpcb) (nodelay interval resend nc : Int32) : ∃ nodelay' rxMinrto interval' fastresend nocwnd,
    ikcpNodelay kcp nodelay interval resend nc = { kcp with
      nodelay := nodelay', rxMinrto := rxMinrto, interval := interval', fastresend := fastresend, nocwnd := nocwnd } ∧
      (rxMinrto = kcp.rxMinrto ∨ rxMinrto = 30 ∨ rxMinrto = 100) := by
  obtain ⟨nodelay', rxMinrto, first, which⟩ : ∃ nodelay' rxMinrto, (if 0 ≤ nodelay then
      { kcp with nodelay := nodelay.toInt, rxMinrto := if nodelay ≠ 0 then 30 else 100 } else kcp) =
      { kcp with nodelay := nodelay', rxMinrto := rxMinrto } ∧ (rxMinrto = kcp.rxMinrto ∨ rxMinrto = 30 ∨ rxMinrto = 100) := by
    by_cases given : 0 ≤ nodelay
    · exact ⟨_, _, if_pos given, .inr (ite_eq_or_eq _ _ _)⟩
    · exact ⟨kcp.nodelay, kcp.rxMinrto, if_neg given, .inl rfl⟩
  obtain ⟨interval', second⟩ : ∃ interval', (if 0 ≤ interval then { kcp with
        nodelay := nodelay', rxMinrto := rxMinrto
        interval := (if 5000 < interval then 5000 else if interval < 10 then 10 else interval).toUInt32 }
      else { kcp with nodelay := nodelay', rxMinrto := rxMinrto }) =
      { kcp with nodelay := nodelay', rxMinrto := rxMinrto, interval := interval' } := by
    by_cases given : 0 ≤ interval
    · exact ⟨_, if_pos given⟩
    · exact ⟨kcp.interval, if_neg given⟩
  unfold ikcpNodelay
  rw [first]
  dsimp only
  rw [second]
  dsimp only
  split
  · split
    · exact ⟨_, _, _, _, _, rfl, which⟩
    · exact ⟨_, _, _, _, _, rfl, which⟩
  · split
    · exact ⟨_, _, _, _, _, rfl, which⟩
    · exact ⟨_, _, _, _, _, rfl, which⟩

theorem wndsize_eq (kcp : Ikcpcb) (sndwnd rcvwnd : Int32) : ∃ sndWnd rcvWnd,
    ikcpWndsize kcp sndwnd rcvwnd = { kcp with sndWnd := sndWnd, rcvWnd := rcvWnd } ∧
      (rcvWnd = kcp.rcvWnd ∨ 0 < rcvwnd ∧ rcvWnd = imax rcvwnd.toUInt32 (UInt32.ofNat ikcpWndRcv)) := by
  unfold ikcpWndsize
  split
  · split
    · exact ⟨_, _, rfl, .inr ⟨‹_›, rfl⟩⟩
    · exact ⟨_, _, rfl, .inl rfl⟩
  · split
    · exact ⟨_, _, rfl, .inr ⟨‹_›, rfl⟩⟩
    · exact ⟨_, _, rfl, .inl rfl⟩

/-- The MTU may be refused. -/
theorem setmtu_eq {overhead : Nat} (less : overhead < 50) (kcp : Ikcpcb) (mtu : Int32) : ikcpSetmtu overhead kcp mtu = (-1, kcp) ∨
    ∃ mtu' mss : UInt32, ikcpSetmtu overhead kcp mtu = (0, { kcp with mtu := mtu', mss := mss }) ∧
      mss.toNat + overhead = mtu'.toNat ∧ 0 < mss.toNat ∧ mtu'.toNat < 2 ^ 31 := by
  unfold ikcpSetmtu
  split
  · exact .inl rfl
  · rename_i fits
    obtain ⟨large, -⟩ := not_or.mp fits
    have small := mtu.toInt_lt
    have most : 50 ≤ mtu.toInt := Int32.le_iff_toInt_le.mp (Int32.not_lt.mp large)
    have positive : 0 ≤ mtu := Int32.le_iff_toInt_le.mpr (Int.le_trans (by decide) most)
    have value : mtu.toUInt32.toNat = mtu.toInt.toNat := Int32.toNat_toUInt32_of_le positive
    refine .inr ⟨_, _, rfl, ?_⟩
    rw [UInt32.toNat_sub, UInt32.toNat_ofNat', value]
    omega

/-! ## A segment that arrives -/

/-- What every segment does first, and what an acknowledgement does besides. -/
def acknowledge (kcp : Ikcpcb) (seg : Ikcpseg) : Ikcpcb :=
  let kcp := ikcpShrinkBuf (ikcpParseUna { kcp with rmtWnd := seg.wnd } seg.una)
  if seg.cmd = ikcpCmdAck then
    let rtt := itimediff kcp.current seg.ts
    ikcpShrinkBuf (ikcpParseAck (if 0 ≤ rtt then ikcpUpdateAck kcp (Int32.ofInt rtt) else kcp) seg.sn)
  else kcp

/-- What data and probes do then. -/
def accept (kcp : Ikcpcb) (seg : Ikcpseg) : Ikcpcb :=
  if seg.cmd = ikcpCmdPush then
    if itimediff seg.sn (kcp.rcvNxt + kcp.rcvWnd) < 0 then
      let kcp := ikcpAckPush kcp seg.sn seg.ts
      if 0 ≤ itimediff seg.sn kcp.rcvNxt then ikcpParseData kcp seg else kcp
    else kcp
  else if seg.cmd = ikcpCmdWask then { kcp with probe := kcp.probe ||| ikcpAskTell }
  else kcp

theorem inputSegment_eq (kcp : Ikcpcb) (maxack : Option UInt32) (seg : Ikcpseg) :
    (inputSegment kcp maxack seg).1 = accept (acknowledge kcp seg) seg := by
  unfold inputSegment acknowledge accept
  by_cases ack : seg.cmd = ikcpCmdAck
  · have push : seg.cmd ≠ ikcpCmdPush := by
      rw [ack]
      decide
    have wask : seg.cmd ≠ ikcpCmdWask := by
      rw [ack]
      decide
    rw [if_pos ack, if_pos ack, if_neg push, if_neg wask]
  · rw [if_neg ack, if_neg ack]
    by_cases push : seg.cmd = ikcpCmdPush
    · rw [if_pos push, if_pos push, apply_ite Prod.fst]
    · rw [if_neg push, if_neg push, apply_ite Prod.fst]

/-- Why a segment of `snd_buf` need not be sent again when `seg` has arrived. -/
def AckedBy (seg sent : Ikcpseg) : Prop := 0 < itimediff seg.una sent.sn ∨ seg.cmd = ikcpCmdAck ∧ sent.sn = seg.sn

theorem parseUna_shrink (kcp : Ikcpcb) (una : UInt32) : ∃ sndBuf nsndBuf,
    ikcpShrinkBuf (ikcpParseUna kcp una) =
      { kcp with sndBuf := sndBuf, nsndBuf := nsndBuf, sndUna := shrunkUna kcp.sndNxt sndBuf } ∧
      Reduced (fun seg => 0 < itimediff una seg.sn) kcp.sndBuf kcp.nsndBuf sndBuf nsndBuf := by
  obtain ⟨sndBuf, nsndBuf, result, reduced⟩ := parseUna_reduced kcp una
  exact ⟨sndBuf, nsndBuf, by rw [result, shrinkBuf_eq], reduced⟩

theorem parseAck_shrink (kcp : Ikcpcb) (sn : UInt32) : ∃ sndBuf nsndBuf,
    ikcpShrinkBuf (ikcpParseAck kcp sn) =
      { kcp with sndBuf := sndBuf, nsndBuf := nsndBuf, sndUna := shrunkUna kcp.sndNxt sndBuf } ∧
      Reduced (fun seg => seg.sn = sn) kcp.sndBuf kcp.nsndBuf sndBuf nsndBuf := by
  obtain ⟨sndBuf, nsndBuf, result, reduced⟩ := parseAck_reduced kcp sn
  exact ⟨sndBuf, nsndBuf, by rw [result, shrinkBuf_eq], reduced⟩

/-- The time that an acknowledgement took. -/
theorem timed_eq (kcp : Ikcpcb) (ts : UInt32) : ∃ srtt rttval rto,
    (if 0 ≤ itimediff kcp.current ts then ikcpUpdateAck kcp (Int32.ofInt (itimediff kcp.current ts)) else kcp) =
      { kcp with rxSrtt := srtt, rxRttval := rttval, rxRto := rto } ∧
      (rto = kcp.rxRto ∨ ∃ middle, rto = (ibound kcp.rxMinrto.toUInt32 middle ikcpRtoMax).toInt32) := by
  split
  · obtain ⟨srtt, rttval, middle, result⟩ := updateAck_eq kcp (Int32.ofInt (itimediff kcp.current ts))
    exact ⟨srtt, rttval, _, result, .inr ⟨middle, rfl⟩⟩
  · exact ⟨kcp.rxSrtt, kcp.rxRttval, kcp.rxRto, rfl, .inl rfl⟩

/-- Acknowledgements change nothing but the fields of the sender and the clock. -/
theorem acknowledge_spec (kcp : Ikcpcb) (seg : Ikcpseg) :
    ∃ sndBuf nsndBuf srtt rttval rto, acknowledge kcp seg = { kcp with
        rmtWnd := seg.wnd, sndBuf := sndBuf, nsndBuf := nsndBuf, sndUna := shrunkUna kcp.sndNxt sndBuf
        rxSrtt := srtt, rxRttval := rttval, rxRto := rto } ∧
      (rto = kcp.rxRto ∨ ∃ middle, rto = (ibound kcp.rxMinrto.toUInt32 middle ikcpRtoMax).toInt32) ∧
      Reduced (AckedBy seg) kcp.sndBuf kcp.nsndBuf sndBuf nsndBuf := by
  obtain ⟨sndBuf₁, nsndBuf₁, first, reduced₁⟩ := parseUna_shrink { kcp with rmtWnd := seg.wnd } seg.una
  unfold acknowledge
  dsimp only
  rw [first]
  by_cases ack : seg.cmd = ikcpCmdAck
  · rw [if_pos ack]
    obtain ⟨srtt, rttval, rto, second, bounds⟩ := timed_eq { kcp with
      rmtWnd := seg.wnd, sndBuf := sndBuf₁, nsndBuf := nsndBuf₁, sndUna := shrunkUna kcp.sndNxt sndBuf₁ } seg.ts
    rw [second]
    obtain ⟨sndBuf, nsndBuf, third, reduced₂⟩ := parseAck_shrink { kcp with
      rmtWnd := seg.wnd, sndBuf := sndBuf₁, nsndBuf := nsndBuf₁, sndUna := shrunkUna kcp.sndNxt sndBuf₁
      rxSrtt := srtt, rxRttval := rttval, rxRto := rto } seg.sn
    refine ⟨sndBuf, nsndBuf, srtt, rttval, rto, third, bounds, (reduced₁.trans reduced₂).imp fun sent gone => ?_⟩
    exact gone.imp_right fun same => ⟨ack, same⟩
  · rw [if_neg ack]
    exact ⟨sndBuf₁, nsndBuf₁, kcp.rxSrtt, kcp.rxRttval, kcp.rxRto, rfl, .inl rfl, reduced₁.imp fun sent gone => .inl gone⟩

/-- Data change nothing but the fields of the receiver. -/
theorem parseData_only (kcp : Ikcpcb) (seg : Ikcpseg) : ∃ rcvBuf nrcvBuf rcvQueue nrcvQue rcvNxt, ikcpParseData kcp seg = { kcp with
    rcvBuf := rcvBuf, nrcvBuf := nrcvBuf, rcvQueue := rcvQueue, nrcvQue := nrcvQue, rcvNxt := rcvNxt } := by
  unfold ikcpParseData
  split
  · exact ⟨_, _, _, _, _, rfl⟩
  · obtain ⟨rcvBuf, nrcvBuf, inserted⟩ : ∃ rcvBuf nrcvBuf, insertData kcp seg = { kcp with rcvBuf := rcvBuf, nrcvBuf := nrcvBuf } := by
      unfold insertData
      split
      · exact ⟨_, _, rfl⟩
      · exact ⟨_, _, rfl⟩
    rw [inserted]
    obtain ⟨moved, rest, result, -⟩ := moveLoop_eq { kcp with rcvBuf := rcvBuf, nrcvBuf := nrcvBuf } rcvBuf
    exact ⟨_, _, _, _, _, result⟩

theorem accept_only (kcp : Ikcpcb) (seg : Ikcpseg) : ∃ rcvBuf nrcvBuf rcvQueue nrcvQue rcvNxt acklist probe,
    accept kcp seg = { kcp with
      rcvBuf := rcvBuf, nrcvBuf := nrcvBuf, rcvQueue := rcvQueue, nrcvQue := nrcvQue, rcvNxt := rcvNxt
      acklist := acklist, probe := probe } := by
  unfold accept
  split
  · split
    · dsimp only
      split
      · obtain ⟨rcvBuf, nrcvBuf, rcvQueue, nrcvQue, rcvNxt, result⟩ := parseData_only (ikcpAckPush kcp seg.sn seg.ts) seg
        exact ⟨_, _, _, _, _, _, _, result⟩
      · exact ⟨_, _, _, _, _, _, _, rfl⟩
    · exact ⟨_, _, _, _, _, _, _, rfl⟩
  · split
    · exact ⟨_, _, _, _, _, _, _, rfl⟩
    · exact ⟨_, _, _, _, _, _, _, rfl⟩

theorem conv_inputSegment (kcp : Ikcpcb) (maxack : Option UInt32) (seg : Ikcpseg) :
    (inputSegment kcp maxack seg).1.conv = kcp.conv := by
  rw [inputSegment_eq]
  obtain ⟨_, _, _, _, _, _, _, accepted⟩ := accept_only (acknowledge kcp seg) seg
  obtain ⟨_, _, _, _, _, acknowledged, -⟩ := acknowledge_spec kcp seg
  rw [accepted, acknowledged]

end

end Xxlib.Kcp
