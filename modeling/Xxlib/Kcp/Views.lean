import Xxlib.Kcp.Messages

/-! The queues of KCP as lists of numbers that do not wrap, and what each function makes of them.

`P` is what is known of a segment and its number. Nothing has to be known where the bytes that arrive are arbitrary.
-/

set_option autoImplicit false

namespace Xxlib.Kcp

open Lib (Numbered serialDiff)

section
variable {P : Nat → Ikcpseg → Prop} {kcp : Ikcpcb} {taken : Nat} {hs : List Nat} {segs moved rest : List Ikcpseg}

theorem numbered_alike {segs' : List Ikcpseg} (nums : Numbered Ikcpseg.sn P segs hs) (same : SameSegments segs segs')
    (respects : ∀ n seg seg', Alike seg seg' → P n seg → P n seg') : Numbered Ikcpseg.sn P segs' hs := by
  induction same generalizing hs with
  | nil => exact nums
  | cons first _ ih =>
    cases nums with
    | cons number rest => exact .cons ⟨first.sn.trans number.1, respects _ _ _ first number.2⟩ (ih rest)

/-! ## The receiver -/

/-- What is in `rcv_buf` carries the numbers `hs`, and all numbers below `taken` have left it. -/
structure Holds (P : Nat → Ikcpseg → Prop) (kcp : Ikcpcb) (taken : Nat) (hs : List Nat) : Prop where
  nums : Numbered Ikcpseg.sn P kcp.rcvBuf hs
  sorted : hs.Pairwise (· < ·)
  range : ∀ h ∈ hs, taken ≤ h ∧ h < taken + 2 ^ 31
  nxt : kcp.rcvNxt = UInt32.ofNat taken
  queued : kcp.nrcvQue.toNat = kcp.rcvQueue.length
  buffered : kcp.nrcvBuf = UInt32.ofNat kcp.rcvBuf.length

/-- Nothing waits in `rcv_buf` that the queue could take: no window is smaller than this. -/
def Idle (kcp : Ikcpcb) (taken : Nat) (hs : List Nat) : Prop := kcp.rcvQueue.length < ikcpWndRcv → taken ∉ hs

theorem Moved.count (moves : Moved kcp segs moved rest) {k : Nat} (inside : k ≤ moved.length) :
    (kcp.nrcvQue + UInt32.ofNat k).toNat = kcp.nrcvQue.toNat + k := by
  induction k with
  | zero => exact congrArg UInt32.toNat (UInt32.add_zero kcp.nrcvQue)
  | succ k ih =>
    have room := UInt32.lt_iff_toNat_lt.mp (moves.room k inside)
    have few := kcp.rcvWnd.toNat_lt
    rw [ih (Nat.le_of_succ_le inside)] at room
    rw [UInt32.toNat_add, UInt32.toNat_ofNat']
    have := kcp.nrcvQue.toNat_lt
    omega

/-- The segments that were moved carry the next numbers. -/
theorem Moved.numbers (moves : Moved kcp segs moved rest) (nums : Numbered Ikcpseg.sn P segs hs)
    (range : ∀ h ∈ hs, taken ≤ h ∧ h < taken + 2 ^ 31) (nxt : kcp.rcvNxt = UInt32.ofNat taken) :
    ∃ ms, hs = List.range' taken moved.length ++ ms ∧ Numbered Ikcpseg.sn P moved (List.range' taken moved.length) ∧
      Numbered Ikcpseg.sn P rest ms := by
  have split := moves.split
  have first := List.forall₂_take moved.length nums
  have second := List.forall₂_drop moved.length nums
  rw [split, List.take_left] at first
  rw [split, List.drop_left] at second
  have long : moved.length ≤ hs.length := by
    rw [← nums.length_eq, split, List.length_append]
    exact Nat.le_add_right _ _
  have length : (hs.take moved.length).length = moved.length := List.length_take_of_le long
  have front : hs.take moved.length = List.range' taken moved.length := by
    apply List.ext_getElem
    · rw [length, List.length_range']
    · intro i small _
      rw [length] at small
      have number : UInt32.ofNat (taken + i) = UInt32.ofNat hs[i] := by
        have found := (first.get small (by rwa [length])).1
        rw [moves.inOrder i small, nxt, ← UInt32.ofNat_add, List.get_eq_getElem, List.getElem_take] at found
        exact found
      have there : hs[i] ∈ hs := List.getElem_mem _
      have inRange := range _ there
      have few : moved.length < 2 ^ 32 := by
        have all := moves.count (Nat.le_refl _)
        have := (kcp.nrcvQue + UInt32.ofNat moved.length).toNat_lt
        omega
      rw [List.getElem_range', List.getElem_take, Nat.one_mul]
      exact (Lib.eq_of_ofNat_eq (by omega) (by omega) number).symm
  refine ⟨hs.drop moved.length, ?_, front ▸ first, second⟩
  rw [← front, List.take_append_drop]

/-- The receiver goes on: `moved` comes to the end of the queue. Nothing else of the control block changes. -/
structure Advance (P : Nat → Ikcpseg → Prop) (kcp kcp' : Ikcpcb) (taken : Nat) (hs : List Nat) (moved : List Ikcpseg)
    (hs' : List Nat) : Prop where
  only : kcp' = { kcp with
    rcvBuf := kcp'.rcvBuf, nrcvBuf := kcp'.nrcvBuf, rcvQueue := kcp.rcvQueue ++ moved, nrcvQue := kcp'.nrcvQue, rcvNxt := kcp'.rcvNxt }
  nums : Numbered Ikcpseg.sn P moved (List.range' taken moved.length)
  holds : Holds P kcp' (taken + moved.length) hs'
  idle : Idle kcp taken hs → Idle kcp' (taken + moved.length) hs'
  kept : ∀ n, n < taken ∨ n ∈ hs → n < taken + moved.length ∨ n ∈ hs'
  bounded : kcp'.rcvQueue.length ≤ max kcp.rcvQueue.length kcp.rcvWnd.toNat

theorem Advance.refl (holds : Holds P kcp taken hs) : Advance P kcp kcp taken hs [] hs where
  only := by rw [List.append_nil]
  nums := .nil
  holds := holds
  idle idle := idle
  kept _ there := there
  bounded := Nat.le_max_left _ _

theorem Holds.move (holds : Holds P kcp taken hs) (least : ikcpWndRcv ≤ kcp.rcvWnd.toNat) :
    ∃ moved ms, Advance P kcp (moveAvailable kcp) taken hs moved ms ∧ hs = List.range' taken moved.length ++ ms ∧
      Idle (moveAvailable kcp) (taken + moved.length) ms := by
  obtain ⟨moved, rest, result, moves⟩ := moveLoop_eq kcp kcp.rcvBuf
  obtain ⟨ms, shape, first, second⟩ := moves.numbers holds.nums holds.range holds.nxt
  have count := moves.count (Nat.le_refl moved.length)
  have sorted := holds.sorted
  rw [shape, List.pairwise_append] at sorted
  have above : ∀ h ∈ ms, taken + moved.length ≤ h := by
    intro h member
    rcases Nat.eq_zero_or_pos moved.length with none | some
    · have := (holds.range h (shape ▸ List.mem_append_right _ member)).1
      omega
    · have last : taken + (moved.length - 1) ∈ List.range' taken moved.length := by
        rw [List.mem_range'_1]
        omega
      have := sorted.2.2 _ last h member
      omega
  have idle : Idle (moveAvailable kcp) (taken + moved.length) ms := by
    intro few there
    rw [moveAvailable, result, afterMove, List.length_append] at few
    obtain ⟨seg, rest, rfl, next⟩ : ∃ seg rest', rest = seg :: rest' ∧ seg.sn = UInt32.ofNat (taken + moved.length) := by
      cases second with
      | nil => cases there
      | @cons seg n rest ms number _ =>
        have start : n = taken + moved.length := by
          rcases List.mem_cons.mp there with same | later
          · exact same.symm
          · have := (List.pairwise_cons.mp sorted.2.1).1 _ later
            have := above n List.mem_cons_self
            omega
        exact ⟨seg, rest, rfl, start ▸ number.1⟩
    have full := UInt32.le_iff_toNat_le.mp (moves.stop seg rfl (by rw [next, holds.nxt, UInt32.ofNat_add]))
    rw [count, holds.queued] at full
    omega
  refine ⟨moved, ms, ⟨?_, first, ?_, fun _ => idle, ?_, ?_⟩, shape, idle⟩
  · rw [moveAvailable, result]
    rfl
  · rw [moveAvailable, result]
    refine ⟨second, sorted.2.1, fun h member => ⟨above h member, ?_⟩, ?_, ?_, ?_⟩
    · have := (holds.range h (shape ▸ List.mem_append_right _ member)).2
      omega
    · rw [afterMove, holds.nxt, ← UInt32.ofNat_add]
    · rw [afterMove, count, holds.queued, List.length_append]
    · have buffered := holds.buffered
      rw [moves.split, List.length_append, UInt32.ofNat_add] at buffered
      change kcp.nrcvBuf - UInt32.ofNat moved.length = UInt32.ofNat rest.length
      rw [buffered, UInt32.add_comm, UInt32.add_sub_cancel]
  · rintro n (done | waiting)
    · exact .inl (by omega)
    · rw [shape, List.mem_append, List.mem_range'_1] at waiting
      exact waiting.imp_left And.right
  · rw [moveAvailable, result, afterMove, List.length_append]
    rcases Nat.eq_zero_or_pos moved.length with none | some
    · rw [none]
      exact Nat.le_max_left _ _
    · have last := UInt32.lt_iff_toNat_lt.mp (moves.room (moved.length - 1) (by omega))
      rw [moves.count (by omega), holds.queued] at last
      omega

theorem Holds.dequeue (holds : Holds P kcp taken hs) :
    Holds P (takeMessage kcp) taken hs := by
  refine ⟨holds.nums, holds.sorted, holds.range, holds.nxt, ?_, holds.buffered⟩
  have split := congrArg List.length (cutMessage_append kcp.rcvQueue)
  have queued := holds.queued
  have small := kcp.nrcvQue.toNat_lt
  rw [List.length_append] at split
  change (kcp.nrcvQue - UInt32.ofNat (cutMessage kcp.rcvQueue).1.length).toNat = (cutMessage kcp.rcvQueue).2.length
  rw [UInt32.toNat_sub, UInt32.toNat_ofNat']
  omega

/-- `ikcp_parse_data` takes what is inside of the window. -/
theorem Holds.inWindow_iff (holds : Holds P kcp taken hs) (small : kcp.rcvWnd.toNat ≤ 2 ^ 31) {seg : Ikcpseg} {m : Nat}
    (low : taken ≤ m) (near : m < taken + 2 ^ 32) (number : seg.sn = UInt32.ofNat m) :
    (0 ≤ itimediff seg.sn (kcp.rcvNxt + kcp.rcvWnd) ∨ itimediff seg.sn kcp.rcvNxt < 0) ↔ ¬ m < taken + kcp.rcvWnd.toNat := by
  have ahead : itimediff seg.sn kcp.rcvNxt < 0 ↔ ¬ m < taken + 2 ^ 31 := by
    rw [itimediff, number, holds.nxt, ← Lib.serialDiff_nonneg_iff low near, Int.not_le]
  have limit : kcp.rcvNxt + kcp.rcvWnd = UInt32.ofNat (taken + kcp.rcvWnd.toNat) := by
    rw [UInt32.ofNat_add, holds.nxt, UInt32.ofNat_toNat]
  rw [ahead, limit]
  by_cases half : m < taken + 2 ^ 31
  · have difference : itimediff seg.sn (UInt32.ofNat (taken + kcp.rcvWnd.toNat)) = m - (taken + kcp.rcvWnd.toNat : Nat) := by
      rw [itimediff, number]
      exact Lib.serialDiff_ofNat (by omega) (by omega)
    rw [difference]
    omega
  · exact iff_of_true (.inr half) (by omega)

/-- The segment is put into `rcv_buf`, unless it is a repeat. -/
theorem Holds.insert (holds : Holds P kcp taken hs) {seg : Ikcpseg} {m : Nat} (low : taken ≤ m) (near : m < taken + 2 ^ 31)
    (number : seg.sn = UInt32.ofNat m) (known : P m seg) :
    insertData kcp seg = { kcp with rcvBuf := (insertData kcp seg).rcvBuf, nrcvBuf := (insertData kcp seg).nrcvBuf } ∧
      ∃ hs', Holds P (insertData kcp seg) taken hs' ∧ ∀ n, n ∈ hs' ↔ n = m ∨ n ∈ hs := by
  have close : ∀ n ∈ hs.reverse, n < m + 2 ^ 31 ∧ m < n + 2 ^ 31 := by
    intro n member
    have := holds.range n (List.mem_reverse.mp member)
    omega
  rcases insertFromBack_spec holds.nums.reverse (List.pairwise_reverse.mpr holds.sorted) number known close with
    ⟨member, repeated⟩ | ⟨found, ms, result, nums, sorted, members, count⟩
  · have same : insertData kcp seg = kcp := by
      unfold insertData
      rw [repeated]
    rw [same]
    refine ⟨rfl, hs, holds, fun n => ⟨.inr, ?_⟩⟩
    rintro (rfl | there)
    · exact List.mem_reverse.mp member
    · exact there
  · have grown : insertData kcp seg = { kcp with rcvBuf := found.reverse, nrcvBuf := kcp.nrcvBuf + 1 } := by
      unfold insertData
      rw [result]
    rw [grown]
    refine ⟨rfl, ms.reverse, ⟨nums.reverse, List.pairwise_reverse.mpr sorted, ?_, holds.nxt, holds.queued, ?_⟩, fun n => ?_⟩
    · intro h there
      rcases (members h).mp (List.mem_reverse.mp there) with rfl | old
      · exact ⟨low, near⟩
      · exact holds.range h (List.mem_reverse.mp old)
    · change kcp.nrcvBuf + 1 = UInt32.ofNat found.reverse.length
      rw [List.length_reverse, count, List.length_reverse, holds.buffered, Lib.ofNat_add_one]
    · rw [List.mem_reverse, members, List.mem_reverse]

/-- A segment inside of the window is kept, and one outside is not. -/
theorem Holds.parseData (holds : Holds P kcp taken hs) (least : ikcpWndRcv ≤ kcp.rcvWnd.toNat) (small : kcp.rcvWnd.toNat ≤ 2 ^ 31) (seg : Ikcpseg)
    (known : ∀ m, seg.sn = UInt32.ofNat m → taken ≤ m → m < taken + kcp.rcvWnd.toNat → P m seg) :
    ∃ moved hs', Advance P kcp (ikcpParseData kcp seg) taken hs moved hs' ∧
      (∀ m, seg.sn = UInt32.ofNat m → taken ≤ m → m < taken + kcp.rcvWnd.toNat → m < taken + moved.length ∨ m ∈ hs') ∧
      ∀ n, taken ≤ n ∧ n < taken + moved.length ∨ n ∈ hs' →
        n ∈ hs ∨ seg.sn = UInt32.ofNat n ∧ n < taken + kcp.rcvWnd.toNat := by
  obtain ⟨m, low, near, number⟩ := Lib.exists_ofNat_from seg.sn taken
  have only (n : Nat) (same : seg.sn = UInt32.ofNat n) (above : taken ≤ n) (below : n < taken + kcp.rcvWnd.toNat) : n = m :=
    Lib.eq_of_ofNat_eq (by omega) (by omega) (same.symm.trans number)
  have window := holds.inWindow_iff small low near number
  unfold ikcpParseData
  by_cases inside : m < taken + kcp.rcvWnd.toNat
  · rw [if_neg (fun outside => window.mp outside inside)]
    obtain ⟨rcvOnly, hs₁, holds₁, members⟩ := holds.insert low (by omega) number (known m number low inside)
    generalize insertData kcp seg = kcp₁ at rcvOnly holds₁ ⊢
    have least₁ : ikcpWndRcv ≤ kcp₁.rcvWnd.toNat := by rwa [rcvOnly]
    obtain ⟨moved, ms, advance, shape, idle⟩ := holds₁.move least₁
    have split (n : Nat) : taken ≤ n ∧ n < taken + moved.length ∨ n ∈ ms ↔ n = m ∨ n ∈ hs := by
      rw [← members, shape, List.mem_append, List.mem_range'_1]
    refine ⟨moved, ms, ⟨?_, advance.nums, advance.holds, fun _ => idle, ?_, ?_⟩, ?_, ?_⟩
    · rw [advance.only, rcvOnly]
    · rintro n (done | waiting)
      · exact .inl (by omega)
      · exact ((split n).mpr (.inr waiting)).imp_left And.right
    · have queue : kcp.rcvQueue = kcp₁.rcvQueue := by rw [rcvOnly]
      have window : kcp.rcvWnd = kcp₁.rcvWnd := by rw [rcvOnly]
      rw [queue, window]
      exact advance.bounded
    · intro n same above below
      exact ((split n).mpr (.inl (only n same above below))).imp_left And.right
    · intro n there
      rcases (split n).mp there with rfl | old
      · exact .inr ⟨number, inside⟩
      · exact .inl old
  · rw [if_pos (window.mpr inside)]
    refine ⟨[], hs, .refl holds, ?_, ?_⟩
    · intro n same above below
      exact absurd (only n same above below ▸ below) inside
    · rintro n (⟨above, below⟩ | there)
      · simp only [List.length_nil] at below
        omega
      · exact .inl there

/-- The fields of a receiver are the same. -/
structure SameReceiver (kcp kcp' : Ikcpcb) : Prop where
  rcvBuf : kcp'.rcvBuf = kcp.rcvBuf
  nrcvBuf : kcp'.nrcvBuf = kcp.nrcvBuf
  rcvQueue : kcp'.rcvQueue = kcp.rcvQueue
  nrcvQue : kcp'.nrcvQue = kcp.nrcvQue
  rcvNxt : kcp'.rcvNxt = kcp.rcvNxt

theorem Holds.congr {kcp' : Ikcpcb} (holds : Holds P kcp taken hs) (same : SameReceiver kcp kcp') : Holds P kcp' taken hs where
  nums := by
    rw [same.rcvBuf]
    exact holds.nums
  sorted := holds.sorted
  range := holds.range
  nxt := same.rcvNxt.trans holds.nxt
  queued := by rw [same.nrcvQue, same.rcvQueue, holds.queued]
  buffered := by rw [same.nrcvBuf, same.rcvBuf, holds.buffered]

theorem Idle.congr {kcp' : Ikcpcb} (idle : Idle kcp taken hs) (same : SameReceiver kcp kcp') : Idle kcp' taken hs := by
  intro few
  exact idle (same.rcvQueue ▸ few)

/-! ## The sender -/

variable {nxt : Nat} {ns : List Nat}

/-- What is in `snd_buf` carries the numbers `ns`, the numbers below `nxt` have been given, and no more of them are on their way
than a window has. -/
structure Unacked (P : Nat → Ikcpseg → Prop) (kcp : Ikcpcb) (nxt : Nat) (ns : List Nat) : Prop where
  nums : Numbered Ikcpseg.sn P kcp.sndBuf ns
  sorted : ns.Pairwise (· < ·)
  below : ∀ n ∈ ns, n < nxt
  nxtEq : kcp.sndNxt = UInt32.ofNat nxt
  una : kcp.sndUna = UInt32.ofNat (ns.headD nxt)
  window : nxt ≤ ns.headD nxt + 65535
  buffered : kcp.nsndBuf = UInt32.ofNat kcp.sndBuf.length

/-- The fields of a sender are the same. -/
structure SameSender (kcp kcp' : Ikcpcb) : Prop where
  conv : kcp'.conv = kcp.conv
  sndBuf : kcp'.sndBuf = kcp.sndBuf
  nsndBuf : kcp'.nsndBuf = kcp.nsndBuf
  sndNxt : kcp'.sndNxt = kcp.sndNxt
  sndUna : kcp'.sndUna = kcp.sndUna

theorem Unacked.congr {kcp' : Ikcpcb} (unacked : Unacked P kcp nxt ns) (same : SameSender kcp kcp') : Unacked P kcp' nxt ns where
  nums := by
    rw [same.sndBuf]
    exact unacked.nums
  sorted := unacked.sorted
  below := unacked.below
  nxtEq := same.sndNxt.trans unacked.nxtEq
  una := same.sndUna.trans unacked.una
  window := unacked.window
  buffered := by rw [same.nsndBuf, same.sndBuf, unacked.buffered]

theorem headD_le_of_mem {n : Nat} (sorted : ns.Pairwise (· < ·)) (member : n ∈ ns) : ns.headD nxt ≤ n := by
  cases ns with
  | nil => cases member
  | cons first rest =>
    rcases List.mem_cons.mp member with rfl | later
    · exact Nat.le_refl _
    · exact Nat.le_of_lt ((List.pairwise_cons.mp sorted).1 n later)

theorem headD_le (below : ∀ n ∈ ns, n < nxt) : ns.headD nxt ≤ nxt := by
  cases ns with
  | nil => exact Nat.le_refl _
  | cons first rest => exact Nat.le_of_lt (below first List.mem_cons_self)

/-- What has been acknowledged below the first number is never asked for again. -/
theorem headD_le_headD {ms : List Nat} (sorted : ns.Pairwise (· < ·)) (below : ∀ n ∈ ns, n < nxt) (less : ms.Sublist ns) :
    ns.headD nxt ≤ ms.headD nxt := by
  cases ms with
  | nil => exact headD_le below
  | cons first rest => exact headD_le_of_mem sorted (less.subset List.mem_cons_self)

theorem shrunkUna_eq {sndNxt : UInt32} (nums : Numbered Ikcpseg.sn P segs ns) (nxtEq : sndNxt = UInt32.ofNat nxt) :
    shrunkUna sndNxt segs = UInt32.ofNat (ns.headD nxt) := by
  cases nums with
  | nil => exact nxtEq
  | cons first _ => exact first.1

theorem Unacked.reduce (unacked : Unacked P kcp nxt ns) (kcp' : Ikcpcb) {gone : Ikcpseg → Prop} {sndBuf : List Ikcpseg}
    {nsndBuf : UInt32} (reduced : Reduced gone kcp.sndBuf kcp.nsndBuf sndBuf nsndBuf) (buf : kcp'.sndBuf = sndBuf)
    (count : kcp'.nsndBuf = nsndBuf) (same : kcp'.sndNxt = kcp.sndNxt) (una : kcp'.sndUna = shrunkUna kcp.sndNxt sndBuf) :
    ∃ ms, ms.Sublist ns ∧ Unacked P kcp' nxt ms ∧
      ∀ n ∈ ns, n ∈ ms ∨ ∃ seg ∈ kcp.sndBuf, seg.sn = UInt32.ofNat n ∧ P n seg ∧ gone seg := by
  obtain ⟨ms, less, nums⟩ := unacked.nums.sublist reduced.sublist
  have later := headD_le_headD unacked.sorted unacked.below less
  have window := unacked.window
  refine ⟨ms, less, ⟨buf ▸ nums, unacked.sorted.sublist less, fun n member => unacked.below n (less.subset member),
    same.trans unacked.nxtEq, una.trans (shrunkUna_eq nums unacked.nxtEq), by omega, ?_⟩, fun n member => ?_⟩
  · have fewer := reduced.sublist.length_le
    rw [count, reduced.count, unacked.buffered, buf, UInt32.sub_eq_iff_eq_add, ← UInt32.ofNat_add, Nat.add_sub_cancel' fewer]
  · obtain ⟨seg, there, number, holds⟩ := unacked.nums.exists_item member
    rcases reduced.kept seg there with stays | gone
    · obtain ⟨m, found, same, -⟩ := nums.exists_number stays
      have low : ns.headD nxt ≤ n := headD_le_of_mem unacked.sorted member
      have high := unacked.below n member
      have low' : ns.headD nxt ≤ m := headD_le_of_mem unacked.sorted (less.subset found)
      have high' := unacked.below m (less.subset found)
      have equal : n = m := Lib.eq_of_ofNat_eq (by omega) (by omega) (number.symm.trans same)
      exact .inl (equal ▸ found)
    · exact .inr ⟨seg, there, number, holds, gone⟩

/-- Segments are sent, or are skipped by acknowledgements, and stay what they are. -/
theorem Unacked.alike {kcp' : Ikcpcb} (unacked : Unacked P kcp nxt ns) (same : SameSegments kcp.sndBuf kcp'.sndBuf)
    (respects : ∀ n seg seg', Alike seg seg' → P n seg → P n seg') (count : kcp'.nsndBuf = kcp.nsndBuf)
    (sndNxt : kcp'.sndNxt = kcp.sndNxt) (una : kcp'.sndUna = kcp.sndUna) : Unacked P kcp' nxt ns where
  nums := numbered_alike unacked.nums same respects
  sorted := unacked.sorted
  below := unacked.below
  nxtEq := sndNxt.trans unacked.nxtEq
  una := una.trans unacked.una
  window := unacked.window
  buffered := by rw [count, unacked.buffered, same.length_eq]

end

end Xxlib.Kcp
