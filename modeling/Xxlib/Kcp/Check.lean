import Xxlib.Kcp.Hostile

/-! `ikcp_check` says when `ikcp_update` is to be called next, so that it is not called for nothing. -/

set_option autoImplicit false

namespace Xxlib.Kcp

section
variable {overhead : Nat} {kcp : Ikcpcb} {current later : UInt32}

theorem nextResend_pos {segs : List Ikcpseg} {tmPacket tm : Int} (positive : 0 < tmPacket)
    (found : nextResend current segs tmPacket = some tm) : 0 < tm := by
  induction segs generalizing tmPacket with
  | nil =>
    cases found
    exact positive
  | cons seg segs ih =>
    rw [nextResend] at found
    split at found
    · cases found
    · refine ih ?_ found
      split <;> omega

/-- When the next flush is not due yet, the answer is a time before it. -/
theorem check_cases (kcp : Ikcpcb) (current : UInt32) : ikcpCheck kcp current = current ∨
    kcp.updated = true ∧ -10000 ≤ itimediff current kcp.tsFlush ∧ itimediff current kcp.tsFlush < 0 ∧
      ∃ minimal : UInt32, ikcpCheck kcp current = current + minimal ∧ minimal ≤ kcp.interval ∧
        minimal.toNat ≤ itimediff kcp.tsFlush current := by
  unfold ikcpCheck
  by_cases updated : kcp.updated = true
  swap
  · rw [if_neg updated]
    exact .inl rfl
  rw [if_pos updated]
  by_cases reset : 10000 ≤ itimediff current kcp.tsFlush ∨ itimediff current kcp.tsFlush < -10000
  · have now : 0 ≤ itimediff current current := by
      rw [itimediff, ← current.ofNat_toNat, Lib.serialDiff_ofNat (by omega) (by omega)]
      omega
    dsimp only
    rw [if_pos reset, if_pos now]
    exact .inl rfl
  dsimp only
  rw [if_neg reset]
  by_cases due : 0 ≤ itimediff current kcp.tsFlush
  · rw [if_pos due]
    exact .inl rfl
  rw [if_neg due]
  have swap : itimediff kcp.tsFlush current = -itimediff current kcp.tsFlush := Lib.serialDiff_swap (by
    unfold itimediff at reset
    omega)
  cases found : nextResend current kcp.sndBuf 0x7fffffff with
  | none => exact .inl rfl
  | some tmPacket =>
    have positive := nextResend_pos (by decide) found
    have least (a b : UInt32) : (if a ≤ b then a else b) ≤ a ∧ (if a ≤ b then a else b).toNat ≤ b.toNat := by
      split
      · exact ⟨UInt32.le_refl _, UInt32.le_iff_toNat_le.mp ‹_›⟩
      · exact ⟨UInt32.le_of_lt (UInt32.not_le.mp ‹_›), Nat.le_refl _⟩
    refine .inr ⟨updated, by omega, by omega, _, rfl, (least _ _).1, ?_⟩
    refine Int.le_trans (Int.ofNat_le.mpr (least _ _).2) ?_
    rw [UInt32.toNat_ofNat']
    split <;> omega

theorem exists_after {a current : UInt32} (ahead : 0 ≤ itimediff a current) :
    ∃ n : Nat, itimediff a current = n ∧ a = UInt32.ofNat (current.toNat + n) := by
  refine ⟨(itimediff a current).toNat, (Int.toNat_of_nonneg ahead).symm, ?_⟩
  unfold itimediff at ahead ⊢
  rw [← current.ofNat_toNat] at ahead
  have place := Lib.eq_ofNat_of_serialDiff ahead
  rwa [UInt32.ofNat_toNat] at place

/-- `ikcp_update` does not flush before that time. -/
theorem update_of_early (updated : kcp.updated = true) (low : -10000 ≤ itimediff later kcp.tsFlush)
    (early : itimediff later kcp.tsFlush < 0) : ikcpUpdate overhead kcp later = ({ kcp with current := later }, []) := by
  unfold ikcpUpdate
  dsimp only
  rw [if_pos updated]
  dsimp only
  rw [if_neg (by omega), if_neg (by omega)]

/-- The answer is never further away than the interval. -/
theorem check_le_interval (kcp : Ikcpcb) (current : UInt32) : (ikcpCheck kcp current - current).toNat ≤ kcp.interval.toNat := by
  rcases check_cases kcp current with now | ⟨-, -, -, minimal, result, small, -⟩
  · rw [now, UInt32.sub_self, UInt32.toNat_zero]
    exact Nat.zero_le _
  · rw [result, UInt32.add_comm, UInt32.add_sub_cancel]
    exact UInt32.le_iff_toNat_le.mp small

/-! ## Other calls in between -/

/-- When the next flush is due. -/
def Clock (tsFlush : UInt32) (updated : Bool) (kcp : Ikcpcb) : Prop := kcp.tsFlush = tsFlush ∧ kcp.updated = updated

theorem clock_segment {tsFlush : UInt32} {updated : Bool} (clock : Clock tsFlush updated kcp) (maxack : Option UInt32) (seg : Ikcpseg) :
    Clock tsFlush updated (inputSegment kcp maxack seg).1 := by
  obtain ⟨_, _, _, _, _, _, _, accepted⟩ := accept_only (acknowledge kcp seg) seg
  obtain ⟨_, _, _, _, _, acknowledged, -⟩ := acknowledge_spec kcp seg
  rw [inputSegment_eq, accepted, acknowledged]
  exact clock

theorem clock_recv (kcp : Ikcpcb) (len : Int) : Clock kcp.tsFlush kcp.updated (ikcpRecv kcp len).2.2 := by
  rcases recv_eq kcp len with ⟨-, -, same⟩ | ⟨-, -, -, probe, result⟩
  · rw [same]
    exact ⟨rfl, rfl⟩
  · have taken : Clock kcp.tsFlush kcp.updated (if len < 0 then kcp else takeMessage kcp) := by
      split <;> exact ⟨rfl, rfl⟩
    obtain ⟨moved, rest, moves, -⟩ := moveLoop_eq (if len < 0 then kcp else takeMessage kcp) (if len < 0 then kcp else takeMessage kcp).rcvBuf
    rw [result, moveAvailable, moves]
    exact taken

/-- Only `ikcp_update` changes the time of the next flush. -/
theorem clock_apply {call : Call} {left : Ikcpcb × List (List UInt8)} (other : ∀ t, call ≠ .update t)
    (ran : call.apply overhead kcp = some left) : Clock kcp.tsFlush kcp.updated left.1 := by
  cases call with
  | send buffer =>
    obtain ⟨_, _, result, -⟩ := send_only kcp buffer
    cases ran
    rw [result]
    exact ⟨rfl, rfl⟩
  | recv len =>
    cases ran
    exact clock_recv kcp len
  | input data size =>
    dsimp only [Call.apply] at ran
    split at ran
    · rename_i returned
      cases ran
      refine input_keeps (fun kcp maxack header data before => clock_segment before maxack _) (fun kcp maxack una before => ?_)
        (⟨rfl, rfl⟩ : Clock kcp.tsFlush kcp.updated kcp) returned
      obtain ⟨_, _, _, result, -⟩ := finishInput_eq una kcp maxack
      rw [result]
      exact before
    · cases ran
  | update current => exact absurd rfl (other current)
  | flush =>
    cases ran
    by_cases updated : kcp.updated = true
    · obtain ⟨_, _, _, _, _, _, _, result, -⟩ := @flush_eq overhead kcp updated
      rw [result]
      exact ⟨rfl, rfl⟩
    · have same : ikcpFlush overhead kcp = (kcp, []) := if_neg updated
      rw [same]
      exact ⟨rfl, rfl⟩
  | wndsize sndwnd rcvwnd =>
    obtain ⟨_, _, result, -⟩ := wndsize_eq kcp sndwnd rcvwnd
    cases ran
    rw [result]
    exact ⟨rfl, rfl⟩
  | nodelay mode interval resend nc =>
    obtain ⟨_, _, _, _, _, result, -⟩ := nodelay_eq kcp mode interval resend nc
    cases ran
    rw [result]
    exact ⟨rfl, rfl⟩
  | minrto | stream =>
    cases ran
    exact ⟨rfl, rfl⟩

theorem clock_performed {calls : List Call} {kcp' : Ikcpcb} (others : ∀ call ∈ calls, ∀ t, call ≠ .update t)
    (ran : performed overhead kcp calls = some kcp') : Clock kcp.tsFlush kcp.updated kcp' := by
  induction calls generalizing kcp with
  | nil =>
    cases ran
    exact ⟨rfl, rfl⟩
  | cons call calls ih =>
    obtain ⟨left, first, rest⟩ := Option.bind_eq_some_iff.mp ran
    have clock := clock_apply (others call List.mem_cons_self) first
    have later := ih (fun call member => others call (List.mem_cons_of_mem _ member)) rest
    exact ⟨later.1.trans clock.1, later.2.trans clock.2⟩

/-- Between `current` and the answer of `ikcp_check`, whatever other calls are made, `ikcp_update` sends nothing, and changes nothing
but the clock. -/
theorem update_before_check {calls : List Call} {kcp' : Ikcpcb} (others : ∀ call ∈ calls, ∀ t, call ≠ .update t)
    (ran : performed overhead kcp calls = some kcp') (ahead : 0 ≤ itimediff later current)
    (before : itimediff later (ikcpCheck kcp current) < 0) : ikcpUpdate overhead kcp' later = ({ kcp' with current := later }, []) := by
  have clock := clock_performed others ran
  rcases check_cases kcp current with now | ⟨updated, low, early, minimal, result, -, small⟩
  · rw [now] at before
    omega
  have swap : itimediff kcp.tsFlush current = -itimediff current kcp.tsFlush := Lib.serialDiff_swap (by
    unfold itimediff at low
    omega)
  obtain ⟨flush, flushDiff, flushAt⟩ := exists_after (by omega : 0 ≤ itimediff kcp.tsFlush current)
  obtain ⟨l, laterDiff, laterAt⟩ := exists_after ahead
  have half : itimediff later current < 2 ^ 31 := Lib.serialDiff_lt later current
  have answer : ikcpCheck kcp current = UInt32.ofNat (current.toNat + minimal.toNat) := by
    rw [result, UInt32.ofNat_add, UInt32.ofNat_toNat, UInt32.ofNat_toNat]
  have near : l < minimal.toNat := by
    rw [answer, laterAt, itimediff, Lib.serialDiff_ofNat (by omega) (by omega)] at before
    omega
  have slap : itimediff later kcp.tsFlush = l - flush := by
    rw [flushAt, laterAt, itimediff, Lib.serialDiff_ofNat (by omega) (by omega)]
    omega
  refine update_of_early (clock.2.trans updated) ?_ ?_
  · rw [clock.1, slap]
    omega
  · rw [clock.1, slap]
    omega

/-- The flush is 5 ms away. -/
def waiting : Ikcpcb := (ikcpUpdate headerSize (ikcpNodelay (ikcpCreate headerSize .zero) 1 10 2 1) 4294967290).1

/-- Data to be sent in the meantime. -/
def queued : Ikcpcb := (ikcpSend waiting [1, 2, 3]).2

theorem update_before_check_waiting : ikcpCheck waiting 4294967295 = 4 ∧
    ikcpUpdate headerSize queued 3 = ({ queued with current := 3 }, []) :=
  ⟨by decide, @update_before_check headerSize waiting 4294967295 3 [.send [1, 2, 3]] queued
    (fun call member t same => by
      rw [List.mem_singleton.mp member] at same
      cases same) rfl (by decide) (by decide)⟩

end

end Xxlib.Kcp
