import Xxlib.Uv4.Receive

/-! When the loop of `ReceiveImpl` makes progress.

The length of a big package is read as an `int`. A negative one becomes a huge `size_t`,
and the sum that is compared with the buffer's length wraps around to a small one.
-/

set_option autoImplicit false

namespace Xxlib.Uv4

open Lib

/-! ## The length of a package -/

/-- The four bytes of the length of a big package, as an unsigned number. -/
def lengthWord (buf : List UInt8) (offset : Nat) : Nat :=
  shortLen buf offset + byteAt buf (offset + 3) <<< 16 + byteAt buf (offset + 4) <<< 24

theorem shortLen_lt (buf : List UInt8) (offset : Nat) : shortLen buf offset < 2 ^ 16 := by
  have low := byteAt_lt buf (offset + 1)
  have high := byteAt_lt buf (offset + 2)
  unfold shortLen
  rw [Nat.shiftLeft_eq]
  omega

theorem lengthWord_lt (buf : List UInt8) (offset : Nat) : lengthWord buf offset < 2 ^ 32 := by
  have short := shortLen_lt buf offset
  have third := byteAt_lt buf (offset + 3)
  have fourth := byteAt_lt buf (offset + 4)
  unfold lengthWord
  rw [Nat.shiftLeft_eq, Nat.shiftLeft_eq]
  omega

/-- A length from `2 ^ 31` on is taken for a negative number. -/
theorem bigLen_eq (buf : List UInt8) (offset : Nat) : bigLen buf offset =
    if lengthWord buf offset < 2 ^ 31 then lengthWord buf offset
    else 2 ^ 64 - (2 ^ 32 - lengthWord buf offset) := by
  have short := shortLen_lt buf offset
  have third := byteAt_lt buf (offset + 3)
  have fourth := byteAt_lt buf (offset + 4)
  unfold bigLen lengthWord size sizeOfInt
  rw [Nat.shiftLeft_eq, Nat.shiftLeft_eq, Int.bmod]
  split <;> split <;> omega

/-! ## Rounds -/

/-- Whether the loop goes on behind the package at `pkgOffset`: its serial number, if any, can be read,
and the peer is still connected after the handler. -/
def goesOn (peer : Peer) (buf : List UInt8) (pkgOffset headerLen : Nat) : Bool :=
  let typeId := byteAt buf pkgOffset
  let routed := 0 < typeId &&& 8
  let addrLen := if routed then (typeId >>> 4) + 1 else 0
  if routed ∧ peer.isReceiver = false then !peer.disconnected
  else if typeId &&& 3 = 0 then !peer.disconnected
  else
    match varRead7 buf (size (size (pkgOffset + headerLen) + addrLen)) with
    | .error _ => false
    | .ok _ => typeId &&& 3 = 3 || !peer.disconnected

theorem low_bits (n : Nat) : n &&& 3 < 4 := by
  rw [show (3 : Nat) = 2 ^ 2 - 1 from rfl, Nat.and_two_pow_sub_one_eq_mod]
  exact Nat.mod_lt n (by decide)

theorem dispatch_goesOn (peer : Peer) (buf : List UInt8) (pkgOffset headerLen dataLen : Nat)
    (sender : List UInt8) :
    (dispatch peer buf pkgOffset headerLen dataLen sender).1 = goesOn peer buf pkgOffset headerLen := by
  have bits := low_bits (byteAt buf pkgOffset)
  simp only [dispatch, goesOn]
  split
  · rfl
  · split
    · rfl
    · next serial =>
      cases varRead7 buf (size (size (pkgOffset + headerLen) +
          if 0 < byteAt buf pkgOffset &&& 8 then (byteAt buf pkgOffset >>> 4) + 1 else 0)) with
      | error code => rfl
      | ok result =>
        by_cases request : byteAt buf pkgOffset &&& 3 = 1
        · simp [request]
        · by_cases callback : byteAt buf pkgOffset &&& 3 = 2
          · simp [callback]
          · have other : byteAt buf pkgOffset &&& 3 = 3 := by omega
            simp [other]

/-- The loop goes on exactly behind a whole package that it goes on behind. -/
theorem round_next_iff (peer : Peer) (buf : List UInt8) (offset offset' : Nat) :
    (∃ sender sender' events, round peer buf offset sender = .next offset' sender' events) ↔
      ∃ headerLen dataLen, readHeader buf offset = .whole headerLen dataLen ∧
        goesOn peer buf offset headerLen = true ∧ offset' = size (size (offset + headerLen) + dataLen) := by
  constructor
  · rintro ⟨sender, sender', events, step⟩
    unfold round at step
    split at step
    · cases step
    · cases step
    · next headerLen dataLen header =>
      have goes := dispatch_goesOn peer buf offset headerLen dataLen sender
      split at step
      · cases step
      · next dispatched =>
        rw [dispatched] at goes
        cases step
        exact ⟨headerLen, dataLen, header, goes.symm, rfl⟩
  · rintro ⟨headerLen, dataLen, header, goes, rfl⟩
    rw [← dispatch_goesOn peer buf offset headerLen dataLen []] at goes
    refine ⟨[], (dispatch peer buf offset headerLen dataLen []).2.1,
      (dispatch peer buf offset headerLen dataLen []).2.2, ?_⟩
    unfold round
    rw [header]
    simp only
    split
    · next dispatched =>
      rw [dispatched] at goes
      cases goes
    · next dispatched => rw [dispatched]

/-! ## Progress -/

/-- The offsets the loop comes to, from the front of the buffer on. -/
inductive Reached (peer : Peer) (buf : List UInt8) : Nat → Prop where
  | start : Reached peer buf 0
  | next {offset offset' : Nat} {sender sender' : List UInt8} {events : List Event}
      (before : Reached peer buf offset)
      (step : round peer buf offset sender = .next offset' sender' events) : Reached peer buf offset'

/-- A round that goes on gets further, and stays in the buffer. -/
def Progresses (peer : Peer) (buf : List UInt8) (offset : Nat) : Prop :=
  ∀ sender offset' sender' events, round peer buf offset sender = .next offset' sender' events →
    offset < offset' ∧ offset' ≤ buf.length

/-- A big package whose length reads as `-k`, with `5 ≤ k ≤ offset + 5`, and that the loop goes on
behind. -/
def Stalls (peer : Peer) (buf : List UInt8) (offset : Nat) : Prop :=
  offset + 5 ≤ buf.length ∧ 0 < byteAt buf offset &&& 0x4 ∧ 2 ^ 31 ≤ lengthWord buf offset ∧
    5 ≤ 2 ^ 32 - lengthWord buf offset ∧ 2 ^ 32 - lengthWord buf offset ≤ offset + 5 ∧
    goesOn peer buf offset 5 = true

section
variable {peer : Peer} {buf : List UInt8} {offset headerLen dataLen : Nat}

/-- What the checks of the header let through. -/
theorem readHeader_whole (small : buf.length < 2 ^ 63) (inside : offset ≤ buf.length)
    (header : readHeader buf offset = .whole headerLen dataLen) :
    (headerLen = 3 ∧ dataLen = shortLen buf offset ∧ 0 < dataLen ∧ offset + 3 + dataLen ≤ buf.length) ∨
      (headerLen = 5 ∧ dataLen = bigLen buf offset ∧ 0 < dataLen ∧ offset + 5 ≤ buf.length ∧
        0 < byteAt buf offset &&& 0x4 ∧ size (offset + 5 + dataLen) ≤ buf.length) := by
  have short := shortLen_lt buf offset
  have three : size (offset + 3) = offset + 3 := Nat.mod_eq_of_lt (by omega)
  have five : size (offset + 5) = offset + 5 := Nat.mod_eq_of_lt (by omega)
  have whole : size (offset + 3 + shortLen buf offset) = offset + 3 + shortLen buf offset :=
    Nat.mod_eq_of_lt (by omega)
  unfold readHeader at header
  rw [three, five] at header
  split at header
  · by_cases big : 0 < byteAt buf offset &&& 0x4
    · simp only [big, true_and, ↓reduceIte] at header
      split at header
      · cases header
      · split at header
        · cases header
        · split at header
          · cases header
          · next fits =>
            cases header
            exact .inr ⟨rfl, rfl, by omega, by omega, big, Nat.not_lt.mp fits⟩
    · simp only [big, false_and, ↓reduceIte] at header
      split at header
      · cases header
      · split at header
        · cases header
        · next fits =>
          cases header
          rw [whole] at fits
          exact .inl ⟨rfl, rfl, by omega, by omega⟩
  · cases header

theorem readHeader_stalls (small : buf.length < 2 ^ 63) (stalls : Stalls peer buf offset) :
    readHeader buf offset = .whole 5 (bigLen buf offset) ∧
      size (size (offset + 5) + bigLen buf offset) ≤ offset := by
  obtain ⟨inside, big, negative, least, most, -⟩ := stalls
  have value : bigLen buf offset = 2 ^ 64 - (2 ^ 32 - lengthWord buf offset) := by
    rw [bigLen_eq, if_neg (by omega)]
  have limit := lengthWord_lt buf offset
  have three : size (offset + 3) = offset + 3 := Nat.mod_eq_of_lt (by omega)
  have five : size (offset + 5) = offset + 5 := Nat.mod_eq_of_lt (by omega)
  -- The sum wraps around to a place before the end of the header.
  have wrapped : size (offset + 5 + bigLen buf offset) = offset + 5 - (2 ^ 32 - lengthWord buf offset) := by
    unfold size
    omega
  constructor
  · unfold readHeader
    rw [three, five, if_pos (by omega)]
    simp only [big, true_and, ↓reduceIte, wrapped]
    rw [if_neg (by omega), if_neg (by omega), if_neg (by omega)]
  · rw [five, wrapped]
    omega

theorem progresses_of_not_stalls (small : buf.length < 2 ^ 63) (inside : offset ≤ buf.length)
    (free : ¬ Stalls peer buf offset) : Progresses peer buf offset := by
  intro sender offset' sender' events step
  obtain ⟨headerLen, dataLen, header, goes, rfl⟩ :=
    (round_next_iff peer buf offset offset').mp ⟨sender, sender', events, step⟩
  rcases readHeader_whole small inside header with short | long
  · obtain ⟨three, length, positive, fits⟩ := short
    subst three length
    have place : size (size (offset + 3) + shortLen buf offset) = offset + 3 + shortLen buf offset := by
      unfold size
      omega
    rw [place]
    omega
  · obtain ⟨five, length, positive, room, big, fits⟩ := long
    rw [five] at goes ⊢
    rw [length] at positive fits ⊢
    have limit := lengthWord_lt buf offset
    have place : size (size (offset + 5) + bigLen buf offset) = size (offset + 5 + bigLen buf offset) := by
      unfold size
      omega
    rw [place]
    refine ⟨?_, fits⟩
    have value := bigLen_eq buf offset
    by_cases plain : lengthWord buf offset < 2 ^ 31
    · rw [if_pos plain] at value
      unfold size at fits ⊢
      omega
    · rw [if_neg plain] at value
      -- Of the negative lengths only those from -4 to -1 get further.
      have few : ¬ (5 ≤ 2 ^ 32 - lengthWord buf offset ∧ 2 ^ 32 - lengthWord buf offset ≤ offset + 5) :=
        fun ⟨least, most⟩ => free ⟨room, big, by omega, least, most, goes⟩
      unfold size at fits ⊢
      omega

theorem stalls_not_progresses (small : buf.length < 2 ^ 63) (stalls : Stalls peer buf offset) :
    ¬ Progresses peer buf offset := by
  intro progresses
  obtain ⟨header, back⟩ := readHeader_stalls small stalls
  obtain ⟨sender, sender', events, step⟩ :=
    (round_next_iff peer buf offset _).mpr ⟨5, _, header, stalls.2.2.2.2.2, rfl⟩
  have further := (progresses sender _ sender' events step).1
  omega

theorem Reached.inside (reached : Reached peer buf offset)
    (progress : ∀ offset, Reached peer buf offset → Progresses peer buf offset) : offset ≤ buf.length := by
  cases reached with
  | start => exact Nat.zero_le _
  | next before step => exact (progress _ before _ _ _ _ step).2

/-- Progress bounds the number of rounds. -/
theorem receiveLoop_returns (progress : ∀ offset, Reached peer buf offset → Progresses peer buf offset)
    (fuel offset : Nat) (sender : List UInt8) (reached : Reached peer buf offset)
    (enough : buf.length - offset < fuel) : ∃ out, receiveLoop peer buf fuel offset sender = some out := by
  induction fuel generalizing offset sender with
  | zero => omega
  | succ fuel ih =>
    unfold receiveLoop
    cases step : round peer buf offset sender with
    | finish => exact ⟨_, rfl⟩
    | leave sender events => exact ⟨_, rfl⟩
    | next offset' sender' events =>
      have further := progress offset reached _ _ _ _ step
      obtain ⟨out, rest⟩ := ih offset' sender' (reached.next step) (by omega)
      exact ⟨_, by simp only [rest, Option.map_some]; rfl⟩

theorem Reached.progresses (small : buf.length < 2 ^ 63)
    (free : ∀ offset, Reached peer buf offset → ¬ Stalls peer buf offset) (reached : Reached peer buf offset) :
    offset ≤ buf.length ∧ Progresses peer buf offset := by
  induction reached with
  | start => exact ⟨Nat.zero_le _, progresses_of_not_stalls small (Nat.zero_le _) (free 0 .start)⟩
  | next before step ih =>
    have inside := (ih.2 _ _ _ _ step).2
    exact ⟨inside, progresses_of_not_stalls small inside (free _ (before.next step))⟩

end

/-- Whatever `bbRecv` holds and whatever arrives, every round of `ReceiveImpl` makes progress, and the
call returns, exactly if the loop comes to no package that stalls it. -/
theorem receive_progress_iff (peer : Peer) (bbRecv chunk : List UInt8)
    (small : (bbRecv ++ chunk).length < 2 ^ 63) :
    ((∀ offset, Reached peer (bbRecv ++ chunk) offset → Progresses peer (bbRecv ++ chunk) offset) ∧
      ∀ sender, ∃ fuel out, receiveImpl peer fuel bbRecv sender chunk = some out) ↔
    ∀ offset, Reached peer (bbRecv ++ chunk) offset → ¬ Stalls peer (bbRecv ++ chunk) offset := by
  constructor
  · rintro ⟨progress, -⟩ offset reached stalls
    exact stalls_not_progresses small stalls (progress offset reached)
  · intro free
    have progress : ∀ offset, Reached peer (bbRecv ++ chunk) offset → Progresses peer (bbRecv ++ chunk) offset :=
      fun offset reached => (reached.progresses small free).2
    refine ⟨progress, fun sender => ?_⟩
    obtain ⟨out, returns⟩ := receiveLoop_returns progress ((bbRecv ++ chunk).length + 1) 0 sender .start
      (Nat.lt_succ_of_le (Nat.sub_le _ _))
    exact ⟨_, out, returns⟩

/-- A package of one byte. -/
theorem receive_progress_one_byte :
    (∀ offset, Reached ⟨true, false⟩ ([] ++ [0, 1, 0, 7]) offset →
      Progresses ⟨true, false⟩ ([] ++ [0, 1, 0, 7]) offset) ∧
    ∀ sender, ∃ fuel out, receiveImpl ⟨true, false⟩ fuel [] sender [0, 1, 0, 7] = some out := by
  refine (receive_progress_iff ⟨true, false⟩ [] [0, 1, 0, 7] (by decide)).mpr ?_
  intro offset _ stalls
  have room : offset + 5 ≤ 4 := stalls.1
  omega

/-- The header of a big package with the length -5 keeps the loop where it is. -/
theorem receive_loops : ¬ ∀ (peer : Peer) (bbRecv chunk : List UInt8), (bbRecv ++ chunk).length < 2 ^ 63 →
    (∀ offset, Reached peer (bbRecv ++ chunk) offset → Progresses peer (bbRecv ++ chunk) offset) ∧
      ∀ sender, ∃ fuel out, receiveImpl peer fuel bbRecv sender chunk = some out := by
  intro always
  obtain ⟨-, returns⟩ := always ⟨true, false⟩ [] [0x04, 0xFB, 0xFF, 0xFF, 0xFF] (by decide)
  obtain ⟨fuel, out, returned⟩ := returns []
  have stays : round ⟨true, false⟩ [0x04, 0xFB, 0xFF, 0xFF, 0xFF] 0 [] =
      .next 0 [] [.package ⟨5, 0, 0, []⟩] := rfl
  have never : ∀ fuel, receiveLoop ⟨true, false⟩ [0x04, 0xFB, 0xFF, 0xFF, 0xFF] fuel 0 [] = none := by
    intro fuel
    induction fuel with
    | zero => rfl
    | succ fuel ih => simp only [receiveLoop, stays, ih, Option.map_none]
  have nothing : receiveImpl ⟨true, false⟩ fuel [] [] [0x04, 0xFB, 0xFF, 0xFF, 0xFF] = none := never fuel
  rw [nothing] at returned
  cases returned

end Xxlib.Uv4
