import Xxlib.Go.TcpPeer
import Mathlib.Data.List.Basic

/-! `TcpPeer.beginSend`: the goroutine that writes the queue of frames to the connection, with
whatever else happens to the peer meanwhile (`xx_tcppeer.go`).
-/

set_option autoImplicit false

namespace Xxlib.Go

/-- Where the goroutine is. -/
inductive SendPhase where
  | receiving
  | received (buf : Option (List UInt8))
  | trySend (buf : List UInt8)
  | returned
  deriving DecidableEq

/-- `sends` is what the channel holds; `none` is a nil slice. `puts` and `accepted` are kept for the record: what was
put on the channel, and what `Conn` has accepted. -/
structure Sender where
  sends : List (Option (List UInt8)) := []
  sendsClosed : Bool := false
  status : Bool := false
  phase : SendPhase := .receiving
  puts : List (Option (List UInt8)) := []
  accepted : List UInt8 := []

inductive WriteError where
  | none
  | temporary
  | permanent
  deriving DecidableEq

/-- What may happen next: a frame is put on the channel; `Close` sets the status, and closes the channel at once or
after its timeout; the goroutine goes on. `Conn.Write` accepts `n` bytes. -/
inductive SendEvent where
  | put (frame : Option (List UInt8))
  | close
  | closeSends
  | receive
  | check
  | write (n : Nat) (err : WriteError)

namespace Sender

/-- `Close(0)`. -/
def close (s : Sender) : Sender := if s.status then s else { s with status := true, sendsClosed := true }

/-- An event that is not possible in a state leaves it as it is: sending on a channel that is closed or full is
refused, and `Conn.Write` does not report more than it was given. -/
def next (s : Sender) : SendEvent → Sender
  | .put frame =>
      if s.sendsClosed ∨ sendsCapacity ≤ s.sends.length then s
      else { s with sends := s.sends ++ [frame], puts := s.puts ++ [frame] }
  | .close => { s with status := true }
  | .closeSends => if s.status then { s with sendsClosed := true } else s
  | .receive =>
      match s.phase, s.sends with
      | .receiving, buf :: rest => { s with sends := rest, phase := .received buf }
      | .receiving, [] => if s.sendsClosed then { s with phase := .received none } else s
      | _, _ => s
  | .check =>
      match s.phase with
      | .received none => { s with phase := .returned }
      | .received (some buf) => if s.status then { s with phase := .returned } else { s with phase := .trySend buf }
      | _ => s
  | .write n err =>
      match s.phase with
      | .trySend buf =>
          if n ≤ buf.length then
            let s := { s with accepted := s.accepted ++ buf.take n }
            if err = .permanent then { s.close with phase := .returned }
            else if n < buf.length then { s with phase := .trySend (buf.drop n) }
            else { s with phase := .receiving }
          else s
      | _ => s

def run (events : List SendEvent) : Sender := events.foldl next {}

/-- The frames that were put on the channel, in this order, up to a nil. -/
def frames (s : Sender) : List (List UInt8) := (s.puts.takeWhile Option.isSome).filterMap id

/-! ## What has been accepted -/

/-- `part` of a frame is through; `rest` is this frame, and what was put on the channel behind it. -/
def Current (part : List UInt8) (rest : List (Option (List UInt8))) (s : Sender) : Prop :=
  match s.phase with
  | .receiving => part = [] ∧ rest = s.sends
  | .received buf => part = [] ∧ (rest = buf :: s.sends ∨ buf = none ∧ rest = s.sends)
  | .trySend buf => rest = some (part ++ buf) :: s.sends
  | .returned => part = [] ∨ ∃ left tail, rest = some (part ++ left) :: tail

/-- The frames `done` are through, and `part` of the next one. -/
structure Accounts (done : List (List UInt8)) (part : List UInt8) (rest : List (Option (List UInt8))) (s : Sender) :
    Prop where
  puts : s.puts = done.map some ++ rest
  accepted : s.accepted = done.flatten ++ part
  current : s.Current part rest

variable {s : Sender} {done : List (List UInt8)} {part : List UInt8} {rest : List (Option (List UInt8))}

/-- A frame that is put on the channel is behind everything else. -/
theorem Accounts.put (accounts : Accounts done part rest s) (frame : Option (List UInt8)) :
    Accounts done part (rest ++ [frame]) { s with sends := s.sends ++ [frame], puts := s.puts ++ [frame] } := by
  obtain ⟨puts, accepted, current⟩ := accounts
  refine ⟨by rw [puts, List.append_assoc], accepted, ?_⟩
  unfold Current at current ⊢
  cases phase : s.phase with
  | receiving =>
    simp only [phase] at current ⊢
    exact ⟨current.1, by rw [current.2]⟩
  | received buf =>
    simp only [phase] at current ⊢
    refine ⟨current.1, ?_⟩
    rcases current.2 with same | ⟨none, same⟩
    · exact .inl (by rw [same]; rfl)
    · exact .inr ⟨none, by rw [same]⟩
  | trySend buf =>
    simp only [phase] at current ⊢
    rw [current]
    rfl
  | returned =>
    simp only [phase] at current ⊢
    rcases current with none | ⟨left, tail, same⟩
    · exact .inl none
    · exact .inr ⟨left, tail ++ [frame], by rw [same]; rfl⟩

/-- What does not concern the goroutine. -/
theorem Accounts.other (accounts : Accounts done part rest s) (status sendsClosed : Bool) :
    Accounts done part rest { s with status := status, sendsClosed := sendsClosed } :=
  ⟨accounts.puts, accounts.accepted, accounts.current⟩

theorem Accounts.receive (accounts : Accounts done part rest s) : Accounts done part rest (s.next .receive) := by
  obtain ⟨puts, accepted, current⟩ := accounts
  unfold Current at current
  unfold next
  cases phase : s.phase with
  | receiving =>
    simp only [phase] at current
    obtain ⟨none, same⟩ := current
    cases queue : s.sends with
    | nil =>
      simp only
      split
      · exact ⟨puts, accepted, none, .inr ⟨rfl, same.trans queue⟩⟩
      · exact ⟨puts, accepted, by simp only [Current, phase]; exact ⟨none, same⟩⟩
    | cons buf others => exact ⟨puts, accepted, none, .inl (same.trans queue)⟩
  | received buf => exact ⟨puts, accepted, by simpa only [Current, phase] using current⟩
  | trySend buf => exact ⟨puts, accepted, by simpa only [Current, phase] using current⟩
  | returned => exact ⟨puts, accepted, by simpa only [Current, phase] using current⟩

theorem Accounts.check (accounts : Accounts done part rest s) : Accounts done part rest (s.next .check) := by
  obtain ⟨puts, accepted, current⟩ := accounts
  unfold Current at current
  unfold next
  cases phase : s.phase with
  | received buf =>
    simp only [phase] at current
    obtain ⟨none, same⟩ := current
    cases buf with
    | none => exact ⟨puts, accepted, .inl none⟩
    | some buf =>
      have same : rest = some buf :: s.sends := by
        rcases same with same | ⟨other, -⟩
        · exact same
        · cases other
      simp only
      split
      · exact ⟨puts, accepted, .inl none⟩
      · exact ⟨puts, accepted, by simp only [Current]; rw [same, none, List.nil_append]⟩
  | receiving => exact ⟨puts, accepted, by simpa only [Current, phase] using current⟩
  | trySend buf => exact ⟨puts, accepted, by simpa only [Current, phase] using current⟩
  | returned => exact ⟨puts, accepted, by simpa only [Current, phase] using current⟩

/-- A part of the frame is accepted, and the loop is left, goes on with what remains, or with the next frame. -/
theorem Accounts.write (accounts : Accounts done part rest s) (n : Nat) (err : WriteError) :
    ∃ done part rest, Accounts done part rest (s.next (.write n err)) := by
  cases phase : s.phase with
  | trySend buf =>
    obtain ⟨puts, accepted, current⟩ := accounts
    simp only [Current, phase] at current
    simp only [next, phase]
    have split_buf : part ++ buf = part ++ buf.take n ++ buf.drop n := by
      rw [List.append_assoc, List.take_append_drop]
    have accepted' : s.accepted ++ buf.take n = done.flatten ++ (part ++ buf.take n) := by
      rw [accepted, List.append_assoc]
    split
    · next short =>
      split
      · have left : Accounts done (part ++ buf.take n) rest
            { s with accepted := s.accepted ++ buf.take n, phase := .returned } :=
          ⟨puts, accepted', .inr ⟨buf.drop n, s.sends, by rw [current, split_buf]⟩⟩
        unfold close
        split
        · exact ⟨_, _, _, left⟩
        · exact ⟨_, _, _, left.other true true⟩
      · split
        · exact ⟨done, part ++ buf.take n, rest, puts, accepted', by simp only [Current]; rw [current, split_buf]⟩
        · have whole : buf.take n = buf := List.take_of_length_le (by omega)
          refine ⟨done ++ [part ++ buf], [], s.sends, ?_, ?_, rfl, rfl⟩
          · rw [puts, current, List.map_append, List.append_assoc]
            rfl
          · rw [accepted', whole]
            simp
    · exact ⟨done, part, rest, puts, accepted, by simpa only [Current, phase] using current⟩
  | receiving => exact ⟨done, part, rest, by simpa only [next, phase] using accounts⟩
  | received buf => exact ⟨done, part, rest, by simpa only [next, phase] using accounts⟩
  | returned => exact ⟨done, part, rest, by simpa only [next, phase] using accounts⟩

/-- One event. -/
theorem Accounts.next (accounts : Accounts done part rest s) (event : SendEvent) :
    ∃ done part rest, Accounts done part rest (s.next event) := by
  cases event with
  | put frame =>
    simp only [Sender.next]
    split
    · exact ⟨done, part, rest, accounts⟩
    · exact ⟨done, part, rest ++ [frame], accounts.put frame⟩
  | close => exact ⟨done, part, rest, accounts.other true s.sendsClosed⟩
  | closeSends =>
    simp only [Sender.next]
    split
    · exact ⟨done, part, rest, accounts.other s.status true⟩
    · exact ⟨done, part, rest, accounts⟩
  | receive => exact ⟨done, part, rest, accounts.receive⟩
  | check => exact ⟨done, part, rest, accounts.check⟩
  | write n err => exact accounts.write n err

/-- Any number of events. -/
theorem Accounts.run (accounts : Accounts done part rest s) (events : List SendEvent) :
    ∃ done part rest, Accounts done part rest (events.foldl Sender.next s) := by
  induction events generalizing s done part rest with
  | nil => exact ⟨done, part, rest, accounts⟩
  | cons event events ih =>
    obtain ⟨done', part', rest', accounts'⟩ := accounts.next event
    exact ih accounts'

theorem Accounts.frames (accounts : Accounts done part rest s) :
    s.frames = done ++ (rest.takeWhile Option.isSome).filterMap id := by
  have all : ∀ frame ∈ done.map some, Option.isSome frame = true := by simp
  unfold Sender.frames
  rw [accounts.puts, List.takeWhile_append_of_pos all, List.filterMap_append, List.filterMap_map]
  simp

theorem Accounts.accepts (accounts : Accounts done part rest s) : s.accepted <+: s.frames.flatten := by
  rw [accounts.frames, accounts.accepted, List.flatten_append]
  apply (List.prefix_append_right_inj _).mpr
  have part_of : part = [] ∨ ∃ left tail, rest = some (part ++ left) :: tail := by
    have current := accounts.current
    unfold Current at current
    split at current
    · exact .inl current.1
    · exact .inl current.1
    · next buf _ => exact .inr ⟨buf, s.sends, current⟩
    · exact current
  rcases part_of with rfl | ⟨left, tail, rfl⟩
  · exact List.nil_prefix
  · simp [List.append_assoc]

end Sender

/-- Whatever happens to the peer, the bytes that `Conn` has accepted are those of the frames, one after the other,
as far as it came. -/
theorem sender_accepts (events : List SendEvent) :
    (Sender.run events).accepted <+: (Sender.run events).frames.flatten := by
  have start : Sender.Accounts [] [] [] {} := ⟨rfl, rfl, rfl, rfl⟩
  obtain ⟨done, part, rest, accounts⟩ := start.run events
  exact accounts.accepts

end Xxlib.Go
