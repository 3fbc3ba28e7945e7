import Mathlib.Data.List.Chain
import Xxlib.Lib.Bytes

/-! The clock of KCP: `InitKcpFlushInterval` of `UvLoop`, and `Update` of `UvUdpPeer` and `UvUdpClient` (`xx_uv.cpp`).

The timer counts in 32 bits, and `Update` compares its count with the tick that `ikcp_check` asked for. The protocol
itself takes the difference of two ticks as a signed number (`ikcp.cpp`).
-/

set_option autoImplicit false

namespace Xxlib.Uv4

open Lib

/-- `_itimediff` -/
def itimediff (later earlier : Nat) : Int := toInt32 ((later : Int) - earlier)

/-- The interval of a `kcp` that `ikcp_nodelay` is called for: that of `ikcp_create` is 100. -/
def ikcpInterval (kcpInterval : Nat) : Int :=
  let interval := toInt32 kcpInterval
  if 0 ≤ interval then
    if 5000 < interval then 5000 else if interval < 10 then 10 else interval
  else 100

/-- `Update`: the next `nextUpdateTicks` if `ikcp_update` is called. `ikcpCheck` is what `ikcp_check` then returns. -/
def updateTicks (nextUpdateTicks current ikcpCheck : Nat) : Option Nat :=
  if current < nextUpdateTicks then none else some ikcpCheck

def UvUdpPeer.update (nextUpdateTicks current ikcpCheck : Nat) : Option Nat := updateTicks nextUpdateTicks current ikcpCheck

def UvUdpClient.update (nextUpdateTicks current ikcpCheck : Nat) : Option Nat := updateTicks nextUpdateTicks current ikcpCheck

inductive UdpKind where
  | udpPeer
  | udpClient
  deriving DecidableEq

def UdpKind.update : UdpKind → Nat → Nat → Nat → Option Nat
  | .udpPeer => UvUdpPeer.update
  | .udpClient => UvUdpClient.update

/-- A connected peer or client, with the times when `ikcp_update` was called, and when `current` had reached `nextUpdateTicks`
and it was not. -/
structure UdpEnd where
  kind : UdpKind
  nextUpdateTicks : Nat := 0
  updates : List Nat := []
  missed : List Nat := []
  deriving DecidableEq

/-- The fields of the loop, and the time that they stand for. -/
structure KcpLoop where
  udpTicks : Nat := 0
  kcpInterval : Nat
  ends : List UdpEnd := []
  time : Nat := 0

def UdpEnd.tick (e : UdpEnd) (time current ikcpCheck : Nat) : UdpEnd :=
  match e.kind.update e.nextUpdateTicks current ikcpCheck with
  | some next => { e with nextUpdateTicks := next, updates := e.updates ++ [time] }
  | none => if 0 ≤ itimediff current e.nextUpdateTicks then { e with missed := e.missed ++ [time] } else e

theorem UdpKind.update_eq (kind : UdpKind) : kind.update = updateTicks := by cases kind <;> rfl

namespace KcpLoop

/-- The callback of the timer. `ikcpCheck` are the results of `ikcp_check`. -/
def tick (s : KcpLoop) (ikcpCheck : Nat → Nat) : KcpLoop :=
  let current := (s.udpTicks + s.kcpInterval) % 2 ^ 32
  let time := s.time + s.kcpInterval
  { s with udpTicks := current, time := time, ends := s.ends.mapIdx fun i e => e.tick time current (ikcpCheck i) }

/-! ## Runs -/

inductive Act where
  | create (kind : UdpKind)
  | drop (i : Nat)
  | tick (ikcpCheck : Nat → Nat)

def step (s : KcpLoop) : Act → KcpLoop
  | .create kind => { s with ends := s.ends ++ [⟨kind, 0, [], []⟩] }
  | .drop i => { s with ends := s.ends.eraseIdx i }
  | .tick ikcpCheck => s.tick ikcpCheck

/-- `ikcp_check` returns a tick that is not further ahead than the interval of KCP. -/
def Allowed (s : KcpLoop) : Act → Prop
  | .tick ikcpCheck => ∀ i, ikcpCheck i < 2 ^ 32 ∧
      ((ikcpCheck i : Int) - (s.udpTicks + s.kcpInterval) % 2 ^ 32) % 2 ^ 32 ≤ ikcpInterval s.kcpInterval
  | _ => True

/-- When the count of the timer wraps, the ticks that are waited for have wrapped before. -/
def Sound (s : KcpLoop) : Act → Prop
  | .tick _ => 2 ^ 32 ≤ s.udpTicks + s.kcpInterval → ∀ e ∈ s.ends, e.nextUpdateTicks < s.udpTicks
  | _ => True

inductive Run (guard : KcpLoop → Act → Prop) : KcpLoop → Prop where
  | fresh {kcpInterval : Nat} (positive : 0 < kcpInterval) (small : kcpInterval < 2 ^ 32) :
      Run guard { kcpInterval := kcpInterval }
  | step {s : KcpLoop} (act : Act) (before : Run guard s) (meets : guard s act) : Run guard (s.step act)

/-- No more time has passed than the interval of KCP and one period of the timer. -/
def Within (s : KcpLoop) (last next : Nat) : Prop := (next : Int) ≤ last + (ikcpInterval s.kcpInterval + s.kcpInterval)

/-- `ikcp_update` was called whenever `current` had reached `nextUpdateTicks`, and in time after each call. -/
structure Prompt (s : KcpLoop) (e : UdpEnd) : Prop where
  missed : e.missed = []
  gaps : e.updates.IsChain s.Within
  waiting : ∀ last ∈ e.updates.getLast?, s.Within last s.time

/-! ## The invariant -/

/-- What `nextUpdateTicks` stands for was not passed by: it is at most the interval behind the last call. -/
def Due (s : KcpLoop) (e : UdpEnd) : Prop :=
  e.nextUpdateTicks = 0 ∧ e.updates = [] ∨
    ∃ last due : Nat, e.updates.getLast? = some last ∧ s.time ≤ due ∧ (due : Int) ≤ last + ikcpInterval s.kcpInterval ∧
      last ≤ s.time ∧ e.nextUpdateTicks = due % 2 ^ 32

structure Inv (s : KcpLoop) : Prop where
  small : s.kcpInterval < 2 ^ 32
  ticks : s.udpTicks = s.time % 2 ^ 32
  due : ∀ e ∈ s.ends, s.Due e
  missed : ∀ e ∈ s.ends, e.missed = []
  gaps : ∀ e ∈ s.ends, e.updates.IsChain s.Within

theorem ikcpInterval_bounds (kcpInterval : Nat) : 10 ≤ ikcpInterval kcpInterval ∧ ikcpInterval kcpInterval ≤ 5000 := by
  unfold ikcpInterval
  dsimp only
  split
  · split
    · omega
    · split <;> omega
  · omega

section
variable {s : KcpLoop} {e : UdpEnd}

theorem Inv.prompt (inv : Inv s) (member : e ∈ s.ends) : Prompt s e := by
  refine ⟨inv.missed e member, inv.gaps e member, fun last found => ?_⟩
  rcases inv.due e member with ⟨-, empty⟩ | ⟨last', due, found', reached, late, -⟩
  · rw [empty] at found
    cases found
  · rw [found'] at found
    cases found
    unfold Within
    omega

/-- A tick that finds `nextUpdateTicks` above the count: what it stands for was not reached. -/
theorem Due.skip (ticks : s.udpTicks = s.time % 2 ^ 32) (small : s.kcpInterval < 2 ^ 32) (due : s.Due e)
    (sound : 2 ^ 32 ≤ s.udpTicks + s.kcpInterval → e.nextUpdateTicks < s.udpTicks)
    (above : (s.udpTicks + s.kcpInterval) % 2 ^ 32 < e.nextUpdateTicks) :
    itimediff ((s.udpTicks + s.kcpInterval) % 2 ^ 32) e.nextUpdateTicks < 0 ∧
      ∃ last due : Nat, e.updates.getLast? = some last ∧ s.time + s.kcpInterval ≤ due ∧
        (due : Int) ≤ last + ikcpInterval s.kcpInterval ∧ last ≤ s.time + s.kcpInterval ∧ e.nextUpdateTicks = due % 2 ^ 32 := by
  obtain ⟨-, bound⟩ := ikcpInterval_bounds s.kcpInterval
  rcases due with ⟨zero, -⟩ | ⟨last, due, found, reached, late, before, next⟩
  · omega
  · have later : s.time + s.kcpInterval < due := by omega
    refine ⟨?_, last, due, found, Nat.le_of_lt later, late, by omega, next⟩
    unfold itimediff toInt32 Int.bmod
    dsimp only
    split <;> omega

/-- A tick, for one of the ends. -/
theorem tick_due (inv : Inv s) (member : e ∈ s.ends) {ikcpCheck : Nat} (small : ikcpCheck < 2 ^ 32)
    (near : ((ikcpCheck : Int) - (s.udpTicks + s.kcpInterval) % 2 ^ 32) % 2 ^ 32 ≤ ikcpInterval s.kcpInterval)
    (sound : 2 ^ 32 ≤ s.udpTicks + s.kcpInterval → e.nextUpdateTicks < s.udpTicks) (checks : Nat → Nat) :
    let e' := e.tick (s.time + s.kcpInterval) ((s.udpTicks + s.kcpInterval) % 2 ^ 32) ikcpCheck
    (s.tick checks).Due e' ∧ e'.missed = [] ∧
      e'.updates.IsChain s.Within := by
  have ticks := inv.ticks
  have due := inv.due e member
  have missed := inv.missed e member
  have gaps := inv.gaps e member
  dsimp only
  unfold UdpEnd.tick
  rw [UdpKind.update_eq, updateTicks]
  by_cases above : (s.udpTicks + s.kcpInterval) % 2 ^ 32 < e.nextUpdateTicks
  · obtain ⟨early, last, due', found, reached, late, before, next⟩ := due.skip ticks inv.small sound above
    rw [if_pos above]
    dsimp only
    rw [if_neg (Int.not_le_of_gt early)]
    exact ⟨.inr ⟨last, due', found, reached, late, before, next⟩, missed, gaps⟩
  · rw [if_neg above]
    dsimp only
    refine ⟨.inr ⟨s.time + s.kcpInterval, s.time + s.kcpInterval +
      (((ikcpCheck : Int) - (s.udpTicks + s.kcpInterval) % 2 ^ 32) % 2 ^ 32).toNat, List.getLast?_concat, ?_, ?_, ?_, ?_⟩, missed, ?_⟩
    · exact Nat.le_add_right _ _
    · dsimp only [KcpLoop.tick]
      omega
    · exact Nat.le_refl _
    · dsimp only
      omega
    · refine List.isChain_append.mpr ⟨gaps, List.isChain_singleton _, fun last found next now => ?_⟩
      cases Option.some.inj now
      -- the next tick after the one that was asked for is at most one period behind it
      rcases due with ⟨-, empty⟩ | ⟨last', due', found', reached, late, -, -⟩
      · rw [empty] at found
        cases found
      · rw [found'] at found
        cases found
        unfold Within
        omega

theorem Inv.tick (inv : Inv s) {ikcpCheck : Nat → Nat} (allowed : s.Allowed (.tick ikcpCheck)) (sound : s.Sound (.tick ikcpCheck)) :
    Inv (s.tick ikcpCheck) := by
  have each : ∀ e' ∈ (s.tick ikcpCheck).ends, (s.tick ikcpCheck).Due e' ∧ e'.missed = [] ∧
      e'.updates.IsChain s.Within := by
    intro e' member
    obtain ⟨i, inside, rfl⟩ := List.mem_mapIdx.mp member
    have there : s.ends[i] ∈ s.ends := List.getElem_mem inside
    exact tick_due inv there (allowed i).1 (allowed i).2 (fun wraps => sound wraps _ there) ikcpCheck
  refine ⟨inv.small, ?_, fun e member => (each e member).1, fun e member => (each e member).2.1, fun e member => (each e member).2.2⟩
  have ticks := inv.ticks
  simp only [KcpLoop.tick]
  omega

theorem step_inv {act : Act} (inv : Inv s) (allowed : s.Allowed act) (sound : s.Sound act) : Inv (s.step act) := by
  cases act with
  | create kind =>
    have grown : ∀ e ∈ s.ends ++ [⟨kind, 0, [], []⟩], s.Due e ∧ e.missed = [] ∧ e.updates.IsChain s.Within := by
      intro e member
      rcases List.mem_append.mp member with old | new
      · exact ⟨inv.due e old, inv.missed e old, inv.gaps e old⟩
      · cases List.mem_singleton.mp new
        exact ⟨.inl ⟨rfl, rfl⟩, rfl, List.isChain_nil⟩
    exact ⟨inv.small, inv.ticks, fun e member => (grown e member).1, fun e member => (grown e member).2.1,
      fun e member => (grown e member).2.2⟩
  | drop i =>
    have older : ∀ e ∈ s.ends.eraseIdx i, e ∈ s.ends := fun e member => List.mem_of_mem_eraseIdx member
    exact ⟨inv.small, inv.ticks, fun e member => inv.due e (older e member), fun e member => inv.missed e (older e member),
      fun e member => inv.gaps e (older e member)⟩
  | tick ikcpCheck => exact inv.tick allowed sound

end

theorem run_inv {s : KcpLoop} (run : Run (fun s act => s.Allowed act ∧ s.Sound act) s) : Inv s := by
  induction run with
  | fresh positive small =>
    exact ⟨small, rfl, fun _ member => (nomatch member), fun _ member => (nomatch member), fun _ member => nomatch member⟩
  | step act before meets ih => exact step_inv ih meets.1 meets.2

/-- While the count of the timer does not wrap in front of a tick that is waited for, no peer and no client stalls. -/
theorem run_prompt {s : KcpLoop} (run : Run (fun s act => s.Allowed act ∧ s.Sound act) s) : ∀ e ∈ s.ends, Prompt s e :=
  fun _ member => (run_inv run).prompt member

theorem allowed_tick {s : KcpLoop} {ikcpCheck : Nat} (near : ikcpCheck < 2 ^ 32 ∧
    ((ikcpCheck : Int) - (s.udpTicks + s.kcpInterval) % 2 ^ 32) % 2 ^ 32 ≤ ikcpInterval s.kcpInterval) :
    s.Allowed (.tick fun _ => ikcpCheck) :=
  fun _ => near

/-- A client beside a peer, over two ticks. -/
theorem run_prompt_two : ∃ s : KcpLoop, s.ends.map UdpEnd.updates = [[10, 20], [20]] ∧ ∀ e ∈ s.ends, Prompt s e := by
  have run₀ : Run (fun s act => s.Allowed act ∧ s.Sound act) { kcpInterval := 10 } := .fresh (by decide) (by decide)
  have run₁ := Run.step (.create .udpPeer) run₀ ⟨trivial, trivial⟩
  have run₂ := Run.step (.tick fun _ => 15) run₁ ⟨allowed_tick ⟨by decide, by decide⟩, fun wraps => absurd wraps (by decide)⟩
  have run₃ := Run.step (.create .udpClient) run₂ ⟨trivial, trivial⟩
  have run₄ := Run.step (.tick fun _ => 25) run₃ ⟨allowed_tick ⟨by decide, by decide⟩, fun wraps => absurd wraps (by decide)⟩
  exact ⟨_, rfl, run_prompt run₄⟩

/-- What is due at 4200000001 is passed by at 6300000000, which the timer counts as 2005032704. -/
theorem run_stalls : ∃ s : KcpLoop, Run Allowed s ∧ ¬ ∀ e ∈ s.ends, Prompt s e := by
  have run₀ : Run Allowed { kcpInterval := 2100000000 } := .fresh (by decide) (by decide)
  have run₁ := Run.step (.create .udpPeer) run₀ trivial
  have run₂ := Run.step (.tick fun _ => 2100000000) run₁ (allowed_tick ⟨by decide, by decide⟩)
  have run₃ := Run.step (.tick fun _ => 4200000001) run₂ (allowed_tick ⟨by decide, by decide⟩)
  have run₄ := Run.step (.tick fun _ => 2005032704) run₃ (allowed_tick ⟨by decide, by decide⟩)
  refine ⟨_, run₄, fun prompt => ?_⟩
  have missed := (prompt _ (List.mem_singleton_self _)).missed
  exact absurd missed (by decide)

end KcpLoop

end Xxlib.Uv4
