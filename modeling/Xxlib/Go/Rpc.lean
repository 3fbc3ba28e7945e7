import Xxlib.Lib.AssocMap
import Xxlib.Go.TcpPeer

/-! Requests that wait on channels: `SendRequest`, `HandleResponse` and `Close` (`xx_tcppeer.go`).

Each of them is cut into the steps that other goroutines can come between. A step of a call that
is at another point of its code changes nothing.
-/

set_option autoImplicit false

namespace Xxlib.Go

open Lib

/-! ## Channels -/

/-- A `chan IObject` with room for one value. -/
structure Chan where
  buf : List IObject := []
  closed : Bool := false
  deriving DecidableEq

inductive ChanPanic where
  | sendOnClosed
  | closeOfClosed
  deriving DecidableEq

def Chan.close (c : Chan) : Except ChanPanic Chan :=
  if c.closed then .error .closeOfClosed else .ok { c with closed := true }

/-- The `select` of `HandleResponse`: a value that has no room closes the channel. -/
def Chan.deliver (c : Chan) (pkg : IObject) : Except ChanPanic Chan :=
  if c.closed then .error .sendOnClosed
  else if c.buf.length < 1 then .ok { c with buf := c.buf ++ [pkg] }
  else c.close

/-- What a receiver gets, if it is not blocked. -/
def Chan.receive (c : Chan) : Option (IObject × Chan) :=
  match c.buf with
  | v :: rest => some (v, { c with buf := rest })
  | [] => if c.closed then some (.nil, c) else none

/-! ## Steps -/

/-- How far a call of `SendRequest` is. -/
inductive Caller where
  | drawn (serial : Int32)
  | sent (serial : Int32)
  | waiting (serial : Int32) (c : Nat)
  | woken (serial : Int32) (r : IObject)
  | returned (r : IObject)
  deriving DecidableEq

/-- The fields of a peer that requests use, with the channels and the calls. `handlers` holds the calls of
`HandleResponse` that have found a channel. While `closing` holds, `Close` has not yet come to the channels. -/
structure Rpc where
  rpcInc : Int32 := 0
  rpcSerials : List (Int32 × Nat) := []
  chans : Nat → Chan := fun _ => {}
  made : Nat := 0
  callers : Nat → Option Caller := fun _ => none
  handlers : List (Nat × IObject) := []
  closed : Bool := false
  closing : Bool := false

inductive RpcAct where
  | draw (i : Nat)
  | send (i : Nat) (failed : Bool)
  | register (i : Nat)
  | receive (i : Nat)
  | expire (i : Nat)
  | delete (i : Nat)
  | lookup (serial : Int32) (pkg : IObject)
  | deliver (k : Nat)
  | close
  | closeAll
  deriving DecidableEq

namespace Rpc

def closeChans : List (Int32 × Nat) → (Nat → Chan) → Except ChanPanic (Nat → Chan)
  | [], chans => .ok chans
  | (_, v) :: rest, chans => do
      let c ← (chans v).close
      closeChans rest (Function.update chans v c)

def setCaller (s : Rpc) (i : Nat) (caller : Caller) : Rpc :=
  { s with callers := Function.update s.callers i (some caller) }

/-- The steps of `SendRequest`; `failed` is what `sendCore` answers. -/
def draw (s : Rpc) (i : Nat) : Rpc :=
  match s.callers i with
  | none => { s with rpcInc := s.rpcInc + 1 }.setCaller i (.drawn (s.rpcInc + 1))
  | some _ => s

def send (s : Rpc) (i : Nat) (failed : Bool) : Rpc :=
  match s.callers i with
  | some (.drawn serial) => s.setCaller i (if failed then .returned .nil else .sent serial)
  | _ => s

def register (s : Rpc) (i : Nat) : Rpc :=
  match s.callers i with
  | some (.sent serial) =>
      { s with
        chans := Function.update s.chans s.made {}
        made := s.made + 1
        rpcSerials := (serial, s.made) :: AssocMap.erase (· == ·) s.rpcSerials serial }.setCaller i (.waiting serial s.made)
  | _ => s

def receive (s : Rpc) (i : Nat) : Rpc :=
  match s.callers i with
  | some (.waiting serial c) =>
      match (s.chans c).receive with
      | some (r, chan) => { s with chans := Function.update s.chans c chan }.setCaller i (.woken serial r)
      | none => s
  | _ => s

def expire (s : Rpc) (i : Nat) : Rpc :=
  match s.callers i with
  | some (.waiting serial _) => s.setCaller i (.woken serial .nil)
  | _ => s

def delete (s : Rpc) (i : Nat) : Rpc :=
  match s.callers i with
  | some (.woken serial r) =>
      { s with rpcSerials := AssocMap.erase (· == ·) s.rpcSerials serial }.setCaller i (.returned r)
  | _ => s

/-- The steps of `HandleResponse`: under the mutex, and behind it. -/
def lookup (s : Rpc) (serial : Int32) (pkg : IObject) : Rpc :=
  match AssocMap.lookup (· == ·) s.rpcSerials serial with
  | some c => { s with handlers := s.handlers ++ [(c, pkg)] }
  | none => s

def deliver (s : Rpc) (k : Nat) : Except ChanPanic Rpc :=
  match s.handlers[k]? with
  | some (c, pkg) => do
      let chan ← (s.chans c).deliver pkg
      return { s with chans := Function.update s.chans c chan, handlers := s.handlers.eraseIdx k }
  | none => .ok s

/-- The steps of `Close`: the exchange of the status, and the loop over the channels. -/
def close (s : Rpc) : Rpc := if s.closed then s else { s with closed := true, closing := true }

def closeAll (s : Rpc) : Except ChanPanic Rpc :=
  if s.closing then do
    let chans ← closeChans s.rpcSerials s.chans
    return { s with chans := chans, closing := false }
  else .ok s

def step (s : Rpc) : RpcAct → Except ChanPanic Rpc
  | .draw i => .ok (s.draw i)
  | .send i failed => .ok (s.send i failed)
  | .register i => .ok (s.register i)
  | .receive i => .ok (s.receive i)
  | .expire i => .ok (s.expire i)
  | .delete i => .ok (s.delete i)
  | .lookup serial pkg => .ok (s.lookup serial pkg)
  | .deliver k => s.deliver k
  | .close => .ok s.close
  | .closeAll => s.closeAll

end Rpc

/-! ## When a channel is used after it was closed -/

/-- The steps so far, as far as they matter for the channels: `overflowed` are the channels that got a response while
an earlier one was not received, and `shut` those that were registered when `Close` came to the channels. -/
structure WatchedRpc where
  rpc : Rpc := {}
  overflowed : List Nat := []
  shut : List Nat := []

namespace WatchedRpc

def overflows (s : Rpc) : RpcAct → List Nat
  | .deliver k =>
      match s.handlers[k]? with
      | some (c, _) => if (s.chans c).buf.length < 1 then [] else [c]
      | none => []
  | _ => []

def shuts (s : Rpc) : RpcAct → List Nat
  | .closeAll => if s.closing then s.rpcSerials.map Prod.snd else []
  | _ => []

def step (w : WatchedRpc) (act : RpcAct) : Except ChanPanic WatchedRpc := do
  let rpc ← w.rpc.step act
  return { rpc := rpc, overflowed := w.overflowed ++ overflows w.rpc act, shut := w.shut ++ shuts w.rpc act }

def run : WatchedRpc → List RpcAct → Except ChanPanic WatchedRpc
  | w, [] => .ok w
  | w, act :: rest => do run (← w.step act) rest

/-- A response goes to a channel only before one has overflowed it, and before `Close` has closed it. When `Close`
comes to the channels, none that is registered has overflowed. -/
def Quiet (w : WatchedRpc) : RpcAct → Prop
  | .deliver k => ∀ c pkg, w.rpc.handlers[k]? = some (c, pkg) → c ∉ w.overflowed ∧ c ∉ w.shut
  | .closeAll => w.rpc.closing = true → ∀ entry ∈ w.rpc.rpcSerials, entry.2 ∉ w.overflowed
  | _ => True

/-- All steps of a run are so. -/
def AllQuiet : WatchedRpc → List RpcAct → Prop
  | _, [] => True
  | w, act :: rest => w.Quiet act ∧ ∀ w', w.step act = .ok w' → AllQuiet w' rest

/-! ### The closed channels -/

structure Inv (w : WatchedRpc) : Prop where
  closed_iff : ∀ c, (w.rpc.chans c).closed = true ↔ c ∈ w.overflowed ∨ c ∈ w.shut
  made : ∀ c, (w.rpc.chans c).closed = true → c < w.rpc.made
  registered : ∀ entry ∈ w.rpc.rpcSerials, entry.2 < w.rpc.made
  nodup : (w.rpc.rpcSerials.map Prod.snd).Nodup
  handlers : ∀ handler ∈ w.rpc.handlers, handler.1 < w.rpc.made
  closing : w.rpc.closing = true → w.rpc.closed = true
  shut : w.rpc.closed = false ∨ w.rpc.closing = true → w.shut = []

theorem closeChans_ok {entries : List (Int32 × Nat)} {chans : Nat → Chan} (nodup : (entries.map Prod.snd).Nodup)
    (open' : ∀ entry ∈ entries, (chans entry.2).closed = false) : ∃ chans', Rpc.closeChans entries chans = .ok chans' ∧
      ∀ c, (chans' c).closed = true ↔ (chans c).closed = true ∨ c ∈ entries.map Prod.snd := by
  induction entries generalizing chans with
  | nil => exact ⟨chans, rfl, fun c => (or_iff_left (List.not_mem_nil (a := c))).symm⟩
  | cons entry rest ih =>
    obtain ⟨serial, v⟩ := entry
    obtain ⟨absent, nodup⟩ := List.nodup_cons.mp nodup
    have first := open' (serial, v) List.mem_cons_self
    -- closing `v` leaves the others as they are
    have others : ∀ entry ∈ rest,
        (Function.update chans v { chans v with closed := true } entry.2).closed = false := by
      intro entry member
      have different : entry.2 ≠ v := fun same => absent (List.mem_map.mpr ⟨entry, member, same⟩)
      rw [Function.update_of_ne different]
      exact open' entry (List.mem_cons_of_mem _ member)
    obtain ⟨chans', done, closed⟩ := ih nodup others
    refine ⟨chans', ?_, fun c => ?_⟩
    · rw [Rpc.closeChans, Chan.close, if_neg (by rw [first]; exact Bool.false_ne_true)]
      exact done
    · rw [closed c, List.map_cons, List.mem_cons]
      by_cases same : c = v
      · subst same
        simp only [Function.update_self, true_or, or_true]
      · rw [Function.update_of_ne same]
        simp only [same, false_or]

theorem closeChans_error {entries : List (Int32 × Nat)} {chans : Nat → Chan}
    (shut : ∃ entry ∈ entries, (chans entry.2).closed = true) : ∃ panic, Rpc.closeChans entries chans = .error panic := by
  induction entries generalizing chans with
  | nil =>
    obtain ⟨entry, member, -⟩ := shut
    cases member
  | cons entry rest ih =>
    obtain ⟨serial, v⟩ := entry
    rw [Rpc.closeChans, Chan.close]
    cases first : (chans v).closed with
    | true => exact ⟨_, rfl⟩
    | false =>
      obtain ⟨entry, member, closed⟩ := shut
      apply ih
      rcases List.mem_cons.mp member with rfl | behind
      · rw [first] at closed
        cases closed
      · refine ⟨entry, behind, ?_⟩
        by_cases same : entry.2 = v
        · rw [same, Function.update_self]
        · rw [Function.update_of_ne same]
          exact closed

section
variable {w : WatchedRpc}

/-- Whether a step is quiet decides whether it panics. -/
theorem Inv.quiet_iff (inv : Inv w) (act : RpcAct) : w.Quiet act ↔ ∃ w', w.step act = .ok w' := by
  cases act with
  | deliver k =>
    simp only [Quiet, step, Rpc.step, Rpc.deliver]
    cases found : w.rpc.handlers[k]? with
    | none => exact ⟨fun _ => ⟨_, rfl⟩, fun _ c pkg same => nomatch same⟩
    | some handler =>
      obtain ⟨c, pkg⟩ := handler
      have closed := inv.closed_iff c
      constructor
      · intro quiet
        obtain ⟨whole, unshut⟩ := quiet c pkg rfl
        have open' : (w.rpc.chans c).closed = false := by
          rw [← Bool.not_eq_true, closed]
          exact not_or.mpr ⟨whole, unshut⟩
        simp only [Chan.deliver, Chan.close, open', Bool.false_eq_true, ↓reduceIte]
        split <;> exact ⟨_, rfl⟩
      · rintro ⟨w', done⟩ c' pkg' same
        cases same
        rw [← not_or, ← closed]
        intro shut
        simp [Chan.deliver, shut, bind, Except.bind] at done
  | closeAll =>
    simp only [Quiet, step, Rpc.step, Rpc.closeAll]
    cases closing : w.rpc.closing with
    | false => exact ⟨fun _ => ⟨_, rfl⟩, fun _ never => nomatch never⟩
    | true =>
      have empty := inv.shut (.inr closing)
      constructor
      · intro quiet
        have open' : ∀ entry ∈ w.rpc.rpcSerials, (w.rpc.chans entry.2).closed = false := by
          intro entry member
          rw [← Bool.not_eq_true, inv.closed_iff, empty]
          exact not_or.mpr ⟨quiet rfl entry member, List.not_mem_nil⟩
        obtain ⟨chans', done, -⟩ := closeChans_ok inv.nodup open'
        simp only [↓reduceIte, done]
        exact ⟨_, rfl⟩
      · rintro ⟨w', done⟩ - entry member overflowed
        have shut : ∃ entry ∈ w.rpc.rpcSerials, (w.rpc.chans entry.2).closed = true :=
          ⟨entry, member, (inv.closed_iff _).mpr (.inl overflowed)⟩
        obtain ⟨panic, failed⟩ := closeChans_error shut
        simp [failed, bind, Except.bind] at done
  | _ => exact ⟨fun _ => ⟨_, rfl⟩, fun _ => trivial⟩

/-- A step that leaves the channels alone. -/
theorem Inv.frame (inv : Inv w) {rpc : Rpc} (chans : rpc.chans = w.rpc.chans) (made : rpc.made = w.rpc.made)
    (serials : rpc.rpcSerials.Sublist w.rpc.rpcSerials) (handlers : ∀ handler ∈ rpc.handlers, handler.1 < rpc.made)
    (closed : rpc.closed = w.rpc.closed) (closing : rpc.closing = w.rpc.closing) : Inv { w with rpc := rpc } := by
  refine ⟨?_, ?_, ?_, ?_, handlers, ?_, ?_⟩
  · rw [chans]
    exact inv.closed_iff
  · rw [chans, made]
    exact inv.made
  · rw [made]
    exact fun entry member => inv.registered entry (serials.subset member)
  · exact inv.nodup.sublist (serials.map Prod.snd)
  · rw [closed, closing]
    exact inv.closing
  · rw [closed, closing]
    exact inv.shut

theorem Inv.setCaller (inv : Inv w) (i : Nat) (caller : Caller) : Inv { w with rpc := w.rpc.setCaller i caller } :=
  inv.frame rfl rfl (List.Sublist.refl _) inv.handlers rfl rfl

theorem Inv.register (inv : Inv w) (i : Nat) : Inv { w with rpc := w.rpc.register i } := by
  unfold Rpc.register
  split
  next serial _ =>
    have shorter : (AssocMap.erase (· == ·) w.rpc.rpcSerials serial).Sublist w.rpc.rpcSerials := List.filter_sublist
    have older : ∀ entry ∈ AssocMap.erase (· == ·) w.rpc.rpcSerials serial, entry.2 < w.rpc.made :=
      fun entry member => inv.registered entry (shorter.subset member)
    have unclosed : (w.rpc.chans w.rpc.made).closed = false := by
      rw [← Bool.not_eq_true]
      exact fun closed => Nat.lt_irrefl _ (inv.made _ closed)
    have flags : ∀ c, (Function.update w.rpc.chans w.rpc.made {} c).closed = (w.rpc.chans c).closed := by
      intro c
      by_cases same : c = w.rpc.made
      · rw [same, Function.update_self, unclosed]
      · rw [Function.update_of_ne same]
    have new : Inv { w with rpc := { w.rpc with
        chans := Function.update w.rpc.chans w.rpc.made {}
        made := w.rpc.made + 1
        rpcSerials := (serial, w.rpc.made) :: AssocMap.erase (· == ·) w.rpc.rpcSerials serial } } := by
      refine ⟨fun c => ?_, fun c closed => ?_, fun entry member => ?_, ?_, fun handler member => ?_, inv.closing, inv.shut⟩
      · dsimp only
        rw [flags]
        exact inv.closed_iff c
      · dsimp only at closed
        rw [flags] at closed
        exact Nat.lt_succ_of_lt (inv.made c closed)
      · rcases List.mem_cons.mp member with rfl | old
        · exact Nat.lt_succ_self _
        · exact Nat.lt_succ_of_lt (older entry old)
      · refine List.nodup_cons.mpr ⟨fun member => ?_, inv.nodup.sublist (shorter.map Prod.snd)⟩
        obtain ⟨entry, old, same⟩ := List.mem_map.mp member
        exact Nat.ne_of_lt (older entry old) same
      · exact Nat.lt_succ_of_lt (inv.handlers handler member)
    exact new.setCaller i _
  next => exact inv

/-- Receiving takes a value out of a channel, and does not close it. -/
theorem Inv.receive (inv : Inv w) (i : Nat) : Inv { w with rpc := w.rpc.receive i } := by
  unfold Rpc.receive
  split
  next serial c _ =>
    cases got : (w.rpc.chans c).receive with
    | none => exact inv
    | some result =>
      obtain ⟨r, chan⟩ := result
      have flag : chan.closed = (w.rpc.chans c).closed := by
        unfold Chan.receive at got
        split at got
        next => cases got; rfl
        next =>
          split at got
          next => cases got; rfl
          next => cases got
      have flags : ∀ c', (Function.update w.rpc.chans c chan c').closed = (w.rpc.chans c').closed := by
        intro c'
        by_cases same : c' = c
        · rw [same, Function.update_self, flag]
        · rw [Function.update_of_ne same]
      have taken : Inv { w with rpc := { w.rpc with chans := Function.update w.rpc.chans c chan } } := by
        refine ⟨fun c' => ?_, fun c' closed => ?_, inv.registered, inv.nodup, inv.handlers, inv.closing, inv.shut⟩
        · dsimp only
          rw [flags]
          exact inv.closed_iff c'
        · dsimp only at closed
          rw [flags] at closed
          exact inv.made c' closed
      exact taken.setCaller i _
  next => exact inv

theorem Inv.deliver (inv : Inv w) {k : Nat} {w' : WatchedRpc} (done : w.step (.deliver k) = .ok w') : Inv w' := by
  simp only [step, Rpc.step, Rpc.deliver, overflows, shuts, List.append_nil] at done
  cases found : w.rpc.handlers[k]? with
  | none =>
    simp only [found, List.append_nil] at done
    cases done
    exact inv
  | some handler =>
    obtain ⟨c, pkg⟩ := handler
    have inside := inv.handlers _ (List.mem_of_getElem? found)
    have rest : ∀ handler ∈ w.rpc.handlers.eraseIdx k, handler.1 < w.rpc.made :=
      fun handler member => inv.handlers handler (List.mem_of_mem_eraseIdx member)
    simp only [found, Chan.deliver, Chan.close] at done
    cases closed : (w.rpc.chans c).closed with
    | true => simp [closed, bind, Except.bind] at done
    | false =>
      simp only [closed, Bool.false_eq_true, ↓reduceIte] at done
      by_cases room : (w.rpc.chans c).buf.length < 1
      · simp only [room, ↓reduceIte, List.append_nil] at done
        cases done
        have flags : ∀ c', (Function.update w.rpc.chans c
            { buf := (w.rpc.chans c).buf ++ [pkg], closed := false } c').closed = (w.rpc.chans c').closed := by
          intro c'
          by_cases same : c' = c
          · rw [same, Function.update_self, closed]
          · rw [Function.update_of_ne same]
        refine ⟨fun c' => ?_, fun c' shut => ?_, inv.registered, inv.nodup, rest, inv.closing, inv.shut⟩
        · dsimp only
          rw [flags]
          exact inv.closed_iff c'
        · dsimp only at shut
          rw [flags] at shut
          exact inv.made c' shut
      · simp only [room, ↓reduceIte] at done
        cases done
        refine ⟨fun c' => ?_, fun c' shut => ?_, inv.registered, inv.nodup, rest, inv.closing, inv.shut⟩
        · dsimp only
          rw [List.mem_append, List.mem_singleton, or_right_comm, ← inv.closed_iff c']
          by_cases same : c' = c
          · simp only [same, Function.update_self, or_true]
          · simp only [Function.update_of_ne same, same, or_false]
        · dsimp only at shut
          by_cases same : c' = c
          · exact same ▸ inside
          · rw [Function.update_of_ne same] at shut
            exact inv.made c' shut

theorem Inv.closeAll (inv : Inv w) {w' : WatchedRpc} (done : w.step .closeAll = .ok w') : Inv w' := by
  have quiet := (inv.quiet_iff .closeAll).mpr ⟨w', done⟩
  simp only [step, Rpc.step, Rpc.closeAll, overflows, shuts, List.append_nil] at done
  cases closing : w.rpc.closing with
  | false =>
    simp only [closing, Bool.false_eq_true, ↓reduceIte, List.append_nil] at done
    cases done
    exact inv
  | true =>
    have empty := inv.shut (.inr closing)
    have open' : ∀ entry ∈ w.rpc.rpcSerials, (w.rpc.chans entry.2).closed = false := by
      intro entry member
      rw [← Bool.not_eq_true, inv.closed_iff, empty]
      exact not_or.mpr ⟨quiet closing entry member, List.not_mem_nil⟩
    obtain ⟨chans', closed, flags⟩ := closeChans_ok inv.nodup open'
    simp only [closing, ↓reduceIte, closed] at done
    cases done
    refine ⟨fun c => ?_, fun c shut => ?_, inv.registered, inv.nodup, inv.handlers, fun never => ?_, fun status => ?_⟩
    · dsimp only
      rw [flags c, inv.closed_iff c, List.mem_append, or_assoc]
    · rcases (flags c).mp shut with old | now
      · exact inv.made c old
      · obtain ⟨entry, member, rfl⟩ := List.mem_map.mp now
        exact inv.registered entry member
    · cases never
    · rcases status with open'' | never
      · rw [inv.closing closing] at open''
        cases open''
      · cases never

theorem Inv.close (inv : Inv w) : Inv { w with rpc := w.rpc.close } := by
  unfold Rpc.close
  split
  next => exact inv
  next open' =>
    refine ⟨inv.closed_iff, inv.made, inv.registered, inv.nodup, inv.handlers, fun _ => rfl, fun _ => ?_⟩
    exact inv.shut (.inl (Bool.eq_false_iff.mpr open'))

theorem Inv.step (inv : Inv w) {act : RpcAct} {w' : WatchedRpc} (done : w.step act = .ok w') : Inv w' := by
  -- all steps but two are total, and add nothing to the history
  have total : ∀ rpc, Inv { w with rpc := rpc } → w.rpc.step act = .ok rpc → overflows w.rpc act = [] →
      shuts w.rpc act = [] → Inv w' := by
    intro rpc kept stepped none' none''
    rw [WatchedRpc.step, stepped, none', none'', List.append_nil, List.append_nil] at done
    cases done
    exact kept
  cases act with
  | draw i =>
    refine total _ ?_ rfl rfl rfl
    unfold Rpc.draw
    split
    next =>
      have drawn : Inv { w with rpc := { w.rpc with rpcInc := w.rpc.rpcInc + 1 } } :=
        inv.frame rfl rfl (List.Sublist.refl _) inv.handlers rfl rfl
      exact drawn.setCaller i _
    next => exact inv
  | send i failed =>
    refine total _ ?_ rfl rfl rfl
    unfold Rpc.send
    split
    next => exact inv.setCaller i _
    next => exact inv
  | register i => exact total _ (inv.register i) rfl rfl rfl
  | receive i => exact total _ (inv.receive i) rfl rfl rfl
  | expire i =>
    refine total _ ?_ rfl rfl rfl
    unfold Rpc.expire
    split
    next => exact inv.setCaller i _
    next => exact inv
  | delete i =>
    refine total _ ?_ rfl rfl rfl
    unfold Rpc.delete
    split
    next serial r _ =>
      have erased : Inv { w with rpc := { w.rpc with
          rpcSerials := AssocMap.erase (· == ·) w.rpc.rpcSerials serial } } :=
        inv.frame rfl rfl List.filter_sublist inv.handlers rfl rfl
      exact erased.setCaller i _
    next => exact inv
  | lookup serial pkg =>
    refine total _ ?_ rfl rfl rfl
    unfold Rpc.lookup
    split
    next c found =>
      refine inv.frame rfl rfl (List.Sublist.refl _) (fun handler member => ?_) rfl rfl
      rcases List.mem_append.mp member with old | new
      · exact inv.handlers handler old
      · cases List.mem_singleton.mp new
        obtain ⟨entry, known, rfl⟩ := Option.map_eq_some_iff.mp found
        exact inv.registered entry (List.mem_of_find?_eq_some known)
    next => exact inv
  | deliver k => exact inv.deliver done
  | close => exact total _ inv.close rfl rfl rfl
  | closeAll => exact inv.closeAll done

theorem run_ok_iff (inv : Inv w) (acts : List RpcAct) : (∃ w', w.run acts = .ok w') ↔ w.AllQuiet acts := by
  induction acts generalizing w with
  | nil => exact ⟨fun _ => trivial, fun _ => ⟨w, rfl⟩⟩
  | cons act rest ih =>
    rw [run, AllQuiet, inv.quiet_iff act]
    cases done : w.step act with
    | error panic =>
      constructor
      · rintro ⟨w', failed⟩
        cases failed
      · rintro ⟨⟨w', failed⟩, -⟩
        cases failed
    | ok next =>
      have after := ih (inv.step done)
      constructor
      · intro finished
        refine ⟨⟨next, rfl⟩, fun w' same => ?_⟩
        cases same
        exact after.mp finished
      · rintro ⟨-, quiet⟩
        exact after.mpr (quiet next rfl)

end

/-- A run from a new peer panics if and only if one of its steps is not quiet. -/
theorem run_panic_free_iff (acts : List RpcAct) : (∃ w, run {} acts = .ok w) ↔ AllQuiet {} acts := by
  apply run_ok_iff
  refine ⟨fun c => ?_, fun c closed => ?_, fun entry member => ?_, List.nodup_nil, fun handler member => ?_,
    fun never => ?_, fun _ => rfl⟩
  · refine ⟨fun closed => (nomatch closed), fun listed => ?_⟩
    rcases listed with member | member <;> cases member
  all_goals trivial

/-- A response, its duplicate before the first one is received, and `Close`. -/
theorem run_duplicate_panics :
    run {} [.draw 0, .send 0 false, .register 0, .lookup 1 (.ptr 0), .deliver 0, .lookup 1 (.ptr 0), .deliver 0,
      .close, .closeAll] = .error .closeOfClosed := by
  rfl

end WatchedRpc

end Xxlib.Go
