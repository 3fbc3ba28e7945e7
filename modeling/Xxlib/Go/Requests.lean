import Xxlib.Go.Rpc

/-! What a request returns: `SendRequest` with the frames that `sendCore` queues (`xx_tcppeer.go`).

Next to the peer, it is written down what each request is to return: the first response with its
serial that `HandleResponse` gets after the frame was queued, before its time is over or the peer
is closed.
-/

set_option autoImplicit false

namespace Xxlib.Go

/-- What a request is to return, so far. -/
inductive Await where
  | unsent
  | open (serial : Int32)
  | settled (r : IObject)
  deriving DecidableEq

namespace Await

def answer : Await → IObject
  | .settled r => r
  | _ => .nil

/-- A response comes in. -/
def respond (serial : Int32) (pkg : IObject) (await : Await) : Await :=
  if await = .open serial then .settled pkg else await

/-- The time is over, or the peer is closed. -/
def finish : Await → Await
  | .open _ => .settled .nil
  | await => await

end Await

/-- The number of a request is that of its call. -/
structure RequestRun where
  heap : List Obj
  sends : List (List UInt8) := []
  rpc : Rpc := {}
  awaits : Nat → Await := fun _ => .unsent

inductive Crash where
  | panic (panic : Panic)
  | chan (panic : ChanPanic)

/-- `write` is a round of `beginSend`; the answer of `sendCore` is not chosen by a step. -/
inductive RequestAct where
  | send (i : Nat) (pkg : IObject)
  | write
  | rpc (act : RpcAct)

namespace RequestRun

def process (s : RequestRun) : Process := ⟨s.heap, { sends := s.sends, closed := s.rpc.closed }⟩

def send (s : RequestRun) (i : Nat) (pkg : IObject) : Except Crash RequestRun :=
  match s.rpc.callers i with
  | some (.drawn serial) =>
      match sendCore 1 serial pkg s.process with
      | .error panic => .error (.panic panic)
      | .ok (failed, process) => .ok {
          heap := process.heap
          sends := process.peer.sends
          rpc := s.rpc.send i failed
          awaits :=
            if s.sends.length < process.peer.sends.length then Function.update s.awaits i (.open serial) else s.awaits }
  | _ => .ok s

def await (s : RequestRun) : RpcAct → Nat → Await
  | .lookup serial pkg => fun i => (s.awaits i).respond serial pkg
  | .expire i => Function.update s.awaits i (s.awaits i).finish
  | .close => fun i => (s.awaits i).finish
  | _ => s.awaits

def step (s : RequestRun) : RequestAct → Except Crash RequestRun
  | .send i pkg => s.send i pkg
  | .write => .ok { s with sends := s.sends.tail }
  | .rpc (.send _ _) => .ok s
  | .rpc act =>
      match s.rpc.step act with
      | .error panic => .error (.chan panic)
      | .ok rpc => .ok { s with rpc := rpc, awaits := s.await act }

def run : RequestRun → List RequestAct → Except Crash RequestRun
  | s, [] => .ok s
  | s, act :: rest =>
      match s.step act with
      | .error crash => .error crash
      | .ok s => run s rest

/-- Every request whose frame was queued has returned what it is to return, if it has returned. -/
def Correlated (s : RequestRun) : Prop :=
  ∀ i r, s.rpc.callers i = some (.returned r) → s.awaits i ≠ .unsent → r = (s.awaits i).answer

/-- A response with a package does not come in for a request that is to wait for it. -/
def Unanswered (s : RequestRun) : RequestAct → Prop
  | .rpc (.lookup serial pkg) => pkg = .nil ∨ ∀ i, s.awaits i ≠ .open serial
  | _ => True

/-- All steps of a run are so. -/
def AllUnanswered : RequestRun → List RequestAct → Prop
  | _, [] => True
  | s, act :: rest => s.Unanswered act ∧ ∀ s', s.step act = .ok s' → AllUnanswered s' rest

end RequestRun

theorem sendCore_answers_true {typeId : UInt8} {serial : Int32} {pkg : IObject} {process process' : Process} {failed : Bool}
    (sent : sendCore typeId serial pkg process = .ok (failed, process')) : failed = true := by
  unfold sendCore at sent
  dsimp only at sent
  split at sent
  · cases sent
    rfl
  · split at sent
    · cases sent
    · cases sent
      rfl

namespace RequestRun

variable {s s' : RequestRun}

/-- No request gets to wait: each has returned at once. -/
structure Inv (s : RequestRun) : Prop where
  callers : ∀ i caller, s.rpc.callers i = some caller → caller = .returned .nil ∨ ∃ serial, caller = .drawn serial
  awaits : ∀ i, s.awaits i ≠ .unsent → s.rpc.callers i = some (.returned .nil)

/-- Every request is to return nothing. -/
def Clean (s : RequestRun) : Prop := ∀ i, (s.awaits i).answer = .nil

theorem Inv.correlated_iff (inv : Inv s) : Correlated s ↔ Clean s := by
  constructor
  · intro correlated i
    by_cases sent : s.awaits i = .unsent
    · rw [sent]
      rfl
    · exact (correlated i .nil (inv.awaits i sent) sent).symm
  · intro clean i r returned _
    rcases inv.callers i _ returned with same | ⟨serial, same⟩
    · cases same
      exact (clean i).symm
    · cases same

theorem Inv.send (inv : Inv s) {i : Nat} {pkg : IObject} (done : s.send i pkg = .ok s') :
    Inv s' ∧ (Clean s' ↔ Clean s) := by
  unfold RequestRun.send at done
  split at done
  next serial drawn =>
    split at done
    · cases done
    next failed process sent =>
      cases sendCore_answers_true sent
      cases done
      -- a request is sent once
      have unsent : s.awaits i = .unsent := by
        by_contra other
        rw [inv.awaits i other] at drawn
        cases drawn
      have callers : (s.rpc.send i true).callers = Function.update s.rpc.callers i (some (.returned .nil)) := by
        simp only [Rpc.send, drawn, Rpc.setCaller, ↓reduceIte]
      have elsewhere : ∀ j, j ≠ i → (if s.sends.length < process.peer.sends.length then
          Function.update s.awaits i (.open serial) else s.awaits) j = s.awaits j := by
        intro j other
        split
        · rw [Function.update_of_ne other]
        · rfl
      refine ⟨⟨?_, ?_⟩, ?_⟩
      · intro j caller at'
        rw [callers] at at'
        by_cases same : j = i
        · rw [same, Function.update_self] at at'
          exact .inl (Option.some.inj at').symm
        · rw [Function.update_of_ne same] at at'
          exact inv.callers j caller at'
      · intro j sent'
        rw [callers]
        by_cases same : j = i
        · rw [same, Function.update_self]
        · rw [Function.update_of_ne same]
          apply inv.awaits j
          rwa [← elsewhere j same]
      · apply forall_congr'
        intro j
        by_cases same : j = i
        · rw [same, unsent]
          dsimp only
          split
          · rw [Function.update_self]
            exact Iff.rfl
          · rw [unsent]
        · exact iff_of_eq (congrArg (Await.answer · = .nil) (elsewhere j same))
  next =>
    cases done
    exact ⟨inv, Iff.rfl⟩

/-- A request that is drawn or has returned takes none of the later steps. -/
theorem callers_of_idle {rpc rpc' : Rpc} {act : RpcAct} (done : rpc.step act = .ok rpc')
    (idle : ∀ i caller, rpc.callers i = some caller → caller = .returned .nil ∨ ∃ serial, caller = .drawn serial)
    (draw : ∀ i, act ≠ .draw i) (send : ∀ i failed, act ≠ .send i failed) : rpc'.callers = rpc.callers := by
  -- a send without an error leaves no caller in a state that these acts look for
  have never : ∀ i caller, rpc.callers i = some caller → (∀ serial, caller ≠ .sent serial) ∧
      (∀ serial c, caller ≠ .waiting serial c) ∧ ∀ serial r, caller ≠ .woken serial r := by
    intro i caller at'
    rcases idle i caller at' with rfl | ⟨serial, rfl⟩ <;> simp
  cases act with
  | draw i => exact absurd rfl (draw i)
  | send i failed => exact absurd rfl (send i failed)
  | register i =>
    cases done
    unfold Rpc.register
    split
    next serial at' => exact absurd rfl ((never i _ at').1 serial)
    next => rfl
  | receive i =>
    cases done
    unfold Rpc.receive
    split
    next serial c at' => exact absurd rfl ((never i _ at').2.1 serial c)
    next => rfl
  | expire i =>
    cases done
    unfold Rpc.expire
    split
    next serial c at' => exact absurd rfl ((never i _ at').2.1 serial c)
    next => rfl
  | delete i =>
    cases done
    unfold Rpc.delete
    split
    next serial r at' => exact absurd rfl ((never i _ at').2.2 serial r)
    next => rfl
  | lookup serial pkg =>
    cases done
    unfold Rpc.lookup
    split <;> rfl
  | deliver k =>
    simp only [Rpc.step, Rpc.deliver] at done
    split at done
    next c pkg _ =>
      cases delivered : (rpc.chans c).deliver pkg with
      | error panic =>
        rw [delivered] at done
        cases done
      | ok chan =>
        rw [delivered] at done
        cases done
        rfl
    next =>
      cases done
      rfl
  | close =>
    cases done
    unfold Rpc.close
    split <;> rfl
  | closeAll =>
    simp only [Rpc.step, Rpc.closeAll] at done
    split at done
    next =>
      cases closed : Rpc.closeChans rpc.rpcSerials rpc.chans with
      | error panic =>
        rw [closed] at done
        cases done
      | ok chans =>
        rw [closed] at done
        cases done
        rfl
    next =>
      cases done
      rfl

/-- A step that moves no request past the point behind which it would be registered. -/
theorem Inv.rpc (inv : Inv s) {act : RpcAct} {rpc : Rpc} (done : s.rpc.step act = .ok rpc)
    (other : ∀ i failed, act ≠ .send i failed) :
    (∀ i caller, rpc.callers i = some caller → caller = .returned .nil ∨ ∃ serial, caller = .drawn serial) ∧
      ∀ i, s.rpc.callers i = some (.returned .nil) → rpc.callers i = some (.returned .nil) := by
  by_cases draws : ∃ i, act = .draw i
  · obtain ⟨i, rfl⟩ := draws
    cases done
    unfold Rpc.draw
    split
    next fresh =>
      refine ⟨fun j caller at' => ?_, fun j returned => ?_⟩
      · dsimp only [Rpc.setCaller] at at'
        by_cases same : j = i
        · rw [same, Function.update_self] at at'
          exact .inr ⟨_, (Option.some.inj at').symm⟩
        · rw [Function.update_of_ne same] at at'
          exact inv.callers j caller at'
      · dsimp only [Rpc.setCaller]
        rw [Function.update_of_ne]
        · exact returned
        · rintro rfl
          rw [fresh] at returned
          cases returned
    next => exact ⟨inv.callers, fun _ => id⟩
  · rw [callers_of_idle done inv.callers (fun i same => draws ⟨i, same⟩) other]
    exact ⟨inv.callers, fun _ => id⟩

theorem await_unsent {act : RpcAct} {i : Nat} (unsent : s.awaits i = .unsent) : s.await act i = .unsent := by
  cases act with
  | lookup serial pkg =>
    simp only [await, unsent, Await.respond]
    exact if_neg fun same => nomatch same
  | expire j =>
    simp only [await]
    by_cases same : i = j
    · rw [← same, Function.update_self, unsent]
      rfl
    · rw [Function.update_of_ne same, unsent]
  | close => simp only [await, unsent, Await.finish]
  | _ => exact unsent

theorem finish_answer (await : Await) : await.finish.answer = await.answer := by cases await <;> rfl

theorem respond_answer {serial : Int32} {pkg : IObject} {await : Await} :
    (await.respond serial pkg).answer = .nil ↔ await.answer = .nil ∧ (pkg = .nil ∨ await ≠ .open serial) := by
  unfold Await.respond
  split
  next same =>
    rw [same]
    simp [Await.answer]
  next other => simp [other]

/-- A request is to return something from the step on in which a response for it comes in. -/
theorem await_clean_iff (act : RpcAct) :
    (∀ i, (s.await act i).answer = .nil) ↔ Clean s ∧ s.Unanswered (.rpc act) := by
  cases act with
  | lookup serial pkg =>
    simp only [await, respond_answer, Clean, Unanswered]
    rw [forall_and, forall_or_left]
  | expire j =>
    refine Iff.trans (forall_congr' fun i => ?_) (and_iff_left trivial).symm
    simp only [await]
    by_cases same : i = j
    · rw [same, Function.update_self, finish_answer]
    · rw [Function.update_of_ne same]
  | close =>
    simp only [await, finish_answer, Unanswered, and_true]
    exact Iff.rfl
  | _ => exact (and_iff_left trivial).symm

theorem Inv.step (inv : Inv s) {act : RequestAct} (done : s.step act = .ok s') :
    Inv s' ∧ (Clean s' ↔ Clean s ∧ s.Unanswered act) := by
  cases act with
  | send i pkg =>
    obtain ⟨inv', clean⟩ := inv.send done
    exact ⟨inv', clean.trans (and_iff_left trivial).symm⟩
  | write =>
    cases done
    exact ⟨⟨inv.callers, inv.awaits⟩, (and_iff_left trivial).symm⟩
  | rpc act =>
    by_cases sends : ∃ i failed, act = .send i failed
    · obtain ⟨i, failed, rfl⟩ := sends
      cases done
      exact ⟨inv, (and_iff_left trivial).symm⟩
    · have other : ∀ i failed, act ≠ .send i failed := fun i failed same => sends ⟨i, failed, same⟩
      have stepped : (match s.rpc.step act with
          | .error panic => .error (.chan panic)
          | .ok rpc => .ok { s with rpc := rpc, awaits := s.await act }) = Except.ok (ε := Crash) s' := by
        rw [← done]
        cases act <;> first | rfl | exact absurd rfl (other _ _)
      cases result : s.rpc.step act with
      | error panic =>
        rw [result] at stepped
        cases stepped
      | ok rpc =>
        rw [result] at stepped
        cases stepped
        obtain ⟨callers, returned⟩ := inv.rpc result other
        refine ⟨⟨callers, fun i sent => returned i (inv.awaits i fun unsent => sent (await_unsent unsent))⟩, ?_⟩
        exact await_clean_iff act

theorem Inv.run (inv : Inv s) {acts : List RequestAct} (done : s.run acts = .ok s') :
    Inv s' ∧ (Clean s' ↔ Clean s ∧ s.AllUnanswered acts) := by
  induction acts generalizing s with
  | nil =>
    cases done
    exact ⟨inv, (and_iff_left trivial).symm⟩
  | cons act rest ih =>
    rw [RequestRun.run] at done
    cases result : s.step act with
    | error crash =>
      rw [result] at done
      cases done
    | ok next =>
      rw [result] at done
      obtain ⟨inv', first⟩ := inv.step result
      obtain ⟨inv'', behind⟩ := ih inv' done
      refine ⟨inv'', behind.trans ?_⟩
      rw [first, and_assoc, AllUnanswered]
      refine and_congr_right fun _ => and_congr_right fun _ => ?_
      constructor
      · intro all s₁ same
        cases result.symm.trans same
        exact all
      · exact fun all => all next result

/-- In a run from a new peer, the requests return what they are to return if and only if no response with a package
comes in for one that is to wait. -/
theorem run_correlated_iff {heap : List Obj} {acts : List RequestAct} (done : run { heap := heap } acts = .ok s) :
    Correlated s ↔ AllUnanswered { heap := heap } acts := by
  have inv : Inv { heap := heap } := ⟨fun i caller at' => (nomatch at'), fun i sent => absurd rfl sent⟩
  obtain ⟨inv', clean⟩ := inv.run done
  rw [inv'.correlated_iff, clean]
  exact and_iff_right fun i => rfl

/-- A request that is not answered in time, and returns nothing. -/
theorem run_correlated_iff_expired : ∃ s, run { heap := [.listInt32 [5]] }
    [.rpc (.draw 0), .send 0 (.ptr 0), .write, .rpc (.expire 0), .rpc (.lookup 1 (.ptr 0))] = .ok s ∧ Correlated s := by
  obtain ⟨s, done⟩ : ∃ s, run { heap := [.listInt32 [5]] }
      [.rpc (.draw 0), .send 0 (.ptr 0), .write, .rpc (.expire 0), .rpc (.lookup 1 (.ptr 0))] = .ok s := ⟨_, rfl⟩
  refine ⟨s, done, (run_correlated_iff done).mpr ?_⟩
  refine ⟨trivial, fun s₁ drawn => ?_⟩
  cases drawn
  refine ⟨trivial, fun s₂ sent => ?_⟩
  cases sent
  refine ⟨trivial, fun s₃ written => ?_⟩
  cases written
  refine ⟨trivial, fun s₄ expired => ?_⟩
  cases expired
  refine ⟨.inr fun i same => ?_, fun _ _ => trivial⟩
  match i, same with
  | 0, same => cases same
  | _ + 1, same => cases same

/-- The answer to a request comes in, which has returned before. -/
theorem run_loses_response : ∃ s, run { heap := [.listInt32 [5]] }
    [.rpc (.draw 0), .send 0 (.ptr 0), .write, .rpc (.lookup 1 (.ptr 0))] = .ok s ∧ ¬ Correlated s := by
  refine ⟨_, rfl, fun correlated => ?_⟩
  have lost := correlated 0 .nil rfl (fun same => nomatch same)
  cases lost

end RequestRun

end Xxlib.Go
