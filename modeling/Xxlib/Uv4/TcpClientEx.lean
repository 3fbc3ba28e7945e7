import Xxlib.Lib.SwapRemove

/-! `CreateTcpClientEx`: one client for each address of a name, and the first that connects (`xx_uv.cpp`).

The clients have numbers, in the order of their creation. A client whose `Connect` has returned 0 calls its
`OnConnect` once, for its connection, its error or its timeout, unless it is released before. A handle in `conns` is
not checked before it is used: a step is undefined if it goes through the handle of a released client.
-/

set_option autoImplicit false

namespace Xxlib.Uv4.TcpClientEx

open Lib

/-- The parsers of addresses; 0 for success. -/
structure Libuv where
  uvIp4Addr : List Char → Int → Int
  uvIp6Addr : List Char → Int → Int

inductive Phase where
  | created
  | connecting
  | connected
  | released
  deriving DecidableEq

/-- `conns` and `cb` of the source's context, the clients, and the calls of `cb` so far. -/
structure Ctx where
  conns : List Nat := []
  cb : Bool := true
  userNumber : Nat → Nat := fun _ => 0
  phase : Nat → Phase := fun _ => .created
  created : Nat := 0
  answers : List (Option Nat) := []

namespace Ctx

/-! ## The code -/

/-- `ctx->cb(conn)`; undefined if there is no `cb` any more. -/
def answer (s : Ctx) (conn : Option Nat) : Option Ctx :=
  if s.cb then some { s with answers := s.answers ++ [conn] } else none

def release (s : Ctx) (conn : Nat) : Option Ctx :=
  if s.phase conn = .released then none else some { s with phase := Function.update s.phase conn .released }

def releaseAll (s : Ctx) : List Nat → Option Ctx
  | [] => some s
  | conn :: rest => (s.release conn).bind fun s => s.releaseAll rest

/-- The function that a client has as `OnConnect`. -/
def onConnect (s : Ctx) (conn : Nat) (status : Int) : Option Ctx :=
  match s.conns[s.conns.length - 1]? with
  | none => none
  | some last =>
      if s.phase last = .released then none
      else
        let s := { s with userNumber := Function.update s.userNumber last (s.userNumber conn) }
        let s := { s with conns := swapRemove s.conns (s.userNumber conn) }
        if status = 0 then
          let s := { s with phase := Function.update s.phase conn .connected }
          (s.releaseAll s.conns).bind fun s =>
            let s := { s with userNumber := Function.update s.userNumber conn 0 }
            (s.answer (some conn)).map fun s => { s with cb := false }
        else
          (s.release conn).bind fun s =>
            if s.conns = [] then (s.answer none).map fun s => { s with cb := false } else some s

def setAddress (libuv : Libuv) (port : Int) (ip : List Char) : Int :=
  if ip.contains ':' then libuv.uvIp6Addr ip port else libuv.uvIp4Addr ip port

/-- A client is created for an address, and released again if it is not one. -/
def enlist (libuv : Libuv) (port : Int) (s : Ctx) (ip : List Char) : Ctx :=
  if setAddress libuv port ip ≠ 0 then
    { s with created := s.created + 1, phase := Function.update s.phase s.created .released }
  else
    { s with
      created := s.created + 1
      userNumber := Function.update s.userNumber s.created s.conns.length
      conns := s.conns ++ [s.created] }

/-- The loop that starts the connections; `connect` is what `Connect` returns for a client. -/
def connectAll (connect : Nat → Int) (s : Ctx) : List Nat → Option Ctx
  | [] => some s
  | conn :: rest =>
      let started :=
        if connect conn = 0 then some { s with phase := Function.update s.phase conn .connecting }
        else (s.release conn).bind fun s => if s.conns = [] ∧ s.cb = true then s.answer none else some s
      started.bind fun s => if s.cb = false then some s else s.connectAll connect rest

/-- The function that `GetIPList` is given. -/
def resolved (libuv : Libuv) (port : Int) (connect : Nat → Int) (ips : List (List Char)) : Option Ctx :=
  let s := ips.foldl (enlist libuv port) {}
  if s.conns = [] then s.answer none else s.connectAll connect s.conns

/-! ## Runs -/

/-- The calls of `OnConnect` after `start`, in any order. -/
inductive Run (start : Ctx) : List (Nat × Int) → Ctx → Prop where
  | start : Run start [] start
  | next {events : List (Nat × Int)} {s s' : Ctx} {conn : Nat} {status : Int} (before : Run start events s)
      (connecting : s.phase conn = .connecting) (steps : s.onConnect conn status = some s') :
      Run start (events ++ [(conn, status)]) s'

/-- The first client that connects. -/
def winner (events : List (Nat × Int)) : Option Nat := (events.find? fun event => event.2 = 0).map Prod.fst

/-- What is asked of every state. -/
structure AnswersOnce (events : List (Nat × Int)) (s : Ctx) : Prop where
  won : ∀ conn, winner events = some conn → s.answers = [some conn]
  waiting : winner events = none → (∃ conn, s.phase conn = .connecting) → s.answers = []
  lost : winner events = none → (∀ conn, s.phase conn ≠ .connecting) → s.answers = [none]
  released : s.answers ≠ [] → ∀ conn < s.created, some conn ∉ s.answers → s.phase conn = .released
  access : ∀ conn status, s.phase conn = .connecting →
    s.conns[s.userNumber conn]? = some conn ∧ (s.onConnect conn status).isSome = true

/-! ## Releasing -/

section
variable {s s' : Ctx} {conns : List Nat}

theorem releaseAll_eq (nodup : conns.Nodup) (living : ∀ conn ∈ conns, s.phase conn ≠ .released) :
    s.releaseAll conns = some { s with phase := fun conn => if conn ∈ conns then .released else s.phase conn } := by
  induction conns generalizing s with
  | nil => simp [releaseAll]
  | cons conn rest ih =>
    obtain ⟨outside, nodup⟩ := List.nodup_cons.mp nodup
    have first : s.release conn = some { s with phase := Function.update s.phase conn .released } :=
      if_neg (living conn List.mem_cons_self)
    rw [releaseAll, first, Option.bind_some, ih nodup]
    · refine congrArg some (congrArg (fun phase => { s with phase := phase }) (funext fun other => ?_))
      by_cases same : other = conn
      · simp [same, outside]
      · simp [same]
    · intro other member
      dsimp only
      rw [Function.update_of_ne (ne_of_mem_of_not_mem member outside)]
      exact living other (List.mem_cons_of_mem _ member)

/-- A client is not released twice. -/
theorem releaseAll_none {dead : Nat} (member : dead ∈ conns) (released : s.phase dead = .released) :
    s.releaseAll conns = none := by
  induction conns generalizing s with
  | nil => cases member
  | cons conn rest ih =>
    rw [releaseAll]
    by_cases gone : s.phase conn = .released
    · rw [show s.release conn = none from if_pos gone, Option.bind_none]
    · rw [show s.release conn = some { s with phase := Function.update s.phase conn .released } from if_neg gone,
        Option.bind_some]
      have other : dead ≠ conn := fun same => gone (same ▸ released)
      refine ih ((List.mem_cons.mp member).resolve_left other) ?_
      dsimp only
      rw [Function.update_of_ne other, released]

/-! ## The start -/

/-- What the first loop leaves, after the addresses it has seen. -/
structure Enlisted (libuv : Libuv) (port : Int) (ips : List (List Char)) (s : Ctx) : Prop where
  created : s.created = ips.length
  indexed : Indexed s.conns s.userNumber
  members : ∀ conn, conn ∈ s.conns ↔ ∃ ip, ips[conn]? = some ip ∧ setAddress libuv port ip = 0
  phases : ∀ conn, s.phase conn = if conn < s.created ∧ conn ∉ s.conns then .released else .created
  unanswered : s.answers = []
  cb : s.cb = true

theorem Enlisted.enlist {libuv : Libuv} {port : Int} {ips : List (List Char)} (enlisted : Enlisted libuv port ips s)
    (ip : List Char) : Enlisted libuv port (ips ++ [ip]) (s.enlist libuv port ip) := by
  have new : s.created ∉ s.conns := by
    intro member
    obtain ⟨ip, found, -⟩ := (enlisted.members s.created).mp member
    have bound := (List.getElem?_eq_some_iff.mp found).1
    have length := enlisted.created
    omega
  have at_end : ∀ conn, (ips ++ [ip])[conn]? = if conn = s.created then some ip else ips[conn]? := by
    intro conn
    rw [enlisted.created]
    by_cases last : conn = ips.length
    · rw [if_pos last, last, List.getElem?_concat_length]
    · rw [if_neg last]
      by_cases before : conn < ips.length
      · rw [List.getElem?_append_left before]
      · rw [List.getElem?_eq_none (by simp; omega), List.getElem?_eq_none (by omega)]
  have length : s.created + 1 = (ips ++ [ip]).length := by
    rw [enlisted.created, List.length_append, List.length_singleton]
  have outside : ips[s.created]? = none := List.getElem?_eq_none (Nat.le_of_eq enlisted.created.symm)
  unfold Ctx.enlist
  split
  · next invalid =>
    refine ⟨length, enlisted.indexed, fun conn => ?_, fun conn => ?_, enlisted.unanswered, enlisted.cb⟩
    · dsimp only
      rw [enlisted.members, at_end]
      by_cases last : conn = s.created
      · rw [if_pos last, last, outside]
        constructor
        · rintro ⟨_, absent, -⟩
          cases absent
        · rintro ⟨_, same, valid⟩
          cases same
          exact absurd valid invalid
      · rw [if_neg last]
    · dsimp only
      rw [Function.update_apply, enlisted.phases]
      by_cases last : conn = s.created
      · rw [if_pos last, last, if_pos ⟨Nat.lt_succ_self _, new⟩]
      · rw [if_neg last]
        refine if_congr (and_congr_left fun _ => ?_) rfl rfl
        omega
  · next valid =>
    refine ⟨length, enlisted.indexed.concat new, fun conn => ?_, fun conn => ?_, enlisted.unanswered, enlisted.cb⟩
    · dsimp only
      rw [List.mem_append, List.mem_singleton, enlisted.members, at_end]
      by_cases last : conn = s.created
      · rw [if_pos last]
        exact ⟨fun _ => ⟨ip, rfl, Decidable.not_not.mp valid⟩, fun _ => .inr last⟩
      · rw [if_neg last]
        exact ⟨fun either => either.resolve_right last, .inl⟩
    · dsimp only
      rw [enlisted.phases]
      refine if_congr ?_ rfl rfl
      rw [List.mem_append, List.mem_singleton, not_or]
      constructor
      · rintro ⟨before, absent⟩
        exact ⟨by omega, absent, by omega⟩
      · rintro ⟨before, absent, other⟩
        exact ⟨by omega, absent⟩

theorem enlisted_all (libuv : Libuv) (port : Int) (ips : List (List Char)) :
    Enlisted libuv port ips (ips.foldl (Ctx.enlist libuv port) {}) := by
  have general : ∀ (rest seen : List (List Char)) (s : Ctx), Enlisted libuv port seen s →
      Enlisted libuv port (seen ++ rest) (rest.foldl (Ctx.enlist libuv port) s) := by
    intro rest
    induction rest with
    | nil =>
      intro seen s enlisted
      rw [List.append_nil]
      exact enlisted
    | cons ip rest ih =>
      intro seen s enlisted
      rw [List.append_cons]
      exact ih _ _ (enlisted.enlist ip)
  refine general ips [] {} ⟨rfl, ?_, ?_, ?_, rfl, rfl⟩
  · intro i conn found
    cases found
  · intro conn
    simp
  · intro conn
    simp

/-- The phases after the second loop: it never finds `conns` empty, and never stops early. -/
theorem connectAll_eq {connect : Nat → Int} (cb : s.cb = true) (some' : s.conns ≠ []) (nodup : conns.Nodup)
    (living : ∀ conn ∈ conns, s.phase conn ≠ .released) : s.connectAll connect conns =
      some { s with
        phase := fun conn =>
          if conn ∈ conns then (if connect conn = 0 then .connecting else .released) else s.phase conn } := by
  induction conns generalizing s with
  | nil => simp [connectAll]
  | cons conn rest ih =>
    obtain ⟨outside, nodup⟩ := List.nodup_cons.mp nodup
    let phase : Phase := if connect conn = 0 then .connecting else .released
    have first : (if connect conn = 0 then some { s with phase := Function.update s.phase conn .connecting }
        else (s.release conn).bind fun s => if s.conns = [] ∧ s.cb = true then s.answer none else some s) =
          some { s with phase := Function.update s.phase conn phase } := by
      by_cases accepted : connect conn = 0
      · simp only [phase, if_pos accepted]
      · have released : s.release conn = some { s with phase := Function.update s.phase conn .released } :=
          if_neg (living conn List.mem_cons_self)
        rw [if_neg accepted, released, Option.bind_some, if_neg (fun both => some' both.1)]
        simp only [phase, if_neg accepted]
    rw [connectAll]
    simp only [first, Option.bind_some]
    rw [if_neg (by simp [cb]), ih (s := { s with phase := Function.update s.phase conn phase }) cb some' nodup]
    · refine congrArg some (congrArg (fun phase => { s with phase := phase }) (funext fun other => ?_))
      by_cases same : other = conn
      · simp [same, outside, phase]
      · simp [same]
    · intro other member
      dsimp only
      rw [Function.update_of_ne (ne_of_mem_of_not_mem member outside)]
      exact living other (List.mem_cons_of_mem _ member)

/-! ## The calls of `OnConnect` -/

/-- Nobody has been told yet: the clients in `conns` are those that are connecting. -/
structure Waiting (s : Ctx) : Prop where
  cb : s.cb = true
  unanswered : s.answers = []
  some' : s.conns ≠ []
  indexed : Indexed s.conns s.userNumber
  members : ∀ conn, conn ∈ s.conns ↔ s.phase conn = .connecting
  others : ∀ conn < s.created, conn ∉ s.conns → s.phase conn = .released

/-- The answer has been given, and nothing is left to come. -/
structure Answered (s : Ctx) (conn : Option Nat) : Prop where
  answers : s.answers = [conn]
  done : ∀ other, s.phase other ≠ .connecting
  others : ∀ other < s.created, some other ≠ conn → s.phase other = .released

theorem Waiting.place (waiting : Waiting s) {conn : Nat} (connecting : s.phase conn = .connecting) :
    s.conns[s.userNumber conn]? = some conn := by
  obtain ⟨i, found⟩ := List.mem_iff_getElem?.mp ((waiting.members conn).mpr connecting)
  rw [waiting.indexed i conn found]
  exact found

/-- Up to the decision: the client takes itself out of the list. -/
theorem onConnect_eq {conn last : Nat} {status : Int} (end' : s.conns[s.conns.length - 1]? = some last)
    (living : s.phase last ≠ .released) : s.onConnect conn status =
      let s := { s with
        userNumber := Function.update s.userNumber last (s.userNumber conn)
        conns := swapRemove s.conns (s.userNumber conn) }
      if status = 0 then
        let s := { s with phase := Function.update s.phase conn .connected }
        (s.releaseAll s.conns).bind fun s =>
          let s := { s with userNumber := Function.update s.userNumber conn 0 }
          (s.answer (some conn)).map fun s => { s with cb := false }
      else
        (s.release conn).bind fun s =>
          if s.conns = [] then (s.answer none).map fun s => { s with cb := false } else some s := by
  have same : Function.update s.userNumber last (s.userNumber conn) conn = s.userNumber conn := by
    rw [Function.update_apply]
    split <;> rfl
  unfold onConnect
  rw [end']
  dsimp only
  rw [if_neg living, same]

section
variable {conn : Nat} (waiting : Waiting s) (connecting : s.phase conn = .connecting)
include waiting

theorem Waiting.last : ∃ last, s.conns[s.conns.length - 1]? = some last ∧ s.phase last ≠ .released := by
  have length := List.length_pos_iff.mpr waiting.some'
  obtain ⟨last, end'⟩ : ∃ last, s.conns[s.conns.length - 1]? = some last := ⟨_, List.getElem?_eq_getElem (by omega)⟩
  refine ⟨last, end', ?_⟩
  rw [(waiting.members last).mp (List.mem_of_getElem? end')]
  decide

include connecting

theorem Waiting.mem_rest (other : Nat) :
    other ∈ swapRemove s.conns (s.userNumber conn) ↔ other ∈ s.conns ∧ other ≠ conn :=
  waiting.indexed.mem_swapRemove (waiting.place connecting)

theorem Waiting.nodup_rest : (swapRemove s.conns (s.userNumber conn)).Nodup := by
  obtain ⟨last, end', -⟩ := waiting.last
  exact (waiting.indexed.swapRemove (List.getElem?_eq_some_iff.mp (waiting.place connecting)).1 end').nodup

/-- The first client that connects releases all others and is the answer. -/
theorem Waiting.success : ∃ s', s.onConnect conn 0 = some s' ∧ Answered s' (some conn) := by
  obtain ⟨last, end', living⟩ := waiting.last
  have rest := waiting.mem_rest connecting
  rw [onConnect_eq end' living]
  dsimp only
  rw [if_pos rfl, releaseAll_eq (waiting.nodup_rest connecting)]
  · rw [Option.bind_some, answer, if_pos waiting.cb]
    refine ⟨_, rfl, ?_, fun other => ?_, fun other before different => ?_⟩
    · dsimp only
      rw [waiting.unanswered]
      rfl
    · dsimp only
      split
      · decide
      · next outside =>
        rw [Function.update_apply]
        split
        · decide
        · next different =>
          rw [rest] at outside
          exact fun other' => outside ⟨(waiting.members other).mpr other', different⟩
    · dsimp only
      split
      · rfl
      · next outside =>
        have different : other ≠ conn := fun same => different (congrArg some same)
        rw [Function.update_of_ne different]
        rw [rest] at outside
        exact waiting.others other before fun member => outside ⟨member, different⟩
  · intro other member
    obtain ⟨listed, different⟩ := (rest other).mp member
    dsimp only
    rw [Function.update_of_ne different, (waiting.members other).mp listed]
    decide

/-- A client that fails leaves the others, or the answer that there is none. -/
theorem Waiting.failure {status : Int} (failed : status ≠ 0) :
    ∃ s', s.onConnect conn status = some s' ∧ (Waiting s' ∨ Answered s' none) := by
  obtain ⟨last, end', living⟩ := waiting.last
  have rest := waiting.mem_rest connecting
  have living' : ¬ s.phase conn = .released := by
    rw [connecting]
    decide
  have members : ∀ other, other ∈ swapRemove s.conns (s.userNumber conn) ↔
      Function.update s.phase conn .released other = .connecting := by
    intro other
    rw [rest, waiting.members, Function.update_apply]
    split
    · next same => simp [same]
    · next different => simp [different]
  have others : ∀ other < s.created, other ∉ swapRemove s.conns (s.userNumber conn) →
      Function.update s.phase conn .released other = .released := by
    intro other before outside
    rw [Function.update_apply]
    split
    · rfl
    · next different =>
      rw [rest] at outside
      exact waiting.others other before fun member => outside ⟨member, different⟩
  rw [onConnect_eq end' living]
  dsimp only
  rw [if_neg failed, release, if_neg living', Option.bind_some]
  dsimp only
  by_cases empty : swapRemove s.conns (s.userNumber conn) = []
  · rw [if_pos empty, answer, if_pos waiting.cb]
    refine ⟨_, rfl, .inr ⟨?_, fun other => ?_, fun other before _ => ?_⟩⟩
    · dsimp only
      rw [waiting.unanswered]
      rfl
    · dsimp only
      rw [ne_eq, ← members, empty]
      exact List.not_mem_nil
    · exact others other before (by rw [empty]; exact List.not_mem_nil)
  · rw [if_neg empty]
    have inside := (List.getElem?_eq_some_iff.mp (waiting.place connecting)).1
    exact ⟨_, rfl, .inl ⟨waiting.cb, waiting.unanswered, empty, waiting.indexed.swapRemove inside end', members, others⟩⟩

end

/-! ## All runs -/

/-- In every state either all are waiting, or the answer is there. -/
def Settled (events : List (Nat × Int)) (s : Ctx) : Prop :=
  (winner events = none ∧ (Waiting s ∨ Answered s none)) ∨ ∃ conn, winner events = some conn ∧ Answered s (some conn)

theorem winner_append (events : List (Nat × Int)) (conn : Nat) (status : Int) :
    winner (events ++ [(conn, status)]) = (winner events).or (if status = 0 then some conn else none) := by
  unfold winner
  rw [List.find?_append, Option.map_or]
  congr 1
  by_cases success : status = 0 <;> simp [success]

theorem Settled.waiting {events : List (Nat × Int)} {conn : Nat} (settled : Settled events s)
    (connecting : s.phase conn = .connecting) : winner events = none ∧ Waiting s := by
  rcases settled with ⟨none, waiting | answered⟩ | ⟨first, -, answered⟩
  · exact ⟨none, waiting⟩
  · exact absurd connecting (answered.done conn)
  · exact absurd connecting (answered.done conn)

theorem Settled.step {events : List (Nat × Int)} {conn : Nat} {status : Int} (settled : Settled events s)
    (connecting : s.phase conn = .connecting) (steps : s.onConnect conn status = some s') :
    Settled (events ++ [(conn, status)]) s' := by
  obtain ⟨none, waiting⟩ := settled.waiting connecting
  unfold Settled
  rw [winner_append, none, Option.none_or]
  by_cases success : status = 0
  · subst success
    obtain ⟨s'', again, answered⟩ := waiting.success connecting
    rw [steps] at again
    cases again
    exact .inr ⟨conn, rfl, answered⟩
  · obtain ⟨s'', again, either⟩ := waiting.failure connecting success
    rw [steps] at again
    cases again
    exact .inl ⟨if_neg success, either⟩

theorem Settled.of_run {start : Ctx} {events : List (Nat × Int)} (settled : Settled [] start)
    (run : Run start events s) : Settled events s := by
  induction run with
  | start => exact settled
  | next before connecting steps ih => exact ih.step connecting steps

theorem Settled.answersOnce {events : List (Nat × Int)} (settled : Settled events s) : AnswersOnce events s := by
  refine ⟨fun conn won => ?_, fun none some' => ?_, fun none done => ?_, fun answered conn before other => ?_,
    fun conn status connecting => ?_⟩
  · rcases settled with ⟨none, -⟩ | ⟨first, won', answered⟩
    · rw [none] at won
      cases won
    · rw [won'] at won
      cases won
      exact answered.answers
  · obtain ⟨conn, connecting⟩ := some'
    exact (settled.waiting connecting).2.unanswered
  · rcases settled with ⟨-, waiting | answered⟩ | ⟨first, won, -⟩
    · obtain ⟨conn, member⟩ := List.exists_mem_of_ne_nil _ waiting.some'
      exact absurd ((waiting.members conn).mp member) (done conn)
    · exact answered.answers
    · rw [none] at won
      cases won
  · rcases settled with ⟨-, waiting | answered'⟩ | ⟨first, -, answered'⟩
    · exact absurd waiting.unanswered answered
    · exact answered'.others conn before nofun
    · refine answered'.others conn before fun same => other ?_
      rw [answered'.answers, same]
      exact List.mem_singleton_self _
  · obtain ⟨-, waiting⟩ := settled.waiting connecting
    refine ⟨waiting.place connecting, ?_⟩
    by_cases success : status = 0
    · obtain ⟨s'', steps, -⟩ := waiting.success connecting
      rw [success, steps]
      rfl
    · obtain ⟨s'', steps, -⟩ := waiting.failure connecting success
      rw [steps]
      rfl

/-- The phases after the start, if there are clients at all. -/
theorem resolved_eq {libuv : Libuv} {port : Int} {ips : List (List Char)} (connect : Nat → Int)
    (enlisted : Enlisted libuv port ips (ips.foldl (Ctx.enlist libuv port) {}))
    (some' : (ips.foldl (Ctx.enlist libuv port) {}).conns ≠ []) : ∃ s, resolved libuv port connect ips = some s ∧
      s.cb = true ∧ s.answers = [] ∧ s.conns ≠ [] ∧ Indexed s.conns s.userNumber ∧
      (∀ conn, conn ∈ s.conns ↔ ∃ ip, ips[conn]? = some ip ∧ setAddress libuv port ip = 0) ∧
      (∀ conn ∈ s.conns, s.phase conn = if connect conn = 0 then .connecting else .released) ∧
      ∀ conn, conn ∉ s.conns → s.phase conn ≠ .connecting ∧ (conn < s.created → s.phase conn = .released) := by
  unfold resolved
  dsimp only
  rw [if_neg some', connectAll_eq enlisted.cb some' enlisted.indexed.nodup]
  · refine ⟨_, rfl, enlisted.cb, enlisted.unanswered, some', enlisted.indexed, enlisted.members, ?_, ?_⟩
    · intro conn member
      exact if_pos member
    · intro conn outside
      dsimp only at outside ⊢
      rw [if_neg outside, enlisted.phases]
      refine ⟨?_, fun before => if_pos ⟨before, outside⟩⟩
      split <;> decide
  · intro conn member
    rw [enlisted.phases, if_neg (fun both => both.2 member)]
    decide

/-- A client that failed at once stays in the list: the first that connects releases it again. -/
theorem onConnect_undefined {conn dead : Nat} (indexed : Indexed s.conns s.userNumber) (member : conn ∈ s.conns)
    (listed : dead ∈ s.conns) (different : dead ≠ conn) (released : s.phase dead = .released) :
    s.onConnect conn 0 = none := by
  obtain ⟨i, found⟩ := List.mem_iff_getElem?.mp member
  have place : s.conns[s.userNumber conn]? = some conn := by rwa [indexed i conn found]
  cases end' : s.conns[s.conns.length - 1]? with
  | none =>
    unfold onConnect
    rw [end']
  | some last =>
    by_cases living : s.phase last = .released
    · unfold onConnect
      rw [end']
      exact if_pos living
    · rw [onConnect_eq end' living]
      dsimp only
      rw [if_pos rfl, releaseAll_none ((indexed.mem_swapRemove place).mpr ⟨listed, different⟩), Option.bind_none]
      dsimp only
      rw [Function.update_of_ne different, released]

/-- Without a client the function is called at once. -/
theorem resolved_unconnected {libuv : Libuv} {port : Int} {ips : List (List Char)} (connect : Nat → Int)
    (enlisted : Enlisted libuv port ips (ips.foldl (Ctx.enlist libuv port) {}))
    (empty : (ips.foldl (Ctx.enlist libuv port) {}).conns = []) :
    ∃ s, resolved libuv port connect ips = some s ∧ Answered s none := by
  unfold resolved
  dsimp only
  rw [if_pos empty, answer, if_pos enlisted.cb]
  refine ⟨_, rfl, ?_, ?_, ?_⟩
  · dsimp only
    rw [enlisted.unanswered]
    rfl
  · intro conn
    dsimp only
    rw [enlisted.phases]
    split <;> decide
  · intro conn before _
    dsimp only
    rw [enlisted.phases, if_pos ⟨before, by rw [empty]; exact List.not_mem_nil⟩]

/-- A client that failed at once is in the way of every other, and without others there is no answer. -/
theorem not_answersOnce {dead : Nat} (indexed : Indexed s.conns s.userNumber) (unanswered : s.answers = [])
    (pending : ∀ conn, s.phase conn = .connecting → conn ∈ s.conns) (listed : dead ∈ s.conns)
    (released : s.phase dead = .released) : ¬ AnswersOnce [] s := by
  intro once
  by_cases others : ∃ conn, s.phase conn = .connecting
  · obtain ⟨conn, connecting⟩ := others
    have different : dead ≠ conn := by
      rintro rfl
      rw [released] at connecting
      cases connecting
    have defined := (once.access conn 0 connecting).2
    rw [onConnect_undefined indexed (pending conn connecting) listed different released] at defined
    cases defined
  · have answered := once.lost rfl fun conn connecting => others ⟨conn, connecting⟩
    rw [unanswered] at answered
    cases answered

/-- The function is called exactly once, with the first client that connects or with none, if and only if no client's
`Connect` fails at once. -/
theorem answers_once_iff (libuv : Libuv) (port : Int) (connect : Nat → Int) (ips : List (List Char)) :
    (∃ start, resolved libuv port connect ips = some start ∧
      ∀ events s, Run start events s → AnswersOnce events s) ↔
    ∀ conn ip, ips[conn]? = some ip → setAddress libuv port ip = 0 → connect conn = 0 := by
  have enlisted := enlisted_all libuv port ips
  by_cases empty : (ips.foldl (Ctx.enlist libuv port) {}).conns = []
  · constructor
    · rintro - conn ip found valid
      have member := (enlisted.members conn).mpr ⟨ip, found, valid⟩
      rw [empty] at member
      cases member
    · intro _
      obtain ⟨start, started, answered⟩ := resolved_unconnected connect enlisted empty
      exact ⟨start, started, fun events s run => (Settled.of_run (.inl ⟨rfl, .inr answered⟩) run).answersOnce⟩
  · obtain ⟨start, started, cb, unanswered, some', indexed, members, phases, others⟩ :=
      resolved_eq connect enlisted empty
    have pending : ∀ conn, start.phase conn = .connecting → conn ∈ start.conns := by
      intro conn connecting
      by_contra outside
      exact (others conn outside).1 connecting
    constructor
    · rintro ⟨start', started', answers⟩ dead ip found valid
      rw [started] at started'
      cases started'
      have listed := (members dead).mpr ⟨ip, found, valid⟩
      by_contra failed
      have released : start.phase dead = .released := (phases dead listed).trans (if_neg failed)
      exact not_answersOnce indexed unanswered pending listed released (answers [] start .start)
    · intro accepted
      refine ⟨start, started, fun events s run => (Settled.of_run (.inl ⟨rfl, .inl ?_⟩) run).answersOnce⟩
      -- every client of the list is connecting, so that all are waiting
      refine ⟨cb, unanswered, some', indexed, fun conn => ⟨fun member => ?_, pending conn⟩, fun conn before outside => ?_⟩
      · obtain ⟨ip, found, valid⟩ := (members conn).mp member
        rw [phases conn member, if_pos (accepted conn ip found valid)]
      · exact (others conn outside).2 before

end

/-- `127.0.0.1` and `127.0.0.2`, and nothing else, are addresses. -/
def loopback : Libuv where
  uvIp4Addr ip _ :=
    if ip = ['1', '2', '7', '.', '0', '.', '0', '.', '1'] ∨ ip = ['1', '2', '7', '.', '0', '.', '0', '.', '2'] then 0
    else -22
  uvIp6Addr _ _ := -22

/-- If the only client fails at once, nobody is ever told. If one of two does, the other one's connection goes through
its handle. -/
theorem immediate_failure_unanswered :
    (∃ start, resolved loopback 80 (fun _ => -1) [['1', '2', '7', '.', '0', '.', '0', '.', '1']] = some start ∧
      start.answers = [] ∧ (∀ conn, start.phase conn ≠ .connecting) ∧ ¬ AnswersOnce [] start) ∧
    ∃ start, resolved loopback 80 (fun conn => if conn = 0 then -1 else 0)
        [['1', '2', '7', '.', '0', '.', '0', '.', '1'], ['1', '2', '7', '.', '0', '.', '0', '.', '2']] = some start ∧
      start.phase 1 = .connecting ∧ start.onConnect 1 0 = none ∧ ¬ AnswersOnce [] start := by
  constructor
  · have idle : ∀ conn, Function.update (fun _ => Phase.created) 0 Phase.released conn ≠ .connecting := by
      intro conn
      rw [Function.update_apply]
      split <;> decide
    refine ⟨_, rfl, rfl, idle, fun once => ?_⟩
    exact nomatch once.lost rfl idle
  · refine ⟨_, rfl, rfl, rfl, fun once => ?_⟩
    exact nomatch (once.access 1 0 rfl).2

end Ctx

end Xxlib.Uv4.TcpClientEx
