import Mathlib.Logic.Function.Basic
import Xxlib.Lib.Growing

/-! Which peers a KCP listener announces: `UvUdpKcpListener` (`test_uv_3/xx_uv.h`).

The map holds weak references. A peer whose last owner let go is created anew by the next datagram, also when
its entry was not swept yet; but it is announced only if there was no entry. Peers are numbered as they are
created, and a sweep of the updater is a walk over the entries, between whose steps user code runs.
-/

set_option autoImplicit false

namespace Xxlib.Uv3

open Lib

/-- The first 16 bytes of a datagram. -/
abbrev Guid := List UInt8

inductive KcpEvent where
  | accept (peer : Nat)
  | input (peer : Nat)
  deriving DecidableEq

/-- What the code under `Unpack` does with one datagram: whether `CreatePeer` gives a peer, whether someone else then
holds it, whether `Accept` disposes of it, and whether `Input` fails. -/
structure Arrival where
  creates : Bool
  keeps : Bool
  disposes : Bool
  fails : Bool

/-- The map and the variables of the updater, and the peers that were created: for which `Guid`, whether they are held, and
whether they are disposed of. While the updater goes over the map, `walk` is what it has left. -/
structure KcpListener where
  peers : Guid → Option Nat := fun _ => none
  walk : Option (List Guid) := none
  dels : List Guid := []
  guids : List Guid := []
  held : Nat → Bool := fun _ => false
  disposed : Nat → Bool := fun _ => false
  events : List KcpEvent := []

namespace KcpListener

/-! ## The code -/

/-- `lock` of a weak reference. -/
def lock (s : KcpListener) (p : Nat) : Option Nat := if s.held p then some p else none

def alive (s : KcpListener) (p : Nat) : Bool := s.held p && !s.disposed p

def dispose (s : KcpListener) (p : Nat) : KcpListener := { s with disposed := Function.update s.disposed p true }

/-- The last owner lets go, and the destructor disposes of the peer. -/
def letGo (s : KcpListener) (p : Nat) : KcpListener := { s.dispose p with held := Function.update s.held p false }

def input (s : KcpListener) (p : Nat) (fails : Bool) : KcpListener :=
  if s.disposed p then s
  else
    let s := { s with events := s.events ++ [.input p] }
    if fails then s.dispose p else s

def accept (s : KcpListener) (p : Nat) (disposes : Bool) : KcpListener :=
  let s := { s with events := s.events ++ [.accept p] }
  if disposes then s.dispose p else s

/-- `CreatePeer`, and the entry of the peer that it gives. -/
def create (s : KcpListener) (g : Guid) (keeps : Bool) : KcpListener :=
  let p := s.guids.length
  { s with
    peers := Function.update s.peers g (some p)
    guids := s.guids ++ [g]
    held := Function.update s.held p keeps
    disposed := Function.update s.disposed p false }

/-- A datagram that is too short is sent back. The iterator is the one from before the new entry. -/
def unpack (s : KcpListener) (recvBuf : List UInt8) (outcome : Arrival) : KcpListener :=
  if recvBuf.length < 36 then s
  else
    let g : Guid := recvBuf.take 16
    let iter := s.peers g
    match iter.bind s.lock with
    | some p => s.input p outcome.fails
    | none =>
        if outcome.creates then
          let p := s.guids.length
          let s := s.create g outcome.keeps
          let s := if iter = none then s.accept p outcome.disposes else s
          s.input p outcome.fails
        else s

/-- One round of the loop over the map. `failed` is the result of `Update`. -/
def visit (s : KcpListener) (g : Guid) (failed : Bool) : KcpListener :=
  match s.peers g with
  | none => s
  | some p =>
      if s.alive p then
        if failed then { s.dispose p with dels := s.dels ++ [g] } else s
      else { s with dels := s.dels ++ [g] }

def sweep (s : KcpListener) : KcpListener :=
  { s with peers := s.dels.foldl (fun peers g => Function.update peers g none) s.peers, dels := [], walk := none }

/-! ## Runs -/

inductive Act where
  | datagram (recvBuf : List UInt8) (outcome : Arrival)
  | tick (order : List Guid)
  | visit (failed : Bool)
  | swept
  | dispose (p : Nat)
  | letGo (p : Nat)

def step (s : KcpListener) : Act → KcpListener
  | .datagram recvBuf outcome => s.unpack recvBuf outcome
  | .tick order => { s with walk := some order }
  | .visit failed =>
      match s.walk with
      | some (g :: rest) => { s.visit g failed with walk := some rest }
      | _ => s
  | .swept => s.sweep
  | .dispose p => s.dispose p
  | .letGo p => s.letGo p

/-- The updater goes over all entries, in any order, and nothing is received meanwhile. What is disposed of or let go is a peer
that someone holds. -/
def Allowed (s : KcpListener) : Act → Prop
  | .datagram _ _ => s.walk = none
  | .tick order => s.walk = none ∧ order.Nodup ∧ ∀ g, g ∈ order ↔ s.peers g ≠ none
  | .visit _ => ∃ g rest, s.walk = some (g :: rest)
  | .swept => s.walk = some []
  | .dispose p | .letGo p => s.held p = true

/-- No peer is created for an entry whose peer is gone. -/
def Sound (s : KcpListener) : Act → Prop
  | .datagram recvBuf outcome => 36 ≤ recvBuf.length → outcome.creates = true →
      ∀ p, s.peers (recvBuf.take 16) = some p → s.held p = true
  | _ => True

inductive Run (guard : KcpListener → Act → Prop) : KcpListener → Prop where
  | fresh : Run guard {}
  | step {s : KcpListener} (act : Act) (before : Run guard s) (meets : guard s act) : Run guard (s.step act)

/-- Every peer was announced exactly once, and before its first `Input`. -/
structure Announced (s : KcpListener) : Prop where
  once : ∀ p < s.guids.length, s.events.count (.accept p) = 1
  before : ∀ i p, s.events[i]? = some (.input p) → .accept p ∈ s.events.take i

/-- For a `Guid` whose peer is alive, no other is created. -/
def Single (s : KcpListener) : Prop :=
  ∀ p recvBuf outcome, s.guids[p]? = some (recvBuf.take 16) → s.alive p = true →
    (s.unpack recvBuf outcome).guids = s.guids

/-! ## The map -/

/-- A peer that is alive has an entry, and none that the updater is about to take out. -/
structure Inv (s : KcpListener) : Prop where
  values : ∀ g p, s.peers g = some p → s.guids[p]? = some g
  entries : ∀ p g, s.guids[p]? = some g → s.alive p = true → s.peers g = some p
  dels : ∀ g ∈ s.dels, ∀ p, s.peers g = some p → s.alive p = false
  idle : s.walk = none → s.dels = []

section
variable {s : KcpListener} {p : Nat} {g : Guid}

theorem alive_dispose (q : Nat) (living : (s.dispose p).alive q = true) : s.alive q = true := by
  simp only [alive, dispose] at living ⊢
  by_cases same : q = p
  · rw [same, Function.update_self, Bool.not_true, Bool.and_false] at living
    cases living
  · rwa [Function.update_of_ne same] at living

/-- Peers end, and the map stays. -/
theorem Inv.mono (inv : Inv s) {s' : KcpListener} (peers : s'.peers = s.peers) (guids : s'.guids = s.guids)
    (dels : s'.dels = s.dels) (walk : s'.walk = s.walk) (alive : ∀ q, s'.alive q = true → s.alive q = true) : Inv s' := by
  refine ⟨fun g p found => ?_, fun p g made living => ?_, fun g member p found => ?_, fun idle => ?_⟩
  · rw [guids]
    exact inv.values g p (peers ▸ found)
  · rw [peers]
    exact inv.entries p g (guids ▸ made) (alive p living)
  · rw [← Bool.not_eq_true]
    intro living
    have gone := inv.dels g (dels ▸ member) p (peers ▸ found)
    rw [alive p living] at gone
    cases gone
  · rw [dels]
    exact inv.idle (walk ▸ idle)

theorem Inv.dispose (inv : Inv s) (p : Nat) : Inv (s.dispose p) := inv.mono rfl rfl rfl rfl alive_dispose

theorem Inv.letGo (inv : Inv s) (p : Nat) : Inv (s.letGo p) := by
  refine inv.mono rfl rfl rfl rfl fun q living => alive_dispose (p := p) q ?_
  simp only [alive, KcpListener.letGo, KcpListener.dispose] at living ⊢
  by_cases same : q = p
  · rw [same, Function.update_self, Bool.false_and] at living
    cases living
  · rwa [Function.update_of_ne same] at living

theorem Inv.input (inv : Inv s) (p : Nat) (fails : Bool) : Inv (s.input p fails) := by
  unfold KcpListener.input
  have logged : Inv { s with events := s.events ++ [.input p] } := inv.mono rfl rfl rfl rfl fun _ living => living
  split
  · exact inv
  · dsimp only
    split
    · exact logged.dispose p
    · exact logged

theorem Inv.accept (inv : Inv s) (p : Nat) (disposes : Bool) : Inv (s.accept p disposes) := by
  unfold KcpListener.accept
  have logged : Inv { s with events := s.events ++ [.accept p] } := inv.mono rfl rfl rfl rfl fun _ living => living
  dsimp only
  split
  · exact logged.dispose p
  · exact logged

/-- The peer of the `Guid` before is not held any more. -/
theorem Inv.create (inv : Inv s) (idle : s.walk = none) (gone : (s.peers g).bind s.lock = none) (keeps : Bool) :
    Inv (s.create g keeps) := by
  have older : ∀ q < s.guids.length, (s.create g keeps).alive q = s.alive q := by
    intro q below
    have other := Nat.ne_of_lt below
    simp only [KcpListener.create, alive, Function.update_of_ne other]
  constructor
  case values =>
    intro g' p found
    simp only [KcpListener.create] at found ⊢
    by_cases same : g' = g
    · rw [same, Function.update_self] at found
      cases found
      rw [same]
      exact List.getElem?_concat_length
    · rw [Function.update_of_ne same] at found
      exact getElem?_append_of_some (inv.values g' p found)
  case entries =>
    intro p g' made living
    rcases getElem?_concat_cases made with made | ⟨rfl, rfl⟩
    · rw [older p (List.getElem?_eq_some_iff.mp made).1] at living
      have found := inv.entries p g' made living
      refine (Function.update_of_ne ?_ _ _).trans found
      rintro rfl
      rw [found, Option.bind_some, lock, if_pos (Bool.and_eq_true_iff.mp living).1] at gone
      cases gone
    · exact Function.update_self _ _ _
  case dels =>
    intro g' member
    simp only [KcpListener.create, inv.idle idle] at member
    cases member
  case idle => exact inv.idle

theorem Inv.unpack (inv : Inv s) (idle : s.walk = none) (recvBuf : List UInt8) (outcome : Arrival) :
    Inv (s.unpack recvBuf outcome) := by
  unfold KcpListener.unpack
  split
  · exact inv
  · dsimp only
    split
    next p known => exact inv.input p outcome.fails
    next gone =>
      have created := inv.create idle gone outcome.keeps
      split
      · apply Inv.input
        split
        · exact created.accept _ _
        · exact created
      · exact inv

theorem Inv.visit (inv : Inv s) (g : Guid) (failed : Bool) (rest : List Guid) :
    Inv { s.visit g failed with walk := some rest } := by
  have walked : Inv { s with walk := some rest } := ⟨inv.values, inv.entries, inv.dels, fun idle => nomatch idle⟩
  unfold KcpListener.visit
  cases found : s.peers g with
  | none => exact walked
  | some p =>
    dsimp only
    split
    · split
      · refine ⟨walked.values, (walked.dispose p).entries, fun g' member q found' => ?_, fun idle => nomatch idle⟩
        rcases List.mem_append.mp member with old | new
        · exact (walked.dispose p).dels g' old q found'
        · cases List.mem_singleton.mp new
          cases found.symm.trans found'
          simp only [alive, KcpListener.dispose, Function.update_self, Bool.not_true, Bool.and_false]
      · exact walked
    next gone =>
      refine ⟨walked.values, walked.entries, fun g' member q found' => ?_, fun idle => nomatch idle⟩
      rcases List.mem_append.mp member with old | new
      · exact walked.dels g' old q found'
      · cases List.mem_singleton.mp new
        cases found.symm.trans found'
        exact Bool.eq_false_iff.mpr gone

/-- What the updater erases is not there, and what is still there was there before. -/
theorem erased_eq (dels : List Guid) (peers : Guid → Option Nat) (g : Guid) :
    dels.foldl (fun peers g => Function.update peers g none) peers g = if g ∈ dels then none else peers g := by
  induction dels generalizing peers with
  | nil => rfl
  | cons d dels ih =>
    rw [List.foldl_cons, ih]
    by_cases same : g = d
    · rw [same, Function.update_self, ite_self, if_pos List.mem_cons_self]
    · simp only [Function.update_of_ne same, List.mem_cons, same, false_or]

theorem Inv.sweep (inv : Inv s) : Inv s.sweep := by
  refine ⟨fun g p found => ?_, fun p g made living => ?_, fun g member => (nomatch member), fun _ => rfl⟩
  · simp only [KcpListener.sweep, erased_eq] at found
    split at found
    · cases found
    · exact inv.values g p found
  · have found := inv.entries p g made living
    simp only [KcpListener.sweep, erased_eq]
    rw [if_neg, found]
    intro member
    have gone := inv.dels g member p found
    rw [show s.alive p = true from living] at gone
    cases gone

theorem step_inv {act : Act} (inv : Inv s) (allowed : s.Allowed act) : Inv (s.step act) := by
  cases act with
  | datagram recvBuf outcome => exact inv.unpack allowed recvBuf outcome
  | tick order =>
    refine ⟨inv.values, inv.entries, ?_, fun idle => nomatch idle⟩
    intro g member
    exact inv.dels g member
  | visit failed =>
    obtain ⟨g, rest, walk⟩ := allowed
    simp only [step, walk]
    exact inv.visit g failed rest
  | swept => exact inv.sweep
  | dispose p => exact inv.dispose p
  | letGo p => exact inv.letGo p

theorem input_guids (fails : Bool) : (s.input p fails).guids = s.guids := by
  unfold KcpListener.input
  split
  · rfl
  · dsimp only
    split <;> rfl

theorem Inv.single (inv : Inv s) : Single s := by
  intro p recvBuf outcome made living
  have found := inv.entries p _ made living
  unfold KcpListener.unpack
  split
  · rfl
  · dsimp only
    rw [found, Option.bind_some, lock, if_pos (Bool.and_eq_true_iff.mp living).1]
    exact input_guids outcome.fails

/-! ## The announcements -/

/-- Nothing has happened to a peer that was not created yet. -/
structure Tells (s : KcpListener) : Prop where
  announced : Announced s
  later : ∀ p, s.guids.length ≤ p → .accept p ∉ s.events ∧ .input p ∉ s.events

/-- The last event may be an `Input` of a peer that was announced, or any announcement. -/
theorem before_concat {events : List KcpEvent} {last : KcpEvent}
    (before : ∀ i p, events[i]? = some (.input p) → .accept p ∈ events.take i)
    (there : ∀ p, last = .input p → .accept p ∈ events) {i : Nat} (found : (events ++ [last])[i]? = some (.input p)) :
    .accept p ∈ (events ++ [last]).take i := by
  rcases getElem?_concat_cases found with old | ⟨rfl, new⟩
  · have below := (List.getElem?_eq_some_iff.mp old).1
    rw [List.take_append_of_le_length (Nat.le_of_lt below)]
    exact before i p old
  · rw [List.take_left]
    exact there p new.symm

theorem Tells.dispose (tells : Tells s) (p : Nat) : Tells (s.dispose p) := ⟨⟨tells.announced.1, tells.announced.2⟩, tells.later⟩

theorem Tells.input (tells : Tells s) (made : p < s.guids.length) (fails : Bool) : Tells (s.input p fails) := by
  have there : KcpEvent.accept p ∈ s.events := by
    rw [← List.count_pos_iff, tells.announced.once p made]
    exact Nat.one_pos
  have logged : Tells { s with events := s.events ++ [.input p] } := by
    refine ⟨⟨fun q below => ?_, fun i q found => ?_⟩, fun q above => ?_⟩
    · rw [List.count_append, tells.announced.once q below]
      rfl
    · refine before_concat tells.announced.before (fun q same => ?_) found
      cases same
      exact there
    · obtain ⟨accept, input⟩ := tells.later q above
      simp only [List.mem_append, List.mem_singleton, not_or]
      refine ⟨⟨accept, fun same => nomatch same⟩, input, fun same => ?_⟩
      cases same
      exact Nat.not_lt_of_le above made
  unfold KcpListener.input
  split
  · exact tells
  · dsimp only
    split
    · exact logged.dispose p
    · exact logged

theorem accept_guids (disposes : Bool) : (s.accept p disposes).guids = s.guids := by
  unfold KcpListener.accept
  dsimp only
  split <;> rfl

/-- A peer that is created and announced. -/
theorem Tells.accept (tells : Tells s) (g : Guid) (keeps disposes : Bool) :
    Tells ((s.create g keeps).accept s.guids.length disposes) := by
  obtain ⟨accept, input⟩ := tells.later s.guids.length (Nat.le_refl _)
  have logged : Tells { s.create g keeps with events := s.events ++ [.accept s.guids.length] } := by
    refine ⟨⟨fun q below => ?_, fun i q found => ?_⟩, fun q above => ?_⟩
    · simp only [KcpListener.create, List.length_append, List.length_singleton] at below
      rw [List.count_append]
      by_cases same : q = s.guids.length
      · rw [same, List.count_eq_zero.mpr accept, Nat.zero_add]
        exact List.count_singleton_self (a := KcpEvent.accept s.guids.length)
      · have other : KcpEvent.accept s.guids.length ≠ .accept q := fun equal => same (KcpEvent.accept.inj equal).symm
        rw [tells.announced.once q (by omega), List.count_singleton, beq_eq_false_iff_ne.mpr other]
        rfl
    · exact before_concat tells.announced.before (fun q (same : KcpEvent.accept _ = .input q) => nomatch same) found
    · simp only [KcpListener.create, List.length_append, List.length_singleton] at above
      obtain ⟨accept, input⟩ := tells.later q (by omega)
      simp only [List.mem_append, List.mem_singleton, not_or]
      refine ⟨⟨accept, fun same => ?_⟩, input, fun same => nomatch same⟩
      cases same
      omega
  unfold KcpListener.accept
  dsimp only
  split
  · exact logged.dispose _
  · exact logged

theorem Tells.unpack (tells : Tells s) (inv : Inv s) {recvBuf : List UInt8} {outcome : Arrival}
    (sound : s.Sound (.datagram recvBuf outcome)) : Tells (s.unpack recvBuf outcome) := by
  unfold KcpListener.unpack
  split
  · exact tells
  next long =>
    dsimp only
    split
    next p known =>
      obtain ⟨q, found, locked⟩ := Option.bind_eq_some_iff.mp known
      rw [lock] at locked
      split at locked
      · cases locked
        exact tells.input (List.getElem?_eq_some_iff.mp (inv.values _ _ found)).1 outcome.fails
      · cases locked
    next gone =>
      split
      next creates =>
        have none' : s.peers (recvBuf.take 16) = none := by
          by_contra some'
          obtain ⟨p, found⟩ := Option.ne_none_iff_exists'.mp some'
          rw [found, Option.bind_some, lock, if_pos (sound (Nat.le_of_not_lt long) creates p found)] at gone
          cases gone
        rw [if_pos none']
        refine Tells.input (tells.accept _ _ _) ?_ outcome.fails
        rw [accept_guids]
        simp [KcpListener.create]
      next => exact tells

theorem step_tells {act : Act} (tells : Tells s) (inv : Inv s) (sound : s.Sound act) : Tells (s.step act) := by
  cases act with
  | datagram recvBuf outcome => exact tells.unpack inv sound
  | tick order => exact ⟨⟨tells.announced.1, tells.announced.2⟩, tells.later⟩
  | visit failed =>
    simp only [step]
    split
    next g rest _ =>
      have same : (s.visit g failed).guids = s.guids ∧ (s.visit g failed).events = s.events := by
        unfold KcpListener.visit
        split
        · exact ⟨rfl, rfl⟩
        · split
          · split <;> exact ⟨rfl, rfl⟩
          · exact ⟨rfl, rfl⟩
      obtain ⟨guids, events⟩ := same
      refine ⟨⟨?_, ?_⟩, ?_⟩ <;> simp only [guids, events]
      · exact tells.announced.once
      · exact tells.announced.before
      · exact tells.later
    · exact tells
  | swept => exact ⟨⟨tells.announced.1, tells.announced.2⟩, tells.later⟩
  | dispose p => exact tells.dispose p
  | letGo p => exact ⟨⟨tells.announced.1, tells.announced.2⟩, tells.later⟩

/-- A peer that is created for an entry whose peer is gone is not announced. -/
theorem unsound_unannounced {act : Act} (tells : Tells s) (unsound : ¬ s.Sound act) : ¬ Announced (s.step act) := by
  cases act with
  | datagram recvBuf outcome =>
    simp only [Sound, Classical.not_imp, not_forall] at unsound
    obtain ⟨long, creates, p, found, gone⟩ := unsound
    have stepped : s.step (.datagram recvBuf outcome) =
        (s.create (recvBuf.take 16) outcome.keeps).input s.guids.length outcome.fails := by
      simp only [step, KcpListener.unpack]
      rw [if_neg (Nat.not_lt_of_le long), found, Option.bind_some, lock, if_neg gone]
      simp only [creates, if_true, reduceCtorEq, if_false]
    intro announced
    have once := announced.once s.guids.length
    rw [stepped, input_guids] at once
    have accept : KcpEvent.accept s.guids.length ∉
        ((s.create (recvBuf.take 16) outcome.keeps).input s.guids.length outcome.fails).events := by
      have fresh := (tells.later s.guids.length (Nat.le_refl _)).1
      unfold KcpListener.input
      split
      · exact fresh
      · dsimp only
        split <;> simpa [KcpListener.dispose, KcpListener.create] using fresh
    rw [List.count_eq_zero.mpr accept] at once
    exact absurd (once (by simp [KcpListener.create])) Nat.zero_ne_one
  | _ => exact absurd trivial unsound

theorem run_keeps (run : Run (fun s act => s.Allowed act ∧ s.Sound act) s) : Inv s ∧ Tells s := by
  induction run with
  | fresh =>
    refine ⟨⟨fun _ _ found => (nomatch found), fun p g made => ?_, fun _ member => (nomatch member), fun _ => rfl⟩,
      ⟨fun p below => absurd below (Nat.not_lt_zero p), fun i p found => ?_⟩, fun _ _ => ⟨List.not_mem_nil, List.not_mem_nil⟩⟩
    · cases made
    · cases found
  | step act before meets ih => exact ⟨step_inv ih.1 meets.1, step_tells ih.2 ih.1 meets.2⟩

/-- While no peer is created for an entry whose peer is gone, every peer is announced exactly once, before its first `Input`. The
first step that does not keep to this creates a peer that is not. -/
theorem run_announces (run : Run (fun s act => s.Allowed act ∧ s.Sound act) s) :
    Announced s ∧ Single s ∧ ∀ act, s.Allowed act → (Announced (s.step act) ↔ s.Sound act) := by
  obtain ⟨inv, tells⟩ := run_keeps run
  refine ⟨tells.announced, inv.single, fun act _ => ⟨fun announced => ?_, fun sound => (step_tells tells inv sound).announced⟩⟩
  by_contra unsound
  exact unsound_unannounced tells unsound announced

end

/-- A peer whose last owner let go is swept, and announced anew. -/
theorem run_announces_again : ∃ s : KcpListener, s.events = [.accept 0, .input 0, .accept 1, .input 1] ∧ Announced s := by
  have run₀ : Run (fun s act => s.Allowed act ∧ s.Sound act) {} := .fresh
  have run₁ := Run.step (.datagram (List.replicate 36 7) ⟨true, true, false, false⟩) run₀
    ⟨rfl, fun _ _ _ found => nomatch found⟩
  have run₂ := Run.step (.letGo 0) run₁ ⟨rfl, trivial⟩
  have run₃ := Run.step (.tick [List.replicate 16 7]) run₂ ⟨⟨rfl, by decide, fun g => by
    by_cases same : g = List.replicate 16 7
    · subst same
      decide
    · simp only [List.mem_singleton, same, false_iff, not_not]
      exact Function.update_of_ne same _ _⟩, trivial⟩
  have run₄ := Run.step (.visit false) run₃ ⟨⟨_, _, rfl⟩, trivial⟩
  have run₅ := Run.step .swept run₄ ⟨rfl, trivial⟩
  have run₆ := Run.step (.datagram (List.replicate 36 7) ⟨true, true, false, false⟩) run₅
    ⟨rfl, fun _ _ _ found => nomatch found⟩
  exact ⟨_, rfl, (run_announces run₆).1⟩

/-- The same datagram comes before the sweep. -/
theorem run_unannounced : ∃ s : KcpListener, Run Allowed s ∧ s.events = [.accept 0, .input 0, .input 1] ∧ ¬ Announced s := by
  have run₀ : Run Allowed {} := .fresh
  have run₁ := Run.step (.datagram (List.replicate 36 7) ⟨true, true, false, false⟩) run₀ rfl
  have run₂ := Run.step (.letGo 0) run₁ rfl
  have run₃ := Run.step (.datagram (List.replicate 36 7) ⟨true, true, false, false⟩) run₂ rfl
  exact ⟨_, run₃, rfl, fun announced => absurd (announced.once 1 (by decide)) (by decide)⟩

end KcpListener

end Xxlib.Uv3
