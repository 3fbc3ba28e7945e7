import Xxlib.Lib.AssocMap
import Xxlib.Lib.Growing
import Xxlib.Uv3.Peer

/-! The signs of serials between two peers (`UvTcpPeer` and `UvUdpKcpPeer` of `test_uv_3/xx_uv.h`).

Both sides send requests, answer those of the other, and take a package for a push, a request or a response by the
sign of its serial. Packages are handled in any order. A callback is called and its entry erased in one step: what it
does itself are later steps, and what may go wrong in between is not considered here.
-/

set_option autoImplicit false

namespace Xxlib.Uv3

open Lib

abbrev Side := Bool

/-- What a package was sent as, with the number of the request that it is or answers. This is not on the wire. -/
inductive Purpose where
  | push
  | request (number : Nat)
  | response (number : Nat)
  deriving DecidableEq

/-- What an answer to the package is. -/
def Purpose.answer : Purpose → Purpose
  | .request number => .response number
  | .push | .response _ => .push

structure Package (M : Type) where
  serial : Int
  msg : M
  purpose : Purpose

/-- What `HandlePack` takes a package for. -/
inductive Handling where
  | push
  | request (serial : Int)
  | response (serial : Int)
  deriving DecidableEq

def handling (serial : Int) : Handling :=
  if serial = 0 then .push
  else if serial < 0 then .request (toInt32 (-serial))
  else .response serial

/-- How a call of `SendRequest` goes. -/
inductive Outcome where
  | noTimer
  | failed
  | sent

/-- The fields, and what happened so far: the key of each request that was sent, in their order, the serials that
`ReceiveRequest` got with what the packages were, and the callbacks that were called with the responses they got. -/
structure Party where
  active : Bool := true
  serial : Int := 0
  callbacks : List (Int × Nat) := []
  keys : List Int := []
  asked : List (Int × Purpose) := []
  calls : List (Nat × Purpose) := []

namespace Party

variable {M : Type}

def find (p : Party) (serial : Int) : Option Nat := AssocMap.lookup (fun a b => a == b) p.callbacks serial

def erase (p : Party) (serial : Int) : Party :=
  { p with callbacks := AssocMap.erase (fun a b => a == b) p.callbacks serial }

/-- `callbacks[serial] = v` -/
def insert (p : Party) (number : Nat) : Party :=
  { p with callbacks := AssocMap.put (fun a b => a == b) p.callbacks p.serial number true }

def dispose (p : Party) : Party := { p with active := false, callbacks := [] }

/-- `++serial` -/
def draw (p : Party) : Party := { p with serial := toInt32 (p.serial + 1) }

def sendRequest (kind : PeerKind) (p : Party) (msg : M) : Outcome → Party × List (Package M)
  | .noTimer => (p.draw, [])
  | .failed => (if kind.failureDisposes then p.draw.dispose else p.draw, [])
  | .sent => ({ p.draw.insert p.keys.length with keys := p.keys ++ [p.draw.serial] },
      [⟨toInt32 (-p.draw.serial), msg, .request p.keys.length⟩])

def handlePack (p : Party) (package : Package M) : Party :=
  match handling package.serial with
  | .push => p
  | .request serial => { p with asked := p.asked ++ [(serial, package.purpose)] }
  | .response serial =>
      match p.find serial with
      -- answered or timed out before
      | none => p
      | some number => { p.erase serial with calls := p.calls ++ [(number, package.purpose)] }

end Party

/-- Two peers, and the packages on their way to each of them. -/
structure Session (M : Type) where
  party : Side → Party := fun _ => {}
  inFlight : Side → List (Package M) := fun _ => []

namespace Session

variable {M : Type}

/-! ## Runs -/

/-- `sendResponse` answers a call of `ReceiveRequest` with the serial that it got. -/
inductive Act (M : Type) where
  | sendPush (side : Side) (msg : M)
  | sendRequest (side : Side) (outcome : Outcome) (msg : M)
  | sendResponse (side : Side) (index : Nat) (msg : M)
  | handlePack (side : Side) (index : Nat)
  | timeoutCallback (side : Side) (serial : Int)
  | dispose (side : Side)

def Act.side : Act M → Side
  | .sendPush side _ | .sendRequest side _ _ | .sendResponse side _ _ | .handlePack side _ | .timeoutCallback side _
  | .dispose side => side

def setParty (s : Session M) (side : Side) (p : Party) : Session M :=
  { s with party := Function.update s.party side p }

/-- Packages go to the other side. -/
def send (s : Session M) (side : Side) (packages : List (Package M)) : Session M :=
  { s with inFlight := Function.update s.inFlight (!side) (s.inFlight (!side) ++ packages) }

def perform (kind : PeerKind) (s : Session M) : Act M → Option (Session M)
  | .sendPush side msg => some (s.send side [⟨0, msg, .push⟩])
  | .sendRequest side outcome msg =>
      let (p, packages) := (s.party side).sendRequest kind msg outcome
      some ((s.setParty side p).send side packages)
  | .sendResponse side index msg => do
      let (serial, purpose) ← (s.party side).asked[index]?
      return s.send side [⟨serial, msg, purpose.answer⟩]
  | .handlePack side index => do
      let package ← (s.inFlight side)[index]?
      return { s with inFlight := Function.update s.inFlight side ((s.inFlight side).eraseIdx index) }.setParty side
        ((s.party side).handlePack package)
  | .timeoutCallback side serial => some (s.setParty side ((s.party side).erase serial))
  | .dispose side => some (s.setParty side (s.party side).dispose)

/-- Only a peer that was not disposed of sends and receives. -/
def step (kind : PeerKind) (s : Session M) (act : Act M) : Option (Session M) :=
  if (s.party act.side).active then s.perform kind act else none

inductive Run (kind : PeerKind) (guard : Session M → Act M → Prop) : Session M → Prop where
  | fresh : Run kind guard {}
  | step {s s' : Session M} (act : Act M) (before : Run kind guard s) (meets : guard s act)
      (steps : s.step kind act = some s') : Run kind guard s'

/-- The counter has not yet reached the largest `int`. -/
def Room (s : Session M) : Act M → Prop
  | .sendRequest side _ _ => (s.party side).serial + 1 < 2 ^ 31
  | _ => True

/-- Every package is taken for what it is, and a response for that to its own request. -/
structure Disciplined (s : Session M) : Prop where
  stored : ∀ side, ∀ entry ∈ (s.party side).callbacks, (s.party side).keys[entry.2]? = some entry.1
  pushes : ∀ side, ∀ package ∈ s.inFlight side, package.purpose = .push → package.serial = 0
  requests : ∀ side, ∀ package ∈ s.inFlight (!side), ∀ number, package.purpose = .request number →
    package.serial < 0 ∧ 0 < toInt32 (-package.serial) ∧
      (s.party side).keys[number]? = some (toInt32 (-package.serial))
  asked : ∀ side, ∀ asked ∈ (s.party (!side)).asked, 0 < asked.1 ∧
    ∃ number, asked.2 = .request number ∧ (s.party side).keys[number]? = some asked.1
  responses : ∀ side, ∀ package ∈ s.inFlight side, ∀ number, package.purpose = .response number →
    0 < package.serial ∧ (s.party side).keys[number]? = some package.serial ∧
      (∀ other, (s.party side).find package.serial = some other → other = number) ∧
      (number ∈ (s.party side).callbacks.map Prod.snd → (s.party side).find package.serial = some number)
  calls : ∀ side, ∀ call ∈ (s.party side).calls, call.2 = .response call.1

/-! ## The invariant -/

/-- Serials are positive and used once, and each callback is stored under that of its request. -/
structure Keyed (p : Party) : Prop where
  nonneg : 0 ≤ p.serial
  small : p.serial < 2 ^ 31
  positive : ∀ key ∈ p.keys, 0 < key ∧ key ≤ p.serial
  distinct : p.keys.Nodup
  stored : ∀ entry ∈ p.callbacks, p.keys[entry.2]? = some entry.1
  entries : AssocMap.Distinct (fun a b => a == b) p.callbacks
  calls : ∀ call ∈ p.calls, call.2 = .response call.1

/-- The serial is that of what was sent, by the keys of the sender and of the receiver. -/
def Fits (sender receiver : List Int) (package : Package M) : Prop :=
  match package.purpose with
  | .push => package.serial = 0
  | .request number => ∃ key, sender[number]? = some key ∧ package.serial = -key
  | .response number => receiver[number]? = some package.serial

/-- What `ReceiveRequest` got is a request of the peer with these keys. -/
def Asks (keys : List Int) (asked : Int × Purpose) : Prop :=
  ∃ number, asked.2 = .request number ∧ keys[number]? = some asked.1

structure Linked (s : Session M) : Prop where
  keyed : ∀ side, Keyed (s.party side)
  packages : ∀ side, ∀ package ∈ s.inFlight side, Fits (s.party (!side)).keys (s.party side).keys package
  asked : ∀ side, ∀ asked ∈ (s.party side).asked, Asks (s.party (!side)).keys asked

section
variable {s s' : Session M} {kind : PeerKind} {side : Side} {p : Party} {keys keys' : List Int}

theorem Fits.mono {receiver receiver' : List Int} {package : Package M} (grown : keys <+: keys')
    (grown' : receiver <+: receiver') (fits : Fits keys receiver package) : Fits keys' receiver' package := by
  unfold Fits at fits ⊢
  split
  next purpose =>
    rw [purpose] at fits
    exact fits
  next purpose =>
    rw [purpose] at fits
    obtain ⟨key, found, negated⟩ := fits
    exact ⟨key, getElem?_of_grown grown found, negated⟩
  next purpose =>
    rw [purpose] at fits
    exact getElem?_of_grown grown' fits

theorem Asks.mono {asked : Int × Purpose} (grown : keys <+: keys') (asks : Asks keys asked) : Asks keys' asked := by
  obtain ⟨number, purpose, found⟩ := asks
  exact ⟨number, purpose, getElem?_of_grown grown found⟩

/-- The negation of a serial is in the range of an `int`. -/
theorem toInt32_neg {key : Int} (nonneg : 0 ≤ key) (small : key < 2 ^ 31) : toInt32 (-key) = -key := by
  unfold toInt32
  rw [Int.bmod_def]
  split <;> omega

/-- What a party has got from its keys. -/
theorem Keyed.key (keyed : Keyed p) {number : Nat} {key : Int} (found : p.keys[number]? = some key) :
    0 < key ∧ key < 2 ^ 31 := by
  obtain ⟨positive, below⟩ := keyed.positive key (List.mem_of_getElem? found)
  exact ⟨positive, Int.lt_of_le_of_lt below keyed.small⟩

theorem Keyed.find (keyed : Keyed p) {number : Nat} {key : Int} (found : p.keys[number]? = some key) :
    (∀ other, p.find key = some other → other = number) ∧
      (number ∈ p.callbacks.map Prod.snd → p.find key = some number) := by
  constructor
  · intro other member
    -- the keys are distinct: what is stored under this one belongs to the same request
    have stored := keyed.stored _ (AssocMap.mem_of_lookup member)
    exact (List.getElem?_inj (List.getElem?_eq_some_iff.mp stored).1 keyed.distinct).mp (stored.trans found.symm)
  · intro waiting
    obtain ⟨entry, member, rfl⟩ := List.mem_map.mp waiting
    have same := Option.some.inj ((keyed.stored entry member).symm.trans found)
    exact AssocMap.lookup_eq_some_of_mem .beq keyed.entries member (by simpa using same)

theorem Linked.disciplined (linked : Linked s) : Disciplined s := by
  constructor
  case stored => exact fun side => (linked.keyed side).stored
  case pushes =>
    intro side package member purpose
    have fits := linked.packages side package member
    rw [Fits, purpose] at fits
    exact fits
  case requests =>
    intro side package member number purpose
    have fits := linked.packages (!side) package member
    rw [Fits, purpose, Bool.not_not] at fits
    obtain ⟨key, found, negated⟩ := fits
    obtain ⟨positive, small⟩ := (linked.keyed side).key found
    rw [negated, Int.neg_neg, toInt32_of_lt (Int.le_of_lt positive) small]
    exact ⟨by omega, positive, found⟩
  case asked =>
    intro side asked member
    obtain ⟨number, purpose, found⟩ := linked.asked (!side) asked member
    rw [Bool.not_not] at found
    exact ⟨((linked.keyed side).key found).1, number, purpose, found⟩
  case responses =>
    intro side package member number purpose
    have fits := linked.packages side package member
    rw [Fits, purpose] at fits
    have found : (s.party side).keys[number]? = some package.serial := fits
    exact ⟨((linked.keyed side).key found).1, found, (linked.keyed side).find found⟩
  case calls => exact fun side => (linked.keyed side).calls

/-! ## What a step keeps -/

/-- A party changes, and keeps its keys. -/
theorem Linked.setParty (linked : Linked s) (keyed : Keyed p) (grown : (s.party side).keys <+: p.keys)
    (asked : ∀ asked ∈ p.asked, Asks (s.party (!side)).keys asked) : Linked (s.setParty side p) := by
  have parties : ∀ other, (s.setParty side p).party other = if other = side then p else s.party other := by
    intro other
    exact Function.update_apply _ _ _ _
  have keys : ∀ other, (s.party other).keys <+: ((s.setParty side p).party other).keys := by
    intro other
    rw [parties]
    split
    next same =>
      rw [same]
      exact grown
    next => exact List.prefix_rfl
  constructor
  case keyed =>
    intro other
    rw [parties]
    split
    · exact keyed
    · exact linked.keyed other
  case packages =>
    intro other package member
    exact (linked.packages other package member).mono (keys _) (keys _)
  case asked =>
    intro other entry member
    rw [parties] at member
    split at member
    next same =>
      rw [same]
      exact (asked entry member).mono (keys _)
    next => exact (linked.asked other entry member).mono (keys _)

/-- Other packages are on their way, of which each fits. -/
theorem Linked.fly (linked : Linked s) {packages : List (Package M)}
    (fits : ∀ package ∈ packages, Fits (s.party (!side)).keys (s.party side).keys package) :
    Linked { s with inFlight := Function.update s.inFlight side packages } := by
  refine ⟨linked.keyed, fun other package member => ?_, linked.asked⟩
  dsimp only at member
  rw [Function.update_apply] at member
  split at member
  next same =>
    rw [same]
    exact fits package member
  next => exact linked.packages other package member

theorem Linked.send (linked : Linked s) {packages : List (Package M)}
    (fits : ∀ package ∈ packages, Fits (s.party side).keys (s.party (!side)).keys package) :
    Linked (s.send side packages) := by
  apply linked.fly
  intro package member
  rcases List.mem_append.mp member with old | new
  · exact linked.packages (!side) package old
  · rw [Bool.not_not]
    exact fits package new

theorem Keyed.erase (keyed : Keyed p) (serial : Int) : Keyed (p.erase serial) :=
  ⟨keyed.nonneg, keyed.small, keyed.positive, keyed.distinct,
    fun entry member => keyed.stored entry (List.mem_of_mem_filter member), keyed.entries.filter _, keyed.calls⟩

theorem Keyed.dispose (keyed : Keyed p) : Keyed p.dispose :=
  ⟨keyed.nonneg, keyed.small, keyed.positive, keyed.distinct, nofun, List.Pairwise.nil, keyed.calls⟩

theorem draw_serial (keyed : Keyed p) (room : p.serial + 1 < 2 ^ 31) : p.draw.serial = p.serial + 1 := by
  have nonneg := keyed.nonneg
  exact toInt32_of_lt (by omega) room

theorem Keyed.draw (keyed : Keyed p) (room : p.serial + 1 < 2 ^ 31) : Keyed p.draw := by
  have next := draw_serial keyed room
  have nonneg := keyed.nonneg
  refine ⟨by omega, by omega, fun key member => ?_, keyed.distinct, keyed.stored, keyed.entries, keyed.calls⟩
  obtain ⟨positive, below⟩ := keyed.positive key member
  exact ⟨positive, by omega⟩

/-- The drawn serial is a new key. -/
theorem Keyed.insert (keyed : Keyed p) (room : p.serial + 1 < 2 ^ 31) :
    Keyed { p.draw.insert p.keys.length with keys := p.keys ++ [p.draw.serial] } := by
  have drawn := keyed.draw room
  have next := draw_serial keyed room
  have nonneg := keyed.nonneg
  -- a serial that is drawn without wrapping is above all the keys
  have unused : p.draw.serial ∉ p.keys := by
    intro member
    have below := (keyed.positive _ member).2
    omega
  have absent : AssocMap.contains (fun a b => a == b) p.callbacks p.draw.serial = false := by
    rw [Bool.eq_false_iff]
    intro present
    obtain ⟨entry, member, same⟩ := AssocMap.contains_iff.mp present
    rw [← eq_of_beq same] at unused
    exact unused (List.mem_of_getElem? (keyed.stored entry member))
  have inserted : (p.draw.insert p.keys.length).callbacks = (p.draw.serial, p.keys.length) :: p.callbacks :=
    AssocMap.put_absent absent
  constructor
  case nonneg => exact drawn.nonneg
  case small => exact drawn.small
  case positive =>
    intro key member
    rcases List.mem_append.mp member with old | new
    · exact drawn.positive key old
    · rw [List.mem_singleton.mp new]
      exact ⟨by omega, Int.le_refl _⟩
  case distinct =>
    rw [← List.concat_eq_append]
    exact keyed.distinct.concat unused
  case stored =>
    dsimp only
    rw [inserted]
    intro entry member
    rcases List.mem_cons.mp member with rfl | old
    · exact List.getElem?_concat_length
    · exact getElem?_append_of_some (keyed.stored entry old)
  case entries =>
    dsimp only
    rw [inserted]
    refine List.pairwise_cons.mpr ⟨fun entry member => ?_, keyed.entries⟩
    rw [beq_eq_false_iff_ne]
    intro same
    have same : p.draw.serial = entry.1 := same
    rw [same] at unused
    exact unused (List.mem_of_getElem? (keyed.stored entry member))
  case calls => exact keyed.calls

theorem Linked.sendRequest (linked : Linked s) (room : (s.party side).serial + 1 < 2 ^ 31) (outcome : Outcome)
    (msg : M) :
    Linked ((s.setParty side ((s.party side).sendRequest kind msg outcome).1).send side
      ((s.party side).sendRequest kind msg outcome).2) := by
  have keyed := linked.keyed side
  have drawn := keyed.draw room
  cases outcome with
  | noTimer =>
    refine (linked.setParty drawn List.prefix_rfl (linked.asked side)).send ?_
    nofun
  | failed =>
    refine Linked.send ?_ nofun
    cases disposes : kind.failureDisposes with
    | false =>
      simp only [Party.sendRequest, disposes, Bool.false_eq_true, ↓reduceIte]
      exact linked.setParty drawn List.prefix_rfl (linked.asked side)
    | true =>
      simp only [Party.sendRequest, disposes, ↓reduceIte]
      exact linked.setParty drawn.dispose List.prefix_rfl (linked.asked side)
  | sent =>
    refine (linked.setParty (keyed.insert room) (List.prefix_append _ _) (linked.asked side)).send ?_
    intro package member
    rw [List.mem_singleton.mp member]
    -- the serial is below 2^31, so that its negation is exact
    refine ⟨(s.party side).draw.serial, ?_, toInt32_neg drawn.nonneg drawn.small⟩
    dsimp only [Session.setParty]
    rw [Function.update_self]
    exact List.getElem?_concat_length

/-- A package is taken for what it is. -/
theorem Keyed.handlePack (keyed : Keyed p) {package : Package M} (fits : Fits keys p.keys package)
    (others : ∀ {number : Nat} {key : Int}, keys[number]? = some key → 0 < key ∧ key < 2 ^ 31) :
    Keyed (p.handlePack package) ∧ (p.handlePack package).keys = p.keys ∧
      ∀ asked ∈ (p.handlePack package).asked, asked ∈ p.asked ∨ Asks keys asked := by
  unfold Party.handlePack
  cases purpose : package.purpose with
  | push =>
    have zero : package.serial = 0 := by
      rw [Fits, purpose] at fits
      exact fits
    have taken : handling package.serial = .push := if_pos zero
    rw [taken]
    exact ⟨keyed, rfl, fun _ => .inl⟩
  | request number =>
    rw [Fits, purpose] at fits
    obtain ⟨key, found, negated⟩ := fits
    obtain ⟨positive, small⟩ := others found
    -- the receiver negates once more, and has the key of the sender
    have taken : handling package.serial = .request key := by
      rw [handling, if_neg (by omega), if_pos (by omega), negated, Int.neg_neg,
        toInt32_of_lt (Int.le_of_lt positive) small]
    rw [taken]
    refine ⟨⟨keyed.nonneg, keyed.small, keyed.positive, keyed.distinct, keyed.stored, keyed.entries, keyed.calls⟩, rfl, ?_⟩
    intro asked member
    rcases List.mem_append.mp member with old | new
    · exact .inl old
    · rw [List.mem_singleton.mp new]
      exact .inr ⟨number, rfl, found⟩
  | response number =>
    rw [Fits, purpose] at fits
    have found : p.keys[number]? = some package.serial := fits
    have positive := (keyed.key found).1
    have taken : handling package.serial = .response package.serial := by
      rw [handling, if_neg (by omega), if_neg (by omega)]
    rw [taken]
    dsimp only
    split
    next => exact ⟨keyed, rfl, fun _ => .inl⟩
    next other called =>
      have erased := keyed.erase package.serial
      refine ⟨⟨erased.nonneg, erased.small, erased.positive, erased.distinct, erased.stored, erased.entries, ?_⟩, rfl,
        fun _ => .inl⟩
      intro call member
      rcases List.mem_append.mp member with old | new
      · exact keyed.calls call old
      · rw [List.mem_singleton.mp new, (keyed.find found).1 other called]

theorem Linked.handlePack (linked : Linked s) {index : Nat} {package : Package M}
    (here : (s.inFlight side)[index]? = some package) :
    Linked ({ s with inFlight := Function.update s.inFlight side ((s.inFlight side).eraseIdx index) }.setParty side
      ((s.party side).handlePack package)) := by
  have fits := linked.packages side package (List.mem_of_getElem? here)
  obtain ⟨keyed, keys, asked⟩ := (linked.keyed side).handlePack fits fun found => (linked.keyed (!side)).key found
  have left : Linked { s with inFlight := Function.update s.inFlight side ((s.inFlight side).eraseIdx index) } :=
    linked.fly fun other member => linked.packages side other (List.mem_of_mem_eraseIdx member)
  refine left.setParty keyed (keys ▸ List.prefix_rfl) fun entry member => ?_
  rcases asked entry member with old | new
  · exact linked.asked side entry old
  · exact new

theorem Linked.step {act : Act M} (linked : Linked s) (room : s.Room act) (steps : s.step kind act = some s') :
    Linked s' := by
  unfold Session.step at steps
  split at steps
  next =>
    cases act with
    | sendPush side msg =>
      cases steps
      apply linked.send
      intro package member
      rw [List.mem_singleton.mp member]
      exact rfl
    | sendRequest side outcome msg =>
      cases steps
      exact linked.sendRequest room outcome msg
    | sendResponse side index msg =>
      obtain ⟨⟨serial, purpose⟩, here, rfl⟩ := Option.map_eq_some_iff.mp ((Option.map_eq_bind).trans steps)
      obtain ⟨number, request, found⟩ := linked.asked side _ (List.mem_of_getElem? here)
      apply linked.send
      intro package member
      rw [List.mem_singleton.mp member]
      dsimp only at request
      rw [request]
      exact found
    | handlePack side index =>
      obtain ⟨package, here, rfl⟩ := Option.map_eq_some_iff.mp ((Option.map_eq_bind).trans steps)
      exact linked.handlePack here
    | timeoutCallback side serial =>
      cases steps
      exact linked.setParty ((linked.keyed side).erase serial) List.prefix_rfl (linked.asked side)
    | dispose side =>
      cases steps
      exact linked.setParty (linked.keyed side).dispose List.prefix_rfl (linked.asked side)
  next => cases steps

theorem linked_of_run (run : Run kind Room s) : Linked s := by
  induction run with
  | fresh =>
    have small : (0 : Int) < 2 ^ 31 := by decide
    refine ⟨fun _ => ⟨Int.le_refl 0, small, ?_, List.nodup_nil, ?_, .nil, ?_⟩, ?_, ?_⟩
    all_goals nofun
  | step act before room steps ih => exact ih.step room steps

/-! ## Where the counter ends -/

/-- The serial behind the largest `int` is the least one, which is its own negation. -/
theorem last_undisciplined {msg : M} (last : (s.party side).serial + 1 = 2 ^ 31)
    (steps : s.step kind (.sendRequest side .sent msg) = some s') : ¬ Disciplined s' := by
  intro disciplined
  unfold Session.step at steps
  split at steps
  next =>
    cases steps
    have least : toInt32 (2 ^ 31) = -2 ^ 31 := by decide
    have drawn : (s.party side).draw.serial = -2 ^ 31 := (congrArg toInt32 last).trans least
    have sent : (⟨toInt32 (-(s.party side).draw.serial), msg, .request (s.party side).keys.length⟩ : Package M) ∈
        Function.update s.inFlight (!side) (s.inFlight (!side) ++
          [⟨toInt32 (-(s.party side).draw.serial), msg, .request (s.party side).keys.length⟩]) (!side) := by
      rw [Function.update_self]
      exact List.mem_append_right _ List.mem_cons_self
    have positive : 0 < toInt32 (-toInt32 (-(s.party side).draw.serial)) := (disciplined.requests side _ sent _ rfl).2.1
    rw [drawn] at positive
    exact absurd positive (by decide)
  next => cases steps

/-- The counter takes every value. -/
theorem run_counts (kind : PeerKind) (side : Side) (msg : M) (count : Nat) (small : count < 2 ^ 31) :
    ∃ s : Session M, Run kind Room s ∧ (s.party side).active = true ∧ (s.party side).serial = count := by
  induction count with
  | zero => exact ⟨{}, .fresh, rfl, rfl⟩
  | succ count ih =>
    obtain ⟨s, run, active, serial⟩ := ih (by omega)
    have room : (s.party side).serial + 1 < 2 ^ 31 := by
      rw [serial]
      omega
    have steps : s.step kind (.sendRequest side .sent msg) = some _ := if_pos active
    refine ⟨_, run.step (.sendRequest side .sent msg) room steps, ?_, ?_⟩
    · dsimp only [Session.send, Session.setParty]
      rw [Function.update_self]
      exact active
    · dsimp only [Session.send, Session.setParty]
      rw [Function.update_self]
      refine (draw_serial ((linked_of_run run).keyed side) room).trans ?_
      rw [serial]
      rfl

end

/-- As long as no request is sent with a larger serial than an `int` has, all packages are taken for what they are; the
first one that is sent behind that is not. -/
theorem run_disciplined {s : Session M} {kind : PeerKind} (run : Run kind Room s) : Disciplined s ∧
    ∀ side msg s', s.step kind (.sendRequest side .sent msg) = some s' →
      (Disciplined s' ↔ (s.party side).serial + 1 < 2 ^ 31) := by
  have linked := linked_of_run run
  refine ⟨linked.disciplined, fun side msg s' steps => ⟨fun disciplined => ?_, fun room => ?_⟩⟩
  · by_contra beyond
    have small := (linked.keyed side).small
    exact last_undisciplined (by omega) steps disciplined
  · have room : s.Room (.sendRequest side .sent msg) := room
    have linked' : Linked s' := linked.step room steps
    exact linked'.disciplined

/-- A request whose response reaches its callback. -/
theorem run_disciplined_answered : ∃ s : Session Nat, Disciplined s ∧ (s.party true).calls = [(0, .response 0)] := by
  have run₀ : Run uvTcpPeer Room ({} : Session Nat) := .fresh
  have run₁ := Run.step (.sendRequest true .sent 7) run₀ (by decide : (0 : Int) + 1 < 2 ^ 31) rfl
  have run₂ := Run.step (.handlePack false 0) run₁ trivial rfl
  have run₃ := Run.step (.sendResponse false 0 8) run₂ trivial rfl
  have run₄ := Run.step (.handlePack true 0) run₃ trivial rfl
  exact ⟨_, (run_disciplined run₄).1, rfl⟩

/-- After as many requests as there are positive serials, the next one is not taken for what it is. -/
theorem run_undisciplined (kind : PeerKind) : ∃ s : Session Nat, Run kind (fun _ _ => True) s ∧ ¬ Disciplined s := by
  have weaken : ∀ {s : Session Nat}, Run kind Room s → Run kind (fun _ _ => True) s := by
    intro s run
    induction run with
    | fresh => exact .fresh
    | step act before _ steps ih => exact ih.step act trivial steps
  obtain ⟨s, run, active, serial⟩ := run_counts kind true 0 (2 ^ 31 - 1) (by decide)
  have steps : s.step kind (.sendRequest true .sent 0) = some _ := if_pos active
  refine ⟨_, (weaken run).step _ trivial steps, last_undisciplined ?_ steps⟩
  rw [serial]
  rfl

theorem peers_undisciplined : (∃ s : Session Nat, Run uvTcpPeer (fun _ _ => True) s ∧ ¬ Disciplined s) ∧
    ∃ s : Session Nat, Run uvUdpKcpPeer (fun _ _ => True) s ∧ ¬ Disciplined s :=
  ⟨run_undisciplined uvTcpPeer, run_undisciplined uvUdpKcpPeer⟩

end Session

end Xxlib.Uv3
