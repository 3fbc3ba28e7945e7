import Mathlib.Data.List.Perm.Subperm
import Xxlib.Lib.Chain

/-! A chained hash index over parallel arrays.

One array of slots serves two structures: bucket chains, doubly linked through
`next` and `prev`, and a list of free slots, linked through `next` alone and
marked by `prev = -2`. Slots are numbered from zero to `count`; a slot is in one
bucket chain, on the free list, or loose while an operation is moving it.
-/

set_option autoImplicit false

namespace Xxlib.Lib

structure Index where
  bucketsLen : Nat
  buckets : Nat → Int
  hashCode : Nat → Nat
  next : Nat → Int
  prev : Nat → Int
  freeList : Int
  freeCount : Nat
  count : Nat

namespace Index

/-- Take a slot: from the free list if it is not empty, otherwise behind the used part. -/
def take (x : Index) : Nat × Index :=
  if 0 < x.freeCount then
    (x.freeList.toNat,
      { x with freeList := x.next x.freeList.toNat, freeCount := x.freeCount - 1 })
  else (x.count, { x with count := x.count + 1 })

/-- Put slot `i` in front of the chain of its hash code. -/
def link (x : Index) (i hash : Nat) : Index :=
  let head := x.buckets (hash % x.bucketsLen)
  { x with
    hashCode := Function.update x.hashCode i hash
    next := Function.update x.next i head
    prev := Function.update (if 0 ≤ head then Function.update x.prev head.toNat i else x.prev) i (-1)
    buckets := Function.update x.buckets (hash % x.bucketsLen) i }

/-- Take slot `i` out of its chain. -/
def unlink (x : Index) (i : Nat) : Index :=
  { x with
    buckets := if x.prev i < 0 then
        Function.update x.buckets (x.hashCode i % x.bucketsLen) (x.next i) else x.buckets
    next := if x.prev i < 0 then x.next else Function.update x.next (x.prev i).toNat (x.next i)
    prev := if 0 ≤ x.next i then Function.update x.prev (x.next i).toNat (x.prev i) else x.prev }

/-- Push slot `i` on the free list. -/
def release (x : Index) (i : Nat) : Index :=
  { x with
    next := Function.update x.next i x.freeList
    prev := Function.update x.prev i (-2)
    freeList := i
    freeCount := x.freeCount + 1 }

/-- Link the first `k` slots again, in order, keeping their hash codes. -/
def relink : Nat → Index → Index
  | 0, x => x
  | k + 1, x => (relink k x).link k (x.hashCode k)

/-- The chains and the free list that the arrays spell out. -/
structure Layout (x : Index) (chains : Nat → List Nat) (free : List Nat) : Prop where
  sized : 0 < x.bucketsLen
  room : x.count ≤ x.bucketsLen
  walks : ∀ b < x.bucketsLen, Walks x.next (x.buckets b) (chains b)
  backs : ∀ b < x.bucketsLen, BackLinked x.prev (-1) (chains b)
  nodup : ∀ b < x.bucketsLen, (chains b).Nodup
  member : ∀ b < x.bucketsLen, ∀ i ∈ chains b,
    i < x.count ∧ i ∉ free ∧ x.hashCode i % x.bucketsLen = b
  freeWalks : Walks x.next x.freeList free
  freeNodup : free.Nodup
  freeBound : ∀ i ∈ free, i < x.count
  freeMarked : ∀ i ∈ free, x.prev i = -2
  freeLength : free.length = x.freeCount

/-- A used slot that is in no chain and not free. -/
structure Loose (x : Index) (chains : Nat → List Nat) (free : List Nat) (i : Nat) : Prop where
  bound : i < x.count
  notFree : i ∉ free
  unchained : ∀ b < x.bucketsLen, i ∉ chains b

/-- No slot is loose: each used slot is free or in the chain of its hash code. -/
def Covered (x : Index) (chains : Nat → List Nat) (free : List Nat) : Prop :=
  ∀ i < x.count, i ∉ free → i ∈ chains (x.hashCode i % x.bucketsLen)

section
variable {x : Index} {chains : Nat → List Nat} {free : List Nat} {i : Nat}

theorem Layout.bucket_lt (layout : Layout x chains free) (hash : Nat) :
    hash % x.bucketsLen < x.bucketsLen := Nat.mod_lt _ layout.sized

/-- Different chains share no slot. -/
theorem Layout.apart (layout : Layout x chains free) {b c : Nat} (hb : b < x.bucketsLen)
    (hc : c < x.bucketsLen) (different : b ≠ c) (inside : i ∈ chains b) : i ∉ chains c :=
  fun other => different
    ((layout.member b hb i inside).2.2.symm.trans (layout.member c hc i other).2.2)

theorem Layout.chain_length (layout : Layout x chains free) {b : Nat} (hb : b < x.bucketsLen) :
    (chains b).length ≤ x.count := by
  have inside : chains b ⊆ List.range x.count := fun i member =>
    List.mem_range.mpr (layout.member b hb i member).1
  simpa using (List.Nodup.subperm (layout.nodup b hb) inside).length_le

theorem Layout.prev_of_chained (layout : Layout x chains free) {b : Nat} (hb : b < x.bucketsLen)
    (inside : i ∈ chains b) : x.prev i ≠ -2 := by
  rcases (layout.backs b hb).value inside with found | ⟨p, -, found⟩ <;> omega

/-- The mark `-2` tells the free slots. -/
theorem Layout.prev_eq_iff (layout : Layout x chains free) (covered : Covered x chains free)
    (bound : i < x.count) : x.prev i = -2 ↔ i ∈ free := by
  constructor
  · intro marked
    by_contra notFree
    exact layout.prev_of_chained (layout.bucket_lt _) (covered i bound notFree) marked
  · exact layout.freeMarked i

/-! ## One lemma for each move of a slot -/

theorem take_free (layout : Layout x chains (i :: free)) :
    x.take.1 = i ∧ Layout x.take.2 chains free ∧ Loose x.take.2 chains free i := by
  have positive : 0 < x.freeCount := by
    have := layout.freeLength
    simp only [List.length_cons] at this
    omega
  obtain ⟨head, rest⟩ := layout.freeWalks
  have index : x.freeList.toNat = i := by omega
  simp only [take, positive, ↓reduceIte, index]
  refine ⟨trivial, ?_, ?_⟩
  · exact { layout with
      member := fun b hb j inside => by
        obtain ⟨bound, outside, hash⟩ := layout.member b hb j inside
        exact ⟨bound, fun member => outside (by simp [member]), hash⟩
      freeWalks := rest
      freeNodup := (List.nodup_cons.mp layout.freeNodup).2
      freeBound := fun j member => layout.freeBound j (by simp [member])
      freeMarked := fun j member => layout.freeMarked j (by simp [member])
      freeLength := by
        have := layout.freeLength
        simp only [List.length_cons] at this
        show free.length = x.freeCount - 1
        omega }
  · exact {
      bound := layout.freeBound i (by simp)
      notFree := (List.nodup_cons.mp layout.freeNodup).1
      unchained := fun b hb inside => (layout.member b hb i inside).2.1 (by simp) }

theorem take_fresh (layout : Layout x chains []) (room : x.count < x.bucketsLen) :
    x.take.1 = x.count ∧ Layout x.take.2 chains [] ∧ Loose x.take.2 chains [] x.count := by
  have empty : ¬ 0 < x.freeCount := by
    have := layout.freeLength
    simp only [List.length_nil] at this
    omega
  simp only [take, empty, ↓reduceIte]
  refine ⟨trivial, ?_, ?_⟩
  · exact { layout with
      room := room
      member := fun b hb j inside => by
        obtain ⟨bound, outside, hash⟩ := layout.member b hb j inside
        exact ⟨Nat.lt_succ_of_lt bound, outside, hash⟩
      freeBound := by simp }
  · exact {
      bound := Nat.lt_succ_self _
      notFree := by simp
      unchained := fun b hb inside => Nat.lt_irrefl _ (layout.member b hb _ inside).1 }

/-- One chain changes, and the slots of the other chains and of the free list keep their links. -/
theorem Layout.change (layout : Layout x chains free) {y : Index} {b : Nat} {chain : List Nat}
    (sizes : y.bucketsLen = x.bucketsLen ∧ y.count = x.count)
    (fields : y.freeList = x.freeList ∧ y.freeCount = x.freeCount)
    (walks : Walks y.next (y.buckets b) chain) (backs : BackLinked y.prev (-1) chain) (nodup : chain.Nodup)
    (member : ∀ j ∈ chain, j < x.count ∧ j ∉ free ∧ y.hashCode j % x.bucketsLen = b)
    (buckets : ∀ c, c ≠ b → y.buckets c = x.buckets c)
    (others : ∀ c < x.bucketsLen, c ≠ b → ∀ j ∈ chains c,
      y.next j = x.next j ∧ y.prev j = x.prev j ∧ y.hashCode j = x.hashCode j)
    (frees : ∀ j ∈ free, y.next j = x.next j ∧ y.prev j = x.prev j) :
    Layout y (Function.update chains b chain) free := by
  obtain ⟨bucketsLen, count⟩ := sizes
  constructor
  case sized =>
    rw [bucketsLen]
    exact layout.sized
  case room =>
    rw [bucketsLen, count]
    exact layout.room
  case walks =>
    rw [bucketsLen]
    intro c hc
    by_cases same : c = b
    · rw [same, Function.update_self]
      exact walks
    · rw [Function.update_of_ne same, buckets c same]
      exact (layout.walks c hc).frame fun j inside => (others c hc same j inside).1
  case backs =>
    rw [bucketsLen]
    intro c hc
    by_cases same : c = b
    · rw [same, Function.update_self]
      exact backs
    · rw [Function.update_of_ne same]
      exact (layout.backs c hc).frame fun j inside => (others c hc same j inside).2.1
  case nodup =>
    rw [bucketsLen]
    intro c hc
    by_cases same : c = b
    · rw [same, Function.update_self]
      exact nodup
    · rw [Function.update_of_ne same]
      exact layout.nodup c hc
  case member =>
    rw [bucketsLen, count]
    intro c hc j inside
    by_cases same : c = b
    · rw [same, Function.update_self] at inside
      rw [same]
      exact member j inside
    · rw [Function.update_of_ne same] at inside
      rw [(others c hc same j inside).2.2]
      exact layout.member c hc j inside
  case freeWalks =>
    rw [fields.1]
    exact layout.freeWalks.frame fun j inside => (frees j inside).1
  case freeNodup => exact layout.freeNodup
  case freeBound =>
    rw [count]
    exact layout.freeBound
  case freeMarked => exact fun j inside => (frees j inside).2.trans (layout.freeMarked j inside)
  case freeLength =>
    rw [fields.2]
    exact layout.freeLength

theorem link_layout (layout : Layout x chains free) (loose : Loose x chains free i) (hash : Nat) :
    Layout (x.link i hash)
      (Function.update chains (hash % x.bucketsLen) (i :: chains (hash % x.bucketsLen))) free := by
  have target := layout.bucket_lt hash
  generalize hb : hash % x.bucketsLen = b at target ⊢
  have unchained := loose.unchained b target
  -- Apart from `i`, only the old head of the chain gets a new back link.
  have prevOther : ∀ j, j ≠ i → j ∉ (chains b).head? → (x.link i hash).prev j = x.prev j := by
    intro j other notHead
    simp only [link, hb]
    rw [Function.update_of_ne other]
    split
    · next nonneg =>
      obtain ⟨rest, shape⟩ := (layout.walks b target).head_of_nonneg nonneg
      rw [Function.update_of_ne]
      rintro rfl
      exact notHead (by simp [shape])
    · rfl
  have headMember : ∀ j, j ∈ (chains b).head? → j ∈ chains b := fun j found => List.mem_of_mem_head? found
  refine layout.change ⟨rfl, rfl⟩ ⟨rfl, rfl⟩ ?walks ?backs ?nodup ?member ?buckets ?others ?frees
  case walks => simpa [link, hb] using (layout.walks b target).push unchained
  case backs =>
    refine ⟨by simp [link], ?_⟩
    have walks := layout.walks b target
    have backs := layout.backs b target
    have nodup := layout.nodup b target
    cases shape : chains b with
    | nil => trivial
    | cons j rest =>
      rw [shape] at walks backs nodup unchained
      have head : x.buckets b = (j : Int) := walks.1
      have jNe : j ≠ i := fun same => unchained (by simp [same])
      refine ⟨?_, backs.2.frame ?_⟩
      · simp [link, hb, head, Function.update_of_ne jNe]
      · intro k inside
        refine prevOther k (fun same => unchained (by simp [← same, inside])) ?_
        rw [shape]
        rintro ⟨⟩
        exact (List.nodup_cons.mp nodup).1 inside
  case nodup => exact List.nodup_cons.mpr ⟨unchained, layout.nodup b target⟩
  case member =>
    intro j inside
    rcases List.mem_cons.mp inside with rfl | old
    · exact ⟨loose.bound, loose.notFree, by simp [link, hb]⟩
    · have other : j ≠ i := fun same => unchained (same ▸ old)
      simpa [link, other] using layout.member b target j old
  case buckets =>
    intro c other
    simp [link, hb, other]
  case others =>
    intro c hc other j inside
    have different : j ≠ i := fun same => loose.unchained c hc (same ▸ inside)
    refine ⟨Function.update_of_ne different _ _, prevOther j different fun found => ?_, Function.update_of_ne different _ _⟩
    exact layout.apart hc target other inside (headMember j found)
  case frees =>
    intro j inside
    have different : j ≠ i := fun same => loose.notFree (same ▸ inside)
    refine ⟨Function.update_of_ne different _ _, prevOther j different fun found => ?_⟩
    exact (layout.member b target j (headMember j found)).2.1 inside

theorem link_covered (covered : ∀ j < x.count, j ≠ i → j ∉ free →
      j ∈ chains (x.hashCode j % x.bucketsLen)) (hash : Nat) :
    Covered (x.link i hash)
      (Function.update chains (hash % x.bucketsLen) (i :: chains (hash % x.bucketsLen))) free := by
  intro j bound notFree
  by_cases same : j = i
  · subst same
    simp [link]
  · have old := covered j bound same notFree
    simp only [link, Function.update_of_ne same]
    by_cases place : x.hashCode j % x.bucketsLen = hash % x.bucketsLen
    · rw [place, Function.update_self]
      exact List.mem_cons_of_mem _ (place ▸ old)
    · rw [Function.update_of_ne place]
      exact old

/-! The predecessor, if any, is the only slot whose forward link changes, and the successor the only one whose backward
link does. -/

theorem unlink_next_of_ne {j : Nat} (other : (j : Int) ≠ x.prev i) : (x.unlink i).next j = x.next j := by
  simp only [unlink]
  split
  · rfl
  · rw [Function.update_of_ne]
    intro same
    omega

theorem unlink_prev_of_ne {j : Nat} (other : (j : Int) ≠ x.next i) : (x.unlink i).prev j = x.prev j := by
  simp only [unlink]
  split
  · rw [Function.update_of_ne]
    intro same
    omega
  · rfl

section
variable {front back : List Nat} {b : Nat} (backs : BackLinked x.prev (-1) (front ++ i :: back))
  (walks : Walks x.next (x.buckets b) (front ++ i :: back)) (nodup : (front ++ i :: back).Nodup)
include backs walks nodup

theorem unlink_walks (hash : x.hashCode i % x.bucketsLen = b) :
    Walks (x.unlink i).next ((x.unlink i).buckets b) (front ++ back) := by
  have link : x.prev i = lastOr (-1) front := backs.at
  rcases List.eq_nil_or_concat front with empty | ⟨front, p, rfl⟩
  · subst empty
    have first : x.prev i < 0 := by rw [link]; simp [lastOr]
    simpa [unlink, first, hash] using walks.after
  · rw [List.concat_eq_append] at walks nodup link ⊢
    rw [lastOr_append_singleton] at link
    have inner : ¬ x.prev i < 0 := by omega
    have index : (x.prev i).toNat = p := by omega
    simp only [List.append_assoc, List.singleton_append] at walks nodup ⊢
    simpa [unlink, inner, index] using walks.bypass nodup

theorem unlink_backs : BackLinked (x.unlink i).prev (-1) (front ++ back) := by
  have after := walks.after
  cases back with
  | nil =>
    have last : ¬ 0 ≤ x.next i := by have : x.next i < 0 := after; omega
    simpa [unlink, last] using (BackLinked.append_iff.mp backs).1
  | cons j rest =>
    have index : x.next i = (j : Int) := after.1
    simpa [unlink, index] using backs.bypass nodup

end

theorem unlink_layout (layout : Layout x chains free) {b : Nat} (hb : b < x.bucketsLen)
    (inside : i ∈ chains b) :
    Layout (x.unlink i) (Function.update chains b ((chains b).erase i)) free ∧
      Loose (x.unlink i) (Function.update chains b ((chains b).erase i)) free i := by
  obtain ⟨bound, notFree, hash⟩ := layout.member b hb i inside
  have walks := layout.walks b hb
  have backs := layout.backs b hb
  have nodup := layout.nodup b hb
  obtain ⟨front, back, shape⟩ := List.append_of_mem inside
  have erased : (chains b).erase i = front ++ back := by
    rw [shape] at nodup ⊢
    have outside : i ∉ front := fun member => (List.nodup_append.mp nodup).2.2 i member i (by simp) rfl
    rw [List.erase_append_right _ outside, List.erase_cons_head]
  have kept : ∀ j ∈ front ++ back, j ∈ chains b := fun j member => by
    rw [shape]
    simp only [List.mem_append, List.mem_cons] at member ⊢
    exact member.imp_right Or.inr
  have after : Walks x.next (x.next i) back := by rw [shape] at walks; exact walks.after
  have prevInside : ∀ j : Nat, (j : Int) = x.prev i → j ∈ chains b := by
    intro j same
    rcases backs.value inside with found | ⟨p, member, found⟩
    · omega
    · have : j = p := by omega
      exact this ▸ member
  have nextInside : ∀ j : Nat, (j : Int) = x.next i → j ∈ chains b := by
    intro j same
    obtain ⟨rest, tail⟩ := after.head_of_nonneg (by omega)
    refine kept j ?_
    rw [tail]
    have : j = (x.next i).toNat := by omega
    simp [this]
  have newWalks : Walks (x.unlink i).next ((x.unlink i).buckets b) (front ++ back) := by
    rw [shape] at backs walks nodup
    exact unlink_walks backs walks nodup hash
  have newBacks : BackLinked (x.unlink i).prev (-1) (front ++ back) := by
    rw [shape] at backs walks nodup
    exact unlink_backs backs walks nodup
  have newNodup : (front ++ back).Nodup := by rw [← erased]; exact nodup.erase i
  have buckets : ∀ c, c ≠ b → (x.unlink i).buckets c = x.buckets c := by
    intro c other
    simp only [unlink, hash]
    split
    · exact Function.update_of_ne other _ _
    · rfl
  rw [erased]
  refine ⟨layout.change ⟨rfl, rfl⟩ ⟨rfl, rfl⟩ newWalks newBacks newNodup
    (fun j member => layout.member b hb j (kept j member)) buckets ?others ?frees, ?loose⟩
  case others =>
    intro c hc other j member
    exact ⟨unlink_next_of_ne fun found => layout.apart hc hb other member (prevInside j found),
      unlink_prev_of_ne fun found => layout.apart hc hb other member (nextInside j found), rfl⟩
  case frees =>
    intro j member
    exact ⟨unlink_next_of_ne fun found => (layout.member b hb j (prevInside j found)).2.1 member,
      unlink_prev_of_ne fun found => (layout.member b hb j (nextInside j found)).2.1 member⟩
  case loose =>
    refine ⟨bound, notFree, fun c hc => ?_⟩
    by_cases same : c = b
    · subst same
      rw [Function.update_self, ← erased]
      exact List.Nodup.not_mem_erase nodup
    · rw [Function.update_of_ne same]
      exact layout.apart hb hc (Ne.symm same) inside

/-- Unlinking touches no hash code, and no other slot leaves its chain. -/
theorem unlink_covered (covered : Covered x chains free) {b : Nat} {j : Nat} (bound : j < x.count)
    (other : j ≠ i) (notFree : j ∉ free) :
    j ∈ Function.update chains b ((chains b).erase i) (x.hashCode j % x.bucketsLen) := by
  have old := covered j bound notFree
  by_cases place : x.hashCode j % x.bucketsLen = b
  · subst place
    rw [Function.update_self]
    exact (List.mem_erase_of_ne other).mpr old
  · rw [Function.update_of_ne place]
    exact old

theorem release_layout (layout : Layout x chains free) (loose : Loose x chains free i) :
    Layout (x.release i) chains (i :: free) := by
  have chained : ∀ b < x.bucketsLen, ∀ j ∈ chains b, j ≠ i := fun b hb j inside same =>
    loose.unchained b hb (same ▸ inside)
  constructor
  · exact layout.sized
  · exact layout.room
  · exact fun b hb => (layout.walks b hb).frame_update (loose.unchained b hb)
  · exact fun b hb => (layout.backs b hb).frame_update (loose.unchained b hb)
  · exact layout.nodup
  · intro b hb j inside
    obtain ⟨bound, outside, hash⟩ := layout.member b hb j inside
    refine ⟨bound, ?_, hash⟩
    simp only [List.mem_cons, not_or]
    exact ⟨chained b hb j inside, outside⟩
  · exact layout.freeWalks.push loose.notFree
  · exact List.nodup_cons.mpr ⟨loose.notFree, layout.freeNodup⟩
  · intro j member
    rcases List.mem_cons.mp member with rfl | member
    · exact loose.bound
    · exact layout.freeBound j member
  · intro j member
    rcases List.mem_cons.mp member with rfl | member
    · simp [release]
    · have other : j ≠ i := fun same => loose.notFree (same ▸ member)
      simpa [release, other] using layout.freeMarked j member
  · simp [release, layout.freeLength]

/-- A slot may change its hash code within its bucket. -/
theorem rehash_layout (layout : Layout x chains free) {hash : Nat}
    (bucket : hash % x.bucketsLen = x.hashCode i % x.bucketsLen) :
    Layout { x with hashCode := Function.update x.hashCode i hash } chains free := by
  refine { layout with member := ?_ }
  intro b hb j inside
  obtain ⟨bound, notFree, place⟩ := layout.member b hb j inside
  refine ⟨bound, notFree, ?_⟩
  by_cases same : j = i
  · subst same
    simpa [bucket] using place
  · simpa [same] using place

theorem rehash_covered (covered : Covered x chains free) {hash : Nat}
    (bucket : hash % x.bucketsLen = x.hashCode i % x.bucketsLen) :
    Covered { x with hashCode := Function.update x.hashCode i hash } chains free := by
  intro j bound notFree
  have inside := covered j bound notFree
  by_cases same : j = i
  · subst same
    simpa [bucket] using inside
  · simpa [same] using inside

/-! ## Linking all slots again -/

@[simp] theorem relink_hashCode (k : Nat) : (x.relink k).hashCode = x.hashCode := by
  induction k with
  | zero => rfl
  | succ k ih => simp only [relink, link, ih, Function.update_eq_self]

@[simp] theorem relink_bucketsLen (k : Nat) : (x.relink k).bucketsLen = x.bucketsLen := by
  induction k with
  | zero => rfl
  | succ k ih => exact ih

@[simp] theorem relink_count (k : Nat) : (x.relink k).count = x.count := by
  induction k with
  | zero => rfl
  | succ k ih => exact ih

/-- From empty buckets and no free slot, linking the first `k` slots gives chains that hold
exactly these. -/
theorem relink_layout (sized : 0 < x.bucketsLen) (room : x.count ≤ x.bucketsLen)
    (empty : ∀ b < x.bucketsLen, x.buckets b < 0) (noFree : x.freeList < 0) (zero : x.freeCount = 0)
    (k : Nat) (bound : k ≤ x.count) :
    ∃ chains, Layout (x.relink k) chains [] ∧ ∀ b < x.bucketsLen, ∀ i,
      i ∈ chains b ↔ i < k ∧ x.hashCode i % x.bucketsLen = b := by
  induction k with
  | zero =>
    refine ⟨fun _ => [], ?_, by simp⟩
    exact {
      sized, room
      walks := empty
      backs := fun _ _ => trivial
      nodup := fun _ _ => List.nodup_nil
      member := by simp
      freeWalks := noFree
      freeNodup := List.nodup_nil
      freeBound := by simp
      freeMarked := by simp
      freeLength := by simp [relink, zero] }
  | succ k ih =>
    obtain ⟨chains, layout, exact'⟩ := ih (Nat.le_of_succ_le bound)
    have loose : Loose (x.relink k) chains [] k := by
      refine ⟨by rw [relink_count]; omega, by simp, fun b hb inside => ?_⟩
      rw [relink_bucketsLen] at hb
      exact Nat.lt_irrefl k ((exact' b hb k).mp inside).1
    refine ⟨_, link_layout layout loose (x.hashCode k), fun b hb i => ?_⟩
    rw [relink_bucketsLen]
    by_cases same : b = x.hashCode k % x.bucketsLen
    · subst same
      rw [Function.update_self, List.mem_cons, exact' _ hb]
      constructor
      · rintro (rfl | ⟨smaller, hash⟩)
        · exact ⟨Nat.lt_succ_self _, rfl⟩
        · exact ⟨Nat.lt_succ_of_lt smaller, hash⟩
      · rintro ⟨smaller, hash⟩
        rcases Nat.lt_succ_iff_lt_or_eq.mp smaller with smaller | rfl
        · exact .inr ⟨smaller, hash⟩
        · exact .inl rfl
    · rw [Function.update_of_ne same, exact' b hb]
      constructor
      · rintro ⟨smaller, hash⟩
        exact ⟨Nat.lt_succ_of_lt smaller, hash⟩
      · rintro ⟨smaller, hash⟩
        refine ⟨?_, hash⟩
        rcases Nat.lt_succ_iff_lt_or_eq.mp smaller with smaller | rfl
        · exact smaller
        · exact absurd hash.symm same

/-- Linking does not look at the free list. -/
theorem relink_free (freeList : Int) (freeCount k : Nat) :
    ({ x with freeList, freeCount } : Index).relink k = { x.relink k with freeList, freeCount } := by
  induction k with
  | zero => rfl
  | succ k ih => simp only [relink, link, ih]

/-- No slot that was linked is marked as free, whether it was on the free list or not. -/
theorem relink_unmarked (sized : 0 < x.bucketsLen) (room : x.count ≤ x.bucketsLen)
    (empty : ∀ b < x.bucketsLen, x.buckets b < 0) (bound : i < x.count) : (x.relink x.count).prev i ≠ -2 := by
  have noFree : (-1 : Int) < 0 := by decide
  obtain ⟨chains, layout, members⟩ :=
    relink_layout (x := { x with freeList := -1, freeCount := 0 }) sized room empty noFree rfl x.count (Nat.le_refl _)
  have hb := Nat.mod_lt (x.hashCode i) sized
  have linked := layout.prev_of_chained (by rwa [relink_bucketsLen]) ((members _ hb i).mpr ⟨bound, rfl⟩)
  rwa [relink_free] at linked

end

end Index

end Xxlib.Lib
