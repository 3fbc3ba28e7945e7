import Xxlib.Lib.CString
import Xxlib.Uv4.VarintCodec

/-! The url of an http request (`UrlDecode` and `ParseUrl` of `xx_uv.cpp`).

A string is given with what is behind it in memory. The text that is decoded gets a zero in its end, and is cut in place
from then on; a pointer is a place in it. Both are read with a trace of the places that were looked at.
-/

set_option autoImplicit false

namespace Xxlib.Uv4

open Lib

/-! ## Decoding -/

def fromHex (c : UInt8) : UInt8 :=
  if 65 ≤ c ∧ c ≤ 90 then c - 65 + 10
  else if 97 ≤ c ∧ c ≤ 122 then c - 97 + 10
  else if 48 ≤ c ∧ c ≤ 57 then c - 48
  else 0

/-- The byte of an escape. -/
def escaped (high low : UInt8) : UInt8 := fromHex high * 16 + fromHex low

/-- The loop of `UrlDecode`: what it appends, and the places it looks at. -/
def urlDecodeLoop (src : Nat → UInt8) (dataLen : Nat) : Nat → Nat → List UInt8 × List Nat
  | 0, _ => ([], [])
  | fuel + 1, i =>
      if i < dataLen then
        if src i = 43 then
          let (dst, seen) := urlDecodeLoop src dataLen fuel (i + 1)
          (32 :: dst, i :: seen)
        else if src i = 37 then
          let (dst, seen) := urlDecodeLoop src dataLen fuel (i + 3)
          (escaped (src (i + 1)) (src (i + 2)) :: dst, i :: (i + 1) :: (i + 2) :: seen)
        else
          let (dst, seen) := urlDecodeLoop src dataLen fuel (i + 1)
          (src i :: dst, i :: seen)
      else ([], [])

def urlDecode (src : List UInt8) (behind : Nat → UInt8) : List UInt8 × List Nat :=
  urlDecodeLoop (memory src behind) src.length src.length 0

/-! ## Cutting in place -/

structure UrlText where
  buf : Nat → UInt8
  dataLen : Nat
  seen : List Span := []

namespace UrlText

/-- `FindAndTerminate`: where it is cut, the place behind. -/
def findAndTerminate (s : Nat) (c : UInt8) (t : UrlText) : Option Nat × UrlText :=
  let stop := stopOf t.buf c (t.dataLen + 1) s
  let t := { t with seen := ⟨s, stop + 1 - s⟩ :: t.seen }
  if t.buf stop = c then (some (stop + 1), { t with buf := Function.update t.buf stop 0 }) else (none, t)

/-- The loop of `ParseUrl`: `q` is where the last entry begins. A pair that is behind `&` cuts the one before at `=`. -/
def splitQueries : Nat → Nat → UrlText → List (Nat × Option Nat) × UrlText
  | 0, _, t => ([], t)
  | fuel + 1, q, t =>
      match t.findAndTerminate q 38 with
      | (some next, t) =>
          let (second, t) := t.findAndTerminate q 61
          let (queries, t) := splitQueries fuel next t
          ((q, second) :: queries, t)
      | (none, t) =>
          let (second, t) := t.findAndTerminate q 61
          ([(q, second)], t)

end UrlText

/-- What `ParseUrl` finds, and the text with its cuts. -/
structure UrlParts where
  fragment : Option Nat
  path : Option Nat
  queries : List (Nat × Option Nat)
  text : UrlText

def UrlText.parts (u : UrlText) : UrlParts :=
  let (fragment, u) := u.findAndTerminate 0 35
  let (q, u) := u.findAndTerminate 0 63
  let (path, u) := u.findAndTerminate 0 47
  match q with
  | none => ⟨fragment, path, [], u⟩
  | some q =>
      let u := { u with seen := ⟨q, 1⟩ :: u.seen }
      if u.buf q = 0 then ⟨fragment, path, [], u⟩
      else
        let (queries, u) := u.splitQueries (u.dataLen + 1) q
        ⟨fragment, path, queries, u⟩

/-- `ParseUrl`, with what `urlDecoded` holds before. The zero in its end is what `c_str` adds. -/
def parseUrl (url : List UInt8) (behind : Nat → UInt8) (urlDecoded : List UInt8) (behind' : Nat → UInt8) : UrlParts :=
  let urlDecoded := urlDecoded ++ (urlDecode url behind).1
  UrlText.parts { buf := memory (urlDecoded ++ [0]) behind', dataLen := urlDecoded.length }

/-! ## Cuts -/

/-- What a search leaves of the string it is for. -/
structure Cuts (s : Nat) (c : UInt8) (x : List UInt8) (t : UrlText) (r : Option Nat × UrlText) : Prop where
  front : CString r.2.buf s (cut c x).1
  place : r.1 = (cut c x).2.map fun _ => s + (cut c x).1.length + 1
  rest : ∀ y, (cut c x).2 = some y → CString r.2.buf (s + (cut c x).1.length + 1) y
  frame : ∀ i, i < s ∨ s + x.length ≤ i → r.2.buf i = t.buf i
  dataLen : r.2.dataLen = t.dataLen
  seen : ∀ span ∈ r.2.seen, span ∈ t.seen ∨ span.Below (t.dataLen + 1)

section
variable {t : UrlText} {s : Nat} {c : UInt8} {x : List UInt8}

theorem UrlText.findAndTerminate_cuts (string : CString t.buf s x) (solid : c ≠ 0) (inside : s + x.length ≤ t.dataLen) :
    Cuts s c x t (t.findAndTerminate s c) := by
  by_cases member : c ∈ x
  · obtain ⟨a, b, rfl, absent⟩ := List.eq_append_cons_of_mem member
    have stored := stored_append.mp string.stored
    have zeros : (0 : UInt8) ∉ a := fun zero => string.solid (List.mem_append_left _ zero)
    rw [List.length_append, List.length_cons] at inside
    have stop : stopOf t.buf c (t.dataLen + 1) s = s + a.length :=
      stopOf_eq stored.1 absent zeros (.inl stored.2.1) (by omega)
    obtain ⟨front, rest⟩ := string.split
    unfold UrlText.findAndTerminate
    simp only [stop, stored.2.1, if_pos]
    constructor <;> simp only [cut_found absent]
    · exact front
    · rfl
    · rintro y ⟨rfl⟩
      exact rest
    · intro i out
      rw [List.length_append, List.length_cons] at out
      exact Function.update_of_ne (by omega) ..
    · intro span member
      rcases List.mem_cons.mp member with rfl | before
      · exact .inr fun i below => by simp only at below ⊢; omega
      · exact .inl before
  · have stop : stopOf t.buf c (t.dataLen + 1) s = s + x.length :=
      stopOf_eq string.stored member string.solid (.inr string.zero) (by omega)
    unfold UrlText.findAndTerminate
    simp only [stop, string.zero, if_neg solid.symm]
    constructor <;> simp only [cut_absent member]
    · exact string
    · rfl
    · rintro y ⟨⟩
    · exact fun _ _ => trivial
    · intro span member
      rcases List.mem_cons.mp member with rfl | before
      · exact .inr fun i below => by simp only at below ⊢; omega
      · exact .inl before

/-- An entry of `queries` points at these strings. -/
structure QueryAt (buf : Nat → UInt8) (query : Nat × Option Nat) (pair : List UInt8 × Option (List UInt8)) : Prop where
  first : CString buf query.1 pair.1
  second : Option.Rel (CString buf) query.2 pair.2

/-- The pairs of a query string. -/
def pairsOf (query : List UInt8) : List (List UInt8 × Option (List UInt8)) := (query.splitOn 38).map (cut 61)

structure Splits (q : Nat) (query : List UInt8) (t : UrlText) (r : List (Nat × Option Nat) × UrlText) : Prop where
  entries : List.Forall₂ (QueryAt r.2.buf) r.1 (pairsOf query)
  frame : ∀ i, i < q ∨ q + query.length ≤ i → r.2.buf i = t.buf i
  seen : ∀ span ∈ r.2.seen, span ∈ t.seen ∨ span.Below (t.dataLen + 1)

/-- The entry for a pair that was cut, also when something behind it changes. -/
theorem Cuts.queryAt {r : Option Nat × UrlText} {buf : Nat → UInt8} (cuts : Cuts s 61 x t r)
    (same : ∀ i ≤ s + x.length, buf i = r.2.buf i) : QueryAt buf (s, r.1) (cut 61 x) where
  first := by
    have length := cut_length 61 x
    exact cuts.front.congr fun i _ upTo => same i (by omega)
  second := by
    have length := cut_length 61 x
    rw [cuts.place]
    cases rest : (cut 61 x).2 with
    | none => exact .none
    | some y =>
      simp only [rest, Option.elim_some] at length
      exact .some ((cuts.rest y rest).congr fun i _ upTo => same i (by omega))

theorem pairsOf_more {front rest : List UInt8} (absent : 38 ∉ front) :
    pairsOf (front ++ 38 :: rest) = cut 61 front :: pairsOf rest := by
  rw [pairsOf, List.splitOn_append_cons_self_of_not_mem absent, List.map_cons, pairsOf]

theorem pairsOf_last {query : List UInt8} (absent : 38 ∉ query) : pairsOf query = [cut 61 query] := by
  rw [pairsOf, List.splitOn_eq_singleton absent, List.map_singleton]

theorem UrlText.splitQueries_more {fuel q next : Nat} {u : UrlText} (found : t.findAndTerminate q 38 = (some next, u)) :
    t.splitQueries (fuel + 1) q = ((q, (u.findAndTerminate q 61).1) :: ((u.findAndTerminate q 61).2.splitQueries fuel next).1,
      ((u.findAndTerminate q 61).2.splitQueries fuel next).2) := by
  rw [splitQueries, found]

theorem UrlText.splitQueries_last {fuel q : Nat} {u : UrlText} (found : t.findAndTerminate q 38 = (none, u)) :
    t.splitQueries (fuel + 1) q = ([(q, (u.findAndTerminate q 61).1)], (u.findAndTerminate q 61).2) := by
  rw [splitQueries, found]

theorem UrlText.splitQueries_splits {fuel q : Nat} {query : List UInt8} (string : CString t.buf q query)
    (inside : q + query.length ≤ t.dataLen) (enough : query.length < fuel) : Splits q query t (t.splitQueries fuel q) := by
  induction fuel generalizing q query t with
  | zero => cases enough
  | succ fuel ih =>
    have cuts := findAndTerminate_cuts string (by decide : (38 : UInt8) ≠ 0) inside
    cases searched : t.findAndTerminate q 38 with | mk place u =>
    rw [searched] at cuts
    obtain ⟨front, place, rest, frame, dataLen, seen⟩ := cuts
    simp only at front place rest frame dataLen seen
    by_cases more : (38 : UInt8) ∈ query
    · obtain ⟨a, b, rfl, absent⟩ := List.eq_append_cons_of_mem more
      simp only [cut_found absent, Option.map_some] at front place rest
      cases place
      rw [List.length_append, List.length_cons] at inside enough frame
      -- the pair before `&`, and then the others
      have cuts := findAndTerminate_cuts front (by decide : (61 : UInt8) ≠ 0) (by omega)
      have length := cuts.dataLen.trans dataLen
      have later : CString (u.findAndTerminate q 61).2.buf (q + a.length + 1) b :=
        (rest b rfl).congr fun i _ _ => cuts.frame i (.inr (by omega))
      have splits := ih later (by omega) (by omega)
      rw [splitQueries_more searched]
      refine ⟨?_, fun i out => ?_, fun span member => ?_⟩
      · rw [pairsOf_more absent]
        exact .cons (cuts.queryAt fun i upTo => splits.frame i (.inl (by omega))) splits.entries
      · rw [List.length_append, List.length_cons] at out
        exact (splits.frame i (by omega)).trans ((cuts.frame i (by omega)).trans (frame i (by omega)))
      · rcases splits.seen span member with before | here
        · rcases cuts.seen span before with before | here
          · exact seen span before
          · exact .inr (dataLen ▸ here)
        · exact .inr (length ▸ here)
    · simp only [cut_absent more, Option.map_none] at front place
      cases place
      have cuts := findAndTerminate_cuts front (by decide : (61 : UInt8) ≠ 0) (by omega)
      rw [splitQueries_last searched]
      refine ⟨?_, fun i out => (cuts.frame i out).trans (frame i out), fun span member => ?_⟩
      · rw [pairsOf_last more]
        exact .cons (cuts.queryAt fun _ _ => rfl) .nil
      · rcases cuts.seen span member with before | here
        · exact seen span before
        · exact .inr (dataLen ▸ here)

/-- The query in a text that is decoded: behind the first `?`, up to the first `#` or zero. -/
def queryOf (text : List UInt8) : List UInt8 := (cut 63 (cut 35 (cut 0 text).1).1).2.getD []

/-- All that is looked at are the bytes of the text and its zero, and the entries are the pairs of the query. -/
structure Parses (text : List UInt8) (r : UrlParts) : Prop where
  seen : ∀ span ∈ r.text.seen, span.Below (text.length + 1)
  queries : List.Forall₂ (QueryAt r.text.buf) r.queries (if queryOf text = [] then [] else pairsOf (queryOf text))

theorem UrlText.parts_eq {u u₁ u₂ u₃ : UrlText} {fragment place path : Option Nat}
    (first : u.findAndTerminate 0 35 = (fragment, u₁)) (second : u₁.findAndTerminate 0 63 = (place, u₂))
    (third : u₂.findAndTerminate 0 47 = (path, u₃)) :
    u.parts = match place with
      | none => ⟨fragment, path, [], u₃⟩
      | some q =>
          let u := { u₃ with seen := ⟨q, 1⟩ :: u₃.seen }
          if u.buf q = 0 then ⟨fragment, path, [], u⟩
          else ⟨fragment, path, (u.splitQueries (u.dataLen + 1) q).1, (u.splitQueries (u.dataLen + 1) q).2⟩ := by
  simp only [parts, first, second, third]
  cases place <;> rfl

/-- The queries begin at `p`, if there are any. -/
theorem UrlText.query_parses {text q : List UInt8} {u : UrlText} {p : Nat} (fragment path : Option Nat) (query : queryOf text = q)
    (string : CString u.buf p q) (inside : p + q.length ≤ text.length) (dataLen : u.dataLen = text.length)
    (seen : ∀ span ∈ u.seen, span.Below (text.length + 1)) :
    let v : UrlText := { u with seen := ⟨p, 1⟩ :: u.seen }
    Parses text (if v.buf p = 0 then ⟨fragment, path, [], v⟩
      else ⟨fragment, path, (v.splitQueries (v.dataLen + 1) p).1, (v.splitQueries (v.dataLen + 1) p).2⟩) := by
  intro v
  have seen : ∀ span ∈ v.seen, span.Below (text.length + 1) := by
    intro span member
    rcases List.mem_cons.mp member with rfl | before
    · exact fun i below => by simp only at below ⊢; omega
    · exact seen span before
  cases q with
  | nil =>
    rw [if_pos (show v.buf p = 0 from string.zero)]
    exact ⟨seen, by rw [query, if_pos rfl]; exact .nil⟩
  | cons b q =>
    have solid : ¬ v.buf p = 0 := fun zero => string.solid (string.stored.1.symm.trans zero ▸ List.mem_cons_self)
    rw [if_neg solid]
    have length : v.dataLen = text.length := dataLen
    have splits := splitQueries_splits (t := v) string (by omega) (by omega : (b :: q).length < v.dataLen + 1)
    refine ⟨fun span member => ?_, ?_⟩
    · rcases splits.seen span member with before | here
      · exact seen span before
      · exact length ▸ here
    · rw [query, if_neg (List.cons_ne_nil _ _)]
      exact splits.entries

theorem UrlText.parts_parses (text : List UInt8) (behind : Nat → UInt8) :
    Parses text (UrlText.parts { buf := memory (text ++ [0]) behind, dataLen := text.length }) := by
  have string := (memory_stored (text ++ [0]) behind).cstring
  have length₀ := cut_length 0 text
  have length₁ := cut_length 35 (cut 0 text).1
  have length₂ := cut_length 63 (cut 35 (cut 0 text).1).1
  -- the three searches
  have cuts₁ := findAndTerminate_cuts (t := ⟨memory (text ++ [0]) behind, text.length, []⟩) string
    (by decide : (35 : UInt8) ≠ 0) (by simp only; omega)
  cases first : findAndTerminate 0 35 ⟨memory (text ++ [0]) behind, text.length, []⟩ with | mk fragment u₁ =>
  rw [first] at cuts₁
  have dataLen₁ : u₁.dataLen = text.length := cuts₁.dataLen
  have cuts₂ := findAndTerminate_cuts cuts₁.front (by decide : (63 : UInt8) ≠ 0) (by simp only [dataLen₁]; omega)
  cases second : u₁.findAndTerminate 0 63 with | mk place u₂ =>
  rw [second] at cuts₂
  have dataLen₂ : u₂.dataLen = text.length := cuts₂.dataLen.trans dataLen₁
  have cuts₃ := findAndTerminate_cuts cuts₂.front (by decide : (47 : UInt8) ≠ 0) (by simp only [dataLen₂]; omega)
  cases third : u₂.findAndTerminate 0 47 with | mk path u₃ =>
  rw [third] at cuts₃
  have dataLen₃ : u₃.dataLen = text.length := cuts₃.dataLen.trans dataLen₂
  have seen₃ : ∀ span ∈ u₃.seen, span.Below (text.length + 1) := by
    intro span member
    rcases cuts₃.seen span member with before | here
    · rcases cuts₂.seen span before with before | here
      · rcases cuts₁.seen span before with before | here
        · cases before
        · exact here
      · exact dataLen₁ ▸ here
    · exact dataLen₂ ▸ here
  rw [parts_eq first second third]
  have place := cuts₂.place
  have rest := cuts₂.rest
  have query : queryOf text = (cut 63 (cut 35 (cut 0 text).1).1).2.getD [] := rfl
  cases found : (cut 63 (cut 35 (cut 0 text).1).1).2 with
  | none =>
    rw [found] at place query
    cases place
    exact ⟨seen₃, by simp only [query, Option.getD_none, if_pos]; exact .nil⟩
  | some q =>
    obtain ⟨p, behind'⟩ : ∃ p, p = 0 + (cut 63 (cut 35 (cut 0 text).1).1).1.length + 1 := ⟨_, rfl⟩
    rw [found] at query length₂
    rw [found, Option.map_some, ← behind'] at place
    rw [← behind'] at rest
    cases place
    rw [Option.elim_some] at length₂
    have later : CString u₃.buf p q := (rest q found).congr fun i _ _ => cuts₃.frame i (.inr (by omega))
    rw [Option.getD_some] at query
    exact query_parses fragment path query later (by omega) dataLen₃ seen₃

end

end Xxlib.Uv4
