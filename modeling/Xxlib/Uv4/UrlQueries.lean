import Xxlib.Uv4.Url

/-! What `UrlDecode` reads, and the queries that `ParseUrl` finds in a url with a percent-encoded query. -/

set_option autoImplicit false

namespace Xxlib.Uv4

open Lib

/-! ## What is decoded -/

/-- The text of a url. The two bytes are those behind the url, which an escape at its end reaches. -/
def decode (b₁ b₂ : UInt8) : List UInt8 → List UInt8
  | [] => []
  | b :: rest =>
      if b = 43 then 32 :: decode b₁ b₂ rest
      else if b = 37 then
        match rest with
        | [] => [escaped b₁ b₂]
        | [high] => [escaped high b₁]
        | high :: low :: rest => escaped high low :: decode b₁ b₂ rest
      else b :: decode b₁ b₂ rest

/-- No escape needs more than `t` bytes behind the end. -/
def EscapesEnd (t : Nat) : List UInt8 → Prop
  | [] => True
  | b :: rest =>
      if b = 37 then
        match rest with
        | [] => 2 ≤ t
        | [_] => 1 ≤ t
        | _ :: _ :: rest => EscapesEnd t rest
      else EscapesEnd t rest

section
variable {b₁ b₂ b high low : UInt8} {rest : List UInt8} {t : Nat}

theorem decode_plus : decode b₁ b₂ (43 :: rest) = 32 :: decode b₁ b₂ rest := by
  rw [decode.eq_def]
  exact if_pos rfl

theorem decode_escape : decode b₁ b₂ (37 :: high :: low :: rest) = escaped high low :: decode b₁ b₂ rest := by
  rw [decode.eq_def]
  rfl

theorem decode_other (plus : ¬ b = 43) (escape : ¬ b = 37) : decode b₁ b₂ (b :: rest) = b :: decode b₁ b₂ rest := by
  rw [decode.eq_def]
  simp only [if_neg plus, if_neg escape]

theorem escapesEnd_escape : EscapesEnd t (37 :: high :: low :: rest) ↔ EscapesEnd t rest := by
  rw [EscapesEnd.eq_def]
  exact Iff.rfl

theorem escapesEnd_other (escape : ¬ b = 37) : EscapesEnd t (b :: rest) ↔ EscapesEnd t rest := by
  rw [EscapesEnd.eq_def]
  simp only [if_neg escape]

end

section
variable {src : Nat → UInt8} {dataLen fuel i t : Nat} {x : List UInt8}

theorem urlDecodeLoop_end (fuel : Nat) (behind : dataLen ≤ i) : urlDecodeLoop src dataLen fuel i = ([], []) := by
  cases fuel with
  | zero => rfl
  | succ fuel => exact if_neg (Nat.not_lt.mpr behind)

theorem urlDecodeLoop_plus (inside : i < dataLen) (plus : src i = 43) : urlDecodeLoop src dataLen (fuel + 1) i =
    (32 :: (urlDecodeLoop src dataLen fuel (i + 1)).1, i :: (urlDecodeLoop src dataLen fuel (i + 1)).2) := by
  rw [urlDecodeLoop, if_pos inside, if_pos plus]

theorem urlDecodeLoop_escape (inside : i < dataLen) (escape : src i = 37) : urlDecodeLoop src dataLen (fuel + 1) i =
    (escaped (src (i + 1)) (src (i + 2)) :: (urlDecodeLoop src dataLen fuel (i + 3)).1,
      i :: (i + 1) :: (i + 2) :: (urlDecodeLoop src dataLen fuel (i + 3)).2) := by
  rw [urlDecodeLoop, if_pos inside, if_neg (by rw [escape]; decide), if_pos escape]

theorem urlDecodeLoop_other (inside : i < dataLen) (plus : ¬ src i = 43) (escape : ¬ src i = 37) :
    urlDecodeLoop src dataLen (fuel + 1) i =
      (src i :: (urlDecodeLoop src dataLen fuel (i + 1)).1, i :: (urlDecodeLoop src dataLen fuel (i + 1)).2) := by
  rw [urlDecodeLoop, if_pos inside, if_neg plus, if_neg escape]

theorem urlDecodeLoop_spec (stored : Lib.Stored src i x) (length : i + x.length = dataLen) (enough : x.length ≤ fuel) :
    (urlDecodeLoop src dataLen fuel i).1 = decode (src dataLen) (src (dataLen + 1)) x ∧
      ∀ t, (∀ j ∈ (urlDecodeLoop src dataLen fuel i).2, j < dataLen + t) ↔ EscapesEnd t x := by
  induction fuel generalizing i x with
  | zero =>
    cases x with
    | nil => exact ⟨rfl, fun t => ⟨fun _ => trivial, fun _ j none => absurd none List.not_mem_nil⟩⟩
    | cons b x => cases enough
  | succ fuel ih =>
    cases x with
    | nil =>
      have behind : dataLen ≤ i := Nat.le_of_eq length.symm
      rw [urlDecodeLoop_end _ behind]
      exact ⟨rfl, fun t => ⟨fun _ => trivial, fun _ j none => absurd none List.not_mem_nil⟩⟩
    | cons b x =>
      obtain ⟨rfl, stored⟩ := stored
      rw [List.length_cons] at length enough
      have inside : i < dataLen := by omega
      have here : ∀ t, i < dataLen + t := fun t => Nat.lt_add_right t inside
      by_cases plus : src i = 43
      · have notEscape : ¬ src i = 37 := fun same => absurd (plus.symm.trans same) (by decide)
        obtain ⟨dst, seen⟩ := ih stored (by omega) (by omega)
        rw [urlDecodeLoop_plus inside plus, dst]
        refine ⟨by rw [plus, decode_plus], fun t => ?_⟩
        rw [escapesEnd_other notEscape, List.forall_mem_cons, seen, and_iff_right (here t)]
      · by_cases escape : src i = 37
        · rw [urlDecodeLoop_escape inside escape, escape]
          match x with
          | [] =>
            obtain rfl : i + 1 = dataLen := length
            rw [urlDecodeLoop_end fuel (by omega)]
            refine ⟨rfl, fun t => ?_⟩
            simp only [EscapesEnd, if_pos, List.forall_mem_cons, List.not_mem_nil, false_imp_iff, implies_true]
            exact ⟨fun all => by omega, fun enough => ⟨by omega, by omega, by omega, trivial⟩⟩
          | [high] =>
            obtain rfl : i + 2 = dataLen := length
            rw [urlDecodeLoop_end fuel (by omega)]
            obtain ⟨rfl, -⟩ := stored
            refine ⟨rfl, fun t => ?_⟩
            simp only [EscapesEnd, if_pos, List.forall_mem_cons, List.not_mem_nil, false_imp_iff, implies_true]
            exact ⟨fun all => by omega, fun enough => ⟨by omega, by omega, by omega, trivial⟩⟩
          | high :: low :: rest =>
            obtain ⟨rfl, rfl, stored⟩ := stored
            rw [List.length_cons, List.length_cons] at length enough
            obtain ⟨dst, seen⟩ := ih (i := i + 3) stored (by omega) (by omega)
            rw [dst]
            refine ⟨decode_escape.symm, fun t => ?_⟩
            simp only [escapesEnd_escape, List.forall_mem_cons, seen]
            exact ⟨fun all => all.2.2.2, fun rest => ⟨by omega, by omega, by omega, rest⟩⟩
        · obtain ⟨dst, seen⟩ := ih stored (by omega) (by omega)
          rw [urlDecodeLoop_other inside plus escape, dst]
          refine ⟨(decode_other plus escape).symm, fun t => ?_⟩
          rw [escapesEnd_other escape, List.forall_mem_cons, seen, and_iff_right (here t)]

theorem urlDecode_spec (src : List UInt8) (behind : Nat → UInt8) :
    (urlDecode src behind).1 = decode (behind src.length) (behind (src.length + 1)) src ∧
      ∀ t, (∀ j ∈ (urlDecode src behind).2, j < src.length + t) ↔ EscapesEnd t src := by
  have outside : ∀ i, src.length ≤ i → memory src behind i = behind i := fun i out => List.getD_eq_default _ _ out
  have spec := urlDecodeLoop_spec (memory_stored src behind) (Nat.zero_add _) (Nat.le_refl _)
  rwa [outside _ (Nat.le_refl _), outside _ (Nat.le_succ _)] at spec

end

/-- The escapes of `x` are whole, and it is decoded to `y`. -/
structure Decodes (x y : List UInt8) : Prop where
  whole : EscapesEnd 0 x
  eq : decode 0 0 x = y

/-- Behind a part with whole escapes, the text goes on with what follows. -/
theorem escapes_append {b₁ b₂ : UInt8} {front rest : List UInt8} {t : Nat} (whole : EscapesEnd 0 front) :
    decode b₁ b₂ (front ++ rest) = decode 0 0 front ++ decode b₁ b₂ rest ∧
      (EscapesEnd t (front ++ rest) ↔ EscapesEnd t rest) := by
  induction length : front.length using Nat.strong_induction_on generalizing front with
  | _ n ih =>
    rcases front with _ | ⟨b, front⟩
    · exact ⟨rfl, Iff.rfl⟩
    · by_cases escape : b = 37
      · subst escape
        rcases front with _ | ⟨high, _ | ⟨low, front⟩⟩
        · exact absurd (show 2 ≤ 0 from whole) (by omega)
        · exact absurd (show 1 ≤ 0 from whole) (by omega)
        · simp only [List.length_cons] at length
          obtain ⟨text, ends⟩ := ih _ (by omega) (escapesEnd_escape.mp whole) rfl
          simp only [List.cons_append, decode_escape, escapesEnd_escape]
          exact ⟨by rw [text], ends⟩
      · rw [escapesEnd_other escape] at whole
        rw [List.length_cons] at length
        obtain ⟨text, ends⟩ := ih _ (by omega) whole rfl
        rw [List.cons_append, escapesEnd_other escape]
        refine ⟨?_, ends⟩
        by_cases plus : b = 43
        · subst plus
          rw [decode_plus, decode_plus, text, List.cons_append]
        · rw [decode_other plus escape, decode_other plus escape, text, List.cons_append]

theorem decodes_nil : Decodes [] [] := ⟨trivial, rfl⟩

theorem Decodes.append {x y x' y' : List UInt8} (first : Decodes x y) (second : Decodes x' y') : Decodes (x ++ x') (y ++ y') where
  whole := (@escapes_append 0 0 x x' 0 first.whole).2.mpr second.whole
  eq := by rw [(escapes_append (t := 0) first.whole).1, first.eq, second.eq]

theorem Decodes.cons {b : UInt8} {x y : List UInt8} (plus : ¬ b = 43) (escape : ¬ b = 37) (rest : Decodes x y) :
    Decodes (b :: x) (b :: y) where
  whole := (escapesEnd_other escape).mpr rest.whole
  eq := by rw [decode_other plus escape, rest.eq]

/-! ## Encoded queries -/

/-- A byte that a percent-encoded name or value can have as it is. -/
def Literal (b : UInt8) : Prop := b ≠ 35 ∧ b ≠ 37 ∧ b ≠ 38 ∧ b ≠ 43 ∧ b ≠ 61

def HexDigit (b : UInt8) : Prop := (48 ≤ b ∧ b ≤ 57) ∨ (65 ≤ b ∧ b ≤ 70) ∨ (97 ≤ b ∧ b ≤ 102)

/-- The second list is a percent-encoded form of the first. -/
inductive Encodes : List UInt8 → List UInt8 → Prop where
  | nil : Encodes [] []
  | escape {b high low : UInt8} {x encoded : List UInt8} (first : HexDigit high) (second : HexDigit low)
      (value : escaped high low = b) (rest : Encodes x encoded) : Encodes (b :: x) (37 :: high :: low :: encoded)
  | space {x encoded : List UInt8} (rest : Encodes x encoded) : Encodes (32 :: x) (43 :: encoded)
  | literal {b : UInt8} {x encoded : List UInt8} (plain : Literal b) (rest : Encodes x encoded) : Encodes (b :: x) (b :: encoded)

/-- Pairs joined by `=` and `&`. -/
def joinPairs (pairs : List (List UInt8 × List UInt8)) : List UInt8 := [38].intercalate (pairs.map fun p => p.1 ++ 61 :: p.2)

theorem Encodes.decodes {x encoded : List UInt8} (encodes : Encodes x encoded) : Decodes encoded x := by
  induction encodes with
  | nil => exact decodes_nil
  | escape first second value rest ih => exact ⟨escapesEnd_escape.mpr ih.whole, by rw [decode_escape, ih.eq, value]⟩
  | space rest ih => exact ⟨(escapesEnd_other (by decide)).mpr ih.whole, by rw [decode_plus, ih.eq]⟩
  | literal plain rest ih => exact ih.cons plain.2.2.2.1 plain.2.1

/-- The pairs, and their percent-encoded forms. -/
def EncodesPairs : List (List UInt8 × List UInt8) → List (List UInt8 × List UInt8) → Prop :=
  List.Forall₂ fun p encoded => Encodes p.1 encoded.1 ∧ Encodes p.2 encoded.2

theorem EncodesPairs.decodes {pairs encoded : List (List UInt8 × List UInt8)} (encodes : EncodesPairs pairs encoded) :
    Decodes (joinPairs encoded) (joinPairs pairs) := by
  unfold joinPairs
  induction encodes with
  | nil => exact decodes_nil
  | cons first rest ih =>
    have pair := first.1.decodes.append (first.2.decodes.cons (by decide : ¬ (61 : UInt8) = 43) (by decide))
    cases rest with
    | nil =>
      simp only [List.map_cons, List.map_nil, List.intercalate_singleton]
      exact pair
    | cons second rest =>
      simp only [List.map_cons, List.intercalate_cons_cons] at ih ⊢
      exact (pair.append (decodes_nil.cons (by decide) (by decide) : Decodes [38] [38])).append ih

/-- The names have no `&` or `=`, and the values no `&`. -/
def Unmixed (pairs : List (List UInt8 × List UInt8)) : Prop := ∀ p ∈ pairs, 38 ∉ p.1 ∧ 61 ∉ p.1 ∧ 38 ∉ p.2

theorem joinPairs_eq_nil {pairs : List (List UInt8 × List UInt8)} : joinPairs pairs = [] ↔ pairs = [] := by
  constructor
  · intro empty
    cases pairs with
    | nil => rfl
    | cons p pairs =>
      have member : (61 : UInt8) ∈ joinPairs (p :: pairs) := by
        rw [joinPairs, List.map_cons]
        cases pairs <;> simp
      rw [empty] at member
      cases member
  · rintro rfl
    rfl

theorem map_cut_eq_iff {segments : List (List UInt8)} {pairs : List (List UInt8 × List UInt8)} :
    segments.map (cut 61) = pairs.map (fun p => (p.1, some p.2)) ↔
      segments = pairs.map (fun p => p.1 ++ 61 :: p.2) ∧ ∀ p ∈ pairs, 61 ∉ p.1 := by
  induction segments generalizing pairs with
  | nil =>
    cases pairs with
    | nil => simp
    | cons p pairs => simp
  | cons segment segments ih =>
    cases pairs with
    | nil => simp
    | cons p pairs =>
      simp only [List.map_cons, List.cons.injEq, ih, List.forall_mem_cons]
      constructor
      · rintro ⟨first, rest, named⟩
        obtain ⟨rfl, absent⟩ := cut_eq_some first
        exact ⟨⟨rfl, rest⟩, absent, named⟩
      · rintro ⟨⟨rfl, rest⟩, absent, named⟩
        exact ⟨cut_found absent, rest, named⟩

/-- A query has exactly these pairs, if it is their join, and the join can be undone. -/
theorem pairsOf_eq_iff {query : List UInt8} {pairs : List (List UInt8 × List UInt8)} :
    (if query = [] then [] else pairsOf query) = pairs.map (fun p => (p.1, some p.2)) ↔
      Unmixed pairs ∧ query = joinPairs pairs := by
  by_cases empty : query = []
  · rw [if_pos empty, empty]
    constructor
    · intro none
      obtain rfl := List.map_eq_nil_iff.mp none.symm
      exact ⟨fun _ absent => absurd absent List.not_mem_nil, rfl⟩
    · rintro ⟨-, joined⟩
      rw [joinPairs_eq_nil.mp joined.symm]
      rfl
  · rw [if_neg empty, pairsOf, map_cut_eq_iff]
    constructor
    · rintro ⟨segments, named⟩
      have joined : query = joinPairs pairs := by rw [joinPairs, ← segments, List.intercalate_splitOn]
      refine ⟨fun p member => ?_, joined⟩
      have absent := not_mem_of_mem_splitOn (segments ▸ List.mem_map_of_mem member : p.1 ++ 61 :: p.2 ∈ query.splitOn 38)
      rw [List.mem_append, List.mem_cons, not_or, not_or] at absent
      exact ⟨absent.1, named p member, absent.2.2⟩
    · rintro ⟨unmixed, rfl⟩
      refine ⟨List.splitOn_intercalate 38 (fun segment member => ?_) ?_, fun p member => (unmixed p member).2.1⟩
      · obtain ⟨p, inside, rfl⟩ := List.mem_map.mp member
        obtain ⟨name, -, value⟩ := unmixed p inside
        rw [List.mem_append, List.mem_cons, not_or, not_or]
        exact ⟨name, by decide, value⟩
      · exact fun none => empty (joinPairs_eq_nil.mpr (List.map_eq_nil_iff.mp none))

theorem hash_not_mem_queryOf (text : List UInt8) : 35 ∉ queryOf text := by
  intro member
  unfold queryOf at member
  cases found : (cut 63 (cut 35 (cut 0 text).1).1).2 with
  | none =>
    rw [found] at member
    cases member
  | some query =>
    rw [found, Option.getD_some] at member
    have split := (cut_eq_some (Prod.ext rfl found)).1
    apply not_mem_cut 35 (cut 0 text).1
    rw [split]
    exact List.mem_append_right _ (List.mem_cons_of_mem _ member)

theorem queryOf_append {front : List UInt8} (stop : 0 ∈ front ∨ 35 ∈ front) (rest : List UInt8) :
    queryOf (front ++ rest) = queryOf front := by
  unfold queryOf
  by_cases zero : (0 : UInt8) ∈ front
  · rw [cut_append_of_mem zero]
  · have hash := stop.resolve_left zero
    rw [cut_append_of_not_mem zero, cut_append_of_mem hash, cut_absent zero]

/-- The query is found again, if nothing before it ends the text or begins a query, and if it has no `#`. -/
theorem queryOf_eq_iff {front query tail : List UInt8} (solid : 0 ∉ query) (ends : tail = [] ∨ ∃ rest, tail = 35 :: rest) :
    queryOf (front ++ 63 :: (query ++ tail)) = query ↔
      if 0 ∈ front ∨ 35 ∈ front then queryOf front = query else 63 ∉ front ∧ 35 ∉ query := by
  split
  · rename_i stop
    rw [queryOf_append stop]
  · rename_i clear
    obtain ⟨zero, hash⟩ := not_or.mp clear
    by_cases fragment : (35 : UInt8) ∈ query
    · refine iff_of_false (fun same => ?_) fun absent => absent.2 fragment
      exact hash_not_mem_queryOf _ (same ▸ fragment)
    · -- the text up to `#`
      have text : (cut 35 (cut 0 (front ++ 63 :: (query ++ tail))).1).1 = front ++ 63 :: query := by
        have front' : (0 : UInt8) ∉ front ++ 63 :: query := by
          rw [List.mem_append, List.mem_cons, not_or, not_or]
          exact ⟨zero, by decide, solid⟩
        have front'' : (35 : UInt8) ∉ front ++ 63 :: query := by
          rw [List.mem_append, List.mem_cons, not_or, not_or]
          exact ⟨hash, by decide, fragment⟩
        rw [← List.cons_append, ← List.append_assoc, cut_append_of_not_mem front', cut_append_of_not_mem front'']
        rcases ends with rfl | ⟨rest, rfl⟩
        · simp [cut]
        · simp [cut]
      unfold queryOf
      rw [text]
      by_cases earlier : (63 : UInt8) ∈ front
      · obtain ⟨a, b, rfl, absent⟩ := List.eq_append_cons_of_mem earlier
        refine iff_of_false (fun same => ?_) fun clear => clear.1 earlier
        rw [List.append_assoc, List.cons_append, cut_found absent, Option.getD_some] at same
        have length := congrArg List.length same
        rw [List.length_append, List.length_cons] at length
        omega
      · rw [cut_found earlier]
        exact iff_of_true rfl ⟨earlier, fragment⟩

/-! ## Queries -/

/-- `queries` holds exactly these pairs, in this order. -/
def UrlParts.HasQueries (r : UrlParts) (pairs : List (List UInt8 × List UInt8)) : Prop :=
  List.Forall₂ (QueryAt r.text.buf) r.queries (pairs.map fun p => (p.1, some p.2))

theorem QueryAt.unique {buf : Nat → UInt8} {query : Nat × Option Nat} {pair pair' : List UInt8 × Option (List UInt8)}
    (first : QueryAt buf query pair) (second : QueryAt buf query pair') : pair = pair' := by
  obtain ⟨name, value⟩ := first
  obtain ⟨name', value'⟩ := second
  refine Prod.ext (name.unique name') ?_
  generalize query.2 = place at value value'
  generalize pair.2 = v at value ⊢
  generalize pair'.2 = v' at value' ⊢
  cases value with
  | none =>
    cases value'
    rfl
  | some at' =>
    cases value' with
    | some at'' => rw [at'.unique at'']

theorem queries_unique {buf : Nat → UInt8} {queries : List (Nat × Option Nat)} {pairs pairs' : List (List UInt8 × Option (List UInt8))}
    (first : List.Forall₂ (QueryAt buf) queries pairs) (second : List.Forall₂ (QueryAt buf) queries pairs') : pairs = pairs' := by
  induction first generalizing pairs' with
  | nil =>
    cases second
    rfl
  | cons head rest ih =>
    cases second with
    | cons head' rest' => rw [head.unique head', ih rest']

/-- The queries are the pairs of the query in the text that was decoded. -/
theorem hasQueries_iff (url : List UInt8) (behind : Nat → UInt8) (old : List UInt8) (behind' : Nat → UInt8)
    (pairs : List (List UInt8 × List UInt8)) : (parseUrl url behind old behind').HasQueries pairs ↔
      Unmixed pairs ∧ queryOf (old ++ (urlDecode url behind).1) = joinPairs pairs := by
  have parses := UrlText.parts_parses (old ++ (urlDecode url behind).1) behind'
  rw [← pairsOf_eq_iff]
  constructor
  · exact queries_unique parses.queries
  · intro same
    unfold UrlParts.HasQueries
    rw [← same]
    exact parses.queries

/-- The text of a url with a percent-encoded query. -/
theorem urlDecode_encoded {front tail : List UInt8} {pairs encoded : List (List UInt8 × List UInt8)} (behind : Nat → UInt8)
    (whole : EscapesEnd 0 front) (ends : tail = [] ∨ ∃ rest, tail = 35 :: rest) (encodes : EncodesPairs pairs encoded) :
    ∃ tail', (tail' = [] ∨ ∃ rest, tail' = 35 :: rest) ∧
      (urlDecode (front ++ 63 :: (joinPairs encoded ++ tail)) behind).1 = decode 0 0 front ++ 63 :: (joinPairs pairs ++ tail') := by
  generalize url : front ++ 63 :: (joinPairs encoded ++ tail) = src
  rw [(urlDecode_spec src behind).1, ← url, (escapes_append (t := 0) whole).1, decode_other (by decide) (by decide),
    (escapes_append (t := 0) encodes.decodes.whole).1, encodes.decodes.eq]
  refine ⟨_, ?_, rfl⟩
  rcases ends with rfl | ⟨rest, rfl⟩
  · exact .inl rfl
  · exact .inr ⟨_, decode_other (by decide) (by decide)⟩

theorem zero_not_mem_joinPairs {pairs : List (List UInt8 × List UInt8)} (solid : ∀ p ∈ pairs, 0 ∉ p.1 ∧ 0 ∉ p.2) :
    0 ∉ joinPairs pairs := by
  unfold joinPairs
  induction pairs with
  | nil => exact List.not_mem_nil
  | cons p pairs ih =>
    obtain ⟨here, later⟩ := List.forall_mem_cons.mp solid
    have pair : (0 : UInt8) ∉ p.1 ++ 61 :: p.2 := by
      rw [List.mem_append, List.mem_cons, not_or, not_or]
      exact ⟨here.1, by decide, here.2⟩
    cases pairs with
    | nil => simpa using pair
    | cons p' pairs =>
      have rest := ih later
      rw [List.map_cons] at rest ⊢
      rw [List.map_cons, List.intercalate_cons_cons, List.mem_append, List.mem_append, not_or, not_or]
      exact ⟨⟨pair, by decide⟩, rest⟩

/-- `UrlDecode` looks behind the end, by as much as its escapes do. What `ParseUrl` finds are the pairs of the query in the
decoded text; so an encoded query is found, if and only if no separator comes out of the decoding. -/
theorem parseUrl_spec (url : List UInt8) (behind : Nat → UInt8) (old : List UInt8) (behind' : Nat → UInt8) :
    (∀ t, (∀ i ∈ (urlDecode url behind).2, i < url.length + t) ↔ EscapesEnd t url) ∧
    (∀ span ∈ (parseUrl url behind old behind').text.seen, span.Below ((old ++ (urlDecode url behind).1).length + 1)) ∧
    (∀ pairs, (parseUrl url behind old behind').HasQueries pairs ↔
      Unmixed pairs ∧ queryOf (old ++ (urlDecode url behind).1) = joinPairs pairs) ∧
    ∀ (front tail : List UInt8) (pairs encoded : List (List UInt8 × List UInt8)),
      url = front ++ 63 :: (joinPairs encoded ++ tail) → EscapesEnd 0 front → (tail = [] ∨ ∃ rest, tail = 35 :: rest) →
      EncodesPairs pairs encoded → (∀ p ∈ pairs, 0 ∉ p.1 ∧ 0 ∉ p.2) →
      ((parseUrl url behind old behind').HasQueries pairs ↔
        Unmixed pairs ∧
          if 0 ∈ old ++ decode 0 0 front ∨ 35 ∈ old ++ decode 0 0 front then
            queryOf (old ++ decode 0 0 front) = joinPairs pairs
          else 63 ∉ old ++ decode 0 0 front ∧ 35 ∉ joinPairs pairs) := by
  refine ⟨(urlDecode_spec url behind).2, (UrlText.parts_parses _ behind').seen, hasQueries_iff url behind old behind', ?_⟩
  rintro front tail pairs encoded rfl whole ends encodes solid
  obtain ⟨tail', ends', text⟩ := urlDecode_encoded behind whole ends encodes
  rw [hasQueries_iff, text, ← List.append_assoc, queryOf_eq_iff (zero_not_mem_joinPairs solid) ends']

/-- The url `/?a=%31&b=+`. -/
theorem parseUrl_spec_two :
    (∀ i ∈ (urlDecode [47, 63, 97, 61, 37, 51, 49, 38, 98, 61, 43] fun _ => 0).2, i < 11) ∧
      (parseUrl [47, 63, 97, 61, 37, 51, 49, 38, 98, 61, 43] (fun _ => 0) [] fun _ => 0).HasQueries [([97], [49]), ([98], [32])] := by
  obtain ⟨reads, -, -, encoded⟩ := parseUrl_spec [47, 63, 97, 61, 37, 51, 49, 38, 98, 61, 43] (fun _ => 0) [] fun _ => 0
  have first : Encodes [97] [97] ∧ Encodes [49] [37, 51, 49] :=
    ⟨.literal (by unfold Literal; decide) .nil, .escape (.inl (by decide)) (.inl (by decide)) (by decide) .nil⟩
  have second : Encodes [98] [98] ∧ Encodes [32] [43] := ⟨.literal (by unfold Literal; decide) .nil, .space .nil⟩
  refine ⟨(reads 0).mpr trivial, (encoded [47] [] _ [([97], [37, 51, 49]), ([98], [43])] rfl trivial (.inl rfl)
    (.cons first (.cons second .nil)) (by decide)).mpr ⟨by unfold Unmixed; decide, ?_⟩⟩
  rw [if_neg (by decide)]
  decide

/-- An escape that is cut off reads beyond the end and its terminator, and an encoded `&` becomes a separator. -/
theorem parseUrl_mixes :
    (∃ i ∈ (urlDecode [37] fun _ => 0).2, [37].length < i) ∧
      EncodesPairs [([97], [38])] [([97], [37, 50, 54])] ∧
        ¬ (parseUrl ([47] ++ 63 :: joinPairs [([97], [37, 50, 54])]) (fun _ => 0) [] fun _ => 0).HasQueries [([97], [38])] := by
  have encodes : Encodes [97] [97] ∧ Encodes [38] [37, 50, 54] :=
    ⟨.literal (by unfold Literal; decide) .nil, .escape (.inl (by decide)) (.inl (by decide)) (by decide) .nil⟩
  refine ⟨⟨2, by decide, by decide⟩, .cons encodes .nil, fun queries => ?_⟩
  have unmixed := ((hasQueries_iff _ _ _ _ _).mp queries).1 _ List.mem_cons_self
  exact absurd unmixed (by decide)

end Xxlib.Uv4
