import Xxlib.Uv4.AppendFormat

/-! What `AppendFormat` reads of the format, and what it appends. -/

set_option autoImplicit false

namespace Xxlib.Uv4

open Lib CharList

/-! ## What is read -/

namespace Formatting

variable {blocks : Blocks} {signedChar : Bool} {format : Nat → UInt8} {args : List Argument} {fuel i : Nat}
  {x inside rest : List UInt8} {f : Formatting}

@[simp] theorem argument_offset (i : Nat) (f : Formatting) : (f.argument blocks args i).offset = f.offset := by
  unfold argument
  repeat' split
  all_goals rfl

@[simp] theorem argument_seen (i : Nat) (f : Formatting) : (f.argument blocks args i).seen = f.seen := by
  unfold argument
  repeat' split
  all_goals rfl

theorem placeholder_char {c : UInt8} (here : format f.offset = c) (solid : ¬ 0 = c) (within : ¬ 125 = c) :
    placeholder blocks signedChar format args (fuel + 1) i f =
      placeholder blocks signedChar format args fuel (nextIndex signedChar i c) f.look.next := by
  simp only [placeholder, here, if_neg (Ne.symm solid), if_neg (Ne.symm within)]

/-- The inner loop comes to the closing brace. -/
theorem placeholder_closed (stored : Lib.Stored format f.offset (inside ++ [125])) (within : 125 ∉ inside) (solid : 0 ∉ inside)
    (enough : inside.length < fuel) : ∃ seen, (∀ k ∈ seen, k ∈ f.seen ∨ k ≤ f.offset + inside.length) ∧
      placeholder blocks signedChar format args fuel i f =
        let g := { f with offset := f.offset + inside.length, seen := seen }
        if args.length ≤ inside.foldl (nextIndex signedChar) i then g
        else g.argument blocks args (inside.foldl (nextIndex signedChar) i) := by
  induction inside generalizing fuel i f with
  | nil =>
    obtain ⟨fuel, rfl⟩ := Nat.exists_eq_add_one_of_ne_zero (Nat.ne_zero_of_lt enough)
    have brace : format f.offset = 125 := stored.1
    refine ⟨f.offset :: f.seen, fun k member => ?_, ?_⟩
    · rcases List.mem_cons.mp member with rfl | before
      · exact .inr (Nat.le_refl _)
      · exact .inl before
    · simp only [placeholder, brace]
      rfl
  | cons c inside ih =>
    obtain ⟨fuel, rfl⟩ := Nat.exists_eq_add_one_of_ne_zero (Nat.ne_zero_of_lt enough)
    rw [List.mem_cons, not_or] at within solid
    rw [List.length_cons] at enough
    have here : format f.offset = c := stored.1
    obtain ⟨seen, below, run⟩ := @ih fuel (nextIndex signedChar i c) f.look.next stored.2 within.2 solid.2 (by omega)
    refine ⟨seen, fun k member => ?_, ?_⟩
    · rw [List.length_cons]
      simp only [next, look] at below
      rcases below k member with before | here
      · rcases List.mem_cons.mp before with rfl | before
        · exact .inr (Nat.le_add_right _ _)
        · exact .inl before
      · exact .inr (by omega)
    · rw [placeholder_char here solid.1 within.1, run, List.foldl_cons, List.length_cons, Nat.add_comm inside.length,
        ← Nat.add_assoc]
      rfl

theorem placeholder_stops (stored : Lib.Stored format f.offset (inside ++ [125])) (within : 125 ∉ inside) (solid : 0 ∉ inside)
    (enough : inside.length < fuel) :
    (placeholder blocks signedChar format args fuel i f).offset = f.offset + inside.length ∧
      ∀ k ∈ (placeholder blocks signedChar format args fuel i f).seen, k ∈ f.seen ∨ k ≤ f.offset + inside.length := by
  obtain ⟨seen, below, run⟩ := @placeholder_closed blocks signedChar format args fuel i inside f stored within solid enough
  rw [run]
  dsimp only
  split
  · exact ⟨rfl, below⟩
  · rw [argument_offset, argument_seen]
    exact ⟨rfl, below⟩

theorem first_ne (stored : Lib.Stored format i (inside ++ 125 :: rest)) (single : inside.head? ≠ some 123) : format i ≠ 123 := by
  cases inside with
  | nil =>
    rw [stored.1]
    decide
  | cons c inside =>
    rw [stored.1]
    exact fun same => single (congrArg some same)

/-- Without a closing brace it comes to the end. -/
theorem placeholder_open (string : CString format f.offset x) (absent : 125 ∉ x) (enough : x.length < fuel) :
    (placeholder blocks signedChar format args fuel i f).offset = f.offset + x.length := by
  induction x generalizing fuel i f with
  | nil =>
    obtain ⟨fuel, rfl⟩ := Nat.exists_eq_add_one_of_ne_zero (Nat.ne_zero_of_lt enough)
    have zero : format f.offset = 0 := string.zero
    simp only [placeholder, zero, look]
    rfl
  | cons c x ih =>
    obtain ⟨fuel, rfl⟩ := Nat.exists_eq_add_one_of_ne_zero (Nat.ne_zero_of_lt enough)
    have solid := string.solid
    rw [List.mem_cons, not_or] at absent solid
    rw [List.length_cons] at enough
    have here : format f.offset = c := string.stored.1
    have rest : CString format f.look.next.offset x := string.drop (x := [c])
    rw [placeholder_char here solid.1 absent.1, ih rest absent.2 (by omega)]
    simp only [next, look, List.length_cons]
    omega

theorem loop_end (zero : format f.offset = 0) : loop blocks signedChar format args (fuel + 1) f = f.look := by
  simp only [loop, zero, if_pos]

theorem loop_char {c : UInt8} (here : format f.offset = c) (solid : ¬ 0 = c) (ordinary : c ≠ 123) :
    loop blocks signedChar format args (fuel + 1) f = loop blocks signedChar format args fuel (f.look.append blocks c).next := by
  simp only [loop, here, if_neg (Ne.symm solid), if_neg ordinary]

theorem loop_brace (here : format f.offset = 123) (again : format (f.offset + 1) = 123) :
    loop blocks signedChar format args (fuel + 1) f =
      loop blocks signedChar format args fuel (f.look.next.look.append blocks 123).next := by
  rw [loop]
  simp only [here, look, next, again, if_pos]
  rfl

theorem loop_placeholder (here : format f.offset = 123) (single : format (f.offset + 1) ≠ 123) :
    loop blocks signedChar format args (fuel + 1) f = loop blocks signedChar format args fuel
      (placeholder blocks signedChar format args fuel 0 f.look.next.look).next := by
  rw [loop]
  simp only [here]
  exact (if_neg (by decide)).trans (if_neg single)

/-- A closed placeholder is passed. -/
theorem loop_passes (string : CString format f.offset (123 :: (inside ++ 125 :: rest))) (single : inside.head? ≠ some 123)
    (within : 125 ∉ inside) (enough : inside.length < fuel) :
    ∃ g : Formatting, loop blocks signedChar format args (fuel + 1) f = loop blocks signedChar format args fuel g ∧
      g.offset = f.offset + (inside.length + 2) ∧ CString format g.offset rest ∧
      ∀ k ∈ g.seen, k ∈ f.seen ∨ k ≤ f.offset + (inside.length + 1) := by
  have shape : 123 :: (inside ++ 125 :: rest) = [123] ++ ((inside ++ [125]) ++ rest) := by simp
  have solid : 0 ∉ inside := fun zero => string.solid (List.mem_cons_of_mem _ (List.mem_append_left _ zero))
  have first := first_ne string.stored.2 single
  have here := string.stored.1
  rw [shape] at string
  have behind : CString format (f.offset + 1) (inside ++ [125] ++ rest) := string.drop
  have last : CString format (f.offset + 1 + (inside ++ [125]).length) rest := behind.drop
  rw [List.length_append, List.length_singleton] at last
  obtain ⟨offset, below⟩ := @placeholder_stops blocks signedChar format args fuel 0 inside f.look.next.look
    (stored_append.mp behind.stored).1 within solid enough
  have place : (placeholder blocks signedChar format args fuel 0 f.look.next.look).next.offset =
      f.offset + 1 + (inside.length + 1) := by
    change (placeholder blocks signedChar format args fuel 0 f.look.next.look).offset + 1 = _
    rw [offset]
    simp only [next, look]
    omega
  refine ⟨_, loop_placeholder here first, by omega, place ▸ last, fun k member => ?_⟩
  simp only [next, look] at below
  rcases below k member with before | here
  · simp only [List.mem_cons] at before
    rcases before with rfl | rfl | before
    · exact .inr (by omega)
    · exact .inr (by omega)
    · exact .inl before
  · exact .inr (by omega)

/-- What was looked at is not forgotten. -/
theorem placeholder_seen : f.seen ⊆ (placeholder blocks signedChar format args fuel i f).seen := by
  induction fuel generalizing i f with
  | zero => exact fun _ member => member
  | succ fuel ih =>
    unfold placeholder
    intro k member
    have looked : k ∈ f.look.seen := List.mem_cons_of_mem _ member
    simp only
    split
    · exact looked
    · split
      · split
        · exact looked
        · rwa [argument_seen]
      · exact ih (List.mem_cons_of_mem _ member)

/-- A round looks at where it is, and it is the last one, or the loop goes on. -/
theorem loop_round : loop blocks signedChar format args (fuel + 1) f = f.look ∨
    ∃ g : Formatting, f.look.seen ⊆ g.seen ∧
      loop blocks signedChar format args (fuel + 1) f = loop blocks signedChar format args fuel g := by
  rw [loop]
  simp only
  split
  · exact .inl rfl
  · right
    split
    · split
      · refine ⟨_, ?_, rfl⟩
        exact List.subset_cons_self _ _
      · refine ⟨_, ?_, rfl⟩
        exact fun k looked => placeholder_seen (List.mem_cons_of_mem _ looked)
    · refine ⟨_, ?_, rfl⟩
      exact fun _ looked => looked

theorem loop_seen : f.seen ⊆ (loop blocks signedChar format args fuel f).seen := by
  induction fuel generalizing f with
  | zero => exact fun _ member => member
  | succ fuel ih =>
    have looked : f.seen ⊆ f.look.seen := List.subset_cons_self _ _
    rcases @loop_round blocks signedChar format args fuel f with last | ⟨g, seen, more⟩
    · rwa [last]
    · rw [more]
      exact fun k member => ih (seen (looked member))

theorem loop_looks : f.look.seen ⊆ (loop blocks signedChar format args (fuel + 1) f).seen := by
  rcases @loop_round blocks signedChar format args fuel f with last | ⟨g, seen, more⟩
  · rw [last]
    exact fun _ member => member
  · rw [more]
    exact fun k member => loop_seen (seen member)

/-- Closed braces keep the loop inside the format. -/
theorem loop_closed (closed : Closed x) (string : CString format f.offset x) (enough : x.length < fuel) :
    ∀ k ∈ (loop blocks signedChar format args fuel f).seen, k ∈ f.seen ∨ k ≤ f.offset + x.length := by
  induction closed generalizing f fuel with
  | nil =>
    obtain ⟨fuel, rfl⟩ := Nat.exists_eq_add_one_of_ne_zero (Nat.ne_zero_of_lt enough)
    rw [loop_end string.zero]
    intro k member
    rcases List.mem_cons.mp member with rfl | before
    · exact .inr (Nat.le_refl _)
    · exact .inl before
  | @char c rest ordinary closed ih =>
    obtain ⟨fuel, rfl⟩ := Nat.exists_eq_add_one_of_ne_zero (Nat.ne_zero_of_lt enough)
    rw [List.length_cons] at enough ⊢
    have solid : ¬ 0 = c := fun zero => string.solid (zero ▸ List.mem_cons_self)
    rw [loop_char string.stored.1 solid ordinary]
    intro k member
    rcases ih (string.drop (x := [c]) : CString format (f.offset + 1) rest) (by omega) k member with before | here
    · rcases List.mem_cons.mp before with rfl | before
      · exact .inr (Nat.le_add_right _ _)
      · exact .inl before
    · simp only [next, look, append] at here
      exact .inr (by omega)
  | @brace rest closed ih =>
    obtain ⟨fuel, rfl⟩ := Nat.exists_eq_add_one_of_ne_zero (Nat.ne_zero_of_lt enough)
    rw [List.length_cons, List.length_cons] at enough ⊢
    rw [loop_brace string.stored.1 string.stored.2.1]
    intro k member
    rcases ih (string.drop (x := [123, 123]) : CString format (f.offset + 2) rest) (by omega) k member with before | here
    · rcases List.mem_cons.mp before with rfl | before
      · exact .inr (by simp only [next, look]; omega)
      · rcases List.mem_cons.mp before with rfl | before
        · exact .inr (Nat.le_add_right _ _)
        · exact .inl before
    · simp only [next, look, append] at here
      exact .inr (by omega)
  | @placeholder inside rest single within closed ih =>
    obtain ⟨fuel, rfl⟩ := Nat.exists_eq_add_one_of_ne_zero (Nat.ne_zero_of_lt enough)
    rw [List.length_cons, List.length_append, List.length_cons] at enough ⊢
    obtain ⟨g, passes, place, behind, seen⟩ := @loop_passes blocks signedChar format args fuel inside rest f string single within
      (by omega)
    rw [passes]
    intro k member
    rcases ih behind (by omega) k member with before | here
    · rcases seen k before with before | here
      · exact .inl before
      · exact .inr (by omega)
    · exact .inr (by omega)

/-- After an open brace the loop looks behind the end. -/
theorem loop_open (unclosed : ¬ Closed x) (string : CString format f.offset x) (enough : x.length + 1 < fuel) :
    f.offset + x.length + 1 ∈ (loop blocks signedChar format args fuel f).seen := by
  induction length : x.length using Nat.strong_induction_on generalizing x f fuel with
  | _ n ih =>
    obtain ⟨fuel, rfl⟩ := Nat.exists_eq_add_one_of_ne_zero (Nat.ne_zero_of_lt enough)
    rcases x with _ | ⟨c, rest⟩
    · exact absurd .nil unclosed
    · rw [List.length_cons] at length enough
      by_cases brace : c = 123
      · subst brace
        by_cases again : rest.head? = some 123
        · obtain ⟨rest, rfl⟩ : ∃ rest', rest = 123 :: rest' := List.head?_eq_some_iff.mp again
          rw [List.length_cons] at length enough
          rw [loop_brace string.stored.1 string.stored.2.1]
          have behind : CString format (f.look.next.look.append blocks 123).next.offset rest := string.drop (x := [123, 123])
          have member := ih rest.length (by omega) (fun closed => unclosed (.brace closed)) behind
            (by omega : rest.length + 1 < fuel) rfl
          have place : (f.look.next.look.append blocks 123).next.offset + rest.length + 1 = f.offset + n + 1 := by
            simp only [next, look, append]
            omega
          exact place ▸ member
        · have single : format (f.offset + 1) ≠ 123 := by
            cases rest with
            | nil =>
              have zero : format (f.offset + 1) = 0 := string.zero
              rw [zero]
              decide
            | cons c rest =>
              rw [string.stored.2.1]
              exact fun same => again (congrArg some same)
          by_cases close : (125 : UInt8) ∈ rest
          · obtain ⟨inside, rest, rfl, within⟩ := List.eq_append_cons_of_mem close
            rw [List.length_append, List.length_cons] at length enough
            have head : inside.head? ≠ some 123 := by
              intro same
              obtain ⟨inside, rfl⟩ := List.head?_eq_some_iff.mp same
              exact again rfl
            obtain ⟨g, passes, place, behind, -⟩ := @loop_passes blocks signedChar format args fuel inside rest f string head
              within (by omega)
            have member := ih rest.length (by omega) (fun closed => unclosed (.placeholder head within closed)) behind
              (by omega : rest.length + 1 < fuel) rfl
            have same : g.offset + rest.length + 1 = f.offset + n + 1 := by omega
            rw [passes]
            exact same ▸ member
          · obtain ⟨fuel, rfl⟩ := Nat.exists_eq_add_one_of_ne_zero (by omega : fuel ≠ 0)
            have behind : CString format f.look.next.look.offset rest := string.drop (x := [123])
            have offset := @placeholder_open blocks signedChar format args (fuel + 1) 0 rest f.look.next.look behind close (by omega)
            rw [loop_placeholder string.stored.1 single]
            apply loop_looks
            have place : (placeholder blocks signedChar format args (fuel + 1) 0 f.look.next.look).next.offset = f.offset + n + 1 := by
              change (placeholder blocks signedChar format args (fuel + 1) 0 f.look.next.look).offset + 1 = _
              rw [offset]
              simp only [next, look]
              omega
            exact place ▸ List.mem_cons_self
      · have solid : ¬ 0 = c := fun zero => string.solid (zero ▸ List.mem_cons_self)
        rw [loop_char string.stored.1 solid brace]
        have behind : CString format (f.look.append blocks c).next.offset rest := string.drop (x := [c])
        have member := ih rest.length (by omega) (fun closed => unclosed (.char brace closed)) behind
          (by omega : rest.length + 1 < fuel) rfl
        have place : (f.look.append blocks c).next.offset + rest.length + 1 = f.offset + n + 1 := by
          simp only [next, look, append]
          omega
        exact place ▸ member

end Formatting

/-! ## What is appended -/

section
variable {blocks : Blocks} {signedChar : Bool} {format : Nat → UInt8} {args : List Argument} {fuel i : Nat}
  {f : Formatting} {digits before : List UInt8} {used : List Nat} {texts : Nat → List UInt8} {cache : Nat → StringView}
  {l l' : CharList}

theorem le_number (digits : List UInt8) (i : Nat) : i ≤ digits.foldl (fun n d => n * 10 + (d.toNat - 48)) i := by
  induction digits generalizing i with
  | nil => exact Nat.le_refl i
  | cons d digits ih => exact Nat.le_trans (show i ≤ i * 10 + (d.toNat - 48) by omega) (ih _)

/-- A number that is not too large is computed as it is. -/
theorem foldl_nextIndex (decimal : ∀ d ∈ digits, 48 ≤ d ∧ d ≤ 57)
    (word : digits.foldl (fun n d => n * 10 + (d.toNat - 48)) i < 2 ^ 64) :
    digits.foldl (nextIndex signedChar) i = digits.foldl (fun n d => n * 10 + (d.toNat - 48)) i := by
  induction digits generalizing i with
  | nil => rw [List.foldl_nil, List.foldl_nil]
  | cons d digits ih =>
    obtain ⟨here, later⟩ := List.forall_mem_cons.mp decimal
    have low : 48 ≤ d.toNat := UInt8.le_iff_toNat_le.mp here.1
    have high : d.toNat ≤ 57 := UInt8.le_iff_toNat_le.mp here.2
    have small := Nat.lt_of_le_of_lt (le_number digits (i * 10 + (d.toNat - 48))) word
    have next : nextIndex signedChar i d = i * 10 + (d.toNat - 48) := by
      rw [nextIndex, charWord_small (by omega)]
      omega
    rw [List.foldl_cons, List.foldl_cons, next]
    exact ih later word

theorem Formatting.argument_none (lost : f.s = none) : (f.argument blocks args i).s = none := by
  unfold argument
  rw [lost]
  exact lost

theorem Formatting.placeholder_none (lost : f.s = none) : (placeholder blocks signedChar format args fuel i f).s = none := by
  induction fuel generalizing i f with
  | zero => exact lost
  | succ fuel ih =>
    unfold placeholder
    simp only
    split
    · exact lost
    · split
      · split
        · exact lost
        · exact argument_none lost
      · exact ih lost

theorem Formatting.loop_none (lost : f.s = none) : (loop blocks signedChar format args fuel f).s = none := by
  induction fuel generalizing f with
  | zero => exact lost
  | succ fuel ih =>
    have append : ∀ (c : UInt8) {g : Formatting}, g.s = none → (g.append blocks c).s = none := fun c g lost => by
      rw [Formatting.append, lost]
      rfl
    unfold loop
    simp only
    split
    · exact lost
    · split
      · split
        · exact ih (append 123 lost)
        · exact ih (placeholder_none lost)
      · exact ih (append _ lost)

theorem data_length (l : CharList) : l.data.length = l.dataLen := by rw [CharList.data, List.length_map, List.length_range]

theorem ran_data {steps : List Step} (ran : Ran blocks steps l l') : l'.data = l.data ++ written steps := by
  apply List.ext_getElem?
  intro k
  have grown := ran.dataLen
  rcases Nat.lt_or_ge k l.dataLen with inside | behind
  · rw [List.getElem?_append_left (by rwa [data_length]), CharList.data, CharList.data, List.getElem?_map, List.getElem?_map,
      List.getElem?_range inside, List.getElem?_range (by omega)]
    exact congrArg some (ran.front k inside)
  · rw [List.getElem?_append_right (by rwa [data_length]), data_length, CharList.data, List.getElem?_map]
    rcases Nat.lt_or_ge k l'.dataLen with before | out
    · rw [List.getElem?_range before]
      exact (ran.data k behind before).symm
    · rw [List.getElem?_eq_none (by rwa [List.length_range]), List.getElem?_eq_none (by omega)]
      rfl

/-- The texts that were written stand where the cache says. -/
structure Cached (texts : Nat → List UInt8) (cache : Nat → StringView) (l : CharList) : Prop where
  len : ∀ i, (cache i).len = (texts i).length
  stored : ∀ i, texts i ≠ [] → (cache i).idx + (texts i).length ≤ l.dataLen ∧ Lib.Stored l.buf (cache i).idx (texts i)

theorem Cached.ran {steps : List Step} (cached : Cached texts cache l) (ran : Ran blocks steps l l') :
    Cached texts cache l' where
  len := cached.len
  stored i some' := by
    obtain ⟨inside, stored⟩ := cached.stored i some'
    have grown := ran.dataLen
    refine ⟨by omega, stored_of_getElem fun k below => ?_⟩
    rw [ran.front _ (by omega)]
    exact stored.getElem k below

/-- The first time, the argument does its steps, and the cache has the place. -/
theorem Cached.written {steps : List Step} (cached : Cached texts cache l) (ran : Ran blocks steps l l') (i : Nat) :
    Cached (Function.update texts i (written steps)) (Function.update cache i ⟨l.dataLen, l'.dataLen - l.dataLen⟩) l' := by
  have grown := ran.dataLen
  have before := cached.ran ran
  refine ⟨fun k => ?_, fun k some' => ?_⟩
  · by_cases same : k = i
    · subst same
      rw [Function.update_self, Function.update_self]
      simp only
      omega
    · rw [Function.update_of_ne same, Function.update_of_ne same]
      exact before.len k
  · by_cases same : k = i
    · subst same
      rw [Function.update_self, Function.update_self]
      refine ⟨by simp only; omega, stored_of_getElem fun j below => ?_⟩
      have data := ran.data (l.dataLen + j) (Nat.le_add_right _ _) (by omega)
      rw [Nat.add_sub_cancel_left] at data
      exact ((List.getElem_eq_iff below).mpr data).symm
    · rw [Function.update_of_ne same] at some' ⊢
      rw [Function.update_of_ne same]
      exact before.stored k some'

/-- A copy out of the buffer itself, after it may have moved. -/
theorem copy_eq {idx : Nat} {text : List UInt8} (inside : idx + text.length ≤ l.dataLen) (stored : Lib.Stored l.buf idx text) :
    ((if (l.dataLen + text.length) % 2 ^ 64 > l.bufLen then l.reserve blocks ((l.dataLen + text.length) % 2 ^ 64) else some l).bind
      fun l => l.append ((List.range text.length).map fun k => l.buf (idx + k))) =
        run blocks [.reserve text.length, .append text] l := by
  have reserved : (if (l.dataLen + text.length) % 2 ^ 64 > l.bufLen then
      l.reserve blocks ((l.dataLen + text.length) % 2 ^ 64) else some l) =
        l.reserve blocks ((l.dataLen + text.length) % 2 ^ 64) := by
    unfold CharList.reserve
    split <;> simp_all
  rw [reserved, run, Step.run]
  cases moved : l.reserve blocks ((l.dataLen + text.length) % 2 ^ 64) with
  | none => rfl
  | some l₁ =>
    have kept : Lib.Stored l₁.buf idx text := by
      rcases reserve_cases moved with ⟨-, rfl⟩ | ⟨-, -, rfl⟩
      · exact stored
      · exact stored_of_getElem fun k below => (if_pos (by omega)).trans (stored.getElem k below)
    rw [Option.bind_some, Option.bind_some, kept.map_range, run, Step.run]
    cases l₁.append text <;> rfl

/-- An argument that stands in the cache is copied, from wherever the block is by then. -/
theorem Formatting.argument_run (string : f.s = some l) (cached : Cached texts f.cache l) :
    (f.argument blocks args i).s = run blocks (argSteps args texts l.data i) l ∧
      ∀ l', (f.argument blocks args i).s = some l' →
        Cached (Function.update texts i (written (argSteps args texts l.data i))) (f.argument blocks args i).cache l' := by
  unfold argument argSteps
  rw [string]
  simp only
  by_cases copied : texts i ≠ []
  · obtain ⟨inside, stored⟩ := cached.stored i copied
    have some' : (f.cache i).len ≠ 0 := by
      rw [cached.len]
      exact fun empty => copied (List.length_eq_zero_iff.mp empty)
    have copy := @copy_eq blocks l _ _ inside stored
    have same : written [.reserve (texts i).length, .append (texts i)] = texts i := by simp
    rw [if_pos copied, if_pos some', cached.len, same, Function.update_eq_self]
    exact ⟨copy, fun l' done => cached.ran (run_ran (copy.symm.trans done))⟩
  · have len : (f.cache i).len = 0 := by
      rw [cached.len, not_not.mp copied]
      rfl
    rw [if_neg copied, if_neg (not_not.mpr len)]
    cases runs : run blocks ((args.getD i (.value [])).steps l.data) l with
    | none => exact ⟨rfl, fun l' lost => by cases lost⟩
    | some l' =>
      refine ⟨rfl, fun l'' same => ?_⟩
      cases same
      exact cached.written (run_ran runs) i

/-- A string without a block stays so; else the loop goes on with what the first steps left. -/
theorem Formatting.loop_then {g : Formatting} {first rest : List Step} (step : g.s = run blocks first l)
    (later : ∀ l', g.s = some l' → Ran blocks first l l' → l'.data = l.data ++ CharList.written first →
      (loop blocks signedChar format args fuel g).s = run blocks rest l') :
    (loop blocks signedChar format args fuel g).s = run blocks (first ++ rest) l := by
  rw [run_append, ← step]
  cases string : g.s with
  | none => exact loop_none string
  | some l' =>
    have ran := run_ran (step.symm.trans string)
    exact later l' string ran (ran_data ran)

theorem not_mem_digits {c : UInt8} (decimal : ∀ d ∈ digits, 48 ≤ d ∧ d ≤ 57) (out : c < 48 ∨ 57 < c) : c ∉ digits := by
  intro member
  have range := decimal c member
  rcases out with low | high
  · exact absurd range.1 (UInt8.not_le.mpr low)
  · exact absurd range.2 (UInt8.not_le.mpr high)

/-- The loop does the steps of the pieces. -/
theorem Formatting.loop_pieces {pieces : List Piece} (few : args.length ≤ 2 ^ 64) (valid : ∀ p ∈ pieces, p.Valid args.length)
    (source : CString format f.offset (pieces.flatMap Piece.source)) (enough : (pieces.flatMap Piece.source).length < fuel)
    (string : f.s = some l) (cached : Cached texts f.cache l) :
    (loop blocks signedChar format args fuel f).s = run blocks (formatSteps args texts l.data pieces) l := by
  induction pieces generalizing f l texts fuel with
  | nil =>
    obtain ⟨fuel, rfl⟩ := Nat.exists_eq_add_one_of_ne_zero (Nat.ne_zero_of_lt enough)
    rw [loop_end source.zero]
    exact string
  | cons p pieces ih =>
    obtain ⟨fuel, rfl⟩ := Nat.exists_eq_add_one_of_ne_zero (Nat.ne_zero_of_lt enough)
    obtain ⟨here, later⟩ := List.forall_mem_cons.mp valid
    rw [List.flatMap_cons, List.length_append] at enough
    rw [List.flatMap_cons] at source
    have rest := source.drop
    cases p with
    | char c =>
      rw [loop_char source.stored.1 (Ne.symm here.1) here.2]
      simp only [Piece.source, List.length_singleton] at enough rest
      have step : (f.look.append blocks c).next.s = run blocks [.reserve 1, .append [c]] l :=
        congrArg (·.bind (run blocks [.reserve 1, .append [c]])) string
      refine loop_then step fun l' same ran grown => ?_
      exact grown ▸ ih later rest (by omega) same (cached.ran ran)
    | brace =>
      rw [loop_brace source.stored.1 source.stored.2.1]
      simp only [Piece.source, List.length_cons, List.length_nil] at enough rest
      have step : (f.look.next.look.append blocks 123).next.s = run blocks [.reserve 1, .append [123]] l :=
        congrArg (·.bind (run blocks [.reserve 1, .append [123]])) string
      refine loop_then step fun l' same ran grown => ?_
      exact grown ▸ ih later rest (by omega) same (cached.ran ran)
    | arg digits =>
      obtain ⟨-, decimal, below⟩ := here
      have stored : Lib.Stored format f.look.next.look.offset (digits ++ [125]) := (stored_append.mp source.stored).1.2
      have brace : 123 ∉ digits := not_mem_digits decimal (.inr (by decide))
      have single : format (f.offset + 1) ≠ 123 := first_ne stored fun same => brace (List.mem_of_head? same)
      simp only [Piece.source, List.length_cons, List.length_append, List.length_nil] at enough rest
      obtain ⟨seen, -, run⟩ := @placeholder_closed blocks signedChar format args fuel 0 digits f.look.next.look stored
        (not_mem_digits decimal (.inr (by decide))) (not_mem_digits decimal (.inl (by decide))) (by omega)
      -- the number is that of the argument
      have value : digits.foldl (nextIndex signedChar) 0 = number digits :=
        foldl_nextIndex decimal (Nat.lt_of_lt_of_le below few)
      rw [value] at run
      simp only [if_neg (Nat.not_le.mpr below)] at run
      rw [loop_placeholder source.stored.1 single, run]
      obtain ⟨step, cached'⟩ := @argument_run blocks args (number digits)
        { f.look.next.look with offset := f.look.next.look.offset + digits.length, seen := seen } texts l string cached
      refine loop_then step fun l' same _ grown => ?_
      refine grown ▸ ih later ?_ (by omega) same (cached' l' same)
      have place : f.offset + (digits.length + (0 + 1) + 1) = f.offset + 1 + digits.length + 1 := by omega
      rw [place] at rest
      simp only [next, argument_offset]
      exact rest

end

@[simp] theorem written_concat (first second : List Step) : written (first ++ second) = written first ++ written second :=
  List.flatMap_append

/-- What a run appends is right, if and only if the text is. -/
theorem inPlace_ran {blocks : Blocks} {steps : List Step} {l l' : CharList} (ran : Ran blocks steps l l') (text : List UInt8) :
    InPlace l l.dataLen text l' ↔ written steps = text := by
  have grown := ran.dataLen
  constructor
  · intro inPlace
    have length := inPlace.dataLen
    apply List.ext_getElem?
    intro k
    rcases Nat.lt_or_ge k text.length with inside | out
    · have appended := ran.data (l.dataLen + k) (Nat.le_add_right _ _) (by omega)
      have asked := inPlace.written (l.dataLen + k) (Nat.le_add_right _ _) (by omega)
      rw [Nat.add_sub_cancel_left] at appended asked
      rw [appended, asked]
    · rw [List.getElem?_eq_none out, List.getElem?_eq_none (by omega)]
  · rintro rfl
    refine ⟨by omega, fun i behind before => ran.data i behind (by omega), fun i inside _ => ran.front i inside⟩

/-! ## Steady arguments -/

section
variable {args : List Argument} {data before : List UInt8} {used : List Nat} {texts : Nat → List UInt8}

/-- The arguments `used` were written as they are at the beginning. -/
def Told (args : List Argument) (data : List UInt8) (used : List Nat) (texts : Nat → List UInt8) : Prop :=
  ∀ i, texts i = if i ∈ used then argText args data i else []

theorem Told.use (told : Told args data used texts) (i : Nat) :
    Told args data (i :: used) (Function.update texts i (argText args data i)) := by
  intro k
  by_cases same : k = i
  · subst same
    rw [Function.update_self, if_pos List.mem_cons_self]
  · rw [Function.update_of_ne same, told k]
    simp [same]

/-- An argument is written as it is at the beginning, or it is the string itself, and longer. -/
theorem Told.argSteps_cases (told : Told args data used texts) (before : List UInt8) (i : Nat) :
    (args[i]? = some .itself → before = [] ∨ i ∈ used ∧ data ≠ []) ∧
        written (argSteps args texts (data ++ before) i) = argText args data i ∨
      ¬ (args[i]? = some .itself → before = [] ∨ i ∈ used ∧ data ≠ []) ∧
        (argText args data i).length < (written (argSteps args texts (data ++ before) i)).length := by
  have itself : args[i]? = some .itself → ∀ now, argText args now i = now := fun found now => by
    rw [argText, List.getD_eq_getElem?_getD, found]
    exact List.append_nil now
  unfold argSteps
  by_cases copied : texts i = []
  · rw [if_neg (not_not.mpr copied)]
    change _ ∧ argText args (data ++ before) i = _ ∨ _ ∧ _ < (argText args (data ++ before) i).length
    by_cases found : args[i]? = some .itself
    · rw [itself found, itself found, List.append_right_eq_self]
      by_cases first : before = []
      · exact .inl ⟨fun _ => .inl first, first⟩
      · refine .inr ⟨fun steady => ?_, ?_⟩
        · rcases steady found with none | ⟨member, some'⟩
          · exact first none
          · have stored := told i
            rw [copied, if_pos member, itself found] at stored
            exact some' stored.symm
        · rw [List.length_append]
          exact Nat.lt_add_of_pos_right (List.length_pos_iff.mpr first)
    · refine .inl ⟨fun same => absurd same found, ?_⟩
      rw [argText, argText, List.getD_eq_getElem?_getD]
      cases value : args[i]? with
      | none => rfl
      | some a =>
        cases a with
        | value steps => rfl
        | itself => exact absurd value found
  · rw [if_pos copied]
    have stored := told i
    have member : i ∈ used := by
      by_contra out
      exact copied (stored.trans (if_neg out))
    rw [if_pos member] at stored
    refine .inl ⟨fun found => .inr ⟨member, ?_⟩, by simp [stored]⟩
    rwa [← itself found data, ← stored]

/-- What was written is no shorter than at the beginning. -/
def Longer (args : List Argument) (data : List UInt8) (texts : Nat → List UInt8) : Prop :=
  ∀ i, texts i = [] ∨ (argText args data i).length ≤ (texts i).length

theorem Told.longer (told : Told args data used texts) : Longer args data texts := by
  intro i
  rw [told i]
  split
  · exact .inr (Nat.le_refl _)
  · exact .inl rfl

theorem Longer.argSteps (longer : Longer args data texts) (before : List UInt8) (i : Nat) :
    (argText args data i).length ≤ (written (argSteps args texts (data ++ before) i)).length := by
  unfold Uv4.argSteps
  by_cases copied : texts i = []
  · rw [if_neg (not_not.mpr copied), argText]
    cases args.getD i (.value []) with
    | value steps => exact Nat.le_refl _
    | itself => simp [Argument.steps]
  · rw [if_pos copied]
    simpa using (longer i).resolve_left copied

theorem Longer.use (longer : Longer args data texts) (before : List UInt8) (i : Nat) :
    Longer args data (Function.update texts i (written (Uv4.argSteps args texts (data ++ before) i))) := by
  intro k
  by_cases same : k = i
  · subst same
    rw [Function.update_self]
    exact .inr (longer.argSteps before k)
  · rw [Function.update_of_ne same]
    exact longer k

theorem Longer.formatSteps (longer : Longer args data texts) (before : List UInt8) (pieces : List Piece) :
    (pieces.flatMap (Piece.text args data)).length ≤ (written (formatSteps args texts (data ++ before) pieces)).length := by
  induction pieces generalizing texts before with
  | nil => exact Nat.le_refl 0
  | cons p pieces ih =>
    rw [List.flatMap_cons, List.length_append]
    cases p with
    | char c =>
      rw [Uv4.formatSteps, written_concat, List.length_append, List.append_assoc]
      exact Nat.add_le_add (Nat.le_refl 1) (ih longer _)
    | brace =>
      rw [Uv4.formatSteps, written_concat, List.length_append, List.append_assoc]
      exact Nat.add_le_add (Nat.le_refl 1) (ih longer _)
    | arg digits =>
      rw [Uv4.formatSteps, written_concat, List.length_append, List.append_assoc]
      exact Nat.add_le_add (longer.argSteps before _) (ih (longer.use before _) _)

/-- The text is that of the pieces, if and only if the arguments are steady. -/
theorem Told.written_formatSteps (told : Told args data used texts) (before : List UInt8) (pieces : List Piece) :
    written (formatSteps args texts (data ++ before) pieces) = pieces.flatMap (Piece.text args data) ↔
      Steady args data used before pieces := by
  induction pieces generalizing used texts before with
  | nil => exact iff_of_true rfl trivial
  | cons p pieces ih =>
    rw [List.flatMap_cons]
    cases p with
    | char c =>
      rw [formatSteps, written_concat, List.append_assoc]
      exact (List.append_right_inj [c]).trans (ih told _)
    | brace =>
      rw [formatSteps, written_concat, List.append_assoc]
      exact (List.append_right_inj [123]).trans (ih told _)
    | arg digits =>
      rw [formatSteps, written_concat, List.append_assoc, Steady]
      rcases told.argSteps_cases before (number digits) with ⟨steady, same⟩ | ⟨unsteady, more⟩
      · rw [same]
        exact (List.append_right_inj _).trans ((ih (told.use _) _).trans (and_iff_right steady).symm)
      · -- what comes later does not make up for the length
        refine iff_of_false (fun equal => ?_) fun both => unsteady both.1
        have lengths := congrArg List.length equal
        have later := (told.longer.use before (number digits)).formatSteps
          (before ++ written (argSteps args texts (data ++ before) (number digits))) pieces
        rw [List.length_append, List.length_append, Piece.text] at lengths
        omega

/-- Values are steady. -/
theorem steady_of_values (values : .itself ∉ args) (used : List Nat) (before : List UInt8) (pieces : List Piece) :
    Steady args data used before pieces := by
  induction pieces generalizing used before with
  | nil => trivial
  | cons p pieces ih =>
    cases p with
    | char c => exact ih used _
    | brace => exact ih used _
    | arg digits => exact ⟨fun found => absurd (List.mem_of_getElem? found) values, ih _ _⟩

/-- A format reserves what it appends, if its arguments do. -/
theorem covers_formatSteps (covers : ∀ steps, .value steps ∈ args → Covers steps) (texts : Nat → List UInt8) (data : List UInt8)
    (pieces : List Piece) : Covers (formatSteps args texts data pieces) := by
  have arg : ∀ texts data i, Covers (argSteps args texts data i) := by
    intro texts data i
    unfold argSteps
    split
    · exact covers_copy (Nat.le_refl _)
    · rw [List.getD_eq_getElem?_getD]
      cases found : args[i]? with
      | none => exact covers_nil
      | some a =>
        cases a with
        | value steps => exact covers steps (List.mem_of_getElem? found)
        | itself => exact covers_copy (Nat.le_refl _)
  induction pieces generalizing texts data with
  | nil => exact covers_nil
  | cons p pieces ih =>
    cases p with
    | char c => exact (covers_copy (Nat.le_refl 1)).append (ih _ _)
    | brace => exact (covers_copy (Nat.le_refl 1)).append (ih _ _)
    | arg digits => exact (arg _ _ _).append (ih _ _)

end

/-- The loops look behind the end of the format, if and only if a brace is not closed. Any format of pieces has its text
appended, if and only if no argument is the string itself with more text. There have to be the blocks. -/
theorem appendFormat_spec (blocks : Blocks) (signedChar : Bool) (args : List Argument) (few : args.length ≤ 2 ^ 64)
    (l : CharList) (format : Nat → UInt8) (text : List UInt8) (string : CString format 0 text) :
    ((∀ rounds, text.length + 1 < rounds → ∀ k ∈ (l.appendFormat blocks signedChar rounds format args).seen, k ≤ text.length) ↔
      Closed text) ∧
    ∀ pieces, (∀ p ∈ pieces, p.Valid args.length) → text = pieces.flatMap Piece.source → ∀ rounds, text.length < rounds →
      ((∃ l', (l.appendFormat blocks signedChar rounds format args).s = some l') ↔
        Room l.bufLen l.dataLen (formatSteps args (fun _ => []) l.data pieces)) ∧
      ∀ l', (l.appendFormat blocks signedChar rounds format args).s = some l' →
        (InPlace l l.dataLen (pieces.flatMap (Piece.text args l.data)) l' ↔ Steady args l.data [] [] pieces) := by
  unfold appendFormat
  refine ⟨⟨fun inside => ?_, fun closed rounds enough k member => ?_⟩, ?_⟩
  · by_contra unclosed
    have beyond := inside (text.length + 2) (by omega) _ (Formatting.loop_open (f := { s := some l }) unclosed string (by omega))
    simp only at beyond
    omega
  · rcases Formatting.loop_closed (f := { s := some l }) closed string (by omega) k member with before | below
    · cases before
    · simp only at below
      omega
  · rintro pieces valid rfl rounds enough
    have fresh : Cached (fun _ => []) (fun _ => {}) l := ⟨fun _ => rfl, fun _ some' => absurd rfl some'⟩
    rw [Formatting.loop_pieces (f := { s := some l }) few valid string enough rfl fresh]
    refine ⟨run_some_iff _ _ _, fun l' runs => (inPlace_ran (run_ran runs) _).trans ?_⟩
    have told : Told args l.data [] (fun _ => []) := fun i => (if_neg List.not_mem_nil).symm
    have steady := told.written_formatSteps [] pieces
    rwa [List.append_nil] at steady

/-- Two arguments, the one twice and the other one empty, go into a string without a block. -/
theorem appendFormat_spec_two :
    let format := memory [97, 123, 48, 125, 123, 123, 123, 48, 125, 123, 49, 125, 0] fun _ => 7
    let args : List Argument := [.value [.reserve 4, .append [49, 50]], .value []]
    (∀ rounds, 13 < rounds → ∀ k ∈ (CharList.appendFormat (fun _ _ => 0) true rounds format args ⟨fun _ => 0, 0, 0⟩).seen,
      k ≤ 12) ∧
    ∀ rounds, 12 < rounds → ∃ l', (CharList.appendFormat (fun _ _ => 0) true rounds format args ⟨fun _ => 0, 0, 0⟩).s = some l' ∧
      InPlace ⟨fun _ => 0, 0, 0⟩ 0 [97, 49, 50, 123, 49, 50] l' := by
  intro format args
  have string := (memory_stored ([97, 123, 48, 125, 123, 123, 123, 48, 125, 123, 49, 125] ++ [0]) fun _ => 7).cstring
  obtain ⟨seen, appended⟩ := appendFormat_spec (fun _ _ => 0) true args (by decide) ⟨fun _ => 0, 0, 0⟩ format _ string
  have closed : Closed [97, 123, 48, 125, 123, 123, 123, 48, 125, 123, 49, 125] :=
    .char (by decide) (@Closed.placeholder [48] _ (by decide) (by decide) (.brace (@Closed.placeholder [48] _ (by decide) (by decide)
      (@Closed.placeholder [49] _ (by decide) (by decide) .nil))))
  refine ⟨seen.mpr closed, fun rounds enough => ?_⟩
  obtain ⟨iff, text⟩ := appended [.char 97, .arg [48], .brace, .arg [48], .arg [49]]
    (by simp [Piece.Valid, number, args]) rfl rounds enough
  have covers := @covers_formatSteps args (fun steps member => by
    rcases List.mem_cons.mp member with same | member
    · cases same
      exact covers_copy (by decide)
    · cases List.mem_singleton.mp member
      exact covers_nil) (fun _ => []) [] [.char 97, .arg [48], .brace, .arg [48], .arg [49]]
  have covered := covers 0 [] trivial
  rw [List.append_nil] at covered
  obtain ⟨l', done⟩ := iff.mpr (covered.room (Nat.le_refl 0) (by decide))
  exact ⟨l', done, (text l' done).mpr (steady_of_values (by simp [args]) _ _ _)⟩

/-- The string itself is written as it is by then. -/
example : (CharList.appendFormat (fun _ _ => 0) true 6 (memory [120, 123, 48, 125, 0] fun _ => 0) [.itself]
    ⟨fun _ => 98, 24, 1⟩).s.map CharList.data = some [98, 120, 98, 120] := by
  decide

/-- A brace that is not closed takes the loop past the zero, to what stands behind it. -/
theorem format_overrun :
    let format := memory [123, 0, 97, 0] fun _ => 0
    let result := CharList.appendFormat (fun _ _ => 0) true 4 format [.value []] ⟨fun _ => 0, 0, 0⟩
    CString format 0 [123] ∧ ¬ (∀ k ∈ result.seen, k ≤ 1) ∧ result.s.map CharList.data = some [97] := by
  refine ⟨⟨⟨rfl, trivial⟩, by decide, rfl⟩, ?_, ?_⟩
  · decide
  · decide

end Xxlib.Uv4
