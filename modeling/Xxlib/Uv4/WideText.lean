import Xxlib.Lib.Utf8
import Xxlib.Uv4.FormatText

/-! Wide characters that become a `String` (`xx_string.hpp`, `xx_charsutils.hpp`, with `ToUtf8` of `xx_charsutils.h`).

A `wchar_t` has 32 bits. What is written behind the block has no result.
-/

set_option autoImplicit false

namespace Xxlib.Uv4

open Lib CharList

/-! ## Writers -/

def toUtf8 (c : UInt32) : List UInt8 :=
  if c < 0x00080 then [(c &&& 0xFF).toUInt8]
  else if c < 0x00800 then [(0xC0 : UInt8) + ((c >>> 6) &&& 0x1F).toUInt8, (0x80 : UInt8) + (c &&& 0x3F).toUInt8]
  else if c < 0x10000 then
    [(0xE0 : UInt8) + ((c >>> 12) &&& 0x0F).toUInt8, (0x80 : UInt8) + ((c >>> 6) &&& 0x3F).toUInt8,
      (0x80 : UInt8) + (c &&& 0x3F).toUInt8]
  else
    [(0xF0 : UInt8) + ((c >>> 18) &&& 0x07).toUInt8, (0x80 : UInt8) + ((c >>> 12) &&& 0x3F).toUInt8,
      (0x80 : UInt8) + ((c >>> 6) &&& 0x3F).toUInt8, (0x80 : UInt8) + (c &&& 0x3F).toUInt8]

namespace CharList

/-- A write at a place, which need not be where the data end. -/
def poke (i : Nat) (bytes : List UInt8) (l : CharList) : Option CharList :=
  if i + bytes.length ≤ l.bufLen then
    some { l with buf := fun j => if j < i then l.buf j else bytes.getD (j - i) (l.buf j) }
  else none

/-- `dataLen += ToUtf8(buf + i, ws[i])` for the characters from `i` on. -/
def wideLoop : List UInt32 → Nat → CharList → Option CharList
  | [], _, l => some l
  | c :: ws, i, l =>
      (l.poke i (toUtf8 c)).bind fun l => wideLoop ws (i + 1) { l with dataLen := l.dataLen + (toUtf8 c).length }

section
variable (blocks : Blocks)

/-- `Reserve(len * 3)`, and the loop if there is an array. -/
def fillWide (ws : Option (List UInt32)) (len : Nat) (l : CharList) : Option CharList :=
  (l.reserve blocks (len * 3 % 2 ^ 64)).bind fun l =>
    match ws with
    | none => some l
    | some ws => wideLoop (ws.take len) 0 l

/-- `String(mempool, ws, len)` -/
def ofWide (ws : Option (List UInt32)) (len : Nat) : Option CharList := fillWide blocks ws len ⟨fun _ => 0, 0, 0⟩

/-- `Assign(ws, len)` -/
def assignWide (ws : Option (List UInt32)) (len : Nat) (l : CharList) : Option CharList :=
  fillWide blocks ws len { l with dataLen := 0 }

end

end CharList

/-- `StrFunc<wchar_t>::WriteTo` -/
def wcharSteps (c : UInt32) : List Step := [.reserve 3, .append (toUtf8 c)]

/-- The loop over what a pointer points to, for so many rounds. Its `i` stays 0. -/
def CharList.widePtrLoop (blocks : Blocks) (memory : Nat → UInt32) : Nat → CharList → Option CharList
  | 0, _ => none
  | rounds + 1, l =>
      let c := memory 0
      if c = 0 then some l else (run blocks (wcharSteps c) l).bind (widePtrLoop blocks memory rounds)

/-- `StrFunc<wchar_t const*>::WriteTo`, and that of `wchar_t*`. -/
def CharList.appendWidePtr (blocks : Blocks) (memory : Option (Nat → UInt32)) (rounds : Nat) (l : CharList) : Option CharList :=
  match memory with
  | none => some l
  | some memory => l.widePtrLoop blocks memory rounds

/-- `StrFunc<wchar_t[len]>::WriteTo`, for the characters before the last one of the array. -/
def wideArraySteps (chars : List UInt32) : List Step :=
  .reserve (chars.length * 3) :: chars.map fun c => .append (toUtf8 c)

/-! ## Texts -/

def utf8 (ws : List UInt32) : List UInt8 := ws.flatMap fun c => Utf8.encode c.toNat

theorem toNat_group {mask : UInt32} {bits : Nat} (ones : mask.toNat = 2 ^ bits - 1) (byte : bits ≤ 8) (c : UInt32) :
    (c &&& mask).toUInt8.toNat = c.toNat % 2 ^ bits := by
  have below : c.toNat % 2 ^ bits < 2 ^ 8 :=
    Nat.lt_of_lt_of_le (Nat.mod_lt _ (Nat.two_pow_pos bits)) (Nat.pow_le_pow_right (by decide) byte)
  rw [UInt32.toNat_toUInt8, UInt32.toNat_and, ones, Nat.and_two_pow_sub_one_eq_mod, Nat.mod_eq_of_lt below]

theorem group_eq (base : UInt8) {mask : UInt32} {bits : Nat} (ones : mask.toNat = 2 ^ bits - 1) (byte : bits ≤ 8) (c : UInt32) :
    base + (c &&& mask).toUInt8 = UInt8.ofNat (base.toNat + c.toNat % 2 ^ bits) := by
  apply UInt8.toNat_inj.mp
  rw [UInt8.toNat_add, UInt8.toNat_ofNat', toNat_group ones byte]

theorem toNat_shifted (c : UInt32) {shift : UInt32} (inside : shift.toNat < 32) : (c >>> shift).toNat = c.toNat / 2 ^ shift.toNat := by
  rw [UInt32.toNat_shiftRight, Nat.mod_eq_of_lt inside, Nat.shiftRight_eq_div_pow]

theorem toUtf8_eq {c : UInt32} (valid : c < 0x110000) : toUtf8 c = Utf8.encode c.toNat := by
  have bound : c.toNat < 0x110000 := UInt32.lt_iff_toNat_lt.mp valid
  have low : (0x80 : UInt8) + (c &&& 0x3F).toUInt8 = UInt8.ofNat (0x80 + c.toNat % 64) :=
    @group_eq 0x80 0x3F 6 rfl (by decide) c
  have middle : (0x80 : UInt8) + ((c >>> 6) &&& 0x3F).toUInt8 = UInt8.ofNat (0x80 + c.toNat / 64 % 64) := by
    rw [@group_eq 0x80 0x3F 6 rfl (by decide), @toNat_shifted c 6 (by decide)]
    rfl
  unfold toUtf8 Utf8.encode
  simp only [UInt32.lt_iff_toNat_lt]
  change (if c.toNat < 0x80 then _ else if c.toNat < 0x800 then _ else if c.toNat < 0x10000 then _ else _) = _
  split
  · have only : (c &&& 0xFF).toUInt8 = UInt8.ofNat c.toNat := by
      apply UInt8.toNat_inj.mp
      rw [@toNat_group 0xFF 8 rfl (by decide), UInt8.toNat_ofNat']
    rw [only]
  · split
    · have high : (0xC0 : UInt8) + ((c >>> 6) &&& 0x1F).toUInt8 = UInt8.ofNat (0xC0 + c.toNat / 64) := by
        rw [@group_eq 0xC0 0x1F 5 rfl (by decide), @toNat_shifted c 6 (by decide)]
        change UInt8.ofNat (0xC0 + c.toNat / 64 % 32) = _
        rw [Nat.mod_eq_of_lt (by omega)]
      rw [low, high]
    · split
      · have high : (0xE0 : UInt8) + ((c >>> 12) &&& 0x0F).toUInt8 = UInt8.ofNat (0xE0 + c.toNat / 4096) := by
          rw [@group_eq 0xE0 0x0F 4 rfl (by decide), @toNat_shifted c 12 (by decide)]
          change UInt8.ofNat (0xE0 + c.toNat / 4096 % 16) = _
          rw [Nat.mod_eq_of_lt (by omega)]
        rw [low, middle, high]
      · have upper : (0x80 : UInt8) + ((c >>> 12) &&& 0x3F).toUInt8 = UInt8.ofNat (0x80 + c.toNat / 4096 % 64) := by
          rw [@group_eq 0x80 0x3F 6 rfl (by decide), @toNat_shifted c 12 (by decide)]
          rfl
        have high : (0xF0 : UInt8) + ((c >>> 18) &&& 0x07).toUInt8 = UInt8.ofNat (0xF0 + c.toNat / 262144) := by
          rw [@group_eq 0xF0 0x07 3 rfl (by decide), @toNat_shifted c 18 (by decide)]
          change UInt8.ofNat (0xF0 + c.toNat / 262144 % 8) = _
          rw [Nat.mod_eq_of_lt (by omega)]
        rw [low, middle, upper, high]

@[simp] theorem utf8_nil : utf8 [] = [] := rfl

@[simp] theorem utf8_cons (c : UInt32) (ws : List UInt32) : utf8 (c :: ws) = Utf8.encode c.toNat ++ utf8 ws := rfl

/-- Characters are encoded as in a string. -/
theorem utf8_chars (cs : List Char) : utf8 (cs.map Char.val) = cs.flatMap String.utf8EncodeChar := by
  rw [utf8, List.flatMap_map]
  exact congrArg (fun encode => cs.flatMap encode) (funext Utf8.encode_char)

theorem written_wide {ws : List UInt32} (valid : ∀ c ∈ ws, c < 0x110000) :
    written (ws.map fun c => .append (toUtf8 c)) = utf8 ws := by
  induction ws with
  | nil => rfl
  | cons c ws ih =>
    obtain ⟨here, later⟩ := List.forall_mem_cons.mp valid
    rw [List.map_cons, written_append, ih later, toUtf8_eq here, utf8_cons]

/-! ## Room -/

/-- The block that `Reserve(capacity)` leaves. -/
def reservedLen (bufLen capacity : Nat) : Option Nat :=
  if capacity ≤ bufLen then some bufLen
  else if Allocates (newBufByteLen capacity) then some (newBufByteLen capacity)
  else none

/-- Where three bytes are reserved for every character, so many bytes have room. -/
def Takes (bufLen dataLen count size : Nat) : Prop :=
  ∃ len ∈ reservedLen bufLen ((dataLen + count * 3) % 2 ^ 64), dataLen + size ≤ len

theorem room_appends {bufLen dataLen : Nat} {texts : List (List UInt8)} (inside : texts = [] → dataLen ≤ bufLen) :
    Room bufLen dataLen (texts.map .append) ↔ dataLen + texts.flatten.length ≤ bufLen := by
  induction texts generalizing dataLen with
  | nil => exact iff_of_true trivial (inside rfl)
  | cons text texts ih =>
    rw [List.map_cons, Room, List.flatten_cons, List.length_append, ← Nat.add_assoc]
    constructor
    · rintro ⟨here, later⟩
      exact (ih fun _ => here).mp later
    · intro fits
      have here : dataLen + text.length ≤ bufLen := by omega
      exact ⟨here, (ih fun _ => here).mpr fits⟩

theorem room_reserved {bufLen dataLen count : Nat} {texts : List (List UInt8)} (inside : dataLen ≤ bufLen)
    (none : texts = [] → count = 0) :
    Room bufLen dataLen (.reserve (count * 3) :: texts.map .append) ↔ Takes bufLen dataLen count texts.flatten.length := by
  unfold Takes reservedLen
  rw [Room]
  by_cases large : (dataLen + count * 3) % 2 ^ 64 ≤ bufLen
  · rw [if_pos large, if_pos large, room_appends fun _ => inside]
    simp only [Option.mem_some, exists_eq_left']
  · rw [if_neg large, if_neg large]
    have some : texts ≠ [] := by
      rintro empty
      rw [none empty] at large
      exact large ((Nat.mod_le _ _).trans inside)
    by_cases allocates : Allocates (newBufByteLen ((dataLen + count * 3) % 2 ^ 64))
    · rw [if_pos allocates, room_appends fun empty => absurd empty some]
      simp only [allocates, true_and, Option.mem_some, exists_eq_left']
    · rw [if_neg allocates]
      refine iff_of_false (fun room => allocates room.1) ?_
      rintro ⟨len, none, -⟩
      cases none

/-- Steps that reserve three bytes for every character do what they should as far as there is room. -/
theorem wideSteps_iff (blocks : Blocks) {ws : List UInt32} (valid : ∀ c ∈ ws, c < 0x110000) {l : CharList}
    (inside : l.dataLen ≤ l.bufLen) :
    (∃ l', run blocks (wideArraySteps ws) l = some l' ∧ l'.data = l.data ++ utf8 ws) ↔
      Takes l.bufLen l.dataLen ws.length (utf8 ws).length := by
  have text : written (wideArraySteps ws) = utf8 ws := written_wide valid
  have room : Room l.bufLen l.dataLen (wideArraySteps ws) ↔ Takes l.bufLen l.dataLen ws.length (utf8 ws).length := by
    rw [← written_wide valid, written, List.flatMap_map]
    have steps : wideArraySteps ws = .reserve (ws.length * 3) :: (ws.map toUtf8).map .append := by
      rw [wideArraySteps, List.map_map]
      rfl
    rw [steps, room_reserved inside (fun empty => by rw [List.map_eq_nil_iff.mp empty]; rfl)]
    rfl
  rw [← room, ← run_some_iff blocks]
  constructor
  · rintro ⟨l', runs, -⟩
    exact ⟨l', runs⟩
  · rintro ⟨l', runs⟩
    exact ⟨l', runs, by rw [ran_data (run_ran runs), text]⟩

/-! ## Places -/

/-- With all data before its place, a write is an append. -/
theorem poke_end (bytes : List UInt8) (l : CharList) :
    (l.poke l.dataLen bytes).map (fun l => { l with dataLen := l.dataLen + bytes.length }) = l.append bytes := by
  unfold CharList.poke CharList.append
  split <;> rfl

/-- If only the last character can have more than one byte, the loop appends. -/
theorem wideLoop_run (blocks : Blocks) {ws : List UInt32} (narrow : ∀ c ∈ ws.dropLast, c < 0x80) (l : CharList) :
    wideLoop ws l.dataLen l = run blocks (ws.map fun c => .append (toUtf8 c)) l := by
  induction ws generalizing l with
  | nil => rfl
  | cons c ws ih =>
    rw [List.map_cons, run, Step.run, ← poke_end, wideLoop, Option.bind_map]
    refine Option.bind_congr fun l' poked => ?_
    cases ws with
    | nil => rfl
    | cons d ws =>
      obtain ⟨ascii, later⟩ := List.forall_mem_cons.mp (show ∀ x ∈ c :: (d :: ws).dropLast, x < 0x80 from narrow)
      have same : l'.dataLen = l.dataLen := by
        unfold CharList.poke at poked
        split at poked
        · exact (congrArg CharList.dataLen (Option.some.inj poked)).symm
        · cases poked
      have one : (toUtf8 c).length = 1 := by rw [toUtf8, if_pos ascii]; rfl
      have next := ih later { l' with dataLen := l'.dataLen + (toUtf8 c).length }
      simp only [one, same] at next
      simp only [Function.comp, one, same]
      exact next

/-- What the loop leaves: at each place the byte that begins the character, and a length. -/
structure Looped (ws : List UInt32) (i : Nat) (l l' : CharList) : Prop where
  front : ∀ j < i, l'.buf j = l.buf j
  first : ∀ (k : Nat) (c : UInt32), ws[k]? = some c → (Utf8.encode c.toNat)[0]? = some (l'.buf (i + k))
  dataLen : l'.dataLen = l.dataLen + (utf8 ws).length

theorem wideLoop_looped {ws : List UInt32} (valid : ∀ c ∈ ws, c < 0x110000) {i : Nat} {l l' : CharList}
    (done : wideLoop ws i l = some l') : Looped ws i l l' := by
  induction ws generalizing i l with
  | nil =>
    cases done
    exact ⟨fun _ _ => rfl, fun k c none => absurd none (by simp), rfl⟩
  | cons c ws ih =>
    obtain ⟨here, later⟩ := List.forall_mem_cons.mp valid
    obtain ⟨l₁, poked, rest⟩ := Option.bind_eq_some_iff.mp done
    have looped := ih later rest
    unfold CharList.poke at poked
    split at poked
    · obtain rfl := (Option.some.inj poked).symm
      obtain ⟨first, tail, shape⟩ := Utf8.encode_shape (UInt32.lt_iff_toNat_lt.mp here)
      have bytes : toUtf8 c = first :: tail := (toUtf8_eq here).trans shape.eq
      refine ⟨fun j before => ?_, fun k d at_k => ?_, ?_⟩
      · rw [looped.front j (by omega)]
        exact if_pos before
      · cases k with
        | zero =>
          cases at_k
          rw [shape.eq, looped.front (i + 0) (by omega)]
          simp [bytes]
        | succ k =>
          have next := looped.first k d at_k
          rwa [Nat.add_right_comm, Nat.add_assoc] at next
      · rw [looped.dataLen, utf8_cons, List.length_append, toUtf8_eq here, ← Nat.add_assoc]
    · cases poked

/-- A character of several bytes loses those behind the first, unless it is the last. -/
theorem narrow_of_looped {ws : List UInt32} (valid : ∀ c ∈ ws, c < 0x110000) {i : Nat} {buf : Nat → UInt8}
    (first : ∀ (k : Nat) (c : UInt32), ws[k]? = some c → (Utf8.encode c.toNat)[0]? = some (buf (i + k)))
    (text : ∀ (k : Nat) (b : UInt8), (utf8 ws)[k]? = some b → buf (i + k) = b) : ∀ c ∈ ws.dropLast, c < 0x80 := by
  induction ws generalizing i with
  | nil => exact fun c none => absurd none List.not_mem_nil
  | cons c ws ih =>
    cases ws with
    | nil => exact fun c none => absurd none List.not_mem_nil
    | cons d ws =>
      obtain ⟨here, later⟩ := List.forall_mem_cons.mp valid
      obtain ⟨head, tail, shape⟩ := Utf8.encode_shape (UInt32.lt_iff_toNat_lt.mp here)
      obtain ⟨head', tail', shape'⟩ := Utf8.encode_shape (UInt32.lt_iff_toNat_lt.mp (later d List.mem_cons_self))
      have bytes : utf8 (c :: d :: ws) = head :: (tail ++ utf8 (d :: ws)) := by rw [utf8_cons, shape.eq]; rfl
      have single : tail = [] := by
        cases tail with
        | nil => rfl
        | cons t tail =>
          have lost : buf (i + 1) = t := text 1 t (by rw [bytes]; rfl)
          have begins := first 1 d rfl
          rw [shape'.eq, lost] at begins
          cases begins
          exact absurd (shape.follow head' List.mem_cons_self) shape'.begins
      rw [single, List.nil_append] at bytes
      rw [List.dropLast_cons_cons]
      refine List.forall_mem_cons.mpr ⟨UInt32.lt_iff_toNat_lt.mpr (shape.single.mp single), ?_⟩
      refine @ih later (i + 1) (fun k e at_k => ?_) fun k b at_k => ?_
      · rw [Nat.add_assoc, Nat.add_comm 1]
        exact first (k + 1) e at_k
      · rw [Nat.add_assoc, Nat.add_comm 1]
        exact text (k + 1) b (by rw [bytes]; exact at_k)

theorem data_getElem? (l : CharList) (k : Nat) : l.data[k]? = if k < l.dataLen then some (l.buf k) else none := by
  rw [CharList.data, List.getElem?_map]
  split
  · rename_i inside
    rw [List.getElem?_range inside]
    rfl
  · rename_i out
    rw [List.getElem?_eq_none (by rw [List.length_range]; omega)]
    rfl

/-- The loop that begins in an empty list. -/
theorem fillWide_iff (blocks : Blocks) {ws : List UInt32} (valid : ∀ c ∈ ws, c < 0x110000) {l : CharList} (empty : l.dataLen = 0) :
    (∃ l', fillWide blocks (some ws) ws.length l = some l' ∧ l'.data = utf8 ws) ↔
      (∀ c ∈ ws.dropLast, c < 0x80) ∧ Takes l.bufLen 0 ws.length (utf8 ws).length := by
  have clear : l.data = [] := by rw [CharList.data, empty]; rfl
  have fills : (∀ c ∈ ws.dropLast, c < 0x80) → fillWide blocks (some ws) ws.length l = run blocks (wideArraySteps ws) l := by
    intro narrow
    rw [fillWide, wideArraySteps, run, Step.run, empty, Nat.zero_add]
    refine Option.bind_congr fun l₁ reserved => ?_
    have same : l₁.dataLen = 0 := by
      rcases reserve_cases reserved with ⟨-, rfl⟩ | ⟨-, -, rfl⟩
      · exact empty
      · exact empty
    rw [← wideLoop_run blocks narrow, same]
    change wideLoop (ws.take ws.length) 0 l₁ = _
    rw [List.take_length]
  have room := @wideSteps_iff blocks ws valid l (by omega)
  rw [clear, empty, List.nil_append] at room
  constructor
  · rintro ⟨l', filled, text⟩
    have narrow : ∀ c ∈ ws.dropLast, c < 0x80 := by
      obtain ⟨l₁, -, looped⟩ := Option.bind_eq_some_iff.mp filled
      change wideLoop (ws.take ws.length) 0 l₁ = some l' at looped
      rw [List.take_length] at looped
      refine @narrow_of_looped ws valid 0 l'.buf (wideLoop_looped valid looped).first fun k b at_k => ?_
      rw [← text, data_getElem?] at at_k
      split at at_k
      · rw [Nat.zero_add]
        exact Option.some.inj at_k
      · cases at_k
    exact ⟨narrow, room.mp ⟨l', (fills narrow).symm.trans filled, text⟩⟩
  · rintro ⟨narrow, takes⟩
    rw [fills narrow]
    exact room.mpr takes

/-- The loop over a pointer ends only if there is nothing. -/
theorem widePtrLoop_none (blocks : Blocks) {memory : Nat → UInt32} (solid : memory 0 ≠ 0) (rounds : Nat) (l : CharList) :
    widePtrLoop blocks memory rounds l = none := by
  induction rounds generalizing l with
  | zero => rfl
  | succ rounds ih =>
    rw [widePtrLoop, if_neg solid]
    exact Option.bind_eq_none_iff.mpr fun l' _ => ih l'

/-- When each way of writing wide characters gives their text. -/
theorem wide_text_iff (blocks : Blocks) {ws : List UInt32} (valid : ∀ c ∈ ws, c ≠ 0 ∧ c < 0x110000) :
    ((∃ l', ofWide blocks (some ws) ws.length = some l' ∧ l'.data = utf8 ws) ↔
        (∀ c ∈ ws.dropLast, c < 0x80) ∧ Takes 0 0 ws.length (utf8 ws).length) ∧
      ∀ l : CharList, l.dataLen ≤ l.bufLen →
        ((∃ l', assignWide blocks (some ws) ws.length l = some l' ∧ l'.data = utf8 ws) ↔
            (∀ c ∈ ws.dropLast, c < 0x80) ∧ Takes l.bufLen 0 ws.length (utf8 ws).length) ∧
          (∀ c ∈ ws, (∃ l', run blocks (wcharSteps c) l = some l' ∧ l'.data = l.data ++ utf8 [c]) ↔
            Takes l.bufLen l.dataLen 1 (utf8 [c]).length) ∧
          (∀ memory : Nat → UInt32, (∀ k ≤ ws.length, memory k = ws.getD k 0) →
            ((∃ rounds l', l.appendWidePtr blocks (some memory) rounds = some l' ∧ l'.data = l.data ++ utf8 ws) ↔ ws = [])) ∧
          ((∃ l', run blocks (wideArraySteps ws) l = some l' ∧ l'.data = l.data ++ utf8 ws) ↔
            Takes l.bufLen l.dataLen ws.length (utf8 ws).length) := by
  have codes : ∀ c ∈ ws, c < 0x110000 := fun c member => (valid c member).2
  refine ⟨fillWide_iff blocks codes rfl, fun l inside => ⟨?_, fun c member => ?_, fun memory stored => ?_, ?_⟩⟩
  · exact @fillWide_iff blocks ws codes { l with dataLen := 0 } rfl
  · have single : ∀ x ∈ [c], x < 0x110000 := List.forall_mem_singleton.mpr (codes c member)
    exact wideSteps_iff blocks single inside
  · have first : memory 0 = ws.getD 0 0 := stored 0 (Nat.zero_le _)
    constructor
    · rintro ⟨rounds, l', done, -⟩
      cases ws with
      | nil => rfl
      | cons c ws =>
        have solid : memory 0 ≠ 0 := first.symm ▸ (valid c List.mem_cons_self).1
        exact absurd (done.symm.trans (widePtrLoop_none blocks solid rounds l)) (by simp)
    · rintro rfl
      exact ⟨1, l, if_pos first, (List.append_nil _).symm⟩
  · exact wideSteps_iff blocks codes inside

theorem wide_text_iff_ascii :
    (∃ l', ofWide (fun _ _ => 0) (some [0x61, 0xE9]) 2 = some l' ∧ l'.data = utf8 [0x61, 0xE9]) ↔
      (∀ c ∈ [(0x61 : UInt32)], c < 0x80) ∧ Takes 0 0 2 (utf8 [0x61, 0xE9]).length :=
  (@wide_text_iff (fun _ _ => 0) [0x61, 0xE9]
    (List.forall_mem_cons.mpr ⟨by decide, List.forall_mem_singleton.mpr (by decide)⟩)).1

/-- The second byte of the first character is lost, a pointer never ends, and four bytes do not fit in three. -/
theorem wide_text_lost :
    (¬ ∃ l', ofWide (fun _ _ => 0) (some [0xE9, 0x61]) 2 = some l' ∧ l'.data = utf8 [0xE9, 0x61]) ∧
      (¬ ∃ rounds l', (⟨fun _ => 0, 24, 21⟩ : CharList).appendWidePtr (fun _ _ => 0) (some fun k => [0x61].getD k 0) rounds = some l') ∧
      run (fun _ _ => 0) (wcharSteps 0x1F600) ⟨fun _ => 0, 24, 21⟩ = none := by
  refine ⟨?_, ?_, rfl⟩
  · rintro ⟨l', made, text⟩
    have lost : (ofWide (fun _ _ => 0) (some [0xE9, 0x61]) 2).map CharList.data = some [0xC3, 0x61, 0] := rfl
    rw [made, Option.map_some, text] at lost
    exact absurd lost (by decide)
  · rintro ⟨rounds, l', done⟩
    exact absurd (done.symm.trans (widePtrLoop_none _ (by decide) rounds _)) (by simp)

end Xxlib.Uv4
