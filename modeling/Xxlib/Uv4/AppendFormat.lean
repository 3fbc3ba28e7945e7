import Xxlib.Lib.CString
import Xxlib.Uv4.InPlace

/-! `String::AppendFormat` (`xx_string.hpp`).

An argument is the string itself, or it is given as what its `StrFunc` does with the string. The format does not lie in
the string. A string that could not get a block is none, and stays so.
-/

set_option autoImplicit false

namespace Xxlib.Uv4

open Lib CharList

/-- An argument, and what it appends to the data of the string. -/
inductive Argument where
  | value (steps : List Step)
  | itself

def Argument.steps (data : List UInt8) : Argument → List Step
  | .value steps => steps
  | .itself => [.reserve data.length, .append data]

def CharList.data (l : CharList) : List UInt8 := (List.range l.dataLen).map l.buf

structure StringView where
  idx : Nat := 0
  len : Nat := 0

structure Formatting where
  s : Option CharList
  cache : Nat → StringView := fun _ => {}
  offset : Nat := 0
  /-- The places of the format that were looked at. -/
  seen : List Nat := []

/-- The number with one more character, as a `size_t`. -/
def nextIndex (signedChar : Bool) (i : Nat) (c : UInt8) : Nat :=
  (i * 10 + (charWord signedChar 64 c + (2 ^ 64 - 48))) % 2 ^ 64

namespace Formatting

def look (f : Formatting) : Formatting := { f with seen := f.offset :: f.seen }

def next (f : Formatting) : Formatting := { f with offset := f.offset + 1 }

section
variable (blocks : Blocks) (signedChar : Bool) (format : Nat → UInt8) (args : List Argument)

def append (c : UInt8) (f : Formatting) : Formatting := { f with s := f.s.bind (run blocks [.reserve 1, .append [c]]) }

/-- What a `}` does, if the number is one of an argument. -/
def argument (i : Nat) (f : Formatting) : Formatting :=
  match f.s with
  | none => f
  | some l =>
      if (f.cache i).len ≠ 0 then
        let capacity := (l.dataLen + (f.cache i).len) % 2 ^ 64
        let reserved := if capacity > l.bufLen then l.reserve blocks capacity else some l
        { f with s := reserved.bind fun l =>
            l.append ((List.range (f.cache i).len).map fun k => l.buf ((f.cache i).idx + k)) }
      else
        match run blocks ((args.getD i (.value [])).steps l.data) l with
        | none => { f with s := none }
        | some l' => { f with s := some l', cache := Function.update f.cache i ⟨l.dataLen, l'.dataLen - l.dataLen⟩ }

/-- The inner loop. Without the assertion, a number that is too large adds nothing. -/
def placeholder : Nat → Nat → Formatting → Formatting
  | 0, _, f => f
  | fuel + 1, i, f =>
      let c := format f.offset
      let f := f.look
      if c = 0 then f
      else if c = 125 then if args.length ≤ i then f else f.argument blocks args i
      else placeholder fuel (nextIndex signedChar i c) f.next

/-- The outer loop. -/
def loop : Nat → Formatting → Formatting
  | 0, f => f
  | fuel + 1, f =>
      let c := format f.offset
      let f := f.look
      if c = 0 then f
      else if c = 123 then
        let f := f.next.look
        if format f.offset = 123 then loop fuel (f.append blocks 123).next
        else loop fuel (placeholder blocks signedChar format args fuel 0 f).next
      else loop fuel (f.append blocks c).next

end

end Formatting

/-- `AppendFormat`, for `rounds` rounds of its loops. -/
def CharList.appendFormat (blocks : Blocks) (signedChar : Bool) (rounds : Nat) (format : Nat → UInt8) (args : List Argument)
    (l : CharList) : Formatting := Formatting.loop blocks signedChar format args rounds { s := some l }

/-! ## Formats -/

/-- Every brace that begins a placeholder is closed. -/
inductive Closed : List UInt8 → Prop where
  | nil : Closed []
  | char {c : UInt8} {rest : List UInt8} (ordinary : c ≠ 123) (closed : Closed rest) : Closed (c :: rest)
  | brace {rest : List UInt8} (closed : Closed rest) : Closed (123 :: 123 :: rest)
  | placeholder {inside rest : List UInt8} (single : inside.head? ≠ some 123) (within : 125 ∉ inside) (closed : Closed rest) :
      Closed (123 :: (inside ++ 125 :: rest))

/-- An ordinary character, `{{`, or an argument in braces. -/
inductive Piece where
  | char (c : UInt8)
  | brace
  | arg (digits : List UInt8)

/-- The number that the digits tell. -/
def number (digits : List UInt8) : Nat := digits.foldl (fun n d => n * 10 + (d.toNat - 48)) 0

def Piece.source : Piece → List UInt8
  | .char c => [c]
  | .brace => [123, 123]
  | .arg digits => 123 :: (digits ++ [125])

def Piece.Valid (count : Nat) : Piece → Prop
  | .char c => c ≠ 0 ∧ c ≠ 123
  | .brace => True
  | .arg digits => digits ≠ [] ∧ (∀ d ∈ digits, 48 ≤ d ∧ d ≤ 57) ∧ number digits < count

/-- What the argument appends to a string with these data. -/
def argText (args : List Argument) (data : List UInt8) (i : Nat) : List UInt8 :=
  written ((args.getD i (.value [])).steps data)

def Piece.text (args : List Argument) (data : List UInt8) : Piece → List UInt8
  | .char c => [c]
  | .brace => [123]
  | .arg digits => argText args data (number digits)

/-- What is done for an argument: if it was written before, and not empty, it is copied. -/
def argSteps (args : List Argument) (texts : Nat → List UInt8) (data : List UInt8) (i : Nat) : List Step :=
  if texts i ≠ [] then [.reserve (texts i).length, .append (texts i)] else (args.getD i (.value [])).steps data

/-- What is done with a string with these data, when `texts` were written before. -/
def formatSteps (args : List Argument) : (Nat → List UInt8) → List UInt8 → List Piece → List Step
  | _, _, [] => []
  | texts, data, .char c :: pieces => [.reserve 1, .append [c]] ++ formatSteps args texts (data ++ [c]) pieces
  | texts, data, .brace :: pieces => [.reserve 1, .append [123]] ++ formatSteps args texts (data ++ [123]) pieces
  | texts, data, .arg digits :: pieces =>
      let steps := argSteps args texts data (number digits)
      steps ++ formatSteps args (Function.update texts (number digits) (written steps)) (data ++ written steps) pieces

/-- The string itself is an argument only where nothing was appended before, or where it is copied. The arguments `used`
and the text `before` stand before the pieces. -/
def Steady (args : List Argument) (data : List UInt8) : List Nat → List UInt8 → List Piece → Prop
  | _, _, [] => True
  | used, before, .char c :: pieces => Steady args data used (before ++ [c]) pieces
  | used, before, .brace :: pieces => Steady args data used (before ++ [123]) pieces
  | used, before, .arg digits :: pieces =>
      (args[number digits]? = some .itself → before = [] ∨ number digits ∈ used ∧ data ≠ []) ∧
        Steady args data (number digits :: used) (before ++ argText args data (number digits)) pieces

end Xxlib.Uv4
