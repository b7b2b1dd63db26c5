/- Unit: TrendingPipeline/Base/JsonDecode
   source: none (the typed side of Go's encoding/json)
   digest: Decoding JSON values into strings, integers, slices, pointers and records. -/

import TrendingPipeline.Base.JsonText
import TrendingPipeline.Base.Decimal

set_option autoImplicit false
set_option relaxedAutoImplicit false

namespace TrendingPipeline.Base.JsonDecode

open TrendingPipeline.Base.JsonText (Json)
open TrendingPipeline.Base.Decimal (atoi)

universe u

variable {α β : Type}

/-- The representative of a character under simple case folding. Besides the ASCII
letters, only the long s and the Kelvin sign fold to an ASCII letter. -/
def foldRune (c : Char) : Char :=
  if c.toNat = 0x17F then 'S' else if c.toNat = 0x212A then 'K' else c.toUpper

def sameName (a b : String) : Bool := a.toList.map foldRune = b.toList.map foldRune

/-- A decoder updates the value it decodes into; `none` is a type error. -/
abbrev Decoder (α : Type) := α → Json → Option α

def decodeString : Decoder String
  | s, .null => some s
  | _, .str s => some s
  | _, _ => none

def decodeInt64 : Decoder Int64
  | n, .null => some n
  | _, .num literal =>
      match atoi (String.ofList literal) with
      | (n, none) => some n
      | (_, some _) => none
  | _, _ => none

def decodeInt32 : Decoder Int32
  | n, .null => some n
  | _, .num literal =>
      match atoi (String.ofList literal) with
      | (n, none) => if n.toInt32.toInt = n.toInt then some n.toInt32 else none
      | (_, some _) => none
  | _, _ => none

/-- The fields of a record: the name in the tag and the decoder of the field. -/
abbrev Fields (α : Type) := List (String × Decoder α)

/-- A field that is read with `get` and replaced with `set`. -/
def field (name : String) (get : α → β) (set : α → β → α) (d : Decoder β) :
    String × Decoder α :=
  (name, fun x v => (d (get x) v).map (set x))

/-- Decode one member of an object; a name no field has is skipped. -/
def decodeMember (fields : Fields α) (x : α) (m : String × Json) : Option α :=
  match fields.find? fun f => sameName m.1 f.1 with
  | some f => f.2 x m.2
  | none => some x

def decodeStruct (fields : Fields α) : Decoder α
  | x, .null => some x
  | x, .obj ms => ms.foldlM (decodeMember fields) x
  | _, _ => none

/-- Items are decoded into the elements the slice already has, then into zero values. -/
def decodeItems (zero : α) (item : Decoder α) : List α → List Json → Option (List α)
  | _, [] => some []
  | old, v :: vs => do
      let x ← item (old.headD zero) v
      let xs ← decodeItems zero item old.tail vs
      return x :: xs

def decodeSlice (zero : α) (item : Decoder α) : Decoder (List α)
  | _, .null => some []
  | old, .arr vs => decodeItems zero item old vs
  | _, _ => none

def decodePointer (zero : α) (item : Decoder α) : Decoder (Option α)
  | _, .null => some none
  | p, v => (item (p.getD zero) v).map some

end TrendingPipeline.Base.JsonDecode
