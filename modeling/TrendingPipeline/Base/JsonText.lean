/- Unit: TrendingPipeline/Base/JsonText
   source: none (the text format of Go's encoding/json)
   digest: JSON values, the text written for them, the reader of that text. -/

import Mathlib.Data.Char
import Mathlib.Data.Nat.Digits.Defs

set_option autoImplicit false
set_option relaxedAutoImplicit false

namespace TrendingPipeline.Base.JsonText

/-- A JSON value. A number keeps its literal and an object keeps its members in
order, repeated keys included, because decoders depend on both. -/
inductive Json
  | null
  | bool (b : Bool)
  | num (literal : List Char)
  | str (s : String)
  | arr (items : List Json)
  | obj (members : List (String × Json))

def hexDigit (n : Nat) : Char := if n < 10 then Char.ofNat (48 + n) else Char.ofNat (87 + n)

/-- A `\u` escape of one UTF-16 code unit. -/
def unicodeEscape (n : Nat) : List Char :=
  ['\\', 'u', hexDigit (n / 4096 % 16), hexDigit (n / 256 % 16), hexDigit (n / 16 % 16),
    hexDigit (n % 16)]

/-- Characters Marshal never writes literally: controls, the HTML characters and
the two line separators. -/
def needsUnicodeEscape (c : Char) : Bool :=
  c.toNat < 32 || c = '<' || c = '>' || c = '&' || c.toNat = 0x2028 || c.toNat = 0x2029

def escapeChar (c : Char) : List Char :=
  if c = '"' then ['\\', '"']
  else if c = '\\' then ['\\', '\\']
  else if c.toNat = 8 then ['\\', 'b']
  else if c.toNat = 9 then ['\\', 't']
  else if c.toNat = 10 then ['\\', 'n']
  else if c.toNat = 12 then ['\\', 'f']
  else if c.toNat = 13 then ['\\', 'r']
  else if needsUnicodeEscape c then unicodeEscape c.toNat
  else [c]

def renderString (s : String) : List Char := '"' :: s.toList.flatMap escapeChar ++ ['"']

mutual

def render : Json → List Char
  | .null => "null".toList
  | .bool true => "true".toList
  | .bool false => "false".toList
  | .num literal => literal
  | .str s => renderString s
  | .arr [] => ['[', ']']
  | .arr (v :: vs) => '[' :: (render v ++ renderItems vs)
  | .obj [] => ['{', '}']
  | .obj ((k, v) :: ms) => '{' :: (renderString k ++ ':' :: (render v ++ renderMembers ms))

def renderItems : List Json → List Char
  | [] => [']']
  | v :: vs => ',' :: (render v ++ renderItems vs)

def renderMembers : List (String × Json) → List Char
  | [] => ['}']
  | (k, v) :: ms => ',' :: (renderString k ++ ':' :: (render v ++ renderMembers ms))

end

def isSpace (c : Char) : Bool := c = ' ' || c = '\t' || c = '\n' || c = '\r'

def skipSpace (cs : List Char) : List Char := cs.dropWhile isSpace

def hexValue (c : Char) : Option Nat :=
  if '0'.toNat ≤ c.toNat ∧ c.toNat ≤ '9'.toNat then some (c.toNat - 48)
  else if 'a'.toNat ≤ c.toNat ∧ c.toNat ≤ 'f'.toNat then some (c.toNat - 87)
  else if 'A'.toNat ≤ c.toNat ∧ c.toNat ≤ 'F'.toNat then some (c.toNat - 55)
  else none

def hex4 (a b c d : Char) : Option Nat := do
  let a ← hexValue a
  let b ← hexValue b
  let c ← hexValue c
  let d ← hexValue d
  return a * 4096 + b * 256 + c * 16 + d

def simpleEscape (c : Char) : Option Char :=
  if c = '"' ∨ c = '\\' ∨ c = '/' then some c
  else if c = 'b' then some (Char.ofNat 8)
  else if c = 'f' then some (Char.ofNat 12)
  else if c = 'n' then some '\n'
  else if c = 'r' then some '\r'
  else if c = 't' then some '\t'
  else none

/-- What the inside of a string literal denotes before surrogates are paired. -/
inductive CodeUnit
  | char (c : Char)
  | unit (n : Nat)

def stringUnits : List Char → Option (List CodeUnit × List Char)
  | [] => none
  | '"' :: rest => some ([], rest)
  | '\\' :: 'u' :: a :: b :: c :: d :: rest => do
      let n ← hex4 a b c d
      let (us, rest) ← stringUnits rest
      return (.unit n :: us, rest)
  | '\\' :: c :: rest => do
      let e ← simpleEscape c
      let (us, rest) ← stringUnits rest
      return (.char e :: us, rest)
  | c :: rest =>
      if c.toNat < 32 ∨ c = '\\' then none
      else do
        let (us, rest) ← stringUnits rest
        return (.char c :: us, rest)

def isHighSurrogate (n : Nat) : Bool := 0xD800 ≤ n && n < 0xDC00
def isLowSurrogate (n : Nat) : Bool := 0xDC00 ≤ n && n < 0xE000

/-- A code unit outside a surrogate pair; a lone surrogate is replaced. -/
def loneUnit (n : Nat) : Char :=
  if isHighSurrogate n || isLowSurrogate n then Char.ofNat 0xFFFD else Char.ofNat n

def pairUnits : List CodeUnit → List Char
  | [] => []
  | .char c :: us => c :: pairUnits us
  | .unit hi :: .unit lo :: us =>
      if isHighSurrogate hi && isLowSurrogate lo then
        Char.ofNat (0x10000 + (hi - 0xD800) * 1024 + (lo - 0xDC00)) :: pairUnits us
      else loneUnit hi :: pairUnits (.unit lo :: us)
  | .unit n :: us => loneUnit n :: pairUnits us

def stringBody (cs : List Char) : Option (String × List Char) :=
  (stringUnits cs).map fun (us, rest) => (String.ofList (pairUnits us), rest)

def isNumberChar (c : Char) : Bool :=
  c.isDigit || c = '-' || c = '+' || c = '.' || c = 'e' || c = 'E'

/-- `[eE][+-]?[0-9]+`, or nothing. -/
def validExponent : List Char → Bool
  | [] => true
  | e :: cs =>
      (e = 'e' || e = 'E') &&
        match cs with
        | s :: ds =>
            if s = '+' || s = '-' then !ds.isEmpty && ds.all Char.isDigit
            else (s :: ds).all Char.isDigit
        | [] => false

/-- `(\.[0-9]+)?` followed by an exponent part. -/
def validFraction : List Char → Bool
  | '.' :: cs =>
      !(cs.takeWhile Char.isDigit).isEmpty && validExponent (cs.dropWhile Char.isDigit)
  | cs => validExponent cs

/-- The integer part: a single zero, or digits that do not start with zero. -/
def validUnsigned : List Char → Bool
  | '0' :: cs => validFraction cs
  | c :: cs => c.isDigit && validFraction (cs.dropWhile Char.isDigit)
  | [] => false

def validNumber : List Char → Bool
  | '-' :: cs => validUnsigned cs
  | cs => validUnsigned cs

def scalar (cs : List Char) : Option (Json × List Char) :=
  match cs with
  | 'n' :: 'u' :: 'l' :: 'l' :: rest => some (.null, rest)
  | 't' :: 'r' :: 'u' :: 'e' :: rest => some (.bool true, rest)
  | 'f' :: 'a' :: 'l' :: 's' :: 'e' :: rest => some (.bool false, rest)
  | '"' :: rest => (stringBody rest).map fun (s, rest) => (.str s, rest)
  | cs =>
      if validNumber (cs.takeWhile isNumberChar) then
        some (.num (cs.takeWhile isNumberChar), cs.dropWhile isNumberChar)
      else none

/-- The items of a non-empty array and its closing bracket. The first argument
reads one item; the second bounds the number of items. -/
def items (item : List Char → Option (Json × List Char)) :
    Nat → List Char → Option (List Json × List Char)
  | 0, _ => none
  | fuel + 1, cs => do
      let (v, rest) ← item cs
      match skipSpace rest with
      | ',' :: rest => do
          let (vs, rest) ← items item fuel rest
          return (v :: vs, rest)
      | ']' :: rest => some ([v], rest)
      | _ => none

/-- The members of a non-empty object and its closing brace. -/
def members (item : List Char → Option (Json × List Char)) :
    Nat → List Char → Option (List (String × Json) × List Char)
  | 0, _ => none
  | fuel + 1, cs =>
      match skipSpace cs with
      | '"' :: cs => do
          let (k, rest) ← stringBody cs
          match skipSpace rest with
          | ':' :: rest => do
              let (v, rest) ← item rest
              match skipSpace rest with
              | ',' :: rest => do
                  let (ms, rest) ← members item fuel rest
                  return ((k, v) :: ms, rest)
              | '}' :: rest => some ([(k, v)], rest)
              | _ => none
          | _ => none
      | _ => none

/-- One value and the text after it. The first argument is the number of array
and object levels that may still be opened. -/
def value : Nat → List Char → Option (Json × List Char)
  | 0, cs => scalar (skipSpace cs)
  | depth + 1, cs =>
      match skipSpace cs with
      | '[' :: rest =>
          match skipSpace rest with
          | ']' :: rest => some (.arr [], rest)
          | rest => (items (value depth) rest.length rest).map fun (vs, rest) => (.arr vs, rest)
      | '{' :: rest =>
          match skipSpace rest with
          | '}' :: rest => some (.obj [], rest)
          | rest =>
              (members (value depth) rest.length rest).map fun (ms, rest) => (.obj ms, rest)
      | cs => scalar cs

def maxNestingDepth : Nat := 10000

/-- Decoder.Decode on a fresh stream: its first value; what follows is not read. -/
def decodeFirst (text : String) : Option Json :=
  (value maxNestingDepth text.toList).map Prod.fst

/-- Unmarshal: the text must hold one value and nothing but space after it. -/
def parse (text : String) : Option Json :=
  match value maxNestingDepth text.toList with
  | some (v, rest) => if skipSpace rest = [] then some v else none
  | none => none

end TrendingPipeline.Base.JsonText
