/- Unit: TrendingPipeline/Base/JsonCodec
   source: none (Go's encoding/json on structs with omitempty tags)
   digest: Codecs that carry their own round trip, and records built from them. -/

import TrendingPipeline.Base.JsonDecode
import TrendingPipeline.Base.JsonRoundTrip

set_option autoImplicit false
set_option relaxedAutoImplicit false

namespace TrendingPipeline.Base.JsonCodec

open TrendingPipeline.Base.Decimal (atoi atoi_decimal decimal)
open TrendingPipeline.Base.JsonDecode
open TrendingPipeline.Base.JsonRoundTrip (Fits literal_decimal parse_render)
open TrendingPipeline.Base.JsonText (Json maxNestingDepth parse render)

variable {depth : Nat} {α : Type}

/-- Both directions for a type whose values are always written. The depth bounds
the nesting of what is written. -/
structure Codec (depth : Nat) (α : Type) where
  zero : α
  encode : α → Json
  decode : Decoder α
  encode_ne_null : ∀ a, encode a ≠ .null
  fits : ∀ a, Fits depth (encode a)
  decode_encode : ∀ a, decode zero (encode a) = some a

/-- Both directions for a field tagged omitempty: `none` leaves the member out. -/
structure OmitEmpty (depth : Nat) (α : Type) where
  zero : α
  encode : α → Option Json
  decode : Decoder α
  encode_none : ∀ a, encode a = none → a = zero
  fits : ∀ a v, encode a = some v → Fits depth v
  decode_encode : ∀ a v, encode a = some v → decode zero v = some a

def Codec.marshal (c : Codec depth α) (a : α) : String := String.ofList (render (c.encode a))

def Codec.unmarshal (c : Codec depth α) (text : String) : Option α :=
  (parse text).bind (c.decode c.zero)

theorem Codec.parse_marshal (c : Codec depth α) (hdepth : depth ≤ maxNestingDepth) (a : α) :
    parse (c.marshal a) = some (c.encode a) :=
  parse_render ((c.fits a).mono hdepth)

theorem Codec.unmarshal_marshal (c : Codec depth α) (hdepth : depth ≤ maxNestingDepth) (a : α) :
    c.unmarshal (c.marshal a) = some a := by
  rw [Codec.unmarshal, c.parse_marshal hdepth, Option.bind_some, c.decode_encode]

/-- A type each of whose values is one JSON value, with a distinguished empty value. -/
def OmitEmpty.ofValue [DecidableEq α] (zero : α) (write : α → Json) (decode : Decoder α)
    (fits : ∀ a, Fits depth (write a)) (decode_write : ∀ a, decode zero (write a) = some a) :
    OmitEmpty depth α where
  zero := zero
  encode a := if a = zero then none else some (write a)
  decode := decode
  encode_none a h := by
    by_contra hne
    simp [hne] at h
  fits a v h := by
    split at h
    · cases h
    · cases h
      exact fits a
  decode_encode a v h := by
    split at h
    · cases h
    · cases h
      exact decode_write a

private theorem decodeInt64_decimal (n : Int64) :
    decodeInt64 0 (.num (decimal n.toInt)) = some n := by
  have hmin := n.le_toInt
  have hmax := n.toInt_lt
  simp [decodeInt64, atoi_decimal hmin hmax]

private theorem decodeInt32_decimal (n : Int32) :
    decodeInt32 0 (.num (decimal n.toInt)) = some n := by
  have hmin := n.le_toInt
  have hmax := n.toInt_lt
  have hatoi : atoi (String.ofList (decimal n.toInt)) = (Int64.ofInt n.toInt, none) :=
    atoi_decimal (by omega) (by omega)
  simp [decodeInt32, hatoi]

def string : OmitEmpty depth String :=
  .ofValue "" .str decodeString (fun _ => by cases depth <;> trivial) (fun _ => rfl)

def int64 : OmitEmpty depth Int64 :=
  .ofValue 0 (fun n => .num (decimal n.toInt)) decodeInt64
    (fun n => by cases depth <;> exact literal_decimal n.toInt) decodeInt64_decimal

def int32 : OmitEmpty depth Int32 :=
  .ofValue 0 (fun n => .num (decimal n.toInt)) decodeInt32
    (fun n => by cases depth <;> exact literal_decimal n.toInt) decodeInt32_decimal

@[simp] theorem string_zero : (string : OmitEmpty depth String).zero = "" := rfl

@[simp] theorem int64_zero : (int64 : OmitEmpty depth Int64).zero = 0 := rfl

@[simp] theorem int32_zero : (int32 : OmitEmpty depth Int32).zero = 0 := rfl

theorem decodeItems_map (c : Codec depth α) (xs : List α) :
    decodeItems c.zero c.decode [] (xs.map c.encode) = some xs := by
  induction xs with
  | nil => rfl
  | cons x xs ih =>
      simp [decodeItems, c.decode_encode, ih]

/-- A string in a slice, written even when empty. -/
def stringItem : Codec depth String where
  zero := ""
  encode := .str
  decode := decodeString
  encode_ne_null _ h := by cases h
  fits _ := by cases depth <;> trivial
  decode_encode _ := rfl

/-- A slice; an empty one is left out. -/
def slice (c : Codec depth α) : OmitEmpty (depth + 1) (List α) where
  zero := []
  encode xs := if xs.isEmpty then none else some (.arr (xs.map c.encode))
  decode := decodeSlice c.zero c.decode
  encode_none xs h := by
    cases xs with
    | nil => rfl
    | cons x xs => cases h
  fits xs v h := by
    split at h
    · cases h
    · cases h
      intro v hv
      obtain ⟨x, _, rfl⟩ := List.mem_map.mp hv
      exact c.fits x
  decode_encode xs v h := by
    split at h
    · cases h
    · cases h
      exact decodeItems_map c xs

/-- A pointer to a record; nil is left out. -/
def pointer (c : Codec depth α) : OmitEmpty depth (Option α) where
  zero := none
  encode p := p.map c.encode
  decode := decodePointer c.zero c.decode
  encode_none p h := by
    cases p with
    | none => rfl
    | some a => cases h
  fits p v h := by
    obtain ⟨a, _, rfl⟩ := Option.map_eq_some_iff.mp h
    exact c.fits a
  decode_encode p v h := by
    obtain ⟨a, rfl, rfl⟩ := Option.map_eq_some_iff.mp h
    rw [decodePointer]
    · simp [c.decode_encode]
    · exact c.encode_ne_null a

@[simp] theorem slice_zero (c : Codec depth α) : (slice c).zero = [] := rfl

@[simp] theorem pointer_zero (c : Codec depth α) : (pointer c).zero = none := rfl

/-- A field of a record: its name in the tag, how it is read and replaced, and the
codec of its type. -/
structure Slot (depth : Nat) (α : Type) where
  name : String
  Value : Type
  get : α → Value
  set : α → Value → α
  codec : OmitEmpty depth Value

def slot {β : Type} (name : String) (get : α → β) (set : α → β → α) (codec : OmitEmpty depth β) :
    Slot depth α where
  name := name
  Value := β
  get := get
  set := set
  codec := codec

def Slot.field (s : Slot depth α) : String × Decoder α :=
  JsonDecode.field s.name s.get s.set s.codec.decode

/-- The member the encoder writes for it, if any. -/
def Slot.member (a : α) (s : Slot depth α) : Option (String × Json) :=
  (s.codec.encode (s.get a)).map fun v => (s.name, v)

/-- Copy the fields of one record into another, in order. -/
def copied (slots : List (Slot depth α)) (a x : α) : α :=
  slots.foldl (fun x s => s.set x (s.get a)) x

def Untouched : List (Slot depth α) → α → Prop
  | [], _ => True
  | s :: slots, x =>
      s.get x = s.codec.zero ∧ s.set x s.codec.zero = x ∧ ∀ v, Untouched slots (s.set x v)

/-- A record as its fields, which have different names and make up the record. -/
structure Record (depth : Nat) (α : Type) where
  zero : α
  slots : List (Slot depth α)
  names : (slots.map (·.name)).Pairwise fun a b => sameName a b = false
  untouched : Untouched slots zero
  copied_eq : ∀ a, copied slots a zero = a

theorem sameName_refl (a : String) : sameName a a = true := by simp [sameName]

private theorem sameName_comm (a b : String) : sameName a b = sameName b a := by
  simp only [sameName, eq_comm]

private theorem find_field {slots : List (Slot depth α)}
    (hnames : (slots.map (·.name)).Pairwise fun a b => sameName a b = false)
    {s : Slot depth α} (hs : s ∈ slots) :
    (slots.map Slot.field).find? (fun f => sameName s.name f.1) = some s.field := by
  induction slots with
  | nil => cases hs
  | cons t slots ih =>
      obtain ⟨hhead, htail⟩ := List.pairwise_cons.mp hnames
      rw [List.map_cons]
      rcases List.mem_cons.mp hs with rfl | hs
      · exact List.find?_cons_of_pos (sameName_refl s.name)
      · have hne : sameName s.name t.name = false := by
          rw [sameName_comm]
          exact hhead s.name (List.mem_map_of_mem hs)
        rw [List.find?_cons_of_neg (by simpa [Slot.field, JsonDecode.field] using hne)]
        exact ih htail hs

private theorem decode_members {fields : Fields α} {slots : List (Slot depth α)}
    (hfind : ∀ s ∈ slots, fields.find? (fun f => sameName s.name f.1) = some s.field)
    (a x : α) (hx : Untouched slots x) :
    (slots.filterMap (Slot.member a)).foldlM (decodeMember fields) x =
      some (copied slots a x) := by
  induction slots generalizing x with
  | nil => rfl
  | cons s slots ih =>
      obtain ⟨hget, hset, hrest⟩ := hx
      have htail := ih (fun t ht => hfind t (List.mem_cons_of_mem s ht)) (s.set x (s.get a))
        (hrest _)
      have hcopied : copied (s :: slots) a x = copied slots a (s.set x (s.get a)) := rfl
      cases hmember : s.codec.encode (s.get a) with
      | none =>
          have hempty : s.set x (s.get a) = x := by
            rw [s.codec.encode_none _ hmember, hset]
          have hskip : Slot.member a s = none := by rw [Slot.member, hmember]; rfl
          rw [List.filterMap_cons_none hskip, hcopied, ← htail, hempty]
      | some v =>
          have hwritten : Slot.member a s = some (s.name, v) := by rw [Slot.member, hmember]; rfl
          have hstep : decodeMember fields x (s.name, v) = some (s.set x (s.get a)) := by
            have hvalue := s.codec.decode_encode _ v hmember
            simp [decodeMember, hfind s List.mem_cons_self, Slot.field, JsonDecode.field, hget,
              hvalue]
          rw [List.filterMap_cons_some hwritten, List.foldlM_cons, hstep, hcopied]
          exact htail

/-- The object of the members that are not empty, in the order of the fields. -/
def Record.codec (r : Record depth α) : Codec (depth + 1) α where
  zero := r.zero
  encode a := .obj (r.slots.filterMap (Slot.member a))
  decode := decodeStruct (r.slots.map Slot.field)
  encode_ne_null _ h := by cases h
  fits a := by
    intro m hm
    obtain ⟨s, _, hmember⟩ := List.mem_filterMap.mp hm
    obtain ⟨v, hv, rfl⟩ := Option.map_eq_some_iff.mp hmember
    exact s.codec.fits _ v hv
  decode_encode a := by
    rw [decodeStruct, decode_members (fun s hs => find_field r.names hs) a r.zero r.untouched,
      r.copied_eq]

end TrendingPipeline.Base.JsonCodec
