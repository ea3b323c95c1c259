import Mathlib.Algebra.Group.Nat.Defs
import Mathlib.Data.Option.Basic

/-!
JSON values and the decoders that `serde` derives for plain data: numbers of a given width,
options, sequences, untagged choices, and structs given by name or by position.
-/

namespace LeanJson

inductive Number where
  | posInt (value : UInt64)
  | negInt (value : Int)
  | float (text : String)
deriving Repr, DecidableEq

/-- The fields of an object stand in the order of the text, with repetitions. -/
inductive Json where
  | null
  | bool (value : Bool)
  | number (value : Number)
  | string (text : String)
  | array (items : List Json)
  | object (fields : List (String × Json))

abbrev Decoder (α : Type) : Type := Json → Option α

variable {α β γ : Type}

namespace Decoder

def bool : Decoder Bool
  | .bool value => some value
  | _ => none

def string : Decoder String
  | .string text => some text
  | _ => none

def unsigned (width : Nat) : Decoder Nat
  | .number (.posInt value) => if value.toNat < 2 ^ width then some value.toNat else none
  | _ => none

def option (decode : Decoder α) : Decoder (Option α)
  | .null => some none
  | json => (decode json).map some

def list (decode : Decoder α) : Decoder (List α)
  | .array items => items.mapM decode
  | _ => none

def pair (first : Decoder α) (second : Decoder β) : Decoder (α × β)
  | .array [left, right] => do pure (← first left, ← second right)
  | _ => none

def triple (first : Decoder α) (second : Decoder β) (third : Decoder γ) : Decoder (α × β × γ)
  | .array [left, middle, right] => do pure (← first left, ← second middle, ← third right)
  | _ => none

/-- A variant without data: its name, or an object with the name as its only key. -/
def variant (variants : List (String × α)) : Decoder α
  | .string name => variants.lookup name
  | .object [(name, .null)] => variants.lookup name
  | _ => none

def untagged (first second : Decoder α) : Decoder α := fun json =>
  match first json with
  | some value => some value
  | none => second json

end Decoder

structure Given where
  positional : Bool
  value : String → Option Json

/-- By name every field may be given once, and other names are ignored; an array gives the
fields in their order and may stop early. -/
def given (names : List String) : Json → Option Given
  | .object fields =>
      if ∀ name ∈ names, fields.countP (fun field => field.1 = name) ≤ 1 then
        some ⟨false, fun name => (fields.find? fun field => field.1 = name).map Prod.snd⟩
      else none
  | .array items =>
      if items.length ≤ names.length then some ⟨true, fun name => items[names.idxOf name]?⟩
      else none
  | _ => none

namespace Given

variable (fields : Given)

def orDefault (name : String) (default : α) (decode : Decoder α) : Option α :=
  match fields.value name with
  | none => some default
  | some json => decode json

/-- An optional field without a default, which may only be left out by name. -/
def optional (name : String) (decode : Decoder α) : Option (Option α) :=
  match fields.value name with
  | none => if fields.positional then none else some none
  | some json => decode.option json

end Given

section Decoded

variable {json : Json}

theorem string_eq_some_iff {text : String} :
    Decoder.string json = some text ↔ json = .string text := by
  cases json <;> simp [Decoder.string]

theorem option_eq_some_iff {decode : Decoder α} {value : α} :
    decode.option json = some (some value) ↔ json ≠ .null ∧ decode json = some value := by
  cases json <;> simp [Decoder.option]

theorem untagged_eq_some_iff {first second : Decoder α} {value : α} :
    Decoder.untagged first second json = some value ↔
      first json = some value ∨ first json = none ∧ second json = some value := by
  unfold Decoder.untagged
  cases first json <;> simp

end Decoded

end LeanJson
