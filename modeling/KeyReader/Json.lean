import Mathlib.Data.List.Basic

/-! JSON values, with numbers of any type. -/

namespace KeyReader

inductive Json (ν : Type)
  | null
  | bool (value : Bool)
  | number (value : ν)
  | string (value : String)
  | array (values : List (Json ν))
  | object (fields : List (String × Json ν))

end KeyReader

/-! The reading of JSON values into structs and enumerations, and how deep a value is nested. -/

namespace KeyReader.Json

open List

variable {ν : Type}

abbrev Members (ν : Type) := List (String × Json ν)

/-- The value of a member. -/
def member (name : String) (fields : Members ν) : Option (Json ν) :=
  (fields.find? fun field => field.1 = name).map (·.2)

/-- No name is there twice. -/
def once (names : List String) (fields : Members ν) : Bool :=
  names.all fun name => fields.countP (fun field => field.1 = name) ≤ 1

/-- The values of a struct with these fields, one for each field that is there.  An array has the
values in the order of the fields, and `strict` refuses the members that are no fields. -/
def structFields (names : List String) (strict : Bool) : Json ν → Option (List (Option (Json ν)))
  | .object fields =>
    if once names fields ∧ (strict → fields.all fun field => names.contains field.1) then
      some (names.map (member · fields))
    else none
  | .array values =>
    if values.length ≤ names.length then
      some (values.map some ++ List.replicate (names.length - values.length) none)
    else none
  | _ => none

/-- The variant of an enumeration and its content, where each is a member of its own. -/
def variant (tag content : String) : Json ν → Option (String × Option (Json ν))
  | .array [.string name, value] => some (name, some value)
  | .object fields =>
    if once [tag, content] fields then
      match member tag fields with
      | some (.string name) => some (name, member content fields)
      | _ => none
    else none
  | _ => none

/-- The name of a variant without content. -/
def unitVariant : Json ν → Option String
  | .string name => some name
  | .object [(name, .null)] => some name
  | _ => none

def readString : Json ν → Option String
  | .string value => some value
  | _ => none

def readBool : Json ν → Option Bool
  | .bool value => some value
  | _ => none

def readArray {α : Type} (read : Json ν → Option α) : Json ν → Option (List α)
  | .array values => values.mapM read
  | _ => none

theorem readArray_map {α : Type} {read : Json ν → Option α} {write : α → Json ν} {values : List α}
    (h : ∀ value ∈ values, read (write value) = some value) :
    readArray read (.array (values.map write)) = some values := by
  unfold readArray
  dsimp only
  induction values with
  | nil => rfl
  | cons value values ih =>
    rw [map_cons, mapM_cons, h value mem_cons_self, ih (forall_mem_cons.mp h).2]
    rfl

theorem readArray_map_eq_none {α : Type} {read : Json ν → Option α} {write : α → Json ν}
    {values : List α} {value : α} (hmem : value ∈ values) (h : read (write value) = none) :
    readArray read (.array (values.map write)) = none := by
  unfold readArray
  dsimp only
  induction values with
  | nil => cases hmem
  | cons other values ih =>
    rw [map_cons, mapM_cons]
    rcases mem_cons.mp hmem with rfl | hmem
    · rw [h]
      rfl
    · rw [ih hmem]
      cases read (write other) <;> rfl

mutual

/-- How many arrays and objects are open at once. -/
def depth : Json ν → Nat
  | .array values => 1 + depthValues values
  | .object fields => 1 + depthFields fields
  | .null => 0
  | .bool _ => 0
  | .number _ => 0
  | .string _ => 0

def depthValues : List (Json ν) → Nat
  | [] => 0
  | value :: values => max value.depth (depthValues values)

def depthFields : List (String × Json ν) → Nat
  | [] => 0
  | (_, value) :: fields => max value.depth (depthFields fields)

end

theorem depthValues_le {values : List (Json ν)} {most : Nat}
    (h : ∀ value ∈ values, value.depth ≤ most) : depthValues values ≤ most := by
  induction values with
  | nil => exact Nat.zero_le most
  | cons value values ih =>
    rw [depthValues]
    have hhead := h value mem_cons_self
    have htail := ih (forall_mem_cons.mp h).2
    omega

end KeyReader.Json
