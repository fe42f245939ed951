import Mathlib.Algebra.GroupWithZero.Nat

/-- A JSON value whose numbers are whole, as every record's payload has them. -/
inductive Json where
  | null
  | bool (value : Bool)
  | num (value : Int)
  | str (text : List Char)
  | arr (items : List Json)
  | obj (entries : List (String × Json))

namespace Json

/-- The value under a key, of an object. -/
def get : Json → String → Option Json
  | .obj entries, key => entries.lookup key
  | _, _ => none

def asArray : Json → Option (List Json)
  | .arr items => some items
  | _ => none

def asStr : Json → Option (List Char)
  | .str text => some text
  | _ => none

/-- A number that fits 64 bits without a sign. -/
def asU64 : Json → Option Nat
  | .num (.ofNat value) => if value < 2 ^ 64 then some value else none
  | _ => none

theorem asU64_natCast (value : Nat) :
    asU64 (.num value) = if value < 2 ^ 64 then some value else none := rfl

/-- A number that fits 64 bits, its sign among them. -/
def asI64 : Json → Option Int
  | .num (.ofNat value) => if value < 2 ^ 63 then some value else none
  | .num (.negSucc less) => if less < 2 ^ 63 then some (.negSucc less) else none
  | _ => none

def asBool : Json → Option Bool
  | .bool value => some value
  | _ => none

mutual

/-- Whether two values are the same one. -/
def decEq : (left right : Json) → Decidable (left = right)
  | .null, .null => isTrue rfl
  | .bool a, .bool b => decidable_of_iff (a = b) (by simp)
  | .num a, .num b => decidable_of_iff (a = b) (by simp)
  | .str a, .str b => decidable_of_iff (a = b) (by simp)
  | .arr a, .arr b => @decidable_of_iff _ (a = b) (by simp) (decEqItems a b)
  | .obj a, .obj b => @decidable_of_iff _ (a = b) (by simp) (decEqEntries a b)
  | .null, .bool _ | .null, .num _ | .null, .str _ | .null, .arr _ | .null, .obj _
  | .bool _, .null | .bool _, .num _ | .bool _, .str _ | .bool _, .arr _ | .bool _, .obj _
  | .num _, .null | .num _, .bool _ | .num _, .str _ | .num _, .arr _ | .num _, .obj _
  | .str _, .null | .str _, .bool _ | .str _, .num _ | .str _, .arr _ | .str _, .obj _
  | .arr _, .null | .arr _, .bool _ | .arr _, .num _ | .arr _, .str _ | .arr _, .obj _
  | .obj _, .null | .obj _, .bool _ | .obj _, .num _ | .obj _, .str _ | .obj _, .arr _ =>
    isFalse (by simp)

def decEqItems : (left right : List Json) → Decidable (left = right)
  | [], [] => isTrue rfl
  | [], _ :: _ | _ :: _, [] => isFalse (by simp)
  | a :: as, b :: bs =>
    match decEq a b, decEqItems as bs with
    | isTrue same, isTrue rest => isTrue (by rw [same, rest])
    | isFalse differ, _ => isFalse (by simp [differ])
    | _, isFalse differ => isFalse (by simp [differ])

def decEqEntries : (left right : List (String × Json)) → Decidable (left = right)
  | [], [] => isTrue rfl
  | [], _ :: _ | _ :: _, [] => isFalse (by simp)
  | (key, a) :: as, (other, b) :: bs =>
    match decEq a b, decEqEntries as bs with
    | isTrue same, isTrue rest => decidable_of_iff (key = other) (by simp [same, rest])
    | isFalse differ, _ => isFalse (by simp [differ])
    | _, isFalse differ => isFalse (by simp [differ])

end

instance : DecidableEq Json := decEq

end Json
