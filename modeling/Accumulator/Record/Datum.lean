/-! # Stored data

The tree of values that records are stored as, and the ways to look into it. A record is stored
by the names of its fields, and may also be given as the list of all its fields in order.
-/

namespace Accumulator

set_option autoImplicit false

inductive Datum where
  | null
  | bool (value : Bool)
  | integer (value : Int)
  /-- The number `digits / 10 ^ places`, written with a point or an exponent. -/
  | decimal (digits : Int) (places : Nat)
  | text (value : String)
  | list (items : List Datum)
  | record (fields : List (String × Datum))
  deriving Repr, Inhabited

namespace Datum

/-- The values of the named fields; a field that is not there has none. -/
def fields? (names : List String) : Datum → Option (List (Option Datum))
  | record fields => some (names.map fun name => List.lookup name fields)
  | list items => if items.length = names.length then some (items.map some) else none
  | _ => none

/-- The name of an alternative with what it carries; one that carries nothing may be given by its
name alone. -/
def alternative? : Datum → Option (String × Datum)
  | text name => some (name, null)
  | record [(name, content)] => some (name, content)
  | _ => none

def name? (datum : Datum) : Option String :=
  match datum.alternative? with
  | some (name, null) => some name
  | _ => none

def texts? : Datum → Option (List String)
  | list items => items.mapM fun
    | text value => some value
    | _ => none
  | _ => none

end Datum

end Accumulator
