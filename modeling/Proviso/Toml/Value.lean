/-
  Values of a TOML document.

  A table is a list of keys with values, each key once. Tables are changed along a path of
  keys; on the way, tables that are missing come into being, and a list of tables stands for
  its last one.
-/
import Proviso.Numeral.Basic

namespace Proviso.Toml

/-- A value. Of a date or a time only that it is one is kept. -/
inductive Value where
  | text (value : Text)
  | integer (value : Int)
  | real (value : Binary64)
  | boolean (value : Bool)
  | moment
  | array (items : List Value)
  | table (entries : List (Text × Value))

/-- Keys with values. -/
abbrev Table := List (Text × Value)

/-- Why a document has no value. -/
inductive Fault where
  /-- The text is not a TOML document. -/
  | malformed
  /-- A number in it is too long. -/
  | numeral (fault : Numeral.Fault)
  deriving DecidableEq, Repr

namespace Table

/-- The value of a key. -/
def find? (key : Text) : Table → Option Value
  | [] => none
  | (k, v) :: rest => if key = k then some v else find? key rest

/-- The table with the value of one key set. -/
def put (key : Text) (value : Value) : Table → Table
  | [] => [(key, value)]
  | (k, v) :: rest => if key = k then (key, value) :: rest else (k, v) :: put key value rest

/-- Changes the table at the end of a path. A value on the path that is not a table stops it,
except that a list may stand for its last table if `throughArrays` says so. -/
def alter (throughArrays : Bool) (f : Table → Option Table) : List Text → Table → Option Table
  | [], t => f t
  | k :: ks, t =>
    match find? k t with
    | none => (alter throughArrays f ks []).map fun s => put k (.table s) t
    | some (.table s) => (alter throughArrays f ks s).map fun s => put k (.table s) t
    | some (.array items) =>
      match throughArrays, items.getLast? with
      | true, some (.table s) =>
        (alter throughArrays f ks s).map fun s => put k (.array (items.dropLast ++ [.table s])) t
      | _, _ => none
    | some _ => none

/-- Adds a key that is not there yet. -/
def add? (key : Text) (value : Value) (t : Table) : Option Table :=
  match find? key t with
  | none => some (put key value t)
  | some _ => none

/-- Adds an empty table to the list of tables at a key. -/
def addToList? (key : Text) (t : Table) : Option Table :=
  match find? key t with
  | none => some (put key (.array [.table []]) t)
  | some (.array items) => some (put key (.array (items ++ [.table []])) t)
  | some _ => none

end Table

end Proviso.Toml
