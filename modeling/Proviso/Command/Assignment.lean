/-
  Assigned values.

  An item `NAME=VALUE` assigns an integer to a name. The last equals sign in the item is the
  one between them, so a name may contain equals signs.
-/
import Proviso.Ledger
import Proviso.Numeral.Argument
import Proviso.Text.Quoted

namespace Proviso.Command

/-- What is wrong with an item. -/
inductive Assignment.Fault where
  /-- There is no equals sign, or nothing in front of the last one. -/
  | incomplete (item : Text)
  /-- The value of a name is no integer. -/
  | notInteger (name value : Text)
  deriving DecidableEq, Repr

namespace Assignment

/-- The wording of a fault. -/
def Fault.message : Fault → Text
  | .incomplete item => "--set expects NAME=VALUE, got ".toList ++ item.quoted
  | .notInteger name value =>
    "--set value for ".toList ++ name.quoted ++ " must be an integer, got ".toList ++ value.quoted

/-- The name and the value of an item. -/
def read (item : Text) : Except Fault (Text × Int) :=
  match Text.cutLast? '=' item with
  | none => .error (.incomplete item)
  | some ([], _) => .error (.incomplete item)
  | some (c :: cs, value) =>
    match Numeral.argument? value with
    | some i => .ok (c :: cs, i)
    | none => .error (.notInteger (c :: cs) value)

/-- The ledger after the items have been assigned in order, or the first fault. -/
def assign : List Text → Ledger → Except Fault Ledger
  | [], l => .ok l
  | item :: items, l =>
    match read item with
    | .error fault => .error fault
    | .ok (name, value) => assign items (l.set name value)

/-- The ledger of items. -/
def ledger (items : List Text) : Except Fault Ledger := assign items .empty

end Assignment

end Proviso.Command
