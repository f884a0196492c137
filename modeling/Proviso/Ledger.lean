/-
  Ledgers: the current values of named conditions.

  A ledger is a finite map from names to integers. Its entries are kept in the order of the
  names, each name once, so a ledger is known by what `get?` answers, and listing its entries
  needs no sorting.
-/
import Proviso.Operator

namespace Proviso

/-- Named values in the order of their names. -/
structure Ledger where
  entries : List (Text × Int)
  sorted : entries.Pairwise fun a b => a.1.precedes b.1

namespace Ledger

/-- A ledger without entries. -/
def empty : Ledger := ⟨[], .nil⟩

/-- The value entered for a name among entries. -/
def find? (name : Text) : List (Text × Int) → Option Int
  | [] => none
  | e :: es => if name = e.1 then some e.2 else find? name es

/-- The entries with one of them set, put in at its place if the name is new. -/
def enter (name : Text) (value : Int) : List (Text × Int) → List (Text × Int)
  | [] => [(name, value)]
  | e :: es =>
    if name = e.1 then (name, value) :: es
    else if name.precedes e.1 then (name, value) :: e :: es
    else e :: enter name value es

theorem fst_of_mem_enter {name : Text} {value : Int} {es : List (Text × Int)}
    {e : Text × Int} (h : e ∈ enter name value es) : e.1 = name ∨ e ∈ es := by
  induction es with
  | nil => simp_all [enter]
  | cons d ds ih =>
    unfold enter at h
    split at h
    · rcases List.mem_cons.1 h with rfl | h
      · exact .inl rfl
      · exact .inr (List.mem_cons_of_mem _ h)
    · split at h
      · rcases List.mem_cons.1 h with rfl | h
        · exact .inl rfl
        · exact .inr h
      · rcases List.mem_cons.1 h with rfl | h
        · exact .inr List.mem_cons_self
        · exact (ih h).imp_right (List.mem_cons_of_mem _)

theorem sorted_enter (name : Text) (value : Int) {es : List (Text × Int)}
    (h : es.Pairwise fun a b => a.1.precedes b.1) :
    (enter name value es).Pairwise fun a b => a.1.precedes b.1 := by
  induction es with
  | nil => simp [enter]
  | cons d ds ih =>
    have hd := List.pairwise_cons.1 h
    unfold enter
    split
    · rename_i heq
      exact List.pairwise_cons.2 ⟨fun e he => heq ▸ hd.1 e he, hd.2⟩
    · rename_i hne
      split
      · rename_i hlt
        refine List.pairwise_cons.2 ⟨fun e he => ?_, h⟩
        rcases List.mem_cons.1 he with rfl | he
        · exact hlt
        · exact Text.precedes_trans hlt (hd.1 e he)
      · rename_i hnlt
        refine List.pairwise_cons.2 ⟨fun e he => ?_, ih hd.2⟩
        rcases fst_of_mem_enter he with he | he
        · rw [he]; exact Text.precedes_of_not hnlt hne
        · exact hd.1 e he

/-- The value of a name, if it has an entry. -/
def get? (l : Ledger) (name : Text) : Option Int := find? name l.entries

/-- The value of a name; a name without an entry has the value 0. -/
def read (l : Ledger) (name : Text) : Int := (l.get? name).getD 0

/-- The ledger with the value of one name set. -/
def set (l : Ledger) (name : Text) (value : Int) : Ledger :=
  ⟨enter name value l.entries, sorted_enter name value l.sorted⟩

/-- The ledger without the entry of a name. -/
def erase (l : Ledger) (name : Text) : Ledger :=
  ⟨l.entries.filter fun e => e.1 ≠ name, l.sorted.filter _⟩

/-- The ledger after a clause has been carried out: the result of its operator on the value of
its name becomes the value of that name. -/
def update (l : Ledger) (c : Clause) : Ledger := l.set c.name (c.evaluate (l.read c.name))

/-- The ledger of pairs, a later one for a name taking the place of an earlier one. -/
def ofList (pairs : List (Text × Int)) : Ledger :=
  pairs.foldl (fun l e => l.set e.1 e.2) empty

end Ledger

end Proviso
