/-
  TOML documents.

  A document is a sequence of statements: a key with a value, the header of a table, or the
  header of a further table in a list of tables. Three marks on paths of keys keep a document
  from saying a thing twice: tables that have been declared, tables that a dotted key has
  opened and that count as declared from the next header on, and values in brackets or
  braces, which are complete as they stand.
-/
import Proviso.Text.Lines
import Proviso.Toml.Scalar

namespace Proviso.Toml

/-- Whether a path or one that it goes through is among `paths`. -/
def covers (paths : List (List Text)) (path : List Text) : Bool :=
  paths.any fun p => !p.isEmpty && p.isPrefixOf path

/-- Skips blanks, line ends and comments. -/
def skipBlock : Nat → Reader Unit
  | 0 => return
  | fuel + 1 => do
    modify (·.dropWhile isGapOrBreak)
    match ← get with
    | '#' :: _ => do
      skipComment
      skipBlock fuel
    | _ => return

/-- Skips blanks, line ends and comments as far as they go. -/
def skipBlocks : Reader Unit := do skipBlock ((← get).length + 1)

/-- Takes one character that has to be there. -/
def expect (c : Char) : Reader Unit := .ofOption fun t => (Text.after? [c] t).map ((), ·)

/-- Whether a value is complete as it stands. -/
def isClosed : Value → Bool
  | .array _ => true
  | .table _ => true
  | _ => false

mutual

/-- Reads a value. -/
def readValue : Nat → Reader Value
  | 0 => Reader.fail
  | fuel + 1 => do
    match ← get with
    | '[' :: t =>
      set t
      skipBlocks
      return .array (← readItems fuel)
    | '{' :: t =>
      set (t.dropWhile isGap)
      match ← get with
      | '}' :: t =>
        set t
        return .table []
      | _ => return .table (← readPairs fuel [] [])
    | '"' :: _ => return .text (← Reader.ofOption string?)
    | '\'' :: _ => return .text (← Reader.ofOption string?)
    | t =>
      match Text.after? ['t', 'r', 'u', 'e'] t, Text.after? ['f', 'a', 'l', 's', 'e'] t with
      | some t, _ =>
        set t
        return .boolean true
      | _, some t =>
        set t
        return .boolean false
      | none, none => readScalar

/-- Reads the items of a list up to its closing bracket. -/
def readItems : Nat → Reader (List Value)
  | 0 => Reader.fail
  | fuel + 1 => do
    match ← get with
    | ']' :: t =>
      set t
      return []
    | _ =>
      let v ← readValue fuel
      skipBlocks
      match ← get with
      | ']' :: t =>
        set t
        return [v]
      | ',' :: t =>
        set t
        skipBlocks
        return v :: (← readItems fuel)
      | _ => Reader.fail

/-- Reads the pairs of a table in braces up to its closing brace, given the table so far and the
paths in it that are complete. -/
def readPairs : Nat → Table → List (List Text) → Reader Table
  | 0, _, _ => Reader.fail
  | fuel + 1, table, complete => do
    let key ← readKey
    expect '='
    skipGap
    let v ← readValue fuel
    if covers complete key then Reader.fail
    else
      match table.alter false (Table.add? (key.getLastD []) v) key.dropLast with
      | none => Reader.fail
      | some table =>
        skipGap
        match ← get with
        | '}' :: t =>
          set t
          return table
        | ',' :: t =>
          set t
          skipGap
          readPairs fuel table (if isClosed v then key :: complete else complete)
        | _ => Reader.fail

end

/-- The document so far. -/
structure Document where
  table : Table
  /-- The path of the table that keys belong to at present. -/
  header : List Text
  /-- Tables that may not be declared again. -/
  declared : List (List Text)
  /-- Tables that will count as declared from the next header on. -/
  opened : List (List Text)
  /-- Values that may not be added to. -/
  complete : List (List Text)

namespace Document

/-- A document without statements. -/
def empty : Document := ⟨[], [], [], [], []⟩

/-- The paths that a dotted key goes through, below the path of a table. -/
def through (header key : List Text) : List (List Text) :=
  (List.range (key.length - 1)).map fun i => header ++ key.take (i + 1)

/-- The document after a key with a value. -/
def assign (d : Document) (key : List Text) (v : Value) : Option Document :=
  let passed := through d.header key
  if passed.any (d.declared.contains ·) || covers d.complete (d.header ++ key.dropLast) then none
  else
    (d.table.alter true (Table.add? (key.getLastD []) v) (d.header ++ key.dropLast)).map
      fun table =>
        { d with
          table := table
          opened := passed ++ d.opened
          complete := if isClosed v then (d.header ++ key) :: d.complete else d.complete }

/-- The document in front of a header: opened tables count as declared. -/
def settle (d : Document) : Document :=
  { d with declared := d.opened ++ d.declared, opened := [] }

/-- The document after the header of a table. -/
def declare (d : Document) (key : List Text) : Option Document :=
  if d.declared.contains key || covers d.complete key then none
  else
    (d.table.alter true some key).map fun table =>
      { d with table := table, header := key, declared := key :: d.declared }

/-- The document after the header of a further table in a list. What was said about the table
before it does not bind the new one. -/
def declareItem (d : Document) (key : List Text) : Option Document :=
  if covers d.complete key then none
  else
    let outside := fun path : List Text => !key.isPrefixOf path
    (d.table.alter true (Table.addToList? (key.getLastD [])) key.dropLast).map fun table =>
      { d with
        table := table
        header := key
        declared := key :: d.declared.filter outside
        complete := d.complete.filter outside }

/-- Reads one statement, up to the blanks behind it. -/
def readStatement (d : Document) : Reader Document := do
  match ← get with
  | '[' :: '[' :: t =>
    set (t.dropWhile isGap)
    let key ← readKey
    match d.settle.declareItem key with
    | none => Reader.fail
    | some d =>
      expect ']'
      expect ']'
      return d
  | '[' :: t =>
    set (t.dropWhile isGap)
    let key ← readKey
    match d.settle.declare key with
    | none => Reader.fail
    | some d =>
      expect ']'
      return d
  | t =>
    let key ← readKey
    expect '='
    skipGap
    let v ← readValue (2 * t.length + 2)
    match d.assign key v with
    | none => Reader.fail
    | some d => return d

/-- Reads all statements. -/
def readAll : Nat → Document → Reader Document
  | 0, d => return d
  | fuel + 1, d => do
    skipGap
    match ← get with
    | [] => return d
    | '\n' :: t =>
      set t
      readAll fuel d
    | c :: _ =>
      let d ← if c = '#' then pure d else d.readStatement
      skipGap
      skipComment
      match ← get with
      | [] => return d
      | '\n' :: t =>
        set t
        readAll fuel d
      | _ => Reader.fail

/-- The table of a document. Carriage returns in front of line feeds do not count. -/
def parse (t : Text) : Except Fault Table :=
  let t := Text.joinReturns t
  ((readAll (t.length + 1) .empty).run t).map (·.1.table)

end Document

end Proviso.Toml
