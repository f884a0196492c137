/-
  Files by their paths.

  A path is brought into normal form before it is used or shown: empty parts and parts `.`
  do not count. A disk answers what is read at a path, and whether a file can be put there.
-/
import Proviso.Text.Quoted

namespace Proviso

/-- Why a path cannot be read or written. -/
inductive Disk.Fault where
  | notFound
  | notDirectory
  | isDirectory
  | nameTooLong
  /-- The path contains the character U+0000. -/
  | nullCharacter
  /-- Any other fault, such as a missing permission or a full disk, in the words of the system. -/
  | other (message : Text)
  deriving DecidableEq, Repr

/-- What the paths of a file system lead to. -/
structure Disk where
  /-- The bytes of the file at a path. -/
  read : Text → Except Disk.Fault (List UInt8)
  /-- The name of the file that is written at a path. -/
  write : Text → Except Disk.Fault Text

namespace Disk

/-- The wording of a fault at a path. -/
def Fault.message (path : Text) : Fault → Text
  | .notFound => "[Errno 2] No such file or directory: ".toList ++ path.quoted
  | .notDirectory => "[Errno 20] Not a directory: ".toList ++ path.quoted
  | .isDirectory => "[Errno 21] Is a directory: ".toList ++ path.quoted
  | .nameTooLong => "[Errno 36] File name too long: ".toList ++ path.quoted
  | .nullCharacter => "embedded null byte".toList
  | .other message => message

/-! ### Paths -/

/-- The parts of a path between slashes, without those that do not count. -/
def parts (path : Text) : List Text :=
  (split path).filter fun p => p ≠ [] ∧ p ≠ ['.']
where
  /-- The parts of a path between slashes. -/
  split : Text → List Text
    | [] => [[]]
    | c :: cs =>
      if c = '/' then [] :: split cs
      else
        match split cs with
        | [] => [[c]]
        | p :: ps => (c :: p) :: ps

/-- The slashes that begin a path from the root: two stay two, any other number counts as one. -/
def rootOf : Text → Text
  | '/' :: '/' :: '/' :: _ => ['/']
  | '/' :: '/' :: _ => ['/', '/']
  | '/' :: _ => ['/']
  | _ => []

/-- The normal form of a path. The path without parts is `.`. -/
def normalize (path : Text) : Text :=
  match rootOf path, parts path with
  | [], [] => ['.']
  | root, ps => root ++ Text.join ['/'] ps

/-! ### A disk from a list of entries -/

/-- What stands at a place. -/
inductive Entry where
  | file (bytes : List UInt8)
  | directory

/-- Entries by their places, a place being given by its parts from the root down. -/
abbrev Entries := List (List Text × Entry)

/-- The entry at a place. The root is a directory, and so is whatever has an entry below it. -/
def Entries.entry? (es : Entries) (place : List Text) : Option Entry :=
  match List.find? (fun e => e.1 == place) es with
  | some e => some e.2
  | none =>
    if place.isEmpty || es.any fun e => place.isPrefixOf e.1 then some .directory else none

/-- Follows the parts of a path from a place: the place that it leads to. The last part need not
exist. Nothing is above the root. -/
def Entries.resolve (es : Entries) (start : List Text) : List Text → Except Fault (List Text)
  | [] => .ok start
  | p :: ps =>
    match es.entry? start with
    | none => .error .notFound
    | some (.file _) => .error .notDirectory
    | some .directory =>
      if 255 < (String.ofList p).utf8ByteSize then .error .nameTooLong
      else es.resolve (if p = ['.', '.'] then start.dropLast else start ++ [p]) ps

/-- What a path leads to: a place, and what stands there. A path without a root starts from the
directory `home`. -/
def Entries.locate (es : Entries) (home : List Text) (path : Text) :
    Except Fault (List Text × Option Entry) :=
  if '\x00' ∈ path then .error .nullCharacter
  else if 4095 < (String.ofList path).utf8ByteSize then .error .nameTooLong
  else
    let start := if (rootOf path).isEmpty then home else []
    (es.resolve start (parts path)).map fun place => (place, es.entry? place)

/-- The name of a place: the shortest path to it if it is below the directory `home`, and the
path from the root otherwise. -/
def nameOf (home place : List Text) : Text :=
  if home.isPrefixOf place then Text.join ['/'] (place.drop home.length)
  else '/' :: Text.join ['/'] place

/-- The disk with the given entries, seen from the directory `home`. A file can be put into every
directory; no path has a fault of the sort `Fault.other`. -/
def ofEntries (home : List Text) (es : Entries) : Disk :=
  let all : Entries := (home, .directory) :: es
  { read := fun path =>
      match all.locate home path with
      | .error fault => .error fault
      | .ok (_, none) => .error .notFound
      | .ok (_, some .directory) => .error .isDirectory
      | .ok (_, some (.file bytes)) => .ok bytes
    write := fun path =>
      match all.locate home path with
      | .error fault => .error fault
      | .ok (_, some .directory) => .error .isDirectory
      | .ok (place, _) => .ok (nameOf home place) }

end Disk

end Proviso
