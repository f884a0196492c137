/-
  Outlines in files.

  A file holds an outline as UTF-8 text, whose lines may end in carriage returns. The name of
  the file, in normal form, is the source of the outline.
-/
import Proviso.Disk
import Proviso.Outline.Layout
import Proviso.Text.Utf8

namespace Proviso.Outline

/-- What keeps a file from being an outline. -/
inductive File.Cause where
  | disk (fault : Disk.Fault)
  | encoding (fault : Utf8.Fault)
  deriving DecidableEq, Repr

/-- A file that cannot be read as an outline. -/
structure File.Fault where
  path : Text
  cause : File.Cause
  deriving DecidableEq, Repr

namespace File

/-- The wording of a fault. -/
def Fault.message (f : Fault) : Text :=
  f.path ++ ": ".toList ++
    match f.cause with
    | .disk .notFound => "File not found".toList
    | .disk fault => fault.message f.path
    | .encoding fault => fault.message

/-- The outline in bytes. -/
def ofBytes (path : Text) (bytes : List UInt8) : Except Fault Outline :=
  match Utf8.decodeFile bytes with
  | .error fault => .error ⟨path, .encoding fault⟩
  | .ok t => .ok (parse path (Text.unifyBreaks t))

/-- The outline in the file at a path. -/
def read (disk : Disk) (path : Text) : Except Fault Outline :=
  let path := Disk.normalize path
  match disk.read path with
  | .error fault => .error ⟨path, .disk fault⟩
  | .ok bytes => ofBytes path bytes

end File

end Proviso.Outline
