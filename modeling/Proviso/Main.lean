/-
  The program.

  Reads the files that the command line names and hands them, the environment and fresh
  random numbers to `Command.run`; writes, prints and exits as the outcome says.
-/
import Proviso.Command.Run
import Proviso.Settings.Lenient

namespace Proviso.Program

/-- What stands at a path. -/
def fetch (path : Text) : IO (Text × Except Disk.Fault (List UInt8)) := do
  try
    let bytes ← IO.FS.readBinFile (String.ofList path)
    return (path, .ok bytes.toList)
  catch
    | .noFileOrDirectory .. => return (path, .error .notFound)
    | .inappropriateType .. => return (path, .error .isDirectory)
    | fault => return (path, .error (.other (toString fault).toList))

/-- The paths that a command line reads. -/
def paths (words : List Text) : List Text :=
  match Command.parse words with
  | .ok (some i) =>
    let file :=
      match i.action with
      | .check file => file
      | .test file _ _ _ => file
      | .apply file _ _ => file
      | .format file _ => file
    let config :=
      match i.config with
      | .value path => [path]
      | _ => []
    (config ++ [file]).map Disk.normalize
  | _ => []

/-- A disk that holds what has been fetched and on which every path can be written. -/
def disk (fetched : List (Text × Except Disk.Fault (List UInt8))) : Disk where
  read path := (fetched.lookup path).getD (.error .notFound)
  write path := .ok path

/-- The value of an environment variable that settings are taken from. -/
def given : IO (List (Text × Text)) := do
  let names := [Settings.Layer.seedVariable, Settings.Layer.levelVariable]
  names.filterMapM fun name => do
    return (← IO.getEnv (String.ofList name)).map fun value => (name, value.toList)

/-- A generator that no run shares with another. -/
def generator : IO Twister := do
  let bytes ← IO.getRandomBytes 32
  return .ofSeed (bytes.toList.foldl (fun n b => 256 * n + b.toNat) 0 : Nat)

/-- Carries out a command line and returns the exit code. -/
def run (words : List Text) : IO UInt32 := do
  let fetched ← (paths words).mapM fetch
  let found ← given
  let world : Command.World .lenient :=
    { disk := disk fetched
      environment := .ofEnvironment .lenient fun name => found.lookup name
      shared := ← generator }
  let o := Command.run world words
  IO.eprint (String.ofList o.output.err)
  if let some (path, text) := o.output.written then
    IO.FS.writeBinFile (String.ofList path) ⟨(Utf8.encode text).toArray⟩
  IO.print (String.ofList o.output.out)
  match o.ending with
  | .ok code => return UInt32.ofNat code
  | .error fault => do
    IO.eprintln (String.ofList fault.message)
    return 1

end Proviso.Program

/-- Runs the program on its arguments. -/
def main (args : List String) : IO UInt32 := Proviso.Program.run (args.map String.toList)
