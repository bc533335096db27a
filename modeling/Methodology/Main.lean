import Methodology.CommandLine.Program
import Methodology.Uuid.Seeded
import Std.Time.DateTime.Timestamp

/-!
# The executable

* `main`: **the program**, with its files, its randomness and its clock from outside.
-/

namespace Methodology.CommandLine

/-- The number of a system error, which may come with its sign turned. -/
def errorNumber (code : UInt32) : Nat := (if code < 0x80000000 then code else 0 - code).toNat

/-- A system error that has no fault of its own, with the number that the system gives it. -/
def otherFault (reason : String) (code : UInt32) : ReadFault :=
  .other (reason ++ " (os error " ++ Text.number (errorNumber code) ++ ")")

/-- The fault that a failed read stands for. -/
def faultOf : IO.Error → ReadFault
  | .noFileOrDirectory _ _ _ => .notFound
  | .inappropriateType _ code details =>
    if errorNumber code = 20 then .notADirectory
    else if errorNumber code = 21 then .isADirectory
    else otherFault details code
  | .permissionDenied _ code _ => otherFault "Permission denied" code
  | e => .other e.toString

/-- What reading a file gives. -/
def readFile (path : String) : IO (Except ReadFault String) := do
  match ← (IO.FS.readBinFile path).toBaseIO with
  | .ok bytes => pure (textOf bytes.toList)
  | .error e => pure (.error (faultOf e))

/-- The files that a command reads, which are read once each. -/
def filesOf (args : List String) : IO Files := do
  let paths := match Command.parse args with
    | .ok (.validate c) => c.paths
    | _ => []
  let found ← paths.mapM fun path => do pure (path, ← readFile path)
  pure fun path => (found.lookup path).getD (.error .notFound)

/-- A generator with a random key. -/
def randomGenerator : IO ChaCha.Generator := do
  let bytes ← IO.getRandomBytes 32
  let byte := fun i => (bytes.toList.getD i 0).toUInt32
  let word := fun i =>
    byte (4 * i) + byte (4 * i + 1) <<< 8 + byte (4 * i + 2) <<< 16 + byte (4 * i + 3) <<< 24
  pure ⟨Vector.ofFn fun i => word i, 0, []⟩

/-- What the clock shows. -/
def clockReading : IO Instant := do
  let now := (← Std.Time.Timestamp.now).toNanosecondsSinceUnixEpoch.val
  pure ⟨now / 1000000000, (now % 1000000000).toNat⟩

end Methodology.CommandLine

open Methodology Methodology.CommandLine in
/-- **The program.** -/
def main (args : List String) : IO UInt32 := do
  let files ← filesOf args
  let fresh := ⟨Supply.unfold Uuid.draw (← randomGenerator), Supply.constant (← clockReading)⟩
  let outcome := run args files fresh
  IO.print outcome.stdout
  IO.eprint outcome.stderr
  pure outcome.exit.toUInt32
