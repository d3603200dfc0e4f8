import SessionWarden.Program
import Std.Time.DateTime.Timestamp
/-!
# The executable

Gives the program its files, its clock and its random bytes, and prints what a run says.
-/

namespace SessionWarden

def FileError.ofSystem : IO.Error → FileError
  | .noFileOrDirectory .. => .notFound
  | .inappropriateType _ code _ => if code = 20 then .notDirectory else .isDirectory
  | .permissionDenied .. => .other "Permission denied (os error 13)"
  | e => .other (toString e)

def isRegularFile (path : String) : IO Bool := do
  let entry : IO.FS.DirEntry := { root := path, fileName := "" }
  return (← entry.root.metadata).type == IO.FS.FileType.file

def systemFiles : Files IO where
  read path := do
    match ← (IO.FS.readBinFile path).toBaseIO with
    | .ok content => return .ok content.toList
    | .error e => return .error (.ofSystem e)
  isFile path := do
    match ← (isRegularFile path).toBaseIO with
    | .ok isFile => return .ok isFile
    | .error e => return .error (.ofSystem e)
  workingDirectory := return (← IO.currentDir).toString

def systemClock : IO Instant := do
  let time ← Std.Time.Timestamp.now
  return .ofParts time.val.second.val time.val.nano.val

/-- A line of the log with its time, the levels flush at their right ends. -/
def timedLine (now : Instant) (n : Note) : String :=
  let padding := String.ofList (List.replicate (5 - n.level.label.length) ' ')
  now.timestamp "Z" ++ " " ++ padding ++ n.line

def Run.report (run : Run) (now : Instant) : IO UInt32 := do
  for line in run.printed do IO.println line
  for note in run.log do IO.println (timedLine now note)
  match run.ending with
  | .exit code errors =>
    for line in errors do IO.eprintln line
    return code.toUInt32
  | .serve _ address =>
    IO.eprintln ("Error: no transport to listen on " ++ address)
    return 1

end SessionWarden

open SessionWarden in
def main (words : List String) : IO UInt32 := do
  let now ← systemClock
  let salt := (← IO.getRandomBytes 16).toList
  let run ← Run.ofWords systemFiles now salt (← IO.getEnv "RUST_LOG") words
  run.report now
