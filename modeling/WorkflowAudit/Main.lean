import Std.Time.DateTime.Timestamp
import WorkflowAudit.Files.Tree
import WorkflowAudit.Program.Run

/-! The program on this machine: its questions are answered by the file system and the clock. There
is no way to the network, so requests stay without an answer. -/

namespace WorkflowAudit.Main

open Files (Layout)
open Program (Environment Question)

def layout (path : String) : Nat → IO Layout
  | 0 => return .directory []
  | depth + 1 => do
    let place ← IO.FS.realPath path
    if !(← place.isDir) then return .file
    let children ← (← place.readDir).toList.mapM fun child =>
      return (child.fileName, ← layout child.path.toString depth)
    return .directory children

def depthLimit : Nat := 4096

def errorOfCode (code : UInt32) : Files.Error :=
  let code := min code.toNat (Nat.pow 2 32 - code.toNat)
  if code = 2 then .notFound
  else if code = 13 then .denied
  else if code = 17 then .alreadyExists
  else if code = 20 then .notDirectory
  else if code = 21 then .isDirectory
  else if code = 36 then .nameTooLong
  else .failed

def errorOf : IO.Error → Files.Error
  | .noFileOrDirectory _ code _ | .noSuchThing _ code _ | .permissionDenied _ code _
  | .alreadyExists _ code _ | .inappropriateType _ code _ | .invalidArgument _ code _ =>
    errorOfCode code
  | _ => .failed

def attempt {α : Type} (action : IO α) : IO (Except Files.Error α) := do
  try return .ok (← action) catch e => return .error (errorOf e)

def isDirectory (path : String) : IO Bool := do
  try (← IO.FS.realPath path).isDir catch _ => return false

def makeDirectory (path : String) : Nat → IO (Except Files.Error Unit)
  | 0 => return .error .nameTooLong
  | depth + 1 => do
    match ← attempt (IO.FS.createDir path) with
    | .ok () => return .ok ()
    | .error .notFound =>
      match ← makeDirectory (Files.Store.parent path) depth with
      | .ok () => attempt (IO.FS.createDir path)
      | .error e => return .error e
    | .error e => return if ← isDirectory path then .ok () else .error e

def answerFiles : (q : Files.Question) → IO q.Answer
  | .layout path => do
    try return some (← layout path depthLimit) catch _ => return none
  | .read path => do
    match ← attempt (IO.FS.readBinFile path) with
    | .ok bytes =>
      match String.fromUTF8? bytes with
      | some text => return .ok text
      | none => return .error .notText
    | .error e => return .error e
  | .makeDirectory path => makeDirectory path depthLimit
  | .write path text => attempt (IO.FS.writeFile path text)

def answer : (q : Question) → IO q.Answer
  | .files q => answerFiles q
  | .request _ => return none
  | .interrupted => return false
  | .now => do
    let now ← Std.Time.Timestamp.now
    return ⟨now.val.second.val, now.val.nano.val.toNat⟩

def environment : IO Environment := do
  let names := ["GITHUB_TOKEN", "CLICOLOR", "CLICOLOR_FORCE", "NO_COLOR"]
  let values ← names.filterMapM fun name => do
    return (← IO.getEnv name).map fun value => (name, value)
  return ⟨values, ← (← IO.getStdout).isTty⟩

end WorkflowAudit.Main

open WorkflowAudit in
def main (arguments : List String) : IO UInt32 := do
  let run := Program.run (← Main.environment) arguments
  let result ← run.runWith Main.answer
  IO.print result.output
  IO.eprint result.errors
  return result.exitCode.toUInt32
