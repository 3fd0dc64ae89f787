/-
The command line program. It reads the files that its arguments name and prints the report on them.
-/
import ScriptSyntax.Command.Run

namespace ScriptSyntax.Command

/-- A fault of the operating system; one that has no number counts as a fault of the device. -/
def ReadFault.ofError : IO.Error → ReadFault
  | .noFileOrDirectory _ code reason => .ofCode code.toNat reason
  | .inappropriateType _ code reason => .ofCode code.toNat reason
  | .permissionDenied _ code reason => .ofCode code.toNat reason
  | .invalidArgument _ code reason => .ofCode code.toNat reason
  | .resourceExhausted _ code reason => .ofCode code.toNat reason
  | e => .ofCode 5 (toString e)

/-- The bytes of the file at a place. -/
def readPlace (l : Location) : IO (Except ReadFault (List UInt8)) := do
  try
    return .ok (← IO.FS.readBinFile l.text).toList
  catch e =>
    return .error (.ofError e)

/-- Where the names of this run lead from. -/
def origin : IO Origin := do
  let here := Location.ofPath (← IO.currentDir).toString
  let home := (← IO.getEnv "HOME").elim here Location.ofPath
  let accounts ← try IO.FS.readFile "/etc/passwd" catch _ => pure ""
  return ⟨here, home, Origin.homesOf accounts⟩

/-- The number of the fault that links lead in a circle. -/
def loopCode : Nat := 40

/-- The links on a way, with the places that they lead to. A link that leads in a circle is said to lead
to itself. -/
def linksOn (l : Location) : List String → IO (List (Location × Location))
  | [] => return []
  | part :: rest => do
    let next := l.step part
    let real ← try
        pure (Location.ofPath (← IO.FS.realPath next.text).toString)
      catch e =>
        if (ReadFault.ofError e).code = loopCode then return [(next, next)] else pure next
    let links ← linksOn real rest
    return if real = next then links else (next, real) :: links

/-- The machine of this run, as far as the names are concerned. -/
def machine (names : List String) : IO Machine := do
  let o ← origin
  let links := (← (names.filterMap fun name => (o.expand name).toOption).mapM fun (l, way) =>
    linksOn l way).flatten
  let disk : Disk := ⟨fun l => (links.lookup l).map (·.text), fun l => links.lookup l = some l,
    fun _ => .error .notFound⟩
  let m : Machine := ⟨o, disk, stackFrames⟩
  let read ← (names.filterMap fun name => (m.follow name).toOption).mapM fun l =>
    return (l, ← readPlace l)
  return { m with disk.read := fun l => (read.lookup l).getD (.error .notFound) }

end ScriptSyntax.Command

open ScriptSyntax.Command in
def main (argv : List String) : IO UInt32 := do
  let report := run (← machine (fileNames argv)) argv
  IO.print report.out
  IO.eprint report.err
  match report.ending with
  | .ok status => return UInt32.ofNat status
  | .error fault =>
    IO.eprintln fault.message
    return 1
