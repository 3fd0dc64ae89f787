/-
The command over a list of files: each file is read, and its expression is dumped, written as JSON
or listed token by token. What goes wrong with a file is reported, and the next file is taken, unless
the name of the file leads nowhere or its tree is too deep to be printed: that ends the run. The files
are independent of each other but for this and for the symbols of their names.
-/
import ScriptSyntax.Command.Arguments
import ScriptSyntax.Command.Location
import ScriptSyntax.Diagnostic
import ScriptSyntax.Expr.Json
import ScriptSyntax.Expr.Printer
import ScriptSyntax.Expr.Session
import ScriptSyntax.Text.Utf8

namespace ScriptSyntax.Command

/-- What ends a run before its end. -/
inductive RunFault where
  | name (f : NameFault)
  | symbol (e : Interner.UnknownSymbol)
  | print (e : PrintError)
deriving DecidableEq

def RunFault.message : RunFault → String
  | .name f => f.message
  | .symbol e => e.message
  | .print e => e.message

/-- What a run leaves behind: its exit status, or the fault that ended it, and the texts it prints. -/
structure Report where
  ending : Except RunFault Nat
  out : String
  err : String

namespace Report

def empty : Report := ⟨.ok 0, "", ""⟩

/-- One report after another; the worse status counts. Behind a fault nothing follows. -/
def append (a b : Report) : Report :=
  match a.ending with
  | .ok status => ⟨b.ending.map (max status), a.out ++ b.out, a.err ++ b.err⟩
  | .error _ => a

def printed (text : String) : Report := ⟨.ok 0, text ++ "\n", ""⟩

def noted (text : String) : Report := ⟨.ok 0, "", text ++ "\n"⟩

def failed (text : String) : Report := ⟨.ok 1, "", text ++ "\n"⟩

def ended (f : RunFault) : Report := ⟨.error f, "", ""⟩

end Report

/-- Why a file holds no text. -/
inductive LoadFault where
  | read (f : ReadFault)
  | decode (r : Text.Utf8.Refusal)
deriving DecidableEq, Repr

def LoadFault.message (f : LoadFault) (l : Location) : String :=
  match f with
  | .read f => f.message l
  | .decode r => r.message

/-- The text of a file, with newlines alone at the ends of its lines. -/
def loadText (disk : Disk) (l : Location) : Except LoadFault String := do
  let bytes ← (disk.read l).mapError .read
  let cs ← (Text.Utf8.decode bytes).mapError .decode
  return String.ofList (Text.unifyNewlines cs)

/-- What is shown of a file. -/
inductive Mode where
  | dump | json | tokens
deriving DecidableEq, Repr

def Mode.ofFlags (flags : List Flag) : Mode :=
  if flags.contains .tokens then .tokens else if flags.contains .json then .json else .dump

/-- A line of a token listing. -/
def tokenLine (t : Token) : String :=
  t.span.text ++ "\t" ++ t.kind.name ++ "\t" ++ Text.quoted t.lexeme

/-- A note that is written only when many words are asked for. -/
def note (verbose : Bool) (text : String) : Report := if verbose then .noted text else .empty

/-- The report on what is wrong with a source. -/
def reportError (names : Interner) (src : String) (e : ScriptError) : Report :=
  match e.diagnosticIn names (some src) with
  | .ok text => .failed text
  | .error f => .ended (.symbol f)

/-- The report on a tree that is dumped or written as JSON, with so many frames left. -/
def reportTree (frames : Nat) (mode : Mode) (e : Expr Span) : Report :=
  match if mode = .json then e.jsonWithin frames else e.dumpWithin frames with
  | .ok text => .printed text
  | .error f => .ended (.print f)

/-- The report on a source whose file has that name, and that symbol among the names. -/
def reportSource (frames : Nat) (mode : Mode) (verbose : Bool) (names : Interner) (name : String)
    (file : Symbol) (src : String) : Report :=
  match tokenize file src with
  | .error e => reportError names src e.report
  | .ok ts =>
    let count := toString ts.toList.length
    (note verbose ("vnscript.lexer: lexed " ++ count ++ " tokens from " ++ name)).append <|
      match mode with
      | .tokens => ⟨.ok 0, String.join (ts.toList.map fun t => tokenLine t ++ "\n"), ""⟩
      | _ =>
        match parseTokens ts with
        | .error e => reportError names src e.report
        | .ok e =>
          (note verbose ("vnscript.api: parsed expression from " ++ name ++ " (" ++ count ++
            " tokens)")).append (reportTree frames mode e)

/-- The report on the file of a name. -/
def reportFile (m : Machine) (mode : Mode) (verbose : Bool) (names : Interner) (name : String) :
    Report × Interner :=
  match m.follow name with
  | .error f => (.ended (.name f), names)
  | .ok l =>
    match loadText m.disk l with
    | .error f => (.failed (l.text ++ ": cannot read script: " ++ f.message l), names)
    | .ok src =>
      let (file, names) := names.intern l.text
      (reportSource m.frames mode verbose names l.text file src, names)

/-- The report on the files of a list of names, up to the first one that ends the run. -/
def reportFiles (m : Machine) (mode : Mode) (verbose : Bool) (names : Interner) :
    List String → Report
  | [] => .empty
  | f :: fs =>
    let (report, names) := reportFile m mode verbose names f
    report.append (reportFiles m mode verbose names fs)

/-- The names of the files that the arguments ask for. -/
def fileNames (argv : List String) : List String :=
  match Request.ofArguments argv with
  | .ok (.files _ names) => names
  | _ => []

/-- Runs the command with its arguments. -/
def run (m : Machine) (argv : List String) : Report :=
  match Request.ofArguments argv with
  | .error e => ⟨.ok 2, "", e.report⟩
  | .ok .help => ⟨.ok 0, helpText, ""⟩
  | .ok (.files flags names) =>
    reportFiles m (.ofFlags flags) (flags.contains .verbose) .empty names

/-- Why a file holds no expression. -/
inductive FileError where
  | name (f : NameFault)
  | load (l : Location) (f : LoadFault)
  | source (e : SourceError)
deriving DecidableEq

/-- The expression that the file of a name holds, and the place of the file. -/
def parseFile (m : Machine) (names : Interner) (name : String) :
    Except FileError (Location × Expr Span) × Interner :=
  match m.follow name with
  | .error f => (.error (.name f), names)
  | .ok l =>
    match loadText m.disk l with
    | .error f => (.error (.load l f), names)
    | .ok src =>
      let (file, names) := names.intern l.text
      ((parseExpression file src).mapError .source |>.map (l, ·), names)

end ScriptSyntax.Command
