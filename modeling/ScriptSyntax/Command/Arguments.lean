/-
The arguments of the command line. An argument that begins with a dash is an option, unless it is
a lone dash, looks like a negative number or holds a blank; a double dash ends the options. Long
options may be cut short, short ones run together, also with an equals sign behind the first of
them. The files are the first run of arguments that are no options; a later run is left over.

All arguments are sorted before any option takes effect. The first option that asks for help, or
that cannot stand where it does, ends the reading; what is left over is reported at the end.
-/
import ScriptSyntax.Text.Numeric
import ScriptSyntax.Text.Quoted

namespace ScriptSyntax.Command

inductive Flag where
  | help | json | tokens | verbose
deriving DecidableEq, Repr

namespace Flag

/-- The flags with a short spelling. -/
def short : List (String × Flag) := [("-h", .help), ("-v", .verbose)]

/-- All long spellings, in the order in which the help shows them. -/
def long : List (String × Flag) :=
  [("--help", .help), ("--json", .json), ("--tokens", .tokens), ("--verbose", .verbose)]

def ofSpelling? (s : String) : Option Flag := (short ++ long).lookup s

/-- How messages call a flag. -/
def title : Flag → String
  | .help => "-h/--help"
  | .json => "--json"
  | .tokens => "--tokens"
  | .verbose => "-v/--verbose"

/-- The flag that may not stand beside this one. -/
def rival? : Flag → Option Flag
  | .json => some .tokens
  | .tokens => some .json
  | _ => none

end Flag

/-- What is wrong with the arguments. -/
inductive UsageError where
  | ambiguous (argument : String) (matching : List String)
  | ignoredValue (flag : Flag) (value : String)
  | conflict (flag rival : Flag)
  | missingFiles
  | unrecognized (arguments : List String)
deriving DecidableEq, Repr

def UsageError.message : UsageError → String
  | .ambiguous argument matching =>
    "ambiguous option: " ++ argument ++ " could match " ++ ", ".intercalate matching
  | .ignoredValue flag value =>
    "argument " ++ flag.title ++ ": ignored explicit argument " ++ Text.quoted value
  | .conflict flag rival =>
    "argument " ++ flag.title ++ ": not allowed with argument " ++ rival.title
  | .missingFiles => "the following arguments are required: files"
  | .unrecognized arguments => "unrecognized arguments: " ++ " ".intercalate arguments

/-- What an argument is, by its own spelling. -/
inductive Argument where
  | operand (s : String)
  /-- The double dash that ends the options. -/
  | separator
  | flag (f : Flag)
  /-- A flag with a value, which no flag takes. -/
  | flagWithValue (f : Flag) (value : String)
  /-- A short flag with the letters of more flags behind it. -/
  | cluster (f : Flag) (letters : List Char)
  | unknown (s : String)
deriving DecidableEq, Repr

namespace Argument

/-- Digits of any script, with at most one point before the last of them. -/
def looksNumeric (cs : List Char) : Bool :=
  let cs := if cs.getLast? = some '\n' then cs.dropLast else cs
  match cs.dropWhile Text.isDecimalDigit with
  | [] => !cs.isEmpty
  | '.' :: rest => !rest.isEmpty && rest.all Text.isDecimalDigit
  | _ => false

/-- The text before the first equals sign, and the text behind it. -/
def splitValue (cs : List Char) : List Char × Option (List Char) :=
  match cs.dropWhile (· != '=') with
  | [] => (cs, none)
  | _ :: value => (cs.takeWhile (· != '='), some value)

/-- A flag with text behind it. A short flag takes letters of more flags, but not none of them. -/
def ofAttached (f : Flag) (isShort : Bool) (text : List Char) : Argument :=
  if isShort && !text.isEmpty then .cluster f text else .flagWithValue f (String.ofList text)

/-- An argument that no spelling equals and that begins with two dashes. -/
def ofLong? (cs : List Char) : Except UsageError (Option Argument) :=
  let (start, value) := splitValue cs
  match Flag.long.filter fun p => start.isPrefixOf p.1.toList with
  | [] => .ok none
  | [p] => .ok (some (value.elim (.flag p.2) (ofAttached p.2 false)))
  | ps => .error (.ambiguous (String.ofList cs) (ps.map (·.1)))

/-- An argument that begins with a dash and more. -/
def ofDashed (cs : List Char) : Except UsageError Argument := do
  let s := String.ofList cs
  let known : Option Argument ← match cs with
    | '-' :: '-' :: _ => ofLong? cs
    | '-' :: c :: tail =>
      pure ((Flag.ofSpelling? (String.ofList ['-', c])).map (ofAttached · true tail))
    | _ => pure none
  match known with
  | some a => return a
  | none =>
    if looksNumeric cs.tail || cs.contains ' ' then return .operand s else return .unknown s

/-- Sorts an argument that stands before any double dash. -/
def ofString (s : String) : Except UsageError Argument :=
  let cs := s.toList
  match cs with
  | '-' :: second :: _ =>
    match Flag.ofSpelling? s with
    | some f => .ok (.flag f)
    | none =>
      let (start, value) := splitValue cs
      match value, Flag.ofSpelling? (String.ofList start) with
      | some v, some f => .ok (ofAttached f (second != '-') v)
      | _, _ => ofDashed cs
  | _ => .ok (.operand s)

/-- Sorts all arguments. -/
def ofStrings : List String → Except UsageError (List Argument)
  | [] => .ok []
  | s :: ss =>
    if s = "--" then .ok (.separator :: ss.map .operand)
    else do return (← ofString s) :: (← ofStrings ss)

/-- The argument as it was spelled, for those that can be left over. -/
def spelling : Argument → String
  | .operand s | .unknown s => s
  | _ => "--"

def isOption : Argument → Bool
  | .operand _ | .separator => false
  | _ => true

end Argument

/-- Flag `f` and the flags of the letters behind it. A letter of no flag makes it and all behind it a
value of the flag before. -/
def expandCluster (f : Flag) : List Char → Except UsageError (List Flag)
  | [] => .ok [f]
  | c :: cs =>
    match Flag.ofSpelling? (String.ofList ['-', c]) with
    | none => .error (.ignoredValue f (String.ofList (c :: cs)))
    | some g => (f :: ·) <$> expandCluster g cs

/-- What the arguments read so far ask for. -/
structure Reading where
  flags : List Flag
  /-- The files, once they have been read. -/
  files : Option (List String)
  /-- Arguments that are left over. -/
  extra : List String
deriving Repr

/-- What the command is asked to do. -/
inductive Request where
  | help
  /-- To report on files, with some flags set. -/
  | files (flags : List Flag) (names : List String)
deriving DecidableEq, Repr

namespace Reading

/-- Sets flags in order; nothing comes of it when help is asked for. -/
def takeFlags (r : Reading) : List Flag → Except UsageError (Option Reading)
  | [] => .ok (some r)
  | .help :: _ => .ok none
  | f :: fs =>
    match f.rival?.filter (r.flags.contains ·) with
    | some rival => .error (.conflict f rival)
    | none => takeFlags { r with flags := r.flags ++ [f] } fs

/-- Takes an option; nothing comes of it when help is asked for. -/
def takeOption (r : Reading) : Argument → Except UsageError (Option Reading)
  | .flag f => r.takeFlags [f]
  | .flagWithValue f value => .error (.ignoredValue f value)
  | .cluster f letters => do r.takeFlags (← expandCluster f letters)
  | a => .ok (some { r with extra := r.extra ++ [a.spelling] })

/-- Takes a run of arguments that are no options: the files, if they have not been read. -/
def takeRun (r : Reading) (run : List Argument) : Reading :=
  let names := run.filterMap fun
    | .operand s => some s
    | _ => none
  if r.files.isNone && !names.isEmpty then { r with files := some names }
  else { r with extra := r.extra ++ run.map Argument.spelling }

/-- Takes all arguments; `run` holds those since the last option. -/
def takeAll (r : Reading) (run : List Argument) : List Argument → Except UsageError (Option Reading)
  | [] => .ok (some (r.takeRun run))
  | a :: as =>
    if a.isOption then do
      match ← (r.takeRun run).takeOption a with
      | none => return none
      | some r => r.takeAll [] as
    else r.takeAll (run ++ [a]) as

end Reading

/-- What the arguments ask for. -/
def Request.ofArguments (argv : List String) : Except UsageError Request := do
  match ← Reading.takeAll ⟨[], none, []⟩ [] (← Argument.ofStrings argv) with
  | none => return .help
  | some r =>
    match r.files with
    | none => throw .missingFiles
    | some names =>
      if r.extra.isEmpty then return .files r.flags names else throw (.unrecognized r.extra)

def usage : String := "usage: vnscript [-h] [--json | --tokens] [-v] files [files ...]\n"

def UsageError.report (e : UsageError) : String :=
  usage ++ "vnscript: error: " ++ e.message ++ "\n"

def helpText : String :=
  usage ++ "\n" ++
  "Parse .vns script expressions\n" ++
  "\n" ++
  "positional arguments:\n" ++
  "  files          Script files, one expression each\n" ++
  "\n" ++
  "options:\n" ++
  "  -h, --help     show this help message and exit\n" ++
  "  --json         Print the AST with spans as JSON\n" ++
  "  --tokens       Print the token stream\n" ++
  "  -v, --verbose  Enable debug logging\n"

end ScriptSyntax.Command
