/-
Places in the directory tree, and the files there. A name leads from the working directory, from a
home directory if it begins with a tilde, or from the root; single dots stand still, double dots go
up one directory, whatever lies there. Symbolic links on the way are followed. Links may lead in a
circle, and then the name leads nowhere; but what the name goes back from again by double dots does not
count.
-/
import ScriptSyntax.Text.Quoted

namespace ScriptSyntax.Command

/-- A place, by the names on the way to it from the root. -/
structure Location where
  names : List String
deriving DecidableEq, Repr

namespace Location

def root : Location := ⟨[]⟩

def text (l : Location) : String :=
  if l.names.isEmpty then "/" else String.join (l.names.map ("/" ++ ·))

/-- The parts of a name that lead on. -/
def parts (name : String) : List String :=
  ((name.toList.splitOn '/').map String.ofList).filter fun s => s ≠ "" && s ≠ "."

/-- Does a name lead from the root? -/
def fromRoot (name : String) : Bool := name.toList.head? == some '/'

/-- One step of a way. -/
def step (l : Location) (part : String) : Location :=
  ⟨if part = ".." then l.names.dropLast else l.names ++ [part]⟩

/-- The place that a way leads to when no link is followed. -/
def steps (l : Location) (way : List String) : Location := way.foldl step l

/-- The place that a path leads to from the root. -/
def ofPath (path : String) : Location := root.steps (parts path)

end Location

/-- Why a name leads nowhere. -/
inductive NameFault where
  | zeroCharacter
  | unknownHome
  /-- The links on the way to the place lead in a circle. -/
  | linkLoop (l : Location)
  /-- No frame of the stack is left for the next of links that lead to links. -/
  | tooDeep
deriving DecidableEq, Repr

def NameFault.message : NameFault → String
  | .zeroCharacter => "embedded null byte"
  | .unknownHome => "Could not determine home directory."
  | .linkLoop l => "Symlink loop from " ++ Text.quoted l.text
  | .tooDeep => "maximum recursion depth exceeded"

/-- Where names lead from. -/
structure Origin where
  /-- The working directory. -/
  here : Location
  /-- The home directory of the one who runs the command. -/
  home : Location
  /-- The home directories of users, by their names. -/
  homes : List (String × Location)
deriving Repr

namespace Origin

/-- The home directory that a tilde with the name of a user behind it stands for. -/
def home? (o : Origin) (user : List Char) : Option Location :=
  if user.isEmpty then some o.home else o.homes.lookup (String.ofList user)

/-- The home directories in a list of accounts: a line has fields between colons, the first of them
the name of the user and the sixth the directory. -/
def homesOf (accounts : String) : List (String × Location) :=
  (accounts.splitOn "\n").filterMap fun line =>
    match line.splitOn ":" with
    | user :: _ :: _ :: _ :: _ :: home :: _ => some (user, .ofPath home)
    | _ => none

/-- Where a name leads from, and the way it leads. -/
def expand (o : Origin) (name : String) : Except NameFault (Location × List String) :=
  if name.toList.contains '\x00' then .error .zeroCharacter
  else if Location.fromRoot name then .ok (.root, Location.parts name)
  else match Location.parts name with
    | [] => .ok (o.here, [])
    | first :: rest =>
      match first.toList with
      | '~' :: user =>
        match o.home? user with
        | some home => .ok (.root, home.names ++ rest)
        | none => .error .unknownHome
      | _ => .ok (o.here, first :: rest)

end Origin

/-- Why a place holds no text file. -/
inductive ReadFault where
  | notFound
  | notADirectory
  | isADirectory
  /-- A name, or the place as a whole, has too many bytes. -/
  | nameTooLong
  /-- Any other fault that the operating system names. -/
  | other (code : Nat) (reason : String)
deriving DecidableEq, Repr

namespace ReadFault

/-- The number that the operating system gives to a fault. -/
def code : ReadFault → Nat
  | .notFound => 2
  | .notADirectory => 20
  | .isADirectory => 21
  | .nameTooLong => 36
  | .other code _ => code

def reason : ReadFault → String
  | .notFound => "No such file or directory"
  | .notADirectory => "Not a directory"
  | .isADirectory => "Is a directory"
  | .nameTooLong => "File name too long"
  | .other _ reason => reason

/-- The fault of that number. -/
def ofCode (code : Nat) (reason : String) : ReadFault :=
  if code = 2 then .notFound
  else if code = 20 then .notADirectory
  else if code = 21 then .isADirectory
  else if code = 36 then .nameTooLong
  else .other code reason

def message (f : ReadFault) (l : Location) : String :=
  "[Errno " ++ toString f.code ++ "] " ++ f.reason ++ ": " ++ Text.quoted l.text

end ReadFault

/-- What the operating system tells of the directory tree. -/
structure Disk where
  /-- What the symbolic link at a place says, if there is one. -/
  link? : Location → Option String
  /-- Does the system give up on the way to a place because of the links on it? -/
  loops : Location → Bool
  /-- The bytes of the file at a place. -/
  read : Location → Except ReadFault (List UInt8)

namespace Location

variable (disk : Disk)

/-- Goes a way from a place. A link that is met on it is entered; if that leads nowhere, the rest of the
way is gone as it is spelled. Tells also if all links could be followed. -/
def walkWith (enter : Location → String → Except NameFault (Location × Bool)) :
    Location → List String → Except NameFault (Location × Bool)
  | l, [] => .ok (l, true)
  | l, part :: rest =>
    match if part = ".." then none else disk.link? (l.step part) with
    | none => walkWith enter (l.step part) rest
    | some target => do
      let (l', followed) ← enter (l.step part) target
      if followed then walkWith enter l' rest else return (l'.steps rest, false)

/-- Goes a way from a place, with so many frames left. A link that has been entered and not yet left
leads in a circle, and so nowhere. -/
def walk : Nat → List Location → Location → List String → Except NameFault (Location × Bool)
  | 0, _, _, _ => .error .tooDeep
  | frames + 1, entered, l, way =>
    walkWith disk (fun link target =>
      if link ∈ entered then .ok (link, false)
      else walk frames (link :: entered) (if fromRoot target then root else link.step "..")
        (parts target)) l way

/-- The place that a way leads to. -/
def resolve (frames : Nat) (l : Location) (way : List String) : Except NameFault Location := do
  let (place, _) ← walk disk frames [] l way
  if disk.loops place then throw (.linkLoop place) else return place

end Location

/-- What a command runs on: the places that names lead from, the directory tree, and the frames of the
stack that are left for what the command calls. -/
structure Machine where
  origin : Origin
  disk : Disk
  frames : Nat

/-- The place that a name leads to. -/
def Machine.follow (m : Machine) (name : String) : Except NameFault Location := do
  let (l, way) ← m.origin.expand name
  l.resolve m.disk m.frames way

/-- What a place holds. -/
inductive Entry where
  | file (bytes : List UInt8)
  | directory
deriving DecidableEq, Repr

/-- A directory tree, as the places that hold something. The directories on the way to a place need
not be listed. -/
abbrev Tree := List (Location × Entry)

namespace Tree

/-- A name may have so many bytes and no more. -/
def maxNameBytes : Nat := 255

/-- A place may have so many bytes, written from the root, and no more. -/
def maxTextBytes : Nat := 4095

/-- What a place holds; the way to it is not looked at. -/
def entry? (t : Tree) (l : Location) : Option Entry :=
  match t.lookup l with
  | some e => some e
  | none => if t.any fun (m, _) => l.names.isPrefixOf m.names then some .directory else none

/-- Follows names from a directory and reads the file at their end. -/
def readFrom (t : Tree) (l : Location) : List String → Except ReadFault (List UInt8)
  | [] =>
    match t.entry? l with
    | some (.file bytes) => .ok bytes
    | some .directory => .error .isADirectory
    | none => .error .notFound
  | name :: names =>
    match t.entry? l with
    | some (.file _) => .error .notADirectory
    | some .directory =>
      if maxNameBytes < name.utf8ByteSize then .error .nameTooLong
      else t.readFrom ⟨l.names ++ [name]⟩ names
    | none => .error .notFound

/-- The bytes of the file at a place. -/
def read (t : Tree) (l : Location) : Except ReadFault (List UInt8) :=
  if maxTextBytes < l.text.utf8ByteSize then .error .nameTooLong
  else t.readFrom .root l.names

/-- A tree without links as a disk. -/
def disk (t : Tree) : Disk := ⟨fun _ => none, fun _ => false, t.read⟩

end Tree

end ScriptSyntax.Command
