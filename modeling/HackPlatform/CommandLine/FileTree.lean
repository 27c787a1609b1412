/-
  HackPlatform.CommandLine.FileTree
  ────────────────────────────────
  **TREES OF FILES and the four things a tool does to them.**

  A tree maps locations, which are lists of names from the root, to files,
  directories, symbolic links and devices.  A path is walked name by name from
  the root or the working directory; links on the way are followed, forty of
  them at most, and a path that ends in a slash names a directory, which nothing
  can be created as, whatever its name.

      read      the bytes behind a path
      create    an empty file behind a path, whatever it held before
      write     bytes into a created file
      remove    the entry that a path names, a link itself rather than its target

  An operation can fail for what the tree looks like: opening a directory works
  and reading from it fails, a full device takes nothing.  It can also fail for
  reasons that are not in the tree: a missing permission, a disk that is full or
  broken.  These are given from outside, as `Refusals`, about which nothing is
  assumed.  A file whose writing is refused keeps as many bytes as were written
  before.
-/
import HackPlatform.CommandLine.Path

namespace HackPlatform.CommandLine

/-! ## §1. Failures. -/

/-- Why an operation on files fails. -/
inductive FileFault where
  /-- Nothing is there. -/
  | notFound
  /-- Something on the way is no directory. -/
  | notDirectory
  /-- It is a directory. -/
  | isDirectory
  /-- The device takes no more. -/
  | noSpace
  /-- The name or the path is too long. -/
  | nameTooLong
  /-- More links than may be followed. -/
  | tooManyLinks
  /-- The path holds a NUL. -/
  | nulInPath
  /-- The system refuses it for a reason of its own. -/
  | refused (reason : String)
  deriving DecidableEq, Repr

/-- The text of a failure. -/
def FileFault.message : FileFault → String
  | notFound => "No such file or directory (os error 2)"
  | notDirectory => "Not a directory (os error 20)"
  | isDirectory => "Is a directory (os error 21)"
  | noSpace => "No space left on device (os error 28)"
  | nameTooLong => "File name too long (os error 36)"
  | tooManyLinks => "Too many levels of symbolic links (os error 40)"
  | nulInPath => "file name contained an unexpected NUL byte"
  | refused reason => reason

/-! ## §2. Trees. -/

/-- The names from the root to an entry. -/
abbrev Location := List String

/-- One entry of a tree. -/
inductive Node where
  /-- A file with its bytes. -/
  | file (contents : ByteArray)
  /-- A directory. -/
  | directory
  /-- A symbolic link to a path. -/
  | link (target : String)
  /-- A device that keeps nothing of what is written to it; a full one refuses it. -/
  | device (full : Bool)

/-- A tree of files with a working directory. -/
structure FileTree where
  /-- The entries below the root, each location at most once. -/
  entries : List (Location × Node)
  /-- The directory from which relative paths are walked. -/
  cwd : Location

namespace FileTree

/-- What stands at a location. -/
def node? (t : FileTree) (at_ : Location) : Option Node :=
  if at_ = [] then some .directory else t.entries.lookup at_

/-- The tree with an entry put at a location. -/
def put (t : FileTree) (at_ : Location) (node : Node) : FileTree :=
  { t with entries := (at_, node) :: t.entries.filter (·.1 != at_) }

/-- The tree without the entry at a location. -/
def erase (t : FileTree) (at_ : Location) : FileTree :=
  { t with entries := t.entries.filter (·.1 != at_) }

/-! ## §3. Walking a path. -/

/-- What a path is walked for. -/
inductive Purpose where
  /-- To read what is there. -/
  | read
  /-- To create a file there, or empty the one that is there. -/
  | create
  /-- To remove what is there. -/
  | remove
  deriving DecidableEq, Repr

/-- Where a path leads. -/
inductive Place where
  /-- To an entry. -/
  | entry (at_ : Location) (node : Node)
  /-- To a free name in a directory. -/
  | vacant (at_ : Location)

/-- The longest name an entry can have, in bytes. -/
def maxNameBytes : Nat := 255

/-- A path must be shorter than this, in bytes. -/
def maxPathBytes : Nat := 4096

/-- The number of links that are followed on one walk. -/
def maxLinks : Nat := 40

/-- The names in a path, with an empty one wherever two slashes meet or one ends it. -/
def names (path : String) : List String := (Path.components path).map String.ofList

/-- Where the walk along a path begins. -/
def origin (path : String) (dir : Location) : Location :=
  if path.toList.head? = some '/' then [] else dir

/-- Walk from a directory along names. -/
def walk (t : FileTree) (purpose : Purpose) (links : Nat) (dir : Location) :
    List String → Except FileFault Place
  | [] => .ok (.entry dir .directory)
  | name :: rest =>
      if name = "" ∨ name = "." then walk t purpose links dir rest
      else if name = ".." then walk t purpose links dir.dropLast rest
      else if purpose = .create ∧ rest ≠ [] ∧ rest.all (· = "") then .error .isDirectory
      else if name.utf8ByteSize > maxNameBytes then .error .nameTooLong
      else
        match t.node? (dir ++ [name]) with
        | none => if rest = [] then .ok (.vacant (dir ++ [name])) else .error .notFound
        | some .directory => walk t purpose links (dir ++ [name]) rest
        | some (.link target) =>
            if purpose = .remove ∧ rest = [] then .ok (.entry (dir ++ [name]) (.link target))
            else if links = 0 then .error .tooManyLinks
            else walk t purpose (links - 1) (origin target dir) (names target ++ rest)
        | some node => if rest = [] then .ok (.entry (dir ++ [name]) node) else .error .notDirectory
termination_by names => (links, names.length)
decreasing_by
  · exact Prod.Lex.right _ (Nat.lt_succ_self _)
  · exact Prod.Lex.right _ (Nat.lt_succ_self _)
  · exact Prod.Lex.right _ (Nat.lt_succ_self _)
  · exact Prod.Lex.left _ _ (Nat.sub_one_lt (by assumption))

/-- Walk along a path. -/
def locate (t : FileTree) (purpose : Purpose) (path : String) : Except FileFault Place :=
  if path.toList.contains '\x00' then .error .nulInPath
  else if path = "" then .error .notFound
  else if path.utf8ByteSize ≥ maxPathBytes then .error .nameTooLong
  else walk t purpose maxLinks (origin path t.cwd) (names path)

/-! ## §4. Operations. -/

/-- What the system refuses, whatever the tree looks like. -/
structure Refusals where
  /-- To open a path for reading. -/
  toOpen : String → Option FileFault
  /-- To give the bytes behind a path that was opened. -/
  toRead : String → Option FileFault
  /-- To create a file behind a path. -/
  toCreate : String → Option FileFault
  /-- To take all the bytes that are written at a location, and how many it takes. -/
  toWrite : Location → ByteArray → Option (Nat × FileFault)
  /-- To remove the entry that a path names. -/
  toRemove : String → Option FileFault

/-- Nothing is refused. -/
def Refusals.never : Refusals where
  toOpen _ := none
  toRead _ := none
  toCreate _ := none
  toWrite _ _ := none
  toRemove _ := none

/-- What an operation gives, unless it is refused. -/
def unlessRefused {α : Type} (refusal : Option FileFault) (result : Except FileFault α) :
    Except FileFault α :=
  match refusal with
  | some fault => .error fault
  | none => result

section
variable (r : Refusals) (t : FileTree)

/-- Open a path for reading: the entry behind it. -/
def openFile (path : String) : Except FileFault Node :=
  unlessRefused (r.toOpen path) <| match t.locate .read path with
    | .error fault => .error fault
    | .ok (.vacant _) => .error .notFound
    | .ok (.entry _ node) => .ok node

/-- Create a file, or empty the one that is there. -/
def create (path : String) : Except FileFault (Location × FileTree) :=
  unlessRefused (r.toCreate path) <| match t.locate .create path with
    | .error fault => .error fault
    | .ok (.vacant at_) => .ok (at_, t.put at_ (.file .empty))
    | .ok (.entry at_ (.file _)) => .ok (at_, t.put at_ (.file .empty))
    | .ok (.entry at_ (.device _)) => .ok (at_, t)
    | .ok (.entry _ _) => .error .isDirectory

/-- Write bytes into a file that was created; as many as are taken, if not all are. -/
def write (at_ : Location) (bytes : ByteArray) : Except FileFault Unit × FileTree :=
  match t.node? at_ with
  | some (.file _) =>
      match r.toWrite at_ bytes with
      | none => (.ok (), t.put at_ (.file bytes))
      | some (taken, fault) => (.error fault, t.put at_ (.file (bytes.extract 0 taken)))
  | some (.device full) =>
      if full ∧ bytes.size > 0 then (.error .noSpace, t)
      else match r.toWrite at_ bytes with
        | none => (.ok (), t)
        | some (_, fault) => (.error fault, t)
  | some _ => (.error .isDirectory, t)
  | none => (.error .notFound, t)

/-- Remove the entry that a path names. -/
def remove (path : String) : Except FileFault FileTree :=
  unlessRefused (r.toRemove path) <| match t.locate .remove path with
    | .error fault => .error fault
    | .ok (.vacant _) => .error .notFound
    | .ok (.entry _ .directory) => .error .isDirectory
    | .ok (.entry at_ _) => .ok (t.erase at_)

end

end FileTree

/-- The bytes that can be read from an entry that was opened. -/
def Node.read : Node → Except FileFault ByteArray
  | file contents => .ok contents
  | device _ => .ok .empty
  | directory | link _ => .error .isDirectory

end HackPlatform.CommandLine
