/-
  HackPlatform.CommandLine.Path
  ────────────────────────────────
  **FILE NAMES IN PATHS.**

  A path is a text whose components are separated by slashes; empty components
  and `.` change nothing at its end.  The last other component names a file,
  unless it is `..`.  A file name has an extension after its last dot, but a dot
  it starts with opens no extension.

      fileStem        the file's name without extension, `Main` if there is none
      withExtension   the path with the file's extension replaced
      outputPath      where a tool writes
-/
import HackPlatform.Text.Blank

namespace HackPlatform.CommandLine.Path

open Text

/-- The texts between the slashes of a path. -/
def components (path : String) : List (List Char) := splitAtEach (· == '/') path.toList

/-- A component that changes nothing at the end of a path. -/
def isIdle (component : List Char) : Bool := component == [] || component == ['.']

/-- The components of a path, last first, from the one that names its file on. -/
def fromFileName (path : String) : List (List Char) :=
  match (components path).reverse.dropWhile isIdle with
  | ['.', '.'] :: _ => []
  | cs => cs

/-- A file name taken apart at its last dot, if that leaves something in front: what
stands before the dot, and what stands after it. -/
def splitName (name : List Char) : List Char × Option (List Char) :=
  match name.reverse.dropWhile (· != '.') with
  | [] => (name, none)
  | _ :: before =>
      if before.isEmpty then (name, none)
      else (before.reverse, some (name.drop (before.length + 1)))

/-- A file name without its extension. -/
def stem (name : List Char) : List Char := (splitName name).1

/-- The name of a path's file without extension; `Main` for a path without a file. -/
def fileStem (path : String) : String :=
  match fromFileName path with
  | [] => "Main"
  | name :: _ => String.ofList (stem name)

/-- The path without as many characters at its end as its file's extension has. -/
def withoutExtension (path : String) : String :=
  match fromFileName path with
  | [] => path
  | name :: _ =>
      let extension := (splitName name).2.getD []
      String.ofList (path.toList.take (path.length - extension.length))

/-- The path with its file's name replaced by the name's stem and an extension, and
nothing after it. -/
def putExtension (path extension : String) : String :=
  match fromFileName path with
  | [] => path
  | name :: before =>
      let name := stem name ++ (if extension.isEmpty then [] else '.' :: extension.toList)
      String.ofList (['/'].intercalate (name :: before).reverse)

/-- The path with the extension of its file replaced.  The old one is taken off before
the new one is put on, so a path that ends in a file `..x` becomes one that ends in
`..`, which names no file and takes no extension. -/
def withExtension (path extension : String) : String :=
  putExtension (withoutExtension path) extension

/-- The path that was asked for, or the input's with another extension. -/
def outputPath (input : String) (explicit : Option String) (extension : String) : String :=
  explicit.getD (withExtension input extension)

end HackPlatform.CommandLine.Path
