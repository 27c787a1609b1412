/-
  HackPlatform.CommandLine.Run
  ────────────────────────────────
  **RUNNING A TOOL.**

  A run reads its whole input, makes the whole output in memory and only then
  touches the output file; if writing fails part way the file is removed, so a
  failed run leaves no half-made output.  What a run prints is collected in
  order and does not depend on where files are kept: `FileAccess` is the only
  way to them, and it is given both for real files and for a `FileTree`.  Nor
  does it depend on how arguments are read: that is given by a `Library`.
-/
import HackPlatform.CommandLine.FileTree
import HackPlatform.CommandLine.Product

namespace HackPlatform.CommandLine

/-! ## §1. Access to files. -/

/-- Why an input cannot be had. -/
inductive InputFault where
  /-- It cannot be opened. -/
  | unopened (reason : String)
  /-- It was opened but cannot be read. -/
  | unreadable (reason : String)
  deriving DecidableEq, Repr

/-- The four operations on files; a failure is given by its text. -/
structure FileAccess (m : Type → Type) (Handle : Type) where
  /-- All bytes behind a path. -/
  read : String → m (Except InputFault ByteArray)
  /-- Create a file behind a path, or empty the one there. -/
  create : String → m (Except String Handle)
  /-- Write all bytes into a created file. -/
  write : Handle → ByteArray → m (Except String Unit)
  /-- Remove the entry that a path names. -/
  remove : String → m (Except String Unit)

namespace FileTree

/-- All bytes behind a path of a tree. -/
def readAll (r : Refusals) (t : FileTree) (path : String) : Except InputFault ByteArray :=
  match t.openFile r path with
  | .error fault => .error (.unopened fault.message)
  | .ok node => (unlessRefused (r.toRead path) node.read).mapError (.unreadable ·.message)

/-- Access to the files of a tree, where a system refuses what it will. -/
def accessWith (r : Refusals) : FileAccess (StateM FileTree) Location where
  read path := fun t => (t.readAll r path, t)
  create path := fun t => match t.create r path with
    | .error fault => (.error fault.message, t)
    | .ok (at_, t') => (.ok at_, t')
  write at_ bytes := fun t => match t.write r at_ bytes with
    | (result, t') => (result.mapError (·.message), t')
  remove path := fun t => match t.remove r path with
    | .error fault => (.error fault.message, t)
    | .ok t' => (.ok (), t')

/-- Access to the files of a tree where nothing is refused. -/
def access : FileAccess (StateM FileTree) Location := accessWith .never

end FileTree

/-! ## §2. Writing the output. -/

/-- Why an output is not written. -/
inductive OutputFault where
  /-- It cannot be created. -/
  | uncreated (path reason : String)
  /-- It was created but cannot be written, and is removed. -/
  | unwritten (path reason : String)
  deriving DecidableEq, Repr

/-- The message of a fault of the output. -/
def OutputFault.message : OutputFault → String
  | uncreated path reason => s!"unable to create output file `{path}`: {reason}"
  | unwritten path reason => s!"unable to write output file `{path}`: {reason}"

/-- Write a whole output file, or leave none; with what is told on the way. -/
def writeOutput {m : Type → Type} [Monad m] {Handle : Type} (files : FileAccess m Handle)
    (path text : String) : m (Except OutputFault Unit × List Record) := do
  match ← files.create path with
  | .error reason => return (.error (.uncreated path reason), [])
  | .ok handle =>
      match ← files.write handle text.toUTF8 with
      | .ok () =>
          let size := text.utf8ByteSize
          return (.ok (), [⟨.info, "hack::cli", s!"wrote {size} byte(s) to `{path}`"⟩])
      | .error reason =>
          match ← files.remove path with
          | .ok () => return (.error (.unwritten path reason), [])
          | .error removal =>
              return (.error (.unwritten path reason),
                [⟨.warn, "hack::cli", s!"could not remove incomplete output `{path}`: {removal}"⟩])

/-! ## §3. Reading the input. -/

/-- The reason given for bytes that are no text. -/
def notText : String := "stream did not contain valid UTF-8"

/-- The message for an input that cannot be read. -/
def unreadableMessage (reason : String) : String := s!"unable to read source: {reason}"

/-- Told once the lines of an input are read. -/
def tellLines (lines : List SourceLine) : Record :=
  let count := lines.length
  ⟨.debug, "hack::source", s!"read {count} instruction line(s)"⟩

/-! ## §4. A whole run. -/

/-- One piece of what a run prints. -/
inductive Output where
  /-- A record of the journal. -/
  | record (r : Record)
  /-- A line of its own. -/
  | line (text : String)
  deriving DecidableEq, Repr

/-- The result of a run. -/
structure Outcome where
  /-- The exit code. -/
  exit : Nat
  /-- What was printed, in order. -/
  output : List Output
  deriving DecidableEq, Repr

/-- Told first: what was asked for. -/
def Tool.tellArguments (tool : Tool) (inv : Invocation) (output : String) : Record :=
  let verbosity := (Level.ofVerbosity inv.verbosity).name
  let options := match tool with
    | .assembler => ""
    | .lowerer =>
        let bootstrap := inv.bootstrap
        let annotate := inv.annotate
        s!"\n\tBootstrap: {bootstrap}\n\tAnnotate: {annotate}"
  let input := inv.input
  ⟨.debug, tool.name,
    s!"Arguments:\n\tVerbosity: {verbosity}{options}\n\tInfile: {input}\n\tOutfile: {output}"⟩

/-- Told last by a run that fails. -/
def Tool.tellFatal (tool : Tool) (message : String) : Record :=
  ⟨.error, tool.name, s!"fatal: {message}"⟩

/-- What a run prints of its journal, then a listing, then of its journal again. -/
def Invocation.outcome (inv : Invocation) (exit : Nat) (before : List Record)
    (listing : List String) (after : List Record) : Outcome :=
  let shown (told : List Record) : List Output :=
    (told.filter fun r => (Level.ofVerbosity inv.verbosity).admits r.level).map .record
  ⟨exit, shown before ++ listing.map .line ++ shown after⟩

section
variable {m : Type → Type} [Monad m] {Handle : Type} (lib : Library) (files : FileAccess m Handle)
  (tool : Tool)

/-- Carry out an invocation. -/
def Invocation.run (inv : Invocation) : m Outcome := do
  let input := inv.input
  let path := Path.outputPath inv.input inv.output tool.extension
  let told := [tool.tellArguments inv path]
  let fail (told : List Record) (message : String) : Outcome :=
    inv.outcome 1 (told ++ [tool.tellFatal message]) [] []
  match ← files.read inv.input with
  | .error (.unopened reason) =>
      return fail told s!"unable to open input file `{input}`: {reason}"
  | .error (.unreadable reason) =>
      let message := unreadableMessage reason
      return fail told s!"{input}: {message}"
  | .ok bytes =>
      match SourceLine.ofBytes? bytes with
      | none =>
          let message := unreadableMessage notText
          return fail told s!"{input}: {message}"
      | some lines =>
          let stem := Path.fileStem inv.input
          let told := told ++ tellLines lines :: tool.journal inv stem lines
          match tool.make lib inv stem lines with
          | .error e =>
              let message := e.fault.message e.line
              return fail told s!"{input}: {message}"
          | .ok product =>
              let listing := if inv.listing then product.listing else []
              let (written, records) ← writeOutput files path product.text
              match written with
              | .ok () => return inv.outcome 0 told listing records
              | .error fault =>
                  return inv.outcome 1 told listing (records ++ [tool.tellFatal fault.message])

/-- Run a tool on its arguments, which a library reads. -/
def Tool.runWith (args : List String) : m Outcome :=
  match lib.arguments tool args with
  | .error ending => return ⟨ending.exit, ending.lines.map .line⟩
  | .ok m => (Invocation.ofMatches m).run lib files tool

/-- Run a tool on its arguments. -/
def Tool.run (args : List String) : m Outcome := tool.runWith .own files args

end

/-- A record as it is printed, but for the time in front. -/
def renderRecord (r : Record) : String :=
  "[" ++ r.target ++ "][" ++ r.level.name ++ "] " ++ r.message

end HackPlatform.CommandLine
