/-
  HackPlatform.Main
  ────────────────────────────────
  **THE TOOLS ON REAL FILES.**

  The first argument names a tool, the others are that tool's own.  Everything
  a tool decides is decided in `Tool.run`; what stands here gives it the files
  of the system, prints what it prints, with the time in front of each record,
  and passes its exit code on.
-/
import HackPlatform.CommandLine.Run
import Std.Time.Zoned

namespace HackPlatform.CommandLine

/-! ## §1. Files of the system. -/

/-- The text of a failure of the system: its own words and its number. -/
def systemReason : IO.Error → String
  | .alreadyExists _ code details | .otherError code details | .resourceBusy code details
  | .resourceVanished code details | .unsupportedOperation code details
  | .hardwareFault code details | .unsatisfiedConstraints code details
  | .illegalOperation code details | .protocolError code details | .timeExpired code details
  | .interrupted _ code details | .noFileOrDirectory _ code details
  | .invalidArgument _ code details | .permissionDenied _ code details
  | .resourceExhausted _ code details | .inappropriateType _ code details
  | .noSuchThing _ code details => s!"{details} (os error {code})"
  | e => e.toString

/-- Do something with the system and give the text of its failure. -/
def attempt {α : Type} (act : IO α) : IO (Except String α) := do
  match ← act.toBaseIO with
  | .ok a => return .ok a
  | .error e => return .error (systemReason e)

/-- Access to the files of the system. -/
def systemFiles : FileAccess IO IO.FS.Handle where
  read path := do
    match ← attempt (IO.FS.Handle.mk path .read) with
    | .error reason => return .error (.unopened reason)
    | .ok handle =>
        match ← attempt handle.readBinToEnd with
        | .error reason => return .error (.unreadable reason)
        | .ok bytes => return .ok bytes
  create path := attempt (IO.FS.Handle.mk path .write)
  write handle bytes := attempt do
    handle.write bytes
    handle.flush
  remove path := attempt (IO.FS.removeFile path)

/-! ## §2. Printing. -/

/-- A number with a zero in front if it has one digit only. -/
def twoDigits (n : Nat) : String := if n < 10 then s!"0{n}" else toString n

/-- The time that stands in front of a record. -/
def stamp (now : Std.Time.PlainDateTime) : String :=
  let date := [now.month.val, now.day.val].map fun n => "-" ++ twoDigits n.toNat
  let time := [now.hour.val, now.minute.val, now.second.val].map fun n => twoDigits n.toNat
  let year : Int := now.year
  "[" ++ toString year ++ String.join date ++ "][" ++ ":".intercalate time ++ "]"

/-- Print one piece of output. -/
def Output.print : Output → IO Unit
  | line text => IO.println text
  | record r => do
      let now ← Std.Time.PlainDateTime.now
      IO.println (stamp now ++ renderRecord r)

end HackPlatform.CommandLine

open HackPlatform.CommandLine in
/-- Run the tool that the first argument names. -/
def main (args : List String) : IO UInt32 := do
  match args with
  | name :: rest =>
      match [Tool.assembler, Tool.lowerer].find? (·.name = name) with
      | some tool =>
          let outcome ← tool.run systemFiles rest
          outcome.output.forM Output.print
          return outcome.exit.toUInt32
      | none =>
          IO.eprintln s!"no tool is called {name}"
          return 1
  | [] =>
      IO.eprintln "usage: assembler ARGUMENTS | vmtranslator ARGUMENTS"
      return 1
