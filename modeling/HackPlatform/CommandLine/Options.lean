/-
  HackPlatform.CommandLine.Options
  ────────────────────────────────
  **READING A COMMAND LINE.**

      assembler     [-v]… [-d] [-o OUTPUT] [-h] [-V] INPUT
      vmtranslator  [-v]… [-d] [-b] [-a] [-o OUTPUT] [-h] [-V] INPUT

  Flags of one letter can be written together, and a value can follow `-o` in
  the same argument, behind any number of `=`.  `--` makes every later argument
  an input.  Arguments are read from left to right: something unknown, or a
  second input, is an error at once, and asking for help or for the version ends
  the reading there; that an input is there, and that only `-v` is repeated, is
  judged at the end.
-/

namespace HackPlatform.CommandLine

/-! ## §1. The two tools. -/

/-- The two command line tools. -/
inductive Tool where
  /-- From assembly to machine words. -/
  | assembler
  /-- From stack machine commands to assembly. -/
  | lowerer
  deriving DecidableEq, Repr

namespace Tool

/-- The name a tool is started by. -/
def name : Tool → String
  | assembler => "assembler"
  | lowerer => "vmtranslator"

/-- The extension of a tool's output. -/
def extension : Tool → String
  | assembler => "hack"
  | lowerer => "asm"

/-- The version of both tools. -/
def version : String := "0.1.0"

end Tool

/-- What an option without a value asks for. -/
inductive Flag where
  /-- Tell more in the journal. -/
  | verbose
  /-- Print a listing. -/
  | listing
  /-- Start with code that calls the entry point. -/
  | bootstrap
  /-- Head fragments with comments. -/
  | annotate
  /-- Print how the tool is used and do nothing else. -/
  | help
  /-- Print the version and do nothing else. -/
  | version
  deriving DecidableEq, Repr

/-- The flag of a letter. -/
def Tool.shortFlag? (tool : Tool) (c : Char) : Option Flag :=
  match c with
  | 'v' => some .verbose
  | 'd' => some .listing
  | 'h' => some .help
  | 'V' => some .version
  | 'b' => if tool = .lowerer then some .bootstrap else none
  | 'a' => if tool = .lowerer then some .annotate else none
  | _ => none

/-- The flag of a word. -/
def Tool.longFlag? (tool : Tool) (word : List Char) : Option Flag :=
  if word = "help".toList then some .help
  else if word = "version".toList then some .version
  else if tool = .lowerer ∧ word = "bootstrap".toList then some .bootstrap
  else if tool = .lowerer ∧ word = "annotate".toList then some .annotate
  else none

/-! ## §2. Matches and invocations. -/

/-- What arguments were found to say. -/
structure Matches where
  /-- The flags, each as often as it was given. -/
  flags : List Flag
  /-- The path of the input. -/
  input : String
  /-- The path of the output, if it was given. -/
  output : Option String
  deriving DecidableEq, Repr

/-- How often a flag was given. -/
def Matches.occurrences (m : Matches) (flag : Flag) : Nat := m.flags.count flag

/-- A flag was given. -/
def Matches.isPresent (m : Matches) (flag : Flag) : Bool := 0 < m.occurrences flag

/-- What a tool is asked to do. -/
structure Invocation where
  /-- How often more was asked to be told. -/
  verbosity : Nat
  /-- The path of the input. -/
  input : String
  /-- The path of the output, if it was given. -/
  output : Option String
  /-- Print a listing. -/
  listing : Bool
  /-- Start with code that calls the entry point. -/
  bootstrap : Bool
  /-- Head fragments with comments. -/
  annotate : Bool
  deriving DecidableEq, Repr

/-- What is asked for by what was found. -/
def Invocation.ofMatches (m : Matches) : Invocation where
  verbosity := m.occurrences .verbose
  input := m.input
  output := m.output
  listing := m.isPresent .listing
  bootstrap := m.isPresent .bootstrap
  annotate := m.isPresent .annotate

/-! ## §3. Reading the arguments. -/

/-- Why the reading of a command line ends early. -/
inductive Stop where
  /-- The arguments are not usable. -/
  | usage
  /-- Help was asked for. -/
  | help
  /-- The version was asked for. -/
  | version
  deriving DecidableEq, Repr

/-- What has been read of a command line. -/
structure Reading where
  /-- The flags met, last first. -/
  flags : List Flag
  /-- The values of `-o`, last first; `none` where no value followed. -/
  outputs : List (Option String)
  /-- The input, once it was met. -/
  input : Option String
  /-- The last argument was a `-o` that waits for its value. -/
  awaiting : Bool
  /-- A `--` was met. -/
  inputsOnly : Bool
  deriving DecidableEq, Repr

namespace Reading

/-- Nothing read yet. -/
def start : Reading := ⟨[], [], none, false, false⟩

/-- Take an argument as the input. -/
def addInput (r : Reading) (arg : String) : Except Stop Reading :=
  match r.input with
  | none => .ok { r with input := some arg }
  | some _ => .error .usage

/-- Take a flag, if it is one. -/
def addFlag (r : Reading) : Option Flag → Except Stop Reading
  | none => .error .usage
  | some .help => .error .help
  | some .version => .error .version
  | some flag => .ok { r with flags := flag :: r.flags }

/-- Take letters that are written together behind one dash. -/
def addLetters (tool : Tool) (r : Reading) : List Char → Except Stop Reading
  | [] => .ok r
  | 'o' :: [] => .ok { r with outputs := none :: r.outputs, awaiting := true }
  | 'o' :: value =>
      let value := value.dropWhile (· == '=')
      .ok { r with outputs := some (String.ofList value) :: r.outputs }
  | c :: cs => do
      let r ← r.addFlag (tool.shortFlag? c)
      r.addLetters tool cs

/-- Take a word behind two dashes or more; what follows a `=` does not count. -/
def addWord (tool : Tool) (r : Reading) (arg : List Char) : Except Stop Reading :=
  r.addFlag (tool.longFlag? ((arg.dropWhile (· == '-')).takeWhile (· != '=')))

/-- Take the value that a `-o` waits for. -/
def addValue (r : Reading) (arg : String) : Reading :=
  { r with outputs := some arg :: r.outputs.tail, awaiting := false }

/-- Take one argument. -/
def addArgument (tool : Tool) (r : Reading) (arg : String) : Except Stop Reading :=
  if r.inputsOnly then r.addInput arg
  else match arg.toList with
    | ['-', '-'] => .ok { r with inputsOnly := true }
    | '-' :: '-' :: _ => { r with awaiting := false }.addWord tool arg.toList
    | '-' :: c :: cs => { r with awaiting := false }.addLetters tool (c :: cs)
    | _ => if r.awaiting then .ok (r.addValue arg) else r.addInput arg

end Reading

/-- A flag that was given not more than once. -/
def Reading.once (r : Reading) (flag : Flag) : Bool := r.flags.count flag ≤ 1

/-- What was read, if it is complete and repeats nothing but `-v`. -/
def Reading.finish (r : Reading) : Except Stop Matches :=
  if r.once .listing && r.once .bootstrap && r.once .annotate then
    match r.input, r.outputs with
    | some input, [] => .ok ⟨r.flags, input, none⟩
    | some input, [some output] => .ok ⟨r.flags, input, some output⟩
    | _, _ => .error .usage
  else .error .usage

/-- Read the arguments of a tool. -/
def Matches.ofArguments (tool : Tool) (args : List String) : Except Stop Matches := do
  let r ← args.foldlM (Reading.addArgument tool) .start
  r.finish

end HackPlatform.CommandLine
