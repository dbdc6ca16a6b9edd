/-
  ServiceSchema.Command — the command line.

  The command `generate` generates the project in the working directory. Flags are read from
  left to right, and the first that asks for help or the version decides. The reader
  also has a command `help`, which takes the name of a command. Whatever else is given
  is refused: as an unknown argument, or as an unknown command where one is expected.
-/
import ServiceSchema.Project

namespace ServiceSchema.Command

/-- The name and version that `--version` prints. -/
def banner : String := "rpcgen 0.1.0"

/-- How a command line ends that is not a command to run. -/
inductive Usage where
  | help
  | version
  | missingCommand
  | unknownCommand
  | unknownArgument
  | unexpectedValue
  deriving DecidableEq, Repr

/-- What a command line asks for. -/
inductive Request where
  | generate
  | usage (usage : Usage)
  deriving DecidableEq, Repr

/-- Only help and version are answers; all else is misuse. -/
def Usage.exitCode : Usage → Nat
  | help | version => 0
  | _ => 2

/-- What a short flag asks for; `versionFlag` tells whether there is one for the
    version. -/
def shortFlag (versionFlag : Bool) : Char → Usage
  | 'h' => .help
  | 'V' => if versionFlag then .version else .unknownArgument
  | _ => .unknownArgument

/-- What a long flag asks for. Flags take no value. -/
def longFlag (versionFlag : Bool) (flag : List Char) : Usage :=
  let name := String.ofList (flag.takeWhile (· ≠ '='))
  if name = "help" || (versionFlag && name = "version") then
    if flag.contains '=' then .unexpectedValue
    else if name = "help" then .help
    else .version
  else .unknownArgument

/-- What a word that starts with a dash asks for; a lone dash is no flag. -/
def flag? (versionFlag : Bool) (word : String) : Option Usage :=
  match word.toList with
  | '-' :: '-' :: name => some (longFlag versionFlag name)
  | '-' :: c :: _ => some (shortFlag versionFlag c)
  | _ => none

/-- The words after `generate`. -/
def readGenerate : List String → Request
  | [] => .generate
  | ["--"] => .generate
  | word :: _ => .usage ((flag? false word).getD .unknownArgument)

/-- The words after `help`. -/
def readHelp : List String → Request
  | [] | ["generate"] | ["help"] => .usage .help
  | _ => .usage .unknownCommand

/-- What the words of a command line ask for. -/
def read : List String → Request
  | [] => .usage .missingCommand
  | ["--"] => .usage .missingCommand
  | "--" :: word :: _ =>
    .usage (if word = "generate" || word = "help" then .unknownArgument else .unknownCommand)
  | "generate" :: rest => readGenerate rest
  | "help" :: rest => readHelp rest
  | word :: _ => .usage ((flag? true word).getD .unknownCommand)

/-- How a run of `generate` ends, with what it says on standard error. -/
def outcome : Except ProjectFault String → Nat × String
  | .ok path => (0, "Generated " ++ path ++ "\n")
  | .error fault => (1, "error: " ++ fault.report ++ "\n")

end ServiceSchema.Command
