import Script.Text.Line
import Script.Session

/-!
# The command line

The program runs a text given as its argument, the text of a file, or the lines of its input.
Arguments are read from left to right, and the first one that asks for the version or does not fit
settles the matter.
-/

namespace Script
namespace CommandLine

/-! ## Arguments -/

/-- What the arguments have said so far. -/
structure Options where
  /-- The operand names a file. -/
  file : Bool
  /-- The value of the program is printed. -/
  pipe : Bool
  operand : Option String

/-- Why the rest of the arguments does not matter. -/
inductive Stop
  | version
  | usage
  deriving DecidableEq, Repr

/-- Nothing has been said. -/
def Options.empty : Options :=
  ⟨false, false, none⟩

/-- Each option may be given once. -/
def Options.setFile (o : Options) : Except Stop Options :=
  if o.file then .error .usage else .ok { o with file := true }

def Options.setPipe (o : Options) : Except Stop Options :=
  if o.pipe then .error .usage else .ok { o with pipe := true }

/-- There is room for one operand. -/
def Options.setOperand (o : Options) (text : String) : Except Stop Options :=
  match o.operand with
  | some _ => .error .usage
  | none => .ok { o with operand := some text }

/-- Reads the letters that share one dash. -/
def Options.readLetters (o : Options) : List Char → Except Stop Options
  | [] => .ok o
  | 'f' :: rest => do (← o.setFile).readLetters rest
  | 'p' :: rest => do (← o.setPipe).readLetters rest
  | 'V' :: _ => .error .version
  | _ => .error .usage

/-- Reads an option that is written out. -/
def Options.readWord (o : Options) (word : String) : Except Stop Options :=
  if word = "file" then o.setFile
  else if word = "pipe-mode" then o.setPipe
  else if word = "version" then .error .version
  else .error .usage

/-- Reads arguments none of which is an option. -/
def Options.readOperands (o : Options) : List String → Except Stop Options
  | [] => .ok o
  | arg :: rest => do (← o.setOperand arg).readOperands rest

/-- Reads arguments. Two dashes end the options; a dash alone is an operand. -/
def Options.read (o : Options) : List String → Except Stop Options
  | [] => .ok o
  | arg :: rest =>
    match arg.toList with
    | ['-', '-'] => o.readOperands rest
    | '-' :: '-' :: word => do (← o.readWord (String.ofList word)).read rest
    | '-' :: c :: letters => do (← o.readLetters (c :: letters)).read rest
    | _ => do (← o.setOperand arg).read rest

/-! ## Runs -/

/-- What a run leaves: an exit code and two texts. -/
structure Outcome where
  code : UInt8
  stdout : String
  stderr : String

def versionText : String :=
  "monkey 0.1.0\n"

def usageText : String :=
  "usage: [-f | --file] [-p | --pipe-mode] [-V | --version] [--] [CONTENTS]\n"

/-- An evaluation was cut off at `depthLimit`. The cut-off is this library's own, and so are the code
and the text of this outcome: the language has none like it. -/
def tooDeep (printed : String) : Outcome :=
  ⟨1, printed, "ERROR: evaluation too deep\n"⟩

/-- Runs a program. Errors of either sort give code 1; the value is printed if that is asked for. -/
def runScript (pipe : Bool) (source : String) : Outcome :=
  match runText depthLimit State.root source .initial with
  | none => tooDeep ""
  | some (.rejected errors, s) => ⟨1, s.printed, errorReport errors ++ "\n"⟩
  | some (.finished none, s) => ⟨0, s.printed, ""⟩
  | some (.finished (some v), s) =>
    if v.isError then ⟨1, s.printed, v.text ++ "\n"⟩
    else if pipe then ⟨0, (s.printLine v.text).printed, ""⟩
    else ⟨0, s.printed, ""⟩

/-- A backspace has torn a line. The text of this outcome is this library's own. -/
def tornLine (printed : String) : Outcome :=
  ⟨101, printed, "ERROR: backspace inside a character\n"⟩

/-- Runs line after line on one state, up to a torn one. -/
def runLines (s : State) : List (Option (List Char)) → Outcome
  | [] => ⟨0, s.printed, ""⟩
  | none :: _ => tornLine s.printed
  | some line :: rest =>
    match enterLine depthLimit State.root (String.ofList line) s with
    | none => tooDeep s.printed
    | some s' => runLines s' rest

/-- A file could not be read as text. -/
def unreadable (name : String) : Outcome :=
  ⟨1, "", "Failed to read the input file '" ++ name ++ "'. Perhaps this file does not exist?\n"⟩

/-- What the arguments ask for. -/
inductive Job
  | version
  | usage
  | lines
  | file (pipe : Bool) (name : String)
  | script (pipe : Bool) (source : String)

def Job.ofArgs (args : List String) : Job :=
  match Options.empty.read args with
  | .error .version => .version
  | .error .usage => .usage
  | .ok ⟨_, _, none⟩ => .lines
  | .ok ⟨true, pipe, some name⟩ => .file pipe name
  | .ok ⟨false, pipe, some source⟩ => .script pipe source

/-- Does a job, given the text of the file that it names, if that can be read, and the input. -/
def Job.run (job : Job) (contents : Option String) (input : String) : Outcome :=
  match job with
  | .version => ⟨0, versionText, ""⟩
  | .usage => ⟨2, "", usageText⟩
  | .lines => runLines .initial (filledLines input.toList)
  | .file pipe name =>
    match contents with
    | some source => runScript pipe source
    | none => unreadable name
  | .script pipe source => runScript pipe source

end CommandLine
end Script
