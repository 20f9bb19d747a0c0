import LineShell.Calculator.Run
import LineShell.Shell.Reader
/-!
# CommandLine — the program as its caller sees it

Arguments, the home directory and its start file, and the bytes of the input go in; what is written to the two outputs
and the exit status come out.
-/
namespace LineShell.CommandLine

open Shell (Conversation Output Reader Setup)

inductive Request where
  | version
  | converse (config : Config) (readsRc : Bool)
  deriving DecidableEq, Repr

/-- **Why arguments make no request.** -/
inductive UsageFault where
  | unknown (argument : String)
  | missingValue (option : String)
  | repeated (option : String)
  deriving DecidableEq, Repr

def UsageFault.message : UsageFault → String
  | unknown argument => "error: unexpected argument '" ++ argument ++ "' found"
  | missingValue option => "error: a value is required for '" ++ option ++ "' but none was supplied"
  | repeated option => "error: the argument '" ++ option ++ "' cannot be used multiple times"

inductive Setting where
  | exitCommand
  | prompt
  | continuation
  deriving DecidableEq, Repr

namespace Setting

def option : Setting → String
  | exitCommand => "--exit-command"
  | prompt => "--prompt"
  | continuation => "--continuation-prompt"

def all : List Setting := [exitCommand, prompt, continuation]

def apply (value : String) (config : Config) : Setting → Config
  | exitCommand => { config with exitCommand := value }
  | prompt => { config with prompt := value }
  | continuation => { config with continuation := value }

def named? (argument : String) : Option Setting := all.find? (·.option == argument)

/-- **The setting and the value in an argument of the form `--name=value`.** -/
def joined? (argument : String) : Option (Setting × String) :=
  let cs := argument.toList
  match cs.dropWhile (· ≠ '=') with
  | _ :: value => (named? (String.ofList (cs.takeWhile (· ≠ '=')))).map (·, String.ofList value)
  | [] => none

end Setting

/-- **Whether an argument may be the value of the option before it**: it looks like no option. -/
def isValue (argument : String) : Bool :=
  match argument.toList with
  | '-' :: _ :: _ => false
  | _ => true

/-- **Whether an argument asks for the version**, in full or by a cluster of short options that starts with it. -/
def asksVersion (argument : String) : Bool :=
  argument == "--version" || ['-', 'V'].isPrefixOf argument.toList

/-- **The arguments read so far**: the settings they make, and the options they used. -/
structure Progress where
  config : Config := {}
  readsRc : Bool := true
  used : List String := []

namespace Progress

/-- **An option marked as used.** It may be used once. -/
def note (option : String) (p : Progress) : Except UsageFault Progress :=
  if p.used.contains option then .error (.repeated option) else .ok { p with used := option :: p.used }

def set (setting : Setting) (value : String) (p : Progress) : Except UsageFault Progress := do
  let p ← p.note setting.option
  return { p with config := setting.apply value p.config }

/-- **The request that arguments make**, read from left to right. The version is asked for by any argument that asks for
it, and `--` ends the options; nothing can follow it, for the program takes options only. -/
def read (p : Progress) : List String → Except UsageFault Request
  | [] => .ok (.converse p.config p.readsRc)
  | argument :: rest =>
    if argument = "--" then
      match rest with
      | [] => .ok (.converse p.config p.readsRc)
      | extra :: _ => .error (.unknown extra)
    else if asksVersion argument then .ok .version
    else if argument = "--no-history" then do
      read { (← p.note argument) with config.history := false } rest
    else if argument = "--no-rc" then do
      read { (← p.note argument) with readsRc := false } rest
    else
      match Setting.named? argument, rest with
      | some setting, value :: rest =>
        if isValue value then do read (← p.set setting value) rest else .error (.missingValue argument)
      | some _, [] => .error (.missingValue argument)
      | none, rest =>
        match Setting.joined? argument with
        | some (setting, value) => do read (← p.set setting value) rest
        | none => .error (.unknown argument)

end Progress

def Request.ofArguments (arguments : List String) : Except UsageFault Request := Progress.read {} arguments

/-- **What the program finds in its surroundings**: the home directory, if it is told, and the bytes of the start file
there, if there is one. -/
structure Surroundings where
  home : Option String
  rc : Option (List UInt8)

structure Report where
  stdout : ByteArray := .empty
  stderr : String := ""
  status : UInt32 := 0

/-- **The shell of the program**: the calculator under given settings. -/
def shell (config : Config) : Setup Unit := ⟨Calculator.evaluator, config⟩

/-- **The conversation as the start file leaves it**, and the errors of that file. A file that is not text is passed
over, and without a home directory there is none. -/
def begin (config : Config) (readsRc : Bool) (around : Surroundings) : List EvalError × Conversation Unit :=
  let fresh := Conversation.start default ()
  match readsRc, around.home, around.rc.bind Text.decode? with
  | true, some _, some script => (shell config).preload script fresh
  | _, _, _ => ([], fresh)

/-- **The line that reports an error of the start file.** -/
def rcLine (e : EvalError) : String := "~/.rishrc: " ++ e.text ++ "\n"

/-- **The line that reports a run that failed.** The cause is named once as part of the failure and once by itself. -/
def failureLine (f : Shell.StreamFault) : String := programName ++ ": " ++ f.report ++ ": " ++ f.message ++ "\n"

/-- **A conversation with input that is all there**: prompts and results go to one output. -/
def converse (config : Config) (readsRc : Bool) (around : Surroundings) (stdin : List UInt8) : Report :=
  let (errors, c) := begin config readsRc around
  let stderr := String.join (errors.map rcLine)
  let reader : Reader := { chunks := [stdin], echo := true, reports := true }
  let ended := (shell config).run Reader.source c .unlimited reader
  match ended.exit with
  | .ok _ => { stdout := ended.out.written, stderr }
  | .error f => { stdout := ended.out.written, stderr := stderr ++ failureLine f, status := 1 }

def run (arguments : List String) (around : Surroundings) (stdin : List UInt8) : Report :=
  match Request.ofArguments arguments with
  | .error f => { stderr := f.message ++ "\n", status := 2 }
  | .ok .version => { stdout := (programName ++ " " ++ version ++ "\n").toUTF8 }
  | .ok (.converse config readsRc) => converse config readsRc around stdin

end LineShell.CommandLine
