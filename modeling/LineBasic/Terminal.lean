import LineBasic.Drive.Disk
import LineBasic.Session.Run

/-! A conversation at a terminal. The terminal reads lines for a session, shows what the session
reports, and answers its requests for files from its drives. It says Ok when a session is ready for a
direct line, and shows the next number instead while AUTO gives the numbers. -/

namespace LineBasic

/-- What the command line asks for. -/
structure Options where
  /-- A program to be loaded and run at the start. -/
  program : Option String := none
  /-- The folder that file names are relative to. -/
  cwd : String := "C:\\"
  /-- Whether tracing is on from the start. -/
  trace : Bool := false
  deriving Repr, DecidableEq

namespace Options

/-- Adds the words of a command line to options, or gives the word that is out of place. -/
def withWords (options : Options) : List String → Except String Options
  | [] => return options
  | "--trace" :: rest => withWords { options with trace := true } rest
  | "--cwd" :: folder :: rest => withWords { options with cwd := folder } rest
  | word :: rest =>
      if word.startsWith "--" || options.program.isSome then throw word
      else withWords { options with program := some word } rest

end Options

structure Terminal where
  session : Session
  drives : Drives
  disk : Drive.Disk
  /-- Whether the next pause is announced. -/
  announces : Bool := true

namespace Terminal

/-- Hands a line to the session. -/
def enter (terminal : Terminal) (line : String) : Terminal :=
  { terminal with session := (terminal.session.enter line).2 }

/-- The terminal once the wishes of the command line are entered. -/
def start (options : Options) (random : Random) (disk : Drive.Disk)
    (folders : List (Char × List String)) : Terminal :=
  let quiet : Terminal := { session := .new random, drives := ⟨options.cwd, folders⟩, disk }
  let traced := if options.trace then quiet.enter "TRON" else quiet
  match options.program with
  | some path => traced.enter ("RUN \"" ++ path ++ "\"")
  | none => traced

/-- A fault as a line of its own. -/
def faultLine (fault : Fault) : String := fault.display ++ "\n"

/-- What an event shows, and the terminal after it. -/
def react (terminal : Terminal) : Event → String × Terminal
  | .stopped | .running => ("", terminal)
  | .print text => (text, terminal)
  | .faults list => (String.join (list.map faultLine), { terminal with announces := true })
  | .load request =>
      let answer := terminal.drives.fetch terminal.disk request.path
      ("", { terminal with session := terminal.session.completeLoad answer })
  | .files pattern =>
      match terminal.drives.list terminal.disk pattern with
      | .ok entries => (Drive.display entries, terminal)
      | .error fault => (faultLine fault, terminal)

/-- What stands before the next line: the number that AUTO gives to it, or the announcement that the
session is ready. -/
def prompt (terminal : Terminal) : String :=
  match terminal.session.autoLine with
  | some number => toString number ++ " "
  | none => if terminal.announces then "Ok\n" else ""

/-- Breaks off what is running and leaves AUTO. -/
def interrupt (terminal : Terminal) : Terminal :=
  { terminal with session := terminal.session.interrupt, announces := true }

/-- Takes in a line from the user. A control-C in it is a break; after a numbered line the next pause
is not announced. -/
def takeLine (terminal : Terminal) (line : String) : Terminal :=
  if line.toList.contains (Char.ofNat 3) then terminal.interrupt
  else
    let numbered := ((line.toList.dropWhile Text.isBlank).head?).any Char.isDigit
    { terminal.enter line with
      announces := !numbered && terminal.session.autoLine.isNone }

/-- Carries the session on, up to its next event. -/
def carryOn (terminal : Terminal) : Event × String × Terminal :=
  let (event, session) := terminal.session.execute 5000
  (event, { terminal with session }.react event)

end Terminal

end LineBasic
