import MessageMachine.Diagnostics
import MessageMachine.Post
import MessageMachine.Code.Opcode

/-!
# The journal

What a run leaves behind for those who look after it, in order: log records, requests to write the
log out, and notes of native functions.  Entries keep what they are about, and are put into words by
`Entry.text` with the directory at hand.

A record has a level and a channel.  Faults of the machine's own making (malformed code and exceeded
limits) go to one channel, mistakes of scripts to another.
-/

namespace MessageMachine

/-- How grave a record is, the gravest first. -/
inductive Level where
  | error | warn | debug | trace
  deriving DecidableEq

namespace Level

def rank : Level → Nat
  | error => 0 | warn => 1 | debug => 2 | trace => 3

def name : Level → String
  | error => "ERROR" | warn => "WARN" | debug => "DEBUG" | trace => "TRACE"

end Level

/-- Where a record goes. -/
inductive Channel where
  | machine | script | debug | trace
  deriving DecidableEq

/-- The target under which a channel's records are written. -/
def Channel.target : Channel → String
  | machine => "blakod::error"
  | script => "blakod::bad_kod"
  | debug => "blakod::debug"
  | trace => "blakod::trace"

/-- The channel for faults of a class. -/
def FaultClass.channel : FaultClass → Channel
  | malformedCode | resourceLimit => .machine
  | lookup | type | native => .script

/-- Something that happened during a run.  `position` is the innermost running handler. -/
inductive Entry where
  /-- A fault arose while the handlers of `stack` were running, the innermost first. -/
  | fault (stack : List Activation) (fault : Fault)
  /-- A local was read that had not been written. -/
  | unwrittenRead (position : Option Activation) (index : UInt32)
  /-- A script's post was refused. -/
  | postRefused (position : Option Activation) (capacity : Nat)
  /-- A script showed values. -/
  | shown (position : Option Activation) (values : List Value)
  /-- A nested send failed, and its sender goes on with nil. -/
  | sendFailed (position : Option Activation) (send : Send) (fault : Fault)
  /-- A post was delivered and failed. -/
  | postFailed (post : Send) (fault : Fault)
  /-- An instruction is about to be executed. -/
  | instruction (position : Option Activation) (offset : Nat) (command : Command) (opcode : Opcode)
  /-- A native function is about to run. -/
  | nativeCall (name : String) (index : UInt8)
  /-- A top-level send has ended. -/
  | sendEnded (send : Send) (statements : Nat) (millis : UInt64)
  /-- The log is to be written out. -/
  | flush
  /-- A note of a native function, for its keeper. -/
  | note (text : String)

namespace Entry

/-- The level and the channel of a log record; none for the other entries. -/
def address? : Entry → Option (Level × Channel)
  | fault _ f => some (.error, f.faultClass.channel)
  | unwrittenRead .. | postRefused .. => some (.warn, .script)
  | shown .. | sendFailed .. | postFailed .. => some (.debug, .debug)
  | instruction .. | nativeCall .. | sendEnded .. => some (.trace, .trace)
  | flush | note _ => none

/-- An entry in words. -/
def text (classes : Directory) : Entry → String
  | fault stack f =>
    classes.positionName stack.head? ++ " " ++ f.message ++ "; stack: " ++ classes.stackName stack
  | unwrittenRead position index =>
    classes.positionName position ++ " read of uninitialized local " ++ toString index
  | postRefused position capacity =>
    classes.positionName position ++ " " ++ PostQueue.fullMessage capacity
  | shown position values =>
    classes.positionName position ++ " " ++ " ".intercalate (values.map classes.dataName)
  | sendFailed position send f =>
    classes.positionName position ++ " send of " ++ toString send.message ++ " to " ++
      toString send.receiver ++ " failed: " ++ f.message
  | postFailed post f =>
    "post of " ++ toString post.message ++ " to " ++ toString post.receiver ++ " failed: " ++
      f.message
  | instruction position offset command opcode =>
    classes.positionName position ++ " @" ++ toString offset ++ " " ++ command.name ++ " " ++
      opcode.text
  | nativeCall name index => "call " ++ name ++ " (" ++ toString index ++ ")"
  | sendEnded send statements millis =>
    "top level " ++ toString send.message ++ " to " ++ toString send.receiver ++ ": " ++
      toString statements ++ " statements, " ++ toString millis ++ " ms"
  | flush => ""
  | note text => text

end Entry

/-- The entries of a run, in order. -/
abbrev Journal := Array Entry

namespace Journal

/-- A log record in words. -/
structure Line where
  level : Level
  channel : Channel
  text : String
  deriving DecidableEq

/-- The log records at a level or graver, in words. -/
def log (j : Journal) (level : Level) (classes : Directory) : List Line :=
  j.toList.filterMap fun e =>
    match e.address? with
    | some (l, channel) => if l.rank ≤ level.rank then some ⟨l, channel, e.text classes⟩ else none
    | none => none

/-- How often the log was to be written out. -/
def flushes (j : Journal) : Nat := j.toList.countP fun e => e matches .flush

/-- The notes of native functions, in order. -/
def notes (j : Journal) : List String :=
  j.toList.filterMap fun
    | .note text => some text
    | _ => none

end Journal

end MessageMachine
