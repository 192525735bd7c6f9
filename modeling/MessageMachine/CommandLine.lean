import MessageMachine.Code.Listing
import MessageMachine.Countdown
import MessageMachine.Text.Blank
import MessageMachine.Text.Number

/-!
# The command line

Three commands: `disasm` lists a body that is given in hexadecimal, `run` runs it as the only
handler of a fresh object, and `demo` lists and runs the countdown script.

A `Request` is what the arguments ask for; `Request.ofArguments` reads it and `Request.perform`
carries it out.  Both are pure: what is to be written, and the code to exit with, is an `Outcome`.

Options may stand before and after the body, an option's value behind a blank or an equals sign; no
option may be given twice, and after `--` nothing is taken for an option.
-/

namespace MessageMachine

namespace CommandLine

/-- What a command writes, and the code it exits with. -/
structure Outcome where
  code : UInt32 := 0
  output : List String := []
  errors : List String := []

/-- What the arguments ask for. -/
inductive Request where
  | disassemble (body : String)
  | run (body : String) (settings : Settings)
  | demo (count : Int)
  | version
  | help
  deriving DecidableEq

/-! ## Reading the arguments -/

/-- What has been read of a command's arguments. -/
structure Arguments where
  body : Option String := none
  maxStatements : Option Nat := none
  maxDepth : Option Nat := none
  trackLocals : Bool := false
  profile : Bool := false
  count : Option Int := none

/-- Why arguments are not read to their end. -/
inductive Stop where
  /-- The arguments are in error. -/
  | misuse
  /-- Help is asked for. -/
  | help
  deriving DecidableEq

/-- Options with a value. -/
inductive ValueOption where
  | maxStatements | maxDepth | count
  deriving DecidableEq

/-- Options without a value. -/
inductive Flag where
  | trackLocals | profile
  deriving DecidableEq

/-- The options and operands of a command. -/
structure Signature where
  /-- Does the command take a body? -/
  body : Bool
  values : List (String × ValueOption) := []
  flags : List (String × Flag) := []

def disassembleSignature : Signature := { body := true }

def runSignature : Signature where
  body := true
  values := [("max-statements", .maxStatements), ("max-depth", .maxDepth)]
  flags := [("init-locals", .trackLocals), ("profile", .profile)]

def demoSignature : Signature where
  body := false
  values := [("count", .count)]

/-- Takes the body, once. -/
def Arguments.takeBody (r : Arguments) (signature : Signature) (text : String) :
    Except Stop Arguments :=
  if signature.body ∧ r.body = none then .ok { r with body := some text } else .error .misuse

/-- Takes the value of an option, once. -/
def Arguments.takeValue (r : Arguments) (option : ValueOption) (text : String) :
    Except Stop Arguments :=
  match option with
  | .maxStatements =>
    match r.maxStatements, Text.natural? UInt64.size text with
    | none, some n => .ok { r with maxStatements := some n }
    | _, _ => .error .misuse
  | .maxDepth =>
    match r.maxDepth, Text.natural? UInt64.size text with
    | none, some n => .ok { r with maxDepth := some n }
    | _, _ => .error .misuse
  | .count =>
    match r.count, Text.integer? (UInt64.size / 2) text with
    | none, some i => .ok { r with count := some i }
    | _, _ => .error .misuse

/-- Takes a flag, once. -/
def Arguments.takeFlag (r : Arguments) : Flag → Except Stop Arguments
  | .trackLocals =>
    if r.trackLocals then .error .misuse else .ok { r with trackLocals := true }
  | .profile => if r.profile then .error .misuse else .ok { r with profile := true }

/-- Does an argument look like an option? -/
def isOption (argument : List Char) : Bool := argument.head? = some '-' && argument.length > 1

/-- The name of a long option and, behind an equals sign, its value. -/
def splitOption (text : List Char) : String × Option String :=
  let name := text.takeWhile (· ≠ '=')
  match text.dropWhile (· ≠ '=') with
  | _ :: value => (String.ofList name, some (String.ofList value))
  | [] => (String.ofList name, none)

/-- Reads the arguments of a command.  `waiting` is an option that waits for its value. -/
def read (signature : Signature) : Arguments → (waiting : Option ValueOption) → List String →
    Except Stop Arguments
  | r, none, [] => .ok r
  | _, some _, [] => .error .misuse
  | r, some option, argument :: rest =>
    if isOption argument.toList then .error .misuse
    else do read signature (← r.takeValue option argument) none rest
  | r, none, argument :: rest =>
    match argument.toList with
    | ['-', '-'] => rest.foldlM (fun r text => r.takeBody signature text) r
    | '-' :: '-' :: text =>
      match splitOption text with
      | ("help", none) => .error .help
      | (name, value?) =>
        match signature.values.lookup name, signature.flags.lookup name, value? with
        | some option, _, some value => do
          read signature (← r.takeValue option value) none rest
        | some option, _, none => read signature r (some option) rest
        | none, some flag, none => do read signature (← r.takeFlag flag) none rest
        | _, _, _ => .error .misuse
    | '-' :: 'h' :: _ => .error .help
    | '-' :: _ :: _ => .error .misuse
    | _ => do read signature (← r.takeBody signature argument) none rest

/-- What the arguments of a command ask for. -/
def Request.ofParsed (command : String) (r : Arguments) : Option Request :=
  match command, r.body with
  | "disasm", some body => some (.disassemble body)
  | "run", some body =>
    let settings : Settings := {}
    some <| .run body
      { settings with
        maxStatements := r.maxStatements.getD settings.maxStatements
        maxDepth := r.maxDepth.getD settings.maxDepth
        trackLocals := r.trackLocals
        profile := r.profile }
  | "demo", none => some (.demo (r.count.getD 5))
  | _, _ => none

/-- The signature of a command. -/
def signature? : String → Option Signature
  | "disasm" => some disassembleSignature
  | "run" => some runSignature
  | "demo" => some demoSignature
  | _ => none

/-- What the arguments ask for; nothing if they are in error. -/
def Request.ofArguments : List String → Option Request
  | [] => none
  | command :: arguments =>
    match command.toList with
    | ['-', '-', 'h', 'e', 'l', 'p'] => some .help
    | ['-', '-', 'v', 'e', 'r', 's', 'i', 'o', 'n'] => some .version
    | '-' :: 'h' :: _ => some .help
    | '-' :: 'V' :: _ => some .version
    | _ =>
      match signature? command with
      | some signature =>
        match read signature {} none arguments with
        | .ok r => Request.ofParsed command r
        | .error .help => some .help
        | .error .misuse => none
      | none =>
        match command, arguments with
        | "help", [] => some .help
        | "help", [topic] =>
          if topic = "help" ∨ (signature? topic).isSome then some .help else none
        | _, _ => none

/-! ## Carrying it out -/

/-- The handler with a body in hexadecimal, or the complaint about it. -/
def handlerOfHex (text : String) : Except String Handler :=
  match Hex.decode (Text.trim text) with
  | .ok bytes => (Handler.ofBody ⟨1⟩ "Main" bytes.toArray).mapError Fault.message
  | .error complaint => .error ("bad hex: " ++ complaint.message)

/-- The line of a profile. -/
def profileLine (classes : Directory) (p : Profile) : String :=
  let name :=
    match (classes.get? p.cls).bind fun c => (c.handler? p.message).map fun h => (c, h) with
    | some (c, h) => c.name ++ "." ++ h.name
    | none => toString p.cls ++ "." ++ toString p.message
  "  " ++ name ++ ": " ++ toString p.calls ++ " calls, " ++ toString p.total ++ " ms total, " ++
    toString p.highest ++ " ms max"

/-- The most profiles that are shown. -/
def profileLimit : Nat := 10

/-- The statistics of an engine in words. -/
def statisticsLines (e : Engine) : List String :=
  let s := e.statistics
  ["messages: " ++ toString s.messages ++ " (" ++ toString s.topLevel ++
      " top level), native calls: " ++ toString s.nativeCalls ++ ", deepest stack: " ++
      toString s.deepest,
    "last: " ++ toString s.last.statements ++ " statements, " ++ toString s.last.nativeCalls ++
      " native calls, " ++ toString s.last.millis ++ " ms"] ++
    (s.topProfiles profileLimit).map (profileLine e.world.classes)

/-- The outcome of a command that cannot go on after it has written `output`. -/
def failure (output : List String) (complaint : String) : Outcome where
  code := 1
  output := output
  errors := ["Error: " ++ complaint]

def disassemble (body : String) : Outcome :=
  match handlerOfHex body with
  | .error complaint => failure [] complaint
  | .ok handler =>
    match handler.listingLines with
    | .ok lines => { output := lines }
    | .error f => failure [] f.message

/-- Runs a body as the handler of a fresh object whose only property is the object itself. -/
def run (body : String) (settings : Settings) : Outcome :=
  match handlerOfHex body with
  | .error complaint => failure [] complaint
  | .ok handler =>
    let cls : Class :=
      { id := ⟨1⟩, name := "Scratch", properties := [⟨⟨1⟩, .nil⟩], handlers := [handler] }
    let (object, engine) := Engine.ofClass settings cls
    let (result, engine) := engine.send ⟨object, handler.id, []⟩
    let (delivered, engine) := engine.deliver
    let resultLine :=
      match result with
      | .ok v => "result: " ++ engine.world.classes.valueName v
      | .error f => "failed: " ++ f.message
    let deliveredLines :=
      if delivered = 0 then [] else ["delivered " ++ toString delivered ++ " posted messages"]
    { output := resultLine :: (deliveredLines ++ statisticsLines engine) }

/-- The heading and the listing of a handler. -/
def section? (handler : Handler) : Except Fault (List String) :=
  handler.listingLines.map fun lines => ("== " ++ handler.name ++ " ==") :: lines

/-- Lists the countdown script and counts down from `count`. -/
def demo (count : Int) : Outcome :=
  match Countdown.cls with
  | .error f => failure [] f.message
  | .ok cls =>
    match cls.handlers.mapM section? with
    | .error f => failure [] f.message
    | .ok sections =>
      let listing := sections.flatten
      let (object, engine) := Engine.ofClass { profile := true } cls
      let (result, engine) :=
        engine.send ⟨object, Countdown.count, [⟨Countdown.number, .int count⟩]⟩
      match result with
      | .error f => failure listing f.message
      | .ok v =>
        let posted := engine.world.posts.size
        let (_, after) := engine.deliver
        let tickLines :=
          match (after.world.objects.get? object).map fun o => o.property 1 with
          | some (.ok ticks) => ["ticks: " ++ after.world.classes.valueName ticks]
          | _ => []
        { output :=
            listing ++
              ["Count(" ++ toString count ++ ") = " ++ engine.world.classes.valueName v,
                "posted: " ++ toString posted] ++
              tickLines ++ statisticsLines after }

/-- Carries out what is asked for. -/
def Request.perform : Request → Outcome
  | .disassemble body => CommandLine.disassemble body
  | .run body settings => CommandLine.run body settings
  | .demo count => CommandLine.demo count
  | .version => { output := ["blakod 0.1.0"] }
  | .help => {}

/-- What a command line leads to.  Arguments in error end with code two. -/
def perform (arguments : List String) : Outcome :=
  match Request.ofArguments arguments with
  | some request => request.perform
  | none => { code := 2 }

end CommandLine

end MessageMachine
