import MessageMachine.Class

/-!
# Values and calls in words

How diagnostics name things: values as a script's author knows them, and running handlers as
`[Class Message (line N)]`.  A name that the directory does not know is replaced by the number in
angle brackets.
-/

namespace MessageMachine

/-- A handler that is running: the receiver, the class that defines the handler (perhaps a
superclass of the receiver's), the message, and the source line it has reached. -/
structure Activation where
  receiver : ObjectId
  cls : ClassId
  message : MessageId
  line : UInt32 := 0
  deriving DecidableEq

/-- The word for the tag of a value.  Nil is a dollar sign, and the reserved tag its number. -/
def Value.tagName (v : Value) : String :=
  match v.tag with
  | .nil => "$"
  | .override => "14"
  | tag => tag.name

namespace Directory

/-- The word for the payload of a value.  Classes go by name. -/
def dataName (d : Directory) (v : Value) : String :=
  match v.tag with
  | .nil => "$"
  | .cls =>
    match v.asClass?.bind d.get? with
    | some c => c.name
    | none => "<class " ++ toString v.number ++ ">"
  | _ => toString v.number

/-- A value in words. -/
def valueName (d : Directory) (v : Value) : String := v.tagName ++ " " ++ d.dataName v

/-- The name of the class of an activation. -/
def className (d : Directory) (a : Activation) : String :=
  match d.get? a.cls with
  | some c => c.name
  | none => "<class " ++ toString a.cls ++ ">"

/-- The name of the handler of an activation, as its class defines it. -/
def handlerName (d : Directory) (a : Activation) : String :=
  match (d.get? a.cls).bind fun c => c.handler? a.message with
  | some h => h.name
  | none => "<message " ++ toString a.message ++ ">"

/-- A running handler in words. -/
def activationName (d : Directory) (a : Activation) : String :=
  "[" ++ d.className a ++ " " ++ d.handlerName a ++ " (line " ++ toString a.line ++ ")]"

/-- Where the machine is, in words. -/
def positionName (d : Directory) : Option Activation → String
  | some a => d.activationName a
  | none => "[top level]"

/-- All running handlers in words, from the innermost outwards. -/
def stackName (d : Directory) (stack : List Activation) : String :=
  match stack with
  | [] => "<empty>"
  | _ => " <- ".intercalate (stack.map fun a => d.activationName a ++ " on " ++ toString a.receiver)

end Directory

end MessageMachine
