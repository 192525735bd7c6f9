import MessageMachine.World
import MessageMachine.Statistics

/-!
# Native functions

Code calls native functions through a table of slots.  A native function sees the call, acts on the
world, and replies in one of three ways: with a value, with a fault, or by naming a send.  The value
of a call that replies with a send is the answer to that send; so the machine, not the function,
runs the send, and whoever reads a native function can see all that it does.

## The standard functions

`SendMessage` sends at once, `PostMessage` puts the send off to the next round of deliveries and
says whether there was room for it, and `Debug` records its operands.
-/

namespace MessageMachine

/-- What a native function sees of the call. -/
structure Call where
  /-- The name under which the function is called. -/
  name : String
  /-- The object whose handler makes the call. -/
  receiver : ObjectId
  /-- The locals of that handler. -/
  frame : Frame
  positional : List Value
  named : List Argument
  /-- The running handlers, the innermost first. -/
  stack : List Activation
  settings : Settings
  statistics : Statistics
  /-- The statements executed so far in this top-level send. -/
  statements : Nat
  /-- The native calls so far in this top-level send, this one included. -/
  nativeCalls : Nat

namespace Call

/-- A failure of the function itself. -/
def complain (c : Call) (reason : String) : Fault := .native c.name reason

/-- A positional operand. -/
def operand (c : Call) (index : Nat) : Except Fault Value :=
  match c.positional[index]? with
  | some v => .ok v
  | none => .error (c.complain ("missing parameter " ++ toString index))

/-- A positional operand that has to be an object. -/
def object (c : Call) (index : Nat) : Except Fault ObjectId := do
  let v ← c.operand index
  match v.asObject? with
  | some id => .ok id
  | none =>
    .error (c.complain ("parameter " ++ toString index ++ " is " ++ v.text ++ ", not an object"))

/-- A positional operand that has to be a message. -/
def message (c : Call) (index : Nat) : Except Fault MessageId := do
  let v ← c.operand index
  match v.asMessage? with
  | some id => .ok id
  | none =>
    .error (c.complain ("parameter " ++ toString index ++ " is " ++ v.text ++ ", not a message"))

/-- The send that the first two operands and all named ones describe. -/
def send (c : Call) : Except Fault Send := do
  let receiver ← c.object 0
  let message ← c.message 1
  .ok ⟨receiver, message, c.named⟩

/-- The innermost running handler. -/
def position (c : Call) : Option Activation := c.stack.head?

end Call

/-- How a native function replies. -/
inductive Reply where
  | value (v : Value)
  | fault (f : Fault)
  /-- The answer to this send is the value of the call. -/
  | send (s : Send)

/-- A native function. -/
structure Native where
  name : String
  run : Call → World → Reply × World

namespace Native

/-- `SendMessage(object, message, named…)` sends at once. -/
def sendMessage : Native where
  name := "SendMessage"
  run c w :=
    match c.send with
    | .ok s => (.send s, w)
    | .error f => (.fault f, w)

/-- `PostMessage(object, message, named…)` queues the send.  Its value is one if there was room and
zero if not. -/
def postMessage : Native where
  name := "PostMessage"
  run c w :=
    match c.send with
    | .ok s =>
      match w.posts.push? s with
      | some posts => (.value (.int 1), { w with posts })
      | none => (.value (.int 0), w.log (.postRefused c.position w.posts.capacity))
    | .error f => (.fault f, w)

/-- `Debug(values…)` records the values. -/
def debug : Native where
  name := "Debug"
  run c w := (.value .nil, w.log (.shown c.position c.positional))

end Native

/-- The slots for native functions. -/
abbrev NativeTable := Vector (Option Native) Limits.natives

namespace NativeTable

def empty : NativeTable := .replicate _ none

/-- The function in a slot. -/
def slot (t : NativeTable) (index : UInt8) : Option Native := t.get ⟨index.toNat, index.toNat_lt⟩

/-- The table with a slot filled or cleared. -/
def setSlot (t : NativeTable) (index : UInt8) (native : Option Native) : NativeTable :=
  t.set index.toNat native index.toNat_lt

/-- The slots of the standard functions. -/
def standard : NativeTable :=
  ((empty.setSlot 0 Native.sendMessage).setSlot 1 Native.postMessage).setSlot 2 Native.debug

/-- The filled slots, in order, with the names of their functions. -/
def entries (t : NativeTable) : List (Nat × String) :=
  t.toList.zipIdx.filterMap fun (native, index) => native.map fun n => (index, n.name)

end NativeTable

end MessageMachine
