import MessageMachine.Handler

/-!
# Sends and posts

A send asks an object to handle a message.  A send may also be *posted*: it then waits in a queue
until the next round of deliveries.  The queue is first in, first out, and refuses a post when it is
full.  Lowering its capacity drops nothing.
-/

namespace MessageMachine

/-- A message for an object, with its arguments. -/
structure Send where
  receiver : ObjectId
  message : MessageId
  arguments : List Argument := []
  deriving DecidableEq, Inhabited

/-- The sends that wait to be delivered, oldest first. -/
structure PostQueue where
  capacity : Nat
  waiting : List Send := []
  deriving DecidableEq

namespace PostQueue

def size (q : PostQueue) : Nat := q.waiting.length

/-- The queue with one more post at its end, unless it is full. -/
def push? (q : PostQueue) (post : Send) : Option PostQueue :=
  if q.size < q.capacity then some { q with waiting := q.waiting ++ [post] } else none

/-- The oldest post, and the queue without it. -/
def pop? (q : PostQueue) : Option (Send × PostQueue) :=
  match q.waiting with
  | post :: rest => some (post, { q with waiting := rest })
  | [] => none

def clear (q : PostQueue) : PostQueue := { q with waiting := [] }

/-- The wording of a refusal by a queue of the given capacity. -/
def fullMessage (capacity : Nat) : String :=
  "post queue is full (" ++ toString capacity ++ " pending)"

end PostQueue

end MessageMachine
