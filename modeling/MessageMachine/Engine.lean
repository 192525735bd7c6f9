import MessageMachine.Machine.Run

/-!
# The engine

An `Engine` keeps a world between runs, with the settings, the native functions and the statistics.
Its keeper makes top-level sends, posts messages, and has the posts delivered.

Each top-level send is a run of the machine with a budget of its own.  The settings count from its
beginning, the capacity of the queue included.

A round of deliveries takes the posts that are waiting when it begins, in their order, and makes a
top-level send of each.  What is posted during the round waits for the next one.
-/

namespace MessageMachine

/-- A world with all that is needed to run messages in it. -/
structure Engine where
  settings : Settings := {}
  natives : NativeTable := .standard
  statistics : Statistics := {}
  world : World

namespace Engine

/-- An engine for an empty world. -/
def ofSettings (settings : Settings) (clock : Clock := {}) : Engine where
  settings := settings
  world := { posts := { capacity := settings.postCapacity }, clock }

/-- An engine for a world with one class and one object of it, whose first property, if it has one,
is the object itself. -/
def ofClass (settings : Settings) (cls : Class) : ObjectId × Engine :=
  let e := ofSettings settings
  let (object, objects) := e.world.objects.create (e.world.classes.nextRecord cls)
  let objects := objects.update object fun o =>
    match o.setProperty 0 (.object object) with
    | .ok o => o
    | .error _ => o
  (object, { e with world := { e.world with objects, classes := e.world.classes.insert cls } })

def environment (e : Engine) : Environment := ⟨e.settings, e.natives⟩

/-- The session in which a top-level send begins, and what the clock shows then. -/
def beginSend (e : Engine) : UInt64 × Session :=
  let (started, clock) := e.world.clock.read
  let posts := { e.world.posts with capacity := e.settings.postCapacity }
  (started,
    { world := { e.world with posts, clock }
      statistics := e.statistics.beginSend e.settings })

/-- The engine after a top-level send that began at `started` and ended with `session`. -/
def endSend (e : Engine) (send : Send) (started : UInt64) (session : Session) : Engine :=
  let (ended, clock) := session.world.clock.read
  let millis := Clock.elapsed started ended
  { e with
    world := { session.world with clock }.log (.sendEnded send session.statements millis)
    statistics :=
      session.statistics.endSend send.receiver send.message
        ⟨.ofNat session.statements, .ofNat session.nativeCalls, millis⟩ }

/-- Makes a top-level send. -/
def send (e : Engine) (send : Send) : Except Fault Value × Engine :=
  let (started, session) := e.beginSend
  let m := (Machine.ofSend session send).run e.environment
  (m.result, e.endSend send started m.session)

/-- Posts a message, if there is room for it. -/
def post? (e : Engine) (post : Send) : Option Engine :=
  (e.world.posts.push? post).map fun posts => { e with world := { e.world with posts } }

/-- Makes a top-level send of a post.  A failure is recorded. -/
def deliverPost (e : Engine) (post : Send) : Engine :=
  match e.send post with
  | (.ok _, e) => e
  | (.error f, e) => { e with world := e.world.log (.postFailed post f) }

/-- Delivers the oldest posts, at most `count` of them, and says how many there were. -/
def deliverOldest : (count : Nat) → Engine → Nat × Engine
  | 0, e => (0, e)
  | count + 1, e =>
    match e.world.posts.pop? with
    | none => (0, e)
    | some (post, posts) =>
      let (delivered, e) :=
        deliverOldest count ({ e with world := { e.world with posts } }.deliverPost post)
      (delivered + 1, e)

/-- Delivers the posts that are waiting now. -/
def deliver (e : Engine) : Nat × Engine := e.deliverOldest e.world.posts.size

end Engine

end MessageMachine
