import MessageMachine.Engine

/-!
# Histories of an engine

A history is a list of deeds of the keeper of an engine: top-level sends, posts, rounds of
deliveries, changes of the settings, and changes of the objects and classes that the engine is to
work on. `Engine.after` is the engine that it leaves behind.

A round of deliveries is made of top-level sends, each on the engine that the one before has left
behind. `Engine.deliveries` lists them, so that a round can be spoken of as the sends that it makes;
`Engine.sendings` does the same for a whole history.
-/

namespace MessageMachine

/-- Something that the keeper of an engine does. -/
inductive Deed where
  | send (send : Send)
  | post (post : Send)
  /-- A round of deliveries. -/
  | deliver
  | configure (settings : Settings)
  /-- The engine is given other objects and classes to work on. -/
  | lend (objects : Population) (classes : Directory)

/-- A top-level send, and the engine that it is made on. -/
structure Sending where
  engine : Engine
  send : Send

namespace Engine

/-- The engine after a deed.  A post that is refused leaves it as it is. -/
def act (e : Engine) : Deed → Engine
  | .send s => (e.send s).2
  | .post p => (e.post? p).getD e
  | .deliver => e.deliver.2
  | .configure settings => { e with settings }
  | .lend objects classes => { e with world := { e.world with objects, classes } }

/-- The engine after a history. -/
def after (e : Engine) (deeds : List Deed) : Engine := deeds.foldl act e

/-- The engine without its oldest post. -/
def popped (e : Engine) : Engine :=
  { e with
    world := { e.world with
      posts := { e.world.posts with waiting := e.world.posts.waiting.tail } } }

/-- The sends of a round of at most `count` deliveries. -/
def oldestDeliveries : (count : Nat) → Engine → List Sending
  | 0, _ => []
  | count + 1, e =>
    match e.world.posts.waiting with
    | [] => []
    | post :: _ => ⟨e.popped, post⟩ :: oldestDeliveries count (e.popped.deliverPost post)

/-- The sends of a round of deliveries. -/
def deliveries (e : Engine) : List Sending := e.oldestDeliveries e.world.posts.size

/-- The top-level sends that a deed makes. -/
def sendingsOf (e : Engine) : Deed → List Sending
  | .send s => [⟨e, s⟩]
  | .deliver => e.deliveries
  | .post _ | .configure _ | .lend .. => []

/-- The top-level sends that a history makes. -/
def sendings : Engine → List Deed → List Sending
  | _, [] => []
  | e, d :: deeds => e.sendingsOf d ++ (e.act d).sendings deeds

/-! ## Rounds of deliveries -/

theorem posts_popped {e : Engine} {post : Send} {others : List Send}
    (h : e.world.posts.waiting = post :: others) :
    e.popped.world.posts = { e.world.posts with waiting := others } := by
  rw [popped, h]
  rfl

theorem deliverOldest_of_empty (count : Nat) {e : Engine} (h : e.world.posts.waiting = []) :
    e.deliverOldest count = (0, e) ∧ e.oldestDeliveries count = [] := by
  cases count with
  | zero => exact ⟨rfl, rfl⟩
  | succ count =>
    unfold deliverOldest oldestDeliveries PostQueue.pop?
    rw [h]
    exact ⟨rfl, rfl⟩

/-- A round begins with the oldest post. -/
theorem deliverOldest_of_cons (count : Nat) {e : Engine} {post : Send} {others : List Send}
    (h : e.world.posts.waiting = post :: others) :
    e.deliverOldest (count + 1) =
        (((e.popped.deliverPost post).deliverOldest count).1 + 1,
          ((e.popped.deliverPost post).deliverOldest count).2) ∧
      e.oldestDeliveries (count + 1) =
        ⟨e.popped, post⟩ :: (e.popped.deliverPost post).oldestDeliveries count := by
  have popped : e.popped = { e with world := { e.world with posts := e.popped.world.posts } } := rfl
  constructor
  · rw [popped, posts_popped h, deliverOldest, PostQueue.pop?, h]
  · rw [oldestDeliveries, h]

end Engine

end MessageMachine
