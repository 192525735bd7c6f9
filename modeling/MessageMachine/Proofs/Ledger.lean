import MessageMachine.Post

/-!
# Ledgers of posts

A ledger lists what happened to posts, in order: a post was accepted by the queue, it was refused
for want of room, or it was taken out of the queue to be delivered.

`PostQueue.Undergoes` says that a ledger tells the truth about a queue: each event could happen when
it did, and between the events nothing happened to the queue but changes of its capacity.  Such
ledgers can be put one behind the other (`Undergoes.trans`), which is how the ledger of a run or of
a whole history is made from the ledgers of its parts.

`Undergoes.balance` is what a true ledger is good for.  What was waiting at first and what was
accepted since is, in this order, what was delivered and what is waiting now.  So no post is lost,
none is delivered twice, and none overtakes another.
-/

namespace MessageMachine

/-- Something that happens to a post. -/
inductive PostEvent where
  /-- It is put into the queue. -/
  | accepted (post : Send)
  /-- There is no room for it in the queue. -/
  | refused (post : Send)
  /-- It is taken out of the queue, to be sent. -/
  | delivered (post : Send)
  deriving DecidableEq

namespace PostEvent

def accepted? : PostEvent → Option Send
  | accepted post => some post
  | refused _ | delivered _ => none

def delivered? : PostEvent → Option Send
  | delivered post => some post
  | accepted _ | refused _ => none

end PostEvent

/-- The events of some time, in order. -/
abbrev Ledger := List PostEvent

namespace Ledger

/-- The posts that were accepted. -/
def accepted (l : Ledger) : List Send := l.filterMap PostEvent.accepted?

/-- The posts that were delivered. -/
def delivered (l : Ledger) : List Send := l.filterMap PostEvent.delivered?

@[simp] theorem accepted_append (l l' : Ledger) : accepted (l ++ l') = l.accepted ++ l'.accepted :=
  List.filterMap_append

@[simp] theorem delivered_append (l l' : Ledger) :
    delivered (l ++ l') = l.delivered ++ l'.delivered :=
  List.filterMap_append

end Ledger

namespace PostQueue

/-- The event can happen to the queue `q`, and leaves `q'`. -/
inductive Happens : PostQueue → PostEvent → PostQueue → Prop where
  | accepted {q : PostQueue} {post : Send} (room : q.size < q.capacity) :
    Happens q (.accepted post) { q with waiting := q.waiting ++ [post] }
  | refused {q : PostQueue} {post : Send} (full : q.capacity ≤ q.size) :
    Happens q (.refused post) q
  | delivered {q : PostQueue} {post : Send} {others : List Send}
      (oldest : q.waiting = post :: others) :
    Happens q (.delivered post) { q with waiting := others }

/-- The event happens to the queue; without one the queue stays as it is. -/
def Takes (q : PostQueue) (event : Option PostEvent) (q' : PostQueue) : Prop :=
  match event with
  | some x => q.Happens x q'
  | none => q' = q

/-- The events of the ledger lead from one queue to another. -/
inductive Undergoes : PostQueue → Ledger → PostQueue → Prop where
  | refl (q : PostQueue) : Undergoes q [] q
  /-- The capacity is changed, and nothing is dropped. -/
  | resize {q q' : PostQueue} {l : Ledger} (capacity : Nat)
      (later : Undergoes { q with capacity } l q') : Undergoes q l q'
  | event {q q₁ q' : PostQueue} {x : PostEvent} {l : Ledger} (happens : q.Happens x q₁)
      (later : Undergoes q₁ l q') : Undergoes q (x :: l) q'

/-- A post is refused exactly by a full queue. -/
theorem push?_eq_none_iff (q : PostQueue) (post : Send) :
    q.push? post = none ↔ q.capacity ≤ q.size := by
  unfold push?
  split
  · exact ⟨fun h => (by cases h), fun full => absurd full (Nat.not_le_of_lt ‹_›)⟩
  · exact ⟨fun _ => Nat.le_of_not_lt ‹_›, fun _ => rfl⟩

/-- A queue that takes a post accepts it. -/
theorem happens_of_push? {q q' : PostQueue} {post : Send} (h : q.push? post = some q') :
    q.Happens (.accepted post) q' := by
  unfold push? at h
  split at h
  · cases h
    exact .accepted ‹_›
  · cases h

/-- A refused post leaves the queue as it is. -/
theorem Happens.eq_of_refused {q q' : PostQueue} {post : Send} (h : q.Happens (.refused post) q') :
    q.capacity ≤ q.size ∧ q' = q := by
  cases h
  exact ⟨‹_›, rfl⟩

namespace Undergoes

variable {q q' q'' : PostQueue} {l l' : Ledger}

theorem single {x : PostEvent} (h : q.Happens x q') : q.Undergoes [x] q' := .event h (.refl _)

theorem of_takes {event : Option PostEvent} (h : q.Takes event q') :
    q.Undergoes event.toList q' := by
  cases event with
  | none =>
    rw [show q' = q from h]
    exact .refl q
  | some x => exact single h

theorem trans (h : q.Undergoes l q') (h' : q'.Undergoes l' q'') : q.Undergoes (l ++ l') q'' := by
  induction h with
  | refl => exact h'
  | resize capacity _ ih => exact .resize capacity (ih h')
  | event happens _ ih => exact .event happens (ih h')

/-- **The balance of a queue.**  What was waiting and what was accepted is what was delivered and
what is waiting now, in this order. -/
theorem balance (h : q.Undergoes l q') : q.waiting ++ l.accepted = l.delivered ++ q'.waiting := by
  induction h with
  | refl => exact List.append_nil _
  | resize _ _ ih => exact ih
  | @event q q₁ q' x l happens _ ih =>
    cases happens with
    | @accepted post room =>
      show q.waiting ++ ([post] ++ l.accepted) = l.delivered ++ q'.waiting
      rw [← List.append_assoc]
      exact ih
    | refused => exact ih
    | @delivered post others oldest =>
      rw [oldest]
      exact congrArg (post :: ·) ih

end Undergoes

end PostQueue

end MessageMachine
