import MessageMachine.Proofs.Engine.History
import MessageMachine.Proofs.Machine.Posting

/-!
# Delivery of posts

Posts come from the keeper of the engine, from the scripts of top-level sends, and from the
scripts of sends that are themselves deliveries.  `Engine.ledger` lists what a history does to
posts, whoever does it.  The ledger is true of the queue (`Engine.undergoes_after`), so its
balance holds for every history: what was accepted is what was delivered and what is waiting
still, in the same order.

A round of deliveries takes its posts out of the very queue that its sends put theirs into.  What is
posted during the round goes behind what is left of it, so the round delivers what was waiting when
it began (`Engine.deliverOldest_eq`), and what it leaves behind is what was posted meanwhile.
-/

namespace MessageMachine

/-! ## The ledger of a history -/

namespace Engine

/-- What a top-level send tells of posts. -/
def ledgerOfSend (e : Engine) (send : Send) : Ledger := (e.start send).ledger e.environment

end Engine

/-- What a delivery does to posts: its own is taken out of the queue, and its send
may post others. -/
def Sending.ledger (s : Sending) : Ledger := .delivered s.send :: s.engine.ledgerOfSend s.send

/-- What several deliveries deliver. -/
theorem Sending.delivered_ledgers (sendings : List Sending) :
    Ledger.delivered (sendings.flatMap ledger) = sendings.map send := by
  induction sendings with
  | nil => rfl
  | cons s sendings ih =>
    have one : s.ledger.delivered = [s.send] :=
      congrArg (s.send :: ·) (Machine.delivered_ledger _ _)
    rw [List.flatMap_cons, Ledger.delivered_append, one, ih, List.map_cons, List.singleton_append]

namespace Engine

/-- What a deed does to posts. -/
def ledgerOf (e : Engine) : Deed → Ledger
  | .send s => e.ledgerOfSend s
  | .post p => [if (e.post? p).isSome then .accepted p else .refused p]
  | .deliver => e.deliveries.flatMap Sending.ledger
  | .configure _ | .lend .. => []

/-- What a history does to posts. -/
def ledger : Engine → List Deed → Ledger
  | _, [] => []
  | e, d :: deeds => e.ledgerOf d ++ (e.act d).ledger deeds

/-! ## Sends -/

/-- The ledger of a top-level send is true.  The capacity of the settings counts
from its beginning. -/
theorem undergoes_send (e : Engine) (hn : e.natives.IsStandard) (send : Send) :
    e.world.posts.Undergoes (e.ledgerOfSend send) (e.send send).2.world.posts :=
  .resize e.settings.postCapacity (Machine.undergoes_run e.environment hn (e.start send))

/-- A send puts its posts behind those that wait. -/
theorem waiting_send (e : Engine) (hn : e.natives.IsStandard) (send : Send) :
    (e.send send).2.world.posts.waiting =
      e.world.posts.waiting ++ (e.ledgerOfSend send).accepted := by
  have balance := (e.undergoes_send hn send).balance
  rw [ledgerOfSend, Machine.delivered_ledger] at balance
  exact balance.symm

theorem posts_deliverPost (e : Engine) (post : Send) :
    (e.deliverPost post).world.posts = (e.send post).2.world.posts := by
  unfold deliverPost
  generalize e.send post = outcome
  match outcome with
  | (.ok _, _) => rfl
  | (.error _, _) => rfl

theorem natives_deliverPost (e : Engine) (post : Send) :
    (e.deliverPost post).natives = e.natives := by
  have natives : (e.send post).2.natives = e.natives := rfl
  unfold deliverPost
  generalize e.send post = outcome at natives
  match outcome with
  | (.ok _, _) => exact natives
  | (.error _, _) => exact natives

/-! ## Rounds of deliveries -/

theorem natives_deliverOldest (count : Nat) (e : Engine) :
    (e.deliverOldest count).2.natives = e.natives ∧
      ∀ s ∈ e.oldestDeliveries count, s.engine.natives = e.natives := by
  induction count generalizing e with
  | zero => exact ⟨rfl, fun s h => by cases h⟩
  | succ count ih =>
    cases waiting : e.world.posts.waiting with
    | nil =>
      obtain ⟨round, none⟩ := deliverOldest_of_empty (count + 1) waiting
      rw [round, none]
      exact ⟨rfl, fun s h => by cases h⟩
    | cons post others =>
      obtain ⟨round, sends⟩ := deliverOldest_of_cons count waiting
      obtain ⟨after, later⟩ := ih (e.popped.deliverPost post)
      rw [natives_deliverPost] at after later
      rw [round, sends]
      exact ⟨after, List.forall_mem_cons.mpr ⟨rfl, later⟩⟩

/-- The ledger of a round is true. -/
theorem undergoes_deliverOldest (count : Nat) (e : Engine) (hn : e.natives.IsStandard) :
    e.world.posts.Undergoes ((e.oldestDeliveries count).flatMap Sending.ledger)
      (e.deliverOldest count).2.world.posts := by
  induction count generalizing e with
  | zero => exact .refl _
  | succ count ih =>
    cases waiting : e.world.posts.waiting with
    | nil =>
      obtain ⟨round, none⟩ := deliverOldest_of_empty (count + 1) waiting
      rw [round, none]
      exact .refl _
    | cons post others =>
      obtain ⟨round, sends⟩ := deliverOldest_of_cons count waiting
      have popped : e.world.posts.Happens (.delivered post) e.popped.world.posts := by
        rw [posts_popped waiting]
        exact .delivered waiting
      have sent := undergoes_send e.popped hn post
      have later := ih (e.popped.deliverPost post) (by rw [natives_deliverPost]; exact hn)
      rw [posts_deliverPost] at later
      rw [round, sends, List.flatMap_cons]
      exact .event popped (sent.trans later)

/-- **A round delivers the oldest posts**, as many as it is asked for: it sends each of them on what
the delivery before has left behind. -/
theorem deliverOldest_eq (count : Nat) (e : Engine) (hn : e.natives.IsStandard)
    (enough : count ≤ e.world.posts.waiting.length) :
    e.deliverOldest count =
        (count, (e.world.posts.waiting.take count).foldl
          (fun e post => e.popped.deliverPost post) e) ∧
      (e.oldestDeliveries count).map Sending.send = e.world.posts.waiting.take count := by
  induction count generalizing e with
  | zero => exact ⟨rfl, rfl⟩
  | succ count ih =>
    cases waiting : e.world.posts.waiting with
    | nil =>
      rw [waiting] at enough
      cases enough
    | cons post others =>
      obtain ⟨round, sends⟩ := deliverOldest_of_cons count waiting
      rw [waiting] at enough
      have enough : count ≤ others.length := Nat.le_of_succ_le_succ enough
      -- what is posted during the round goes behind the rest of it
      have rest : (e.popped.deliverPost post).world.posts.waiting =
          others ++ (e.popped.ledgerOfSend post).accepted := by
        rw [posts_deliverPost, waiting_send e.popped hn, posts_popped waiting]
      have oldest : (e.popped.deliverPost post).world.posts.waiting.take count =
          others.take count := by
        rw [rest, List.take_append_of_le_length enough]
      obtain ⟨later, posts⟩ := ih (e.popped.deliverPost post)
        (by rw [natives_deliverPost]; exact hn)
        (by rw [rest, List.length_append]; exact Nat.le_add_right_of_le enough)
      rw [oldest] at later posts
      rw [round, sends, List.map_cons, later, posts]
      exact ⟨rfl, rfl⟩

/-! ## Histories -/

theorem natives_act (e : Engine) (d : Deed) : (e.act d).natives = e.natives := by
  cases d with
  | send s => rfl
  | post p =>
    show ((e.post? p).getD e).natives = e.natives
    unfold post?
    cases e.world.posts.push? p <;> rfl
  | deliver => exact (natives_deliverOldest _ e).1
  | configure | lend => rfl

theorem natives_after (e : Engine) (deeds : List Deed) : (e.after deeds).natives = e.natives := by
  induction deeds generalizing e with
  | nil => rfl
  | cons d deeds ih => exact (ih (e.act d)).trans (e.natives_act d)

theorem natives_of_mem_sendings {e : Engine} {deeds : List Deed} {s : Sending}
    (h : s ∈ e.sendings deeds) : s.engine.natives = e.natives := by
  induction deeds generalizing e with
  | nil => cases h
  | cons d deeds ih =>
    rcases List.mem_append.mp h with h | h
    · cases d with
      | send send =>
        rw [List.mem_singleton.mp h]
      | deliver => exact (natives_deliverOldest _ e).2 s h
      | post | configure | lend => cases h
    · rw [ih h, natives_act]

/-- **The ledger of a deed is true.** -/
theorem undergoes_act (e : Engine) (hn : e.natives.IsStandard) (d : Deed) :
    e.world.posts.Undergoes (e.ledgerOf d) (e.act d).world.posts := by
  cases d with
  | send s => exact e.undergoes_send hn s
  | post p =>
    show e.world.posts.Undergoes [if (e.post? p).isSome then _ else _]
      ((e.post? p).getD e).world.posts
    unfold post?
    cases push : e.world.posts.push? p with
    | none => exact .single (.refused ((PostQueue.push?_eq_none_iff _ _).mp push))
    | some posts => exact .single (PostQueue.happens_of_push? push)
  | deliver => exact undergoes_deliverOldest _ e hn
  | configure | lend => exact .refl _

/-- **The ledger of a history is true.** -/
theorem undergoes_after (e : Engine) (hn : e.natives.IsStandard) (deeds : List Deed) :
    e.world.posts.Undergoes (e.ledger deeds) (e.after deeds).world.posts := by
  induction deeds generalizing e with
  | nil => exact .refl _
  | cons d deeds ih =>
    exact (e.undergoes_act hn d).trans (ih (e.act d) (by rw [natives_act]; exact hn))

/-- **No post is lost, delivered twice, or overtaken.**  Let the natives be standard and the queue
be empty at first, and take any history.

The posts that were accepted are those that were delivered, and after them those that are waiting,
all in the order in which they were accepted.

A post of the keeper is refused by a full queue only, and then nothing happens to the engine.  A
script posts through `PostMessage`, and learns from its reply whether the post was accepted; when it
was refused, nothing happens to the queue.

A round of deliveries that follows sends each post that is waiting, on what the delivery before has
left behind, whether that one has failed or not.  It says how many there were, and leaves behind
those posts that were accepted during the round. -/
theorem history_keeps_posts (e : Engine) (hn : e.natives.IsStandard)
    (empty : e.world.posts.waiting = []) (deeds : List Deed) :
    let now := e.after deeds
    let round := now.ledgerOf .deliver
    (e.ledger deeds).accepted = (e.ledger deeds).delivered ++ now.world.posts.waiting ∧
    (∀ post, (now.post? post = none ↔ now.world.posts.capacity ≤ now.world.posts.size) ∧
      (now.post? post = none →
        now.act (.post post) = now ∧ now.ledgerOf (.post post) = [.refused post])) ∧
    (∀ s ∈ e.sendings deeds, ∀ m ∈ s.engine.states s.send,
      (∀ x, m.postEvent? s.engine.environment = some x ↔
        ∃ i post, m.invocation? s.engine.environment = some i ∧
          i.native.run = Native.postMessage.run ∧ i.call.send = .ok post ∧
            (i.reply = .value (.int 1) ∧ x = .accepted post ∨
              i.reply = .value (.int 0) ∧ x = .refused post)) ∧
      ∀ post, m.postEvent? s.engine.environment = some (.refused post) →
        (m.step s.engine.environment).session.world.posts = m.session.world.posts) ∧
    now.deliver = (now.world.posts.size,
      now.world.posts.waiting.foldl (fun e post => e.popped.deliverPost post) now) ∧
    now.deliveries.map Sending.send = now.world.posts.waiting ∧
    round.delivered = now.world.posts.waiting ∧
    now.deliver.2.world.posts.waiting = round.accepted := by
  intro now round
  have standard : now.natives.IsStandard := by
    rw [natives_after]
    exact hn
  have history := (e.undergoes_after hn deeds).balance
  rw [empty, List.nil_append] at history
  obtain ⟨delivers, posts⟩ := deliverOldest_eq now.world.posts.size now standard (Nat.le_refl _)
  rw [PostQueue.size, List.take_length] at delivers posts
  have delivered : round.delivered = now.world.posts.waiting :=
    (Sending.delivered_ledgers _).trans posts
  refine ⟨history, fun post => ⟨?_, fun refused => ⟨?_, ?_⟩⟩, fun s hs m _ => ?_, delivers, posts,
    delivered, ?_⟩
  · rw [← PostQueue.push?_eq_none_iff _ post]
    exact Option.map_eq_none_iff
  · show (now.post? post).getD now = now
    rw [refused]
    rfl
  · show [if (now.post? post).isSome then _ else _] = _
    rw [refused]
    rfl
  · have natives : s.engine.environment.natives.IsStandard := by
      rw [environment, natives_of_mem_sendings hs]
      exact hn
    refine ⟨fun x => m.postEvent?_eq_some_iff _ natives x, fun post refused => ?_⟩
    have takes := m.takes_step _ natives
    rw [refused] at takes
    exact (PostQueue.Happens.eq_of_refused takes).2
  · have balance := (now.undergoes_act standard .deliver).balance
    rw [show (now.ledgerOf .deliver).delivered = now.world.posts.waiting from delivered] at balance
    exact (List.append_cancel_left balance).symm

/-- An engine with one object and room for one post, whose handler for message 1 posts the message
that it handles once more. -/
def echoing : Engine :=
  ofBody { postCapacity := 1 } []
    #[0, 0, 0x60, 1, 2, 2, 0, 0, 0, 0x20, 2, 1, 0, 0, 0xB0, 0, 0x98, 0, 0, 0, 0]

theorem history_keeps_posts_echoing :
    let send : Send := ⟨⟨0⟩, ⟨1⟩, []⟩
    let deeds := [Deed.send send, .post send]
    echoing.natives.IsStandard ∧ echoing.world.posts.waiting = [] ∧
      (echoing.after deeds).world.posts = ⟨1, [send]⟩ ∧
      (echoing.ledger deeds).accepted = (echoing.ledger deeds).delivered ++ [send] ∧
      (echoing.after deeds).deliver.1 = 1 ∧
      (echoing.after deeds).deliveries.map Sending.send = [send] := by
  intro send deeds
  have natives : echoing.natives.IsStandard := NativeTable.isStandard_standard
  have halts : ((Machine.step echoing.environment)^[5]
      (echoing.start send)).control.isHalted = true := by decide +kernel
  have posted : (echoing.send send).2.world.posts = ⟨1, [send]⟩ := by
    rw [send_eq, Machine.run_eq_iterate _ 5 _ halts]
    decide +kernel
  -- the post of the keeper finds the queue full
  have refused : (echoing.send send).2.post? send = none := by
    rw [post?, posted]
    rfl
  have now : echoing.after deeds = (echoing.send send).2 := by
    show ((echoing.send send).2.post? send).getD _ = _
    rw [refused]
    rfl
  obtain ⟨balance, -, -, round, posts, -⟩ := history_keeps_posts echoing natives rfl deeds
  rw [now, posted] at balance round posts
  rw [now]
  exact ⟨natives, rfl, posted, balance, congrArg Prod.fst round, posts⟩

end Engine

end MessageMachine
