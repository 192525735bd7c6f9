import Mathlib.Tactic.Ring
import MessageMachine.Countdown
import MessageMachine.Proofs.Arithmetic
import MessageMachine.Proofs.Machine.Contracts

/-!
# What the countdown script computes

`Countdown.count_correct` says what the message `Count` does, for every count: its answer, the
statements and the handlers that it counts, what it posts and what it changes, or that the budget
does not suffice for it.

The script is first assembled (`script_eq`).  Each handler then gets a contract, put together from
those of its statements in the order of its listing.

* `tick_brings` is by induction on the number that `Tick` is sent, since the handler sends its own
  message for the number below.
* `loop_brings` is by induction on the rounds that the loop of `Count` still has to go.  The number
  is taken as the 60 bits that it is, without a sign: a negative number goes down to the lowest one,
  wraps, and comes down to zero from above.

So a contract holds for every number, and it is the same contract: `4 * u + 38` statements, where
`u` is the number without its sign.  For a negative number this is above every reasonable budget.
-/

namespace MessageMachine

/-- A program writes a handler if it writes the body, and the body is accepted. -/
theorem Assembler.toHandler_of_body {program : Assembler Unit} {locals : UInt8} {id : MessageId}
    {name : String} {h : Handler}
    (bytes : (program.run { locals }).toOption.map (fun p => p.2.toBytes) = some h.body)
    (accepted : Handler.ofBody id name h.body = .ok h) :
    program.toHandler locals id name = .ok h := by
  unfold toHandler
  generalize program.run { locals } = outcome at bytes
  match outcome with
  | .ok (_, a) =>
    have bytes : a.toBytes = h.body := Option.some.inj bytes
    dsimp only [Assembly.toHandler]
    rw [bytes, accepted]
    rfl
  | .error u => cases bytes

namespace Countdown

/-! ## The assembled script -/

/-- The handler of `Tick`:
```
10  line 1
15  call !2(l0)
24  goto @75 unless l0
33  line 2
38  sub l1, l0, #INT 1
52  call !0(p0, #MESSAGE 1, $1=l1)
75  line 3
80  add p1, p1, #INT 1
94  return p1
``` -/
def tickHandler : Handler where
  locals := 1
  parameters := [⟨number, .int 0⟩]
  frameSize_le := by decide
  id := tick
  name := "Tick"
  body := #[1, 1, 1, 0, 0, 0, 0, 0, 0, 16,
    160, 1, 0, 0, 0,
    96, 2, 1, 0, 0, 0, 0, 0, 0,
    72, 75, 0, 0, 0, 0, 0, 0, 0,
    160, 2, 0, 0, 0,
    34, 1, 1, 0, 0, 0, 0, 0, 0, 0, 1, 0, 0, 16,
    96, 0, 2, 1, 0, 0, 0, 0, 2, 1, 0, 0, 176, 1, 1, 0, 0, 0, 0, 1, 0, 0, 0,
    160, 3, 0, 0, 0,
    54, 0, 1, 0, 0, 0, 1, 0, 0, 0, 1, 0, 0, 16,
    148, 1, 0, 0, 0]

/-- The handler of `Count`:
```
10  mov l1, #INT 0
20  goto @62 unless l0
29  add l1, l1, l0
43  sub l0, l0, #INT 1
57  goto @20
62  call !0(p0, #MESSAGE 1, $1=#INT 3)
85  call !1(p0, #MESSAGE 3)
99  return l1
``` -/
def countHandler : Handler where
  locals := 1
  parameters := [⟨number, .int 0⟩]
  frameSize_le := by decide
  id := count
  name := "Count"
  body := #[1, 1, 1, 0, 0, 0, 0, 0, 0, 16,
    8, 2, 1, 0, 0, 0, 0, 0, 0, 16,
    72, 62, 0, 0, 0, 0, 0, 0, 0,
    32, 0, 1, 0, 0, 0, 1, 0, 0, 0, 0, 0, 0, 0,
    34, 1, 0, 0, 0, 0, 0, 0, 0, 0, 1, 0, 0, 16,
    64, 20, 0, 0, 0,
    96, 0, 2, 1, 0, 0, 0, 0, 2, 1, 0, 0, 176, 1, 1, 0, 0, 0, 2, 3, 0, 0, 16,
    96, 1, 2, 1, 0, 0, 0, 0, 2, 3, 0, 0, 176, 0,
    144, 1, 0, 0, 0]

/-- The handler of `Report`:
```
 2  call !2(p1)
11  return p1
``` -/
def reportHandler : Handler where
  locals := 0
  parameters := []
  frameSize_le := Nat.zero_le _
  id := report
  name := "Report"
  body := #[0, 0,
    96, 2, 1, 1, 1, 0, 0, 0, 0,
    148, 1, 0, 0, 0]

/-- The assembled class. -/
def script : Class where
  id := ⟨1⟩
  name := "Countdown"
  properties := [⟨⟨1⟩, .nil⟩, ⟨⟨2⟩, .int 0⟩]
  handlers := [tickHandler, countHandler, reportHandler]

theorem tickHandler_eq : tickCode.toHandler 1 tick "Tick" = .ok tickHandler :=
  Assembler.toHandler_of_body (by decide +kernel) rfl

theorem countHandler_eq : countCode.toHandler 1 count "Count" = .ok countHandler :=
  Assembler.toHandler_of_body (by decide +kernel) rfl

theorem reportHandler_eq : reportCode.toHandler 0 report "Report" = .ok reportHandler :=
  Assembler.toHandler_of_body (by decide +kernel) rfl

theorem script_eq : cls = .ok script := by
  rw [cls, tickHandler_eq, countHandler_eq, reportHandler_eq]
  rfl

/-! ### Its instructions -/

/-- An instruction stands in the body of a handler from one offset to another. -/
def StandsIn (h : Handler) (offset : Nat) (i : Instruction) (behind : Nat) : Prop :=
  Instruction.decode ⟨h.body, offset⟩ = (.ok i, ⟨h.body, behind⟩)

/-- The constant `#INT i`. -/
def intConstant (i : UInt32) : Operand := ⟨.constant, 0x10000000 + i⟩

/-- The constant `#MESSAGE id`. -/
def messageConstant (id : MessageId) : Operand := ⟨.constant, 0xB0000000 + id.number⟩

/-! ## Its world -/

/-- The countdown object. -/
def object : ObjectId := ⟨0⟩

/-- The scene with the countdown object alone, when it has counted `ticks`. -/
def scene (posts : PostQueue) (ticks : BitVec 60) : Scene where
  objects := ⟨#[{
    id := object
    classId := script.id
    cache := some 0
    properties := #[⟨⟨1⟩, .object object⟩, ⟨⟨2⟩, ⟨.int, ticks⟩⟩] }]⟩
  classes := Directory.insert {} script
  posts

/-- The argument that `Tick` and `Count` are sent with. -/
def passing (n : BitVec 60) : List Argument := [⟨number, ⟨.int, n⟩⟩]

/-- The countdown object works in a handler that was sent a number, and has a local besides. -/
def WorksIn (h : Handler) (callers : Callers) (posts : PostQueue) (offset : Nat) (n : BitVec 60)
    (other : Value) (ticks : BitVec 60) : Machine → Prop :=
  Machine.Works callers
    { receiver := object
      codeStart := h.codeStart
      cursor := ⟨h.body, offset⟩
      locals := [⟨.int, n⟩, other] }
    (scene posts ticks)

abbrev InTick := WorksIn tickHandler

abbrev InCount := WorksIn countHandler

theorem ofNat_succ (k : Nat) : BitVec.ofNat 60 (k + 1) = .ofNat 60 k + 1 := BitVec.ofNat_add k 1

theorem ofNat_succ_sub_one (k : Nat) : BitVec.ofNat 60 (k + 1) - 1 = .ofNat 60 k := by
  rw [ofNat_succ, BitVec.add_sub_cancel]

theorem isTrue_ofNat_succ {k : Nat} (small : k + 1 < 2 ^ 60) :
    Value.isTrue ⟨.int, .ofNat 60 (k + 1)⟩ = true := by
  refine bne_iff_ne.mpr fun zero => ?_
  have nats := congrArg BitVec.toNat zero
  rw [BitVec.toNat_ofNat, Nat.mod_eq_of_lt small] at nats
  cases nats

/-- The numbers up to `u + 1` add up to `u + 1` more than the numbers up to `u`. -/
theorem triangle_succ (u : Nat) : (u + 1) * (u + 1 + 1) / 2 = u + 1 + u * (u + 1) / 2 := by
  have twice : (u + 1) * (u + 1 + 1) = 2 * (u + 1) + u * (u + 1) := by ring
  rw [twice, Nat.mul_add_div Nat.two_pos]

section

open Machine Machine.Brings Action.Yields

variable {env : Environment} (hn : env.natives = .standard) {callers : Callers} {posts : PostQueue}

include hn

theorem standard : env.natives.IsStandard := hn ▸ NativeTable.isStandard_standard

/-! ## Ticking -/

section

variable {n t : BitVec 60} {next : Value}

/-- `Tick` begins by showing its number. -/
theorem tick_shows (depth : callers.depth < env.settings.maxDepth) :
    Brings env (Sends callers ⟨object, tick, passing n⟩ (scene posts t)) 2 1
      (InTick callers posts 24 n .nil t) := by
  have begins : Brings env (Sends callers ⟨object, tick, passing n⟩ (scene posts t)) 0 1
      (InTick callers posts 10 n .nil t) :=
    (accept (Nat.le_of_ble_eq_true rfl) depth rfl).trans (Brings.begin rfl)
  have line : Brings env (InTick callers posts 10 n .nil t) 1 0
      (InTick callers posts 15 n .nil t) :=
    proceed (standard hn) (rfl : StandsIn tickHandler 10 (.line 1) 15) fun _ _ => line 1
  have shows : Brings env (InTick callers posts 15 n .nil t) 1 0
      (InTick callers posts 24 n .nil t) :=
    proceed (standard hn)
      (rfl : StandsIn tickHandler 15 (.call debugSlot none [.ofLocal 0] []) 24)
      fun scope h => Action.Yields.call (by rw [h, hn]; rfl) rfl rfl Native.Replies.debug
  exact (begins.trans line).trans shows

/-- The number zero takes `Tick` to its end. -/
theorem tick_done :
    Brings env (InTick callers posts 24 0 next t) 1 0 (InTick callers posts 75 0 next t) :=
  proceed (standard hn) (rfl : StandsIn tickHandler 24 (.gotoIf false 75 (.ofLocal 0)) 33)
    fun _ _ => gotoIf_taken rfl rfl (Nat.le_of_ble_eq_true rfl) (Nat.le_of_ble_eq_true rfl)

/-- Another number takes `Tick` to the send for the number below. -/
theorem tick_lowers (truth : Value.isTrue ⟨.int, n⟩ = true) :
    Brings env (InTick callers posts 24 n next t) 3 0
      (InTick callers posts 52 n ⟨.int, n - 1⟩ t) := by
  have passed : Brings env (InTick callers posts 24 n next t) 1 0
      (InTick callers posts 33 n next t) :=
    proceed (standard hn) (rfl : StandsIn tickHandler 24 (.gotoIf false 75 (.ofLocal 0)) 33)
      fun _ _ => gotoIf_passed rfl truth
  have line : Brings env (InTick callers posts 33 n next t) 1 0
      (InTick callers posts 38 n next t) :=
    proceed (standard hn) (rfl : StandsIn tickHandler 33 (.line 2) 38) fun _ _ => line 2
  have lowers : Brings env (InTick callers posts 38 n next t) 1 0
      (InTick callers posts 52 n ⟨.int, n - 1⟩ t) :=
    proceed (standard hn)
      (rfl : StandsIn tickHandler 38
        (.binary .subtract (.ofLocal 1) (.ofLocal 0) (intConstant 1)) 52)
      fun _ _ => binary rfl rfl rfl rfl
  exact (passed.trans line).trans lowers

/-- `Tick` counts a tick, and answers with the count. -/
theorem tick_counts :
    Brings env (InTick callers posts 75 n next t) 3 0
      (Answers callers ⟨.int, t + 1⟩ (scene posts (t + 1))) := by
  have line : Brings env (InTick callers posts 75 n next t) 1 0
      (InTick callers posts 80 n next t) :=
    proceed (standard hn) (rfl : StandsIn tickHandler 75 (.line 3) 80) fun _ _ => line 3
  have counts : Brings env (InTick callers posts 80 n next t) 1 0
      (InTick callers posts 94 n next (t + 1)) :=
    proceed (standard hn)
      (rfl : StandsIn tickHandler 80 (.binary .add (.ofProperty 1) ticks (intConstant 1)) 94)
      fun _ _ => binary rfl rfl rfl rfl
  have leaves : Brings env (InTick callers posts 94 n next (t + 1)) 1 0
      (Answers callers ⟨.int, t + 1⟩ (scene posts (t + 1))) :=
    Brings.leave (standard hn) (rfl : StandsIn tickHandler 94 (.leave ticks) 99) rfl
  exact (line.trans counts).trans leaves

end

/-- **Ticking.**  For `Tick` of `k` there are `k + 1` ticks counted, by as many handlers and in
`9 * k + 6` statements, and the answer is the number of ticks.  It runs `k` handlers deep inside the
first one. -/
theorem tick_brings (k : Nat) (small : k < 2 ^ 60) {t : BitVec 60} {callers : Callers}
    (depth : callers.depth + k < env.settings.maxDepth) :
    Brings env (Sends callers ⟨object, tick, passing (.ofNat 60 k)⟩ (scene posts t)) (9 * k + 6)
      (k + 1)
      (Answers callers ⟨.int, t + .ofNat 60 (k + 1)⟩ (scene posts (t + .ofNat 60 (k + 1)))) := by
  induction k generalizing t callers with
  | zero =>
    have opens : Brings env (Sends callers ⟨object, tick, passing 0⟩ (scene posts t)) 2 1
        (InTick callers posts 24 0 .nil t) := tick_shows hn depth
    exact (opens.trans (tick_done hn)).trans (tick_counts hn)
  | succ k ih =>
    have below := ofNat_succ_sub_one k
    have truth := isTrue_ofNat_succ small
    have another : t + .ofNat 60 (k + 1) + 1 = t + .ofNat 60 (k + 1 + 1) := by
      rw [ofNat_succ (k + 1), BitVec.add_assoc]
    -- `n` is the number sent, and the ticks that the nested send counts
    generalize BitVec.ofNat 60 (k + 1) = n at *
    have opens : Brings env (Sends callers ⟨object, tick, passing n⟩ (scene posts t)) 2 1
        (InTick callers posts 24 n .nil t) := tick_shows hn (by omega)
    have lowers : Brings env (InTick callers posts 24 n .nil t) 3 0
        (InTick callers posts 52 n ⟨.int, .ofNat 60 k⟩ t) := below ▸ tick_lowers hn truth
    have sends : Brings env (InTick callers posts 52 n ⟨.int, .ofNat 60 k⟩ t)
        (1 + (9 * k + 6)) (k + 1) (InTick callers posts 75 n ⟨.int, .ofNat 60 k⟩ (t + n)) :=
      send (standard hn)
        (rfl : StandsIn tickHandler 52
          (.call sendSlot none [itself, messageConstant tick] [⟨number, .ofLocal 1⟩]) 75)
        (fun scope h => callSend (by rw [h, hn]; rfl) rfl rfl (.sendMessage rfl rfl))
        fun above deeper => ih (by omega) (by omega)
    have counts : Brings env (InTick callers posts 75 n ⟨.int, .ofNat 60 k⟩ (t + n)) 3 0
        (Answers callers ⟨.int, t + .ofNat 60 (k + 1 + 1)⟩
          (scene posts (t + .ofNat 60 (k + 1 + 1)))) := another ▸ tick_counts hn
    exact (((opens.trans lowers).trans sends).trans counts).cast (by omega) (by omega)

/-! ## Counting -/

section

variable {n sum t : BitVec 60}

/-- A round of the loop adds the number and lowers it. -/
theorem loop_round (truth : Value.isTrue ⟨.int, n⟩ = true) :
    Brings env (InCount callers posts 20 n ⟨.int, sum⟩ t) 4 0
      (InCount callers posts 20 (n - 1) ⟨.int, sum + n⟩ t) := by
  have passed : Brings env (InCount callers posts 20 n ⟨.int, sum⟩ t) 1 0
      (InCount callers posts 29 n ⟨.int, sum⟩ t) :=
    proceed (standard hn) (rfl : StandsIn countHandler 20 (.gotoIf false 62 (.ofLocal 0)) 29)
      fun _ _ => gotoIf_passed rfl truth
  have adds : Brings env (InCount callers posts 29 n ⟨.int, sum⟩ t) 1 0
      (InCount callers posts 43 n ⟨.int, sum + n⟩ t) :=
    proceed (standard hn)
      (rfl : StandsIn countHandler 29 (.binary .add (.ofLocal 1) (.ofLocal 1) (.ofLocal 0)) 43)
      fun _ _ => binary rfl rfl rfl rfl
  have lowers : Brings env (InCount callers posts 43 n ⟨.int, sum + n⟩ t) 1 0
      (InCount callers posts 57 (n - 1) ⟨.int, sum + n⟩ t) :=
    proceed (standard hn)
      (rfl : StandsIn countHandler 43
        (.binary .subtract (.ofLocal 0) (.ofLocal 0) (intConstant 1)) 57)
      fun _ _ => binary rfl rfl rfl rfl
  have back : Brings env (InCount callers posts 57 (n - 1) ⟨.int, sum + n⟩ t) 1 0
      (InCount callers posts 20 (n - 1) ⟨.int, sum + n⟩ t) :=
    proceed (standard hn) (rfl : StandsIn countHandler 57 (.goto 20) 62)
      fun _ _ => goto (Nat.le_of_ble_eq_true rfl) (Nat.le_of_ble_eq_true rfl)
  exact ((passed.trans adds).trans lowers).trans back

/-- **The loop of `Count`.**  From the number `u` it goes `u` rounds, of four statements each, and
adds up the numbers from `u` down to one. -/
theorem loop_brings (u : Nat) (small : u < 2 ^ 60) :
    Brings env (InCount callers posts 20 (.ofNat 60 u) ⟨.int, sum⟩ t) (4 * u) 0
      (InCount callers posts 20 0 ⟨.int, sum + .ofNat 60 (u * (u + 1) / 2)⟩ t) := by
  induction u generalizing sum with
  | zero =>
    have same : sum + .ofNat 60 (0 * (0 + 1) / 2) = sum := BitVec.add_zero sum
    rw [same]
    exact .refl _
  | succ u ih =>
    have below := ofNat_succ_sub_one u
    have truth := isTrue_ofNat_succ small
    have adds : sum + .ofNat 60 (u + 1) + .ofNat 60 (u * (u + 1) / 2) =
        sum + .ofNat 60 ((u + 1) * (u + 1 + 1) / 2) := by
      rw [triangle_succ, BitVec.add_assoc, BitVec.ofNat_add (u + 1)]
    generalize BitVec.ofNat 60 (u + 1) = n at *
    have first : Brings env (InCount callers posts 20 n ⟨.int, sum⟩ t) 4 0
        (InCount callers posts 20 (.ofNat 60 u) ⟨.int, sum + n⟩ t) := below ▸ loop_round hn truth
    have others : Brings env (InCount callers posts 20 (.ofNat 60 u) ⟨.int, sum + n⟩ t) (4 * u) 0
        (InCount callers posts 20 0
          ⟨.int, sum + .ofNat 60 ((u + 1) * (u + 1 + 1) / 2)⟩ t) := adds ▸ ih (by omega)
    exact (first.trans others).cast (by omega) rfl

/-- **Counting.**  `Count` of `u` takes `4 * u + 38` statements and five handlers.  It
answers with the sum of the numbers from `u` down to one, has counted four ticks more, and
has posted a report. -/
theorem count_brings (u : Nat) (small : u < 2 ^ 60) {after : PostQueue}
    (depth : callers.depth + 4 < env.settings.maxDepth)
    (room : posts.push? ⟨object, report, []⟩ = some after) :
    Brings env (Sends callers ⟨object, count, passing (.ofNat 60 u)⟩ (scene posts t)) (4 * u + 38) 5
      (Answers callers ⟨.int, .ofNat 60 (u * (u + 1) / 2)⟩ (scene after (t + 4))) := by
  have loops : Brings env (InCount callers posts 20 (.ofNat 60 u) ⟨.int, 0⟩ t) (4 * u) 0
      (InCount callers posts 20 0 ⟨.int, .ofNat 60 (u * (u + 1) / 2)⟩ t) := by
    have zero := BitVec.zero_add (.ofNat 60 (u * (u + 1) / 2))
    exact zero ▸ loop_brings hn u small
  -- only the loop looks into the number and the sum
  generalize BitVec.ofNat 60 (u * (u + 1) / 2) = sum at *
  generalize BitVec.ofNat 60 u = n at *
  have begins : Brings env (Sends callers ⟨object, count, passing n⟩ (scene posts t)) 0 1
      (InCount callers posts 10 n .nil t) :=
    (accept (Nat.le_of_ble_eq_true rfl) (by omega) rfl).trans (Brings.begin rfl)
  have loads : Brings env (InCount callers posts 10 n .nil t) 1 0
      (InCount callers posts 20 n ⟨.int, 0⟩ t) :=
    proceed (standard hn)
      (rfl : StandsIn countHandler 10 (.unary .copy (.ofLocal 1) (intConstant 0)) 20)
      fun _ _ => unary rfl rfl rfl
  have done : Brings env (InCount callers posts 20 0 ⟨.int, sum⟩ t) 1 0
      (InCount callers posts 62 0 ⟨.int, sum⟩ t) :=
    proceed (standard hn) (rfl : StandsIn countHandler 20 (.gotoIf false 62 (.ofLocal 0)) 29)
      fun _ _ => gotoIf_taken rfl rfl (Nat.le_of_ble_eq_true rfl) (Nat.le_of_ble_eq_true rfl)
  have ticks : Brings env (InCount callers posts 62 0 ⟨.int, sum⟩ t) (1 + 33) 4
      (InCount callers posts 85 0 ⟨.int, sum⟩ (t + 4)) :=
    send (standard hn)
      (rfl : StandsIn countHandler 62
        (.call sendSlot none [itself, messageConstant tick] [⟨number, intConstant 3⟩]) 85)
      (fun scope h => callSend (by rw [h, hn]; rfl) rfl rfl (.sendMessage rfl rfl))
      fun above deeper => tick_brings hn 3 (by decide) (by omega)
  have posted : Brings env (InCount callers posts 85 0 ⟨.int, sum⟩ (t + 4)) 1 0
      (InCount callers after 99 0 ⟨.int, sum⟩ (t + 4)) :=
    proceed (standard hn)
      (rfl : StandsIn countHandler 85
        (.call postSlot none [itself, messageConstant report] []) 99)
      fun scope h => Action.Yields.call (by rw [h, hn]; rfl) rfl rfl (.postMessage rfl rfl room)
  have leaves : Brings env (InCount callers after 99 0 ⟨.int, sum⟩ (t + 4)) 1 0
      (Answers callers ⟨.int, sum⟩ (scene after (t + 4))) :=
    Brings.leave (standard hn) (rfl : StandsIn countHandler 99 (.leave (.ofLocal 1)) 104) rfl
  have opens := (begins.trans loads).trans loops
  have closes := (ticks.trans posted).trans leaves
  exact ((opens.trans done).trans closes).cast (by omega) rfl

end

end

/-! ## The send from the top -/

/-- The number of statements is within the default budget for the numbers up to 12490, and for no
others: without its sign, a negative number is large. -/
theorem within_budget_iff (p : BitVec 60) :
    4 * p.toNat + 38 ≤ 50000 ↔ 0 ≤ p.toInt ∧ p.toInt ≤ 12490 := by
  rw [BitVec.toInt_eq_toNat_cond]
  have := p.isLt
  split <;> omega

/-- The sum of the numbers up to `u`, as a value. -/
theorem int_triangle (u : Nat) :
    Value.int ((u : Int) * (u + 1) / 2) = ⟨.int, .ofNat 60 (u * (u + 1) / 2)⟩ := by
  have natural : (u : Int) * (u + 1) / 2 = (u * (u + 1) / 2 : Nat) := by norm_cast
  rw [natural, ← BitVec.ofInt_natCast]
  rfl

/-- **The countdown script is correct for every count.**  Let `n` be the number that a count
becomes, cut to sixty bits, and let a fresh countdown object be sent `Count` of it, under the limits
that the settings have by default.  The other settings may be any, and so may the clock.

If `n` is between 0 and 12490, the answer is the sum of the numbers from one to `n`.  The send has
counted `4 * n + 38` statements and five handlers, its post of `Report` is the only one that waits,
and the object has counted four ticks.  For every other number, the negative ones among them, the
send fails for its budget. -/
theorem count_correct :
    ∃ c, cls = .ok c ∧ ∀ (i : Int) (clock : Clock) (trackLocals profile traceInstructions : Bool),
      let settings : Settings := { trackLocals, profile, traceInstructions }
      let object := (Engine.ofClass settings c).1
      let fresh := (Engine.ofClass settings c).2
      let engine := { fresh with world := { fresh.world with clock } }
      let sent := engine.send ⟨object, count, [⟨number, .int i⟩]⟩
      let result := sent.1
      let after := sent.2
      let n := (Value.int i).number
      (0 ≤ n ∧ n ≤ 12490 →
        result = .ok (.int (n * (n + 1) / 2)) ∧
        (after.statistics.last.statements.toNat : Int) = 4 * n + 38 ∧
        after.statistics.messages = 5 ∧
        after.world.posts.waiting = [⟨object, report, []⟩] ∧
        (after.world.objects.get? object).map (fun o => o.property 1) = some (.ok (.int 4))) ∧
      (¬ (0 ≤ n ∧ n ≤ 12490) → result = .error (.statementBudget 50000)) := by
  refine ⟨script, script_eq, fun i clock trackLocals profile traceInstructions => ?_⟩
  intro settings object fresh engine sent result after n
  generalize payload : BitVec.ofInt 60 i = p
  have value : Value.int i = ⟨.int, .ofNat 60 p.toNat⟩ := by
    rw [BitVec.ofNat_toNat, BitVec.setWidth_eq, ← payload]
    rfl
  have number_eq : n = p.toInt := congrArg BitVec.toInt payload
  have brings : Machine.Brings engine.environment
      (Machine.Sends {} ⟨object, count, [⟨number, .int i⟩]⟩ (scene { capacity := 1000 } 0))
      (4 * p.toNat + 38) 5
      (Machine.Answers {} ⟨.int, .ofNat 60 (p.toNat * (p.toNat + 1) / 2)⟩
        (scene { capacity := 1000, waiting := [⟨object, report, []⟩] } (0 + 4))) := by
    rw [value]
    exact count_brings rfl p.toNat p.isLt (Nat.le_of_ble_eq_true rfl) rfl
  obtain ⟨comes, fails⟩ := engine.send_of_brings brings
  have budget := within_budget_iff p
  rw [← number_eq] at budget
  constructor
  · intro small
    have enough : 4 * p.toNat + 38 ≤ 50000 := budget.mpr small
    have unsigned : n = p.toNat := by rw [number_eq, BitVec.toInt_eq_toNat_of_lt (by omega)]
    have sum : Value.int (n * (n + 1) / 2) = ⟨.int, .ofNat 60 (p.toNat * (p.toNat + 1) / 2)⟩ := by
      rw [unsigned, int_triangle]
    have fits : 4 * p.toNat + 38 < UInt64.size := Nat.lt_of_le_of_lt enough (by decide)
    obtain ⟨answers, scene, statements, messages⟩ := comes enough
    refine ⟨sum ▸ answers, ?_, messages, ?_, ?_⟩
    · rw [statements, UInt64.toNat_ofNat_of_lt' fits, unsigned]
      norm_cast
    · exact congrArg (fun w : Scene => w.posts.waiting) scene
    · exact congrArg (fun w : Scene => (w.objects.get? object).map fun o => o.property 1) scene
  · intro large
    exact fails (Nat.lt_of_not_le fun enough => large (budget.mp enough))

theorem count_correct_at_bounds :
    ∃ c, cls = .ok c ∧
      let answer (i : Int) :=
        ((Engine.ofClass {} c).2.send ⟨(Engine.ofClass {} c).1, count, [⟨number, .int i⟩]⟩).1
      answer 12490 = .ok (.int 78006295) ∧ answer 12491 = .error (.statementBudget 50000) ∧
        answer (-1) = .error (.statementBudget 50000) := by
  obtain ⟨c, assembled, correct⟩ := count_correct
  refine ⟨c, assembled, ?_⟩
  obtain ⟨answers, -⟩ := (correct 12490 {} false false false).1 (by decide)
  exact ⟨answers, (correct 12491 {} false false false).2 (by decide),
    (correct (-1) {} false false false).2 (by decide)⟩

end Countdown

end MessageMachine
