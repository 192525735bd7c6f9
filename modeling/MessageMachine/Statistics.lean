import MessageMachine.Post

/-!
# Statistics

Counters of what an engine has done.  They are kept for whoever looks at them; a run consults one
of them only, the flag that says whether locals are tracked, which is taken over from the settings
when a top-level send begins.

Counters are 64-bit words and start over when they are full.

## Profiles

A profile adds up the running times of one handler.  `Statistics.ranking` lists the profiles by
total time, then by number of calls, the highest first; what is still equal goes by class and
message number, the lowest first.  No two profiles are of the same handler, so the ranking is
one definite list.
-/

namespace MessageMachine

/-- The running times of the handler that a class defines for a message. -/
structure Profile where
  cls : ClassId
  message : MessageId
  calls : UInt64 := 0
  total : UInt64 := 0
  highest : UInt64 := 0
  deriving DecidableEq

namespace Profile

/-- The profile with one more call. -/
def record (p : Profile) (millis : UInt64) : Profile :=
  { p with
    calls := p.calls + 1
    total := p.total + millis
    highest := max p.highest millis }

/-- Does `p` rank before `q`, or equal to it? -/
def ranksBefore (p q : Profile) : Bool :=
  if p.total ≠ q.total then q.total < p.total
  else if p.calls ≠ q.calls then q.calls < p.calls
  else if p.cls ≠ q.cls then p.cls.number < q.cls.number
  else p.message.number ≤ q.message.number

end Profile

/-- The slowest top-level send so far. -/
structure Slowest where
  millis : UInt64
  receiver : ObjectId
  message : MessageId
  deriving DecidableEq

/-- The counters of one top-level send. -/
structure SendCounts where
  statements : UInt64 := 0
  nativeCalls : UInt64 := 0
  millis : UInt64 := 0
  deriving DecidableEq

/-- Everything that is counted. -/
structure Statistics where
  /-- Handlers run. -/
  messages : UInt64 := 0
  topLevel : UInt64 := 0
  /-- Statements executed. -/
  statements : UInt64 := 0
  nativeCalls : UInt64 := 0
  millis : UInt64 := 0
  slowest : Option Slowest := none
  /-- The most handlers that ran inside one another. -/
  deepest : Nat := 0
  last : SendCounts := {}
  /-- Are locals tracked in the send at hand? -/
  trackLocals : Bool := false
  /-- The calls of each native slot. -/
  perNative : Vector UInt64 Limits.natives := .replicate _ 0
  profiles : List Profile := []

namespace Statistics

/-- Counts a top-level send that begins. -/
def beginSend (s : Statistics) (settings : Settings) : Statistics :=
  { s with trackLocals := settings.trackLocals, topLevel := s.topLevel + 1 }

/-- Counts a top-level send that has ended.  It becomes the slowest only when it beats the one
before. -/
def endSend (s : Statistics) (receiver : ObjectId) (message : MessageId) (last : SendCounts) :
    Statistics :=
  { s with
    last
    statements := s.statements + last.statements
    millis := s.millis + last.millis
    slowest :=
      match s.slowest with
      | some slow =>
        if slow.millis < last.millis then some ⟨last.millis, receiver, message⟩ else some slow
      | none => some ⟨last.millis, receiver, message⟩ }

/-- Counts a handler that runs as the `depth`-th one. -/
def countMessage (s : Statistics) (depth : Nat) : Statistics :=
  { s with messages := s.messages + 1, deepest := max s.deepest depth }

/-- The calls of a native slot. -/
def callsOf (s : Statistics) (native : UInt8) : UInt64 :=
  s.perNative.get ⟨native.toNat, native.toNat_lt⟩

/-- Counts a call of a native slot. -/
def countNative (s : Statistics) (native : UInt8) : Statistics :=
  { s with
    nativeCalls := s.nativeCalls + 1
    perNative := s.perNative.set native.toNat (s.callsOf native + 1) native.toNat_lt }

/-- The profile of a handler, if it has run. -/
def profile? (s : Statistics) (cls : ClassId) (message : MessageId) : Option Profile :=
  s.profiles.find? fun p => p.cls = cls ∧ p.message = message

/-- Adds the running time of one handler to its profile. -/
def countTime (s : Statistics) (cls : ClassId) (message : MessageId) (millis : UInt64) :
    Statistics :=
  match s.profile? cls message with
  | some _ =>
    { s with
      profiles := s.profiles.map fun p =>
        if p.cls = cls ∧ p.message = message then p.record millis else p }
  | none =>
    { s with profiles := s.profiles ++ [(Profile.mk cls message 0 0 0).record millis] }

/-- All profiles, the most expensive first. -/
def ranking (s : Statistics) : List Profile := s.profiles.mergeSort Profile.ranksBefore

/-- The most expensive profiles, at most `limit` of them. -/
def topProfiles (s : Statistics) (limit : Nat) : List Profile := s.ranking.take limit

/-- The native slots that were called, in order, with the number of their calls. -/
def nativesCalled (s : Statistics) : List (Nat × UInt64) :=
  (s.perNative.toList.zipIdx.map fun (count, index) => (index, count)).filter
    fun entry => entry.2 ≠ 0

end Statistics

end MessageMachine
