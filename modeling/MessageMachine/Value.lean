import MessageMachine.Identity

/-!
# Tagged values

A script computes with values that fit one 64-bit word: the top four bits are a *tag*, which says
what kind of thing the value is, and the other sixty are its *payload*, a signed number in two's
complement.

## Two views of a value

`Value` keeps tag and payload apart, which is how every operation looks at it.  `Value.toWord` and
`Value.ofWord` are the other view, the word itself, and they undo each other
(`ofWord_toWord`, `toWord_ofWord`): every word is a value, and nothing is lost on the way.

A nil value may carry a payload as any other value does.  So there are many nil values, and only
the one with payload zero counts as false.
-/

namespace MessageMachine

/-- What kind of thing a value is. -/
inductive Tag where
  | nil | int | object | list | resource | timer | session | roomData
  | tempString | string | cls | message | debugString | table | override | invalid
  deriving DecidableEq, Inhabited

namespace Tag

/-- The four bits that stand for a tag. -/
def bits : Tag → BitVec 4
  | nil => 0 | int => 1 | object => 2 | list => 3
  | resource => 4 | timer => 5 | session => 6 | roomData => 7
  | tempString => 8 | string => 9 | cls => 10 | message => 11
  | debugString => 12 | table => 13 | override => 14 | invalid => 15

/-- Every combination of four bits is a tag. -/
def ofBits (b : BitVec 4) : Tag :=
  match b.toNat with
  | 0 => nil | 1 => int | 2 => object | 3 => list
  | 4 => resource | 5 => timer | 6 => session | 7 => roomData
  | 8 => tempString | 9 => string | 10 => cls | 11 => message
  | 12 => debugString | 13 => table | 14 => override | _ => invalid

@[simp] theorem ofBits_bits (t : Tag) : ofBits t.bits = t := by cases t <;> rfl

@[simp] theorem bits_ofBits (b : BitVec 4) : (ofBits b).bits = b := by
  have h : ∀ b : BitVec 4, (ofBits b).bits = b := by decide
  exact h b

/-- The written name of a tag. -/
def name : Tag → String
  | nil => "NIL" | int => "INT" | object => "OBJECT" | list => "LIST"
  | resource => "RESOURCE" | timer => "TIMER" | session => "SESSION" | roomData => "ROOM_DATA"
  | tempString => "TEMP_STRING" | string => "STRING" | cls => "CLASS" | message => "MESSAGE"
  | debugString => "DEBUG_STRING" | table => "TABLE" | override => "OVERRIDE"
  | invalid => "INVALID"

/-- All tags, in the order of their bits. -/
def all : List Tag := (List.range 16).map fun n => ofBits (BitVec.ofNat 4 n)

end Tag

/-- A script value: a tag and a sixty-bit payload. -/
structure Value where
  tag : Tag
  payload : BitVec 60
  deriving DecidableEq, Inhabited

namespace Value

/-- The value with the given tag whose payload is `i` cut to sixty bits. -/
def ofInt (tag : Tag) (i : Int) : Value := ⟨tag, BitVec.ofInt 60 i⟩

/-- The payload as a signed number, at least `-2^59` and below `2^59`. -/
def number (v : Value) : Int := v.payload.toInt

/-- The nil value that counts as false. -/
def nil : Value := ⟨.nil, 0⟩

def int (i : Int) : Value := ofInt .int i

/-- Truth is written as the integers one and zero. -/
def truth (b : Bool) : Value := int (if b then 1 else 0)

def object (id : ObjectId) : Value := ofInt .object id.number.toNat
def cls (id : ClassId) : Value := ofInt .cls id.number.toNat
def message (id : MessageId) : Value := ofInt .message id.number.toNat

/-- A value counts as true when its payload is not zero, whatever its tag. -/
def isTrue (v : Value) : Bool := v.payload != 0

/-- The signed number of an integer value. -/
def asInt? (v : Value) : Option Int := if v.tag = .int then some v.number else none

/-- The payload as a 32-bit number, if it is one. -/
def index? (v : Value) : Option UInt32 :=
  if v.payload.toNat < UInt32.size then some (UInt32.ofNat v.payload.toNat) else none

def asObject? (v : Value) : Option ObjectId :=
  if v.tag = .object then v.index?.map ObjectId.mk else none

def asClass? (v : Value) : Option ClassId :=
  if v.tag = .cls then v.index?.map ClassId.mk else none

def asMessage? (v : Value) : Option MessageId :=
  if v.tag = .message then v.index?.map MessageId.mk else none

/-! ## The word view -/

/-- The 64-bit word of a value: tag above payload. -/
def toWord (v : Value) : UInt64 := ⟨v.tag.bits ++ v.payload⟩

/-- The value that a 64-bit word stands for. -/
def ofWord (w : UInt64) : Value :=
  ⟨.ofBits (w.toBitVec.extractLsb' 60 4), w.toBitVec.extractLsb' 0 60⟩

@[simp] theorem ofWord_toWord (v : Value) : ofWord v.toWord = v := by
  cases v with
  | mk tag payload =>
    simp only [ofWord, toWord, mk.injEq]
    exact ⟨by rw [BitVec.extractLsb'_append_eq_left, Tag.ofBits_bits],
      BitVec.extractLsb'_append_eq_right⟩

@[simp] theorem toWord_ofWord (w : UInt64) : (ofWord w).toWord = w := by
  cases w with
  | ofBitVec b =>
    simp only [ofWord, toWord, Tag.bits_ofBits]
    congr 1
    ext i hi
    simp only [BitVec.getElem_append, BitVec.getElem_extractLsb']
    split <;> simp_all [BitVec.getLsbD_eq_getElem]

/-! ## The written form -/

/-- A value as text: its tag and its signed payload, and a dollar sign for every nil value. -/
def text (v : Value) : String :=
  if v.tag = .nil then "$" else v.tag.name ++ " " ++ toString v.number

end Value

end MessageMachine
