import MessageMachine.Code.Listing
import MessageMachine.Proofs.Code.Tiling

/-!
# The columns of a listing

A listing can be read back.  No text in it has a line feed, so its lines can be told
apart (`Listing.splitOn_lines`).  A line that begins with a digit is that of an
instruction: its offset stands up to the first blank, and its bytes from behind the next
one up to the third (`Listing.rawColumn?`).

As instructions tile the body, the columns of bytes put together are the body from its first
instruction on (`Handler.listing_tiles`).
-/

namespace MessageMachine

/-! ## Texts on one line -/

/-- The text has no line feed. -/
def Unbroken (s : String) : Prop := '\n' ∉ s.toList

instance (s : String) : Decidable (Unbroken s) := inferInstanceAs (Decidable ('\n' ∉ s.toList))

theorem isDigit_of_mem_toString {n : Nat} {c : Char} (h : c ∈ (toString n).toList) :
    c.isDigit = true := by
  rw [Nat.toString_eq_repr, Nat.toList_repr] at h
  exact Nat.isDigit_of_mem_toDigits (by decide) (by decide) h

namespace Unbroken

theorem append {s t : String} (hs : Unbroken s) (ht : Unbroken t) : Unbroken (s ++ t) := by
  rw [Unbroken, String.toList_append, List.mem_append]
  exact not_or.mpr ⟨hs, ht⟩

theorem intercalate {sep : String} (h : Unbroken sep) {ss : List String}
    (hs : ∀ s ∈ ss, Unbroken s) : Unbroken (sep.intercalate ss) := by
  induction ss with
  | nil => simp [Unbroken]
  | cons s ss ih =>
    have first := hs s List.mem_cons_self
    have rest := ih fun t ht => hs t (List.mem_cons_of_mem s ht)
    cases ss with
    | nil => simpa using first
    | cons t ss =>
      rw [String.intercalate_cons_cons]
      exact (first.append h).append rest

theorem number (n : Nat) : Unbroken (toString n) :=
  fun h => absurd (isDigit_of_mem_toString h) (by decide)

theorem integer (i : Int) : Unbroken (toString i) := by
  rw [Int.toString_eq_repr, Int.repr_eq_if]
  split
  · exact number _
  · exact append (by decide) (number _)

theorem value (v : Value) : Unbroken v.text := by
  unfold Value.text
  split
  · decide
  · refine (append ?_ (by decide)).append (integer _)
    cases v.tag <;> decide

theorem operand (o : Operand) : Unbroken o.text := by
  unfold Operand.text
  cases o.kind with
  | localVar | property | classVar => exact append (by decide) (number _)
  | constant => exact append (by decide) (value _)

theorem namedOperand (n : NamedOperand) : Unbroken n.text :=
  ((append (by decide) (number _)).append (by decide)).append (operand _)

theorem instruction (i : Instruction) : Unbroken i.text := by
  cases i with
  | unary op destination source =>
    have name : Unbroken op.name := by cases op <;> decide
    exact (((name.append (by decide)).append (operand _)).append (by decide)).append (operand _)
  | binary op destination left right =>
    have name : Unbroken op.name := by cases op <;> decide
    exact (((((name.append (by decide)).append (operand _)).append (by decide)).append
      (operand _)).append (by decide)).append (operand _)
  | goto target => exact append (by decide) (number _)
  | gotoIf wanted target condition =>
    have word : Unbroken (if wanted then " if " else " unless ") := by cases wanted <;> decide
    exact ((append (by decide) (number _)).append word).append (operand _)
  | call native destination positional named =>
    have operands :
        ∀ s ∈ positional.map Operand.text ++ named.map NamedOperand.text, Unbroken s := by
      simp only [List.mem_append, List.mem_map]
      rintro s (⟨o, -, rfl⟩ | ⟨n, -, rfl⟩)
      · exact operand o
      · exact namedOperand n
    have written {result : String} (h : Unbroken result) :
        Unbroken (result ++ "call !" ++ toString native ++ "(" ++
          ", ".intercalate (positional.map Operand.text ++ named.map NamedOperand.text) ++ ")") :=
      ((((h.append (by decide)).append (number _)).append (by decide)).append
        (intercalate (by decide) operands)).append (by decide)
    have nothing : Unbroken "" := by decide
    cases destination with
    | none => exact written nothing
    | some d => exact written ((operand d.operand).append (by decide))
  | handOver => decide
  | leave value => exact append (by decide) (operand _)
  | line number => exact append (by decide) (Unbroken.number _)

end Unbroken

/-! ## Hexadecimal digits -/

namespace Hex

theorem digit_ne {n : UInt8} (lt : n < 16) : digit n ≠ ' ' ∧ digit n ≠ '\n' := by
  have h : ∀ k : Fin 16, digit (.ofNat k) ≠ ' ' ∧ digit (.ofNat k) ≠ '\n' := by decide
  simpa using h ⟨n.toNat, lt⟩

theorem ne_of_mem_encode {bytes : List UInt8} {c : Char} (h : c ∈ (encode bytes).toList) :
    c ≠ ' ' ∧ c ≠ '\n' := by
  rw [encode, String.toList_ofList, List.mem_flatMap] at h
  obtain ⟨b, -, h⟩ := h
  simp only [encodeByte, List.mem_cons, List.not_mem_nil, or_false] at h
  obtain rfl | rfl := h
  · have high : (b >>> 4).toNat = b.toNat / 16 := by simp [Nat.shiftRight_eq_div_pow]
    refine digit_ne (UInt8.lt_iff_toNat_lt.mpr ?_)
    rw [high]
    exact Nat.div_lt_of_lt_mul b.toNat_lt
  · have low : (b &&& 15).toNat ≤ 15 := by
      rw [UInt8.toNat_and]
      exact Nat.and_le_right
    exact digit_ne (UInt8.lt_iff_toNat_lt.mpr (Nat.lt_succ_of_le low))

theorem encode_flatMap {α : Type} (f : α → List UInt8) (xs : List α) :
    (encode (xs.flatMap f)).toList = xs.flatMap fun x => (encode (f x)).toList := by
  simp [encode, List.flatMap_assoc]

end Hex

/-! ## Lines -/

namespace Listing

/-- The digits that show the bytes in the line of an instruction, which is one that begins with a
digit. They stand behind two blanks, up to the third. -/
def rawColumn? (line : List Char) : Option (List Char) :=
  if line.head?.any Char.isDigit then
    some (((line.dropWhile (· ≠ ' ')).drop 2).takeWhile (· ≠ ' '))
  else none

/-- The columns of bytes in a text, line by line. -/
def rawColumns (text : String) : List (List Char) := (text.toList.splitOn '\n').filterMap rawColumn?

/-- Texts without line feeds can be told apart when each has a line feed behind it. -/
theorem splitOn_lines {lines : List String} (h : ∀ line ∈ lines, Unbroken line) :
    (String.join (lines.map (· ++ "\n"))).toList.splitOn '\n' =
      lines.map String.toList ++ [[]] := by
  induction lines with
  | nil => rfl
  | cons line lines ih =>
    have rest := ih fun other mem => h other (List.mem_cons_of_mem line mem)
    rw [String.toList_join] at rest ⊢
    have whole : (line ++ "\n").toList = line.toList ++ ['\n'] := String.toList_append
    rw [List.map_cons, List.flatMap_cons, whole, List.append_assoc, List.singleton_append,
      List.splitOn_append_cons_self_of_not_mem (h line List.mem_cons_self), rest]
    rfl

section

variable (body : Array UInt8) (offset next : Nat) (i : Instruction)

theorem isDigit_of_mem_padLeft {c : Char} (h : c ∈ (padLeft 4 '0' (toString offset)).toList) :
    c.isDigit = true := by
  rw [padLeft, String.toList_append, List.mem_append, String.toList_ofList, List.mem_replicate] at h
  obtain ⟨-, rfl⟩ | h := h
  · rfl
  · exact isDigit_of_mem_toString h

theorem unbroken_instructionLine : Unbroken (instructionLine body offset next i) := by
  have digits : Unbroken (padLeft 4 '0' (toString offset)) := fun h =>
    absurd (isDigit_of_mem_padLeft offset h) (by decide)
  have bytes : Unbroken (Hex.encode (body.extract offset next).toList) := fun h =>
    (Hex.ne_of_mem_encode h).2 rfl
  have blanks (n : Nat) : Unbroken (String.ofList (List.replicate n ' ')) := by
    simp [Unbroken, String.toList_ofList, List.mem_replicate]
  exact (((digits.append (by decide)).append (bytes.append (blanks _))).append (by decide)).append
    (Unbroken.instruction i)

end

/-- The columns of a line can be told apart: there is no blank in the first two. -/
theorem rawColumn?_append {number bytes : List Char} (nonempty : number ≠ [])
    (digits : ∀ c ∈ number, c.isDigit = true) (unspaced : ∀ c ∈ bytes, c ≠ ' ') (rest : List Char) :
    rawColumn? (number ++ ' ' :: ' ' :: (bytes ++ ' ' :: rest)) = some bytes := by
  have unspaced' (c : Char) (h : c ∈ number) : c ≠ ' ' := by
    rintro rfl
    exact absurd (digits _ h) (by decide)
  obtain ⟨d, number, rfl⟩ := List.exists_cons_of_ne_nil nonempty
  rw [rawColumn?, if_pos (by simp [digits d List.mem_cons_self]),
    List.dropWhile_append_of_pos (by simpa using unspaced'), List.dropWhile_cons_of_neg (by simp),
    List.drop_succ_cons, List.drop_succ_cons, List.drop_zero,
    List.takeWhile_append_of_pos (by simpa using unspaced), List.takeWhile_cons_of_neg (by simp),
    List.append_nil]

/-- The bytes can be read off the line of an instruction. -/
theorem rawColumn?_instructionLine (body : Array UInt8) (offset next : Nat) (i : Instruction) :
    rawColumn? (instructionLine body offset next i).toList =
      some (Hex.encode (body.extract offset next).toList).toList := by
  have blanks (n : Nat) : List.replicate n ' ' ++ (" ".toList ++ i.text.toList) =
      ' ' :: (List.replicate n ' ' ++ i.text.toList) := by
    rw [← List.append_assoc]
    exact congrArg (· ++ i.text.toList) List.replicate_succ'.symm
  rw [instructionLine, padRight]
  simp only [String.toList_append, String.toList_ofList, List.append_assoc, blanks]
  refine rawColumn?_append ?_ (fun c => isDigit_of_mem_padLeft offset)
    (fun c h => (Hex.ne_of_mem_encode h).1) _
  simp [padLeft, String.toList_append, Nat.toString_eq_repr, Nat.toList_repr, Nat.toDigits_ne_nil]

/-- Comments show no bytes. -/
theorem rawColumn?_of_head? {line : List Char} (h : line.head? = some ';') :
    rawColumn? line = none := by
  rw [rawColumn?, h]
  rfl

theorem unbroken_parameterLine (p : Parameter) : Unbroken (parameterLine p) :=
  ((Unbroken.append (by decide) (.number _)).append (by decide)).append (.value _)

theorem rawColumn?_parameterLine (p : Parameter) : rawColumn? (parameterLine p).toList = none :=
  rawColumn?_of_head? (by simp [parameterLine, String.toList_append])

theorem unbroken_instructionLines {body : Array UInt8} {stop : Nat}
    {items : List (Nat × Instruction)} {line : String}
    (h : line ∈ instructionLines body stop items) : Unbroken line := by
  fun_induction instructionLines body stop items with
  | case1 => cases h
  | case2 offset i =>
    obtain rfl := List.mem_singleton.mp h
    exact unbroken_instructionLine _ _ _ _
  | case3 offset i next j rest ih =>
    obtain rfl | h := List.mem_cons.mp h
    · exact unbroken_instructionLine _ _ _ _
    · exact ih h

end Listing

open Listing

/-! ## What a listing shows -/

/-- The line of an instruction shows the bytes up to where the next one begins. -/
theorem Tiles.instructionLines_cons {body : Array UInt8} {next stop : Nat}
    {rest : List (Nat × Instruction)} (h : Tiles body next rest stop) (offset : Nat)
    (i : Instruction) :
    instructionLines body stop ((offset, i) :: rest) =
      instructionLine body offset next i :: instructionLines body stop rest := by
  cases h <;> rfl

/-- The lines of instructions show the bytes that a decoder goes over, item by item. -/
theorem Tiles.filterMap_rawColumn? {body : Array UInt8} {start stop : Nat}
    {items : List (Nat × Instruction)} (h : Tiles body start items stop) :
    ((instructionLines body stop items).map String.toList).filterMap rawColumn? =
      (List.range items.length).map fun k => (Hex.encode (body.extract (Decoder.place body start k)
        (Decoder.place body start (k + 1))).toList).toList := by
  induction h with
  | nil => rfl
  | cons decoded others ih =>
    rw [others.instructionLines_cons, List.map_cons,
      List.filterMap_cons_some (rawColumn?_instructionLine _ _ _ _), ih,
      List.length_cons, List.range_succ_eq_map, List.map_cons, List.map_map]
    simp only [Function.comp_def, Decoder.place_succ decoded, Decoder.place_zero]

namespace Handler

variable (h : Handler)

theorem listing_of_fault {f : Fault} (broken : h.disassembly.fault = some f) :
    h.listing = .error f := by
  simp [listing, listingLines, broken, Except.map]

/-- The lines that show the header. -/
def comments : List String :=
  ("; " ++ toString h.locals ++ " locals, " ++ toString h.parameters.length ++ " parameters") ::
    h.parameters.map parameterLine

theorem unbroken_comment {line : String} (mem : line ∈ h.comments) : Unbroken line := by
  rcases List.mem_cons.mp mem with rfl | mem
  · exact (((Unbroken.append (by decide) (.number _)).append (by decide)).append (.number _)).append
      (by decide)
  · obtain ⟨p, -, rfl⟩ := List.mem_map.mp mem
    exact unbroken_parameterLine p

theorem rawColumn?_comment {line : String} (mem : line ∈ h.comments) :
    rawColumn? line.toList = none := by
  rcases List.mem_cons.mp mem with rfl | mem
  · exact rawColumn?_of_head? (by simp [String.toList_append])
  · obtain ⟨p, -, rfl⟩ := List.mem_map.mp mem
    exact rawColumn?_parameterLine p

theorem listingLines_of_whole (whole : h.disassembly.fault = none) :
    h.listingLines = .ok (h.comments ++
      instructionLines h.body h.disassembly.stop h.disassembly.instructions) := by
  simp only [listingLines, whole]
  rfl

/-- Without a fault there is a listing, and the columns of its instructions can be read off it. -/
theorem exists_listing (whole : h.disassembly.fault = none) :
    ∃ text, h.listing = .ok text ∧ rawColumns text =
      ((instructionLines h.body h.disassembly.stop h.disassembly.instructions).map
        String.toList).filterMap rawColumn? := by
  have unbroken (line : String) (mem : line ∈ h.comments ++
      instructionLines h.body h.disassembly.stop h.disassembly.instructions) : Unbroken line :=
    (List.mem_append.mp mem).elim h.unbroken_comment unbroken_instructionLines
  have silent : (h.comments.map String.toList).filterMap rawColumn? = [] := by
    rw [List.filterMap_map, List.filterMap_eq_nil_iff]
    exact fun line => h.rawColumn?_comment
  refine ⟨_, by rw [listing, listingLines_of_whole h whole]; rfl, ?_⟩
  rw [rawColumns, splitOn_lines unbroken, List.map_append, List.filterMap_append,
    List.filterMap_append, silent]
  exact List.append_nil _

theorem exists_listing_iff : (∃ text, h.listing = .ok text) ↔ h.disassembly.fault = none := by
  constructor
  · rintro ⟨text, shown⟩
    cases known : h.disassembly.fault with
    | none => rfl
    | some f => cases (h.listing_of_fault known).symm.trans shown
  · intro whole
    obtain ⟨text, shown, -⟩ := h.exists_listing whole
    exact ⟨text, shown⟩

variable {h} in
/-- The columns of a listing show what a decoder goes over, item by item. -/
theorem rawColumns_of_listing {text : String} (shown : h.listing = .ok text) :
    rawColumns text = (List.range h.disassembly.instructions.length).map fun k =>
      (Hex.encode (h.body.extract (Decoder.place h.body h.codeStart k)
        (Decoder.place h.body h.codeStart (k + 1))).toList).toList := by
  have whole := h.exists_listing_iff.mp ⟨text, shown⟩
  obtain ⟨text', shown', columns⟩ := h.exists_listing whole
  cases shown.symm.trans shown'
  obtain ⟨last, tiles, ⟨-, stop, -⟩ | ⟨f, c, broken, -⟩⟩ :=
    Disassembly.exists_tiles h.body h.codeStart
  · rw [columns, show h.disassembly.stop = last from stop]
    exact tiles.filterMap_rawColumn?
  · cases whole.symm.trans broken

/-- **Listings show tiled bodies.**  From any offset of any code a decoder gives at most one item
for each byte.  Its instructions begin at that offset and go on without gap or overlap, nothing
comes behind a fault, and where there is none they take all bytes up to the end of the code.

So there is a listing of a handler just when no item is a fault.  The column of bytes in its
lines shows, item by item, what the decoder has gone over, and altogether the body from its
first instruction on. -/
theorem listing_tiles :
    (∀ (code : Array UInt8) (start : Nat), Decoder.Tiling code start (.ofCode code start)) ∧
      ∀ h : Handler,
        ((∃ text, h.listing = .ok text) ↔ ∀ item ∈ h.disassembly.items, ∃ found, item = .ok found) ∧
        ∀ text, h.listing = .ok text →
          rawColumns text =
            (List.range h.disassembly.instructions.length).map (fun k =>
              (Hex.encode (h.body.extract (Decoder.place h.body h.codeStart k)
                (Decoder.place h.body h.codeStart (k + 1))).toList).toList) ∧
          (rawColumns text).flatten =
            (Hex.encode (h.body.extract h.codeStart h.body.size).toList).toList := by
  refine ⟨Disassembly.tiling, fun h => ⟨?_, fun text shown => ⟨rawColumns_of_listing shown, ?_⟩⟩⟩
  · rw [h.exists_listing_iff]
    exact h.disassembly.fault_eq_none_iff
  · have whole := h.exists_listing_iff.mp ⟨text, shown⟩
    rw [rawColumns_of_listing shown, ← List.flatMap_def, ← Hex.encode_flatMap]
    exact congrArg (fun bytes => (Hex.encode bytes).toList)
      ((Disassembly.tiling h.body h.codeStart).bytes whole)

/-- A handler without parameters that marks a line and hands over. -/
def passing : Handler where
  locals := 0
  parameters := []
  frameSize_le := by decide
  id := ⟨1⟩
  name := "Pass"
  body := (([0, 0] : List UInt8) ++ Instruction.encodeAll [.line 7, .handOver]).toArray

/-- The listing of such a handler shows its bytes behind the two of the header. -/
theorem listing_tiles_passing :
    passing.disassembly.items.length ≤ passing.body.size - 2 ∧
      ∃ text, passing.listing = .ok text ∧
        (rawColumns text).flatten = "a00700000080".toList := by
  obtain ⟨tiling, shows⟩ := listing_tiles
  obtain ⟨listed, columns⟩ := shows passing
  have whole : passing.disassembly.fault = none := by
    have encodable : ∀ i ∈ [Instruction.line 7, .handOver], i.Encodable := by decide
    exact congrArg Disassembly.fault (Disassembly.ofCursor_encoded encodable [0, 0])
  obtain ⟨text, shown⟩ := listed.mpr (passing.disassembly.fault_eq_none_iff.mp whole)
  exact ⟨(tiling passing.body 2).length_le, text, shown, by rw [(columns text shown).2]; decide⟩

end Handler

end MessageMachine
