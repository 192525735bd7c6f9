import MessageMachine.Proofs.Code.PrefixCode

/-!
# Headers are read without loss

A body is accepted just if its header can be read, and this module says when that is.  Three things
can be the matter with a header: the two counts may be missing, they may ask for too many locals,
and the table of parameters may be cut off.  The counts are checked before the table is read, so too
many locals are reported whether or not the table is there.

Nothing of a header is lost when it is read.  `Header.bytes?` writes it back, the defaults as packed
constants, and gives the bytes that it was read from (`Handler.ofBody_exact`).  For this it matters
that every word is a packed constant: so each table with enough bytes is one that the assembler
could have written (`exists_table`), and what is known of its headers holds of all of them.

The code of the handler begins where the reading stops (`Handler.offset_decode`).
-/

namespace MessageMachine

/-- The entry of the table for a parameter. -/
def Parameter.bytes? (p : Parameter) : Option (List UInt8) :=
  p.default.packed?.map fun c => bytesOfWord p.id.number ++ bytesOfWord c

namespace Header

/-- A header as bytes: the two counts, and the table with the defaults packed. -/
def bytes? (h : Header) : Option (List UInt8) :=
  (h.parameters.mapM Parameter.bytes?).map fun table =>
    UInt8.ofNat h.locals :: UInt8.ofNat h.parameters.length :: table.flatten

theorem selfDelimiting_decode : SelfDelimiting decode := by
  have entry : SelfDelimiting Parameter.decode :=
    SelfDelimiting.word.bind fun _ => SelfDelimiting.word.bind fun _ => .pure _
  refine SelfDelimiting.byte.bind fun _ => SelfDelimiting.byte.bind fun _ => ?_
  split
  · exact (entry.collect _).bind fun _ => .pure _
  · exact .throw _

/-- Without both counts there is no header. -/
theorem overruns_of_length_lt {bytes : List UInt8} (few : bytes.length < 2) :
    Overruns decode bytes := by
  match bytes, few with
  | [], _ => exact Overruns.byte.bind _
  | [l], _ => exact (Reads.byte l).bind_overruns (Overruns.byte.bind _)

/-- Bytes in eights are the table of some parameters. -/
theorem exists_table (n : Nat) (bytes : List UInt8) (length : bytes.length = 8 * n) :
    ∃ table : List (ParameterId × UInt32), table.length = n ∧
      bytes = table.flatMap fun (id, default) => bytesOfWord id.number ++ bytesOfWord default := by
  induction n generalizing bytes with
  | zero => exact ⟨[], rfl, List.length_eq_zero_iff.mp length⟩
  | succ n ih =>
    match bytes, length with
    | a₀ :: a₁ :: a₂ :: a₃ :: b₀ :: b₁ :: b₂ :: b₃ :: bytes, length =>
      obtain ⟨table, count, rfl⟩ := ih bytes (by simp only [List.length_cons] at length; omega)
      refine ⟨(⟨wordOfBytes a₀ a₁ a₂ a₃⟩, wordOfBytes b₀ b₁ b₂ b₃) :: table, by simp [count], ?_⟩
      simp [bytesOfWord_wordOfBytes]

end Header

namespace Assembly

variable (a : Assembly)

/-- The header that is read is written back as it was. -/
theorem bytes?_declared (fits : a.locals.toNat + a.declared.length ≤ Limits.locals) :
    (Header.mk a.locals.toNat a.declared fits).bytes? = some a.header := by
  have table : a.declared.mapM Parameter.bytes? =
      some (a.parameters.map fun (id, default) =>
        bytesOfWord id.number ++ bytesOfWord default) := by
    rw [declared]
    induction a.parameters with
    | nil => rfl
    | cons p ps ih =>
      rw [List.map_cons, List.mapM_cons, ih, Parameter.bytes?, Value.packed?_ofPacked]
      rfl
  rw [Header.bytes?, table, Option.map_some, header, length_declared, UInt8.ofNat_toNat]
  rfl

/-- A first part of a header is not enough. -/
theorem overruns_header (fits : a.locals.toNat + a.parameters.length ≤ Limits.locals)
    {part : List UInt8} (front : part <+: a.header) (proper : part ≠ a.header) :
    Overruns Header.decode part :=
  (Header.selfDelimiting_decode.delimits (a.reads_header fits)).overruns part front proper

/-- Two counts with as many bytes behind them as the table takes are a header that
the assembler writes. -/
theorem exists_header_eq (l p : UInt8) (rest : List UInt8) (enough : 8 * p.toNat ≤ rest.length) :
    ∃ a : Assembly, a.locals = l ∧ a.parameters.length = p.toNat ∧
      l :: p :: rest = a.header ++ rest.drop (8 * p.toNat) := by
  obtain ⟨table, count, bytes⟩ := Header.exists_table p.toNat (rest.take (8 * p.toNat))
    (by rw [List.length_take, Nat.min_eq_left enough])
  refine ⟨{ locals := l, parameters := table }, rfl, count, ?_⟩
  rw [header, count, UInt8.ofNat_toNat, ← bytes, List.cons_append, List.cons_append,
    List.take_append_drop]

end Assembly

namespace Handler

variable (id : MessageId) (name : String)

/-- A body whose header is cut off is rejected for a read past its end. -/
theorem ofBody_of_overruns {bytes : List UInt8} (h : Overruns Header.decode bytes) :
    ∃ offset needed,
      ofBody id name bytes.toArray = .error (.overrun offset needed bytes.length) := by
  obtain ⟨offset, needed, -, -, -, run⟩ := h []
  exact ⟨offset, needed, by rw [ofBody, show Header.decode ⟨bytes.toArray, 0⟩ = _ from run]; rfl⟩

theorem ofBody_of_exceeds {l p : UInt8} (exceeds : Limits.locals < l.toNat + p.toNat)
    (rest : List UInt8) :
    ofBody id name (l :: p :: rest).toArray = .error (.tooManyLocals (l.toNat + p.toNat)) := by
  have refused := Header.refuses_counts exceeds rest [] []
  rw [List.append_nil, List.nil_append, List.length_nil] at refused
  rw [ofBody, refused]

theorem overruns_of_short {l p : UInt8} {rest : List UInt8}
    (fits : l.toNat + p.toNat ≤ Limits.locals) (short : rest.length < 8 * p.toNat) :
    Overruns Header.decode (l :: p :: rest) := by
  -- with more bytes behind them, they are a first part of a header
  let missing := List.replicate (8 * p.toNat - rest.length) (0 : UInt8)
  have length : (rest ++ missing).length = 8 * p.toNat := by
    simp only [missing, List.length_append, List.length_replicate]
    omega
  obtain ⟨a, rfl, count, whole⟩ := Assembly.exists_header_eq l p (rest ++ missing)
    (Nat.le_of_eq length.symm)
  rw [List.drop_of_length_le (Nat.le_of_eq length), List.append_nil] at whole
  refine a.overruns_header (by rwa [count]) (whole ▸ ⟨missing, rfl⟩) fun same => ?_
  have := congrArg List.length (same.trans whole.symm)
  simp only [List.length_cons, length] at this
  omega

/-- What is read of a body with a header that fits. -/
theorem ofBody_of_fits {l p : UInt8} {rest : List UInt8} (fits : l.toNat + p.toNat ≤ Limits.locals)
    (enough : 8 * p.toNat ≤ rest.length) :
    ∃ h, ofBody id name (l :: p :: rest).toArray = .ok h ∧ h.id = id ∧ h.name = name ∧
      h.body = (l :: p :: rest).toArray ∧ h.locals = l.toNat ∧ h.parameters.length = p.toNat ∧
      (Header.decode { code := (l :: p :: rest).toArray }).2.offset = h.codeStart ∧
      h.toHeader.bytes? = some ((l :: p :: rest).take h.codeStart) := by
  obtain ⟨a, rfl, count, whole⟩ := Assembly.exists_header_eq l p rest enough
  have fits' : a.locals.toNat + a.parameters.length ≤ Limits.locals := by rwa [count]
  have accepted := ofBody_of_reads (a.reads_header fits') id name (rest.drop (8 * p.toNat))
  rw [← whole] at accepted
  have start : 2 + 8 * a.declared.length = a.header.length := by
    rw [a.length_header, a.length_declared, Assembly.headerLength]
  have stops : (Header.decode { code := (a.locals :: p :: rest).toArray }).2.offset =
      a.header.length := by
    have read := a.reads_header fits' [] (rest.drop (8 * p.toNat))
    rw [List.nil_append, List.length_nil, Nat.zero_add, ← whole] at read
    rw [read]
  refine ⟨_, accepted, rfl, rfl, rfl, rfl, a.length_declared.trans count, stops.trans start.symm,
    (a.bytes?_declared _).trans ?_⟩
  rw [whole, codeStart, start, List.take_left]

/-- The number of locals that a body states, in its first byte. -/
def statedLocals (body : Array UInt8) : Nat := (body.getD 0 0).toNat

/-- The number of parameters that a body states, in its second byte. -/
def statedParameters (body : Array UInt8) : Nat := (body.getD 1 0).toNat

/-- What becomes of a body: it is cut off before its counts, it states too many locals, its table is
cut off, or it is made into a handler. -/
theorem ofBody_cases (b : Array UInt8) :
    (b.size < 2 ∧ ∃ offset needed, ofBody id name b = .error (.overrun offset needed b.size)) ∨
    (2 ≤ b.size ∧ 50 < statedLocals b + statedParameters b ∧
      ofBody id name b = .error (.tooManyLocals (statedLocals b + statedParameters b))) ∨
    (2 ≤ b.size ∧ statedLocals b + statedParameters b ≤ 50 ∧ b.size < 2 + 8 * statedParameters b ∧
      ∃ offset needed, ofBody id name b = .error (.overrun offset needed b.size)) ∨
    2 ≤ b.size ∧ statedLocals b + statedParameters b ≤ 50 ∧ 2 + 8 * statedParameters b ≤ b.size ∧
      ∃ h, ofBody id name b = .ok h ∧ h.id = id ∧ h.name = name ∧ h.body = b ∧
        h.locals = statedLocals b ∧ h.parameters.length = statedParameters b ∧
        (Header.decode { code := b }).2.offset = h.codeStart ∧
        h.toHeader.bytes? = some (b.extract 0 h.codeStart).toList := by
  obtain ⟨bytes, rfl⟩ : ∃ bytes : List UInt8, b = bytes.toArray := ⟨b.toList, rfl⟩
  rw [List.size_toArray]
  by_cases few : bytes.length < 2
  · exact .inl ⟨few, ofBody_of_overruns id name (Header.overruns_of_length_lt few)⟩
  obtain ⟨l, p, rest, rfl⟩ : ∃ l p rest, bytes = l :: p :: rest := by
    match bytes, few with
    | l :: p :: rest, _ => exact ⟨l, p, rest, rfl⟩
    | [], few | [_], few => exact absurd (by simp) few
  have first : statedLocals (l :: p :: rest).toArray = l.toNat := rfl
  have second : statedParameters (l :: p :: rest).toArray = p.toNat := rfl
  have length : (l :: p :: rest).length = rest.length + 2 := rfl
  have counts : 2 ≤ (l :: p :: rest).length := by omega
  rw [first, second]
  rcases Nat.lt_or_ge 50 (l.toNat + p.toNat) with exceeds | fits
  · exact .inr (.inl ⟨counts, exceeds, ofBody_of_exceeds id name exceeds rest⟩)
  rcases Nat.lt_or_ge rest.length (8 * p.toNat) with short | enough
  · exact .inr (.inr (.inl ⟨counts, fits, by omega,
      ofBody_of_overruns id name (overruns_of_short fits short)⟩))
  · obtain ⟨h, run, sameId, sameName, body, locals, parameters, stops, written⟩ :=
      ofBody_of_fits id name fits enough
    refine .inr (.inr (.inr ⟨counts, fits, by omega, h, run, sameId, sameName, body, locals,
      parameters, stops, ?_⟩))
    rw [written, List.extract_toArray, List.extract_eq_take_drop, List.drop_zero, Nat.sub_zero]

/-- The handler that is made of a body, when one is made. -/
theorem of_accepted {b : Array UInt8} {h : Handler} (accepted : ofBody id name b = .ok h) :
    2 + 8 * statedParameters b ≤ b.size ∧ h.body = b ∧
      h.parameters.length = statedParameters b ∧
      (Header.decode { code := b }).2.offset = h.codeStart := by
  obtain ⟨-, _, _, run⟩ | ⟨-, -, run⟩ | ⟨-, -, -, _, _, run⟩ |
    ⟨-, -, table, _, run, -, -, body, -, parameters, stops, -⟩ := ofBody_cases id name b
  all_goals cases accepted.symm.trans run
  exact ⟨table, body, parameters, stops⟩

/-- The code of a handler begins where the reading of the header stops. -/
theorem offset_decode {b : Array UInt8} {h : Handler} (accepted : ofBody id name b = .ok h) :
    (Header.decode { code := b }).2.offset = h.codeStart :=
  (of_accepted id name accepted).2.2.2

/-- The code of a handler begins in its body, or at the end. -/
theorem codeStart_le {b : Array UInt8} {h : Handler} (accepted : ofBody id name b = .ok h) :
    h.body = b ∧ h.codeStart ≤ b.size := by
  obtain ⟨table, body, parameters, -⟩ := of_accepted id name accepted
  exact ⟨body, by rwa [codeStart, parameters]⟩

/-- **A header is read exactly, and nothing of it is lost.**  The body is accepted just if it states
two numbers that fit a frame together and the table of parameters is all there.  It has too many
locals just if it states numbers that do not fit a frame.  In all other cases it is rejected for a
read past its end.

A handler that is made has the locals and the parameters that are stated, its code begins behind the
table, which is where the reading of the header stops, and its header written back is what the body
has before the code. -/
theorem ofBody_exact (b : Array UInt8) :
    ((∃ h, ofBody id name b = .ok h) ↔
      2 ≤ b.size ∧ statedLocals b + statedParameters b ≤ 50 ∧ 2 + 8 * statedParameters b ≤ b.size) ∧
    (ofBody id name b = .error (.tooManyLocals (statedLocals b + statedParameters b)) ↔
      2 ≤ b.size ∧ 50 < statedLocals b + statedParameters b) ∧
    ((∃ offset needed, ofBody id name b = .error (.overrun offset needed b.size)) ↔
      b.size < 2 ∨
        statedLocals b + statedParameters b ≤ 50 ∧ b.size < 2 + 8 * statedParameters b) ∧
    match ofBody id name b with
    | .ok h =>
      h.id = id ∧ h.name = name ∧ h.body = b ∧ h.locals = statedLocals b ∧
        h.parameters.length = statedParameters b ∧ h.codeStart = 2 + 8 * statedParameters b ∧
        (Header.decode { code := b }).2.offset = h.codeStart ∧
        h.toHeader.bytes? = some (b.extract 0 h.codeStart).toList
    | .error _ => True := by
  obtain ⟨few, offset, needed, run⟩ | ⟨counts, exceeds, run⟩ |
    ⟨counts, fits, short, offset, needed, run⟩ |
    ⟨counts, fits, enough, h, run, sameId, sameName, body, locals, parameters, stops, written⟩ :=
      ofBody_cases id name b
  all_goals rw [run]
  · exact ⟨iff_of_false nofun (by omega), iff_of_false nofun (by omega),
      iff_of_true ⟨_, _, rfl⟩ (by omega), trivial⟩
  · exact ⟨iff_of_false nofun (by omega), iff_of_true rfl (by omega),
      iff_of_false nofun (by omega), trivial⟩
  · exact ⟨iff_of_false nofun (by omega), iff_of_false nofun (by omega),
      iff_of_true ⟨_, _, rfl⟩ (by omega), trivial⟩
  · have start : h.codeStart = 2 + 8 * statedParameters b := by rw [codeStart, parameters]
    exact ⟨iff_of_true ⟨h, rfl⟩ (by omega), iff_of_false nofun (by omega),
      iff_of_false nofun (by omega), sameId, sameName, body, locals, parameters, start, stops,
      written⟩

end Handler

end MessageMachine
