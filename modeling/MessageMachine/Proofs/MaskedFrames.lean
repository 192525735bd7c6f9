import MessageMachine.Frame.Masked

/-!
# Masks say which locals were never written

`MaskedFrame` keeps in a word what `Frame` keeps beside each value.  This module shows that the word
is never wrong, whatever is read and written, under whatever indices.

A `Use` is a read or a write of a local with what came of it.  What a frame has to be like
after some uses can be said without the frame: a local has the value that was stored in it
last, and it was written if there is one (`lastStored?`).  `MaskedFrame.Tracks` says that a
masked frame is like that, in all its slots and all its bits, also in those beyond the locals
in use.  An access keeps it, and makes no shift that is not defined (`Tracks.access`); so do
any number of them (`Tracks.accesses`).

The frames of the machine are masked frames seen from outside (`MaskedFrame.toFrame`): each access
comes to the same on both (`MaskedFrame.access_toFrame`).
-/

namespace MessageMachine

/-! ## Masks -/

namespace Mask

variable {index count : Nat}

theorem single?_eq (lt : index < 64) : single? index = some (BitVec.twoPow 64 index) := by
  rw [BitVec.twoPow_eq]
  exact if_pos lt

/-- A mask meets the bit of a local just if it has it. -/
theorem meets_twoPow (mask : Mask) (lt : index < 64) :
    (mask &&& BitVec.twoPow 64 index != 0) = mask.getLsbD index := by
  have bit : (BitVec.twoPow 64 index).getLsbD index = true := by
    rw [BitVec.getLsbD_twoPow, decide_eq_true lt, decide_eq_true rfl]
    rfl
  rw [BitVec.and_twoPow]
  cases mask.getLsbD index with
  | true =>
    rw [if_pos rfl, bne_iff_ne]
    intro zero
    rw [zero] at bit
    simp at bit
  | false => rfl

/-- Taking the bit of a local away leaves the others. -/
theorem getLsbD_without (mask : Mask) (index k : Nat) :
    (mask &&& ~~~BitVec.twoPow 64 index).getLsbD k = (mask.getLsbD k && decide (index ≠ k)) := by
  rw [BitVec.getLsbD_and, BitVec.getLsbD_not, BitVec.getLsbD_twoPow]
  by_cases lt : k < 64
  · by_cases same : index = k
    · subst same
      simp [lt]
    · simp [lt, same]
  · rw [BitVec.getLsbD_of_ge mask k (Nat.not_lt.mp lt), Bool.false_and, Bool.false_and]

/-- The lowest bits are had without a shift that is not defined. -/
theorem exists_lowest (le : count ≤ 64) :
    ∃ mask, lowest? count = some mask ∧ ∀ k, mask.getLsbD k = decide (k < count) := by
  unfold lowest? shiftRight?
  by_cases zero : count = 0
  · subst zero
    refine ⟨0, if_pos rfl, fun k => ?_⟩
    rw [decide_eq_false (Nat.not_lt_zero k)]
    exact BitVec.getLsbD_zero
  · refine ⟨_, (if_neg zero).trans (if_pos (by omega)), fun k => ?_⟩
    rw [BitVec.getLsbD_ushiftRight, BitVec.getLsbD_allOnes]
    exact decide_eq_decide.mpr (by omega)

end Mask

/-! ## Uses of a frame -/

/-- What can be done with a frame. -/
inductive Access where
  | get (index : UInt32)
  | set (index : UInt32) (value : Value)

/-- What was done with a frame, and what came of it.  A write that succeeds gives no value. -/
abbrev Use := Access × Except Fault (Option Value)

/-- The value that the use has stored in the local with the number `k`, if it has
stored one there. -/
def Use.stored? (k : Nat) : Use → Option Value
  | (.set index value, .ok _) => if index.toNat = k then some value else none
  | _ => none

/-- The value that was stored last in the local with the number `k`, if there is one. -/
def lastStored? (k : Nat) : List Use → Option Value
  | [] => none
  | use :: uses => (lastStored? k uses).or (use.stored? k)

theorem lastStored?_concat (k : Nat) (uses : List Use) (use : Use) :
    lastStored? k (uses ++ [use]) = (use.stored? k).or (lastStored? k uses) := by
  induction uses with
  | nil => exact (Option.none_or).trans (Option.or_none).symm
  | cons first uses ih => rw [List.cons_append, lastStored?, lastStored?, ih, Option.or_assoc]

/-- No value was stored in a local just if no write of it has succeeded. -/
theorem lastStored?_eq_none_iff {index : UInt32} {uses : List Use} :
    lastStored? index.toNat uses = none ↔ ∀ value r, (Access.set index value, .ok r) ∉ uses := by
  induction uses with
  | nil => exact iff_of_true rfl fun _ _ => List.not_mem_nil
  | cons use uses ih =>
    have here : use.stored? index.toNat = none ↔
        ∀ value r, (Access.set index value, .ok r) ≠ use := by
      unfold Use.stored?
      split
      · rename_i i v r
        by_cases same : i.toNat = index.toNat
        · cases UInt32.toNat_inj.mp same
          exact iff_of_false (by rw [if_pos rfl]; exact nofun) fun h => h v r rfl
        · refine iff_of_true (if_neg same) fun value r h => same ?_
          cases h
          rfl
      · rename_i other
        exact iff_of_true rfl fun value r h => other index value r h.symm
    rw [lastStored?, Option.or_eq_none_iff, ih, here]
    simp only [List.mem_cons, not_or, forall_and]
    exact and_comm

/-- What has to come of an access to a frame of the given size after some uses. -/
def Access.result (size : Nat) (uses : List Use) : Access → Except Fault (Option Value)
  | .get index =>
    if index.toNat < size then .ok (some ((lastStored? index.toNat uses).getD .nil))
    else .error (.localOutOfRange index size)
  | .set index _ => if index.toNat < size then .ok none else .error (.localOutOfRange index size)

/-- The uses that accesses have to be after some uses. -/
def followingUses (size : Nat) (uses : List Use) : List Access → List Use
  | [] => []
  | a :: as =>
    (a, a.result size uses) :: followingUses size (uses ++ [(a, a.result size uses)]) as

theorem map_followingUses (size : Nat) (uses : List Use) (as : List Access) :
    (followingUses size uses as).map Prod.fst = as := by
  induction as generalizing uses with
  | nil => rfl
  | cons a as ih => exact congrArg (a :: ·) (ih _)

namespace MaskedFrame

variable {f : MaskedFrame}

/-- The frame with a value stored in a local. -/
def stored (f : MaskedFrame) (index : Nat) (value : Value) (h : index < f.size) : MaskedFrame :=
  { f with
    values := f.values.set index value (Nat.lt_of_lt_of_le h f.size_le)
    mask := f.mask &&& ~~~BitVec.twoPow 64 index }

/-- The bits suffice for the locals. -/
theorem lt_bits (f : MaskedFrame) {index : Nat} (h : index < f.size) : index < 64 :=
  Nat.lt_of_lt_of_le h (Nat.le_trans f.size_le (by decide))

theorem set_of_lt {index : UInt32} (value : Value) (h : index.toNat < f.size) :
    f.set index value = some (.ok (), f.stored index.toNat value h) := by
  rw [set, dif_pos h, Mask.single?_eq (f.lt_bits h)]
  rfl

theorem set_of_le {index : UInt32} (value : Value) (h : f.size ≤ index.toNat) :
    f.set index value = some (.error (.localOutOfRange index f.size), f) :=
  dif_neg (Nat.not_lt.mpr h)

theorem isUnwritten_of_lt {index : UInt32} (h : index.toNat < f.size) :
    f.isUnwritten index = some (f.mask.getLsbD index.toNat) := by
  rw [isUnwritten, if_pos h, Mask.single?_eq (f.lt_bits h),
    ← Mask.meets_twoPow f.mask (f.lt_bits h)]
  rfl

theorem isUnwritten_of_le {index : UInt32} (h : f.size ≤ index.toNat) :
    f.isUnwritten index = some false :=
  if_neg (Nat.not_lt.mpr h)

/-- Does something with the frame. -/
def access (f : MaskedFrame) : Access → Option (Except Fault (Option Value) × MaskedFrame)
  | .get index => some ((f.get index).map some, f)
  | .set index value => (f.set index value).map fun (r, f) => (r.map fun _ => none, f)

/-- Does one thing with the frame after the other. -/
def accesses (f : MaskedFrame) : List Access → Option (List Use × MaskedFrame)
  | [] => some ([], f)
  | a :: as => do
    let (r, f) ← f.access a
    let (uses, f) ← f.accesses as
    return ((a, r) :: uses, f)

theorem accesses_cons {a : Access} {as : List Access} {r : Except Fault (Option Value)}
    {f₁ f' : MaskedFrame} {uses : List Use} (first : f.access a = some (r, f₁))
    (others : f₁.accesses as = some (uses, f')) :
    f.accesses (a :: as) = some ((a, r) :: uses, f') := by
  rw [accesses, first, Option.bind_eq_bind, Option.bind_some]
  dsimp only
  rw [others]
  rfl

/-! ## What a frame is like after some uses -/

/-- The frame is as it has to be after the uses, in all its slots and bits. -/
structure Tracks (f : MaskedFrame) (track : Bool) (size : Nat) (uses : List Use) : Prop where
  size_eq : f.size = size
  /-- Nothing was stored beyond the locals in use. -/
  beyond : ∀ k, size ≤ k → lastStored? k uses = none
  values : ∀ k (h : k < Limits.locals), f.values[k] = (lastStored? k uses).getD .nil
  mask : ∀ k, f.mask.getLsbD k =
    (track && decide (k < size) && (lastStored? k uses).isNone)

/-- A frame can be made for as many locals as a frame may have, and no shift is in the way. -/
theorem exists_ofSize (track : Bool) {size : Nat} (fits : size ≤ Limits.locals) :
    ∃ f, ofSize track size = some (.ok f) ∧ f.Tracks track size [] := by
  obtain ⟨mask, made, bits⟩ : ∃ mask, (if track then Mask.lowest? size else some 0) = some mask ∧
      ∀ k, mask.getLsbD k = (track && decide (k < size)) := by
    cases track with
    | true => exact Mask.exists_lowest (Nat.le_trans fits (by decide))
    | false => exact ⟨0, rfl, fun k => BitVec.getLsbD_zero⟩
  refine ⟨⟨.replicate Limits.locals .nil, size, fits, mask⟩, ?_, rfl, fun _ _ => rfl,
    fun k h => Vector.getElem_replicate h, fun k => ?_⟩
  · rw [ofSize, dif_pos fits, made]
    rfl
  · rw [bits k]
    exact (Bool.and_true _).symm

namespace Tracks

variable {track : Bool} {size : Nat} {uses : List Use} (tracks : f.Tracks track size uses)

include tracks

theorem get_eq (index : UInt32) :
    f.get index =
      if index.toNat < size then .ok ((lastStored? index.toNat uses).getD .nil)
      else .error (.localOutOfRange index size) := by
  unfold get
  rcases Nat.lt_or_ge index.toNat f.size with lt | le
  · rw [dif_pos lt, tracks.values, if_pos (tracks.size_eq ▸ lt)]
  · rw [dif_neg (Nat.not_lt.mpr le), tracks.size_eq,
      if_neg (Nat.not_lt.mpr (tracks.size_eq ▸ le))]

/-- Uses that store nothing leave the frame as it has to be. -/
theorem concat_of_stored {use : Use} (nothing : ∀ k, use.stored? k = none) :
    f.Tracks track size (uses ++ [use]) := by
  have same (k : Nat) : lastStored? k (uses ++ [use]) = lastStored? k uses := by
    rw [lastStored?_concat, nothing, Option.none_or]
  exact ⟨tracks.size_eq, fun k h => (same k).trans (tracks.beyond k h),
    fun k h => (same k).symm ▸ tracks.values k h, fun k => (same k).symm ▸ tracks.mask k⟩

/-- A write takes the bit of its local away, and no other. -/
theorem concat_set {index : UInt32} (value : Value) (h : index.toNat < f.size) :
    (f.stored index.toNat value h).Tracks track size (uses ++ [(.set index value, .ok none)]) := by
  have lt := tracks.size_eq ▸ h
  have last (k : Nat) : lastStored? k (uses ++ [(.set index value, .ok none)]) =
      if index.toNat = k then some value else lastStored? k uses := by
    rw [lastStored?_concat, Use.stored?]
    split <;> rfl
  refine ⟨tracks.size_eq, fun k le => ?_, fun k inside => ?_, fun k => ?_⟩
  · rw [last, if_neg (by omega), tracks.beyond k le]
  · rw [last, stored, Vector.getElem_set]
    split
    · rfl
    · exact tracks.values k inside
  · rw [last, stored, Mask.getLsbD_without, tracks.mask]
    by_cases same : index.toNat = k
    · rw [if_pos same, decide_eq_false (not_not_intro same), Bool.and_false]
      exact (Bool.and_false _).symm
    · rw [if_neg same, decide_eq_true same, Bool.and_true]

/-- **An access to a frame** makes no shift that is not defined, comes to what it has to, and leaves
the frame as it has to be. -/
theorem access (a : Access) :
    ∃ f', f.access a = some (a.result size uses, f') ∧
      f'.Tracks track size (uses ++ [(a, a.result size uses)]) := by
  cases a with
  | get index =>
    refine ⟨f, ?_, tracks.concat_of_stored fun _ => rfl⟩
    rw [MaskedFrame.access, tracks.get_eq, Access.result]
    split <;> rfl
  | set index value =>
    rw [MaskedFrame.access, Access.result]
    rcases Nat.lt_or_ge index.toNat f.size with lt | le
    · rw [set_of_lt value lt, if_pos (tracks.size_eq ▸ lt)]
      exact ⟨_, rfl, tracks.concat_set value lt⟩
    · rw [set_of_le value le, if_neg (Nat.not_lt.mpr (tracks.size_eq ▸ le)), tracks.size_eq]
      exact ⟨f, rfl, tracks.concat_of_stored fun _ => rfl⟩

/-- **So do any number of accesses.** -/
theorem accesses (as : List Access) :
    ∃ f', f.accesses as = some (followingUses size uses as, f') ∧
      f'.Tracks track size (uses ++ followingUses size uses as) := by
  induction as generalizing f uses with
  | nil => exact ⟨f, rfl, by rwa [followingUses, List.append_nil]⟩
  | cons a as ih =>
    obtain ⟨f₁, first, tracks₁⟩ := tracks.access a
    obtain ⟨f', others, tracks'⟩ := ih tracks₁
    rw [List.append_assoc] at tracks'
    exact ⟨f', accesses_cons first others, tracks'⟩

/-- A local counts as unwritten just if writes are tracked and none of this local has succeeded. -/
theorem exists_isUnwritten (index : UInt32) :
    ∃ flag, f.isUnwritten index = some flag ∧
      (flag = true ↔ track = true ∧ index.toNat < size ∧
        ∀ value r, (Access.set index value, .ok r) ∉ uses) := by
  rcases Nat.lt_or_ge index.toNat f.size with lt | le
  · refine ⟨_, isUnwritten_of_lt lt, ?_⟩
    rw [tracks.mask, Bool.and_eq_true, Bool.and_eq_true, decide_eq_true_iff,
      Option.isNone_iff_eq_none, lastStored?_eq_none_iff, and_assoc]
  · refine ⟨false, isUnwritten_of_le le, ?_⟩
    rw [tracks.size_eq] at le
    exact iff_of_false nofun fun h => absurd h.2.1 (Nat.not_lt.mpr le)

end Tracks

/-! ## The frames of the machine -/

end MaskedFrame

namespace Frame

/-- Does something with the frame.  A write that fails leaves it as it is. -/
def access (f : Frame) : Access → Except Fault (Option Value) × Frame
  | .get index => ((f.get index).map some, f)
  | .set index value =>
    match f.set index value with
    | .ok f' => (.ok none, f')
    | .error fault => (.error fault, f)

/-- Does one thing with the frame after the other. -/
def accesses (f : Frame) : List Access → List Use × Frame
  | [] => ([], f)
  | a :: as =>
    let (r, f) := f.access a
    let (uses, f) := f.accesses as
    ((a, r) :: uses, f)

end Frame

namespace MaskedFrame

/-- The frame with a flag beside each value. -/
def toFrame (f : MaskedFrame) : Frame where
  slots := .ofFn fun k : Fin f.size =>
    ⟨getElem f.values k.val (Nat.lt_of_lt_of_le k.isLt f.size_le), !f.mask.getLsbD k⟩
  size_le := by
    rw [Array.size_ofFn]
    exact f.size_le

theorem getElem?_toFrame (f : MaskedFrame) {k : Nat} (lt : k < f.size) :
    f.toFrame.slots[k]? =
      some ⟨getElem f.values k (Nat.lt_of_lt_of_le lt f.size_le), !f.mask.getLsbD k⟩ := by
  rw [toFrame, Array.getElem?_ofFn, dif_pos lt]

theorem size_toFrame (f : MaskedFrame) : f.toFrame.slots.size = f.size := Array.size_ofFn

theorem getElem?_toFrame_of_le (f : MaskedFrame) {k : Nat} (le : f.size ≤ k) :
    f.toFrame.slots[k]? = none :=
  Array.getElem?_eq_none (f.size_toFrame.symm ▸ le)

theorem get_toFrame (f : MaskedFrame) (index : UInt32) : f.toFrame.get index = f.get index := by
  unfold Frame.get get
  rcases Nat.lt_or_ge index.toNat f.size with lt | le
  · rw [getElem?_toFrame f lt, dif_pos lt]
  · rw [getElem?_toFrame_of_le f le, dif_neg (Nat.not_lt.mpr le)]
    exact congrArg (fun n => Except.error (Fault.localOutOfRange index n)) f.size_toFrame

theorem isUnwritten_toFrame (f : MaskedFrame) (index : UInt32) :
    f.isUnwritten index = some (f.toFrame.isUnwritten index) := by
  unfold Frame.isUnwritten
  rcases Nat.lt_or_ge index.toNat f.size with lt | le
  · rw [getElem?_toFrame f lt, isUnwritten_of_lt lt]
    exact congrArg some (Bool.not_not _).symm
  · rw [getElem?_toFrame_of_le f le, isUnwritten_of_le le]

/-- To store a value is to write its slot and to set its flag. -/
theorem toFrame_stored (f : MaskedFrame) {index : UInt32} (value : Value)
    (lt : index.toNat < f.size) :
    f.toFrame.set index value = .ok (f.stored index.toNat value lt).toFrame := by
  have inside : index.toNat < f.toFrame.slots.size := f.size_toFrame.symm ▸ lt
  rw [Frame.set, dif_pos inside]
  have slots : f.toFrame.slots.set index.toNat ⟨value, true⟩ inside =
      (f.stored index.toNat value lt).toFrame.slots := by
    refine Array.ext (by rw [Array.size_set, size_toFrame, size_toFrame]; rfl) fun k hk hk' => ?_
    have within : k < f.size := by rwa [size_toFrame] at hk'
    simp only [toFrame, Array.getElem_set, Array.getElem_ofFn, stored, Vector.getElem_set,
      Mask.getLsbD_without]
    by_cases same : index.toNat = k
    · simp [same]
    · simp [same]
  exact congrArg Except.ok (by simp only [slots])

/-- **An access comes to the same** on the frame with flags. -/
theorem access_toFrame (f : MaskedFrame) (a : Access) :
    ∃ f', f.access a = some ((f.toFrame.access a).1, f') ∧ f'.toFrame = (f.toFrame.access a).2 := by
  cases a with
  | get index => exact ⟨f, by rw [access, Frame.access, get_toFrame], rfl⟩
  | set index value =>
    unfold access Frame.access
    dsimp only
    rcases Nat.lt_or_ge index.toNat f.size with lt | le
    · rw [set_of_lt value lt, toFrame_stored f value lt]
      exact ⟨_, rfl, rfl⟩
    · have outside : ¬ index.toNat < f.toFrame.slots.size := by
        rw [size_toFrame]
        exact Nat.not_lt.mpr le
      rw [set_of_le value le, Frame.set, dif_neg outside, Frame.size, size_toFrame]
      exact ⟨_, rfl, rfl⟩

/-- **So do any number of them.** -/
theorem accesses_toFrame (f : MaskedFrame) (as : List Access) :
    ∃ f', f.accesses as = some ((f.toFrame.accesses as).1, f') ∧
      f'.toFrame = (f.toFrame.accesses as).2 := by
  induction as generalizing f with
  | nil => exact ⟨f, rfl, rfl⟩
  | cons a as ih =>
    obtain ⟨f₁, first, same⟩ := f.access_toFrame a
    obtain ⟨f', others, same'⟩ := ih f₁
    rw [same] at others same'
    exact ⟨f', accesses_cons first others, same'⟩

theorem accesses_eq_toFrame {f f' : MaskedFrame} {as : List Access} {uses : List Use}
    (run : f.accesses as = some (uses, f')) : f.toFrame.accesses as = (uses, f'.toFrame) := by
  obtain ⟨f'', run', same⟩ := f.accesses_toFrame as
  rw [run] at run'
  cases run'
  rw [same]

variable {f : MaskedFrame}

/-- A masked frame that was just made is a frame that was just made. -/
theorem Tracks.ofSize_eq {track : Bool} {size : Nat} (tracks : f.Tracks track size []) :
    Frame.ofSize track size = .ok f.toFrame := by
  obtain rfl := tracks.size_eq
  have slots : Array.replicate f.size (Frame.blank track) = f.toFrame.slots := by
    refine Array.ext (by rw [Array.size_replicate, size_toFrame]) fun k hk hk' => ?_
    have lt : k < f.size := by rwa [size_toFrame] at hk'
    have mask := tracks.mask k
    rw [decide_eq_true lt, Bool.and_true] at mask
    have value := tracks.values k (Nat.lt_of_lt_of_le lt f.size_le)
    simp only [toFrame, Array.getElem_replicate, Array.getElem_ofFn, Frame.blank, mask, value]
    exact congrArg (Slot.mk .nil) (congrArg not (Bool.and_true track).symm)
  rw [Frame.ofSize, dif_pos f.size_le]
  exact congrArg Except.ok (by simp only [slots])

/-- **Tracking unwritten locals is exact.**  Let a frame be made for no more locals than a frame may
have, and let whatever locals be read and written, under any indices at all.  No shift is made that
is not defined, and when all this is done:

* a local counts as unwritten just if it is in use and no write of it has succeeded;
* what is read is nil for a local that was not written, and else the value that was stored
  last, whatever it is; reads and writes succeed just if the local is in use, and a write that
  fails changes nothing;
* beyond the locals in use all slots are nil and no bit is set.

In a frame that does not track writes the same uses come to the same, with the same values in all
slots, and no local ever counts as unwritten.  And both are what the frames of the machine are. -/
theorem tracking_exact {size : Nat} (fits : size ≤ Limits.locals) (as : List Access) :
    ∃ start uses f, ofSize true size = some (.ok start) ∧ start.accesses as = some (uses, f) ∧
      uses.map Prod.fst = as ∧
      (∀ index, ∃ flag, f.isUnwritten index = some flag ∧
        (flag = true ↔
          index.toNat < size ∧ ∀ value r, (Access.set index value, .ok r) ∉ uses)) ∧
      (∀ index, f.get index =
        if index.toNat < size then .ok ((lastStored? index.toNat uses).getD .nil)
        else .error (.localOutOfRange index size)) ∧
      (∀ index value, if index.toNat < size then ∃ f', f.set index value = some (.ok (), f')
        else f.set index value = some (.error (.localOutOfRange index size), f)) ∧
      (∀ k (h : k < Limits.locals), size ≤ k → f.values[k] = .nil) ∧
      (∀ k, size ≤ k → f.mask.getLsbD k = false) ∧
      (∃ plain g, ofSize false size = some (.ok plain) ∧ plain.accesses as = some (uses, g) ∧
        g.values = f.values ∧ (∀ index, g.isUnwritten index = some false) ∧
        Frame.ofSize false size = .ok plain.toFrame ∧
        plain.toFrame.accesses as = (uses, g.toFrame)) ∧
      Frame.ofSize true size = .ok start.toFrame ∧
      start.toFrame.accesses as = (uses, f.toFrame) := by
  obtain ⟨start, made, fresh⟩ := exists_ofSize true fits
  obtain ⟨plain, made', fresh'⟩ := exists_ofSize false fits
  obtain ⟨f, run, tracks⟩ := fresh.accesses as
  obtain ⟨g, run', tracks'⟩ := fresh'.accesses as
  rw [List.nil_append] at tracks tracks'
  refine ⟨start, followingUses size [] as, f, made, run, map_followingUses size [] as,
    fun index => ?_, tracks.get_eq, fun index value => ?_, fun k h le => ?_, fun k le => ?_,
    ⟨plain, g, made', run', ?_, fun index => ?_, fresh'.ofSize_eq, accesses_eq_toFrame run'⟩,
    fresh.ofSize_eq, accesses_eq_toFrame run⟩
  · obtain ⟨flag, unwritten, iff⟩ := tracks.exists_isUnwritten index
    exact ⟨flag, unwritten, iff.trans (and_iff_right rfl)⟩
  · split
    · rename_i lt
      exact ⟨_, set_of_lt value (tracks.size_eq.symm ▸ lt)⟩
    · rename_i le
      rw [set_of_le value (tracks.size_eq.symm ▸ Nat.not_lt.mp le), tracks.size_eq]
  · rw [tracks.values, tracks.beyond k le]
    rfl
  · rw [tracks.mask, decide_eq_false (Nat.not_lt.mpr le)]
    rfl
  · exact Vector.ext fun k h => (tracks'.values k h).trans (tracks.values k h).symm
  · obtain ⟨flag, unwritten, iff⟩ := tracks'.exists_isUnwritten index
    rw [unwritten, Bool.eq_false_iff.mpr fun h => nomatch (iff.mp h).1]

theorem tracking_exact_three :
    let as : List Access := [.get 1, .set 1 ⟨.invalid, 0⟩, .set 3 .nil]
    3 ≤ Limits.locals ∧ ∃ start uses f, ofSize true 3 = some (.ok start) ∧
      start.accesses as = some (uses, f) ∧ f.get 1 = .ok ((lastStored? 1 uses).getD .nil) ∧
      f.get 3 = .error (.localOutOfRange 3 3) ∧
      f.set 3 .nil = some (.error (.localOutOfRange 3 3), f) := by
  intro as
  have fits : 3 ≤ Limits.locals := by decide
  obtain ⟨start, uses, f, made, run, -, -, get, set, -⟩ := tracking_exact fits as
  exact ⟨fits, start, uses, f, made, run, get 1, get 3, set 3 .nil⟩

end MaskedFrame

end MessageMachine
