import BankedStore.Proofs.Bits.Canonical

/-!
# Pieces copied word by word

`range` and `setRange` give each word of the result in one formula.  Here the same
pieces are copied in a loop, 64 bits a round, by steps that can go wrong: a word is
read or written only if the vector has it, and a shift is by less than 64.  What a
fault leaves behind can be seen.  Each loop comes to what the formula says, so past
the check of the bounds nothing goes wrong, and the piece has the bits it should.
-/

namespace BankedStore.Bits

/-- Work on a vector in place, which keeps what was written before a fault. -/
abbrev InPlace := ExceptT Fault (StateM Bits)

def InPlace.on {α : Type} (work : InPlace α) (b : Bits) : Except Fault α × Bits :=
  (work.run.run b).run

/-! ## Single words -/

def loadWord (b : Bits) (k : Nat) : Except Fault UInt64 :=
  if h : k < wordCount b.width then .ok b.words[k] else .error .indexOutOfBounds

def withWord (b : Bits) (k : Nat) (word : UInt64) (h : k < wordCount b.width) : Bits :=
  ⟨b.width, b.words.set k word⟩

def storeWord (k : Nat) (word : UInt64) : InPlace Unit := do
  let b ← get
  if h : k < wordCount b.width then set (b.withWord k word h) else throw .indexOutOfBounds

def shiftAmount (n : Nat) : Except Fault UInt64 :=
  if n < 64 then .ok n.toUInt64 else .error .overflow

def maskOf (n : Nat) : Except Fault UInt64 := do
  if 64 ≤ n then return ~~~0
  return (1 <<< (← shiftAmount n)) - 1

/-! ## Pieces of up to 64 bits -/

def loadPiece (b : Bits) (low n : Nat) : Except Fault UInt64 := do
  if n = 0 then return 0
  let shift := low % 64
  let mut piece := (← b.loadWord (low / 64)) >>> (← shiftAmount shift)
  if shift ≠ 0 ∧ 64 < shift + n then
    piece := piece ||| ((← b.loadWord (low / 64 + 1)) <<< (← shiftAmount (64 - shift)))
  return piece &&& (← maskOf n)

def storePiece (low n : Nat) (value : UInt64) : InPlace Unit := do
  if n = 0 then return
  let shift := low % 64
  let piece := value &&& (← maskOf n)
  let mask := (← maskOf n) <<< (← shiftAmount shift)
  let word ← (← get).loadWord (low / 64)
  storeWord (low / 64) ((word &&& ~~~mask) ||| (piece <<< (← shiftAmount shift)))
  if shift ≠ 0 ∧ 64 < shift + n then
    let mask ← maskOf (shift + n - 64)
    let word ← (← get).loadWord (low / 64 + 1)
    storeWord (low / 64 + 1)
      ((word &&& ~~~mask) ||| ((piece >>> (← shiftAmount (64 - shift))) &&& mask))

/-! ## The loops -/

def copyOut (b : Bits) (low width done : Nat) : InPlace Unit := do
  if done < width then
    let n := min (width - done) 64
    storeWord (done / 64) (← b.loadPiece (← Size.add low done) n)
    copyOut b low width (done + n)
termination_by width - done

def copyIn (low : Nat) (part : Bits) (done : Nat) : InPlace Unit := do
  if done < part.width then
    let n := min (part.width - done) 64
    storePiece (← Size.add low done) n (← part.loadWord (done / 64))
    copyIn low part (done + n)
termination_by part.width - done

def checkWindow (low width room : Nat) : Except Fault Unit := do
  let high ← Size.add low width
  if room < high then throw (.rangeOutOfBounds low high room)

def rangeByWords (b : Bits) (low width : Nat) : Except Fault Bits := do
  checkWindow low width b.width
  let (outcome, piece) := (copyOut b low width 0).on (zero width)
  outcome
  return piece

def setRangeByWords (low : Nat) (part : Bits) : InPlace Unit := do
  checkWindow low part.width (← get).width
  copyIn low part 0

/-! ## Single steps -/

section Steps

variable {α β : Type}

theorem on_bind (work : InPlace α) (next : α → InPlace β) (b : Bits) :
    InPlace.on (work >>= next) b =
      match work.on b with
      | (.ok value, c) => (next value).on c
      | (.error fault, c) => (.error fault, c) := by
  change ExceptT.bindCont next (work.on b).1 (work.on b).2 = _
  rcases work.on b with ⟨⟨fault⟩ | ⟨value⟩, c⟩ <;> rfl

theorem on_get_bind (next : Bits → InPlace β) (b : Bits) :
    InPlace.on (get >>= next) b = (next b).on b :=
  rfl

theorem on_lift_bind (value : α) (next : α → InPlace β) (b : Bits) :
    InPlace.on (liftM (.ok value : Except Fault α) >>= next) b = (next value).on b :=
  rfl

theorem ok_bind (value : α) (next : α → Except Fault β) :
    (Except.ok value >>= next) = next value :=
  rfl

end Steps

variable {b : Bits}

theorem loadWord_eq_ok {k : Nat} (h : k < wordCount b.width) : b.loadWord k = .ok b.words[k] :=
  dif_pos h

theorem on_storeWord {k : Nat} (h : k < wordCount b.width) (word : UInt64) :
    (storeWord k word).on b = (.ok (), b.withWord k word h) := by
  unfold storeWord
  rw [on_get_bind, dif_pos h]
  rfl

theorem shiftAmount_eq_ok {n : Nat} (h : n < 64) : shiftAmount n = .ok n.toUInt64 :=
  if_pos h

theorem maskOf_eq_ok (n : Nat) : maskOf n = .ok (lowMask n) := by
  unfold maskOf lowMask
  split
  · rw [if_neg (by omega)]
    rfl
  · rw [if_pos (by omega), shiftAmount_eq_ok (by omega)]
    rfl

theorem loadPiece_eq_ok {low n : Nat} (h : low + n ≤ b.width) (small : n ≤ 64) :
    b.loadPiece low n = .ok (b.chunk low n h) := by
  unfold loadPiece chunk
  by_cases hn : n = 0
  · rw [if_pos hn, dif_pos hn]
    rfl
  have hfirst : low / 64 < wordCount b.width := by unfold wordCount; omega
  rw [if_neg hn, dif_neg hn]
  dsimp only
  rw [loadWord_eq_ok hfirst, shiftAmount_eq_ok (Nat.mod_lt low (by decide)), maskOf_eq_ok,
    ok_bind, ok_bind]
  by_cases hs : low % 64 + n ≤ 64
  · rw [if_neg (by omega), dif_pos hs]
    rfl
  · have hsecond : low / 64 + 1 < wordCount b.width := by unfold wordCount; omega
    rw [if_pos (by omega), dif_neg hs, loadWord_eq_ok hsecond, shiftAmount_eq_ok (by omega)]
    rfl

/-! ## Writing a piece -/

theorem testBit_toNat_withWord {k : Nat} (h : k < wordCount b.width) (word : UInt64) (i : Nat) :
    (b.withWord k word h).toNat.testBit i =
      if i / 64 = k then word.toBitVec.getLsbD (i % 64) else b.toNat.testBit i := by
  unfold withWord
  rw [testBit_toNat_mk, Vector.getElem?_set, testBit_toNat]
  by_cases hk : i / 64 = k
  · rw [if_pos hk.symm, if_pos hk]
    rfl
  · rw [if_neg (Ne.symm hk), if_neg hk]

theorem testBit_toNat_splice {low : Nat} (h : low / 64 < wordCount b.width) (n : Nat)
    (value : UInt64) (i : Nat) :
    (b.withWord (low / 64)
        ((b.words[low / 64] &&& ~~~(lowMask n <<< (low % 64).toUInt64)) |||
          ((value &&& lowMask n) <<< (low % 64).toUInt64)) h).toNat.testBit i =
      if low ≤ i ∧ i < low + n ∧ i / 64 = low / 64 then value.toBitVec.getLsbD (i - low)
      else b.toNat.testBit i := by
  have hshift : low % 64 < 64 := Nat.mod_lt low (by decide)
  rw [testBit_toNat_withWord]
  by_cases hword : i / 64 = low / 64
  · have hplace : 64 * (low / 64) + i % 64 = i := by omega
    have hsource : i % 64 - low % 64 = i - low := by omega
    rw [if_pos hword, UInt64.toBitVec_or, BitVec.getLsbD_or, UInt64.toBitVec_and,
      BitVec.getLsbD_and, UInt64.toBitVec_not, BitVec.getLsbD_not, getLsbD_shiftLeft _ hshift,
      getLsbD_shiftLeft _ hshift, UInt64.toBitVec_and, BitVec.getLsbD_and, getLsbD_lowMask,
      testBit_words h (Nat.mod_lt i (by decide)), hplace, hsource]
    grind
  · rw [if_neg hword, if_neg (by omega)]

theorem testBit_toNat_spill {low n : Nat} (h : low / 64 + 1 < wordCount b.width) (small : n ≤ 64)
    (hspill : 64 < low % 64 + n) (value : UInt64) (i : Nat) :
    (b.withWord (low / 64 + 1)
        ((b.words[low / 64 + 1] &&& ~~~lowMask (low % 64 + n - 64)) |||
          (((value &&& lowMask n) >>> (64 - low % 64).toUInt64) &&&
            lowMask (low % 64 + n - 64))) h).toNat.testBit i =
      if low ≤ i ∧ i < low + n ∧ i / 64 = low / 64 + 1 then value.toBitVec.getLsbD (i - low)
      else b.toNat.testBit i := by
  rw [testBit_toNat_withWord]
  by_cases hword : i / 64 = low / 64 + 1
  · have hplace : 64 * (low / 64 + 1) + i % 64 = i := by omega
    have hsource : 64 - low % 64 + i % 64 = i - low := by omega
    rw [if_pos hword, UInt64.toBitVec_or, BitVec.getLsbD_or, UInt64.toBitVec_and,
      BitVec.getLsbD_and, UInt64.toBitVec_not, BitVec.getLsbD_not, UInt64.toBitVec_and,
      BitVec.getLsbD_and, getLsbD_shiftRight _ (by omega), UInt64.toBitVec_and,
      BitVec.getLsbD_and, getLsbD_lowMask, getLsbD_lowMask,
      testBit_words h (Nat.mod_lt i (by decide)), hplace, hsource]
    grind
  · rw [if_neg hword, if_neg (by omega)]

theorem testBit_toNat_overwrite_ofUInt64 {low n : Nat} (h : low + n ≤ b.width) (value : UInt64)
    (i : Nat) :
    (b.overwrite low (ofUInt64 n value)).toNat.testBit i =
      if low ≤ i ∧ i < low + n then value.toBitVec.getLsbD (i - low)
      else b.toNat.testBit i := by
  have hwidth : (ofUInt64 n value).width = n := rfl
  rw [testBit_toNat_overwrite, hwidth, toNat_ofUInt64, Nat.testBit_mod_two_pow]
  by_cases hi : low ≤ i ∧ i < low + n
  · have hword : i / 64 < wordCount b.width := by unfold wordCount; omega
    have hplace : i - low < n := by omega
    rw [if_pos ⟨hi.1, hi.2, hword⟩, if_pos hi, decide_eq_true hplace, Bool.true_and]
    rfl
  · rw [if_neg (by omega), if_neg hi]

theorem overwrite_zero {part : Bits} (low : Nat) (h : part.width = 0) :
    b.overwrite low part = b := by
  refine toNat_injective rfl (Nat.eq_of_testBit_eq fun i => ?_)
  rw [testBit_toNat_overwrite, if_neg (by omega)]

theorem on_storePiece {low n : Nat} (h : low + n ≤ b.width) (small : n ≤ 64) (value : UInt64) :
    (storePiece low n value).on b = (.ok (), b.overwrite low (ofUInt64 n value)) := by
  unfold storePiece
  by_cases hn : n = 0
  · rw [if_pos hn, overwrite_zero low hn]
    rfl
  have hfirst : low / 64 < wordCount b.width := by unfold wordCount; omega
  have hshift : low % 64 < 64 := Nat.mod_lt low (by decide)
  rw [if_neg hn]
  dsimp only
  rw [maskOf_eq_ok, on_lift_bind, on_lift_bind, shiftAmount_eq_ok hshift, on_lift_bind, on_get_bind,
    loadWord_eq_ok hfirst, on_lift_bind, on_lift_bind, on_bind, on_storeWord hfirst]
  dsimp only
  -- The second write finds its own word as it was in `b`, since the first one changed another.
  have hone := testBit_toNat_splice hfirst n value
  generalize hnext : b.withWord (low / 64) _ hfirst = next at hone
  have hwidth : next.width = b.width := by rw [← hnext]; rfl
  by_cases hs : low % 64 + n ≤ 64
  · rw [if_neg (by omega)]
    suffices next = b.overwrite low (ofUInt64 n value) by rw [this]; rfl
    refine toNat_injective hwidth (Nat.eq_of_testBit_eq fun i => ?_)
    rw [hone, testBit_toNat_overwrite_ofUInt64 h]
    congr 1
    grind
  · have hsecond : low / 64 + 1 < wordCount next.width := by
      rw [hwidth]
      unfold wordCount
      omega
    rw [if_pos (by omega), maskOf_eq_ok, on_lift_bind, on_get_bind, loadWord_eq_ok hsecond,
      on_lift_bind, shiftAmount_eq_ok (by omega), on_lift_bind, on_storeWord hsecond]
    congr 1
    refine toNat_injective hwidth (Nat.eq_of_testBit_eq fun i => ?_)
    rw [testBit_toNat_spill hsecond small (by omega), hone, testBit_toNat_overwrite_ofUInt64 h]
    grind

/-! ## Copying in -/

theorem ofUInt64_words {part : Bits} {done n : Nat} (h : done / 64 < wordCount part.width)
    (hstart : done % 64 = 0) (small : n ≤ 64) :
    ofUInt64 n part.words[done / 64] = part.field done n := by
  refine toNat_injective rfl (Nat.eq_of_testBit_eq fun i => ?_)
  rw [toNat_ofUInt64, Nat.testBit_mod_two_pow, testBit_toNat_field]
  by_cases hi : i < n
  · have hplace : 64 * (done / 64) + i = done + i := by omega
    have hword := testBit_words h (show i < 64 by omega)
    rw [hplace] at hword
    rw [← hword]
    rfl
  · rw [decide_eq_false hi, Bool.false_and, Bool.false_and]

theorem testBit_toNat_overwrite_field (low : Nat) (part : Bits) (start width i : Nat) :
    (b.overwrite low (part.field start width)).toNat.testBit i =
      if low ≤ i ∧ i < low + width ∧ i / 64 < wordCount b.width then
        part.toNat.testBit (start + (i - low))
      else b.toNat.testBit i := by
  rw [testBit_toNat_overwrite, width_field, testBit_toNat_field]
  by_cases hi : low ≤ i ∧ i < low + width ∧ i / 64 < wordCount b.width
  · rw [if_pos hi, if_pos hi, decide_eq_true (by omega), Bool.true_and]
  · rw [if_neg hi, if_neg hi]

theorem overwrite_field_self (low : Nat) (part : Bits) :
    b.overwrite low (part.field 0 part.width) = b.overwrite low part := by
  refine toNat_injective rfl (Nat.eq_of_testBit_eq fun i => ?_)
  rw [testBit_toNat_overwrite_field, testBit_toNat_overwrite, Nat.zero_add]

theorem overwrite_field_add (low : Nat) (part : Bits) (done n : Nat) :
    (b.overwrite low (part.field 0 done)).overwrite (low + done) (part.field done n) =
      b.overwrite low (part.field 0 (done + n)) := by
  have happend := overwrite_append b low (wellFormed_field part 0 done)
    (wellFormed_field part (0 + done) n)
  rwa [width_field, field_append_field, Nat.zero_add] at happend

theorem on_copyIn {part : Bits} {low : Nat} (h : low + part.width ≤ b.width)
    (hfits : low + part.width < Size.limit) (done : Nat)
    (hdone : done % 64 = 0 ∨ done = part.width) (hle : done ≤ part.width) :
    (copyIn low part done).on (b.overwrite low (part.field 0 done)) =
      (.ok (), b.overwrite low part) := by
  -- Every round starts at the low end of a word of `part`.  Only after the last one can `done` be
  -- inside a word, and then nothing is left to copy.
  induction done using copyIn.induct part with
  | case1 done hlt n ih =>
      have hstart : done % 64 = 0 := by omega
      have hword : done / 64 < wordCount part.width := by unfold wordCount; omega
      have hroom : low + done + n ≤ (b.overwrite low (part.field 0 done)).width := by
        change low + done + n ≤ b.width
        omega
      rw [copyIn, if_pos hlt, Size.add_eq_ok (by omega), on_lift_bind, loadWord_eq_ok hword,
        on_lift_bind, on_bind, on_storePiece hroom (by omega),
        ofUInt64_words hword hstart (by omega), overwrite_field_add]
      exact ih (by omega) (by omega)
  | case2 done hge =>
      obtain rfl : done = part.width := by omega
      rw [copyIn, if_neg hge, overwrite_field_self]
      rfl

/-! ## Copying out -/

theorem withWord_chunk {low width done n : Nat} (hstart : done % 64 = 0) (small : n ≤ 64)
    (h : low + done + n ≤ b.width)
    (hword : done / 64 < wordCount ((zero width).overwrite 0 (b.field low done)).width) :
    ((zero width).overwrite 0 (b.field low done)).withWord (done / 64)
        (b.chunk (low + done) n h) hword =
      (zero width).overwrite 0 (b.field low (done + n)) := by
  have hinside : done / 64 < wordCount width := hword
  refine toNat_injective rfl (Nat.eq_of_testBit_eq fun i => ?_)
  rw [testBit_toNat_withWord, getLsbD_chunk h small, testBit_toNat_overwrite_field,
    testBit_toNat_overwrite_field, toNat_zero, Nat.zero_testBit, width_zero]
  by_cases hi : i / 64 = done / 64
  · have hplace : low + done + i % 64 = low + i := by omega
    rw [if_pos hi, hplace]
    grind
  · rw [if_neg hi]
    grind

theorem on_copyOut {low width : Nat} (h : low + width ≤ b.width) (hfits : low + width < Size.limit)
    (done : Nat) (hdone : done % 64 = 0 ∨ done = width) (hle : done ≤ width) :
    (copyOut b low width done).on ((zero width).overwrite 0 (b.field low done)) =
      (.ok (), b.extract low width h) := by
  induction done using copyOut.induct width with
  | case1 done hlt n ih =>
      have hstart : done % 64 = 0 := by omega
      have hword : done / 64 <
          wordCount ((zero width).overwrite 0 (b.field low done)).width := by
        change done / 64 < (width + 63) / 64
        omega
      have hroom : low + done + n ≤ b.width := by omega
      rw [copyOut, if_pos hlt, Size.add_eq_ok (by omega), on_lift_bind,
        loadPiece_eq_ok hroom (by omega), on_lift_bind, on_bind, on_storeWord hword,
        withWord_chunk hstart (by omega)]
      exact ih (by omega) (by omega)
  | case2 done hge =>
      obtain rfl : done = width := by omega
      have hcopied := zero_overwrite (wellFormed_field b low done)
      rw [width_field] at hcopied
      rw [copyOut, if_neg hge, hcopied, extract_eq_field]
      rfl

/-! ## The checked operations -/

theorem checkWindow_eq_ok {low width room : Nat} (hfits : low + width < Size.limit)
    (h : low + width ≤ room) : checkWindow low width room = .ok () := by
  unfold checkWindow
  rw [Size.add_eq_ok hfits, ok_bind, if_neg (by omega)]
  rfl

theorem checkWindow_eq_outside {low width room : Nat} (hfits : low + width < Size.limit)
    (h : room < low + width) :
    checkWindow low width room = .error (.rangeOutOfBounds low (low + width) room) := by
  unfold checkWindow
  rw [Size.add_eq_ok hfits, ok_bind, if_pos h]
  rfl

theorem checkWindow_eq_overflow {low width : Nat} (h : Size.limit ≤ low + width) (room : Nat) :
    checkWindow low width room = .error .overflow := by
  unfold checkWindow Size.add
  rw [if_neg (by omega)]
  rfl

theorem rangeByWords_eq_range (b : Bits) (low width : Nat) :
    b.rangeByWords low width = b.range low width := by
  unfold rangeByWords range
  by_cases hfits : low + width < Size.limit
  · by_cases h : low + width ≤ b.width
    · rw [if_pos hfits, dif_pos h, checkWindow_eq_ok hfits h]
      have hcopy := on_copyOut h hfits 0 (.inl rfl) (Nat.zero_le width)
      rw [overwrite_zero 0 rfl] at hcopy
      rw [ok_bind, hcopy]
      rfl
    · rw [if_pos hfits, dif_neg h, checkWindow_eq_outside hfits (by omega)]
      rfl
  · rw [if_neg hfits, checkWindow_eq_overflow (by omega)]
    rfl

theorem on_setRangeByWords (b : Bits) (low : Nat) (part : Bits) :
    (setRangeByWords low part).on b =
      match b.setRange low part with
      | .ok next => (.ok (), next)
      | .error fault => (.error fault, b) := by
  unfold setRangeByWords setRange
  rw [on_get_bind]
  by_cases hfits : low + part.width < Size.limit
  · by_cases h : low + part.width ≤ b.width
    · rw [if_pos hfits, if_pos h, checkWindow_eq_ok hfits h]
      have hcopy := on_copyIn h hfits 0 (.inl rfl) (Nat.zero_le part.width)
      rw [overwrite_zero low rfl] at hcopy
      exact hcopy
    · rw [if_pos hfits, if_neg h, checkWindow_eq_outside hfits (by omega)]
      rfl
  · rw [if_neg hfits, checkWindow_eq_overflow (by omega)]
    rfl

/-- `range` takes out the bits of its window, one by one the same, and faults exactly where the
window leaves the vector or its end cannot be counted.  The loop over words comes to the same. -/
structure Extracts (b : Bits) (low width : Nat) : Prop where
  faults : (∃ fault, b.range low width = .error fault) ↔
    Size.limit ≤ low + width ∨ b.width < low + width
  piece : ∀ piece, b.range low width = .ok piece →
    piece.width = width ∧ piece.WellFormed ∧ ∀ i < width, piece.bit i = b.bit (low + i)
  byWords : b.rangeByWords low width = b.range low width

structure Inserts (b : Bits) (low : Nat) (part : Bits) : Prop where
  faults : (∃ fault, b.setRange low part = .error fault) ↔
    Size.limit ≤ low + part.width ∨ b.width < low + part.width
  next : ∀ next, b.setRange low part = .ok next →
    next.width = b.width ∧ next.WellFormed ∧
      (∀ j, low ≤ j → j < low + part.width → next.bit j = part.bit (j - low)) ∧
      ∀ j, j < low ∨ low + part.width ≤ j → next.bit j = b.bit j
  byWords : (setRangeByWords low part).on b =
    match b.setRange low part with
    | .ok next => (.ok (), next)
    | .error fault => (.error fault, b)

theorem range_eq_ok_iff {low width : Nat} {piece : Bits} :
    b.range low width = .ok piece ↔
      low + width < Size.limit ∧ ∃ h : low + width ≤ b.width, b.extract low width h = piece := by
  unfold range
  split
  · split <;> simp [*]
  · simp [*]

theorem setRange_eq_ok_iff {low : Nat} {part next : Bits} :
    b.setRange low part = .ok next ↔
      low + part.width < Size.limit ∧ low + part.width ≤ b.width ∧
        b.overwrite low part = next := by
  unfold setRange
  split
  · split <;> simp [*]
  · simp [*]

theorem exists_eq_error_iff {α : Type} {outcome : Except Fault α} :
    (∃ fault, outcome = .error fault) ↔ ¬ ∃ value, outcome = .ok value := by
  cases outcome <;> simp

theorem extracts (b : Bits) (low width : Nat) : b.Extracts low width where
  faults := by
    simp only [exists_eq_error_iff, range_eq_ok_iff]
    simp
    omega
  piece piece hpiece := by
    obtain ⟨-, h, rfl⟩ := range_eq_ok_iff.mp hpiece
    have hwidth : (b.extract low width h).width = width := rfl
    refine ⟨hwidth, wellFormed_extract h, fun i hi => ?_⟩
    rw [bit_eq_ok (by omega), bit_eq_ok (by omega), testBit_toNat_extract, decide_eq_true hi,
      Bool.true_and]
  byWords := rangeByWords_eq_range b low width

theorem inserts (h : b.WellFormed) (low : Nat) (part : Bits) : b.Inserts low part where
  faults := by
    simp only [exists_eq_error_iff, setRange_eq_ok_iff]
    simp
    omega
  next next hnext := by
    obtain ⟨-, hinside, rfl⟩ := setRange_eq_ok_iff.mp hnext
    have hwidth : (b.overwrite low part).width = b.width := rfl
    refine ⟨hwidth, wellFormed_overwrite h hinside, fun j hlow hhigh => ?_, fun j hj => ?_⟩
    · have hword : j / 64 < wordCount b.width := by unfold wordCount; omega
      rw [bit_eq_ok (by omega), bit_eq_ok (by omega), testBit_toNat_overwrite,
        if_pos ⟨hlow, hhigh, hword⟩]
    · by_cases hin : j < b.width
      · rw [bit_eq_ok (by omega), bit_eq_ok hin, testBit_toNat_overwrite, if_neg (by omega)]
      · rw [bit_eq_error (by omega), bit_eq_error (by omega), hwidth]
  byWords := on_setRangeByWords b low part

/-- Extracting and inserting go by single bits, whatever the offset and the widths. -/
theorem range_setRange_bitwise (h : b.WellFormed) (low width : Nat) (part : Bits) :
    b.Extracts low width ∧ b.Inserts low part :=
  ⟨extracts b low width, inserts h low part⟩

theorem range_setRange_bitwise_spill :
    (ones 130).WellFormed ∧ (ones 130).Extracts 62 67 ∧ (ones 130).Inserts 62 (zero 67) :=
  have h : (ones 130).WellFormed := wellFormed_ofWords ..
  ⟨h, range_setRange_bitwise h 62 67 (zero 67)⟩

end BankedStore.Bits
