/-
What the calls on a `SHA1` return: the digest that FIPS PUB 180-1 defines for the
concatenation of the inputs since `Reset`, in whichever pieces they came, unless
they are too long or came behind a `Result`.
-/
import Jerry.Sha1

namespace Jerry

open BlockHash ByteOrder Fips180

namespace Sha1

section Compression

theorem circularShift_eq {bits : UInt32} (hpos : 0 < bits.toNat)
    (hlt : bits.toNat < 32) (word : UInt32) :
    circularShift bits word = rotl bits.toNat word := by
  apply UInt32.toBitVec_inj.mp
  have hall : (0xFFFFFFFF : UInt32).toBitVec = BitVec.allOnes 32 := rfl
  have hsub : (32 - bits).toBitVec.toNat = 32 - bits.toNat :=
    UInt32.toNat_sub_of_le 32 bits
      (UInt32.le_iff_toNat_le.mpr (Nat.le_of_lt hlt))
  have hleft : (bits.toBitVec % 32).toNat = bits.toNat := Nat.mod_eq_of_lt hlt
  have hright : ((32 - bits).toBitVec % 32).toNat = 32 - bits.toNat := by
    rw [BitVec.toNat_umod, hsub]
    exact Nat.mod_eq_of_lt (Nat.sub_lt (by decide) hpos)
  simp only [circularShift, rotl, UInt32.toBitVec_or, UInt32.toBitVec_and,
    UInt32.toBitVec_shiftLeft, UInt32.toBitVec_shiftRight, hall,
    BitVec.and_allOnes, BitVec.rotateLeft_def, Nat.mod_eq_of_lt hlt,
    BitVec.shiftLeft_eq', BitVec.ushiftRight_eq', hleft, hright]

/-- Bytes that are shifted apart and put together are a big-endian number. -/
theorem shifted_eq (a b c d : UInt8) :
    a.toUInt32 <<< 24 ||| b.toUInt32 <<< 16 ||| c.toUInt32 <<< 8 |||
      d.toUInt32 = UInt32.ofNat (ofBe [a, b, c, d]) := by
  have ha := a.toNat_lt
  have hb := b.toNat_lt
  have hc := c.toNat_lt
  have hd := d.toNat_lt
  have happend {x y i : Nat} (hy : y < 2 ^ i) : x <<< i ||| y = 2 ^ i * x + y := by
    rw [← Nat.shiftLeft_add_eq_or_of_lt hy, Nat.shiftLeft_eq, Nat.mul_comm]
  have hshift {x i : Nat} (hx : x * 2 ^ i < 2 ^ 32) :
      x <<< i % 2 ^ 32 = x <<< i := by
    rw [Nat.shiftLeft_eq, Nat.mod_eq_of_lt hx]
  have hvalue : ofBe [a, b, c, d] =
      2 ^ 24 * a.toNat + (2 ^ 16 * b.toNat + (2 ^ 8 * c.toNat + d.toNat)) := by
    simp only [ofBe, List.reverse_cons, List.reverse_nil, List.nil_append,
      List.cons_append, ofLe]
    omega
  apply UInt32.toNat_inj.mp
  have h₁ : (a.toUInt32 <<< 24).toNat = a.toNat <<< 24 :=
    hshift (x := a.toNat) (i := 24) (by omega)
  have h₂ : (b.toUInt32 <<< 16).toNat = b.toNat <<< 16 :=
    hshift (x := b.toNat) (i := 16) (by omega)
  have h₃ : (c.toUInt32 <<< 8).toNat = c.toNat <<< 8 :=
    hshift (x := c.toNat) (i := 8) (by omega)
  rw [UInt32.toNat_or, UInt32.toNat_or, UInt32.toNat_or, h₁, h₂, h₃,
    UInt8.toNat_toUInt32, Nat.or_assoc, Nat.or_assoc,
    happend (x := c.toNat) hd, happend (x := b.toNat) (by omega),
    happend (x := a.toNat) (by omega), UInt32.toNat_ofNat', hvalue,
    Nat.mod_eq_of_lt (by omega)]

variable {block : List UInt8}

theorem blockWord_eq {t : Nat} (ht : 4 * t + 4 ≤ block.length) :
    blockWord block t = UInt32.ofNat (ofBe ((block.drop (4 * t)).take 4)) := by
  obtain ⟨a, b, c, d, hfour⟩ :
      ∃ a b c d, (block.drop (4 * t)).take 4 = [a, b, c, d] := by
    have hlength : ((block.drop (4 * t)).take 4).length = 4 := by
      rw [List.length_take, List.length_drop]
      omega
    exact List.length_eq_four.mp hlength
  have hget (i : Nat) (hi : i < 4) :
      block.getD (t * 4 + i) 0 = [a, b, c, d].getD i 0 := by
    rw [← hfour, List.getD_eq_getElem?_getD, List.getD_eq_getElem?_getD,
      List.getElem?_take_of_lt hi, List.getElem?_drop, Nat.mul_comm]
  have hfirst := hget 0 (by decide)
  rw [Nat.add_zero] at hfirst
  rw [hfour, ← shifted_eq]
  simp only [blockWord, hfirst, hget 1 (by decide), hget 2 (by decide),
    hget 3 (by decide)]
  rfl

/-- After `n` more words. -/
theorem wordSequence_prefix (hblock : block.length = 64) (n : Nat) :
    (List.range' 16 n).foldl
      (fun w t => w ++ [circularShift 1 (w.getD (t - 3) 0 ^^^
        w.getD (t - 8) 0 ^^^ w.getD (t - 14) 0 ^^^ w.getD (t - 16) 0)])
      ((List.range 16).map (blockWord block)) =
        (List.range (16 + n)).map (w block) := by
  induction n with
  | zero =>
      apply List.map_congr_left
      intro t ht
      have hlt := List.mem_range.mp ht
      rw [blockWord_eq (by omega), w, if_pos hlt]
  | succ n ih =>
      have hget {i : Nat} (hi : i < 16 + n) :
          ((List.range (16 + n)).map (w block)).getD i 0 = w block i := by
        simp [List.getD_eq_getElem?_getD, hi]
      rw [List.range'_1_concat, List.foldl_append, ih, List.foldl_cons,
        List.foldl_nil, hget (by omega), hget (by omega), hget (by omega),
        hget (by omega), circularShift_eq (by decide) (by decide),
        ← Nat.add_assoc, List.range_succ, List.map_append, List.map_singleton,
        w.eq_def block (16 + n), if_neg (by omega)]
      rfl

theorem wordSequence_getD (hblock : block.length = 64) {t : Nat} (ht : t < 80) :
    (wordSequence block).getD t 0 = w block t := by
  rw [wordSequence, wordSequence_prefix hblock]
  simp [List.getD_eq_getElem?_getD, ht]

/-- Twenty steps of the standard, which have one function and one constant. -/
theorem twenty_eq (hblock : block.length = 64) {start : Nat} (hstart : start ≤ 60)
    {g : UInt32 → UInt32 → UInt32 → UInt32} {c : UInt32}
    (hsame : ∀ t, start ≤ t → t < start + 20 → f t = g ∧ k t = c) (r : Words) :
    twenty g c (wordSequence block) start (steps block start r) =
      steps block (start + 20) r := by
  suffices hsteps : ∀ n, n ≤ 20 → (List.range' start n).foldl _
      (steps block start r) = steps block (start + n) r from
    hsteps 20 (Nat.le_refl _)
  intro n hn
  induction n with
  | zero => rfl
  | succ n ih =>
      obtain ⟨hf, hk⟩ := hsame (start + n) (by omega) (by omega)
      rw [List.range'_1_concat, List.foldl_append, ih (by omega),
        List.foldl_cons, List.foldl_nil, wordSequence_getD hblock (by omega),
        circularShift_eq (by decide) (by decide),
        circularShift_eq (by decide) (by decide), ← Nat.add_assoc, steps, step,
        hf, hk]
      rfl

/-- The four loops are the eighty steps. -/
theorem processMessageBlock_h (s : Sha1) :
    s.processMessageBlock.h = compress s.h s.messageBlock.toList := by
  have hblock : s.messageBlock.toList.length = 64 := Vector.length_toList
  have h₁ := twenty_eq hblock (Nat.zero_le 60)
    (fun t _ ht => ⟨if_pos ht, if_pos ht⟩) s.h
  have h₂ := twenty_eq hblock (by decide : 20 ≤ 60) (g := parity)
    (c := 0x6ED9EBA1) (fun t hfrom hto => by
      simp only [f, k, if_neg (Nat.not_lt.mpr hfrom), if_pos hto, and_self]) s.h
  have h₃ := twenty_eq hblock (by decide : 40 ≤ 60) (g := maj)
    (c := 0x8F1BBCDC) (fun t hfrom hto => by
      simp only [f, k, if_neg (by omega : ¬ t < 20),
        if_neg (Nat.not_lt.mpr hfrom), if_pos hto, and_self]) s.h
  have h₄ := twenty_eq hblock (Nat.le_refl 60) (g := parity)
    (c := 0xCA62C1D6) (fun t hfrom hto => by
      simp only [f, k, if_neg (by omega : ¬ t < 20),
        if_neg (by omega : ¬ t < 40), if_neg (Nat.not_lt.mpr hfrom),
        and_self]) s.h
  rw [compress, ← h₄, ← h₃, ← h₂, ← h₁]
  rfl

/-- Nothing but the words and the index is changed. -/
theorem processMessageBlock_eq (s : Sha1) :
    s.processMessageBlock =
      { s with h := compress s.h s.messageBlock.toList, messageBlockIndex := 0 } := by
  obtain ⟨h, heq⟩ : ∃ h, s.processMessageBlock =
      { s with h := h, messageBlockIndex := 0 } := ⟨_, rfl⟩
  have hh := processMessageBlock_h s
  rw [heq] at hh
  rw [heq, ← hh]

end Compression

section Filling

/-- The part of the block that has been filled. -/
def filled (s : Sha1) : List UInt8 :=
  s.messageBlock.toList.take s.messageBlockIndex

variable {s : Sha1}

theorem filled_length (hindex : s.messageBlockIndex ≤ 64) :
    s.filled.length = s.messageBlockIndex := by
  rw [filled, List.length_take, Vector.length_toList, Nat.min_eq_left hindex]

theorem filled_full (hindex : s.messageBlockIndex = 64) :
    s.filled = s.messageBlock.toList :=
  List.take_of_length_le (by rw [Vector.length_toList]; exact Nat.le_of_eq hindex.symm)

theorem processMessageBlock_filled (s : Sha1) :
    s.processMessageBlock.filled = [] :=
  List.take_zero

theorem put_filled (hindex : s.messageBlockIndex < 64) (byte : UInt8) :
    (s.put byte).filled = s.filled ++ [byte] := by
  have hlt : s.messageBlockIndex < s.messageBlock.toList.length := by
    rwa [Vector.length_toList]
  have hlength := filled_length (Nat.le_of_lt hindex)
  rw [filled] at hlength
  simp only [filled, put, Vector.toList_setIfInBounds]
  rw [List.take_set, List.take_succ_eq_append_getElem hlt,
    List.set_append_right _ _ (Nat.le_of_eq hlength), hlength, Nat.sub_self]
  rfl

/-- Zeros are put behind what is there, and nothing else is changed. -/
theorem putZeros_spec {n : Nat} (hroom : s.messageBlockIndex + n ≤ 64) :
    (putZeros n s).filled = s.filled ++ List.replicate n 0 ∧
      (putZeros n s).messageBlockIndex = s.messageBlockIndex + n ∧
      (putZeros n s).h = s.h ∧ (putZeros n s).lengthLow = s.lengthLow ∧
      (putZeros n s).lengthHigh = s.lengthHigh := by
  induction n generalizing s with
  | zero => exact ⟨(List.append_nil _).symm, rfl, rfl, rfl, rfl⟩
  | succ n ih =>
      obtain ⟨hfilled, hindex, hh, hlow, hhigh⟩ :=
        ih (s := s.put 0) (by change s.messageBlockIndex + 1 + n ≤ 64; omega)
      refine ⟨?_, ?_, hh, hlow, hhigh⟩
      · rw [putZeros, hfilled, put_filled (by omega), List.append_assoc]
        rfl
      · rw [putZeros, hindex]
        change s.messageBlockIndex + 1 + n = _
        omega

theorem set_eight {octets : List UInt8} (hlength : octets.length = 8)
    (a b c d a' b' c' d' : UInt8) :
    (((((((octets.set 0 a).set 1 b).set 2 c).set 3 d).set 4 a').set 5 b').set 6
      c').set 7 d' = [a, b, c, d, a', b', c', d'] := by
  match octets, hlength with
  | [_, _, _, _, _, _, _, _], _ => rfl

/-- The octets of two words, as shifts take them out. -/
theorem shifted_octets (high low : UInt32) :
    [(high >>> 24).toUInt8, (high >>> 16).toUInt8, (high >>> 8).toUInt8,
      (high >>> 0).toUInt8, (low >>> 24).toUInt8, (low >>> 16).toUInt8,
      (low >>> 8).toUInt8, (low >>> 0).toUInt8] =
        beBytes 8 (high.toNat * 2 ^ 32 + low.toNat) := by
  have hlow := low.toNat_lt
  have hhigh := high.toNat_lt
  have hoctet (word : UInt32) (bits : UInt32) (n : Nat)
      (h : word.toNat / 2 ^ (bits.toNat % 32) % 256 = n % 256) :
      (word >>> bits).toUInt8 = UInt8.ofNat n := by
    apply UInt8.toNat_inj.mp
    rw [UInt32.toNat_toUInt8, UInt32.toNat_shiftRight, UInt8.toNat_ofNat',
      Nat.shiftRight_eq_div_pow, h]
  simp only [beBytes, leBytes, List.reverse_cons, List.reverse_nil,
    List.nil_append, List.cons_append, Nat.div_div_eq_div_mul, Nat.reduceMul]
  congr
  all_goals
    apply hoctet
    simp only [UInt32.reduceToNat, Nat.reduceMod, Nat.reducePow]
    omega

/-- The last eight octets are the length, high word first. -/
theorem putLength_toList (hindex : s.messageBlockIndex = 56) :
    s.putLength.messageBlock.toList = s.filled ++
      beBytes 8 (s.lengthHigh.toNat * 2 ^ 32 + s.lengthLow.toNat) := by
  have hsplit : s.messageBlock.toList =
      s.filled ++ s.messageBlock.toList.drop 56 := by
    rw [filled, hindex, List.take_append_drop]
  have hlength : s.filled.length = 56 := by
    rw [filled_length (by omega), hindex]
  have hset (octets : List UInt8) (i : Nat) (byte : UInt8) :
      (s.filled ++ octets).set (56 + i) byte = s.filled ++ octets.set i byte := by
    rw [List.set_append_right _ _ (by omega), hlength, Nat.add_sub_cancel_left]
  simp only [putLength, Vector.toList_setIfInBounds]
  rw [hsplit, hset _ 0, hset _ 1, hset _ 2, hset _ 3, hset _ 4, hset _ 5,
    hset _ 6, hset _ 7, set_eight, shifted_octets]
  rw [List.length_drop, Vector.length_toList]

end Filling

section Absorbing

variable {s : Sha1} {msg : List UInt8}

/-- The two counters as one number. -/
def bits (high low : UInt32) : Nat :=
  high.toNat * 2 ^ 32 + low.toNat

/-- Whole blocks of the bytes are in the words, the rest is in the block. -/
structure Hashes (s : Sha1) (bytes : List UInt8) : Prop where
  h : s.h = hashed compress 64 initial bytes
  filled : s.filled = rest 64 bytes

/-- The block is full. -/
theorem Hashes.block {t : Sha1} {bytes : List UInt8} (h : s.Hashes msg)
    (hh : t.h = s.h) (hblock : t.messageBlock.toList = s.filled ++ bytes) :
    t.processMessageBlock.Hashes (msg ++ bytes) := by
  have hfull : (rest 64 msg).length + bytes.length = 64 := by
    rw [← List.length_append, ← h.filled, ← hblock, Vector.length_toList]
  obtain ⟨hhashed, hnone⟩ := hashed_fill compress (by decide) initial hfull
  refine ⟨?_, ?_⟩
  · rw [processMessageBlock_h, hh, hblock, hhashed, ← h.h, h.filled]
  · rw [processMessageBlock_filled, hnone]

/-- The input since `Reset`. -/
structure Absorbs (s : Sha1) (msg : List UInt8) : Prop extends Hashes s msg where
  index : s.messageBlockIndex = msg.length % 64
  length : bits s.lengthHigh s.lengthLow = 8 * msg.length
  computed : s.computed = false
  corrupted : s.corrupted = false

theorem reset_absorbs (s : Sha1) : s.reset.Absorbs [] where
  h := (hashed_short (by decide) _).symm
  filled := List.take_zero
  index := rfl
  length := by
    change bits 0 0 = 0
    rw [bits]
    decide
  computed := rfl
  corrupted := rfl

theorem Absorbs.index_lt (h : s.Absorbs msg) : s.messageBlockIndex < 64 := by
  rw [h.index]
  exact Nat.mod_lt _ (by decide)

theorem Absorbs.rest_length (h : s.Absorbs msg) :
    (rest 64 msg).length = s.messageBlockIndex := by
  rw [BlockHash.rest_length, h.index]

/-- The count of bits goes on, or it comes to 0 and the input is corrupted. -/
theorem count_spec {n : Nat}
    (hlength : bits s.lengthHigh s.lengthLow = 8 * n) :
    (Fits (n + 1) ∧ s.count.corrupted = s.corrupted ∧
      bits s.count.lengthHigh s.count.lengthLow = 8 * (n + 1)) ∨
    (¬ Fits (n + 1) ∧ s.count.corrupted = true) := by
  have hlow := s.lengthLow.toNat_lt
  have hhigh := s.lengthHigh.toNat_lt
  have hlow' : (s.lengthLow + 8).toNat = (s.lengthLow.toNat + 8) % 2 ^ 32 :=
    UInt32.toNat_add _ _
  have hhigh' : (s.lengthHigh + 1).toNat = (s.lengthHigh.toNat + 1) % 2 ^ 32 :=
    UInt32.toNat_add _ _
  have hzero (word : UInt32) : word = 0 ↔ word.toNat = 0 :=
    UInt32.toNat_inj.symm
  rw [bits] at hlength
  by_cases hcarry : s.lengthLow + 8 = 0
  · have hcarry' := (hzero _).mp hcarry
    have heq : s.count = { s with
        lengthLow := s.lengthLow + 8
        lengthHigh := s.lengthHigh + 1
        corrupted := s.corrupted || s.lengthHigh + 1 = 0 } := if_pos hcarry
    rw [heq]
    by_cases htop : s.lengthHigh + 1 = 0
    · have htop' := (hzero _).mp htop
      refine Or.inr ⟨?_, ?_⟩
      · simp only [Fits]
        omega
      · simp only [htop, decide_true, Bool.or_true]
    · have htop' := mt (hzero _).mpr htop
      refine Or.inl ⟨?_, ?_, ?_⟩
      · simp only [Fits]
        omega
      · simp only [htop, decide_false, Bool.or_false]
      · change bits (s.lengthHigh + 1) (s.lengthLow + 8) = _
        rw [bits, hcarry', Nat.add_zero, hhigh', Nat.mod_eq_of_lt (by omega)]
        omega
  · have hcarry' := mt (hzero _).mpr hcarry
    have heq : s.count = { s with lengthLow := s.lengthLow + 8 } := if_neg hcarry
    rw [heq]
    refine Or.inl ⟨?_, rfl, ?_⟩
    · simp only [Fits]
      omega
    · change bits s.lengthHigh (s.lengthLow + 8) = _
      unfold bits
      omega

theorem count_frame (s : Sha1) : s.count.h = s.h ∧ s.count.filled = s.filled ∧
    s.count.messageBlockIndex = s.messageBlockIndex ∧
    s.count.computed = s.computed := by
  by_cases hcarry : s.lengthLow + 8 = 0
  · have heq : s.count = { s with
        lengthLow := s.lengthLow + 8
        lengthHigh := s.lengthHigh + 1
        corrupted := s.corrupted || s.lengthHigh + 1 = 0 } := if_pos hcarry
    rw [heq]
    exact ⟨rfl, rfl, rfl, rfl⟩
  · have heq : s.count = { s with lengthLow := s.lengthLow + 8 } := if_neg hcarry
    rw [heq]
    exact ⟨rfl, rfl, rfl, rfl⟩

/-- Another octet. -/
theorem Absorbs.inputOctet (h : s.Absorbs msg) (byte : UInt8) :
    (Fits (msg.length + 1) ∧ (s.inputOctet byte).Absorbs (msg ++ [byte])) ∨
    (¬ Fits (msg.length + 1) ∧ (s.inputOctet byte).corrupted = true) := by
  have hindex := h.index_lt
  obtain ⟨hh, hfilled, hindex', hcomputed⟩ := count_frame (s.put byte)
  rw [put_filled hindex] at hfilled
  have hput : (s.put byte).messageBlockIndex = s.messageBlockIndex + 1 := rfl
  rw [hput] at hindex'
  have hlength : (msg ++ [byte]).length = msg.length + 1 := by
    rw [List.length_append, List.length_singleton]
  have hmod := h.index
  by_cases hfull : s.messageBlockIndex + 1 = 64
  · have heq : s.inputOctet byte = (s.put byte).count.processMessageBlock :=
      if_pos (hindex'.trans hfull)
    have hblock := filled_full (hindex'.trans hfull)
    have hhashes := h.block (t := (s.put byte).count) hh (hblock.symm.trans hfilled)
    rw [heq]
    rw [processMessageBlock_eq] at hhashes ⊢
    rcases count_spec (s := s.put byte) h.length with
      ⟨hfits, hcorrupted, hcount⟩ | ⟨hlong, hcorrupted⟩
    · refine Or.inl ⟨hfits, hhashes, ?_, ?_, ?_, ?_⟩
      · simp only [hlength]
        omega
      · rw [hlength]
        exact hcount
      · exact hcomputed.trans h.computed
      · exact hcorrupted.trans h.corrupted
    · exact Or.inr ⟨hlong, hcorrupted⟩
  · have heq : s.inputOctet byte = (s.put byte).count :=
      if_neg (by rw [hindex']; exact hfull)
    have hwait : (rest 64 msg).length + [byte].length < 64 := by
      rw [h.rest_length, List.length_singleton]
      omega
    obtain ⟨hhashed, hwaits⟩ := hashed_wait compress (by decide) initial hwait
    rw [heq]
    rcases count_spec (s := s.put byte) h.length with
      ⟨hfits, hcorrupted, hcount⟩ | ⟨hlong, hcorrupted⟩
    · refine Or.inl ⟨hfits, ⟨?_, ?_⟩, ?_, ?_, ?_, ?_⟩
      · rw [hh, hhashed, ← h.h]
        rfl
      · rw [hfilled, hwaits, h.filled]
      · rw [hindex', hlength]
        omega
      · rw [hlength]
        exact hcount
      · exact hcomputed.trans h.computed
      · exact hcorrupted.trans h.corrupted
    · exact Or.inr ⟨hlong, hcorrupted⟩

theorem inputLoop_corrupted (bytes : List UInt8) (h : s.corrupted = true) :
    inputLoop bytes s = s := by
  cases bytes with
  | nil => rfl
  | cons byte bytes => exact if_pos h

theorem Absorbs.fits (h : s.Absorbs msg) : Fits msg.length := by
  have hlength := h.length
  have hlow := s.lengthLow.toNat_lt
  have hhigh := s.lengthHigh.toNat_lt
  rw [bits] at hlength
  simp only [Fits]
  omega

/-- Any number of them. -/
theorem Absorbs.inputLoop (h : s.Absorbs msg) (bytes : List UInt8) :
    (Fits (msg ++ bytes).length ∧
      (Sha1.inputLoop bytes s).Absorbs (msg ++ bytes)) ∨
    (¬ Fits (msg ++ bytes).length ∧ (Sha1.inputLoop bytes s).corrupted = true) := by
  induction bytes generalizing s msg with
  | nil =>
      rw [List.append_nil]
      exact Or.inl ⟨h.fits, h⟩
  | cons byte bytes ih =>
      have hloop : Sha1.inputLoop (byte :: bytes) s =
          Sha1.inputLoop bytes (s.inputOctet byte) := by
        rw [Sha1.inputLoop, h.corrupted]
        rfl
      rw [hloop, List.append_cons]
      rcases h.inputOctet byte with ⟨_, hstep⟩ | ⟨hlong, hstep⟩
      · exact ih hstep
      · refine Or.inr ⟨?_, ?_⟩
        · simp only [Fits, List.length_append, List.length_singleton] at hlong ⊢
          omega
        · rw [inputLoop_corrupted bytes hstep, hstep]

end Absorbing

section Padding

variable {s : Sha1} {msg : List UInt8}

/-- The bit behind the message, and zeros up to `n`. -/
theorem padded_spec {n : Nat} (hindex : s.messageBlockIndex < n) (hn : n ≤ 64) :
    ((s.put 0x80).zeros n).filled =
        s.filled ++ 0x80 :: List.replicate (n - (s.messageBlockIndex + 1)) 0 ∧
      ((s.put 0x80).zeros n).messageBlockIndex = n ∧
      ((s.put 0x80).zeros n).h = s.h ∧
      ((s.put 0x80).zeros n).lengthLow = s.lengthLow ∧
      ((s.put 0x80).zeros n).lengthHigh = s.lengthHigh := by
  have hput : (s.put 0x80).messageBlockIndex = s.messageBlockIndex + 1 := rfl
  obtain ⟨hfilled, hindex', hh, hlow, hhigh⟩ :=
    putZeros_spec (s := s.put 0x80) (n := n - (s.messageBlockIndex + 1))
      (by omega)
  refine ⟨?_, ?_, hh, hlow, hhigh⟩
  · rw [zeros, hput, hfilled, put_filled (by omega), List.append_assoc]
    rfl
  · rw [zeros, hput, hindex', hput]
    omega

/-- The length fills the last block. -/
theorem Hashes.putLength {t : Sha1} (h : s.Hashes msg) {zeros : List UInt8}
    {length : Nat} (hh : t.h = s.h) (hfilled : t.filled = s.filled ++ zeros)
    (hindex : t.messageBlockIndex = 56)
    (hlength : bits t.lengthHigh t.lengthLow = length) :
    t.putLength.processMessageBlock.h =
      hashed compress 64 initial (msg ++ (zeros ++ beBytes 8 length)) := by
  have hblock : t.putLength.messageBlock.toList =
      s.filled ++ (zeros ++ beBytes 8 length) := by
    rw [putLength_toList hindex, hfilled, ← hlength, bits, List.append_assoc]
  have hwords : t.putLength.h = s.h := by
    obtain ⟨block, heq⟩ : ∃ block, t.putLength = { t with messageBlock := block } :=
      ⟨_, rfl⟩
    rw [heq, ← hh]
  exact (h.block hwords hblock).h

/-- In one block or in two, the padding is that of the standard. -/
theorem Absorbs.padMessage_h (h : s.Absorbs msg) : s.padMessage.h = sha1 msg := by
  have hindex := h.index_lt
  have hmod := h.index
  by_cases hsmall : s.messageBlockIndex > 55
  · have heq : s.padMessage = (((s.put 0x80).zeros 64).processMessageBlock.zeros
        56).putLength.processMessageBlock := by
      rw [padMessage, if_pos hsmall]
    obtain ⟨hfilled, hindex', hh, hlow, hhigh⟩ :=
      padded_spec (s := s) hindex (Nat.le_refl 64)
    have hhashes := h.block hh ((filled_full hindex').symm.trans hfilled)
    have hzero := processMessageBlock_eq ((s.put 0x80).zeros 64)
    generalize ((s.put 0x80).zeros 64).processMessageBlock = s' at *
    have hindex₀ : s'.messageBlockIndex = 0 := by rw [hzero]
    obtain ⟨hfilled₂, hindex₂, hh₂, hlow₂, hhigh₂⟩ :=
      putZeros_spec (s := s') (n := 56) (by omega)
    have hzeros : s'.zeros 56 = putZeros 56 s' := by
      rw [zeros, hindex₀]
    have hlength : bits (putZeros 56 s').lengthHigh (putZeros 56 s').lengthLow =
        8 * msg.length := by
      rw [hlow₂, hhigh₂, hzero]
      simp only [hlow, hhigh]
      exact h.length
    have hmany : (119 - msg.length % 64) % 64 =
        64 - (s.messageBlockIndex + 1) + 56 := by
      omega
    rw [heq, hzeros, hhashes.putLength hh₂ hfilled₂ (by omega) hlength, sha1,
      padding, hmany, ← List.replicate_append_replicate]
    simp only [List.cons_append, List.append_assoc]
  · have heq : s.padMessage = ((s.put 0x80).zeros 56).putLength.processMessageBlock := by
      rw [padMessage, if_neg hsmall]
    obtain ⟨hfilled, hindex', hh, hlow, hhigh⟩ :=
      padded_spec (s := s) (n := 56) (by omega) (by decide)
    have hlength : bits ((s.put 0x80).zeros 56).lengthHigh
        ((s.put 0x80).zeros 56).lengthLow = 8 * msg.length := by
      rw [hlow, hhigh, h.length]
    have hmany : (119 - msg.length % 64) % 64 = 56 - (s.messageBlockIndex + 1) := by
      omega
    have hhashes := h.putLength (t := (s.put 0x80).zeros 56) hh hfilled hindex'
      hlength
    rw [heq, hhashes, sha1, padding, hmany]

/-- Padding is no reason for corruption. -/
theorem padMessage_corrupted (s : Sha1) : s.padMessage.corrupted = s.corrupted := by
  have hzeros (s : Sha1) (n : Nat) : (s.zeros n).corrupted = s.corrupted := by
    rw [zeros]
    induction n - s.messageBlockIndex generalizing s with
    | zero => rfl
    | succ n ih => exact ih (s.put 0)
  have hblock (s : Sha1) : s.processMessageBlock.corrupted = s.corrupted := by
    rw [processMessageBlock_eq]
  have hlength (s : Sha1) : s.putLength.corrupted = s.corrupted := by
    obtain ⟨block, heq⟩ : ∃ block, s.putLength = { s with messageBlock := block } :=
      ⟨_, rfl⟩
    rw [heq]
  have hput : (s.put 0x80).corrupted = s.corrupted := rfl
  by_cases hsmall : s.messageBlockIndex > 55
  · rw [padMessage, if_pos hsmall, hblock, hlength, hzeros, hblock, hzeros, hput]
  · rw [padMessage, if_neg hsmall, hblock, hlength, hzeros, hput]

end Padding

/-- What the object stands for. -/
inductive Meaning where
  | absorbing (msg : List UInt8)
  | digested (msg : List UInt8)
  | corrupted

namespace Meaning

def input (bytes : List UInt8) : Meaning → Meaning
  | absorbing msg =>
      if Fits (msg ++ bytes).length then absorbing (msg ++ bytes) else corrupted
  | digested msg => if bytes = [] then digested msg else corrupted
  | corrupted => corrupted

def result : Meaning → Option Words × Meaning
  | absorbing msg | digested msg => (some (sha1 msg), digested msg)
  | corrupted => (none, corrupted)

/-- What the calls of `Result` are to return. -/
def results : Meaning → List Call → List (Option Words)
  | _, [] => []
  | _, .reset :: calls => results (absorbing []) calls
  | m, .input bytes :: calls => results (m.input bytes) calls
  | m, .result :: calls => m.result.1 :: results m.result.2 calls

end Meaning

def Represents (s : Sha1) : Meaning → Prop
  | .absorbing msg => s.Absorbs msg
  | .digested msg => s.h = sha1 msg ∧ s.computed = true ∧ s.corrupted = false
  | .corrupted => s.corrupted = true

theorem reset_represents (s : Sha1) : s.reset.Represents (.absorbing []) :=
  s.reset_absorbs

theorem input_represents {s : Sha1} {m : Meaning} (h : s.Represents m)
    (bytes : List UInt8) : (s.input bytes).Represents (m.input bytes) := by
  by_cases hnone : bytes = []
  · subst hnone
    cases m with
    | absorbing msg =>
        have hfits : Fits (msg ++ []).length := by
          rw [List.append_nil]
          exact Absorbs.fits h
        rw [Meaning.input, if_pos hfits, List.append_nil]
        exact h
    | digested msg => exact h
    | corrupted => exact h
  · have hinput : s.input bytes =
        if s.computed || s.corrupted then { s with corrupted := true }
        else inputLoop bytes s := if_neg hnone
    cases m with
    | absorbing msg =>
        have habsorbs : s.Absorbs msg := h
        have hclear : ¬ (s.computed || s.corrupted) = true := by
          rw [habsorbs.computed, habsorbs.corrupted]
          decide
        rw [hinput, if_neg hclear, Meaning.input]
        rcases habsorbs.inputLoop bytes with ⟨hfits, hloop⟩ | ⟨hlong, hloop⟩
        · rw [if_pos hfits]
          exact hloop
        · rw [if_neg hlong]
          exact hloop
    | digested msg =>
        have hcomputed : (s.computed || s.corrupted) = true := by
          rw [h.2.1, Bool.true_or]
        rw [hinput, if_pos hcomputed, Meaning.input, if_neg hnone]
        rfl
    | corrupted =>
        have hcorrupted : (s.computed || s.corrupted) = true := by
          rw [show s.corrupted = true from h, Bool.or_true]
        rw [hinput, if_pos hcorrupted, Meaning.input]
        rfl

theorem result_represents {s : Sha1} {m : Meaning} (h : s.Represents m) :
    s.result.1 = m.result.1 ∧ s.result.2.Represents m.result.2 := by
  cases m with
  | absorbing msg =>
      have habsorbs : s.Absorbs msg := h
      have hresult : s.result =
          (some s.padMessage.h, { s.padMessage with computed := true }) := by
        simp only [result, habsorbs.corrupted, habsorbs.computed, Bool.false_eq_true,
          if_false]
      have hcorrupted := (padMessage_corrupted s).trans habsorbs.corrupted
      have hdigest := habsorbs.padMessage_h
      rw [hresult]
      generalize s.padMessage = s' at hcorrupted hdigest
      exact ⟨congrArg some hdigest, hdigest, rfl, hcorrupted⟩
  | digested msg =>
      obtain ⟨hh, hcomputed, hcorrupted⟩ := h
      have hresult : s.result = (some s.h, s) := by
        simp only [result, hcorrupted, hcomputed, Bool.false_eq_true, if_false, if_true]
      rw [hresult, hh]
      exact ⟨rfl, hh, hcomputed, hcorrupted⟩
  | corrupted =>
      have hresult : s.result = (none, s) := if_pos h
      rw [hresult]
      exact ⟨rfl, h⟩

theorem Represents.results {s : Sha1} {m : Meaning} (h : s.Represents m)
    (calls : List Call) : Sha1.results s calls = m.results calls := by
  induction calls generalizing s m with
  | nil => cases m <;> rfl
  | cons call calls ih =>
      cases call with
      | reset =>
          rw [Sha1.results, Meaning.results]
          · exact ih (reset_represents s)
          · intro heq
            cases heq
      | input bytes =>
          rw [Sha1.results, Meaning.results]
          · exact ih (input_represents h bytes)
          · intro heq
            cases heq
      | result =>
          obtain ⟨hdigest, hafter⟩ := result_represents h
          rw [Sha1.results, Meaning.results, hdigest, ih hafter]

/-- Whatever is called, and whatever the memory held. -/
theorem results_eq (messageBlock : Vector UInt8 64) (calls : List Call) :
    results (init messageBlock) calls = (Meaning.absorbing []).results calls :=
  (reset_represents _).results calls

/-- The example of the standard. -/
example : (results (init (Vector.replicate 64 0))
    [.input [0x61], .input [0x62, 0x63], .result]).map (Option.map Words.toBytes) =
    [some [0xA9, 0x99, 0x3E, 0x36, 0x47, 0x06, 0x81, 0x6A, 0xBA, 0x3E, 0x25, 0x71,
      0x78, 0x50, 0xC2, 0x6C, 0x9C, 0xD0, 0xD8, 0x9D]] := by
  decide +kernel

end Sha1

end Jerry
