/-
Base64 text: the message as one number, written in base 64.  The code, which takes
three bytes at a time, writes and reads exactly that, and what it writes it reads
back.
-/
import Jerry.Base64
import Jerry.Radix

namespace Jerry

open CString Radix

namespace Base64

/-- Characters that `n` bytes take, without those that fill up. -/
def digitCount (n : Nat) : Nat :=
  (4 * n + 2) / 3

/-- Characters that fill up. -/
def fillCount (n : Nat) : Nat :=
  (3 - n % 3) % 3

/-- Digits, most significant first. -/
def number (bs : List UInt8) : Nat :=
  value 256 (bs.map UInt8.toNat)

def text (bs : List UInt8) : List UInt8 :=
  (digits 64 (digitCount bs.length) (number bs * 4 ^ fillCount bs.length)).map
      (fun d => char (UInt8.ofNat d)) ++
    List.replicate (fillCount bs.length) 61

/-- The digits before the first other character. -/
def digitsOf (text : List UInt8) : List Nat :=
  (text.takeWhile isBase64).map fun c => (find c).toNat

/-- The whole bytes in digits of six bits. -/
def wholeBytes (ds : List Nat) : List UInt8 :=
  (digits 256 (6 * ds.length / 8) (value 64 ds / 2 ^ (6 * ds.length % 8))).map
    UInt8.ofNat

section Masks

theorem byte_cases {P : UInt8 → Prop} (h : ∀ n : Fin 256, P (UInt8.ofNat n.val))
    (a : UInt8) : P a := by
  have ha := h ⟨a.toNat, a.toNat_lt⟩
  rwa [UInt8.ofNat_toNat] at ha

theorem masks (a : UInt8) :
    ((a &&& 0xfc) >>> 2).toNat = a.toNat / 4 ∧
      ((a &&& 0x03) <<< 4).toNat = a.toNat % 4 * 16 ∧
      ((a &&& 0xf0) >>> 4).toNat = a.toNat / 16 ∧
      ((a &&& 0x0f) <<< 2).toNat = a.toNat % 16 * 4 ∧
      ((a &&& 0xc0) >>> 6).toNat = a.toNat / 64 ∧
      (a &&& 0x3f).toNat = a.toNat % 64 := by
  revert a
  apply byte_cases
  decide +kernel

theorem masks_digit (a : UInt8) :
    (a <<< 2).toNat = a.toNat % 64 * 4 ∧
      ((a &&& 0x30) >>> 4).toNat = a.toNat / 16 % 4 ∧
      ((a &&& 0x0f) <<< 4).toNat = a.toNat % 16 * 16 ∧
      ((a &&& 0x3c) >>> 2).toNat = a.toNat / 4 % 16 ∧
      ((a &&& 0x03) <<< 6).toNat = a.toNat % 4 * 64 := by
  revert a
  apply byte_cases
  decide +kernel

/-- A digit and its character. -/
theorem find_char {d : Nat} (hd : d < 64) :
    isBase64 (char (UInt8.ofNat d)) = true ∧
      (find (char (UInt8.ofNat d))).toNat = d := by
  have hall : ∀ d : Fin 64, isBase64 (char (UInt8.ofNat d.val)) = true ∧
      (find (char (UInt8.ofNat d.val))).toNat = d.val := by
    decide +kernel
  exact hall ⟨d, hd⟩

theorem find_lt {c : UInt8} (h : isBase64 c = true) : (find c).toNat < 64 := by
  revert c
  apply byte_cases
  decide +kernel

end Masks

section Groups

variable (a b c d : UInt8)

theorem toFour_map : (toFour a b c).map UInt8.toNat =
    [a.toNat / 4, a.toNat % 4 * 16 + b.toNat / 16, b.toNat % 16 * 4 + c.toNat / 64,
      c.toNat % 64] := by
  obtain ⟨ha, ha', -⟩ := masks a
  obtain ⟨-, -, hb, hb', -⟩ := masks b
  obtain ⟨-, -, -, -, hc, hc'⟩ := masks c
  have hb₁ := b.toNat_lt
  have hc₁ := c.toNat_lt
  simp only [toFour, List.map_cons, List.map_nil, UInt8.toNat_add, ha, ha', hb,
    hb', hc, hc']
  rw [Nat.mod_eq_of_lt (by omega : _ * 16 + _ < 256),
    Nat.mod_eq_of_lt (by omega : _ * 4 + _ < 256)]

variable {a b} (ha : a.toNat < 64) (hb : b.toNat < 64)
include ha hb

/-- The first two bytes do not depend on a last digit. -/
theorem toThree_take : ((toThree a b c d).take 2).map UInt8.toNat =
    [a.toNat * 4 + b.toNat / 16, b.toNat % 16 * 16 + c.toNat / 4 % 16] := by
  obtain ⟨ha', -⟩ := masks_digit a
  obtain ⟨-, hb', hb'', -⟩ := masks_digit b
  obtain ⟨-, -, -, hc', -⟩ := masks_digit c
  simp only [toThree, List.take, List.map_cons, List.map_nil, UInt8.toNat_add, ha',
    hb', hb'', hc']
  simp (disch := omega) only [Nat.mod_eq_of_lt]

variable {d}

theorem toThree_map (hd : d.toNat < 64) : (toThree a b c d).map UInt8.toNat =
    [a.toNat * 4 + b.toNat / 16, b.toNat % 16 * 16 + c.toNat / 4 % 16,
      c.toNat % 4 * 64 + d.toNat] := by
  have htake := toThree_take c d ha hb
  obtain ⟨-, -, -, -, hc⟩ := masks_digit c
  have hlast : (((c &&& 0x03) <<< 6) + d).toNat = c.toNat % 4 * 64 + d.toNat := by
    rw [UInt8.toNat_add, hc]
    exact Nat.mod_eq_of_lt (by omega)
  simp only [toThree, List.take, List.map_cons, List.map_nil, List.cons.injEq,
    and_true] at htake ⊢
  exact ⟨htake.1, htake.2, hlast⟩

end Groups

section Encoding

theorem number_append (xs ys : List UInt8) :
    number (xs ++ ys) = number xs * 256 ^ ys.length + number ys := by
  rw [number, List.map_append, value_append, List.length_map]
  rfl

theorem number_lt (bs : List UInt8) : number bs < 256 ^ bs.length := by
  have hdigits : ∀ d ∈ bs.map UInt8.toNat, d < 256 := by
    intro d hd
    obtain ⟨byte, -, rfl⟩ := List.mem_map.mp hd
    exact byte.toNat_lt
  have hlt := value_lt (by decide) hdigits
  rwa [List.length_map] at hlt

/-- The bits of the characters are those of the bytes and of what is filled in. -/
theorem digitCount_pow (n : Nat) :
    64 ^ digitCount n = 256 ^ n * 4 ^ fillCount n := by
  have hbits : 6 * digitCount n = 8 * n + 2 * fillCount n := by
    unfold digitCount fillCount
    omega
  rw [show 64 = 2 ^ 6 from rfl, show 256 = 2 ^ 8 from rfl, show 4 = 2 ^ 2 from rfl,
    ← Nat.pow_mul, ← Nat.pow_mul, ← Nat.pow_mul, ← Nat.pow_add, hbits]

theorem number_fill_lt (bs : List UInt8) :
    number bs * 4 ^ fillCount bs.length < 64 ^ digitCount bs.length := by
  rw [digitCount_pow]
  exact Nat.mul_lt_mul_of_pos_right (number_lt bs) (Nat.pow_pos (by decide))

theorem map_char {four : List UInt8} {ds : List Nat}
    (h : four.map UInt8.toNat = ds) :
    four.map char = ds.map fun d => char (UInt8.ofNat d) := by
  rw [← h, List.map_map]
  apply List.map_congr_left
  intro digit _
  rw [Function.comp_apply, UInt8.ofNat_toNat]

theorem toFour_char (a b c : UInt8) : (toFour a b c).map char =
    (digits 64 4 (number [a, b, c])).map fun d => char (UInt8.ofNat d) := by
  have ha := a.toNat_lt
  have hb := b.toNat_lt
  have hc := c.toNat_lt
  have hnumber : number [a, b, c] = (a.toNat * 256 + b.toNat) * 256 + c.toNat := by
    simp [number, value, Nat.ofDigits]
    omega
  apply map_char
  rw [toFour_map, hnumber]
  simp only [digits, List.nil_append, List.cons_append, List.cons.injEq, and_true]
  omega

theorem text_three (a b c : UInt8) (bs : List UInt8) :
    text (a :: b :: c :: bs) = (toFour a b c).map char ++ text bs := by
  have hlength : (a :: b :: c :: bs).length = bs.length + 3 := rfl
  have hcount : digitCount (bs.length + 3) = 4 + digitCount bs.length := by
    unfold digitCount
    omega
  have hfill : fillCount (bs.length + 3) = fillCount bs.length := by
    unfold fillCount
    omega
  have hnumber : number (a :: b :: c :: bs) * 4 ^ fillCount bs.length =
      number [a, b, c] * 64 ^ digitCount bs.length +
        number bs * 4 ^ fillCount bs.length := by
    have happend := number_append [a, b, c] bs
    rw [List.cons_append, List.cons_append, List.cons_append, List.nil_append] at happend
    rw [happend, Nat.add_mul, Nat.mul_assoc, ← digitCount_pow]
  rw [text, hlength, hcount, hfill, hnumber, digits_add (number_fill_lt bs),
    List.map_append, List.append_assoc, ← toFour_char]
  rfl

theorem encodeLoop_ret (bytes chars ret : List UInt8) :
    encodeLoop bytes chars ret =
      ((encodeLoop bytes chars []).1, ret ++ (encodeLoop bytes chars []).2) := by
  induction bytes generalizing chars ret with
  | nil => rw [encodeLoop, encodeLoop, List.append_nil]
  | cons byte bytes ih =>
      rw [encodeLoop, encodeLoop]
      split
      · rw [ih, ih [] ([] ++ _), List.nil_append, List.append_assoc]
      · exact ih _ _

theorem base64Encode_three (a b c : UInt8) (bs : List UInt8) :
    base64Encode (a :: b :: c :: bs) = (toFour a b c).map char ++ base64Encode bs := by
  have hloop : encodeLoop (a :: b :: c :: bs) [] [] =
      encodeLoop bs [] ((toFour a b c).map char) := rfl
  rw [base64Encode, hloop, encodeLoop_ret, base64Encode]
  simp only
  split
  · rfl
  · simp only [List.append_assoc]

/-- One byte is left. -/
theorem base64Encode_one (a : UInt8) : base64Encode [a] = text [a] := by
  have ha := a.toNat_lt
  have htwo : ((toFour a 0 0).take 2).map char =
      (digits 64 2 (a.toNat * 16)).map fun d => char (UInt8.ofNat d) := by
    apply map_char
    rw [List.map_take, toFour_map]
    simp only [digits, List.nil_append, List.cons_append, List.take, List.cons.injEq,
      and_true, UInt8.toNat_zero]
    omega
  have hnumber : number [a] = a.toNat := value_singleton _
  have hencode : base64Encode [a] = ((toFour a 0 0).take 2).map char ++ [61, 61] := rfl
  have hlength : [a].length = 1 := rfl
  have hcount : digitCount 1 = 2 := rfl
  have hfill : fillCount 1 = 2 := rfl
  rw [hencode, htwo, text, hnumber, hlength, hcount, hfill]
  rfl

/-- Two bytes are left. -/
theorem base64Encode_two (a b : UInt8) : base64Encode [a, b] = text [a, b] := by
  have ha := a.toNat_lt
  have hb := b.toNat_lt
  have hthree : ((toFour a b 0).take 3).map char =
      (digits 64 3 ((a.toNat * 256 + b.toNat) * 4)).map
        fun d => char (UInt8.ofNat d) := by
    apply map_char
    rw [List.map_take, toFour_map]
    simp only [digits, List.nil_append, List.cons_append, List.take, List.cons.injEq,
      and_true, UInt8.toNat_zero]
    omega
  have hnumber : number [a, b] = a.toNat * 256 + b.toNat := by
    simp [number, value, Nat.ofDigits]
    omega
  have hencode : base64Encode [a, b] = ((toFour a b 0).take 3).map char ++ [61] := rfl
  have hlength : [a, b].length = 2 := rfl
  have hcount : digitCount 2 = 3 := rfl
  have hfill : fillCount 2 = 1 := rfl
  rw [hencode, hthree, text, hnumber, hlength, hcount, hfill]
  rfl

/-- The code writes the text. -/
theorem base64Encode_eq : ∀ bs, base64Encode bs = text bs
  | [] => rfl
  | [a] => base64Encode_one a
  | [a, b] => base64Encode_two a b
  | a :: b :: c :: bs => by
      rw [base64Encode_three, text_three, base64Encode_eq bs]

end Encoding

section Decoding

theorem decodeLoop_takeWhile (text chars ret : List UInt8) :
    decodeLoop text chars ret = decodeLoop (text.takeWhile isBase64) chars ret := by
  induction text generalizing chars ret with
  | nil => rfl
  | cons c text ih =>
      by_cases hc : isBase64 c = true
      · rw [List.takeWhile_cons_of_pos hc, decodeLoop, decodeLoop]
        simp only [ih]
      · rw [List.takeWhile_cons_of_neg hc, decodeLoop, decodeLoop]
        simp [hc]

theorem decodeLoop_ret (text chars ret : List UInt8) :
    decodeLoop text chars ret =
      ((decodeLoop text chars []).1, ret ++ (decodeLoop text chars []).2) := by
  induction text generalizing chars ret with
  | nil => rw [decodeLoop, decodeLoop, List.append_nil]
  | cons c text ih =>
      rw [decodeLoop, decodeLoop]
      split
      · split
        · rw [ih, ih [] ([] ++ _), List.nil_append, List.append_assoc]
        · exact ih _ _
      · rw [List.append_nil]

variable {x y z w : UInt8} {xs : List UInt8}

/-- A character is put into the array. -/
theorem decodeLoop_cons (hx : isBase64 x = true) (text chars ret : List UInt8) :
    decodeLoop (x :: text) chars ret =
      match chars ++ [x] with
      | [x, y, z, w] =>
          decodeLoop text [] (ret ++ toThree (find x) (find y) (find z) (find w))
      | chars => decodeLoop text chars ret := by
  have hfill : x ≠ 61 := by
    rintro rfl
    revert hx
    decide
  rw [decodeLoop]
  exact if_pos (by simp [hfill, hx])

theorem base64Decode_four (hx : isBase64 x = true) (hy : isBase64 y = true)
    (hz : isBase64 z = true) (hw : isBase64 w = true) (xs : List UInt8) :
    base64Decode (x :: y :: z :: w :: xs) =
      toThree (find x) (find y) (find z) (find w) ++ base64Decode xs := by
  have hloop : decodeLoop (x :: y :: z :: w :: xs) [] [] =
      decodeLoop xs [] (toThree (find x) (find y) (find z) (find w)) := by
    rw [decodeLoop_cons hx, List.nil_append]
    simp only
    rw [decodeLoop_cons hy, List.singleton_append]
    simp only
    rw [decodeLoop_cons hz, List.cons_append, List.singleton_append]
    simp only
    rw [decodeLoop_cons hw]
    rfl
  rw [base64Decode, hloop, decodeLoop_ret, base64Decode]
  simp only
  split
  · rfl
  · simp only [List.append_assoc]

/-- The high digits are bytes of their own. -/
theorem wholeBytes_four {a b c d : Nat} {ds : List Nat} (h : ∀ d ∈ ds, d < 64) :
    wholeBytes (a :: b :: c :: d :: ds) =
      (digits 256 3 (value 64 [a, b, c, d])).map UInt8.ofNat ++ wholeBytes ds := by
  have hlt := value_lt (b := 64) (by decide) h
  have hbits : 6 * ds.length / 8 * 8 + 6 * ds.length % 8 = 6 * ds.length :=
    Nat.div_add_mod' _ _
  have hcount : 6 * (ds.length + 4) / 8 = 3 + 6 * ds.length / 8 := by
    omega
  have hdrop : 6 * (ds.length + 4) % 8 = 6 * ds.length % 8 := by
    omega
  have hpow : 64 ^ ds.length =
      256 ^ (6 * ds.length / 8) * 2 ^ (6 * ds.length % 8) := by
    rw [show 64 = 2 ^ 6 from rfl, show 256 = 2 ^ 8 from rfl, ← Nat.pow_mul,
      ← Nat.pow_mul, ← Nat.pow_add, Nat.mul_comm 8, hbits]
  have hvalue : value 64 (a :: b :: c :: d :: ds) =
      value 64 [a, b, c, d] * 64 ^ ds.length + value 64 ds :=
    value_append [a, b, c, d] ds
  have hwhole : value 64 (a :: b :: c :: d :: ds) / 2 ^ (6 * ds.length % 8) =
      value 64 [a, b, c, d] * 256 ^ (6 * ds.length / 8) +
        value 64 ds / 2 ^ (6 * ds.length % 8) := by
    rw [hvalue, hpow, ← Nat.mul_assoc, Nat.mul_comm (_ * _) (2 ^ _),
      Nat.mul_add_div (Nat.pow_pos (by decide))]
  have hrest : value 64 ds / 2 ^ (6 * ds.length % 8) < 256 ^ (6 * ds.length / 8) :=
    Nat.div_lt_of_lt_mul (by rwa [Nat.mul_comm, ← hpow])
  rw [wholeBytes, List.length_cons, List.length_cons, List.length_cons,
    List.length_cons]
  rw [hcount, hdrop, hwhole, digits_add hrest, List.map_append]
  rfl

theorem map_ofNat {three : List UInt8} {ds : List Nat}
    (h : three.map UInt8.toNat = ds) : three = ds.map UInt8.ofNat := by
  rw [← h, List.map_map]
  calc three = three.map id := (List.map_id three).symm
    _ = three.map (UInt8.ofNat ∘ UInt8.toNat) :=
        List.map_congr_left fun byte _ => (UInt8.ofNat_toNat).symm

theorem value_four (a b c d : Nat) :
    value 64 [a, b, c, d] = ((a * 64 + b) * 64 + c) * 64 + d := by
  simp [value, Nat.ofDigits]
  omega

theorem toThree_eq {a b c d : UInt8} (ha : a.toNat < 64) (hb : b.toNat < 64)
    (hc : c.toNat < 64) (hd : d.toNat < 64) : toThree a b c d =
    (digits 256 3 (value 64 [a.toNat, b.toNat, c.toNat, d.toNat])).map UInt8.ofNat := by
  apply map_ofNat
  rw [toThree_map c ha hb hd, value_four]
  simp only [digits, List.nil_append, List.cons_append, List.cons.injEq, and_true]
  omega

theorem wholeBytes_eq {ds : List Nat} (count drop : Nat)
    (hbits : 6 * ds.length = 8 * count + drop) (hdrop : drop < 8) :
    wholeBytes ds = (digits 256 count (value 64 ds / 2 ^ drop)).map UInt8.ofNat := by
  have hcount : 6 * ds.length / 8 = count := by
    omega
  have hmod : 6 * ds.length % 8 = drop := by
    omega
  rw [wholeBytes, hcount, hmod]

/-- One character is left, which is not a byte. -/
theorem base64Decode_one (hx : isBase64 x = true) :
    base64Decode [x] = wholeBytes [(find x).toNat] := by
  have hdecode : base64Decode [x] = [] := by
    rw [base64Decode, decodeLoop_cons hx]
    rfl
  rw [hdecode, wholeBytes_eq 0 6 rfl (by decide)]
  rfl

/-- Two characters are left. -/
theorem base64Decode_two (hx : isBase64 x = true) (hy : isBase64 y = true) :
    base64Decode [x, y] = wholeBytes [(find x).toNat, (find y).toNat] := by
  have hx' := find_lt hx
  have hy' := find_lt hy
  have hdecode : base64Decode [x, y] =
      (toThree (find x) (find y) (find 0) (find 0)).take 1 := by
    rw [base64Decode, decodeLoop_cons hx]
    simp only [List.nil_append]
    rw [decodeLoop_cons hy]
    rfl
  have htake : ((toThree (find x) (find y) (find 0) (find 0)).take 1).map
      UInt8.toNat = [(find x).toNat * 4 + (find y).toNat / 16] :=
    congrArg (List.take 1) (toThree_take (find 0) (find 0) hx' hy')
  have hvalue : value 64 [(find x).toNat, (find y).toNat] =
      (find x).toNat * 64 + (find y).toNat := by
    simp [value, Nat.ofDigits]
    omega
  rw [hdecode, wholeBytes_eq 1 4 rfl (by decide), hvalue]
  apply map_ofNat
  rw [htake]
  simp only [digits, List.nil_append, List.cons.injEq, and_true]
  omega

/-- Three characters are left. -/
theorem base64Decode_three (hx : isBase64 x = true) (hy : isBase64 y = true)
    (hz : isBase64 z = true) : base64Decode [x, y, z] =
      wholeBytes [(find x).toNat, (find y).toNat, (find z).toNat] := by
  have hx' := find_lt hx
  have hy' := find_lt hy
  have hz' := find_lt hz
  have hdecode : base64Decode [x, y, z] =
      (toThree (find x) (find y) (find z) (find 0)).take 2 := by
    rw [base64Decode, decodeLoop_cons hx]
    simp only [List.nil_append]
    rw [decodeLoop_cons hy]
    simp only [List.singleton_append]
    rw [decodeLoop_cons hz]
    rfl
  have hvalue : value 64 [(find x).toNat, (find y).toNat, (find z).toNat] =
      ((find x).toNat * 64 + (find y).toNat) * 64 + (find z).toNat := by
    simp [value, Nat.ofDigits]
    omega
  rw [hdecode, wholeBytes_eq 2 2 rfl (by decide), hvalue]
  apply map_ofNat
  rw [toThree_take (find z) (find 0) hx' hy']
  simp only [digits, List.nil_append, List.cons_append, List.cons.injEq, and_true]
  omega

/-- The code reads whole bytes. -/
theorem base64Decode_chars : ∀ xs : List UInt8, (∀ c ∈ xs, isBase64 c = true) →
    base64Decode xs = wholeBytes (xs.map fun c => (find c).toNat)
  | [], _ => rfl
  | [x], h => base64Decode_one (h x (by simp))
  | [x, y], h => base64Decode_two (h x (by simp)) (h y (by simp))
  | [x, y, z], h =>
      base64Decode_three (h x (by simp)) (h y (by simp)) (h z (by simp))
  | x :: y :: z :: w :: xs, h => by
      have hrest : ∀ c ∈ xs, isBase64 c = true := fun c hc => h c (by simp [hc])
      have hds : ∀ d ∈ xs.map fun c => (find c).toNat, d < 64 := by
        intro d hd
        obtain ⟨c, hc, rfl⟩ := List.mem_map.mp hd
        exact find_lt (hrest c hc)
      have hx := h x (by simp)
      have hy := h y (by simp)
      have hz := h z (by simp)
      have hw := h w (by simp)
      rw [base64Decode_four hx hy hz hw, base64Decode_chars xs hrest,
        toThree_eq (find_lt hx) (find_lt hy) (find_lt hz) (find_lt hw)]
      exact (wholeBytes_four hds).symm

/-- Of any text, what comes before the first other character is read. -/
theorem base64Decode_eq (text : List UInt8) :
    base64Decode text = wholeBytes (digitsOf text) := by
  have hloop := decodeLoop_takeWhile text [] []
  have hchars : ∀ c ∈ text.takeWhile isBase64, isBase64 c = true :=
    fun c hc => List.mem_takeWhile_imp hc
  rw [digitsOf, ← base64Decode_chars _ hchars, base64Decode, base64Decode, hloop]

/-- The digits of a text are there again. -/
theorem digitsOf_text (bs : List UInt8) : digitsOf (text bs) =
    digits 64 (digitCount bs.length) (number bs * 4 ^ fillCount bs.length) := by
  have hlt {d : Nat} (hd : d ∈ digits 64 (digitCount bs.length)
      (number bs * 4 ^ fillCount bs.length)) : d < 64 :=
    lt_of_mem_digits (by decide) hd
  have hwhile : (text bs).takeWhile isBase64 =
      (digits 64 (digitCount bs.length) (number bs * 4 ^ fillCount bs.length)).map
        fun d => char (UInt8.ofNat d) := by
    rw [text, List.takeWhile_append_of_pos]
    · cases fillCount bs.length with
      | zero => rw [List.replicate_zero, List.takeWhile_nil, List.append_nil]
      | succ n =>
          rw [List.replicate_succ, List.takeWhile_cons_of_neg (by decide),
            List.append_nil]
    · intro c hc
      obtain ⟨d, hd, rfl⟩ := List.mem_map.mp hc
      exact (find_char (hlt hd)).1
  rw [digitsOf, hwhile, List.map_map]
  calc _ = (digits 64 (digitCount bs.length) (number bs * 4 ^ fillCount bs.length)).map
        id := List.map_congr_left fun d hd => (find_char (hlt hd)).2
    _ = _ := List.map_id _

/-- What has been written is read back. -/
theorem wholeBytes_text (bs : List UInt8) : wholeBytes (digitsOf (text bs)) = bs := by
  have hbits : 6 * digitCount bs.length = 8 * bs.length + 2 * fillCount bs.length := by
    unfold digitCount fillCount
    omega
  have hpow : 2 ^ (2 * fillCount bs.length) = 4 ^ fillCount bs.length := by
    rw [Nat.pow_mul]
  rw [digitsOf_text, wholeBytes_eq bs.length
    (2 * fillCount bs.length) (by rw [digits_length, hbits])
    (by unfold fillCount; omega), value_digits (number_fill_lt bs), hpow,
    Nat.mul_div_cancel _ (Nat.pow_pos (by decide))]
  have hdigits : ∀ d ∈ bs.map UInt8.toNat, d < 256 := by
    intro d hd
    obtain ⟨byte, -, rfl⟩ := List.mem_map.mp hd
    exact byte.toNat_lt
  have hbytes := digits_value hdigits
  rw [List.length_map] at hbytes
  exact (map_ofNat hbytes.symm).symm

/-- The two functions: one writes the text, the other reads whole bytes from any
text, and so the one undoes the other. -/
theorem base64_spec : (∀ bs, base64Encode bs = text bs) ∧
    (∀ text, base64Decode text = wholeBytes (digitsOf text)) ∧
    ∀ bs, base64Decode (base64Encode bs) = bs := by
  refine ⟨base64Encode_eq, base64Decode_eq, fun bs => ?_⟩
  rw [base64Encode_eq, base64Decode_eq, wholeBytes_text]

end Decoding

end Base64

end Jerry
