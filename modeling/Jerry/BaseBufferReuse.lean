/-
What the vector of a `BaseBuffer` holds where its data has been read: the bytes
of an `Append` whose front is changed in place and dropped piece by piece.
-/
import Jerry.BaseBuffer

namespace Jerry

open Window

namespace BaseBuffer

variable {b : BaseBuffer}

/-- Nothing is readable. -/
structure Empty (b : BaseBuffer) : Prop where
  valid : b.Valid
  view : b.toStringView = []

theorem Empty.readIdx_eq (hb : b.Empty) : b.readIdx = b.writeIdx := by
  have hlength := toStringView_length hb.valid
  rw [hb.view, readableBytes] at hlength
  exact Nat.le_antisymm hb.valid.read_le_write
    (Nat.le_of_sub_eq_zero hlength.symm)

theorem dropAllBytes_empty (b : BaseBuffer) : b.dropAllBytes.Empty :=
  ⟨dropAllBytes_valid b, dropAllBytes_toStringView b⟩

theorem dropBytes_of_le {n : Nat} (hn : b.readableBytes ≤ n) :
    b.dropBytes n = b.dropAllBytes :=
  if_pos hn

theorem dropBytes_of_lt {n : Nat} (hn : n < b.readableBytes) :
    b.dropBytes n = { b with readIdx := b.readIdx + n } :=
  if_neg (Nat.not_le.mpr hn)

/-- Dropping in two steps is dropping in one. -/
theorem dropBytes_dropBytes (b : BaseBuffer) (m n : Nat) :
    (b.dropBytes m).dropBytes n = b.dropBytes (m + n) := by
  rcases Nat.lt_or_ge m b.readableBytes with hm | hm
  · rw [dropBytes_of_lt hm]
    rcases Nat.lt_or_ge (m + n) b.readableBytes with hsum | hsum
    · rw [dropBytes_of_lt hsum, dropBytes_of_lt, Nat.add_assoc]
      rw [readableBytes] at hsum ⊢
      simp only
      omega
    · rw [dropBytes_of_le hsum, dropBytes_of_le]
      · rfl
      · rw [readableBytes] at hsum ⊢
        simp only
        omega
  · have hnone : b.dropAllBytes.readableBytes ≤ n := Nat.zero_le n
    rw [dropBytes_of_le hm, dropBytes_of_le hnone,
      dropBytes_of_le (Nat.le_add_right_of_le hm)]
    rfl

/-- Dropping does not look at the bytes. -/
theorem dropBytes_buffer (b : BaseBuffer) (l : List UInt8) (n : Nat) :
    ({ b with buffer := l } : BaseBuffer).dropBytes n =
      { b.dropBytes n with buffer := l } := by
  rcases Nat.lt_or_ge n b.readableBytes with hn | hn
  · rw [dropBytes_of_lt hn]
    exact dropBytes_of_lt hn
  · rw [dropBytes_of_le hn]
    exact dropBytes_of_le hn

theorem append_eq {data : List UInt8} (hdata : data ≠ []) :
    b.append data =
      { b.ensureWritableSpace data.length with
        buffer := overwrite (b.ensureWritableSpace data.length).buffer
          (b.ensureWritableSpace data.length).writeIdx data
        writeIdx :=
          (b.ensureWritableSpace data.length).writeIdx + data.length } := by
  rw [append, if_neg]
  intro hzero
  exact hdata (List.length_eq_zero_iff.mp hzero)

/-- An overwrite inside a block that was written before. -/
theorem overwrite_overwrite {α : Type} {l xs : List α} {k : Nat}
    (u data ys : List α) (hfits : k + (xs ++ (u ++ ys)).length ≤ l.length)
    (hlength : data.length = u.length) :
    overwrite (overwrite l k (xs ++ (u ++ ys))) (k + xs.length) data =
      overwrite l k (xs ++ (data ++ ys)) := by
  have hfront : (l.take k).length = k := by
    rw [List.length_take, Nat.min_eq_left (by omega)]
  have hlist : overwrite l k (xs ++ (u ++ ys)) =
      (l.take k ++ xs) ++ (u ++
        (ys ++ l.drop (k + (xs ++ (u ++ ys)).length))) := by
    rw [overwrite_eq hfits]
    simp only [List.append_assoc]
  have hpos : k + xs.length = (l.take k ++ xs).length := by
    rw [List.length_append, hfront]
  have hsame : (xs ++ (u ++ ys)).length = (xs ++ (data ++ ys)).length := by
    simp only [List.length_append, hlength]
  have hinside : (l.take k ++ xs).length + data.length ≤
      ((l.take k ++ xs) ++ (u ++
        (ys ++ l.drop (k + (xs ++ (u ++ ys)).length)))).length := by
    simp only [List.length_append]
    omega
  rw [hlist, hpos, overwrite_eq hinside, overwrite_eq (hsame ▸ hfits),
    List.take_left, ← List.drop_drop, List.drop_left, hlength, List.drop_left, hsame]
  simp only [List.append_assoc]

/-- Changing appended bytes where they lie is appending the changed bytes. -/
theorem append_overwrite (hb : b.Empty) (xs u data ys : List UInt8)
    (hlength : data.length = u.length) :
    ({ b.append (xs ++ (u ++ ys)) with
        buffer := overwrite (b.append (xs ++ (u ++ ys))).buffer
          ((b.append (xs ++ (u ++ ys))).readIdx + xs.length) data } :
      BaseBuffer) = b.append (xs ++ (data ++ ys)) := by
  have hsame : (xs ++ (data ++ ys)).length = (xs ++ (u ++ ys)).length := by
    simp only [List.length_append, hlength]
  by_cases hnil : xs ++ (u ++ ys) = []
  · have hdata : xs ++ (data ++ ys) = [] := by
      rw [← List.length_eq_zero_iff, hsame, hnil]
      rfl
    have hparts : data = [] := by
      simp only [List.append_eq_nil_iff] at hdata
      exact hdata.2.1
    rw [hnil, hdata, hparts]
    simp [append, overwrite]
  · have hdata : xs ++ (data ++ ys) ≠ [] := by
      intro hzero
      rw [← List.length_eq_zero_iff, hsame, List.length_eq_zero_iff] at hzero
      exact hnil hzero
    rw [append_eq hnil, append_eq hdata, hsame]
    have hspace : (b.ensureWritableSpace (xs ++ (u ++ ys)).length).Empty :=
      ⟨ensureWritableSpace_valid hb.valid _,
        (ensureWritableSpace_toStringView hb.valid _).trans hb.view⟩
    have hroom := le_ensureWritableSpace_writableBytes hb.valid
      (xs ++ (u ++ ys)).length
    have hwrite := hspace.valid.write_le_size
    rw [writableBytes] at hroom
    simp only [hspace.readIdx_eq]
    rw [overwrite_overwrite u data ys (by omega) hlength]

/-- The buffer after `done ++ rest` was appended to it and `done` dropped. -/
def consumed (b : BaseBuffer) (done rest : List UInt8) : BaseBuffer :=
  (b.append (done ++ rest)).dropBytes done.length

section Consumed

variable {done rest : List UInt8}

theorem consumed_valid (hb : b.Empty) (done rest : List UInt8) :
    (b.consumed done rest).Valid :=
  dropBytes_valid (append_valid hb.valid _) _

theorem consumed_toStringView (hb : b.Empty) (done rest : List UInt8) :
    (b.consumed done rest).toStringView = rest := by
  rw [consumed, dropBytes_toStringView (append_valid hb.valid _),
    append_toStringView hb.valid, hb.view, List.nil_append, List.drop_left]

theorem consumed_readableBytes (hb : b.Empty) (done rest : List UInt8) :
    (b.consumed done rest).readableBytes = rest.length := by
  rw [← toStringView_length (consumed_valid hb done rest),
    consumed_toStringView hb]

theorem consumed_memory (hb : b.Empty) (done rest : List UInt8) :
    (b.consumed done rest).memory =
      rest ++ (b.consumed done rest).deadBytes := by
  rw [memory_eq (consumed_valid hb done rest), consumed_toStringView hb]

theorem consumed_drop (b : BaseBuffer) (done u rest : List UInt8) :
    (b.consumed done (u ++ rest)).dropBytes u.length =
      b.consumed (done ++ u) rest := by
  rw [consumed, dropBytes_dropBytes, consumed, List.append_assoc,
    List.length_append]

theorem consumed_start (hb : b.Empty) (hrest : rest ≠ []) :
    b.consumed [] rest = b.append rest := by
  have hreadable : 0 < (b.append rest).readableBytes := by
    rw [← toStringView_length (append_valid hb.valid _),
      append_toStringView hb.valid, hb.view, List.nil_append]
    exact List.length_pos_iff.mpr hrest
  exact dropBytes_of_lt hreadable

/-- Nothing is left of it, and the vector is used from the front again. -/
theorem consumed_nil (hb : b.Empty) (done : List UInt8) :
    b.consumed done [] = (b.append done).dropAllBytes := by
  have hreadable : (b.append done).readableBytes = done.length := by
    rw [← toStringView_length (append_valid hb.valid _),
      append_toStringView hb.valid, hb.view, List.nil_append]
  rw [consumed, List.append_nil, dropBytes_of_le (Nat.le_of_eq hreadable)]

/-- The front of the rest is replaced by as many bytes and dropped. -/
theorem consumed_overwrite (hb : b.Empty) {u data : List UInt8}
    (hlength : data.length = u.length) :
    ({ b.consumed done (u ++ rest) with
        buffer := overwrite (b.consumed done (u ++ rest)).buffer
          (b.consumed done (u ++ rest)).readIdx data } :
      BaseBuffer).dropBytes u.length = b.consumed (done ++ data) rest := by
  rcases u with _ | ⟨c, u⟩
  · obtain rfl := List.length_eq_zero_iff.mp hlength
    rw [List.append_nil, List.nil_append]
    simp only [overwrite, List.take_nil, List.append_nil, List.length_nil,
      Nat.add_zero, List.take_append_drop]
    have hzero := dropBytes_dropBytes (b.append (done ++ rest)) done.length 0
    rw [Nat.add_zero] at hzero
    exact hzero
  · have hmore : done.length <
        (b.append (done ++ (c :: u ++ rest))).readableBytes := by
      rw [← toStringView_length (append_valid hb.valid _),
        append_toStringView hb.valid, hb.view, List.nil_append]
      simp only [List.length_append, List.length_cons]
      omega
    have hread : (b.consumed done (c :: u ++ rest)).readIdx =
        (b.append (done ++ (c :: u ++ rest))).readIdx + done.length := by
      rw [consumed, dropBytes_of_lt hmore]
    have hbuffer : (b.consumed done (c :: u ++ rest)).buffer =
        (b.append (done ++ (c :: u ++ rest))).buffer := by
      rw [consumed, dropBytes_of_lt hmore]
    rw [hread, hbuffer, consumed, ← dropBytes_buffer,
      append_overwrite hb done (c :: u) data rest hlength,
      dropBytes_dropBytes, consumed, List.append_assoc, List.length_append,
      hlength]

end Consumed

/-- The buffer after each of these blocks was appended, read and dropped. -/
def leftover (b : BaseBuffer) (blocks : List (List UInt8)) : BaseBuffer :=
  blocks.foldl (fun b block => (b.append block).dropAllBytes) b

end BaseBuffer

end Jerry
