import Mathlib.Data.List.Rotate
import Mathlib.Tactic

/-!
# Ring buffers

A ring is a list `storage` of fixed length of which `size` elements, from index
`head` on and past the end continuing at the start, are in use.  `contents` reads
them off in order; copying out and in, in the usual two pieces, takes from its
front and adds to its back.
-/

namespace RingBuffer

variable {α : Type*}

def contents (storage : List α) (head size : Nat) : List α :=
  (storage.rotate head).take size

/-- The first `n` elements from `head`, copied out in at most two pieces. -/
def copyOut (storage : List α) (head n : Nat) : List α :=
  let first := min n (storage.length - head)
  (storage.drop head).take first ++ storage.take (n - first)

/-- `storage` with `data` copied over the elements from `offset` on. -/
def overwrite (storage : List α) (offset : Nat) (data : List α) : List α :=
  storage.take offset ++ data ++ storage.drop (offset + data.length)

/-- `data` copied in from `offset` on, in at most two pieces. -/
def copyIn (storage : List α) (offset : Nat) (data : List α) : List α :=
  let first := min data.length (storage.length - offset)
  overwrite (overwrite storage offset (data.take first)) 0 (data.drop first)

/-! ## Copying out -/

@[simp]
theorem contents_zero (storage : List α) (head : Nat) :
    contents storage head 0 = [] := by
  simp [contents]

theorem length_contents {storage : List α} (head : Nat) {size : Nat}
    (hsize : size ≤ storage.length) :
    (contents storage head size).length = size := by
  simp [contents, hsize]

theorem copyOut_eq_contents {storage : List α} {head n : Nat}
    (hhead : head < storage.length) (hn : n ≤ storage.length) :
    copyOut storage head n = contents storage head n := by
  rw [copyOut, contents, List.rotate_eq_drop_append_take hhead.le, List.take_append]
  rcases Nat.le_total n (storage.length - head) with hle | hle
  · simp [Nat.min_eq_left hle, Nat.sub_eq_zero_of_le hle]
  · have hdrop : (storage.drop head).take n = storage.drop head :=
      List.take_of_length_le (by simpa using hle)
    have hfirst : (storage.drop head).take (storage.length - head) = storage.drop head :=
      List.take_of_length_le (by simp)
    rw [Nat.min_eq_right hle, hdrop, hfirst, List.length_drop, List.take_take,
      Nat.min_eq_left (by omega)]

theorem contents_advance {storage : List α} {head size n : Nat}
    (hn : n ≤ size) (hsize : size ≤ storage.length) :
    contents storage ((head + n) % storage.length) (size - n) =
      (contents storage head size).drop n := by
  rw [contents, contents, List.rotate_mod, ← List.rotate_rotate,
    List.rotate_eq_drop_append_take (by simpa using hn.trans hsize), List.take_append,
    List.drop_take]
  have hzero : size - n - ((storage.rotate head).drop n).length = 0 := by
    rw [List.length_drop, List.length_rotate]
    omega
  rw [hzero, List.take_zero, List.append_nil]

theorem contents_eq_copyOut_append {storage : List α} {head size n : Nat}
    (hhead : head < storage.length) (hn : n ≤ size) (hsize : size ≤ storage.length) :
    contents storage head size =
      copyOut storage head n ++
        contents storage ((head + n) % storage.length) (size - n) := by
  rw [copyOut_eq_contents hhead (hn.trans hsize), contents_advance hn hsize]
  have htake : contents storage head n = (contents storage head size).take n := by
    rw [contents, contents, List.take_take, Nat.min_eq_left hn]
  rw [htake, List.take_append_drop]

theorem length_copyOut {storage : List α} {head n : Nat}
    (hhead : head < storage.length) (hn : n ≤ storage.length) :
    (copyOut storage head n).length = n := by
  rw [copyOut_eq_contents hhead hn, length_contents head hn]

/-! ## Copying in -/

theorem length_overwrite {storage data : List α} {offset : Nat}
    (hfit : offset + data.length ≤ storage.length) :
    (overwrite storage offset data).length = storage.length := by
  simp [overwrite]
  omega

theorem getElem?_overwrite {storage data : List α} {offset k : Nat}
    (hfit : offset + data.length ≤ storage.length) :
    (overwrite storage offset data)[k]? =
      if offset ≤ k ∧ k < offset + data.length then data[k - offset]? else storage[k]? := by
  have htake : (storage.take offset).length = offset := by simp; omega
  rw [overwrite, List.append_assoc]
  rcases Nat.lt_or_ge k offset with hk | hk
  · rw [List.getElem?_append_left (by omega), if_neg (by omega)]
    simp [hk]
  · rw [List.getElem?_append_right (by omega), htake]
    rcases Nat.lt_or_ge k (offset + data.length) with hlt | hge
    · rw [List.getElem?_append_left (by omega), if_pos ⟨hk, hlt⟩]
    · rw [List.getElem?_append_right (by omega), if_neg (by omega), List.getElem?_drop]
      congr 1
      omega

theorem length_copyIn {storage : List α} (data : List α) {offset : Nat}
    (hoffset : offset < storage.length) (hfit : data.length ≤ storage.length) :
    (copyIn storage offset data).length = storage.length := by
  have hfirst : (overwrite storage offset
      (data.take (min data.length (storage.length - offset)))).length = storage.length :=
    length_overwrite (by simp; omega)
  rw [copyIn, length_overwrite (by simp [hfirst]; omega), hfirst]

theorem getElem?_copyIn {storage data : List α} {offset k : Nat}
    (hoffset : offset < storage.length) (hfit : data.length ≤ storage.length)
    (hk : k < storage.length) :
    (copyIn storage offset data)[k]? =
      if offset ≤ k ∧ k < offset + data.length then data[k - offset]?
      else if k + storage.length < offset + data.length then
        data[k + storage.length - offset]?
      else storage[k]? := by
  have hlength : (overwrite storage offset
      (data.take (min data.length (storage.length - offset)))).length = storage.length :=
    length_overwrite (by simp; omega)
  rw [copyIn, getElem?_overwrite (by simp [hlength]; omega),
    getElem?_overwrite (by simp; omega)]
  simp only [List.length_drop, List.length_take, List.getElem?_drop, List.getElem?_take,
    Nat.zero_le, true_and, Nat.zero_add, Nat.sub_zero]
  rcases Nat.le_total data.length (storage.length - offset) with hle | hle
  · rw [Nat.min_eq_left hle]
    by_cases hin : offset ≤ k ∧ k < offset + data.length
    · rw [if_neg (by omega), if_pos (by omega), if_pos (by omega), if_pos hin]
    · rw [if_neg (by omega), if_neg (by omega), if_neg hin, if_neg (by omega)]
  · rw [Nat.min_eq_right hle]
    by_cases hin : offset ≤ k ∧ k < offset + data.length
    · rw [if_neg (by omega), if_pos (by omega), if_pos (by omega), if_pos hin]
    · by_cases hwrap : k + storage.length < offset + data.length
      · rw [if_pos (by omega), if_neg hin, if_pos hwrap]
        congr 1
        omega
      · rw [if_neg (by omega), if_neg (by omega), if_neg hin, if_neg hwrap]

theorem mod_once {k n : Nat} (h : k < 2 * n) : k % n = if k < n then k else k - n := by
  split
  · exact Nat.mod_eq_of_lt ‹_›
  · rw [Nat.mod_eq_sub_mod (by omega), Nat.mod_eq_of_lt (by omega)]

theorem getElem?_contents {storage : List α} {head size k : Nat}
    (hsize : size ≤ storage.length) (hk : k < size) :
    (contents storage head size)[k]? = storage[(k + head) % storage.length]? := by
  rw [contents, List.getElem?_take, if_pos hk, List.getElem?_rotate (by omega)]

/-- Copying in behind the elements in use adds to their back. -/
theorem contents_copyIn {storage data : List α} {head size : Nat}
    (hhead : head < storage.length) (hfit : size + data.length ≤ storage.length) :
    contents (copyIn storage ((head + size) % storage.length) data) head
        (size + data.length) =
      contents storage head size ++ data := by
  have hoffset : (head + size) % storage.length < storage.length :=
    Nat.mod_lt _ (by omega)
  have hlength := length_copyIn data hoffset (by omega)
  have hcontents := length_contents head (show size ≤ storage.length by omega)
  apply List.ext_getElem?
  intro k
  rcases Nat.lt_or_ge k (size + data.length) with hk | hk
  · rw [getElem?_contents (by omega) hk, hlength,
      getElem?_copyIn hoffset (by omega) (Nat.mod_lt _ (by omega)),
      mod_once (k := head + size) (by omega), mod_once (k := k + head) (by omega)]
    rcases Nat.lt_or_ge k size with hin | hout
    · -- an element in use lies in neither piece
      rw [List.getElem?_append_left (by omega), getElem?_contents (by omega) hin,
        mod_once (k := k + head) (by omega)]
      rw [if_neg (by split_ifs <;> omega), if_neg (by split_ifs <;> omega)]
    · rw [List.getElem?_append_right (by omega), hcontents]
      split_ifs <;> first | omega | (congr 1; omega)
  · rw [List.getElem?_eq_none, List.getElem?_eq_none]
    · simp [hcontents, hk]
    · rw [length_contents _ (by omega)]
      exact hk

end RingBuffer
