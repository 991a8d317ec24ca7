import Mathlib.Tactic

/-!
# Characters out of bytes

`Unicode.cpp` and `UnicodeTables.cpp`.  A code point is a number, and the data a decoding
starts on is its first byte and the bytes after that one, so it is never empty.
-/

namespace Haisos.Unicode

def kMaxCodePoint : Nat := 0x10FFFF

inductive DecodeStatus
  | ok
  | invalid
  | incomplete
  deriving DecidableEq, Repr

structure DecodedChar where
  status : DecodeStatus
  codePoint : Nat
  length : Nat
  deriving DecidableEq, Repr

structure Lead where
  length : Nat
  secondMin : Nat
  secondMax : Nat
  codePoint : Nat
  deriving DecidableEq, Repr

/-- The sequence that starts with a byte above `0x7F`, where one does. -/
def leadOf (lead : Nat) : Option Lead :=
  if 0xC2 ≤ lead ∧ lead ≤ 0xDF then some ⟨2, 0x80, 0xBF, lead &&& 0x1F⟩
  else if lead = 0xE0 then some ⟨3, 0xA0, 0xBF, lead &&& 0x0F⟩
  else if (0xE1 ≤ lead ∧ lead ≤ 0xEC) ∨ lead = 0xEE ∨ lead = 0xEF then
    some ⟨3, 0x80, 0xBF, lead &&& 0x0F⟩
  else if lead = 0xED then some ⟨3, 0x80, 0x9F, lead &&& 0x0F⟩
  else if lead = 0xF0 then some ⟨4, 0x90, 0xBF, lead &&& 0x07⟩
  else if 0xF1 ≤ lead ∧ lead ≤ 0xF3 then some ⟨4, 0x80, 0xBF, lead &&& 0x07⟩
  else if lead = 0xF4 then some ⟨4, 0x80, 0x8F, lead &&& 0x07⟩
  else none

/-- The loop over the bytes after the first, with how many are still to come and what the
next of them may be. -/
def decodeRest (length : Nat) : Nat → Nat → Nat → Nat → List UInt8 → DecodedChar
  | 0, _, _, codePoint, _ => ⟨.ok, codePoint, length⟩
  | _ + 1, _, _, _, [] => ⟨.incomplete, 0, 0⟩
  | left + 1, least, most, codePoint, b :: rest =>
      if b.toNat < least ∨ b.toNat > most then ⟨.invalid, 0, 1⟩
      else decodeRest length left 0x80 0xBF ((codePoint <<< 6) ||| (b.toNat &&& 0x3F)) rest

def decodeUtf8 (lead : UInt8) (rest : List UInt8) : DecodedChar :=
  if lead.toNat ≤ 0x7F then ⟨.ok, lead.toNat, 1⟩
  else match leadOf lead.toNat with
    | none => ⟨.invalid, 0, 1⟩
    | some l => decodeRest l.length (l.length - 1) l.secondMin l.secondMax l.codePoint rest

/-! ## Classes of characters -/

def isPrintable (c : Nat) : Bool :=
  if c > kMaxCodePoint then false
  else if c ≤ 0x1F then false
  else if c ≥ 0x7F ∧ c ≤ 0x9F then false
  else if c = 0x2028 ∨ c = 0x2029 then false
  else if c ≥ 0xFDD0 ∧ c ≤ 0xFDEF then false
  else if c ≥ 0xD800 ∧ c ≤ 0xDFFF then false
  else if c &&& 0xFFFE = 0xFFFE then false
  else true

def isSpace (c : Nat) : Bool :=
  if c ≥ 0x09 ∧ c ≤ 0x0D then true
  else if c = 0x20 then true
  else if c = 0x1680 then true
  else if c ≥ 0x2000 ∧ c ≤ 0x2006 then true
  else if c ≥ 0x2008 ∧ c ≤ 0x200A then true
  else if c = 0x2028 ∨ c = 0x2029 then true
  else c = 0x205F ∨ c = 0x3000

def isNoBreakSpace (c : Nat) : Bool := c = 0x00A0 ∨ c = 0x2007 ∨ c = 0x202F ∨ c = 0x2060

structure CodePointRange where
  first : Nat
  last : Nat
  deriving DecidableEq, Repr

def kZeroWidth : List CodePointRange :=
  [⟨0x0300, 0x036F⟩, ⟨0x0483, 0x0489⟩, ⟨0x0591, 0x05BD⟩, ⟨0x05BF, 0x05BF⟩, ⟨0x05C1, 0x05C2⟩,
   ⟨0x05C4, 0x05C5⟩, ⟨0x05C7, 0x05C7⟩, ⟨0x0610, 0x061A⟩, ⟨0x061C, 0x061C⟩, ⟨0x064B, 0x065F⟩,
   ⟨0x0670, 0x0670⟩, ⟨0x06D6, 0x06DC⟩, ⟨0x06DF, 0x06E4⟩, ⟨0x06E7, 0x06E8⟩, ⟨0x06EA, 0x06ED⟩,
   ⟨0x0900, 0x0902⟩, ⟨0x093A, 0x093A⟩, ⟨0x093C, 0x093C⟩, ⟨0x0941, 0x0948⟩, ⟨0x094D, 0x094D⟩,
   ⟨0x0951, 0x0957⟩, ⟨0x0962, 0x0963⟩, ⟨0x1160, 0x11FF⟩, ⟨0x1AB0, 0x1AFF⟩, ⟨0x1DC0, 0x1DFF⟩,
   ⟨0x200B, 0x200F⟩, ⟨0x202A, 0x202E⟩, ⟨0x2060, 0x2064⟩, ⟨0x2066, 0x206F⟩, ⟨0x20D0, 0x20FF⟩,
   ⟨0x302A, 0x302D⟩, ⟨0x3099, 0x309A⟩, ⟨0xFE00, 0xFE0F⟩, ⟨0xFE20, 0xFE2F⟩, ⟨0xFEFF, 0xFEFF⟩,
   ⟨0xE0001, 0xE0001⟩, ⟨0xE0020, 0xE007F⟩, ⟨0xE0100, 0xE01EF⟩]

def kWide : List CodePointRange :=
  [⟨0x1100, 0x115F⟩, ⟨0x231A, 0x231B⟩, ⟨0x2329, 0x232A⟩, ⟨0x23E9, 0x23EC⟩, ⟨0x23F0, 0x23F0⟩,
   ⟨0x23F3, 0x23F3⟩, ⟨0x25FD, 0x25FE⟩, ⟨0x2614, 0x2615⟩, ⟨0x2648, 0x2653⟩, ⟨0x267F, 0x267F⟩,
   ⟨0x2693, 0x2693⟩, ⟨0x26A1, 0x26A1⟩, ⟨0x26AA, 0x26AB⟩, ⟨0x26BD, 0x26BE⟩, ⟨0x26C4, 0x26C5⟩,
   ⟨0x26CE, 0x26CE⟩, ⟨0x26D4, 0x26D4⟩, ⟨0x26EA, 0x26EA⟩, ⟨0x26F2, 0x26F3⟩, ⟨0x26F5, 0x26F5⟩,
   ⟨0x26FA, 0x26FA⟩, ⟨0x26FD, 0x26FD⟩, ⟨0x2705, 0x2705⟩, ⟨0x270A, 0x270B⟩, ⟨0x2728, 0x2728⟩,
   ⟨0x274C, 0x274C⟩, ⟨0x274E, 0x274E⟩, ⟨0x2753, 0x2755⟩, ⟨0x2757, 0x2757⟩, ⟨0x2795, 0x2797⟩,
   ⟨0x27B0, 0x27B0⟩, ⟨0x27BF, 0x27BF⟩, ⟨0x2B1B, 0x2B1C⟩, ⟨0x2B50, 0x2B50⟩, ⟨0x2B55, 0x2B55⟩,
   ⟨0x2E80, 0x303E⟩, ⟨0x3041, 0x33FF⟩, ⟨0x3400, 0x4DBF⟩, ⟨0x4E00, 0x9FFF⟩, ⟨0xA000, 0xA4CF⟩,
   ⟨0xA960, 0xA97F⟩, ⟨0xAC00, 0xD7A3⟩, ⟨0xF900, 0xFAFF⟩, ⟨0xFE10, 0xFE19⟩, ⟨0xFE30, 0xFE6F⟩,
   ⟨0xFF00, 0xFF60⟩, ⟨0xFFE0, 0xFFE6⟩, ⟨0x16FE0, 0x16FE4⟩, ⟨0x17000, 0x18CFF⟩,
   ⟨0x1B000, 0x1B2FF⟩, ⟨0x1F004, 0x1F004⟩, ⟨0x1F0CF, 0x1F0CF⟩, ⟨0x1F18E, 0x1F18E⟩,
   ⟨0x1F191, 0x1F19A⟩, ⟨0x1F200, 0x1F202⟩, ⟨0x1F210, 0x1F23B⟩, ⟨0x1F240, 0x1F248⟩,
   ⟨0x1F250, 0x1F251⟩, ⟨0x1F300, 0x1F64F⟩, ⟨0x1F680, 0x1F6FF⟩, ⟨0x1F7E0, 0x1F7EB⟩,
   ⟨0x1F900, 0x1F9FF⟩, ⟨0x1FA70, 0x1FAFF⟩, ⟨0x20000, 0x2FFFD⟩, ⟨0x30000, 0x3FFFD⟩]

/-- The binary search between the indices `lo` and `hi`. -/
def searchRanges (ranges : List CodePointRange) (c lo hi : Nat) : Bool :=
  if lo < hi then
    match ranges[lo + (hi - lo) / 2]? with
    | none => false
    | some range =>
        if c < range.first then searchRanges ranges c lo (lo + (hi - lo) / 2)
        else if c > range.last then searchRanges ranges c (lo + (hi - lo) / 2 + 1) hi
        else true
  else false
  termination_by hi - lo
  decreasing_by all_goals omega

def inRanges (ranges : List CodePointRange) (c : Nat) : Bool :=
  searchRanges ranges c 0 ranges.length

def displayWidth (c : Nat) : Int :=
  if ¬ isPrintable c then -1
  else if inRanges kZeroWidth c then 0
  else if inRanges kWide c then 2
  else 1

/-! ## The search finds what the table has -/

def CodePointRange.Has (range : CodePointRange) (c : Nat) : Prop := range.first ≤ c ∧ c ≤ range.last

instance (range : CodePointRange) (c : Nat) : Decidable (range.Has c) :=
  inferInstanceAs (Decidable (_ ∧ _))

def IsSorted (ranges : List CodePointRange) : Prop :=
  (∀ range ∈ ranges, range.first ≤ range.last) ∧
    ranges.Pairwise fun range later => range.last < later.first

instance (ranges : List CodePointRange) : Decidable (IsSorted ranges) :=
  inferInstanceAs (Decidable (_ ∧ _))

theorem kZeroWidth_isSorted : IsSorted kZeroWidth := by decide +kernel

theorem kWide_isSorted : IsSorted kWide := by decide +kernel

theorem IsSorted.last_lt {ranges : List CodePointRange} (h : IsSorted ranges) {i j : Nat}
    {range later : CodePointRange} (hi : ranges[i]? = some range) (hj : ranges[j]? = some later)
    (hij : i < j) : range.last < later.first := by
  obtain ⟨hi', rfl⟩ := List.getElem?_eq_some_iff.mp hi
  obtain ⟨hj', rfl⟩ := List.getElem?_eq_some_iff.mp hj
  exact List.pairwise_iff_getElem.mp h.2 i j hi' hj' hij

theorem IsSorted.first_le_last {ranges : List CodePointRange} (h : IsSorted ranges) {i : Nat}
    {range : CodePointRange} (hi : ranges[i]? = some range) : range.first ≤ range.last :=
  h.1 range (List.mem_of_getElem? hi)

theorem searchRanges_iff {ranges : List CodePointRange} (h : IsSorted ranges) (c lo hi : Nat)
    (hhi : hi ≤ ranges.length) :
    searchRanges ranges c lo hi = true ↔
      ∃ i range, lo ≤ i ∧ i < hi ∧ ranges[i]? = some range ∧ range.Has c := by
  fun_induction searchRanges ranges c lo hi with
  | case1 lo hi hlt hnone =>
      rw [List.getElem?_eq_none_iff] at hnone
      omega
  | case2 lo hi hlt mid hmid hbelow ih =>
      rw [ih (by omega)]
      constructor
      · rintro ⟨i, range, hlo, hi', hget, hhas⟩
        exact ⟨i, range, hlo, by omega, hget, hhas⟩
      · rintro ⟨i, range, hlo, hi', hget, hhas⟩
        refine ⟨i, range, hlo, ?_, hget, hhas⟩
        -- a range from the middle on starts above `c`
        by_contra hge
        obtain heq | hgt := (not_lt.mp hge).eq_or_lt
        · rw [← heq, hmid] at hget
          cases hget
          have := hhas.1
          omega
        · have := h.last_lt hmid hget hgt
          have := h.first_le_last hmid
          have := hhas.1
          omega
  | case3 lo hi hlt mid hmid hbelow habove ih =>
      rw [ih hhi]
      constructor
      · rintro ⟨i, range, hlo, hi', hget, hhas⟩
        exact ⟨i, range, by omega, hi', hget, hhas⟩
      · rintro ⟨i, range, hlo, hi', hget, hhas⟩
        refine ⟨i, range, ?_, hi', hget, hhas⟩
        -- a range up to the middle ends below `c`
        by_contra hle
        obtain heq | hlt' := (Nat.lt_succ_iff.mp (not_le.mp hle)).eq_or_lt
        · rw [heq, hmid] at hget
          cases hget
          have := hhas.2
          omega
        · have := h.last_lt hget hmid hlt'
          have := h.first_le_last hmid
          have := hhas.2
          omega
  | case4 lo hi hlt mid hmid hbelow habove =>
      simp only [true_iff]
      exact ⟨_, mid, by omega, by omega, hmid, not_lt.mp hbelow, not_lt.mp habove⟩
  | case5 lo hi hge =>
      simp only [Bool.false_eq_true, false_iff]
      rintro ⟨i, range, hlo, hi', -⟩
      omega

theorem inRanges_iff {ranges : List CodePointRange} (h : IsSorted ranges) (c : Nat) :
    inRanges ranges c = true ↔ ∃ range ∈ ranges, range.Has c := by
  rw [inRanges, searchRanges_iff h c 0 _ le_rfl]
  constructor
  · rintro ⟨i, range, -, -, hget, hhas⟩
    exact ⟨range, List.mem_of_getElem? hget, hhas⟩
  · rintro ⟨range, hmem, hhas⟩
    obtain ⟨i, hget⟩ := List.mem_iff_getElem?.mp hmem
    obtain ⟨hi, -⟩ := List.getElem?_eq_some_iff.mp hget
    exact ⟨i, range, i.zero_le, hi, hget, hhas⟩

def columnsOf (c : Nat) : Nat :=
  if ∃ range ∈ kZeroWidth, range.Has c then 0
  else if ∃ range ∈ kWide, range.Has c then 2
  else 1

theorem displayWidth_eq (c : Nat) :
    displayWidth c = if isPrintable c then (columnsOf c : Int) else -1 := by
  simp only [displayWidth, columnsOf, inRanges_iff kZeroWidth_isSorted,
    inRanges_iff kWide_isSorted]
  split_ifs <;> simp_all

end Haisos.Unicode
