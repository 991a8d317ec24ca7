import Haisos.Unicode

/-!
# Decoding against the encoding

`DecodeUtf8` of `Unicode.cpp` against the encoding of a character, RFC 3629's, in both
directions: what begins with an encoding is decoded, and what is decoded began with one.
-/

namespace Haisos.Unicode

open String (utf8EncodeChar)

/-! ## The bytes after the first -/

/-- What the bytes after the first may be. -/
def Follows : Nat → Nat → Nat → List UInt8 → Prop
  | 0, _, _, [] => True
  | left + 1, least, most, b :: tail =>
      least ≤ b.toNat ∧ b.toNat ≤ most ∧ Follows left 0x80 0xBF tail
  | _, _, _, _ => False

def valueOf (codePoint : Nat) (tail : List UInt8) : Nat :=
  tail.foldl (fun codePoint b => codePoint * 64 + b.toNat % 64) codePoint

@[simp] theorem valueOf_nil (codePoint : Nat) : valueOf codePoint [] = codePoint := rfl

@[simp] theorem valueOf_cons (codePoint : Nat) (b : UInt8) (tail : List UInt8) :
    valueOf codePoint (b :: tail) = valueOf (codePoint * 64 + b.toNat % 64) tail := rfl

theorem shift_or_low (codePoint b : Nat) :
    (codePoint <<< 6) ||| (b &&& 0x3F) = codePoint * 64 + b % 64 := by
  rw [Nat.and_two_pow_sub_one_eq_mod b 6,
    ← Nat.shiftLeft_add_eq_or_of_lt (Nat.mod_lt _ (by simp)), Nat.shiftLeft_eq]

theorem decodeRest_of_follows {left least most : Nat} {tail : List UInt8}
    (h : Follows left least most tail) (length codePoint : Nat) (more : List UInt8) :
    decodeRest length left least most codePoint (tail ++ more) =
      ⟨.ok, valueOf codePoint tail, length⟩ := by
  fun_induction Follows left least most tail generalizing codePoint with
  | case1 => simp [decodeRest]
  | case2 left least most b tail ih =>
      obtain ⟨hleast, hmost, htail⟩ := h
      rw [List.cons_append, decodeRest, if_neg (by omega), ih htail, shift_or_low, valueOf_cons]
  | case3 => exact h.elim

theorem decodeRest_append {length left least most codePoint : Nat} {rest : List UInt8}
    (h : (decodeRest length left least most codePoint rest).status ≠ .incomplete)
    (more : List UInt8) :
    decodeRest length left least most codePoint (rest ++ more) =
      decodeRest length left least most codePoint rest := by
  fun_induction decodeRest length left least most codePoint rest with
  | case1 => simp [decodeRest]
  | case2 => simp at h
  | case3 left least most codePoint b rest hout => simp [decodeRest, hout]
  | case4 left least most codePoint b rest hin ih =>
      rw [List.cons_append, decodeRest, if_neg hin, ih h]

theorem follows_of_decodeRest {length left least most codePoint : Nat} {rest : List UInt8}
    (h : (decodeRest length left least most codePoint rest).status = .ok) :
    ∃ tail more, rest = tail ++ more ∧ Follows left least most tail := by
  fun_induction decodeRest length left least most codePoint rest with
  | case1 least most codePoint rest => exact ⟨[], rest, rfl, by simp [Follows]⟩
  | case2 => simp at h
  | case3 => simp at h
  | case4 left least most codePoint b rest hin ih =>
      obtain ⟨tail, more, rfl, htail⟩ := ih h
      exact ⟨b :: tail, more, rfl, by omega, by omega, htail⟩

theorem follows_of_incomplete {length left least most codePoint : Nat} {rest : List UInt8}
    (hle : least ≤ most) (hmost : most < 256)
    (h : (decodeRest length left least most codePoint rest).status = .incomplete) :
    ∃ tail, tail ≠ [] ∧ Follows left least most (rest ++ tail) := by
  fun_induction decodeRest length left least most codePoint rest with
  | case1 => simp at h
  | case2 left least most codePoint =>
      refine ⟨UInt8.ofNat least :: List.replicate left 0x80, List.cons_ne_nil _ _, ?_⟩
      have hleast : (UInt8.ofNat least).toNat = least := by
        rw [UInt8.toNat_ofNat']
        exact Nat.mod_eq_of_lt (by omega)
      simp only [List.nil_append, Follows, hleast, le_refl, hle, true_and]
      induction left with
      | zero => simp [Follows]
      | succ left ih => simp [List.replicate_succ, Follows, ih]
  | case3 => simp at h
  | case4 left least most codePoint b rest hin ih =>
      obtain ⟨tail, hne, htail⟩ := ih (by simp) (by simp) h
      exact ⟨tail, hne, by omega, by omega, htail⟩

/-! ## Decoding undoes the encoding -/

theorem follows_zero {least most : Nat} {tail : List UInt8} (h : Follows 0 least most tail) :
    tail = [] := by
  cases tail with
  | nil => rfl
  | cons b rest => exact h.elim

theorem follows_succ {left least most : Nat} {tail : List UInt8}
    (h : Follows (left + 1) least most tail) :
    ∃ b rest, tail = b :: rest ∧ least ≤ b.toNat ∧ b.toNat ≤ most ∧
      Follows left 0x80 0xBF rest := by
  cases tail with
  | nil => exact h.elim
  | cons b rest => exact ⟨b, rest, rfl, h⟩

theorem toNat_ofNat {n : Nat} (h : n.isValidChar) : (Char.ofNat n).toNat = n := by
  rw [Char.ofNat, dif_pos h]
  rfl

theorem ofNat_eq {n : Nat} {b : UInt8} (h : n = b.toNat) : UInt8.ofNat n = b := by
  rw [h, UInt8.ofNat_toNat]

theorem isValidChar_toNat (c : Char) : c.toNat.isValidChar := c.valid

theorem encode_one {n : Nat} (h : n ≤ 0x7F) : utf8EncodeChar (Char.ofNat n) = [UInt8.ofNat n] := by
  have hn : (Char.ofNat n).val.toNat = n := toNat_ofNat (Or.inl (by omega))
  simp only [utf8EncodeChar, hn, h, if_true]

theorem encode_two {n : Nat} (h : 0x80 ≤ n) (h' : n ≤ 0x7FF) :
    utf8EncodeChar (Char.ofNat n) =
      [UInt8.ofNat (n / 64 % 32 + 0xC0), UInt8.ofNat (n % 64 + 0x80)] := by
  have hn : (Char.ofNat n).val.toNat = n := toNat_ofNat (Or.inl (by omega))
  have hone : ¬ n ≤ 0x7F := by omega
  simp only [utf8EncodeChar, hn, hone, h', if_true, if_false]

theorem encode_three {n : Nat} (hvalid : n.isValidChar) (h : 0x800 ≤ n) (h' : n ≤ 0xFFFF) :
    utf8EncodeChar (Char.ofNat n) =
      [UInt8.ofNat (n / 4096 % 16 + 0xE0), UInt8.ofNat (n / 64 % 64 + 0x80),
        UInt8.ofNat (n % 64 + 0x80)] := by
  have hn : (Char.ofNat n).val.toNat = n := toNat_ofNat hvalid
  have hone : ¬ n ≤ 0x7F := by omega
  have htwo : ¬ n ≤ 0x7FF := by omega
  simp only [utf8EncodeChar, hn, hone, htwo, h', if_true, if_false]

theorem encode_four {n : Nat} (hvalid : n.isValidChar) (h : 0x10000 ≤ n) :
    utf8EncodeChar (Char.ofNat n) =
      [UInt8.ofNat (n / 262144 % 8 + 0xF0), UInt8.ofNat (n / 4096 % 64 + 0x80),
        UInt8.ofNat (n / 64 % 64 + 0x80), UInt8.ofNat (n % 64 + 0x80)] := by
  have hn : (Char.ofNat n).val.toNat = n := toNat_ofNat hvalid
  have hone : ¬ n ≤ 0x7F := by omega
  have htwo : ¬ n ≤ 0x7FF := by omega
  have hthree : ¬ n ≤ 0xFFFF := by omega
  simp only [utf8EncodeChar, hn, hone, htwo, hthree, if_false]

def secondMinOf (lead : Nat) : Nat :=
  if lead = 0xE0 then 0xA0 else if lead = 0xF0 then 0x90 else 0x80

def secondMaxOf (lead : Nat) : Nat :=
  if lead = 0xED then 0x9F else if lead = 0xF4 then 0x8F else 0xBF

theorem secondMinOf_le_iff (lead b : Nat) :
    secondMinOf lead ≤ b ↔ 0x80 ≤ b ∧ (lead = 0xE0 → 0xA0 ≤ b) ∧ (lead = 0xF0 → 0x90 ≤ b) := by
  unfold secondMinOf
  split_ifs <;> omega

theorem le_secondMaxOf_iff (lead b : Nat) :
    b ≤ secondMaxOf lead ↔ b ≤ 0xBF ∧ (lead = 0xED → b ≤ 0x9F) ∧ (lead = 0xF4 → b ≤ 0x8F) := by
  unfold secondMaxOf
  split_ifs <;> omega

theorem leadOf_eq (lead : Nat) :
    leadOf lead =
      if 0xC2 ≤ lead ∧ lead ≤ 0xDF then
        some ⟨2, secondMinOf lead, secondMaxOf lead, lead % 32⟩
      else if 0xE0 ≤ lead ∧ lead ≤ 0xEF then
        some ⟨3, secondMinOf lead, secondMaxOf lead, lead % 16⟩
      else if 0xF0 ≤ lead ∧ lead ≤ 0xF4 then
        some ⟨4, secondMinOf lead, secondMaxOf lead, lead % 8⟩
      else none := by
  have five : lead &&& 0x1F = lead % 32 := Nat.and_two_pow_sub_one_eq_mod lead 5
  have four : lead &&& 0x0F = lead % 16 := Nat.and_two_pow_sub_one_eq_mod lead 4
  have three : lead &&& 0x07 = lead % 8 := Nat.and_two_pow_sub_one_eq_mod lead 3
  simp only [leadOf, secondMinOf, secondMaxOf, five, four, three]
  split_ifs <;> first | rfl | omega

theorem leadOf_two {lead : Nat} (h : 0xC2 ≤ lead) (h' : lead ≤ 0xDF) :
    leadOf lead = some ⟨2, secondMinOf lead, secondMaxOf lead, lead % 32⟩ := by
  rw [leadOf_eq, if_pos ⟨h, h'⟩]

theorem leadOf_three {lead : Nat} (h : 0xE0 ≤ lead) (h' : lead ≤ 0xEF) :
    leadOf lead = some ⟨3, secondMinOf lead, secondMaxOf lead, lead % 16⟩ := by
  rw [leadOf_eq, if_neg (by omega), if_pos ⟨h, h'⟩]

theorem leadOf_four {lead : Nat} (h : 0xF0 ≤ lead) (h' : lead ≤ 0xF4) :
    leadOf lead = some ⟨4, secondMinOf lead, secondMaxOf lead, lead % 8⟩ := by
  rw [leadOf_eq, if_neg (by omega), if_neg (by omega), if_pos ⟨h, h'⟩]

theorem leadOf_range {lead : Nat} {l : Lead} (h : leadOf lead = some l) :
    l.secondMin ≤ l.secondMax ∧ 0x80 ≤ l.secondMin ∧ l.secondMax ≤ 0xBF := by
  have hrange : secondMinOf lead ≤ secondMaxOf lead ∧ 0x80 ≤ secondMinOf lead ∧
      secondMaxOf lead ≤ 0xBF := by
    unfold secondMinOf secondMaxOf
    split_ifs <;> omega
  rw [leadOf_eq] at h
  split_ifs at h <;> cases h <;> exact hrange

theorem encodes_two {lead b : UInt8} (h : 0xC2 ≤ lead.toNat) (h' : lead.toNat ≤ 0xDF)
    (hb : 0x80 ≤ b.toNat) (hb' : b.toNat ≤ 0xBF) :
    ∃ c : Char, c.toNat = lead.toNat % 32 * 64 + b.toNat % 64 ∧ utf8EncodeChar c = [lead, b] := by
  refine ⟨_, toNat_ofNat (Or.inl (by omega)), ?_⟩
  rw [encode_two (by omega) (by omega), @ofNat_eq _ lead (by omega),
    @ofNat_eq _ b (by omega)]

theorem encodes_three {lead b b' : UInt8} (h : 0xE0 ≤ lead.toNat) (h' : lead.toNat ≤ 0xEF)
    (hb : 0x80 ≤ b.toNat) (hb' : b.toNat ≤ 0xBF) (hE0 : lead.toNat = 0xE0 → 0xA0 ≤ b.toNat)
    (hED : lead.toNat = 0xED → b.toNat ≤ 0x9F) (hc : 0x80 ≤ b'.toNat) (hc' : b'.toNat ≤ 0xBF) :
    ∃ c : Char, c.toNat = (lead.toNat % 16 * 64 + b.toNat % 64) * 64 + b'.toNat % 64 ∧
      utf8EncodeChar c = [lead, b, b'] := by
  have hvalid : ((lead.toNat % 16 * 64 + b.toNat % 64) * 64 + b'.toNat % 64).isValidChar := by
    by_cases hlow : lead.toNat < 0xED ∨ (lead.toNat = 0xED ∧ b.toNat ≤ 0x9F)
    · exact Or.inl (by omega)
    · exact Or.inr ⟨by omega, by omega⟩
  refine ⟨_, toNat_ofNat hvalid, ?_⟩
  rw [encode_three hvalid (by omega) (by omega), @ofNat_eq _ lead (by omega),
    @ofNat_eq _ b (by omega), @ofNat_eq _ b' (by omega)]

theorem encodes_four {lead b b' b'' : UInt8} (h : 0xF0 ≤ lead.toNat) (h' : lead.toNat ≤ 0xF4)
    (hb : 0x80 ≤ b.toNat) (hb' : b.toNat ≤ 0xBF) (hF0 : lead.toNat = 0xF0 → 0x90 ≤ b.toNat)
    (hF4 : lead.toNat = 0xF4 → b.toNat ≤ 0x8F) (hc : 0x80 ≤ b'.toNat) (hc' : b'.toNat ≤ 0xBF)
    (hd : 0x80 ≤ b''.toNat) (hd' : b''.toNat ≤ 0xBF) :
    ∃ c : Char, c.toNat =
        ((lead.toNat % 8 * 64 + b.toNat % 64) * 64 + b'.toNat % 64) * 64 + b''.toNat % 64 ∧
      utf8EncodeChar c = [lead, b, b', b''] := by
  have hvalid : (((lead.toNat % 8 * 64 + b.toNat % 64) * 64 + b'.toNat % 64) * 64 +
      b''.toNat % 64).isValidChar := Or.inr ⟨by omega, by omega⟩
  refine ⟨_, toNat_ofNat hvalid, ?_⟩
  rw [encode_four hvalid (by omega), @ofNat_eq _ lead (by omega),
    @ofNat_eq _ b (by omega), @ofNat_eq _ b' (by omega), @ofNat_eq _ b'' (by omega)]

theorem encode_of_follows {lead : UInt8} {l : Lead} {tail : List UInt8}
    (hlead : leadOf lead.toNat = some l)
    (h : Follows (l.length - 1) l.secondMin l.secondMax tail) :
    ∃ c : Char, c.toNat = valueOf l.codePoint tail ∧ utf8EncodeChar c = lead :: tail ∧
      l.length = (lead :: tail).length := by
  rw [leadOf_eq] at hlead
  split_ifs at hlead with htwo hthree hfour <;> cases hlead <;>
    obtain ⟨b, rest, rfl, hb, hb', hrest⟩ := follows_succ h <;>
    rw [secondMinOf_le_iff] at hb <;> rw [le_secondMaxOf_iff] at hb'
  · cases follows_zero hrest
    obtain ⟨c, hc, hcode⟩ := encodes_two htwo.1 htwo.2 hb.1 hb'.1
    exact ⟨c, hc, hcode, rfl⟩
  · obtain ⟨b', rest, rfl, hc, hc', hrest⟩ := follows_succ hrest
    cases follows_zero hrest
    obtain ⟨c, hvalue, hcode⟩ := encodes_three hthree.1 hthree.2 hb.1 hb'.1 hb.2.1 hb'.2.1 hc hc'
    exact ⟨c, hvalue, hcode, rfl⟩
  · obtain ⟨b', rest, rfl, hc, hc', hrest⟩ := follows_succ hrest
    obtain ⟨b'', rest, rfl, hd, hd', hrest⟩ := follows_succ hrest
    cases follows_zero hrest
    obtain ⟨c, hvalue, hcode⟩ :=
      encodes_four hfour.1 hfour.2 hb.1 hb'.1 hb.2.2 hb'.2.2 hc hc' hd hd'
    exact ⟨c, hvalue, hcode, rfl⟩

theorem toNat_ofNat_of_lt {n : Nat} (h : n < 256) : (UInt8.ofNat n).toNat = n := by
  rw [UInt8.toNat_ofNat']
  exact Nat.mod_eq_of_lt h

@[simp] theorem toNat_continuation (n : Nat) :
    (UInt8.ofNat (n % 64 + 0x80)).toNat = n % 64 + 0x80 :=
  toNat_ofNat_of_lt (by omega)

theorem follows_of_encode {n : Nat} (hvalid : n.isValidChar) (h : 0x7F < n) :
    ∃ lead l tail, utf8EncodeChar (Char.ofNat n) = lead :: tail ∧ leadOf lead.toNat = some l ∧
      Follows (l.length - 1) l.secondMin l.secondMax tail ∧ valueOf l.codePoint tail = n := by
  have hmax : n < 0x110000 ∧ (n < 0xD800 ∨ 0xDFFF < n) := by
    rcases hvalid with hlow | ⟨hhigh, hlt⟩ <;> omega
  obtain hle | hgt := Nat.lt_or_ge 0x7FF n
  · obtain hle' | hgt' := Nat.lt_or_ge 0xFFFF n
    · have hlead : (UInt8.ofNat (n / 262144 % 8 + 0xF0)).toNat = n / 262144 % 8 + 0xF0 :=
        toNat_ofNat_of_lt (by omega)
      refine ⟨_, _, _, encode_four hvalid hle', leadOf_four (by omega) (by omega), ?_, ?_⟩
      · simp only [Follows, and_true, toNat_continuation, secondMinOf_le_iff,
          le_secondMaxOf_iff, hlead]
        refine ⟨⟨?_, ?_, ?_⟩, ⟨?_, ?_, ?_⟩, ?_⟩ <;> omega
      · simp only [valueOf_cons, valueOf_nil, toNat_continuation, hlead]
        omega
    · have hlead : (UInt8.ofNat (n / 4096 % 16 + 0xE0)).toNat = n / 4096 % 16 + 0xE0 :=
        toNat_ofNat_of_lt (by omega)
      refine ⟨_, _, _, encode_three hvalid hle hgt', leadOf_three (by omega) (by omega), ?_, ?_⟩
      · simp only [Follows, and_true, toNat_continuation, secondMinOf_le_iff,
          le_secondMaxOf_iff, hlead]
        refine ⟨⟨?_, ?_, ?_⟩, ⟨?_, ?_, ?_⟩, ?_⟩ <;> omega
      · simp only [valueOf_cons, valueOf_nil, toNat_continuation, hlead]
        omega
  · have hlead : (UInt8.ofNat (n / 64 % 32 + 0xC0)).toNat = n / 64 % 32 + 0xC0 :=
      toNat_ofNat_of_lt (by omega)
    refine ⟨_, _, _, encode_two h hgt, leadOf_two (by omega) (by omega), ?_, ?_⟩
    · simp only [Follows, and_true, toNat_continuation, secondMinOf_le_iff,
        le_secondMaxOf_iff, hlead]
      refine ⟨⟨?_, ?_, ?_⟩, ?_, ?_, ?_⟩ <;> omega
    · simp only [valueOf_cons, valueOf_nil, toNat_continuation, hlead]
      omega

theorem decodeUtf8_of_leadOf {lead : UInt8} {l : Lead} (hlead : leadOf lead.toNat = some l)
    (rest : List UInt8) :
    decodeUtf8 lead rest =
      decodeRest l.length (l.length - 1) l.secondMin l.secondMax l.codePoint rest := by
  have habove : ¬ lead.toNat ≤ 0x7F := by
    intro hle
    rw [leadOf_eq, if_neg (by omega), if_neg (by omega), if_neg (by omega)] at hlead
    cases hlead
  simp only [decodeUtf8, if_neg habove, hlead]

theorem decodeUtf8_cases (lead : UInt8) :
    (lead.toNat ≤ 0x7F ∧ ∀ rest, decodeUtf8 lead rest = ⟨.ok, lead.toNat, 1⟩) ∨
    (∀ rest, decodeUtf8 lead rest = ⟨.invalid, 0, 1⟩) ∨
    ∃ l, leadOf lead.toNat = some l := by
  by_cases hle : lead.toNat ≤ 0x7F
  · exact .inl ⟨hle, fun rest => by simp only [decodeUtf8, if_pos hle]⟩
  · cases hlead : leadOf lead.toNat with
    | none => exact .inr (.inl fun rest => by simp only [decodeUtf8, if_neg hle, hlead])
    | some l => exact .inr (.inr ⟨l, rfl⟩)

theorem decodeUtf8_append {lead : UInt8} {rest : List UInt8}
    (h : (decodeUtf8 lead rest).status ≠ .incomplete) (more : List UInt8) :
    decodeUtf8 lead (rest ++ more) = decodeUtf8 lead rest := by
  obtain ⟨-, hone⟩ | hnone | ⟨l, hlead⟩ := decodeUtf8_cases lead
  · rw [hone, hone]
  · rw [hnone, hnone]
  · rw [decodeUtf8_of_leadOf hlead] at h ⊢
    rw [decodeUtf8_of_leadOf hlead, decodeRest_append h]

theorem decodeUtf8_of_encode {c : Char} {lead : UInt8} {rest : List UInt8}
    (h : utf8EncodeChar c <+: lead :: rest) :
    decodeUtf8 lead rest = ⟨.ok, c.toNat, (utf8EncodeChar c).length⟩ := by
  obtain ⟨more, hmore⟩ := h
  obtain hle | hgt := Nat.lt_or_ge 0x7F c.toNat
  · obtain ⟨lead', l, tail, hcode, hlead, hfollows, hvalue⟩ :=
      follows_of_encode (isValidChar_toNat c) hle
    rw [Char.ofNat_toNat] at hcode
    obtain ⟨-, -, -, hlength⟩ := encode_of_follows hlead hfollows
    rw [hcode, List.cons_append, List.cons.injEq] at hmore
    obtain ⟨rfl, rfl⟩ := hmore
    rw [decodeUtf8_of_leadOf hlead, decodeRest_of_follows hfollows, hvalue, hcode, hlength]
  · have hcode := encode_one hgt
    rw [Char.ofNat_toNat] at hcode
    rw [hcode, List.singleton_append, List.cons.injEq] at hmore
    obtain ⟨rfl, rfl⟩ := hmore
    have hlead := toNat_ofNat_of_lt (show c.toNat < 256 by omega)
    simp only [decodeUtf8, hlead, if_pos hgt, hcode, List.length_singleton]

theorem encode_of_decodeUtf8 {lead : UInt8} {rest : List UInt8}
    (h : (decodeUtf8 lead rest).status = .ok) : ∃ c, utf8EncodeChar c <+: lead :: rest := by
  obtain ⟨hle, -⟩ | hnone | ⟨l, hlead⟩ := decodeUtf8_cases lead
  · refine ⟨Char.ofNat lead.toNat, rest, ?_⟩
    rw [encode_one hle, UInt8.ofNat_toNat, List.singleton_append]
  · simp [hnone] at h
  · rw [decodeUtf8_of_leadOf hlead] at h
    obtain ⟨tail, more, rfl, hfollows⟩ := follows_of_decodeRest h
    obtain ⟨c, -, hcode, -⟩ := encode_of_follows hlead hfollows
    exact ⟨c, more, by rw [hcode, List.cons_append]⟩

theorem decodeUtf8_ok_iff (lead : UInt8) (rest : List UInt8) (codePoint length : Nat) :
    decodeUtf8 lead rest = ⟨.ok, codePoint, length⟩ ↔
      ∃ c : Char, c.toNat = codePoint ∧ (utf8EncodeChar c).length = length ∧
        utf8EncodeChar c <+: lead :: rest := by
  constructor
  · intro h
    have hok : (decodeUtf8 lead rest).status = .ok := by rw [h]
    obtain ⟨c, hc⟩ := encode_of_decodeUtf8 hok
    rw [decodeUtf8_of_encode hc] at h
    simp only [DecodedChar.mk.injEq, true_and] at h
    exact ⟨c, h.1, h.2, hc⟩
  · rintro ⟨c, rfl, rfl, hc⟩
    exact decodeUtf8_of_encode hc

theorem decodeUtf8_incomplete_iff (lead : UInt8) (rest : List UInt8) :
    (decodeUtf8 lead rest).status = .incomplete ↔
      ∃ c : Char, lead :: rest <+: utf8EncodeChar c ∧ lead :: rest ≠ utf8EncodeChar c := by
  constructor
  · intro h
    obtain ⟨-, hone⟩ | hnone | ⟨l, hlead⟩ := decodeUtf8_cases lead
    · simp [hone] at h
    · simp [hnone] at h
    · rw [decodeUtf8_of_leadOf hlead] at h
      obtain ⟨hle, -, hmost⟩ := leadOf_range hlead
      obtain ⟨tail, hne, hfollows⟩ := follows_of_incomplete hle (by omega) h
      obtain ⟨c, -, hcode, -⟩ := encode_of_follows hlead hfollows
      refine ⟨c, ⟨tail, by rw [hcode, List.cons_append]⟩, ?_⟩
      simpa [hcode] using hne
  · rintro ⟨c, ⟨more, hmore⟩, hne⟩
    by_contra h
    have hcode := decodeUtf8_append h more
    rw [decodeUtf8_of_encode (c := c) (by rw [← hmore, List.cons_append])] at hcode
    -- otherwise the data would already begin with the whole encoding
    obtain ⟨c', hc', hlength, hbegins⟩ := (decodeUtf8_ok_iff lead rest _ _).mp hcode.symm
    have hle := hbegins.length_le
    rw [hlength, ← hmore] at hle
    cases more with
    | nil => exact hne (by simpa using hmore)
    | cons b more => simp at hle

end Haisos.Unicode
