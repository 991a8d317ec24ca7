import Haisos.Unicode.Decoding

/-!
# Counting as it arrives

`WcFeed` and `WcFinish` of `Wc.cpp`.  What the counts say of the whole input is stated on
its characters, without a chunk or a carry.
-/

namespace Haisos.BuiltinCommands.Wc

open String (utf8EncodeChar)
open Unicode

/-- The counts, and where the counting stands: how wide the line is so far, whether it is
inside a word, and the start of a character that the last chunk cut. -/
structure WcCounts where
  lines : Nat
  words : Nat
  chars : Nat
  bytes : Nat
  maxLineLength : Nat
  linePos : Nat
  inWord : Bool
  carry : List UInt8
  deriving DecidableEq, Repr

def WcCounts.new : WcCounts := ⟨0, 0, 0, 0, 0, 0, false, []⟩

def wcCharacter (posixlyCorrect : Bool) (counts : WcCounts) (c : Nat) : WcCounts × Bool :=
  if c = 0x0A then
    ({ counts with
      lines := counts.lines + 1
      maxLineLength := max counts.maxLineLength counts.linePos
      linePos := 0 }, true)
  else if c = 0x0D ∨ c = 0x0C then
    ({ counts with
      maxLineLength := max counts.maxLineLength counts.linePos
      linePos := 0 }, true)
  else if c = 0x09 then
    ({ counts with linePos := counts.linePos + (8 - counts.linePos % 8) }, true)
  else if c = 0x20 then ({ counts with linePos := counts.linePos + 1 }, true)
  else if c = 0x0B then (counts, true)
  else if isPrintable c then
    let width := displayWidth c
    let counts :=
      if width > 0 then { counts with linePos := counts.linePos + width.toNat } else counts
    if isSpace c ∨ (¬ posixlyCorrect ∧ isNoBreakSpace c) then (counts, true)
    else ({ counts with inWord := true }, false)
  else (counts, false)

def wcSeparate (counts : WcCounts) (separator : Bool) : WcCounts :=
  if separator ∧ counts.inWord then { counts with words := counts.words + 1, inWord := false }
  else counts

def wcStep (posixlyCorrect : Bool) (counts : WcCounts) (c : Nat) : WcCounts :=
  let counted := wcCharacter posixlyCorrect { counts with chars := counts.chars + 1 } c
  wcSeparate counted.1 counted.2

theorem decodeUtf8_length_pos {lead : UInt8} {rest : List UInt8}
    (h : (decodeUtf8 lead rest).status = .ok) : 0 < (decodeUtf8 lead rest).length := by
  obtain ⟨c, hc⟩ := encode_of_decodeUtf8 h
  rw [decodeUtf8_of_encode hc]
  exact List.length_pos_iff.mpr String.utf8EncodeChar_ne_nil

def wcLoop (posixlyCorrect : Bool) (counts : WcCounts) : List UInt8 → WcCounts
  | [] => counts
  | lead :: rest =>
      if (decodeUtf8 lead rest).status = .incomplete then
        { counts with carry := lead :: rest }
      else if (decodeUtf8 lead rest).status = .invalid then
        wcLoop posixlyCorrect counts rest
      else
        wcLoop posixlyCorrect (wcStep posixlyCorrect counts (decodeUtf8 lead rest).codePoint)
          ((lead :: rest).drop (decodeUtf8 lead rest).length)
  termination_by bytes => bytes.length
  decreasing_by
    · simp
    · have hok : (decodeUtf8 lead rest).status = .ok := by
        cases hstatus : (decodeUtf8 lead rest).status <;> simp_all
      have := decodeUtf8_length_pos hok
      simp only [List.length_drop, List.length_cons]
      omega

def wcFeed (posixlyCorrect : Bool) (counts : WcCounts) (data : List UInt8) : WcCounts :=
  wcLoop posixlyCorrect { counts with bytes := counts.bytes + data.length, carry := [] }
    (counts.carry ++ data)

/-- The characters of an input: whole ones as they come, and a byte that begins none is
skipped alone. -/
inductive ReadsAs : List UInt8 → List Char → Prop
  | nil : ReadsAs [] []
  | character (c : Char) {bytes : List UInt8} {cs : List Char} :
      ReadsAs bytes cs → ReadsAs (utf8EncodeChar c ++ bytes) (c :: cs)
  | skip {lead : UInt8} {bytes : List UInt8} {cs : List Char} :
      (∀ c, ¬ utf8EncodeChar c <+: lead :: bytes) → ReadsAs bytes cs →
        ReadsAs (lead :: bytes) cs

def isSeparator (posixlyCorrect : Bool) (c : Char) : Bool :=
  c.toNat = 0x0A ∨ c.toNat = 0x0D ∨ c.toNat = 0x0C ∨ c.toNat = 0x09 ∨ c.toNat = 0x20 ∨
    c.toNat = 0x0B ∨
    isPrintable c.toNat ∧ (isSpace c.toNat ∨ ¬ posixlyCorrect ∧ isNoBreakSpace c.toNat)

def endsLine (c : Char) : Bool := c.toNat = 0x0A ∨ c.toNat = 0x0D ∨ c.toNat = 0x0C

/-- The column after a character: a tab goes on to the next multiple of 8. -/
def columnAfter (column : Nat) (c : Char) : Nat :=
  if c.toNat = 0x09 then (column / 8 + 1) * 8
  else if isPrintable c.toNat then column + columnsOf c.toNat
  else column

section Runs

variable {α β : Type*} (ends : α → Bool) (f : β → α → β) (init : β)

end Runs

theorem columnAfter_space (column : Nat) {c : Char} (h : c.toNat = 0x20) :
    columnAfter column c = column + 1 := by
  have hcolumns : columnsOf 0x20 = 1 := by decide
  have hprintable : isPrintable 0x20 = true := rfl
  simp [columnAfter, h, hcolumns, hprintable]

theorem wcStep_eq (posixlyCorrect : Bool) (counts : WcCounts) (c : Char) :
    wcStep posixlyCorrect counts c.toNat =
      { lines := counts.lines + if c.toNat = 0x0A then 1 else 0
        words := counts.words + if isSeparator posixlyCorrect c ∧ counts.inWord then 1 else 0
        chars := counts.chars + 1
        bytes := counts.bytes
        maxLineLength :=
          if endsLine c then max counts.maxLineLength counts.linePos else counts.maxLineLength
        linePos := if endsLine c then 0 else columnAfter counts.linePos c
        inWord :=
          if isSeparator posixlyCorrect c then false
          else counts.inWord || isPrintable c.toNat
        carry := counts.carry } := by
  by_cases hlf : c.toNat = 0x0A
  · cases hword : counts.inWord <;>
      simp [wcStep, wcSeparate, wcCharacter, isSeparator, endsLine, hlf, hword]
  by_cases hend : c.toNat = 0x0D ∨ c.toNat = 0x0C
  · have hends : endsLine c = true := by simp [endsLine, hend]
    have hseparates : isSeparator posixlyCorrect c = true := by
      rcases hend with h | h <;> simp [isSeparator, h]
    cases hword : counts.inWord <;>
      simp [wcStep, wcSeparate, wcCharacter, hlf, hend, hends, hseparates, hword]
  have hends : endsLine c = false := by
    rw [not_or] at hend
    simp [endsLine, hlf, hend]
  by_cases htab : c.toNat = 0x09
  · have htab' : counts.linePos + (8 - counts.linePos % 8) = (counts.linePos / 8 + 1) * 8 := by
      omega
    have hseparates : isSeparator posixlyCorrect c = true := by simp [isSeparator, htab]
    cases hword : counts.inWord <;>
      simp [wcStep, wcSeparate, wcCharacter, htab, htab', hends, hseparates, hword, columnAfter]
  by_cases hspace : c.toNat = 0x20
  · have hseparates : isSeparator posixlyCorrect c = true := by simp [isSeparator, hspace]
    cases hword : counts.inWord <;>
      simp [wcStep, wcSeparate, wcCharacter, hspace, hends, hseparates, hword,
        columnAfter_space _ hspace]
  by_cases hvt : c.toNat = 0x0B
  · have hseparates : isSeparator posixlyCorrect c = true := by simp [isSeparator, hvt]
    have hprintable : isPrintable 0x0B = false := rfl
    cases hword : counts.inWord <;>
      simp [wcStep, wcSeparate, wcCharacter, hvt, hends, hseparates, hword, columnAfter,
        hprintable]
  cases hprintable : isPrintable c.toNat with
  | false =>
      have hseparates : isSeparator posixlyCorrect c = false := by
        rw [not_or] at hend
        simp [isSeparator, hlf, hend, htab, hspace, hvt, hprintable]
      simp [wcStep, wcSeparate, wcCharacter, hlf, hend, htab, hspace, hvt, hprintable,
        hseparates, hends, columnAfter]
  | true =>
      have hseparates : isSeparator posixlyCorrect c = true ↔
          isSpace c.toNat = true ∨ ¬ posixlyCorrect = true ∧ isNoBreakSpace c.toNat = true := by
        rw [not_or] at hend
        simp [isSeparator, hlf, hend, htab, hspace, hvt, hprintable]
      have hcolumn : columnAfter counts.linePos c = counts.linePos + columnsOf c.toNat := by
        simp [columnAfter, htab, hprintable]
      have hwidth : displayWidth c.toNat = columnsOf c.toNat := by
        rw [displayWidth_eq, if_pos hprintable]
      simp only [wcStep, wcSeparate, wcCharacter, if_neg hlf, if_neg hend, if_neg htab,
        if_neg hspace, if_neg hvt, hprintable, if_true, ← hseparates, hends, hcolumn, hwidth]
      obtain hzero | hpos := Nat.eq_zero_or_pos (columnsOf c.toNat) <;>
        cases hsep : isSeparator posixlyCorrect c <;> cases hword : counts.inWord <;>
        simp [*]

/-! ## All of them -/

def wcCount (posixlyCorrect : Bool) (counts : WcCounts) (cs : List Char) : WcCounts :=
  cs.foldl (fun counts c => wcStep posixlyCorrect counts c.toNat) counts

theorem wcCount_cons (posixlyCorrect : Bool) (counts : WcCounts) (c : Char) (cs : List Char) :
    wcCount posixlyCorrect counts (c :: cs) =
      wcCount posixlyCorrect (wcStep posixlyCorrect counts c.toNat) cs := rfl

theorem wcCount_append (posixlyCorrect : Bool) (counts : WcCounts) (cs cs' : List Char) :
    wcCount posixlyCorrect counts (cs ++ cs') =
      wcCount posixlyCorrect (wcCount posixlyCorrect counts cs) cs' :=
  List.foldl_append

theorem encode_unique {c c' : Char} {data : List UInt8} (h : utf8EncodeChar c <+: data)
    (h' : utf8EncodeChar c' <+: data) : c = c' := by
  cases data with
  | nil => exact absurd (List.prefix_nil.mp h) String.utf8EncodeChar_ne_nil
  | cons lead rest =>
      have hdecoded := decodeUtf8_of_encode h
      rw [decodeUtf8_of_encode h', DecodedChar.mk.injEq] at hdecoded
      exact (Char.toNat_inj.mp hdecoded.2.1).symm

theorem ReadsAs.inv {bytes : List UInt8} {cs : List Char} (h : ReadsAs bytes cs) :
    (bytes = [] ∧ cs = []) ∨
    (∃ c rest cs', bytes = utf8EncodeChar c ++ rest ∧ cs = c :: cs' ∧ ReadsAs rest cs') ∨
    (∃ lead rest, bytes = lead :: rest ∧ (∀ c, ¬ utf8EncodeChar c <+: bytes) ∧
      ReadsAs rest cs) := by
  cases h with
  | nil => exact .inl ⟨rfl, rfl⟩
  | character c h => exact .inr (.inl ⟨c, _, _, rfl, rfl, h⟩)
  | skip hnone h => exact .inr (.inr ⟨_, _, rfl, hnone, h⟩)

theorem ReadsAs.unique {bytes : List UInt8} {cs cs' : List Char} (h : ReadsAs bytes cs)
    (h' : ReadsAs bytes cs') : cs' = cs := by
  induction h generalizing cs' with
  | nil =>
      obtain ⟨-, rfl⟩ | ⟨c, rest, cs', hbytes, -, -⟩ | ⟨lead, rest, hbytes, -, -⟩ := h'.inv
      · rfl
      · exact absurd (List.append_eq_nil_iff.mp hbytes.symm).1 String.utf8EncodeChar_ne_nil
      · cases hbytes
  | @character c bytes cs h ih =>
      obtain ⟨hbytes, -⟩ | ⟨c', rest, cs', hbytes, rfl, h'⟩ | ⟨lead, rest, -, hnone, -⟩ := h'.inv
      · exact absurd (List.append_eq_nil_iff.mp hbytes).1 String.utf8EncodeChar_ne_nil
      · cases encode_unique ⟨bytes, rfl⟩ ⟨rest, hbytes.symm⟩
        cases List.append_cancel_left hbytes
        rw [ih h']
      · exact absurd ⟨bytes, rfl⟩ (hnone c)
  | @skip lead bytes cs hnone h ih =>
      obtain ⟨hbytes, -⟩ | ⟨c', rest, cs', hbytes, -, -⟩ | ⟨lead', rest, hbytes, -, h'⟩ := h'.inv
      · cases hbytes
      · exact absurd ⟨rest, hbytes.symm⟩ (hnone c')
      · cases hbytes
        exact ih h'

def Waits (bytes : List UInt8) : Prop :=
  ∃ c, bytes <+: utf8EncodeChar c ∧ bytes ≠ utf8EncodeChar c

theorem Waits.length_le {bytes : List UInt8} (h : Waits bytes) : bytes.length ≤ 3 := by
  obtain ⟨c, hbegins, hne⟩ := h
  have hlt : bytes.length ≠ (utf8EncodeChar c).length := fun heq => hne (hbegins.eq_of_length heq)
  have hle := hbegins.length_le
  have hfour := c.utf8Size_le_four
  rw [String.length_utf8EncodeChar] at hlt hle
  omega

theorem waits_nil : Waits [] := ⟨'a', List.nil_prefix, String.utf8EncodeChar_ne_nil.symm⟩

theorem not_encode_of_decodeUtf8 {lead : UInt8} {rest : List UInt8}
    (h : (decodeUtf8 lead rest).status ≠ .ok) (c : Char) : ¬ utf8EncodeChar c <+: lead :: rest := by
  intro hc
  rw [decodeUtf8_of_encode hc] at h
  exact h rfl

theorem wcCount_with (posixlyCorrect : Bool) (counts : WcCounts) (cs : List Char) (n : Nat)
    (rest : List UInt8) :
    wcCount posixlyCorrect { counts with bytes := n, carry := rest } cs =
      { wcCount posixlyCorrect counts cs with bytes := n, carry := rest } := by
  induction cs generalizing counts with
  | nil => rfl
  | cons c cs ih =>
      rw [wcCount_cons, wcCount_cons, ← ih]
      simp only [wcStep_eq]

theorem wcLoop_reads (posixlyCorrect : Bool) (counts : WcCounts) (bytes : List UInt8)
    (h : counts.carry = []) :
    ∃ cs rest, wcLoop posixlyCorrect counts bytes =
        { wcCount posixlyCorrect counts cs with carry := rest } ∧ Waits rest ∧
      ∀ more cs', ReadsAs (rest ++ more) cs' → ReadsAs (bytes ++ more) (cs ++ cs') := by
  fun_induction wcLoop posixlyCorrect counts bytes with
  | case1 counts =>
      refine ⟨[], [], ?_, waits_nil, fun more cs' => id⟩
      rw [← h]
      rfl
  | case2 counts lead rest hstatus =>
      exact ⟨[], lead :: rest, rfl, (decodeUtf8_incomplete_iff lead rest).mp hstatus,
        fun more cs' => id⟩
  | case3 counts lead rest hincomplete hinvalid ih =>
      obtain ⟨cs, carry, hloop, hwaits, hreads⟩ := ih h
      refine ⟨cs, carry, hloop, hwaits, ?_⟩
      intro more cs' hmore
      -- no character begins here, whatever comes after
      rw [List.cons_append]
      refine .skip (not_encode_of_decodeUtf8 ?_) (hreads more cs' hmore)
      rw [decodeUtf8_append hincomplete]
      simp [hinvalid]
  | case4 counts lead rest hincomplete hinvalid ih =>
      have hok : (decodeUtf8 lead rest).status = .ok := by
        cases hstatus : (decodeUtf8 lead rest).status <;> simp_all
      obtain ⟨c, hc⟩ := encode_of_decodeUtf8 hok
      rw [decodeUtf8_of_encode hc] at ih ⊢
      obtain ⟨after, hafter⟩ := hc
      rw [← hafter, List.drop_left] at ih ⊢
      obtain ⟨cs, carry, hloop, hwaits, hreads⟩ := ih (by rw [wcStep_eq]; exact h)
      refine ⟨c :: cs, carry, hloop, hwaits, ?_⟩
      intro more cs' hmore
      rw [List.append_assoc]
      exact .character c (hreads more cs' hmore)

/-- What has come in was counted up to a carry, and is read as what was counted and then
what the carry goes on as. -/
def Fed (posixlyCorrect : Bool) (bytes : List UInt8) (counts : WcCounts) : Prop :=
  ∃ cs carry,
    counts = { wcCount posixlyCorrect .new cs with bytes := bytes.length, carry := carry } ∧
    Waits carry ∧
    ∀ more cs', ReadsAs (carry ++ more) cs' → ReadsAs (bytes ++ more) (cs ++ cs')

theorem Fed.wcFeed {posixlyCorrect : Bool} {bytes : List UInt8} {counts : WcCounts}
    (h : Fed posixlyCorrect bytes counts) (data : List UInt8) :
    Fed posixlyCorrect (bytes ++ data) (wcFeed posixlyCorrect counts data) := by
  obtain ⟨cs, carry, rfl, -, hreads⟩ := h
  obtain ⟨cs', rest, hloop, hwaits, hreads'⟩ := wcLoop_reads posixlyCorrect
    { wcCount posixlyCorrect .new cs with
      bytes := bytes.length + data.length, carry := [] } (carry ++ data) rfl
  refine ⟨cs ++ cs', rest, ?_, hwaits, ?_⟩
  · rw [Wc.wcFeed, hloop, wcCount_with, List.length_append, wcCount_append]
  · intro more cs'' hmore
    have hdata := hreads' more cs'' hmore
    rw [List.append_assoc] at hdata
    rw [List.append_assoc, List.append_assoc]
    exact hreads _ _ hdata

theorem Fed.foldl {posixlyCorrect : Bool} {bytes : List UInt8} {counts : WcCounts}
    (h : Fed posixlyCorrect bytes counts) (chunks : List (List UInt8)) :
    Fed posixlyCorrect (bytes ++ chunks.flatten)
      (chunks.foldl (Wc.wcFeed posixlyCorrect) counts) := by
  induction chunks generalizing bytes counts with
  | nil => simpa using h
  | cons chunk chunks ih =>
      rw [List.flatten_cons, ← List.append_assoc, List.foldl_cons]
      exact ih (h.wcFeed chunk)

end Haisos.BuiltinCommands.Wc
