import Haisos.Hsh.Text
import Mathlib.Tactic

/-!
# cat's formatting

`CatFormatter` of `Cat.cpp` takes its input byte by byte, in whatever chunks it comes.
What it should write is said on the lines of the whole input.
-/

namespace Haisos.BuiltinCommands.Cat

open Hsh (Text text natText)

structure CatSettings where
  numberAll : Bool
  numberNonblank : Bool
  squeezeBlank : Bool
  showEnds : Bool
  showTabs : Bool
  showNonprinting : Bool
  deriving DecidableEq, Repr

/-- `m_lineNumber` is an `unsigned long long` and `m_blankRun` an `int`. -/
structure CatFormatter where
  atLineStart : Bool
  lineNumber : Nat
  blankRun : Int
  deriving DecidableEq, Repr

def CatFormatter.new : CatFormatter := ⟨true, 0, 0⟩

def wrapUnsigned (n : Nat) : Nat := n % 2 ^ 64

/-- An `int` goes on from its greatest value at its least. -/
def wrapInt (n : Int) : Int := (n + 2 ^ 31) % 2 ^ 32 - 2 ^ 31

/-- `"%6llu\t"`. -/
def lineNumberText (n : Nat) : Text := (natText n).leftpad 6 ' ' ++ ['\t']

def appendVisible (c : Char) : Text :=
  let mark := if c.toNat ≥ 128 then text "M-" else []
  let c := if c.toNat ≥ 128 then c.toNat - 128 else c.toNat
  mark ++
    (if c < 32 then ['^', Char.ofNat (c + 64)]
    else if c = 127 then text "^?"
    else [Char.ofNat c])

def lineEnd (settings : CatSettings) : Text :=
  if settings.showEnds then text "$\n" else text "\n"

/-- `AppendLineNumber`: the counter goes up before it is shown. -/
def appendLineNumber (formatter : CatFormatter) : CatFormatter × Text :=
  let number := wrapUnsigned (formatter.lineNumber + 1)
  ({ formatter with lineNumber := number }, lineNumberText number)

/-- The end of the loop's body, for a byte that is not an empty line of its own. -/
def appendWithinLine (settings : CatSettings) (formatter : CatFormatter) (c : Char) :
    CatFormatter × Text :=
  if c = '\n' then ({ formatter with atLineStart := true }, lineEnd settings)
  else if c = '\t' then (formatter, if settings.showTabs then text "^I" else text "\t")
  else if settings.showNonprinting then (formatter, appendVisible c)
  else (formatter, [c])

def appendEmptyLine (settings : CatSettings) (formatter : CatFormatter) : CatFormatter × Text :=
  let formatter := { formatter with blankRun := wrapInt (formatter.blankRun + 1) }
  if settings.squeezeBlank ∧ formatter.blankRun > 1 then (formatter, [])
  else if settings.numberAll ∧ ¬ settings.numberNonblank then
    ((appendLineNumber formatter).1, (appendLineNumber formatter).2 ++ lineEnd settings)
  else (formatter, lineEnd settings)

def startLine (settings : CatSettings) (formatter : CatFormatter) : CatFormatter × Text :=
  let formatter := { formatter with blankRun := 0 }
  if settings.numberAll ∨ settings.numberNonblank then
    ({ (appendLineNumber formatter).1 with atLineStart := false }, (appendLineNumber formatter).2)
  else ({ formatter with atLineStart := false }, [])

def appendByte (settings : CatSettings) (formatter : CatFormatter) (c : Char) :
    CatFormatter × Text :=
  if formatter.atLineStart then
    if c = '\n' then appendEmptyLine settings formatter
    else
      let started := startLine settings formatter
      let appended := appendWithinLine settings started.1 c
      (appended.1, started.2 ++ appended.2)
  else appendWithinLine settings formatter c

def append (settings : CatSettings) (formatter : CatFormatter) : Text → CatFormatter × Text
  | [] => (formatter, [])
  | c :: data =>
      let appended := appendByte settings formatter c
      let rest := append settings appended.1 data
      (rest.1, appended.2 ++ rest.2)

/-- `CatBytes`: what is read is formatted and written chunk by chunk. -/
def catBytes (settings : CatSettings) (formatter : CatFormatter) :
    List Text → CatFormatter × Text
  | [] => (formatter, [])
  | chunk :: chunks =>
      let appended := append settings formatter chunk
      let rest := catBytes settings appended.1 chunks
      (rest.1, appended.2 ++ rest.2)

def catOperands (settings : CatSettings) (formatter : CatFormatter) :
    List (List Text) → CatFormatter × Text
  | [] => (formatter, [])
  | file :: files =>
      let shown := catBytes settings formatter file
      let rest := catOperands settings shown.1 files
      (rest.1, shown.2 ++ rest.2)

def run (settings : CatSettings) (files : List (List Text)) : Text :=
  (catOperands settings .new files).2

/-! ## What is shown -/

/-- A line of the input, and whether a newline ends it. -/
structure Line where
  content : Text
  ended : Bool
  deriving DecidableEq, Repr

def emptyLine : Line := ⟨[], true⟩

def beginWith (c : Char) : List Line → List Line
  | [] => [⟨[c], false⟩]
  | line :: lines => ⟨c :: line.content, line.ended⟩ :: lines

def linesOf : Text → List Line
  | [] => []
  | c :: rest =>
      if c = '\n' then emptyLine :: linesOf rest else beginWith c (linesOf rest)

def squeezed (afterEmpty : Bool) : List Line → List Line
  | [] => []
  | line :: lines =>
      if line = emptyLine then
        if afterEmpty then squeezed true lines else line :: squeezed true lines
      else line :: squeezed false lines

def shownLines (settings : CatSettings) (lines : List Line) : List Line :=
  if settings.squeezeBlank then squeezed false lines else lines

/-- With `-b` only the lines that are not empty have a number, whatever `-n` says. -/
def isNumbered (settings : CatSettings) (line : Line) : Bool :=
  if settings.numberNonblank then line ≠ emptyLine else settings.numberAll

/-- A control character is `^` and the character with bit 6 the other way. -/
def caretNotation (c : Nat) : Text :=
  if c < 32 ∨ c = 127 then ['^', Char.ofNat (c ^^^ 64)] else [Char.ofNat c]

def metaNotation (c : Nat) : Text :=
  if c < 128 then caretNotation c else text "M-" ++ caretNotation (c - 128)

def shownByte (settings : CatSettings) (c : Char) : Text :=
  if c = '\t' then if settings.showTabs then text "^I" else [c]
  else if settings.showNonprinting then metaNotation c.toNat
  else [c]

def shownLine (settings : CatSettings) (line : Line) : Text :=
  line.content.flatMap (shownByte settings) ++ if line.ended then lineEnd settings else []

/-- The lines one below the other, the next number being `number`. -/
def rendered (settings : CatSettings) (numberText : Nat → Text) (number : Nat) :
    List Line → Text
  | [] => []
  | line :: lines =>
      (if isNumbered settings line then numberText number else []) ++ shownLine settings line ++
        rendered settings numberText (if isNumbered settings line then number + 1 else number)
          lines

/-- What cat shows of an input as a whole. -/
def reference (settings : CatSettings) (input : Text) : Text :=
  rendered settings lineNumberText 1 (shownLines settings (linesOf input))

/-- The inputs the counters are wide enough for. -/
def Countable (settings : CatSettings) (input : Text) : Prop :=
  (settings.squeezeBlank →
    ∀ n, List.replicate n emptyLine <:+: linesOf input → n < 2 ^ 31) ∧
  ((shownLines settings (linesOf input)).filter (isNumbered settings)).length < 2 ^ 64

/-! ## Chunks and files -/

theorem append_append (settings : CatSettings) (formatter : CatFormatter) (before after : Text) :
    append settings formatter (before ++ after) =
      ((append settings (append settings formatter before).1 after).1,
        (append settings formatter before).2 ++
          (append settings (append settings formatter before).1 after).2) := by
  induction before generalizing formatter with
  | nil => simp [append]
  | cons c before ih => simp [append, ih]

theorem catBytes_eq (settings : CatSettings) (formatter : CatFormatter) (chunks : List Text) :
    catBytes settings formatter chunks = append settings formatter chunks.flatten := by
  induction chunks generalizing formatter with
  | nil => simp [catBytes, append]
  | cons chunk chunks ih => simp [catBytes, ih, append_append]

theorem catOperands_eq (settings : CatSettings) (formatter : CatFormatter)
    (files : List (List Text)) :
    catOperands settings formatter files = append settings formatter files.flatten.flatten := by
  induction files generalizing formatter with
  | nil => simp [catOperands, append]
  | cons file files ih => simp [catOperands, ih, catBytes_eq, append_append]

theorem run_eq_append (settings : CatSettings) (files : List (List Text)) :
    run settings files = (append settings .new files.flatten.flatten).2 := by
  simp [run, catOperands_eq]

/-! ## Byte by byte and line by line -/

theorem caretNotation_eq (c : Nat) :
    caretNotation c =
      if c < 32 then ['^', Char.ofNat (c + 64)] else if c = 127 then text "^?"
      else [Char.ofNat c] := by
  by_cases hcontrol : c < 32
  · have hbit : ∀ c < 32, c ^^^ 64 = c + 64 := by decide
    simp [caretNotation, hcontrol, hbit c hcontrol]
  · by_cases hdelete : c = 127
    · subst hdelete
      decide
    · simp [caretNotation, hcontrol, hdelete]

theorem metaNotation_toNat (c : Char) : metaNotation c.toNat = appendVisible c := by
  by_cases hhigh : c.toNat < 128
  · have hlow : ¬ 128 ≤ c.toNat := by omega
    simp [metaNotation, appendVisible, hhigh, hlow, caretNotation_eq]
  · have hge : 128 ≤ c.toNat := by omega
    simp [metaNotation, appendVisible, hhigh, hge, caretNotation_eq]

theorem appendWithinLine_of_ne {c : Char} (settings : CatSettings) (formatter : CatFormatter)
    (hc : c ≠ '\n') :
    appendWithinLine settings formatter c = (formatter, shownByte settings c) := by
  by_cases htab : c = '\t'
  · subst htab
    cases htabs : settings.showTabs <;> simp [appendWithinLine, shownByte, htabs]
    decide
  · cases hvisible : settings.showNonprinting <;>
      simp [appendWithinLine, shownByte, hc, htab, hvisible, metaNotation_toNat]

theorem wrapUnsigned_add_one (n : Nat) :
    wrapUnsigned (wrapUnsigned n + 1) = wrapUnsigned (n + 1) := by
  simp [wrapUnsigned]

theorem wrapInt_add_one (n : Int) : wrapInt (wrapInt n + 1) = wrapInt (n + 1) := by
  simp only [wrapInt]
  omega

theorem isNumbered_emptyLine (settings : CatSettings) :
    isNumbered settings emptyLine = (settings.numberAll && !settings.numberNonblank) := by
  cases h : settings.numberNonblank <;> simp [isNumbered, h]

theorem isNumbered_of_ne {line : Line} (settings : CatSettings) (h : line ≠ emptyLine) :
    isNumbered settings line = (settings.numberAll || settings.numberNonblank) := by
  cases hb : settings.numberNonblank <;> simp [isNumbered, hb, h]

/-- The lines `Append` shows after `blankRun` empty ones. -/
def appendedLines (settings : CatSettings) (blankRun : Nat) : List Line → List Line
  | [] => []
  | line :: lines =>
      if line = emptyLine then
        if settings.squeezeBlank ∧ wrapInt (blankRun + 1) > 1 then
          appendedLines settings (blankRun + 1) lines
        else line :: appendedLines settings (blankRun + 1) lines
      else line :: appendedLines settings 0 lines

def wrappedNumberText (n : Nat) : Text := lineNumberText (wrapUnsigned n)

/-- What is left of a text when its first line has been begun. -/
def continued (settings : CatSettings) (number : Nat) : List Line → Text
  | [] => []
  | line :: lines =>
      shownLine settings line ++
        rendered settings wrappedNumberText number (appendedLines settings 0 lines)

theorem continued_beginWith (settings : CatSettings) (number : Nat) (c : Char)
    (lines : List Line) :
    continued settings number (beginWith c lines) =
      shownByte settings c ++ continued settings number lines := by
  cases lines with
  | nil => simp [beginWith, continued, shownLine, appendedLines, rendered]
  | cons line lines => simp [beginWith, continued, shownLine]

theorem rendered_beginWith (settings : CatSettings) (number blankRun : Nat) (c : Char)
    (lines : List Line) :
    rendered settings wrappedNumberText number
        (appendedLines settings blankRun (beginWith c lines)) =
      (if settings.numberAll || settings.numberNonblank then wrappedNumberText number else []) ++
        continued settings
          (if settings.numberAll || settings.numberNonblank then number + 1 else number)
          (beginWith c lines) := by
  have hne : ∀ content ended, (⟨c :: content, ended⟩ : Line) ≠ emptyLine := by simp [emptyLine]
  cases lines with
  | nil => simp [beginWith, continued, appendedLines, rendered, hne, isNumbered_of_ne settings]
  | cons line lines =>
      simp [beginWith, continued, appendedLines, rendered, hne, isNumbered_of_ne settings]

theorem appendEmptyLine_eq (settings : CatSettings) (number blankRun : Nat) :
    appendEmptyLine settings ⟨true, wrapUnsigned number, wrapInt blankRun⟩ =
      if settings.squeezeBlank ∧ wrapInt (blankRun + 1) > 1 then
        (⟨true, wrapUnsigned number, wrapInt (blankRun + 1)⟩, [])
      else if isNumbered settings emptyLine then
        (⟨true, wrapUnsigned (number + 1), wrapInt (blankRun + 1)⟩,
          wrappedNumberText (number + 1) ++ lineEnd settings)
      else (⟨true, wrapUnsigned number, wrapInt (blankRun + 1)⟩, lineEnd settings) := by
  simp [appendEmptyLine, appendLineNumber, wrapInt_add_one, wrapUnsigned_add_one,
    isNumbered_emptyLine, wrappedNumberText]

theorem startLine_eq (settings : CatSettings) (number : Nat) (blankRun : Int) :
    startLine settings ⟨true, wrapUnsigned number, blankRun⟩ =
      if settings.numberAll || settings.numberNonblank then
        (⟨false, wrapUnsigned (number + 1), 0⟩, wrappedNumberText (number + 1))
      else (⟨false, wrapUnsigned number, 0⟩, []) := by
  simp [startLine, appendLineNumber, wrapUnsigned_add_one, wrappedNumberText]

theorem shownLine_emptyLine (settings : CatSettings) :
    shownLine settings emptyLine = lineEnd settings := by
  simp [shownLine, emptyLine]

theorem append_snd (settings : CatSettings) (data : Text) :
    (∀ number blankRun : Nat,
      (append settings ⟨true, wrapUnsigned number, wrapInt blankRun⟩ data).2 =
        rendered settings wrappedNumberText (number + 1)
          (appendedLines settings blankRun (linesOf data))) ∧
    ∀ number : Nat, (append settings ⟨false, wrapUnsigned number, 0⟩ data).2 =
      continued settings (number + 1) (linesOf data) := by
  induction data with
  | nil => simp [append, linesOf, appendedLines, rendered, continued]
  | cons c data ih =>
      obtain ⟨ihStart, ihWithin⟩ := ih
      by_cases hc : c = '\n'
      · subst hc
        constructor
        · intro number blankRun
          simp only [append, appendByte, if_true, appendEmptyLine_eq, linesOf, appendedLines]
          have hnext := fun n => ihStart n (blankRun + 1)
          push_cast at hnext
          split_ifs <;> simp [rendered, shownLine_emptyLine, *]
        · intro number
          have hnext := ihStart number 0
          simp [append, appendByte, appendWithinLine, linesOf, continued, shownLine_emptyLine,
            wrapInt] at hnext ⊢
          exact hnext
      · constructor
        · intro number blankRun
          simp only [append, appendByte, if_true, if_neg hc, startLine_eq, linesOf,
            rendered_beginWith, continued_beginWith]
          split_ifs <;> simp [appendWithinLine_of_ne settings _ hc, ihWithin]
        · intro number
          have hnext := ihWithin number
          simp [append, appendByte, linesOf, hc, appendWithinLine_of_ne, continued_beginWith, hnext]

theorem run_eq (settings : CatSettings) (files : List (List Text)) :
    run settings files =
      rendered settings wrappedNumberText 1
        (appendedLines settings 0 (linesOf files.flatten.flatten)) := by
  have hstart := (append_snd settings files.flatten.flatten).1 0 0
  rw [run_eq_append]
  simpa [CatFormatter.new, wrapUnsigned, wrapInt] using hstart

/-! ## Runs of empty lines -/

/-- No run of empty lines goes past the greatest `int`, `blankRun` of them being over. -/
def RunsBelow (blankRun : Nat) : List Line → Prop
  | [] => blankRun < 2 ^ 31
  | line :: lines =>
      blankRun < 2 ^ 31 ∧ RunsBelow (if line = emptyLine then blankRun + 1 else 0) lines

theorem RunsBelow.lt {blankRun : Nat} {lines : List Line} (h : RunsBelow blankRun lines) :
    blankRun < 2 ^ 31 := by
  cases lines with
  | nil => exact h
  | cons line lines => exact h.1

theorem runsBelow_iff (blankRun : Nat) (lines : List Line) :
    RunsBelow blankRun lines ↔
      (∀ n, List.replicate n emptyLine <+: lines → blankRun + n < 2 ^ 31) ∧
        ∀ n, List.replicate n emptyLine <:+: lines → n < 2 ^ 31 := by
  induction lines generalizing blankRun with
  | nil =>
      simp only [RunsBelow, List.prefix_nil, List.infix_nil, List.replicate_eq_nil_iff,
        forall_eq, Nat.add_zero]
      simp
  | cons line lines ih =>
      rw [RunsBelow, ih]
      simp only [List.infix_cons_iff, or_imp, forall_and]
      rw [← Nat.and_forall_add_one (p := fun n =>
        List.replicate n emptyLine <+: line :: lines → blankRun + n < 2 ^ 31)]
      by_cases hline : line = emptyLine
      · subst hline
        simp only [if_true, List.replicate_succ, List.cons_prefix_cons, true_and]
        constructor
        · rintro ⟨hstart, hbelow, hwithin⟩
          refine ⟨⟨fun _ => by simpa using hstart, ?_⟩, ?_, hwithin⟩
          · intro n hn
            have := hbelow n hn
            omega
          · intro n hn
            cases n with
            | zero => simp
            | succ n =>
                rw [List.replicate_succ, List.cons_prefix_cons] at hn
                have := hbelow n hn.2
                omega
        · rintro ⟨⟨hstart, hbelow⟩, -, hwithin⟩
          refine ⟨by simpa using hstart, ?_, hwithin⟩
          intro n hn
          have := hbelow n hn
          omega
      · simp only [hline, if_false, List.replicate_succ, List.cons_prefix_cons, Ne.symm hline]
        constructor
        · rintro ⟨hstart, hbelow, hwithin⟩
          refine ⟨⟨fun _ => by simpa using hstart, by simp⟩, ?_, hwithin⟩
          intro n hn
          cases n with
          | zero => simp
          | succ n =>
              rw [List.replicate_succ, List.cons_prefix_cons] at hn
              exact absurd hn.1.symm hline
        · rintro ⟨⟨hstart, -⟩, -, hwithin⟩
          refine ⟨by simpa using hstart, ?_, hwithin⟩
          intro n hn
          simpa using hwithin n hn.isInfix

theorem wrapInt_of_lt {n : Nat} (h : n < 2 ^ 31) : wrapInt n = n := by
  simp only [wrapInt]
  omega

theorem appendedLines_of_not_squeeze {settings : CatSettings} (h : settings.squeezeBlank = false)
    (blankRun : Nat) (lines : List Line) : appendedLines settings blankRun lines = lines := by
  induction lines generalizing blankRun with
  | nil => rfl
  | cons line lines ih => simp [appendedLines, h, ih]

theorem appendedLines_of_runsBelow {settings : CatSettings} (h : settings.squeezeBlank = true)
    {blankRun : Nat} {lines : List Line} (hruns : RunsBelow blankRun lines) :
    appendedLines settings blankRun lines = squeezed (decide (0 < blankRun)) lines := by
  induction lines generalizing blankRun with
  | nil => rfl
  | cons line lines ih =>
      obtain ⟨hstart, hruns⟩ := hruns
      have hrest := ih hruns
      by_cases hline : line = emptyLine
      · simp only [hline, if_true] at hruns hrest
        have hcount : wrapInt (blankRun + 1) = (blankRun : Int) + 1 := by
          have := wrapInt_of_lt hruns.lt
          push_cast at this
          exact this
        have hgreater : (blankRun : Int) + 1 > 1 ↔ 0 < blankRun := by omega
        by_cases hfirst : 0 < blankRun <;>
          simp only [appendedLines, squeezed, hline, h, hcount, hrest, hgreater, hfirst] <;> simp
      · simp only [hline, if_false] at hrest
        simp [appendedLines, squeezed, hline, hrest]

/-! ## The newlines tell the runs -/

def newlines (settings : CatSettings) (lines : List Line) : Nat :=
  (lines.map fun line => (shownLine settings line).count '\n').sum

theorem newline_notMem_lineNumberText (n : Nat) : '\n' ∉ lineNumberText n := by
  have hdigits : '\n' ∉ natText n := by
    intro h
    have := Nat.isDigit_of_mem_toDigits (by omega) (by omega) h
    revert this
    decide
  simp [lineNumberText, List.leftpad, hdigits, List.mem_replicate]

theorem count_newline_rendered {numberText : Nat → Text} (settings : CatSettings) (number : Nat)
    (lines : List Line) (h : ∀ n, '\n' ∉ numberText n) :
    (rendered settings numberText number lines).count '\n' = newlines settings lines := by
  induction lines generalizing number with
  | nil => simp [rendered, newlines]
  | cons line lines ih =>
      have hnumber := List.count_eq_zero_of_not_mem (h number)
      cases hn : isNumbered settings line <;>
        simp [rendered, newlines, hn, hnumber, ih]

theorem newlines_cons (settings : CatSettings) (line : Line) (lines : List Line) :
    newlines settings (line :: lines) =
      (shownLine settings line).count '\n' + newlines settings lines := by
  simp [newlines]

theorem one_le_count_emptyLine (settings : CatSettings) :
    1 ≤ (shownLine settings emptyLine).count '\n' := by
  cases h : settings.showEnds <;> simp [shownLine_emptyLine, lineEnd, h] <;> decide

theorem newlines_squeezed_le (settings : CatSettings) (blankRun : Nat) (lines : List Line) :
    newlines settings (squeezed (decide (0 < blankRun)) lines) ≤
      newlines settings (appendedLines settings blankRun lines) := by
  induction lines generalizing blankRun with
  | nil => simp [squeezed, appendedLines]
  | cons line lines ih =>
      by_cases hline : line = emptyLine
      · have hrest := ih (blankRun + 1)
        have hpos : decide (0 < blankRun + 1) = true := by simp
        rw [hpos] at hrest
        by_cases hfirst : 0 < blankRun
        · simp only [squeezed, appendedLines, hline, if_true, hfirst, decide_true]
          split_ifs
          · exact hrest
          · rw [newlines_cons]
            omega
        · have hzero : blankRun = 0 := by omega
          subst hzero
          simp only [squeezed, appendedLines, hline, if_true]
          simp [newlines_cons, wrapInt] at hrest ⊢
          exact hrest
      · have hrest := ih 0
        simp only [squeezed, appendedLines, hline, if_false, newlines_cons]
        simp at hrest
        omega

theorem newlines_squeezed_lt {settings : CatSettings} (h : settings.squeezeBlank = true)
    {blankRun : Nat} {lines : List Line} (hstart : blankRun < 2 ^ 31)
    (hruns : ¬ RunsBelow blankRun lines) :
    newlines settings (squeezed (decide (0 < blankRun)) lines) <
      newlines settings (appendedLines settings blankRun lines) := by
  induction lines generalizing blankRun with
  | nil => exact absurd hstart hruns
  | cons line lines ih =>
      have hrest : ¬ RunsBelow (if line = emptyLine then blankRun + 1 else 0) lines := by
        intro hbelow
        exact hruns ⟨hstart, hbelow⟩
      by_cases hline : line = emptyLine
      · simp only [hline, if_true] at hrest
        by_cases hnext : blankRun + 1 < 2 ^ 31
        · have hlt := ih hnext hrest
          have hcount : wrapInt (blankRun + 1) = (blankRun : Int) + 1 := by
            have := wrapInt_of_lt hnext
            push_cast at this
            exact this
          have hgreater : (blankRun : Int) + 1 > 1 ↔ 0 < blankRun := by omega
          have hpos : decide (0 < blankRun + 1) = true := by simp
          rw [hpos] at hlt
          by_cases hfirst : 0 < blankRun <;>
            simp only [appendedLines, squeezed, hline, h, hcount, hgreater, hfirst] <;>
            simp [newlines_cons, hlt]
        · -- The counter wraps here, and the line is shown again.
          have hlast : blankRun = 2 ^ 31 - 1 := by omega
          have hcount : ¬ wrapInt (blankRun + 1) > 1 := by
            subst hlast
            decide
          have hfirst : 0 < blankRun := by omega
          have hle := newlines_squeezed_le settings (blankRun + 1) lines
          have hpos : decide (0 < blankRun + 1) = true := by simp
          have hone := one_le_count_emptyLine settings
          rw [hpos] at hle
          simp only [appendedLines, squeezed, hline, hcount, hfirst]
          simp only [if_true, decide_true, and_false, if_false, newlines_cons]
          omega
      · simp only [hline, if_false] at hrest
        have hlt := ih (by omega) hrest
        simp only [squeezed, appendedLines, hline, if_false, newlines_cons]
        simp at hlt
        omega

/-! ## The length tells the numbers -/

theorem length_natText_le {m n : Nat} (h : m ≤ n) :
    (natText m).length ≤ (natText n).length := by
  have hpos : 0 < (natText n).length := Nat.length_toDigits_pos
  have hlt : n < 10 ^ (natText n).length :=
    (Nat.length_toDigits_le_iff (by omega) hpos).mp le_rfl
  exact (Nat.length_toDigits_le_iff (by omega) hpos).mpr (by omega)

theorem length_lineNumberText (n : Nat) :
    (lineNumberText n).length = max 6 (natText n).length + 1 := by
  simp [lineNumberText, List.leftpad]
  omega

theorem length_wrappedNumberText_le (n : Nat) :
    (wrappedNumberText n).length ≤ (lineNumberText n).length := by
  have := length_natText_le (Nat.mod_le n (2 ^ 64))
  simp only [wrappedNumberText, length_lineNumberText, wrapUnsigned]
  omega

theorem length_wrappedNumberText_lt :
    (wrappedNumberText (2 ^ 64)).length < (lineNumberText (2 ^ 64)).length := by
  have hlong : ¬ (natText (2 ^ 64)).length ≤ 6 := by
    rw [natText, Nat.length_toDigits_le_iff (by omega) (by omega)]
    omega
  have hshort : (natText 0).length ≤ 6 := by decide
  simp only [wrappedNumberText, length_lineNumberText, wrapUnsigned, Nat.mod_self]
  omega

theorem length_rendered_le {before after : Nat → Text} (settings : CatSettings) (number : Nat)
    (lines : List Line) (hle : ∀ n, (before n).length ≤ (after n).length) :
    (rendered settings before number lines).length ≤
      (rendered settings after number lines).length := by
  induction lines generalizing number with
  | nil => simp [rendered]
  | cons line lines ih =>
      have hnumber := hle number
      cases hn : isNumbered settings line
      · have := ih number
        simpa [rendered, hn] using this
      · have := ih (number + 1)
        simp only [rendered, hn, if_true, List.length_append]
        omega

theorem length_rendered_lt {before after : Nat → Text} {bound : Nat} (settings : CatSettings)
    (number : Nat) (lines : List Line) (hle : ∀ n, (before n).length ≤ (after n).length)
    (hlt : (before bound).length < (after bound).length) (hstart : number ≤ bound)
    (hbound : bound < number + (lines.filter (isNumbered settings)).length) :
    (rendered settings before number lines).length <
      (rendered settings after number lines).length := by
  induction lines generalizing number with
  | nil =>
      simp at hbound
      omega
  | cons line lines ih =>
      cases hn : isNumbered settings line
      · rw [List.filter_cons_of_neg (by simp [hn])] at hbound
        have := ih number hstart hbound
        simpa [rendered, hn] using this
      · rw [List.filter_cons_of_pos hn, List.length_cons] at hbound
        simp only [rendered, hn, if_true, List.length_append]
        by_cases heq : number = bound
        · subst heq
          have := length_rendered_le settings (number + 1) lines hle
          omega
        · have := ih (number + 1) (by omega) (by omega)
          have := hle number
          omega

theorem rendered_wrapped {settings : CatSettings} {number : Nat} {lines : List Line}
    (h : number + (lines.filter (isNumbered settings)).length ≤ 2 ^ 64) :
    rendered settings wrappedNumberText number lines =
      rendered settings lineNumberText number lines := by
  induction lines generalizing number with
  | nil => rfl
  | cons line lines ih =>
      cases hn : isNumbered settings line
      · rw [List.filter_cons_of_neg (by simp [hn])] at h
        simp [rendered, hn, ih h]
      · rw [List.filter_cons_of_pos hn, List.length_cons] at h
        have hnumber : wrappedNumberText number = lineNumberText number := by
          rw [wrappedNumberText, wrapUnsigned, Nat.mod_eq_of_lt (by omega)]
        have hrest := @ih (number + 1) (by omega)
        simp [rendered, hn, hnumber, hrest]

/-! ## The whole of it -/

theorem appendedLines_eq_shownLines {settings : CatSettings} {lines : List Line}
    (h : settings.squeezeBlank → RunsBelow 0 lines) :
    appendedLines settings 0 lines = shownLines settings lines := by
  cases hsqueeze : settings.squeezeBlank
  · simp [shownLines, hsqueeze, appendedLines_of_not_squeeze hsqueeze]
  · simpa [shownLines, hsqueeze] using appendedLines_of_runsBelow hsqueeze (h hsqueeze)

theorem countable_iff (settings : CatSettings) (input : Text) :
    Countable settings input ↔
      (settings.squeezeBlank → RunsBelow 0 (linesOf input)) ∧
        ((shownLines settings (linesOf input)).filter (isNumbered settings)).length < 2 ^ 64 := by
  have hruns : (∀ n, List.replicate n emptyLine <:+: linesOf input → n < 2 ^ 31) ↔
      RunsBelow 0 (linesOf input) := by
    rw [runsBelow_iff]
    constructor
    · intro hwithin
      refine ⟨?_, hwithin⟩
      intro n hn
      simpa using hwithin n hn.isInfix
    · rintro ⟨-, hwithin⟩
      exact hwithin
  rw [Countable, hruns]

theorem run_ne_reference_of_runs {settings : CatSettings} {files : List (List Text)}
    (hsqueeze : settings.squeezeBlank = true)
    (hruns : ¬ RunsBelow 0 (linesOf files.flatten.flatten)) :
    run settings files ≠ reference settings files.flatten.flatten := by
  intro heq
  have hcount := congrArg (List.count '\n') heq
  have hlt := newlines_squeezed_lt hsqueeze (by omega) hruns
  have hwrapped : ∀ n, '\n' ∉ wrappedNumberText n := by
    intro n
    exact newline_notMem_lineNumberText (wrapUnsigned n)
  rw [run_eq, count_newline_rendered settings 1 _ hwrapped, reference,
    count_newline_rendered settings 1 _ newline_notMem_lineNumberText, shownLines,
    if_pos hsqueeze] at hcount
  simp only [Nat.lt_irrefl, decide_false] at hlt
  omega

theorem run_ne_reference_of_numbers {settings : CatSettings} {files : List (List Text)}
    (hruns : settings.squeezeBlank → RunsBelow 0 (linesOf files.flatten.flatten))
    (hnumbers : ¬ ((shownLines settings (linesOf files.flatten.flatten)).filter
      (isNumbered settings)).length < 2 ^ 64) :
    run settings files ≠ reference settings files.flatten.flatten := by
  intro heq
  have hlength := congrArg List.length heq
  have hlt := length_rendered_lt settings 1
    (shownLines settings (linesOf files.flatten.flatten)) length_wrappedNumberText_le
    length_wrappedNumberText_lt (by omega) (by omega)
  rw [run_eq, appendedLines_eq_shownLines hruns, reference] at hlength
  omega

/-- However the input is cut into files and chunks, what is written is what the whole of it
says, as long as the counters hold it. -/
theorem run_eq_reference_iff (settings : CatSettings) (files : List (List Text)) :
    run settings files = reference settings files.flatten.flatten ↔
      Countable settings files.flatten.flatten := by
  rw [countable_iff]
  constructor
  · intro heq
    have hruns : settings.squeezeBlank → RunsBelow 0 (linesOf files.flatten.flatten) := by
      intro hsqueeze
      by_contra hruns
      exact run_ne_reference_of_runs hsqueeze hruns heq
    refine ⟨hruns, ?_⟩
    by_contra hnumbers
    exact run_ne_reference_of_numbers hruns hnumbers heq
  · rintro ⟨hruns, hnumbers⟩
    rw [run_eq, appendedLines_eq_shownLines hruns, reference]
    apply rendered_wrapped
    omega

theorem linesOf_newlines (n : Nat) :
    linesOf (List.replicate n '\n') = List.replicate n emptyLine := by
  induction n with
  | zero => rfl
  | succ n ih => simp [List.replicate_succ, linesOf, ih]

/-- With `-s`, 2^31 empty lines are shown as two. -/
theorem run_squeeze_newlines :
    run ⟨false, false, true, false, false, false⟩ [[List.replicate (2 ^ 31) '\n']] ≠
      reference ⟨false, false, true, false, false, false⟩ (List.replicate (2 ^ 31) '\n') := by
  have hruns : ¬ RunsBelow 0 (linesOf [[List.replicate (2 ^ 31) '\n']].flatten.flatten) := by
    intro hbelow
    have hwithin := ((runsBelow_iff _ _).mp hbelow).2 (2 ^ 31)
    rw [List.flatten_singleton, List.flatten_singleton, linesOf_newlines] at hwithin
    exact absurd (hwithin (List.infix_refl _)) (lt_irrefl _)
  have hne := @run_ne_reference_of_runs ⟨false, false, true, false, false, false⟩ _ rfl hruns
  rwa [List.flatten_singleton, List.flatten_singleton] at hne

end Haisos.BuiltinCommands.Cat
