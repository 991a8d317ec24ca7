import Mathlib.Tactic

/-!
# Words of shell input

POSIX token recognition and quote removal, one character at a time, with the `$'...'`
quoting beside them.  Where an input has anything besides words (an operator, an
expansion, a pattern, a comment, an assignment, or a quotation without its end) nothing
is read.
-/

namespace Haisos.ShellWords

inductive Mode
  | plain
  | escaped
  | dollar
  | single
  | double
  | doubleEscaped
  | dollarSingle
  | dollarEscaped
  | octal (value digits : Nat)
  deriving DecidableEq, Repr

structure Reader where
  words : List (List Char)
  word : Option (List Char)
  mode : Mode
  deriving DecidableEq, Repr

namespace Reader

def start : Reader := ⟨[], none, .plain⟩

def switch (reader : Reader) (mode : Mode) : Reader := { reader with mode }

def opens (reader : Reader) (mode : Mode) : Reader :=
  { reader with word := some (reader.word.getD []), mode }

def add (reader : Reader) (mode : Mode) (text : List Char) : Reader :=
  { reader with word := some (reader.word.getD [] ++ text), mode }

def ends (reader : Reader) : Reader :=
  { reader with words := reader.words ++ reader.word.toList, word := none }

end Reader

/-- An unquoted character that makes more of its word, or is no part of one. -/
def meansMore (c : Char) : Bool :=
  ['\n', '|', '&', ';', '<', '>', '(', ')', '`', '*', '?', '[', '='].contains c

/-- The character that a letter after a backslash stands for in `$'...'`. -/
def controlOf (c : Char) : Option Char :=
  if c = 'a' then some (Char.ofNat 7)
  else if c = 'b' then some (Char.ofNat 8)
  else if c = 't' then some (Char.ofNat 9)
  else if c = 'n' then some (Char.ofNat 10)
  else if c = 'v' then some (Char.ofNat 11)
  else if c = 'f' then some (Char.ofNat 12)
  else if c = 'r' then some (Char.ofNat 13)
  else none

def octalDigit (c : Char) : Option Nat :=
  if '0' ≤ c ∧ c ≤ '7' then some (c.toNat - '0'.toNat) else none

def stepPlain (reader : Reader) (c : Char) : Option Reader :=
  if c = '\'' then some (reader.opens .single)
  else if c = '"' then some (reader.opens .double)
  else if c = '\\' then some (reader.switch .escaped)
  else if c = '$' then some (reader.switch .dollar)
  else if c = ' ' ∨ c = '\t' then some reader.ends
  else if meansMore c ∨ (reader.word = none ∧ (c = '#' ∨ c = '~')) then none
  else some (reader.add .plain [c])

def stepDoubleEscaped (reader : Reader) (c : Char) : Reader :=
  if c = '\n' then reader.switch .double
  else if c = '$' ∨ c = '`' ∨ c = '"' ∨ c = '\\' then reader.add .double [c]
  else reader.add .double ['\\', c]

def stepDollarEscaped (reader : Reader) (c : Char) : Option Reader :=
  match controlOf c with
  | some control => some (reader.add .dollarSingle [control])
  | none => (octalDigit c).map fun digit => reader.switch (.octal digit 1)

def stepOctal (reader : Reader) (value digits : Nat) (c : Char) : Option Reader :=
  (octalDigit c).map fun digit =>
    if digits = 2 then reader.add .dollarSingle [Char.ofNat (value * 8 + digit)]
    else reader.switch (.octal (value * 8 + digit) (digits + 1))

def step (reader : Reader) (c : Char) : Option Reader :=
  match reader.mode with
  | .plain => stepPlain reader c
  | .escaped => some (if c = '\n' then reader.switch .plain else reader.add .plain [c])
  | .dollar => if c = '\'' then some (reader.opens .dollarSingle) else none
  | .single => some (if c = '\'' then reader.switch .plain else reader.add .single [c])
  | .double =>
      if c = '"' then some (reader.switch .plain)
      else if c = '\\' then some (reader.switch .doubleEscaped)
      else if c = '$' ∨ c = '`' then none
      else some (reader.add .double [c])
  | .doubleEscaped => some (stepDoubleEscaped reader c)
  | .dollarSingle =>
      some (if c = '\'' then reader.switch .plain
        else if c = '\\' then reader.switch .dollarEscaped
        else reader.add .dollarSingle [c])
  | .dollarEscaped => stepDollarEscaped reader c
  | .octal value digits => stepOctal reader value digits c

def run (reader : Reader) (text : List Char) : Option Reader := text.foldlM step reader

/-- The words of an input that has nothing else. -/
def readWords (text : List Char) : Option (List (List Char)) :=
  (run .start text).bind fun reader =>
    if reader.mode = .plain then some reader.ends.words else none

example : readWords "a 'b c'\\' $'\\t\\001'\"it's\"".toList =
    some ["a".toList, "b c'".toList, [Char.ofNat 9, Char.ofNat 1] ++ "it's".toList] := by
  decide

@[simp] theorem run_nil (reader : Reader) : run reader [] = some reader := rfl

@[simp] theorem run_cons (reader : Reader) (c : Char) (text : List Char) :
    run reader (c :: text) = (step reader c).bind fun reader => run reader text := rfl

theorem run_append (reader : Reader) (text more : List Char) :
    run reader (text ++ more) = (run reader text).bind fun reader => run reader more := by
  rw [run, List.foldlM_append]
  rfl

theorem run_append_of {reader reader' : Reader} {text : List Char}
    (h : run reader text = some reader') (more : List Char) :
    run reader (text ++ more) = run reader' more := by
  rw [run_append, h, Option.bind_some]

variable {words : List (List Char)} {word text : List Char}

theorem run_single (h : '\'' ∉ text) :
    run ⟨words, some word, .single⟩ text = some ⟨words, some (word ++ text), .single⟩ := by
  induction text generalizing word with
  | nil => simp
  | cons c text ih =>
      rw [List.mem_cons, not_or] at h
      simp only [run_cons, step, if_neg (Ne.symm h.1), Reader.add, Option.bind_some]
      rw [Option.getD_some, ih h.2, List.append_assoc, List.singleton_append]

def InDouble (c : Char) : Prop := c ≠ '"' ∧ c ≠ '\\' ∧ c ≠ '$' ∧ c ≠ '`'

theorem run_double (h : ∀ c ∈ text, InDouble c) :
    run ⟨words, some word, .double⟩ text = some ⟨words, some (word ++ text), .double⟩ := by
  induction text generalizing word with
  | nil => simp
  | cons c text ih =>
      rw [List.forall_mem_cons] at h
      obtain ⟨⟨hquote, hbackslash, hdollar, hbackquote⟩, htext⟩ := h
      simp only [run_cons, step, if_neg hquote, if_neg hbackslash, hdollar, hbackquote, or_self,
        if_false, Reader.add, Option.bind_some]
      rw [Option.getD_some, ih htext, List.append_assoc, List.singleton_append]

def InWord (c : Char) : Prop :=
  c ≠ '\'' ∧ c ≠ '"' ∧ c ≠ '\\' ∧ c ≠ '$' ∧ c ≠ ' ' ∧ c ≠ '\t' ∧ meansMore c = false

theorem step_inWord {c : Char} (h : InWord c) (before : Option (List Char))
    (hfirst : before = none → c ≠ '#' ∧ c ≠ '~') :
    step ⟨words, before, .plain⟩ c = some ⟨words, some (before.getD [] ++ [c]), .plain⟩ := by
  obtain ⟨hsingle, hdouble, hbackslash, hdollar, hspace, htab, hmore⟩ := h
  have hstarts : ¬ (before = none ∧ (c = '#' ∨ c = '~')) := by
    rintro ⟨hnone, hc | hc⟩
    · exact (hfirst hnone).1 hc
    · exact (hfirst hnone).2 hc
  simp [step, stepPlain, hsingle, hdouble, hbackslash, hdollar, hspace, htab, hmore, hstarts,
    Reader.add]

theorem run_inWord (h : ∀ c ∈ text, InWord c) :
    run ⟨words, some word, .plain⟩ text = some ⟨words, some (word ++ text), .plain⟩ := by
  induction text generalizing word with
  | nil => simp
  | cons c text ih =>
      rw [List.forall_mem_cons] at h
      rw [run_cons, step_inWord h.1 _ (by simp), Option.bind_some, Option.getD_some, ih h.2,
        List.append_assoc, List.singleton_append]

theorem readWords_inWord (h : ∀ c ∈ text, InWord c) (hne : text ≠ [])
    (hfirst : ∀ c ∈ text.head?, c ≠ '#' ∧ c ≠ '~') : readWords text = some [text] := by
  cases text with
  | nil => exact absurd rfl hne
  | cons c text =>
      rw [List.forall_mem_cons] at h
      have hstep : step .start c = some ⟨[], some [c], .plain⟩ :=
        step_inWord h.1 none fun _ => hfirst c rfl
      rw [readWords, run_cons, hstep, Option.bind_some, run_inWord h.2]
      rfl

theorem readWords_single (h : '\'' ∉ text) : readWords ('\'' :: text ++ ['\'']) = some [text] := by
  have hstep : run .start ('\'' :: text) = some ⟨[], some ([] ++ text), .single⟩ := run_single h
  rw [readWords, run_append_of hstep]
  rfl

theorem readWords_double (h : ∀ c ∈ text, InDouble c) :
    readWords ('"' :: text ++ ['"']) = some [text] := by
  have hstep : run .start ('"' :: text) = some ⟨[], some ([] ++ text), .double⟩ := run_double h
  rw [readWords, run_append_of hstep]
  rfl

theorem run_singleEscaped : run ⟨words, some word, .single⟩ ['\'', '\\', '\'', '\''] =
    some ⟨words, some (word ++ ['\'']), .single⟩ := rfl

theorem run_singleToDollar :
    run ⟨words, some word, .single⟩ ['\'', '$', '\''] = some ⟨words, some word, .dollarSingle⟩ :=
  rfl

end Haisos.ShellWords
