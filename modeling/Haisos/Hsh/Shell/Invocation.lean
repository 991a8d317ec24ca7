import Haisos.Hsh.Shell.Execute

/-!
# What a shell is asked to run

`HshInvocation.cpp`, and the arguments `StartBackgroundShell` hands to the shell
it starts.
-/

namespace Haisos.Hsh.Shell

inductive Source where
  | commandString | scriptFile | standardInput
  deriving DecidableEq, Repr

structure Invocation where
  source : Source := .standardInput
  commandString : Text := []
  scriptPath : Text := []
  arg0 : Text := text "hsh"
  positional : List Text := []
  options : ShellOptions := {}
  notTreated : List Text := []
  error : Text := []
  deriving DecidableEq, Repr

/-- `FindShellOption` of a letter: an option without one has the letter 0. -/
def findShellOption (letter : Char) : Option ShellOptionInfo :=
  shellOptionTable.find? fun info => info.letter.getD (Char.ofNat 0) = letter

/-- `FindShellOption` of a name. -/
def findShellOptionNamed (name : Text) : Option ShellOptionInfo :=
  shellOptionTable.find? fun info => info.name = name

/-- The invocation so far, and whether `-c` was there. -/
structure Scan where
  invocation : Invocation := {}
  commandStringFlag : Bool := false

def Scan.failed (scan : Scan) (error : Text) : Invocation :=
  { scan.invocation with error := error }

def Scan.reported (scan : Scan) (spelling : Text) : Scan :=
  { scan with
    invocation := { scan.invocation with
      notTreated := scan.invocation.notTreated ++ [spelling] } }

def sign (on : Bool) : Text := if on then text "-" else text "+"

/-- An option that is there: set, or reported when the shell does not act on it. -/
def Scan.treated (scan : Scan) (on : Bool) (spelling : Text) (info : ShellOptionInfo) : Scan :=
  match info.field with
  | none => scan.reported spelling
  | some field =>
      { scan with
        invocation := { scan.invocation with options := field.set on scan.invocation.options } }

/-- The letters of one cluster, with the arguments after it: each `o` takes one of them. -/
def scanLetters (on : Bool) (scan : Scan) :
    Text → List Text → Except Invocation (Scan × List Text)
  | [], rest => .ok (scan, rest)
  | letter :: letters, rest =>
      if letter = 'c' then scanLetters on { scan with commandStringFlag := true } letters rest
      else if letter = 'l' then scanLetters on (scan.reported (sign on ++ text "l")) letters rest
      else if letter = 'o' then
        match rest with
        | [] => .error (scan.failed (text "-o requires an argument"))
        | name :: rest =>
            match findShellOptionNamed name with
            | none => .error (scan.failed (text "Illegal option " ++ sign on ++ text "o " ++ name))
            | some info =>
                scanLetters on (scan.treated on (sign on ++ text "o " ++ name) info) letters rest
      else
        match findShellOption letter with
        | none => .error (scan.failed (text "Illegal option " ++ sign on ++ [letter]))
        | some info => scanLetters on (scan.treated on (sign on ++ [letter]) info) letters rest

theorem length_of_scanLetters {on : Bool} {scan scan' : Scan} {letters : Text}
    {rest rest' : List Text} (h : scanLetters on scan letters rest = .ok (scan', rest')) :
    rest'.length ≤ rest.length := by
  fun_induction scanLetters on scan letters rest with
  | case1 => simp_all
  | case2 scan letters rest ih => exact ih h
  | case3 scan letters rest _ ih => exact ih h
  | case4 => cases h
  | case5 => cases h
  | case6 scan letters _ _ name rest info hinfo ih =>
      have := ih h
      simp
      omega
  | case7 => cases h
  | case8 scan letter letters rest _ _ _ info hinfo ih => exact ih h

/-- The options end at the first operand, or after `--` or `-`. -/
def scanArguments (scan : Scan) : List Text → Except Invocation (Scan × List Text)
  | [] => .ok (scan, [])
  | argument :: rest =>
      if argument.head? ≠ some '-' ∧ argument.head? ≠ some '+' then .ok (scan, argument :: rest)
      else if argument = text "--" ∨ argument = text "-" then .ok (scan, rest)
      else if argument = text "+" then .ok (scan, argument :: rest)
      else if argument.head? = some '-' ∧ argument.length > 2 ∧ argument[1]? = some '-' then
        .error (scan.failed (text "Illegal option --"))
      else
        match _h : scanLetters (argument.head? = some '-') scan argument.tail rest with
        | .error invocation => .error invocation
        | .ok (scan, rest) => scanArguments scan rest
  termination_by arguments => arguments.length
  decreasing_by
    have := length_of_scanLetters _h
    simp
    omega

def Scan.resolve (scan : Scan) (arguments : List Text) : Invocation :=
  if scan.commandStringFlag then
    match arguments with
    | [] => scan.failed (text "-c requires an argument")
    | [commandString] =>
        { scan.invocation with source := .commandString, commandString, positional := [] }
    | commandString :: arg0 :: positional =>
        { scan.invocation with source := .commandString, commandString, arg0, positional }
  else
    match arguments with
    | [] =>
        { scan.invocation with
          source := .standardInput
          options := { scan.invocation.options with stdinInput := true }
          positional := [] }
    | scriptPath :: positional =>
        if scan.invocation.options.stdinInput then
          { scan.invocation with
            source := .standardInput
            options := { scan.invocation.options with stdinInput := true }
            positional := scriptPath :: positional }
        else { scan.invocation with source := .scriptFile, scriptPath, arg0 := scriptPath, positional }

def parseInvocation (arguments : List Text) : Invocation :=
  match scanArguments {} arguments with
  | .error invocation => invocation
  | .ok (scan, rest) => scan.resolve rest

/-! ## Handing over to a background shell -/

/-- The arguments of the shell that runs a background list. -/
def backgroundArguments (state : ShellState) (functions : List (Text × FunctionDefinition))
    (sourceText : Text) : List Text :=
  backgroundOptions state.options ++
    [text "-c", backgroundScript functions sourceText, state.arg0] ++ state.positional

/-- The six options that are handed over, the others as they are at the start. -/
def handedOptions (options : ShellOptions) : ShellOptions :=
  { nounset := options.nounset
    allexport := options.allexport
    noclobber := options.noclobber
    xtrace := options.xtrace
    noglob := options.noglob
    errexit := options.errexit }

/-- What the background shell is meant to be asked. -/
def handedOver (state : ShellState) (functions : List (Text × FunctionDefinition))
    (sourceText : Text) : Invocation :=
  { source := .commandString
    commandString := backgroundScript functions sourceText
    arg0 := state.arg0
    positional := state.positional
    options := handedOptions state.options }

/-- The text the script begins with: the first function's, or the list's own. -/
def openingText (functions : List (Text × FunctionDefinition)) (sourceText : Text) : Text :=
  match functions with
  | [] => sourceText
  | function :: _ => function.2.sourceText

/-- An argument that begins with a sign is taken for options. -/
def BeginsWithSign (argument : Text) : Prop :=
  argument.head? = some '-' ∨ argument.head? = some '+'

instance (argument : Text) : Decidable (BeginsWithSign argument) :=
  inferInstanceAs (Decidable (_ ∨ _))

section

variable {ω D P : Type} [DecidableEq P] (machine : Machine ω D P)

/-- The end of `StartBackgroundShell`: a shell with an empty standard input. -/
def startShellOn (arguments : List Text) : Sh ω D P Int := do
  let keptIn ← look ((system machine).getDescriptor standardInput)
  let nullInput ← perform (Members.onOutside machine.createNullInput)
  let _ ← placeDescriptor (shellFiles machine) standardInput (some nullInput)
  let child ← startChild machine machine.shellPath arguments []
  let _ ← placeDescriptor (shellFiles machine) standardInput keptIn
  match child with
  | none => do
      report machine (text "fork: Resource temporarily unavailable")
      pure 2
  | some child => do
      recordJob machine { processes := [child], pid := machine.processId child }
      pure 0

theorem startBackgroundShell_eq (sourceText : Text) :
    startBackgroundShell machine sourceText = (do
      let state ← getState
      let members ← getMembers
      startShellOn machine (backgroundArguments state members.functions sourceText)) := rfl

end

/-! ### The options -/

def letterWhen (on : Bool) (letter : Char) : Text := if on then [letter] else []

def handedLetters (options : ShellOptions) : Text :=
  letterWhen options.nounset 'u' ++ letterWhen options.allexport 'a' ++
    letterWhen options.noclobber 'C' ++ letterWhen options.xtrace 'x' ++
    letterWhen options.noglob 'f' ++ letterWhen options.errexit 'e'

theorem backgroundOptions_eq (options : ShellOptions) :
    backgroundOptions options =
      if handedLetters options = [] then [] else ['-' :: handedLetters options] := by
  obtain ⟨errexit, noglob, _, _, _, xtrace, _, noclobber, allexport, nounset⟩ := options
  cases nounset <;> cases allexport <;> cases noclobber <;> cases xtrace <;> cases noglob <;>
    cases errexit <;> rfl

theorem mem_handedLetters {options : ShellOptions} {letter : Char}
    (h : letter ∈ handedLetters options) : letter ∈ text "uaCxfe" := by
  have hwhen : ∀ {on : Bool} {c : Char}, letter ∈ letterWhen on c → letter = c := by
    intro on c hmem
    cases on
    · simp [letterWhen] at hmem
    · simpa [letterWhen] using hmem
  simp only [handedLetters, List.mem_append] at h
  rcases h with ((((h | h) | h) | h) | h) | h <;> rw [hwhen h] <;> decide

theorem scanLetters_letterWhen {letter : Char} {field : OptionField} {info : ShellOptionInfo}
    (hfind : findShellOption letter = some info) (hfield : info.field = some field)
    (hplain : letter ≠ 'c' ∧ letter ≠ 'l' ∧ letter ≠ 'o') (present : Bool)
    (options : ShellOptions) (letters : Text) (rest : List Text) :
    scanLetters true { invocation := { options } } (letterWhen present letter ++ letters) rest =
      scanLetters true
        { invocation := { options := if present then field.set true options else options } }
        letters rest := by
  obtain ⟨hc, hl, ho⟩ := hplain
  cases present
  · rfl
  · simp [letterWhen, scanLetters, hc, hl, ho, hfind, Scan.treated, hfield]

theorem scanLetters_handedLetters (options : ShellOptions) (rest : List Text) :
    scanLetters true {} (handedLetters options) rest =
      .ok ({ invocation := { options := handedOptions options } }, rest) := by
  have hstart : ({} : Scan) = { invocation := { options := {} } } := rfl
  rw [hstart, ← List.append_nil (handedLetters options)]
  simp only [handedLetters, List.append_assoc]
  rw [scanLetters_letterWhen rfl rfl (by decide),
    scanLetters_letterWhen rfl rfl (by decide),
    scanLetters_letterWhen rfl rfl (by decide),
    scanLetters_letterWhen rfl rfl (by decide),
    scanLetters_letterWhen rfl rfl (by decide),
    scanLetters_letterWhen rfl rfl (by decide), scanLetters, handedOptions]
  cases options.nounset <;> cases options.allexport <;> cases options.noclobber <;>
    cases options.xtrace <;> cases options.noglob <;> cases options.errexit <;> rfl

theorem scanArguments_dash {scan scan' : Scan} {letters : Text} {rest rest' : List Text}
    (hletters : letters ≠ []) (hdash : letters.head? ≠ some '-')
    (hscan : scanLetters true scan letters rest = .ok (scan', rest')) :
    scanArguments scan (('-' :: letters) :: rest) = scanArguments scan' rest' := by
  have hlong : '-' :: letters ≠ text "--" := by
    intro h
    rw [show letters = ['-'] from (List.cons.inj h).2] at hdash
    exact hdash rfl
  have hlone : '-' :: letters ≠ text "-" := by
    intro h
    exact hletters (List.cons.inj h).2
  have hplus : '-' :: letters ≠ text "+" := by
    intro h
    exact absurd (List.cons.inj h).1 (by decide)
  rw [scanArguments, if_neg (by simp), if_neg (by simp [hlong, hlone]), if_neg hplus, if_neg]
  · split
    · rename_i invocation herror
      simp [hscan] at herror
    · rename_i next left hok
      simp [hscan] at hok
      rw [hok.1, hok.2]
  · rintro ⟨-, -, hsecond⟩
    rw [List.getElem?_cons_succ, ← List.head?_eq_getElem?] at hsecond
    exact hdash hsecond

theorem scanArguments_operand {scan : Scan} {argument : Text} {rest : List Text}
    (h : ¬ BeginsWithSign argument) :
    scanArguments scan (argument :: rest) = .ok (scan, argument :: rest) := by
  rw [scanArguments, if_pos (by simpa [BeginsWithSign] using h)]

theorem scanArguments_backgroundOptions (options : ShellOptions) (rest : List Text) :
    scanArguments {} (backgroundOptions options ++ rest) =
      scanArguments { invocation := { options := handedOptions options } } rest := by
  have hscan := scanLetters_handedLetters options rest
  rw [backgroundOptions_eq]
  split_ifs with hnone
  · rw [hnone, scanLetters] at hscan
    injection hscan with hscan
    have hstart := congrArg Prod.fst hscan
    simp only at hstart
    rw [← hstart, List.nil_append]
  · apply scanArguments_dash hnone _ hscan
    intro hdash
    have hmem := mem_handedLetters (List.mem_of_mem_head? hdash)
    revert hmem
    decide

theorem scanLetters_newline {letters : Text} (on : Bool) (scan : Scan) (rest : List Text)
    (h : '\n' ∈ letters) :
    ∃ invocation, scanLetters on scan letters rest = .error invocation ∧
      invocation.error ≠ [] := by
  have hnone : findShellOption '\n' = none := by decide
  fun_induction scanLetters on scan letters rest with
  | case1 => simp at h
  | case2 scan letters rest ih => exact ih (by simpa using h)
  | case3 scan letters rest _ ih => exact ih (by simpa using h)
  | case4 | case5 | case7 => simp [Scan.failed, text]
  | case6 scan letters _ _ name rest info hinfo ih => exact ih (by simpa using h)
  | case8 scan letter letters rest _ _ _ info hinfo ih =>
      apply ih
      rcases List.mem_cons.mp h with rfl | h
      · rw [hnone] at hinfo
        cases hinfo
      · exact h

theorem scanArguments_sign {argument : Text} (scan : Scan) (rest : List Text)
    (hsign : BeginsWithSign argument) (hnewline : '\n' ∈ argument) :
    ∃ invocation, scanArguments scan (argument :: rest) = .error invocation ∧
      invocation.error ≠ [] := by
  have hne : argument ≠ text "--" ∧ argument ≠ text "-" ∧ argument ≠ text "+" := by
    refine ⟨?_, ?_, ?_⟩ <;> rintro rfl <;> revert hnewline <;> decide
  have htail : '\n' ∈ argument.tail := by
    cases argument with
    | nil => simp at hnewline
    | cons first letters =>
        rcases List.mem_cons.mp hnewline with rfl | h
        · simp [BeginsWithSign] at hsign
        · exact h
  rw [scanArguments, if_neg (by simpa [BeginsWithSign, imp_iff_not_or] using hsign),
    if_neg (by simp [hne]), if_neg hne.2.2]
  split_ifs
  · simp [Scan.failed, text]
  · obtain ⟨invocation, hscan, herror⟩ :=
      scanLetters_newline (decide (argument.head? = some '-')) scan rest htail
    refine ⟨invocation, ?_, herror⟩
    split
    · rename_i failed hfailed
      rw [hscan] at hfailed
      rw [Except.error.inj hfailed]
    · rename_i next left hok
      rw [hscan] at hok
      cases hok

/-! ### The script -/

theorem beginsWithSign_backgroundScript (functions : List (Text × FunctionDefinition))
    (sourceText : Text) :
    BeginsWithSign (backgroundScript functions sourceText) ↔
      BeginsWithSign (openingText functions sourceText) := by
  have hopening : ∀ opening rest : Text,
      BeginsWithSign (opening ++ '\n' :: rest) ↔ BeginsWithSign opening := by
    intro opening rest
    cases opening <;> simp [BeginsWithSign]
  cases functions with
  | nil => exact hopening sourceText []
  | cons function functions =>
      simp only [backgroundScript, List.flatMap_cons, List.append_assoc, List.singleton_append,
        openingText]
      exact hopening _ _

theorem newline_mem_backgroundScript (functions : List (Text × FunctionDefinition))
    (sourceText : Text) : '\n' ∈ backgroundScript functions sourceText := by
  simp [backgroundScript]

theorem scanArguments_commandString (options : ShellOptions) (rest : List Text) :
    scanArguments { invocation := { options } } (text "-c" :: rest) =
      scanArguments { invocation := { options }, commandStringFlag := true } rest :=
  @scanArguments_dash _ _ ['c'] _ _ (by decide) (by decide) rfl

/-- A background shell is asked what its parent means unless its script begins with a sign. -/
theorem parseInvocation_backgroundArguments_iff (state : ShellState)
    (functions : List (Text × FunctionDefinition)) (item : ListItem HereDocument Text) :
    parseInvocation (backgroundArguments state functions item.sourceText) =
        handedOver state functions item.sourceText ↔
      ¬ BeginsWithSign (openingText functions item.sourceText) := by
  rw [← beginsWithSign_backgroundScript, parseInvocation, backgroundArguments, List.append_assoc,
    scanArguments_backgroundOptions]
  simp only [List.cons_append, List.nil_append, scanArguments_commandString]
  constructor
  · intro hasked hsign
    obtain ⟨invocation, hscan, herror⟩ := scanArguments_sign
      { invocation := { options := handedOptions state.options }, commandStringFlag := true }
      (state.arg0 :: state.positional) hsign
      (newline_mem_backgroundScript functions item.sourceText)
    rw [hscan] at hasked
    simp only at hasked
    rw [hasked] at herror
    exact herror rfl
  · intro hplain
    rw [scanArguments_operand hplain]
    simp [Scan.resolve, handedOver]

def wordPipeline (word : Text) : Pipeline HereDocument Text :=
  .mk false (.simple { line := 1, words := [{ parts := [.literal word], source := word }] }) [] 1

/-- `-x && y &`: the shell takes the list for options, and starts nothing. -/
def signedItem : ListItem HereDocument Text :=
  .mk (.chain (wordPipeline (text "-x")) .and (.last (wordPipeline (text "y")))) true
    (text "-x && y")

theorem parseInvocation_signedItem :
    parseInvocation (backgroundArguments {} [] signedItem.sourceText) ≠
      handedOver {} [] signedItem.sourceText := by
  have hsign : BeginsWithSign (backgroundScript [] signedItem.sourceText) := by decide
  obtain ⟨invocation, hscan, herror⟩ := scanArguments_sign { commandStringFlag := true }
    [text "hsh"] hsign (newline_mem_backgroundScript [] signedItem.sourceText)
  have hoptions : backgroundOptions {} = [] := rfl
  intro hasked
  rw [parseInvocation, backgroundArguments, hoptions, List.nil_append, List.cons_append,
    scanArguments_commandString] at hasked
  simp only [List.append_nil, hscan] at hasked
  rw [hasked] at herror
  exact herror rfl

end Haisos.Hsh.Shell
