import Haisos.Hsh.Shell.State

/-!
# Builtins

The builtins of `hsh` that run no commands of their own.  What `test` makes of its
arguments is left open.
-/

namespace Haisos.Hsh.Shell

open StateExcept

variable {ω D P : Type}

/-! ## Numbers -/

def intMax : Nat := 2147483647

def digitValue (c : Char) : Nat := c.toNat - '0'.toNat

/-- `DecimalArgument`: one or more digits, fitting an `int`. -/
def decimalArgument (argument : Text) : Option Nat :=
  if argument.isEmpty then none
  else argument.foldlM (fun value c =>
    if isDigit c ∧ value ≤ (intMax - digitValue c) / 10 then some (value * 10 + digitValue c)
    else none) 0

def isBlank (c : Char) : Bool := c == ' ' || ('\t' ≤ c && c ≤ '\r')

/-- `Atomax10` within an `int` and not negative, which is what `shift` takes. -/
def shiftArgument (argument : Text) : Option Nat :=
  let number := argument.dropWhile isBlank
  let signed := number.head? = some '-' ∨ number.head? = some '+'
  let digits := (if signed then number.tail else number).takeWhile isDigit
  let rest := (if signed then number.tail else number).dropWhile isDigit
  let value := digits.foldl (fun value c => value * 10 + digitValue c) 0
  if digits.isEmpty ∨ !rest.all isBlank then none
  else if number.head? = some '-' then if value = 0 then some 0 else none
  else if value ≤ intMax then some value
  else none

/-! ## Options -/

structure OptionField where
  get : ShellOptions → Bool
  set : Bool → ShellOptions → ShellOptions

structure ShellOptionInfo where
  letter : Option Char
  name : Text
  field : Option OptionField

def shellOptionTable : List ShellOptionInfo :=
  [⟨some 'e', text "errexit", some ⟨(·.errexit), fun on o => { o with errexit := on }⟩⟩,
    ⟨some 'f', text "noglob", some ⟨(·.noglob), fun on o => { o with noglob := on }⟩⟩,
    ⟨some 'I', text "ignoreeof", none⟩,
    ⟨some 'i', text "interactive", some ⟨(·.interactive), fun on o => { o with interactive := on }⟩⟩,
    ⟨some 'm', text "monitor", none⟩,
    ⟨some 'n', text "noexec", some ⟨(·.noexec), fun on o => { o with noexec := on }⟩⟩,
    ⟨some 's', text "stdin", some ⟨(·.stdinInput), fun on o => { o with stdinInput := on }⟩⟩,
    ⟨some 'x', text "xtrace", some ⟨(·.xtrace), fun on o => { o with xtrace := on }⟩⟩,
    ⟨some 'v', text "verbose", none⟩,
    ⟨some 'V', text "vi", none⟩,
    ⟨some 'E', text "emacs", none⟩,
    ⟨some 'C', text "noclobber", some ⟨(·.noclobber), fun on o => { o with noclobber := on }⟩⟩,
    ⟨some 'a', text "allexport", some ⟨(·.allexport), fun on o => { o with allexport := on }⟩⟩,
    ⟨some 'b', text "notify", none⟩,
    ⟨some 'u', text "nounset", some ⟨(·.nounset), fun on o => { o with nounset := on }⟩⟩,
    ⟨some 'p', text "privileged", none⟩,
    ⟨none, text "nolog", none⟩,
    ⟨none, text "debug", none⟩]

def OptionField.isOn (options : ShellOptions) (info : ShellOptionInfo) : Bool :=
  (info.field.map (·.get options)).getD false

/-! ## Quoting -/

/-- `ShellSingleQuote`: runs of quotes in double quotes, the text between them in single ones. -/
def singleQuoteFrom : Nat → Text → Text
  | 0, _ => []
  | fuel + 1, value =>
      let plain := value.takeWhile (· ≠ '\'')
      let rest := value.dropWhile (· ≠ '\'')
      let quotes := rest.takeWhile (· = '\'')
      let after := rest.dropWhile (· = '\'')
      ['\''] ++ plain ++ ['\''] ++
        if quotes.isEmpty then []
        else ['"'] ++ quotes ++ ['"'] ++ if after.isEmpty then [] else singleQuoteFrom fuel after

def shellSingleQuote (value : Text) : Text := singleQuoteFrom (value.length + 1) value

/-! ## What the builtins know besides -/

structure Knowledge (ω D : Type) where
  names : ShellVariables → List Text
  version : Text
  /-- `test` and `[`: a message to report, if any, and the status. -/
  test : List Text → ProcessFiles ω D → Option Text × Int

/-- Of a shell whose variables are not listed, and that tests nothing. -/
def idleKnowledge : Knowledge Unit Nat where
  names _ := []
  version := []
  test _ _ := (none, 0)

section

variable (machine : Machine ω D P) (knowledge : Knowledge ω D)

def writeEach (lines : List Text) : Sh ω D P Unit := forM lines fun line => writeOut machine line

/-! ## `set` and `shift` -/

def reportNotTreated (spelling : Text) : Sh ω D P Unit :=
  writeErr machine (text "Parameter " ++ spelling ++ text " is not treated by HaisosOS hsh v. " ++
    knowledge.version ++ ['\n'])

/-- `set -o` and `set +o` without a name. -/
def printOptions (on : Bool) : Sh ω D P Unit := do
  let options := (← getState).options
  if on then do
    writeOut machine (text "Current option settings\n")
    writeEach machine (shellOptionTable.map fun info =>
      info.name ++ List.replicate (16 - info.name.length) ' ' ++
        (if OptionField.isOn options info then text "on\n" else text "off\n"))
  else
    writeEach machine (shellOptionTable.map fun info =>
      (if OptionField.isOn options info then text "set -o " else text "set +o ") ++ info.name ++
        ['\n'])

def setOption (on : Bool) (spelling : Text) : Option ShellOptionInfo → Sh ω D P Unit
  | none => fail (text "set: Illegal option " ++ spelling)
  | some info =>
      match info.field with
      | some field => modifyState fun state => { state with options := field.set on state.options }
      | none => reportNotTreated machine knowledge spelling

/-- The letters of one cluster of `set`, with the arguments after it. -/
def setLetters (on : Bool) : Text → List Text → Sh ω D P (List Text)
  | [], rest => pure rest
  | 'o' :: letters, name :: rest => do
      match shellOptionTable.find? (·.name = name) with
      | none => fail (text "set: Illegal option -o " ++ name)
      | info => setOption machine knowledge on ((if on then text "-o " else text "+o ") ++ name) info
      setLetters on letters rest
  | 'o' :: letters, [] => do
      printOptions machine on
      setLetters on letters []
  | letter :: letters, rest => do
      setOption machine knowledge on [if on then '-' else '+', letter]
        (shellOptionTable.find? (·.letter = some letter))
      setLetters on letters rest

/-- The options of `set`; the operands that are left, or `none` when the parameters are kept. -/
def setOptions : Nat → List Text → Sh ω D P (Option (List Text))
  | 0, _ => throw .outOfFuel
  | _, [] => pure none
  | fuel + 1, argument :: rest =>
      if argument = ['-'] then do
        modifyState fun state =>
          { state with options := { state.options with xtrace := false, verbose := false } }
        pure (if rest.isEmpty then none else some rest)
      else if argument = ['-', '-'] then pure (some rest)
      else
        match argument with
        | '-' :: letters => do
            setOptions fuel (← setLetters machine knowledge true letters rest)
        | '+' :: letters => do
            setOptions fuel (← setLetters machine knowledge false letters rest)
        | _ => pure (some (argument :: rest))

def builtinSet (arguments : List Text) : Sh ω D P Int := do
  if arguments.isEmpty then do
    let vars := (← getState).vars
    writeEach machine ((knowledge.names vars).filterMap fun name =>
      (vars.get name).map fun value => name ++ ['='] ++ shellSingleQuote value ++ ['\n'])
    pure 0
  else do
    match ← setOptions machine knowledge (arguments.length + 1) arguments with
    | none => pure 0
    | some operands => do
        setPositional operands
        pure 0

def builtinShift (arguments : List Text) : Sh ω D P Int := do
  let count ←
    match arguments with
    | [] => pure 1
    | argument :: _ =>
        match shiftArgument argument with
        | none => fail (text "shift: Illegal number: " ++ argument)
        | some count => pure count
  let positional := (← getState).positional
  if count > positional.length then fail (text "shift: can't shift that many")
  setPositional (positional.drop count)
  pure 0

/-! ## `export`, `readonly` and `unset` -/

/-- The flag that `export` or `readonly` sets. -/
def markVariable (setReadonly : Bool) (name : Text) : Sh ω D P Unit :=
  modifyState fun state =>
    { state with
      vars := if setReadonly then state.vars.markReadonly name else state.vars.markExported name }

/-- The options of `export` and `readonly`: whether to list, and the operands. -/
def listingOptions (command : Text) : Bool → List Text → Sh ω D P (Bool × List Text)
  | list, [] => pure (list, [])
  | list, argument :: rest =>
      if argument = ['-', '-'] then pure (list, rest)
      else
        match argument with
        | '-' :: c :: letters =>
            match (c :: letters).find? (· ≠ 'p') with
            | some letter => fail (command ++ text ": Illegal option -" ++ [letter])
            | none => listingOptions command true rest
        | _ => pure (list, argument :: rest)

def exportOperand (command : Text) (setReadonly : Bool) (operand : Text) : Sh ω D P Unit := do
  let name := operand.takeWhile (· ≠ '=')
  if !isValidShellName name then fail (command ++ text ": " ++ name ++ text ": bad variable name")
  match operand.dropWhile (· ≠ '=') with
  | [] => markVariable setReadonly name
  | _ :: value => do
      if ((← getState).vars.entry name).readonly then
        fail (command ++ text ": " ++ name ++ text ": is read only")
      assignVariable name value
      markVariable setReadonly name

def builtinExportReadonly (setReadonly : Bool) (arguments : List Text) : Sh ω D P Int := do
  let command := if setReadonly then text "readonly" else text "export"
  let (list, operands) ← listingOptions command arguments.isEmpty arguments
  if list then do
    let vars := (← getState).vars
    writeEach machine (((knowledge.names vars).filter fun name =>
      if setReadonly then (vars.entry name).readonly else (vars.entry name).exported).map fun name =>
        command ++ [' '] ++ name ++
          (match vars.get name with
            | some value => ['='] ++ shellSingleQuote value
            | none => []) ++ ['\n'])
  else forM operands (exportOperand command setReadonly)
  pure 0

/-- The options of `unset`: whether it is functions that go, and the operands. -/
def unsetOptions : Bool → List Text → Sh ω D P (Bool × List Text)
  | functions, [] => pure (functions, [])
  | functions, argument :: rest =>
      if argument = ['-', '-'] then pure (functions, rest)
      else
        match argument with
        | '-' :: c :: letters =>
            match (c :: letters).find? (fun letter => letter ≠ 'v' ∧ letter ≠ 'f') with
            | some letter => fail (text "unset: Illegal option -" ++ [letter])
            | none => unsetOptions ((c :: letters).getLast? = some 'f') rest
        | _ => pure (functions, argument :: rest)

def removeFunction (name : Text) : Sh ω D P Unit :=
  modifyMembers fun members =>
    { members with functions := members.functions.filter (·.1 ≠ name) }

def unsetOperand (functions : Bool) (name : Text) : Sh ω D P Unit := do
  if !isValidShellName name then fail (text "unset: " ++ name ++ text ": bad variable name")
  if functions then removeFunction name
  else do
    let state ← getState
    match state.vars.unset name with
    | none => fail (text "unset: " ++ name ++ text ": is read only")
    | some vars => setState { state with vars }

def builtinUnset (arguments : List Text) : Sh ω D P Int := do
  let (functions, operands) ← unsetOptions false arguments
  forM operands (unsetOperand functions)
  pure 0

/-! ## `cd` -/

def skipsCdPath : Text → Bool
  | [] => true
  | '/' :: _ => true
  | '.' :: rest =>
      match rest with
      | [] => true
      | '.' :: rest =>
          match rest with
          | [] => true
          | c :: _ => c == '/'
      | c :: _ => c == '/'
  | _ => false

/-- The options of `cd`: the letter that is none, or what is left. -/
def cdOptions : List Text → Except Char (List Text)
  | [] => .ok []
  | argument :: rest =>
      if argument = ['-', '-'] then .ok rest
      else
        match argument with
        | '-' :: c :: letters =>
            match (c :: letters).find? (fun letter => letter ≠ 'L' ∧ letter ≠ 'P') with
            | some letter => .error letter
            | none => cdOptions rest
        | _ => .ok (argument :: rest)

def cdDestination (vars : ShellVariables) : List Text → Text × Bool
  | [] => (nonEmpty ((vars.get (text "HOME")).getD []), false)
  | dest :: _ =>
      if dest = ['-'] then (nonEmpty ((vars.get (text "OLDPWD")).getD []), true)
      else (nonEmpty dest, false)
where
  nonEmpty (dest : Text) : Text := if dest.isEmpty then ['.'] else dest

/-- The first entry of `CDPATH` that has the directory. -/
def searchCdPath (isDirectory : Text → Bool) (dest : Text) (cdpath : Text) : Option (Text × Bool) :=
  ((cdpath.splitOn ':').map fun entry =>
    (if entry.isEmpty then dest
      else entry ++ (if entry.getLast? = some '/' then [] else ['/']) ++ dest,
      !entry.isEmpty)).find? fun candidate => isDirectory candidate.1

/-- `setpwd`: `false` for a read-only variable. -/
def setDirectoryVariable (name value : Text) : Sh ω D P Bool := do
  if ((← getState).vars.entry name).readonly then do
    report machine (text "cd: " ++ name ++ text ": is read only")
    pure false
  else do
    assignVariable name value
    markVariable false name
    pure true

def builtinCd (arguments : List Text) : Sh ω D P Int := do
  match cdOptions arguments with
  | .error letter => do
      report machine (text "cd: Illegal option -" ++ [letter])
      pure 2
  | .ok operands => do
      let vars := (← getState).vars
      let files := (← getMembers).files
      let (dest, asked) := cdDestination vars operands
      let isDirectory (path : Text) : Bool :=
        machine.stat (files.resolvePath path) files.outside = some .dir
      let found :=
        if skipsCdPath dest then none
        else (vars.get (text "CDPATH")).bind (searchCdPath isDirectory dest)
      let (goal, print) := found.getD (dest, false)
      match files.directoryAt machine.toRootFileSystem goal with
      | none => do
          report machine (text "cd: can't cd to " ++ dest)
          pure 2
      | some target => do
          modifyMembers fun members =>
            { members with files := { members.files with workingDirectory := target } }
          let old ← setDirectoryVariable machine (text "OLDPWD") files.workingDirectory.1
          let new ← setDirectoryVariable machine (text "PWD") target.1
          if asked || print then writeOut machine (target.1 ++ ['\n'])
          pure (if old && new then 0 else 2)

/-! ## `read` -/

structure ReadArguments where
  raw : Bool := false
  prompt : Option Text := none
  names : List Text := []

/-- One cluster of `read`'s options, with the arguments after it: `-p` ends it. -/
def readLetters (read : ReadArguments) : Text → List Text → Except Text (ReadArguments × List Text)
  | [], rest => .ok (read, rest)
  | 'r' :: letters, rest => readLetters { read with raw := true } letters rest
  | 'p' :: _, prompt :: rest => .ok ({ read with prompt := some prompt }, rest)
  | 'p' :: _, [] => .error (text "read: arg count")
  | letter :: _, _ => .error (text "read: Illegal option -" ++ [letter])

def readOptions (read : ReadArguments) : Nat → List Text → Except Text ReadArguments
  | 0, rest => .ok { read with names := rest }
  | _, [] => .ok read
  | fuel + 1, argument :: rest =>
      if argument = ['-', '-'] then .ok { read with names := rest }
      else
        match argument with
        | '-' :: c :: letters =>
            match readLetters read (c :: letters) rest with
            | .error message => .error message
            | .ok (read, rest) => readOptions read fuel rest
        | _ => .ok { read with names := argument :: rest }

def readArguments (arguments : List Text) : Except Text ReadArguments :=
  match readOptions {} arguments.length arguments with
  | .error message => .error message
  | .ok read =>
      match read.names.find? fun name => !isValidShellName name with
      | some name => .error (text "read: " ++ name ++ text ": bad variable name")
      | none => if read.names.isEmpty then .error (text "read: arg count") else .ok read

def splitsAtWhite (ifs : Text) (c : Char × Bool) : Bool :=
  c.2 && (c.1 == ' ' || c.1 == '\t' || c.1 == '\n') && ifs.contains c.1

def splitsAt (ifs : Text) (c : Char × Bool) : Bool := c.2 && ifs.contains c.1

/-- One delimiter: white space, or one other character with the white space around it. -/
def dropDelimiter (ifs : Text) (line : List (Char × Bool)) : List (Char × Bool) :=
  match line.dropWhile (splitsAtWhite ifs) with
  | [] => []
  | c :: rest => if splitsAt ifs c then rest.dropWhile (splitsAtWhite ifs) else c :: rest

/-- The values of so many names: the last one's is the rest of the line. -/
def splitLine (ifs : Text) : Nat → List (Char × Bool) → List Text
  | 0, _ => []
  | 1, line => [((line.reverse.dropWhile (splitsAtWhite ifs)).reverse).map (·.1)]
  | names + 2, line =>
      (line.takeWhile fun c => !splitsAt ifs c).map (·.1) ::
        splitLine ifs (names + 1) (dropDelimiter ifs (line.dropWhile fun c => !splitsAt ifs c))

def builtinRead (arguments : List Text) : Sh ω D P Int := do
  match readArguments arguments with
  | .error message => do
      report machine message
      pure 2
  | .ok read => do
      let input ← look ((system machine).getDescriptor standardInput)
      let files := (← getMembers).files
      if let some prompt := read.prompt then
        if (input.map fun d => machine.isTerminal d files.outside).getD false then
          writeErr machine prompt
      let ended ←
        match input with
        | none => pure (.done ([], false))
        | some input => perform (Members.onOutside (machine.readLine read.raw input))
      match ended with
      | .interrupted => throw .stopped
      | .failed (line, _) => assignLine read.names line false
      | .done (line, newline) => assignLine read.names line newline
where
  assignLine (names : List Text) (line : List (Char × Bool)) (newline : Bool) : Sh ω D P Int := do
    let ifs := ifsOf (← getState)
    assignAll (names.zip (splitLine ifs names.length (line.dropWhile (splitsAtWhite ifs))))
    pure (if newline then 0 else 1)

/-! ## `test` -/

def builtinTest (fields : List Text) : Sh ω D P Int := do
  let (message, status) := knowledge.test fields (← getMembers).files
  match message with
  | none => pure status
  | some message => do
      report machine message
      pure status

/-! ## `wait` and `exec` -/

variable [DecidableEq P]

def waitForAll : Int → List P → Sh ω D P Int
  | status, [] => pure status
  | _, process :: rest => do
      let status ← waitForChild machine process
      waitForAll status rest

def isJobOf (pid : Nat) (job : Job P) : Bool :=
  job.pid = pid || job.processes.any fun process => machine.processId process = pid

def waitForOperand (status : Int) (operand : Text) : Sh ω D P Int := do
  if operand.head? = some '%' then do
    report machine (text "wait: No such job: " ++ operand)
    pure 2
  else if operand.isEmpty || !operand.all isDigit then do
    report machine (text "wait: Illegal number: " ++ operand)
    pure 2
  else do
    let pid := min (operand.foldl (fun value c => value * 10 + digitValue c) 0) (2 ^ 64 - 1)
    let jobs := (← getMembers).jobs
    match jobs.findIdx? (isJobOf machine pid) with
    | none => pure 127
    | some i => do
        let status ← waitForAll machine status ((jobs[i]?.map Job.processes).getD [])
        modifyMembers fun members => { members with jobs := members.jobs.eraseIdx i }
        pure status

def waitForOperands : Int → List Text → Sh ω D P Int
  | status, [] => pure status
  | status, operand :: rest => do
      let status ← waitForOperand machine status operand
      waitForOperands status rest

def builtinWait (arguments : List Text) : Sh ω D P Int := do
  if arguments.isEmpty then do
    let _ ← waitForAll machine 0 ((← getMembers).jobs.flatMap Job.processes)
    modifyMembers fun members => { members with jobs := [] }
    pure 0
  else waitForOperands machine 0 arguments

def builtinExec (arguments : List Text) : Sh ω D P Int := do
  match if arguments.head? = some ['-', '-'] then arguments.tail else arguments with
  | [] => do
      modifyMembers fun members => { members with keepRedirections := true }
      pure 0
  | name :: arguments => do
      match ← look (lookUpCommand (system machine) name (← getState)) with
      | .notFound => do
          report machine (text "exec: " ++ name ++ text ": not found")
          throw (.exit 127)
      | .notRunnable => do
          report machine (text "exec: " ++ name ++ text ": Permission denied")
          throw (.exit 126)
      | .found path => do
          match ← startChild machine path arguments [] with
          | none => do
              report machine (text "exec: " ++ name ++ text ": Permission denied")
              throw (.exit 126)
          | some child => do
              let status ← waitForChild machine child
              throw (.exit status)

/-! ## `exit`, `return`, `break` and `continue` -/

/-- The status given to `exit` or `return`, or `$?`. -/
def statusArgument (command : Text) : List Text → Sh ω D P Int
  | [] => do pure (← getState).lastExitStatus
  | argument :: _ =>
      match decimalArgument argument with
      | none => fail (command ++ text ": Illegal number: " ++ argument)
      | some status => pure status

def builtinExit (arguments : List Text) : Sh ω D P Int := do
  let status ← statusArgument (text "exit") arguments
  throw (.exit (status % 256))

def builtinReturn (arguments : List Text) : Sh ω D P Int := do
  let status ← statusArgument (text "return") arguments
  let depths := (← getMembers).depths
  if depths.functions > 0 || depths.dots > 0 then throw (.functionReturn (status % 256))
  else throw (.exit (status % 256))

def builtinBreakContinue (isBreak : Bool) (arguments : List Text) : Sh ω D P Int := do
  let command := if isBreak then text "break" else text "continue"
  let levels ←
    match arguments with
    | [] => pure 1
    | argument :: _ =>
        match (decimalArgument argument).filter (1 ≤ ·) with
        | none => fail (command ++ text ": Illegal number: " ++ argument)
        | some levels => pure levels
  let depths := (← getMembers).depths
  if depths.loops = 0 then pure 0
  else throw (.loopControl isBreak (min levels depths.loops))

end

end Haisos.Hsh.Shell
