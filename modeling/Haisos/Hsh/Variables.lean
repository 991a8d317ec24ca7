import Haisos.Hsh.Word

/-!
# The shell's state

What expansions read: the variables, the options, the parameters.
-/

namespace Haisos.Hsh

/--
A `ShellError`: its message, its line (0 when the thrower knows none) and
whether the input only ended where more was needed.
-/
structure ShellError where
  message : Text
  line : Nat := 0
  incomplete : Bool := false
  deriving DecidableEq, Repr

/--
What the shell throws: errors, `ShellExit`, `LoopControl`, `FunctionReturn` and
`ShellStopped`.  Running out of fuel is the model's own.
-/
inductive Failure where
  | shellError (error : ShellError)
  | exit (status : Int)
  | loopControl (isBreak : Bool) (levels : Nat)
  | functionReturn (status : Int)
  | stopped
  | outOfFuel
  deriving DecidableEq, Repr

/-! ## Variables -/

structure ShellVariables.Entry where
  value : Option Text := none
  exported : Bool := false
  readonly : Bool := false
  deriving DecidableEq, Repr

structure ShellVariables where
  entry : Text → ShellVariables.Entry := fun _ => {}

namespace ShellVariables

def get (vars : ShellVariables) (name : Text) : Option Text := (vars.entry name).value

def update (vars : ShellVariables) (name : Text) (entry : Entry) : ShellVariables where
  entry other := if other = name then entry else vars.entry other

/-- `Set`: `none` when the variable is read-only, and then nothing is changed. -/
def set (vars : ShellVariables) (name value : Text) : Option ShellVariables :=
  if (vars.entry name).readonly then none
  else some (vars.update name { vars.entry name with value := some value })

/-- `Unset`: the variable goes with its flags, unless it is read-only. -/
def unset (vars : ShellVariables) (name : Text) : Option ShellVariables :=
  if (vars.entry name).readonly then none else some (vars.update name {})

/-- `Export`. -/
def markExported (vars : ShellVariables) (name : Text) : ShellVariables :=
  vars.update name { vars.entry name with exported := true }

/-- `MakeReadonly`. -/
def markReadonly (vars : ShellVariables) (name : Text) : ShellVariables :=
  vars.update name { vars.entry name with readonly := true }

end ShellVariables

/-! ## Options and state -/

structure ShellOptions where
  errexit : Bool := false
  noglob : Bool := false
  interactive : Bool := false
  noexec : Bool := false
  stdinInput : Bool := false
  xtrace : Bool := false
  verbose : Bool := false
  noclobber : Bool := false
  allexport : Bool := false
  nounset : Bool := false
  deriving DecidableEq, Repr

/-- `$-`: the letters of the options that are on. -/
def optionLetters (options : ShellOptions) : Text :=
  [(options.nounset, 'u'), (options.allexport, 'a'), (options.noclobber, 'C'),
    (options.verbose, 'v'), (options.xtrace, 'x'), (options.stdinInput, 's'),
    (options.noexec, 'n'), (options.interactive, 'i'), (options.noglob, 'f'),
    (options.errexit, 'e')].filterMap fun (on, letter) => if on then some letter else none

structure ShellState where
  vars : ShellVariables := {}
  options : ShellOptions := {}
  arg0 : Text := text "hsh"
  positional : List Text := []
  lastExitStatus : Int := 0
  shellPid : Nat := 0
  lastBackgroundPid : Option Nat := none

end Haisos.Hsh
