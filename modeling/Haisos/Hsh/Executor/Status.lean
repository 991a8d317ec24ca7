import Haisos.Hsh.Executor

/-!
# The status of what ran last

`$?` by the rules, read off the program and the trace of a run: which parts of the program
were run and where they stand, what programs and builtins ended with, and where a `break`,
`continue`, `return` or `exit` was.  The statuses that the shell passes on and stores have
no say in it.
-/

namespace Haisos.Hsh

variable {τ : Type}

/-- What leads out of the parts that are being run. -/
inductive Leaving where
  | exit (status : Int)
  | functionReturn (status : Int)
  | loopControl (isBreak : Bool) (levels : Nat)
  | error
  deriving DecidableEq, Repr

def Failure.leaving : Failure → Option Leaving
  | .exit status => some (.exit status)
  | .functionReturn status => some (.functionReturn status)
  | .loopControl isBreak levels => some (.loopControl isBreak levels)
  | .shellError _ => some .error
  | .stopped | .outOfFuel => none

/-- The status of a shell environment that was left so. -/
def Leaving.status : Leaving → Int
  | .exit status | .functionReturn status => status
  | .loopControl _ _ => 0
  | .error => 2

/-- A part that is being run. -/
structure OpenPart (τ : Type) where
  place : Place
  node : Node τ
  /-- The status of what had run of the part around it. -/
  outer : Int
  /-- `$?` where it starts. -/
  before : Int

/-- What a trace comes to. -/
structure StatusReading (τ : Type) where
  /-- `$?` -/
  last : Int
  /-- The status of what has run of the innermost part. -/
  status : Int
  /-- The innermost part first. -/
  parts : List (OpenPart τ) := []
  leaving : Option Leaving := none
  /-- A `continue` has ended a round of the innermost part. -/
  continued : Bool := false

/-! ## The rules -/

namespace Node

def isSimple : Node τ → Bool
  | .command (.simple _) => true
  | _ => false

def isSubshell : Node τ → Bool
  | .command (.compound (.subshell _) _ _) => true
  | _ => false

def isLoop : Node τ → Bool
  | .command (.compound (.loop _ _ _) _ _) | .command (.compound (.forCommand _ _ _) _ _) => true
  | _ => false

def isNegated : Node τ → Bool
  | .pipeline piped => piped.negated
  | _ => false

def hasLastStage (position : Nat) : Node τ → Bool
  | .pipeline piped => position + 1 = piped.commands.length
  | _ => false

/-- A command of which nothing has run has the status 0, a list leaves `$?` as it is. -/
def firstStatus (last : Int) : Node τ → Int
  | .command _ => 0
  | _ => last

end Node

namespace OpenPart

variable (part : OpenPart τ) (around : List (OpenPart τ))

/-- Command substitutions, the stages of a pipeline and `( )` are environments of their own. -/
def ownEnvironment : Bool :=
  match part.place with
  | .substitution | .stage _ => true
  | .body => around.head?.any (·.node.isSubshell)
  | _ => false

/-- What is run in a round of a loop. -/
def inRound : Bool :=
  match part.place with
  | .condition | .body => around.head?.any (·.node.isLoop)
  | _ => false

/--
The part has ended with `status`.  A pipeline sets `$?`, which `!` inverts, an asynchronous
list does, and a command substitution does; an environment of its own leaves it as it was.
-/
def ended (status last : Int) : StatusReading τ :=
  match part.place with
  | .condition => { last, status := part.outer, parts := around }
  | .background => { last := status, status, parts := around }
  | .operand | .last | .negated =>
      -- A pipeline that is started in the background is not waited for.
      if around.head?.any (·.place = .background) then { last, status, parts := around }
      else
        let status := if part.node.isNegated then if status = 0 then 1 else 0 else status
        { last := status, status, parts := around }
  | .substitution =>
      { last := status % 256
        status := if around.head?.any (·.node.isSimple) then status % 256 else part.outer
        parts := around }
  | .stage position =>
      { last := part.before
        status := if around.head?.any (·.node.hasLastStage position) then status % 256
          else part.outer
        parts := around }
  | .body =>
      if around.head?.any (·.node.isSubshell) then
        { last := part.before, status := status % 256, parts := around }
      else { last, status, parts := around }
  | .item | .sole | .evaluated | .called => { last, status, parts := around }

/--
The part was left.  A function, and a dot script, has the status of its `return`; a `break`
or `continue` that goes no further has the status 0, as the round has whose body it ends.
-/
def left (leaving : Leaving) (last : Int) : StatusReading τ :=
  if part.ownEnvironment around then part.ended around leaving.status last
  else
    match leaving with
    | .functionReturn status =>
        if part.place = .called then part.ended around status last
        else { last, status := part.outer, parts := around, leaving := some leaving }
    | .loopControl isBreak levels =>
        if !part.inRound around then
          { last, status := part.outer, parts := around, leaving := some leaving }
        else if levels > 1 then
          { last
            status := part.outer
            parts := around
            leaving := some (.loopControl isBreak (levels - 1)) }
        else
          { last
            status := if part.place = .body then 0 else part.outer
            parts := around
            continued := !isBreak }
    | leaving => { last, status := part.outer, parts := around, leaving := some leaving }

end OpenPart

namespace StatusReading

variable (reading : StatusReading τ)

/-- A `continue` that another round follows has the status 0. -/
def opens (place : Place) (node : Node τ) : StatusReading τ :=
  let last := if reading.continued then 0 else reading.last
  { last
    status := node.firstStatus last
    parts := { place, node, outer := reading.status, before := last } :: reading.parts }

def closes : StatusReading τ :=
  match reading.parts with
  | [] => reading
  | part :: around => part.ended around reading.status reading.last

/-- What no `break`, `continue`, `return` or `exit` leads out of, an error does. -/
def quits : StatusReading τ :=
  match reading.parts with
  | [] => reading
  | part :: around => part.left around (reading.leaving.getD .error) reading.last

def step : Event τ → StatusReading τ
  | .opens place node => reading.opens place node
  | .closes => reading.closes
  | .quits => reading.quits
  | .told status => { reading with status }
  | .waited position status =>
      if reading.parts.head?.any (·.node.hasLastStage position) then { reading with status }
      else reading
  | .background started => { reading with status := if started then 0 else 2 }
  | .job started => if started then { reading with status := 0 } else reading
  | .rejected =>
      { reading with
        last := 2
        status := if reading.parts.head?.any (·.node.isSimple) then 2 else reading.status }
  | .jumps failure => { reading with leaving := failure.leaving }
  | .errexit _ _ => { reading with leaving := some (.exit reading.status) }
  | .enters _ _ | .starts _ _ | .ran _ _ _ | .skipped | .expands _ => reading

/-- What is expanded finds the status of what ran last. -/
def Finds : Event τ → Prop
  | .expands status => status = reading.last
  | _ => True

/--
What a step has to be like for that.  Where a list is started in the background, and where
another round follows a `continue`, `$?` is the status of that already; `-n` skips nothing.
-/
def Settles : Event τ → Prop
  | .opens _ _ => reading.continued = true → reading.last = 0
  | .closes => reading.parts.head?.any (·.place = .background) = true →
      reading.last = reading.status
  | .skipped => False
  | _ => True

/-- The status of the run. -/
def final : Int :=
  match reading.leaving with
  | some (.exit status) => status % 256
  | some .error => 2
  | _ => reading.status

instance : (event : Event τ) → Decidable (reading.Finds event)
  | .expands _ => inferInstanceAs (Decidable (_ = _))
  | .opens _ _ | .closes | .quits | .enters _ _ | .starts _ _ | .ran _ _ _ | .skipped
    | .background _ | .errexit _ _ | .told _ | .waited _ _ | .job _ | .rejected | .jumps _ =>
      inferInstanceAs (Decidable True)

instance : (event : Event τ) → Decidable (reading.Settles event)
  | .opens _ _ | .closes => inferInstanceAs (Decidable (_ → _))
  | .skipped => inferInstanceAs (Decidable False)
  | .quits | .enters _ _ | .starts _ _ | .ran _ _ _ | .background _ | .errexit _ _ | .expands _
    | .told _ | .waited _ _ | .job _ | .rejected | .jumps _ => inferInstanceAs (Decidable True)

end StatusReading

/-! ## Traces -/

/-- What a trace comes to, from the value that `$?` had before it. -/
def readTrace (start : Int) : List (Event τ) → StatusReading τ
  | [] => { last := start, status := start }
  | event :: before => (readTrace start before).step event

/-- Whatever is expanded finds the status of what ran last. -/
def FindsLast (start : Int) : List (Event τ) → Prop
  | [] => True
  | event :: before => (readTrace start before).Finds event ∧ FindsLast start before

def Settled (start : Int) : List (Event τ) → Prop
  | [] => True
  | event :: before => (readTrace start before).Settles event ∧ Settled start before

instance decidableFindsLast (start : Int) : (trace : List (Event τ)) →
    Decidable (FindsLast start trace)
  | [] => inferInstanceAs (Decidable True)
  | event :: before =>
      have := decidableFindsLast start before
      inferInstanceAs (Decidable ((readTrace start before).Finds event ∧ FindsLast start before))

instance decidableSettled (start : Int) : (trace : List (Event τ)) →
    Decidable (Settled start trace)
  | [] => inferInstanceAs (Decidable True)
  | event :: before =>
      have := decidableSettled start before
      inferInstanceAs (Decidable ((readTrace start before).Settles event ∧ Settled start before))

end Haisos.Hsh
