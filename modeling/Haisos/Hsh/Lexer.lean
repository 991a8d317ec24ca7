import Haisos.Hsh.Variables

/-!
# The lexer

`HshLexer.cpp`.  A lexer is its source and the position in it, with the other
members of `Lexer::Impl`; the here-documents, which tokens and the lexer share,
are numbered.  What is thrown takes no state with it: a lexer that has thrown is
not used again.
-/

namespace Haisos.Hsh

inductive TokenKind where
  | word | ioNumber | newline | endOfInput
  | semicolon | doubleSemicolon | ampersand | andIf | pipe | orIf | leftParen | rightParen
  | less | great | doubleGreat | clobber | lessGreat | lessAnd | greatAnd
  | doubleLess | doubleLessDash | tripleLess | andGreat
  deriving DecidableEq, Repr

def TokenKind.isRedirectionOperator : TokenKind → Bool
  | .less | .great | .doubleGreat | .clobber | .lessGreat | .lessAnd | .greatAnd
  | .doubleLess | .doubleLessDash | .tripleLess | .andGreat => true
  | _ => false

/-- `begin` and `end`, offsets in the source, are `beginsAt` and `endsAt`. -/
structure Token where
  kind : TokenKind := .endOfInput
  line : Nat := 0
  word : Word := {}
  ioNumber : Option Nat := none
  hereDoc : Option Nat := none
  beginsAt : Nat := 0
  endsAt : Nat := 0
  deriving Repr

def isBlank (c : Char) : Bool := c == ' ' || c == '\t'

def isOperatorChar (c : Char) : Bool :=
  c == ';' || c == '&' || c == '|' || c == '(' || c == ')' || c == '<' || c == '>'

def isSpecialParameterChar (c : Char) : Bool :=
  c == '@' || c == '*' || c == '#' || c == '?' || c == '-' || c == '$' || c == '!' || c == '0'

/-- What ends an unquoted word. -/
def endsWord (c : Char) : Bool := isBlank c || c == '\n' || isOperatorChar c

/-! ## The character layer -/

structure Lexer where
  source : Text
  pos : Nat := 0
  line : Nat := 1
  interactive : Bool := false
  lastContinuationAtEnd : Bool := false
  lastCharEnd : Nat := 0
  expectHereDocDelimiter : Bool := false
  hereDocStripsTabs : Bool := false
  incompleteHereDoc : Bool := false
  pendingHereDocs : List Nat := []
  hereDocs : List HereDocument := []

namespace Lexer

/-- The source from the position on. -/
def rest (lexer : Lexer) : Text := lexer.source.drop lexer.pos

/-- A lexer of its own over the same source, for a command substitution. -/
def sub (lexer : Lexer) : Lexer where
  source := lexer.source
  pos := lexer.pos
  line := lexer.line
  interactive := lexer.interactive
  lastCharEnd := lexer.pos

/-- One raw character, which is `c`. -/
def advance (lexer : Lexer) (c : Char) : Lexer :=
  { lexer with
    pos := lexer.pos + 1
    line := if c = '\n' then lexer.line + 1 else lexer.line
    lastCharEnd := lexer.pos + 1
    lastContinuationAtEnd := false }

def continuations : Text → Nat
  | '\\' :: '\n' :: rest => continuations rest + 1
  | _ => 0

def skipContinuations (lexer : Lexer) : Lexer :=
  match continuations lexer.rest with
  | 0 => lexer
  | n =>
      { lexer with
        pos := lexer.pos + 2 * n
        line := lexer.line + n
        lastContinuationAtEnd := decide (lexer.pos + 2 * n = lexer.source.length) }

end Lexer

abbrev Lex := StateT Lexer (Except Failure)

def rawPeek : Lex (Option Char) := do pure (← get).rest.head?

def rawGet : Lex Unit := do
  match ← rawPeek with
  | none => pure ()
  | some c => modify (·.advance c)

def peek : Lex (Option Char) := do
  modify (·.skipContinuations)
  rawPeek

/-- A `ShellError` at the lexer's line. -/
def lexError {α : Type} (message : Text) (incomplete : Bool) : Lex α := do
  throw (.shellError { message, line := (← get).line, incomplete })

/-! ## Part building -/

inductive PlainKind where
  | literal | quoted
  deriving DecidableEq, Repr

def PlainKind.part : PlainKind → Text → WordPart
  | .literal => .literal
  | .quoted => .quoted

def PlainKind.textOf : PlainKind → WordPart → Option Text
  | .literal, .literal text => some text
  | .quoted, .quoted text => some text
  | _, _ => none

def lastText (kind : PlainKind) (parts : List WordPart) : Option Text :=
  parts.getLast?.bind kind.textOf

def mergeText (kind : PlainKind) (text : Text) (parts : List WordPart) : List WordPart :=
  match lastText kind parts with
  | some before => parts.dropLast ++ [kind.part (before ++ text)]
  | none => parts ++ [kind.part text]

def appendChar (parts : List WordPart) (kind : PlainKind) (c : Char) : List WordPart :=
  mergeText kind [c] parts

def appendText (parts : List WordPart) (kind : PlainKind) (text : Text) : List WordPart :=
  if text = [] then
    if kind = .quoted ∧ lastText .quoted parts = none then parts ++ [.quoted []] else parts
  else mergeText kind text parts

/-! ## Groups without expansions -/

/-- The contents of single quotes, raw, up to and including the closing one. -/
def singleQuotedText : Nat → Text → Lex Text
  | 0, _ => throw .outOfFuel
  | fuel + 1, text => do
      match ← rawPeek with
      | none => lexError (Hsh.text "Syntax error: Unterminated quoted string") true
      | some c => do
          rawGet
          if c = '\'' then pure text else singleQuotedText fuel (text ++ [c])

def readSingleQuoted (fuel : Nat) (parts : List WordPart) : Lex (List WordPart) := do
  rawGet
  pure (appendText parts .quoted (← singleQuotedText fuel []))

/--
A character after a backslash in a group: `escaped` are the ones the backslash
is taken off; before any other it stays, and at the end of the source it stands
alone.
-/
def readEscaped (escaped : Char → Bool) (add : Char → α → α) (a : α) : Lex α := do
  rawGet
  match ← rawPeek with
  | none => pure (add '\\' a)
  | some d => do
      rawGet
      pure (if escaped d then add d a else add d (add '\\' a))

def backquoteText (dquote : Bool) : Nat → Text → Lex Text
  | 0, _ => throw .outOfFuel
  | fuel + 1, text => do
      match ← peek with
      | none => lexError (Hsh.text "Syntax error: EOF in backquote substitution") true
      | some c =>
          if c = '`' then do
            rawGet
            pure text
          else if c = '\\' then do
            backquoteText dquote fuel (← readEscaped
              (fun d => d == '$' || d == '`' || d == '\\' || (d == '"' && dquote))
              (fun d text => text ++ [d]) text)
          else do
            rawGet
            backquoteText dquote fuel (text ++ [c])

def readBackquote (fuel : Nat) (dquote : Bool) : Lex WordPart := do
  let line := (← get).line
  rawGet
  pure (.commandSubstitution (← backquoteText dquote fuel []) true line)

/-- The characters that satisfy `p`. -/
def readWhile (p : Char → Bool) : Nat → Text → Lex Text
  | 0, _ => throw .outOfFuel
  | fuel + 1, text => do
      match ← peek with
      | none => pure text
      | some c =>
          if p c then do
            rawGet
            readWhile p fuel (text ++ [c])
          else pure text

/-- `ReadBracedName`: nothing is consumed when there is no name. -/
def readBracedName (fuel : Nat) : Lex (Option Text) := do
  match ← peek with
  | none => pure none
  | some c =>
      if isNameStart c then do pure (some (← readWhile isNameChar fuel []))
      else if isDigit c then do pure (some (← readWhile isDigit fuel []))
      else if isSpecialParameterChar c then do
        rawGet
        pure (some [c])
      else pure none

/-! ## Operators -/

/-- The first of `longer` whose character comes next, else `short`. -/
def longestMatch (short : TokenKind) (longer : List (Char × TokenKind)) : Lex TokenKind := do
  match (← peek).bind (longer.lookup ·) with
  | none => pure short
  | some kind => do
      rawGet
      pure kind

/-- `ReadOperator`, whose first character is `c`. -/
def readOperator (c : Char) : Lex TokenKind := do
  rawGet
  if c = '&' then longestMatch .ampersand [('&', .andIf), ('>', .andGreat)]
  else if c = '|' then longestMatch .pipe [('|', .orIf)]
  else if c = ';' then longestMatch .semicolon [(';', .doubleSemicolon)]
  else if c = '(' then pure .leftParen
  else if c = ')' then pure .rightParen
  else if c = '<' then do
    match ← longestMatch .less [('<', .doubleLess), ('&', .lessAnd), ('>', .lessGreat)] with
    | .doubleLess => longestMatch .doubleLess [('-', .doubleLessDash), ('<', .tripleLess)]
    | kind => pure kind
  else longestMatch .great [('>', .doubleGreat), ('&', .greatAnd), ('|', .clobber)]

/-! ## Here-documents -/

inductive DelimiterQuotes where
  | none | single | double
  deriving DecidableEq, Repr

/-- `UnquoteHereDocDelimiter`: the delimiter's text. -/
def unquoteDelimiter : DelimiterQuotes → Text → Text
  | _, [] => []
  | .none, '\'' :: rest => unquoteDelimiter .single rest
  | .none, '"' :: rest => unquoteDelimiter .double rest
  | .none, '\\' :: '\n' :: rest => unquoteDelimiter .none rest
  | .none, '\\' :: d :: rest => d :: unquoteDelimiter .none rest
  | .none, c :: rest => c :: unquoteDelimiter .none rest
  | .single, '\'' :: rest => unquoteDelimiter .none rest
  | .single, c :: rest => c :: unquoteDelimiter .single rest
  | .double, '"' :: rest => unquoteDelimiter .none rest
  | .double, '\\' :: d :: rest =>
      if d = '$' ∨ d = '`' ∨ d = '"' ∨ d = '\\' then d :: unquoteDelimiter .double rest
      else if d = '\n' then unquoteDelimiter .double rest
      else '\\' :: unquoteDelimiter .double (d :: rest)
  | .double, c :: rest => c :: unquoteDelimiter .double rest

/-- `UnquoteHereDocDelimiter`: whether any of it is quoted. -/
def quotesDelimiter : Text → Bool
  | [] => false
  | '\\' :: '\n' :: rest => quotesDelimiter rest
  | c :: rest => c == '\'' || c == '"' || c == '\\' || quotesDelimiter rest

/-- A raw line with its newline; a last line without one moves the position only. -/
def readRawLine : Lex Text := do
  let lexer ← get
  let content := lexer.rest.takeWhile (· ≠ '\n')
  let pos := lexer.pos + content.length
  if pos < lexer.source.length then do
    set { lexer with
      pos := pos + 1
      line := lexer.line + 1
      lastCharEnd := pos + 1
      lastContinuationAtEnd := false }
    pure (content ++ ['\n'])
  else do
    set { lexer with pos }
    pure content

/-- Whether the line ends in a newline after an odd run of backslashes. -/
def isContinued (raw : Text) : Bool :=
  raw.getLast? == some '\n' &&
    (raw.dropLast.reverse.takeWhile (· == '\\')).length % 2 == 1

/-- The lines that a continued line of an unquoted body goes on with. -/
def joinContinued : Nat → Text → Lex Text
  | 0, _ => throw .outOfFuel
  | fuel + 1, raw => do
      let lexer ← get
      if isContinued raw && decide (lexer.pos < lexer.source.length) then do
        let next ← readRawLine
        joinContinued fuel (raw.dropLast.dropLast ++ next)
      else pure raw

def readBodyLine (fuel : Nat) (hd : HereDocument) : Lex Text := do
  let raw ← readRawLine
  let raw := if hd.stripTabs then raw.dropWhile (· == '\t') else raw
  if hd.quoted then pure raw else joinContinued fuel raw

def isDelimiterLine (hd : HereDocument) (raw : Text) : Bool :=
  (if raw.getLast? = some '\n' then raw.dropLast else raw) == hd.delimiter

/-- The body's raw lines up to the delimiter's, and whether that line came. -/
def readRawBody (hd : HereDocument) : Nat → Text → Lex (Text × Bool)
  | 0, _ => throw .outOfFuel
  | fuel + 1, rawBody => do
      let lexer ← get
      if lexer.pos < lexer.source.length then do
        let raw ← readBodyLine fuel hd
        if isDelimiterLine hd raw then pure (rawBody, true)
        else readRawBody hd fuel (rawBody ++ raw)
      else pure (rawBody, false)

/-! ## The scan of a command substitution -/

/-- How far an open `case` is. -/
inductive CaseState where
  | subject | expectIn | pattern | body
  deriving DecidableEq, Repr

inductive ScanFrame where
  | paren
  | case (state : CaseState)
  deriving DecidableEq, Repr

structure Scan where
  stack : List ScanFrame := []
  commandPosition : Bool := true
  redirectTargetNext : Bool := false
  deriving DecidableEq, Repr

def opensCommand (literal : Text) : Bool :=
  [text "if", text "then", text "else", text "elif", text "while", text "until", text "do",
    text "!", text "\x7b", text "\x7d"].contains literal

/-- A word that is no redirection's target. -/
def Scan.word (scan : Scan) (literal : Option Text) : Scan :=
  let inCommand : Scan :=
    if scan.commandPosition ∧ literal = some (text "case") then
      { scan with stack := .case .subject :: scan.stack, commandPosition := false }
    else { scan with commandPosition := scan.commandPosition && literal.any opensCommand }
  match scan.stack with
  | .case .subject :: below =>
      { scan with stack := .case .expectIn :: below, commandPosition := false }
  | .case .expectIn :: below =>
      { scan with
        stack := .case (if literal = some (text "in") then .pattern else .expectIn) :: below
        commandPosition := false }
  | .case .pattern :: below =>
      { scan with
        stack := if literal = some (text "esac") then below else scan.stack
        commandPosition := false }
  | .case .body :: below =>
      if scan.commandPosition ∧ literal = some (text "esac") then
        { scan with stack := below, commandPosition := false }
      else inCommand
  | _ => inCommand

/-- What a token does to the scan; `none` when it is the `)` that closes the substitution. -/
def Scan.step (scan : Scan) (token : Token) : Option Scan :=
  let atCommand (stack : List ScanFrame) : Scan := { stack }
  match token.kind with
  | .leftParen =>
      if scan.stack.head? = some (.case .pattern) then some scan
      else some (atCommand (.paren :: scan.stack))
  | .rightParen =>
      match scan.stack with
      | .case .pattern :: below => some (atCommand (.case .body :: below))
      | .paren :: below => some { stack := below, commandPosition := false }
      | .case _ :: _ => some scan
      | [] => none
  | .newline | .semicolon | .ampersand | .andIf | .orIf | .pipe => some (atCommand scan.stack)
  | .doubleSemicolon =>
      match scan.stack with
      | .case .body :: below => some (atCommand (.case .pattern :: below))
      | _ => some (atCommand scan.stack)
  | .ioNumber => some scan
  | .word =>
      if scan.redirectTargetNext then some { scan with redirectTargetNext := false }
      else some (scan.word token.word.literalText)
  | kind =>
      some (if kind.isRedirectionOperator then { scan with redirectTargetNext := true } else scan)

/-! ## Words, expansions and tokens -/

def escapedInDoubleQuotes (d : Char) : Bool := d == '$' || d == '`' || d == '"' || d == '\\'

def addChar (kind : PlainKind) (c : Char) (parts : List WordPart) : List WordPart :=
  appendChar parts kind c

def bracedOp (colon : Bool) (c : Char) : Option ParameterOp :=
  if c = '-' then some (if colon then .useDefault else .useDefaultIfUnset)
  else if c = '=' then some (if colon then .assignDefault else .assignDefaultIfUnset)
  else if c = '?' then some (if colon then .errorIfNull else .errorIfUnset)
  else if c = '+' then some (if colon then .useAlternative else .useAlternativeIfSet)
  else none

/-- `%`, `%%`, `#` and `##`. -/
def removalOp (doubled : Bool) (c : Char) : ParameterOp :=
  if c = '%' then (if doubled then .removeLargestSuffix else .removeSmallestSuffix)
  else (if doubled then .removeLargestPrefix else .removeSmallestPrefix)

/-- Whether `c` comes next; it is then read. -/
def readIf (c : Char) : Lex Bool := do
  if (← peek) = some c then do
    rawGet
    pure true
  else pure false

/-- The parameter that a `${` names, up to its operation: `${#name}` is done with. -/
inductive BracedStart where
  | done (part : WordPart)
  | named (name : Text)
  | bad
  deriving Repr

def readBracedStart (fuel : Nat) : Lex BracedStart := do
  if ← readIf '#' then do
    if ← readIf '\x7d' then pure (.done (.parameter ['#'] .none []))
    else do
      match ← readBracedName fuel with
      | some name =>
          if ← readIf '\x7d' then pure (.done (.parameter name .length [])) else pure .bad
      -- `#` with no name after it is the parameter `#` itself, with an operation.
      | none => pure (.named ['#'])
  else do
    match ← readBracedName fuel with
    | some name => pure (.named name)
    | none => pure .bad

def skipBlanks : Nat → Lex Unit
  | 0 => throw .outOfFuel
  | fuel + 1 => do
      match ← peek with
      | none => pure ()
      | some c =>
          if isBlank c then do
            rawGet
            skipBlanks fuel
          else pure ()

def skipComment : Nat → Lex Unit
  | 0 => throw .outOfFuel
  | fuel + 1 => do
      match ← rawPeek with
      | none => pure ()
      | some c =>
          if c = '\n' then pure ()
          else do
            rawGet
            skipComment fuel

def skipToToken (fuel : Nat) : Lex (Option Char) := do
  skipBlanks fuel
  if (← peek) = some '#' then do
    skipComment fuel
    peek
  else peek

/-- Whether a word that comes now is a here-document's delimiter, and then whether tabs go. -/
def takeDelimiterFlags : Lex (Option Bool) := do
  let lexer ← get
  set { lexer with expectHereDocDelimiter := false }
  pure (if lexer.expectHereDocDelimiter then some lexer.hereDocStripsTabs else none)

def expectDelimiterAfter (kind : TokenKind) : Lex Unit :=
  modify fun lexer =>
    if kind = .doubleLess ∨ kind = .doubleLessDash then
      { lexer with
        expectHereDocDelimiter := true
        hereDocStripsTabs := decide (kind = .doubleLessDash) }
    else lexer

mutual

def doubleQuotedParts : Nat → List WordPart → Lex (List WordPart)
  | 0, _ => throw .outOfFuel
  | fuel + 1, parts => do
      match ← peek with
      | none => lexError (text "Syntax error: Unterminated quoted string") true
      | some c =>
          if c = '"' then do
            rawGet
            pure parts
          else if c = '\\' then do
            doubleQuotedParts fuel (← readEscaped escapedInDoubleQuotes (addChar .quoted) parts)
          else if c = '$' then do
            doubleQuotedParts fuel (← readDollar fuel parts .quoted true)
          else if c = '`' then do
            doubleQuotedParts fuel (parts ++ [← readBackquote fuel true])
          else do
            rawGet
            doubleQuotedParts fuel (appendChar parts .quoted c)

/-- `ReadDollar`: `plain` is what a lone `$` is here, `dquote` the operands' flavour. -/
def readDollar : Nat → List WordPart → PlainKind → Bool → Lex (List WordPart)
  | 0, _, _, _ => throw .outOfFuel
  | fuel + 1, parts, plain, dquote => do
      rawGet
      match ← peek with
      | none => pure (appendChar parts plain '$')
      | some c =>
          if isNameStart c then do
            pure (parts ++ [.parameter (← readWhile isNameChar fuel []) .none []])
          else if isDigit c || isSpecialParameterChar c then do
            rawGet
            pure (parts ++ [.parameter [c] .none []])
          else if c = '\x7b' then do
            rawGet
            pure (parts ++ [← readBracedParameter fuel dquote])
          else if c = '(' then do
            rawGet
            if ← readIf '(' then do pure (parts ++ [.arithmetic (← arithmeticParts fuel 0 [])])
            else do pure (parts ++ [← readCommandSubstitution fuel])
          else pure (appendChar parts plain '$')

/-- `FinishBadParameter`: the operand is read, for its `}`, and discarded. -/
def finishBadParameter : Nat → Bool → Lex WordPart
  | 0, _ => throw .outOfFuel
  | fuel + 1, dquote => do
      let _ ← readOperand fuel dquote []
      pure (.parameter [] .bad [])

def readBracedParameter : Nat → Bool → Lex WordPart
  | 0, _ => throw .outOfFuel
  | fuel + 1, dquote => do
      match ← readBracedStart fuel with
      | .done part => pure part
      | .bad => finishBadParameter fuel dquote
      | .named name => do
          match ← peek with
          | none => finishBadParameter fuel dquote
          | some d =>
              if d = '\x7d' then do
                rawGet
                pure (.parameter name .none [])
              else if d = '%' ∨ d = '#' then do
                rawGet
                let doubled ← readIf d
                -- A pattern operand is read as an unquoted word even inside double quotes.
                pure (.parameter name (removalOp doubled d) (← readOperand fuel false []))
              else do
                let colon ← readIf ':'
                match (← peek).bind (bracedOp colon) with
                | none => finishBadParameter fuel dquote
                | some op => do
                    rawGet
                    pure (.parameter name op (← readOperand fuel dquote []))

/-- The operand of a `${`, up to and including the matching `}`. -/
def readOperand : Nat → Bool → List WordPart → Lex (List WordPart)
  | 0, _, _ => throw .outOfFuel
  | fuel + 1, dquote, parts => do
      let plain : PlainKind := if dquote then .quoted else .literal
      match ← peek with
      | none => lexError (text "Syntax error: Missing '\x7d'") true
      | some c =>
          if c = '\x7d' then do
            rawGet
            pure parts
          else if c = '\\' then do
            readOperand fuel dquote (← readEscaped
              (fun d => !dquote || escapedInDoubleQuotes d || d == '\x7d') (addChar .quoted) parts)
          else if c = '\'' then do
            if dquote then do
              rawGet
              readOperand fuel dquote (appendChar parts plain '\'')
            else do readOperand fuel dquote (← readSingleQuoted fuel parts)
          else if c = '"' then do
            rawGet
            readOperand fuel dquote (parts ++ [.doubleQuoted (← doubleQuotedParts fuel [])])
          else if c = '$' then do
            readOperand fuel dquote (← readDollar fuel parts plain dquote)
          else if c = '`' then do
            readOperand fuel dquote (parts ++ [← readBackquote fuel dquote])
          else do
            rawGet
            readOperand fuel dquote (appendChar parts plain c)

/-- `ReadArithmetic`, with the parentheses open in it. -/
def arithmeticParts : Nat → Nat → List WordPart → Lex (List WordPart)
  | 0, _, _ => throw .outOfFuel
  | fuel + 1, depth, parts => do
      match ← peek with
      | none => lexError (text "Syntax error: Missing '))'") true
      | some c =>
          if c = '(' then do
            rawGet
            arithmeticParts fuel (depth + 1) (appendChar parts .literal '(')
          else if c = ')' then do
            rawGet
            if depth > 0 then arithmeticParts fuel (depth - 1) (appendChar parts .literal ')')
            else if ← readIf ')' then pure parts
            else lexError (text "Syntax error: Missing '))'") false
          else if c = '\\' then do
            arithmeticParts fuel depth
              (← readEscaped escapedInDoubleQuotes (addChar .literal) parts)
          else if c = '$' then do
            arithmeticParts fuel depth (← readDollar fuel parts .literal false)
          else if c = '`' then do
            arithmeticParts fuel depth (parts ++ [← readBackquote fuel false])
          else do
            rawGet
            arithmeticParts fuel depth (appendChar parts .literal c)

/-- `ReadCommandSubstitution`: a sub-lexer reads the tokens up to the `)` that closes it. -/
def readCommandSubstitution : Nat → Lex WordPart
  | 0 => throw .outOfFuel
  | fuel + 1 => do
      let lexer ← get
      let closed ← (scanSubstitution fuel {}).run lexer.sub
      let sub := closed.2
      set { lexer with
        pos := sub.pos
        line := sub.line
        lastCharEnd := sub.lastCharEnd
        lastContinuationAtEnd := false }
      pure (.commandSubstitution ((lexer.source.take closed.1).drop lexer.pos) false lexer.line)

/-- Where the closing `)` begins. -/
def scanSubstitution : Nat → Scan → Lex Nat
  | 0, _ => throw .outOfFuel
  | fuel + 1, scan => do
      let token ← nextToken fuel
      if token.kind = .endOfInput then
        lexError (text "Syntax error: end of file unexpected (expecting \")\")") true
      else
        match scan.step token with
        | none => pure token.beginsAt
        | some scan => scanSubstitution fuel scan

/-- `LexHereDocBody`, over the body's own text. -/
def hereDocBodyParts : Nat → List WordPart → Lex (List WordPart)
  | 0, _ => throw .outOfFuel
  | fuel + 1, parts => do
      match ← peek with
      | none => pure parts
      | some c =>
          if c = '\\' then do
            hereDocBodyParts fuel (← readEscaped
              (fun d => d == '$' || d == '`' || d == '\\') (addChar .quoted) parts)
          else if c = '$' then do
            hereDocBodyParts fuel (← readDollar fuel parts .quoted true)
          else if c = '`' then do
            hereDocBodyParts fuel (parts ++ [← readBackquote fuel false])
          else do
            rawGet
            hereDocBodyParts fuel (appendChar parts .quoted c)

/--
The body of one document.  An error in a complete body is no incomplete input:
no further line can change it.
-/
def lexHereDocBody : Nat → HereDocument → Text → Nat → Bool → Lex Word
  | 0, _, _, _, _ => throw .outOfFuel
  | fuel + 1, hd, rawBody, line, terminated =>
      let word (parts : List WordPart) : Word := { parts, source := rawBody, line }
      if hd.quoted then pure (word (if rawBody = [] then [] else [.quoted rawBody]))
      else
        match (hereDocBodyParts fuel []).run { source := rawBody, line } with
        | .ok (parts, _) => pure (word parts)
        | .error (.shellError error) =>
            throw (.shellError { error with incomplete := error.incomplete && !terminated })
        | .error failure => throw failure

def readHereDocBodies : Nat → List Nat → Lex Unit
  | 0, _ => throw .outOfFuel
  | _ + 1, [] => pure ()
  | fuel + 1, number :: numbers => do
      let lexer ← get
      let hd := lexer.hereDocs.getD number {}
      let (rawBody, terminated) ← readRawBody hd fuel []
      let sourceEnd := (← get).pos
      let body ← lexHereDocBody fuel hd rawBody lexer.line terminated
      modify fun after =>
        { after with
          hereDocs := after.hereDocs.set number
            { hd with
              rawBody
              body
              complete := true
              terminated
              sourceBegin := lexer.pos
              sourceEnd }
          incompleteHereDoc := after.incompleteHereDoc || !terminated }
      readHereDocBodies fuel numbers

def readPendingHereDocs : Nat → Lex Unit
  | 0 => throw .outOfFuel
  | fuel + 1 => do
      let pending := (← get).pendingHereDocs
      modify fun lexer => { lexer with pendingHereDocs := [] }
      readHereDocBodies fuel pending

def readWordCharacters : Nat → List WordPart → Lex (List WordPart)
  | 0, _ => throw .outOfFuel
  | fuel + 1, parts => do
      match ← peek with
      | none => pure parts
      | some c =>
          if endsWord c then pure parts
          else if c = '\'' then do readWordCharacters fuel (← readSingleQuoted fuel parts)
          else if c = '"' then do
            rawGet
            readWordCharacters fuel (parts ++ [.doubleQuoted (← doubleQuotedParts fuel [])])
          else if c = '\\' then do
            readWordCharacters fuel (← readEscaped (fun _ => true) (addChar .quoted) parts)
          else if c = '$' then do
            readWordCharacters fuel (← readDollar fuel parts .literal false)
          else if c = '`' then do
            readWordCharacters fuel (parts ++ [← readBackquote fuel false])
          else do
            rawGet
            readWordCharacters fuel (appendChar parts .literal c)

/-- `ReadWordRest`: the word after `<<` or `<<-` (`hereDoc`: with or without tabs) opens a document. -/
def readWordRest : Nat → Token → Option Bool → List WordPart → Lex Token
  | 0, _, _, _ => throw .outOfFuel
  | fuel + 1, token, hereDoc, first => do
      let parts ← readWordCharacters fuel first
      let lexer ← get
      let source := (lexer.source.take lexer.lastCharEnd).drop token.beginsAt
      let token : Token :=
        { token with
          kind := .word
          word := { parts, source, line := token.line }
          endsAt := lexer.lastCharEnd }
      match hereDoc with
      | none => pure token
      | some stripTabs => do
          let number := lexer.hereDocs.length
          let hd : HereDocument :=
            { delimiter := unquoteDelimiter .none source
              quoted := quotesDelimiter source
              stripTabs }
          set { lexer with
            hereDocs := lexer.hereDocs ++ [hd]
            pendingHereDocs := lexer.pendingHereDocs ++ [number] }
          pure { token with hereDoc := some number }

/-- The token that `next` begins; `token` has its line and its offset. -/
def readToken : Nat → Option Bool → Token → Option Char → Lex Token
  | 0, _, _, _ => throw .outOfFuel
  | fuel + 1, _, _, none => do
      readPendingHereDocs fuel
      let lexer ← get
      if lexer.interactive && (lexer.incompleteHereDoc || lexer.lastContinuationAtEnd) then
        lexError (text "Syntax error: end of file unexpected") true
      else
        pure { kind := .endOfInput
               line := lexer.line
               beginsAt := lexer.source.length
               endsAt := lexer.source.length }
  | fuel + 1, hereDoc, token, some c =>
      if c = '\n' then do
        rawGet
        let endsAt := (← get).pos
        readPendingHereDocs fuel
        pure { token with kind := .newline, endsAt }
      else if isDigit c then do
        rawGet
        let d ← peek
        if d = some '<' ∨ d = some '>' then do
          let endsAt := (← get).lastCharEnd
          pure { token with kind := .ioNumber, ioNumber := some (c.toNat - '0'.toNat), endsAt }
        else readWordRest fuel token hereDoc (appendChar [] .literal c)
      else if isOperatorChar c then do
        let kind ← readOperator c
        expectDelimiterAfter kind
        let endsAt := (← get).lastCharEnd
        pure { token with kind, endsAt }
      else readWordRest fuel token hereDoc []

def nextToken : Nat → Lex Token
  | 0 => throw .outOfFuel
  | fuel + 1 => do
      let hereDoc ← takeDelimiterFlags
      let next ← skipToToken fuel
      let lexer ← get
      readToken fuel hereDoc { line := lexer.line, beginsAt := lexer.pos } next

end

end Haisos.Hsh
