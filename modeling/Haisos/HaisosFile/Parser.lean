import Haisos.HaisosFile.Tokens

/-!
# The haisosfile parser

`ParseHaisosFile`: the lines of the file one after the other, each with the
lines still to come, since a multiline text takes some of them.  A failure keeps
what was parsed before it.
-/

namespace Haisos.HaisosFile

open Hsh (Text text natText)

/-! ## What a haisosfile says -/

structure HaisosFileRunEntry where
  programPath : Text
  args : List Text
  interactive : Bool
  deriving DecidableEq, Repr

inductive HaisosFileOperationType where
  | create | append | createDir | copy | delete | outCopy | builtin
  deriving DecidableEq, Repr

structure HaisosFileOperation where
  type : HaisosFileOperationType := .create
  path : Text := []
  hostPath : Text := []
  content : Text := []
  fsName : Text := []
  builtinName : Text := []
  lineNumber : Nat := 0
  deriving DecidableEq, Repr

structure HaisosFileFilesystemDecl where
  name : Text
  type : Text
  args : List Text
  deriving DecidableEq, Repr

structure HaisosFileMount where
  mainFs : Text
  path : Text
  toBeMountedFs : Text
  deriving DecidableEq, Repr

inductive HaisosFileFsStep where
  | declare (decl : HaisosFileFilesystemDecl)
  | mount (mount : HaisosFileMount)
  deriving DecidableEq, Repr

structure HaisosFileEnvEntry where
  name : Text
  value : Text := []
  importFromHost : Bool := false
  deriving DecidableEq, Repr

structure HaisosFileConfig where
  rootPath : Text := []
  fsSteps : List HaisosFileFsStep := []
  runEntries : List HaisosFileRunEntry := []
  envEntries : List HaisosFileEnvEntry := []
  setupOperations : List HaisosFileOperation := []
  outCopyOperations : List HaisosFileOperation := []
  deriving DecidableEq, Repr

structure HaisosFileParseResult where
  config : HaisosFileConfig
  error : Text
  deriving DecidableEq, Repr

/-- The local variables of `ParseHaisosFile`. -/
structure ParseState where
  config : HaisosFileConfig := {}
  values : Values := []
  declaredArgs : List Text := []
  sawRoot : Bool := false
  firstRunLine : Nat := 0
  firstFileDirectiveLine : Nat := 0
  lineNumber : Nat := 0

abbrev Parsed := Except HaisosFileParseResult

def ParseState.fail {α : Type} (st : ParseState) (error : Text) : Parsed α :=
  .error ⟨st.config, error⟩

def ParseState.orFail {α : Type} (st : ParseState) : Except Text α → Parsed α
  | .ok a => .ok a
  | .error error => st.fail error

def ParseState.failLine {α : Type} (st : ParseState) (message : Text) : Parsed α :=
  st.fail (lineError st.lineNumber message)

/-! ## Declarations -/

/-- The parts of `text` before and after its first `=`. -/
def cutEquals (s : Text) : Option (Text × Text) := cut '=' s

/-- The default of an `ARG`, when it gives one. -/
def argDefault (st : ParseState) (rest : Text) : Parsed (Option Text) :=
  match cutEquals rest with
  | some (_, value) => (st.orFail (substituteOrFail st.values st.lineNumber value)).map some
  | none => pure none

def parseArg (argOverrides : List (Text × Text)) (st : ParseState) (rest : Text) :
    Parsed ParseState := do
  let defaultValue ← argDefault st rest
  let name := trim ((cutEquals rest).elim rest Prod.fst)
  if name = [] then st.failLine (text "ARG requires a name")
  else
    let st := { st with declaredArgs := name :: st.declaredArgs }
    match argOverrides.lookup name, defaultValue with
    | some value, _ => pure { st with values := (name, value) :: st.values }
    | none, some value => pure { st with values := (name, value) :: st.values }
    | none, none =>
        st.failLine (text "ARG '" ++ name ++
          text "' has no default value and was not provided (pass `-- " ++ name ++
          text "=value`)")

def parseVar (st : ParseState) (rest : Text) : Parsed ParseState :=
  match cutEquals rest with
  | none => st.failLine (text "VAR requires name=value")
  | some (name, value) =>
      if trim name = [] then st.failLine (text "VAR requires a name")
      else do
        let value ← st.orFail (substituteOrFail st.values st.lineNumber value)
        pure { st with values := (trim name, value) :: st.values }

/-- Without an `=` the variable is imported from the host. -/
def envEntry (st : ParseState) (rest : Text) : Parsed HaisosFileEnvEntry :=
  match cutEquals rest with
  | none => pure { name := trim rest, importFromHost := true }
  | some (name, value) => do
      let value ← st.orFail (substituteOrFail st.values st.lineNumber value)
      pure { name := trim name, value }

def parseEnv (st : ParseState) (rest : Text) : Parsed ParseState :=
  if rest = [] then st.failLine (text "ENV requires a name")
  else do
    let entry ← envEntry st rest
    if entry.name = [] then st.failLine (text "ENV requires a name")
    else
      pure { st with
        config := { st.config with envEntries := st.config.envEntries ++ [entry] } }

/-! ## Directives whose arguments are tokens -/

/-- Paths inside the OS are always given from its root. -/
def isAbsoluteOsPath (path : Text) : Bool := path.head? == some '/'

def ParseState.addOperation (st : ParseState) (operation : HaisosFileOperation) : ParseState :=
  { st with
    config := { st.config with setupOperations := st.config.setupOperations ++ [operation] } }

def ParseState.addFsStep (st : ParseState) (step : HaisosFileFsStep) : ParseState :=
  { st with config := { st.config with fsSteps := st.config.fsSteps ++ [step] } }

def rootTokens (st : ParseState) (tokens : List Text) : Parsed ParseState :=
  match tokens with
  | [directory] =>
      if directory = [] then
        st.failLine (text "ROOT takes one filesystem name, or one directory (quote a path holding spaces)")
      else
        pure { st with config := { st.config with rootPath := directory }, sawRoot := true }
  | _ =>
      st.failLine (text "ROOT takes one filesystem name, or one directory (quote a path holding spaces)")

def expectedArgs (type : Text) : Option Nat :=
  if type = text "PHYSICAL" then some 1
  else if type = text "RO" then some 1
  else if type = text "MEM" then some 0
  else if type = text "DEV" then some 0
  else if type = text "SUB" then some 2
  else if type = text "COMPOSED" then some 3
  else none

def fsTokens (st : ParseState) (tokens : List Text) : Parsed ParseState :=
  match tokens with
  | name :: type :: args =>
      match expectedArgs type with
      | none =>
          st.failLine (text "unknown FS type '" ++ type ++
            text "' (expected PHYSICAL, RO, MEM, DEV, SUB, or COMPOSED)")
      | some expected =>
          if args.length = expected then pure (st.addFsStep (.declare ⟨name, type, args⟩))
          else
            st.failLine (text "FS " ++ type ++ text " expects " ++ natText expected ++
              text " argument(s), got " ++ natText args.length)
  | _ => st.failLine (text "FS requires a name and a filesystem type")

def mountTokens (st : ParseState) (tokens : List Text) : Parsed ParseState :=
  match tokens with
  | [mainFs, path, toBeMountedFs] => pure (st.addFsStep (.mount ⟨mainFs, path, toBeMountedFs⟩))
  | _ => st.failLine (text "MOUNT requires <main_fs> <path> <fs_to_mount>")

/-- `-i` is an option in front of the program only. -/
def runTokens (st : ParseState) (tokens : List Text) : Parsed ParseState :=
  let interactive := tokens.head? == some (text "-i")
  match (if interactive then tokens.tail else tokens) with
  | [] => st.failLine (text "RUN requires a program path")
  | program :: args =>
      if isAbsoluteOsPath program then
        pure { st with
          firstRunLine := if st.firstRunLine = 0 then st.lineNumber else st.firstRunLine
          config := { st.config with
            runEntries := st.config.runEntries ++ [⟨program, args, interactive⟩] } }
      else
        st.failLine (text "RUN requires an absolute program path (starting with '/'), got '" ++
          program ++ text "'")

/-- The loop over the paths of a `BUILTIN`; those before a wrong one stay. -/
def builtinPaths (fsName builtinName : Text) (st : ParseState) : List Text → Parsed ParseState
  | [] => pure st
  | path :: paths =>
      if isAbsoluteOsPath path then
        builtinPaths fsName builtinName
          (st.addOperation
            { type := .builtin, path, fsName, builtinName, lineNumber := st.lineNumber }) paths
      else
        st.failLine (text "BUILTIN requires absolute paths (starting with '/'), got '" ++ path ++
          text "'")

def builtinTokens (st : ParseState) (tokens : List Text) : Parsed ParseState :=
  match tokens with
  | fsName :: builtinName :: path :: paths => builtinPaths fsName builtinName st (path :: paths)
  | _ => st.failLine (text "BUILTIN requires <fs_name> <builtin_name> <absolute_path>...")

def pathOperation (st : ParseState) (key : Text) (operation : HaisosFileOperation) :
    Parsed ParseState :=
  if isAbsoluteOsPath operation.path then
    if operation.type = .outCopy then
      pure { st with config := { st.config with
        outCopyOperations := st.config.outCopyOperations ++ [operation] } }
    else pure (st.addOperation operation)
  else
    st.failLine (key ++ text " requires an absolute path inside the OS (starting with '/'), got '" ++
      operation.path ++ text "'")

def onePathTokens (type : HaisosFileOperationType) (key : Text) (st : ParseState)
    (tokens : List Text) : Parsed ParseState :=
  match tokens with
  | [path] => pathOperation st key { type, path, lineNumber := st.lineNumber }
  | _ => st.failLine (key ++ text " requires exactly one path")

def copyTokens (st : ParseState) (tokens : List Text) : Parsed ParseState :=
  match tokens with
  | [hostPath, path] =>
      pathOperation st (text "COPY") { type := .copy, path, hostPath, lineNumber := st.lineNumber }
  | _ => st.failLine (text "COPY requires <host_path> <absolute_path>")

def outCopyTokens (st : ParseState) (tokens : List Text) : Parsed ParseState :=
  match tokens with
  | [path, hostPath] =>
      pathOperation st (text "OUTCOPY")
        { type := .outCopy, path, hostPath, lineNumber := st.lineNumber }
  | _ => st.failLine (text "OUTCOPY requires <absolute_path> <host_path>")

/-- A directive whose arguments are tokens: what it does with them. -/
def tokenDirective (key : Text) : Option (ParseState → List Text → Parsed ParseState) :=
  if key = text "ROOT" then some rootTokens
  else if key = text "FS" then some fsTokens
  else if key = text "MOUNT" then some mountTokens
  else if key = text "RUN" then some runTokens
  else if key = text "BUILTIN" then some builtinTokens
  else if key = text "COPY" then some copyTokens
  else if key = text "OUTCOPY" then some outCopyTokens
  else if key = text "DELETE" then some (onePathTokens .delete key)
  else if key = text "CREATE_DIR" then some (onePathTokens .createDir key)
  else none

/-- What some of these directives refuse before their tokens are read. -/
def refusedBefore (st : ParseState) (key rest : Text) : Option Text :=
  if key = text "ROOT" then
    if st.sawRoot then some (text "only one ROOT directive is allowed")
    else if rest = [] then some (text "ROOT requires a directory")
    else none
  else if key = text "FS" then
    if rest = [] then some (text "FS requires a name and a filesystem type") else none
  else if key = text "RUN" then
    if rest = [] then some (text "RUN requires a program path") else none
  else none

def argumentTokens (st : ParseState) (rest : Text) : Parsed (List Text) := do
  let substituted ← st.orFail (substituteOrFail st.values st.lineNumber rest)
  st.orFail (splitTokens st.lineNumber substituted)

def parseTokens (st : ParseState) (key rest : Text)
    (directive : ParseState → List Text → Parsed ParseState) : Parsed ParseState :=
  match refusedBefore st key rest with
  | some message => st.failLine message
  | none => do
      let tokens ← argumentTokens st rest
      directive st tokens

/-! ## Files with their content -/

/-- The lines of a multiline text up to its marker, and how many lines they and it are. -/
def readBlock (marker : Text) : Text → Bool → Nat → List Text → Option (Text × Nat)
  | _, _, _, [] => none
  | content, first, taken, rawLine :: stream =>
      let line := stripCarriageReturn rawLine
      if trim line = marker then some (content, taken + 1)
      else
        readBlock marker ((if first then content else content ++ ['\n']) ++ line) false (taken + 1)
          stream

/-- `ParseFileContent`: the content, and how many lines of the stream it took. -/
def parseFileContent (key spec : Text) (stream : List Text) (lineNumber : Nat) :
    Except Text (Text × Nat) :=
  let multiline := text "multiline"
  if spec.head?.any isQuote then
    let quote := spec.head?.getD '"'
    match cut quote spec.tail with
    | none =>
        .error (lineError lineNumber (key ++ text ": unterminated " ++
          (if quote = '"' then text "double" else text "single") ++ text "-quoted text"))
    | some (content, after) =>
        let trailing := trim after
        if trailing ≠ [] ∧ trailing.head? ≠ some '#' then
          .error (lineError lineNumber
            (key ++ text ": unexpected text after the closing quote: " ++ trailing))
        else .ok (content, 0)
  else if (text "text:").isPrefixOf spec then .ok (spec.drop 5, 0)
  else if multiline.isPrefixOf spec ∧ ((spec.drop multiline.length).head?.all isBlank) then
    let marker := trim (spec.drop multiline.length)
    if marker = [] then
      .error (lineError lineNumber
        (key ++ text ": multiline requires an end marker (e.g. `multiline EOF`)"))
    else
      match readBlock marker [] true 0 stream with
      | some (content, taken) => .ok (content, taken)
      | none =>
          .error (lineError lineNumber (key ++
            text ": multiline text is never closed by a line containing only '" ++ marker ++
            text "'"))
  else
    .error (lineError lineNumber (key ++
      text " requires content after the path: 'text', \"text\", text:<rest of line>, or multiline <marker>"))

/-- The path of a `CREATE` or `APPEND`, still to be substituted, and what follows it. -/
def rawPathOf (st : ParseState) (key : Text) (raw : Text) : Parsed (Text × Text) :=
  match ((raw.dropWhile isBlank).drop key.length).dropWhile isBlank with
  | [] => st.failLine (key ++ text " requires a file path and its content")
  | c :: rest =>
      if isQuote c then
        match cut c rest with
        | none => st.failLine (key ++ text ": the quoted path is never closed")
        | some (path, after) =>
            if after.head?.any fun d => !isBlank d then
              st.failLine (key ++
                text ": the quoted path is followed by more of it right after its closing quote")
            else pure (path, after)
      else
        pure ((c :: rest).takeWhile fun d => !isBlank d, (c :: rest).dropWhile fun d => !isBlank d)

def parseFile (type : HaisosFileOperationType) (st : ParseState) (key rawLine : Text)
    (stream : List Text) : Parsed (ParseState × Nat) := do
  let (rawPath, after) ← rawPathOf st key (stripCarriageReturn rawLine)
  let spec := after.dropWhile isBlank
  let path ← st.orFail (substituteOrFail st.values st.lineNumber rawPath)
  if isAbsoluteOsPath path then
    let (content, taken) ← st.orFail (parseFileContent key spec stream st.lineNumber)
    let operation : HaisosFileOperation := { type, path, content, lineNumber := st.lineNumber }
    pure ({ st.addOperation operation with lineNumber := st.lineNumber + taken }, taken)
  else
    st.failLine (key ++ text " requires an absolute file path (starting with '/'), got '" ++ path ++
      text "'")

/-! ## Lines -/

def isFileDirective (key : Text) : Bool :=
  key == text "CREATE" || key == text "APPEND" || key == text "CREATE_DIR" ||
    key == text "COPY" || key == text "DELETE" || key == text "OUTCOPY" || key == text "BUILTIN"

/-- Filesystems come before files, and files before programs. -/
def outOfOrder (st : ParseState) (key : Text) : Option Text :=
  if (key = text "ROOT" ∨ key = text "FS" ∨ key = text "MOUNT") ∧ st.firstFileDirectiveLine ≠ 0 then
    some (key ++ text " cannot come after the file directive on line " ++
      natText st.firstFileDirectiveLine ++
      text ": the root filesystem is fixed once files are written to it")
  else if isFileDirective key ∧ key ≠ text "OUTCOPY" ∧ st.firstRunLine ≠ 0 then
    some (key ++ text " cannot come after the RUN on line " ++ natText st.firstRunLine ++
      text ": files are set up before any process starts")
  else none

def ParseState.noteFileDirective (st : ParseState) (key : Text) : ParseState :=
  if isFileDirective key ∧ st.firstFileDirectiveLine = 0 then
    { st with firstFileDirectiveLine := st.lineNumber }
  else st

/-- The directive of a line and its arguments. -/
def splitKey (line : Text) : Text × Text :=
  (line.takeWhile fun c => !isBlank c, trim ((line.dropWhile fun c => !isBlank c).drop 1))

/-- One line: the state after it, and how many lines of the stream it took with it. -/
def parseLine (argOverrides : List (Text × Text)) (st : ParseState) (rawLine : Text)
    (stream : List Text) : Parsed (ParseState × Nat) :=
  let line := trim (stripComment rawLine)
  if line = [] then pure (st, 0)
  else
    let (key, rest) := splitKey line
    match outOfOrder st key with
    | some message => st.failLine message
    | none =>
        let st := st.noteFileDirective key
        if key = text "ARG" then (parseArg argOverrides st rest).map (·, 0)
        else if key = text "VAR" then (parseVar st rest).map (·, 0)
        else if key = text "ENV" then (parseEnv st rest).map (·, 0)
        else if key = text "CREATE" then parseFile .create st key rawLine stream
        else if key = text "APPEND" then parseFile .append st key rawLine stream
        else
          match tokenDirective key with
          | some directive => (parseTokens st key rest directive).map (·, 0)
          | none => st.failLine (text "unknown directive '" ++ key ++ text "'")

def parseLines (argOverrides : List (Text × Text)) :
    Nat → ParseState → List Text → Parsed ParseState
  | _, st, [] => pure st
  | skip + 1, st, _ :: stream => parseLines argOverrides skip st stream
  | 0, st, rawLine :: stream => do
      let (st, taken) ←
        parseLine argOverrides { st with lineNumber := st.lineNumber + 1 } rawLine stream
      parseLines argOverrides taken st stream

/-- The lines that `std::getline` reads. -/
def fileLines : Text → List Text
  | [] => []
  | c :: rest =>
      if c = '\n' then [] :: fileLines rest
      else
        match fileLines rest with
        | [] => [[c]]
        | line :: lines => (c :: line) :: lines

def parseHaisosFile (content : Text) (argOverrides : List (Text × Text)) : HaisosFileParseResult :=
  match parseLines argOverrides 0 {} (fileLines content) with
  | .error result => result
  | .ok st =>
      match argOverrides.find? fun (name, _) => !st.declaredArgs.contains name with
      | some (name, _) =>
          ⟨st.config, text "Error: unknown argument override '" ++ name ++
            text "' (no ARG with that name is declared in the haisosfile)\n"⟩
      | none =>
          if st.config.runEntries = [] then
            ⟨st.config, text "Error: haisosfile must have at least one RUN directive\n"⟩
          else ⟨st.config, []⟩

end Haisos.HaisosFile
