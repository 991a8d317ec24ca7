import Mathlib.Tactic
import Haisos.Hsh.Text

/-!
# The arguments of builtin commands

`ParseBuiltinArgs` of `BuiltinCommand.cpp`, which parses as `getopt_long` does with
permutation, against the ways of writing options and operands.
-/

namespace Haisos.BuiltinCommands

open Hsh (Text text)

inductive BuiltinArgument where
  | none
  | required
  | optional
  | optionalAttached
  deriving DecidableEq, Repr

def noShortName : Char := Char.ofNat 0

structure BuiltinOption where
  shortName : Char := noShortName
  longName : Text := []
  id : Int := 0
  argument : BuiltinArgument := .none
  deriving DecidableEq, Repr

structure ParsedBuiltinOption where
  id : Int := 0
  argument : Text := []
  hasArgument : Bool := false
  spelling : Text
  deriving DecidableEq, Repr

structure ParsedBuiltinArgs where
  options : List ParsedBuiltinOption := []
  operands : List Text := []
  error : Text := []
  deriving DecidableEq, Repr

def kBuiltinOptionHelp : Int := -1

def kBuiltinOptionVersion : Int := -2

def commonOptions : List BuiltinOption :=
  [{ longName := text "help", id := kBuiltinOptionHelp },
    { longName := text "version", id := kBuiltinOptionVersion }]

/-- `FindLongOption`: the option, and whether the name is ambiguous. -/
def findLongOption (name : Text) (options : List BuiltinOption) :
    Option BuiltinOption × Bool :=
  let named := (options ++ commonOptions).filter fun option => option.longName ≠ []
  match named.find? fun option => option.longName = name with
  | some option => (some option, false)
  | none =>
      let prefixMatches := named.filter fun option => name.isPrefixOf option.longName
      if prefixMatches.length > 1 then (none, true) else (prefixMatches.head?, false)

def findShortOption (name : Char) (options : List BuiltinOption) : Option BuiltinOption :=
  options.find? fun option => option.shortName = name

/-- What one word gives: its options, or those before an error, and whether the next word
is its argument. -/
structure WordParse where
  options : List ParsedBuiltinOption := []
  error : Option Text := none
  tookNext : Bool := false

def longSpelling (option : BuiltinOption) : Text := text "--" ++ option.longName

def shortSpelling (name : Char) : Text := ['-', name]

/-- A word that begins with `--`, given the word after it. -/
def parseLong (options : List BuiltinOption) (arg : Text) (next : Option Text) : WordParse :=
  let name := (arg.drop 2).takeWhile (· ≠ '=')
  match findLongOption name options with
  | (none, ambiguous) =>
      { error := some (if ambiguous then text "option '" ++ arg ++ text "' is ambiguous"
          else text "unrecognized option '" ++ arg ++ text "'") }
  | (some option, _) =>
      let found : ParsedBuiltinOption := { id := option.id, spelling := longSpelling option }
      if '=' ∈ arg then
        if option.argument = .none then
          { error := some (text "option '--" ++ option.longName ++
              text "' doesn't allow an argument") }
        else
          { options := [{ found with
              argument := (arg.dropWhile (· ≠ '=')).drop 1, hasArgument := true }] }
      else if option.argument = .required then
        match next with
        | none =>
            { error := some (text "option '--" ++ option.longName ++
                text "' requires an argument") }
        | some argument =>
            { options := [{ found with argument := argument, hasArgument := true }]
              tookNext := true }
      else { options := [found] }

/-- The rest of a cluster of short options, given the word after it. -/
def parseCluster (options : List BuiltinOption) (next : Option Text) :
    Text → List ParsedBuiltinOption → WordParse
  | [], before => { options := before }
  | c :: rest, before =>
      match findShortOption c options with
      | none =>
          { options := before, error := some (text "invalid option -- '" ++ [c] ++ text "'") }
      | some option =>
          let found : ParsedBuiltinOption := { id := option.id, spelling := shortSpelling c }
          if option.argument = .required then
            if rest ≠ [] then
              { options := before ++ [{ found with argument := rest, hasArgument := true }] }
            else
              match next with
              | some argument =>
                  { options := before ++
                      [{ found with argument := argument, hasArgument := true }]
                    tookNext := true }
              | none =>
                  { options := before
                    error := some (text "option requires an argument -- '" ++ [c] ++ text "'") }
          else if option.argument = .optionalAttached ∧ rest ≠ [] then
            { options := before ++ [{ found with argument := rest, hasArgument := true }] }
          else parseCluster options next rest (before ++ [found])

def parseWord (options : List BuiltinOption) (arg : Text) (next : Option Text) : WordParse :=
  if arg.length > 2 ∧ (text "--").isPrefixOf arg = true then parseLong options arg next
  else parseCluster options next (arg.drop 1) []

def isOperand (arg : Text) : Bool := !(decide (arg.length > 1) && arg.head? == some '-')

/-- The words from some word on, after what the words before it gave. -/
def parseFrom (options : List BuiltinOption) : List Text → ParsedBuiltinArgs → ParsedBuiltinArgs
  | [], parsed => parsed
  | arg :: rest, parsed =>
      if arg = text "--" then { parsed with operands := parsed.operands ++ rest }
      else if isOperand arg then
        parseFrom options rest { parsed with operands := parsed.operands ++ [arg] }
      else
        let word := parseWord options arg rest.head?
        let after := { parsed with options := parsed.options ++ word.options }
        match word.error, word.tookNext, rest with
        | some error, _, _ => { after with error := error }
        | none, true, _ :: rest => parseFrom options rest after
        | none, _, rest => parseFrom options rest after

def parseBuiltinArgs (args : List Text) (options : List BuiltinOption) : ParsedBuiltinArgs :=
  parseFrom options args {}

/-! ## Ways of writing -/

structure Occurrence where
  option : BuiltinOption
  argument : Option Text := none
  long : Bool
  deriving DecidableEq, Repr

def Occurrence.parsed (occurrence : Occurrence) : ParsedBuiltinOption :=
  { id := occurrence.option.id
    argument := occurrence.argument.getD []
    hasArgument := occurrence.argument.isSome
    spelling := if occurrence.long then longSpelling occurrence.option
      else shortSpelling occurrence.option.shortName }

def abbreviatedBy (options : List BuiltinOption) (name : Text) : List BuiltinOption :=
  (options ++ commonOptions).filter fun option =>
    option.longName ≠ [] && name.isPrefixOf option.longName

/-- The names an option may be written with: its own, or a beginning of it that is no
option's own and no other option's beginning.  A name ends before the first `=`. -/
inductive Names (options : List BuiltinOption) : Text → BuiltinOption → Prop where
  | exact {option : BuiltinOption} (hin : option ∈ options) (hname : option.longName ≠ [])
      (hplain : '=' ∉ option.longName) : Names options option.longName option
  | common {option : BuiltinOption} (hin : option ∈ commonOptions)
      (hown : ∀ other ∈ options, other.longName ≠ option.longName) :
      Names options option.longName option
  | abbreviated {name : Text} {option : BuiltinOption}
      (hnone : ∀ other ∈ options ++ commonOptions, other.longName ≠ name)
      (honly : abbreviatedBy options name = [option])
      (hplain : '=' ∉ name) : Names options name option

section
variable (letter : Char → BuiltinOption → Prop)

/-- A cluster of short options, what it says, and the next word if that is an argument. -/
inductive Cluster : Text → List Occurrence → List Text → Prop where
  | alone {c : Char} {option : BuiltinOption} (hletter : letter c option)
      (hnone : option.argument ≠ .required) : Cluster [c] [⟨option, none, false⟩] []
  | more {c : Char} {option : BuiltinOption} {rest : Text} {occurrences : List Occurrence}
      {next : List Text} (hletter : letter c option)
      (hnone : option.argument = .none ∨ option.argument = .optional)
      (hrest : Cluster rest occurrences next) :
      Cluster (c :: rest) (⟨option, none, false⟩ :: occurrences) next
  | attached {c : Char} {option : BuiltinOption} {argument : Text} (hletter : letter c option)
      (htakes : option.argument = .required ∨ option.argument = .optionalAttached)
      (hargument : argument ≠ []) : Cluster (c :: argument) [⟨option, some argument, false⟩] []
  | detached {c : Char} {option : BuiltinOption} (argument : Text) (hletter : letter c option)
      (htakes : option.argument = .required) :
      Cluster [c] [⟨option, some argument, false⟩] [argument]

/-- Words that write these options, in this order, and these operands, in this order:
every word is a part of an option, an option's argument, the `--`, or an operand. -/
inductive Written (options : List BuiltinOption) :
    List Text → List Occurrence → List Text → Prop where
  | done : Written options [] [] []
  | operand {word : Text} {words : List Text} {occurrences : List Occurrence}
      {operands : List Text} (hword : word.head? ≠ some '-' ∨ word = ['-'])
      (hrest : Written options words occurrences operands) :
      Written options (word :: words) occurrences (word :: operands)
  | endOfOptions (operands : List Text) : Written options (text "--" :: operands) [] operands
  | long {name : Text} {option : BuiltinOption} {words : List Text}
      {occurrences : List Occurrence} {operands : List Text} (hname : Names options name option)
      (hnone : option.argument ≠ .required)
      (hrest : Written options words occurrences operands) :
      Written options ((text "--" ++ name) :: words) (⟨option, none, true⟩ :: occurrences) operands
  | longAttached {name : Text} {option : BuiltinOption} (argument : Text) {words : List Text}
      {occurrences : List Occurrence} {operands : List Text} (hname : Names options name option)
      (htakes : option.argument ≠ .none) (hrest : Written options words occurrences operands) :
      Written options ((text "--" ++ name ++ '=' :: argument) :: words)
        (⟨option, some argument, true⟩ :: occurrences) operands
  | longDetached {name : Text} {option : BuiltinOption} (argument : Text) {words : List Text}
      {occurrences : List Occurrence} {operands : List Text} (hname : Names options name option)
      (htakes : option.argument = .required)
      (hrest : Written options words occurrences operands) :
      Written options ((text "--" ++ name) :: argument :: words)
        (⟨option, some argument, true⟩ :: occurrences) operands
  | short {letters : Text} {here : List Occurrence} {next words : List Text}
      {occurrences : List Occurrence} {operands : List Text}
      (hcluster : Cluster letter letters here next) (hdash : letters.head? ≠ some '-')
      (hrest : Written options words occurrences operands) :
      Written options (('-' :: letters) :: (next ++ words)) (here ++ occurrences) operands

end

def ShortName (options : List BuiltinOption) (c : Char) (option : BuiltinOption) : Prop :=
  option ∈ options ∧ option.shortName = c

/-- A table in which no two options have the same short or long name. -/
structure Distinct (options : List BuiltinOption) : Prop where
  short : options.Pairwise fun a b => a.shortName = b.shortName → a.shortName = noShortName
  long : options.Pairwise fun a b => a.longName = b.longName → a.longName = []

/-! ## Finding options -/

theorem find?_key {α β : Type*} [DecidableEq β] (key : α → β) (none : β) {l : List α}
    (h : l.Pairwise fun a b => key a = key b → key a = none) {a : α} (hin : a ∈ l)
    (hne : key a ≠ none) : l.find? (fun b => key b = key a) = some a := by
  induction l with
  | nil => cases hin
  | cons b l ih =>
      obtain ⟨hb, hl⟩ := List.pairwise_cons.1 h
      rcases List.mem_cons.1 hin with rfl | hin
      · rw [List.find?_cons_of_pos (by simp)]
      · rw [List.find?_cons_of_neg]
        · exact ih hl hin
        · intro hsame
          have hkey : key b = key a := by simpa using hsame
          exact hne (hkey ▸ hb a hin hkey)

section
variable {options : List BuiltinOption} {name : Text} {option : BuiltinOption}

theorem find?_named (hname : name ≠ []) (options : List BuiltinOption) :
    ((options ++ commonOptions).filter fun option => option.longName ≠ []).find?
        (fun option => option.longName = name) =
      (options ++ commonOptions).find? fun option => option.longName = name := by
  rw [List.find?_filter]
  congr 1
  funext option
  by_cases hsame : option.longName = name <;> simp [hsame, hname]

theorem findLongOption_exact (hname : name ≠ [])
    (h : ((options ++ commonOptions).find? fun option => option.longName = name) = some option) :
    findLongOption name options = (some option, false) := by
  simp only [findLongOption, find?_named hname, h]

theorem findLongOption_abbreviated (hname : name ≠ [])
    (h : ((options ++ commonOptions).find? fun option => option.longName = name) = none) :
    findLongOption name options =
      if (abbreviatedBy options name).length > 1 then (none, true)
      else ((abbreviatedBy options name).head?, false) := by
  have hfilter : ((options ++ commonOptions).filter fun option => option.longName ≠ []).filter
      (fun option => name.isPrefixOf option.longName) = abbreviatedBy options name := by
    rw [List.filter_filter, abbreviatedBy]
    congr 1
    funext option
    rw [Bool.and_comm]
  simp only [findLongOption, find?_named hname, h, hfilter]

theorem two_abbreviatedBy_nil (options : List BuiltinOption) :
    (abbreviatedBy options []).length > 1 := by
  rw [abbreviatedBy, List.filter_append, List.length_append]
  simp [commonOptions, text]

end

theorem Names.ne_nil {options : List BuiltinOption} {name : Text} {option : BuiltinOption}
    (h : Names options name option) : name ≠ [] := by
  cases h with
  | exact hin hname hplain => exact hname
  | common hin hown =>
      rcases List.mem_cons.1 hin with rfl | hin
      · decide
      · rw [List.mem_singleton.1 hin]
        decide
  | abbreviated hnone honly hplain =>
      rintro rfl
      have htwo := two_abbreviatedBy_nil options
      rw [honly] at htwo
      simp at htwo

theorem Names.plain {options : List BuiltinOption} {name : Text} {option : BuiltinOption}
    (h : Names options name option) : '=' ∉ name := by
  cases h with
  | exact hin hname hplain => exact hplain
  | common hin hown =>
      rcases List.mem_cons.1 hin with rfl | hin
      · decide
      · rw [List.mem_singleton.1 hin]
        decide
  | abbreviated hnone honly hplain => exact hplain

theorem findLongOption_of_names {options : List BuiltinOption} (hdistinct : Distinct options)
    {name : Text} {option : BuiltinOption} (h : Names options name option) :
    findLongOption name options = (some option, false) := by
  have hne := h.ne_nil
  cases h with
  | exact hin hname hplain =>
      have hfind := find?_key BuiltinOption.longName [] hdistinct.long hin hname
      exact findLongOption_exact hne (by rw [List.find?_append, hfind]; rfl)
  | common hin hown =>
      have hnone : options.find? (fun other => other.longName = option.longName) = none := by
        simpa using hown
      have hfind : commonOptions.find? (fun other => other.longName = option.longName) =
          some option := by
        rcases List.mem_cons.1 hin with rfl | hin
        · rfl
        · rw [List.mem_singleton.1 hin]
          rfl
      exact findLongOption_exact hne (by rw [List.find?_append, hnone, hfind]; rfl)
  | abbreviated hnone honly hplain =>
      have hfind : (options ++ commonOptions).find? (fun other => other.longName = name) =
          none := List.find?_eq_none.2 (by simpa using hnone)
      rw [findLongOption_abbreviated hne hfind, honly]
      rfl

theorem names_of_findLongOption {options : List BuiltinOption} {name : Text} {ambiguous : Bool}
    {option : BuiltinOption} (h : findLongOption name options = (some option, ambiguous))
    (hplain : '=' ∉ name) : Names options name option := by
  have hne : name ≠ [] := by
    rintro rfl
    have hnone : ((options ++ commonOptions).filter fun option => option.longName ≠ []).find?
        (fun option => option.longName = []) = none := by
      simp [List.find?_eq_none]
    have hmany : (((options ++ commonOptions).filter fun option => option.longName ≠ []).filter
        fun option => List.isPrefixOf [] option.longName).length > 1 := by
      rw [List.filter_append, List.filter_append, List.length_append]
      simp [commonOptions, text]
    simp only [findLongOption, hnone] at h
    rw [if_pos hmany] at h
    cases h
  cases hfound : (options ++ commonOptions).find? fun option => option.longName = name with
  | some found =>
      rw [findLongOption_exact hne hfound] at h
      cases h
      have hname : option.longName = name := by simpa using List.find?_some hfound
      subst hname
      rw [List.find?_append] at hfound
      cases hown : options.find? fun other => other.longName = option.longName with
      | some own =>
          rw [hown] at hfound
          cases hfound
          exact .exact (List.mem_of_find?_eq_some hown) hne hplain
      | none =>
          rw [hown, Option.none_or] at hfound
          exact .common (List.mem_of_find?_eq_some hfound) (by simpa using hown)
  | none =>
      rw [findLongOption_abbreviated hne hfound] at h
      split_ifs at h with hmany
      · cases h
      have hhead := congrArg Prod.fst h
      refine .abbreviated (by simpa using List.find?_eq_none.1 hfound) ?_ hplain
      cases hmatches : abbreviatedBy options name with
      | nil =>
          rw [hmatches] at hhead
          cases hhead
      | cons first rest =>
          rw [hmatches] at hhead hmany
          obtain rfl : first = option := by simpa using hhead
          have hrest : rest = [] := by simpa using hmany
          rw [hrest]

/-! ## What is written is parsed -/

theorem takeWhile_plain {name : Text} (hplain : '=' ∉ name) :
    name.takeWhile (· ≠ '=') = name := by
  have hall : ∀ c ∈ name, (c ≠ '=' : Bool) = true := by
    intro c hc
    have hne : c ≠ '=' := by
      rintro rfl
      exact hplain hc
    simpa using hne
  have htake : (name ++ []).takeWhile (· ≠ '=') = name ++ ([] : Text).takeWhile (· ≠ '=') :=
    List.takeWhile_append_of_pos hall
  simpa using htake

theorem takeWhile_equals {name : Text} (hplain : '=' ∉ name) (rest : Text) :
    (name ++ '=' :: rest).takeWhile (· ≠ '=') = name ∧
      (name ++ '=' :: rest).dropWhile (· ≠ '=') = '=' :: rest := by
  have hall : ∀ c ∈ name, (c ≠ '=' : Bool) = true := by
    intro c hc
    have hne : c ≠ '=' := by
      rintro rfl
      exact hplain hc
    simpa using hne
  constructor
  · rw [List.takeWhile_append_of_pos (by simpa using hall)]
    simp
  · rw [List.dropWhile_append_of_pos (by simpa using hall)]
    simp

section
variable {options : List BuiltinOption} {name : Text} {option : BuiltinOption} {ambiguous : Bool}

theorem parseLong_alone (hplain : '=' ∉ name)
    (hfind : findLongOption name options = (some option, ambiguous))
    (hnone : option.argument ≠ .required) (next : Option Text) :
    parseLong options (text "--" ++ name) next =
      { options := [Occurrence.parsed ⟨option, none, true⟩] } := by
  have hname : ((text "--" ++ name).drop 2).takeWhile (· ≠ '=') = name := takeWhile_plain hplain
  have hequals : '=' ∉ text "--" ++ name := by simpa [text] using hplain
  simp only [parseLong, hname, hfind, hequals, hnone, if_false, Occurrence.parsed]
  rfl

theorem parseLong_next (hplain : '=' ∉ name)
    (hfind : findLongOption name options = (some option, ambiguous))
    (htakes : option.argument = .required) (argument : Text) :
    parseLong options (text "--" ++ name) (some argument) =
      { options := [Occurrence.parsed ⟨option, some argument, true⟩], tookNext := true } := by
  have hname : ((text "--" ++ name).drop 2).takeWhile (· ≠ '=') = name := takeWhile_plain hplain
  have hequals : '=' ∉ text "--" ++ name := by simpa [text] using hplain
  simp only [parseLong, hname, hfind, hequals, htakes, if_false, if_true, Occurrence.parsed]
  rfl

theorem parseLong_missing (hplain : '=' ∉ name)
    (hfind : findLongOption name options = (some option, ambiguous))
    (htakes : option.argument = .required) :
    (parseLong options (text "--" ++ name) none).error =
      some (text "option '--" ++ option.longName ++ text "' requires an argument") := by
  have hname : ((text "--" ++ name).drop 2).takeWhile (· ≠ '=') = name := takeWhile_plain hplain
  have hequals : '=' ∉ text "--" ++ name := by simpa [text] using hplain
  simp only [parseLong, hname, hfind, hequals, htakes, if_false, if_true]

theorem parseLong_equals (hplain : '=' ∉ name)
    (hfind : findLongOption name options = (some option, ambiguous)) (argument : Text)
    (next : Option Text) :
    parseLong options (text "--" ++ name ++ '=' :: argument) next =
      if option.argument = .none then
        { error := some (text "option '--" ++ option.longName ++
            text "' doesn't allow an argument") }
      else { options := [Occurrence.parsed ⟨option, some argument, true⟩] } := by
  have hsplit := takeWhile_equals hplain argument
  have hname : ((text "--" ++ name ++ '=' :: argument).drop 2).takeWhile (· ≠ '=') = name :=
    hsplit.1
  have hargument : ((text "--" ++ name ++ '=' :: argument).dropWhile (· ≠ '=')).drop 1 =
      argument := by
    rw [List.append_assoc]
    change ((name ++ '=' :: argument).dropWhile (· ≠ '=')).drop 1 = argument
    rw [hsplit.2]
    rfl
  have hequals : '=' ∈ text "--" ++ name ++ '=' :: argument := by simp
  simp only [parseLong, hname, hfind, hequals, if_true, hargument, Occurrence.parsed]
  rfl

end

section
variable {options : List BuiltinOption}

theorem findShortOption_of_letter (hdistinct : Distinct options) {c : Char}
    {option : BuiltinOption} (h : ShortName options c option) (hne : c ≠ noShortName) :
    findShortOption c options = some option := by
  obtain ⟨hin, rfl⟩ := h
  exact find?_key BuiltinOption.shortName noShortName hdistinct.short hin hne

/-- A letter of the table, not the character of an option without one. -/
def Letter (options : List BuiltinOption) (c : Char) (option : BuiltinOption) : Prop :=
  ShortName options c option ∧ c ≠ noShortName

theorem parseCluster_of_cluster (hdistinct : Distinct options) {letters : Text}
    {occurrences : List Occurrence} {next : List Text}
    (h : Cluster (Letter options) letters occurrences next) (before : List ParsedBuiltinOption)
    (words : List Text) :
    parseCluster options (next ++ words).head? letters before =
      { options := before ++ occurrences.map Occurrence.parsed, tookNext := next ≠ [] } := by
  induction h generalizing before with
  | alone hletter hnone =>
      rw [parseCluster, findShortOption_of_letter hdistinct hletter.1 hletter.2]
      simp [hnone, parseCluster, Occurrence.parsed, hletter.1.2]
  | more hletter hnone hrest ih =>
      rw [parseCluster, findShortOption_of_letter hdistinct hletter.1 hletter.2]
      have hplain : ∀ option : BuiltinOption,
          option.argument = .none ∨ option.argument = .optional →
            option.argument ≠ .required ∧ option.argument ≠ .optionalAttached := by
        rintro option (h | h) <;> simp [h]
      have hkind := hplain _ hnone
      simp only [hkind.1, hkind.2, if_false, false_and]
      rw [ih]
      simp [Occurrence.parsed, hletter.1.2]
  | attached hletter htakes hargument =>
      rw [parseCluster, findShortOption_of_letter hdistinct hletter.1 hletter.2]
      rcases htakes with htakes | htakes <;>
        simp [htakes, hargument, Occurrence.parsed, hletter.1.2]
  | detached argument hletter htakes =>
      rw [parseCluster, findShortOption_of_letter hdistinct hletter.1 hletter.2]
      simp [htakes, Occurrence.parsed, hletter.1.2]

variable {parsed : ParsedBuiltinArgs} {arg : Text} {words : List Text}

theorem parseFrom_word (hend : arg ≠ text "--") (hoption : isOperand arg = false)
    {next : List Text} {given : List ParsedBuiltinOption}
    (hword : parseWord options arg (next ++ words).head? =
      { options := given, tookNext := next ≠ [] })
    (hnext : next = [] ∨ ∃ argument, next = [argument]) :
    parseFrom options (arg :: (next ++ words)) parsed =
      parseFrom options words { parsed with options := parsed.options ++ given } := by
  rw [parseFrom, if_neg hend, hoption]
  simp only [Bool.false_eq_true, if_false, hword]
  rcases hnext with rfl | ⟨argument, rfl⟩
  · simp
  · simp

theorem isOperand_long (name rest : Text) :
    isOperand (text "--" ++ name ++ rest) = false := by
  simp [isOperand, text]

theorem parseWord_long (options : List BuiltinOption) {name : Text} (hname : name ≠ [])
    (rest : Text) (next : Option Text) :
    parseWord options (text "--" ++ name ++ rest) next =
      parseLong options (text "--" ++ name ++ rest) next := by
  have hpos := List.length_pos_of_ne_nil hname
  have hlong : (text "--" ++ name ++ rest).length > 2 ∧
      (text "--").isPrefixOf (text "--" ++ name ++ rest) = true := by
    refine ⟨by simp [text]; omega, ?_⟩
    rw [List.append_assoc]
    exact List.isPrefixOf_iff_prefix.2 (List.prefix_append _ _)
  rw [parseWord, if_pos hlong]

theorem long_ne_end {name : Text} (hname : name ≠ []) (rest : Text) :
    text "--" ++ name ++ rest ≠ text "--" := by
  intro hsame
  have hlength := congrArg List.length hsame
  have hpos := List.length_pos_of_ne_nil hname
  simp only [List.length_append] at hlength
  omega

/-- Everything written is parsed, in its order, without an error. -/
theorem parseFrom_of_written (hdistinct : Distinct options) {occurrences : List Occurrence}
    {operands : List Text} (h : Written (Letter options) options words occurrences operands)
    (parsed : ParsedBuiltinArgs) :
    parseFrom options words parsed =
      { options := parsed.options ++ occurrences.map Occurrence.parsed
        operands := parsed.operands ++ operands
        error := parsed.error } := by
  induction h generalizing parsed with
  | done => simp [parseFrom]
  | operand hword hrest ih =>
      rename_i word words occurrences operands
      have hend : word ≠ text "--" := by
        rintro rfl
        simp [text] at hword
      have hoperand : isOperand word = true := by
        rcases hword with hhead | rfl
        · simp [isOperand, hhead]
        · rfl
      rw [parseFrom, if_neg hend, if_pos hoperand, ih]
      simp
  | endOfOptions operands => simp [parseFrom]
  | long hname hnone hrest ih =>
      rename_i name option words occurrences operands
      have hparse := parseLong_alone hname.plain (findLongOption_of_names hdistinct hname) hnone
        words.head?
      have hword := parseWord_long options hname.ne_nil [] words.head?
      have hend := long_ne_end hname.ne_nil []
      have hoption := isOperand_long name []
      simp only [List.append_nil] at hword hend hoption
      rw [show (text "--" ++ name) :: words = (text "--" ++ name) :: ([] ++ words) from rfl,
        parseFrom_word hend hoption (hword.trans hparse) (.inl rfl), ih]
      simp
  | longAttached argument hname htakes hrest ih =>
      rename_i name option words occurrences operands
      have hparse := parseLong_equals hname.plain (findLongOption_of_names hdistinct hname)
        argument words.head?
      rw [if_neg htakes] at hparse
      have hword := parseWord_long options hname.ne_nil ('=' :: argument) words.head?
      rw [show (text "--" ++ name ++ '=' :: argument) :: words =
          (text "--" ++ name ++ '=' :: argument) :: ([] ++ words) from rfl,
        parseFrom_word (long_ne_end hname.ne_nil _) (isOperand_long _ _) (hword.trans hparse)
          (.inl rfl), ih]
      simp
  | longDetached argument hname htakes hrest ih =>
      rename_i name option words occurrences operands
      have hparse := parseLong_next hname.plain (findLongOption_of_names hdistinct hname) htakes
        argument
      have hword := parseWord_long options hname.ne_nil [] (some argument)
      have hend := long_ne_end hname.ne_nil []
      have hoption := isOperand_long name []
      simp only [List.append_nil] at hword hend hoption
      rw [show (text "--" ++ name) :: argument :: words =
          (text "--" ++ name) :: ([argument] ++ words) from rfl,
        parseFrom_word hend hoption (hword.trans hparse) (.inr ⟨argument, rfl⟩), ih]
      simp
  | short hcluster hdash hrest ih =>
      rename_i letters here next words occurrences operands
      have hne : letters ≠ [] := by
        cases hcluster <;> simp
      have hpos := List.length_pos_of_ne_nil hne
      have hend : '-' :: letters ≠ text "--" := by
        intro hsame
        have htail : letters = ['-'] := by simpa [text] using hsame
        exact hdash (by rw [htail]; rfl)
      have hnot : ¬ (('-' :: letters).length > 2 ∧
          (text "--").isPrefixOf ('-' :: letters) = true) := by
        rintro ⟨-, hprefix⟩
        obtain ⟨tail, htail⟩ := List.isPrefixOf_iff_prefix.1 hprefix
        have hletters : letters = '-' :: tail := by simpa [text, eq_comm] using htail
        exact hdash (by rw [hletters]; rfl)
      have hoption : isOperand ('-' :: letters) = false := by
        simp [isOperand, hpos]
      have hword : parseWord options ('-' :: letters) (next ++ words).head? =
          { options := here.map Occurrence.parsed, tookNext := next ≠ [] } := by
        rw [parseWord, if_neg hnot]
        have hparse := parseCluster_of_cluster hdistinct hcluster [] words
        simpa using hparse
      have hnext : next = [] ∨ ∃ argument, next = [argument] := by
        clear hdash hend hnot hoption hword hpos hne hrest ih
        induction hcluster with
        | alone => exact .inl rfl
        | more _ _ _ ih => exact ih
        | attached => exact .inl rfl
        | detached argument => exact .inr ⟨argument, rfl⟩
      rw [parseFrom_word hend hoption hword hnext, ih]
      simp

/-! ## What is parsed was written -/

theorem cluster_of_parseCluster {next : Option Text} {letters : Text} (hne : letters ≠ [])
    (before : List ParsedBuiltinOption)
    (herror : (parseCluster options next letters before).error = none) :
    ∃ occurrences taken, Cluster (ShortName options) letters occurrences taken ∧
      parseCluster options next letters before =
        { options := before ++ occurrences.map Occurrence.parsed, tookNext := taken ≠ [] } ∧
      (taken = [] ∨ ∃ argument, taken = [argument] ∧ next = some argument) := by
  induction letters generalizing before with
  | nil => exact absurd rfl hne
  | cons c rest ih =>
      rw [parseCluster] at herror ⊢
      cases hfind : findShortOption c options with
      | none =>
          rw [hfind] at herror
          cases herror
      | some option =>
          have hletter : ShortName options c option :=
            ⟨List.mem_of_find?_eq_some hfind, by simpa using List.find?_some hfind⟩
          rw [hfind] at herror
          simp only at herror ⊢
          split_ifs at herror ⊢ with hrequired hrest hattached
          · exact ⟨[⟨option, some rest, false⟩], [], .attached hletter (.inl hrequired) hrest,
              by simp [Occurrence.parsed, hletter.2], .inl rfl⟩
          · obtain rfl : rest = [] := by simpa using hrest
            cases next with
            | none => cases herror
            | some argument =>
                exact ⟨[⟨option, some argument, false⟩], [argument],
                  .detached argument hletter hrequired, by simp [Occurrence.parsed, hletter.2],
                  .inr ⟨argument, rfl, rfl⟩⟩
          · exact ⟨[⟨option, some rest, false⟩], [],
              .attached hletter (.inr hattached.1) hattached.2,
              by simp [Occurrence.parsed, hletter.2], .inl rfl⟩
          · rcases eq_or_ne rest [] with rfl | hmore
            · exact ⟨[⟨option, none, false⟩], [], .alone hletter hrequired,
                by simp [parseCluster, Occurrence.parsed, hletter.2], .inl rfl⟩
            · obtain ⟨occurrences, taken, hcluster, hparse, htaken⟩ := ih hmore _ herror
              have hkind : option.argument = .none ∨ option.argument = .optional := by
                have hnot : option.argument ≠ .optionalAttached :=
                  fun hkind => hattached ⟨hkind, hmore⟩
                cases hargument : option.argument <;> simp_all
              exact ⟨⟨option, none, false⟩ :: occurrences, taken, .more hletter hkind hcluster,
                by rw [hparse]; simp [Occurrence.parsed, hletter.2], htaken⟩

theorem long_of_parseLong {rest : Text} {next : Option Text}
    (herror : (parseLong options (text "--" ++ rest) next).error = none) :
    ∃ name option, Names options name option ∧
      ((rest = name ∧ option.argument ≠ .required ∧
          parseLong options (text "--" ++ rest) next =
            { options := [Occurrence.parsed ⟨option, none, true⟩] }) ∨
        (∃ argument, rest = name ++ '=' :: argument ∧ option.argument ≠ .none ∧
          parseLong options (text "--" ++ rest) next =
            { options := [Occurrence.parsed ⟨option, some argument, true⟩] }) ∨
        ∃ argument, rest = name ∧ option.argument = .required ∧ next = some argument ∧
          parseLong options (text "--" ++ rest) next =
            { options := [Occurrence.parsed ⟨option, some argument, true⟩], tookNext := true }) := by
  have hfound : ∀ name, ((text "--" ++ rest).drop 2).takeWhile (· ≠ '=') = name →
      ∃ option ambiguous, findLongOption name options = (some option, ambiguous) := by
    intro name hname
    cases hfind : findLongOption name options with
    | mk found ambiguous =>
        cases found with
        | none =>
            rw [parseLong, hname, hfind] at herror
            cases herror
        | some option => exact ⟨option, ambiguous, rfl⟩
  by_cases hequals : '=' ∈ rest
  · obtain ⟨name, argument, rfl, hplain⟩ := List.eq_append_cons_of_mem hequals
    obtain ⟨option, ambiguous, hfind⟩ := hfound name (takeWhile_equals hplain argument).1
    have hparse := parseLong_equals hplain hfind argument next
    rw [List.append_assoc] at hparse
    rw [hparse] at herror ⊢
    refine ⟨name, option, names_of_findLongOption hfind hplain, ?_⟩
    by_cases hnone : option.argument = .none
    · rw [if_pos hnone] at herror
      cases herror
    · rw [if_neg hnone]
      exact .inr (.inl ⟨argument, rfl, hnone, rfl⟩)
  · obtain ⟨option, ambiguous, hfind⟩ := hfound rest (takeWhile_plain hequals)
    refine ⟨rest, option, names_of_findLongOption hfind hequals, ?_⟩
    by_cases hrequired : option.argument = .required
    · cases next with
      | none =>
          rw [parseLong_missing hequals hfind hrequired] at herror
          cases herror
      | some argument =>
          exact .inr (.inr ⟨argument, rfl, hrequired, rfl,
            parseLong_next hequals hfind hrequired argument⟩)
    · exact .inl ⟨rfl, hrequired, parseLong_alone hequals hfind hrequired next⟩

theorem parseCluster_error {next : Option Text} {letters : Text}
    {before : List ParsedBuiltinOption} {error : Text}
    (h : (parseCluster options next letters before).error = some error) : error ≠ [] := by
  induction letters generalizing before with
  | nil => cases h
  | cons c rest ih =>
      rw [parseCluster] at h
      cases hfind : findShortOption c options with
      | none =>
          rw [hfind] at h
          cases h
          simp [text]
      | some option =>
          rw [hfind] at h
          by_cases hrequired : option.argument = .required
          · by_cases hrest : rest = []
            · cases next with
              | none =>
                  simp only [hrequired, hrest, if_true, ne_eq, not_true, if_false] at h
                  cases h
                  simp [text]
              | some argument => simp [hrequired, hrest] at h
            · simp [hrequired, hrest] at h
          · by_cases hattached : option.argument = .optionalAttached ∧ rest ≠ []
            · simp [hattached.1, hattached.2] at h
            · simp only [hrequired, hattached, if_false] at h
              exact ih h

theorem parseLong_error {next : Option Text} {error : Text}
    (h : (parseLong options arg next).error = some error) : error ≠ [] := by
  cases hfind : findLongOption ((arg.drop 2).takeWhile (· ≠ '=')) options with
  | mk found ambiguous =>
      cases found with
      | none =>
          simp only [parseLong, hfind, Option.some.injEq] at h
          subst h
          split_ifs <;> simp [text]
      | some option =>
          simp only [parseLong, hfind] at h
          by_cases hequals : '=' ∈ arg
          · by_cases hnone : option.argument = .none
            · simp only [hequals, hnone, if_true, Option.some.injEq] at h
              subst h
              simp [text]
            · simp [hequals, hnone] at h
          · by_cases hrequired : option.argument = .required
            · cases next with
              | none =>
                  simp only [hequals, hrequired, if_true, if_false, Option.some.injEq] at h
                  subst h
                  simp [text]
              | some argument => simp [hequals, hrequired] at h
            · simp [hequals, hrequired] at h

theorem parseWord_error {next : Option Text} {error : Text}
    (h : (parseWord options arg next).error = some error) : error ≠ [] := by
  rw [parseWord] at h
  split_ifs at h
  · exact parseLong_error h
  · exact parseCluster_error h

theorem rest_of_taken {taken rest : List Text}
    (h : taken = [] ∨ ∃ argument, taken = [argument] ∧ rest.head? = some argument) :
    ∃ words, rest = taken ++ words := by
  rcases h with rfl | ⟨argument, rfl, hhead⟩
  · exact ⟨rest, rfl⟩
  · cases rest with
    | nil => cases hhead
    | cons first words =>
        cases hhead
        exact ⟨words, rfl⟩

theorem written_word {rest : List Text} (hend : arg ≠ text "--") (hoption : isOperand arg = false)
    (hgo : (parseWord options arg rest.head?).error = none) :
    ∃ (here : List Occurrence) (taken : List Text), parseWord options arg rest.head? =
        { options := here.map Occurrence.parsed, tookNext := taken ≠ [] } ∧
      (taken = [] ∨ ∃ argument, taken = [argument] ∧ rest.head? = some argument) ∧
      ∀ words occurrences operands, Written (ShortName options) options words occurrences operands →
        Written (ShortName options) options (arg :: (taken ++ words)) (here ++ occurrences)
          operands := by
  by_cases hlong : arg.length > 2 ∧ (text "--").isPrefixOf arg = true
  · obtain ⟨tail, rfl⟩ := List.isPrefixOf_iff_prefix.1 hlong.2
    rw [parseWord, if_pos hlong] at hgo ⊢
    obtain ⟨name, option, hnames, hcases⟩ := long_of_parseLong hgo
    rcases hcases with ⟨rfl, hnone, hparse⟩ | ⟨argument, rfl, htakes, hparse⟩ |
      ⟨argument, rfl, htakes, hhead, hparse⟩
    · refine ⟨[⟨option, none, true⟩], [], hparse, .inl rfl, ?_⟩
      intro words occurrences operands hwritten
      exact .long hnames hnone hwritten
    · refine ⟨[⟨option, some argument, true⟩], [], hparse, .inl rfl, ?_⟩
      intro words occurrences operands hwritten
      rw [← List.append_assoc]
      exact .longAttached argument hnames htakes hwritten
    · refine ⟨[⟨option, some argument, true⟩], [argument], hparse,
        .inr ⟨argument, rfl, hhead⟩, ?_⟩
      intro words occurrences operands hwritten
      exact .longDetached argument hnames htakes hwritten
  · obtain ⟨letters, rfl, hletters⟩ : ∃ letters, arg = '-' :: letters ∧ letters ≠ [] := by
      simp only [isOperand, Bool.not_eq_false', Bool.and_eq_true, decide_eq_true_eq,
        beq_iff_eq] at hoption
      obtain ⟨letters, rfl⟩ := List.head?_eq_some_iff.1 hoption.2
      refine ⟨letters, rfl, ?_⟩
      rintro rfl
      simp at hoption
    rw [parseWord, if_neg hlong] at hgo ⊢
    obtain ⟨here, taken, hcluster, hparse, htaken⟩ := cluster_of_parseCluster hletters [] hgo
    refine ⟨here, taken, hparse, htaken, ?_⟩
    intro words occurrences operands hwritten
    refine .short hcluster ?_ hwritten
    intro hdash
    obtain ⟨tail, rfl⟩ := List.head?_eq_some_iff.1 hdash
    refine hlong ⟨?_, by simp [text, List.isPrefixOf]⟩
    cases tail with
    | nil => exact absurd rfl hend
    | cons c tail => simp

theorem operand_word (hoperand : isOperand arg = true) : arg.head? ≠ some '-' ∨ arg = ['-'] := by
  by_cases hhead : arg.head? = some '-'
  · obtain ⟨tail, rfl⟩ := List.head?_eq_some_iff.1 hhead
    cases tail with
    | nil => exact .inr rfl
    | cons c tail => simp [isOperand] at hoperand
  · exact .inl hhead

/-- Where no error is returned, every word was used, and for one thing. -/
theorem written_of_parseFrom {words : List Text} {parsed : ParsedBuiltinArgs}
    (hparsed : parsed.error = []) (herror : (parseFrom options words parsed).error = []) :
    ∃ occurrences operands, Written (ShortName options) options words occurrences operands ∧
      parseFrom options words parsed =
        { options := parsed.options ++ occurrences.map Occurrence.parsed
          operands := parsed.operands ++ operands
          error := [] } := by
  induction hlength : words.length using Nat.strong_induction_on generalizing words parsed with
  | _ n ih =>
      cases words with
      | nil => exact ⟨[], [], .done, by simp [parseFrom, ← hparsed]⟩
      | cons arg rest =>
          simp only [List.length_cons] at hlength
          by_cases hend : arg = text "--"
          · subst hend
            exact ⟨[], rest, .endOfOptions rest, by simp [parseFrom, ← hparsed]⟩
          · cases hoption : isOperand arg with
            | true =>
                rw [parseFrom, if_neg hend, if_pos hoption] at herror ⊢
                obtain ⟨occurrences, operands, hwritten, hparse⟩ :=
                  ih rest.length (by omega) (by simpa using hparsed) herror rfl
                exact ⟨occurrences, arg :: operands, .operand (operand_word hoption) hwritten,
                  by rw [hparse]; simp⟩
            | false =>
                have hgo : (parseWord options arg rest.head?).error = none := by
                  cases hword : (parseWord options arg rest.head?).error with
                  | none => rfl
                  | some error =>
                      rw [parseFrom, if_neg hend, hoption] at herror
                      simp only [Bool.false_eq_true, if_false, hword] at herror
                      exact absurd herror (parseWord_error hword)
                obtain ⟨here, taken, hword, htaken, hwritten⟩ := written_word hend hoption hgo
                obtain ⟨words, rfl⟩ := rest_of_taken htaken
                have hnext : taken = [] ∨ ∃ argument, taken = [argument] := by
                  rcases htaken with hnil | ⟨argument, hone, -⟩
                  · exact .inl hnil
                  · exact .inr ⟨argument, hone⟩
                rw [parseFrom_word hend hoption hword hnext] at herror ⊢
                obtain ⟨occurrences, operands, htail, hparse⟩ :=
                  ih words.length (by simp at hlength; omega) (by simpa using hparsed) herror rfl
                exact ⟨here ++ occurrences, operands, hwritten words _ _ htail,
                  by rw [hparse]; simp⟩

end

/--
Whatever way options and operands are written, they are parsed in their order without an
error; and where no error is returned, every word was written for one of them.
-/
theorem parseBuiltinArgs_iff_written (options : List BuiltinOption) (words : List Text) :
    (Distinct options → ∀ occurrences operands,
      Written (Letter options) options words occurrences operands →
        parseBuiltinArgs words options =
          { options := occurrences.map Occurrence.parsed, operands := operands }) ∧
    ((parseBuiltinArgs words options).error ≠ [] ∨ ∃ occurrences operands,
      Written (ShortName options) options words occurrences operands ∧
        parseBuiltinArgs words options =
          { options := occurrences.map Occurrence.parsed, operands := operands }) := by
  constructor
  · intro hdistinct occurrences operands hwritten
    simpa [parseBuiltinArgs] using parseFrom_of_written hdistinct hwritten {}
  · by_cases herror : (parseBuiltinArgs words options).error = []
    · obtain ⟨occurrences, operands, hwritten, hparse⟩ :=
        written_of_parseFrom rfl herror
      exact .inr ⟨occurrences, operands, hwritten, by simpa [parseBuiltinArgs] using hparse⟩
    · exact .inl herror

/-- Some options of `ls`. -/
def someOptions : List BuiltinOption :=
  [{ shortName := 'l', id := 1 }, { shortName := 'a', longName := text "all", id := 2 },
    { longName := text "almost-all", id := 3 },
    { shortName := 'w', longName := text "width", id := 4, argument := .required }]

theorem parseBuiltinArgs_clustered :
    parseBuiltinArgs [text "-lw", text "80", text "dir", text "--alm", text "--", text "-x"]
        someOptions =
      { options := [⟨1, [], false, text "-l"⟩, ⟨4, text "80", true, text "-w"⟩,
          ⟨3, [], false, text "--almost-all"⟩]
        operands := [text "dir", text "-x"] } := by
  have hdistinct : Distinct someOptions := by
    constructor <;> simp [someOptions, noShortName, text]
  have hl : Letter someOptions 'l' { shortName := 'l', id := 1 } := by
    constructor
    · exact ⟨by simp [someOptions], rfl⟩
    · decide
  have hw : Letter someOptions 'w'
      { shortName := 'w', longName := text "width", id := 4, argument := .required } := by
    constructor
    · exact ⟨by simp [someOptions], rfl⟩
    · decide
  have halmost : Names someOptions (text "alm") { longName := text "almost-all", id := 3 } := by
    refine .abbreviated ?_ (by decide) (by decide)
    simp [someOptions, commonOptions, text]
  exact (parseBuiltinArgs_iff_written someOptions _).1 hdistinct _ _
    (.short (.more hl (.inl rfl) (.detached (text "80") hw rfl)) (by decide)
      (.operand (.inl (by decide)) (.long halmost (by decide) (.endOfOptions [text "-x"]))))

end Haisos.BuiltinCommands
