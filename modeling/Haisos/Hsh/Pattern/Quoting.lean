import Haisos.Hsh.Pattern

/-!
# Patterns of marked characters

What a pattern means when each of its characters is marked as quoted or not: a
quoted character stands for itself wherever it is, and the unquoted ones keep
their meaning.  The matcher only sees one escaped string; it reads the marked
pattern back from it unless a quoted character of the pattern is one that the
escaping leaves bare where it counts.
-/

namespace Haisos.Hsh

/-- The characters of a pattern, each with whether it was quoted. -/
abbrev Marked := List (Char × Bool)

def escapeMarked (pattern : Marked) : Text :=
  pattern.flatMap fun (c, quoted) => if quoted then escapeChar c else [c]

namespace Marked

/-! ## The meaning of a marked pattern -/

/-- `[:` opens a class when a `:]` ends it and nothing in between is quoted. -/
def classLength (pattern : Marked) : Option Nat :=
  match Hsh.classLength (pattern.map Prod.fst) with
  | some length => if (pattern.take (length + 2)).any Prod.snd then none else some length
  | none => none

def bracketSkip (e : Char × Bool) (rest : Marked) : Option Nat :=
  if e = ('\\', false) ∧ rest ≠ [] then some 1
  else if e = ('[', false) ∧ rest.head? = some (':', false) then
    (classLength rest.tail).map (· + 3)
  else none

def bracketScan : Nat → Marked → Option (Marked × Marked)
  | _, [] => none
  | skip + 1, e :: rest => (bracketScan skip rest).map fun (inside, after) => (e :: inside, after)
  | 0, e :: rest =>
      if bracketSkip e rest = none ∧ e = (']', false) then some ([], rest)
      else (bracketScan ((bracketSkip e rest).getD 0) rest).map fun (inside, after) =>
        (e :: inside, after)

/-- Only an unquoted `!` negates, and only an unquoted `]` that is not the first member closes. -/
def bracketEnd (pattern : Marked) : Option (Marked × Marked) :=
  let negation := if pattern.head? = some ('!', false) then 1 else 0
  let first := if (pattern.drop negation).head?.map Prod.fst = some ']' then 1 else 0
  bracketScan (negation + first) pattern

def memberChar : Marked → Option (Char × Nat)
  | [] => none
  | [e] => some (e.1, 1)
  | ('\\', false) :: e :: _ => some (e.1, 2)
  | e :: _ => some (e.1, 1)

def classAt : Marked → Option Nat
  | ('[', false) :: (':', false) :: rest => classLength rest
  | _ => none

def rangeFrom (lo : Char) (length : Nat) : Marked → Member × Nat
  | ('-', false) :: after =>
      match memberChar after with
      | some (hi, length') => (.range lo hi, length + 1 + length')
      | none => (.single lo, length)
  | _ => (.single lo, length)

def bracketMember (inside : Marked) : Member × Nat :=
  match classAt inside with
  | some length => (.class (((inside.map Prod.fst).drop 2).take length), length + 4)
  | none =>
      match memberChar inside with
      | none => (.class [], 1)
      | some (lo, length) => rangeFrom lo length (inside.drop length)

def bracketMembers : Nat → Marked → List Member
  | _, [] => []
  | skip + 1, _ :: rest => bracketMembers skip rest
  | 0, e :: rest =>
      let (member, length) := bracketMember (e :: rest)
      member :: bracketMembers (length - 1) rest

def bracketMatches (inside : Marked) (ch : Char) : Bool :=
  match inside with
  | ('!', false) :: rest => !(bracketMembers 0 rest).any (·.matches ch)
  | _ => (bracketMembers 0 inside).any (·.matches ch)

/-- What an element other than an unquoted `*` accepts, and what is left. -/
def element (e : Char × Bool) (rest : Marked) : (Char → Bool) × Marked :=
  if e = ('?', false) then (fun _ => true, rest)
  else
    match e, rest with
    | ('\\', false), d :: rest => (fun ch => ch == d.1, rest)
    | ('[', false), rest =>
        match bracketEnd rest with
        | some (inside, after) => (bracketMatches inside, after)
        | none => (fun ch => ch == '[', rest)
    | e, rest => (fun ch => ch == e.1, rest)

theorem bracketScan_length {skip : Nat} {pattern inside after : Marked}
    (h : bracketScan skip pattern = some (inside, after)) :
    inside.length + after.length < pattern.length := by
  induction pattern generalizing skip inside with
  | nil => cases skip <;> simp [bracketScan] at h
  | cons e rest ih =>
      have hcons : ∀ skip, (bracketScan skip rest).map (fun (inside, after) =>
          (e :: inside, after)) = some (inside, after) →
          inside.length + after.length < (e :: rest).length := by
        intro skip h
        obtain ⟨⟨inside', after'⟩, h', heq⟩ := Option.map_eq_some_iff.mp h
        cases heq
        have := ih h'
        simp only [List.length_cons]
        omega
      cases skip with
      | succ skip => exact hcons skip h
      | zero =>
          simp only [bracketScan] at h
          split_ifs at h
          · cases h
            simp
          · exact hcons _ h

theorem element_length (e : Char × Bool) (rest : Marked) :
    (element e rest).2.length ≤ rest.length := by
  unfold element
  split_ifs
  · exact le_rfl
  · split
    · simp
    · split
      · rename_i inside after h
        have := bracketScan_length h
        simp only
        omega
      · exact le_rfl
    · exact le_rfl

/-- The items a marked pattern stands for. -/
def items : Marked → List (Wildcard.Item Char)
  | [] => []
  | e :: rest =>
      if e = ('*', false) then .any :: items rest
      else .one (element e rest).1 :: items (element e rest).2
termination_by pattern => pattern.length
decreasing_by
  · simp
  · have := element_length e rest
    simp only [List.length_cons]
    omega

/-- The texts a marked pattern accepts. -/
def Accepts (pattern : Marked) (text : Text) : Prop := Wildcard.Matches (items pattern) text

/-! ## When the string reads back as the pattern -/

def escapes (e : Char × Bool) : Bool :=
  e.2 && (e.1 == '\\' || e.1 == '*' || e.1 == '?' || e.1 == '[')

/-- An unquoted backslash at the start takes no other backslash for the character it escapes. -/
def pairSafe : Marked → Bool
  | ('\\', false) :: e :: _ => !escapes e
  | _ => true

/-- What looks like a class at the start is one: nothing in it is quoted. -/
def classSafe : Marked → Bool
  | ('[', false) :: (':', quoted) :: rest =>
      match Hsh.classLength (rest.map Prod.fst) with
      | some length => !quoted && !(rest.take (length + 2)).any Prod.snd
      | none => true
  | _ => true

/-- No quoted `]` is met before the bracket expression closes. -/
def scanSafe : Nat → Marked → Bool
  | _, [] => true
  | skip + 1, _ :: rest => scanSafe skip rest
  | 0, e :: rest =>
      if e.1 = ']' then !e.2
      else pairSafe (e :: rest) && classSafe (e :: rest) &&
        scanSafe ((bracketSkip e rest).getD 0) rest

/-- No quoted `-` stands where a range would be read. -/
def rangeSafe : Marked → Bool
  | ('-', quoted) :: after => after.isEmpty || (!quoted && pairSafe after)
  | _ => true

def memberSafe (inside : Marked) : Bool :=
  pairSafe inside && classSafe inside &&
    match memberChar inside with
    | some (_, length) => rangeSafe (inside.drop length)
    | none => true

def membersSafe : Nat → Marked → Bool
  | _, [] => true
  | skip + 1, _ :: rest => membersSafe skip rest
  | 0, e :: rest =>
      memberSafe (e :: rest) && membersSafe ((bracketMember (e :: rest)).2 - 1) rest

/-- What follows a `!` that negates. -/
def afterNegation : Marked → Marked
  | ('!', false) :: rest => rest
  | inside => inside

/-- How many characters the matcher passes over before it looks for the closing `]`. -/
def leading (pattern : Marked) : Nat :=
  let negation := if pattern.head?.map Prod.fst = some '!' then 1 else 0
  negation + if (pattern.drop negation).head?.map Prod.fst = some ']' then 1 else 0

/-- The bracket expression after a `[` is read as it is meant. -/
def bracketSafe (pattern : Marked) : Bool :=
  scanSafe (leading pattern) pattern &&
    match bracketEnd pattern with
    | some (inside, _) =>
        inside.head? != some ('!', true) && membersSafe 0 (afterNegation inside)
    | none => true

/-- Every escape and every bracket expression of the pattern is read as it is meant. -/
def readsBack : Marked → Bool
  | [] => true
  | e :: rest =>
      if e = ('*', false) then readsBack rest
      else pairSafe (e :: rest) && (e != ('[', false) || bracketSafe rest) &&
        readsBack (element e rest).2
termination_by pattern => pattern.length
decreasing_by
  · simp
  · have := element_length e rest
    simp only [List.length_cons]
    omega

end Marked

/-! ## Escaping -/

@[simp] theorem escapeMarked_nil : escapeMarked [] = [] := rfl

theorem escapeMarked_cons (e : Char × Bool) (rest : Marked) :
    escapeMarked (e :: rest) =
      (if Marked.escapes e then ['\\', e.1] else [e.1]) ++ escapeMarked rest := by
  obtain ⟨c, quoted⟩ := e
  cases quoted <;> simp [escapeMarked, Marked.escapes, escapeChar, or_assoc]

theorem escapeMarked_bare {e : Char × Bool} (h : Marked.escapes e = false) (rest : Marked) :
    escapeMarked (e :: rest) = e.1 :: escapeMarked rest := by
  rw [escapeMarked_cons, h]
  rfl

theorem escapeMarked_escaped {e : Char × Bool} (h : Marked.escapes e = true) (rest : Marked) :
    escapeMarked (e :: rest) = '\\' :: e.1 :: escapeMarked rest := by
  rw [escapeMarked_cons, h]
  rfl

theorem escapeMarked_append (pattern pattern' : Marked) :
    escapeMarked (pattern ++ pattern') = escapeMarked pattern ++ escapeMarked pattern' := by
  simp [escapeMarked]

theorem escapeMarked_unquoted {pattern : Marked} (h : pattern.any Prod.snd = false) :
    escapeMarked pattern = pattern.map Prod.fst := by
  induction pattern with
  | nil => rfl
  | cons e rest ih =>
      simp only [List.any_cons, Bool.or_eq_false_iff] at h
      rw [escapeMarked_bare (by simp [Marked.escapes, h.1]), ih h.2, List.map_cons]

theorem escapes_eq_false_of_ne {c : Char} (h : c ≠ '\\' ∧ c ≠ '*' ∧ c ≠ '?' ∧ c ≠ '[')
    (quoted : Bool) : Marked.escapes (c, quoted) = false := by
  simp [Marked.escapes, h]

theorem head?_escapeMarked {c : Char} (hc : c ≠ '\\' ∧ c ≠ '*' ∧ c ≠ '?' ∧ c ≠ '[')
    (pattern : Marked) :
    (escapeMarked pattern).head? = some c ↔ pattern.head?.map Prod.fst = some c := by
  rcases pattern with _ | ⟨e, rest⟩
  · simp [escapeMarked]
  · cases h : Marked.escapes e with
    | false => simp [escapeMarked_bare h]
    | true =>
        rw [escapeMarked_escaped h]
        simp only [List.head?_cons, Option.some.injEq, Option.map_some]
        constructor
        · rintro rfl
          exact absurd rfl hc.1
        · rintro rfl
          rw [escapes_eq_false_of_ne hc e.2] at h
          cases h

theorem classLength_cons (c : Char) (rest : Text) :
    classLength (c :: rest) =
      if c = ':' ∧ rest.head? = some ']' then some 0 else (classLength rest).map (· + 1) := by
  rcases rest with _ | ⟨d, rest⟩
  · simp [classLength]
  · by_cases h : c = ':' ∧ d = ']'
    · obtain ⟨rfl, rfl⟩ := h
      simp [classLength]
    · rw [classLength]
      · simp [h]
      · rintro rest rfl h'
        cases h'
        exact h ⟨rfl, rfl⟩

theorem classLength_append {pattern : Text} {length : Nat} (h : classLength pattern = some length)
    (rest : Text) :
    length + 2 ≤ pattern.length ∧
      classLength (pattern.take (length + 2) ++ rest) = some length := by
  induction pattern generalizing length with
  | nil => cases h
  | cons c pattern ih =>
      rw [classLength_cons] at h
      split_ifs at h with hend
      · cases h
        obtain ⟨rfl, hhead⟩ := hend
        rcases pattern with _ | ⟨d, pattern⟩
        · cases hhead
        · cases hhead
          exact ⟨by simp, by simp [classLength]⟩
      · obtain ⟨length, hlength, rfl⟩ := Option.map_eq_some_iff.mp h
        obtain ⟨hle, happend⟩ := ih hlength
        refine ⟨by simp only [List.length_cons]; omega, ?_⟩
        rw [List.take_succ_cons, List.cons_append, classLength_cons, if_neg, happend]
        · rfl
        · rintro ⟨rfl, hhead⟩
          refine hend ⟨rfl, ?_⟩
          rcases pattern with _ | ⟨d, pattern⟩
          · simp at hle
          · simpa using hhead

theorem classLength_escapeMarked_none {pattern : Marked}
    (h : classLength (pattern.map Prod.fst) = none) : classLength (escapeMarked pattern) = none := by
  induction pattern with
  | nil => rfl
  | cons e rest ih =>
      rw [List.map_cons, classLength_cons] at h
      split_ifs at h with hend
      have hrest := ih (Option.map_eq_none_iff.mp h)
      cases hescapes : Marked.escapes e with
      | true =>
          rw [escapeMarked_escaped hescapes, classLength_cons, if_neg (by rintro ⟨⟨⟩, -⟩),
            classLength_cons, if_neg, hrest]
          · rfl
          · rintro ⟨hc, -⟩
            simp [Marked.escapes, hc] at hescapes
      | false =>
          rw [escapeMarked_bare hescapes, classLength_cons, if_neg, hrest]
          · rfl
          · rintro ⟨hc, hhead⟩
            refine hend ⟨hc, ?_⟩
            rw [head?_escapeMarked (by decide)] at hhead
            simpa using hhead

theorem classLength_escapeMarked_some {pattern : Marked} {length : Nat}
    (h : classLength (pattern.map Prod.fst) = some length)
    (hunquoted : (pattern.take (length + 2)).any Prod.snd = false) :
    classLength (escapeMarked pattern) = some length ∧
      (escapeMarked pattern).drop (length + 2) = escapeMarked (pattern.drop (length + 2)) ∧
      (escapeMarked pattern).take (length + 2) = (pattern.map Prod.fst).take (length + 2) := by
  have hlen := (classLength_append h []).1
  have hsplit : escapeMarked pattern =
      (pattern.map Prod.fst).take (length + 2) ++ escapeMarked (pattern.drop (length + 2)) := by
    conv_lhs => rw [← List.take_append_drop (length + 2) pattern]
    rw [escapeMarked_append, escapeMarked_unquoted hunquoted, List.map_take]
  have htake : ((pattern.map Prod.fst).take (length + 2)).length = length + 2 := by
    rw [List.length_take]
    omega
  rw [hsplit]
  refine ⟨(classLength_append h _).2, ?_, ?_⟩
  · rw [List.drop_left' htake]
  · rw [List.take_left' htake]

/-! ## Scans with characters to pass -/

theorem bracketScan_drop (skip : Nat) (pattern : Text) :
    bracketScan skip pattern = (bracketScan 0 (pattern.drop skip)).map fun (inside, after) =>
      (pattern.take skip ++ inside, after) := by
  induction skip generalizing pattern with
  | zero => simp
  | succ skip ih =>
      rcases pattern with _ | ⟨c, rest⟩
      · rfl
      · rw [bracketScan, ih, Option.map_map]
        rfl

theorem Marked.bracketScan_drop (skip : Nat) (pattern : Marked) :
    Marked.bracketScan skip pattern =
      (Marked.bracketScan 0 (pattern.drop skip)).map fun (inside, after) =>
        (pattern.take skip ++ inside, after) := by
  induction skip generalizing pattern with
  | zero => simp
  | succ skip ih =>
      rcases pattern with _ | ⟨e, rest⟩
      · rfl
      · rw [Marked.bracketScan, ih, Option.map_map]
        rfl

theorem Marked.scanSafe_drop (skip : Nat) (pattern : Marked) :
    scanSafe skip pattern = scanSafe 0 (pattern.drop skip) := by
  induction skip generalizing pattern with
  | zero => rfl
  | succ skip ih =>
      rcases pattern with _ | ⟨e, rest⟩
      · rfl
      · exact ih rest

def escapeParts (parts : Marked × Marked) : Text × Text :=
  (escapeMarked parts.1, escapeMarked parts.2)

theorem scan_agree_drop {pattern : Marked} {skip : Nat}
    (hbare : escapeMarked (pattern.take skip) = (pattern.map Prod.fst).take skip)
    (hlen : skip ≤ pattern.length)
    (h : bracketScan 0 (escapeMarked (pattern.drop skip)) =
      (Marked.bracketScan 0 (pattern.drop skip)).map escapeParts) :
    bracketScan skip (escapeMarked pattern) =
      (Marked.bracketScan skip pattern).map escapeParts := by
  have hsplit : escapeMarked pattern =
      (pattern.map Prod.fst).take skip ++ escapeMarked (pattern.drop skip) := by
    conv_lhs => rw [← List.take_append_drop skip pattern]
    rw [escapeMarked_append, hbare]
  have htake : ((pattern.map Prod.fst).take skip).length = skip := by
    rw [List.length_take, List.length_map]
    omega
  rw [bracketScan_drop, Marked.bracketScan_drop, hsplit, List.drop_left' htake,
    List.take_left' htake, h, Option.map_map, Option.map_map]
  congr 1
  funext ⟨inside, after⟩
  simp [escapeParts, escapeMarked_append, hbare]

/-- Both scans pass over the same characters, and these are bare. -/
theorem bracketSkip_escapeMarked {e : Char × Bool} {rest : Marked}
    (hescapes : Marked.escapes e = false) (hpair : Marked.pairSafe (e :: rest) = true)
    (hclass : Marked.classSafe (e :: rest) = true) :
    bracketSkip e.1 (escapeMarked rest) = Marked.bracketSkip e rest ∧
      (Marked.bracketSkip e rest).getD 0 ≤ rest.length ∧
      escapeMarked (rest.take ((Marked.bracketSkip e rest).getD 0)) =
        (rest.map Prod.fst).take ((Marked.bracketSkip e rest).getD 0) := by
  obtain ⟨c, quoted⟩ := e
  by_cases hbackslash : c = '\\'
  · subst hbackslash
    obtain rfl : quoted = false := by simpa [Marked.escapes] using hescapes
    rcases rest with _ | ⟨d, rest⟩
    · simp [bracketSkip, Marked.bracketSkip]
    · have hd : Marked.escapes d = false := by simpa [Marked.pairSafe] using hpair
      rw [escapeMarked_bare hd]
      simp [bracketSkip, Marked.bracketSkip, escapeMarked_bare hd]
  by_cases hbracket : c = '['
  · subst hbracket
    obtain rfl : quoted = false := by simpa [Marked.escapes] using hescapes
    by_cases hcolon : rest.head?.map Prod.fst = some ':'
    · rcases rest with _ | ⟨⟨d, q⟩, rest⟩
      · cases hcolon
      · obtain rfl : d = ':' := by simpa using hcolon
        rw [escapeMarked_bare (escapes_eq_false_of_ne (by decide) q)]
        cases hlength : classLength (rest.map Prod.fst) with
        | none =>
            have hnone := classLength_escapeMarked_none hlength
            simp [bracketSkip, Marked.bracketSkip, Marked.classLength, hlength, hnone]
        | some length =>
            simp only [Marked.classSafe, hlength, Bool.and_eq_true, Bool.not_eq_true'] at hclass
            obtain ⟨rfl, hunquoted⟩ := hclass
            obtain ⟨hsome, -, -⟩ := classLength_escapeMarked_some hlength hunquoted
            have hlen := (classLength_append hlength []).1
            rw [List.length_map] at hlen
            have hskip : Marked.bracketSkip ('[', false) ((':', false) :: rest) =
                some (length + 3) := by
              simp [Marked.bracketSkip, Marked.classLength, hlength, hunquoted]
            rw [hskip]
            refine ⟨by simp [bracketSkip, hsome], by simpa using hlen, ?_⟩
            have hall : (((':', false) :: rest).take (length + 3)).any Prod.snd = false := by
              simpa using hunquoted
            rw [Option.getD_some, escapeMarked_unquoted hall, List.map_take]
    · have hcolon' : (escapeMarked rest).head? ≠ some ':' := by
        rw [ne_eq, head?_escapeMarked (by decide)]
        exact hcolon
      have hcolon'' : rest.head? ≠ some (':', false) := by
        intro h
        rw [h] at hcolon
        exact hcolon rfl
      simp [bracketSkip, Marked.bracketSkip, hcolon', hcolon'']
  · simp [bracketSkip, Marked.bracketSkip, hbackslash, hbracket]

/-- The scan of the string and that of the marked pattern close at the same place. -/
theorem bracketScan_escapeMarked (pattern : Marked) (h : Marked.scanSafe 0 pattern = true) :
    bracketScan 0 (escapeMarked pattern) = (Marked.bracketScan 0 pattern).map escapeParts := by
  induction hn : pattern.length using Nat.strong_induction_on generalizing pattern with
  | _ n ih =>
      subst hn
      rcases pattern with _ | ⟨e, rest⟩
      · rfl
      · have hstep : ∀ skip, Marked.scanSafe skip rest = true → skip ≤ rest.length →
            escapeMarked (rest.take skip) = (rest.map Prod.fst).take skip →
            bracketScan skip (escapeMarked rest) =
              (Marked.bracketScan skip rest).map escapeParts := by
          intro skip hsafe hlen hbare
          rw [Marked.scanSafe_drop] at hsafe
          refine scan_agree_drop hbare hlen (ih _ ?_ _ hsafe rfl)
          simp only [List.length_drop, List.length_cons]
          omega
        rw [Marked.scanSafe] at h
        cases hescapes : Marked.escapes e with
        | true =>
            have hquoted : e.2 = true := by
              simp only [Marked.escapes, Bool.and_eq_true] at hescapes
              exact hescapes.1
            have hclose : e.1 ≠ ']' := by
              intro hc
              simp [Marked.escapes, hc] at hescapes
            have hskip : Marked.bracketSkip e rest = none := by
              simp [Marked.bracketSkip, Prod.ext_iff, hquoted]
            rw [if_neg hclose, hskip] at h
            simp only [Bool.and_eq_true] at h
            have hrest := hstep 0 h.2 (Nat.zero_le _) (by simp)
            rw [escapeMarked_escaped hescapes, Marked.bracketScan, hskip,
              if_neg (by simp [Prod.ext_iff, hquoted])]
            have hone : bracketScan 0 ('\\' :: e.1 :: escapeMarked rest) =
                (bracketScan 0 (escapeMarked rest)).map fun parts =>
                  ('\\' :: e.1 :: parts.1, parts.2) := by
              simp [bracketScan, bracketSkip, Option.map_map, Function.comp_def]
            rw [hone, hrest, Option.getD_none, Option.map_map, Option.map_map]
            congr 1
            funext parts
            simp [escapeParts, escapeMarked_escaped hescapes]
        | false =>
            rw [escapeMarked_bare hescapes]
            by_cases hclose : e.1 = ']'
            · rw [if_pos hclose] at h
              have he : e = (']', false) := Prod.ext hclose (by simpa using h)
              subst he
              simp [bracketScan, Marked.bracketScan, bracketSkip, Marked.bracketSkip,
                escapeParts]
            · rw [if_neg hclose] at h
              simp only [Bool.and_eq_true] at h
              obtain ⟨hskip, hlen, hbare⟩ := bracketSkip_escapeMarked hescapes h.1.1 h.1.2
              have hrest := hstep _ h.2 hlen hbare
              rw [bracketScan, if_neg fun hc => hclose hc.2, Marked.bracketScan,
                if_neg (by rintro ⟨-, rfl⟩; exact hclose rfl), hskip, hrest, Option.map_map,
                Option.map_map]
              congr 1
              funext parts
              simp [escapeParts, escapeMarked_bare hescapes]

/-! ## Where bracket expressions end -/

theorem ite_one_eq_of_iff {p q : Prop} [Decidable p] [Decidable q] (h : p ↔ q) :
    (if p then 1 else 0 : Nat) = if q then 1 else 0 :=
  if_congr h rfl rfl

theorem leading_bare {pattern : Marked} :
    Marked.leading pattern ≤ pattern.length ∧
      escapeMarked (pattern.take (Marked.leading pattern)) =
        (pattern.map Prod.fst).take (Marked.leading pattern) := by
  have hbang : ∀ quoted, Marked.escapes ('!', quoted) = false :=
    escapes_eq_false_of_ne (by decide)
  have hclose : ∀ quoted, Marked.escapes (']', quoted) = false :=
    escapes_eq_false_of_ne (by decide)
  unfold Marked.leading
  rcases pattern with _ | ⟨⟨c, quoted⟩, rest⟩
  · simp
  · by_cases hc : c = '!'
    · subst hc
      rcases rest with _ | ⟨⟨d, q⟩, rest⟩
      · simp [escapeMarked_bare (hbang quoted)]
      · by_cases hd : d = ']'
        · subst hd
          simp [escapeMarked_bare (hbang quoted), escapeMarked_bare (hclose q)]
        · simp [escapeMarked_bare (hbang quoted), hd]
    · by_cases hd : c = ']'
      · subst hd
        simp [escapeMarked_bare (hclose quoted)]
      · simp [hc, hd]

/-- Where no bracket expression begins with a quoted `!`, passing over it changes nothing. -/
theorem Marked.bracketEnd_eq_leading {pattern : Marked}
    (h : ∀ inside after, bracketEnd pattern = some (inside, after) →
      inside.head? ≠ some ('!', true)) :
    bracketEnd pattern = bracketScan (leading pattern) pattern := by
  rcases pattern with _ | ⟨⟨c, quoted⟩, rest⟩
  · rfl
  by_cases hbang : c = '!' ∧ quoted = true
  · obtain ⟨rfl, rfl⟩ := hbang
    have hend : bracketEnd (('!', true) :: rest) =
        (bracketScan 0 rest).map fun (inside, after) => (('!', true) :: inside, after) := rfl
    have hnone : bracketScan 0 rest = none := by
      cases hscan : bracketScan 0 rest with
      | none => rfl
      | some parts =>
          rw [hscan] at hend
          exact absurd rfl (h _ _ hend)
    have hfirst : ∀ first, first ≤ 1 → (first = 1 → rest.head?.map Prod.fst = some ']') →
        bracketScan first rest = none := by
      intro first hle hclose
      obtain rfl | rfl : first = 0 ∨ first = 1 := by omega
      · exact hnone
      · rcases rest with _ | ⟨⟨d, q⟩, rest⟩
        · rfl
        · obtain rfl : d = ']' := by simpa using hclose rfl
          cases q with
          | false => cases hnone
          | true => exact hnone
    have hlead : leading (('!', true) :: rest) =
        (if rest.head?.map Prod.fst = some ']' then 1 else 0) + 1 := Nat.add_comm _ _
    have hskipped : bracketScan (if rest.head?.map Prod.fst = some ']' then 1 else 0) rest = none := by
      refine hfirst _ ?_ ?_ <;> split_ifs <;> simp_all
    rw [hend, hnone, hlead, bracketScan, hskipped, Option.map_none]
  · have hsame : ((c, quoted) :: rest).head? = some ('!', false) ↔
        ((c, quoted) :: rest).head?.map Prod.fst = some '!' := by
      cases quoted <;> simp_all
    rw [bracketEnd, leading, ite_one_eq_of_iff hsame]

theorem bracketEnd_escapeMarked {pattern : Marked} (h : Marked.bracketSafe pattern = true) :
    bracketEnd (escapeMarked pattern) = (Marked.bracketEnd pattern).map escapeParts := by
  rw [Marked.bracketSafe, Bool.and_eq_true] at h
  obtain ⟨hscan, hend⟩ := h
  have hmarked : Marked.bracketEnd pattern =
      Marked.bracketScan (Marked.leading pattern) pattern := by
    refine Marked.bracketEnd_eq_leading fun inside after hinside => ?_
    rw [hinside] at hend
    simp only [Bool.and_eq_true, bne_iff_ne] at hend
    exact hend.1
  have hbang := head?_escapeMarked (c := '!') (by decide) pattern
  have hleading : bracketEnd (escapeMarked pattern) =
      bracketScan (Marked.leading pattern) (escapeMarked pattern) := by
    unfold bracketEnd Marked.leading
    rw [ite_one_eq_of_iff hbang]
    dsimp only
    congr 2
    apply ite_one_eq_of_iff
    split_ifs with hnegated
    · rcases pattern with _ | ⟨⟨c, quoted⟩, rest⟩
      · cases hnegated
      · obtain rfl : c = '!' := by simpa using hnegated
        rw [escapeMarked_bare (escapes_eq_false_of_ne (by decide) quoted)]
        exact head?_escapeMarked (by decide) rest
    · exact head?_escapeMarked (by decide) pattern
  rw [hleading, hmarked]
  rw [Marked.scanSafe_drop] at hscan
  exact scan_agree_drop leading_bare.2 leading_bare.1 (bracketScan_escapeMarked _ hscan)

/-! ## Members of bracket expressions -/

theorem drop_escapeMarked (pattern : Marked) (n : Nat) :
    (escapeMarked pattern).drop (escapeMarked (pattern.take n)).length =
      escapeMarked (pattern.drop n) := by
  have hsplit : escapeMarked pattern =
      escapeMarked (pattern.take n) ++ escapeMarked (pattern.drop n) := by
    rw [← escapeMarked_append, List.take_append_drop]
  rw [hsplit]
  exact List.drop_left' rfl

theorem memberChar_escapeMarked {pattern : Marked} (hpair : Marked.pairSafe pattern = true)
    (hne : pattern ≠ []) :
    ∃ c n, Marked.memberChar pattern = some (c, n) ∧
      memberChar (escapeMarked pattern) = some (c, (escapeMarked (pattern.take n)).length) ∧
      0 < n := by
  obtain ⟨⟨c, quoted⟩, rest, rfl⟩ := List.exists_cons_of_ne_nil hne
  cases hescapes : Marked.escapes (c, quoted) with
  | true =>
      obtain rfl : quoted = true := by
        simp only [Marked.escapes, Bool.and_eq_true] at hescapes
        exact hescapes.1
      refine ⟨c, 1, ?_, ?_, Nat.one_pos⟩
      · rcases rest with _ | ⟨d, rest⟩ <;> simp [Marked.memberChar]
      · rw [escapeMarked_escaped hescapes]
        simp [memberChar, escapeMarked_escaped hescapes]
  | false =>
      by_cases hbackslash : c = '\\'
      · subst hbackslash
        obtain rfl : quoted = false := by simpa [Marked.escapes] using hescapes
        rcases rest with _ | ⟨d, rest⟩
        · exact ⟨'\\', 1, rfl, rfl, Nat.one_pos⟩
        · have hd : Marked.escapes d = false := by simpa [Marked.pairSafe] using hpair
          refine ⟨d.1, 2, rfl, ?_, Nat.two_pos⟩
          rw [escapeMarked_bare hescapes, escapeMarked_bare hd]
          simp [memberChar, escapeMarked_bare hescapes, escapeMarked_bare hd]
      · refine ⟨c, 1, ?_, ?_, Nat.one_pos⟩
        · rcases rest with _ | ⟨d, rest⟩ <;> simp [Marked.memberChar, hbackslash]
        · rw [escapeMarked_bare hescapes]
          rcases hrest : escapeMarked rest with _ | ⟨d, tail⟩ <;>
            simp [memberChar, hbackslash, escapeMarked_bare hescapes]

theorem memberChar_nil_iff {pattern : Marked} : escapeMarked pattern = [] ↔ pattern = [] := by
  rcases pattern with _ | ⟨e, rest⟩
  · simp
  · rw [escapeMarked_cons]
    split <;> simp

theorem classAt_eq_none {inside : Text} (h : ∀ rest, inside ≠ '[' :: ':' :: rest) :
    classAt inside = none := by
  unfold classAt
  split
  · exact absurd rfl (h _)
  · rfl

theorem Marked.classAt_eq_none {inside : Marked}
    (h : ∀ rest, inside ≠ ('[', false) :: (':', false) :: rest) :
    Marked.classAt inside = none := by
  unfold Marked.classAt
  split
  · exact absurd rfl (h _)
  · rfl

theorem classAt_escapeMarked {inside : Marked} (hclass : Marked.classSafe inside = true) :
    classAt (escapeMarked inside) = Marked.classAt inside ∧
      ∀ length, Marked.classAt inside = some length →
        ((escapeMarked inside).drop 2).take length =
            ((inside.map Prod.fst).drop 2).take length ∧
          (escapeMarked (inside.take (length + 4))).length = length + 4 := by
  by_cases hopen : ∃ quoted rest, inside = ('[', false) :: (':', quoted) :: rest
  · obtain ⟨quoted, rest, rfl⟩ := hopen
    have hstring : escapeMarked (('[', false) :: (':', quoted) :: rest) =
        '[' :: ':' :: escapeMarked rest := by
      rw [escapeMarked_bare rfl, escapeMarked_bare (escapes_eq_false_of_ne (by decide) quoted)]
    rw [hstring]
    cases hlength : classLength (rest.map Prod.fst) with
    | none =>
        have hmarked : Marked.classAt (('[', false) :: (':', quoted) :: rest) = none := by
          cases quoted <;> simp [Marked.classAt, Marked.classLength, hlength]
        rw [hmarked]
        exact ⟨classLength_escapeMarked_none hlength, by simp⟩
    | some length =>
        simp only [Marked.classSafe, hlength, Bool.and_eq_true, Bool.not_eq_true'] at hclass
        obtain ⟨rfl, hunquoted⟩ := hclass
        obtain ⟨hsome, -, htake⟩ := classLength_escapeMarked_some hlength hunquoted
        have hmarked : Marked.classAt (('[', false) :: (':', false) :: rest) = some length := by
          simp [Marked.classAt, Marked.classLength, hlength, hunquoted]
        rw [hmarked]
        refine ⟨hsome, ?_⟩
        rintro length' ⟨⟩
        have hlen := (classLength_append hlength []).1
        rw [List.length_map] at hlen
        constructor
        · have := congrArg (List.take length) htake
          simpa [List.take_take] using this
        · have hall : ((('[', false) :: (':', false) :: rest).take (length + 4)).any Prod.snd =
              false := by simpa using hunquoted
          rw [escapeMarked_unquoted hall]
          simp
          omega
  · rw [classAt_eq_none, Marked.classAt_eq_none]
    · simp
    · rintro rest rfl
      exact hopen ⟨false, rest, rfl⟩
    · intro tail htail
      rcases inside with _ | ⟨⟨c, quoted⟩, rest⟩
      · cases htail
      · cases hescapes : Marked.escapes (c, quoted) with
        | true =>
            rw [escapeMarked_escaped hescapes] at htail
            cases htail
        | false =>
            rw [escapeMarked_bare hescapes] at htail
            obtain ⟨rfl, hrest⟩ := List.cons.inj htail
            obtain rfl : quoted = false := by simpa [Marked.escapes] using hescapes
            have hcolon : rest.head?.map Prod.fst = some ':' := by
              rw [← head?_escapeMarked (by decide), hrest]
              rfl
            rcases rest with _ | ⟨⟨d, q⟩, rest⟩
            · cases hcolon
            · obtain rfl : d = ':' := by simpa using hcolon
              exact hopen ⟨q, rest, rfl⟩

theorem rangeFrom_single {after : Text} (h : after.head? ≠ some '-') (lo : Char)
    (length : Nat) : rangeFrom lo length after = (.single lo, length) := by
  unfold rangeFrom
  split
  · exact absurd rfl h
  · rfl

theorem Marked.rangeFrom_single {after : Marked} (h : after.head? ≠ some ('-', false)) (lo : Char)
    (length : Nat) : Marked.rangeFrom lo length after = (.single lo, length) := by
  unfold Marked.rangeFrom
  split
  · exact absurd rfl h
  · rfl

theorem rangeFrom_escapeMarked {after : Marked} (hsafe : Marked.rangeSafe after = true) (lo : Char)
    (length length' : Nat) :
    ∃ n, Marked.rangeFrom lo length' after =
        ((rangeFrom lo length (escapeMarked after)).1, length' + n) ∧
      (rangeFrom lo length (escapeMarked after)).2 =
        length + (escapeMarked (after.take n)).length := by
  by_cases hminus : ∃ quoted rest, after = ('-', quoted) :: rest
  · obtain ⟨quoted, rest, rfl⟩ := hminus
    have hbare : Marked.escapes ('-', quoted) = false := escapes_eq_false_of_ne (by decide) quoted
    rw [escapeMarked_bare hbare]
    by_cases hrest : rest = []
    · subst hrest
      have hmarked : Marked.rangeFrom lo length' [('-', quoted)] = (.single lo, length') := by
        cases quoted <;> rfl
      exact ⟨0, by rw [hmarked]; rfl, rfl⟩
    · have hne : rest.isEmpty = false := by simpa using hrest
      simp only [Marked.rangeSafe, hne, Bool.false_or, Bool.and_eq_true,
        Bool.not_eq_true'] at hsafe
      obtain ⟨rfl, hpair⟩ := hsafe
      obtain ⟨hi, n, hmarked, hstring, -⟩ := memberChar_escapeMarked hpair hrest
      refine ⟨n + 1, ?_⟩
      simp only [rangeFrom, Marked.rangeFrom, hmarked, hstring, List.take_succ_cons,
        escapeMarked_bare hbare, List.length_cons]
      exact ⟨by rw [Nat.add_assoc, Nat.add_comm 1 n], by omega⟩
  · refine ⟨0, ?_⟩
    rw [rangeFrom_single, Marked.rangeFrom_single]
    · simp
    · intro h
      rcases after with _ | ⟨e, rest⟩
      · cases h
      · cases h
        exact hminus ⟨false, rest, rfl⟩
    · intro h
      rw [head?_escapeMarked (by decide)] at h
      rcases after with _ | ⟨⟨c, quoted⟩, rest⟩
      · cases h
      · obtain rfl : c = '-' := by simpa using h
        exact hminus ⟨quoted, rest, rfl⟩

theorem bracketMember_escapeMarked {inside : Marked} (hsafe : Marked.memberSafe inside = true)
    (hne : inside ≠ []) :
    bracketMember (escapeMarked inside) =
        ((Marked.bracketMember inside).1,
          (escapeMarked (inside.take (Marked.bracketMember inside).2)).length) ∧
      0 < (Marked.bracketMember inside).2 := by
  simp only [Marked.memberSafe, Bool.and_eq_true] at hsafe
  obtain ⟨⟨hpair, hclass⟩, hrange⟩ := hsafe
  obtain ⟨hclassAt, hsome⟩ := classAt_escapeMarked hclass
  unfold bracketMember Marked.bracketMember
  rw [hclassAt]
  cases hlength : Marked.classAt inside with
  | some length =>
      obtain ⟨hname, hlen⟩ := hsome length hlength
      simp only [hname, hlen]
      exact ⟨trivial, by omega⟩
  | none =>
      obtain ⟨lo, n, hmarked, hstring, hpos⟩ := memberChar_escapeMarked hpair hne
      rw [hmarked] at hrange
      simp only [hmarked, hstring, drop_escapeMarked]
      obtain ⟨k, hfrom, hlen⟩ :=
        rangeFrom_escapeMarked hrange lo (escapeMarked (inside.take n)).length n
      rw [hfrom]
      refine ⟨Prod.ext rfl ?_, by simp only; omega⟩
      rw [hlen, List.take_add, escapeMarked_append, List.length_append]

theorem bracketMembers_drop (skip : Nat) (inside : Text) :
    bracketMembers skip inside = bracketMembers 0 (inside.drop skip) := by
  induction skip generalizing inside with
  | zero => rfl
  | succ skip ih =>
      rcases inside with _ | ⟨c, rest⟩
      · rfl
      · exact ih rest

theorem Marked.bracketMembers_drop (skip : Nat) (inside : Marked) :
    Marked.bracketMembers skip inside = Marked.bracketMembers 0 (inside.drop skip) := by
  induction skip generalizing inside with
  | zero => rfl
  | succ skip ih =>
      rcases inside with _ | ⟨c, rest⟩
      · rfl
      · exact ih rest

theorem Marked.membersSafe_drop (skip : Nat) (inside : Marked) :
    membersSafe skip inside = membersSafe 0 (inside.drop skip) := by
  induction skip generalizing inside with
  | zero => rfl
  | succ skip ih =>
      rcases inside with _ | ⟨c, rest⟩
      · rfl
      · exact ih rest

theorem bracketMembers_cons {inside : Text} (hne : inside ≠ [])
    (hpos : 0 < (bracketMember inside).2) :
    bracketMembers 0 inside =
      (bracketMember inside).1 :: bracketMembers 0 (inside.drop (bracketMember inside).2) := by
  obtain ⟨c, rest, rfl⟩ := List.exists_cons_of_ne_nil hne
  rcases hmember : bracketMember (c :: rest) with ⟨member, length⟩
  rw [hmember] at hpos
  obtain ⟨n, rfl⟩ := Nat.exists_eq_succ_of_ne_zero hpos.ne'
  simp only [bracketMembers, hmember]
  exact congrArg (member :: ·) (bracketMembers_drop n rest)

theorem Marked.bracketMembers_cons {inside : Marked} (hne : inside ≠ [])
    (hpos : 0 < (Marked.bracketMember inside).2) :
    Marked.bracketMembers 0 inside =
      (Marked.bracketMember inside).1 ::
        Marked.bracketMembers 0 (inside.drop (Marked.bracketMember inside).2) := by
  obtain ⟨c, rest, rfl⟩ := List.exists_cons_of_ne_nil hne
  rcases hmember : Marked.bracketMember (c :: rest) with ⟨member, length⟩
  rw [hmember] at hpos
  obtain ⟨n, rfl⟩ := Nat.exists_eq_succ_of_ne_zero hpos.ne'
  simp only [Marked.bracketMembers, hmember]
  exact congrArg (member :: ·) (Marked.bracketMembers_drop n rest)

theorem bracketMembers_escapeMarked (inside : Marked) (h : Marked.membersSafe 0 inside = true) :
    bracketMembers 0 (escapeMarked inside) = Marked.bracketMembers 0 inside := by
  induction hn : inside.length using Nat.strong_induction_on generalizing inside with
  | _ n ih =>
      subst hn
      by_cases hne : inside = []
      · subst hne
        rfl
      · have hne' : escapeMarked inside ≠ [] := fun h => hne (memberChar_nil_iff.mp h)
        have hsafe : Marked.memberSafe inside = true ∧
            (0 < (Marked.bracketMember inside).2 → Marked.membersSafe 0
              (inside.drop (Marked.bracketMember inside).2) = true) := by
          obtain ⟨e, rest, rfl⟩ := List.exists_cons_of_ne_nil hne
          rw [Marked.membersSafe, Bool.and_eq_true, Marked.membersSafe_drop] at h
          refine ⟨h.1, fun hpos => ?_⟩
          obtain ⟨n, hn⟩ := Nat.exists_eq_succ_of_ne_zero hpos.ne'
          rw [hn] at h ⊢
          exact h.2
        obtain ⟨hmember, hpos⟩ := bracketMember_escapeMarked hsafe.1 hne
        have hpos' : 0 < (bracketMember (escapeMarked inside)).2 := by
          rw [hmember]
          obtain ⟨e, rest, rfl⟩ := List.exists_cons_of_ne_nil hne
          obtain ⟨n, hn⟩ := Nat.exists_eq_succ_of_ne_zero hpos.ne'
          rw [hn, List.take_succ_cons]
          exact List.length_pos_iff.mpr fun h => by
            cases memberChar_nil_iff.mp h
        rw [bracketMembers_cons hne' hpos', Marked.bracketMembers_cons hne hpos, hmember,
          drop_escapeMarked]
        congr 1
        refine ih _ ?_ _ (hsafe.2 hpos) rfl
        have := List.length_pos_iff.mpr hne
        rw [List.length_drop]
        omega

/-! ## Whole patterns -/

theorem bracketMatches_escapeMarked {inside : Marked} (hbang : inside.head? ≠ some ('!', true))
    (hsafe : Marked.membersSafe 0 (Marked.afterNegation inside) = true) :
    bracketMatches (escapeMarked inside) = Marked.bracketMatches inside := by
  funext ch
  by_cases hnegated : ∃ rest, inside = ('!', false) :: rest
  · obtain ⟨rest, rfl⟩ := hnegated
    rw [escapeMarked_bare rfl]
    simp only [bracketMatches, Marked.bracketMatches]
    rw [bracketMembers_escapeMarked rest hsafe]
  · have hmarked : Marked.bracketMatches inside ch =
        (Marked.bracketMembers 0 inside).any (·.matches ch) := by
      unfold Marked.bracketMatches
      split
      · exact absurd ⟨_, rfl⟩ hnegated
      · rfl
    have hafter : Marked.afterNegation inside = inside := by
      unfold Marked.afterNegation
      split
      · exact absurd ⟨_, rfl⟩ hnegated
      · rfl
    have hhead : (escapeMarked inside).head? ≠ some '!' := by
      rw [ne_eq, head?_escapeMarked (by decide)]
      rcases inside with _ | ⟨⟨c, quoted⟩, rest⟩
      · simp
      · intro hc
        obtain rfl : c = '!' := by simpa using hc
        cases quoted with
        | true => exact hbang rfl
        | false => exact hnegated ⟨rest, rfl⟩
    rw [hafter] at hsafe
    rw [hmarked, ← bracketMembers_escapeMarked inside hsafe]
    unfold bracketMatches
    split
    · rename_i rest heq
      rw [heq] at hhead
      exact absurd rfl hhead
    · rfl

theorem patternElement_escapeMarked {e : Char × Bool} {rest : Marked}
    (hescapes : Marked.escapes e = false) (hpair : Marked.pairSafe (e :: rest) = true)
    (hbracket : e = ('[', false) → Marked.bracketSafe rest = true) :
    patternElement e.1 (escapeMarked rest) =
      ((Marked.element e rest).1, escapeMarked (Marked.element e rest).2) := by
  obtain ⟨c, quoted⟩ := e
  by_cases hquestion : c = '?'
  · subst hquestion
    obtain rfl : quoted = false := by simpa [Marked.escapes] using hescapes
    rfl
  by_cases hbackslash : c = '\\'
  · subst hbackslash
    obtain rfl : quoted = false := by simpa [Marked.escapes] using hescapes
    rcases rest with _ | ⟨d, rest⟩
    · rfl
    · have hd : Marked.escapes d = false := by simpa [Marked.pairSafe] using hpair
      rw [escapeMarked_bare hd]
      rfl
  by_cases hopen : c = '['
  · subst hopen
    obtain rfl : quoted = false := by simpa [Marked.escapes] using hescapes
    have hsafe := hbracket rfl
    have hend := bracketEnd_escapeMarked hsafe
    simp only [patternElement, Marked.element, hend]
    cases hmarked : Marked.bracketEnd rest with
    | none => rfl
    | some parts =>
        obtain ⟨inside, after⟩ := parts
        simp only [Marked.bracketSafe, hmarked, Bool.and_eq_true, bne_iff_ne] at hsafe
        have hmatches := bracketMatches_escapeMarked hsafe.2.1 hsafe.2.2
        simp [escapeParts, hmatches]
  · have hstring : patternElement c (escapeMarked rest) = (fun ch => ch == c, escapeMarked rest) := by
      unfold patternElement
      rw [if_neg hquestion]
      split
      · exact absurd rfl hbackslash
      · exact absurd rfl hopen
      · rfl
    have hmarked : Marked.element (c, quoted) rest = (fun ch => ch == c, rest) := by
      unfold Marked.element
      rw [if_neg (by rintro ⟨⟩; exact hquestion rfl)]
      split
      · rename_i h
        cases h
        exact absurd rfl hbackslash
      · rename_i h
        cases h
        exact absurd rfl hopen
      · rfl
    rw [hstring, hmarked]

theorem Marked.items_star (rest : Marked) :
    Marked.items (('*', false) :: rest) = .any :: Marked.items rest := by
  rw [Marked.items, if_pos rfl]

theorem Marked.items_element {e : Char × Bool} (h : e ≠ ('*', false)) (rest : Marked) :
    Marked.items (e :: rest) =
      .one (Marked.element e rest).1 :: Marked.items (Marked.element e rest).2 := by
  rw [Marked.items, if_neg h]

theorem Marked.readsBack_nil : readsBack [] = true := by rw [readsBack]

theorem Marked.readsBack_cons {e : Char × Bool} {rest rest' : Marked} (hstar : e ≠ ('*', false))
    (hpair : pairSafe (e :: rest) = true)
    (hbracket : (e != ('[', false) || bracketSafe rest) = true)
    (hnext : (element e rest).2 = rest') (hrest : readsBack rest' = true) :
    readsBack (e :: rest) = true := by
  rw [readsBack, if_neg hstar, hpair, hbracket, hnext, hrest]
  rfl

/-- The escaped string has the items of the marked pattern. -/
theorem items_escapeMarked (pattern : Marked) (h : Marked.readsBack pattern = true) :
    items (escapeMarked pattern) = Marked.items pattern := by
  induction hn : pattern.length using Nat.strong_induction_on generalizing pattern with
  | _ n ih =>
      subst hn
      rcases pattern with _ | ⟨e, rest⟩
      · rw [escapeMarked_nil, items_nil, Marked.items]
      · rw [Marked.readsBack] at h
        by_cases hstar : e = ('*', false)
        · subst hstar
          rw [if_pos rfl] at h
          rw [escapeMarked_bare rfl, items_star, Marked.items_star, ih _ (by simp) rest h rfl]
        · rw [if_neg hstar] at h
          simp only [Bool.and_eq_true, Bool.or_eq_true, bne_iff_ne] at h
          obtain ⟨⟨hpair, hbracket⟩, hrest⟩ := h
          have hlen := Marked.element_length e rest
          have hnext := ih _ (by simp only [List.length_cons]; omega) _ hrest rfl
          rw [Marked.items_element hstar]
          cases hescapes : Marked.escapes e with
          | true =>
              have hquoted : e.2 = true := by
                simp only [Marked.escapes, Bool.and_eq_true] at hescapes
                exact hescapes.1
              have helement : Marked.element e rest = (fun ch => ch == e.1, rest) := by
                obtain ⟨c, quoted⟩ := e
                obtain rfl : quoted = true := hquoted
                unfold Marked.element
                rw [if_neg (by simp)]
                split
                · rename_i h
                  cases h
                · rename_i h
                  cases h
                · rfl
              rw [helement] at hnext ⊢
              rw [escapeMarked_escaped hescapes, items_element (by decide)]
              exact congrArg _ hnext
          | false =>
              have hc : e.1 ≠ '*' := by
                rintro hc
                obtain ⟨c, quoted⟩ := e
                obtain rfl : c = '*' := hc
                cases quoted with
                | false => exact hstar rfl
                | true => cases hescapes
              rw [escapeMarked_bare hescapes, items_element hc,
                patternElement_escapeMarked hescapes hpair fun h => hbracket.resolve_left (by simp [h]),
                hnext]

/--
The matcher accepts on the string what the marked pattern means, whenever the
pattern reads back.
-/
theorem matchPattern_escapeMarked {pattern : Marked} (h : Marked.readsBack pattern = true)
    (text : Text) : matchPattern (escapeMarked pattern) text = true ↔ pattern.Accepts text := by
  rw [matchPattern_iff, items_escapeMarked pattern h]
  rfl

/-- `["!"]` does not read back: what is accepted is `[!]`, and not the one member. -/
example : matchPattern (escapeMarked [('[', false), ('!', true), (']', false)]) ['!'] = false := by
  decide

end Haisos.Hsh
