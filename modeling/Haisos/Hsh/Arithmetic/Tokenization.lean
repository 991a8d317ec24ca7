import Haisos.Hsh.Arithmetic.Expression
import Mathlib.Data.List.Induction
import Mathlib.Data.Nat.Digits.Lemmas
import Mathlib.Tactic

/-!
# Tokenizing a rendering

The lexemes of a rendering never run into each other, so the tokenizer finds
them again whatever blanks stand between them, none included.
-/

namespace Haisos.Hsh.Arithmetic

/-! ## Constants -/

theorem digitsValue_snoc (base : Nat) (digits : Text) (c : Char) :
    digitsValue base (digits ++ [c]) = digitsValue base digits * base + digitValue c := by
  simp [digitsValue]

theorem digitsValue_eq_numeral (base : Nat) (digits : Text) :
    digitsValue base digits = numeral base digits := by
  induction digits using List.reverseRecOn with
  | nil => simp [digitsValue, numeral]
  | append_singleton digits c ih =>
      rw [digitsValue_snoc, ih]
      simp [numeral, Nat.ofDigits_cons]
      ring

/-- No character that could go on a word or a constant starts the text. -/
def EndsWord (rest : Text) : Prop := ∀ c tail, rest = c :: tail → isNameChar c = false

theorem isNameChar_of_isDigit {c : Char} (h : isDigit c = true) : isNameChar c = true := by
  simp [isNameChar, h]

theorem isNameChar_of_digitValue {c : Char} {base : Nat} (hbase : base ≤ 16)
    (h : isDigitOf base c = true) : isNameChar c = true := by
  have hvalue : digitValue c < base := by simpa [isDigitOf] using h
  have hf : 'f' ≤ 'z' := by decide
  have hF : 'F' ≤ 'Z' := by decide
  simp only [isNameChar, isNameStart, isUpper, isLower, Bool.or_eq_true, Bool.and_eq_true,
    decide_eq_true_eq]
  unfold digitValue at hvalue
  split_ifs at hvalue with hdigit hlower hupper
  · exact .inr hdigit
  · exact .inl (.inl (.inr ⟨hlower.1, Char.le_trans hlower.2 hf⟩))
  · exact .inl (.inl (.inl ⟨hupper.1, Char.le_trans hupper.2 hF⟩))
  · omega

theorem takeWhile_append_of_ends {p : Char → Bool} {digits rest : Text}
    (hdigits : digits.all p = true) (hrest : ∀ c tail, rest = c :: tail → p c = false) :
    (digits ++ rest).takeWhile p = digits := by
  rw [List.takeWhile_append_of_pos (by simpa using hdigits)]
  cases rest with
  | nil => simp
  | cons c tail => simp [hrest c tail rfl]

theorem dropWhile_append_of_ends {p : Char → Bool} {digits rest : Text}
    (hdigits : digits.all p = true) (hrest : ∀ c tail, rest = c :: tail → p c = false) :
    (digits ++ rest).dropWhile p = rest := by
  rw [List.dropWhile_append_of_pos (by simpa using hdigits)]
  cases rest with
  | nil => simp
  | cons c tail => simp [hrest c tail rfl]

theorem endsWord_digit {rest : Text} (h : EndsWord rest) {base : Nat} (hbase : base ≤ 16) :
    ∀ c tail, rest = c :: tail → isDigitOf base c = false := by
  intro c tail heq
  by_contra hdigit
  have hname := isNameChar_of_digitValue hbase (Bool.eq_true_of_not_eq_false hdigit)
  rw [h c tail heq] at hname
  contradiction

theorem saturate_false (n : Nat) : saturate false n = min intMaxMax n := rfl

theorem isSpace_of_isDigit {c : Char} (h : isDigit c = true) : isSpace c = false := by
  by_contra hspace
  simp only [isSpace, Bool.not_eq_false, Bool.or_eq_true, beq_iff_eq] at hspace
  rcases hspace with ((((rfl | rfl) | rfl) | rfl) | rfl) | rfl <;> revert h <;> decide

theorem signPrefix_digit {c : Char} (h : isDigit c = true) (rest : Text) :
    signPrefix (c :: rest) = (false, c :: rest) := by
  unfold signPrefix
  split
  · rename_i heq
    cases heq
    exact absurd h (by decide)
  · rename_i heq
    cases heq
    exact absurd h (by decide)
  · rfl

theorem strtoimax_digits {c : Char} {tail rest : Text} {base : Nat} (digits : Text)
    (hc : isDigit c = true) (hbasePrefix : basePrefix (c :: tail) = (base, digits ++ rest))
    (hdigits : digits.all (isDigitOf base) = true) (hne : digits ≠ [])
    (hbase : base ≤ 16) (hrest : EndsWord rest) :
    strtoimax (c :: tail) = some (min intMaxMax (numeral base digits), rest) := by
  have hends := endsWord_digit hrest hbase
  simp only [strtoimax, List.dropWhile_cons, isSpace_of_isDigit hc, Bool.false_eq_true,
    if_false, signPrefix_digit hc, hbasePrefix, takeWhile_append_of_ends hdigits hends,
    dropWhile_append_of_ends hdigits hends, saturate_false, digitsValue_eq_numeral]
  simp [hne]

theorem isDigitOf_ten {c : Char} (h : isDigit c = true) : isDigitOf 10 c = true := by
  have hle : c ≤ '9' := by
    simp only [isDigit, Bool.and_eq_true, decide_eq_true_eq] at h
    exact h.2
  have hnat : c.toNat ≤ 57 := hle
  have hzero : '0'.toNat = 48 := rfl
  simp only [isDigitOf, digitValue, h, if_true, decide_eq_true_eq]
  omega

theorem basePrefix_decimal {c : Char} (h : c ≠ '0') (rest : Text) :
    basePrefix (c :: rest) = (10, c :: rest) := by
  unfold basePrefix
  split <;> simp_all

theorem not_hexMark_of_endsWord {rest : Text} (hrest : EndsWord rest) (digits : Text)
    (hdigits : digits.all (isDigitOf 8) = true) :
    basePrefix ('0' :: (digits ++ rest)) = (8, '0' :: (digits ++ rest)) := by
  have hmark : ∀ x tail, digits ++ rest = x :: tail → ¬(x = 'x' ∨ x = 'X') := by
    intro x tail heq hx
    cases digits with
    | nil =>
        have := hrest x tail heq
        rcases hx with rfl | rfl <;> revert this <;> decide
    | cons d ds =>
        cases heq
        simp only [List.all_cons, Bool.and_eq_true] at hdigits
        have hd := hdigits.1
        rcases hx with rfl | rfl <;> revert hd <;> decide
  generalize digits ++ rest = tail at hmark
  match tail with
  | [] => rfl
  | [x] => rfl
  | x :: c :: tail => simp [basePrefix, hmark x _ rfl]

theorem strtoimax_literal (l : Literal) {rest : Text} (hrest : EndsWord rest) :
    ∃ c tail, l.text = c :: tail ∧ isDigit c = true ∧
      strtoimax (l.text ++ rest) = some (l.value, rest) := by
  cases l with
  | decimal first digits valid =>
      refine ⟨first, digits, rfl, valid.1, ?_⟩
      refine strtoimax_digits (first :: digits) valid.1
        (basePrefix_decimal valid.2.1 _) ?_ (by simp) (by omega) hrest
      simp only [List.all_cons, isDigitOf_ten valid.1, Bool.true_and, List.all_eq_true]
      intro c hc
      exact isDigitOf_ten (List.all_eq_true.mp valid.2.2 c hc)
  | octal digits valid =>
      refine ⟨'0', digits, rfl, by decide, ?_⟩
      have hbasePrefix := not_hexMark_of_endsWord hrest digits valid
      have hread := strtoimax_digits ('0' :: digits) (by decide) hbasePrefix
        (by simpa [isDigitOf, digitValue, isDigit] using valid) (by simp) (by omega) hrest
      simpa [Literal.text, Literal.value, numeral, Nat.ofDigits_append, digitValue, isDigit]
        using hread
  | hexadecimal x first digits valid =>
      refine ⟨'0', x :: first :: digits, rfl, by decide, ?_⟩
      refine strtoimax_digits (first :: digits) (by decide) ?_ ?_ (by simp)
        (by omega) hrest
      · simp [basePrefix, valid.1, valid.2.1]
      · simp only [List.all_cons, valid.2.1, valid.2.2, Bool.and_self]

/-! ## Operators -/

/-- Whether `c` may be the last character of an operator of two or three. -/
def extendsOperator (c : Char) : Bool :=
  c == '<' || c == '>' || c == '=' || c == '&' || c == '|'

theorem twoChar_of_not_extends {d : Char} (hd : extendsOperator d = false) (c : Char) :
    twoChar c d = none := by
  unfold twoChar
  split <;> first | rfl | (revert hd; decide)

def isClosed (kind : TokenKind) : Bool :=
  kind == .lParen || kind == .rParen || kind == .tilde || kind == .question || kind == .colon

/-- Whether a token is written by `operatorText`. -/
def isOperator (kind : TokenKind) : Bool := !(operatorText kind).isEmpty

def EndsOperator (kind : TokenKind) (rest : Text) : Prop :=
  isClosed kind = true ∨ ∀ c tail, rest = c :: tail → extendsOperator c = false

theorem operatorToken_nil (kind : TokenKind) (h : isOperator kind = true) :
    ∃ c tail, operatorText kind = c :: tail ∧ isBlank c = false ∧ isDigit c = false ∧
      isNameStart c = false ∧ operatorToken c tail = (kind, []) := by
  cases kind <;> first
    | exact absurd h (by decide)
    | exact ⟨_, _, rfl, by decide, by decide, by decide, rfl⟩

theorem operatorToken_of_oneChar {c d : Char} (h : twoChar c d = none) (rest : Text) :
    operatorToken c (d :: rest) = (oneChar c, d :: rest) := by
  unfold operatorToken
  split
  · rename_i heq
    cases heq
    exact absurd h (by decide)
  · rename_i heq
    cases heq
    exact absurd h (by decide)
  · rename_i heq
    cases heq
    rw [h]
  · contradiction

theorem operatorToken_of_twoChar {c d : Char} {kind : TokenKind} (h : twoChar c d = some kind)
    {rest : Text} (hrest : ∀ tail, rest ≠ '=' :: tail) :
    operatorToken c (d :: rest) = (kind, rest) := by
  unfold operatorToken
  split
  · rename_i heq
    cases heq
    exact absurd rfl (hrest _)
  · rename_i heq
    cases heq
    exact absurd rfl (hrest _)
  · rename_i heq
    cases heq
    rw [h]
  · contradiction

theorem operatorToken_cons {kind : TokenKind} {d : Char}
    (hd : isClosed kind = true ∨ extendsOperator d = false) (rest : Text) {c : Char}
    {tail : Text} (htext : operatorText kind = c :: tail) :
    operatorToken c (tail ++ d :: rest) = (kind, d :: rest) := by
  have heq : extendsOperator d = false → ∀ tail, d :: rest ≠ '=' :: tail := by
    rintro hd tail ⟨⟩
    exact absurd hd (by decide)
  cases kind <;> cases htext
  case lParen | rParen | tilde | question | colon => exact operatorToken_of_oneChar rfl rest
  case shlEq | shrEq => rfl
  all_goals
    have hd : extendsOperator d = false := hd.resolve_left (by decide)
    first
    | exact operatorToken_of_oneChar (twoChar_of_not_extends hd _) rest
    | exact operatorToken_of_twoChar rfl (heq hd)

/-! ## One lexeme -/

def Ends : Lexeme → Text → Prop
  | .literal _, rest | .name _, rest => EndsWord rest
  | .op kind, rest => EndsOperator kind rest

def Lexeme.WellFormed : Lexeme → Prop
  | .literal _ | .name _ => True
  | .op kind => isOperator kind = true

theorem isBlank_of_isNameChar {c : Char} (h : isNameChar c = true) : isBlank c = false := by
  by_contra hblank
  simp only [isBlank, Bool.not_eq_false, Bool.or_eq_true, beq_iff_eq] at hblank
  rcases hblank with (rfl | rfl) | rfl <;> exact absurd h (by decide)

theorem isDigit_of_isNameStart {c : Char} (h : isNameStart c = true) : isDigit c = false := by
  have hz : '9' < 'A' := by decide
  have hu : '9' < 'a' := by decide
  simp only [isNameStart, isUpper, isLower, Bool.or_eq_true, Bool.and_eq_true, decide_eq_true_eq,
    beq_iff_eq] at h
  simp only [isDigit, Bool.and_eq_false_iff, decide_eq_false_iff_not]
  refine .inr fun hle => ?_
  rcases h with (h | h) | rfl
  · exact absurd (Char.le_trans h.1 hle) (by decide)
  · exact absurd (Char.le_trans h.1 hle) (by decide)
  · exact absurd hle (by decide)

theorem nextToken_lexeme (lexeme : Lexeme) (hwf : lexeme.WellFormed) {rest : Text}
    (hrest : Ends lexeme rest) :
    ∃ c tail, lexeme.text = c :: tail ∧ isBlank c = false ∧
      nextToken c (tail ++ rest) = (lexeme.token, rest) := by
  cases lexeme with
  | literal l =>
      obtain ⟨c, tail, htext, hdigit, hread⟩ := strtoimax_literal l hrest
      refine ⟨c, tail, htext, isBlank_of_isNameChar (isNameChar_of_isDigit hdigit), ?_⟩
      rw [htext, List.cons_append] at hread
      simp [nextToken, hdigit, hread, Lexeme.token]
  | name n =>
      obtain ⟨name, hvalid⟩ := n
      cases name with
      | nil => simp [isValidShellName] at hvalid
      | cons c tail =>
          simp only [isValidShellName, Bool.and_eq_true] at hvalid
          obtain ⟨hstart, htail⟩ := hvalid
          refine ⟨c, tail, rfl, isBlank_of_isNameChar (by simp [isNameChar, hstart]), ?_⟩
          simp [nextToken, isDigit_of_isNameStart hstart, hstart, Lexeme.token,
            takeWhile_append_of_ends htail hrest, dropWhile_append_of_ends htail hrest]
  | op kind =>
      obtain ⟨c, tail, htext, hblank, hdigit, hname, hnil⟩ := operatorToken_nil kind hwf
      refine ⟨c, tail, htext, hblank, ?_⟩
      have hread : operatorToken c (tail ++ rest) = (kind, rest) := by
        cases rest with
        | nil => simpa using hnil
        | cons d ds =>
            refine operatorToken_cons ?_ ds htext
            exact hrest.imp id fun h => h d ds rfl
      simp [nextToken, hdigit, hname, hread, Lexeme.token]

/-! ## The whole text -/

/-- Two lexemes that may stand next to each other with no blank between them. -/
def Adjacent (a b : Lexeme) : Prop :=
  ∀ c tail, b.text = c :: tail →
    match a with
    | .literal _ | .name _ => isNameChar c = false
    | .op kind => isClosed kind = true ∨ extendsOperator c = false

theorem tokenizeFrom_blanks {blanks : Text} (h : blanks.all isBlank = true) (rest : Text) :
    ∀ fuel, (blanks ++ rest).length < fuel →
      ∃ fuel', rest.length < fuel' ∧ tokenizeFrom fuel (blanks ++ rest) = tokenizeFrom fuel' rest := by
  induction blanks with
  | nil => exact fun fuel hfuel => ⟨fuel, by simpa using hfuel, rfl⟩
  | cons c blanks ih =>
      intro fuel hfuel
      simp only [List.all_cons, Bool.and_eq_true] at h
      cases fuel with
      | zero => simp at hfuel
      | succ fuel =>
          obtain ⟨fuel', hlt, heq⟩ := ih h.2 fuel (by simpa using hfuel)
          exact ⟨fuel', hlt, by simpa [tokenizeFrom, h.1] using heq⟩

theorem ends_blank {lexeme : Lexeme} {blanks rest : Text} (h : blanks.all isBlank = true)
    (hrest : blanks = [] → Ends lexeme rest) : Ends lexeme (blanks ++ rest) := by
  cases blanks with
  | nil => exact hrest rfl
  | cons c blanks =>
      simp only [List.all_cons, Bool.and_eq_true, isBlank, Bool.or_eq_true, beq_iff_eq] at h
      have hc := h.1
      cases lexeme with
      | literal l =>
          rintro d tail ⟨⟩
          rcases hc with (rfl | rfl) | rfl <;> decide
      | name n =>
          rintro d tail ⟨⟩
          rcases hc with (rfl | rfl) | rfl <;> decide
      | op kind =>
          refine .inr ?_
          rintro d tail ⟨⟩
          rcases hc with (rfl | rfl) | rfl <;> decide

theorem ends_nil (lexeme : Lexeme) : Ends lexeme [] := by
  cases lexeme with
  | literal l => rintro c tail ⟨⟩
  | name n => rintro c tail ⟨⟩
  | op kind => exact .inr (by rintro c tail ⟨⟩)

theorem tokenizeFrom_spaced {lexemes : List Lexeme} {expression : Text}
    (h : Spaced lexemes expression) (hwf : ∀ lexeme ∈ lexemes, lexeme.WellFormed)
    (hchain : lexemes.IsChain Adjacent) :
    ∀ fuel, expression.length < fuel →
      tokenizeFrom fuel expression = lexemes.map Lexeme.token ++ [{ kind := .endToken }] := by
  induction h with
  | nil blanks hblanks =>
      intro fuel hfuel
      obtain ⟨fuel', hlt, heq⟩ := tokenizeFrom_blanks hblanks [] fuel (by simpa using hfuel)
      rw [List.append_nil] at heq
      rw [heq]
      cases fuel' with
      | zero => simp at hlt
      | succ fuel' => rfl
  | @cons blanks lexeme lexemes rest hblanks hspaced ih =>
      intro fuel hfuel
      have hends : Ends lexeme rest := by
        cases hspaced with
        | nil _ hrest =>
            have hblank := ends_blank hrest fun _ => ends_nil lexeme
            simpa using hblank
        | @cons blanks' next lexemes' rest' hblanks' hspaced' =>
            rw [List.append_assoc]
            refine ends_blank hblanks' fun _ => ?_
            have hadj := (List.isChain_cons_cons.mp hchain).1
            obtain ⟨c, tail, htext, -⟩ :=
              nextToken_lexeme next (hwf next (by simp)) (ends_nil next)
            have hc := hadj c tail htext
            cases lexeme with
            | literal l =>
                rintro d ds heq
                rw [htext, List.cons_append] at heq
                cases heq
                exact hc
            | name n =>
                rintro d ds heq
                rw [htext, List.cons_append] at heq
                cases heq
                exact hc
            | op kind =>
                refine hc.imp id fun hc d ds heq => ?_
                rw [htext, List.cons_append] at heq
                cases heq
                exact hc
      obtain ⟨c, tail, htext, hblank, hnext⟩ :=
        nextToken_lexeme lexeme (hwf lexeme (by simp)) hends
      rw [List.append_assoc] at hfuel ⊢
      obtain ⟨fuel', hlt, heq⟩ := tokenizeFrom_blanks hblanks _ fuel hfuel
      rw [heq, htext, List.cons_append]
      rw [htext] at hlt
      cases fuel' with
      | zero => simp at hlt
      | succ fuel' =>
          simp only [tokenizeFrom, hblank, Bool.false_eq_true, if_false, hnext, List.map_cons,
            List.cons_append, List.cons.injEq, true_and]
          refine ih (fun l hl => hwf l (by simp [hl])) ?_ fuel' ?_
          · exact hchain.tail
          · simp only [List.length_append, List.length_cons] at hlt
            omega

end Haisos.Hsh.Arithmetic
