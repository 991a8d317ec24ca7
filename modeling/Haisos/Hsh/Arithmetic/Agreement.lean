import Haisos.Hsh.Arithmetic.Operators
import Haisos.Hsh.Arithmetic.Tokenization
import Haisos.StateExcept

/-!
# The evaluator agrees with the reference

The recursive descent is followed along a rendering.  Each level of the parser
reads an operand of its level and, at the binary levels, goes on with its
loop; a level meeting a tighter expression only hands it through.
-/

namespace Haisos.Hsh.Arithmetic

/-! ## The shape of a rendering -/

def startsOperand : Lexeme → Prop
  | .literal _ | .name _ => True
  | .op kind =>
      kind = .plus ∨ kind = .minus ∨ kind = .tilde ∨ kind = .not ∨ kind = .lParen

def endsOperand : Lexeme → Prop
  | .literal _ | .name _ => True
  | .op kind => kind = .rParen

structure Shape (ts : List Lexeme) : Prop where
  wellFormed : ∀ lexeme ∈ ts, lexeme.WellFormed
  chain : ts.IsChain Adjacent
  first : ∃ a, ts.head? = some a ∧ startsOperand a
  last : ∃ z, ts.getLast? = some z ∧ endsOperand z

theorem extendsOperator_of_isNameChar {c : Char} (h : isNameChar c = true) :
    extendsOperator c = false := by
  by_contra hext
  simp only [extendsOperator, Bool.not_eq_false, Bool.or_eq_true, beq_iff_eq] at hext
  rcases hext with (((rfl | rfl) | rfl) | rfl) | rfl <;> exact absurd h (by decide)

theorem adjacent_op_operand (kind : TokenKind) {b : Lexeme} (hb : startsOperand b) :
    Adjacent (.op kind) b := by
  rintro c tail htext
  refine .inr ?_
  cases b with
  | literal l =>
      obtain ⟨d, tail', htext', hdigit, -⟩ := strtoimax_literal l (ends_nil (.literal l))
      rw [Lexeme.text, htext'] at htext
      cases htext
      exact extendsOperator_of_isNameChar (isNameChar_of_isDigit hdigit)
  | name n =>
      obtain ⟨name, hvalid⟩ := n
      cases htext
      simp only [isValidShellName, Bool.and_eq_true] at hvalid
      exact extendsOperator_of_isNameChar (by simp [isNameChar, hvalid.1])
  | op k => rcases hb with rfl | rfl | rfl | rfl | rfl <;> cases htext <;> decide

theorem adjacent_operand_op {a : Lexeme} (ha : endsOperand a) {kind : TokenKind} :
    Adjacent a (.op kind) := by
  rintro c tail htext
  have hc : isNameChar c = false := by
    cases kind <;> cases htext <;> decide
  cases a with
  | literal l => exact hc
  | name n => exact hc
  | op k =>
      cases ha
      exact .inl rfl

theorem Shape.single {a : Lexeme} (hwf : a.WellFormed) (hs : startsOperand a)
    (he : endsOperand a) : Shape [a] where
  wellFormed := by simpa using hwf
  chain := .singleton a
  first := ⟨a, rfl, hs⟩
  last := ⟨a, rfl, he⟩

theorem Shape.precede {ts : List Lexeme} (h : Shape ts) {kind : TokenKind}
    (hwf : isOperator kind = true) (hs : startsOperand (.op kind)) :
    Shape (.op kind :: ts) where
  wellFormed := by simpa [Lexeme.WellFormed, hwf] using h.wellFormed
  chain := by
    refine List.isChain_cons.mpr ⟨fun y hy => ?_, h.chain⟩
    obtain ⟨a, ha, hsa⟩ := h.first
    rw [ha] at hy
    cases hy
    exact adjacent_op_operand kind hsa
  first := ⟨_, rfl, hs⟩
  last := by
    obtain ⟨z, hz, hez⟩ := h.last
    exact ⟨z, by rw [List.getLast?_cons, hz]; rfl, hez⟩

theorem Shape.join {ts us : List Lexeme} (ht : Shape ts) (hu : Shape us) {kind : TokenKind}
    (hwf : isOperator kind = true) : Shape (ts ++ .op kind :: us) where
  wellFormed := by
    intro lexeme hmem
    rcases List.mem_append.mp hmem with h | h
    · exact ht.wellFormed lexeme h
    · rcases List.mem_cons.mp h with rfl | h
      · exact hwf
      · exact hu.wellFormed lexeme h
  chain := by
    obtain ⟨a, ha, hsa⟩ := hu.first
    obtain ⟨z, hz, hez⟩ := ht.last
    refine List.isChain_append.mpr ⟨ht.chain, List.isChain_cons.mpr ⟨?_, hu.chain⟩, ?_⟩
    · intro y hy
      rw [ha] at hy
      cases hy
      exact adjacent_op_operand kind hsa
    · intro x hx y hy
      rw [hz] at hx
      cases hx
      cases hy
      exact adjacent_operand_op hez
  first := by
    obtain ⟨a, ha, hsa⟩ := ht.first
    exact ⟨a, by rw [List.head?_append, ha]; rfl, hsa⟩
  last := by
    obtain ⟨z, hz, hez⟩ := hu.last
    exact ⟨z, by rw [List.getLast?_append, List.getLast?_cons, hz]; rfl, hez⟩

theorem Shape.paren {ts : List Lexeme} (h : Shape ts) :
    Shape (.op .lParen :: ts ++ [.op .rParen]) where
  wellFormed := by
    intro lexeme hmem
    simp only [List.cons_append, List.mem_cons, List.mem_append, List.not_mem_nil,
      or_false] at hmem
    rcases hmem with rfl | hmem | rfl
    · rfl
    · exact h.wellFormed lexeme hmem
    · rfl
  chain := by
    obtain ⟨z, hz, hez⟩ := h.last
    refine List.isChain_append.mpr ⟨(h.precede rfl (by simp [startsOperand])).chain,
      .singleton _, ?_⟩
    intro x hx y hy
    rw [List.getLast?_cons, hz] at hx
    cases hx
    cases hy
    exact adjacent_operand_op hez
  first := ⟨_, rfl, by simp [startsOperand]⟩
  last := ⟨_, List.getLast?_concat, rfl⟩

theorem Renders.shape {p : Nat} {e : Expr} {ts : List Lexeme} (h : Renders p e ts) :
    Shape ts := by
  induction h with
  | literal p l => exact .single trivial trivial trivial
  | var p name => exact .single trivial trivial trivial
  | @unary p op e ts _ _ ih =>
      cases op <;> exact ih.precede rfl (by simp [startsOperand, UnaryOp.kind])
  | @binary p op l r ts us _ _ _ ihl ihr => exact ihl.join ihr (by cases op <;> rfl)
  | logicalAnd _ _ _ ihl ihr => exact ihl.join ihr rfl
  | logicalOr _ _ _ ihl ihr => exact ihl.join ihr rfl
  | conditional _ _ _ _ ihc iht ihe => exact (ihc.join iht rfl).join ihe rfl
  | @assign op name rhs ts _ ih =>
      have hname : Shape [.name name] := .single trivial trivial trivial
      exact hname.join ih (by cases op <;> rfl)
  | paren _ ih => exact ih.paren

/-- The tokens of a text that writes an expression. -/
theorem tokenize_rendering {p : Nat} {e : Expr} {ts : List Lexeme} {expression : Text}
    (h : Renders p e ts) (hspaced : Spaced ts expression) :
    tokenize expression = ts.map Lexeme.token ++ [{ kind := .endToken }] :=
  tokenizeFrom_spaced hspaced h.shape.wellFormed h.shape.chain _ (Nat.lt_succ_self _)

/-! ## Running the parser -/

section

open StateExcept

variable {σ α : Type}

@[simp] theorem exec_evaluating (s : State σ) :
    exec (evaluating : Parse σ Bool) s = (.ok s.evaluating, s) := rfl

/-- The kind `peek` finds. -/
def headKind : List Token → TokenKind
  | [] => .endToken
  | token :: _ => token.kind

@[simp] theorem exec_peek (s : State σ) :
    exec (peek : Parse σ TokenKind) s = (.ok (headKind s.tokens), s) := by
  rcases s with ⟨_ | _, _, _⟩ <;> rfl

@[simp] theorem exec_next (token : Token) (rest : List Token) (evaluating : Bool) (store : σ) :
    exec (next : Parse σ Token) ⟨token :: rest, evaluating, store⟩ =
      (.ok token, ⟨rest, evaluating, store⟩) := rfl

@[simp] theorem exec_withEvaluation (evaluate : Bool) (f : Parse σ α) (s : State σ) :
    exec (withEvaluation evaluate f) s =
      ((exec f { s with evaluating := evaluate }).1,
        { (exec f { s with evaluating := evaluate }).2 with evaluating := s.evaluating }) := rfl

end

end Haisos.Hsh.Arithmetic
