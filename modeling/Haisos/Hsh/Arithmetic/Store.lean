import Haisos.Hsh.Arithmetic.Evaluator
import Haisos.StateExcept

/-!
# What an evaluation does to the variables

The evaluator changes the variables by assigning alone: what assignments keep, an
evaluation keeps.
-/

namespace Haisos.Hsh.Arithmetic

open StateExcept

variable {σ : Type}

def OnStore (R : σ → σ → Prop) (s s' : State σ) : Prop := R s.store s'.store

variable {R : σ → σ → Prop}

instance [Std.Refl R] : Std.Refl (OnStore R) := ⟨fun s => Std.Refl.refl s.store⟩

instance [IsTrans σ R] : IsTrans (State σ) (OnStore R) :=
  ⟨fun s s' s'' h h' => IsTrans.trans s.store s'.store s''.store h h'⟩

variable [Std.Refl R] [IsTrans σ R] {vars : Variables σ} {expression : Text}

omit [IsTrans σ R] in
theorem peek_store : Respects (OnStore R) (peek : Parse σ TokenKind) := by
  intro s
  rcases htokens : s.tokens with _ | ⟨token, rest⟩ <;>
    simp only [peek, exec_bind, exec_get, htokens, exec_pure] <;> exact Std.Refl.refl s.store

omit [IsTrans σ R] in
theorem next_store : Respects (OnStore R) (next : Parse σ Token) := by
  intro s
  rcases htokens : s.tokens with _ | ⟨token, rest⟩ <;>
    simp only [next, exec_bind, exec_get, exec_set, htokens, exec_pure] <;>
      exact Std.Refl.refl s.store

theorem evaluating_store : Respects (OnStore R) (evaluating : Parse σ Bool) :=
  Respects.bind_intro Respects.get_intro fun _ => Respects.pure_intro _

omit [IsTrans σ R] in
theorem fail_store {α : Type} (expression : Text) (what : String) :
    Respects (OnStore R) (fail expression what : Parse σ α) :=
  Respects.throw_intro _

omit [Std.Refl R] [IsTrans σ R] in
theorem withEvaluation_store {α : Type} {f : Parse σ α} (h : Respects (OnStore R) f)
    (evaluate : Bool) : Respects (OnStore R) (withEvaluation evaluate f) :=
  fun s => h { s with evaluating := evaluate }

theorem variableValue_store (name : Text) :
    Respects (OnStore R) (variableValue vars name) := by
  refine Respects.bind_intro evaluating_store fun flag => ?_
  split
  · exact Respects.pure_intro _
  · refine Respects.bind_intro Respects.get_intro fun s => ?_
    split
    · exact Respects.pure_intro _
    · exact Respects.throw_intro _

omit [IsTrans σ R] in
theorem assignVariable_store
    (hset : ∀ store name value store', vars.set store name value = some store' → R store store')
    (name : Text) (result : IntMax) : Respects (OnStore R) (assignVariable vars name result) := by
  intro s
  rcases h : vars.set s.store name (intText result.toInt) with _ | store
  · simp only [assignVariable, exec_bind, exec_get, h, exec_throw]
    exact Std.Refl.refl s.store
  · simp only [assignVariable, exec_bind, exec_get, h, exec_set]
    exact hset _ _ _ _ h

section

variable {assign : Parse σ Value} (hassign : Respects (OnStore R) assign)

include hassign

theorem parsePrimary_store : Respects (OnStore R) (parsePrimary vars expression assign) := by
  refine Respects.bind_intro peek_store fun kind => ?_
  split
  · exact Respects.bind_intro next_store fun _ => Respects.pure_intro _
  · refine Respects.bind_intro next_store fun token => ?_
    refine Respects.bind_intro peek_store fun kind => ?_
    split
    · exact Respects.pure_intro _
    · exact Respects.bind_intro (variableValue_store _) fun _ => Respects.pure_intro _
  · refine Respects.bind_intro next_store fun _ => ?_
    refine Respects.bind_intro hassign fun v => ?_
    refine Respects.bind_intro peek_store fun kind => ?_
    have hend : Respects (OnStore R) (do
        let _ ← next
        pure { v with lvalue := [] } : Parse σ Value) :=
      Respects.bind_intro next_store fun _ => Respects.pure_intro _
    split
    · exact Respects.bind_intro (fail_store _ _) fun _ => hend
    · exact hend
  · exact fail_store _ _

omit hassign in
theorem mapped_store (v : Value) (f : IntMax → IntMax) :
    Respects (OnStore R) (mapped v f : Parse σ Value) := by
  refine Respects.bind_intro evaluating_store fun flag => ?_
  split <;> exact Respects.pure_intro _

theorem parseUnary_store :
    ∀ fuel, Respects (OnStore R) (parseUnary vars expression assign fuel)
  | 0 => Respects.throw_intro _
  | fuel + 1 => by
      rw [parseUnary]
      refine Respects.bind_intro peek_store fun kind => ?_
      split
      · exact Respects.bind_intro next_store fun _ => parseUnary_store fuel
      · refine Respects.bind_intro next_store fun _ => ?_
        exact Respects.bind_intro (parseUnary_store fuel) fun _ => mapped_store _ _
      · refine Respects.bind_intro next_store fun _ => ?_
        exact Respects.bind_intro (parseUnary_store fuel) fun _ => mapped_store _ _
      · refine Respects.bind_intro next_store fun _ => ?_
        exact Respects.bind_intro (parseUnary_store fuel) fun _ => mapped_store _ _
      · exact parsePrimary_store hassign

end

section

variable {isOp : TokenKind → Bool} {apply : TokenKind → IntMax → IntMax → Parse σ IntMax}
  {operand : Parse σ Value} (hoperand : Respects (OnStore R) operand)

include hoperand

theorem binaryLoop_store (happly : ∀ op a b, Respects (OnStore R) (apply op a b)) :
    ∀ fuel lhs, Respects (OnStore R) (binaryLoop isOp apply operand fuel lhs)
  | 0, _ => Respects.throw_intro _
  | fuel + 1, lhs => by
      rw [binaryLoop]
      refine Respects.bind_intro peek_store fun kind => ?_
      split
      · refine Respects.bind_intro next_store fun op => ?_
        refine Respects.bind_intro hoperand fun rhs => ?_
        refine Respects.bind_intro evaluating_store fun flag => ?_
        dsimp only
        split
        · exact Respects.bind_intro (happly _ _ _) fun _ => binaryLoop_store happly fuel _
        · exact binaryLoop_store happly fuel _
      · exact Respects.pure_intro _

theorem binaryLevel_store (happly : ∀ op a b, Respects (OnStore R) (apply op a b)) (fuel : Nat) :
    Respects (OnStore R) (binaryLevel isOp apply operand fuel) :=
  Respects.bind_intro hoperand fun lhs => binaryLoop_store hoperand happly fuel lhs

theorem logicalLoop_store {op : TokenKind} {goesOn : IntMax → Bool}
    {combine : IntMax → IntMax → Bool} :
    ∀ fuel lhs, Respects (OnStore R) (logicalLoop op goesOn combine operand fuel lhs)
  | 0, _ => Respects.throw_intro _
  | fuel + 1, lhs => by
      rw [logicalLoop]
      refine Respects.bind_intro peek_store fun kind => ?_
      split
      · refine Respects.bind_intro next_store fun _ => ?_
        refine Respects.bind_intro evaluating_store fun flag => ?_
        refine Respects.bind_intro (withEvaluation_store hoperand _) fun rhs => ?_
        exact logicalLoop_store fuel _
      · exact Respects.pure_intro _

end

theorem applyMultiplicative_store (op : TokenKind) (a b : IntMax) :
    Respects (OnStore R) (applyMultiplicative expression op a b : Parse σ IntMax) := by
  rw [applyMultiplicative.eq_def]
  refine Respects.when_intro (fail_store expression _) ?_
  split
  · exact Respects.pure_intro _
  · exact Respects.pure_intro _
  · exact Respects.pure_intro _

section

variable {assign : Parse σ Value} (hassign : Respects (OnStore R) assign) (fuel : Nat)

include hassign

theorem parseBitOr_store : Respects (OnStore R) (parseBitOr vars expression assign fuel) := by
  have hmultiplicative : Respects (OnStore R) (parseMultiplicative vars expression assign fuel) :=
    binaryLevel_store (parseUnary_store hassign fuel) (fun _ _ _ => applyMultiplicative_store _ _ _)
      fuel
  -- The operands of the looser levels are combined without touching the parser.
  have hadditive : Respects (OnStore R) (parseAdditive vars expression assign fuel) :=
    binaryLevel_store hmultiplicative (fun _ _ _ => Respects.pure_intro _) fuel
  have hshift : Respects (OnStore R) (parseShift vars expression assign fuel) :=
    binaryLevel_store hadditive (fun _ _ _ => Respects.pure_intro _) fuel
  have hrelational : Respects (OnStore R) (parseRelational vars expression assign fuel) :=
    binaryLevel_store hshift (fun _ _ _ => Respects.pure_intro _) fuel
  have hequality : Respects (OnStore R) (parseEquality vars expression assign fuel) :=
    binaryLevel_store hrelational (fun _ _ _ => Respects.pure_intro _) fuel
  have hbitAnd : Respects (OnStore R) (parseBitAnd vars expression assign fuel) :=
    binaryLevel_store hequality (fun _ _ _ => Respects.pure_intro _) fuel
  have hbitXor : Respects (OnStore R) (parseBitXor vars expression assign fuel) :=
    binaryLevel_store hbitAnd (fun _ _ _ => Respects.pure_intro _) fuel
  exact binaryLevel_store hbitXor (fun _ _ _ => Respects.pure_intro _) fuel

theorem parseLogicalOr_store :
    Respects (OnStore R) (parseLogicalOr vars expression assign fuel) := by
  have hand : Respects (OnStore R) (parseLogicalAnd vars expression assign fuel) :=
    Respects.bind_intro (parseBitOr_store hassign fuel) fun lhs =>
      logicalLoop_store (parseBitOr_store hassign fuel) fuel lhs
  exact Respects.bind_intro hand fun lhs => logicalLoop_store hand fuel lhs

theorem parseBranches_store (condition : Value) :
    Respects (OnStore R) (parseBranches expression assign condition) := by
  refine Respects.bind_intro evaluating_store fun flag => ?_
  refine Respects.bind_intro (withEvaluation_store hassign _) fun thenValue => ?_
  refine Respects.bind_intro peek_store fun kind => ?_
  have helse : Respects (OnStore R) (do
      let _ ← next
      let elseValue ← withEvaluation (flag && condition.value == 0) assign
      if flag then
        pure { value := if condition.value != 0 then thenValue.value else elseValue.value }
      else pure {} : Parse σ Value) := by
    refine Respects.bind_intro next_store fun _ => ?_
    refine Respects.bind_intro (withEvaluation_store hassign _) fun elseValue => ?_
    split <;> exact Respects.pure_intro _
  by_cases hcolon : kind ≠ .colon
  · dsimp only
    rw [if_pos hcolon]
    exact Respects.bind_intro (fail_store (α := PUnit) expression _) fun _ => helse
  · dsimp only
    rw [if_neg hcolon]
    exact helse

theorem parseConditional_store :
    Respects (OnStore R) (parseConditional vars expression assign fuel) := by
  refine Respects.bind_intro (parseLogicalOr_store hassign fuel) fun condition => ?_
  refine Respects.bind_intro peek_store fun kind => ?_
  split
  · exact Respects.pure_intro _
  · exact Respects.bind_intro next_store fun _ => parseBranches_store hassign condition

end

theorem applyAssign_store (op : TokenKind) (lhs rhs : IntMax) :
    Respects (OnStore R) (applyAssign expression op lhs rhs : Parse σ IntMax) := by
  rw [applyAssign.eq_def]
  by_cases hzero : ((op == .slashEq || op == .percentEq) && rhs == 0) = true
  · rw [if_pos hzero]
    exact Respects.bind_intro (fail_store (α := PUnit) expression _)
      fun _ => Respects.pure_intro _
  · rw [if_neg hzero]
    exact Respects.pure_intro _

section

variable (hset : ∀ store name value store', vars.set store name value = some store' → R store store')

include hset

theorem assignResult_store (op : TokenKind) (name : Text) (lhs rhs : IntMax) :
    Respects (OnStore R) (assignResult vars expression op name lhs rhs) := by
  have hrest (old : IntMax) : Respects (OnStore R) (do
      let result ← applyAssign expression op old rhs
      assignVariable vars name result
      pure { value := result } : Parse σ Value) := by
    refine Respects.bind_intro (applyAssign_store _ _ _) fun result => ?_
    exact Respects.bind_intro (assignVariable_store hset _ _) fun _ => Respects.pure_intro _
  rw [assignResult]
  split
  · exact Respects.bind_intro (variableValue_store _) fun old => hrest old
  · exact hrest lhs

theorem parseAssign_store : ∀ fuel, Respects (OnStore R) (parseAssign vars expression fuel)
  | 0 => Respects.throw_intro _
  | fuel + 1 => by
      rw [parseAssign]
      refine Respects.bind_intro (parseConditional_store (parseAssign_store fuel) _) fun lhs => ?_
      refine Respects.bind_intro peek_store fun kind => ?_
      split
      · exact Respects.pure_intro _
      · refine Respects.bind_intro next_store fun op => ?_
        refine Respects.bind_intro (parseAssign_store fuel) fun rhs => ?_
        refine Respects.bind_intro evaluating_store fun flag => ?_
        split
        · exact Respects.pure_intro _
        · exact assignResult_store hset _ _ _ _

theorem evaluateArithmetic_store (expression : Text) (store : σ) :
    R store (evaluateArithmetic vars expression store).2 := by
  have hrun : Respects (OnStore R)
      (run vars expression ((tokenize expression).length + 1)) := by
    refine Respects.bind_intro (parseAssign_store hset _) fun v => ?_
    refine Respects.bind_intro peek_store fun kind => ?_
    split
    · exact Respects.bind_intro (fail_store _ _) fun _ => Respects.pure_intro _
    · exact Respects.pure_intro _
  exact hrun { tokens := tokenize expression, store }

end

end Haisos.Hsh.Arithmetic
