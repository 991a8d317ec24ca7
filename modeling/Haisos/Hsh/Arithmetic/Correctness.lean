import Haisos.Hsh.Arithmetic.Agreement

/-!
# Correctness of the arithmetic evaluator

The proof is an induction on the rendering.  At a binary level the left operand
is itself of that level, so what is shown there is that the level's method,
started on the expression, arrives in its own loop with the expression's value
in hand.
-/

namespace Haisos.Hsh.Arithmetic

open StateExcept

section

variable {σ : Type} (vars : Variables σ) (expression : Text)

/-! ## The levels of the descent -/

/-- The method that reads an expression of level `p`. -/
def parseLevel (k f : Nat) : Nat → Parse σ Value
  | 0 => parseAssign vars expression (k + 1)
  | 1 => parseConditional vars expression (parseAssign vars expression k) f
  | 2 => parseLogicalOr vars expression (parseAssign vars expression k) f
  | 3 => parseLogicalAnd vars expression (parseAssign vars expression k) f
  | 4 => parseBitOr vars expression (parseAssign vars expression k) f
  | 5 => parseBitXor vars expression (parseAssign vars expression k) f
  | 6 => parseBitAnd vars expression (parseAssign vars expression k) f
  | 7 => parseEquality vars expression (parseAssign vars expression k) f
  | 8 => parseRelational vars expression (parseAssign vars expression k) f
  | 9 => parseShift vars expression (parseAssign vars expression k) f
  | 10 => parseAdditive vars expression (parseAssign vars expression k) f
  | 11 => parseMultiplicative vars expression (parseAssign vars expression k) f
  | 12 => parseUnary vars expression (parseAssign vars expression k) f
  | _ => parsePrimary vars (expression) (parseAssign vars expression k)

/-- The operators that the loop of level `p` takes. -/
def isLevelOp : Nat → TokenKind → Bool
  | 4 => (· == .or)
  | 5 => (· == .xor)
  | 6 => (· == .and)
  | 7 => isEqualityOp
  | 8 => isRelationalOp
  | 9 => isShiftOp
  | 10 => isAdditiveOp
  | _ => isMultiplicativeOp

def applyLevel : Nat → TokenKind → IntMax → IntMax → Parse σ IntMax
  | 4 => fun _ a b => pure (a ||| b)
  | 5 => fun _ a b => pure (a ^^^ b)
  | 6 => fun _ a b => pure (a &&& b)
  | 7 => fun op a b => pure (applyEquality op a b)
  | 8 => fun op a b => pure (applyRelational op a b)
  | 9 => fun op a b => pure (applyShift op a b)
  | 10 => fun op a b => pure (applyAdditive op a b)
  | _ => applyMultiplicative expression

/-- The loop in which the method of level `p` goes on after its first operand. -/
def levelLoop (k f : Nat) : Nat → Nat → Value → Parse σ Value
  | 2 => logicalLoop .orOr (fun l => l == 0) (fun l r => l != 0 || r != 0)
      (parseLevel vars expression k f 3)
  | 3 => logicalLoop .andAnd (fun l => l != 0) (fun l r => l != 0 && r != 0)
      (parseLevel vars expression k f 4)
  | p => binaryLoop (isLevelOp p) (applyLevel expression p) (parseLevel vars expression k f (p + 1))

theorem parseLevel_eq_loop (k f : Nat) {p : Nat} (hlow : 2 ≤ p) (hhigh : p ≤ 11) :
    parseLevel vars expression k f p =
      parseLevel vars expression k f (p + 1) >>= levelLoop vars expression k f p f := by
  interval_cases p <;> rfl

/-- The level of the operator a token kind stands for, between two operands. -/
def operatorLevel : TokenKind → Option Nat
  | .question => some 1
  | .orOr => some 2
  | .andAnd => some 3
  | .or => some 4
  | .xor => some 5
  | .and => some 6
  | .eqEq | .notEq => some 7
  | .lt | .le | .gt | .ge => some 8
  | .shl | .shr => some 9
  | .plus | .minus => some 10
  | .star | .slash | .percent => some 11
  | _ => none

/-- No method of level `p` or tighter goes on at the token kind. -/
structure Stops (p : Nat) (kind : TokenKind) : Prop where
  notAssign : isAssignOp kind = false
  looser : ∀ l, operatorLevel kind = some l → l < p

theorem Stops.mono {p q : Nat} {kind : TokenKind} (h : Stops p kind) (hpq : p ≤ q) :
    Stops q kind :=
  ⟨h.notAssign, fun l hl => lt_of_lt_of_le (h.looser l hl) hpq⟩

theorem stops_of_operatorLevel {p l : Nat} {kind : TokenKind} (h : operatorLevel kind = some l)
    (hl : l < p) : Stops p kind := by
  constructor
  · cases kind <;> first | rfl | cases h
  · intro l' hl'
    rw [h] at hl'
    cases hl'
    exact hl

theorem exec_levelLoop_stops (k f : Nat) {p : Nat} (hlow : 2 ≤ p) (hhigh : p ≤ 11) {m : Nat}
    (hm : 0 < m) (v : Value) (s : State σ)
    (hstop : operatorLevel (headKind s.tokens) ≠ some p) :
    exec (levelLoop vars expression k f p m v) s = (.ok v, s) := by
  obtain ⟨m, rfl⟩ := Nat.exists_eq_succ_of_ne_zero hm.ne'
  interval_cases p <;> simp only [levelLoop, logicalLoop, binaryLoop, isLevelOp] <;>
    rw [exec_bind_ok (exec_peek s)] <;> rw [if_neg ?_, exec_pure] <;>
    generalize headKind s.tokens = kind at hstop <;> cases kind <;>
    first | (exact absurd rfl hstop) | decide

/-! ## What a method does on an expression -/

/--
The ways a run over the tokens of `e` may end: with a value that the reference
has, with the fault the reference has, or, where the expression is not
evaluated, with any value and nothing done.
-/
inductive Outcome (e : Expr) (rest : List Token) :
    Bool → σ → Except Failure Value × State σ → Prop
  | skipped (v : Value) (s : σ) : Outcome e rest false s (.ok v, ⟨rest, false, s⟩)
  | value (v : Value) {s s' : σ} : reference vars e s = (.ok v.value.toInt, s') →
      Outcome e rest true s (.ok v, ⟨rest, true, s'⟩)
  | fault {f : Fault} {s : σ} {t : State σ} : reference vars e s = (.error f, t.store) →
      Outcome e rest true s (.error (.shellError (f.message expression)), t)

def Delivers (m : Parse σ Value) (e : Expr) (tokens rest : List Token) : Prop :=
  ∀ evaluating s, Outcome vars expression e rest evaluating s (exec m ⟨tokens, evaluating, s⟩)

/-- What remains of a run when the value at hand is given to `f`. -/
def resume (f : Value → Parse σ Value) : Except Failure Value × State σ → Except Failure Value × State σ
  | (.ok v, s) => exec (f v) s
  | (.error e, s) => (.error e, s)

theorem exec_bind_resume (m : Parse σ Value) (f : Value → Parse σ Value) (s : State σ) :
    exec (m >>= f) s = resume f (exec m s) := by
  rw [exec_bind]
  rcases exec m s with ⟨_ | _, _⟩ <;> rfl

/-- The method arrives in the loop of level `p` with the value of `e`. -/
def Arrives (k f p : Nat) (e : Expr) (tokens rest : List Token) : Prop :=
  ∀ evaluating s, ∃ m out, rest.length < m ∧ Outcome vars expression e rest evaluating s out ∧
    exec (parseLevel vars expression k f p) ⟨tokens, evaluating, s⟩ =
      resume (levelLoop vars expression k f p m) out

structure Enough (k f : Nat) (tokens : List Token) : Prop where
  assign : tokens.length ≤ k
  loops : tokens.length < f

theorem Enough.mono {k f : Nat} {tokens tokens' : List Token} (h : Enough k f tokens)
    (hlen : tokens'.length ≤ tokens.length) : Enough k f tokens' :=
  ⟨hlen.trans h.assign, lt_of_le_of_lt hlen h.loops⟩

/-! ## Handing a tighter expression through -/

variable {vars expression}

theorem exec_level_down_one {k f p : Nat} (hlow : 1 ≤ p) (hhigh : p ≤ 11) (hf : 0 < f)
    {s : State σ}
    (hstop : ∀ v t, exec (parseLevel vars expression k f (p + 1)) s = (.ok v, t) →
      operatorLevel (headKind t.tokens) ≠ some p) :
    exec (parseLevel vars expression k f p) s =
      exec (parseLevel vars expression k f (p + 1)) s := by
  obtain rfl | hlow := Nat.eq_or_lt_of_le hlow
  · change exec (parseLogicalOr vars expression (parseAssign vars expression k) f >>= _) s =
      exec (parseLogicalOr vars expression (parseAssign vars expression k) f) s
    rw [exec_bind]
    rcases h : exec (parseLogicalOr vars expression (parseAssign vars expression k) f) s with
      ⟨_ | v, t⟩
    · rfl
    · have hstop := hstop v t h
      dsimp only
      rw [exec_bind_ok (exec_peek t), if_pos, exec_pure]
      intro hkind
      rw [hkind] at hstop
      exact hstop rfl
  · rw [parseLevel_eq_loop vars expression k f hlow hhigh, exec_bind_resume]
    rcases h : exec (parseLevel vars expression k f (p + 1)) s with ⟨_ | v, t⟩
    · rfl
    · exact exec_levelLoop_stops vars expression k f hlow hhigh hf v t (hstop v t h)

theorem exec_level_down {k f p q : Nat} (hlow : 1 ≤ p) (hpq : p ≤ q) (hhigh : q ≤ 12) (hf : 0 < f)
    {s : State σ}
    (hstop : ∀ v t, exec (parseLevel vars expression k f q) s = (.ok v, t) →
      ∀ l, operatorLevel (headKind t.tokens) = some l → l < p) :
    exec (parseLevel vars expression k f p) s = exec (parseLevel vars expression k f q) s := by
  induction q, hpq using Nat.le_induction with
  | base => rfl
  | succ q hpq ih =>
      have hone : exec (parseLevel vars expression k f q) s =
          exec (parseLevel vars expression k f (q + 1)) s :=
        exec_level_down_one (by omega) (by omega) hf fun v t h hl =>
          absurd (hstop v t h q hl) (by omega)
      rw [← hone]
      exact ih (by omega) fun v t h => hstop v t (hone ▸ h)

def isUnaryOp (kind : TokenKind) : Bool :=
  kind == .plus || kind == .minus || kind == .tilde || kind == .not

theorem exec_unary_primary {k f p : Nat} (hf : 0 < f) (hp : 13 ≤ p) {s : State σ}
    (h : isUnaryOp (headKind s.tokens) = false) :
    exec (parseLevel vars expression k f 12) s = exec (parseLevel vars expression k f p) s := by
  obtain ⟨f, rfl⟩ := Nat.exists_eq_succ_of_ne_zero hf.ne'
  obtain ⟨p, rfl⟩ := Nat.exists_eq_add_of_le' hp
  simp only [parseLevel, parseUnary]
  rw [exec_bind_ok (exec_peek s)]
  cases hkind : headKind s.tokens <;> rw [hkind] at h <;> first | rfl | cases h

theorem exec_assign_conditional {k f : Nat} {s : State σ}
    (hstop : ∀ v t, exec (parseLevel vars expression k (k + 1) 1) s = (.ok v, t) →
      isAssignOp (headKind t.tokens) = false) :
    exec (parseLevel vars expression k f 0) s = exec (parseLevel vars expression k (k + 1) 1) s := by
  change exec (parseConditional vars expression (parseAssign vars expression k) (k + 1) >>= _) s =
    exec (parseConditional vars expression (parseAssign vars expression k) (k + 1)) s
  rw [exec_bind]
  rcases h : exec (parseConditional vars expression (parseAssign vars expression k) (k + 1)) s with
    ⟨_ | v, t⟩
  · rfl
  · have hstop := hstop v t h
    simp only
    rw [exec_bind_ok (exec_peek t), if_pos (by simp [hstop]), exec_pure]

theorem Outcome.tokens_of_ok {e : Expr} {rest : List Token} {evaluating : Bool} {s : σ}
    {v : Value} {t : State σ} (h : Outcome vars expression e rest evaluating s (.ok v, t)) :
    t.tokens = rest := by
  cases h <;> rfl

variable (vars expression) in
/-- The methods of level `p` read a rendering of `e`, whatever comes after it. -/
def Reads (p : Nat) (e : Expr) (ts : List Lexeme) : Prop :=
  ∀ rest k f, Enough k f (ts.map Lexeme.token ++ rest) →
    (Stops p (headKind rest) →
      Delivers vars expression (parseLevel vars expression k f p) e
        (ts.map Lexeme.token ++ rest) rest) ∧
    (2 ≤ p → p ≤ 11 → Stops (p + 1) (headKind rest) →
      Arrives vars expression k f p e (ts.map Lexeme.token ++ rest) rest)

theorem Reads.delivers {p : Nat} {e : Expr} {ts : List Lexeme} (h : Reads vars expression p e ts)
    {rest : List Token} {k f : Nat} (henough : Enough k f (ts.map Lexeme.token ++ rest))
    (hstop : Stops p (headKind rest)) :
    Delivers vars expression (parseLevel vars expression k f p) e
      (ts.map Lexeme.token ++ rest) rest :=
  (h rest k f henough).1 hstop

theorem delivers_down {k f p q : Nat} {e : Expr} {tokens rest : List Token} (hlow : 1 ≤ p)
    (hpq : p ≤ q) (hhigh : q ≤ 12) (hf : 0 < f) (hstop : Stops p (headKind rest))
    (h : Delivers vars expression (parseLevel vars expression k f q) e tokens rest) :
    Delivers vars expression (parseLevel vars expression k f p) e tokens rest := by
  intro evaluating s
  have hout := h evaluating s
  rw [exec_level_down hlow hpq hhigh hf]
  · exact hout
  · intro v t hrun
    rw [hrun] at hout
    rw [hout.tokens_of_ok]
    exact hstop.looser

theorem delivers_assign {k f : Nat} {e : Expr} {tokens rest : List Token}
    (hstop : Stops 0 (headKind rest))
    (h : Delivers vars expression (parseLevel vars expression k (k + 1) 1) e tokens rest) :
    Delivers vars expression (parseLevel vars expression k f 0) e tokens rest := by
  intro evaluating s
  have hout := h evaluating s
  rw [exec_assign_conditional]
  · exact hout
  · intro v t hrun
    rw [hrun] at hout
    rw [hout.tokens_of_ok]
    exact hstop.notAssign

theorem arrives_of_delivers {k f p : Nat} {e : Expr} {tokens rest : List Token} (hlow : 2 ≤ p)
    (hhigh : p ≤ 11) (hf : rest.length < f)
    (h : Delivers vars expression (parseLevel vars expression k f (p + 1)) e tokens rest) :
    Arrives vars expression k f p e tokens rest := by
  intro evaluating s
  refine ⟨f, _, hf, h evaluating s, ?_⟩
  rw [parseLevel_eq_loop vars expression k f hlow hhigh, exec_bind_resume]

/-- What is read at level `q` is read at every looser level. -/
theorem Reads.down {p q : Nat} {e : Expr} {ts : List Lexeme} (h : Reads vars expression q e ts)
    (hq : q ≤ 12) (hpq : p ≤ q) : Reads vars expression p e ts := by
  intro rest k f henough
  have hrest : rest.length < f := by
    have := henough.loops
    simp only [List.length_append, List.length_map] at this
    omega
  refine ⟨fun hstop => ?_, fun hlow hhigh hstop => ?_⟩
  · rcases Nat.eq_zero_or_pos p with rfl | hlow
    · rcases Nat.eq_zero_or_pos q with rfl | hq'
      · exact h.delivers henough hstop
      · have henough' : Enough k (k + 1) (ts.map Lexeme.token ++ rest) :=
          ⟨henough.assign, Nat.lt_succ_of_le henough.assign⟩
        refine delivers_assign hstop (delivers_down le_rfl hq' hq k.succ_pos
          (hstop.mono (Nat.zero_le 1)) (h.delivers henough' (hstop.mono hpq)))
    · exact delivers_down hlow hpq hq (by omega) hstop (h.delivers henough (hstop.mono hpq))
  · obtain rfl | hlt := Nat.eq_or_lt_of_le hpq
    · exact (h rest k f henough).2 hlow hhigh hstop
    · exact arrives_of_delivers hlow hhigh hrest
        (delivers_down (by omega) hlt hq (by omega) hstop (h.delivers henough (hstop.mono hlt)))

/-! ## Primaries and unary operators -/

theorem not_unary_of_startsOperand {a : Lexeme} (h : ∀ op, a = .op op → op = .lParen) :
    isUnaryOp a.token.kind = false := by
  cases a with
  | literal l => rfl
  | name n => rfl
  | op kind =>
      cases h kind rfl
      rfl

theorem reads_of_primary {e : Expr} (a : Lexeme) (ts : List Lexeme)
    (hhead : ∀ op, a = .op op → op = .lParen)
    (h : ∀ rest k f, Enough k f ((a :: ts).map Lexeme.token ++ rest) →
      isAssignOp (headKind rest) = false →
      Delivers vars expression (parseLevel vars expression k f 13) e
        ((a :: ts).map Lexeme.token ++ rest) rest) (p : Nat) :
    Reads vars expression p e (a :: ts) := by
  by_cases hp : 13 ≤ p
  · obtain ⟨p, rfl⟩ := Nat.exists_eq_add_of_le' hp
    exact fun rest k f henough => ⟨fun hstop => h rest k f henough hstop.notAssign,
      fun _ hhigh => absurd hhigh (by omega)⟩
  · have htwelve : Reads vars expression 12 e (a :: ts) := by
      refine fun rest k f henough => ⟨fun hstop evaluating s => ?_, fun _ hhigh =>
        absurd hhigh (by omega)⟩
      have hf : 0 < f := Nat.zero_lt_of_lt henough.loops
      have hprimary : exec (parseLevel vars expression k f 12)
          ⟨(a :: ts).map Lexeme.token ++ rest, evaluating, s⟩ = _ :=
        exec_unary_primary hf le_rfl (not_unary_of_startsOperand hhead)
      rw [hprimary]
      exact h rest k f henough hstop.notAssign evaluating s
    exact htwelve.down le_rfl (by omega)

theorem reads_literal (l : Literal) (p : Nat) :
    Reads vars expression p (.literal l) [.literal l] := by
  refine reads_of_primary _ _ (by simp) (fun rest k f _ _ evaluating s => ?_) p
  cases evaluating with
  | false => exact .skipped _ s
  | true =>
      refine .value _ ?_
      rw [reference]
      exact congrArg (fun i => (Except.ok i, s)) (toInt_literal l).symm

variable (expression) in
theorem variableNumber_eq (stored : Option Text) :
    variableNumber stored =
      match storedNumber stored with
      | .ok i => .ok (BitVec.ofInt 64 i)
      | .error f => .error (.shellError (f.message expression)) := by
  rcases stored with _ | _ | ⟨c, tail⟩
  · rfl
  · rfl
  · simp only [variableNumber, storedNumber]
    rcases strtoimax (c :: tail) with _ | ⟨number, rest⟩
    · rfl
    · simp only
      split_ifs <;> rfl

theorem toInt_storedNumber {stored : Option Text} {i : Int} (h : storedNumber stored = .ok i) :
    (BitVec.ofInt 64 i).toInt = i := by
  rcases stored with _ | _ | ⟨c, tail⟩
  · cases h
    rfl
  · cases h
    rfl
  · simp only [storedNumber] at h
    cases hnumber : strtoimax (c :: tail) with
    | none => simp [hnumber] at h
    | some parsed =>
        obtain ⟨number, rest⟩ := parsed
        simp only [hnumber] at h
        split_ifs at h
        cases h
        obtain ⟨hmin, hmax⟩ := strtoimax_mem hnumber
        exact ofInt_toInt_of_mem hmin hmax

theorem exec_variableValue_skipped (name : Text) (tokens : List Token) (s : σ) :
    exec (variableValue vars name) ⟨tokens, false, s⟩ = (.ok 0, ⟨tokens, false, s⟩) := rfl

theorem exec_variableValue (name : Text) (tokens : List Token) (s : σ) :
    exec (variableValue vars name) ⟨tokens, true, s⟩ =
      (variableNumber (vars.get s name), ⟨tokens, true, s⟩) := by
  simp only [variableValue]
  rw [exec_bind_ok (exec_evaluating _), if_neg (by simp), exec_bind_ok (exec_get _)]
  cases variableNumber (vars.get s name) <;> rfl

theorem reads_var (name : Name) (p : Nat) :
    Reads vars expression p (.var name) [.name name] := by
  refine reads_of_primary _ _ (by simp) (fun rest k f _ hassign evaluating s => ?_) p
  change Outcome vars expression _ rest evaluating s
    (exec (parsePrimary vars expression _)
      ⟨{ kind := .name, name := name.val } :: rest, evaluating, s⟩)
  simp only [parsePrimary]
  rw [exec_bind_ok (exec_peek _)]
  simp only [headKind]
  rw [exec_bind_ok (exec_next _ _ _ _), exec_bind_ok (exec_peek _), if_neg (by simp [hassign])]
  cases evaluating with
  | false =>
      rw [exec_bind_ok (exec_variableValue_skipped _ _ _)]
      exact .skipped _ s
  | true =>
      cases hnumber : storedNumber (vars.get s name) with
      | ok i =>
          rw [exec_bind, exec_variableValue, variableNumber_eq expression, hnumber]
          exact .value _ (by rw [reference, hnumber, toInt_storedNumber hnumber])
      | error f =>
          rw [exec_bind, exec_variableValue, variableNumber_eq expression, hnumber]
          exact .fault (by rw [reference, hnumber])

def UnaryOp.onWord : UnaryOp → IntMax → IntMax
  | .plus => id
  | .minus => neg
  | .complement => bitNot
  | .not => fun a => ofBool (a == 0)

theorem UnaryOp.toInt_onWord (op : UnaryOp) (a : IntMax) :
    (op.onWord a).toInt = op.apply a.toInt := by
  cases op with
  | plus => rfl
  | minus => exact toInt_neg a
  | complement => exact toInt_bitNot a
  | not =>
      change (ofBool (a == 0)).toInt = _
      rw [beq_eq_decide, toInt_ofBool]
      simp [UnaryOp.apply, truth, toInt_eq_zero]

def UnaryOp.finish (op : UnaryOp) (v : Value) : Parse σ Value :=
  match op with
  | .plus => pure v
  | .minus | .complement | .not => mapped v op.onWord

theorem exec_parseUnary_op (op : UnaryOp) {k f : Nat} {tokens : List Token} {evaluating : Bool}
    {s : σ} :
    exec (parseLevel vars expression k (f + 1) 12)
        ⟨(Lexeme.op op.kind).token :: tokens, evaluating, s⟩ =
      resume op.finish (exec (parseLevel vars expression k f 12) ⟨tokens, evaluating, s⟩) := by
  cases op with
  | plus =>
      change exec (parseLevel vars expression k f 12) ⟨tokens, evaluating, s⟩ = _
      rcases exec (parseLevel vars expression k f 12) ⟨tokens, evaluating, s⟩ with ⟨_ | _, _⟩ <;>
        rfl
  | minus | complement | not => exact exec_bind_resume _ _ _

theorem reads_unary {op : UnaryOp} {e : Expr} {ts : List Lexeme}
    (ih : Reads vars expression 12 e ts) :
    Reads vars expression 12 (.unary op e) (.op op.kind :: ts) := by
  refine fun rest k f henough => ⟨fun hstop evaluating s => ?_, fun _ hhigh =>
    absurd hhigh (by omega)⟩
  obtain ⟨f, rfl⟩ := Nat.exists_eq_add_of_le' (Nat.zero_lt_of_lt henough.loops)
  have henough' : Enough k f (ts.map Lexeme.token ++ rest) := by
    obtain ⟨hassign, hloops⟩ := henough
    simp only [List.map_cons, List.cons_append, List.length_cons] at hassign hloops
    exact ⟨by omega, by omega⟩
  have hout := ih.delivers henough' hstop evaluating s
  rw [List.map_cons, List.cons_append, exec_parseUnary_op]
  generalize exec (parseLevel vars expression k f 12) _ = out at hout
  cases hout with
  | skipped v s => cases op <;> exact .skipped _ s
  | fault h => exact .fault (by rw [reference, h, andThen])
  | value v h =>
      rename_i s'
      have hreference : reference vars (.unary op e) s = (.ok (op.onWord v.value).toInt, s') := by
        rw [reference, h, andThen, op.toInt_onWord]
      cases op <;> exact .value _ hreference

theorem stops_of_none {p : Nat} {kind : TokenKind} (hassign : isAssignOp kind = false)
    (hlevel : operatorLevel kind = none) : Stops p kind :=
  ⟨hassign, fun l h => by rw [hlevel] at h; cases h⟩

theorem Reads.delivers_parseAssign {e : Expr} {ts : List Lexeme} (h : Reads vars expression 0 e ts)
    (rest : List Token) {k : Nat} (hlen : (ts.map Lexeme.token ++ rest).length < k)
    (hstop : Stops 0 (headKind rest)) :
    Delivers vars expression (parseAssign vars expression k) e (ts.map Lexeme.token ++ rest)
      rest := by
  obtain ⟨k, rfl⟩ := Nat.exists_eq_add_of_le' (Nat.zero_lt_of_lt hlen)
  exact h.delivers (f := k + 1) ⟨by omega, hlen⟩ hstop

theorem reads_paren {e : Expr} {ts : List Lexeme} (ih : Reads vars expression 0 e ts) (p : Nat) :
    Reads vars expression p e (.op .lParen :: ts ++ [.op .rParen]) := by
  refine reads_of_primary (.op .lParen) (ts ++ [.op .rParen]) (fun op h => by cases h; rfl)
    (fun rest k f henough _ evaluating s => ?_) p
  have hlen := henough.assign
  simp only [List.map_cons, List.map_append, List.map_nil, List.cons_append, List.append_assoc,
    List.nil_append, List.length_cons] at hlen ⊢
  have hout := ih.delivers_parseAssign ((Lexeme.op .rParen).token :: rest) (k := k)
    (by omega) (stops_of_none rfl rfl) evaluating s
  change Outcome vars expression e rest evaluating s (exec (parseAssign vars expression k >>= _)
    ⟨ts.map Lexeme.token ++ (Lexeme.op .rParen).token :: rest, evaluating, s⟩)
  rw [exec_bind]
  generalize exec (parseAssign vars expression k) _ = out at hout
  cases hout with
  | skipped v s => exact .skipped _ s
  | value v h => exact .value _ h
  | fault h => exact .fault h

/-! ## Binary operators -/

theorem exec_binaryLoop_op {isOp : TokenKind → Bool}
    {apply : TokenKind → IntMax → IntMax → Parse σ IntMax} {operand : Parse σ Value} {m : Nat}
    {lhs : Value} {op : Token} {tokens : List Token} {evaluating : Bool} {s : σ}
    (h : isOp op.kind = true) :
    exec (binaryLoop isOp apply operand (m + 1) lhs) ⟨op :: tokens, evaluating, s⟩ =
      resume (fun rhs => do
        let value ← if ← Arithmetic.evaluating then apply op.kind lhs.value rhs.value else pure 0
        binaryLoop isOp apply operand m { value })
        (exec operand ⟨tokens, evaluating, s⟩) := by
  simp only [binaryLoop]
  rw [exec_bind_ok (exec_peek _)]
  simp only [headKind, h, ↓reduceIte]
  rw [exec_bind_ok (exec_next _ _ _ _), exec_bind_resume]

def BinaryOp.onWord : BinaryOp → IntMax → IntMax → IntMax
  | .mul => Arithmetic.mul
  | .div => Arithmetic.div
  | .mod => Arithmetic.mod
  | .add => Arithmetic.add
  | .sub => Arithmetic.sub
  | .shl => shiftLeft
  | .shr => shiftRight
  | .lt => fun a b => ofBool (a.slt b)
  | .le => fun a b => ofBool (a.sle b)
  | .gt => fun a b => ofBool (b.slt a)
  | .ge => fun a b => ofBool (b.sle a)
  | .eq => fun a b => ofBool (a == b)
  | .ne => fun a b => ofBool (a != b)
  | .bitAnd => (· &&& ·)
  | .bitXor => (· ^^^ ·)
  | .bitOr => (· ||| ·)

def BinaryOp.divides (op : BinaryOp) : Bool := op == .div || op == .mod

theorem BinaryOp.apply_toInt (op : BinaryOp) (a b : IntMax) :
    op.apply a.toInt b.toInt =
      if op.divides && b == 0 then .error .divisionByZero else .ok (op.onWord a b).toInt := by
  have hzero : (b == 0) = decide (b.toInt = 0) := by
    rw [beq_eq_decide]
    exact decide_eq_decide.mpr toInt_eq_zero.symm
  have heq : (a.toInt = b.toInt) = (a = b) := propext BitVec.toInt_inj
  rw [hzero]
  cases op with
  | mul => exact congrArg Except.ok (toInt_mul a b).symm
  | div => simp only [apply, divides, onWord, toInt_div]; simp
  | mod => simp only [apply, divides, onWord, toInt_mod]; simp
  | add => exact congrArg Except.ok (toInt_add a b).symm
  | sub => exact congrArg Except.ok (toInt_sub a b).symm
  | shl => exact congrArg Except.ok (toInt_shiftLeft a b).symm
  | shr => exact congrArg Except.ok (toInt_shiftRight a b).symm
  | lt => exact congrArg Except.ok (toInt_ofBool _).symm
  | le => exact congrArg Except.ok (toInt_ofBool _).symm
  | gt => exact congrArg Except.ok (toInt_ofBool _).symm
  | ge => exact congrArg Except.ok (toInt_ofBool _).symm
  | eq => simp only [apply, onWord, beq_eq_decide, toInt_ofBool, heq]; rfl
  | ne =>
      simp only [apply, onWord, bne, beq_eq_decide, ← decide_not, toInt_ofBool]
      simp only [ne_eq, heq]
      rfl
  | bitAnd => exact congrArg Except.ok (bitwise_toInt _ a b).symm
  | bitXor => exact congrArg Except.ok (bitwise_toInt _ a b).symm
  | bitOr => exact congrArg Except.ok (bitwise_toInt _ a b).symm

theorem exec_applyLevel (op : BinaryOp) (a b : IntMax) (s : State σ) :
    exec (applyLevel (σ := σ) expression op.level op.kind a b) s =
      if op.divides && b == 0 then
        (.error (.shellError (Fault.divisionByZero.message expression)), s)
      else (.ok (op.onWord a b), s) := by
  cases op with
  | div | mod =>
      change exec (applyMultiplicative expression _ a b) s = _
      unfold applyMultiplicative
      cases b == 0 <;> rfl
  | eq =>
      change (Except.ok (ofBool ((a == b) == true)), s) = (Except.ok (ofBool (a == b)), s)
      rw [beq_true]
  | ne =>
      change (Except.ok (ofBool ((a == b) == false)), s) = (Except.ok (ofBool (!(a == b))), s)
      rw [beq_false]
  | _ => rfl

theorem levelLoop_binary (k f : Nat) (op : BinaryOp) :
    levelLoop vars expression k f op.level =
      binaryLoop (isLevelOp op.level) (applyLevel expression op.level)
        (parseLevel vars expression k f (op.level + 1)) := by
  cases op <;> rfl

theorem Arrives.delivers {k f p : Nat} {e : Expr} {tokens rest : List Token} (hlow : 2 ≤ p)
    (hhigh : p ≤ 11) (hstop : Stops p (headKind rest))
    (h : Arrives vars expression k f p e tokens rest) :
    Delivers vars expression (parseLevel vars expression k f p) e tokens rest := by
  intro evaluating s
  obtain ⟨m, out, hm, hout, hrun⟩ := h evaluating s
  have hne : operatorLevel (headKind rest) ≠ some p :=
    fun hl => absurd (hstop.looser p hl) (lt_irrefl p)
  rw [hrun]
  cases hout with
  | skipped v s =>
      rw [resume, exec_levelLoop_stops vars expression k f hlow hhigh (by omega) v _ hne]
      exact .skipped v s
  | value v h =>
      rw [resume, exec_levelLoop_stops vars expression k f hlow hhigh (by omega) v _ hne]
      exact .value v h
  | fault h => exact .fault h

theorem reads_of_arrives {p : Nat} {e : Expr} {ts : List Lexeme} (hlow : 2 ≤ p) (hhigh : p ≤ 11)
    (h : ∀ rest k f, Enough k f (ts.map Lexeme.token ++ rest) → Stops (p + 1) (headKind rest) →
      Arrives vars expression k f p e (ts.map Lexeme.token ++ rest) rest) :
    Reads vars expression p e ts :=
  fun rest k f henough =>
    ⟨fun hstop => (h rest k f henough (hstop.mono p.le_succ)).delivers hlow hhigh hstop,
      fun _ _ hstop => h rest k f henough hstop⟩

theorem BinaryOp.stops (op : BinaryOp) : Stops (op.level + 1) op.kind :=
  stops_of_operatorLevel (l := op.level) (by cases op <;> rfl) (Nat.lt_succ_self _)

theorem Enough.operand {k f : Nat} {ts us : List Lexeme} {op : Lexeme} {rest : List Token}
    (h : Enough k f ((ts ++ op :: us).map Lexeme.token ++ rest)) :
    Enough k f (ts.map Lexeme.token ++ op.token :: (us.map Lexeme.token ++ rest)) ∧
      Enough k f (us.map Lexeme.token ++ rest) := by
  constructor <;> refine h.mono ?_ <;>
    simp only [List.map_append, List.map_cons, List.length_append, List.length_cons] <;> omega

theorem reads_binary {op : BinaryOp} {l r : Expr} {ts us : List Lexeme}
    (ihl : Reads vars expression op.level l ts)
    (ihr : Reads vars expression (op.level + 1) r us) :
    Reads vars expression op.level (.binary op l r) (ts ++ .op op.kind :: us) := by
  have hlow : 2 ≤ op.level := by cases op <;> decide
  have hhigh : op.level ≤ 11 := by cases op <;> decide
  refine reads_of_arrives hlow hhigh fun rest k f henough hstop evaluating s => ?_
  obtain ⟨hleft, hright⟩ := henough.operand
  obtain ⟨m, out, hm, hout, hrun⟩ := (ihl _ k f hleft).2 hlow hhigh op.stops evaluating s
  rw [List.map_append, List.map_cons, List.append_assoc, List.cons_append]
  obtain ⟨m, rfl⟩ := Nat.exists_eq_add_of_le' (Nat.zero_lt_of_lt hm)
  have hm' : rest.length < m := by
    simp only [List.length_cons, List.length_append] at hm
    omega
  have hop : isLevelOp op.level (Lexeme.op op.kind).token.kind = true := by cases op <;> rfl
  cases hout with
  | skipped v s =>
      have hoperand := ihr.delivers hright hstop false s
      rw [levelLoop_binary, resume, exec_binaryLoop_op hop, ← levelLoop_binary] at hrun
      generalize exec (parseLevel vars expression k f (op.level + 1)) _ = out at hoperand hrun
      cases hoperand with
      | skipped w s => exact ⟨m, _, hm', .skipped _ s, hrun⟩
  | fault h => exact ⟨m, _, hm', .fault (by rw [reference, h, andThen]), hrun⟩
  | value v h =>
      rename_i s'
      have hoperand := ihr.delivers hright hstop true s'
      rw [levelLoop_binary, resume, exec_binaryLoop_op hop, ← levelLoop_binary] at hrun
      generalize exec (parseLevel vars expression k f (op.level + 1)) _ = out at hoperand hrun
      cases hoperand with
      | fault h' => exact ⟨m, _, hm', .fault (by rw [reference, h, andThen, h', andThen]), hrun⟩
      | value w h' =>
          rename_i s''
          have hreference : reference vars (.binary op l r) s =
              (op.apply v.value.toInt w.value.toInt, s'') := by rw [reference, h, andThen, h', andThen]
          rw [op.apply_toInt] at hreference
          rw [resume, exec_bind_ok (exec_evaluating _), if_pos rfl, exec_bind] at hrun
          simp only [Lexeme.token, exec_applyLevel] at hrun
          split_ifs at hreference hrun
          · exact ⟨m, _, hm', .fault hreference, hrun⟩
          · exact ⟨m, _, hm', .value { value := op.onWord v.value w.value } hreference, hrun⟩

/-! ## `&&` and `||` -/

theorem exec_logicalLoop_op {op : TokenKind} {goesOn : IntMax → Bool}
    {combine : IntMax → IntMax → Bool} {operand : Parse σ Value} {m : Nat} {lhs : Value}
    {tokens : List Token} {evaluating : Bool} {s : σ} :
    exec (logicalLoop op goesOn combine operand (m + 1) lhs)
        ⟨(Lexeme.op op).token :: tokens, evaluating, s⟩ =
      resume (fun rhs => logicalLoop op goesOn combine operand m
          { value := ofBool (evaluating && combine lhs.value rhs.value) })
        (exec (withEvaluation (evaluating && goesOn lhs.value) operand)
          ⟨tokens, evaluating, s⟩) := by
  simp only [logicalLoop]
  rw [exec_bind_ok (exec_peek _)]
  simp only [headKind, Lexeme.token, ↓reduceIte]
  rw [exec_bind_ok (exec_next _ _ _ _), exec_bind_ok (exec_evaluating _), exec_bind_resume]

theorem Outcome.withEvaluation {m : Parse σ Value} {e : Expr} {tokens rest : List Token}
    (h : Delivers vars expression m e tokens rest) (evaluate evaluating : Bool) (s : σ) :
    (∃ v, evaluate = false ∧
      exec (withEvaluation evaluate m) ⟨tokens, evaluating, s⟩ = (.ok v, ⟨rest, evaluating, s⟩)) ∨
    (∃ v s', evaluate = true ∧ reference vars e s = (.ok v.value.toInt, s') ∧
      exec (withEvaluation evaluate m) ⟨tokens, evaluating, s⟩ = (.ok v, ⟨rest, evaluating, s'⟩)) ∨
    (∃ f t, evaluate = true ∧ reference vars e s = (.error f, t.store) ∧
      exec (withEvaluation evaluate m) ⟨tokens, evaluating, s⟩ =
        (.error (.shellError (f.message expression)), t)) := by
  have hout := h evaluate s
  rw [exec_withEvaluation]
  generalize exec m _ = out at hout
  cases hout with
  | skipped v s => exact .inl ⟨v, rfl, rfl⟩
  | value v h => exact .inr (.inl ⟨v, _, rfl, h, rfl⟩)
  | @fault f s t h => exact .inr (.inr ⟨f, { t with evaluating }, rfl, h, rfl⟩)

variable (vars) in
/-- The reference on `e` is that of a short-circuit operator on `l` and `r`. -/
structure ShortCircuit (goesOn : IntMax → Bool) (combine : IntMax → IntMax → Bool)
    (e l r : Expr) : Prop where
  left : ∀ {s s' f}, reference vars l s = (.error f, s') → reference vars e s = (.error f, s')
  stop : ∀ {s s' a} (w), reference vars l s = (.ok a.toInt, s') → goesOn a = false →
    reference vars e s = (.ok (ofBool (combine a w)).toInt, s')
  go : ∀ {s s' s'' a w}, reference vars l s = (.ok a.toInt, s') → goesOn a = true →
    reference vars r s' = (.ok w.toInt, s'') →
    reference vars e s = (.ok (ofBool (combine a w)).toInt, s'')
  right : ∀ {s s' s'' a f}, reference vars l s = (.ok a.toInt, s') → goesOn a = true →
    reference vars r s' = (.error f, s'') → reference vars e s = (.error f, s'')

theorem reads_logical {p : Nat} {op : TokenKind} {goesOn : IntMax → Bool}
    {combine : IntMax → IntMax → Bool} {e l r : Expr} {ts us : List Lexeme} (hlow : 2 ≤ p)
    (hhigh : p ≤ 11)
    (hloop : ∀ k f, levelLoop vars expression k f p =
      logicalLoop op goesOn combine (parseLevel vars expression k f (p + 1)))
    (hop : operatorLevel op = some p) (hcircuit : ShortCircuit vars goesOn combine e l r)
    (ihl : Reads vars expression p l ts) (ihr : Reads vars expression (p + 1) r us) :
    Reads vars expression p e (ts ++ .op op :: us) := by
  refine reads_of_arrives hlow hhigh fun rest k f henough hstop evaluating s => ?_
  obtain ⟨hleft, hright⟩ := henough.operand
  obtain ⟨m, out, hm, hout, hrun⟩ :=
    (ihl _ k f hleft).2 hlow hhigh (stops_of_operatorLevel hop (Nat.lt_succ_self p)) evaluating s
  rw [List.map_append, List.map_cons, List.append_assoc, List.cons_append]
  obtain ⟨m, rfl⟩ := Nat.exists_eq_add_of_le' (Nat.zero_lt_of_lt hm)
  have hm' : rest.length < m := by
    simp only [List.length_cons, List.length_append] at hm
    omega
  have hdelivers := ihr.delivers hright hstop
  cases hout with
  | fault h => exact ⟨m, _, hm', .fault (hcircuit.left h), hrun⟩
  | skipped v s =>
      rw [hloop, resume, exec_logicalLoop_op, ← hloop] at hrun
      rcases Outcome.withEvaluation hdelivers (false && goesOn v.value) false s with
        ⟨w, -, hw⟩ | ⟨w, s', hgo, -⟩ | ⟨f, t, hgo, -⟩
      · rw [hw] at hrun
        exact ⟨m, _, hm', .skipped _ s, hrun⟩
      · cases hgo
      · cases hgo
  | value v h =>
      rename_i s'
      rw [hloop, resume, exec_logicalLoop_op, ← hloop] at hrun
      rcases Outcome.withEvaluation hdelivers (true && goesOn v.value) true s' with
        ⟨w, hgo, hw⟩ | ⟨w, s'', hgo, h', hw⟩ | ⟨f, t, hgo, h', hw⟩
      · rw [hw] at hrun
        exact ⟨m, _, hm', .value _ (hcircuit.stop w.value h hgo), hrun⟩
      · rw [hw] at hrun
        exact ⟨m, _, hm', .value _ (hcircuit.go h hgo h'), hrun⟩
      · rw [hw] at hrun
        exact ⟨m, _, hm', .fault (hcircuit.right h hgo h'), hrun⟩

theorem toInt_ofBool_ne (a : IntMax) : (ofBool (a != 0)).toInt = truth (a.toInt ≠ 0) := by
  rw [bne, beq_eq_decide, ← decide_not, toInt_ofBool]
  simp only [ne_eq, toInt_eq_zero]

theorem reads_logicalAnd {l r : Expr} {ts us : List Lexeme} (ihl : Reads vars expression 3 l ts)
    (ihr : Reads vars expression 4 r us) :
    Reads vars expression 3 (.logicalAnd l r) (ts ++ .op .andAnd :: us) := by
  refine reads_logical (by decide) (by decide) (fun _ _ => rfl) rfl ?_ ihl ihr
  constructor
  · intro s s' f h
    rw [reference, h, andThen]
  · intro s s' a w h hgo
    obtain rfl : a = 0 := by simpa using hgo
    rw [reference, h, andThen]
    rfl
  · intro s s' s'' a w h hgo h'
    have ha : a.toInt ≠ 0 := by simpa [toInt_eq_zero] using hgo
    rw [reference, h, andThen, if_neg ha, h', andThen, hgo, Bool.true_and, toInt_ofBool_ne]
  · intro s s' s'' a f h hgo h'
    have ha : a.toInt ≠ 0 := by simpa [toInt_eq_zero] using hgo
    rw [reference, h, andThen, if_neg ha, h', andThen]

theorem reads_logicalOr {l r : Expr} {ts us : List Lexeme} (ihl : Reads vars expression 2 l ts)
    (ihr : Reads vars expression 3 r us) :
    Reads vars expression 2 (.logicalOr l r) (ts ++ .op .orOr :: us) := by
  refine reads_logical (by decide) (by decide) (fun _ _ => rfl) rfl ?_ ihl ihr
  constructor
  · intro s s' f h
    rw [reference, h, andThen]
  · intro s s' a w h hgo
    have ha : a.toInt ≠ 0 := by simpa [toInt_eq_zero] using hgo
    rw [reference, h, andThen, if_pos ha]
    have hne : (a != 0) = true := by rw [bne, hgo]; rfl
    rw [hne]
    rfl
  · intro s s' s'' a w h hgo h'
    obtain rfl : a = 0 := by simpa using hgo
    rw [reference, h, andThen, if_neg (by simp), h', andThen, ← toInt_ofBool_ne]
    rfl
  · intro s s' s'' a f h hgo h'
    obtain rfl : a = 0 := by simpa using hgo
    rw [reference, h, andThen, if_neg (by simp), h', andThen]

/-! ## `?:` and assignments -/

theorem exec_parseBranches_eq {assign : Parse σ Value} {v w : Value} {tokens ws : List Token}
    {evaluating : Bool} {s s' : σ}
    (hw : exec (withEvaluation (evaluating && v.value != 0) assign) ⟨tokens, evaluating, s⟩ =
      (.ok w, ⟨(Lexeme.op .colon).token :: ws, evaluating, s'⟩)) :
    exec (parseBranches expression assign v) ⟨tokens, evaluating, s⟩ =
      resume (fun u => pure (if evaluating then
          { value := if v.value != 0 then w.value else u.value } else {}))
        (exec (withEvaluation (evaluating && v.value == 0) assign) ⟨ws, evaluating, s'⟩) := by
  unfold parseBranches
  rw [exec_bind_ok (exec_evaluating _)]
  simp only
  rw [exec_bind_ok hw, exec_bind_ok (exec_peek _)]
  simp only [headKind, Lexeme.token, ne_eq, not_true_eq_false, if_false]
  rw [exec_bind_ok (exec_next _ _ _ _), exec_bind_resume]
  cases evaluating <;> rfl

theorem outcome_parseBranches {assign : Parse σ Value} {c t e : Expr} {us ws rest : List Token}
    (hthen : Delivers vars expression assign t (us ++ (Lexeme.op .colon).token :: ws)
      ((Lexeme.op .colon).token :: ws))
    (helse : Delivers vars expression assign e ws rest) {v : Value} {evaluating : Bool} {s s' : σ}
    (hcondition : Outcome vars expression c (us ++ (Lexeme.op .colon).token :: ws) evaluating s
      (.ok v, ⟨us ++ (Lexeme.op .colon).token :: ws, evaluating, s'⟩)) :
    Outcome vars expression (.conditional c t e) rest evaluating s
      (exec (parseBranches expression assign v)
        ⟨us ++ (Lexeme.op .colon).token :: ws, evaluating, s'⟩) := by
  cases hcondition with
  | skipped v s =>
      rcases Outcome.withEvaluation hthen (false && v.value != 0) false s with
        ⟨w, -, hw⟩ | ⟨w, s'', hgo, -⟩ | ⟨f, t', hgo, -⟩
      · rw [exec_parseBranches_eq hw]
        rcases Outcome.withEvaluation helse (false && v.value == 0) false s with
          ⟨u, -, hu⟩ | ⟨u, s'', hgo, -⟩ | ⟨f, t', hgo, -⟩
        · rw [hu]
          exact .skipped _ s
        · cases hgo
        · cases hgo
      · cases hgo
      · cases hgo
  | value v h =>
      rcases Outcome.withEvaluation hthen (true && v.value != 0) true s' with
        ⟨w, hgo, hw⟩ | ⟨w, s'', hgo, h', hw⟩ | ⟨f, t', hgo, h', hw⟩
      · -- the condition is zero, so the second branch is the one evaluated
        have hv : v.value = 0 := by simpa using hgo
        have hreference : reference vars (.conditional c t e) s = reference vars e s' := by
          rw [reference, h, andThen, if_neg (by rw [hv]; decide)]
        rw [exec_parseBranches_eq hw]
        rcases Outcome.withEvaluation helse (true && v.value == 0) true s' with
          ⟨u, hgo', -⟩ | ⟨u, s'', -, h', hu⟩ | ⟨f, t', -, h', hu⟩
        · simp [hv] at hgo'
        · rw [hu]
          exact .value _ (by rw [hreference, h', if_pos rfl, if_neg (by simp [hv])])
        · rw [hu]
          exact .fault (hreference.trans h')
      · have hv : v.value.toInt ≠ 0 := by simpa [toInt_eq_zero] using hgo
        have hreference : reference vars (.conditional c t e) s = reference vars t s' := by
          rw [reference, h, andThen, if_pos hv]
        rw [exec_parseBranches_eq hw]
        rcases Outcome.withEvaluation helse (true && v.value == 0) true s'' with
          ⟨u, -, hu⟩ | ⟨u, s'', hgo', -⟩ | ⟨f, t', hgo', -⟩
        · have hne : (v.value != 0) = true := hgo
          rw [hu]
          exact .value _ (by rw [hreference, h', if_pos rfl, if_pos hne])
        · simp_all
        · simp_all
      · have hv : v.value.toInt ≠ 0 := by simpa [toInt_eq_zero] using hgo
        have hrun : exec (parseBranches expression assign v)
            ⟨us ++ (Lexeme.op .colon).token :: ws, true, s'⟩ =
              (.error (.shellError (f.message expression)), t') := by
          unfold parseBranches
          rw [exec_bind_ok (exec_evaluating _)]
          exact exec_bind_error hw
        rw [hrun]
        exact .fault (by rw [reference, h, andThen, if_pos hv, h'])

theorem reads_conditional {c t e : Expr} {ts us ws : List Lexeme}
    (ihc : Reads vars expression 2 c ts) (iht : Reads vars expression 0 t us)
    (ihe : Reads vars expression 1 e ws) :
    Reads vars expression 1 (.conditional c t e)
      (ts ++ .op .question :: us ++ .op .colon :: ws) := by
  refine fun rest k f henough => ⟨fun hstop evaluating s => ?_, fun hlow _ =>
    absurd hlow (by omega)⟩
  have hstop' : Stops 0 (headKind rest) := by
    refine stops_of_none hstop.notAssign ?_
    have hlooser := hstop.looser
    generalize headKind rest = kind at hlooser
    cases kind <;> first | rfl | exact absurd (hlooser _ rfl) (by decide)
  have hlen := henough.assign
  simp only [List.map_cons, List.map_append, List.cons_append, List.append_assoc,
    List.length_append, List.length_cons] at hlen henough ⊢
  have hcondition := ihc.delivers henough (stops_of_operatorLevel rfl (by decide)) evaluating s
  have hthen := iht.delivers_parseAssign
    ((Lexeme.op .colon).token :: (ws.map Lexeme.token ++ rest)) (k := k)
    (by simp only [List.length_append, List.length_cons]; omega) (stops_of_none rfl rfl)
  have helse := (ihe.down (by decide) (Nat.zero_le 1)).delivers_parseAssign rest (k := k)
    (by simp only [List.length_append]; omega) hstop'
  change Outcome vars expression _ rest evaluating s
    (exec (parseLogicalOr vars expression (parseAssign vars expression k) f >>= _) _)
  rw [exec_bind]
  change Outcome vars expression c _ evaluating s
    (exec (parseLogicalOr vars expression (parseAssign vars expression k) f) _) at hcondition
  generalize exec (parseLogicalOr vars expression (parseAssign vars expression k) f) _ = out
    at hcondition
  cases hcondition with
  | fault h => exact .fault (by rw [reference, h, andThen])
  | skipped v s => exact outcome_parseBranches hthen helse (.skipped v s)
  | value v h => exact outcome_parseBranches hthen helse (.value v h)

/-- Before an assignment operator a name is the whole left-hand side and is not read. -/
theorem exec_lvalue (name : Name) (op : AssignOp) (k : Nat) (tokens : List Token)
    (evaluating : Bool) (s : σ) :
    exec (parseConditional vars expression (parseAssign vars expression k) (k + 1))
        ⟨(Lexeme.name name).token :: (Lexeme.op op.kind).token :: tokens, evaluating, s⟩ =
      (.ok { lvalue := name.val }, ⟨(Lexeme.op op.kind).token :: tokens, evaluating, s⟩) := by
  have hassign : isAssignOp op.kind = true := by cases op <;> rfl
  have hprimary : exec (parseLevel vars expression k (k + 1) 12)
      ⟨(Lexeme.name name).token :: (Lexeme.op op.kind).token :: tokens, evaluating, s⟩ =
      (.ok { lvalue := name.val }, ⟨(Lexeme.op op.kind).token :: tokens, evaluating, s⟩) := by
    rw [exec_unary_primary k.succ_pos (le_refl 13) rfl]
    change exec (parsePrimary vars expression _) _ = _
    simp only [parsePrimary, Lexeme.token]
    rw [exec_bind_ok (exec_peek _)]
    simp only [headKind]
    rw [exec_bind_ok (exec_next _ _ _ _), exec_bind_ok (exec_peek _)]
    exact congrFun (congrArg exec (if_pos hassign)) _
  have hnone : operatorLevel op.kind = none := by cases op <;> rfl
  rw [← hprimary]
  refine exec_level_down (k := k) (p := 1) le_rfl (by decide) le_rfl k.succ_pos ?_
  intro v t hrun l hl
  rw [hprimary] at hrun
  cases hrun
  exact absurd (hnone.symm.trans hl) (by simp)

theorem exec_applyAssign (op : AssignOp) (a b : IntMax) (s : State σ) :
    exec (applyAssign expression op.kind a b) s =
      match op.operator with
      | none => (.ok b, s)
      | some operator =>
          if operator.divides && b == 0 then
            (.error (.shellError (Fault.divisionByZero.message expression)), s)
          else (.ok (operator.onWord a b), s) := by
  cases op with
  | div | mod =>
      unfold applyAssign
      cases b == 0 <;> rfl
  | _ => rfl

variable (expression) in
theorem exec_assignVariable (name : Text) (result : IntMax) (tokens : List Token) (s : σ) :
    exec (assignVariable vars name result) ⟨tokens, true, s⟩ =
      match store vars name result.toInt s with
      | (.ok _, s') => (.ok (), ⟨tokens, true, s'⟩)
      | (.error f, s') => (.error (.shellError (f.message expression)), ⟨tokens, true, s'⟩) := by
  simp only [assignVariable, store]
  rw [exec_bind_ok (exec_get _)]
  cases h : vars.set s name (intText result.toInt) <;> rfl

/-- Storing a result: the reference of the assignment decides how the run ends. -/
theorem outcome_store {e : Expr} {rest : List Token} {s s' : σ} {name : Text} {result : IntMax}
    (h : reference vars e s = store vars name result.toInt s') :
    Outcome vars expression e rest true s
      (exec (do assignVariable vars name result; pure { value := result })
        ⟨rest, true, s'⟩) := by
  rw [exec_bind, exec_assignVariable expression]
  unfold store at h ⊢
  cases hset : vars.set s' name (intText result.toInt) with
  | none =>
      rw [hset] at h
      exact .fault h
  | some s'' =>
      rw [hset] at h
      exact .value { value := result } h

theorem outcome_assignResult {op : AssignOp} {name : Name} {rhs : Expr} {rest : List Token}
    {s s' : σ} {lhs b : IntMax} (h : reference vars rhs s = (.ok b.toInt, s')) :
    Outcome vars expression (.assign op name rhs) rest true s
      (exec (assignResult vars expression op.kind name.val lhs b) ⟨rest, true, s'⟩) := by
  unfold assignResult
  cases hop : op.operator with
  | none =>
      have hkind : op.kind = .assign := by cases op <;> first | rfl | cases hop
      simp only [hkind, ne_eq, not_true_eq_false, if_false]
      rw [exec_bind_ok (exec_pure _ _), ← hkind, exec_bind, exec_applyAssign, hop]
      exact outcome_store (by rw [reference, h, andThen, hop])
  | some operator =>
      have hkind : op.kind ≠ .assign := by
        cases op <;> first | (cases hop; done) | simp [AssignOp.kind]
      rw [if_pos hkind, exec_bind, exec_variableValue, variableNumber_eq expression]
      cases hstored : storedNumber (vars.get s' name.val) with
      | error f => exact .fault (by rw [reference, h, andThen, hop]; simp only [hstored, andThen])
      | ok a =>
          have hreference : reference vars (.assign op name rhs) s =
              andThen (operator.apply a b.toInt, s')
                (fun value s => store vars name value s) := by
            rw [reference, h, andThen, hop]
            simp only [hstored, andThen]
          rw [← toInt_storedNumber hstored, operator.apply_toInt] at hreference
          simp only
          rw [exec_bind, exec_applyAssign, hop]
          simp only
          split_ifs at hreference ⊢
          · exact .fault hreference
          · exact outcome_store hreference

theorem reads_assign {op : AssignOp} {name : Name} {rhs : Expr} {ts : List Lexeme}
    (ih : Reads vars expression 0 rhs ts) :
    Reads vars expression 0 (.assign op name rhs) (.name name :: .op op.kind :: ts) := by
  refine fun rest k f henough => ⟨fun hstop evaluating s => ?_, fun hlow _ =>
    absurd hlow (by omega)⟩
  have hlen := henough.assign
  simp only [List.map_cons, List.cons_append, List.length_cons] at hlen ⊢
  have hrhs := ih.delivers_parseAssign rest (k := k) (by omega) hstop evaluating s
  have hassign : isAssignOp op.kind = true := by cases op <;> rfl
  have hname : name.val.isEmpty = false := by
    obtain ⟨_ | _, hvalid⟩ := name
    · cases hvalid
    · rfl
  change Outcome vars expression _ rest evaluating s (exec (parseAssign vars expression (k + 1)) _)
  unfold parseAssign
  rw [exec_bind_ok (exec_lvalue name op k _ evaluating s), exec_bind_ok (exec_peek _)]
  simp only [headKind, Lexeme.token, hassign, hname, Bool.not_true, Bool.or_self,
    Bool.false_eq_true, if_false]
  rw [exec_bind_ok (exec_next _ _ _ _), exec_bind]
  generalize exec (parseAssign vars expression k) _ = out at hrhs
  cases hrhs with
  | skipped v s => exact .skipped _ s
  | fault h => exact .fault (by rw [reference, h, andThen])
  | value v h =>
      rename_i s'
      simp only
      rw [exec_bind_ok (exec_evaluating _)]
      simp only [Bool.not_true, Bool.false_eq_true, if_false]
      exact outcome_assignResult h

/-! ## The evaluator -/

theorem Renders.reads {p : Nat} {e : Expr} {ts : List Lexeme} (h : Renders p e ts) :
    Reads vars expression p e ts := by
  induction h with
  | literal p l => exact reads_literal l p
  | var p name => exact reads_var name p
  | unary hp _ ih => exact (reads_unary ih).down le_rfl hp
  | @binary p op l r ts us hp _ _ ihl ihr =>
      exact (reads_binary ihl ihr).down (by cases op <;> decide) hp
  | logicalAnd hp _ _ ihl ihr => exact (reads_logicalAnd ihl ihr).down (by decide) hp
  | logicalOr hp _ _ ihl ihr => exact (reads_logicalOr ihl ihr).down (by decide) hp
  | conditional hp _ _ _ ihc iht ihe =>
      exact (reads_conditional ihc iht ihe).down (by decide) hp
  | assign _ ih => exact reads_assign ih
  | @paren p e ts _ ih => exact reads_paren ih p

theorem exists_rendering (e : Expr) : ∃ ts expression, Renders 0 e ts ∧ Spaced ts expression := by
  have hrender : ∃ ts, Renders 0 e ts := by
    induction e with
    | literal l => exact ⟨_, .literal 0 l⟩
    | var name => exact ⟨_, .var 0 name⟩
    | unary op e ih =>
        obtain ⟨ts, h⟩ := ih
        exact ⟨_, .unary (Nat.zero_le _) (.paren h)⟩
    | binary op l r ihl ihr =>
        obtain ⟨ts, hl⟩ := ihl
        obtain ⟨us, hr⟩ := ihr
        exact ⟨_, .binary (Nat.zero_le _) (.paren hl) (.paren hr)⟩
    | logicalAnd l r ihl ihr =>
        obtain ⟨ts, hl⟩ := ihl
        obtain ⟨us, hr⟩ := ihr
        exact ⟨_, .logicalAnd (Nat.zero_le _) (.paren hl) (.paren hr)⟩
    | logicalOr l r ihl ihr =>
        obtain ⟨ts, hl⟩ := ihl
        obtain ⟨us, hr⟩ := ihr
        exact ⟨_, .logicalOr (Nat.zero_le _) (.paren hl) (.paren hr)⟩
    | conditional c t e ihc iht ihe =>
        obtain ⟨ts, hc⟩ := ihc
        obtain ⟨us, ht⟩ := iht
        obtain ⟨ws, he⟩ := ihe
        exact ⟨_, .conditional (Nat.zero_le _) (.paren hc) ht (.paren he)⟩
    | assign op name rhs ih =>
        obtain ⟨ts, h⟩ := ih
        exact ⟨_, .assign h⟩
  have hspaced : ∀ ts : List Lexeme, ∃ expression, Spaced ts expression := by
    intro ts
    induction ts with
    | nil => exact ⟨_, .nil [] rfl⟩
    | cons lexeme ts ih =>
        obtain ⟨rest, hrest⟩ := ih
        exact ⟨_, .cons [] rfl hrest⟩
  obtain ⟨ts, h⟩ := hrender
  obtain ⟨expression, hspaced⟩ := hspaced ts
  exact ⟨ts, expression, h, hspaced⟩

end

section

variable {σ : Type} (vars : Variables σ)

/-- The reference's result in the evaluator's own terms. -/
def expected (expression : Text) (e : Expr) (s : σ) : Except Failure Int × σ :=
  match reference vars e s with
  | (.ok value, s') => (.ok value, s')
  | (.error f, s') => (.error (.shellError (f.message expression)), s')

/--
On every text that writes `e`, the evaluator returns the reference's value, or
fails with the message of the reference's fault, and leaves the reference's
store.
-/
theorem evaluateArithmetic_eq_reference {e : Expr} {ts : List Lexeme} {expression : Text}
    (hrender : Renders 0 e ts) (hspaced : Spaced ts expression) (s : σ) :
    (evaluateArithmetic vars expression s).1.map BitVec.toInt = (expected vars expression e s).1 ∧
      (evaluateArithmetic vars expression s).2 = (expected vars expression e s).2 := by
  have htokens := tokenize_rendering hrender hspaced
  have hreads : Reads vars expression 0 e ts := hrender.reads
  have hout := hreads.delivers_parseAssign [{ kind := .endToken }] (Nat.lt_succ_self _)
    (stops_of_none rfl rfl) true s
  have hrun : evaluateArithmetic vars expression s =
      match exec (run vars expression ((tokenize expression).length + 1))
        ⟨tokenize expression, true, s⟩ with
      | (result, t) => (result, t.store) := rfl
  rw [hrun, htokens]
  unfold run expected
  rw [exec_bind]
  generalize exec (parseAssign vars expression _) _ = out at hout
  cases hout with
  | value v h =>
      rw [h]
      exact ⟨rfl, rfl⟩
  | fault h =>
      rw [h]
      exact ⟨rfl, rfl⟩

end

/-- A store with the one variable `x`. -/
def oneVariable : Variables (Option Text) where
  get s name := if name = ['x'] then s else none
  set s name value := if name = ['x'] then some (some value) else some s

theorem evaluateArithmetic_oneVariable :
    (evaluateArithmetic oneVariable (text "x=2 - 3*-x") (some ['5'])).1.map BitVec.toInt = .ok 17 ∧
      (evaluateArithmetic oneVariable (text "x=2 - 3*-x") (some ['5'])).2 = some (text "17") := by
  let x : Name := ⟨['x'], by decide⟩
  let two : Literal := .decimal '2' [] (by decide)
  let three : Literal := .decimal '3' [] (by decide)
  have hrender : Renders 0
      (.assign .plain x (.binary .sub (.literal two)
        (.binary .mul (.literal three) (.unary .minus (.var x)))))
      [.name x, .op .assign, .literal two, .op .minus, .literal three, .op .star, .op .minus,
        .name x] :=
    .assign (.binary (by decide) (.literal _ two)
      (.binary (by decide) (.literal _ three)
        (.unary (by decide) (.var _ x))))
  have hspaced : Spaced
      [.name x, .op .assign, .literal two, .op .minus, .literal three, .op .star, .op .minus,
        .name x] (text "x=2 - 3*-x") :=
    .cons [] rfl (.cons [] rfl (.cons [] rfl (.cons [' '] rfl
      (.cons [' '] rfl (.cons [] rfl (.cons [] rfl
        (.cons [] rfl (.nil [] rfl))))))))
  exact evaluateArithmetic_eq_reference oneVariable hrender hspaced (some ['5'])

end Haisos.Hsh.Arithmetic
