import Haisos.Hsh.Glob
import Haisos.Hsh.Pattern.Grammar

/-!
# Components of a pathname pattern

The components that the unescaped slashes leave, beside those of
`SplitComponents`.  The scan keeps a bracket expression whole; the two agree
when no bracket expression it keeps has an unescaped slash in it, and otherwise
`SplitComponents` gives fewer components.
-/

namespace Haisos.Hsh

/-! ## Divided at the slashes -/

def addFront (front : Text) : List Text → List Text
  | [] => [front]
  | component :: components => (front ++ component) :: components

/-- Divided at each slash that no backslash escapes. -/
def slashComponents : Text → List Text
  | [] => [[]]
  | '/' :: rest => [] :: slashComponents rest
  | '\\' :: c :: rest => addFront ['\\', c] (slashComponents rest)
  | c :: rest => addFront [c] (slashComponents rest)

/-- The last component of the first list goes on with the first of the second. -/
def joinComponents : List Text → List Text → List Text
  | [], components => components
  | [component], components => addFront component components
  | component :: next :: rest, components => component :: joinComponents (next :: rest) components

inductive Whole : Text → Prop where
  | nil : Whole []
  | escaped {c : Char} {rest : Text} (next : Whole rest) : Whole ('\\' :: c :: rest)
  | char {c : Char} {rest : Text} (unescaped : c ≠ '\\') (next : Whole rest) : Whole (c :: rest)

theorem addFront_ne_nil (front : Text) (components : List Text) :
    addFront front components ≠ [] := by
  cases components <;> simp [addFront]

theorem slashComponents_ne_nil (pattern : Text) : slashComponents pattern ≠ [] := by
  unfold slashComponents
  split
  · simp
  · simp
  · exact addFront_ne_nil _ _
  · exact addFront_ne_nil _ _

@[simp] theorem addFront_nil {components : List Text} (h : components ≠ []) :
    addFront [] components = components := by
  cases components with
  | nil => exact absurd rfl h
  | cons component components => rfl

@[simp] theorem addFront_addFront (front front' : Text) (components : List Text) :
    addFront front (addFront front' components) = addFront (front ++ front') components := by
  cases components <;> simp [addFront]

theorem addFront_append {components : List Text} (h : components ≠ []) (front : Text)
    (components' : List Text) :
    addFront front components ++ components' = addFront front (components ++ components') := by
  cases components with
  | nil => exact absurd rfl h
  | cons component components => rfl

theorem length_addFront {components : List Text} (h : components ≠ []) (front : Text) :
    (addFront front components).length = components.length := by
  cases components with
  | nil => exact absurd rfl h
  | cons component components => rfl

theorem slashComponents_char {c : Char} {rest : Text} (hslash : c ≠ '/')
    (hescape : c = '\\' → rest = []) :
    slashComponents (c :: rest) = addFront [c] (slashComponents rest) := by
  rw [slashComponents.eq_def]
  split
  · simp_all
  · rename_i h
    cases h
    exact absurd rfl hslash
  · rename_i h
    cases h
    cases hescape rfl
  · rename_i h
    cases h
    rfl

theorem joinComponents_addFront {components : List Text} (h : components ≠ []) (front : Text)
    (components' : List Text) :
    joinComponents (addFront front components) components' =
      addFront front (joinComponents components components') := by
  rcases components with _ | ⟨component, _ | ⟨next, rest⟩⟩
  · exact absurd rfl h
  · exact (addFront_addFront _ _ _).symm
  · rfl

theorem joinComponents_append {components' : List Text} (h : components' ≠ [])
    (components components'' : List Text) :
    joinComponents components (components' ++ components'') =
      joinComponents components components' ++ components'' := by
  induction components with
  | nil => rfl
  | cons component rest ih =>
      cases rest with
      | nil => exact (addFront_append h _ _).symm
      | cons next rest => simpa [joinComponents] using ih

theorem length_joinComponents {components components' : List Text} (h : components ≠ [])
    (h' : components' ≠ []) :
    (joinComponents components components').length + 1 =
      components.length + components'.length := by
  induction components with
  | nil => exact absurd rfl h
  | cons component rest ih =>
      cases rest with
      | nil =>
          rw [joinComponents, length_addFront h', List.length_singleton, Nat.add_comm]
      | cons next rest =>
          have := ih (by simp)
          simp only [joinComponents, List.length_cons] at this ⊢
          omega

theorem Whole.slashComponents_append {front : Text} (h : Whole front) (rest : Text) :
    slashComponents (front ++ rest) =
      joinComponents (slashComponents front) (slashComponents rest) := by
  induction h with
  | nil =>
      rw [List.nil_append, slashComponents.eq_1, joinComponents,
        addFront_nil (slashComponents_ne_nil rest)]
  | @escaped c front next ih =>
      simp only [List.cons_append, slashComponents]
      rw [ih, joinComponents_addFront (slashComponents_ne_nil front)]
  | @char c front unescaped next ih =>
      by_cases hc : c = '/'
      · subst hc
        simp only [List.cons_append, slashComponents]
        rw [ih]
        cases hfront : slashComponents front with
        | nil => exact absurd hfront (slashComponents_ne_nil front)
        | cons component components => rfl
      · rw [List.cons_append, slashComponents_char hc fun h => absurd h unescaped,
          slashComponents_char hc fun h => absurd h unescaped, ih,
          joinComponents_addFront (slashComponents_ne_nil front)]

theorem Whole.append {front rest : Text} (h : Whole front) (hrest : Whole rest) :
    Whole (front ++ rest) := by
  induction h with
  | nil => exact hrest
  | escaped next ih => exact .escaped ih
  | char unescaped next ih => exact .char unescaped ih

/-- A class is whole even where its name ends in a backslash: that one escapes the `:`. -/
theorem whole_named (name : Text) : Whole (name ++ [':', ']']) := by
  induction hn : name.length using Nat.strong_induction_on generalizing name with
  | _ n ih =>
      subst hn
      rcases name with _ | ⟨c, name⟩
      · exact .char (by decide) (.char (by decide) .nil)
      · by_cases hc : c = '\\'
        · subst hc
          rcases name with _ | ⟨d, name⟩
          · exact .escaped (.char (by decide) .nil)
          · exact .escaped (ih _ (by simp) name rfl)
        · exact .char hc (ih _ (by simp) name rfl)

theorem Grammar.Units.whole {pattern after : Text} {units : List Grammar.BracketUnit}
    (h : Grammar.Units pattern units after) : Whole (Grammar.written units) := by
  induction h with
  | close => exact .nil
  | plain unclosed unescaped no_class next ih => exact .char unescaped ih
  | escaped next ih => exact .escaped ih
  | named shortest next ih =>
      rw [Grammar.written_cons]
      exact .append (.char (by decide) (.char (by decide) (whole_named _))) ih

theorem Grammar.Listed.whole {pattern after : Text} {units : List Grammar.BracketUnit}
    (h : Grammar.Listed pattern units after) : Whole (Grammar.written units) := by
  cases h with
  | leading next => exact .char (by decide) next.whole
  | units not_leading next => exact next.whole

theorem Grammar.Bracket.whole {pattern after : Text} {negated : Bool}
    {units : List Grammar.BracketUnit} (h : Grammar.Bracket pattern negated units after) :
    Whole (Grammar.inside negated units) := by
  cases h with
  | negated next => exact .char (by decide) next.whole
  | positive not_negated next => exact next.whole

/-! ## Bracket expressions of a component -/

theorem bracketScan_of_component {skip : Nat} {pattern : Text} {parts : Text × Text}
    (h : componentBracketScan skip pattern = some parts) : bracketScan skip pattern = some parts := by
  induction pattern generalizing skip parts with
  | nil => cases skip <;> cases h
  | cons c rest ih =>
      have hcons : ∀ skip,
          (componentBracketScan skip rest).map (fun parts => (c :: parts.1, parts.2)) =
            some parts →
          (bracketScan skip rest).map (fun parts => (c :: parts.1, parts.2)) = some parts := by
        intro skip h
        obtain ⟨parts', h', rfl⟩ := Option.map_eq_some_iff.mp h
        rw [ih h']
        rfl
      cases skip with
      | succ skip => exact hcons skip h
      | zero =>
          rw [componentBracketScan] at h
          rw [bracketScan]
          split_ifs at h ⊢ with hslash hclose
          · exact h
          · exact hcons _ h

theorem bracketEnd_of_component {pattern : Text} {parts : Text × Text}
    (h : componentBracketEnd pattern = some parts) : bracketEnd pattern = some parts :=
  bracketScan_of_component h

/-- A bracket expression is whole, and still one when less of the pattern follows it. -/
theorem componentBracketEnd_spec {pattern inside after : Text}
    (h : componentBracketEnd pattern = some (inside, after)) :
    pattern = inside ++ ']' :: after ∧ Whole inside ∧
      ∀ after', after' <+: after → (bracketEnd (inside ++ ']' :: after')).isSome = true := by
  have hend := bracketEnd_of_component h
  obtain ⟨negated, units, hbracket⟩ := Grammar.exists_bracket hend
  rw [hbracket.bracketEnd] at hend
  cases hend
  refine ⟨hbracket.text_eq, hbracket.whole, fun after' hafter => ?_⟩
  rw [(hbracket.shorten hafter).bracketEnd]
  rfl

/-! ## The scan of `SplitComponents` -/

inductive Chunk where
  | slash
  | escaped (c : Char)
  | bracket (inside : Text)
  | char (c : Char)
  deriving DecidableEq, Repr

inductive Chunks : Text → List Chunk → Prop where
  | nil : Chunks [] []
  | slash {rest : Text} {chunks : List Chunk} (next : Chunks rest chunks) :
      Chunks ('/' :: rest) (.slash :: chunks)
  | escaped {c : Char} {rest : Text} {chunks : List Chunk} (next : Chunks rest chunks) :
      Chunks ('\\' :: c :: rest) (.escaped c :: chunks)
  | bracket {rest inside after : Text} {chunks : List Chunk}
      (complete : componentBracketEnd rest = some (inside, after)) (next : Chunks after chunks) :
      Chunks ('[' :: rest) (.bracket inside :: chunks)
  | char {c : Char} {rest : Text} {chunks : List Chunk} (divides : c ≠ '/')
      (unescaped : c = '\\' → rest = [])
      (incomplete : c = '[' → componentBracketEnd rest = none) (next : Chunks rest chunks) :
      Chunks (c :: rest) (.char c :: chunks)

def Chunk.components : List Chunk → List Text
  | [] => [[]]
  | .slash :: chunks => [] :: components chunks
  | .escaped c :: chunks => addFront ['\\', c] (components chunks)
  | .bracket inside :: chunks => addFront ('[' :: (inside ++ [']'])) (components chunks)
  | .char c :: chunks => addFront [c] (components chunks)

theorem Chunk.components_ne_nil (chunks : List Chunk) : components chunks ≠ [] := by
  unfold components
  split <;> first | exact addFront_ne_nil _ _ | simp

theorem exists_chunks (pattern : Text) : ∃ chunks, Chunks pattern chunks := by
  induction hn : pattern.length using Nat.strong_induction_on generalizing pattern with
  | _ n ih =>
      subst hn
      rcases pattern with _ | ⟨c, rest⟩
      · exact ⟨[], .nil⟩
      · obtain ⟨chunks, hrest⟩ := ih _ (by simp) rest rfl
        by_cases hslash : c = '/'
        · subst hslash
          exact ⟨_, .slash hrest⟩
        by_cases hescape : c = '\\' ∧ rest ≠ []
        · obtain ⟨rfl, hne⟩ := hescape
          obtain ⟨d, rest, rfl⟩ := List.exists_cons_of_ne_nil hne
          obtain ⟨chunks, hrest⟩ := ih _ (by simp) rest rfl
          exact ⟨_, .escaped hrest⟩
        have hunescaped : c = '\\' → rest = [] := by
          intro hc
          by_contra hne
          exact hescape ⟨hc, hne⟩
        by_cases hopen : c = '['
        · subst hopen
          cases hend : componentBracketEnd rest with
          | none => exact ⟨_, .char hslash hunescaped (fun _ => hend) hrest⟩
          | some parts =>
              obtain ⟨inside, after⟩ := parts
              obtain ⟨rfl, -, -⟩ := componentBracketEnd_spec hend
              obtain ⟨chunks, hafter⟩ := ih _ (by simp; omega) after rfl
              exact ⟨_, .bracket hend hafter⟩
        · exact ⟨_, .char hslash hunescaped (fun h => absurd h hopen) hrest⟩

theorem splitComponentsFrom_drop {skip : Nat} {pattern : Text} (h : skip ≤ pattern.length)
    (current : Text) :
    splitComponentsFrom skip current pattern =
      splitComponentsFrom 0 (current ++ pattern.take skip) (pattern.drop skip) := by
  induction skip generalizing pattern current with
  | zero => simp
  | succ skip ih =>
      rcases pattern with _ | ⟨c, rest⟩
      · simp at h
      · rw [splitComponentsFrom, ih (by simpa using h)]
        simp

theorem Chunks.splitComponentsFrom {pattern : Text} {chunks : List Chunk}
    (h : Chunks pattern chunks) (current : Text) :
    Hsh.splitComponentsFrom 0 current pattern = addFront current (Chunk.components chunks) := by
  induction h generalizing current with
  | nil => simp [Hsh.splitComponentsFrom, Chunk.components, addFront]
  | slash next ih =>
      rw [Chunk.components, addFront, List.append_nil]
      simp [Hsh.splitComponentsFrom, ih, Chunk.components_ne_nil]
  | escaped next ih =>
      simp [Hsh.splitComponentsFrom, Chunk.components, ih]
  | @bracket rest inside after chunks complete next ih =>
      obtain ⟨rfl, -, -⟩ := componentBracketEnd_spec complete
      have hlength : inside.length + 1 ≤ (inside ++ ']' :: after).length := by simp
      have hdrop := splitComponentsFrom_drop hlength (current ++ ['['])
      have htake : (inside ++ ']' :: after).take (inside.length + 1) = inside ++ [']'] := by
        simp [List.take_append]
      have hrest : (inside ++ ']' :: after).drop (inside.length + 1) = after := by
        simp [List.drop_append]
      rw [htake, hrest, ih] at hdrop
      simp only [Hsh.splitComponentsFrom, complete, if_true, Chunk.components]
      rw [if_neg (by simp), hdrop]
      simp
  | @char c rest chunks divides unescaped incomplete next ih =>
      have hescape : ¬(c = '\\' ∧ rest ≠ []) := by
        rintro ⟨hc, hne⟩
        exact hne (unescaped hc)
      have hopen : (if c = '[' then componentBracketEnd rest else none) = none := by
        split_ifs with hc
        · exact incomplete hc
        · rfl
      simp [Hsh.splitComponentsFrom, hescape, hopen, divides, ih, Chunk.components]

theorem Chunks.splitComponents {pattern : Text} {chunks : List Chunk} (h : Chunks pattern chunks) :
    Hsh.splitComponents pattern = Chunk.components chunks := by
  rw [Hsh.splitComponents, h.splitComponentsFrom, addFront_nil (Chunk.components_ne_nil _)]

/-! ## The two divisions -/

/-- A bracket expression, from its `[` to its `]`. -/
def bracketText (inside : Text) : Text := '[' :: (inside ++ [']'])

theorem whole_bracketText {inside : Text} (h : Whole inside) : Whole (bracketText inside) :=
  .char (by decide) (h.append (.char (by decide) .nil))

theorem length_slashComponents_bracketText {inside : Text} (h : Whole inside) :
    (slashComponents (bracketText inside)).length = (slashComponents inside).length := by
  have hclose : slashComponents [']'] = [[']']] := by
    simp [slashComponents, addFront]
  have hjoin := length_joinComponents (slashComponents_ne_nil inside)
    (slashComponents_ne_nil [']'])
  rw [hclose, List.length_singleton] at hjoin
  rw [bracketText, slashComponents_char (by decide) (by simp),
    length_addFront (slashComponents_ne_nil _), h.slashComponents_append, hclose]
  omega

theorem Whole.flatMap_addFront {front : Text} (h : Whole front) {components : List Text}
    (hne : components ≠ []) :
    (addFront front components).flatMap slashComponents =
      joinComponents (slashComponents front) (components.flatMap slashComponents) := by
  obtain ⟨component, rest, rfl⟩ := List.exists_cons_of_ne_nil hne
  rw [addFront, List.flatMap_cons, List.flatMap_cons, h.slashComponents_append,
    joinComponents_append (slashComponents_ne_nil component)]

theorem slashComponents_singleton {c : Char} (h : c ≠ '/') : slashComponents [c] = [[c]] := by
  rw [slashComponents_char h fun _ => rfl]
  rfl

/-- Each component of the scan is divided further by itself alone. -/
theorem Chunks.slashComponents {pattern : Text} {chunks : List Chunk} (h : Chunks pattern chunks) :
    Hsh.slashComponents pattern = (Chunk.components chunks).flatMap Hsh.slashComponents := by
  induction h with
  | nil => simp [Chunk.components, Hsh.slashComponents]
  | slash next ih => simp [Chunk.components, Hsh.slashComponents, ih]
  | @escaped c rest chunks next ih =>
      have hwhole : Whole ['\\', c] := .escaped .nil
      have hpair : Hsh.slashComponents ['\\', c] = [['\\', c]] := by
        simp [Hsh.slashComponents, addFront]
      rw [Chunk.components, hwhole.flatMap_addFront (Chunk.components_ne_nil chunks), ← ih, hpair]
      rfl
  | @bracket rest inside after chunks complete next ih =>
      obtain ⟨rfl, hinside, -⟩ := componentBracketEnd_spec complete
      have hwhole := whole_bracketText hinside
      have hpattern : '[' :: (inside ++ ']' :: after) = bracketText inside ++ after := by
        simp [bracketText]
      rw [hpattern, hwhole.slashComponents_append, ih, Chunk.components, ← bracketText,
        hwhole.flatMap_addFront (Chunk.components_ne_nil chunks)]
  | @char c rest chunks divides unescaped incomplete next ih =>
      rw [Chunk.components]
      by_cases hc : c = '\\'
      · obtain rfl := unescaped hc
        cases next
        simp [Chunk.components, addFront]
      · have hwhole : Whole [c] := .char hc .nil
        rw [slashComponents_char divides unescaped, hwhole.flatMap_addFront
          (Chunk.components_ne_nil chunks), ← ih, slashComponents_singleton divides]
        rfl

def Chunk.spanned : Chunk → Nat
  | .bracket inside => (slashComponents inside).length - 1
  | _ => 0

theorem Chunks.length_slashComponents {pattern : Text} {chunks : List Chunk}
    (h : Chunks pattern chunks) :
    (Hsh.slashComponents pattern).length =
      (Chunk.components chunks).length + (chunks.map Chunk.spanned).sum := by
  induction h with
  | nil => rfl
  | slash next ih =>
      simp only [Hsh.slashComponents, Chunk.components, List.length_cons, List.map_cons,
        Chunk.spanned, List.sum_cons]
      omega
  | escaped next ih =>
      simp only [Hsh.slashComponents, Chunk.components, List.map_cons, Chunk.spanned,
        List.sum_cons, length_addFront (slashComponents_ne_nil _),
        length_addFront (Chunk.components_ne_nil _)]
      omega
  | @bracket rest inside after chunks complete next ih =>
      obtain ⟨rfl, hinside, -⟩ := componentBracketEnd_spec complete
      have hpattern : '[' :: (inside ++ ']' :: after) = bracketText inside ++ after := by
        simp [bracketText]
      have hjoin := length_joinComponents (slashComponents_ne_nil (bracketText inside))
        (slashComponents_ne_nil after)
      have hpos := List.length_pos_iff.mpr (slashComponents_ne_nil inside)
      rw [length_slashComponents_bracketText hinside] at hjoin
      rw [hpattern, (whole_bracketText hinside).slashComponents_append]
      simp only [Chunk.components, List.map_cons, Chunk.spanned, List.sum_cons,
        length_addFront (Chunk.components_ne_nil _)]
      omega
  | char divides unescaped incomplete next ih =>
      rw [slashComponents_char divides unescaped]
      simp only [Chunk.components, List.map_cons, Chunk.spanned, List.sum_cons,
        length_addFront (slashComponents_ne_nil _), length_addFront (Chunk.components_ne_nil _)]
      omega

theorem Chunks.head_prefix {pattern : Text} {chunks : List Chunk} (h : Chunks pattern chunks)
    {component : Text} (hmem : component ∈ (Chunk.components chunks).head?) :
    component <+: pattern := by
  have hstep : ∀ {front rest : Text} {components : List Text}, components ≠ [] →
      (∀ component ∈ components.head?, component <+: rest) →
      ∀ component ∈ (addFront front components).head?, component <+: front ++ rest := by
    intro front rest components hne ih component hmem
    obtain ⟨first, components, rfl⟩ := List.exists_cons_of_ne_nil hne
    simp only [addFront, List.head?_cons, Option.mem_some_iff] at hmem
    rw [← hmem]
    exact List.prefix_append_right_inj front |>.mpr (ih first rfl)
  induction h generalizing component with
  | nil =>
      cases hmem
      exact List.nil_prefix
  | slash next ih =>
      cases hmem
      exact List.nil_prefix
  | escaped next ih =>
      exact hstep (Chunk.components_ne_nil _) (fun _ => ih) component hmem
  | @bracket rest inside after chunks complete next ih =>
      obtain ⟨rfl, -, -⟩ := componentBracketEnd_spec complete
      have := hstep (Chunk.components_ne_nil _) (fun _ => ih) component hmem
      simpa using this
  | char divides unescaped incomplete next ih =>
      exact hstep (Chunk.components_ne_nil _) (fun _ => ih) component hmem

theorem hasPatternCharacters_escaped (c : Char) (rest : Text) :
    hasPatternCharacters ('\\' :: c :: rest) = hasPatternCharacters rest := by
  simp [hasPatternCharacters, hasPatternCharactersFrom]

theorem hasPatternCharacters_cons {c : Char} {rest : Text} (hescape : c = '\\' → rest = [])
    (h : hasPatternCharacters rest = true) : hasPatternCharacters (c :: rest) = true := by
  have hne : ¬(c = '\\' ∧ rest ≠ []) := by
    rintro ⟨hc, hne⟩
    exact hne (hescape hc)
  unfold hasPatternCharacters at h ⊢
  rw [hasPatternCharactersFrom, if_neg hne, h, Bool.or_true]

theorem hasPatternCharacters_bracket {rest : Text} (h : (bracketEnd rest).isSome = true) :
    hasPatternCharacters ('[' :: rest) = true := by
  simp [hasPatternCharacters, hasPatternCharactersFrom, h]

/-- A component that has a slash left in it has a bracket expression. -/
theorem Chunks.kept {pattern : Text} {chunks : List Chunk} (h : Chunks pattern chunks) :
    ∀ component ∈ Chunk.components chunks, Hsh.slashComponents component = [component] ∨
      hasPatternCharacters component = true := by
  have hstep : ∀ {front : Text} {chunks : List Chunk},
      (∀ component ∈ Chunk.components chunks, Hsh.slashComponents component = [component] ∨
        hasPatternCharacters component = true) →
      (∀ component ∈ (Chunk.components chunks).head?,
        (Hsh.slashComponents component = [component] →
          Hsh.slashComponents (front ++ component) = [front ++ component]) ∧
        (hasPatternCharacters component = true →
          hasPatternCharacters (front ++ component) = true) ∨
        hasPatternCharacters (front ++ component) = true) →
      ∀ component ∈ addFront front (Chunk.components chunks),
        Hsh.slashComponents component = [component] ∨ hasPatternCharacters component = true := by
    intro front chunks ih hfront
    obtain ⟨first, components, heq⟩ := List.exists_cons_of_ne_nil (Chunk.components_ne_nil chunks)
    rw [heq] at ih hfront ⊢
    simp only [addFront, List.mem_cons, forall_eq_or_imp] at ih ⊢
    refine ⟨?_, ih.2⟩
    rcases hfront first rfl with hkeeps | hspecial
    · exact ih.1.imp hkeeps.1 hkeeps.2
    · exact .inr hspecial
  induction h with
  | nil => simp [Chunk.components, Hsh.slashComponents]
  | slash next ih => simpa [Chunk.components, Hsh.slashComponents] using ih
  | @escaped c rest chunks next ih =>
      refine hstep ih fun component _ => .inl ⟨fun h => ?_, fun h => ?_⟩
      · simp [Hsh.slashComponents, h, addFront]
      · exact (hasPatternCharacters_escaped c component).trans h
  | @bracket rest inside after chunks complete next ih =>
      obtain ⟨rfl, -, hend⟩ := componentBracketEnd_spec complete
      refine hstep ih fun component hmem => .inr ?_
      have := hasPatternCharacters_bracket (hend component (next.head_prefix hmem))
      simpa using this
  | @char c rest chunks divides unescaped incomplete next ih =>
      refine hstep ih fun component hmem => .inl ?_
      have hescape : c = '\\' → component = [] := by
        intro hc
        obtain rfl := unescaped hc
        exact List.prefix_nil.mp (next.head_prefix hmem)
      refine ⟨fun h => ?_, hasPatternCharacters_cons hescape⟩
      rw [List.singleton_append, slashComponents_char divides hescape, h]
      rfl

end Haisos.Hsh
