import Haisos.Hsh.Lexer.Tokens

/-!
# The lexer tiles its source

One call of `Next` after another: every call ends, and the tokens with what lies between
them are the source.
-/

namespace Haisos.Hsh

open Lexer

/-! ## Documents that have been read -/

namespace BodiesRead

variable {source : Text} {numbers : List Nat} {low high : Nat} {docs docs' : List HereDocument}

theorem length_eq (h : BodiesRead source numbers low high docs docs') :
    docs'.length = docs.length := by
  induction h with
  | nil => rfl
  | cons _ _ _ _ ih => rw [ih, List.length_set]

theorem other (h : BodiesRead source numbers low high docs docs') {n : Nat} (hn : n ∉ numbers) :
    docs'[n]? = docs[n]? := by
  induction h with
  | nil => rfl
  | cons _ _ _ _ ih =>
      simp only [List.mem_cons, not_or] at hn
      rw [ih hn.2, List.getElem?_set_ne (Ne.symm hn.1)]

theorem complete (h : BodiesRead source numbers low high docs docs') (hnodup : numbers.Nodup)
    {n : Nat} (hn : n ∈ numbers) (hlt : n < docs.length) :
    ∃ hd, docs'[n]? = some hd ∧ hd.complete := by
  induction h with
  | nil => cases hn
  | cons _ _ _ hrest ih =>
      rw [List.nodup_cons] at hnodup
      rcases List.mem_cons.mp hn with rfl | hn
      · rw [hrest.other hnodup.1, List.getElem?_set_self hlt]
        exact ⟨_, rfl, rfl⟩
      · exact ih hnodup.2 hn (by rwa [List.length_set])

end BodiesRead

/-- The documents still to be read are those that are not complete, each once. -/
structure Accounted (lexer : Lexer) : Prop where
  nodup : lexer.pendingHereDocs.Nodup
  pending : ∀ n, n ∈ lexer.pendingHereDocs ↔
    ∃ hd, lexer.hereDocs[n]? = some hd ∧ hd.complete = false

theorem Accounted.lt {lexer : Lexer} (h : Accounted lexer) {n : Nat}
    (hn : n ∈ lexer.pendingHereDocs) : n < lexer.hereDocs.length := by
  obtain ⟨hd, hget, _⟩ := (h.pending n).mp hn
  exact (List.getElem?_eq_some_iff.mp hget).1

theorem Accounted.announced {before after : Lexer} {hereDoc : Option Nat} (h : Accounted before)
    (hannounced : Announced before hereDoc after) : Accounted after := by
  rcases hannounced with ⟨_, hdocs, hpending⟩ | ⟨_, hd, hcomplete, hdocs, hpending⟩
  · constructor
    · rw [hpending]
      exact h.nodup
    · rw [hpending, hdocs]
      exact h.pending
  · constructor
    · rw [hpending, List.nodup_append]
      refine ⟨h.nodup, by simp, ?_⟩
      rintro a ha b hb rfl
      rw [List.mem_singleton] at hb
      exact (hb ▸ h.lt ha).false
    · intro n
      rw [hpending, hdocs, List.mem_append, List.mem_singleton, h.pending]
      constructor
      · rintro (⟨other, hget, hother⟩ | rfl)
        · refine ⟨other, ?_, hother⟩
          rw [List.getElem?_append_left (List.getElem?_eq_some_iff.mp hget).1, hget]
        · exact ⟨hd, by simp, hcomplete⟩
      · rintro ⟨other, hget, hother⟩
        rcases Nat.lt_or_ge n before.hereDocs.length with hlt | hge
        · rw [List.getElem?_append_left hlt] at hget
          exact .inl ⟨other, hget, hother⟩
        · have hlength := (List.getElem?_eq_some_iff.mp hget).1
          rw [List.length_append, List.length_singleton] at hlength
          exact .inr (by omega)

theorem Accounted.read {before after : Lexer} {source : Text} {low high : Nat}
    (h : Accounted before) (hnone : after.pendingHereDocs = [])
    (hbodies : BodiesRead source before.pendingHereDocs low high before.hereDocs
      after.hereDocs) :
    Accounted after ∧ ∀ hd : HereDocument, hd ∈ after.hereDocs → hd.complete := by
  have hall : ∀ (n : Nat) (hd : HereDocument), after.hereDocs[n]? = some hd → hd.complete := by
    intro n hd hget
    have hlt := (List.getElem?_eq_some_iff.mp hget).1
    rw [hbodies.length_eq] at hlt
    by_cases hmem : n ∈ before.pendingHereDocs
    · obtain ⟨other, hother, hcomplete⟩ := hbodies.complete h.nodup hmem hlt
      rw [hget] at hother
      simp only [Option.some.injEq] at hother
      rwa [hother]
    · by_contra hincomplete
      rw [hbodies.other hmem] at hget
      exact hmem ((h.pending n).mpr ⟨hd, hget, by simpa using hincomplete⟩)
  refine ⟨⟨by simp [hnone], ?_⟩, ?_⟩
  · intro n
    rw [hnone]
    simp only [List.not_mem_nil, false_iff, not_exists, not_and]
    intro hd hget
    simp [hall n hd hget]
  · intro hd hmem
    obtain ⟨n, hlt, hget⟩ := List.getElem_of_mem hmem
    exact hall n hd (by rw [List.getElem?_eq_getElem hlt, hget])

/-- The documents after a token. -/
structure Documents (before : Lexer) (token : Token) (after : Lexer) : Prop where
  accounted : Accounted after
  /-- A token announces the next document or none. -/
  count : List.range after.hereDocs.length =
    List.range before.hereDocs.length ++ token.hereDoc.toList
  kept : ∀ (n : Nat) (hd : HereDocument), before.hereDocs[n]? = some hd → hd.complete →
    after.hereDocs[n]? = some hd
  allRead : token.kind.readsBodies → ∀ hd : HereDocument, hd ∈ after.hereDocs → hd.complete

theorem TokenRead.documents {before after : Lexer} {token : Token}
    (h : TokenRead before token after) (haccounted : Accounted before) :
    Documents before token after := by
  by_cases hreads : token.kind.readsBodies
  · obtain ⟨hhereDoc, hnone, hbodies⟩ := h.bodies hreads
    obtain ⟨hafter, hall⟩ := haccounted.read hnone hbodies
    constructor
    · exact hafter
    · rw [hbodies.length_eq, hhereDoc]
      simp
    · intro n hd hget hcomplete
      rw [hbodies.other, hget]
      intro hmem
      obtain ⟨other, hother, hincomplete⟩ := (haccounted.pending n).mp hmem
      rw [hget] at hother
      simp only [Option.some.injEq] at hother
      rw [hother, hincomplete] at hcomplete
      cases hcomplete
    · exact fun _ => hall
  · obtain ⟨_, _, hannounced⟩ := h.announces hreads
    constructor
    · exact haccounted.announced hannounced
    · rcases hannounced with ⟨hhereDoc, hdocs, _⟩ | ⟨hhereDoc, hd, _, hdocs, _⟩
      · simp [hdocs, hhereDoc]
      · simp [hdocs, hhereDoc, List.range_succ]
    · intro n hd hget _
      rcases hannounced with ⟨_, hdocs, _⟩ | ⟨_, other, _, hdocs, _⟩
      · rw [hdocs, hget]
      · rw [hdocs, List.getElem?_append_left (List.getElem?_eq_some_iff.mp hget).1, hget]
    · exact fun hreads' => absurd hreads' hreads

/-! ## Runs -/

/-- A lexer that has read nothing yet: of a whole source, or of a command substitution. -/
structure Lexer.Fresh (lexer : Lexer) : Prop where
  pos_le : lexer.pos ≤ lexer.source.length
  lastCharEnd : lexer.lastCharEnd = lexer.pos
  pending : lexer.pendingHereDocs = []
  hereDocs : lexer.hereDocs = []

/-- Calls of `Next` one after the other, with the tokens that they return. -/
inductive Calls (fuel : Nat) : Lexer → List Token → Lexer → Prop
  | none (lexer : Lexer) : Calls fuel lexer [] lexer
  | next {start lexer after : Lexer} {tokens : List Token} {token : Token} :
      Calls fuel start tokens lexer → (nextToken fuel).run lexer = .ok (token, after) →
      Calls fuel start (tokens ++ [token]) after

theorem Calls.none_eq {fuel : Nat} {start lexer : Lexer} {tokens : List Token}
    (h : Calls fuel start tokens lexer) (htokens : tokens = []) : lexer = start := by
  induction h with
  | none => rfl
  | next => simp at htokens

/-- What the calls so far have come to. -/
structure Tiled (start : Lexer) (tokens : List Token) (lexer : Lexer) : Prop extends
    Moves start lexer where
  count : lexer.pendingHereDocs.length + lexer.left ≤ start.left
  ranges : tokens.Pairwise fun token next => token.endsAt ≤ next.beginsAt
  inside : ∀ token ∈ tokens, start.pos ≤ token.beginsAt ∧ token.beginsAt ≤ token.endsAt ∧
    token.endsAt ≤ lexer.pos
  nonempty : ∀ token ∈ tokens, token.kind ≠ .endOfInput → token.beginsAt < token.endsAt
  words : ∀ token ∈ tokens, token.kind = .word →
    token.word.source = cut start.source token.beginsAt token.endsAt
  /-- Which documents the tokens announced, and which of them are still to be read. -/
  announced : tokens.filterMap Token.hereDoc = List.range lexer.hereDocs.length
  accounted : Accounted lexer

theorem TokenRead.begins_le {before after : Lexer} {token : Token}
    (h : TokenRead before token after) : token.beginsAt ≤ token.endsAt := by
  by_cases hkind : token.kind = .endOfInput
  · have := h.atEnd hkind
    omega
  · exact Nat.le_of_lt (h.nonempty hkind)

theorem Tiled.next {start lexer after : Lexer} {tokens : List Token} {token : Token}
    (h : Tiled start tokens lexer) (hread : TokenRead lexer token after) :
    Tiled start (tokens ++ [token]) after := by
  have hdocuments := hread.documents h.accounted
  have hbegins := hread.begins
  have hends := hread.ends
  have hbegins' := hread.begins_le
  have hpos := h.pos_le
  constructor
  · exact h.toMoves.trans hread.toMoves
  · exact hread.count.trans h.count
  · rw [List.pairwise_append]
    refine ⟨h.ranges, List.pairwise_singleton _ _, ?_⟩
    intro before hbefore next hnext
    rw [List.mem_singleton] at hnext
    have := h.inside before hbefore
    rw [hnext]
    omega
  · intro other hother
    rcases List.mem_append.mp hother with hother | hother
    · have := h.inside other hother
      have := hread.pos_le
      omega
    · rw [List.mem_singleton] at hother
      subst hother
      omega
  · intro other hother
    rcases List.mem_append.mp hother with hother | hother
    · exact h.nonempty other hother
    · rw [List.mem_singleton] at hother
      exact hother ▸ hread.nonempty
  · intro other hother
    rcases List.mem_append.mp hother with hother | hother
    · exact h.words other hother
    · rw [List.mem_singleton] at hother
      rw [← h.source]
      exact hother ▸ hread.word
  · rw [List.filterMap_append, h.announced, hdocuments.count]
    cases hhereDoc : token.hereDoc <;> simp [hhereDoc]
  · exact hdocuments.accounted

/-- What lies between two tokens that follow each other: the bodies of the documents that were
to be read, where the first one is a newline, and a gap. -/
def Filled (source : Text) (before : Lexer) (token : Token) (between : Lexer) (next : Token) :
    Prop :=
  ∃ middle, token.endsAt ≤ middle ∧ middle ≤ next.beginsAt ∧
    Gap (cut source middle next.beginsAt) ∧
    if token.kind.readsBodies then
      BodiesRead source before.pendingHereDocs token.endsAt middle before.hereDocs
        between.hereDocs
    else middle = token.endsAt

theorem Continued.gap {text text' : Text} (h : Continued text) (h' : Gap text') :
    Gap (text ++ text') := by
  cases h' with
  | blanks hblanks => exact .blanks (h.blanks hblanks)
  | comment hblanks hcomment =>
      rw [← List.append_assoc]
      exact .comment (h.blanks hblanks) hcomment

theorem TokenRead.filled {before between after : Lexer} {token next : Token}
    (h : TokenRead before token between) (h' : TokenRead between next after) :
    Filled before.source before token between next := by
  have hgap := h'.gap
  rw [h.source] at hgap
  by_cases hreads : token.kind.readsBodies
  · refine ⟨between.pos, h.ends, h'.begins, hgap, ?_⟩
    rw [if_pos hreads]
    exact (h.bodies hreads).2.2
  · obtain ⟨hends, htrailing, _⟩ := h.announces hreads
    refine ⟨token.endsAt, Nat.le_refl _, h.ends.trans h'.begins, ?_, ?_⟩
    · rw [Trailing, ← hends, h.source] at htrailing
      rw [cut_append h.ends h'.begins]
      exact htrailing.gap hgap
    · rw [if_neg hreads]

/-- Fuel for every call of `Next` on a source. -/
def fuelFor (lexer : Lexer) : Nat := 9 * lexer.source.length + 6

section

variable {start : Lexer} {fuel : Nat} (hfuel : fuelFor start ≤ fuel)
include hfuel

/-- After any calls so far, the next one ends. -/
theorem Tiled.ends {tokens : List Token} {lexer : Lexer} (h : Tiled start tokens lexer) :
    Ends (nextToken fuel) lexer fun token after => TokenRead lexer token after := by
  apply (readers_all fuel).next h.sound
  have hcount := h.count
  have hleft : start.left ≤ start.source.length := Nat.sub_le _ _
  have hleft' : lexer.left ≤ start.source.length := h.left_le.trans hleft
  rw [fuelFor] at hfuel
  omega

theorem Tiled.read {tokens : List Token} {lexer after : Lexer} {token : Token}
    (h : Tiled start tokens lexer) (hrun : (nextToken fuel).run lexer = .ok (token, after)) :
    TokenRead lexer token after := by
  rcases h.ends hfuel with ⟨read, last, hend, hread⟩ | ⟨error, hend⟩
  · rw [hrun] at hend
    obtain ⟨rfl, rfl⟩ := Prod.mk.inj (Except.ok.inj hend)
    exact hread
  · rw [hrun] at hend
    cases hend

theorem tiled_calls (hfresh : start.Fresh) {tokens : List Token} {lexer : Lexer}
    (hcalls : Calls fuel start tokens lexer) : Tiled start tokens lexer := by
  induction hcalls with
  | none =>
      have hsound : start.Sound := ⟨hfresh.pos_le, by rw [hfresh.lastCharEnd]⟩
      constructor
      · exact .refl hsound
      · simp [hfresh.pending]
      · exact .nil
      · simp
      · simp
      · simp
      · simp [hfresh.hereDocs]
      · exact ⟨by simp [hfresh.pending], by simp [hfresh.pending, hfresh.hereDocs]⟩
  | next _ hrun ih => exact ih.next (ih.read hfuel hrun)

/-- After any calls of `Next` the tokens tile what has been read, and the next call ends: with
a syntax error, at the end of the input or at least a character further on. -/
theorem calls_tile (hfresh : start.Fresh) {tokens : List Token} {lexer : Lexer}
    (hcalls : Calls fuel start tokens lexer) :
    Tiled start tokens lexer ∧
    ((∃ error, (nextToken fuel).run lexer = .error (.shellError error)) ∨
      ∃ token after, (nextToken fuel).run lexer = .ok (token, after) ∧
        (token.kind = .endOfInput ∨ lexer.pos < after.pos) ∧
        (tokens = [] → Gap (cut start.source start.pos token.beginsAt)) ∧
        Documents lexer token after ∧
        ∀ next last, (nextToken fuel).run after = .ok (next, last) →
          Filled start.source lexer token after next) := by
  have htiled := tiled_calls hfuel hfresh hcalls
  refine ⟨htiled, ?_⟩
  rcases htiled.ends hfuel with ⟨token, after, hrun, hread⟩ | herror
  · refine .inr ⟨token, after, hrun, ?_, ?_, hread.documents htiled.accounted, ?_⟩
    · by_cases hkind : token.kind = .endOfInput
      · exact .inl hkind
      · have hbegins := hread.begins
        have hnonempty := hread.nonempty hkind
        have hends := hread.ends
        exact .inr (by omega)
    · intro hnone
      rw [← htiled.source, ← hcalls.none_eq hnone]
      exact hread.gap
    · intro next last hnext
      rw [← htiled.source]
      exact hread.filled ((htiled.next hread).read hfuel hnext)
  · exact .inl herror

end

/-- The tokens of the first calls, where each of them ends well, and where they leave the lexer. -/
def callsOf (fuel : Nat) (start : Lexer) : Nat → Option (List Token × Lexer)
  | 0 => some ([], start)
  | n + 1 =>
      match callsOf fuel start n with
      | none => none
      | some (tokens, lexer) =>
          match (nextToken fuel).run lexer with
          | .ok (token, after) => some (tokens ++ [token], after)
          | .error _ => none

theorem calls_of_callsOf {fuel : Nat} {start : Lexer} {n : Nat} {tokens : List Token}
    {lexer : Lexer} (h : callsOf fuel start n = some (tokens, lexer)) :
    Calls fuel start tokens lexer := by
  induction n generalizing tokens lexer with
  | zero =>
      cases h
      exact .none start
  | succ n ih =>
      rw [callsOf] at h
      cases hbefore : callsOf fuel start n with
      | none => simp [hbefore] at h
      | some result =>
          obtain ⟨before, between⟩ := result
          cases hrun : (nextToken fuel).run between with
          | error error => simp [hbefore, hrun] at h
          | ok result =>
              obtain ⟨token, after⟩ := result
              simp only [hbefore, hrun, Option.some.injEq, Prod.mk.injEq] at h
              obtain ⟨rfl, rfl⟩ := h
              exact (ih hbefore).next hrun

def hereDocScript : Lexer := { source := text "cat <<E # in\nb $x\nE\nls \"a b\"\n" }

theorem calls_tile_hereDoc :
    ∃ tokens lexer, Calls 267 hereDocScript tokens lexer ∧
      (tokens.map fun token => (token.kind, token.beginsAt, token.endsAt)) =
        [(.word, 0, 3), (.doubleLess, 4, 6), (.word, 6, 7), (.newline, 12, 13), (.word, 20, 22),
          (.word, 23, 28), (.newline, 28, 29), (.endOfInput, 29, 29)] ∧
      Tiled hereDocScript tokens lexer ∧ lexer.pendingHereDocs = [] := by
  have hrun : (callsOf 267 hereDocScript 8).map (fun result =>
      (result.1.map (fun token => (token.kind, token.beginsAt, token.endsAt)),
        result.2.pendingHereDocs)) =
      some ([(.word, 0, 3), (.doubleLess, 4, 6), (.word, 6, 7), (.newline, 12, 13),
        (.word, 20, 22), (.word, 23, 28), (.newline, 28, 29), (.endOfInput, 29, 29)], []) := by
    decide +kernel
  obtain ⟨⟨tokens, lexer⟩, hcalls, hresult⟩ := Option.map_eq_some_iff.mp hrun
  obtain ⟨htokens, hpending⟩ := Prod.mk.inj hresult
  have hcalls := calls_of_callsOf hcalls
  have hfresh : hereDocScript.Fresh := ⟨by decide, rfl, rfl, rfl⟩
  exact ⟨tokens, lexer, hcalls, htokens, (calls_tile (by decide) hfresh hcalls).1, hpending⟩
end Haisos.Hsh
