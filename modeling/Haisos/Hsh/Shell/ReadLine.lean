import Haisos.Hsh.Expansion.FieldSplitting
import Haisos.Hsh.Redirection.Slots
import Haisos.Hsh.Shell.Builtins

/-!
# What `read` reads

`read` takes its line from the descriptor a byte at a time, and splits it among
its names by a loop of its own.  The line is compared with the input it was
written as, and the values with the fields that unquoted expansion of the same
text is split into.
-/

namespace Haisos.Hsh.Shell

open Delimited StateExcept

variable {ω D P : Type}

/-! ## A line of the input -/

/-- What a read of one byte comes back with: `ended` for any count that is not positive. -/
inductive ByteRead where
  | byte (c : Char)
  | interrupted
  | ended
  deriving DecidableEq, Repr

/-- A line's characters, with whether they may be split at. -/
abbrev Line := List (Char × Bool)

def ReadEnd.cons (c : Char × Bool) : ReadEnd (Line × Bool) → ReadEnd (Line × Bool)
  | .done (line, newline) => .done (c :: line, newline)
  | .failed (line, newline) => .failed (c :: line, newline)
  | .interrupted => .interrupted

/--
The loop of `read` over what a descriptor answers, one byte at a time, and what
it leaves.  A descriptor that has answered all this is at its end.
-/
def readLine (raw : Bool) : List ByteRead → ReadEnd (Line × Bool) × List ByteRead
  | [] => (.done ([], false), [])
  | .interrupted :: rest => (.interrupted, rest)
  | .ended :: rest => (.done ([], false), rest)
  | .byte c :: rest =>
      if c = '\n' then (.done ([], true), rest)
      else if !raw ∧ c = '\\' then
        match rest with
        | [] => (.done ([], false), [])
        | .interrupted :: rest => (.interrupted, rest)
        | .ended :: rest => (.done ([], false), rest)
        | .byte next :: rest =>
            if next = '\n' then readLine raw rest
            else
              let (ended, rest) := readLine raw rest
              (ended.cons (next, false), rest)
      else
        let (ended, rest) := readLine raw rest
        (ended.cons (c, true), rest)

/-- The input a line is written as, with the newline that ends it. -/
inductive Written (raw : Bool) : List ByteRead → Line → Prop where
  | newline : Written raw [.byte '\n'] []
  | plain {c : Char} {input : List ByteRead} {line : Line} (h : c ≠ '\n')
      (unescaped : raw = true ∨ c ≠ '\\') (rest : Written raw input line) :
      Written raw (.byte c :: input) ((c, true) :: line)
  | joined {input : List ByteRead} {line : Line} (h : raw = false) (rest : Written raw input line) :
      Written raw (.byte '\\' :: .byte '\n' :: input) line
  | escaped {c : Char} {input : List ByteRead} {line : Line} (h : raw = false) (hc : c ≠ '\n')
      (rest : Written raw input line) :
      Written raw (.byte '\\' :: .byte c :: input) ((c, false) :: line)

section

variable {raw : Bool} {rest : List ByteRead}

theorem readLine_newline : readLine raw (.byte '\n' :: rest) = (.done ([], true), rest) := by
  rw [readLine.eq_def]
  simp

theorem readLine_plain {c : Char} (h : c ≠ '\n') (unescaped : raw = true ∨ c ≠ '\\') :
    readLine raw (.byte c :: rest) =
      ((readLine raw rest).1.cons (c, true), (readLine raw rest).2) := by
  have hplain : ¬((!raw) = true ∧ c = '\\') := by
    rintro ⟨hraw, hc⟩
    rcases unescaped with hr | hn
    · simp [hr] at hraw
    · exact hn hc
  rw [readLine.eq_def]
  simp only [if_neg h, if_neg hplain]

theorem readLine_joined : readLine false (.byte '\\' :: .byte '\n' :: rest) = readLine false rest := by
  rw [readLine.eq_def]
  simp

theorem readLine_escaped {c : Char} (h : c ≠ '\n') :
    readLine false (.byte '\\' :: .byte c :: rest) =
      ((readLine false rest).1.cons (c, false), (readLine false rest).2) := by
  rw [readLine.eq_def]
  simp [h]

end

theorem readLine_of_written {raw : Bool} {input : List ByteRead} {line : Line}
    (h : Written raw input line) (rest : List ByteRead) :
    readLine raw (input ++ rest) = (.done (line, true), rest) := by
  induction h with
  | newline => exact readLine_newline
  | plain h unescaped _ ih => rw [List.cons_append, readLine_plain h unescaped, ih]; rfl
  | joined h _ ih =>
      subst h
      rw [List.cons_append, List.cons_append, readLine_joined, ih]
  | escaped h hc _ ih =>
      subst h
      rw [List.cons_append, List.cons_append, readLine_escaped hc, ih]
      rfl

theorem ReadEnd.cons_eq_done {c : Char × Bool} {ended : ReadEnd (Line × Bool)} {line : Line}
    {newline : Bool} (h : ended.cons c = .done (line, newline)) :
    ∃ tail, ended = .done (tail, newline) ∧ line = c :: tail := by
  cases ended with
  | done result =>
      obtain ⟨tail, newline'⟩ := result
      simp only [ReadEnd.cons, ReadEnd.done.injEq, Prod.mk.injEq] at h
      exact ⟨tail, by rw [h.2], h.1.symm⟩
  | interrupted => cases h
  | failed before => cases h

/--
What a read of a line takes of the input: all through a newline, if it finds
one.  Only a backslash protects.
-/
theorem readLine_takes (raw : Bool) (input : List ByteRead) :
    ∃ taken, input = taken ++ (readLine raw input).2 ∧
      ∀ line newline, (readLine raw input).1 = .done (line, newline) →
        (newline = true → Written raw taken line) ∧
          (raw = true ∨ .byte '\\' ∉ taken → ∀ c ∈ line, c.2 = true) := by
  fun_induction readLine raw input with
  | case1 =>
      refine ⟨[], rfl, ?_⟩
      rintro line newline ⟨⟩
      simp
  | case2 rest => exact ⟨[.interrupted], by simp⟩
  | case3 rest =>
      refine ⟨[.ended], rfl, ?_⟩
      rintro line newline ⟨⟩
      simp
  | case4 rest =>
      refine ⟨[.byte '\n'], rfl, ?_⟩
      rintro line newline ⟨⟩
      exact ⟨fun _ => .newline, by simp⟩
  | case5 c =>
      refine ⟨[.byte c], rfl, ?_⟩
      rintro line newline ⟨⟩
      simp
  | case6 c _ _ rest => exact ⟨[.byte c, .interrupted], by simp⟩
  | case7 c _ _ rest =>
      refine ⟨[.byte c, .ended], rfl, ?_⟩
      rintro line newline ⟨⟩
      simp
  | case8 c _ hraw rest ih =>
      obtain ⟨taken, hrest, htaken⟩ := ih
      obtain ⟨hraw, rfl⟩ := hraw
      refine ⟨.byte '\\' :: .byte '\n' :: taken, by rw [List.cons_append, List.cons_append, ← hrest],
        ?_⟩
      intro line newline hline
      obtain ⟨hwritten, hplain⟩ := htaken line newline hline
      have hraw : raw = false := by simpa using hraw
      exact ⟨fun h => .joined hraw (hwritten h), by simp [hraw]⟩
  | case9 c _ hraw next rest hnext ended after heq ih =>
      obtain ⟨taken, hrest, htaken⟩ := ih
      obtain ⟨hraw, rfl⟩ := hraw
      rw [heq] at hrest htaken
      refine ⟨.byte '\\' :: .byte next :: taken, by rw [hrest]; simp, ?_⟩
      intro line newline hline
      obtain ⟨tail, rfl, rfl⟩ := ReadEnd.cons_eq_done hline
      obtain ⟨hwritten, hplain⟩ := htaken tail newline rfl
      have hraw : raw = false := by simpa using hraw
      exact ⟨fun h => .escaped hraw hnext (hwritten h), by simp [hraw]⟩
  | case10 c rest hc hraw ended after heq ih =>
      obtain ⟨taken, hrest, htaken⟩ := ih
      rw [heq] at hrest htaken
      refine ⟨.byte c :: taken, by rw [hrest]; simp, ?_⟩
      intro line newline hline
      obtain ⟨tail, rfl, rfl⟩ := ReadEnd.cons_eq_done hline
      obtain ⟨hwritten, hplain⟩ := htaken tail newline rfl
      have hc' : raw = true ∨ c ≠ '\\' := by
        cases hr : raw with
        | true => exact .inl rfl
        | false => exact .inr fun h => hraw ⟨by simp [hr], h⟩
      refine ⟨fun h => .plain hc hc' (hwritten h), ?_⟩
      intro h a ha
      rcases List.mem_cons.mp ha with rfl | ha
      · rfl
      · exact hplain (h.imp id fun h => by simp only [List.mem_cons, not_or] at h; exact h.2) a ha

theorem readLine_newline_iff (raw : Bool) (input : List ByteRead) :
    (∃ line, (readLine raw input).1 = .done (line, true)) ↔
      ∃ taken rest line, input = taken ++ rest ∧ Written raw taken line := by
  constructor
  · rintro ⟨line, hline⟩
    obtain ⟨taken, hinput, hwritten⟩ := readLine_takes raw input
    exact ⟨taken, _, line, hinput, (hwritten line true hline).1 rfl⟩
  · rintro ⟨taken, rest, line, rfl, hwritten⟩
    exact ⟨line, by rw [readLine_of_written hwritten]⟩

/-- Reads one after another part the input between them, in order. -/
theorem readLine_successive (raws : List Bool) (input : List ByteRead) :
    ∃ pieces : List (List ByteRead), pieces.length = raws.length ∧
      input = pieces.flatten ++ raws.foldl (fun input raw => (readLine raw input).2) input := by
  induction raws generalizing input with
  | nil => exact ⟨[], by simp⟩
  | cons raw raws ih =>
      obtain ⟨taken, htaken, -⟩ := readLine_takes raw input
      obtain ⟨pieces, hlength, hpieces⟩ := ih (readLine raw input).2
      refine ⟨taken :: pieces, by simp [hlength], ?_⟩
      rw [List.flatten_cons, List.foldl_cons, List.append_assoc, ← hpieces, ← htaken]

/-! ## The values of the names -/

/-- What the names of `read` are given. -/
def readValues (ifs : Text) (names : Nat) (line : Line) : List Text :=
  splitLine ifs names (line.dropWhile (splitsAtWhite ifs))

def splitsAtOther (ifs : Text) (c : Char × Bool) : Bool :=
  splitsAt ifs c && !splitsAtWhite ifs c

def trimmedEnd (ifs : Text) (line : Line) : Text :=
  (line.rdropWhile (splitsAtWhite ifs)).map (·.1)

section

variable {ifs : Text}

theorem splitsAtWhite_splitsAt {c : Char × Bool} (h : splitsAtWhite ifs c = true) :
    splitsAt ifs c = true := by
  simp only [splitsAtWhite, splitsAt, Bool.and_eq_true] at h ⊢
  exact ⟨h.1.1, h.2⟩

theorem splitsAtOther_splitsAt {c : Char × Bool} (h : splitsAtOther ifs c = true) :
    splitsAt ifs c = true := by
  simp only [splitsAtOther, Bool.and_eq_true] at h
  exact h.1

theorem splitsAtOther_white {c : Char × Bool} (h : splitsAtOther ifs c = true) :
    splitsAtWhite ifs c = false := by
  simp only [splitsAtOther, Bool.and_eq_true, Bool.not_eq_true'] at h
  exact h.2

theorem splitsAt_of_plain {c : Char × Bool}
    (h : splitsAtWhite ifs c = false ∧ splitsAtOther ifs c = false) : splitsAt ifs c = false := by
  obtain ⟨hwhite, hother⟩ := h
  simpa [splitsAtOther, hwhite] using hother

theorem takeWhile_field {field rest : Line}
    (plain : Delimited.Plain (splitsAtWhite ifs) (splitsAtOther ifs) field)
    (next : ∀ c ∈ rest.head?, splitsAt ifs c = true) :
    ((field ++ rest).takeWhile fun c => !splitsAt ifs c) = field ∧
      ((field ++ rest).dropWhile fun c => !splitsAt ifs c) = rest := by
  have hfield : ∀ c ∈ field, (!splitsAt ifs c) = true := by
    intro c hc
    simp [splitsAt_of_plain (plain c hc)]
  rw [List.takeWhile_append_of_pos hfield, List.dropWhile_append_of_pos hfield]
  cases rest with
  | nil => simp
  | cons c rest => simp [next c (by simp)]

theorem dropWhile_white {run rest : Line} (h : White (splitsAtWhite ifs) run)
    (next : NotWhiteNext (splitsAtWhite ifs) rest) :
    (run ++ rest).dropWhile (splitsAtWhite ifs) = rest := by
  rw [List.dropWhile_append_of_pos h]
  cases rest with
  | nil => rfl
  | cons c rest => simp [next c (by simp)]

theorem dropDelimiter_white {run rest : Line} (h : White (splitsAtWhite ifs) run)
    (next : PlainNext (splitsAtWhite ifs) (splitsAtOther ifs) rest) :
    dropDelimiter ifs (run ++ rest) = rest := by
  rw [dropDelimiter, dropWhile_white h next.notWhiteNext]
  cases rest with
  | nil => rfl
  | cons c rest => simp [splitsAt_of_plain (next c (by simp))]

theorem dropDelimiter_other {before after rest : Line} {mark : Char × Bool}
    (hbefore : White (splitsAtWhite ifs) before) (hmark : splitsAtOther ifs mark = true)
    (hafter : White (splitsAtWhite ifs) after) (next : NotWhiteNext (splitsAtWhite ifs) rest) :
    dropDelimiter ifs (before ++ mark :: (after ++ rest)) = rest := by
  have hhead : NotWhiteNext (splitsAtWhite ifs) (mark :: (after ++ rest)) := by
    simpa [NotWhiteNext] using splitsAtOther_white hmark
  rw [dropDelimiter, dropWhile_white hbefore hhead]
  simp [splitsAtOther_splitsAt hmark, dropWhile_white hafter next]

/--
So many names but the last are given a field each, or nothing when there are no
more, and the last is given the rest of the line.
-/
def GivesFields (ifs : Text) (names : Nat) (line : Line) (fields : List Line) : Prop :=
  ∃ passed rest, line = passed ++ rest ∧ NotWhiteNext (splitsAtWhite ifs) rest ∧
    Divided (splitsAtWhite ifs) (splitsAtOther ifs) rest (fields.drop names) ∧
    splitLine ifs (names + 1) line =
      (fields.take names).map (List.map (·.1)) ++
        List.replicate (names - fields.length) [] ++ [trimmedEnd ifs rest]

theorem GivesFields.zero {line : Line} {fields : List Line}
    (h : Divided (splitsAtWhite ifs) (splitsAtOther ifs) line fields)
    (hline : NotWhiteNext (splitsAtWhite ifs) line) : GivesFields ifs 0 line fields :=
  ⟨[], line, rfl, hline, by simpa using h, by simp [splitLine, trimmedEnd, List.rdropWhile]⟩

theorem GivesFields.nil (ifs : Text) (names : Nat) : GivesFields ifs names [] [] := by
  induction names with
  | zero => exact .zero .none (by simp [NotWhiteNext])
  | succ names ih =>
      obtain ⟨passed, rest, hrest, hnext, hdivided, hsplit⟩ := ih
      refine ⟨passed, rest, hrest, hnext, by simpa using hdivided, ?_⟩
      rw [splitLine, List.takeWhile_nil, List.dropWhile_nil,
        show dropDelimiter ifs [] = [] from rfl, hsplit]
      simp [List.replicate_succ]

/-- One name takes a field and the delimiter after it. -/
theorem GivesFields.cons {names : Nat} {field delimiter rest : Line} {fields : List Line}
    (h : GivesFields ifs names rest fields)
    (plain : Delimited.Plain (splitsAtWhite ifs) (splitsAtOther ifs) field)
    (next : ∀ c ∈ (delimiter ++ rest).head?, splitsAt ifs c = true)
    (hdrop : dropDelimiter ifs (delimiter ++ rest) = rest) :
    GivesFields ifs (names + 1) (field ++ (delimiter ++ rest)) (field :: fields) := by
  obtain ⟨passed, last, rfl, hlast, hdivided, hsplit⟩ := h
  obtain ⟨htake, hafter⟩ := takeWhile_field plain next
  refine ⟨field ++ (delimiter ++ passed), last, by simp, hlast, by simpa using hdivided, ?_⟩
  rw [splitLine, htake, hafter, hdrop, hsplit]
  simp

theorem givesFields_of_divided {line : Line} {fields : List Line}
    (h : Divided (splitsAtWhite ifs) (splitsAtOther ifs) line fields)
    (hline : NotWhiteNext (splitsAtWhite ifs) line) (names : Nat) :
    GivesFields ifs names line fields := by
  induction h generalizing names with
  | none => exact .nil ifs names
  | @last field present plain =>
      cases names with
      | zero => exact .zero (.last present plain) hline
      | succ names =>
          have h : GivesFields ifs (names + 1) (field ++ ([] ++ [])) [field] :=
            .cons (.nil ifs names) plain (by simp) rfl
          simpa using h
  | @white field run rest fields present plain delimits run_white next divided ih =>
      cases names with
      | zero => exact .zero (.white present plain delimits run_white next divided) hline
      | succ names =>
          refine .cons (ih next.notWhiteNext names) plain ?_ (dropDelimiter_white run_white next)
          cases run with
          | nil => exact absurd rfl delimits
          | cons c run =>
              rw [white_cons] at run_white
              simpa using splitsAtWhite_splitsAt run_white.1
  | @hard field before after rest mark fields plain before_white before_taken mark_hard
      after_white next divided ih =>
      cases names with
      | zero =>
          exact .zero (.hard plain before_white before_taken mark_hard after_white next divided)
            hline
      | succ names =>
          have happend : before ++ mark :: (after ++ rest) = before ++ mark :: after ++ rest := by
            simp
          rw [happend]
          refine .cons (ih next names) plain ?_ ?_
          · cases before with
            | nil => simpa using splitsAtOther_splitsAt mark_hard
            | cons c before =>
                rw [white_cons] at before_white
                simpa using splitsAtWhite_splitsAt before_white.1
          · rw [← happend]
            exact dropDelimiter_other before_white mark_hard after_white next

/-! ## The fields of a line -/

/-- A line as unquoted expansion emits it: what a backslash protected is not split at. -/
def lineElements (line : Line) : List Element := line.map fun c => .char c.1 false c.2

/-- The fields that unquoted expansion of the line's text is split into. -/
def fieldsOfLine (ifs : Text) (line : Line) : List Text :=
  (splitField ifs (lineElements line)).map textOf

theorem splitsWhite_char (ifs : Text) (c : Char × Bool) :
    splitsWhite ifs (.char c.1 false c.2) = splitsAtWhite ifs c := by
  obtain ⟨c, splittable⟩ := c
  cases splittable <;> simp [splitsWhite, splitsAtWhite]

theorem splitsNonWhite_char (ifs : Text) (c : Char × Bool) :
    splitsNonWhite ifs (.char c.1 false c.2) = splitsAtOther ifs c := by
  obtain ⟨c, splittable⟩ := c
  cases splittable
  · simp [splitsNonWhite, splitsAtOther, splitsAt]
  · cases hwhite : (c == ' ' || c == '\t' || c == '\n') <;>
      simp [splitsNonWhite, splitsAtOther, splitsAt, splitsAtWhite, hwhite]

theorem textOf_unmarked_lineElements (field : Line) :
    textOf (unmarked (lineElements field)) = field.map (·.1) := by
  induction field with
  | nil => rfl
  | cons c field ih =>
      rw [lineElements, List.map_cons, unmarked_cons, textOf, List.flatMap_append]
      simp only [textOf, lineElements] at ih
      rw [ih]
      rfl

theorem fieldsOfLine_of_divides {line : Line} {fields : List Line}
    (h : Divides (splitsAtWhite ifs) (splitsAtOther ifs) line fields) :
    fieldsOfLine ifs line = fields.map (List.map (·.1)) := by
  have hmap := h.map (splitsWhite_char ifs) (splitsNonWhite_char ifs)
  rw [fieldsOfLine, lineElements, splitField_of_divides hmap, List.map_map, List.map_map]
  exact List.map_congr_left fun field _ => textOf_unmarked_lineElements field

/-! ## The last name -/

/--
What `read` gives its names if it splits as expansion does: the fields, and
nothing to the names left over; or, when the fields are more than the names, the
last name the line from its own field on.
-/
def ReadAsExpanded (ifs : Text) (names : Nat) (line : Line) (values : List Text) : Prop :=
  if (fieldsOfLine ifs line).length ≤ names then
    values = fieldsOfLine ifs line ++ List.replicate (names - (fieldsOfLine ifs line).length) []
  else
    ∃ passed rest, line = passed ++ rest ∧ NotWhiteNext (splitsAtWhite ifs) rest ∧
      fieldsOfLine ifs rest = (fieldsOfLine ifs line).drop (names - 1) ∧
      values = (fieldsOfLine ifs line).take (names - 1) ++ [trimmedEnd ifs rest]

/-- The names are as many as the fields, and a character that is not white ends the last one. -/
def EndsInDelimiter (ifs : Text) (names : Nat) (line : Line) : Prop :=
  (fieldsOfLine ifs line).length = names ∧
    ∃ c ∈ (line.rdropWhile (splitsAtWhite ifs)).getLast?, splitsAt ifs c = true

theorem rdropWhile_white (front : Line) {run : Line} (h : White (splitsAtWhite ifs) run) :
    (front ++ run).rdropWhile (splitsAtWhite ifs) = front.rdropWhile (splitsAtWhite ifs) := by
  induction run using List.reverseRecOn with
  | nil => rw [List.append_nil]
  | append_singleton run c ih =>
      have hc : splitsAtWhite ifs c = true := h c (by simp)
      rw [← List.append_assoc, List.rdropWhile_concat_pos _ _ _ hc]
      exact ih fun a ha => h a (by simp [ha])

theorem getLast?_rdropWhile_append (front : Line) {line : Line}
    (h : line.rdropWhile (splitsAtWhite ifs) ≠ []) :
    ((front ++ line).rdropWhile (splitsAtWhite ifs)).getLast? =
      (line.rdropWhile (splitsAtWhite ifs)).getLast? := by
  induction line using List.reverseRecOn with
  | nil => exact absurd rfl h
  | append_singleton line c ih =>
      rw [← List.append_assoc]
      by_cases hc : splitsAtWhite ifs c = true
      · rw [List.rdropWhile_concat_pos _ _ _ hc] at h ⊢
        rw [List.rdropWhile_concat_pos _ _ _ hc]
        exact ih h
      · rw [List.rdropWhile_concat_neg _ _ _ hc, List.rdropWhile_concat_neg _ _ _ hc]
        simp

theorem rdropWhile_plain {field : Line}
    (plain : Delimited.Plain (splitsAtWhite ifs) (splitsAtOther ifs) field) :
    field.rdropWhile (splitsAtWhite ifs) = field := by
  induction field using List.reverseRecOn with
  | nil => rfl
  | append_singleton field c _ =>
      have hc : ¬splitsAtWhite ifs c = true := by simp [(plain c (by simp)).1]
      rw [List.rdropWhile_concat_neg _ _ _ hc]

theorem divided_nil {line : Line}
    (h : Divided (splitsAtWhite ifs) (splitsAtOther ifs) line []) : line = [] := by
  cases h
  rfl

/-- What is left for the last name is its field, unless a delimiter other than white space ends it. -/
theorem trimmedEnd_lastField {rest field : Line}
    (h : Divided (splitsAtWhite ifs) (splitsAtOther ifs) rest [field]) :
    rest.rdropWhile (splitsAtWhite ifs) ≠ [] ∧
      (trimmedEnd ifs rest = field.map (·.1) ↔
        ¬∃ c ∈ (rest.rdropWhile (splitsAtWhite ifs)).getLast?, splitsAt ifs c = true) := by
  have hplain {field : Line} (plain : Delimited.Plain (splitsAtWhite ifs) (splitsAtOther ifs) field) :
      ¬∃ c ∈ field.getLast?, splitsAt ifs c = true := by
    rintro ⟨c, hc, hsplits⟩
    have := splitsAt_of_plain (plain c (List.mem_of_getLast? hc))
    simp [hsplits] at this
  cases h with
  | last present plain =>
      rw [trimmedEnd, rdropWhile_plain plain]
      exact ⟨present, by simp only [hplain plain, not_false_eq_true]⟩
  | @white _ run rest _ present plain delimits run_white next divided =>
      rw [divided_nil divided, List.append_nil, trimmedEnd, rdropWhile_white _ run_white,
        rdropWhile_plain plain]
      exact ⟨present, by simp only [hplain plain, not_false_eq_true]⟩
  | @hard _ before after rest mark _ plain before_white before_taken mark_hard after_white next
      divided =>
      have happend : field ++ (before ++ mark :: (after ++ [])) =
          field ++ before ++ [mark] ++ after := by simp
      have hmark : ¬splitsAtWhite ifs mark = true := by simp [splitsAtOther_white mark_hard]
      rw [divided_nil divided, happend, trimmedEnd, rdropWhile_white _ after_white,
        List.rdropWhile_concat_neg _ _ _ hmark]
      refine ⟨by simp, ?_⟩
      constructor
      · intro h
        have := congrArg List.length h
        simp at this
      · intro h
        exact absurd ⟨mark, by simp, splitsAtOther_splitsAt mark_hard⟩ h

theorem readValues_iff (ifs : Text) (names : Nat) (line : Line) :
    ReadAsExpanded ifs (names + 1) line (readValues ifs (names + 1) line) ↔
      ¬EndsInDelimiter ifs (names + 1) line := by
  obtain ⟨fields, hfields⟩ := exists_divides (splitsAtWhite ifs) (splitsAtOther ifs) line
  have htexts := fieldsOfLine_of_divides hfields
  have hlength : (fieldsOfLine ifs line).length = fields.length := by simp [htexts]
  obtain ⟨lead, start, rfl, hlead, hstart, hdivided⟩ := hfields
  obtain ⟨passed, rest, rfl, hrest, hlast, hsplit⟩ :=
    givesFields_of_divided hdivided hstart names
  rw [readValues, dropWhile_white hlead hstart, hsplit, ReadAsExpanded, EndsInDelimiter, hlength]
  rcases Nat.lt_trichotomy fields.length (names + 1) with hless | hsame | hmore
  · have hnone : fields.drop names = [] := List.drop_eq_nil_of_le (by omega)
    rw [hnone] at hlast
    have hsub : names + 1 - fields.length = (names - fields.length) + 1 := by omega
    rw [if_pos hless.le, htexts, List.take_of_length_le (by omega), divided_nil hlast, hsub,
      List.replicate_succ']
    simp only [hless.ne, false_and, not_false_eq_true, iff_true]
    simp [trimmedEnd]
  · obtain ⟨field, hfield⟩ : ∃ field, fields.drop names = [field] := by
      rw [← List.length_eq_one_iff, List.length_drop]
      omega
    rw [hfield] at hlast
    obtain ⟨hkept, hgiven⟩ := trimmedEnd_lastField hlast
    have htaken : fields.map (List.map (·.1)) =
        (fields.take names).map (List.map (·.1)) ++ [field.map (·.1)] := by
      conv_lhs => rw [← List.take_append_drop names fields, hfield]
      simp
    have hnone : names - (names + 1) = 0 := by omega
    rw [if_pos hsame.le, htexts, hsame, ← List.append_assoc, getLast?_rdropWhile_append _ hkept,
      htaken, hnone]
    simp only [true_and, Nat.sub_self, List.replicate_zero, List.append_nil,
      List.append_cancel_left_eq, List.cons.injEq, and_true]
    exact hgiven
  · rw [if_neg (by omega)]
    have hnot : ¬(fields.length = names + 1) := by omega
    simp only [hnot, false_and, not_false_eq_true, iff_true]
    refine ⟨lead ++ passed, rest, by simp, hrest, ?_, ?_⟩
    · have hdivides : Divides (splitsAtWhite ifs) (splitsAtOther ifs) rest (fields.drop names) :=
        ⟨[], rest, rfl, by simp, hrest, hlast⟩
      rw [fieldsOfLine_of_divides hdivides, htexts, List.map_drop]
      rfl
    · rw [htexts, ← List.map_take]
      have hall : names - fields.length = 0 := by omega
      simp [hall]

end

/-! ## The builtin -/

/-- A machine whose reads of a line take it from what its descriptors answer, byte by byte. -/
structure ReadsBytes (machine : Machine ω D P) (upcoming : D → ω → List ByteRead) : Prop where
  line : ∀ raw d outside,
    (machine.readLine raw d outside).1 = (readLine raw (upcoming d outside)).1
  left : ∀ raw d outside,
    upcoming d (machine.readLine raw d outside).2 = (readLine raw (upcoming d outside)).2

variable (machine : Machine ω D P)

/-- `-p`: the prompt is written only where the input is a terminal. -/
def askPrompt (prompt : Option Text) (input : D) : Sh ω D P Unit := do
  let files := (← getMembers).files
  if let some prompt := prompt then
    if machine.isTerminal input files.outside then writeErr machine prompt

/-- The world after a line has been read. -/
def afterLine (raw : Bool) (input : D) (world : World (Members ω D P)) : World (Members ω D P) :=
  { world with outside := (world.outside.onOutside (machine.readLine raw input)).2 }

theorem exec_builtinRead {arguments : List Text} {read : ReadArguments} {input : D}
    {world asked : World (Members ω D P)} {line : Line} {newline : Bool}
    (harguments : readArguments arguments = .ok read)
    (hinput : (system machine).getDescriptor standardInput world.outside = some input)
    (hasked : exec (askPrompt machine read.prompt input) world = (.ok (), asked))
    (hline : (machine.readLine read.raw input asked.outside.files.outside).1 =
      .done (line, newline)) :
    exec (builtinRead machine arguments) world =
      exec (builtinRead.assignLine read.names line newline)
        (afterLine machine read.raw input asked) := by
  have hlook : exec (look ((system machine).getDescriptor standardInput) : Sh ω D P _) world =
      (.ok (some input), world) := by
    rw [exec_look, hinput]
  have hread : exec (perform (Members.onOutside (machine.readLine read.raw input)) : Sh ω D P _)
      asked = (.ok (.done (line, newline)), afterLine machine read.raw input asked) := by
    rw [exec_perform]
    exact Prod.ext (congrArg Except.ok hline) rfl
  have hmembers : exec (getMembers : Sh ω D P (Members ω D P)) world = (.ok world.outside, world) :=
    rfl
  rw [askPrompt, exec_bind_ok hmembers] at hasked
  rw [builtinRead, harguments]
  dsimp only
  rw [exec_bind_ok hlook, exec_bind_ok hmembers]
  cases hprompt : read.prompt with
  | none =>
      rw [hprompt] at hasked
      obtain rfl : world = asked := congrArg Prod.snd hasked
      exact exec_bind_ok hread
  | some prompt =>
      rw [hprompt] at hasked
      dsimp only [Option.map, Option.getD] at hasked ⊢
      split_ifs at hasked ⊢ with hterminal
      · rw [exec_bind_ok hasked]
        exact exec_bind_ok hread
      · obtain rfl : world = asked := congrArg Prod.snd hasked
        exact exec_bind_ok hread

def unquotedElements (value : Text) : List Element :=
  (({} : PendingFields).emitValue false value).current

theorem lineElements_unprotected {line : Line} (h : ∀ c ∈ line, c.2 = true) :
    lineElements line = unquotedElements (line.map (·.1)) := by
  simp only [lineElements, unquotedElements, PendingFields.emitValue, PendingFields.emitChars,
    PendingFields.emitElements, List.map_map, Bool.false_eq_true, if_false, List.nil_append]
  refine List.map_congr_left fun c hc => ?_
  rw [Function.comp_apply, h c hc]

/--
What a read of a line promises, for the line it took from the input and the
values it gives so many names: nothing past the newline is taken, the newline
is found if there is one, reads one after another part the input, and a line
without backslashes is split as its unquoted expansion is.
-/
structure ReadLaw (raw : Bool) (ifs : Text) (names : Nat) (input rest : List ByteRead)
    (line : Line) (newline : Bool) (values : List Text) : Prop where
  found : newline = true ↔
    ∃ taken rest line, input = taken ++ rest ∧ Written raw taken line
  successive : ∀ raws : List Bool, ∃ pieces : List (List ByteRead), pieces.length = raws.length ∧
    input = pieces.flatten ++ raws.foldl (fun input raw => (readLine raw input).2) input
  taken : ∃ taken, input = taken ++ rest ∧ (newline = true → Written raw taken line) ∧
    (raw = true ∨ .byte '\\' ∉ taken →
      lineElements line = unquotedElements (line.map (·.1)) ∧
        ReadAsExpanded ifs names line values)

theorem readLaw_iff {raw newline : Bool} {input rest : List ByteRead} {line : Line} {names : Nat}
    (ifs : Text) (hnames : 0 < names) (hline : readLine raw input = (.done (line, newline), rest)) :
    ReadLaw raw ifs names input rest line newline (readValues ifs names line) ↔
      ∀ taken, input = taken ++ rest → raw = true ∨ .byte '\\' ∉ taken →
        ¬EndsInDelimiter ifs names line := by
  obtain ⟨taken, htaken, hdone⟩ := readLine_takes raw input
  rw [hline] at htaken hdone
  obtain ⟨hwritten, hplain⟩ := hdone line newline rfl
  have hvalues : ReadAsExpanded ifs names line (readValues ifs names line) ↔
      ¬EndsInDelimiter ifs names line := by
    cases names with
    | zero => exact absurd hnames (Nat.lt_irrefl 0)
    | succ names => exact readValues_iff ifs names line
  constructor
  · rintro ⟨-, -, taken', htaken', -, hsplits⟩ other hother hraw
    obtain rfl : taken' = other := List.append_cancel_right (htaken'.symm.trans hother)
    exact hvalues.mp (hsplits hraw).2
  · intro hends
    refine ⟨?_, fun raws => readLine_successive raws input, taken, htaken, hwritten, ?_⟩
    · rw [← readLine_newline_iff, hline]
      simp
    · intro hraw
      exact ⟨lineElements_unprotected (hplain hraw), hvalues.mpr (hends taken htaken hraw)⟩

theorem readArguments_names_pos {arguments : List Text} {read : ReadArguments}
    (h : readArguments arguments = .ok read) : 0 < read.names.length := by
  rw [readArguments] at h
  split at h
  · cases h
  split at h
  · cases h
  split_ifs at h with hnames
  cases h
  rw [List.length_pos_iff]
  simpa using hnames

/--
`read` takes its line and gives its names what the fields of the line's unquoted
expansion are, except that the last name keeps a delimiter that is not white
space where the names are as many as the fields.
-/
theorem builtinRead_law_iff {machine : Machine ω D P} {upcoming : D → ω → List ByteRead}
    (hbytes : ReadsBytes machine upcoming) {arguments : List Text} {read : ReadArguments}
    {input : D} {world asked : World (Members ω D P)} {line : Line} {newline : Bool}
    {rest : List ByteRead} (harguments : readArguments arguments = .ok read)
    (hinput : (system machine).getDescriptor standardInput world.outside = some input)
    (hasked : exec (askPrompt machine read.prompt input) world = (.ok (), asked))
    (hline : readLine read.raw (upcoming input asked.outside.files.outside) =
      (.done (line, newline), rest)) :
    exec (builtinRead machine arguments) world =
        exec (do
          assignAll (read.names.zip (readValues (ifsOf asked.state) read.names.length line))
          pure (if newline then 0 else 1)) (afterLine machine read.raw input asked) ∧
      upcoming input (afterLine machine read.raw input asked).outside.files.outside = rest ∧
      (ReadLaw read.raw (ifsOf asked.state) read.names.length
          (upcoming input asked.outside.files.outside) rest line newline
          (readValues (ifsOf asked.state) read.names.length line) ↔
        ∀ taken, upcoming input asked.outside.files.outside = taken ++ rest →
          read.raw = true ∨ .byte '\\' ∉ taken →
            ¬EndsInDelimiter (ifsOf asked.state) read.names.length line) := by
  refine ⟨?_, ?_, readLaw_iff _ (readArguments_names_pos harguments) hline⟩
  · rw [exec_builtinRead machine harguments hinput hasked
      ((hbytes.line ..).trans (congrArg Prod.fst hline)), builtinRead.assignLine]
    rfl
  · exact (hbytes.left ..).trans (congrArg Prod.snd hline)

/-- A machine whose every descriptor answers one list of bytes. -/
def byteMachine : Machine (List ByteRead) Nat Unit where
  openFile _ _ outside := (none, outside)
  stat _ _ := none
  readDirectory _ _ := []
  createPipe _ outside := (none, outside)
  write _ output outside := (.written output.length, outside)
  createUnboundedPipe outside := ((1024, 1025), outside)
  createNullInput outside := (1026, outside)
  createClosed outside := (1027, outside)
  release _ outside := outside
  readWhole _ outside := (.done [], outside)
  isTerminal _ _ := false
  readLine raw _ outside := readLine raw outside
  stopRequested _ := false
  stopForBrokenPipe outside := outside
  startProcess _ outside := (none, outside)
  waitToFinish _ _ outside := (0, outside)
  isFinished _ _ := true
  processId _ := 0
  shellPath := text "/bin/hsh"

/-- A shell whose IFS is a colon, and whose input is a text. -/
def colonWorld (input : Text) : World (Members (List ByteRead) Nat Unit) where
  state := { vars := ({} : ShellVariables).update (text "IFS") { value := some [':'] } }
  outside :=
    { files := { descriptors := ⟨[some 0], by decide⟩, outside := input.map .byte } }

theorem byteMachine_readsBytes : ReadsBytes byteMachine fun _ outside => outside :=
  ⟨fun _ _ _ => rfl, fun _ _ _ => rfl⟩

theorem builtinRead_law_iff_colon :
    readValues [':'] 1 [('x', true), (':', true), ('y', true)] = [text "x:y"] ∧
      (ReadLaw false [':'] 1 ((text "x:y\n").map ByteRead.byte) []
          [('x', true), (':', true), ('y', true)] true [text "x:y"] ↔
        ∀ taken, (text "x:y\n").map ByteRead.byte = taken ++ [] →
          false = true ∨ ByteRead.byte '\\' ∉ taken →
            ¬EndsInDelimiter [':'] 1 [('x', true), (':', true), ('y', true)]) := by
  have hinput : (system byteMachine).getDescriptor standardInput (colonWorld (text "x:y\n")).outside =
      some 0 := rfl
  have harguments : readArguments [['a']] = .ok { names := [['a']] } := rfl
  have hline : readLine false ((text "x:y\n").map ByteRead.byte) =
      (.done ([('x', true), (':', true), ('y', true)], true), []) := rfl
  exact ⟨rfl, (builtinRead_law_iff byteMachine_readsBytes harguments hinput rfl hline).2.2⟩

/-- The line is one field, `x`, for one name, which is given `x:`. -/
theorem builtinRead_keepsDelimiter :
    (exec (builtinRead byteMachine [['a']]) (colonWorld (text "x:\n"))).2.state.vars.get ['a'] =
        some (text "x:") ∧
      fieldsOfLine [':'] [('x', true), (':', true)] = [['x']] ∧
      readValues [':'] 1 [('x', true), (':', true)] = [text "x:"] ∧
      ¬ReadLaw false [':'] 1 ((text "x:\n").map ByteRead.byte) [] [('x', true), (':', true)] true
          [text "x:"] := by
  refine ⟨rfl, rfl, rfl, ?_⟩
  intro law
  have hline : readLine false ((text "x:\n").map ByteRead.byte) =
      (.done ([('x', true), (':', true)], true), []) := rfl
  have hends := (readLaw_iff [':'] Nat.zero_lt_one hline).mp law ((text "x:\n").map ByteRead.byte)
    (by simp) (.inr (by decide))
  exact hends ⟨rfl, (':', true), rfl, rfl⟩

end Haisos.Hsh.Shell
