import Haisos.Hsh.Lexer.ReadBack
import Haisos.ShellWords

/-!
# Quoted file names

`ShellEscapeQuoted` of `BuiltinCommand.cpp`, as shell input: read by POSIX rules with
`$'...'` beside them, and by hsh's own lexer and expander.
-/

namespace Haisos.BuiltinCommands

open Hsh (Text text)

def isControl (c : Char) : Bool := c.toNat < 0x20 || c.toNat == 0x7f

def shellEscapeSpecial (c : Char) : Bool :=
  isControl c ||
    [' ', '!', '"', '$', '&', '\'', '(', ')', '*', ';', '<', '=', '>', '?', '[', '\\', '^', '`',
      '|'].contains c

def shellEscapeNeedsQuoting (name : Text) : Bool :=
  name.isEmpty || name.head? == some '#' || name.head? == some '~' ||
    name == text "\x7b" || name == text "\x7d" || name.any shellEscapeSpecial

/-- `\%03o`. -/
def octalEscape (c : Char) : Text := '\\' :: (Nat.toDigits 8 c.toNat).leftpad 3 '0'

/-- The `$'...'` body of one control byte. -/
def appendControlEscape (c : Char) : Text :=
  if c.toNat = 7 then text "\\a"
  else if c.toNat = 8 then text "\\b"
  else if c.toNat = 9 then text "\\t"
  else if c.toNat = 10 then text "\\n"
  else if c.toNat = 11 then text "\\v"
  else if c.toNat = 12 then text "\\f"
  else if c.toNat = 13 then text "\\r"
  else octalEscape c

def doubleQuotesRead (c : Char) : Bool :=
  (text "!\"$&()*;<=>?[\\^`|").contains c

def escapeFrom : Text → Text
  | [] => []
  | c :: rest =>
      if isControl c then
        text "'$'" ++ ((c :: rest).takeWhile isControl).flatMap appendControlEscape ++ ['\''] ++
          (if (rest.dropWhile isControl).isEmpty then [] else ['\'']) ++
          escapeFrom (rest.dropWhile isControl)
      else if c = '\'' then text "'\\''" ++ escapeFrom rest
      else c :: escapeFrom rest
  termination_by name => name.length
  decreasing_by
    · have := (List.dropWhile_suffix isControl (l := rest)).length_le
      simp only [List.length_cons]
      omega
    all_goals simp

def shellEscapeQuoted (name : Text) (always : Bool) : Text :=
  if ¬ shellEscapeNeedsQuoting name then if always then '\'' :: name ++ ['\''] else name
  else if ¬ name.any isControl ∧ ¬ name.contains '\'' then '\'' :: name ++ ['\'']
  else if ¬ name.any isControl ∧ ¬ name.any doubleQuotesRead then '"' :: name ++ ['"']
  else
    '\'' :: escapeFrom name ++ (if name.getLast?.any isControl then [] else ['\''])

/-! ## Read as POSIX shell input -/

section Posix

open ShellWords

variable {words : List Text} {word : Text}

theorem run_appendControlEscape_ofNat {n : Nat} (h : n < 0x20 ∨ n = 0x7f) :
    run ⟨words, some word, .dollarSingle⟩ (appendControlEscape (Char.ofNat n)) =
      some ⟨words, some (word ++ [Char.ofNat n]), .dollarSingle⟩ := by
  rcases h with h | rfl
  · interval_cases n <;> rfl
  · rfl

theorem run_appendControlEscape {c : Char} (h : isControl c = true) :
    run ⟨words, some word, .dollarSingle⟩ (appendControlEscape c) =
      some ⟨words, some (word ++ [c]), .dollarSingle⟩ := by
  have hcode : c.toNat < 0x20 ∨ c.toNat = 0x7f := by simpa [isControl] using h
  rw [← Char.ofNat_toNat c]
  exact run_appendControlEscape_ofNat hcode

theorem run_controls {controls : Text} (h : ∀ c ∈ controls, isControl c = true) :
    run ⟨words, some word, .dollarSingle⟩ (controls.flatMap appendControlEscape) =
      some ⟨words, some (word ++ controls), .dollarSingle⟩ := by
  induction controls generalizing word with
  | nil => simp
  | cons c controls ih =>
      rw [List.forall_mem_cons] at h
      rw [List.flatMap_cons, run_append_of (run_appendControlEscape h.1), ih h.2,
        List.append_assoc, List.singleton_append]

def modeAfter (name : Text) : Mode := if name.getLast?.any isControl then .plain else .single

theorem modeAfter_append (before : Text) {left : Text} (h : left ≠ []) :
    modeAfter (before ++ left) = modeAfter left := by
  rw [modeAfter, List.getLast?_append_of_ne_nil _ h, modeAfter]

theorem modeAfter_cons {c : Char} (h : ¬ isControl c = true) (rest : Text) :
    modeAfter (c :: rest) = modeAfter rest := by
  cases rest with
  | nil => simp [modeAfter, h]
  | cons d rest => exact modeAfter_append [c] (List.cons_ne_nil d rest)

theorem modeAfter_controls {controls : Text} (h : ∀ c ∈ controls, isControl c = true)
    (hne : controls ≠ []) : modeAfter controls = .plain := by
  have hlast := h _ (List.getLast_mem hne)
  simp [modeAfter, List.getLast?_eq_some_getLast hne, hlast]

/-- A run of control bytes, from the quotation that is left for it to the one after it. -/
theorem run_controlRun {controls : Text} (h : ∀ c ∈ controls, isControl c = true) :
    run ⟨words, some word, .single⟩
        (text "'$'" ++ controls.flatMap appendControlEscape ++ ['\'']) =
      some ⟨words, some (word ++ controls), .plain⟩ := by
  have hleave : run ⟨words, some word, .single⟩ (text "'$'") =
      some ⟨words, some word, .dollarSingle⟩ := run_singleToDollar
  rw [List.append_assoc, run_append_of hleave, run_append_of (run_controls h)]
  rfl

theorem run_escapeFrom (name : Text) :
    run ⟨words, some word, .single⟩ (escapeFrom name) =
      some ⟨words, some (word ++ name), modeAfter name⟩ := by
  fun_induction escapeFrom name generalizing word with
  | case1 => simp [modeAfter]
  | case2 c rest hcontrol ih =>
      generalize hleft : rest.dropWhile isControl = left at ih ⊢
      have hname : (c :: rest).takeWhile isControl ++ left = c :: rest := by
        rw [List.takeWhile_cons_of_pos hcontrol, List.cons_append, ← hleft,
          List.takeWhile_append_dropWhile]
      have hcontrols : ∀ d ∈ (c :: rest).takeWhile isControl, isControl d = true :=
        fun d hd => List.mem_takeWhile_imp hd
      have hpresent : (c :: rest).takeWhile isControl ≠ [] := by
        rw [List.takeWhile_cons_of_pos hcontrol]
        exact List.cons_ne_nil _ _
      generalize (c :: rest).takeWhile isControl = controls at hname hcontrols hpresent ⊢
      rw [← hname, List.append_assoc, run_append_of (run_controlRun hcontrols)]
      cases left with
      | nil =>
          rw [List.append_nil, modeAfter_controls hcontrols hpresent]
          simp [escapeFrom]
      | cons d left =>
          -- the quotation is opened again for what is left
          have hopen : run ⟨words, some (word ++ controls), .plain⟩ ['\''] =
              some ⟨words, some (word ++ controls), .single⟩ := rfl
          rw [modeAfter_append controls (List.cons_ne_nil d left), ← List.append_assoc word, ← ih]
          exact run_append_of hopen _
  | case3 rest hcontrol ih =>
      have hquote : run ⟨words, some word, .single⟩ (text "'\\''") =
          some ⟨words, some (word ++ ['\'']), .single⟩ := run_singleEscaped
      rw [run_append_of hquote, ih, modeAfter_cons hcontrol, List.append_assoc,
        List.singleton_append]
  | case4 c rest hcontrol hquote ih =>
      have hadd : run ⟨words, some word, .single⟩ [c] = some ⟨words, some (word ++ [c]), .single⟩ :=
        run_single (by simpa using Ne.symm hquote)
      rw [modeAfter_cons hcontrol, ← List.singleton_append, run_append_of hadd, ih,
        List.append_assoc, List.singleton_append]

theorem readWords_general (name : Text) :
    readWords ('\'' :: escapeFrom name ++ (if name.getLast?.any isControl then [] else ['\''])) =
      some [name] := by
  have hrun : run .start ('\'' :: escapeFrom name) = some ⟨[], some name, modeAfter name⟩ := by
    rw [run_cons]
    exact run_escapeFrom name
  rw [readWords, run_append_of hrun, modeAfter]
  split_ifs <;> rfl

theorem inWord_of_not_special {c : Char} (h : shellEscapeSpecial c = false) : InWord c := by
  have hne : ∀ d, shellEscapeSpecial d = true → c ≠ d := by
    rintro d hd rfl
    rw [h] at hd
    cases hd
  refine ⟨hne _ rfl, hne _ rfl, hne _ rfl, hne _ rfl, hne _ rfl, hne _ rfl, ?_⟩
  rw [meansMore, List.contains_eq_any_beq, List.any_eq_false]
  intro d hd
  rw [beq_iff_eq]
  refine hne d ?_
  simp only [List.mem_cons, List.not_mem_nil, or_false] at hd
  rcases hd with rfl | rfl | rfl | rfl | rfl | rfl | rfl | rfl | rfl | rfl | rfl | rfl | rfl <;> rfl

theorem inDouble_of_not_read {c : Char} (h : doubleQuotesRead c = false) : InDouble c := by
  have hne : ∀ d, doubleQuotesRead d = true → c ≠ d := by
    rintro d hd rfl
    rw [h] at hd
    cases hd
  exact ⟨hne _ rfl, hne _ rfl, hne _ rfl, hne _ rfl⟩

theorem bare_of_not_needsQuoting {name : Text} (h : ¬ shellEscapeNeedsQuoting name = true) :
    name ≠ [] ∧ (∀ c ∈ name.head?, c ≠ '#' ∧ c ≠ '~') ∧
      ∀ c ∈ name, shellEscapeSpecial c = false := by
  simp only [shellEscapeNeedsQuoting, Bool.or_eq_true, not_or, List.isEmpty_iff, beq_iff_eq,
    List.any_eq_true, not_exists, not_and, Bool.not_eq_true] at h
  obtain ⟨⟨⟨⟨⟨hne, hcomment⟩, htilde⟩, -⟩, -⟩, hspecial⟩ := h
  refine ⟨hne, ?_, hspecial⟩
  intro c hc
  constructor
  · rintro rfl
    exact hcomment hc
  · rintro rfl
    exact htilde hc

theorem no_quote_of_special {name : Text} (h : ∀ c ∈ name, shellEscapeSpecial c = false) :
    '\'' ∉ name := by
  intro hmem
  cases h '\'' hmem

theorem readWords_shellEscapeQuoted (name : Text) (always : Bool) :
    readWords (shellEscapeQuoted name always) = some [name] := by
  rw [shellEscapeQuoted]
  by_cases hquoting : shellEscapeNeedsQuoting name = true
  · rw [if_neg (not_not.mpr hquoting)]
    by_cases hsingle : ¬ name.any isControl = true ∧ ¬ name.contains '\'' = true
    · rw [if_pos hsingle]
      exact readWords_single (by simpa using hsingle.2)
    · rw [if_neg hsingle]
      by_cases hdouble : ¬ name.any isControl = true ∧ ¬ name.any doubleQuotesRead = true
      · rw [if_pos hdouble]
        have hread : ∀ c ∈ name, doubleQuotesRead c = false := by simpa using hdouble.2
        exact readWords_double fun c hc => inDouble_of_not_read (hread c hc)
      · rw [if_neg hdouble]
        exact readWords_general name
  · obtain ⟨hne, hfirst, hspecial⟩ := bare_of_not_needsQuoting hquoting
    rw [if_pos hquoting]
    cases always with
    | true => exact readWords_single (no_quote_of_special hspecial)
    | false => exact readWords_inWord (fun c hc => inWord_of_not_special (hspecial c hc)) hne hfirst

end Posix

end Haisos.BuiltinCommands
