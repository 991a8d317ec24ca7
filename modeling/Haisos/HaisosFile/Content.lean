import Haisos.HaisosFile.QuotedReference
import Mathlib.Data.List.DropRight

/-!
# File content is verbatim

What a `CREATE` or an `APPEND` writes is the text of the haisosfile as it
stands there, in each of the three ways to give it, and the parse goes on with
the line after it.
-/

namespace Haisos.HaisosFile

open Hsh (Text text)

/-! ## Lines -/

/-- The lines of a text, the last one ended by the end of the text. -/
def textLines : Text → List Text
  | [] => [[]]
  | c :: rest =>
      if c = '\n' then [] :: textLines rest
      else
        match textLines rest with
        | [] => [[c]]
        | line :: lines => (c :: line) :: lines

theorem textLines_ne_nil (s : Text) : textLines s ≠ [] := by
  rcases s with _ | ⟨c, rest⟩
  · simp [textLines]
  · rw [textLines]
    split_ifs
    · simp
    · split <;> simp

theorem fileLines_cons {c : Char} (hc : c ≠ '\n') (rest : Text) :
    fileLines (c :: rest) =
      (c :: (fileLines rest).headD []) :: (fileLines rest).tail := by
  rw [fileLines, if_neg hc]
  cases fileLines rest <;> rfl

theorem textLines_cons {c : Char} (hc : c ≠ '\n') (rest : Text) :
    textLines (c :: rest) =
      (c :: (textLines rest).headD []) :: (textLines rest).tail := by
  rw [textLines, if_neg hc]
  cases textLines rest <;> rfl

theorem fileLines_append (s rest : Text) :
    fileLines (s ++ '\n' :: rest) = textLines s ++ fileLines rest := by
  induction s with
  | nil => rfl
  | cons c s ih =>
      by_cases hc : c = '\n'
      · subst hc
        simp [fileLines, textLines, ih]
      · obtain ⟨line, lines, hlines⟩ := List.exists_cons_of_ne_nil (textLines_ne_nil s)
        rw [List.cons_append, fileLines_cons hc, textLines_cons hc, ih, hlines]
        rfl

theorem textLines_line {line : Text} (h : '\n' ∉ line) : textLines line = [line] := by
  induction line with
  | nil => rfl
  | cons c line ih =>
      simp only [List.mem_cons, not_or] at h
      rw [textLines_cons (Ne.symm h.1), ih h.2]
      rfl

/-- What comes after a line: the end of the file, or a newline and more lines. -/
inductive Continues : Text → Text → Prop where
  | ends : Continues [] []
  | newline (post : Text) : Continues ('\n' :: post) post

theorem fileLines_line {line tail post : Text} (h : '\n' ∉ line) (hne : line ≠ [])
    (htail : Continues tail post) : fileLines (line ++ tail) = line :: fileLines post := by
  cases htail with
  | newline => rw [fileLines_append, textLines_line h, List.singleton_append]
  | ends =>
      rw [List.append_nil]
      induction line with
      | nil => exact absurd rfl hne
      | cons c line ih =>
          simp only [List.mem_cons, not_or] at h
          rw [fileLines_cons (Ne.symm h.1)]
          by_cases hline : line = []
          · subst hline
            rfl
          · rw [ih h.2 hline]
            rfl

theorem fileLines_lines_append {pre : Text} (h : pre = [] ∨ pre.getLast? = some '\n') (rest : Text) :
    fileLines (pre ++ rest) = fileLines pre ++ fileLines rest := by
  rcases h with rfl | hlast
  · rfl
  · have hpre : pre.dropLast ++ ['\n'] = pre := List.dropLast_append_getLast? '\n' hlast
    have hrest := fileLines_append pre.dropLast rest
    have hself := fileLines_append pre.dropLast []
    rw [← List.singleton_append, ← List.append_assoc, hpre] at hrest
    rw [hpre] at hself
    rw [hrest, hself]
    simp [fileLines]

theorem stripCarriageReturn_eq_self {line : Text} (h : line.getLast? ≠ some '\r') :
    stripCarriageReturn line = line := if_neg h

theorem stripCarriageReturn_append {rest : Text} (h : rest ≠ []) (front : Text) :
    stripCarriageReturn (front ++ rest) = front ++ stripCarriageReturn rest := by
  unfold stripCarriageReturn
  rw [List.getLast?_append_of_ne_nil _ h, List.dropLast_append_of_ne_nil h]
  split_ifs <;> rfl

/-! ## Trimming -/

theorem trim_eq (s : Text) : trim s = (s.dropWhile isTrimmed).rdropWhile isTrimmed := rfl

theorem isTrimmed_of_isBlank {c : Char} (h : isBlank c = true) : isTrimmed c = true := by
  simp [isTrimmed, h]

theorem trim_word {lead word : Text} (hlead : ∀ c ∈ lead, isTrimmed c = true) (hne : word ≠ [])
    (hfirst : ∀ c ∈ word.head?, isTrimmed c = false)
    (hlast : ∀ c ∈ word.getLast?, isTrimmed c = false) (rest : Text) :
    ∃ kept, kept <+: rest ∧ trim (lead ++ (word ++ rest)) = word ++ kept := by
  have hdrop : (lead ++ (word ++ rest)).dropWhile isTrimmed = word ++ rest := by
    rw [List.dropWhile_append_of_pos hlead]
    obtain ⟨c, word, rfl⟩ := List.exists_cons_of_ne_nil hne
    rw [List.cons_append, List.dropWhile_cons_of_neg]
    simp [hfirst c rfl]
  refine ⟨rest.rdropWhile isTrimmed, List.rdropWhile_prefix _ _, ?_⟩
  rw [trim_eq, hdrop, List.rdropWhile, List.reverse_append, List.dropWhile_append]
  split_ifs with hempty
  · rw [List.isEmpty_iff] at hempty
    have hword : word.reverse.dropWhile isTrimmed = word.reverse := by
      obtain ⟨c, reversed, hreverse⟩ :=
        List.exists_cons_of_ne_nil (List.reverse_ne_nil_iff.mpr hne)
      have hc : isTrimmed c = false := by
        apply hlast
        rw [List.getLast?_eq_head?_reverse, hreverse]
        rfl
      rw [hreverse, List.dropWhile_cons_of_neg]
      simp [hc]
    rw [hword, List.rdropWhile, hempty]
    simp
  · rw [List.reverse_append, List.reverse_reverse]
    rfl

theorem trim_getLast? {s : Text} {c : Char} (h : (trim s).getLast? = some c) :
    isTrimmed c = false := by
  have hne : trim s ≠ [] := by
    intro hnil
    rw [hnil] at h
    cases h
  have hlast := List.rdropWhile_last_not isTrimmed (s.dropWhile isTrimmed) hne
  rw [List.getLast?_eq_some_getLast hne, Option.some.injEq] at h
  rw [← Bool.not_eq_true, ← h]
  exact hlast

theorem trim_blank {s : Text} (h : ∀ c ∈ s, isTrimmed c = true) : trim s = [] := by
  rw [trim_eq, List.dropWhile_eq_nil_iff.mpr h]
  rfl

/-! ## The line of a directive with content -/

/-- The two directives that write a file with content. -/
inductive FileKey : Text → HaisosFileOperationType → Prop where
  | create : FileKey (text "CREATE") .create
  | append : FileKey (text "APPEND") .append

/-- A path token as it is written, and the path that it is. -/
inductive WrittenPath : Text → Text → Prop where
  | quoted {q : Char} {path : Text} (quote : isQuote q = true) (unclosed : q ∉ path) :
      WrittenPath (q :: (path ++ [q])) path
  | bare {path : Text} (present : path ≠ []) (unbroken : ∀ c ∈ path, isBlank c = false)
      (unquoted : ∀ c ∈ path.head?, isQuote c = false) : WrittenPath path path

/-- Blanks between two parts of a line. -/
def Blanks (s : Text) : Prop := ∀ c ∈ s, isBlank c = true

def directiveLine (lead key between written between' spec : Text) : Text :=
  lead ++ (key ++ (between ++ (written ++ (between' ++ spec))))

theorem stripCommentFrom_append {front : Text}
    (h : ∀ c ∈ front, isQuote c = false ∧ c ≠ '#') (starts : Bool) (rest : Text) :
    stripCommentFrom 0 starts (front ++ rest) =
      front ++ stripCommentFrom 0 ((front.getLast?.map isBlank).getD starts) rest := by
  induction front generalizing starts with
  | nil => rfl
  | cons c front ih =>
      simp only [List.mem_cons, forall_eq_or_imp] at h
      rw [List.cons_append, stripCommentFrom]
      simp only [h.1.1, h.1.2, Bool.and_false, Bool.false_eq_true, if_false, beq_iff_eq,
        Bool.and_eq_true, and_false]
      rw [ih h.2, List.cons_append, List.getLast?_cons]
      cases front.getLast? <;> rfl

theorem Blanks.plain {s : Text} (h : Blanks s) : ∀ c ∈ s, isQuote c = false ∧ c ≠ '#' := by
  intro c hc
  have hblank := h c hc
  simp only [isBlank, Bool.or_eq_true, beq_iff_eq] at hblank
  rcases hblank with rfl | rfl <;> decide

theorem splitKey_directiveLine {key : Text} {type : HaisosFileOperationType}
    (hkey : FileKey key type) {lead between : Text} (hlead : Blanks lead) (hbetween : Blanks between)
    (hne : between ≠ []) (rest : Text) :
    (splitKey (trim (stripComment (lead ++ (key ++ (between ++ rest)))))).1 = key ∧
      trim (stripComment (lead ++ (key ++ (between ++ rest)))) ≠ [] := by
  have hplain : ∀ c ∈ key, isQuote c = false ∧ c ≠ '#' := by
    cases hkey <;> simp [text, isQuote]
  have hkey_ne : key ≠ [] := by
    cases hkey <;> decide
  have hfirst : ∀ c ∈ key.head?, isTrimmed c = false := by
    cases hkey <;> simp [text, isTrimmed, isBlank]
  have hlast : ∀ c ∈ key.getLast?, isTrimmed c = false := by
    cases hkey <;> simp [text, isTrimmed, isBlank]
  have hunbroken : ∀ c ∈ key, isBlank c = false := by
    cases hkey <;> simp [text, isBlank]
  obtain ⟨c, between, rfl⟩ := List.exists_cons_of_ne_nil hne
  have hblank := hbetween c (by simp)
  obtain ⟨after, hafter⟩ : ∃ after, ∀ starts,
      stripCommentFrom 0 starts (c :: between ++ rest) = c :: after := by
    refine ⟨stripCommentFrom 0 true (between ++ rest), fun starts => ?_⟩
    obtain ⟨hquote, hhash⟩ := hbetween.plain c (by simp)
    simp [stripCommentFrom, hquote, hhash, hblank]
  have hstrip : stripComment (lead ++ (key ++ (c :: between ++ rest))) =
      lead ++ (key ++ c :: after) := by
    rw [stripComment, stripCommentFrom_append hlead.plain, stripCommentFrom_append hplain, hafter]
  obtain ⟨kept, hkept, htrim⟩ := trim_word
    (fun d hd => isTrimmed_of_isBlank (hlead d hd)) hkey_ne hfirst hlast (c :: after)
  rw [hstrip, htrim]
  refine ⟨?_, by simp [hkey_ne]⟩
  rw [splitKey, List.takeWhile_append_of_pos (by simpa using hunbroken)]
  rcases kept with _ | ⟨d, kept⟩
  · simp
  · obtain ⟨rfl, -⟩ := List.cons_prefix_cons.mp hkept
    simp [hblank]

theorem dropWhile_blanks {front : Text} (h : Blanks front) (rest : Text)
    (hrest : ∀ c ∈ rest.head?, isBlank c = false) :
    (front ++ rest).dropWhile isBlank = rest := by
  rw [List.dropWhile_append_of_pos h]
  rcases rest with _ | ⟨c, rest⟩
  · rfl
  · rw [List.dropWhile_cons_of_neg]
    simp [hrest c rfl]

theorem WrittenPath.head {written path : Text} (h : WrittenPath written path) :
    ∃ c rest, written = c :: rest ∧ isBlank c = false := by
  cases h with
  | quoted quote => exact ⟨_, _, rfl, not_isBlank_of_isQuote quote⟩
  | bare present unbroken =>
      obtain ⟨c, rest, rfl⟩ := List.exists_cons_of_ne_nil present
      exact ⟨c, rest, rfl, unbroken c (by simp)⟩

theorem rawPathOf_written {st : ParseState} {key lead between between' written rawPath rest : Text}
    (hlead : Blanks lead) (hkey : ∀ c ∈ key.head?, isBlank c = false) (hkey_ne : key ≠ [])
    (hbetween : Blanks between) (hbetween' : Blanks between') (hne' : between' ≠ [])
    (hwritten : WrittenPath written rawPath) :
    rawPathOf st key (lead ++ (key ++ (between ++ (written ++ (between' ++ rest))))) =
      .ok (rawPath, between' ++ rest) := by
  obtain ⟨c, tail, rfl, hc⟩ := hwritten.head
  obtain ⟨k, key, rfl⟩ := List.exists_cons_of_ne_nil hkey_ne
  have hkeyed := dropWhile_blanks hlead
    ((k :: key) ++ (between ++ (c :: tail ++ (between' ++ rest)))) hkey
  have hpath := dropWhile_blanks hbetween (c :: tail ++ (between' ++ rest))
    (by simpa using hc)
  obtain ⟨b, between', rfl⟩ := List.exists_cons_of_ne_nil hne'
  have hb := hbetween' b (by simp)
  unfold rawPathOf
  rw [hkeyed, List.drop_left, hpath]
  cases hwritten with
  | quoted quote unclosed =>
      have hcut : cut c (rawPath ++ [c] ++ (b :: between' ++ rest)) =
          some (rawPath, b :: between' ++ rest) := by
        rw [List.append_assoc]
        exact cut_append unclosed _
      simp only [List.cons_append, quote, if_true]
      simp only [List.cons_append] at hcut
      rw [hcut]
      simp [hb, pure, Except.pure]
  | bare present unbroken unquoted =>
      have hquote : isQuote c = false := unquoted c rfl
      have hall : ∀ d ∈ c :: tail, (!isBlank d) = true := by
        intro d hd
        rw [unbroken d hd]
        rfl
      simp only [List.cons_append, hquote, Bool.false_eq_true, if_false]
      rw [← List.cons_append, List.takeWhile_append_of_pos hall, List.dropWhile_append_of_pos hall]
      simp [hb, pure, Except.pure]

/-- The state after a file is written, with the lines of its content. -/
def fileWritten (st : ParseState) (type : HaisosFileOperationType) (key path content : Text)
    (taken : Nat) : ParseState :=
  { (st.noteFileDirective key).addOperation { type, path, content, lineNumber := st.lineNumber }
    with lineNumber := st.lineNumber + taken }

theorem outOfOrder_fileKey {st : ParseState} {key : Text} {type : HaisosFileOperationType}
    (hkey : FileKey key type) (hrun : st.firstRunLine = 0) : outOfOrder st key = none := by
  have hnot : ¬(key = text "ROOT" ∨ key = text "FS" ∨ key = text "MOUNT") := by
    cases hkey <;> decide
  unfold outOfOrder
  rw [if_neg fun h => hnot h.1, if_neg]
  simp [hrun]

theorem parseLine_fileKey {argOverrides : List (Text × Text)} {st : ParseState} {key rawLine : Text}
    {type : HaisosFileOperationType} {stream : List Text} (hkey : FileKey key type)
    (hrun : st.firstRunLine = 0) (hsplit : (splitKey (trim (stripComment rawLine))).1 = key)
    (hline : trim (stripComment rawLine) ≠ []) :
    parseLine argOverrides st rawLine stream =
      parseFile type (st.noteFileDirective key) key rawLine stream := by
  rcases hparts : splitKey (trim (stripComment rawLine)) with ⟨key', rest⟩
  obtain rfl : key' = key := by
    rw [hparts] at hsplit
    exact hsplit
  have horder := outOfOrder_fileKey hkey hrun
  simp only [parseLine, if_neg hline, hparts, horder]
  cases hkey <;> rfl

theorem parseLine_file {argOverrides : List (Text × Text)} {st : ParseState} {key : Text}
    {type : HaisosFileOperationType} (hkey : FileKey key type) (hrun : st.firstRunLine = 0)
    {lead between between' written rawPath path spec content : Text} {taken : Nat}
    {stream : List Text} (hlead : Blanks lead) (hbetween : Blanks between) (hne : between ≠ [])
    (hbetween' : Blanks between') (hne' : between' ≠ []) (hwritten : WrittenPath written rawPath)
    (hpath : substituteOrFail st.values st.lineNumber rawPath = .ok path)
    (habsolute : isAbsoluteOsPath path = true) (hspec : spec ≠ [])
    (hfirst : ∀ c ∈ (stripCarriageReturn spec).head?, isBlank c = false)
    (hcontent : parseFileContent key (stripCarriageReturn spec) stream st.lineNumber =
      .ok (content, taken)) :
    parseLine argOverrides st (directiveLine lead key between written between' spec) stream =
      .ok (fileWritten st type key path content taken, taken) := by
  obtain ⟨hsplit, hline⟩ := splitKey_directiveLine hkey hlead hbetween hne
    (written ++ (between' ++ spec))
  have hblank : ∀ c ∈ key.head?, isBlank c = false := by
    cases hkey <;> simp [text, isBlank]
  have hkey_ne : key ≠ [] := by
    cases hkey <;> decide
  have hraw : stripCarriageReturn (directiveLine lead key between written between' spec) =
      lead ++ (key ++ (between ++ (written ++ (between' ++ stripCarriageReturn spec)))) := by
    have hfront := stripCarriageReturn_append hspec
      (lead ++ (key ++ (between ++ (written ++ between'))))
    simpa [directiveLine] using hfront
  have hfile : parseFile type (st.noteFileDirective key) key
      (directiveLine lead key between written between' spec) stream =
        .ok (fileWritten st type key path content taken, taken) := by
    unfold parseFile
    rw [hraw, rawPathOf_written hlead hblank hkey_ne hbetween hbetween' hne' hwritten]
    change (do
      let path ← (st.noteFileDirective key).orFail (substituteOrFail
        (st.noteFileDirective key).values (st.noteFileDirective key).lineNumber rawPath)
      _) = _
    rw [noteFileDirective_values, noteFileDirective_lineNumber, hpath,
      dropWhile_blanks hbetween' _ hfirst]
    change (if isAbsoluteOsPath path then _ else _) = _
    rw [if_pos habsolute, hcontent]
    rfl
  exact (parseLine_fileKey hkey hrun hsplit hline).trans hfile

/-! ## The three ways to give the content -/

theorem parseFileContent_text (key content : Text) (stream : List Text) (lineNumber : Nat) :
    parseFileContent key (text "text:" ++ content) stream lineNumber = .ok (content, 0) := by
  have hprefix : (text "text:").isPrefixOf (text "text:" ++ content) = true := by
    simp [List.isPrefixOf_iff_prefix]
  have hquote : (text "text:" ++ content).head?.any isQuote = false := rfl
  rw [parseFileContent]
  simp only [hquote, hprefix, Bool.false_eq_true, if_false, if_true]
  rfl

/-- What may come after the closing quote: blanks and a comment. -/
def IsTrailing (trailing : Text) : Prop :=
  ∃ blanks comment, trailing = blanks ++ comment ∧ Blanks blanks ∧
    (comment = [] ∨ comment.head? = some '#')

theorem IsTrailing.trim {trailing : Text} (h : IsTrailing trailing) :
    HaisosFile.trim trailing = [] ∨ (HaisosFile.trim trailing).head? = some '#' := by
  obtain ⟨blanks, comment, rfl, hblanks, hcomment⟩ := h
  have htrimmed : ∀ c ∈ blanks, isTrimmed c = true := fun c hc => isTrimmed_of_isBlank (hblanks c hc)
  rcases hcomment with rfl | hcomment
  · left
    rw [List.append_nil]
    exact trim_blank htrimmed
  · right
    obtain ⟨rest, rfl⟩ : ∃ rest, comment = '#' :: rest := by
      rcases comment with _ | ⟨c, rest⟩
      · cases hcomment
      · exact ⟨rest, by simpa using hcomment⟩
    have hfirst : ∀ c ∈ (['#'] : Text).head?, isTrimmed c = false := by
      simp [isTrimmed, isBlank]
    have hlast : ∀ c ∈ (['#'] : Text).getLast?, isTrimmed c = false := by
      simp [isTrimmed, isBlank]
    obtain ⟨kept, -, htrim⟩ := trim_word htrimmed (by simp) hfirst hlast rest
    rw [List.singleton_append] at htrim
    rw [htrim]
    rfl

theorem IsTrailing.stripCarriageReturn {trailing : Text} (h : IsTrailing trailing) :
    IsTrailing (HaisosFile.stripCarriageReturn trailing) := by
  obtain ⟨blanks, comment, rfl, hblanks, hcomment⟩ := h
  by_cases hnil : comment = []
  · subst hnil
    rw [List.append_nil, stripCarriageReturn_eq_self]
    · exact ⟨blanks, [], by simp, hblanks, .inl rfl⟩
    · intro hlast
      have := hblanks _ (List.mem_of_getLast? hlast)
      cases this
  · rw [stripCarriageReturn_append hnil]
    refine ⟨blanks, _, rfl, hblanks, ?_⟩
    have hhead := hcomment.resolve_left hnil
    obtain ⟨rest, rfl⟩ : ∃ rest, comment = '#' :: rest := by
      rcases comment with _ | ⟨c, rest⟩
      · cases hhead
      · exact ⟨rest, by simpa using hhead⟩
    by_cases hrest : rest = []
    · subst hrest
      exact .inr rfl
    · rw [← List.singleton_append, stripCarriageReturn_append hrest]
      exact .inr rfl

theorem parseFileContent_quoted {q : Char} (hq : isQuote q = true) {content : Text}
    (hcontent : q ∉ content) {trailing : Text} (htrailing : IsTrailing trailing) (key : Text)
    (stream : List Text) (lineNumber : Nat) :
    parseFileContent key (q :: (content ++ q :: trailing)) stream lineNumber =
      .ok (content, 0) := by
  have hnot : ¬(trim trailing ≠ [] ∧ (trim trailing).head? ≠ some '#') := by
    rintro ⟨hne, hhead⟩
    exact htrailing.trim.elim hne hhead
  rw [parseFileContent]
  simp only [List.head?_cons, Option.any_some, hq, if_true, Option.getD_some, List.tail_cons,
    cut_append hcontent, if_neg hnot]

def joinLines : List Text → Text
  | [] => []
  | [line] => line
  | line :: lines => line ++ '\n' :: joinLines lines

theorem joinLines_textLines (s : Text) : joinLines (textLines s) = s := by
  induction s with
  | nil => rfl
  | cons c s ih =>
      obtain ⟨line, lines, hlines⟩ := List.exists_cons_of_ne_nil (textLines_ne_nil s)
      by_cases hc : c = '\n'
      · subst hc
        rw [textLines, if_pos rfl]
        rw [hlines] at ih ⊢
        simp [joinLines, ih]
      · rw [textLines_cons hc, hlines]
        rw [hlines] at ih
        cases lines with
        | nil => simpa [joinLines] using ih
        | cons next lines => simpa [joinLines] using ih

theorem readBlock_lines {marker markerLine : Text} {lines : List Text}
    (hlines : ∀ line ∈ lines, line.getLast? ≠ some '\r' ∧ trim line ≠ marker)
    (hmarker : trim (stripCarriageReturn markerLine) = marker) (content : Text) (taken : Nat)
    (stream : List Text) :
    readBlock marker content false taken (lines ++ markerLine :: stream) =
      some (content ++ lines.flatMap fun line => '\n' :: line, taken + lines.length + 1) := by
  induction lines generalizing content taken with
  | nil => simp [readBlock, hmarker]
  | cons line lines ih =>
      simp only [List.mem_cons, forall_eq_or_imp] at hlines
      rw [List.cons_append, readBlock]
      simp only [stripCarriageReturn_eq_self hlines.1.1, if_neg hlines.1.2]
      rw [ih hlines.2]
      simp only [Bool.false_eq_true, if_false, List.length_cons, List.flatMap_cons,
        List.append_assoc, List.cons_append, List.nil_append, Option.some.injEq, Prod.mk.injEq,
        true_and]
      omega

theorem joinLines_cons (line : Text) (lines : List Text) :
    joinLines (line :: lines) = line ++ lines.flatMap fun line => '\n' :: line := by
  induction lines generalizing line with
  | nil => simp [joinLines]
  | cons next lines ih => simp [joinLines, ih next]

theorem readBlock_text {marker markerLine content : Text}
    (hlines : ∀ line ∈ textLines content, line.getLast? ≠ some '\r' ∧ trim line ≠ marker)
    (hmarker : trim (stripCarriageReturn markerLine) = marker) (stream : List Text) :
    readBlock marker [] true 0 (textLines content ++ markerLine :: stream) =
      some (content, (textLines content).length + 1) := by
  have hjoin := joinLines_textLines content
  obtain ⟨line, lines, heq⟩ := List.exists_cons_of_ne_nil (textLines_ne_nil content)
  rw [heq] at hlines hjoin ⊢
  simp only [List.mem_cons, forall_eq_or_imp] at hlines
  rw [List.cons_append, readBlock]
  simp only [stripCarriageReturn_eq_self hlines.1.1, if_neg hlines.1.2, if_true, List.nil_append]
  rw [readBlock_lines hlines.2 hmarker, ← hjoin, joinLines_cons, List.length_cons]
  congr 2
  omega

theorem trim_concat {c : Char} (hc : isTrimmed c = true) (s : Text) : trim (s ++ [c]) = trim s := by
  rw [trim_eq, trim_eq, List.dropWhile_append]
  split_ifs with hempty
  · rw [List.isEmpty_iff] at hempty
    rw [hempty, List.dropWhile_cons_of_pos hc, List.dropWhile_nil]
  · exact List.rdropWhile_concat_pos _ _ _ hc

theorem trim_stripCarriageReturn (s : Text) : trim (stripCarriageReturn s) = trim s := by
  unfold stripCarriageReturn
  split_ifs with h
  · have hs : s.dropLast ++ ['\r'] = s := List.dropLast_append_getLast? '\r' h
    conv_rhs => rw [← hs]
    exact (trim_concat rfl _).symm
  · rfl

theorem trim_append {trailing : Text} (h : ∀ c ∈ trailing, isTrimmed c = true) (s : Text) :
    trim (s ++ trailing) = trim s := by
  induction trailing generalizing s with
  | nil => rw [List.append_nil]
  | cons c trailing ih =>
      simp only [List.mem_cons, forall_eq_or_imp] at h
      rw [← List.singleton_append, ← List.append_assoc, ih h.2, trim_concat h.1]

theorem trim_blanks {blanks : Text} (h : Blanks blanks) (s : Text) :
    trim (blanks ++ s) = trim s := by
  have htrimmed : ∀ c ∈ blanks, isTrimmed c = true := fun c hc => isTrimmed_of_isBlank (h c hc)
  rw [trim_eq, trim_eq, List.dropWhile_append_of_pos htrimmed]

theorem parseFileContent_multiline {blanks marker trailing : Text} (hblanks : Blanks blanks)
    (hne : blanks ≠ []) (hmarker : trim marker = marker) (hmarker_ne : marker ≠ [])
    (htrailing : Blanks trailing) {content markerLine : Text}
    (hlines : ∀ line ∈ textLines content, line.getLast? ≠ some '\r' ∧ trim line ≠ marker)
    (hend : trim markerLine = marker) (key : Text) (stream : List Text) (lineNumber : Nat) :
    parseFileContent key (text "multiline" ++ (blanks ++ (marker ++ trailing)))
        (textLines content ++ markerLine :: stream) lineNumber =
      .ok (content, (textLines content).length + 1) := by
  have htrim : trim (blanks ++ (marker ++ trailing)) = marker := by
    rw [trim_blanks hblanks, trim_append fun c hc => isTrimmed_of_isBlank (htrailing c hc), hmarker]
  obtain ⟨b, blanks, rfl⟩ := List.exists_cons_of_ne_nil hne
  have hb := hblanks b (by simp)
  have hquote : (text "multiline" ++ (b :: blanks ++ (marker ++ trailing))).head?.any isQuote =
      false := rfl
  have htext : (text "text:").isPrefixOf
      (text "multiline" ++ (b :: blanks ++ (marker ++ trailing))) = false := rfl
  have hmultiline : (text "multiline").isPrefixOf
      (text "multiline" ++ (b :: blanks ++ (marker ++ trailing))) = true := by
    simp [List.isPrefixOf_iff_prefix]
  have hblock := readBlock_text hlines ((trim_stripCarriageReturn markerLine).trans hend) stream
  rw [parseFileContent]
  simp only [hquote, htext, hmultiline, Bool.false_eq_true, if_false, List.drop_left, true_and]
  rw [if_pos (by simp [hb]), htrim, if_neg hmarker_ne, hblock]

/-! ## Going on with the next line -/

theorem readBlock_append {marker content content' : Text} {first : Bool} {taken taken' : Nat}
    {stream : List Text} (h : readBlock marker content first taken stream = some (content', taken'))
    (more : List Text) :
    readBlock marker content first taken (stream ++ more) = some (content', taken') ∧
      taken' ≤ taken + stream.length := by
  induction stream generalizing content first taken with
  | nil => cases h
  | cons rawLine stream ih =>
      rw [readBlock] at h
      rw [List.cons_append, readBlock]
      by_cases hmarker : trim (stripCarriageReturn rawLine) = marker
      · rw [if_pos hmarker] at h ⊢
        cases h
        exact ⟨rfl, by simp⟩
      · rw [if_neg hmarker] at h ⊢
        obtain ⟨hmore, hle⟩ := ih h
        refine ⟨hmore, ?_⟩
        simp only [List.length_cons]
        omega

theorem parseFileContent_append {key spec content : Text} {taken lineNumber : Nat}
    {stream : List Text} (h : parseFileContent key spec stream lineNumber = .ok (content, taken))
    (more : List Text) :
    parseFileContent key spec (stream ++ more) lineNumber = .ok (content, taken) ∧
      taken ≤ stream.length := by
  unfold parseFileContent at h ⊢
  dsimp only at h ⊢
  by_cases hquote : spec.head?.any isQuote = true
  · rw [if_pos hquote] at h ⊢
    refine ⟨h, ?_⟩
    split at h
    · cases h
    · split_ifs at h
      cases h
      exact Nat.zero_le _
  · rw [if_neg hquote] at h ⊢
    by_cases htext : (text "text:").isPrefixOf spec = true
    · rw [if_pos htext] at h ⊢
      refine ⟨h, ?_⟩
      cases h
      exact Nat.zero_le _
    · rw [if_neg htext] at h ⊢
      split_ifs at h ⊢
      split at h
      · rename_i content' taken' hblock
        cases h
        obtain ⟨hmore, hle⟩ := readBlock_append hblock more
        rw [hmore]
        exact ⟨rfl, by omega⟩
      · cases h

theorem bind_eq_ok {α β : Type} {result : Parsed α} {f : α → Parsed β} {b : β}
    (h : (result >>= f) = .ok b) : ∃ a, result = .ok a ∧ f a = .ok b := by
  cases result with
  | error e => cases h
  | ok a => exact ⟨a, rfl, h⟩

theorem orFail_eq_ok {α : Type} {st : ParseState} {result : Except Text α} {a : α}
    (h : st.orFail result = .ok a) : result = .ok a := by
  cases result with
  | error e => cases h
  | ok a =>
      cases h
      rfl

theorem parseArg_lineNumber {argOverrides : List (Text × Text)} {st st' : ParseState} {rest : Text}
    (h : parseArg argOverrides st rest = .ok st') : st'.lineNumber = st.lineNumber := by
  unfold parseArg at h
  obtain ⟨defaultValue, -, h⟩ := bind_eq_ok h
  dsimp only at h
  split_ifs at h
  · cases h
  · split at h <;> cases h <;> rfl

theorem parseVar_lineNumber {st st' : ParseState} {rest : Text}
    (h : parseVar st rest = .ok st') : st'.lineNumber = st.lineNumber := by
  unfold parseVar at h
  split at h
  · cases h
  · split_ifs at h
    · cases h
    · obtain ⟨value, -, hvalue⟩ := bind_eq_ok h
      cases hvalue
      rfl

theorem parseEnv_lineNumber {st st' : ParseState} {rest : Text}
    (h : parseEnv st rest = .ok st') : st'.lineNumber = st.lineNumber := by
  unfold parseEnv at h
  split_ifs at h
  · cases h
  · obtain ⟨entry, -, h⟩ := bind_eq_ok h
    split_ifs at h
    · cases h
    · cases h
      rfl

theorem builtinPaths_lineNumber {fsName builtinName : Text} {st st' : ParseState}
    {paths : List Text} (h : builtinPaths fsName builtinName st paths = .ok st') :
    st'.lineNumber = st.lineNumber := by
  induction paths generalizing st with
  | nil =>
      cases h
      rfl
  | cons path paths ih =>
      rw [builtinPaths] at h
      split_ifs at h
      · exact (ih h).trans rfl
      · cases h

theorem pathOperation_lineNumber {st st' : ParseState} {key : Text}
    {operation : HaisosFileOperation} (h : pathOperation st key operation = .ok st') :
    st'.lineNumber = st.lineNumber := by
  unfold pathOperation at h
  split_ifs at h <;> cases h <;> rfl

theorem tokenDirective_lineNumber {key : Text}
    {directive : ParseState → List Text → Parsed ParseState}
    (hdirective : tokenDirective key = some directive) {st st' : ParseState} {tokens : List Text}
    (h : directive st tokens = .ok st') : st'.lineNumber = st.lineNumber := by
  unfold tokenDirective at hdirective
  split_ifs at hdirective <;> cases hdirective
  · unfold rootTokens at h
    split at h
    · split_ifs at h <;> cases h
      rfl
    · cases h
  · unfold fsTokens at h
    split at h
    · split at h
      · cases h
      · split_ifs at h <;> cases h
        rfl
    · cases h
  · unfold mountTokens at h
    split at h <;> cases h
    rfl
  · unfold runTokens at h
    dsimp only at h
    split at h
    · cases h
    · split_ifs at h <;> cases h
      all_goals rfl
  · unfold builtinTokens at h
    split at h
    · exact builtinPaths_lineNumber h
    · cases h
  · unfold copyTokens at h
    split at h
    · exact pathOperation_lineNumber h
    · cases h
  · unfold outCopyTokens at h
    split at h
    · exact pathOperation_lineNumber h
    · cases h
  all_goals
    unfold onePathTokens at h
    split at h
    · exact pathOperation_lineNumber h
    · cases h

theorem parseFile_spec {type : HaisosFileOperationType} {st st' : ParseState} {key rawLine : Text}
    {stream : List Text} {taken : Nat}
    (h : parseFile type st key rawLine stream = .ok (st', taken)) :
    (∀ more, parseFile type st key rawLine (stream ++ more) = .ok (st', taken)) ∧
      taken ≤ stream.length ∧ st'.lineNumber = st.lineNumber + taken := by
  unfold parseFile at h
  obtain ⟨⟨rawPath, after⟩, hraw, h⟩ := bind_eq_ok h
  obtain ⟨path, hpath, h⟩ := bind_eq_ok h
  dsimp only at h
  split_ifs at h with habsolute
  · obtain ⟨⟨content, taken'⟩, hcontent, h⟩ := bind_eq_ok h
    cases h
    have hspec := orFail_eq_ok hcontent
    refine ⟨fun more => ?_, (parseFileContent_append hspec []).2, rfl⟩
    unfold parseFile
    rw [hraw]
    change (st.orFail (substituteOrFail st.values st.lineNumber rawPath) >>= _) = _
    rw [hpath]
    change (if isAbsoluteOsPath path then _ else _) = _
    rw [if_pos habsolute, (parseFileContent_append hspec more).1]
    rfl
  · cases h

/-- A line takes no more of the stream than there is, and counts what it takes. -/
theorem parseLine_spec {argOverrides : List (Text × Text)} {st st' : ParseState} {rawLine : Text}
    {stream : List Text} {taken : Nat}
    (h : parseLine argOverrides st rawLine stream = .ok (st', taken)) :
    (∀ more, parseLine argOverrides st rawLine (stream ++ more) = .ok (st', taken)) ∧
      taken ≤ stream.length ∧ st'.lineNumber = st.lineNumber + taken := by
  have hmap : ∀ {result : Parsed ParseState}, result.map (·, 0) = .ok (st', taken) →
      result = .ok st' ∧ taken = 0 := by
    intro result hresult
    cases result with
    | error e => cases hresult
    | ok st'' =>
        cases hresult
        exact ⟨rfl, rfl⟩
  unfold parseLine at h ⊢
  dsimp only at h ⊢
  by_cases hline : trim (stripComment rawLine) = []
  · simp only [if_pos hline] at h ⊢
    cases h
    exact ⟨fun _ => rfl, Nat.zero_le _, rfl⟩
  · simp only [if_neg hline] at h ⊢
    generalize splitKey (trim (stripComment rawLine)) = parts at h ⊢
    obtain ⟨key, rest⟩ := parts
    dsimp only at h ⊢
    have hnumber := noteFileDirective_lineNumber st key
    generalize st.noteFileDirective key = noted at h hnumber ⊢
    cases horder : outOfOrder st key with
    | some message =>
        rw [horder] at h
        cases h
    | none =>
        rw [horder] at h
        dsimp only at h ⊢
        -- The stream matters to the two directives with content only.
        have hsimple : ∀ {result : Parsed ParseState}, result.map (·, 0) = .ok (st', taken) →
            (∀ st'', result = .ok st'' → st''.lineNumber = noted.lineNumber) →
            taken ≤ stream.length ∧ st'.lineNumber = st.lineNumber + taken := by
          intro result hresult hkeeps
          obtain ⟨hok, rfl⟩ := hmap hresult
          exact ⟨Nat.zero_le _, (hkeeps _ hok).trans hnumber⟩
        have hfile : ∀ {type : HaisosFileOperationType},
            parseFile type noted key rawLine stream = .ok (st', taken) →
            (∀ more, parseFile type noted key rawLine (stream ++ more) = .ok (st', taken)) ∧
              taken ≤ stream.length ∧ st'.lineNumber = st.lineNumber + taken := by
          intro type hresult
          rw [← hnumber]
          exact parseFile_spec hresult
        split_ifs at h ⊢
        · exact ⟨fun _ => h, hsimple h fun _ => parseArg_lineNumber⟩
        · exact ⟨fun _ => h, hsimple h fun _ => parseVar_lineNumber⟩
        · exact ⟨fun _ => h, hsimple h fun _ => parseEnv_lineNumber⟩
        · exact hfile h
        · exact hfile h
        · refine ⟨fun _ => h, ?_⟩
          cases hdirective : tokenDirective key with
          | none =>
              rw [hdirective] at h
              cases h
          | some directive =>
              rw [hdirective] at h
              refine hsimple h fun st'' htokens => ?_
              unfold parseTokens at htokens
              split at htokens
              · cases htokens
              · obtain ⟨tokens, -, htokens⟩ := bind_eq_ok htokens
                exact tokenDirective_lineNumber hdirective htokens

theorem parseLines_drop {argOverrides : List (Text × Text)} {skip : Nat} {st : ParseState}
    {lines : List Text} :
    parseLines argOverrides skip st lines = parseLines argOverrides 0 st (lines.drop skip) := by
  induction skip generalizing lines with
  | zero => rfl
  | succ skip ih =>
      rcases lines with _ | ⟨line, lines⟩
      · rfl
      · exact ih

/-- Accepted lines leave the parse to go on after them, with the count of the lines. -/
theorem parseLines_append {argOverrides : List (Text × Text)} {st st' : ParseState}
    {lines : List Text} (h : parseLines argOverrides 0 st lines = .ok st') (more : List Text) :
    parseLines argOverrides 0 st (lines ++ more) = parseLines argOverrides 0 st' more ∧
      st'.lineNumber = st.lineNumber + lines.length := by
  induction hn : lines.length using Nat.strong_induction_on generalizing lines st with
  | _ n ih =>
      subst hn
      rcases lines with _ | ⟨line, lines⟩
      · cases h
        exact ⟨rfl, rfl⟩
      · rw [parseLines] at h
        obtain ⟨⟨next, taken⟩, hline, h⟩ := bind_eq_ok h
        obtain ⟨hmore, hle, hnumber⟩ := parseLine_spec hline
        dsimp only at h
        rw [parseLines_drop] at h
        have hlength : (lines.drop taken).length < (line :: lines).length := by
          rw [List.length_drop, List.length_cons]
          omega
        obtain ⟨hrest, hcount⟩ := ih _ hlength h rfl
        refine ⟨?_, ?_⟩
        · rw [List.cons_append, parseLines, hmore more]
          change parseLines argOverrides taken next (lines ++ more) = _
          rw [parseLines_drop, List.drop_append_of_le_length hle, hrest]
        · rw [hcount, hnumber, List.length_drop, List.length_cons]
          dsimp only
          omega

/-! ## The file as a whole -/

/-- The state after the directive on the next line has written its file. -/
def afterFile (st : ParseState) (type : HaisosFileOperationType) (key path content : Text)
    (taken : Nat) : ParseState :=
  fileWritten { st with lineNumber := st.lineNumber + 1 } type key path content taken

theorem Blanks.no_newline {s : Text} (h : Blanks s) : '\n' ∉ s := by
  intro hmem
  cases h _ hmem

theorem FileKey.no_newline {key : Text} {type : HaisosFileOperationType} (h : FileKey key type) :
    '\n' ∉ key := by
  cases h <;> decide

theorem directiveLine_no_newline {key : Text} {type : HaisosFileOperationType}
    (hkey : FileKey key type) {lead between between' written spec : Text} (hlead : Blanks lead)
    (hbetween : Blanks between) (hbetween' : Blanks between') (hwritten : '\n' ∉ written)
    (hspec : '\n' ∉ spec) : '\n' ∉ directiveLine lead key between written between' spec := by
  simp [directiveLine, hlead.no_newline, hkey.no_newline, hbetween.no_newline,
    hbetween'.no_newline, hwritten, hspec]

theorem directiveLine_ne_nil {key : Text} {type : HaisosFileOperationType} (hkey : FileKey key type)
    (lead between between' written spec : Text) :
    directiveLine lead key between written between' spec ≠ [] := by
  cases hkey <;> simp [directiveLine, text]

/-! ## The last character of a directive's line -/

theorem stripCarriageReturn_multiline (blanks : Text) {marker trailing : Text}
    (hmarker : trim marker = marker) (hmarker_ne : marker ≠ []) (htrailing : Blanks trailing) :
    stripCarriageReturn (text "multiline" ++ (blanks ++ (marker ++ trailing))) =
      text "multiline" ++ (blanks ++ (marker ++ trailing)) := by
  apply stripCarriageReturn_eq_self
  intro hlast
  rw [← List.append_assoc, ← List.append_assoc] at hlast
  by_cases htrailing_ne : trailing = []
  · rw [htrailing_ne, List.append_nil, List.getLast?_append_of_ne_nil _ hmarker_ne,
      ← hmarker] at hlast
    cases trim_getLast? hlast
  · rw [List.getLast?_append_of_ne_nil _ htrailing_ne] at hlast
    cases htrailing _ (List.mem_of_getLast? hlast)

theorem stripCarriageReturn_text {content : Text} (hlast : content.getLast? ≠ some '\r') :
    stripCarriageReturn (text "text:" ++ content) = text "text:" ++ content := by
  apply stripCarriageReturn_eq_self
  by_cases hcontent : content = []
  · subst hcontent
    decide
  · rwa [List.getLast?_append_of_ne_nil _ hcontent]

theorem stripCarriageReturn_quoted {q : Char} (hq : isQuote q = true) (content trailing : Text) :
    stripCarriageReturn (q :: (content ++ q :: trailing)) =
      q :: (content ++ q :: stripCarriageReturn trailing) := by
  by_cases hnil : trailing = []
  · subst hnil
    rw [stripCarriageReturn_eq_self]
    · rfl
    · rw [← List.cons_append, List.getLast?_concat]
      rintro ⟨⟩
      cases hq
  · have := stripCarriageReturn_append hnil (q :: (content ++ [q]))
    simpa using this

/-! ## The three forms -/

section

variable {argOverrides : List (Text × Text)} {pre : Text} {st : ParseState} {key : Text}
  {type : HaisosFileOperationType} {lead between between' written rawPath path : Text}

theorem parseLines_directive (hpre : pre = [] ∨ pre.getLast? = some '\n')
    (haccepted : parseLines argOverrides 0 {} (fileLines pre) = .ok st)
    (hrun : st.firstRunLine = 0) (hkey : FileKey key type) (hlead : Blanks lead)
    (hbetween : Blanks between) (hne : between ≠ []) (hbetween' : Blanks between')
    (hne' : between' ≠ []) (hwritten : WrittenPath written rawPath)
    (hpath : substituteOrFail st.values (st.lineNumber + 1) rawPath = .ok path)
    (habsolute : isAbsoluteOsPath path = true) {spec content rest : Text} {taken : Nat}
    {stream : List Text} (hspec : spec ≠ [])
    (hfirst : ∀ c ∈ (stripCarriageReturn spec).head?, isBlank c = false)
    (hcontent : parseFileContent key (stripCarriageReturn spec) stream (st.lineNumber + 1) =
      .ok (content, taken))
    (hlines : fileLines rest =
      directiveLine lead key between written between' spec :: stream) :
    parseLines argOverrides 0 {} (fileLines (pre ++ rest)) =
      parseLines argOverrides 0 (afterFile st type key path content taken)
        (stream.drop taken) := by
  rw [fileLines_lines_append hpre, (parseLines_append haccepted _).1, hlines, parseLines]
  have hrun' : ({ st with lineNumber := st.lineNumber + 1 } : ParseState).firstRunLine = 0 := hrun
  have hline : parseLine argOverrides { st with lineNumber := st.lineNumber + 1 }
      (directiveLine lead key between written between' spec) stream =
        .ok (afterFile st type key path content taken, taken) :=
    parseLine_file hkey hrun' hlead hbetween hne hbetween' hne' hwritten hpath habsolute hspec hfirst
      hcontent
  rw [hline]
  exact parseLines_drop

section

variable (hpre : pre = [] ∨ pre.getLast? = some '\n')
  (haccepted : parseLines argOverrides 0 {} (fileLines pre) = .ok st)
  (hrun : st.firstRunLine = 0) (hkey : FileKey key type) (hlead : Blanks lead)
  (hbetween : Blanks between) (hne : between ≠ []) (hbetween' : Blanks between')
  (hne' : between' ≠ []) (hwritten : WrittenPath written rawPath) (hone : '\n' ∉ written)
  (hpath : substituteOrFail st.values (st.lineNumber + 1) rawPath = .ok path)
  (habsolute : isAbsoluteOsPath path = true)

include hpre haccepted hrun hkey hlead hbetween hne hbetween' hne' hwritten hone hpath habsolute

theorem parseLines_multiline {blanks marker trailing content markerLine tail post : Text}
    (hblanks : Blanks blanks) (hblanks_ne : blanks ≠ []) (hmarker : trim marker = marker)
    (hmarker_ne : marker ≠ []) (hmarker_one : '\n' ∉ marker) (htrailing : Blanks trailing)
    (hcontent : ∀ line ∈ textLines content, line.getLast? ≠ some '\r' ∧ trim line ≠ marker)
    (hend : trim markerLine = marker) (hend_one : '\n' ∉ markerLine)
    (htail : Continues tail post) :
    parseLines argOverrides 0 {} (fileLines (pre ++
        (directiveLine lead key between written between'
          (text "multiline" ++ (blanks ++ (marker ++ trailing))) ++
            '\n' :: (content ++ '\n' :: (markerLine ++ tail))))) =
      parseLines argOverrides 0
        (afterFile st type key path content ((textLines content).length + 1))
        (fileLines post) := by
  have hspec_one : '\n' ∉ text "multiline" ++ (blanks ++ (marker ++ trailing)) := by
    have : '\n' ∉ text "multiline" := by decide
    simp [this, hblanks.no_newline, hmarker_one, htrailing.no_newline]
  have hreturn := stripCarriageReturn_multiline blanks hmarker hmarker_ne htrailing
  have hmarkerLine_ne : markerLine ≠ [] := by
    rintro rfl
    exact hmarker_ne hend.symm
  have hline := directiveLine_no_newline hkey hlead hbetween hbetween' hone hspec_one
  have hblock := fileLines_append content (markerLine ++ tail)
  rw [fileLines_line hend_one hmarkerLine_ne htail] at hblock
  have hlines := fileLines_line hline (directiveLine_ne_nil hkey _ _ _ _ _)
    (.newline (content ++ '\n' :: (markerLine ++ tail)))
  rw [hblock] at hlines
  have hparse := parseFileContent_multiline hblanks hblanks_ne hmarker hmarker_ne htrailing
    hcontent hend key (fileLines post) (st.lineNumber + 1)
  rw [← hreturn] at hparse
  have hfirst : ∀ c ∈ (stripCarriageReturn
      (text "multiline" ++ (blanks ++ (marker ++ trailing)))).head?, isBlank c = false := by
    rw [hreturn]
    intro c hc
    cases hc
    rfl
  rw [parseLines_directive hpre haccepted hrun hkey hlead hbetween hne hbetween' hne' hwritten
    hpath habsolute (by simp [text]) hfirst hparse hlines, ← List.drop_drop, List.drop_left]
  rfl

theorem parseLines_text {content tail post : Text} (hcontent_one : '\n' ∉ content)
    (hlast : content.getLast? ≠ some '\r') (htail : Continues tail post) :
    parseLines argOverrides 0 {} (fileLines (pre ++
        (directiveLine lead key between written between' (text "text:" ++ content) ++ tail))) =
      parseLines argOverrides 0 (afterFile st type key path content 0) (fileLines post) := by
  have hspec_one : '\n' ∉ text "text:" ++ content := by
    have : '\n' ∉ text "text:" := by decide
    simp [this, hcontent_one]
  have hreturn := stripCarriageReturn_text hlast
  have hline := directiveLine_no_newline hkey hlead hbetween hbetween' hone hspec_one
  have hlines := fileLines_line hline (directiveLine_ne_nil hkey _ _ _ _ _) htail
  have hparse := parseFileContent_text key content (fileLines post) (st.lineNumber + 1)
  rw [← hreturn] at hparse
  have hfirst : ∀ c ∈ (stripCarriageReturn (text "text:" ++ content)).head?,
      isBlank c = false := by
    rw [hreturn]
    intro c hc
    cases hc
    rfl
  exact parseLines_directive hpre haccepted hrun hkey hlead hbetween hne hbetween' hne' hwritten
    hpath habsolute (by simp [text]) hfirst hparse hlines

theorem parseLines_quoted {q : Char} {content trailing tail post : Text} (hq : isQuote q = true)
    (hcontent : q ∉ content) (hcontent_one : '\n' ∉ content) (htrailing : IsTrailing trailing)
    (htrailing_one : '\n' ∉ trailing) (htail : Continues tail post) :
    parseLines argOverrides 0 {} (fileLines (pre ++
        (directiveLine lead key between written between' (q :: (content ++ q :: trailing)) ++
          tail))) =
      parseLines argOverrides 0 (afterFile st type key path content 0) (fileLines post) := by
  have hq_one : q ≠ '\n' := by
    rintro rfl
    cases hq
  have hspec_one : '\n' ∉ q :: (content ++ q :: trailing) := by
    simp [Ne.symm hq_one, hcontent_one, htrailing_one]
  have hreturn := stripCarriageReturn_quoted hq content trailing
  have hline := directiveLine_no_newline hkey hlead hbetween hbetween' hone hspec_one
  have hlines := fileLines_line hline (directiveLine_ne_nil hkey _ _ _ _ _) htail
  have hparse := parseFileContent_quoted hq hcontent htrailing.stripCarriageReturn key
    (fileLines post) (st.lineNumber + 1)
  rw [← hreturn] at hparse
  have hfirst : ∀ c ∈ (stripCarriageReturn (q :: (content ++ q :: trailing))).head?,
      isBlank c = false := by
    rw [hreturn]
    intro c hc
    cases hc
    exact not_isBlank_of_isQuote hq
  exact parseLines_directive hpre haccepted hrun hkey hlead hbetween hne hbetween' hne' hwritten
    hpath habsolute (by simp) hfirst hparse hlines

end

/--
The content of a file is the text as it stands in the haisosfile: between the
lines of a multiline text, after `text:`, and between quotes.  The parse goes on
with the line after it, and nothing else of it has changed.
-/
theorem fileContent_verbatim (hpre : pre = [] ∨ pre.getLast? = some '\n')
    (haccepted : parseLines argOverrides 0 {} (fileLines pre) = .ok st)
    (hrun : st.firstRunLine = 0) (hkey : FileKey key type) (hlead : Blanks lead)
    (hbetween : Blanks between) (hne : between ≠ []) (hbetween' : Blanks between')
    (hne' : between' ≠ []) (hwritten : WrittenPath written rawPath) (hone : '\n' ∉ written)
    (hpath : substituteOrFail st.values (st.lineNumber + 1) rawPath = .ok path)
    (habsolute : isAbsoluteOsPath path = true) :
    st.lineNumber = (fileLines pre).length ∧
    (∀ blanks marker trailing content markerLine tail post : Text, Blanks blanks → blanks ≠ [] →
      trim marker = marker → marker ≠ [] → '\n' ∉ marker → Blanks trailing →
      (∀ line ∈ textLines content, line.getLast? ≠ some '\r' ∧ trim line ≠ marker) →
      trim markerLine = marker → '\n' ∉ markerLine → Continues tail post →
      parseLines argOverrides 0 {} (fileLines (pre ++
          (directiveLine lead key between written between'
            (text "multiline" ++ (blanks ++ (marker ++ trailing))) ++
              '\n' :: (content ++ '\n' :: (markerLine ++ tail))))) =
        parseLines argOverrides 0
          (afterFile st type key path content ((textLines content).length + 1))
          (fileLines post)) ∧
    (∀ content tail post : Text, '\n' ∉ content → content.getLast? ≠ some '\r' →
      Continues tail post →
      parseLines argOverrides 0 {} (fileLines (pre ++
          (directiveLine lead key between written between' (text "text:" ++ content) ++ tail))) =
        parseLines argOverrides 0 (afterFile st type key path content 0) (fileLines post)) ∧
    (∀ (q : Char) (content trailing tail post : Text), isQuote q = true → q ∉ content →
      '\n' ∉ content → IsTrailing trailing → '\n' ∉ trailing → Continues tail post →
      parseLines argOverrides 0 {} (fileLines (pre ++
          (directiveLine lead key between written between' (q :: (content ++ q :: trailing)) ++
            tail))) =
        parseLines argOverrides 0 (afterFile st type key path content 0) (fileLines post)) := by
  refine ⟨?_, ?_, ?_, ?_⟩
  · have := (parseLines_append haccepted []).2
    simpa using this
  · intro blanks marker trailing content markerLine tail post hblanks hblanks_ne hmarker hmarker_ne
      hmarker_one htrailing hcontent hend hend_one htail
    exact parseLines_multiline hpre haccepted hrun hkey hlead hbetween hne hbetween' hne' hwritten hone
      hpath habsolute hblanks hblanks_ne hmarker hmarker_ne hmarker_one htrailing hcontent hend hend_one
      htail
  · intro content tail post hcontent_one hlast htail
    exact parseLines_text hpre haccepted hrun hkey hlead hbetween hne hbetween' hne' hwritten hone
      hpath habsolute hcontent_one hlast htail
  · intro q content trailing tail post hq hcontent hcontent_one htrailing htrailing_one htail
    exact parseLines_quoted hpre haccepted hrun hkey hlead hbetween hne hbetween' hne' hwritten hone
      hpath habsolute hq hcontent hcontent_one htrailing htrailing_one htail

end

/-- A multiline text with a comment, a reference and an empty line, after a `VAR`. -/
theorem fileContent_verbatim_multiline :
    parseLines [] 0 {} (fileLines (text "VAR d=/out\n" ++
        (directiveLine [] (text "CREATE") [' '] (text "\"$\x7bd\x7d/a b\"") [' ']
          (text "multiline" ++ ([' '] ++ (text "EOF" ++ []))) ++
            '\n' :: (text "# $\x7bx\x7d\n\n  EOF." ++ '\n' :: (text " EOF" ++ text "\nRUN /x"))))) =
      parseLines [] 0
        (afterFile { values := [(text "d", text "/out")], lineNumber := 1 } .create (text "CREATE")
          (text "/out/a b") (text "# $\x7bx\x7d\n\n  EOF.") 4) (fileLines (text "RUN /x")) := by
  have haccepted : parseLines [] 0 {} (fileLines (text "VAR d=/out\n")) =
      .ok { values := [(text "d", text "/out")], lineNumber := 1 } := rfl
  have hlead : Blanks [] := by simp [Blanks]
  have hbetween : Blanks [' '] := by simp [Blanks, isBlank]
  have hquoted : text "\"$\x7bd\x7d/a b\"" = '"' :: (text "$\x7bd\x7d/a b" ++ ['"']) := by decide
  have hwritten : WrittenPath (text "\"$\x7bd\x7d/a b\"") (text "$\x7bd\x7d/a b") := by
    rw [hquoted]
    exact .quoted rfl (by decide)
  have hpath : substituteOrFail [(text "d", text "/out")] 2 (text "$\x7bd\x7d/a b") =
      .ok (text "/out/a b") := rfl
  obtain ⟨-, hmultiline, -⟩ := fileContent_verbatim (.inr (by decide)) haccepted rfl .create hlead
    hbetween (by simp) hbetween (by simp) hwritten (by decide) hpath (by decide)
  exact hmultiline [' '] (text "EOF") [] (text "# $\x7bx\x7d\n\n  EOF.") (text " EOF")
    (text "\nRUN /x") (text "RUN /x") hbetween (by simp) (by decide) (by decide) (by decide) hlead
    (by decide) (by decide) (by decide) (.newline _)

end Haisos.HaisosFile
