import Mathlib.Data.List.TakeWhile
import Mathlib.Tactic
import Haisos.Hsh.Text

/-!
# Windows host paths

`ResolveWindowsPhysicalPath` of `PhysicalPath.cpp` and what it calls.  An absolute path
is a drive's or a share's root and the segments below it.
-/

namespace Haisos.Filesystem.Physical

open Hsh (Text text)

def isWindowsSeparator (c : Char) : Bool := c == '/' || c == '\\'

def isAsciiLetter (c : Char) : Bool := ('a' ≤ c && c ≤ 'z') || ('A' ≤ c && c ≤ 'Z')

def toUpperAscii (c : Char) : Char :=
  if 'a' ≤ c ∧ c ≤ 'z' then Char.ofNat (c.toNat - 'a'.toNat + 'A'.toNat) else c

def toLowerAscii (c : Char) : Char :=
  if 'A' ≤ c ∧ c ≤ 'Z' then Char.ofNat (c.toNat - 'A'.toNat + 'a'.toNat) else c

/-- What `AppendWindowsSegments` does at the end of a segment. -/
def endSegment (segments : List Text) (segment : Text) : List Text :=
  if segment = ['.', '.'] then segments.dropLast
  else if segment ≠ [] ∧ segment ≠ ['.'] then segments ++ [segment]
  else segments

def appendFrom : Text → Text → List Text → List Text
  | segment, [], segments => endSegment segments segment
  | segment, c :: rest, segments =>
      if isWindowsSeparator c then appendFrom [] rest (endSegment segments segment)
      else appendFrom (segment ++ [c]) rest segments

def appendWindowsSegments (path : Text) (segments : List Text) : List Text :=
  appendFrom [] path segments

structure WindowsPath where
  root : Text
  segments : List Text
  deriving DecidableEq, Repr

def WindowsPath.toText (path : WindowsPath) : Text :=
  path.root ++ ['\\'].intercalate path.segments

inductive Parsed where
  | absolute (path : WindowsPath)
  | relative
  | invalid (error : Text)
  deriving DecidableEq, Repr

def beforeSeparator (path : Text) : Text := path.takeWhile fun c => !isWindowsSeparator c

def fromSeparator (path : Text) : Text := path.dropWhile fun c => !isWindowsSeparator c

def shareRoot (server share : Text) : Text :=
  text "\\\\" ++ server ++ ['\\'] ++ share ++ ['\\']

/-- A UNC path, which starts with two separators; `fromServer` comes after them. -/
def parseUncPath (path fromServer : Text) : Parsed :=
  if fromServer.head?.any isWindowsSeparator then
    .invalid (text "'" ++ path ++
      text "' starts with three separators: a UNC path starts with two (\\\\server\\share)")
  else
    let server := beforeSeparator fromServer
    if server = ['?'] ∨ server = ['.'] then
      .invalid (text "'" ++ path ++ text "' is a \\\\" ++ server ++
        text "\\ path, which is not taken: write the path it names without that prefix")
    else
      let fromShare := (fromSeparator fromServer).dropWhile isWindowsSeparator
      let share := beforeSeparator fromShare
      if server = [] ∨ share = [] ∨ server = ['.', '.'] ∨ share = ['.'] ∨ share = ['.', '.'] then
        .invalid (text "'" ++ path ++
          text "' is not a UNC path: one names a server and a share on it (\\\\server\\share)")
      else .absolute ⟨shareRoot server share, appendWindowsSegments (fromSeparator fromShare) []⟩

def driveRoot (letter : Char) : Text := [toUpperAscii letter, ':', '\\']

def isDriveLetter (segment : Text) : Bool := segment.length == 1 && segment.all isAsciiLetter

def parseFullPath (path : Text) : Parsed :=
  match appendWindowsSegments path [] with
  | [] =>
      .invalid (text "'" ++ path ++
        text "' is the root of the full physical filesystem, which holds the drives but lies on none of them")
  | drive :: segments =>
      if isDriveLetter drive then .absolute ⟨driveRoot (drive.headD ' '), segments⟩
      else
        .invalid (text "'" ++ path ++
          text "' starts with '/', so it is a path of the full physical filesystem, whose top holds " ++
          text "nothing but the drives (/c, /d, ...): '" ++ drive ++
          text "' is no drive letter. A path on the current drive is " ++
          text "written with its letter, as c:" ++ path ++ text " or /c" ++ path)

/-- A path whose drive is named by its first character; `rest` comes after the `:`. -/
def parseDrivePath (path : Text) (letter : Char) (rest : Text) : Parsed :=
  if rest.head?.any fun c => !isWindowsSeparator c then
    .invalid (text "'" ++ path ++ text "' is relative to drive " ++ [toUpperAscii letter] ++
      text ":'s own current directory, which Haisos does not use: write " ++ path.take 2 ++
      text "\\" ++ rest ++ text " or /" ++ [toLowerAscii letter] ++ text "/" ++ rest)
  else .absolute ⟨driveRoot letter, appendWindowsSegments rest []⟩

def parseAbsoluteWindowsPath (path : Text) : Parsed :=
  match path with
  | [] => .invalid (text "the path is empty")
  | c :: rest =>
      if isWindowsSeparator c then
        if rest.head?.any isWindowsSeparator then parseUncPath path (rest.drop 1)
        else parseFullPath path
      else if isAsciiLetter c ∧ rest.head? = some ':' then parseDrivePath path c (rest.drop 1)
      else .relative

def resolveWindowsPhysicalPath (physicalPath base : Text) : Except Text Text :=
  match parseAbsoluteWindowsPath physicalPath with
  | .invalid error => .error error
  | .absolute path => .ok path.toText
  | .relative =>
      match parseAbsoluteWindowsPath base with
      | .absolute path =>
          .ok (WindowsPath.toText
            ⟨path.root, appendWindowsSegments physicalPath path.segments⟩)
      | _ =>
          .error (text "'" ++ physicalPath ++
            text "' is relative, and what it is relative to, '" ++ base ++
            text "', is no absolute path")

/-! ## Segments -/

structure IsSegment (s : Text) : Prop where
  ne_nil : s ≠ []
  ne_dot : s ≠ ['.']
  ne_dotDot : s ≠ ['.', '.']
  separatorFree : ∀ c ∈ s, isWindowsSeparator c = false

theorem endSegment_of_isSegment {s : Text} (h : IsSegment s) (segments : List Text) :
    endSegment segments s = segments ++ [s] := by
  rw [endSegment, if_neg h.ne_dotDot, if_pos ⟨h.ne_nil, h.ne_dot⟩]

theorem isSegment_endSegment {segments : List Text} {s : Text}
    (h : ∀ t ∈ segments, IsSegment t) (hs : ∀ c ∈ s, isWindowsSeparator c = false) :
    ∀ t ∈ endSegment segments s, IsSegment t := by
  unfold endSegment
  split_ifs with hdots hname
  · intro t ht
    exact h t (List.mem_of_mem_dropLast ht)
  · intro t ht
    rw [List.mem_append, List.mem_singleton] at ht
    rcases ht with ht | rfl
    · exact h t ht
    · exact ⟨hname.1, hname.2, hdots, hs⟩
  · exact h

theorem isSegment_appendFrom {segment path : Text} {segments : List Text}
    (h : ∀ t ∈ segments, IsSegment t) (hs : ∀ c ∈ segment, isWindowsSeparator c = false) :
    ∀ t ∈ appendFrom segment path segments, IsSegment t := by
  induction path generalizing segment segments with
  | nil => exact isSegment_endSegment h hs
  | cons c path ih =>
      rw [appendFrom]
      split_ifs with hc
      · exact ih (isSegment_endSegment h hs) (by simp)
      · refine ih h ?_
        intro d hd
        rw [List.mem_append, List.mem_singleton] at hd
        rcases hd with hd | rfl
        · exact hs d hd
        · simpa using hc

theorem isSegment_append {path : Text} {segments : List Text} (h : ∀ t ∈ segments, IsSegment t) :
    ∀ t ∈ appendWindowsSegments path segments, IsSegment t :=
  isSegment_appendFrom h (by simp)

theorem appendFrom_separator {c : Char} (hc : isWindowsSeparator c = true)
    (segment path rest : Text) (segments : List Text) :
    appendFrom segment (path ++ c :: rest) segments =
      appendWindowsSegments rest (appendFrom segment path segments) := by
  induction path generalizing segment segments with
  | nil => simp only [List.nil_append, appendFrom, hc, if_true, appendWindowsSegments]
  | cons d path ih =>
      rw [List.cons_append, appendFrom, appendFrom]
      split_ifs
      · exact ih [] _
      · exact ih _ segments

theorem append_separator {c : Char} (hc : isWindowsSeparator c = true) (path rest : Text)
    (segments : List Text) :
    appendWindowsSegments (path ++ c :: rest) segments =
      appendWindowsSegments rest (appendWindowsSegments path segments) :=
  appendFrom_separator hc [] path rest segments

theorem appendFrom_separatorFree {path : Text} (h : ∀ c ∈ path, isWindowsSeparator c = false)
    (segment : Text) (segments : List Text) :
    appendFrom segment path segments = endSegment segments (segment ++ path) := by
  induction path generalizing segment with
  | nil => rw [appendFrom, List.append_nil]
  | cons c path ih =>
      rw [List.forall_mem_cons] at h
      rw [appendFrom, if_neg (by simp [h.1]), ih h.2, List.append_assoc, List.singleton_append]

theorem append_intercalate {names : List Text} (h : ∀ s ∈ names, IsSegment s)
    (segments : List Text) :
    appendWindowsSegments (['\\'].intercalate names) segments = segments ++ names := by
  induction names generalizing segments with
  | nil => simp [appendWindowsSegments, appendFrom, endSegment]
  | cons s names ih =>
      rw [List.forall_mem_cons] at h
      have hs : appendWindowsSegments s segments = segments ++ [s] := by
        rw [appendWindowsSegments, appendFrom_separatorFree h.1.separatorFree, List.nil_append,
          endSegment_of_isSegment h.1]
      cases names with
      | nil => simpa using hs
      | cons t names =>
          have hjoin : ['\\'].intercalate (s :: t :: names) =
              s ++ '\\' :: ['\\'].intercalate (t :: names) := by
            simp [List.intercalate]
          rw [hjoin, append_separator rfl, hs, ih h.2, List.append_assoc, List.singleton_append]

/-! ## Canonical paths -/

inductive IsRoot : Text → Prop
  | drive {letter : Char} : 'A' ≤ letter → letter ≤ 'Z' → IsRoot [letter, ':', '\\']
  | share {server share : Text} : IsSegment server → server ≠ ['?'] → IsSegment share →
      IsRoot (shareRoot server share)

structure WindowsPath.Canonical (path : WindowsPath) : Prop where
  root : IsRoot path.root
  segments : ∀ s ∈ path.segments, IsSegment s

def IsAbsolute (path : Text) : Prop := ∃ parsed, parseAbsoluteWindowsPath path = .absolute parsed

/-- Neither a separator nor a drive's letter and a colon come first. -/
def IsRelative (path : Text) : Prop :=
  path ≠ [] ∧ (∀ c ∈ path.head?, isWindowsSeparator c = false) ∧
    ¬ (path.head?.any isAsciiLetter = true ∧ (path.drop 1).head? = some ':')

theorem parse_relative_iff (path : Text) :
    parseAbsoluteWindowsPath path = .relative ↔ IsRelative path := by
  cases path with
  | nil => simp [parseAbsoluteWindowsPath, IsRelative]
  | cons c rest =>
      have hnotUnc : ∀ fromServer, parseUncPath (c :: rest) fromServer ≠ .relative := by
        intro fromServer
        simp only [parseUncPath]
        split_ifs <;> simp
      have hnotFull : parseFullPath (c :: rest) ≠ .relative := by
        unfold parseFullPath
        split
        · simp
        · split_ifs <;> simp
      have hnotDrive : ∀ rest', parseDrivePath (c :: rest) c rest' ≠ .relative := by
        intro rest'
        unfold parseDrivePath
        split_ifs <;> simp
      simp only [parseAbsoluteWindowsPath]
      split_ifs with hc hunc hdrive
      · simp [hnotUnc, IsRelative, hc]
      · simp [hnotFull, IsRelative, hc]
      · simp only [hnotDrive, IsRelative, false_iff]
        rintro ⟨-, -, hnot⟩
        exact hnot hdrive
      · simp only [IsRelative, true_iff]
        exact ⟨by simp, by simpa using hc, hdrive⟩

theorem beforeSeparator_free (path : Text) :
    ∀ c ∈ beforeSeparator path, isWindowsSeparator c = false := by
  intro c hc
  simpa using List.mem_takeWhile_imp hc

theorem toUpperAscii_range {c : Char} (h : isAsciiLetter c = true) :
    'A' ≤ toUpperAscii c ∧ toUpperAscii c ≤ 'Z' := by
  have hlower : ∀ n, 97 ≤ n → n ≤ 122 →
      'A' ≤ Char.ofNat (n - 97 + 65) ∧ Char.ofNat (n - 97 + 65) ≤ 'Z' := by
    intro n hle hge
    interval_cases n <;> decide
  simp only [isAsciiLetter, Bool.or_eq_true, Bool.and_eq_true, decide_eq_true_eq] at h
  unfold toUpperAscii
  split_ifs with hc
  · exact hlower c.toNat hc.1 hc.2
  · exact h.resolve_left hc

theorem toUpperAscii_of_upper {c : Char} (h : c ≤ 'Z') : toUpperAscii c = c := by
  have hlower : ¬ ('a' ≤ c ∧ c ≤ 'z') := by
    rintro ⟨ha, -⟩
    have hle : 'a' ≤ 'Z' := Char.le_trans ha h
    revert hle
    decide
  rw [toUpperAscii, if_neg hlower]

theorem separator_of_upper {c : Char} (h : 'A' ≤ c) (h' : c ≤ 'Z') :
    isWindowsSeparator c = false := by
  rw [isWindowsSeparator, Bool.or_eq_false_iff, beq_eq_false_iff_ne, beq_eq_false_iff_ne]
  constructor
  · rintro rfl
    exact absurd h (by decide)
  · rintro rfl
    exact absurd h' (by decide)

theorem isRoot_driveRoot {letter : Char} (h : isAsciiLetter letter = true) :
    IsRoot (driveRoot letter) := by
  obtain ⟨hA, hZ⟩ := toUpperAscii_range h
  exact .drive hA hZ

theorem isSegment_nil_append (path : Text) :
    ∀ s ∈ appendWindowsSegments path [], IsSegment s :=
  isSegment_append (by simp)

theorem canonical_parseUnc {path fromServer : Text} {parsed : WindowsPath}
    (h : parseUncPath path fromServer = .absolute parsed) : parsed.Canonical := by
  simp only [parseUncPath] at h
  split_ifs at h with hthree hprefix hname
  cases h
  rw [not_or] at hprefix
  simp only [not_or] at hname
  obtain ⟨hserver, hshare, hserverDots, hshareDot, hshareDots⟩ := hname
  constructor
  · exact .share ⟨hserver, hprefix.2, hserverDots, beforeSeparator_free _⟩ hprefix.1
      ⟨hshare, hshareDot, hshareDots, beforeSeparator_free _⟩
  · exact isSegment_nil_append _

theorem canonical_parseFull {path : Text} {parsed : WindowsPath}
    (h : parseFullPath path = .absolute parsed) : parsed.Canonical := by
  have hsegments := isSegment_nil_append path
  unfold parseFullPath at h
  split at h
  · cases h
  · rename_i drive segments heq
    split_ifs at h with hdrive
    cases h
    rw [heq, List.forall_mem_cons] at hsegments
    constructor
    · refine isRoot_driveRoot ?_
      simp only [isDriveLetter, Bool.and_eq_true, beq_iff_eq, List.length_eq_one_iff] at hdrive
      obtain ⟨⟨letter, rfl⟩, hall⟩ := hdrive
      simpa using hall
    · exact hsegments.2

theorem canonical_parse {path : Text} {parsed : WindowsPath}
    (h : parseAbsoluteWindowsPath path = .absolute parsed) : parsed.Canonical := by
  cases path with
  | nil => cases h
  | cons c rest =>
      simp only [parseAbsoluteWindowsPath] at h
      split_ifs at h with hc hunc hdrive
      · exact canonical_parseUnc h
      · exact canonical_parseFull h
      · unfold parseDrivePath at h
        split_ifs at h
        cases h
        exact ⟨isRoot_driveRoot hdrive.1, isSegment_nil_append _⟩

theorem beforeSeparator_append {name : Text} (h : ∀ c ∈ name, isWindowsSeparator c = false)
    (rest : Text) : beforeSeparator (name ++ '\\' :: rest) = name ∧
      fromSeparator (name ++ '\\' :: rest) = '\\' :: rest := by
  have hall : ∀ c ∈ name, (!isWindowsSeparator c) = true := by simpa using h
  constructor
  · rw [beforeSeparator, List.takeWhile_append_of_pos hall]
    simp [isWindowsSeparator]
  · rw [fromSeparator, List.dropWhile_append_of_pos hall]
    simp [isWindowsSeparator]

theorem append_after_separator (rest : Text) :
    appendWindowsSegments ('\\' :: rest) [] = appendWindowsSegments rest [] := by
  have hnil : appendWindowsSegments [] [] = [] := by
    simp [appendWindowsSegments, appendFrom, endSegment]
  rw [← List.nil_append ('\\' :: rest), append_separator rfl, hnil]

theorem parse_root {root : Text} (h : IsRoot root) (rest : Text) :
    parseAbsoluteWindowsPath (root ++ rest) =
      .absolute ⟨root, appendWindowsSegments rest []⟩ := by
  cases h with
  | @drive letter hA hZ =>
      have hletter : isAsciiLetter letter = true := by simp [isAsciiLetter, hA, hZ]
      have hseparator := separator_of_upper hA hZ
      have hbackslash : isWindowsSeparator '\\' = true := rfl
      have hroot : driveRoot letter = [letter, ':', '\\'] := by
        rw [driveRoot, toUpperAscii_of_upper hZ]
      simp [parseAbsoluteWindowsPath, hseparator, hletter, parseDrivePath,
        append_after_separator, hroot, hbackslash]
  | @share server share hserver hprefix hshare =>
      have hbackslash : isWindowsSeparator '\\' = true := rfl
      have hpath : shareRoot server share ++ rest =
          '\\' :: '\\' :: (server ++ '\\' :: (share ++ '\\' :: rest)) := by
        simp [shareRoot, text]
      have hfirst : (server ++ '\\' :: (share ++ '\\' :: rest)).head?.any isWindowsSeparator =
          false := by
        obtain ⟨c, server, rfl⟩ := List.exists_cons_of_ne_nil hserver.ne_nil
        simpa using hserver.separatorFree c (by simp)
      have hshareStart : (share ++ '\\' :: rest).dropWhile isWindowsSeparator =
          share ++ '\\' :: rest := by
        obtain ⟨c, share, rfl⟩ := List.exists_cons_of_ne_nil hshare.ne_nil
        have hc := hshare.separatorFree c (by simp)
        rw [List.cons_append, List.dropWhile_cons_of_neg (by simp [hc])]
      obtain ⟨hbefore, hfrom⟩ :=
        beforeSeparator_append hserver.separatorFree (share ++ '\\' :: rest)
      obtain ⟨hbefore', hfrom'⟩ := beforeSeparator_append hshare.separatorFree rest
      have hunc : parseUncPath (shareRoot server share ++ rest)
          (server ++ '\\' :: (share ++ '\\' :: rest)) =
            .absolute ⟨shareRoot server share, appendWindowsSegments rest []⟩ := by
        have hnames : ¬ (server = [] ∨ share = [] ∨ server = ['.', '.'] ∨ share = ['.'] ∨
            share = ['.', '.']) := by
          simp [hserver.ne_nil, hserver.ne_dotDot, hshare.ne_nil, hshare.ne_dot, hshare.ne_dotDot]
        simp only [parseUncPath, hfirst, hbefore, hfrom, hprefix, hserver.ne_dot, or_self,
          Bool.false_eq_true, if_false, List.dropWhile_cons_of_pos hbackslash, hshareStart,
          hbefore', hfrom', if_neg hnames, append_after_separator]
      rw [hpath] at hunc ⊢
      simpa [parseAbsoluteWindowsPath, hbackslash] using hunc

theorem parse_toText {path : WindowsPath} (h : path.Canonical) :
    parseAbsoluteWindowsPath path.toText = .absolute path := by
  rw [WindowsPath.toText, parse_root h.root, append_intercalate h.segments, List.nil_append]

theorem resolve_absolute {path : Text} {parsed : WindowsPath}
    (h : parseAbsoluteWindowsPath path = .absolute parsed) (base : Text) :
    resolveWindowsPhysicalPath path base = .ok parsed.toText := by
  rw [resolveWindowsPhysicalPath, h]

theorem resolve_toText {path : WindowsPath} (h : path.Canonical) (base : Text) :
    resolveWindowsPhysicalPath path.toText base = .ok path.toText :=
  resolve_absolute (parse_toText h) base

theorem resolve_relative {path base : Text} (h : IsRelative path) {parsed : WindowsPath}
    (hbase : parseAbsoluteWindowsPath base = .absolute parsed) :
    resolveWindowsPhysicalPath path base =
      .ok (WindowsPath.toText ⟨parsed.root, appendWindowsSegments path parsed.segments⟩) := by
  rw [resolveWindowsPhysicalPath, (parse_relative_iff path).mpr h, hbase]

theorem parse_below {parsed : WindowsPath} (h : parsed.Canonical) (path : Text) :
    parseAbsoluteWindowsPath (parsed.toText ++ '\\' :: path) =
      .absolute ⟨parsed.root, appendWindowsSegments path parsed.segments⟩ := by
  rw [WindowsPath.toText, List.append_assoc, parse_root h.root, append_separator rfl,
    append_intercalate h.segments, List.nil_append]

theorem resolve_cases {path base result : Text}
    (h : resolveWindowsPhysicalPath path base = .ok result) :
    (∃ parsed, parseAbsoluteWindowsPath path = .absolute parsed ∧ result = parsed.toText) ∨
    ∃ parsed, IsRelative path ∧ parseAbsoluteWindowsPath base = .absolute parsed ∧
      result = WindowsPath.toText ⟨parsed.root, appendWindowsSegments path parsed.segments⟩ := by
  unfold resolveWindowsPhysicalPath at h
  split at h
  · cases h
  · rename_i parsed hparsed
    cases h
    exact .inl ⟨parsed, hparsed, rfl⟩
  · rename_i hrelative
    split at h
    · rename_i parsed hparsed
      cases h
      exact .inr ⟨parsed, (parse_relative_iff path).mp hrelative, hparsed, rfl⟩
    · cases h

/-! ## The law -/

/-- A resolved path is canonical and resolves to itself; an absolute one does not look at
what it would be relative to; a relative one resolves exactly where that is absolute, below
the root of it, and as the path written behind it. -/
theorem resolveWindowsPhysicalPath_canonical :
    (∀ path base result : Text, resolveWindowsPhysicalPath path base = .ok result →
      (∃ parsed : WindowsPath, parsed.Canonical ∧ result = parsed.toText) ∧
      ∀ other, resolveWindowsPhysicalPath result other = .ok result) ∧
    (∀ path base other : Text, ¬ IsRelative path →
      resolveWindowsPhysicalPath path base = resolveWindowsPhysicalPath path other) ∧
    (∀ path base : Text, IsRelative path →
      ((∃ result, resolveWindowsPhysicalPath path base = .ok result) ↔ IsAbsolute base)) ∧
    ∀ path base result : Text, IsRelative path →
      resolveWindowsPhysicalPath path base = .ok result →
      ∃ (root : Text) (above below : List Text) (resolved : Text),
        WindowsPath.Canonical ⟨root, above⟩ ∧ WindowsPath.Canonical ⟨root, below⟩ ∧
        resolved = WindowsPath.toText ⟨root, above⟩ ∧
        result = WindowsPath.toText ⟨root, below⟩ ∧
        (∀ other, resolveWindowsPhysicalPath base other = .ok resolved) ∧
        ∀ other, resolveWindowsPhysicalPath (resolved ++ '\\' :: path) other = .ok result := by
  have hbelow : ∀ (path base : Text) (parsed : WindowsPath),
      parseAbsoluteWindowsPath base = .absolute parsed →
      WindowsPath.Canonical ⟨parsed.root, appendWindowsSegments path parsed.segments⟩ := by
    intro path base parsed hparsed
    have hcanonical := canonical_parse hparsed
    exact ⟨hcanonical.root, isSegment_append hcanonical.segments⟩
  refine ⟨?_, ?_, ?_, ?_⟩
  · intro path base result h
    obtain ⟨parsed, hparsed, rfl⟩ | ⟨parsed, -, hparsed, rfl⟩ := resolve_cases h
    · have hcanonical := canonical_parse hparsed
      exact ⟨⟨parsed, hcanonical, rfl⟩, resolve_toText hcanonical⟩
    · have hcanonical := hbelow path base parsed hparsed
      exact ⟨⟨_, hcanonical, rfl⟩, resolve_toText hcanonical⟩
  · intro path base other h
    rw [← parse_relative_iff] at h
    unfold resolveWindowsPhysicalPath
    cases hparse : parseAbsoluteWindowsPath path with
    | absolute parsed => rfl
    | invalid error => rfl
    | relative => exact absurd hparse h
  · intro path base hrelative
    constructor
    · rintro ⟨result, h⟩
      obtain ⟨parsed, hparsed, -⟩ | ⟨parsed, -, hparsed, -⟩ := resolve_cases h
      · rw [(parse_relative_iff path).mpr hrelative] at hparsed
        cases hparsed
      · exact ⟨parsed, hparsed⟩
    · rintro ⟨parsed, hparsed⟩
      exact ⟨_, resolve_relative hrelative hparsed⟩
  · intro path base result hrelative h
    obtain ⟨parsed, hparsed, -⟩ | ⟨parsed, -, hparsed, rfl⟩ := resolve_cases h
    · rw [(parse_relative_iff path).mpr hrelative] at hparsed
      cases hparsed
    · refine ⟨parsed.root, parsed.segments, _, parsed.toText, canonical_parse hparsed,
        hbelow path base parsed hparsed, rfl, rfl, resolve_absolute hparsed, ?_⟩
      intro other
      exact resolve_absolute (parse_below (canonical_parse hparsed) path) other

/-- `..\..\up` against `//srv/pub/a`. -/
theorem resolveWindowsPhysicalPath_canonical_share :
    (∀ other, resolveWindowsPhysicalPath (text "\\\\srv\\pub\\up") other =
        .ok (text "\\\\srv\\pub\\up")) ∧
      ((∃ result, resolveWindowsPhysicalPath (text "..\\..\\up") (text "//srv/pub/a") =
        .ok result) ↔ IsAbsolute (text "//srv/pub/a")) ∧
      ∃ (root : Text) (above below : List Text) (resolved : Text),
        WindowsPath.Canonical ⟨root, above⟩ ∧ WindowsPath.Canonical ⟨root, below⟩ ∧
        resolved = WindowsPath.toText ⟨root, above⟩ ∧
        text "\\\\srv\\pub\\up" = WindowsPath.toText ⟨root, below⟩ ∧
        (∀ other, resolveWindowsPhysicalPath (text "//srv/pub/a") other = .ok resolved) ∧
        ∀ other, resolveWindowsPhysicalPath (resolved ++ '\\' :: text "..\\..\\up") other =
          .ok (text "\\\\srv\\pub\\up") := by
  have hresolve : resolveWindowsPhysicalPath (text "..\\..\\up") (text "//srv/pub/a") =
      .ok (text "\\\\srv\\pub\\up") := rfl
  have hrelative : IsRelative (text "..\\..\\up") := (parse_relative_iff _).mp rfl
  have hlaw := resolveWindowsPhysicalPath_canonical
  exact ⟨(hlaw.1 _ _ _ hresolve).2, hlaw.2.2.1 _ _ hrelative, hlaw.2.2.2 _ _ _ hrelative hresolve⟩

end Haisos.Filesystem.Physical
