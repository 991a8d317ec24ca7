import Haisos.Filesystem.Session

/-!
# Where reads and writes of a file land

An in-memory file beside the file that POSIX describes: its bytes, and for each
descriptor an access mode and a position.  They go together as long as no write of no
bytes moves anything.
-/

namespace Haisos.Filesystem

open Hsh (Text text)
open InMemoryFileSystem (written)

structure PosixDescriptor where
  readable : Bool
  writable : Bool
  append : Bool
  position : Nat := 0

/-- A file, and the descriptors that were opened on it by their numbers. -/
structure PosixFile where
  content : List UInt8
  descriptors : Nat → Option PosixDescriptor

namespace PosixFile

/-- `content` with `buf` in place of the bytes from `start` on; zeros fill a gap. -/
def placed (content : List UInt8) (start : Nat) (buf : List UInt8) : List UInt8 :=
  content.take start ++ List.replicate (start - content.length) 0 ++ buf ++
    content.drop (start + buf.length)

def withDescriptor (file : PosixFile) (k : Nat) (d : PosixDescriptor) : PosixFile :=
  { file with descriptors := Function.update file.descriptors k (some d) }

def opened (file : PosixFile) (k : Nat) (flags : OpenFlags) : PosixFile :=
  { content := if flags.truncate then [] else file.content
    descriptors := Function.update file.descriptors k (some
      { readable := !flags.writeOnly
        writable := flags.writeOnly || flags.readWrite
        append := flags.append }) }

/-- The result, the bytes read, and the file after the call. -/
def read (file : PosixFile) (k count : Nat) : Int × List UInt8 × PosixFile :=
  match file.descriptors k with
  | none => (kIOError, [], file)
  | some d =>
      if !d.readable then (kIOError, [], file)
      else
        let out := (file.content.drop d.position).take count
        (out.length, out, file.withDescriptor k { d with position := d.position + out.length })

/-- The result and the file after the call.  An appending write goes to the end; no bytes
change nothing. -/
def write (file : PosixFile) (k : Nat) (buf : List UInt8) : Int × PosixFile :=
  match file.descriptors k with
  | none => (kIOError, file)
  | some d =>
      let start := if d.append then file.content.length else d.position
      if !d.writable || decide (buf.length > sizeMax - start) then (kIOError, file)
      else if buf = [] then (0, file)
      else
        (buf.length, { file with content := placed file.content start buf }.withDescriptor k
          { d with position := start + buf.length })

end PosixFile

/-! ## The file at a path -/

variable {ω δ' : Type*}

namespace InMemoryFileSystem

/-- Whether there is a directory at a path, and the bytes there. -/
def dataAt (fs : InMemoryFileSystem) (p : Text) : Option (Bool × List UInt8) :=
  (fs.nodes.lookup p).map fun node => (node.isDirectory, node.data)

theorem dataAt_insert (nodes : Nodes) (path p : Text) (node : Node) :
    dataAt ⟨nodes.insert path node⟩ p =
      if p = path then some (node.isDirectory, node.data) else dataAt ⟨nodes⟩ p := by
  unfold dataAt
  split_ifs with h
  · rw [h, AList.lookup_insert, Option.map_some]
  · rw [AList.lookup_insert_ne h]

theorem dataAt_erase (nodes : Nodes) (path p : Text) :
    dataAt ⟨nodes.erase path⟩ p = if p = path then none else dataAt ⟨nodes⟩ p := by
  unfold dataAt
  split_ifs with h
  · rw [h, AList.lookup_erase, Option.map_none]
  · rw [AList.lookup_erase_ne h]

@[simp]
theorem dataAt_touchDirectory (fs : InMemoryFileSystem) (now : FileDateTime) (path p : Text) :
    (fs.touchDirectory now path).dataAt p = fs.dataAt p := by
  unfold touchDirectory
  cases hnode : fs.nodes.lookup path with
  | none => rfl
  | some node =>
      simp only [dataAt_insert]
      split_ifs with h
      · subst h
        simp [dataAt, hnode, Node.modified]
      · rfl

theorem dataAt_eq_some {fs : InMemoryFileSystem} {p : Text} {entry : Bool × List UInt8}
    (h : fs.dataAt p = some entry) :
    ∃ node, fs.nodes.lookup p = some node ∧ node.isDirectory = entry.1 ∧ node.data = entry.2 := by
  obtain ⟨node, hnode, rfl⟩ := Option.map_eq_some_iff.1 h
  exact ⟨node, hnode, rfl, rfl⟩

variable {fs : InMemoryFileSystem} {p : Text} {data : List UInt8}

theorem dataAt_localCreateDirectory (h : fs.dataAt p = some (false, data))
    (now : FileDateTime) (path : Text) :
    (fs.localCreateDirectory now path).2.dataAt p = some (false, data) := by
  obtain ⟨node, hnode, -⟩ := dataAt_eq_some h
  unfold localCreateDirectory
  simp only
  split_ifs with hthere
  · exact h
  · exact h
  · rw [emplace, dataAt_touchDirectory, dataAt_insert, if_neg, h]
    rintro rfl
    exact hthere (by rw [hnode]; rfl)

theorem dataAt_localRemoveDirectory (h : fs.dataAt p = some (false, data))
    (now : FileDateTime) (path : Text) :
    (fs.localRemoveDirectory now path).2.dataAt p = some (false, data) := by
  obtain ⟨node, hnode, hfile, -⟩ := dataAt_eq_some h
  unfold localRemoveDirectory
  simp only
  split
  · exact h
  · rename_i found hfound
    split_ifs with hdirectory
    · exact h
    · exact h
    · rw [eraseNode, dataAt_touchDirectory, dataAt_erase, if_neg, h]
      rintro rfl
      rw [hnode] at hfound
      cases hfound
      simp [hfile] at hdirectory

theorem dataAt_localRemoveFile (h : fs.dataAt p = some (false, data)) (now : FileDateTime)
    (path : Text) (hkept : (fs.localRemoveFile now path).2.dataAt p ≠ none) :
    (fs.localRemoveFile now path).2.dataAt p = some (false, data) := by
  unfold localRemoveFile at hkept ⊢
  simp only at hkept ⊢
  split at hkept
  · exact h
  · split_ifs at hkept ⊢
    · exact h
    · rw [eraseNode, dataAt_touchDirectory, dataAt_erase] at hkept ⊢
      split_ifs at hkept ⊢
      · exact absurd rfl hkept
      · exact h

theorem dataAt_localOpenFile_ne (h : fs.dataAt p = some (false, data)) (now : FileDateTime)
    {path : Text} (hne : normalizeVirtualPath path ≠ p) (flags : OpenFlags) :
    (fs.localOpenFile now path flags).2.dataAt p = some (false, data) := by
  unfold localOpenFile
  simp only
  split
  · split_ifs
    · exact h
    · rw [dataAt_insert, if_neg hne.symm, h]
    · exact h
  · split_ifs
    · exact h
    · exact h
    · rw [emplace, dataAt_touchDirectory, dataAt_insert, if_neg hne.symm, h]

theorem localOpenFile_path {now : FileDateTime} {path : Text} {flags : OpenFlags}
    {file : InMemoryFileDescriptor} (h : (fs.localOpenFile now path flags).1 = some file) :
    file.path = normalizeVirtualPath path := by
  unfold localOpenFile at h
  simp only at h
  split at h
  · split_ifs at h
    · cases h
      rfl
    · cases h
      rfl
  · split_ifs at h
    cases h
    rfl

theorem localOpenFile_at (h : fs.dataAt p = some (false, data)) (now : FileDateTime)
    {path : Text} (hpath : normalizeVirtualPath path = p) (flags : OpenFlags) :
    (fs.localOpenFile now path flags).1 = some (.make p flags) ∧
      (fs.localOpenFile now path flags).2.dataAt p =
        some (false, if flags.truncate then [] else data) := by
  obtain ⟨node, hnode, hfile, hdata⟩ := dataAt_eq_some h
  subst hpath
  unfold localOpenFile
  simp only [hnode, hfile, Bool.false_eq_true, if_false]
  split_ifs
  · simp [dataAt_insert, Node.modified]
  · simp [h]

end InMemoryFileSystem

/-! ## Reading and writing through one descriptor -/

theorem written_eq_placed (data : List UInt8) (position : Nat) {buf : List UInt8}
    (h : buf ≠ []) : written data position buf = PosixFile.placed data position buf := by
  have hpos := List.length_pos_of_ne_nil h
  unfold written RingBuffer.overwrite PosixFile.placed
  simp only
  split_ifs with hgrows
  · rcases Nat.le_total position data.length with hle | hle
    · rw [List.take_append_of_le_length hle, List.drop_eq_nil_of_le (by simp; omega),
        List.drop_eq_nil_of_le (by omega), Nat.sub_eq_zero_of_le hle]
      simp
    · rw [List.take_append, List.take_of_length_le hle, List.drop_eq_nil_of_le (by simp; omega),
        List.drop_eq_nil_of_le (by omega), List.take_replicate, Nat.min_eq_left (by omega)]
  · rw [Nat.sub_eq_zero_of_le (by omega)]
    simp

theorem written_nothing (data : List UInt8) (position : Nat) :
    written data position [] = data ++ List.replicate (position - data.length) 0 := by
  unfold written RingBuffer.overwrite
  simp only [List.length_nil, Nat.add_zero, List.append_nil, List.take_append_drop]
  split_ifs with hgap
  · rfl
  · rw [Nat.sub_eq_zero_of_le (by omega)]
    simp

namespace InMemoryFileDescriptor

variable {fs : InMemoryFileSystem} {file : InMemoryFileDescriptor} {data : List UInt8}

theorem read_at (h : fs.dataAt file.path = some (false, data)) (hreadable : file.readable = true)
    (now : FileDateTime) (count : Nat) :
    ∃ after : InMemoryFileSystem, (∀ q, after.dataAt q = fs.dataAt q) ∧
      file.read fs now count =
        ((((data.drop file.position).take count).length : Int), (data.drop file.position).take count,
          { file with position :=
              file.position + ((data.drop file.position).take count).length }, after) := by
  obtain ⟨node, hnode, -, rfl⟩ := InMemoryFileSystem.dataAt_eq_some h
  simp only [read, hreadable, Bool.not_true, Bool.false_eq_true, if_false,
    InMemoryFileSystem.readAt, hnode]
  split_ifs with hend
  · refine ⟨fs, fun _ => rfl, ?_⟩
    simp [List.drop_eq_nil_of_le hend]
  · refine ⟨_, fun q => ?_, Prod.ext ?_ (Prod.ext ?_ (Prod.ext ?_ rfl))⟩
    · rw [InMemoryFileSystem.dataAt_insert]
      split_ifs with hq
      · subst hq
        simp [InMemoryFileSystem.dataAt, hnode]
      · rfl
    · simp
    · exact take_min_drop node.data file.position count
    · simp

theorem read_unreadable (fs : InMemoryFileSystem) (hreadable : file.readable = false)
    (now : FileDateTime) (count : Nat) : file.read fs now count = (kIOError, [], file, fs) := by
  simp [read, hreadable]

theorem write_unwritable (fs : InMemoryFileSystem) (hwritable : file.writable = false)
    (now : FileDateTime) (buf : List UInt8) : file.write fs now buf = (kIOError, file, fs) := by
  simp [write, hwritable]

theorem read_keeps (fs : InMemoryFileSystem) (file : InMemoryFileDescriptor)
    (now : FileDateTime) (count : Nat) :
    (∀ q, (file.read fs now count).2.2.2.dataAt q = fs.dataAt q) ∧
      (file.read fs now count).2.2.1.path = file.path := by
  unfold read
  split_ifs
  · exact ⟨fun _ => rfl, rfl⟩
  · refine ⟨fun q => ?_, rfl⟩
    change (fs.readAt now file.path file.position count).2.2.2.dataAt q = _
    unfold InMemoryFileSystem.readAt
    split
    · rfl
    · rename_i node hnode
      split_ifs
      · rfl
      · rw [InMemoryFileSystem.dataAt_insert]
        split_ifs with hq
        · subst hq
          simp [InMemoryFileSystem.dataAt, hnode]
        · rfl

theorem write_keeps (fs : InMemoryFileSystem) (file : InMemoryFileDescriptor)
    (now : FileDateTime) (buf : List UInt8) :
    (∀ q, q ≠ file.path → (file.write fs now buf).2.2.dataAt q = fs.dataAt q) ∧
      (file.write fs now buf).2.1.path = file.path := by
  unfold write
  split_ifs
  · exact ⟨fun _ _ => rfl, rfl⟩
  · refine ⟨fun q hq => ?_, rfl⟩
    change (fs.writeAt now file.path file.position file.append buf).2.2.dataAt q = _
    unfold InMemoryFileSystem.writeAt
    split
    · rfl
    · by_cases hover : buf.length > sizeMax - file.position
      · simp only
        split_ifs <;> first | rfl | rw [InMemoryFileSystem.dataAt_insert, if_neg hq]
      · simp only
        split_ifs <;> first | rfl | rw [InMemoryFileSystem.dataAt_insert, if_neg hq]

/-- Where a write through the descriptor starts. -/
def start (file : InMemoryFileDescriptor) (size : Nat) : Nat :=
  if file.append then size else file.position

theorem write_overflow (h : fs.dataAt file.path = some (false, data))
    (hwritable : file.writable = true) {buf : List UInt8}
    (hover : buf.length > sizeMax - file.start data.length) (now : FileDateTime) :
    file.write fs now buf = (kIOError, { file with position := file.start data.length }, fs) := by
  obtain ⟨node, hnode, -, rfl⟩ := InMemoryFileSystem.dataAt_eq_some h
  simp only [write, hwritable, Bool.not_true, Bool.false_eq_true, if_false,
    InMemoryFileSystem.writeAt, hnode]
  simp only [start] at hover ⊢
  simp only [hover, if_true]

theorem write_fits (h : fs.dataAt file.path = some (false, data))
    (hwritable : file.writable = true) {buf : List UInt8}
    (hfits : ¬ buf.length > sizeMax - file.start data.length) (now : FileDateTime) :
    ∃ after : InMemoryFileSystem,
      (∀ q, after.dataAt q = if q = file.path then
        some (false, written data (file.start data.length) buf) else fs.dataAt q) ∧
      file.write fs now buf =
        ((buf.length : Int), { file with position := file.start data.length + buf.length },
          after) := by
  obtain ⟨node, hnode, hfile, rfl⟩ := InMemoryFileSystem.dataAt_eq_some h
  simp only [write, hwritable, Bool.not_true, Bool.false_eq_true, if_false,
    InMemoryFileSystem.writeAt, hnode]
  simp only [start] at hfits ⊢
  simp only [hfits, if_false]
  refine ⟨_, fun q => ?_, rfl⟩
  rw [InMemoryFileSystem.dataAt_insert]
  by_cases hq : q = file.path
  · simp only [hq, if_true, Node.modified, hfile]
  · simp only [hq, if_false]

end InMemoryFileDescriptor

/-! ## Runs beside the file of POSIX -/

/-- The descriptor that an open file is for the file at `p`. -/
def posixDescriptor (p : Text) : OpenedFile InMemoryFileDescriptor δ' → Option PosixDescriptor
  | .own file =>
      if file.path = p then
        some ⟨file.readable, file.writable, file.append, file.position⟩
      else none
  | _ => none

theorem posixDescriptor_ne {p : Text} {file : InMemoryFileDescriptor} (h : file.path ≠ p) :
    posixDescriptor p (.own file : OpenedFile InMemoryFileDescriptor δ') = none := if_neg h

namespace Session

def descriptorsAt (p : Text) (s : Session ω δ') (k : Nat) : Option PosixDescriptor :=
  s.opened[k]?.bind (posixDescriptor p)

/-- The file at `p`, as POSIX describes it. -/
def fileAt (p : Text) (s : Session ω δ') : Option PosixFile :=
  (s.fs.content.dataAt p).bind fun entry =>
    if entry.1 then none else some ⟨entry.2, s.descriptorsAt p⟩

/-- Whether opening `path` opens the session's own file at `p`. -/
def opensOwn (p : Text) (s : Session ω δ') (path : Text) : Prop :=
  normalizeVirtualPath path = p ∧ s.fs.ownBuiltinAt p = none ∧ (s.fs.resolve p).isNone = true

instance (p : Text) (s : Session ω δ') (path : Text) : Decidable (s.opensOwn p path) :=
  inferInstanceAs (Decidable (_ ∧ _ ∧ _))

def posixStep (p : Text) (s : Session ω δ') : FileAction ω δ' → PosixFile → PosixFile
  | .openFile _ path flags _, file =>
      if s.opensOwn p path then file.opened s.opened.length flags else file
  | .read _ k count, file => (file.read k count).2.2
  | .write _ k buf, file => (file.write k buf).2
  | _, file => file

/-- A read or write through a descriptor of the file answers as POSIX says. -/
def AnswersAs (p : Text) (s : Session ω δ') (posix : PosixFile) : FileAction ω δ' → Prop
  | .read now k count => ∀ file, s.opened[k]? = some (.own file) → file.path = p →
      ((file.read s.fs.content now count).1, (file.read s.fs.content now count).2.1) =
        ((posix.read k count).1, (posix.read k count).2.1)
  | .write now k buf => ∀ file, s.opened[k]? = some (.own file) → file.path = p →
      (file.write s.fs.content now buf).1 = (posix.write k buf).1
  | _ => True

/-- Every state of a run shows the file of POSIX, and every answer is its answer. -/
def Follows (p : Text) : List (FileAction ω δ') → Session ω δ' → PosixFile → Prop
  | [], s, file => s.fileAt p = some file
  | action :: rest, s, file =>
      s.fileAt p = some file ∧ s.AnswersAs p file action ∧
        ∀ t, step action s = some t → Follows p rest t (s.posixStep p action file)

/-- Nothing moves where nothing is written: an appending descriptor stands at the end
then, another one not past it. -/
def MovesNothing (file : InMemoryFileDescriptor) (size : Nat) (buf : List UInt8) : Prop :=
  if file.append then
    file.position = size ∨ buf ≠ [] ∧ buf.length ≤ sizeMax - size
  else buf ≠ [] ∨ file.position ≤ size

/-- A write through a descriptor of the file at `p` moves only what it writes. -/
def Harmless (p : Text) (action : FileAction ω δ') (s : Session ω δ') : Prop :=
  ∀ now k buf file data, action = .write now k buf → s.opened[k]? = some (.own file) →
    file.path = p → file.writable = true → s.fs.content.dataAt p = some (false, data) →
      MovesNothing file data.length buf

/-- The step leaves a file at `p`. -/
def Kept (p : Text) (action : FileAction ω δ') (s : Session ω δ') : Prop :=
  ∀ t, step action s = some t → t.fs.content.dataAt p ≠ none

theorem fileAt_eq_some {p : Text} {s : Session ω δ'} {file : PosixFile} :
    s.fileAt p = some file ↔
      s.fs.content.dataAt p = some (false, file.content) ∧ s.descriptorsAt p = file.descriptors := by
  rw [fileAt, Option.bind_eq_some_iff]
  constructor
  · rintro ⟨⟨isDirectory, data⟩, hdata, hfile⟩
    cases isDirectory with
    | true => simp at hfile
    | false =>
        cases hfile
        exact ⟨hdata, rfl⟩
  · rintro ⟨hdata, hdescriptors⟩
    exact ⟨_, hdata, by rw [hdescriptors]; rfl⟩

theorem descriptors_append (p : Text) (opened : List (OpenedFile InMemoryFileDescriptor δ'))
    (file : OpenedFile InMemoryFileDescriptor δ') :
    (fun k => (opened ++ [file])[k]?.bind (posixDescriptor p)) =
      Function.update (fun k => opened[k]?.bind (posixDescriptor p)) opened.length
        (posixDescriptor p file) := by
  funext k
  rcases Nat.lt_trichotomy k opened.length with hlt | rfl | hgt
  · rw [Function.update_of_ne hlt.ne, List.getElem?_append_left hlt]
  · simp
  · rw [Function.update_of_ne hgt.ne', List.getElem?_eq_none (by simp; omega),
      List.getElem?_eq_none (by omega)]

theorem descriptors_set (p : Text) {opened : List (OpenedFile InMemoryFileDescriptor δ')} {k : Nat}
    {old : OpenedFile InMemoryFileDescriptor δ'} (h : opened[k]? = some old)
    (file : OpenedFile InMemoryFileDescriptor δ') :
    (fun j => (opened.set k file)[j]?.bind (posixDescriptor p)) =
      Function.update (fun j => opened[j]?.bind (posixDescriptor p)) k
        (posixDescriptor p file) := by
  have hlt := (List.getElem?_eq_some_iff.1 h).1
  funext j
  rcases eq_or_ne j k with rfl | hne
  · simp [hlt]
  · rw [Function.update_of_ne hne, List.getElem?_set_ne hne.symm]

theorem update_descriptors_none {p : Text} {opened : List (OpenedFile InMemoryFileDescriptor δ')}
    {k : Nat} (h : opened[k]?.bind (posixDescriptor p) = none) :
    Function.update (fun j => opened[j]?.bind (posixDescriptor p)) k none =
      fun j => opened[j]?.bind (posixDescriptor p) := by
  funext j
  rcases eq_or_ne j k with rfl | hne
  · rw [Function.update_self, h]
  · rw [Function.update_of_ne hne]

end Session

/-! ## What the calls leave of a file -/

namespace MountableFileSystem

variable {fs : MemoryFileSystem ω δ'} {p : Text} {data : List UInt8}

theorem dataAt_createDirectory (h : fs.content.dataAt p = some (false, data))
    (now : FileDateTime) (path : Text) (mode : Nat) (world : ω) :
    (fs.createDirectory inMemory now path mode world).2.1.content.dataAt p =
      some (false, data) := by
  unfold createDirectory
  simp only
  split_ifs
  · exact h
  · split
    · exact h
    · exact InMemoryFileSystem.dataAt_localCreateDirectory h now path

theorem dataAt_removeDirectory (h : fs.content.dataAt p = some (false, data))
    (now : FileDateTime) (path : Text) (world : ω) :
    (fs.removeDirectory inMemory now path world).2.1.content.dataAt p = some (false, data) := by
  unfold removeDirectory
  simp only
  split_ifs
  · exact h
  · split
    · exact h
    · exact InMemoryFileSystem.dataAt_localRemoveDirectory h now path

theorem dataAt_removeFile (h : fs.content.dataAt p = some (false, data)) (now : FileDateTime)
    (path : Text) (world : ω)
    (hkept : (fs.removeFile inMemory now path world).2.1.content.dataAt p ≠ none) :
    (fs.removeFile inMemory now path world).2.1.content.dataAt p = some (false, data) := by
  unfold removeFile at hkept ⊢
  simp only at hkept ⊢
  split_ifs at hkept ⊢
  · exact h
  · split at hkept
    · exact h
    · exact InMemoryFileSystem.dataAt_localRemoveFile h now path hkept

end MountableFileSystem

namespace Session

variable {p : Text} {s t : Session ω δ'} {posix : PosixFile}

theorem fileAt_openFile (h : s.fileAt p = some posix) (now : FileDateTime) (path : Text)
    (flags : OpenFlags) (mode : Option Nat)
    (hstep : step (.openFile now path flags mode) s = some t) :
    t.fileAt p = some (s.posixStep p (.openFile now path flags mode) posix) := by
  obtain ⟨hdata, hdescriptors⟩ := fileAt_eq_some.1 h
  have hnew : s.opened[s.opened.length]?.bind (posixDescriptor p) = none := by simp
  have hother : ∀ opened, (∀ file ∈ opened, posixDescriptor p file = none) →
      (fun k => (s.opened ++ Option.toList opened)[k]?.bind (posixDescriptor p)) =
        posix.descriptors := by
    intro opened hopened
    rw [← hdescriptors]
    cases opened with
    | none => simp only [Option.toList_none, List.append_nil]; rfl
    | some file =>
        rw [Option.toList_some, descriptors_append, hopened file rfl,
          update_descriptors_none hnew]
        rfl
  cases hstep
  rw [fileAt_eq_some]
  simp only [placed, joined, posixStep, MountableFileSystem.openFile]
  cases hbuiltin : s.fs.ownBuiltinAt (inMemory.absolutePathFor path) with
  | some builtin =>
      have hnot : ¬ s.opensOwn p path := by
        rintro ⟨hpath, hnone, -⟩
        rw [← hpath] at hnone
        exact absurd (hbuiltin.symm.trans hnone) (Option.some_ne_none _)
      rw [if_neg hnot]
      split_ifs with hwrite
      · exact ⟨hdata, hother none (by simp)⟩
      · exact ⟨hdata, hother (some _) (by simp [posixDescriptor])⟩
  | none =>
      cases hroute : s.fs.resolve (inMemory.absolutePathFor path) with
      | some route =>
          have hnot : ¬ s.opensOwn p path := by
            rintro ⟨hpath, -, hnone⟩
            rw [← hpath] at hnone
            exact absurd (congrArg Option.isNone hroute) (by
              rw [show inMemory.absolutePathFor path = normalizeVirtualPath path from rfl, hnone]
              simp)
          rw [if_neg hnot]
          refine ⟨hdata, hother _ ?_⟩
          intro file hfile
          obtain ⟨inner, -, rfl⟩ := Option.map_eq_some_iff.1 hfile
          rfl
      | none =>
          simp only [MountableFileSystem.withContent, inMemory]
          by_cases hpath : normalizeVirtualPath path = p
          · have hown : s.opensOwn p path := by
              refine ⟨hpath, ?_, ?_⟩
              · rw [← hpath]
                exact hbuiltin
              · rw [← hpath]
                exact congrArg Option.isNone hroute
            obtain ⟨hopened, hafter⟩ := InMemoryFileSystem.localOpenFile_at hdata now hpath flags
            rw [if_pos hown, hopened, hafter]
            refine ⟨rfl, (descriptors_append p s.opened _).trans ?_⟩
            simp only [PosixFile.opened, ← hdescriptors, posixDescriptor,
              InMemoryFileDescriptor.make, if_true]
            rfl
          · rw [if_neg fun hown => hpath hown.1]
            refine ⟨InMemoryFileSystem.dataAt_localOpenFile_ne hdata now hpath flags,
              hother _ ?_⟩
            intro file hfile
            obtain ⟨inner, hinner, rfl⟩ := Option.map_eq_some_iff.1 hfile
            have hinnerPath := InMemoryFileSystem.localOpenFile_path hinner
            simp [posixDescriptor, hinnerPath, hpath]

theorem fileAt_withFile {k : Nat} {old : OpenedFile InMemoryFileDescriptor δ'}
    (h : s.opened[k]? = some old) (file : OpenedFile InMemoryFileDescriptor δ')
    {content : InMemoryFileSystem} {data : List UInt8}
    (hdata : content.dataAt p = some (false, data)) :
    (s.withFile k file content).fileAt p =
      some ⟨data, Function.update (s.descriptorsAt p) k (posixDescriptor p file)⟩ := by
  rw [fileAt_eq_some]
  exact ⟨hdata, descriptors_set p h file⟩

theorem fileAt_withFile_same (h : s.fileAt p = some posix) {k : Nat}
    {old : OpenedFile InMemoryFileDescriptor δ'} (hold : s.opened[k]? = some old) :
    (s.withFile k old s.fs.content).fileAt p = some posix := by
  obtain ⟨hdata, hdescriptors⟩ := fileAt_eq_some.1 h
  rw [fileAt_withFile hold old hdata]
  have hsame : posixDescriptor p old = s.descriptorsAt p k := by
    rw [descriptorsAt, hold, Option.bind_some]
  rw [hsame, Function.update_eq_self, hdescriptors]

theorem fileAt_withFile_none (h : s.fileAt p = some posix) {k : Nat}
    {old file : OpenedFile InMemoryFileDescriptor δ'} (hold : s.opened[k]? = some old)
    (hnone : posixDescriptor p old = none) (hfile : posixDescriptor p file = none)
    {content : InMemoryFileSystem} (hdata : content.dataAt p = s.fs.content.dataAt p) :
    (s.withFile k file content).fileAt p = some posix := by
  obtain ⟨hcontent, hdescriptors⟩ := fileAt_eq_some.1 h
  have hsame : Function.update (s.descriptorsAt p) k none = s.descriptorsAt p := by
    apply update_descriptors_none
    rw [hold, Option.bind_some, hnone]
  rw [fileAt_withFile hold file (hdata.trans hcontent), hfile, hsame, hdescriptors]

theorem posix_descriptor (h : s.fileAt p = some posix) {k : Nat}
    {old : OpenedFile InMemoryFileDescriptor δ'} (hold : s.opened[k]? = some old) :
    posix.descriptors k = posixDescriptor p old := by
  rw [← (fileAt_eq_some.1 h).2, descriptorsAt, hold, Option.bind_some]

theorem fileAt_read (h : s.fileAt p = some posix) (now : FileDateTime) (k count : Nat)
    (hstep : step (.read now k count) s = some t) :
    t.fileAt p = some (s.posixStep p (.read now k count) posix) := by
  obtain ⟨hdata, hdescriptors⟩ := fileAt_eq_some.1 h
  obtain ⟨old, hold, rfl⟩ := Option.map_eq_some_iff.1 hstep
  have hposix := posix_descriptor h hold
  cases old with
  | builtin file =>
      simp only [posixStep, PosixFile.read, hposix, posixDescriptor]
      exact fileAt_withFile_none h hold rfl rfl rfl
  | mounted file =>
      simp only [posixStep, PosixFile.read, hposix, posixDescriptor]
      exact h
  | own file =>
      have hkeeps := InMemoryFileDescriptor.read_keeps s.fs.content file now count
      by_cases hpath : file.path = p
      · subst hpath
        simp only [posixStep, PosixFile.read, hposix, posixDescriptor, if_true, readStep]
        rw [fileAt_withFile hold _ ((hkeeps.1 _).trans hdata)]
        cases hreadable : file.readable with
        | false =>
            have hsame : posixDescriptor file.path (.own file) = posix.descriptors k :=
              hposix.symm
            rw [InMemoryFileDescriptor.read_unreadable _ hreadable]
            simp only [Bool.not_false, if_true, hsame, hdescriptors, Function.update_eq_self]
        | true =>
            obtain ⟨after, -, hread⟩ := InMemoryFileDescriptor.read_at hdata hreadable now count
            rw [hread]
            simp [PosixFile.withDescriptor, posixDescriptor, hdescriptors, hreadable]
      · have hother : posixDescriptor p (.own file : OpenedFile InMemoryFileDescriptor δ') =
            none := posixDescriptor_ne hpath
        simp only [posixStep, PosixFile.read, hposix, hother]
        exact fileAt_withFile_none h hold hother
          (posixDescriptor_ne (by rw [hkeeps.2]; exact hpath)) (hkeeps.1 p)

theorem posix_eq_iff {descriptors : Nat → Option PosixDescriptor}
    (h : descriptors = posix.descriptors) (data : List UInt8) (k : Nat)
    (d : Option PosixDescriptor) :
    some (⟨data, Function.update descriptors k d⟩ : PosixFile) = some posix ↔
      data = posix.content ∧ d = posix.descriptors k := by
  subst h
  obtain ⟨content, descriptors⟩ := posix
  simp only [Option.some.injEq, PosixFile.mk.injEq]
  constructor
  · rintro ⟨hdata, hd⟩
    have hat := congrFun hd k
    rw [Function.update_self] at hat
    exact ⟨hdata, hat⟩
  · rintro ⟨hdata, hd⟩
    refine ⟨hdata, ?_⟩
    rw [hd, Function.update_eq_self]

theorem harmless_write_iff {data : List UInt8} (hdata : s.fs.content.dataAt p = some (false, data))
    {k : Nat} {old : OpenedFile InMemoryFileDescriptor δ'} (hold : s.opened[k]? = some old)
    (now : FileDateTime) (buf : List UInt8) :
    Harmless p (.write now k buf) s ↔ ∀ file, old = .own file → file.path = p →
      file.writable = true → MovesNothing file data.length buf := by
  constructor
  · rintro hall file rfl hpath hwritable
    exact hall now k buf file _ rfl hold hpath hwritable hdata
  · intro hall now' k' buf' file data' haction hfile hpath hwritable hdata'
    cases haction
    rw [hdata] at hdata'
    cases hdata'
    exact hall file (Option.some.inj (hold.symm.trans hfile)) hpath hwritable

theorem movesNothing_of_fits {file : InMemoryFileDescriptor} {size : Nat} {buf : List UInt8}
    (hfits : ¬ buf.length > sizeMax - file.start size) (hne : buf ≠ []) :
    MovesNothing file size buf := by
  unfold MovesNothing
  split_ifs with happend
  · refine .inr ⟨hne, ?_⟩
    simpa [InMemoryFileDescriptor.start, happend] using hfits
  · exact .inl hne

section
variable {file : InMemoryFileDescriptor} {k : Nat} {buf : List UInt8}

theorem posixDescriptor_own (h : s.fileAt file.path = some posix)
    (hold : s.opened[k]? = some (.own file)) : posix.descriptors k =
      some ⟨file.readable, file.writable, file.append, file.position⟩ := by
  rw [posix_descriptor h hold, posixDescriptor, if_pos rfl]

/-- A write too long leaves the file, and moves an appending descriptor to its end. -/
theorem fileAt_writeStep_overflow_iff (h : s.fileAt file.path = some posix)
    (hold : s.opened[k]? = some (.own file)) (hwritable : file.writable = true)
    (hover : buf.length > sizeMax - file.start posix.content.length) (now : FileDateTime) :
    (s.writeStep now k buf (.own file)).fileAt file.path = some posix ↔
      MovesNothing file posix.content.length buf := by
  obtain ⟨hdata, hdescriptors⟩ := fileAt_eq_some.1 h
  have hne : buf ≠ [] := by
    rintro rfl
    simp at hover
  simp only [writeStep]
  rw [InMemoryFileDescriptor.write_overflow hdata hwritable hover, fileAt_withFile hold _ hdata,
    posix_eq_iff hdescriptors, posixDescriptor_own h hold]
  cases happend : file.append with
  | false =>
      simp [posixDescriptor, InMemoryFileDescriptor.start, MovesNothing, happend, hne, hwritable]
  | true =>
      have hlong : ¬ buf.length ≤ sizeMax - posix.content.length := by
        simpa [InMemoryFileDescriptor.start, happend] using hover
      simp [posixDescriptor, InMemoryFileDescriptor.start, MovesNothing, happend, hlong,
        hwritable, eq_comm]

/-- A write of nothing fills the gap before the position. -/
theorem fileAt_writeStep_nothing_iff (h : s.fileAt file.path = some posix)
    (hold : s.opened[k]? = some (.own file)) (hwritable : file.writable = true)
    (now : FileDateTime) :
    (s.writeStep now k [] (.own file)).fileAt file.path = some posix ↔
      MovesNothing file posix.content.length [] := by
  obtain ⟨hdata, hdescriptors⟩ := fileAt_eq_some.1 h
  have hfits : ¬ ([] : List UInt8).length > sizeMax - file.start posix.content.length :=
    Nat.not_lt_zero _
  obtain ⟨after, hafter, hwrite⟩ :=
    InMemoryFileDescriptor.write_fits hdata hwritable hfits now
  have hown := hafter file.path
  rw [if_pos rfl, written_nothing] at hown
  simp only [writeStep]
  rw [hwrite, fileAt_withFile hold _ hown, posix_eq_iff hdescriptors, posixDescriptor_own h hold]
  cases happend : file.append with
  | false =>
      simp [posixDescriptor, InMemoryFileDescriptor.start, MovesNothing, happend, hwritable,
        Nat.sub_eq_zero_iff_le]
  | true =>
      simp [posixDescriptor, InMemoryFileDescriptor.start, MovesNothing, happend, hwritable,
        eq_comm]

theorem fileAt_writeStep_fits (h : s.fileAt file.path = some posix)
    (hold : s.opened[k]? = some (.own file)) (hwritable : file.writable = true)
    (hfits : ¬ buf.length > sizeMax - file.start posix.content.length) (hne : buf ≠ [])
    (now : FileDateTime) :
    (s.writeStep now k buf (.own file)).fileAt file.path =
      some ({ posix with
        content := PosixFile.placed posix.content (file.start posix.content.length) buf }.withDescriptor
          k ⟨file.readable, file.writable, file.append,
            file.start posix.content.length + buf.length⟩) := by
  obtain ⟨hdata, hdescriptors⟩ := fileAt_eq_some.1 h
  obtain ⟨after, hafter, hwrite⟩ :=
    InMemoryFileDescriptor.write_fits hdata hwritable hfits now
  have hown := hafter file.path
  rw [if_pos rfl, written_eq_placed _ _ hne] at hown
  simp only [writeStep]
  rw [hwrite, fileAt_withFile hold _ hown]
  simp [PosixFile.withDescriptor, posixDescriptor, hdescriptors]

theorem fileAt_writeStep_iff (h : s.fileAt file.path = some posix)
    (hold : s.opened[k]? = some (.own file)) (now : FileDateTime) :
    (s.writeStep now k buf (.own file)).fileAt file.path = some (posix.write k buf).2 ↔
      (file.writable = true → MovesNothing file posix.content.length buf) := by
  have hstart : file.start posix.content.length =
      if file.append then posix.content.length else file.position := rfl
  simp only [PosixFile.write, posixDescriptor_own h hold, ← hstart]
  cases hwritable : file.writable with
  | false =>
      refine iff_of_true ?_ (by rintro ⟨⟩)
      simp only [writeStep]
      rw [InMemoryFileDescriptor.write_unwritable _ hwritable]
      exact fileAt_withFile_same h hold
  | true =>
      simp only [Bool.not_true, Bool.false_or, true_imp_iff]
      by_cases hover : buf.length > sizeMax - file.start posix.content.length
      · simp only [hover, decide_true, if_true]
        exact fileAt_writeStep_overflow_iff h hold hwritable hover now
      · simp only [hover, decide_false, Bool.false_eq_true, if_false]
        by_cases hnil : buf = []
        · subst hnil
          exact fileAt_writeStep_nothing_iff h hold hwritable now
        · rw [if_neg hnil, fileAt_writeStep_fits h hold hwritable hover hnil]
          exact iff_of_true (by rw [hwritable]) (movesNothing_of_fits hover hnil)

end

/-- A write leaves the file as POSIX says exactly if it is harmless. -/
theorem fileAt_write_iff (h : s.fileAt p = some posix) (now : FileDateTime) (k : Nat)
    (buf : List UInt8) (hstep : step (.write now k buf) s = some t) :
    t.fileAt p = some (s.posixStep p (.write now k buf) posix) ↔
      Harmless p (.write now k buf) s := by
  obtain ⟨old, hold, rfl⟩ := Option.map_eq_some_iff.1 hstep
  have hposix := posix_descriptor h hold
  rw [harmless_write_iff (fileAt_eq_some.1 h).1 hold]
  cases old with
  | builtin file =>
      simp only [posixStep, PosixFile.write, hposix, posixDescriptor]
      exact iff_of_true h (by rintro file ⟨⟩)
  | mounted file =>
      simp only [posixStep, PosixFile.write, hposix, posixDescriptor]
      exact iff_of_true h (by rintro file ⟨⟩)
  | own file =>
      by_cases hpath : file.path = p
      · subst hpath
        refine (fileAt_writeStep_iff h hold now).trans ?_
        constructor
        · rintro hmoves found ⟨⟩ -
          exact hmoves
        · intro hall
          exact hall file rfl rfl
      · have hkeeps := InMemoryFileDescriptor.write_keeps s.fs.content file now buf
        have hother : posixDescriptor p (.own file : OpenedFile InMemoryFileDescriptor δ') =
            none := posixDescriptor_ne hpath
        simp only [posixStep, PosixFile.write, hposix, hother]
        refine iff_of_true ?_ ?_
        · exact fileAt_withFile_none h hold hother
            (posixDescriptor_ne (by rw [hkeeps.2]; exact hpath))
            (hkeeps.1 p (Ne.symm hpath))
        · rintro file' ⟨⟩ hsame
          exact absurd hsame hpath

theorem fileAt_congr (h : s.fileAt p = some posix)
    (hdata : t.fs.content.dataAt p = s.fs.content.dataAt p) (hopened : t.opened = s.opened) :
    t.fileAt p = some posix := by
  obtain ⟨hcontent, hdescriptors⟩ := fileAt_eq_some.1 h
  refine fileAt_eq_some.2 ⟨hdata.trans hcontent, ?_⟩
  rw [← hdescriptors]
  funext k
  rw [descriptorsAt, descriptorsAt, hopened]

theorem harmless_of_noWrite {action : FileAction ω δ'}
    (h : ∀ now k buf, action ≠ .write now k buf) : Harmless p action s := by
  intro now k buf file data haction
  exact absurd haction (h now k buf)

/-- One call, of any kind, leaves the file as POSIX says exactly if it is harmless. -/
theorem fileAt_step_iff (h : s.fileAt p = some posix) {action : FileAction ω δ'}
    (hstep : step action s = some t) (hkept : t.fs.content.dataAt p ≠ none) :
    t.fileAt p = some (s.posixStep p action posix) ↔ Harmless p action s := by
  obtain ⟨hdata, -⟩ := fileAt_eq_some.1 h
  cases action with
  | write now k buf => exact fileAt_write_iff h now k buf hstep
  | read now k count =>
      exact iff_of_true (fileAt_read h now k count hstep)
        (harmless_of_noWrite fun _ _ _ => by rintro ⟨⟩)
  | openFile now path flags mode =>
      exact iff_of_true (fileAt_openFile h now path flags mode hstep)
        (harmless_of_noWrite fun _ _ _ => by rintro ⟨⟩)
  | createDirectory now path mode =>
      refine iff_of_true ?_ (harmless_of_noWrite fun _ _ _ => by rintro ⟨⟩)
      cases hstep
      exact fileAt_congr h ((MountableFileSystem.dataAt_createDirectory hdata now path mode
        s.world).trans hdata.symm) rfl
  | removeDirectory now path =>
      refine iff_of_true ?_ (harmless_of_noWrite fun _ _ _ => by rintro ⟨⟩)
      cases hstep
      exact fileAt_congr h ((MountableFileSystem.dataAt_removeDirectory hdata now path
        s.world).trans hdata.symm) rfl
  | removeFile now path =>
      refine iff_of_true ?_ (harmless_of_noWrite fun _ _ _ => by rintro ⟨⟩)
      cases hstep
      exact fileAt_congr h ((MountableFileSystem.dataAt_removeFile hdata now path s.world
        hkept).trans hdata.symm) rfl
  | addBuiltinCommand now path builtinName =>
      refine iff_of_true ?_ (harmless_of_noWrite fun _ _ _ => by rintro ⟨⟩)
      cases hstep
      refine fileAt_congr h ?_ rfl
      unfold MountableFileSystem.addBuiltinCommand
      simp only
      split_ifs <;> rfl
  | removeBuiltinCommand path =>
      refine iff_of_true ?_ (harmless_of_noWrite fun _ _ _ => by rintro ⟨⟩)
      cases hstep
      refine fileAt_congr h ?_ rfl
      unfold MountableFileSystem.removeBuiltinCommand
      simp only
      split_ifs <;> rfl
  | mount | unmount | elsewhere =>
      refine iff_of_true ?_ (harmless_of_noWrite fun _ _ _ => by rintro ⟨⟩)
      cases hstep
      exact fileAt_congr h rfl rfl

theorem answersAs (h : s.fileAt p = some posix) (action : FileAction ω δ') :
    s.AnswersAs p posix action := by
  obtain ⟨hdata, hdescriptors⟩ := fileAt_eq_some.1 h
  cases action with
  | read now k count =>
      rintro file hfile rfl
      have hposix := posix_descriptor h hfile
      simp only [posixDescriptor, if_true] at hposix
      cases hreadable : file.readable with
      | false =>
          rw [InMemoryFileDescriptor.read_unreadable _ hreadable]
          simp [PosixFile.read, hposix, hreadable]
      | true =>
          obtain ⟨after, -, hread⟩ := InMemoryFileDescriptor.read_at hdata hreadable now count
          rw [hread]
          simp [PosixFile.read, hposix, hreadable]
  | write now k buf =>
      rintro file hfile rfl
      have hposix := posix_descriptor h hfile
      simp only [posixDescriptor, if_true] at hposix
      have hstart : file.start posix.content.length =
          if file.append then posix.content.length else file.position := rfl
      cases hwritable : file.writable with
      | false =>
          rw [InMemoryFileDescriptor.write_unwritable _ hwritable]
          simp [PosixFile.write, hposix, hwritable]
      | true =>
          simp only [PosixFile.write, hposix, hwritable, Bool.not_true, Bool.false_or, ← hstart]
          by_cases hover : buf.length > sizeMax - file.start posix.content.length
          · rw [InMemoryFileDescriptor.write_overflow hdata hwritable hover]
            simp only [hover, decide_true, if_true]
          · obtain ⟨after, -, hwrite⟩ :=
              InMemoryFileDescriptor.write_fits hdata hwritable hover now
            rw [hwrite]
            by_cases hnil : buf = []
            · simp [hnil]
            · simp only [hover, decide_false, Bool.false_eq_true, if_false, hnil]
  | _ => trivial

theorem Follows.here {actions : List (FileAction ω δ')} (h : Follows p actions s posix) :
    s.fileAt p = some posix := by
  cases actions with
  | nil => exact h
  | cons action rest => exact h.1

/--
A file that is never removed goes with the file of POSIX in every state of a run
exactly if every write of the run is harmless.
-/
theorem follows_iff {actions : List (FileAction ω δ')} (h : s.fileAt p = some posix)
    (hkept : Transition.Meets step (Kept p) actions s) :
    Follows p actions s posix ↔ Transition.Meets step (Harmless p) actions s := by
  induction actions generalizing s posix with
  | nil => exact iff_of_true h trivial
  | cons action rest ih =>
      obtain ⟨hkept, hrest⟩ := hkept
      constructor
      · rintro ⟨-, -, hfollows⟩
        refine ⟨?_, fun t hstep => ?_⟩
        · cases hstep : step action s with
          | none =>
              intro now k buf file data haction hfile
              rw [haction] at hstep
              simp [step, hfile] at hstep
          | some t =>
              exact (fileAt_step_iff h hstep (hkept t hstep)).1 (hfollows t hstep).here
        · exact (ih (hfollows t hstep).here (hrest t hstep)).1 (hfollows t hstep)
      · rintro ⟨hharmless, htail⟩
        refine ⟨h, answersAs h action, fun t hstep => ?_⟩
        have hnext := (fileAt_step_iff h hstep (hkept t hstep)).2 hharmless
        exact (ih hnext (hrest t hstep)).2 (htail t hstep)

/-- A new file, with its first descriptor. -/
def newFile : List (FileAction Unit Empty) :=
  [.openFile {} (text "/f") { writeOnly := true, create := true } none]

/-- Five bytes, the file cut by another open, and some bytes more. -/
def cutAndWrite (buf : List UInt8) : List (FileAction Unit Empty) :=
  [.write {} 0 [1, 2, 3, 4, 5], .openFile {} (text "/f") { writeOnly := true, truncate := true } none,
    .write {} 0 buf]

theorem kept_cutAndWrite {s : Session Unit Empty}
    (hrun : Transition.run step newFile (initial Empty {} ()) = some s) (buf : List UInt8)
    (hbuf : buf = [] ∨ buf = [9]) :
    Transition.Meets step (Kept (text "/f")) (cutAndWrite buf) s := by
  cases hrun
  rcases hbuf with rfl | rfl
  all_goals
    refine ⟨?_, ?_⟩
    · rintro t ⟨⟩
      exact Option.some_ne_none _
    · rintro t ⟨⟩
      refine ⟨?_, ?_⟩
      · rintro t ⟨⟩
        exact Option.some_ne_none _
      · rintro t ⟨⟩
        refine ⟨?_, fun _ _ => trivial⟩
        rintro t ⟨⟩
        exact Option.some_ne_none _

/-- The one byte lands after a gap of zeros, as POSIX says. -/
theorem follows_iff_cutAndWrite :
    ∃ s posix, Transition.run step newFile (initial Empty {} ()) = some s ∧
      (Follows (text "/f") (cutAndWrite [9]) s posix ↔
        Transition.Meets step (Harmless (text "/f")) (cutAndWrite [9]) s) := by
  exact ⟨_, _, rfl, follows_iff rfl (kept_cutAndWrite rfl [9] (.inr rfl))⟩

/-- No bytes written past the end of a file that was cut make it grow. -/
theorem cutAndWrite_nothing :
    ∃ s posix t, Transition.run step newFile (initial Empty {} ()) = some s ∧
      s.fileAt (text "/f") = some posix ∧
      Transition.Meets step (Kept (text "/f")) (cutAndWrite []) s ∧
      Transition.run step (cutAndWrite []) s = some t ∧
      t.fs.content.dataAt (text "/f") = some (false, [0, 0, 0, 0, 0]) ∧
      ¬ Follows (text "/f") (cutAndWrite []) s posix := by
  refine ⟨_, _, _, rfl, rfl, kept_cutAndWrite rfl [] (.inl rfl), rfl, rfl, ?_⟩
  rintro ⟨-, -, hfirst⟩
  obtain ⟨-, -, hsecond⟩ := hfirst _ rfl
  obtain ⟨-, -, hthird⟩ := hsecond _ rfl
  have hcontent := congrArg (Option.map (·.content)) (hthird _ rfl)
  exact absurd hcontent (by decide)

end Session

end Haisos.Filesystem
