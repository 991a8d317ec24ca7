import Haisos.Filesystem.Session

/-!
# Open in-memory files and the nodes they were opened on

The nodes ever created at a path are numbered in the order of their creation.  A
run is watched: how many nodes were created and removed at each path, which node
each descriptor was opened on, and what each read and write found and left behind
at every path.
-/

namespace Haisos.Filesystem

open Hsh (Text text)

variable {ω δ' : Type*}

/-- The node a descriptor was opened on, and how many had been removed there before. -/
structure Birth where
  node : Nat := 0
  removed : Nat := 0
  deriving DecidableEq, Repr

/-- What is asked of an open file, from the position that its descriptor has. -/
inductive Call where
  | read (position count : Nat)
  | write (position : Nat) (append : Bool) (buf : List UInt8)

/-- What a call on a file with the bytes `data` comes to: its result, what is read, what is left. -/
def Call.Acts (call : Call) (data : List UInt8) (result : Int) (out data' : List UInt8) : Prop :=
  match call with
  | .read position count =>
      result = out.length ∧ out = (data.drop position).take count ∧ data' = data
  | .write position append buf =>
      let start := if append then data.length else position
      out = [] ∧
        if buf.length > sizeMax - start then result = kIOError ∧ data' = data
        else result = buf.length ∧ (data'.drop start).take buf.length = buf

def Call.EndsTooFar (call : Call) (size : Nat) : Prop :=
  match call with
  | .read _ _ => False
  | .write position append buf => buf.length > sizeMax - if append then size else position

/-- A `Read` or `Write` its descriptor's access mode let through. -/
structure Use where
  birth : Birth
  path : Text
  created : Nat
  removed : Nat
  call : Call
  before : InMemoryFileSystem
  after : InMemoryFileSystem
  result : Int
  out : List UInt8 := []

namespace Use

def standing (use : Use) : Option Nat :=
  (use.before.nodes.lookup use.path).map fun _ => use.created

/-- What was read and written is the file's at the path, and every other node is as it was. -/
def ActsAtPath (use : Use) : Prop :=
  ∃ node node' : Node, use.before.nodes.lookup use.path = some node ∧
    use.after.nodes.lookup use.path = some node' ∧
    node.isDirectory = false ∧ node'.isDirectory = false ∧
    use.call.Acts node.data use.result use.out node'.data ∧
    ∀ other ≠ use.path, use.after.nodes.lookup other = use.before.nodes.lookup other

def Fails (use : Use) : Prop :=
  use.result = kIOError ∧ use.out = [] ∧
    ∀ path, use.after.nodes.lookup path = use.before.nodes.lookup path

/-- It acted on the file that was opened, or failed because that was removed. -/
def onOwnFile (use : Use) : Prop :=
  if use.standing = some use.birth.node then use.ActsAtPath else use.Fails

/-- The file was not removed since it was opened, or its path is empty now. -/
def pathNotReused (use : Use) : Prop :=
  use.removed = use.birth.removed ∨ use.before.nodes.lookup use.path = none

/-- A write that no file can take. -/
def endsTooFar (use : Use) : Prop :=
  ∃ node, use.before.nodes.lookup use.path = some node ∧ use.call.EndsTooFar node.data.length

end Use

structure Watched (ω δ' : Type*) where
  session : Session ω δ'
  created : Text → Nat
  removed : Text → Nat := fun _ => 0
  births : Nat → Birth := fun _ => {}
  uses : List Use := []

namespace Watched

def initial (δ' : Type*) (now : FileDateTime) (world : ω) : Watched ω δ' :=
  { session := .initial δ' now world
    created := fun path => if path = ['/'] then 1 else 0 }

def kindAt (s : Watched ω δ') (path : Text) : Option Bool := s.session.fs.content.kindAt path

def createdBy (s : Watched ω δ') (session : Session ω δ') (path : Text) : Nat :=
  s.created path +
    if s.kindAt path = none ∧ session.fs.content.kindAt path ≠ none then 1 else 0

def removedBy (s : Watched ω δ') (session : Session ω δ') (path : Text) : Nat :=
  s.removed path +
    if s.kindAt path ≠ none ∧ session.fs.content.kindAt path = none then 1 else 0

def birthsBy (s : Watched ω δ') (session : Session ω δ') : Nat → Birth :=
  match session.opened[s.session.opened.length]? with
  | some (.own file) =>
      Function.update s.births s.session.opened.length
        ⟨s.createdBy session file.path, s.removedBy session file.path⟩
  | _ => s.births

def use (s : Watched ω δ') (session : Session ω δ') (descriptor : Nat) (path : Text) (call : Call)
    (result : Int) (out : List UInt8) : Use :=
  { birth := s.births descriptor
    path := path
    created := s.created path
    removed := s.removed path
    call := call
    before := s.session.fs.content
    after := session.fs.content
    result := result
    out := out }

/-- The read or write of a step that came to `session`. -/
def usesBy (s : Watched ω δ') (session : Session ω δ') : FileAction ω δ' → List Use
  | .read now descriptor count =>
      match s.session.opened[descriptor]? with
      | some (.own file) =>
          if file.readable then
            let done := file.read s.session.fs.content now count
            [s.use session descriptor file.path (.read file.position count) done.1 done.2.1]
          else []
      | _ => []
  | .write now descriptor buf =>
      match s.session.opened[descriptor]? with
      | some (.own file) =>
          if file.writable then
            let done := file.write s.session.fs.content now buf
            [s.use session descriptor file.path (.write file.position file.append buf) done.1 []]
          else []
      | _ => []
  | _ => []

def step (action : FileAction ω δ') (s : Watched ω δ') : Option (Watched ω δ') :=
  (Session.step action s.session).map fun session =>
    { session := session
      created := s.createdBy session
      removed := s.removedBy session
      births := s.birthsBy session
      uses := s.uses ++ s.usesBy session action }

end Watched

/-! ## The numbers agree with the tree -/

/-- A descriptor's file was removed, or still stands at the path as it was opened. -/
structure BirthLaw (s : Watched ω δ') (birth : Birth) (path : Text) : Prop where
  node : birth.node = birth.removed + 1
  le : birth.removed ≤ s.removed path
  stands : s.removed path = birth.removed → s.kindAt path = some false

structure Numbered (s : Watched ω δ') : Prop where
  wellFormed : WellFormed s.session.fs
  created : ∀ path, s.created path =
    s.removed path + if s.kindAt path = none then 0 else 1
  births : ∀ descriptor file, s.session.opened[descriptor]? = some (.own file) →
    BirthLaw s (s.births descriptor) file.path
  uses : ∀ use ∈ s.uses, use.onOwnFile ↔ use.pathNotReused ∨ use.endsTooFar

theorem numbered_initial (now : FileDateTime) (world : ω) :
    Numbered (Watched.initial δ' now world) where
  wellFormed := Session.wellFormed_initial now world
  created path := by
    have hkinds : (Watched.initial δ' now world).kindAt path =
        if path = ['/'] then some true else none :=
      InMemoryFileSystem.kindAt_insert ∅ ['/'] path _
    rw [hkinds]
    by_cases hroot : path = ['/'] <;> simp [Watched.initial, hroot]
  births _ _ h := nomatch h
  uses _ h := nomatch h

/-! ## What reads and writes do to the nodes -/

section

variable {fs : InMemoryFileSystem} {file : InMemoryFileDescriptor}

theorem read_of_absent (h : fs.nodes.lookup file.path = none) (now : FileDateTime) (count : Nat) :
    (file.read fs now count).1 = kIOError ∧ (file.read fs now count).2.1 = [] ∧
      (file.read fs now count).2.2.2 = fs := by
  rw [InMemoryFileDescriptor.read]
  split_ifs
  · exact ⟨rfl, rfl, rfl⟩
  · simp [InMemoryFileSystem.readAt, h]

theorem write_of_absent (h : fs.nodes.lookup file.path = none) (now : FileDateTime)
    (buf : List UInt8) :
    (file.write fs now buf).1 = kIOError ∧ (file.write fs now buf).2.2 = fs := by
  rw [InMemoryFileDescriptor.write]
  split_ifs
  · exact ⟨rfl, rfl⟩
  · simp [InMemoryFileSystem.writeAt, h]

theorem read_of_node {node : Node} (h : fs.nodes.lookup file.path = some node)
    (hreadable : file.readable = true) (now : FileDateTime) (count : Nat) :
    ∃ node', (file.read fs now count).2.2.2.nodes.lookup file.path = some node' ∧
      node'.isDirectory = node.isDirectory ∧
      (Call.read file.position count).Acts node.data (file.read fs now count).1
        (file.read fs now count).2.1 node'.data ∧
      ∀ other ≠ file.path,
        (file.read fs now count).2.2.2.nodes.lookup other = fs.nodes.lookup other := by
  simp only [InMemoryFileDescriptor.read, hreadable, Bool.not_true, Bool.false_eq_true, if_false,
    InMemoryFileSystem.readAt, h]
  split_ifs with hend
  · refine ⟨node, h, rfl, ⟨rfl, ?_, rfl⟩, fun _ _ => rfl⟩
    rw [List.drop_eq_nil_of_le hend, List.take_nil]
  · refine ⟨{ node with accessTime := now }, AList.lookup_insert _, rfl, ⟨?_, ?_, rfl⟩,
      fun other hne => AList.lookup_insert_ne hne⟩
    · simp
    · exact take_min_drop node.data file.position count

theorem written_holds (data : List UInt8) (position : Nat) (buf : List UInt8) :
    ((InMemoryFileSystem.written data position buf).drop position).take buf.length = buf := by
  obtain ⟨resized, hresized, hwritten⟩ : ∃ resized : List UInt8,
      position + buf.length ≤ resized.length ∧
      InMemoryFileSystem.written data position buf = RingBuffer.overwrite resized position buf := by
    refine ⟨_, ?_, rfl⟩
    split_ifs with hgrows
    · simp only [List.length_append, List.length_replicate]
      omega
    · omega
  have htake : (resized.take position).length = position := by
    rw [List.length_take]
    omega
  rw [hwritten, RingBuffer.overwrite, List.append_assoc, List.drop_left' htake, List.take_left]

theorem write_of_node {node : Node} (h : fs.nodes.lookup file.path = some node)
    (hwritable : file.writable = true) (now : FileDateTime) (buf : List UInt8) :
    ∃ node', (file.write fs now buf).2.2.nodes.lookup file.path = some node' ∧
      node'.isDirectory = node.isDirectory ∧
      (Call.write file.position file.append buf).Acts node.data (file.write fs now buf).1 []
        node'.data ∧
      ∀ other ≠ file.path,
        (file.write fs now buf).2.2.nodes.lookup other = fs.nodes.lookup other := by
  simp only [InMemoryFileDescriptor.write, hwritable, Bool.not_true, Bool.false_eq_true, if_false,
    InMemoryFileSystem.writeAt, h, Call.Acts]
  by_cases hover : buf.length > sizeMax - if file.append then node.data.length else file.position
  · simp only [if_pos hover]
    exact ⟨node, h, rfl, ⟨trivial, trivial, rfl⟩, fun _ _ => trivial⟩
  · simp only [if_neg hover]
    exact ⟨_, AList.lookup_insert _, rfl, ⟨trivial, trivial, written_holds _ _ _⟩,
      fun other hne => AList.lookup_insert_ne hne⟩

theorem write_of_tooFar {node : Node} (h : fs.nodes.lookup file.path = some node)
    {buf : List UInt8} (hfar : (Call.write file.position file.append buf).EndsTooFar node.data.length)
    (now : FileDateTime) :
    (file.write fs now buf).1 = kIOError ∧ (file.write fs now buf).2.2 = fs := by
  rw [Call.EndsTooFar] at hfar
  rw [InMemoryFileDescriptor.write]
  split_ifs
  · exact ⟨rfl, rfl⟩
  · simp only [InMemoryFileSystem.writeAt, h]
    rw [if_pos hfar]
    exact ⟨rfl, rfl⟩

end

/-- A use of what stands at its path fails only where no file could take the bytes. -/
theorem Use.fails_of_acts {use : Use} {node node' : Node}
    (hnode : use.before.nodes.lookup use.path = some node)
    (hacts : use.call.Acts node.data use.result use.out node'.data) (hfails : use.Fails) :
    use.endsTooFar := by
  refine ⟨node, hnode, ?_⟩
  have hresult := hfails.1
  cases hcall : use.call with
  | read position count =>
      rw [hcall] at hacts
      rw [hacts.1, kIOError] at hresult
      omega
  | write position append buf =>
      rw [hcall] at hacts
      simp only [Call.Acts] at hacts
      rw [Call.EndsTooFar]
      by_contra hfits
      rw [if_neg hfits] at hacts
      rw [hacts.2.1, kIOError] at hresult
      omega

section
variable {s : Watched ω δ'}

/-- A use is of its own file exactly where the path was not given to another node. -/
theorem Numbered.use_iff (h : Numbered s) (session : Session ω δ') {descriptor : Nat}
    {file : InMemoryFileDescriptor} (hfile : s.session.opened[descriptor]? = some (.own file))
    {call : Call} {result : Int} {out : List UInt8} {use : Use}
    (huse : use = s.use session descriptor file.path call result out)
    (hacts : ∀ node, use.before.nodes.lookup use.path = some node →
      ∃ node', use.after.nodes.lookup use.path = some node' ∧
        node'.isDirectory = node.isDirectory ∧
        use.call.Acts node.data use.result use.out node'.data ∧
        ∀ other ≠ use.path, use.after.nodes.lookup other = use.before.nodes.lookup other)
    (hfails : use.before.nodes.lookup use.path = none ∨ use.endsTooFar → use.Fails) :
    use.onOwnFile ↔ use.pathNotReused ∨ use.endsTooFar := by
  have hbirth := h.births descriptor file hfile
  have hcreated := h.created file.path
  cases hnode : use.before.nodes.lookup use.path with
  | none =>
      rw [Use.onOwnFile, Use.standing, hnode]
      exact ⟨fun _ => .inl (.inr hnode), fun _ => hfails (.inl hnode)⟩
  | some node =>
      obtain ⟨node', hafter, hdirectory, hdone, hothers⟩ := hacts node hnode
      have hkind : s.kindAt file.path = some node.isDirectory := by
        subst huse
        exact InMemoryFileSystem.kindAt_of_lookup hnode
      rw [hkind, if_neg nofun] at hcreated
      have hstanding : use.standing = some use.birth.node ↔ use.removed = use.birth.removed := by
        have hborn := hbirth.node
        rw [Use.standing, hnode, Option.map_some, Option.some_inj]
        subst huse
        simp only [Watched.use]
        omega
      by_cases hremoved : use.removed = use.birth.removed
      · have hfile : node.isDirectory = false := by
          have hstands := hbirth.stands (by subst huse; exact hremoved)
          rw [hkind] at hstands
          exact Option.some.inj hstands
        rw [Use.onOwnFile, if_pos (hstanding.mpr hremoved)]
        exact ⟨fun _ => .inl (.inl hremoved), fun _ =>
          ⟨node, node', hnode, hafter, hfile, hdirectory.trans hfile, hdone, hothers⟩⟩
      · rw [Use.onOwnFile, if_neg fun heq => hremoved (hstanding.mp heq)]
        constructor
        · exact fun hfailed => .inr (Use.fails_of_acts hnode hdone hfailed)
        · rintro ((hsame | hnone) | hfar)
          · exact absurd hsame hremoved
          · rw [hnode] at hnone
            cases hnone
          · exact hfails (.inr hfar)

theorem Numbered.usesBy_iff (h : Numbered s) (action : FileAction ω δ') {session : Session ω δ'}
    (hsession : Session.step action s.session = some session) :
    ∀ use ∈ s.usesBy session action, use.onOwnFile ↔ use.pathNotReused ∨ use.endsTooFar := by
  intro use huse
  unfold Watched.usesBy at huse
  split at huse
  · split at huse
    · rename_i now descriptor count _ file hfile
      split_ifs at huse with hreadable
      · rw [Session.step, hfile] at hsession
        cases hsession
        have huse := List.mem_singleton.1 huse
        refine h.use_iff _ hfile huse (fun node hnode => ?_) fun hfails => ?_
        · subst huse
          exact read_of_node hnode hreadable now count
        · subst huse
          rcases hfails with hnone | ⟨node, -, hfar⟩
          · obtain ⟨hresult, hout, hsame⟩ := read_of_absent hnone now count
            exact ⟨hresult, hout, fun path => congrArg (fun fs => fs.nodes.lookup path) hsame⟩
          · exact hfar.elim
      · exact nomatch huse
    · exact nomatch huse
  · split at huse
    · rename_i now descriptor buf _ file hfile
      split_ifs at huse with hwritable
      · rw [Session.step, hfile] at hsession
        cases hsession
        have huse := List.mem_singleton.1 huse
        refine h.use_iff _ hfile huse (fun node hnode => ?_) fun hfails => ?_
        · subst huse
          exact write_of_node hnode hwritable now buf
        · subst huse
          obtain ⟨hresult, hsame⟩ : (file.write s.session.fs.content now buf).1 = kIOError ∧
              (file.write s.session.fs.content now buf).2.2 = s.session.fs.content := by
            rcases hfails with hnone | ⟨node, hnode, hfar⟩
            · exact write_of_absent hnone now buf
            · exact write_of_tooFar hnode hfar now
          exact ⟨hresult, rfl, fun path => congrArg (fun fs => fs.nodes.lookup path) hsame⟩
      · exact nomatch huse
    · exact nomatch huse
  · exact nomatch huse

end

/-! ## The steps keep the numbers -/

theorem localOpenFile_opens {fs : InMemoryFileSystem} {now : FileDateTime} {pathname : Text}
    {flags : OpenFlags} {file : InMemoryFileDescriptor}
    (h : (fs.localOpenFile now pathname flags).1 = some file) :
    (fs.localOpenFile now pathname flags).2.kindAt file.path = some false := by
  unfold InMemoryFileSystem.localOpenFile at h ⊢
  simp only at h ⊢
  split at h
  · rename_i node hnode
    split_ifs at h ⊢ with hdirectory htruncate
    · cases h
      rw [InMemoryFileSystem.kindAt_insert]
      simpa [InMemoryFileDescriptor.make, Node.modified] using hdirectory
    · cases h
      simpa [InMemoryFileDescriptor.make, InMemoryFileSystem.kindAt, hnode] using hdirectory
  · split_ifs at h ⊢
    cases h
    rw [InMemoryFileSystem.emplace, InMemoryFileSystem.kindAt_touchDirectory,
      InMemoryFileSystem.kindAt_insert]
    simp [InMemoryFileDescriptor.make, Node.make]

theorem openFile_opens {fs : MemoryFileSystem ω δ'} {now : FileDateTime} {path : Text}
    {flags : OpenFlags} {mode : Option Nat} {world : ω} {file : InMemoryFileDescriptor}
    (h : (fs.openFile inMemory now path flags mode world).1 = some (.own file)) :
    (fs.openFile inMemory now path flags mode world).2.1.content.kindAt file.path =
      some false := by
  unfold MountableFileSystem.openFile at h ⊢
  simp only at h ⊢
  split at h
  · split_ifs at h
    cases h
  · split at h
    · obtain ⟨_, -, hother⟩ := Option.map_eq_some_iff.1 h
      exact nomatch hother
    · obtain ⟨own, hown, hsame⟩ := Option.map_eq_some_iff.1 h
      cases hsame
      exact localOpenFile_opens hown

theorem getElem?_joined {opened : List (OpenedFile InMemoryFileDescriptor δ')}
    {file : Option (OpenedFile InMemoryFileDescriptor δ')} {k : Nat}
    {found : OpenedFile InMemoryFileDescriptor δ'}
    (h : (opened ++ file.toList)[k]? = some found) :
    opened[k]? = some found ∨ k = opened.length ∧ file = some found := by
  rcases Nat.lt_or_ge k opened.length with hlt | hge
  · rw [List.getElem?_append_left hlt] at h
    exact .inl h
  · rw [List.getElem?_append_right hge] at h
    cases file with
    | none => simp at h
    | some file =>
        have hzero : k - opened.length = 0 := by
          by_contra hne
          rw [Option.toList_some, List.getElem?_eq_none (by simp; omega)] at h
          exact nomatch h
        rw [hzero] at h
        exact .inr ⟨by omega, by simpa using h⟩

theorem opened_step {action : FileAction ω δ'} {s t : Session ω δ'}
    (hstep : Session.step action s = some t) {k : Nat} {file : InMemoryFileDescriptor}
    (hfile : t.opened[k]? = some (.own file)) :
    (∃ old, s.opened[k]? = some (.own old) ∧ old.path = file.path) ∨
      k = s.opened.length ∧ t.fs.content.kindAt file.path = some false := by
  cases action with
  | openFile now path flags mode =>
      cases hstep
      rcases getElem?_joined hfile with hold | ⟨hk, hnew⟩
      · exact .inl ⟨file, hold, rfl⟩
      · exact .inr ⟨hk, openFile_opens hnew⟩
  | read now descriptor count =>
      obtain ⟨used, hused, rfl⟩ := Option.map_eq_some_iff.1 hstep
      left
      cases used with
      | mounted used => exact ⟨file, hfile, rfl⟩
      | builtin used =>
          simp only [Session.readStep, Session.withFile, List.getElem?_set] at hfile
          split_ifs at hfile with hk
          · simp at hfile
          · exact ⟨file, hfile, rfl⟩
      | own used =>
          simp only [Session.readStep, Session.withFile, List.getElem?_set] at hfile
          split_ifs at hfile with hk hlt
          · subst hk
            cases hfile
            refine ⟨used, hused, ?_⟩
            unfold InMemoryFileDescriptor.read
            split_ifs <;> rfl
          · exact ⟨file, hfile, rfl⟩
  | write now descriptor buf =>
      obtain ⟨used, hused, rfl⟩ := Option.map_eq_some_iff.1 hstep
      left
      cases used with
      | mounted used => exact ⟨file, hfile, rfl⟩
      | builtin used => exact ⟨file, hfile, rfl⟩
      | own used =>
          simp only [Session.writeStep, Session.withFile, List.getElem?_set] at hfile
          split_ifs at hfile with hk hlt
          · subst hk
            cases hfile
            refine ⟨used, hused, ?_⟩
            unfold InMemoryFileDescriptor.write
            split_ifs <;> rfl
          · exact ⟨file, hfile, rfl⟩
  | mount | unmount | createDirectory | removeDirectory | removeFile | addBuiltinCommand
  | removeBuiltinCommand | elsewhere =>
      cases hstep
      exact .inl ⟨file, hfile, rfl⟩

section
variable {s t : Watched ω δ'} {action : FileAction ω δ'}

theorem watched_step_eq (hstep : Watched.step action s = some t) :
    ∃ session, Session.step action s.session = some session ∧
      t = { session := session
            created := s.createdBy session
            removed := s.removedBy session
            births := s.birthsBy session
            uses := s.uses ++ s.usesBy session action } := by
  obtain ⟨session, hsession, rfl⟩ := Option.map_eq_some_iff.1 hstep
  exact ⟨session, hsession, rfl⟩

theorem birthsBy_of_lt {session : Session ω δ'} {k : Nat} (h : k < s.session.opened.length) :
    s.birthsBy session k = s.births k := by
  unfold Watched.birthsBy
  cases session.opened[s.session.opened.length]? with
  | none => rfl
  | some file =>
      cases file with
      | own file => exact Function.update_of_ne h.ne _ _
      | builtin file => rfl
      | mounted file => rfl

theorem birthsBy_new {session : Session ω δ'} {file : InMemoryFileDescriptor}
    (h : session.opened[s.session.opened.length]? = some (.own file)) :
    s.birthsBy session s.session.opened.length =
      ⟨s.createdBy session file.path, s.removedBy session file.path⟩ := by
  unfold Watched.birthsBy
  rw [h]
  exact Function.update_self _ _ _

theorem created_step (session : Session ω δ') {path : Text}
    (hcreated : s.created path = s.removed path + if s.kindAt path = none then 0 else 1) :
    s.createdBy session path = s.removedBy session path +
      if session.fs.content.kindAt path = none then 0 else 1 := by
  unfold Watched.createdBy Watched.removedBy
  rw [hcreated]
  by_cases hbefore : s.kindAt path = none <;>
    by_cases hafter : session.fs.content.kindAt path = none <;>
    simp [hbefore, hafter]

theorem kindAt_change {before after : InMemoryFileSystem} (hchange : TreeChange before after)
    {path : Text} (hbefore : before.kindAt path = some false)
    (hafter : after.kindAt path ≠ none) : after.kindAt path = some false := by
  cases hchange with
  | same kinds => rw [kinds, hbefore]
  | added p s isDirectory segments absent parent kinds =>
      rw [kinds, if_neg, hbefore]
      rintro rfl
      rw [absent] at hbefore
      exact nomatch hbefore
  | removed p s segments present childless kinds =>
      rw [kinds] at hafter ⊢
      split_ifs at hafter ⊢
      · exact absurd rfl hafter
      · exact hbefore

theorem numbered_step (hstep : Watched.step action s = some t) (h : Numbered s) :
    Numbered t := by
  obtain ⟨session, hsession, rfl⟩ := watched_step_eq hstep
  have hcreated := fun path => created_step session (h.created path)
  refine ⟨Session.wellFormed_step hsession h.wellFormed, hcreated, ?_, ?_⟩
  · intro k file hfile
    rcases opened_step hsession hfile with ⟨old, hold, hpath⟩ | ⟨rfl, hstands⟩
    · -- an old descriptor: its file stands unless this step removed it
      have hlt : k < s.session.opened.length := by
        by_contra hge
        rw [List.getElem?_eq_none (by omega)] at hold
        exact nomatch hold
      have hbirth := h.births k old hold
      rw [hpath] at hbirth
      simp only [birthsBy_of_lt hlt]
      refine ⟨hbirth.node, hbirth.le.trans (Nat.le_add_right _ _), fun hsame => ?_⟩
      have hle := hbirth.le
      simp only [Watched.removedBy] at hsame
      have hnotRemoved : ¬ (s.kindAt file.path ≠ none ∧
          session.fs.content.kindAt file.path = none) := by
        intro hremoved
        rw [if_pos hremoved] at hsame
        omega
      have hbefore := hbirth.stands (by omega)
      refine kindAt_change (Session.change_step hsession h.wellFormed.tree) hbefore ?_
      intro hafter
      exact hnotRemoved ⟨by rw [hbefore]; exact nofun, hafter⟩
    · simp only [birthsBy_new hfile]
      have hnew := hcreated file.path
      rw [hstands] at hnew
      exact ⟨hnew, le_rfl, fun _ => hstands⟩
  · intro use huse
    rcases List.mem_append.1 huse with hold | hnew
    · exact h.uses use hold
    · exact h.usesBy_iff action hsession use hnew

end

/--
A read or write through a descriptor acts on the file that was opened and on no
other node, or fails where that was removed, exactly when the path was not given to
another node after the file's removal, or when the write would end too far.
-/
theorem openFile_keepsItsNode (now : FileDateTime) (world : ω)
    (actions : List (FileAction ω δ')) (s : Watched ω δ')
    (hrun : Transition.run Watched.step actions (.initial δ' now world) = some s) :
    ∀ use ∈ s.uses, use.onOwnFile ↔ use.pathNotReused ∨ use.endsTooFar :=
  (Transition.run_preserves (P := Numbered) (fun _ _ _ hstep h => numbered_step hstep h) hrun
    (numbered_initial now world)).uses

/-- A file written and read through its descriptor, removed, and written again. -/
def removedFile : List (FileAction Unit Unit) :=
  [.openFile {} ['/', 'f'] { readWrite := true, create := true, append := true } none,
    .write {} 0 [65, 66], .openFile {} ['/', 'f'] {} none, .read {} 1 1,
    .removeFile {} ['/', 'f'], .write {} 0 [67]]

theorem openFile_keepsItsNode_removed :
    ∃ s : Watched Unit Unit,
      Transition.run Watched.step removedFile (.initial Unit {} ()) = some s ∧
      (∀ use ∈ s.uses, use.onOwnFile ↔ use.pathNotReused ∨ use.endsTooFar) ∧
      s.uses.map Use.result = [2, 1, kIOError] ∧ s.uses.map Use.out = [[], [65], []] := by
  have hrun : Transition.run Watched.step removedFile
      (.initial Unit {} () : Watched Unit Unit) = some _ := rfl
  exact ⟨_, hrun, openFile_keepsItsNode {} () _ _ hrun, rfl, rfl⟩

/-- The calls of a run that gives a path to a directory while a file removed there is open. -/
def reusedPath : List (FileAction Unit Unit) :=
  [.openFile {} ['/', 'f'] { readWrite := true, create := true } none,
    .removeFile {} ['/', 'f'], .createDirectory {} ['/', 'f'] 0, .write {} 0 [65]]

/-- The old descriptor writes a byte into the directory, the second node at its path. -/
theorem openFile_writesDirectory :
    ¬ ∀ s : Watched Unit Unit,
      Transition.run Watched.step reusedPath (.initial Unit {} ()) = some s →
      ∀ use ∈ s.uses, use.onOwnFile := by
  intro h
  have hrun : Transition.run Watched.step reusedPath
      (.initial Unit {} () : Watched Unit Unit) = some _ := rfl
  have hown := h _ hrun _ (List.mem_singleton.mpr rfl)
  exact absurd hown.1 (by decide)

end Haisos.Filesystem
