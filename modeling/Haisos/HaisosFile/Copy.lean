import Haisos.HaisosFile.Operations

/-!
# Copies between views of one store

The filesystems of a copy may share their files without being able to tell.  Here
a store says which file is at which place, each filesystem is a view that reaches
the places by its own paths, and what its calls do is told in terms of the store.
-/

namespace Haisos.HaisosFile

open Filesystem StateExcept
open Hsh (Text text)

/-! ## Stores and views -/

/-- The files `ι` at the places `κ` of a state. -/
structure Store (σ κ ι : Type) where
  Valid : σ → Prop
  fileAt : σ → κ → Option ι
  content : σ → ι → List UInt8
  deviceAt : κ → Prop

namespace Store

variable {σ κ ι : Type} (store : Store σ κ ι)

structure Keeps (s s' : σ) : Prop where
  valid : store.Valid s'
  names : store.fileAt s' = store.fileAt s
  contents : ∀ k i, store.fileAt s k = some i → store.content s' i = store.content s i

/-- No file is lost, and what they held is in them, but for one that is written to. -/
structure KeepsBut (target : Option ι) (s s' : σ) : Prop where
  valid : store.Valid s'
  names : ∀ k i, store.fileAt s k = some i → store.fileAt s' k = some i
  contents : ∀ k i, store.fileAt s k = some i → some i ≠ target →
    store.content s' i = store.content s i

variable {store} {s s' s'' : σ} {target : Option ι}

theorem Keeps.refl (h : store.Valid s) : store.Keeps s s := ⟨h, rfl, fun _ _ _ => rfl⟩

theorem Keeps.trans (h : store.Keeps s s') (h' : store.Keeps s' s'') : store.Keeps s s'' where
  valid := h'.valid
  names := h'.names.trans h.names
  contents k i hi := by
    have hi' : store.fileAt s' k = some i := by rw [h.names, hi]
    rw [h'.contents k i hi', h.contents k i hi]

theorem Keeps.keepsBut (h : store.Keeps s s') (target : Option ι) : store.KeepsBut target s s' :=
  ⟨h.valid, fun k i hi => by rw [h.names, hi], fun k i hi _ => h.contents k i hi⟩

theorem KeepsBut.trans (h : store.KeepsBut target s s') (h' : store.KeepsBut target s' s'') :
    store.KeepsBut target s s'' where
  valid := h'.valid
  names k i hi := h'.names k i (h.names k i hi)
  contents k i hi hne := by
    rw [h'.contents k i (h.names k i hi) hne, h.contents k i hi hne]

end Store

variable {σ κ ι δ δ' : Type}

/--
A filesystem as a view of a store: what its calls promise.  A read may give less than it
was asked for and a write may take less than it was given, and any call may fail.
-/
structure Sees (store : Store σ κ ι) (fs : View σ δ) where
  place : Text → κ
  /-- An open file that the next read is to read from this position on. -/
  Reads : δ → ι → Nat → Prop
  /-- An open file that the next write is to write to, at this position; or a device. -/
  Writes : δ → Option ι → Nat → Prop
  stat_file : ∀ path s, store.Valid s →
    ((fs.stat path s).map (·.type) = some .file ↔ ∃ i, store.fileAt s (place path) = some i)
  createDirectory : ∀ now path mode s, store.Valid s →
    store.Keeps s (fs.createDirectory now path mode s).2
  openRead : ∀ now path s, store.Valid s →
    store.Keeps s (fs.openFile now path fileOpenReadOnly none s).2
  openRead_file : ∀ now path s d i, store.Valid s → store.fileAt s (place path) = some i →
    (fs.openFile now path fileOpenReadOnly none s).1 = some d → Reads d i 0
  openWrite_none : ∀ now path s, store.Valid s →
    (fs.openFile now path fileOpenWriteCreateTruncate (some fileCreateMode) s).1 = none →
    store.Keeps s (fs.openFile now path fileOpenWriteCreateTruncate (some fileCreateMode) s).2
  openWrite_some : ∀ now path s d s', store.Valid s →
    fs.openFile now path fileOpenWriteCreateTruncate (some fileCreateMode) s = (some d, s') →
    ∃ target, Writes d target 0 ∧ store.KeepsBut target s s' ∧
      store.fileAt s' (place path) = target ∧ (target = none → store.deviceAt (place path)) ∧
      ∀ j, target = some j → store.content s' j = [] ∧
        (store.fileAt s (place path) = some j ∨ ∀ k, store.fileAt s k ≠ some j)
  read_keeps : ∀ now d count s i pos, store.Valid s → Reads d i pos →
    store.Keeps s (fs.read now d count s).2.2.2
  read_bytes : ∀ now d count s i k pos (n : Nat) chunk d' s', store.Valid s → Reads d i pos →
    store.fileAt s k = some i → 0 < count → fs.read now d count s = ((n : Int), chunk, d', s') →
    chunk = ((store.content s i).drop pos).take n ∧ chunk.length = n ∧
      (n = 0 → (store.content s i).length ≤ pos) ∧ Reads d' i (pos + n)
  write_keeps : ∀ now d buf s target pos, store.Valid s → Writes d target pos →
    store.KeepsBut target s (fs.write now d buf s).2.2
  write_bytes : ∀ now d buf s target pos (n : Nat) d' s', store.Valid s → Writes d target pos →
    fs.write now d buf s = ((n : Int), d', s') → 0 < n → n ≤ buf.length ∧
      Writes d' target (pos + n) ∧
      ∀ j k, target = some j → store.fileAt s k = some j → (store.content s j).length = pos →
        store.content s' j = store.content s j ++ buf.take n

/-! ## The law of a copy -/

/--
A copy that succeeds has copied: what the destination holds, unless it is a device, is what
the source held before.  And a file that is both of them holds what it held.
-/
structure CopyLaw (store : Store σ κ ι) (source destination : κ) (before after : σ)
    (outcome : Except SetupFailure Unit) : Prop where
  copies : outcome = .ok () → ¬ store.deviceAt destination → ∃ i j,
    store.fileAt before source = some i ∧ store.fileAt after destination = some j ∧
      store.content after j = store.content before i
  keeps : ∀ i, store.fileAt before source = some i → store.fileAt before destination = some i →
    store.fileAt after source = some i ∧ store.content after i = store.content before i

section

variable (clock : Nat → FileDateTime) (source : View σ δ) (fromPath : Text)
  (destination : View σ δ') (toPath : Text)

/-- `CopyFileBetween` up to where both files are open, or refused. -/
def openBoth : Setup σ (δ × δ') := do
  match sourceRefusal (← entryTypeOf source fromPath) with
  | some reason => giveUp reason
  | none => do
      if (← entryTypeOf destination toPath) = some .dir then
        giveUp (text "the destination is a directory")
      ensureParentDirectories clock destination toPath
      match ← call clock fun now => source.openFile now fromPath fileOpenReadOnly none with
      | none => giveUp (text "cannot open the source for reading")
      | some input => do
          match ← call clock fun now =>
            destination.openFile now toPath fileOpenWriteCreateTruncate (some fileCreateMode) with
          | none => giveUp (text "cannot open the destination for writing")
          | some output => pure (input, output)

/-- The rest of `CopyFileBetween`. -/
def copyOpened (fuel : Nat) (files : δ × δ') : Setup σ Unit := do
  if ← copyChunks clock source destination fuel files.1 files.2 then pure ()
  else giveUp (text "copying the data failed")

theorem copyFileBetween_eq (fuel : Nat) :
    copyFileBetween clock fuel source fromPath destination toPath =
      openBoth clock source fromPath destination toPath >>=
        copyOpened clock source destination fuel := by
  unfold copyFileBetween openBoth
  rw [bind_assoc]
  refine bind_congr fun type => ?_
  cases sourceRefusal type with
  | some reason => rfl
  | none =>
      rw [bind_assoc]
      refine bind_congr fun there => ?_
      by_cases hdir : there = some .dir
      · simp only [if_pos hdir]
        rfl
      · simp only [if_neg hdir, bind_assoc]
        refine bind_congr fun _ => bind_congr fun input => ?_
        cases input with
        | none => rfl
        | some input =>
            rw [bind_assoc]
            refine bind_congr fun output => ?_
            cases output with
            | none => rfl
            | some output => rfl

end

section

variable {clock : Nat → FileDateTime} {store : Store σ κ ι} {source : View σ δ}
  {destination : View σ δ'} {fromPath toPath : Text}

/-! ## Up to the open files -/

theorem exec_entryTypeOf (fs : View σ δ) (path : Text) (disk : Disk σ) :
    exec (entryTypeOf fs path) disk = (.ok ((fs.stat path disk.state).map (·.type)), disk) := rfl

structure FailedKeeping (store : Store σ κ ι) (s : σ) (e : SetupFailure) (after : Disk σ) : Prop where
  failed : ∃ reason, e = .failed reason
  keeps : store.Keeps s after.state

theorem entryTypeOf_triple {pre : Disk σ → Prop} {failed : SetupFailure → Disk σ → Prop}
    (path : Text) : Triple pre (entryTypeOf destination path) (fun _ => pre) failed :=
  fun _ h => h

theorem createDirectory_keeps (sees : Sees store destination) {s : σ}
    {failed : SetupFailure → Disk σ → Prop} (path : Text) :
    Triple (fun disk => store.Keeps s disk.state)
      (call clock fun now => destination.createDirectory now path directoryCreateMode)
      (fun _ after => store.Keeps s after.state) failed :=
  Triple.modifyGet_intro fun _ h => h.trans (sees.createDirectory _ _ _ _ h.valid)

theorem ensureBelow_keeps (sees : Sees store destination) (segments : List Text) {s : σ} :
    ∀ current, Triple (fun disk => store.Keeps s disk.state)
      (ensureBelow clock destination current segments)
      (fun _ after => store.Keeps s after.state) (FailedKeeping store s) := by
  induction segments with
  | nil => exact fun _ => Triple.pure_intro fun disk h => h
  | cons segment segments ih =>
      intro current
      unfold ensureBelow
      refine Triple.bind_intro (entryTypeOf_triple _) fun type => ?_
      rcases type with _ | _ | _ | _
      · refine Triple.bind_intro (createDirectory_keeps sees _) fun created => ?_
        by_cases hcreated : created = 0
        · rw [if_pos hcreated]
          exact ih _
        · rw [if_neg hcreated]
          exact Triple.throw_intro fun disk h => ⟨⟨_, rfl⟩, h⟩
      · exact Triple.throw_intro fun disk h => ⟨⟨_, rfl⟩, h⟩
      · exact ih _
      · exact Triple.throw_intro fun disk h => ⟨⟨_, rfl⟩, h⟩

theorem sourceRefusal_eq_none {type : Option EntryType} :
    sourceRefusal type = none ↔ type = some .file := by
  rcases type with _ | _ | _ | _ <;> simp [sourceRefusal]

structure OpenedBoth (seesFrom : Sees store source) (seesTo : Sees store destination)
    (fromPath toPath : Text) (before opened : σ) (files : δ × δ') (i : ι) (target : Option ι) :
    Prop where
  valid : store.Valid opened
  source : store.fileAt before (seesFrom.place fromPath) = some i
  stillSource : store.fileAt opened (seesFrom.place fromPath) = some i
  destination : store.fileAt opened (seesTo.place toPath) = target
  reads : seesFrom.Reads files.1 i 0
  writes : seesTo.Writes files.2 target 0
  device : target = none → store.deviceAt (seesTo.place toPath)
  emptied : ∀ j, target = some j → store.content opened j = []
  kept : some i ≠ target → store.content opened i = store.content before i
  same : target = some i ↔ store.fileAt before (seesTo.place toPath) = some i

theorem openSource_triple (sees : Sees store source) {s : σ} {i : ι}
    {failed : SetupFailure → Disk σ → Prop} (hi : store.fileAt s (sees.place fromPath) = some i) :
    Triple (fun disk => store.Keeps s disk.state)
      (call clock fun now => source.openFile now fromPath fileOpenReadOnly none)
      (fun input after => store.Keeps s after.state ∧ ∀ d, input = some d → sees.Reads d i 0)
      failed := by
  refine Triple.modifyGet_intro fun disk h => ⟨h.trans (sees.openRead _ _ _ h.valid), ?_⟩
  intro d hd
  exact sees.openRead_file _ _ _ _ _ h.valid (by rw [h.names, hi]) hd

theorem openDestination_triple (seesFrom : Sees store source) (seesTo : Sees store destination)
    {s : σ} {i : ι} {input : δ} {failed : SetupFailure → Disk σ → Prop}
    (hi : store.fileAt s (seesFrom.place fromPath) = some i) (hreads : seesFrom.Reads input i 0) :
    Triple (fun disk => store.Keeps s disk.state)
      (call clock fun now =>
        destination.openFile now toPath fileOpenWriteCreateTruncate (some fileCreateMode))
      (fun output after => (output = none → store.Keeps s after.state) ∧
        ∀ d, output = some d → ∃ target,
          OpenedBoth seesFrom seesTo fromPath toPath s after.state (input, d) i target)
      failed := by
  refine Triple.modifyGet_intro fun disk h => ⟨fun hnone => ?_, fun d hd => ?_⟩
  · exact h.trans (seesTo.openWrite_none _ _ _ h.valid hnone)
  · obtain ⟨target, hwrites, hkeeps, hat, hdevice, hfile⟩ :=
      seesTo.openWrite_some _ _ _ _ _ h.valid (Prod.ext hd rfl)
    have hthere : store.fileAt disk.state (seesFrom.place fromPath) = some i := by rw [h.names, hi]
    refine ⟨target, hkeeps.valid, hi, hkeeps.names _ _ hthere, hat, hreads, hwrites, hdevice,
      fun j hj => (hfile j hj).1, fun hne => ?_, fun htarget => ?_, fun hsame => ?_⟩
    · rw [hkeeps.contents _ i hthere hne, h.contents _ i hi]
    · rcases (hfile i htarget).2 with hbefore | hnew
      · rwa [h.names] at hbefore
      · exact absurd hthere (hnew _)
    · rw [← h.names] at hsame
      rw [← hat]
      exact hkeeps.names _ _ hsame

theorem openBoth_triple (seesFrom : Sees store source) (seesTo : Sees store destination)
    {disk : Disk σ} (hvalid : store.Valid disk.state) :
    Triple (· = disk) (openBoth clock source fromPath destination toPath)
      (fun files opened => ∃ i target,
        OpenedBoth seesFrom seesTo fromPath toPath disk.state opened.state files i target)
      (FailedKeeping store disk.state) := by
  have hself := Store.Keeps.refl hvalid
  unfold openBoth
  refine Triple.at_bind (exec_entryTypeOf source fromPath disk) ?_
  cases hrefusal : sourceRefusal ((source.stat fromPath disk.state).map (·.type)) with
  | some reason => exact Triple.at_throw ⟨⟨reason, rfl⟩, hself⟩
  | none =>
      obtain ⟨i, hi⟩ := (seesFrom.stat_file fromPath disk.state hvalid).mp
        (sourceRefusal_eq_none.mp hrefusal)
      refine Triple.at_bind (exec_entryTypeOf destination toPath disk) ?_
      by_cases hdir : (destination.stat toPath disk.state).map (·.type) = some .dir
      · simp only [if_pos hdir]
        exact Triple.at_throw ⟨⟨_, rfl⟩, hself⟩
      · simp only [if_neg hdir]
        have hensured : Triple (fun ready => store.Keeps disk.state ready.state)
            (ensureParentDirectories clock destination toPath)
            (fun _ ready => store.Keeps disk.state ready.state) (FailedKeeping store disk.state) :=
          ensureBelow_keeps seesTo _ _
        refine Triple.bind_intro (hensured.at_state hself) fun _ => ?_
        refine Triple.bind_intro (openSource_triple seesFrom hi) fun input => ?_
        refine Triple.of_pre fun reading hreading => ?_
        obtain ⟨hreading, hreads⟩ := hreading
        rcases input with _ | input
        · exact Triple.at_throw ⟨⟨_, rfl⟩, hreading⟩
        · refine Triple.bind_intro
            ((openDestination_triple seesFrom seesTo hi (hreads input rfl)).at_state hreading)
            fun output => ?_
          refine Triple.of_pre fun opened hopened => ?_
          rcases output with _ | output
          · exact Triple.at_throw ⟨⟨_, rfl⟩, hopened.1 rfl⟩
          · obtain ⟨target, htarget⟩ := hopened.2 output rfl
            exact Triple.at_pure ⟨i, target, htarget⟩

/-! ## The loops -/

theorem exec_writeFile {fs : View σ δ} {disk : Disk σ} {file file' : δ} {buf : List UInt8} {n : Int}
    {s' : σ} (h : fs.write (clock disk.ticks) file buf disk.state = (n, file', s')) :
    exec (writeFile clock fs file buf) disk = (.ok (n, file'), ⟨s', disk.ticks + 1⟩) := by
  rw [writeFile, call, exec_modifyGet, h]

theorem exec_readFile {fs : View σ δ} {disk : Disk σ} {file file' : δ} {count : Nat}
    {chunk : List UInt8} {n : Int} {s' : σ}
    (h : fs.read (clock disk.ticks) file count disk.state = (n, chunk, file', s')) :
    exec (readFile clock fs file count) disk =
      (.ok (n, chunk, file'), ⟨s', disk.ticks + 1⟩) := by
  rw [readFile, call, exec_modifyGet, h]

theorem writeRest_triple (sees : Sees store destination) {failed : SetupFailure → Disk σ → Prop}
    {target : Option ι} (rounds : Nat) {disk : Disk σ} {file : δ'} {data : List UInt8} {pos : Nat}
    (hvalid : store.Valid disk.state) (hwrites : sees.Writes file target pos)
    (hend : ∀ j, target = some j →
      ∃ k, store.fileAt disk.state k = some j ∧ (store.content disk.state j).length = pos) :
    Triple (· = disk) (writeRest clock destination rounds file data)
      (fun written after => store.KeepsBut target disk.state after.state ∧
        (written.1 = true → sees.Writes written.2 target (pos + data.length) ∧
          ∀ j, target = some j →
            store.content after.state j = store.content disk.state j ++ data)) failed := by
  induction rounds generalizing disk file data pos with
  | zero =>
      have hself := (Store.Keeps.refl hvalid).keepsBut target
      cases data with
      | nil => exact Triple.at_pure ⟨hself, fun _ => ⟨hwrites, fun j _ => by simp⟩⟩
      | cons b data => exact Triple.at_pure ⟨hself, fun h => absurd h Bool.false_ne_true⟩
  | succ rounds ih =>
      have hself := (Store.Keeps.refl hvalid).keepsBut target
      cases data with
      | nil => exact Triple.at_pure ⟨hself, fun _ => ⟨hwrites, fun j _ => by simp⟩⟩
      | cons b data =>
          rcases hwrite : destination.write (clock disk.ticks) file (b :: data) disk.state with
            ⟨n, file', s'⟩
          have hkeeps := sees.write_keeps (clock disk.ticks) file (b :: data) disk.state target pos
            hvalid hwrites
          rw [hwrite] at hkeeps
          unfold writeRest
          refine Triple.at_bind (exec_writeFile hwrite) ?_
          by_cases hn : n ≤ 0
          · simp only [if_pos hn]
            exact Triple.at_pure ⟨hkeeps, fun h => absurd h Bool.false_ne_true⟩
          · simp only [if_neg hn]
            obtain ⟨m, rfl⟩ := Int.eq_ofNat_of_zero_le (by omega : 0 ≤ n)
            obtain ⟨hm, hwrites', happend⟩ :=
              sees.write_bytes _ _ _ _ _ _ _ _ _ hvalid hwrites hwrite (by omega)
            have hend' : ∀ j, target = some j → ∃ k, store.fileAt s' k = some j ∧
                (store.content s' j).length = pos + m := by
              intro j hj
              obtain ⟨k, hk, hlength⟩ := hend j hj
              refine ⟨k, hkeeps.names k j hk, ?_⟩
              rw [happend j k hj hk hlength, List.length_append, hlength, List.length_take_of_le hm]
            have hrest : Triple (· = (⟨s', disk.ticks + 1⟩ : Disk σ))
                (writeRest clock destination rounds file' ((b :: data).drop m)) _ failed :=
              ih hkeeps.valid hwrites' hend'
            refine hrest.consequence (fun _ => id) ?_ fun _ _ => id
            rintro written after ⟨hafter, hdone⟩
            refine ⟨hkeeps.trans hafter, fun hwritten => ?_⟩
            obtain ⟨hfinal, hcontent⟩ := hdone hwritten
            constructor
            · have hsum : pos + m + ((b :: data).drop m).length = pos + (b :: data).length := by
                rw [List.length_drop]
                omega
              rwa [hsum] at hfinal
            · intro j hj
              obtain ⟨k, hk, hlength⟩ := hend j hj
              have hs' : store.content s' j = store.content disk.state j ++ (b :: data).take m :=
                happend j k hj hk hlength
              rw [hcontent j hj, hs', List.append_assoc, List.take_append_drop]

/-- A copy in the middle: what has been read of the source is what the destination holds. -/
structure Copying (seesFrom : Sees store source) (seesTo : Sees store destination)
    (fromPath toPath : Text) (s : σ) (data : List UInt8) (i : ι) (target : Option ι) (input : δ)
    (output : δ') (pos : Nat) : Prop where
  valid : store.Valid s
  source : store.fileAt s (seesFrom.place fromPath) = some i
  destination : ∀ j, target = some j → store.fileAt s (seesTo.place toPath) = some j
  reads : seesFrom.Reads input i pos
  writes : seesTo.Writes output target pos
  content : store.content s i = data
  inside : pos ≤ data.length
  copied : ∀ j, target = some j → store.content s j = data.take pos

/-- Two different files: the copy goes on until the destination holds what the source does. -/
theorem copyChunks_triple {seesFrom : Sees store source} {seesTo : Sees store destination}
    {failed : SetupFailure → Disk σ → Prop} {data : List UInt8} {i : ι} {target : Option ι}
    (hdiffer : some i ≠ target) (fuel : Nat) {disk : Disk σ} {input : δ} {output : δ'} {pos : Nat}
    (h : Copying seesFrom seesTo fromPath toPath disk.state data i target input output pos)
    (hfuel : data.length - pos < fuel) :
    Triple (· = disk) (copyChunks clock source destination fuel input output)
      (fun copied after => copied = true → ∀ j, target = some j →
        store.fileAt after.state (seesTo.place toPath) = some j ∧
          store.content after.state j = data) failed := by
  induction fuel generalizing disk input output pos with
  | zero => exact absurd hfuel (Nat.not_lt_zero _)
  | succ fuel ih =>
      rcases hread : source.read (clock disk.ticks) input copyChunkSize disk.state with
        ⟨n, chunk, input', s'⟩
      have hkeeps := seesFrom.read_keeps (clock disk.ticks) input copyChunkSize disk.state i pos
        h.valid h.reads
      rw [hread] at hkeeps
      unfold copyChunks
      refine Triple.at_bind (exec_readFile hread) ?_
      have hsource : store.content s' i = data := by
        rw [hkeeps.contents _ i h.source, h.content]
      by_cases hzero : n = 0
      · subst hzero
        obtain ⟨-, -, hlast, -⟩ := seesFrom.read_bytes _ _ _ _ _ _ _ 0 _ _ _ h.valid h.reads
          h.source (by decide) hread
        have hall := hlast rfl
        rw [h.content] at hall
        simp only [if_pos]
        refine Triple.at_pure fun _ j hj => ⟨?_, ?_⟩
        · rw [hkeeps.names, h.destination j hj]
        · rw [hkeeps.contents _ j (h.destination j hj), h.copied j hj,
            List.take_of_length_le hall]
      · simp only [if_neg hzero]
        by_cases hneg : n < 0
        · simp only [if_pos hneg]
          exact Triple.at_pure fun hcopied => absurd hcopied Bool.false_ne_true
        · simp only [if_neg hneg]
          obtain ⟨m, rfl⟩ := Int.eq_ofNat_of_zero_le (by omega : 0 ≤ n)
          obtain ⟨hchunk, hlength, -, hreads⟩ := seesFrom.read_bytes _ _ _ _ _ _ _ m _ _ _ h.valid
            h.reads h.source (by decide) hread
          rw [h.content] at hchunk
          have hmore : pos + m ≤ data.length := by
            have hle : m ≤ (data.drop pos).length := by
              rw [← hlength, hchunk]
              exact List.length_take_le' _ _
            rw [List.length_drop] at hle
            have hinside := h.inside
            omega
          have hend : ∀ j, target = some j → ∃ k, store.fileAt s' k = some j ∧
              (store.content s' j).length = pos := by
            intro j hj
            refine ⟨seesTo.place toPath, by rw [hkeeps.names, h.destination j hj], ?_⟩
            rw [hkeeps.contents _ j (h.destination j hj), h.copied j hj,
              List.length_take_of_le h.inside]
          have hwrite : Triple (· = (⟨s', disk.ticks + 1⟩ : Disk σ))
              (writeAll clock destination output chunk) _ failed :=
            writeRest_triple seesTo _ hkeeps.valid h.writes hend
          refine Triple.bind_intro hwrite fun written => ?_
          refine Triple.of_pre fun after hafter => ?_
          obtain ⟨hbut, hdone⟩ := hafter
          obtain ⟨copied, output'⟩ := written
          cases copied with
          | false => exact Triple.at_pure fun hcopied => absurd hcopied Bool.false_ne_true
          | true =>
              obtain ⟨hwrites, hcontent⟩ := hdone rfl
              simp only [if_true]
              have hthere : store.fileAt s' (seesFrom.place fromPath) = some i := by
                rw [hkeeps.names, h.source]
              rw [hlength] at hwrites
              refine ih ⟨hbut.valid, hbut.names _ i hthere, fun j hj => ?_, hreads, hwrites, ?_, hmore,
                fun j hj => ?_⟩ ?_
              · exact hbut.names _ j (by rw [hkeeps.names, h.destination j hj])
              · rw [hbut.contents _ i hthere hdiffer, hsource]
              · rw [hcontent j hj, hkeeps.contents _ j (h.destination j hj), h.copied j hj, hchunk,
                  List.take_add]
              · have hpositive : m ≠ 0 := by
                  rintro rfl
                  exact hzero rfl
                omega

/-- A file copied onto itself is read when it is empty already. -/
theorem copyChunks_same {seesFrom : Sees store source} {failed : SetupFailure → Disk σ → Prop}
    {i : ι} {k : κ} (fuel : Nat) {disk : Disk σ} {input : δ} {output : δ'}
    (hvalid : store.Valid disk.state) (hi : store.fileAt disk.state k = some i)
    (hreads : seesFrom.Reads input i 0) (hempty : store.content disk.state i = []) :
    Triple (· = disk) (copyChunks clock source destination (fuel + 1) input output)
      (fun _ after => store.Keeps disk.state after.state) failed := by
  rcases hread : source.read (clock disk.ticks) input copyChunkSize disk.state with
    ⟨n, chunk, input', s'⟩
  have hkeeps := seesFrom.read_keeps (clock disk.ticks) input copyChunkSize disk.state i 0 hvalid
    hreads
  rw [hread] at hkeeps
  unfold copyChunks
  refine Triple.at_bind (exec_readFile hread) ?_
  by_cases hzero : n = 0
  · simp only [if_pos hzero]
    exact Triple.at_pure hkeeps
  · simp only [if_neg hzero]
    by_cases hneg : n < 0
    · simp only [if_pos hneg]
      exact Triple.at_pure hkeeps
    · obtain ⟨m, rfl⟩ := Int.eq_ofNat_of_zero_le (by omega : 0 ≤ n)
      obtain ⟨hchunk, hlength, -, -⟩ := seesFrom.read_bytes _ _ _ _ _ _ _ m _ _ _ hvalid hreads hi
        (by decide) hread
      rw [hempty] at hchunk
      simp only [List.drop_nil, List.take_nil] at hchunk
      rw [hchunk] at hlength
      exact absurd (by simp [← hlength]) hzero

/-! ## The law -/

/-- The source and the destination are one file, which has a content, and both get opened. -/
structure CopiedOntoItself (clock : Nat → FileDateTime) (seesFrom : Sees store source)
    (seesTo : Sees store destination) (fromPath toPath : Text) (disk : Disk σ) : Prop where
  same : ∃ i, store.fileAt disk.state (seesFrom.place fromPath) = some i ∧
    store.fileAt disk.state (seesTo.place toPath) = some i ∧ store.content disk.state i ≠ []
  opened : ∃ files, (exec (openBoth clock source fromPath destination toPath) disk).1 = .ok files

theorem CopyLaw.of_failed {k k' : κ} {s s' : σ} {e : SetupFailure} (h : store.Keeps s s') :
    CopyLaw store k k' s s' (.error e) where
  copies hok := by cases hok
  keeps i hi _ := ⟨by rw [h.names, hi], h.contents k i hi⟩

theorem exec_copyOpened {fuel : Nat} {files : δ × δ'} {opened : Disk σ}
    {post : Bool → Disk σ → Prop}
    (h : Triple (· = opened) (copyChunks clock source destination fuel files.1 files.2) post
      fun _ _ => False) :
    ∃ copied after, post copied after ∧
      exec (copyOpened clock source destination fuel files) opened =
        (if copied then .ok () else .error (.failed (text "copying the data failed")), after) := by
  rcases hrun : exec (copyChunks clock source destination fuel files.1 files.2) opened with
    ⟨e | copied, after⟩
  · exact absurd (h.error rfl hrun) not_false
  · refine ⟨copied, after, h.ok rfl hrun, ?_⟩
    rw [copyOpened, exec_bind_ok hrun]
    cases copied <;> rfl

theorem law_same (clock : Nat → FileDateTime) {seesFrom : Sees store source} {seesTo : Sees store destination}
    {before : σ} {opened : Disk σ} {files : δ × δ'} {i : ι} (fuel : Nat)
    (h : OpenedBoth seesFrom seesTo fromPath toPath before opened.state files i (some i)) :
    let run := exec (copyOpened clock source destination (fuel + 1) files) opened
    (∀ e, run.1 = .error e → ∃ reason, e = .failed reason) ∧
      (CopyLaw store (seesFrom.place fromPath) (seesTo.place toPath) before run.2.state run.1 ↔
        store.content before i = []) := by
  have hchunks : Triple (· = opened)
      (copyChunks clock source destination (fuel + 1) files.1 files.2) _ fun _ _ => False :=
    copyChunks_same fuel h.valid h.stillSource h.reads (h.emptied i rfl)
  obtain ⟨copied, after, hkeeps, hrun⟩ := exec_copyOpened hchunks
  have hempty : store.content after.state i = [] := by
    rw [hkeeps.contents _ i h.stillSource, h.emptied i rfl]
  have hsource : store.fileAt after.state (seesFrom.place fromPath) = some i := by
    rw [hkeeps.names, h.stillSource]
  have hdestination : store.fileAt after.state (seesTo.place toPath) = some i := by
    rw [hkeeps.names, h.destination]
  intro run
  have hafter : run.2.state = after.state := by rw [show run = _ from hrun]
  refine ⟨fun e he => ?_, fun hlaw => ?_, fun hbefore => ⟨fun _ _ => ?_, fun i' hi' _ => ?_⟩⟩
  · rw [show run = _ from hrun] at he
    cases copied <;> cases he
    exact ⟨_, rfl⟩
  · have hkept := (hlaw.keeps i h.source (h.same.mp rfl)).2
    rw [← hkept, hafter, hempty]
  · exact ⟨i, i, h.source, by rw [hafter, hdestination], by rw [hafter, hempty, hbefore]⟩
  · cases h.source.symm.trans hi'
    exact ⟨by rw [hafter, hsource], by rw [hafter, hempty, hbefore]⟩

theorem law_different {seesFrom : Sees store source} {seesTo : Sees store destination}
    {before : σ} {opened : Disk σ} {files : δ × δ'} {i : ι} {target : Option ι} {fuel : Nat}
    (h : OpenedBoth seesFrom seesTo fromPath toPath before opened.state files i target)
    (hdiffer : some i ≠ target) (hfuel : (store.content before i).length < fuel) :
    let run := exec (copyOpened clock source destination fuel files) opened
    (∀ e, run.1 = .error e → ∃ reason, e = .failed reason) ∧
      CopyLaw store (seesFrom.place fromPath) (seesTo.place toPath) before run.2.state run.1 := by
  have hcopying : Copying seesFrom seesTo fromPath toPath opened.state (store.content before i) i
      target files.1 files.2 0 :=
    ⟨h.valid, h.stillSource, fun j hj => h.destination.trans hj, h.reads, h.writes, h.kept hdiffer,
      Nat.zero_le _, h.emptied⟩
  have hchunks : Triple (· = opened)
      (copyChunks clock source destination fuel files.1 files.2) _ fun _ _ => False :=
    copyChunks_triple hdiffer fuel hcopying hfuel
  obtain ⟨copied, after, hcopied, hrun⟩ := exec_copyOpened hchunks
  intro run
  refine ⟨fun e he => ?_, fun hok hdevice => ?_, fun i' hi' hsame => ?_⟩
  · rw [show run = _ from hrun] at he
    cases copied <;> cases he
    exact ⟨_, rfl⟩
  · rw [show run = _ from hrun] at hok ⊢
    cases copied with
    | false => cases hok
    | true =>
        obtain ⟨j, hj⟩ := Option.ne_none_iff_exists'.mp (mt h.device hdevice)
        obtain ⟨hthere, hcontent⟩ := hcopied rfl j hj
        exact ⟨i, j, h.source, hthere, hcontent⟩
  · cases h.source.symm.trans hi'
    exact absurd (h.same.mpr hsame).symm hdiffer

/-- A copy keeps its law exactly when it does not empty its own source. -/
theorem copyFileBetween_law_iff (clock : Nat → FileDateTime) (store : Store σ κ ι)
    (source : View σ δ) (destination : View σ δ') (seesFrom : Sees store source)
    (seesTo : Sees store destination) (fromPath toPath : Text) (disk : Disk σ)
    (hvalid : store.Valid disk.state) (fuel : Nat)
    (hfuel : ∀ i, store.fileAt disk.state (seesFrom.place fromPath) = some i →
      (store.content disk.state i).length < fuel) :
    let run := exec (copyFileBetween clock fuel source fromPath destination toPath) disk
    (∀ e, run.1 = .error e → ∃ reason, e = .failed reason) ∧
      (CopyLaw store (seesFrom.place fromPath) (seesTo.place toPath) disk.state run.2.state run.1 ↔
        ¬ CopiedOntoItself clock seesFrom seesTo fromPath toPath disk) := by
  have hopen : Triple (· = disk) (openBoth clock source fromPath destination toPath) _ _ :=
    openBoth_triple seesFrom seesTo hvalid
  rw [copyFileBetween_eq]
  rcases hboth : exec (openBoth clock source fromPath destination toPath) disk with
    ⟨e | files, opened⟩
  · obtain ⟨⟨reason, rfl⟩, hkeeps⟩ := hopen.error rfl hboth
    rw [exec_bind_error hboth]
    refine ⟨fun e he => ?_, iff_of_true (CopyLaw.of_failed hkeeps) fun hcopied => ?_⟩
    · cases he
      exact ⟨reason, rfl⟩
    · obtain ⟨files, hfiles⟩ := hcopied.opened
      rw [hboth] at hfiles
      cases hfiles
  · obtain ⟨i, target, h⟩ := hopen.ok rfl hboth
    rw [exec_bind_ok hboth]
    by_cases htarget : some i = target
    · subst htarget
      obtain ⟨fuel, rfl⟩ := Nat.exists_eq_add_one_of_ne_zero (Nat.ne_zero_of_lt (hfuel i h.source))
      obtain ⟨herror, hlaw⟩ := law_same clock fuel h
      refine ⟨herror, hlaw.trans ⟨fun hempty hcopied => ?_, fun hnot => ?_⟩⟩
      · obtain ⟨i', hi', -, hcontent⟩ := hcopied.same
        cases h.source.symm.trans hi'
        exact hcontent hempty
      · by_contra hcontent
        exact hnot ⟨⟨i, h.source, h.same.mp rfl, hcontent⟩, files, by rw [hboth]⟩
    · obtain ⟨herror, hlaw⟩ := law_different h htarget (hfuel i h.source)
      refine ⟨herror, iff_of_true hlaw fun hcopied => ?_⟩
      obtain ⟨i', hi', hsame, -⟩ := hcopied.same
      cases h.source.symm.trans hi'
      exact htarget (h.same.mpr hsame).symm

end

end Haisos.HaisosFile
