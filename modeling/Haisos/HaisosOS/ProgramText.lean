import Haisos.Filesystem.ReadWhole
import Haisos.Hsh.Shell.Run

/-!
# The text a program is run from

The shell reads a script and a dot script, and the OS an agent's and a Lua program,
with one loop.
-/

namespace Haisos.HaisosOS

open Filesystem StateExcept
open Hsh (Text text World look perform)
open Hsh.Shell

/-! ## Agents and Lua programs -/

def agentArguments (arguments : List Text) : Text :=
  if arguments.isEmpty then []
  else text "\n\n--- Arguments ---\n" ++ arguments.flatMap (· ++ ['\n'])

/-- `StartAgentProcess`: what the agent is told, if it is started. -/
def startAgentProcess (file : Option Reads) (arguments : List Text) : Option Text :=
  match readWholeFile file with
  | none => none
  | some content => if content.isEmpty then none else some (content ++ agentArguments arguments)

/-- `StartLuaProcess`: the script, if it is started. -/
def startLuaProcess (file : Option Reads) : Option Text := readWholeFile file

theorem startLuaProcess_some (reads : Reads) :
    startLuaProcess (some reads) = readWholeDescriptor reads := rfl

/-! ## Scripts -/

/-- What `ReadWholeDescriptor` has made of a read, if it did not fail. -/
def result : ReadEnd Text → Option Text
  | .done content => some content
  | .interrupted | .failed _ => none

variable {ω D P : Type} {machine : Machine ω D P}

/-- The file at `path` opens, and is read by `ReadWholeDescriptor`. -/
def OpensAs (machine : Machine ω D P) (path : Text) (world : World (Members ω D P))
    (reads : Reads) : Prop :=
  ∃ descriptor opened,
    (system machine).openFile path .readOnly world.outside = (some descriptor, opened) ∧
      result (machine.readWhole descriptor opened.files.outside).1 = readWholeDescriptor reads

/-- The script that is run, unless the shell ends without one. -/
def RunsScript (machine : Machine ω D P) (path : Text) (world : World (Members ω D P))
    (script : Text) : Prop :=
  ∃ after, exec (scriptText machine (.scriptFile path)) world = (.ok (.ok script), after)

def RunsDotScript (machine : Machine ω D P) (file : Text) (world : World (Members ω D P))
    (script : Text) : Prop :=
  ∃ after, exec (dotText machine file) world = (.ok script, after)

theorem exec_perform {α : Type} (f : Members ω D P → α × Members ω D P)
    (world : World (Members ω D P)) :
    exec (perform f) world =
      (.ok (f world.outside).1, { world with outside := (f world.outside).2 }) := rfl

theorem runsScript_iff {path : Text} {world : World (Members ω D P)} {reads : Reads}
    (hopen : OpensAs machine path world reads) (script : Text) :
    RunsScript machine path world script ↔ readWholeDescriptor reads = some script := by
  obtain ⟨descriptor, opened, hfile, hread⟩ := hopen
  rw [RunsScript, scriptText, exec_bind, exec_perform, hfile]
  simp only
  rw [exec_bind, exec_perform]
  simp only [Members.onOutside]
  rw [← hread]
  cases (machine.readWhole descriptor opened.files.outside).1 with
  | done content => simp [result]
  | interrupted | failed before =>
      refine iff_of_false ?_ fun h => by cases h
      rintro ⟨after, hafter⟩
      obtain ⟨reason, _, -, hafter⟩ := exec_bind_eq_ok.mp hafter
      obtain ⟨_, _, -, hafter⟩ := exec_bind_eq_ok.mp hafter
      simp at hafter

theorem runsDotScript_iff {file path : Text} {world : World (Members ω D P)} {reads : Reads}
    (hpath : exec (dotPath machine file) world = (.ok path, world))
    (hopen : OpensAs machine path world reads) (script : Text) :
    RunsDotScript machine file world script ↔ readWholeDescriptor reads = some script := by
  obtain ⟨descriptor, opened, hfile, hread⟩ := hopen
  rw [RunsDotScript, dotText, exec_bind_ok hpath]
  simp only
  rw [exec_bind, exec_perform, hfile]
  simp only
  rw [exec_bind, exec_perform]
  simp only [Members.onOutside]
  rw [← hread]
  cases (machine.readWhole descriptor opened.files.outside).1 with
  | done content => simp [result]
  | interrupted | failed before =>
      refine iff_of_false ?_ fun h => by cases h
      rintro ⟨after, hafter⟩
      obtain ⟨reason, _, -, hafter⟩ := exec_bind_eq_ok.mp hafter
      rw [fail] at hafter
      obtain ⟨members, _, -, hafter⟩ := exec_bind_eq_ok.mp hafter
      simp at hafter

/-! ## Whole or not at all -/

/-- What is run is all that the file holds. -/
def WholeOrRefused (runs : Text → Prop) (content : Text) : Prop :=
  ∀ program, runs program → program = content

theorem startAgentProcess_whole_iff (reads : Reads) (arguments : List Text) :
    WholeOrRefused (fun program => startAgentProcess (some reads) arguments = some program)
        (whole reads ++ agentArguments arguments) ↔ Fits reads := by
  rw [← readWholeDescriptor_whole_iff]
  constructor
  · intro hwhole content hread
    cases content with
    | nil => exact (whole_of_readWholeDescriptor_nil hread).symm
    | cons c content =>
        have hprogram := hwhole (c :: content ++ agentArguments arguments)
        simp only [startAgentProcess, readWholeFile, Option.bind_some, hread] at hprogram
        exact List.append_cancel_right (hprogram rfl)
  · intro hwhole program hprogram
    simp only [startAgentProcess, readWholeFile, Option.bind_some] at hprogram
    cases hread : readWholeDescriptor reads with
    | none => simp [hread] at hprogram
    | some content =>
        cases content with
        | nil => simp [hread] at hprogram
        | cons c content =>
            simp only [hread, List.isEmpty_cons, Bool.false_eq_true, if_false,
              Option.some.injEq] at hprogram
            rw [← hprogram, hwhole _ hread]

/-- The reading of a program, and each way to run one: whole or refused, or the file goes on
where the reads have brought 10 MB. -/
theorem wholeOrRefused_iff {path file : Text} {world : World (Members ω D P)} {reads : Reads}
    (hopen : OpensAs machine path world reads)
    (hpath : exec (dotPath machine file) world = (.ok path, world)) (arguments : List Text) :
    (WholeOrRefused (fun content => readWholeDescriptor reads = some content) (whole reads) ↔
      Fits reads) ∧
    (WholeOrRefused (RunsScript machine path world) (whole reads) ↔ Fits reads) ∧
    (WholeOrRefused (RunsDotScript machine file world) (whole reads) ↔ Fits reads) ∧
    (WholeOrRefused (fun program => startAgentProcess (some reads) arguments = some program)
      (whole reads ++ agentArguments arguments) ↔ Fits reads) ∧
    (WholeOrRefused (fun program => startLuaProcess (some reads) = some program) (whole reads) ↔
      Fits reads) := by
  have hread : WholeOrRefused (fun content => readWholeDescriptor reads = some content)
      (whole reads) ↔ Fits reads := readWholeDescriptor_whole_iff reads
  refine ⟨hread, ?_, ?_, startAgentProcess_whole_iff reads arguments, hread⟩
  · rw [← hread]
    exact forall_congr' fun program => imp_congr_left (runsScript_iff hopen program)
  · rw [← hread]
    exact forall_congr' fun program => imp_congr_left (runsDotScript_iff hpath hopen program)

def readEnd : Option Text → ReadEnd Text
  | some content => .done content
  | none => .failed []

theorem result_readEnd (content : Option Text) : result (readEnd content) = content := by
  cases content <;> rfl

/-- A machine on which every path is the file that `reads` come from. -/
def fileMachine (reads : Reads) : Machine Unit Nat Unit :=
  { idleMachine with
    openFile := fun _ _ outside => (some 3, outside)
    stat := fun _ _ => some .file
    readWhole := fun _ outside => (readEnd (readWholeDescriptor reads), outside) }

def emptyWorld : World (Members Unit Nat Unit) := ⟨{}, { files := { outside := () } }⟩

theorem opensAs_fileMachine (reads : Reads) (path : Text) :
    OpensAs (fileMachine reads) path emptyWorld reads :=
  ⟨3, emptyWorld.outside, rfl, result_readEnd _⟩

theorem dotPath_fileMachine (reads : Reads) :
    exec (dotPath (fileMachine reads) (text "/a.sh")) emptyWorld =
      (.ok (text "/a.sh"), emptyWorld) := rfl

def fullChunk : Chunk where
  bytes := List.replicate chunkSize 'x'
  nonempty := List.ne_nil_of_length_pos (by rw [List.length_replicate]; decide)
  short := by rw [List.length_replicate]

def oneByte : ReadResult := .data ⟨['x'], by decide, by decide⟩

theorem whole_replicate_fullChunk (n : Nat) :
    whole (List.replicate n (.data fullChunk)) = List.replicate (n * chunkSize) 'x' := by
  induction n with
  | zero => simp [whole]
  | succ n ih =>
      rw [List.replicate_succ, whole_cons, ih, Nat.succ_mul, Nat.add_comm, List.replicate_add]
      rfl

/-- A file of 128 KB and a byte: two full chunks and a short one. -/
def shortReads : Reads := List.replicate 2 (.data fullChunk) ++ [oneByte]

theorem whole_shortReads : whole shortReads = List.replicate (2 * chunkSize + 1) 'x' := by
  rw [shortReads, whole_append, whole_replicate_fullChunk, List.replicate_add]
  rfl

theorem wholeOrRefused_shortReads :
    let content := List.replicate (2 * chunkSize + 1) 'x'
    WholeOrRefused (RunsScript (fileMachine shortReads) (text "/a.sh") emptyWorld) content ∧
      WholeOrRefused (RunsDotScript (fileMachine shortReads) (text "/a.sh") emptyWorld) content ∧
      WholeOrRefused
        (fun program => startAgentProcess (some shortReads) [text "-v"] = some program)
        (content ++ text "\n\n--- Arguments ---\n-v\n") := by
  have hfits : Fits shortReads := by
    refine fits_of_length_le ?_
    rw [whole_shortReads, List.length_replicate]
    decide
  have hall := wholeOrRefused_iff (opensAs_fileMachine shortReads (text "/a.sh"))
    (dotPath_fileMachine shortReads) [text "-v"]
  rw [whole_shortReads] at hall
  exact ⟨hall.2.1.mpr hfits, hall.2.2.1.mpr hfits, hall.2.2.2.1.mpr hfits⟩

/-- A file of 10 MB and a byte, read in full chunks. -/
def longReads : Reads := List.replicate 160 (.data fullChunk) ++ [oneByte]

theorem startLuaProcess_cut :
    ¬ WholeOrRefused (fun program => startLuaProcess (some longReads) = some program)
      (whole longReads) := by
  intro hwhole
  rw [WholeOrRefused, startLuaProcess_some] at hwhole
  have hfull : maxSize ≤ 0 + (whole (List.replicate 160 (ReadResult.data fullChunk))).length := by
    rw [whole_replicate_fullChunk, List.length_replicate]
    decide
  have hdata : (List.replicate 160 (ReadResult.data fullChunk)).all ReadResult.isData := by
    apply List.all_eq_true.mpr
    intro result hresult
    rw [List.eq_of_mem_replicate hresult]
    rfl
  have hfits := (readWholeDescriptor_whole_iff longReads).mp hwhole
  have hrest := hfits (List.replicate 160 (ReadResult.data fullChunk)) [oneByte] rfl hdata hfull
  revert hrest
  decide

end Haisos.HaisosOS
