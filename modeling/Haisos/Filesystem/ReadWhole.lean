import Haisos.Hsh.Text

/-!
# Reading a file whole

`ReadWholeDescriptor` of `FilesystemUtils.h`, on what the reads of a descriptor
give one after the other.
-/

namespace Haisos.Filesystem

open Hsh (Text text)

def maxSize : Nat := 10 * 1024 * 1024

def chunkSize : Nat := 64 * 1024

/-- What a read that is not at the end gives: at least a byte, and no more than asked for. -/
structure Chunk where
  bytes : Text
  nonempty : bytes ≠ []
  short : bytes.length ≤ chunkSize

inductive ReadResult where
  | data (chunk : Chunk)
  | ioError | brokenPipe | interrupted

/-- The results of the reads of a descriptor up to the end of its file. -/
abbrev Reads := List ReadResult

def ReadResult.bytes : ReadResult → Text
  | .data chunk => chunk.bytes
  | _ => []

def ReadResult.isData : ReadResult → Bool
  | .data _ => true
  | _ => false

/-- All that the reads bring. -/
def whole (reads : Reads) : Text := reads.flatMap ReadResult.bytes

/-- The loop of `ReadWholeDescriptor`. -/
def readWholeFrom (content : Text) : Reads → Option Text
  | [] => some content
  | result :: reads =>
      if content.length < maxSize then
        match result with
        | .data chunk => readWholeFrom (content ++ chunk.bytes) reads
        | _ => none
      else some content

/-- `ReadWholeDescriptor`: `none` for false. -/
def readWholeDescriptor (reads : Reads) : Option Text := readWholeFrom [] reads

/-- `ReadWholeFile`, of the file that was opened, if any. -/
def readWholeFile (file : Option Reads) : Option Text := file.bind readWholeDescriptor

/-! ## When the result is the whole -/

/-- Where `size` bytes and what the reads bring next reach the bound, nothing is left. -/
def FitsFrom (size : Nat) (reads : Reads) : Prop :=
  ∀ before after, reads = before ++ after → before.all ReadResult.isData →
    maxSize ≤ size + (whole before).length → whole after = []

/-- Nothing is left where reads that all went well have brought 10 MB. -/
def Fits (reads : Reads) : Prop := FitsFrom 0 reads

theorem whole_cons (result : ReadResult) (reads : Reads) :
    whole (result :: reads) = result.bytes ++ whole reads := rfl

theorem whole_append (before after : Reads) :
    whole (before ++ after) = whole before ++ whole after := by
  simp [whole]

theorem fitsFrom_full {size : Nat} (hfull : maxSize ≤ size) (reads : Reads) :
    FitsFrom size reads ↔ whole reads = [] := by
  constructor
  · intro h
    exact h [] reads rfl rfl (by omega)
  · intro hnil before after heq _ _
    rw [heq, whole_append, List.append_eq_nil_iff] at hnil
    exact hnil.2

theorem fitsFrom_data {size : Nat} (hroom : size < maxSize) (chunk : Chunk) (reads : Reads) :
    FitsFrom size (.data chunk :: reads) ↔ FitsFrom (size + chunk.bytes.length) reads := by
  constructor
  · intro h before after heq hdata hfull
    apply h (.data chunk :: before) after (by rw [heq, List.cons_append])
    · simpa [ReadResult.isData] using hdata
    · rw [whole_cons, List.length_append]
      simp only [ReadResult.bytes]
      omega
  · intro h before after heq hdata hfull
    cases before with
    | nil =>
        simp [whole] at hfull
        omega
    | cons first before =>
        obtain ⟨rfl, rfl⟩ := List.cons.inj heq
        apply h before after rfl
        · simpa [ReadResult.isData] using hdata
        · rw [whole_cons, List.length_append] at hfull
          simp only [ReadResult.bytes] at hfull
          omega

theorem fitsFrom_failure {size : Nat} (hroom : size < maxSize) {result : ReadResult}
    (hresult : result.isData = false) (reads : Reads) : FitsFrom size (result :: reads) := by
  intro before after heq hdata hfull
  cases before with
  | nil =>
      simp [whole] at hfull
      omega
  | cons first before =>
      obtain ⟨rfl, -⟩ := List.cons.inj heq
      simp [hresult] at hdata

theorem readWholeFrom_whole_iff (content : Text) (reads : Reads) :
    (∀ result, readWholeFrom content reads = some result → result = content ++ whole reads) ↔
      FitsFrom content.length reads := by
  induction reads generalizing content with
  | nil =>
      have hnil : FitsFrom content.length [] := by
        intro before after heq _ _
        rw [(List.append_eq_nil_iff.mp heq.symm).2]
        rfl
      simp [readWholeFrom, whole, hnil]
  | cons result reads ih =>
      by_cases hroom : content.length < maxSize
      · cases result with
        | data chunk =>
            rw [fitsFrom_data hroom, ← List.length_append, ← ih]
            simp [readWholeFrom, hroom, whole_cons, ReadResult.bytes]
        | ioError | brokenPipe | interrupted =>
            apply iff_of_true
            · simp [readWholeFrom, hroom]
            · exact fitsFrom_failure hroom rfl reads
      · rw [fitsFrom_full (by omega)]
        simp [readWholeFrom, hroom]

theorem readWholeDescriptor_whole_iff (reads : Reads) :
    (∀ result, readWholeDescriptor reads = some result → result = whole reads) ↔ Fits reads := by
  simpa [readWholeDescriptor, Fits] using readWholeFrom_whole_iff [] reads

theorem length_of_readWholeFrom {content result : Text} {reads : Reads}
    (h : readWholeFrom content reads = some result) : content.length ≤ result.length := by
  induction reads generalizing content with
  | nil => simp_all [readWholeFrom]
  | cons first reads ih =>
      by_cases hroom : content.length < maxSize
      · cases first with
        | data chunk =>
            simp only [readWholeFrom, hroom, if_true] at h
            have := ih h
            rw [List.length_append] at this
            omega
        | ioError | brokenPipe | interrupted => simp [readWholeFrom, hroom] at h
      · simp only [readWholeFrom, hroom, if_false, Option.some.injEq] at h
        exact Nat.le_of_eq (congrArg List.length h)

theorem whole_of_readWholeDescriptor_nil {reads : Reads}
    (h : readWholeDescriptor reads = some []) : whole reads = [] := by
  have hroom : ([] : Text).length < maxSize := by decide
  cases reads with
  | nil => rfl
  | cons first reads =>
      cases first with
      | data chunk =>
          simp only [readWholeDescriptor, readWholeFrom, hroom, if_true] at h
          have hlength := length_of_readWholeFrom h
          simp [chunk.nonempty] at hlength
      | ioError | brokenPipe | interrupted =>
          simp [readWholeDescriptor, readWholeFrom, maxSize] at h

theorem fits_of_length_le {reads : Reads} (h : (whole reads).length ≤ maxSize) : Fits reads := by
  intro before after heq _ hfull
  rw [heq, whole_append, List.length_append] at h
  exact List.length_eq_zero_iff.mp (by omega)

end Haisos.Filesystem
