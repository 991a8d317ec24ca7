import Haisos.AgentTrafficLog.Diff

/-!
# The traffic log

`AgentTrafficLog.cpp` over `ReopeningLogFile.cpp`.  Between the calls the file may be
removed, and another one put where it was: the log notices a path that is missing,
and makes the file anew.
-/

namespace Haisos.AgentTrafficLog

inductive LogType where
  | xdiff | diff | full
  deriving DecidableEq, Repr

inductive Body where
  | json (value : Json)
  | raw (text : String)

/-- What the log is written with: the library's parser, and the two formats of `xdiff`. -/
structure Formats where
  parse : String → Option Json
  computeExtremeDiff : String → String → String
  formatExtremeResponse : String → String

variable (formats : Formats)

def prettyPrintJson (json : String) : Body :=
  match formats.parse json with
  | some value => .json value
  | none => .raw json

def computeSmartDiff (previous current : String) : Body :=
  match formats.parse previous, formats.parse current with
  | some (.object previous), some (.object current) => .json (.object (smartDiff previous current))
  | _, _ => prettyPrintJson formats current

def formatAgentPath (agentPath : List String) : String :=
  let result := agentPath.foldl (fun result name =>
    (if result.isEmpty then result else result ++ ">") ++
      (if name.isEmpty then "(unnamed)" else name)) ""
  if result.isEmpty then "(unnamed)" else result

inductive Direction where
  | send | receive
  deriving DecidableEq, Repr

/-- `againstPrevious` stands for the line that says so.  The request is what the entry was
written for, and is not in the file. -/
structure Entry where
  direction : Direction
  agentPath : List String
  againstPrevious : Bool
  body : Body
  request : String

inductive Item where
  | entry (entry : Entry)
  | recreated

/-- The log, its stream being open on a file, and the files: the one the path names, if any,
and what was written into each. -/
structure TrafficLog where
  type : LogType
  lastSent : String → Option String
  stream : Nat
  path : Option Nat
  next : Nat
  contents : Nat → List Item

def TrafficLog.new (type : LogType) : TrafficLog :=
  ⟨type, fun _ => none, 0, some 0, 1, fun _ => []⟩

def createFile (log : TrafficLog) : TrafficLog :=
  { log with
    path := some log.next
    next := log.next + 1
    contents := fun file => if file = log.next then [] else log.contents file }

/-- `EnsureOpen`: whether the file had to be made anew. -/
def ensureOpen (log : TrafficLog) : Bool × TrafficLog :=
  match log.path with
  | some _ => (false, log)
  | none => (true, { createFile log with stream := log.next })

def write (log : TrafficLog) (item : Item) : TrafficLog :=
  let log := (ensureOpen log).2
  { log with
    contents := fun file =>
      if file = log.stream then log.contents file ++ [item] else log.contents file }

def startAfreshIfRecreated (log : TrafficLog) : TrafficLog :=
  let ensured := ensureOpen log
  if ensured.1 then write { ensured.2 with lastSent := fun _ => none } .recreated
  else ensured.2

def remember (log : TrafficLog) (agentName json : String) : TrafficLog :=
  { log with
    lastSent := fun name => if name = agentName then some json else log.lastSent name }

def onSend (log : TrafficLog) (agentPath : List String) (json : String) : TrafficLog :=
  let log := startAfreshIfRecreated log
  let agentName := formatAgentPath agentPath
  match log.type with
  | .full =>
      write log (.entry ⟨.send, agentPath, false, prettyPrintJson formats json, json⟩)
  | type =>
      let extreme := type = .xdiff
      match log.lastSent agentName with
      | none =>
          let body := if extreme then .raw (formats.computeExtremeDiff "" json)
            else prettyPrintJson formats json
          write (remember log agentName json) (.entry ⟨.send, agentPath, false, body, json⟩)
      | some previous =>
          let body := if extreme then .raw (formats.computeExtremeDiff previous json)
            else computeSmartDiff formats previous json
          write (remember log agentName json) (.entry ⟨.send, agentPath, true, body, json⟩)

def onReceive (log : TrafficLog) (agentPath : List String) (json : String) : TrafficLog :=
  let log := startAfreshIfRecreated log
  let body := if log.type = .xdiff then .raw (formats.formatExtremeResponse json)
    else prettyPrintJson formats json
  write log (.entry ⟨.receive, agentPath, false, body, json⟩)

/-- A call, or what becomes of the file between the calls. -/
inductive Event where
  | send (agentPath : List String) (json : String)
  | receive (agentPath : List String) (json : String)
  | removed
  | replaced
  deriving DecidableEq, Repr

def step (log : TrafficLog) : Event → TrafficLog
  | .send agentPath json => onSend formats log agentPath json
  | .receive agentPath json => onReceive formats log agentPath json
  | .removed => { log with path := none }
  | .replaced => createFile log

def run (type : LogType) (events : List Event) : TrafficLog :=
  events.foldl (step formats) (.new type)

def currentFile (log : TrafficLog) : List Item := (log.path.map log.contents).getD []

def sendsOf (name : String) (items : List Item) : List Entry :=
  items.filterMap fun item =>
    match item with
    | .entry entry =>
        if entry.direction = .send ∧ formatAgentPath entry.agentPath = name then some entry
        else none
    | .recreated => none

/-! ## Entries and the requests they are written against -/

def WrittenAfter (previous : Option String) (entry : Entry) : Prop :=
  match previous with
  | none => entry.againstPrevious = false ∧ entry.body = prettyPrintJson formats entry.request
  | some previous =>
      entry.againstPrevious = true ∧ entry.body = computeSmartDiff formats previous entry.request

/-- Each entry is against the request of the one before it, and the first is in full. -/
def Chained : Option String → List Entry → Prop
  | _, [] => True
  | previous, entry :: entries =>
      WrittenAfter formats previous entry ∧ Chained (some entry.request) entries

/-- The request of the last entry, or else the one given. -/
def lastRequest (previous : Option String) (entries : List Entry) : Option String :=
  (entries.getLast?.map Entry.request).or previous

/-! ## Reading the entries back -/

/-- What an entry says its request was, from what the one before it was read as. -/
def readEntry (previous : Option Body) (entry : Entry) : Body :=
  match entry.againstPrevious, previous, entry.body with
  | true, some (.json (.object previous)), .json (.object difference) =>
      .json (.object (rebuild previous difference))
  | _, _, body => body

def readBack : Option Body → List Entry → Option Body
  | previous, [] => previous
  | previous, entry :: entries => readBack (some (readEntry previous entry)) entries

/-- The same document, but for the order of the keys of an object. -/
def SameUpToOrder (body other : Body) : Prop :=
  body = other ∨
    ∃ fields otherFields, body = .json (.object fields) ∧ other = .json (.object otherFields) ∧
      fields.Perm otherFields

/-- The second request can be told from the first one and the difference. -/
def TellsApart (request next : Entry) : Prop :=
  ∀ previous current, formats.parse request.request = some (.object previous) →
    formats.parse next.request = some (.object current) → NoMarks previous current

/-- Requests that are objects have no key twice, and hold no mark that could be taken for one
of the log's. -/
structure Readable (entries : List Entry) : Prop where
  distinct : ∀ entry ∈ entries, ∀ fields,
    formats.parse entry.request = some (.object fields) → DistinctKeys fields
  unmarked : entries.IsChain (TellsApart formats)

/-! ## Chains of entries -/

theorem chained_append_singleton (previous : Option String) (entries : List Entry)
    (entry : Entry) :
    Chained formats previous (entries ++ [entry]) ↔
      Chained formats previous entries ∧
        WrittenAfter formats (lastRequest previous entries) entry := by
  induction entries generalizing previous with
  | nil => simp [Chained, lastRequest]
  | cons first entries ih =>
      have hlast : lastRequest (some first.request) entries =
          lastRequest previous (first :: entries) := by
        cases entries with
        | nil => rfl
        | cons second entries => simp [lastRequest, List.getLast?_cons]
      simp only [List.cons_append, Chained, ih, hlast, and_assoc]

theorem lastRequest_append_singleton (entries : List Entry) (entry : Entry) :
    lastRequest none (entries ++ [entry]) = some entry.request := by
  simp [lastRequest]

theorem sendsOf_append (name : String) (items : List Item) (item : Item) :
    sendsOf name (items ++ [item]) = sendsOf name items ++ sendsOf name [item] := by
  simp [sendsOf]

/-! ## Every run -/

/-- What the log remembers is what the file it writes to ends in, name by name. -/
structure Sound (log : TrafficLog) : Prop where
  diff : log.type = .diff
  fresh : log.stream < log.next
  chained : ∀ name, Chained formats none (sendsOf name (log.contents log.stream))
  last : ∀ name, log.lastSent name = lastRequest none (sendsOf name (log.contents log.stream))

def NamesStream (log : TrafficLog) : Prop := log.path = some log.stream ∨ log.path = none

theorem write_of_path {log : TrafficLog} {file : Nat} (h : log.path = some file) (item : Item) :
    write log item =
      { log with
        contents := fun file =>
          if file = log.stream then log.contents file ++ [item] else log.contents file } := by
  simp [write, ensureOpen, h]

variable {formats}

theorem Sound.write_silent {log : TrafficLog} (hsound : Sound formats log) {file : Nat}
    (hpath : log.path = some file) {item : Item} (hitem : ∀ name, sendsOf name [item] = []) :
    Sound formats (write log item) := by
  rw [write_of_path hpath]
  constructor
  · exact hsound.diff
  · exact hsound.fresh
  · intro name
    simpa [sendsOf_append, hitem] using hsound.chained name
  · intro name
    simpa [sendsOf_append, hitem] using hsound.last name

theorem Sound.write_send {log : TrafficLog} (hsound : Sound formats log) {file : Nat}
    (hpath : log.path = some file) {entry : Entry} (hsend : entry.direction = .send)
    (hafter : WrittenAfter formats (log.lastSent (formatAgentPath entry.agentPath)) entry) :
    Sound formats
      (write (remember log (formatAgentPath entry.agentPath) entry.request) (.entry entry)) := by
  have hremembered : (remember log (formatAgentPath entry.agentPath) entry.request).path =
      some file := hpath
  rw [write_of_path hremembered]
  constructor
  · exact hsound.diff
  · exact hsound.fresh
  · intro name
    simp only [remember, if_true, sendsOf_append]
    by_cases hname : formatAgentPath entry.agentPath = name
    · subst hname
      have hsends : sendsOf (formatAgentPath entry.agentPath) [.entry entry] = [entry] := by
        simp [sendsOf, hsend]
      rw [hsends, chained_append_singleton, ← hsound.last]
      exact ⟨hsound.chained _, hafter⟩
    · have hsends : sendsOf name [.entry entry] = [] := by simp [sendsOf, hname]
      rw [hsends, List.append_nil]
      exact hsound.chained name
  · intro name
    simp only [remember, if_true, sendsOf_append]
    by_cases hname : formatAgentPath entry.agentPath = name
    · subst hname
      have hsends : sendsOf (formatAgentPath entry.agentPath) [.entry entry] = [entry] := by
        simp [sendsOf, hsend]
      rw [hsends, lastRequest_append_singleton, if_pos rfl]
    · have hsends : sendsOf name [.entry entry] = [] := by simp [sendsOf, hname]
      rw [hsends, List.append_nil, if_neg (Ne.symm hname)]
      exact hsound.last name

theorem Sound.startAfresh {log : TrafficLog} (hsound : Sound formats log) :
    Sound formats (startAfreshIfRecreated log) := by
  cases hpath : log.path with
  | some file => simpa [startAfreshIfRecreated, ensureOpen, hpath] using hsound
  | none =>
      rw [startAfreshIfRecreated]
      simp only [ensureOpen, hpath, if_true]
      apply Sound.write_silent _ rfl
      · simp [sendsOf]
      · constructor
        · exact hsound.diff
        · simp [createFile]
        · simp [createFile, sendsOf, Chained]
        · simp [createFile, sendsOf, lastRequest]

theorem path_startAfresh (log : TrafficLog) :
    ∃ file, (startAfreshIfRecreated log).path = some file := by
  cases hpath : log.path with
  | some file => exact ⟨file, by simp [startAfreshIfRecreated, ensureOpen, hpath]⟩
  | none => exact ⟨log.next, by simp [startAfreshIfRecreated, ensureOpen, hpath, write, createFile]⟩

theorem onSend_diff {log : TrafficLog} (hdiff : (startAfreshIfRecreated log).type = .diff)
    (agentPath : List String) (json : String) :
    ∃ entry : Entry, entry.direction = .send ∧ entry.agentPath = agentPath ∧
      entry.request = json ∧
      WrittenAfter formats
        ((startAfreshIfRecreated log).lastSent (formatAgentPath agentPath)) entry ∧
      onSend formats log agentPath json =
        write (remember (startAfreshIfRecreated log) (formatAgentPath agentPath) json)
          (.entry entry) := by
  cases hlast : (startAfreshIfRecreated log).lastSent (formatAgentPath agentPath) with
  | none =>
      refine ⟨⟨.send, agentPath, false, prettyPrintJson formats json, json⟩, rfl, rfl, rfl, ?_, ?_⟩
      · simp [WrittenAfter]
      · simp [onSend, hdiff, hlast]
  | some previous =>
      refine ⟨⟨.send, agentPath, true, computeSmartDiff formats previous json, json⟩, rfl, rfl, rfl,
        ?_, ?_⟩
      · simp [WrittenAfter]
      · simp [onSend, hdiff, hlast]

theorem Sound.step {log : TrafficLog} (hsound : Sound formats log) (event : Event) :
    Sound formats (step formats log event) := by
  cases event with
  | send agentPath json =>
      have hafresh := hsound.startAfresh
      obtain ⟨file, hpath⟩ := path_startAfresh log
      obtain ⟨entry, hsend, rfl, rfl, hafter, heq⟩ := onSend_diff hafresh.diff agentPath json
      rw [AgentTrafficLog.step, heq]
      exact hafresh.write_send hpath hsend hafter
  | receive agentPath json =>
      obtain ⟨file, hpath⟩ := path_startAfresh log
      apply hsound.startAfresh.write_silent hpath
      simp [sendsOf]
  | removed => exact ⟨hsound.diff, hsound.fresh, hsound.chained, hsound.last⟩
  | replaced =>
      have hfresh := hsound.fresh
      have hne : log.stream ≠ log.next := by omega
      constructor
      · exact hsound.diff
      · simp only [AgentTrafficLog.step, createFile]
        omega
      · simpa [AgentTrafficLog.step, createFile, hne] using hsound.chained
      · simpa [AgentTrafficLog.step, createFile, hne] using hsound.last

theorem sound_run (formats : Formats) (events : List Event) :
    Sound formats (run formats .diff events) := by
  have hstart : Sound formats (.new .diff) := by
    constructor <;> simp [TrafficLog.new, sendsOf, Chained, lastRequest]
  rw [run]
  generalize TrafficLog.new .diff = log at hstart ⊢
  induction events generalizing log with
  | nil => exact hstart
  | cons event events ih => exact ih _ (hstart.step event)

theorem NamesStream.startAfresh {log : TrafficLog} (h : NamesStream log) :
    (startAfreshIfRecreated log).path = some (startAfreshIfRecreated log).stream := by
  rcases h with hpath | hpath <;>
    simp [startAfreshIfRecreated, ensureOpen, hpath, write, createFile]

theorem stream_write {log : TrafficLog} (h : log.path = some log.stream) (item : Item) :
    (write log item).path = some (write log item).stream := by
  rw [write_of_path h]
  exact h

theorem onSend_written {log : TrafficLog} (hsound : Sound formats log) (hnames : NamesStream log)
    (agentPath : List String) (json : String) :
    (onSend formats log agentPath json).path = some (onSend formats log agentPath json).stream ∧
      (onSend formats log agentPath json).lastSent (formatAgentPath agentPath) = some json := by
  obtain ⟨entry, -, -, -, -, heq⟩ := onSend_diff hsound.startAfresh.diff agentPath json
  rw [heq]
  constructor
  · apply stream_write
    exact hnames.startAfresh
  · rw [@write_of_path (remember (startAfreshIfRecreated log) (formatAgentPath agentPath) json) _
      hnames.startAfresh]
    simp [remember]

theorem namesStream_step {log : TrafficLog} (hsound : Sound formats log) (hnames : NamesStream log)
    {event : Event} (hevent : event ≠ .replaced) : NamesStream (step formats log event) := by
  cases event with
  | send agentPath json => exact .inl (onSend_written hsound hnames agentPath json).1
  | receive agentPath json => exact .inl (stream_write hnames.startAfresh _)
  | removed => exact .inr rfl
  | replaced => exact absurd rfl hevent

theorem namesStream_run (formats : Formats) {events : List Event}
    (h : Event.replaced ∉ events) : NamesStream (run formats .diff events) := by
  induction events using List.reverseRecOn with
  | nil => exact .inl rfl
  | append_singleton events event ih =>
      rw [List.mem_append, not_or] at h
      have hevent : event ≠ .replaced := by
        rintro rfl
        exact h.2 List.mem_cons_self
      have hstep := namesStream_step (sound_run formats events) (ih h.1) hevent
      simpa [run] using hstep

/-! ## What can be read back -/

theorem lookup_perm {fields others : Fields} (hdistinct : DistinctKeys others)
    (hperm : fields.Perm others) (key : String) : fields.lookup key = others.lookup key := by
  have hfields : DistinctKeys fields := (hperm.map Prod.fst).nodup_iff.mpr hdistinct
  cases hlookup : others.lookup key with
  | none =>
      rw [List.lookup_eq_none_iff] at hlookup ⊢
      intro field hfield
      exact hlookup field (hperm.mem_iff.mp hfield)
  | some value =>
      obtain ⟨before, after, heq, -⟩ := List.lookup_eq_some_iff.mp hlookup
      have hmem : (key, value) ∈ others := by simp [heq]
      exact lookup_of_mem hfields (hperm.mem_iff.mpr hmem)

theorem rebuild_perm {fields others : Fields} (hdistinct : DistinctKeys others)
    (hperm : fields.Perm others) (difference : Fields) :
    rebuild fields difference = rebuild others difference := by
  simp [rebuild, lookup_perm hdistinct hperm]

theorem prettyPrintJson_object {request : String} {fields : Fields} :
    prettyPrintJson formats request = .json (.object fields) ↔
      formats.parse request = some (.object fields) := by
  cases h : formats.parse request <;> simp [prettyPrintJson, h]

theorem SameUpToOrder.object {read body : Body} (h : SameUpToOrder read body) :
    (∃ fields, read = .json (.object fields)) ↔ ∃ fields, body = .json (.object fields) := by
  rcases h with rfl | ⟨fields, others, rfl, rfl, -⟩
  · rfl
  · simp

theorem SameUpToOrder.perm {read : Body} {fields : Fields}
    (h : SameUpToOrder read (.json (.object fields))) :
    ∃ others, read = .json (.object others) ∧ others.Perm fields := by
  rcases h with rfl | ⟨others, fields', rfl, heq, hperm⟩
  · exact ⟨fields, rfl, .refl _⟩
  · cases heq
    exact ⟨others, rfl, hperm⟩

theorem readEntry_written {previous entry : Entry} {read : Body}
    (hread : SameUpToOrder read (prettyPrintJson formats previous.request))
    (hwritten : WrittenAfter formats (some previous.request) entry)
    (hprevious : ∀ fields, formats.parse previous.request = some (.object fields) →
      DistinctKeys fields)
    (hentry : ∀ fields, formats.parse entry.request = some (.object fields) →
      DistinctKeys fields)
    (hmarks : TellsApart formats previous entry) :
    SameUpToOrder (readEntry (some read) entry) (prettyPrintJson formats entry.request) := by
  obtain ⟨hagainst, hbody⟩ := hwritten
  by_cases hobjects : ∃ before now, formats.parse previous.request = some (.object before) ∧
      formats.parse entry.request = some (.object now)
  · obtain ⟨before, now, hbefore, hnow⟩ := hobjects
    rw [prettyPrintJson_object.mpr hbefore] at hread
    obtain ⟨others, rfl, hperm⟩ := hread.perm
    have hrebuilt : readEntry (some (.json (.object others))) entry =
        .json (.object (rebuild before (smartDiff before now))) := by
      simp [readEntry, hagainst, hbody, computeSmartDiff, hbefore, hnow,
        rebuild_perm (hprevious _ hbefore) hperm]
    rw [hrebuilt, prettyPrintJson_object.mpr hnow]
    exact .inr ⟨_, _, rfl, rfl, rebuild_smartDiff (hentry _ hnow) (hmarks _ _ hbefore hnow)⟩
  · have hfull : entry.body = prettyPrintJson formats entry.request := by
      rw [hbody]
      unfold computeSmartDiff
      split
      · rename_i before now hbefore hnow
        exact absurd ⟨before, now, hbefore, hnow⟩ hobjects
      · rfl
    left
    unfold readEntry
    split
    · rename_i others difference _ hothers hdifference
      exfalso
      obtain ⟨before, hbefore⟩ := hread.object.mp ⟨others, Option.some.inj hothers⟩
      rw [hfull] at hdifference
      exact hobjects ⟨before, difference, prettyPrintJson_object.mp hbefore,
        prettyPrintJson_object.mp hdifference⟩
    · exact hfull

theorem readBack_from {previous : Entry} {entries : List Entry}
    (hreadable : Readable formats (previous :: entries)) {read : Body}
    (hread : SameUpToOrder read (prettyPrintJson formats previous.request))
    (hchained : Chained formats (some previous.request) entries) :
    ∃ body, readBack (some read) entries = some body ∧
      ∀ request, lastRequest (some previous.request) entries = some request →
        SameUpToOrder body (prettyPrintJson formats request) := by
  induction entries generalizing previous read with
  | nil =>
      refine ⟨read, rfl, ?_⟩
      intro request hrequest
      simp only [lastRequest, List.getLast?_nil, Option.map_none, Option.none_or,
        Option.some.injEq] at hrequest
      rw [← hrequest]
      exact hread
  | cons entry entries ih =>
      obtain ⟨hwritten, hchained⟩ := hchained
      obtain ⟨htells, hunmarked⟩ := List.isChain_cons_cons.mp hreadable.unmarked
      have hnext : Readable formats (entry :: entries) :=
        ⟨fun other hother => hreadable.distinct other (List.mem_cons_of_mem _ hother), hunmarked⟩
      have hentry := readEntry_written hread hwritten (hreadable.distinct previous (by simp))
        (hreadable.distinct entry (by simp)) htells
      obtain ⟨body, hbody, hlast⟩ := ih hnext hentry hchained
      refine ⟨body, hbody, ?_⟩
      intro request hrequest
      apply hlast
      rw [← hrequest]
      cases entries with
      | nil => rfl
      | cons second entries => simp [lastRequest, List.getLast?_cons]

theorem readBack_chained {entries : List Entry} (hreadable : Readable formats entries)
    (hchained : Chained formats none entries) {request : String}
    (hlast : lastRequest none entries = some request) :
    ∃ body, readBack none entries = some body ∧
      SameUpToOrder body (prettyPrintJson formats request) := by
  cases entries with
  | nil => simp [lastRequest] at hlast
  | cons entry entries =>
      obtain ⟨⟨hagainst, hbody⟩, hchained⟩ := hchained
      have hentry : SameUpToOrder (readEntry none entry)
          (prettyPrintJson formats entry.request) := by
        left
        simp [readEntry, hagainst, hbody]
      obtain ⟨body, hread, hall⟩ := readBack_from hreadable hentry hchained
      refine ⟨body, hread, hall request ?_⟩
      rw [← hlast]
      cases entries with
      | nil => rfl
      | cons second entries => simp [lastRequest, List.getLast?_cons]

/-- The SEND entries of an agent name in the file that the path names. -/
def sendsInFile (formats : Formats) (events : List Event) (name : String) : List Entry :=
  sendsOf name (currentFile (run formats .diff events))

theorem sendsInFile_eq {events : List Event} (h : Event.replaced ∉ events)
    (agentPath : List String) (json name : String) :
    sendsInFile formats (events ++ [.send agentPath json]) name =
      sendsOf name ((run formats .diff (events ++ [.send agentPath json])).contents
        (run formats .diff (events ++ [.send agentPath json])).stream) := by
  have hwritten := onSend_written (sound_run formats events) (namesStream_run formats h)
    agentPath json
  have hrun : run formats .diff (events ++ [.send agentPath json]) =
      onSend formats (run formats .diff events) agentPath json := by
    simp [run, step]
  rw [sendsInFile, currentFile, hrun, hwritten.1]
  rfl

theorem chained_sendsInFile {events : List Event} (h : Event.replaced ∉ events)
    (agentPath : List String) (json name : String) :
    Chained formats none (sendsInFile formats (events ++ [.send agentPath json]) name) := by
  rw [sendsInFile_eq h]
  exact (sound_run formats _).chained name

theorem lastRequest_sendsInFile {events : List Event} (h : Event.replaced ∉ events)
    (agentPath : List String) (json : String) :
    lastRequest none (sendsInFile formats (events ++ [.send agentPath json])
      (formatAgentPath agentPath)) = some json := by
  have hwritten := onSend_written (sound_run formats events) (namesStream_run formats h)
    agentPath json
  have hrun : run formats .diff (events ++ [.send agentPath json]) =
      onSend formats (run formats .diff events) agentPath json := by
    simp [run, step]
  rw [sendsInFile_eq h, ← (sound_run formats _).last, hrun]
  exact hwritten.2

/-- Of any requests of any agents, with the file removed at any time: two requests without marks
tell the second from the difference and the first; every entry is against the request of the one
before it in the file; and so what was sent last reads back from the file. -/
theorem sends_readBack {events : List Event} (h : Event.replaced ∉ events)
    (agentPath : List String) (json : String) :
    (∀ previous current : Fields, DistinctKeys current → NoMarks previous current →
      (rebuild previous (smartDiff previous current)).Perm current) ∧
    (∀ name, Chained formats none
      (sendsInFile formats (events ++ [.send agentPath json]) name)) ∧
    lastRequest none (sendsInFile formats (events ++ [.send agentPath json])
      (formatAgentPath agentPath)) = some json ∧
    (Readable formats (sendsInFile formats (events ++ [.send agentPath json])
        (formatAgentPath agentPath)) →
      ∃ body, readBack none (sendsInFile formats (events ++ [.send agentPath json])
          (formatAgentPath agentPath)) = some body ∧
        SameUpToOrder body (prettyPrintJson formats json)) := by
  refine ⟨fun previous current => rebuild_smartDiff, chained_sendsInFile h agentPath json,
    lastRequest_sendsInFile h agentPath json, ?_⟩
  intro hreadable
  exact readBack_chained hreadable (chained_sendsInFile h agentPath json _)
    (lastRequest_sendsInFile h agentPath json)

/-! ## An agent whose requests grow and change -/

def isMark : Json → Bool
  | .string marker => marker = same
  | .array (.string marker :: _) => marker = precedent
  | _ => false

theorem noMarks_of_isMark {current : Fields} (h : current.all (fun field => !isMark field.2))
    (previous : Fields) : NoMarks previous current := by
  have hfields : ∀ key value, current.lookup key = some value → isMark value = false := by
    intro key value hlookup
    obtain ⟨before, after, rfl, -⟩ := List.lookup_eq_some_iff.mp hlookup
    simpa using List.all_eq_true.mp h (key, value) (by simp)
  intro key elements _
  constructor
  · intro hlookup
    simpa [isMark] using hfields key _ hlookup
  · intro added hlookup
    simpa [isMark] using hfields key _ hlookup

def words (texts : List String) : Json := .array (texts.map .string)

def askedText : String := "\x7b\"model\":\"m\",\"messages\":[\"a\"]\x7d"

def grownText : String :=
  "\x7b\"model\":\"m\",\"messages\":[\"a\",\"b\"],\"tools\":[\"t\"]\x7d"

def changedText : String :=
  "\x7b\"tools\":[\"t\"],\"messages\":[\"c\"],\"model\":\"m\"\x7d"

def asked : Fields := [("model", .string "m"), ("messages", words ["a"])]

def grown : Fields :=
  [("model", .string "m"), ("messages", words ["a", "b"]), ("tools", words ["t"])]

/-- One array has changed, the other one is the same, and the keys stand in another order. -/
def changed : Fields :=
  [("tools", words ["t"]), ("messages", words ["c"]), ("model", .string "m")]

/-- A library that reads three documents. -/
def threeRequests : Formats where
  parse json :=
    if json = askedText then some (.object asked)
    else if json = grownText then some (.object grown)
    else if json = changedText then some (.object changed)
    else none
  computeExtremeDiff _ json := json
  formatExtremeResponse json := json

theorem readable_threeRequests {entries : List Entry}
    (h : entries.map Entry.request = [askedText, grownText, changedText]) :
    Readable threeRequests entries where
  distinct entry hentry fields hfields := by
    have hrequest : entry.request ∈ [askedText, grownText, changedText] := by
      rw [← h]
      exact List.mem_map_of_mem hentry
    simp only [List.mem_cons, List.not_mem_nil, or_false] at hrequest
    rcases hrequest with hrequest | hrequest | hrequest <;> rw [hrequest] at hfields <;>
      cases hfields <;> unfold DistinctKeys <;> decide
  unmarked := by
    have htells : ∀ request next : Entry, next.request ∈ [grownText, changedText] →
        TellsApart threeRequests request next := by
      intro request next hnext previous current _ hcurrent
      simp only [List.mem_cons, List.not_mem_nil, or_false] at hnext
      rcases hnext with hnext | hnext <;> rw [hnext] at hcurrent <;> cases hcurrent <;>
        exact noMarks_of_isMark (by decide) previous
    obtain ⟨first, entries, rfl, -, h⟩ := List.map_eq_cons_iff.mp h
    obtain ⟨second, entries, rfl, hsecond, h⟩ := List.map_eq_cons_iff.mp h
    obtain ⟨third, entries, rfl, hthird, h⟩ := List.map_eq_cons_iff.mp h
    obtain rfl := List.map_eq_nil_iff.mp h
    exact .cons_cons (htells first second (by simp [hsecond]))
      (.cons_cons (htells second third (by simp [hthird])) (.singleton third))

def askedTwice : List Event :=
  [.send ["a"] grownText, .removed, .send ["a"] askedText, .receive ["a"] "ok",
    .send ["b"] changedText, .send ["a"] grownText]

theorem sends_readBack_askedTwice :
    ∃ body,
      readBack none (sendsInFile threeRequests (askedTwice ++ [.send ["a"] changedText])
        (formatAgentPath ["a"])) = some body ∧
      SameUpToOrder body (.json (.object changed)) :=
  (@sends_readBack threeRequests askedTwice (by decide) ["a"] changedText).2.2.2
    (readable_threeRequests rfl)

/-- Another file put in the log's place is not noticed: what is sent next is not in it. -/
theorem sendsInFile_replaced :
    ¬ ∃ body, readBack none (sendsInFile threeRequests
        [.send ["a"] askedText, .replaced, .send ["a"] grownText] (formatAgentPath ["a"])) =
          some body ∧
      SameUpToOrder body (prettyPrintJson threeRequests grownText) := by
  have hnone : sendsInFile threeRequests
      [.send ["a"] askedText, .replaced, .send ["a"] grownText] (formatAgentPath ["a"]) = [] := by
    rfl
  rw [hnone]
  rintro ⟨body, hbody, -⟩
  cases hbody

end Haisos.AgentTrafficLog
