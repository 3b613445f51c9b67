import HttpServer.Lib.Assoc
import HttpServer.Lib.FileStore
import HttpServer.PathCaptures
import Mathlib.Data.List.DropRight

/-!
File parts that are kept on disk. A part is written to the upload directory
under the last component of its client file name. The file is taken away when
the part's key and file name are seen first, and its stream is closed and opened
again as the body comes in, so two parts with one destination end up in one file.
-/
namespace HttpServer
open FileStore

def sanitizeUploadFilename (filename : Str) : Str :=
  if filename = [] then []
  else if Char.ofNat 0 ∈ filename then []
  else
    let basename := filename.rtakeWhile fun c => c ≠ '/' ∧ c ≠ '\\'
    if basename = [] ∨ basename = ['.'] ∨ basename = ['.', '.'] then [] else basename

structure FileInfo where
  fileSize : Nat := 0
  fileSystemFileName : Str := []
  contentType : Str := []
  transferEncoding : Str := []
  deriving DecidableEq, Repr

def FileInfo.growFileSize (file : FileInfo) (additionalFileSize : Nat) : FileInfo :=
  { file with fileSize := (file.fileSize + additionalFileSize) % UInt64.size }

structure UploadConfig where
  fileUploadTarget : FileUploadTarget
  fileUploadDir : Str := ['/', 't', 'm', 'p']
  generateRandomFilenameOnUpload : Bool := false

/-- A call of the post iterator for a file part. What the file system would
    answer during the call is part of it, and whether `MHD_post_process` returns
    after it. -/
structure FileCall where
  key : Str
  filename : Str
  data : Str
  contentType : Option Str := none
  transferEncoding : Option Str := none
  generated : Option Str := none
  opens : Bool := true
  writes : Bool := true
  last : Bool := true
  deriving DecidableEq, Repr

structure OutStream where
  file : Option Str
  good : Bool
  deriving DecidableEq, Repr

def OutStream.isOpen (strm : OutStream) : Bool := strm.file.isSome

def OutStream.close (strm : OutStream) : OutStream := { strm with file := none }

inductive FsCall where
  | unlinks (path : Str)
  | opens (path : Str)
  deriving DecidableEq, Repr

def FsCall.path : FsCall → Str
  | .unlinks path => path
  | .opens path => path

/-- `journal` is not in the source: it records what is handed to `unlink` and `open`. -/
structure UploadConn where
  args : RequestArgs := {}
  files : List ((Str × Str) × FileInfo) := []
  uploadKey : Str := []
  uploadFilename : Str := []
  uploadOstrm : Option OutStream := none
  disk : Disk Str Char
  journal : List FsCall := []

inductive GenerateFilenameException where
  | failed
  deriving DecidableEq, Repr

def FileCall.pair (call : FileCall) : Str × Str := (call.key, call.filename)

namespace UploadConn

def getOrCreateFileInfo (c : UploadConn) (call : FileCall) : FileInfo :=
  (c.files.lookup call.pair).getD {}

def putFileInfo (c : UploadConn) (call : FileCall) (file : FileInfo) : UploadConn :=
  { c with files := Assoc.put c.files call.pair file }

def closeStream (c : UploadConn) : UploadConn :=
  { c with uploadOstrm := c.uploadOstrm.map OutStream.close }

/-- `none` is the answer false, which leaves the file without a name. -/
def setupNewUploadFileInfo (config : UploadConfig) (call : FileCall) (file : FileInfo)
    (disk : Disk Str Char) :
    Except GenerateFilenameException (Option (FileInfo × Disk Str Char × List FsCall)) :=
  let finish (name : Str) (disk : Disk Str Char) (made : List FsCall) :=
    .ok (some ({ file with
      fileSystemFileName := name
      contentType := call.contentType.getD file.contentType
      transferEncoding := call.transferEncoding.getD file.transferEncoding },
      unlink disk name, made ++ [.unlinks name]))
  if config.generateRandomFilenameOnUpload then
    match call.generated with
    | none => .error .failed
    | some name => finish name (openAppend disk name) [.opens name]
  else
    let safeName := sanitizeUploadFilename call.filename
    if safeName = [] then .ok none else finish (config.fileUploadDir ++ '/' :: safeName) disk []

def switches (c : UploadConn) (call : FileCall) : Bool :=
  c.uploadFilename = [] || c.uploadKey = [] || call.filename ≠ c.uploadFilename ||
    call.key ≠ c.uploadKey

def manageUploadStream (c : UploadConn) (call : FileCall) (name : Str) : UploadConn :=
  let c := if c.switches call then c.closeStream else c
  if c.uploadOstrm.any OutStream.isOpen then c
  else { c with
    uploadKey := call.key
    uploadFilename := call.filename
    uploadOstrm := some (if call.opens then ⟨some name, true⟩ else ⟨none, false⟩)
    disk := if call.opens then openAppend c.disk name else c.disk
    journal := c.journal ++ [.opens name] }

def writeStream (c : UploadConn) (call : FileCall) : UploadConn :=
  match c.uploadOstrm with
  | none => c
  | some strm =>
    match strm.file with
    | some name =>
      if strm.good && call.writes then { c with disk := write c.disk name call.data }
      else { c with uploadOstrm := some { strm with good := false } }
    | none => { c with uploadOstrm := some { strm with good := false } }

/-- The part of `process_file_upload` after the file has its name. -/
def storeChunk (c : UploadConn) (call : FileCall) (file : FileInfo) : MhdResult × UploadConn :=
  let c := c.manageUploadStream call file.fileSystemFileName
  let c := if call.data.length > 0 then c.writeStream call else c
  if call.data.length > 0 ∧ c.uploadOstrm.any OutStream.good = false then (.no, c)
  else (.yes, c.putFileInfo call (file.growFileSize call.data.length))

def processFileUpload (config : UploadConfig) (c : UploadConn) (call : FileCall) :
    Except GenerateFilenameException MhdResult × UploadConn :=
  let file := c.getOrCreateFileInfo call
  let c := c.putFileInfo call file
  if file.fileSystemFileName = [] then
    match setupNewUploadFileInfo config call file c.disk with
    | .error e => (.error e, c)
    | .ok none => (.ok .no, c)
    | .ok (some (file, disk, made)) =>
      let (result, c) := storeChunk ({ c with
        disk := disk, journal := c.journal ++ made }.putFileInfo call file) call file
      (.ok result, c)
  else
    let (result, c) := c.storeChunk call file
    (.ok result, c)

section
variable (config : UploadConfig) (src : ArgSource) (limit : Nat)

def iterateArgs (c : UploadConn) (call : FileCall) : UploadConn :=
  { c with args := c.args.iterateFile src config.fileUploadTarget limit call.key call.data }

def iterateFile (c : UploadConn) (call : FileCall) : MhdResult × UploadConn :=
  let c := c.iterateArgs config src limit call
  if call.filename ≠ [] ∧ config.fileUploadTarget ≠ .memoryOnly then
    match c.processFileUpload config call with
    | (.ok result, c) => (result, c)
    | (.error _, c) => (.no, c)
  else (.yes, c)

/-- One call, and the end of `run_post_processor_if_attached` behind the last one. -/
def deliver (c : UploadConn) (call : FileCall) : UploadConn :=
  let c := (c.iterateFile config src limit call).2
  if call.last then c.closeStream else c

def AllAccepted (c : UploadConn) (calls : List FileCall) : Prop :=
  Run.Within (deliver config src limit) (fun c call => (c.iterateFile config src limit call).1 = .yes)
    c calls

instance decidableAllAccepted (c : UploadConn) (calls : List FileCall) :
    Decidable (AllAccepted config src limit c calls) :=
  Run.Within.decide _ _ c calls

end

end UploadConn

structure UploadPart where
  key : Str
  filename : Str
  calls : List FileCall
  own : ∀ call ∈ calls, call.pair = (key, filename)
  started : calls ≠ []

namespace UploadPart

def pair (p : UploadPart) : Str × Str := (p.key, p.filename)

def content (p : UploadPart) : Str := (p.calls.map FileCall.data).flatten

def ofCall (call : FileCall) : UploadPart :=
  ⟨call.key, call.filename, [call], fun _ listed => List.mem_singleton.mp listed ▸ rfl, by simp⟩

def opened (p : UploadPart) : Bool := p.calls.any FileCall.opens

def destination (config : UploadConfig) (p : UploadPart) : Str :=
  config.fileUploadDir ++ '/' :: sanitizeUploadFilename p.filename

end UploadPart

def lastWriter (config : UploadConfig) (dest : Str) (parts : List UploadPart) : Option UploadPart :=
  (parts.filter fun p => p.destination config = dest).getLast?

structure KeepsBytes (parts : List UploadPart) (c : UploadConn) : Prop where
  kept : ∀ p ∈ parts, ∃ file, c.files.lookup p.pair = some file ∧
    c.disk file.fileSystemFileName = some p.content ∧ file.fileSize = p.content.length
  only : ∀ k, (c.files.lookup k).isSome = true → ∃ p ∈ parts, p.pair = k

namespace UploadConn

def Tracked (c : UploadConn) : Prop :=
  ∀ strm, c.uploadOstrm = some strm → strm.isOpen = true →
    (c.files.lookup (c.uploadKey, c.uploadFilename)).isSome = true

structure Writing (start : UploadConn) (pair : Str × Str) (dest : Str) (opened : Bool)
    (content : Str) (c : UploadConn) : Prop where
  named : ∃ file, c.files.lookup pair = some file ∧ file.fileSystemFileName = dest ∧
    file.fileSize = content.length % UInt64.size
  others : ∀ k, k ≠ pair → c.files.lookup k = start.files.lookup k
  disk : c.disk = holding start.disk dest opened content
  lost : opened = false → content = []
  tracked : c.Tracked
  stream : ∀ strm, c.uploadOstrm = some strm → strm.isOpen = true →
    (c.uploadKey, c.uploadFilename) = pair → strm = ⟨some dest, true⟩ ∧ opened = true

section
variable {start c : UploadConn} {pair : Str × Str} {dest content : Str} {opened : Bool}

theorem tracked_closeStream (c : UploadConn) : c.closeStream.Tracked := by
  intro strm closed isOpen
  obtain ⟨old, -, rfl⟩ := Option.map_eq_some_iff.mp closed
  cases isOpen

theorem Writing.closeStream (writing : Writing start pair dest opened content c) :
    Writing start pair dest opened content c.closeStream where
  named := writing.named
  others := writing.others
  disk := writing.disk
  lost := writing.lost
  tracked := tracked_closeStream c
  stream strm closed isOpen _ := by
    obtain ⟨old, -, rfl⟩ := Option.map_eq_some_iff.mp closed
    cases isOpen

theorem closeStream_not_open (c : UploadConn) :
    c.closeStream.uploadOstrm.any OutStream.isOpen = false := by
  cases strm : c.uploadOstrm with
  | none => simp [UploadConn.closeStream, strm]
  | some strm' => simp [UploadConn.closeStream, strm, OutStream.close, OutStream.isOpen]

theorem manageUploadStream_eq (c : UploadConn) (call : FileCall) (name : Str) :
    c.manageUploadStream call name =
      if !c.switches call && c.uploadOstrm.any OutStream.isOpen then c
      else { c with
        uploadKey := call.key
        uploadFilename := call.filename
        uploadOstrm := some (if call.opens then ⟨some name, true⟩ else ⟨none, false⟩)
        disk := if call.opens then openAppend c.disk name else c.disk
        journal := c.journal ++ [.opens name] } := by
  unfold manageUploadStream
  cases switched : c.switches call with
  | false => rfl
  | true =>
    simp only [if_true, c.closeStream_not_open, Bool.not_true, Bool.false_and, Bool.false_eq_true, if_false]
    rfl

variable {call : FileCall} {file : FileInfo}

theorem pair_of_not_switches (same : c.switches call = false) :
    (c.uploadKey, c.uploadFilename) = call.pair := by
  simp only [switches, Bool.or_eq_false_iff, decide_eq_false_iff_not, not_not] at same
  rw [FileCall.pair, same.1.2, same.2]

theorem Writing.manage (writing : Writing start pair dest opened content c) (own : call.pair = pair) :
    let m := c.manageUploadStream call dest
    m.files = c.files ∧ (m.uploadKey, m.uploadFilename) = pair ∧
      m.disk = holding start.disk dest (opened || call.opens) content ∧
      (m.uploadOstrm = some ⟨some dest, true⟩ ∧ (opened || call.opens) = true ∨
        m.uploadOstrm = some ⟨none, false⟩) := by
  rw [manageUploadStream_eq]
  split
  · rename_i stays
    simp only [Bool.and_eq_true, Bool.not_eq_true', Option.any_eq_true] at stays
    obtain ⟨same, strm, held, isOpen⟩ := stays
    have ours := (pair_of_not_switches same).trans own
    obtain ⟨rfl, rfl⟩ := writing.stream strm held isOpen ours
    exact ⟨rfl, ours, by simpa using writing.disk, Or.inl ⟨held, rfl⟩⟩
  · refine ⟨rfl, own, ?_, ?_⟩
    · cases call.opens with
      | false => simpa using writing.disk
      | true => simpa [writing.disk] using openAppend_holding start.disk dest opened writing.lost
    · cases call.opens with
      | false => exact Or.inr rfl
      | true => exact Or.inl ⟨rfl, by simp⟩

theorem Writing.written (writing : Writing start pair dest opened content c)
    (own : call.pair = pair) (name : file.fileSystemFileName = dest)
    (yes : (c.storeChunk call file).1 = .yes) :
    ∃ m : UploadConn, (c.storeChunk call file).2 =
        m.putFileInfo call (file.growFileSize call.data.length) ∧
      m.files = c.files ∧ (m.uploadKey, m.uploadFilename) = pair ∧
      m.disk = holding start.disk dest (opened || call.opens) (content ++ call.data) ∧
      ((opened || call.opens) = false → call.data = []) ∧
      ∀ strm, m.uploadOstrm = some strm → strm.isOpen = true →
        strm = ⟨some dest, true⟩ ∧ (opened || call.opens) = true := by
  obtain ⟨files, ours, disk, stream⟩ := writing.manage own
  unfold storeChunk at yes ⊢
  rw [name] at yes ⊢
  revert yes files ours disk stream
  generalize c.manageUploadStream call dest = m
  intro yes files ours disk stream
  rcases Nat.eq_zero_or_pos call.data.length with empty | some_
  · have nothing := List.length_eq_zero_iff.mp empty
    refine ⟨m, by simp [empty], files, ours, by rw [disk, nothing, List.append_nil],
      fun _ => nothing, fun strm held isOpen => ?_⟩
    rcases stream with ⟨good, now⟩ | failed
    · exact ⟨Option.some_inj.mp (held.symm.trans good), now⟩
    · cases Option.some_inj.mp (held.symm.trans failed)
      cases isOpen
  · simp only [some_, if_true, true_and] at yes ⊢
    rcases stream with ⟨good, now⟩ | failed
    · cases writes : call.writes with
      | false => simp [writeStream, good, writes] at yes
      | true =>
        refine ⟨{ m with disk := write m.disk dest call.data }, ?_, files, ours, ?_, ?_, ?_⟩
        · simp [writeStream, good, writes]
        · simp only [disk, now, write_holding]
        · simp [now]
        · intro strm held isOpen
          exact ⟨Option.some_inj.mp (held.symm.trans good), now⟩
    · simp [writeStream, failed] at yes

theorem Writing.storeChunk (writing : Writing start pair dest opened content c)
    (own : call.pair = pair) (name : file.fileSystemFileName = dest)
    (size : file.fileSize = content.length % UInt64.size) (yes : (c.storeChunk call file).1 = .yes) :
    Writing start pair dest (opened || call.opens) (content ++ call.data)
      (c.storeChunk call file).2 := by
  obtain ⟨m, result, files, ours, disk, lost, stream⟩ := writing.written own name yes
  rw [result]
  have found (k : Str × Str) : (m.putFileInfo call
      (file.growFileSize call.data.length)).files.lookup k =
        if k = pair then some (file.growFileSize call.data.length) else c.files.lookup k := by
    rw [putFileInfo, Assoc.lookup_put, own, files]
  refine ⟨⟨_, (found pair).trans (if_pos rfl), name, ?_⟩, ?_, disk, ?_, ?_, ?_⟩
  · rw [FileInfo.growFileSize, size, List.length_append, Nat.mod_add_mod]
  · intro k other
    rw [found, if_neg other, writing.others k other]
  · intro never
    have before := writing.lost (Bool.or_eq_false_iff.mp never).1
    rw [before, lost never, List.append_nil]
  · intro strm held isOpen
    change ((m.putFileInfo call _).files.lookup (m.uploadKey, m.uploadFilename)).isSome = true
    rw [ours, found, if_pos rfl]
    rfl
  · intro strm held isOpen _
    exact stream strm held isOpen

theorem writing_first (tracked : c.Tracked) (unseen : c.files.lookup call.pair = none)
    (name : file.fileSystemFileName = dest) (size : file.fileSize = 0) {entry : FileInfo}
    {journal : List FsCall} :
    Writing c call.pair dest false [] ({ c.putFileInfo call entry with
      disk := unlink (c.putFileInfo call entry).disk dest
      journal := journal }.putFileInfo call file) := by
  have found (k : Str × Str) :
      (Assoc.put (Assoc.put c.files call.pair entry) call.pair file).lookup k =
        if k = call.pair then some file else c.files.lookup k := by
    rw [Assoc.put_put, Assoc.lookup_put]
  have apart : ∀ strm, c.uploadOstrm = some strm → strm.isOpen = true →
      (c.uploadKey, c.uploadFilename) ≠ call.pair := by
    intro strm held isOpen same
    have seen := tracked strm held isOpen
    rw [same, unseen] at seen
    cases seen
  refine ⟨⟨file, (found _).trans (if_pos rfl), name, size⟩, ?_, unlink_eq_holding c.disk dest,
    fun _ => rfl, ?_, ?_⟩
  · intro k other
    exact (found k).trans (if_neg other)
  · intro strm held isOpen
    change (List.lookup (c.uploadKey, c.uploadFilename) (Assoc.put (Assoc.put c.files call.pair entry)
      call.pair file)).isSome = true
    rw [found, if_neg (apart strm held isOpen)]
    exact tracked strm held isOpen
  · intro strm held isOpen same
    exact absurd same (apart strm held isOpen)

end

section
variable {config : UploadConfig} {src : ArgSource} {limit : Nat} {c : UploadConn} {call : FileCall}
  {start : UploadConn} {opened : Bool} {dest content : Str} {pair : Str × Str}

theorem processFileUpload_first (plain : config.generateRandomFilenameOnUpload = false)
    (safe : sanitizeUploadFilename call.filename ≠ []) (unseen : c.files.lookup call.pair = none) :
    ∃ file : FileInfo,
      file.fileSystemFileName = config.fileUploadDir ++ '/' :: sanitizeUploadFilename call.filename ∧
      file.fileSize = 0 ∧
      c.processFileUpload config call =
        let r := storeChunk ({ c.putFileInfo call {} with
          disk := unlink (c.putFileInfo call {}).disk file.fileSystemFileName
          journal := c.journal ++ [FsCall.unlinks file.fileSystemFileName] }.putFileInfo call file)
            call file
        (.ok r.1, r.2) := by
  refine ⟨⟨0, _, call.contentType.getD [], call.transferEncoding.getD []⟩, rfl, rfl, ?_⟩
  rw [processFileUpload, getOrCreateFileInfo, unseen, Option.getD_none]
  dsimp only
  rw [if_pos rfl, setupNewUploadFileInfo, if_neg (by simp [plain])]
  dsimp only
  rw [if_neg safe]
  rfl

theorem processFileUpload_next {file : FileInfo} (found : c.files.lookup call.pair = some file)
    (named : file.fileSystemFileName ≠ []) :
    c.processFileUpload config call =
      let r := (c.putFileInfo call file).storeChunk call file
      (.ok r.1, r.2) := by
  rw [processFileUpload, getOrCreateFileInfo, found, Option.getD_some]
  dsimp only
  rw [if_neg named]

theorem iterateFile_cases (call : FileCall) :
    (c.iterateFile config src limit call).2 = c.iterateArgs config src limit call ∨
      (c.iterateFile config src limit call).2 =
        ((c.iterateArgs config src limit call).processFileUpload config call).2 := by
  unfold iterateFile
  dsimp only
  split
  · refine Or.inr ?_
    rcases (c.iterateArgs config src limit call).processFileUpload config call with ⟨e | r, d⟩
    · rfl
    · rfl
  · exact Or.inl rfl

theorem iterateFile_eq (disk : config.fileUploadTarget ≠ .memoryOnly) (named : call.filename ≠ [])
    {r : MhdResult × UploadConn}
    (processed : (c.iterateArgs config src limit call).processFileUpload config call =
      (.ok r.1, r.2)) : c.iterateFile config src limit call = r := by
  rw [iterateFile, if_pos ⟨named, disk⟩, processed]

theorem filename_ne_nil {filename : Str} (safe : sanitizeUploadFilename filename ≠ []) :
    filename ≠ [] := by
  rintro rfl
  exact safe rfl

theorem Writing.iterateArgs (writing : Writing start pair dest opened content c) (call : FileCall) :
    Writing start pair dest opened content (c.iterateArgs config src limit call) :=
  ⟨writing.named, writing.others, writing.disk, writing.lost, writing.tracked, writing.stream⟩

theorem Writing.putFound (writing : Writing start call.pair dest opened content c) {file : FileInfo}
    (found : c.files.lookup call.pair = some file) :
    Writing start call.pair dest opened content (c.putFileInfo call file) := by
  have same (k : Str × Str) : (c.putFileInfo call file).files.lookup k = c.files.lookup k := by
    rw [putFileInfo, Assoc.lookup_put]
    split
    · rename_i here
      rw [here, found]
    · rfl
  refine ⟨?_, fun k other => ?_, writing.disk, writing.lost, fun strm held isOpen => ?_,
    writing.stream⟩
  · rw [same]
    exact writing.named
  · rw [same]
    exact writing.others k other
  · rw [same]
    exact writing.tracked strm held isOpen

theorem Writing.endCall
    (writing : Writing start pair dest opened content (c.iterateFile config src limit call).2) :
    Writing start pair dest opened content (c.deliver config src limit call) := by
  unfold UploadConn.deliver
  dsimp only
  split
  · exact writing.closeStream
  · exact writing

variable (disk : config.fileUploadTarget ≠ .memoryOnly)
  (plain : config.generateRandomFilenameOnUpload = false)
include disk

theorem Writing.iterateFile (writing : Writing start call.pair dest opened content c)
    (named : call.filename ≠ []) (some_ : dest ≠ [])
    (yes : (c.iterateFile config src limit call).1 = .yes) :
    Writing start call.pair dest (opened || call.opens) (content ++ call.data)
      (c.iterateFile config src limit call).2 := by
  obtain ⟨file, found, name, size⟩ := writing.named
  have iterated : c.iterateFile config src limit call = _ :=
    iterateFile_eq disk named (processFileUpload_next found (name ▸ some_))
  rw [iterated] at yes ⊢
  exact ((writing.iterateArgs call).putFound found).storeChunk rfl name size yes

theorem Writing.deliver (writing : Writing start call.pair dest opened content c)
    (named : call.filename ≠ []) (some_ : dest ≠ [])
    (yes : (c.iterateFile config src limit call).1 = .yes) :
    Writing start call.pair dest (opened || call.opens) (content ++ call.data)
      (c.deliver config src limit call) :=
  (writing.iterateFile disk named some_ yes).endCall

theorem Writing.deliverAll (writing : Writing start pair dest opened content c)
    (named : pair.2 ≠ []) (some_ : dest ≠ []) {calls : List FileCall}
    (own : ∀ call ∈ calls, call.pair = pair) (accepted : AllAccepted config src limit c calls) :
    Writing start pair dest (opened || calls.any FileCall.opens)
      (content ++ (calls.map FileCall.data).flatten)
      (calls.foldl (UploadConn.deliver config src limit) c) := by
  induction calls generalizing c opened content with
  | nil => simpa using writing
  | cons call calls ih =>
    obtain ⟨rfl, behind⟩ := List.forall_mem_cons.mp own
    have next := ih (writing.deliver disk named some_ accepted.1) behind accepted.2
    simpa [Bool.or_assoc] using next

include plain

theorem writing_iterateFile_first (tracked : c.Tracked)
    (safe : sanitizeUploadFilename call.filename ≠ []) (unseen : c.files.lookup call.pair = none)
    (yes : (c.iterateFile config src limit call).1 = .yes) :
    Writing c call.pair (config.fileUploadDir ++ '/' :: sanitizeUploadFilename call.filename)
      call.opens call.data (c.iterateFile config src limit call).2 := by
  let d := c.iterateArgs config src limit call
  obtain ⟨file, name, size, processed⟩ := processFileUpload_first (c := d) plain safe unseen
  have iterated := iterateFile_eq (c := c) disk (filename_ne_nil safe) processed
  rw [iterated] at yes ⊢
  rw [← name]
  have stored := (writing_first (c := d) tracked unseen rfl size).storeChunk rfl rfl size yes
  rw [Bool.false_or, List.nil_append] at stored
  exact ⟨stored.named, stored.others, stored.disk, stored.lost, stored.tracked, stored.stream⟩

theorem writing_part {p : UploadPart} (safe : sanitizeUploadFilename p.filename ≠ [])
    (tracked : c.Tracked) (unseen : c.files.lookup p.pair = none)
    (accepted : AllAccepted config src limit c p.calls) :
    Writing c p.pair (p.destination config) p.opened p.content
      (p.calls.foldl (deliver config src limit) c) := by
  obtain ⟨key, filename, calls, own, started⟩ := p
  cases calls with
  | nil => exact absurd rfl started
  | cons call calls =>
    obtain ⟨here, behind⟩ := List.forall_mem_cons.mp own
    obtain ⟨rfl, rfl⟩ := Prod.mk.inj here
    have first := (writing_iterateFile_first disk plain tracked safe unseen accepted.1).endCall
    exact first.deliverAll disk (filename_ne_nil safe) (by simp) behind accepted.2

end

structure Stored (config : UploadConfig) (initial : Disk Str Char) (parts : List UploadPart)
    (c : UploadConn) : Prop where
  named : ∀ p ∈ parts, ∃ file, c.files.lookup p.pair = some file ∧
    file.fileSystemFileName = p.destination config ∧
    file.fileSize = p.content.length % UInt64.size
  only : ∀ k, (c.files.lookup k).isSome = true → ∃ p ∈ parts, p.pair = k
  disk : ∀ dest, c.disk dest = (lastWriter config dest parts).elim (initial dest) fun p =>
    if p.opened then some p.content else none
  tracked : c.Tracked

variable {parts : List UploadPart}

theorem Stored.append {config : UploadConfig} {initial : Disk Str Char} {c d : UploadConn}
    (stored : Stored config initial parts c) {p : UploadPart} (fresh : ∀ q ∈ parts, q.pair ≠ p.pair)
    (writing : Writing c p.pair (p.destination config) p.opened p.content d) :
    Stored config initial (parts ++ [p]) d := by
  refine ⟨?_, fun k seen => ?_, fun dest => ?_, writing.tracked⟩
  · intro q listed
    rcases List.mem_append.mp listed with earlier | here
    · rw [writing.others q.pair (fresh q earlier)]
      exact stored.named q earlier
    · cases List.mem_singleton.mp here
      exact writing.named
  · rcases eq_or_ne k p.pair with rfl | other
    · exact ⟨p, by simp, rfl⟩
    · rw [writing.others k other] at seen
      obtain ⟨q, listed, same⟩ := stored.only k seen
      exact ⟨q, List.mem_append_left _ listed, same⟩
  · rw [writing.disk, lastWriter, List.filter_append]
    by_cases same : p.destination config = dest
    · simp [same, holding_self]
    · rw [holding_other _ _ (Ne.symm same), stored.disk]
      simp [same, lastWriter]

theorem stored_parts {config : UploadConfig} {src : ArgSource} {limit : Nat}
    (disk : config.fileUploadTarget ≠ .memoryOnly)
    (plain : config.generateRandomFilenameOnUpload = false) (initial : Disk Str Char)
    (safe : ∀ p ∈ parts, sanitizeUploadFilename p.filename ≠ [])
    (distinct : parts.Pairwise fun p q => p.pair ≠ q.pair)
    (accepted : AllAccepted config src limit { disk := initial } (parts.flatMap UploadPart.calls)) :
    Stored config initial parts
      ((parts.flatMap UploadPart.calls).foldl (deliver config src limit) { disk := initial }) := by
  induction parts using List.reverseRecOn with
  | nil =>
    exact ⟨by simp, fun k seen => (by cases seen), fun dest => rfl, fun strm held => (by cases held)⟩
  | append_singleton parts p ih =>
    obtain ⟨before, here⟩ := List.forall_mem_append.mp safe
    obtain ⟨apart, -, fresh⟩ := List.pairwise_append.mp distinct
    rw [List.flatMap_append, List.flatMap_singleton] at accepted ⊢
    obtain ⟨first, rest⟩ := Run.within_append.mp accepted
    have stored := ih before apart first
    have new : ∀ q ∈ parts, q.pair ≠ p.pair := fun q listed => fresh q listed p (by simp)
    have unseen : (List.foldl (deliver config src limit) { disk := initial }
        (parts.flatMap UploadPart.calls)).files.lookup p.pair = none := by
      refine Option.not_isSome_iff_eq_none.mp fun seen => ?_
      obtain ⟨q, listed, same⟩ := stored.only p.pair seen
      exact new q listed same
    rw [List.foldl_append]
    exact stored.append new (writing_part disk plain (here p (by simp)) stored.tracked unseen rest)

theorem exists_lastWriter (config : UploadConfig) {p : UploadPart} (listed : p ∈ parts) :
    ∃ q, lastWriter config (p.destination config) parts = some q := by
  refine Option.isSome_iff_exists.mp (List.getLast?_isSome.mpr ?_)
  exact List.ne_nil_of_mem (List.mem_filter.mpr ⟨listed, by simp⟩)

end UploadConn

/-- The files hold what was sent exactly if no part is followed by another one with
    the same destination and other bytes, and every file could be opened. -/
theorem uploaded_files_keep_bytes_iff (config : UploadConfig) (src : ArgSource) (limit : Nat)
    (disk : config.fileUploadTarget ≠ .memoryOnly)
    (plain : config.generateRandomFilenameOnUpload = false) (initial : Disk Str Char)
    (parts : List UploadPart) (safe : ∀ p ∈ parts, sanitizeUploadFilename p.filename ≠ [])
    (distinct : parts.Pairwise fun p q => p.pair ≠ q.pair)
    (accepted : UploadConn.AllAccepted config src limit { disk := initial }
      (parts.flatMap UploadPart.calls)) :
    KeepsBytes parts ((parts.flatMap UploadPart.calls).foldl
        (UploadConn.deliver config src limit) { disk := initial }) ↔
      ∀ p ∈ parts, p.content.length < UInt64.size ∧
        ∀ q, lastWriter config (p.destination config) parts = some q →
          q.content = p.content ∧ q.opened = true := by
  have stored := UploadConn.stored_parts disk plain initial safe distinct accepted
  refine ⟨fun keeps p listed => ?_, fun fits => ⟨fun p listed => ?_, stored.only⟩⟩
  · obtain ⟨file, found, name, size⟩ := stored.named p listed
    obtain ⟨file', found', bytes, length⟩ := keeps.kept p listed
    cases found.symm.trans found'
    refine ⟨?_, fun q last => ?_⟩
    · rw [← length, size]
      exact Nat.mod_lt _ (by decide)
    · rw [name, stored.disk, last, Option.elim_some] at bytes
      split at bytes
      · rename_i opened
        exact ⟨Option.some_inj.mp bytes, opened⟩
      · cases bytes
  · obtain ⟨file, found, name, size⟩ := stored.named p listed
    obtain ⟨short, same⟩ := fits p listed
    obtain ⟨q, last⟩ := UploadConn.exists_lastWriter config listed
    obtain ⟨bytes, opened⟩ := same q last
    refine ⟨file, found, ?_, by rw [size, Nat.mod_eq_of_lt short]⟩
    rw [name, stored.disk, last, Option.elim_some, if_pos opened, bytes]

theorem two_names_keep_bytes :
    let first : UploadPart := ⟨['a'], ['d', '/', 'x'], [⟨['a'], ['d', '/', 'x'], ['1'], none, none,
      none, true, true, true⟩, ⟨['a'], ['d', '/', 'x'], ['2'], none, none, none, true, true, false⟩],
      by decide, by decide⟩
    let second := UploadPart.ofCall ⟨['b'], ['y'], ['3'], none, none, none, true, true, true⟩
    KeepsBytes [first, second] (([first, second].flatMap UploadPart.calls).foldl
      (UploadConn.deliver ⟨.diskOnly, ['/', 't'], false⟩ ⟨[], none, 0, 0⟩ 100)
      { disk := fun _ => none }) := by
  intro first second
  refine (uploaded_files_keep_bytes_iff ⟨.diskOnly, ['/', 't'], false⟩ ⟨[], none, 0, 0⟩ 100
    (by decide) rfl (fun _ => none) [first, second] (by decide) (by decide) (by decide)).mpr ?_
  intro p listed
  rcases List.mem_pair.mp listed with rfl | rfl
  · refine ⟨by decide, fun q last => ?_⟩
    cases last
    exact ⟨rfl, rfl⟩
  · refine ⟨by decide, fun q last => ?_⟩
    cases last
    exact ⟨rfl, rfl⟩

/-- The client names `d/x` and `x` of two fields: both files are `/t/x`, and the
    first one's bytes are gone. -/
theorem same_basename_loses_bytes :
    let first := UploadPart.ofCall ⟨['a'], ['d', '/', 'x'], ['1'], none, none, none, true, true, true⟩
    let second := UploadPart.ofCall ⟨['b'], ['x'], ['2'], none, none, none, true, true, true⟩
    let calls := [first, second].flatMap UploadPart.calls
    let c := calls.foldl (UploadConn.deliver ⟨.diskOnly, ['/', 't'], false⟩ ⟨[], none, 0, 0⟩ 100)
      { disk := fun _ => none }
    UploadConn.AllAccepted ⟨.diskOnly, ['/', 't'], false⟩ ⟨[], none, 0, 0⟩ 100
        { disk := fun _ => none } calls ∧
      (c.files.lookup first.pair).map FileInfo.fileSystemFileName = some ['/', 't', '/', 'x'] ∧
      first.content = ['1'] ∧ c.disk ['/', 't', '/', 'x'] = some ['2'] := by
  decide

end HttpServer
