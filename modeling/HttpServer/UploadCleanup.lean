import HttpServer.UploadFiles

/-!
What an upload leaves on the disk. `~http_request` removes the files that the
request has recorded and the cleanup callback does not keep. The post iterator
records a file before it touches it, also when a call fails half way.
-/
namespace HttpServer
open FileStore

/-- A callback that throws does not keep the file. -/
def shouldDelete (fileCleanupCallback : Option (Str → Str → FileInfo → Except Exc Bool))
    (entry : (Str × Str) × FileInfo) : Bool :=
  match fileCleanupCallback with
  | none => true
  | some ask => (ask entry.1.1 entry.1.2 entry.2).toOption.getD true

namespace UploadConn
section
variable (deletes : (Str × Str) × FileInfo → Bool)

def destroyRequest (c : UploadConn) : Disk Str Char :=
  c.files.foldl (fun disk entry =>
    if deletes entry then unlink disk entry.2.fileSystemFileName else disk) c.disk

theorem destroyRequest_cases (c : UploadConn) (path : Str) :
    c.destroyRequest deletes path = none ∨ c.destroyRequest deletes path = c.disk path ∧
      ∀ entry ∈ c.files, entry.2.fileSystemFileName = path → deletes entry = false := by
  unfold destroyRequest
  generalize c.disk = disk
  induction c.files generalizing disk with
  | nil => exact Or.inr ⟨rfl, List.forall_mem_nil _⟩
  | cons entry files ih =>
    rw [List.foldl_cons]
    by_cases deleted : deletes entry = true
    · rw [if_pos deleted]
      rcases ih (unlink disk entry.2.fileSystemFileName) with gone | ⟨same, spared⟩
      · exact Or.inl gone
      · rcases unlink_cases disk entry.2.fileSystemFileName path with ⟨-, gone⟩ | ⟨apart, kept⟩
        · exact Or.inl (same.trans gone)
        · refine Or.inr ⟨same.trans kept, List.forall_mem_cons.mpr ⟨fun here => ?_, spared⟩⟩
          exact absurd here.symm apart
    · rw [if_neg deleted]
      refine (ih disk).imp_right fun ⟨same, spared⟩ => ⟨same, ?_⟩
      exact List.forall_mem_cons.mpr ⟨fun _ => Bool.eq_false_iff.mpr deleted, spared⟩

end

def Recorded (c : UploadConn) (path : Str) : Prop :=
  path = [] ∨ ∃ pair file, c.files.lookup pair = some file ∧ file.fileSystemFileName = path

def openFile (c : UploadConn) : Option Str := c.uploadOstrm.bind OutStream.file

/-- A file that is not as it was is gone or on record, and so is the open one. -/
structure Owns (start : Disk Str Char) (c : UploadConn) : Prop where
  disk : ∀ path, c.disk path = start path ∨ c.disk path = none ∨ c.Recorded path
  stream : ∀ path, c.openFile = some path → c.Recorded path

structure Touches (c d : UploadConn) (name : Str) : Prop where
  files : d.files = c.files
  disk : ∀ path, d.disk path = c.disk path ∨ path = name ∨ c.openFile = some path
  stream : ∀ path, d.openFile = some path → path = name ∨ c.openFile = some path

section
variable {start : Disk Str Char} {c d : UploadConn} {file : FileInfo} {src : ArgSource}
  {limit : Nat} {journal : List FsCall} (config : UploadConfig) (call : FileCall)

theorem touches_manage (name : Str) :
    Touches c (c.manageUploadStream call name) name := by
  rw [manageUploadStream_eq]
  by_cases stays : (!c.switches call && c.uploadOstrm.any OutStream.isOpen) = true
  · rw [if_pos stays]
    exact ⟨rfl, fun _ => Or.inl rfl, fun _ => Or.inr⟩
  · rw [if_neg stays]
    cases call.opens with
    | false => exact ⟨rfl, fun _ => Or.inl rfl, fun _ opened => by cases opened⟩
    | true =>
      refine ⟨rfl, fun path => ?_, fun path opened => ?_⟩
      · by_cases here : path = name
        · exact Or.inr (Or.inl here)
        · exact Or.inl (Function.update_of_ne here ..)
      · cases opened
        exact Or.inl rfl

theorem Touches.spoil {name : Str} (touches : Touches c d name) {strm : OutStream}
    (held : d.uploadOstrm = some strm) :
    Touches c { d with uploadOstrm := some { strm with good := false } } name := by
  refine ⟨touches.files, touches.disk, fun path opened => touches.stream path ?_⟩
  rw [openFile, held]
  exact opened

theorem Touches.write {name : Str} (touches : Touches c d name) :
    Touches c (d.writeStream call) name := by
  unfold writeStream
  split
  · exact touches
  · rename_i strm held
    split
    · rename_i own file
      split
      · refine ⟨touches.files, fun path => ?_, touches.stream⟩
        by_cases here : path = own
        · have opened : d.openFile = some path := by
            rw [openFile, held, here, ← file]
            rfl
          exact Or.inr (touches.stream path opened)
        · have same : FileStore.write d.disk own call.data path = d.disk path :=
            Function.update_of_ne here ..
          exact (touches.disk path).imp_left same.trans
      · exact touches.spoil held
    · exact touches.spoil held

theorem Recorded.put {path : Str} (before : c.Recorded path) {disk : Disk Str Char}
    (kept : (c.getOrCreateFileInfo call).fileSystemFileName ∈ [[], file.fileSystemFileName]) :
    ({ c with disk := disk, journal := journal }.putFileInfo call file).Recorded path := by
  have found := fun pair => Assoc.lookup_put c.files call.pair pair file
  rcases before with empty | ⟨pair, old, there, rfl⟩
  · exact Or.inl empty
  · by_cases own : pair = call.pair
    · have same : c.getOrCreateFileInfo call = old := by
        rw [getOrCreateFileInfo, ← own, there, Option.getD_some]
      rw [same] at kept
      rcases List.mem_cons.mp kept with empty | named
      · exact Or.inl empty
      · exact Or.inr ⟨pair, file, (found pair).trans (if_pos own), (List.mem_singleton.mp named).symm⟩
    · exact Or.inr ⟨pair, old, (found pair).trans ((if_neg own).trans there), rfl⟩

theorem Owns.put (owns : c.Owns start) {disk : Disk Str Char}
    (unlinked : ∀ path, disk path = c.disk path ∨ disk path = none)
    (kept : (c.getOrCreateFileInfo call).fileSystemFileName ∈ [[], file.fileSystemFileName]) :
    ({ c with disk := disk, journal := journal }.putFileInfo call file).Owns start := by
  refine ⟨fun path => ?_, fun path opened => (owns.stream path opened).put call kept⟩
  rcases unlinked path with same | gone
  · rcases owns.disk path with untouched | gone | recorded
    · exact Or.inl (same.trans untouched)
    · exact Or.inr (Or.inl (same.trans gone))
    · exact Or.inr (Or.inr (recorded.put call kept))
  · exact Or.inr (Or.inl gone)

theorem Owns.touched {name : Str} (owns : c.Owns start) (listed : c.Recorded name)
    (touches : Touches c d name) : d.Owns start := by
  have recorded {path : Str} (before : path = name ∨ c.openFile = some path) : d.Recorded path := by
    rw [Recorded, touches.files]
    rcases before with rfl | opened
    · exact listed
    · exact owns.stream path opened
  refine ⟨fun path => ?_, fun path opened => recorded (touches.stream path opened)⟩
  rcases touches.disk path with same | touched
  · rw [same, Recorded, touches.files]
    exact owns.disk path
  · exact Or.inr (Or.inr (recorded touched))

theorem Owns.stored (owns : c.Owns start) (listed : c.files.lookup call.pair = some file) :
    (c.storeChunk call file).2.Owns start := by
  have recorded : c.Recorded file.fileSystemFileName := Or.inr ⟨_, file, listed, rfl⟩
  have managed := touches_manage (c := c) call file.fileSystemFileName
  have grown {d : UploadConn} (touches : Touches c d file.fileSystemFileName) :
      (d.putFileInfo call (file.growFileSize call.data.length)).Owns start := by
    refine (owns.touched recorded touches).put call (fun _ => Or.inl rfl) ?_
    simp [getOrCreateFileInfo, touches.files, listed, FileInfo.growFileSize]
  unfold UploadConn.storeChunk
  dsimp only
  by_cases some : call.data.length > 0
  · rw [if_pos some]
    split
    · exact owns.touched recorded (managed.write call)
    · exact grown (managed.write call)
  · rw [if_neg some, if_neg fun both => some both.1]
    exact grown managed

theorem setup_unlinks {named : FileInfo} {disk left : Disk Str Char} {made : List FsCall}
    (done : setupNewUploadFileInfo config call file disk = .ok (some (named, left, made)))
    (path : Str) : left path = disk path ∨ left path = none := by
  have unlinked (name : Str) : unlink disk name path = disk path ∨ unlink disk name path = none := by
    rcases unlink_cases disk name path with ⟨-, gone⟩ | ⟨-, same⟩
    · exact Or.inr gone
    · exact Or.inl same
  unfold setupNewUploadFileInfo at done
  dsimp only at done
  by_cases random : config.generateRandomFilenameOnUpload = true
  · rw [if_pos random] at done
    cases generated : call.generated with
    | none =>
      rw [generated] at done
      cases done
    | some name =>
      rw [generated] at done
      cases done
      rw [unlink_openAppend]
      exact unlinked name
  · rw [if_neg random] at done
    split at done
    · cases done
    · cases done
      exact unlinked _

theorem Owns.process (owns : c.Owns start) :
    (c.processFileUpload config call).2.Owns start := by
  have listed : (c.putFileInfo call (c.getOrCreateFileInfo call)).Owns start :=
    owns.put call (fun _ => Or.inl rfl) (List.mem_cons_of_mem _ (List.mem_singleton_self _))
  unfold processFileUpload
  dsimp only
  split
  · rename_i unnamed
    split
    · exact listed
    · exact listed
    · rename_i done
      refine Owns.stored call (listed.put call (setup_unlinks config call done) ?_)
        (by simp [putFileInfo, Assoc.lookup_put])
      simp [getOrCreateFileInfo, putFileInfo, Assoc.lookup_put] at unnamed ⊢
      exact Or.inl unnamed
  · exact listed.stored call (by simp [putFileInfo, Assoc.lookup_put])

theorem Owns.deliver (owns : c.Owns start) : (c.deliver config src limit call).Owns start := by
  have ready : (c.iterateArgs config src limit call).Owns start := ⟨owns.disk, owns.stream⟩
  have iterated : (c.iterateFile config src limit call).2.Owns start := by
    rcases iterateFile_cases (c := c) call with same | same
    · exact same ▸ ready
    · exact same ▸ ready.process config call
  have closed (d : UploadConn) : d.closeStream.openFile = none := by
    rw [openFile, closeStream, Option.bind_map]
    exact Option.bind_eq_none_iff.mpr fun _ _ => rfl
  unfold UploadConn.deliver
  dsimp only
  split
  · exact ⟨iterated.disk, by simp [closed]⟩
  · exact iterated

end
end UploadConn

/-- Whatever the calls of the post iterator are and wherever they fail, a file is
    as it was before the request, or gone, or one that the callback has kept. -/
theorem upload_leaves_kept_files (config : UploadConfig) (src : ArgSource) (limit : Nat)
    (callback : Option (Str → Str → FileInfo → Except Exc Bool)) (args : RequestArgs)
    (start : Disk Str Char) (calls : List FileCall) (dir name : Str) :
    let c := calls.foldl (UploadConn.deliver config src limit) { args := args, disk := start }
    let path := dir ++ '/' :: name
    let left := c.destroyRequest (shouldDelete callback) path
    left = start path ∨ left = none ∨ ∃ entry ∈ c.files,
      entry.2.fileSystemFileName = path ∧ shouldDelete callback entry = false := by
  intro c path left
  have owns : c.Owns start := List.foldlRecOn calls _
    ⟨fun _ => Or.inl rfl, by simp [UploadConn.openFile]⟩
    fun _ owned call _ => owned.deliver config call
  rcases c.destroyRequest_cases (shouldDelete callback) path with gone | ⟨same, spared⟩
  · exact Or.inr (Or.inl gone)
  · rw [show left = c.disk path from same]
    refine (owns.disk path).imp_right (Or.imp_right fun recorded => ?_)
    obtain ⟨pair, file, found, same⟩ := recorded.resolve_left (by simp [path])
    have listed := Assoc.mem_of_lookup found
    exact ⟨_, listed, same, spared _ listed same⟩

end HttpServer
