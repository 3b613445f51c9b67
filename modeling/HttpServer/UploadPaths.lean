import HttpServer.UploadFiles

/-!
The paths of uploaded files. A client names a file, and what is left of the name
is its last component, so the pipeline stays inside the upload directory: every
path in its journal lies there, and a file outside keeps its content.
-/
namespace HttpServer
open FileStore

structure SafeName (n : Str) : Prop where
  nonempty : n ≠ []
  noSlash : '/' ∉ n
  noBackslash : '\\' ∉ n
  noNul : '\x00' ∉ n
  notDot : n ≠ ['.']
  notDotDot : n ≠ ['.', '.']

theorem safeName_of_sanitize {filename : Str} (kept : sanitizeUploadFilename filename ≠ []) :
    SafeName (sanitizeUploadFilename filename) := by
  unfold sanitizeUploadFilename at kept ⊢
  split at kept
  · exact absurd rfl kept
  · rename_i named
    split at kept
    · exact absurd rfl kept
    · rename_i noNul
      rw [if_neg named, if_neg noNul]
      dsimp only at kept ⊢
      split at kept
      · exact absurd rfl kept
      · rename_i proper
        rw [if_neg proper]
        rw [not_or, not_or] at proper
        have component {c : Char} (listed : c ∈ filename.rtakeWhile fun c => c ≠ '/' ∧ c ≠ '\\') :
            c ≠ '/' ∧ c ≠ '\\' := by
          simpa using List.mem_rtakeWhile_imp listed
        exact
          { nonempty := proper.1
            noSlash := fun listed => (component listed).1 rfl
            noBackslash := fun listed => (component listed).2 rfl
            noNul := fun listed => noNul ((List.rtakeWhile_suffix _ _).mem listed)
            notDot := proper.2.1
            notDotDot := proper.2.2 }

theorem SafeName.sanitize {n : Str} (safe : SafeName n) : sanitizeUploadFilename n = n := by
  have whole : n.rtakeWhile (fun c => c ≠ '/' ∧ c ≠ '\\') = n := by
    rw [List.rtakeWhile_eq_self_iff]
    intro c listed
    refine decide_eq_true ⟨?_, ?_⟩
    · rintro rfl
      exact safe.noSlash listed
    · rintro rfl
      exact safe.noBackslash listed
  unfold sanitizeUploadFilename
  rw [if_neg safe.nonempty, if_neg safe.noNul, whole]
  dsimp only
  rw [if_neg]
  rintro (empty | dot | dotDot)
  · exact safe.nonempty empty
  · exact safe.notDot dot
  · exact safe.notDotDot dotDot

theorem sanitizeUploadFilename_idempotent (filename : Str) :
    sanitizeUploadFilename (sanitizeUploadFilename filename) = sanitizeUploadFilename filename := by
  by_cases kept : sanitizeUploadFilename filename = []
  · rw [kept]
    rfl
  · exact (safeName_of_sanitize kept).sanitize

namespace UploadConn

def fsCalls (config : UploadConfig) (src : ArgSource) (limit : Nat) (c : UploadConn)
    (calls : List FileCall) : List FsCall := (calls.foldl (deliver config src limit) c).journal

def InUploadDir (config : UploadConfig) (path : Str) : Prop :=
  ∃ n, SafeName n ∧ path = config.fileUploadDir ++ '/' :: n

structure Confined (config : UploadConfig) (c : UploadConn) : Prop where
  files : ∀ pair file, c.files.lookup pair = some file →
    file.fileSystemFileName = [] ∨ InUploadDir config file.fileSystemFileName
  stream : ∀ strm name, c.uploadOstrm = some strm → strm.file = some name → InUploadDir config name
  journal : ∀ fs ∈ c.journal, InUploadDir config fs.path

def OutsideKept (config : UploadConfig) (before after : Disk Str Char) : Prop :=
  ∀ path, ¬InUploadDir config path → after path = before path

theorem OutsideKept.update {config : UploadConfig} {before after : Disk Str Char}
    (kept : OutsideKept config before after) {name : Str} (inside : InUploadDir config name)
    (content : Option Str) : OutsideKept config before (Function.update after name content) := by
  intro path outside
  rw [Function.update_of_ne]
  · exact kept path outside
  · rintro rfl
    exact outside inside

namespace Confined
variable {config : UploadConfig} {c : UploadConn}

theorem putFileInfo (confined : c.Confined config) (call : FileCall) {file : FileInfo}
    (inside : file.fileSystemFileName = [] ∨ InUploadDir config file.fileSystemFileName) :
    (c.putFileInfo call file).Confined config where
  files pair other found := by
    rw [UploadConn.putFileInfo, Assoc.lookup_put] at found
    split at found
    · cases found
      exact inside
    · exact confined.files pair other found
  stream := confined.stream
  journal := confined.journal

theorem getOrCreate (confined : c.Confined config) (call : FileCall) :
    (c.getOrCreateFileInfo call).fileSystemFileName = [] ∨
      InUploadDir config (c.getOrCreateFileInfo call).fileSystemFileName := by
  unfold getOrCreateFileInfo
  cases found : c.files.lookup call.pair with
  | none => exact Or.inl rfl
  | some file => exact confined.files _ file found

theorem closeStream (confined : c.Confined config) : c.closeStream.Confined config where
  files := confined.files
  stream strm name closed file := by
    obtain ⟨old, -, rfl⟩ := Option.map_eq_some_iff.mp closed
    cases file
  journal := confined.journal

theorem manage (confined : c.Confined config) (call : FileCall) {name : Str}
    (inside : InUploadDir config name) :
    (c.manageUploadStream call name).Confined config ∧
      OutsideKept config c.disk (c.manageUploadStream call name).disk := by
  rw [manageUploadStream_eq]
  split
  · exact ⟨confined, fun _ _ => rfl⟩
  · have opened : ∀ fs ∈ c.journal ++ [.opens name], InUploadDir config fs.path :=
      List.forall_mem_append.mpr ⟨confined.journal, List.forall_mem_singleton.mpr inside⟩
    refine ⟨⟨confined.files, ?_, opened⟩, ?_⟩
    · intro strm opened made file
      cases made
      split at file
      · cases file
        exact inside
      · cases file
    · dsimp only
      split
      · exact OutsideKept.update (fun _ _ => rfl) inside _
      · exact fun _ _ => rfl

theorem spoil (confined : c.Confined config) {strm : OutStream} (held : c.uploadOstrm = some strm) :
    Confined config { c with uploadOstrm := some { strm with good := false } } where
  files := confined.files
  stream strm' name same file := by
    cases same
    exact confined.stream strm name held file
  journal := confined.journal

theorem writeStream (confined : c.Confined config) (call : FileCall) :
    (c.writeStream call).Confined config ∧
      OutsideKept config c.disk (c.writeStream call).disk := by
  unfold UploadConn.writeStream
  split
  · exact ⟨confined, fun _ _ => rfl⟩
  · rename_i strm held
    split
    · rename_i name file
      split
      · refine ⟨⟨confined.files, confined.stream, confined.journal⟩, ?_⟩
        exact OutsideKept.update (fun _ _ => rfl) (confined.stream strm name held file) _
      · exact ⟨confined.spoil held, fun _ _ => rfl⟩
    · exact ⟨confined.spoil held, fun _ _ => rfl⟩

theorem storeChunk (confined : c.Confined config) (call : FileCall) {file : FileInfo}
    (inside : InUploadDir config file.fileSystemFileName) :
    (c.storeChunk call file).2.Confined config ∧
      OutsideKept config c.disk (c.storeChunk call file).2.disk := by
  obtain ⟨managed, opened⟩ := confined.manage call inside
  obtain ⟨written, changed⟩ := managed.writeStream call
  have kept : OutsideKept config c.disk
      ((c.manageUploadStream call file.fileSystemFileName).writeStream call).disk :=
    fun path outside => (changed path outside).trans (opened path outside)
  unfold UploadConn.storeChunk
  dsimp only
  by_cases some : call.data.length > 0
  · rw [if_pos some]
    split
    · exact ⟨written, kept⟩
    · exact ⟨written.putFileInfo call (Or.inr inside), kept⟩
  · rw [if_neg some, if_neg fun both => some both.1]
    exact ⟨managed.putFileInfo call (Or.inr inside), opened⟩

theorem setup (plain : config.generateRandomFilenameOnUpload = false) (call : FileCall)
    (file : FileInfo) (disk : Disk Str Char) :
    setupNewUploadFileInfo config call file disk = .ok none ∨
      ∃ named, setupNewUploadFileInfo config call file disk =
          .ok (some (named, unlink disk named.fileSystemFileName,
            [.unlinks named.fileSystemFileName])) ∧
        InUploadDir config named.fileSystemFileName := by
  rw [setupNewUploadFileInfo, if_neg (by simp [plain])]
  dsimp only
  by_cases kept : sanitizeUploadFilename call.filename = []
  · rw [if_pos kept]
    exact Or.inl rfl
  · rw [if_neg kept]
    exact Or.inr ⟨_, rfl, _, safeName_of_sanitize kept, rfl⟩

theorem process (confined : c.Confined config)
    (plain : config.generateRandomFilenameOnUpload = false) (call : FileCall) :
    (c.processFileUpload config call).2.Confined config ∧
      OutsideKept config c.disk (c.processFileUpload config call).2.disk := by
  have stored := confined.getOrCreate call
  have listed := confined.putFileInfo call stored
  unfold processFileUpload
  dsimp only
  by_cases unnamed : (c.getOrCreateFileInfo call).fileSystemFileName = []
  · rw [if_pos unnamed]
    rcases setup plain call (c.getOrCreateFileInfo call)
      (c.putFileInfo call (c.getOrCreateFileInfo call)).disk with refused | ⟨file, done, inside⟩
    · rw [refused]
      exact ⟨listed, fun _ _ => rfl⟩
    · rw [done]
      have unlinked : Confined config { c.putFileInfo call (c.getOrCreateFileInfo call) with
          disk := unlink c.disk file.fileSystemFileName
          journal := c.journal ++ [.unlinks file.fileSystemFileName] } :=
        ⟨listed.files, listed.stream,
          List.forall_mem_append.mpr ⟨listed.journal, List.forall_mem_singleton.mpr inside⟩⟩
      obtain ⟨chunk, kept⟩ := (unlinked.putFileInfo call (Or.inr inside)).storeChunk call inside
      exact ⟨chunk, fun path outside => (kept path outside).trans
        (OutsideKept.update (fun _ _ => rfl) inside none path outside)⟩
  · rw [if_neg unnamed]
    exact listed.storeChunk call (stored.resolve_left unnamed)

theorem iterate (confined : c.Confined config)
    (plain : config.generateRandomFilenameOnUpload = false) (src : ArgSource) (limit : Nat)
    (call : FileCall) :
    (c.iterateFile config src limit call).2.Confined config ∧
      OutsideKept config c.disk (c.iterateFile config src limit call).2.disk := by
  have ready : (c.iterateArgs config src limit call).Confined config :=
    ⟨confined.files, confined.stream, confined.journal⟩
  rcases iterateFile_cases (c := c) call with same | same
  · rw [same]
    exact ⟨ready, fun _ _ => rfl⟩
  · rw [same]
    exact ready.process plain call

theorem deliver (confined : c.Confined config)
    (plain : config.generateRandomFilenameOnUpload = false) (src : ArgSource) (limit : Nat)
    (call : FileCall) :
    (c.deliver config src limit call).Confined config ∧
      OutsideKept config c.disk (c.deliver config src limit call).disk := by
  obtain ⟨after, kept⟩ := confined.iterate plain src limit call
  unfold UploadConn.deliver
  dsimp only
  split
  · exact ⟨after.closeStream, kept⟩
  · exact ⟨after, kept⟩

theorem run (confined : c.Confined config)
    (plain : config.generateRandomFilenameOnUpload = false) (src : ArgSource) (limit : Nat)
    (calls : List FileCall) :
    (calls.foldl (UploadConn.deliver config src limit) c).Confined config ∧
      OutsideKept config c.disk (calls.foldl (UploadConn.deliver config src limit) c).disk := by
  induction calls generalizing c with
  | nil => exact ⟨confined, fun _ _ => rfl⟩
  | cons call rest ih =>
    obtain ⟨next, kept⟩ := confined.deliver plain src limit call
    obtain ⟨last, later⟩ := ih next
    exact ⟨last, fun path outside => (later path outside).trans (kept path outside)⟩

end Confined
end UploadConn

/-- Whatever a client calls its files, the pipeline works on files of the upload
    directory, and sanitizing a name twice is sanitizing it once. -/
theorem uploads_stay_in_directory {config : UploadConfig}
    (plain : config.generateRandomFilenameOnUpload = false) (src : ArgSource) (limit : Nat)
    (args : RequestArgs) (disk : Disk Str Char) (calls : List FileCall) :
    (∀ fs ∈ UploadConn.fsCalls config src limit { args := args, disk := disk } calls,
        ∃ n, fs.path = config.fileUploadDir ++ '/' :: n ∧ n ≠ [] ∧ '/' ∉ n ∧ '\\' ∉ n ∧
          '\x00' ∉ n ∧ n ≠ ['.'] ∧ n ≠ ['.', '.']) ∧
      (∀ path, (∀ n, SafeName n → path ≠ config.fileUploadDir ++ '/' :: n) →
        (calls.foldl (UploadConn.deliver config src limit)
          { args := args, disk := disk }).disk path = disk path) ∧
      ∀ filename, sanitizeUploadFilename (sanitizeUploadFilename filename) =
        sanitizeUploadFilename filename := by
  have fresh : UploadConn.Confined config { args := args, disk := disk } :=
    ⟨nofun, nofun, List.forall_mem_nil _⟩
  obtain ⟨last, kept⟩ := fresh.run plain src limit calls
  refine ⟨?_, ?_, sanitizeUploadFilename_idempotent⟩
  · intro fs listed
    obtain ⟨n, safe, same⟩ := last.journal fs listed
    exact ⟨n, same, safe.nonempty, safe.noSlash, safe.noBackslash, safe.noNul, safe.notDot,
      safe.notDotDot⟩
  · intro path outside
    apply kept path
    rintro ⟨n, safe, same⟩
    exact outside n safe same

def climbingCalls : List FileCall :=
  [{ key := "f".toList, filename := "../../etc/passwd".toList, data := "a".toList },
    { key := "f".toList, filename := "../../etc/passwd".toList, data := "b".toList },
    { key := "f".toList, filename := "..".toList, data := "c".toList }]

theorem climbing_uploads_stay_in_directory :
    UploadConn.fsCalls ⟨.diskOnly, "/srv/up".toList, false⟩ ⟨[], none, 0, 0⟩ 100
        { disk := fun _ => none } climbingCalls =
      [.unlinks "/srv/up/passwd".toList, .opens "/srv/up/passwd".toList,
        .opens "/srv/up/passwd".toList] ∧
    ∀ fs ∈ UploadConn.fsCalls ⟨.diskOnly, "/srv/up".toList, false⟩ ⟨[], none, 0, 0⟩ 100
        { disk := fun _ => none } climbingCalls,
      ∃ n, fs.path = "/srv/up".toList ++ '/' :: n ∧ n ≠ [] ∧ '/' ∉ n ∧ '\\' ∉ n ∧
        '\x00' ∉ n ∧ n ≠ ['.'] ∧ n ≠ ['.', '.'] := by
  refine ⟨by decide, ?_⟩
  exact (@uploads_stay_in_directory ⟨.diskOnly, "/srv/up".toList, false⟩ rfl _ _ _ _ _).1

end HttpServer
