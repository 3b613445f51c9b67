import HttpServer.CallbackContainment

/-!
The buffer of `error_log`. A message is formatted into 80 bytes and, when it is
longer, once more into a buffer of its own length. `vsnprintf` needs one byte
for its terminator, which neither buffer has for a message that fills it.
-/
namespace HttpServer

/-- `vsnprintf` into the whole of a buffer: what the buffer then holds, and the
    length of the text. -/
def vsnprintf (buffer formatted : Str) : Str × Nat :=
  if buffer = [] then (buffer, formatted.length)
  else
    let written := formatted.take (buffer.length - 1) ++ ['\x00']
    (written ++ buffer.drop written.length, formatted.length)

def errorLogBuffer (formatted : Str) : Str :=
  let msg := resize [] 80
  let (msg, r) := vsnprintf msg formatted
  let (msg, r) := if msg.length < r then vsnprintf (resize msg r) formatted else (msg, r)
  resize msg r

def errorLogCallback (logError : Option (Str → Except Exc Unit)) (formatted : Str) :
    Except Exc Unit :=
  match logError with
  | some log => log (errorLogBuffer formatted)
  | none => .ok ()

theorem length_resize (s : Str) (n : Nat) : (resize s n).length = n := by
  rw [resize, List.length_append, List.length_take, List.length_replicate]
  omega

theorem vsnprintf_snd (buffer formatted : Str) : (vsnprintf buffer formatted).2 = formatted.length := by
  unfold vsnprintf
  split <;> rfl

theorem length_vsnprintf (buffer formatted : Str) :
    (vsnprintf buffer formatted).1.length = buffer.length := by
  unfold vsnprintf
  split
  · rfl
  · rename_i room
    have positive := List.length_pos_iff.mpr room
    simp only [List.length_append, List.length_drop, List.length_take, List.length_singleton]
    omega

theorem resize_vsnprintf_of_lt {buffer formatted : Str} (room : formatted.length < buffer.length) :
    resize (vsnprintf buffer formatted).1 formatted.length = formatted := by
  have nonempty : buffer ≠ [] := List.ne_nil_of_length_pos (by omega)
  have whole : formatted.take (buffer.length - 1) = formatted := List.take_of_length_le (by omega)
  have inside : formatted.length ≤ (vsnprintf buffer formatted).1.length := by
    rw [length_vsnprintf]
    omega
  rw [resize_shorter inside, vsnprintf, if_neg nonempty, whole]
  dsimp only
  rw [List.append_assoc, List.take_left]

theorem vsnprintf_of_eq {buffer formatted : Str} (full : formatted.length = buffer.length)
    (nonempty : buffer ≠ []) : (vsnprintf buffer formatted).1 = formatted.dropLast ++ ['\x00'] := by
  have positive := List.length_pos_iff.mpr nonempty
  rw [vsnprintf, if_neg nonempty, List.dropLast_eq_take, full]
  have filled : buffer.length ≤ (formatted.take (buffer.length - 1) ++ ['\x00']).length := by
    rw [List.length_append, List.length_take, List.length_singleton]
    omega
  dsimp only
  rw [List.drop_eq_nil_of_le filled, List.append_nil]

theorem resize_self {s : Str} {n : Nat} (long : s.length = n) : resize s n = s := by
  rw [resize_shorter long.ge, List.take_of_length_le long.le]

theorem errorLogBuffer_eq (formatted : Str) :
    errorLogBuffer formatted = errorLogMessage formatted := by
  have start : (resize [] 80).length = 80 := length_resize [] 80
  have nonempty : resize [] 80 ≠ [] := List.ne_nil_of_length_pos (by omega)
  unfold errorLogBuffer errorLogMessage
  simp only [vsnprintf_snd, length_vsnprintf, start]
  by_cases long : 80 < formatted.length
  · have grown := length_resize (vsnprintf (resize [] 80) formatted).1 formatted.length
    have room := List.ne_nil_of_length_pos (grown.symm ▸ (Nat.zero_lt_of_lt long))
    rw [if_pos long, if_neg (by omega), vsnprintf_snd, resize_self]
    · exact vsnprintf_of_eq grown.symm room
    · rw [length_vsnprintf, grown]
  · rw [if_neg long]
    by_cases short : formatted.length < 80
    · rw [if_pos short]
      exact resize_vsnprintf_of_lt (by omega)
    · have full : formatted.length = 80 := by omega
      rw [if_neg short, resize_self (by rw [length_vsnprintf, start, full])]
      exact vsnprintf_of_eq (by omega) nonempty

theorem errorLogCallback_eq (logError : Option (Str → Except Exc Unit)) (formatted : Str) :
    errorLogCallback logError formatted = errorLog logError formatted := by
  cases logError with
  | none => rfl
  | some log => exact congrArg log (errorLogBuffer_eq formatted)

def LogsWhole (formatted : Str) : Prop :=
  ∀ log, errorLogCallback (some log) formatted = log formatted

theorem logsWhole_iff (formatted : Str) :
    LogsWhole formatted ↔ errorLogMessage formatted = formatted := by
  constructor
  · intro whole
    have seen := whole fun text => if text = formatted then .ok () else .error .other
    rw [errorLogCallback_eq, errorLog, if_pos rfl] at seen
    by_contra changed
    rw [if_neg changed] at seen
    cases seen
  · intro same log
    rw [errorLogCallback_eq, errorLog, same]

/-- A message of 80 bytes or more ends in the terminator instead of its last byte. -/
theorem log_message_whole_iff {formatted : Str} (text : '\x00' ∉ formatted) :
    LogsWhole formatted ↔ formatted.length < 80 := by
  rw [logsWhole_iff, errorLogMessage]
  constructor
  · intro same
    by_contra long
    rw [if_neg long] at same
    apply text
    rw [← same]
    exact List.mem_append_right _ List.mem_cons_self
  · intro short
    rw [if_pos short]

theorem short_message_is_whole : LogsWhole "Failed to bind to port 80".toList :=
  (log_message_whole_iff (by decide)).mpr (by decide)

theorem eighty_byte_message_loses_its_last_byte :
    errorLogBuffer (List.replicate 80 'x') = List.replicate 79 'x' ++ ['\x00'] ∧
      errorLogBuffer (List.replicate 100 'x') = List.replicate 99 'x' ++ ['\x00'] ∧
      ¬LogsWhole (List.replicate 80 'x') ∧ ¬LogsWhole (List.replicate 100 'x') := by
  refine ⟨by decide +kernel, by decide +kernel, ?_, ?_⟩
  · rw [logsWhole_iff]
    decide +kernel
  · rw [logsWhole_iff]
    decide +kernel

end HttpServer
