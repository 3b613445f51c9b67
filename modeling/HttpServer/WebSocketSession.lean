import HttpServer.Lib.Effect
import HttpServer.HttpResponse

/-!
A WebSocket session from the upgrade to its end: the calls of
`websocket_session`, the dispatch of decoded frames and the two decode loops of
`upgrade_handler`. A session becomes invalid when it is closed or when something
cannot be sent, and from then on nothing is encoded and no callback is started,
apart from the close frame of the call that closed it.
-/
namespace HttpServer
open Effect

inductive WsFrame where
  | text (msg : Str)
  | binary (data : Str)
  | ping (payload : Str)
  | pong (payload : Str)
  | close (code : Nat) (reason : Str)
  deriving DecidableEq, Repr

inductive WsCallback where
  | onOpen
  | onMessage (msg : Str)
  | onBinary (data : Str)
  | onPing (payload : Str)
  | onClose (code : Nat) (reason : Str)
  deriving DecidableEq, Repr

/-- What happens in a session. `invalidated` is an assignment of false to
    `valid`; frames of the decoder are numbered by its calls. -/
inductive WsEvent where
  | callback (cb : WsCallback)
  | encode (frame : WsFrame)
  | invalidated
  | decode (frame : Option Nat)
  | free (frame : Nat)
  | streamFree
  | upgradeClose
  deriving DecidableEq, Repr

inductive SessionOp where
  | sendText (msg : Str)
  | sendBinary (data : Str)
  | sendPing (payload : Str)
  | sendPong (payload : Str)
  | close (code : Nat) (reason : Str)
  deriving DecidableEq, Repr

structure CallbackRun where
  ops : List SessionOp := []
  throws : Option Exc := none
  deriving DecidableEq, Repr

/-- The statuses that are told apart; `other` are the errors and all other frames. -/
inductive WsStatus where
  | ok | textFrame | binaryFrame | pingFrame | closeFrame | other
  deriving DecidableEq, Repr

structure Decoded where
  status : WsStatus
  step : Nat
  frame : Option Str := none
  deriving DecidableEq, Repr

/-- Everything a session meets, as a function of what has happened in it: the
    handler, the encoders (the length of the frame), `send` and the decoder.
    `received` are the results of `recv`. -/
structure WsEnv where
  initStream : Bool := true
  extraInSize : Nat := 0
  received : List Int := []
  handler : List WsEvent → CallbackRun := fun _ => {}
  encodes : List WsEvent → Option Nat := fun _ => some 0
  sends : List WsEvent → List Int := fun _ => []
  decodes : List WsEvent → Decoded := fun _ => ⟨.ok, 0, none⟩

structure WsSession where
  valid : Bool := true
  log : List WsEvent := []
  deriving DecidableEq, Repr

abbrev SessionM := EStateM Exc WsSession

namespace WebSocket

/-- `send_all` with the results of its `send` calls; a missing one is an error. -/
def sendAll (len : Nat) : Nat → List Int → Bool
  | sent, [] => len ≤ sent
  | sent, ret :: rets =>
    if sent < len then if ret ≤ 0 then false else sendAll len (sent + ret.toNat) rets
    else true

def note (e : WsEvent) : SessionM Unit := modify fun s => { s with log := s.log ++ [e] }

def invalidate : SessionM Unit :=
  modify fun s => { s with valid := false, log := s.log ++ [.invalidated] }

section
variable (env : WsEnv)

def encodeFrame (frame : WsFrame) : SessionM (Option Nat) := do
  note (.encode frame)
  let s ← get
  pure (env.encodes s.log)

def sendFrame (frameLen : Nat) : SessionM Bool := do
  let s ← get
  pure (sendAll frameLen 0 (env.sends s.log))

/-- The shape of the four `send_*` calls, which differ in what a failed encoder means. -/
def sendWith (frame : WsFrame) (onEncodeFailure : SessionM Unit) : SessionM Unit := do
  let s ← get
  if s.valid then
    let encoded ← encodeFrame env frame
    match encoded with
    | some frameLen => do
      let sent ← sendFrame env frameLen
      if sent then pure () else invalidate
    | none => onEncodeFailure
  else pure ()

def sendText (msg : Str) : SessionM Unit := sendWith env (.text msg) (pure ())

def sendBinary (data : Str) : SessionM Unit := sendWith env (.binary data) (pure ())

def sendPing (payload : Str) : SessionM Unit := sendWith env (.ping payload) invalidate

def sendPong (payload : Str) : SessionM Unit := sendWith env (.pong payload) invalidate

def closeSession (code : Nat) (reason : Str) : SessionM Unit := do
  let s ← get
  if s.valid then
    invalidate
    let encoded ← encodeFrame env (.close code reason)
    match encoded with
    | some frameLen => do
      let _ ← sendFrame env frameLen
      pure ()
    | none => pure ()
  else pure ()

def perform : SessionOp → SessionM Unit
  | .sendText msg => sendText env msg
  | .sendBinary data => sendBinary env data
  | .sendPing payload => sendPing env payload
  | .sendPong payload => sendPong env payload
  | .close code reason => closeSession env code reason

def performAll : List SessionOp → SessionM Unit
  | [] => pure ()
  | op :: ops => do
    perform env op
    performAll ops

def callback (cb : WsCallback) : SessionM Unit := do
  note (.callback cb)
  let s ← get
  let run := env.handler s.log
  performAll env run.ops
  match run.throws with
  | some e => throw e
  | none => pure ()

def handleCloseFrame (frameData : Str) : SessionM Unit := do
  let code := match frameData with
    | hi :: lo :: _ => hi.toNat * 256 + lo.toNat
    | _ => 1000
  let reason := frameData.drop 2
  callback env (.onClose code reason)
  closeSession env code reason

def freeFrame : Option Nat → SessionM Unit
  | some frame => note (.free frame)
  | none => pure ()

def dispatchWebsocketFrame (status : WsStatus) (frame : Option Nat) (frameData : Str) :
    SessionM Unit :=
  match status with
  | .textFrame => do
    callback env (.onMessage frameData)
    freeFrame frame
  | .binaryFrame => do
    callback env (.onBinary frameData)
    freeFrame frame
  | .pingFrame => do
    callback env (.onPing frameData)
    freeFrame frame
  | .closeFrame => do
    handleCloseFrame env frameData
    freeFrame frame
  | .ok => freeFrame frame
  | .other => do
    freeFrame frame
    closeSession env 1002 "Protocol error".toList

def decodeCalls (log : List WsEvent) : Nat :=
  log.countP fun e => match e with
    | .decode _ => true
    | _ => false

def decodeStep : SessionM Nat := do
  let s ← get
  let decoded := env.decodes s.log
  let frame := decoded.frame.map fun _ => decodeCalls s.log
  note (.decode frame)
  dispatchWebsocketFrame env decoded.status frame (decoded.frame.getD [])
  pure decoded.step

end

section
variable {σ ρ : Type}

/-- `decode_websocket_buffer` from an offset, for a decoder that passes its state along
    and dispatches what it decodes. A step that does not end the loop takes at least
    one byte, so the bytes that are left bound the rounds. -/
def decodeRounds (bufLen : Nat) (decode : Nat → σ → SessionM (Nat × σ)) :
    Nat → Nat → σ → SessionM σ
  | 0, _, stream => pure stream
  | rounds + 1, offset, stream => do
    let s ← get
    if offset < bufLen && s.valid then
      let decoded ← decode offset stream
      if decoded.1 = 0 then pure decoded.2
      else decodeRounds bufLen decode rounds (offset + decoded.1) decoded.2
    else pure stream

/-- The `recv` loop of `upgrade_handler`. -/
def receiveRounds (got : ρ → Int) (decode : ρ → σ → SessionM σ) : List ρ → σ → SessionM Unit
  | [], _ => pure ()
  | buf :: rest, stream => do
    let s ← get
    if s.valid then
      if got buf ≤ 0 then pure () else decode buf stream >>= receiveRounds got decode rest
    else pure ()

/-- The body of `upgrade_handler` with the destructor of the session, around the frames
    of the two decode loops. -/
def withStream (env : WsEnv) (frames : SessionM Unit) : SessionM Unit :=
  if env.initStream then do
    callback env .onOpen
    frames
    note .streamFree
    note .upgradeClose
  else note .upgradeClose

theorem decodeRounds_enough {decode : Nat → σ → SessionM (Nat × σ)} {bufLen rounds offset : Nat}
    (enough : bufLen ≤ offset + rounds) (more : Nat) (stream : σ) :
    decodeRounds bufLen decode (rounds + more) offset stream =
      decodeRounds bufLen decode rounds offset stream := by
  induction rounds generalizing offset stream with
  | zero =>
    cases more with
    | zero => rfl
    | succ more =>
      have done : ¬ offset < bufLen := by omega
      rw [Nat.zero_add, decodeRounds, decodeRounds]
      simp only [done, decide_false, Bool.false_and, Bool.false_eq_true, if_false]
      rfl
  | succ rounds ih =>
    rw [Nat.succ_add, decodeRounds, decodeRounds]
    refine bind_congr fun s => ?_
    split
    · refine bind_congr fun decoded => ?_
      split
      · rfl
      · exact ih (by omega) _
    · rfl

end

section
variable (env : WsEnv)

def decodeWebsocketBuffer (bufLen : Nat) (stream : Unit) : SessionM Unit :=
  decodeRounds bufLen (fun _ stream => do
    let step ← decodeStep env
    pure (step, stream)) bufLen 0 stream

def decodeExtra : SessionM Unit :=
  if env.extraInSize > 0 then decodeWebsocketBuffer env env.extraInSize () else pure ()

def receiveLoop (received : List Int) (stream : Unit) : SessionM Unit :=
  receiveRounds id (fun got => decodeWebsocketBuffer env got.toNat) received stream

def upgradeHandler : SessionM Unit :=
  withStream env (decodeExtra env >>= receiveLoop env env.received)

end

section
variable {σ ρ : Type} {I : WsSession → Prop} {E : Exc → WsSession → Prop}

theorem spec_decodeRounds {decode : Nat → σ → SessionM (Nat × σ)}
    (one : ∀ offset stream, Spec (fun s => I s ∧ s.valid = true) (decode offset stream)
      (fun _ => I) E) (bufLen rounds offset : Nat) (stream : σ) :
    Spec I (decodeRounds bufLen decode rounds offset stream) (fun _ => I) E := by
  induction rounds generalizing offset stream with
  | zero => exact spec_pure fun _ holds => holds
  | succ rounds ih =>
    refine spec_get_bind fun s => ?_
    split
    · rename_i continues
      have valid : s.valid = true := (Bool.and_eq_true_iff.mp continues).2
      have first : Spec (fun t => t = s ∧ I t) (decode offset stream) (fun _ => I) E := by
        refine spec_pre (one offset stream) ?_
        rintro t ⟨rfl, holds⟩
        exact ⟨holds, valid⟩
      refine spec_bind first fun decoded => ?_
      split
      · exact spec_pure fun _ holds => holds
      · exact ih (offset + decoded.1) decoded.2
    · exact spec_pure fun _ start => start.2

theorem spec_receiveRounds {got : ρ → Int} {decode : ρ → σ → SessionM σ}
    (decodes : ∀ buf stream, Spec I (decode buf stream) (fun _ => I) E) (received : List ρ)
    (stream : σ) : Spec I (receiveRounds got decode received stream) (fun _ => I) E := by
  induction received generalizing stream with
  | nil => exact spec_pure fun _ holds => holds
  | cons buf rest ih =>
    refine spec_bind (M := fun _ => I) (spec_get fun _ holds => holds) fun s => ?_
    split
    · split
      · exact spec_pure fun _ holds => holds
      · exact spec_bind (decodes buf stream) ih
    · exact spec_pure fun _ holds => holds

theorem spec_frames {env : WsEnv}
    (one : Spec (fun s => I s ∧ s.valid = true) (decodeStep env) (fun _ => I) E) :
    Spec I (decodeExtra env >>= receiveLoop env env.received) (fun _ => I) E := by
  have decodes (bufLen : Nat) (stream : Unit) :
      Spec I (decodeWebsocketBuffer env bufLen stream) (fun _ => I) E :=
    spec_decodeRounds (fun _ _ => spec_bind one fun _ => spec_pure fun _ holds => holds) _ _ _ _
  refine spec_bind (M := fun _ => I) ?_ fun stream =>
    spec_receiveRounds (fun (got : Int) => decodes got.toNat) env.received stream
  unfold decodeExtra
  split
  · exact decodes _ _
  · exact spec_pure fun _ holds => holds

end

def isSilent : WsEvent → Bool
  | .callback _ => false
  | .encode _ => false
  | .invalidated => false
  | _ => true

def encodesClose : WsEvent → Bool
  | .encode (.close _ _) => true
  | _ => false

def startsOnClose : WsEvent → Bool
  | .callback (.onClose _ _) => true
  | _ => false

def Live (log : List WsEvent) : Prop := ∀ e ∈ log, e ≠ .invalidated ∧ encodesClose e = false

/-- The session became invalid once. The close frame of that call may follow, and
    then nothing but silent events. -/
structure Ended (log : List WsEvent) : Prop where
  split : ∃ before closing later, log = before ++ .invalidated :: (closing ++ later) ∧ Live before ∧
    (closing = [] ∨ ∃ code reason, closing = [.encode (.close code reason)]) ∧
    ∀ e ∈ later, isSilent e = true

structure Sound (n : Nat) (s : WsSession) : Prop where
  live : s.valid = true → Live s.log
  ended : s.valid = false → Ended s.log
  onCloses : s.log.countP startsOnClose = n

variable {log : List WsEvent} {s : WsSession} {n : Nat} {e : WsEvent}

theorem Ended.silent (ended : Ended log) (silent : isSilent e = true) : Ended (log ++ [e]) := by
  obtain ⟨before, closing, later, rfl, live, frame, quiet⟩ := ended.split
  refine ⟨before, closing, later ++ [e], by simp, live, frame, ?_⟩
  intro e' listed
  rcases List.mem_append.mp listed with old | new
  · exact quiet e' old
  · rw [List.mem_singleton.mp new, silent]

theorem Live.append (live : Live log) (stays : e ≠ .invalidated) (open_ : encodesClose e = false) :
    Live (log ++ [e]) := by
  intro e' listed
  rcases List.mem_append.mp listed with old | new
  · exact live e' old
  · rw [List.mem_singleton.mp new]
    exact ⟨stays, open_⟩

theorem Sound.silent (sound : Sound n s) (silent : isSilent e = true) :
    Sound n { s with log := s.log ++ [e] } where
  live valid := by
    refine (sound.live valid).append ?_ ?_
    · rintro rfl
      cases silent
    · cases e with
      | encode frame => cases silent
      | _ => rfl
  ended invalid := (sound.ended invalid).silent silent
  onCloses := by
    rw [List.countP_append, sound.onCloses]
    cases e with
    | callback cb => cases silent
    | _ => rfl

theorem Sound.append (sound : Sound n s) (valid : s.valid = true) (stays : e ≠ .invalidated)
    (open_ : encodesClose e = false) :
    Sound (n + [e].countP startsOnClose) { s with log := s.log ++ [e] } where
  live _ := (sound.live valid).append stays open_
  ended invalid := by
    rw [valid] at invalid
    cases invalid
  onCloses := by rw [List.countP_append, sound.onCloses]

theorem Sound.invalidate (sound : Sound n s) (valid : s.valid = true) :
    Sound n { s with valid := false, log := s.log ++ [.invalidated] } where
  live valid := by cases valid
  ended _ := ⟨s.log, [], [], rfl, sound.live valid, Or.inl rfl, by simp⟩
  onCloses := by rw [List.countP_append, sound.onCloses]; rfl

theorem Sound.close (sound : Sound n s) (valid : s.valid = true) (code : Nat) (reason : Str) :
    Sound n { s with
      valid := false, log := (s.log ++ [.invalidated]) ++ [.encode (.close code reason)] } where
  live valid := by cases valid
  ended _ := ⟨s.log, [.encode (.close code reason)], [], by simp, sound.live valid,
    Or.inr ⟨code, reason, rfl⟩, by simp⟩
  onCloses := by rw [List.countP_append, List.countP_append, sound.onCloses]; rfl

section
variable (env : WsEnv) {n : Nat} {E : Exc → WsSession → Prop}

theorem sound_invalidate :
    Spec (fun s => Sound n s ∧ s.valid = true) invalidate (fun _ => Sound n) E :=
  spec_modify fun _ start => start.1.invalidate start.2

theorem sound_sendFrame {I : WsSession → Prop} (frameLen : Nat) :
    Spec I (sendFrame env frameLen) (fun _ => I) E :=
  spec_bind (M := fun _ => I) (spec_get fun _ holds => holds) fun _ => spec_pure fun _ holds => holds

theorem spec_encodeFrame {P I : WsSession → Prop} {frame : WsFrame}
    (step : ∀ s, P s → I { s with log := s.log ++ [.encode frame] }) :
    Spec P (encodeFrame env frame) (fun _ => I) E :=
  spec_bind (M := fun _ => I) (spec_modify step) fun _ =>
    spec_bind (spec_get fun _ holds => holds) fun _ => spec_pure fun _ holds => holds

theorem sound_sendWith {frame : WsFrame} (open_ : encodesClose (.encode frame) = false)
    {onEncodeFailure : SessionM Unit}
    (fails : Spec (fun s => Sound n s ∧ s.valid = true) onEncodeFailure (fun _ => Sound n) E) :
    Spec (Sound n) (sendWith env frame onEncodeFailure) (fun _ => Sound n) E := by
  refine spec_get_bind fun s => ?_
  split
  · rename_i valid
    have encoded : Spec (fun t => t = s ∧ Sound n t) (encodeFrame env frame)
        (fun _ t => Sound n t ∧ t.valid = true) E := by
      refine spec_encodeFrame env ?_
      rintro t ⟨rfl, sound⟩
      exact ⟨sound.append valid (by simp) open_, valid⟩
    refine spec_bind encoded fun result => ?_
    cases result with
    | none => exact fails
    | some frameLen =>
      refine spec_bind (sound_sendFrame env frameLen) fun sent => ?_
      split
      · exact spec_pure fun _ start => start.1
      · exact sound_invalidate
  · exact spec_pure fun _ start => start.2

theorem sound_closeSession (code : Nat) (reason : Str) :
    Spec (Sound n) (closeSession env code reason) (fun _ s => Sound n s ∧ s.valid = false) E := by
  refine spec_get_bind fun s => ?_
  split
  · rename_i valid
    refine spec_bind (M := fun _ t => t = { s with valid := false, log := s.log ++ [.invalidated] } ∧
      Sound n s) (spec_modify ?_) fun _ => ?_
    · rintro t ⟨rfl, sound⟩
      exact ⟨rfl, sound⟩
    have encoded : Spec (fun t => t = { s with valid := false, log := s.log ++ [.invalidated] } ∧
        Sound n s) (encodeFrame env (.close code reason))
        (fun _ t => Sound n t ∧ t.valid = false) E := by
      refine spec_encodeFrame env ?_
      rintro t ⟨rfl, sound⟩
      exact ⟨sound.close valid code reason, rfl⟩
    refine spec_bind encoded fun result => ?_
    cases result with
    | none => exact spec_pure fun _ holds => holds
    | some frameLen =>
      exact spec_bind (sound_sendFrame env frameLen) fun _ => spec_pure fun _ holds => holds
  · rename_i invalid
    refine spec_pure ?_
    rintro t ⟨rfl, sound⟩
    exact ⟨sound, by simpa using invalid⟩

theorem sound_perform (op : SessionOp) :
    Spec (Sound n) (perform env op) (fun _ => Sound n) E := by
  have skips : Spec (fun s => Sound n s ∧ s.valid = true) (pure ()) (fun _ => Sound n) E :=
    spec_pure fun _ start => start.1
  cases op with
  | sendText msg => exact sound_sendWith env rfl skips
  | sendBinary data => exact sound_sendWith env rfl skips
  | sendPing payload => exact sound_sendWith env rfl sound_invalidate
  | sendPong payload => exact sound_sendWith env rfl sound_invalidate
  | close code reason =>
    exact spec_post (sound_closeSession env code reason) fun _ _ post => post.1

theorem sound_performAll (ops : List SessionOp) :
    Spec (Sound n) (performAll env ops) (fun _ => Sound n) E := by
  induction ops with
  | nil => exact spec_pure fun _ sound => sound
  | cons op ops ih => exact spec_bind (sound_perform env op) fun _ => ih

theorem sound_callback (cb : WsCallback)
    (raised : ∀ e s, Sound (n + [WsEvent.callback cb].countP startsOnClose) s → E e s) :
    Spec (fun s => Sound n s ∧ s.valid = true) (callback env cb)
      (fun _ => Sound (n + [WsEvent.callback cb].countP startsOnClose)) E := by
  refine spec_bind (M := fun _ => Sound (n + [WsEvent.callback cb].countP startsOnClose))
    (spec_modify fun s start => start.1.append start.2 (by simp) rfl) fun _ => ?_
  refine spec_bind (spec_get fun _ sound => sound) fun s => ?_
  refine spec_bind (sound_performAll env _) fun _ => ?_
  split
  · exact spec_throw (raised _)
  · exact spec_pure fun _ sound => sound

theorem sound_freeFrame {V : Bool → Prop} (frame : Option Nat) :
    Spec (fun s => Sound n s ∧ V s.valid) (freeFrame frame) (fun _ s => Sound n s ∧ V s.valid) E := by
  cases frame with
  | none => exact spec_pure fun _ start => start
  | some frame => exact spec_modify fun _ start => ⟨start.1.silent rfl, start.2⟩

end

structure Steady (s : WsSession) : Prop where
  sound : ∃ n, n ≤ 1 ∧ Sound n s
  open_ : s.valid = true → Sound 0 s

def Stopped (s : WsSession) : Prop := ∃ n, n ≤ 1 ∧ Sound n s

theorem steady_of_sound (sound : Sound 0 s) : Steady s :=
  ⟨⟨0, Nat.zero_le 1, sound⟩, fun _ => sound⟩

theorem steady_of_invalid (small : n ≤ 1) (ended : Sound n s ∧ s.valid = false) : Steady s :=
  ⟨⟨n, small, ended.1⟩, fun valid => by rw [ended.2] at valid; cases valid⟩

theorem steady_start : Steady {} :=
  steady_of_sound ⟨fun _ _ listed => (by cases listed), fun invalid => (by cases invalid), rfl⟩

section
variable (env : WsEnv)

theorem steady_callback {cb : WsCallback} (other : startsOnClose (.callback cb) = false)
    (frame : Option Nat) :
    Spec (fun s => Sound 0 s ∧ s.valid = true) (callback env cb >>= fun _ => freeFrame frame)
      (fun _ => Steady) fun _ => Stopped := by
  have count : 0 + [WsEvent.callback cb].countP startsOnClose = 0 := by simp [other]
  have called := sound_callback (E := fun _ => Stopped) env (n := 0) cb fun _ s sound =>
    ⟨0, Nat.zero_le 1, count ▸ sound⟩
  rw [count] at called
  refine spec_bind called fun _ => ?_
  refine spec_adapt (sound_freeFrame (V := fun _ => True) (E := fun _ => Stopped) frame)
    (fun _ sound => ⟨sound, trivial⟩) fun _ _ post => steady_of_sound post.1

theorem steady_closeFrame (frame : Option Nat) (frameData : Str) :
    Spec (fun s => Sound 0 s ∧ s.valid = true)
      (handleCloseFrame env frameData >>= fun _ => freeFrame frame)
      (fun _ => Steady) fun _ => Stopped := by
  have closed : Spec (fun s => Sound 0 s ∧ s.valid = true) (handleCloseFrame env frameData)
      (fun _ s => Sound 1 s ∧ s.valid = false) fun _ => Stopped := by
    refine spec_bind (sound_callback env (.onClose _ _) fun _ s sound => ⟨1, le_rfl, sound⟩) fun _ => ?_
    exact sound_closeSession env _ _
  refine spec_bind closed fun _ => ?_
  exact spec_post (sound_freeFrame (V := (· = false)) (E := fun _ => Stopped) frame)
    fun _ _ post => steady_of_invalid le_rfl post

theorem steady_dispatch (status : WsStatus) (frame : Option Nat) (frameData : Str) :
    Spec (fun s => Sound 0 s ∧ s.valid = true) (dispatchWebsocketFrame env status frame frameData)
      (fun _ => Steady) fun _ => Stopped := by
  have frees : Spec (fun s => Sound 0 s ∧ s.valid = true) (freeFrame frame)
      (fun _ => Sound 0) fun _ => Stopped :=
    spec_adapt (sound_freeFrame (V := fun _ => True) (E := fun _ => Stopped) frame)
      (fun _ start => ⟨start.1, trivial⟩) fun _ _ post => post.1
  cases status with
  | textFrame => exact steady_callback env rfl frame
  | binaryFrame => exact steady_callback env rfl frame
  | pingFrame => exact steady_callback env rfl frame
  | closeFrame => exact steady_closeFrame env frame frameData
  | ok =>
    exact spec_post frees fun _ _ => steady_of_sound
  | other =>
    refine spec_bind frees fun _ => ?_
    exact spec_post (sound_closeSession (E := fun _ => Stopped) env 1002 "Protocol error".toList)
      fun _ _ post => steady_of_invalid (Nat.zero_le 1) post

theorem steady_decodeStep :
    Spec (fun s => Sound 0 s ∧ s.valid = true) (decodeStep env) (fun _ => Steady)
      fun _ => Stopped := by
  refine spec_get_bind fun s => ?_
  refine spec_bind (M := fun _ t => Sound 0 t ∧ t.valid = true) (spec_modify ?_) fun _ => ?_
  · rintro t ⟨-, sound, valid⟩
    exact ⟨sound.silent rfl, valid⟩
  · exact spec_bind (steady_dispatch env _ _ _) fun _ => spec_pure fun _ steady => steady

theorem stopped_upgradeHandler :
    Spec (fun s => s = {}) (upgradeHandler env) (fun _ => Stopped) fun _ => Stopped := by
  have ends {e : WsEvent} (silent : isSilent e = true) :
      Spec Stopped (note e) (fun _ => Stopped) fun _ => Stopped :=
    spec_modify fun _ ⟨n, small, sound⟩ => ⟨n, small, sound.silent silent⟩
  have start : Sound 0 {} := steady_start.open_ rfl
  unfold upgradeHandler withStream
  split
  · have opened : Spec (fun s => s = {}) (callback env .onOpen) (fun _ => Steady)
        fun _ => Stopped := by
      refine spec_adapt (sound_callback (n := 0) (E := fun _ => Stopped) env .onOpen fun _ s sound =>
        ⟨0, Nat.zero_le 1, sound⟩) ?_ fun _ _ => steady_of_sound
      rintro _ rfl
      exact ⟨start, rfl⟩
    refine spec_bind opened fun _ => ?_
    have frames : Spec Steady (decodeExtra env >>= receiveLoop env env.received) (fun _ => Steady)
        fun _ => Stopped :=
      spec_frames (spec_pre (steady_decodeStep env) fun _ start => ⟨start.1.open_ start.2, start.2⟩)
    refine spec_bind frames fun _ => ?_
    refine spec_bind (M := fun _ => Stopped) ?_ fun _ => ends rfl
    exact spec_pre (ends rfl) fun _ steady => steady.sound
  · refine spec_pre (ends rfl) ?_
    rintro _ rfl
    exact steady_start.sound

end

theorem Live.not_mem (live : Live log) : WsEvent.invalidated ∉ log :=
  fun listed => (live _ listed).1 rfl

theorem Live.countP_encodesClose (live : Live log) : log.countP encodesClose = 0 :=
  List.countP_eq_zero.mpr fun e listed => by simp [(live e listed).2]

theorem countP_encodesClose_silent (quiet : ∀ e ∈ log, isSilent e = true) :
    log.countP encodesClose = 0 := by
  refine List.countP_eq_zero.mpr fun e listed => ?_
  have silent := quiet e listed
  cases e with
  | encode frame => cases silent
  | _ => simp [encodesClose]

theorem Ended.countP_encodesClose (ended : Ended log) : log.countP encodesClose ≤ 1 := by
  obtain ⟨before, closing, later, rfl, live, frame, quiet⟩ := ended.split
  rw [List.countP_append, live.countP_encodesClose, List.countP_cons, List.countP_append,
    countP_encodesClose_silent quiet]
  rcases frame with rfl | ⟨code, reason, rfl⟩
  · simp [encodesClose]
  · simp [encodesClose]

theorem Ended.behind (ended : Ended log) {before later : List WsEvent}
    (whole : log = before ++ .invalidated :: later) :
    (∀ cb, .callback cb ∉ later) ∧ ∀ frame, .encode frame ∈ later →
      later.head? = some (.encode frame) ∧ ∃ code reason, frame = .close code reason := by
  obtain ⟨front, closing, rest, split, live, close, quiet⟩ := ended.split
  -- Every event behind the end is silent, or the close frame in the first place.
  have tail : ∀ e ∈ closing ++ rest, isSilent e = true ∨
      ((closing ++ rest).head? = some e ∧ ∃ code reason, e = .encode (.close code reason)) := by
    intro e listed
    rcases List.mem_append.mp listed with here | here
    · rcases close with rfl | ⟨code, reason, rfl⟩
      · cases here
      · cases List.mem_singleton.mp here
        exact Or.inr ⟨rfl, code, reason, rfl⟩
    · exact Or.inl (quiet e here)
  have once : WsEvent.invalidated ∉ closing ++ rest := by
    intro listed
    rcases tail _ listed with silent | ⟨-, code, reason, frame⟩
    · cases silent
    · cases frame
  have same : later = closing ++ rest := by
    rcases List.append_eq_append_iff.mp (split.symm.trans whole) with
      ⟨middle, -, back⟩ | ⟨middle, front_, back⟩
    · cases middle with
      | nil => exact (List.cons.inj back).2.symm
      | cons e middle =>
        rw [(List.cons.inj back).2] at once
        simp at once
    · cases middle with
      | nil => exact (List.cons.inj back).2
      | cons e middle =>
        rw [List.cons_append, List.cons.injEq] at back
        rw [front_, ← back.1] at live
        exact absurd (by simp) live.not_mem
  subst same
  constructor
  · intro cb listed
    rcases tail _ listed with silent | ⟨-, code, reason, frame⟩
    · cases silent
    · cases frame
  · intro frame listed
    rcases tail _ listed with silent | ⟨first, code, reason, close⟩
    · cases silent
    · exact ⟨first, code, reason, WsEvent.encode.inj close⟩

/-- In every session at most one close frame is encoded and `on_close` is called
    at most once. Once the session is invalid no callback is started, and the only
    frame that is still encoded is the close frame of the call that closed it. -/
theorem session_closes_once (env : WsEnv) :
    let log := (after (upgradeHandler env) {}).log
    log.countP encodesClose ≤ 1 ∧ log.countP startsOnClose ≤ 1 ∧
      ∀ before later, log = before ++ .invalidated :: later →
        (∀ cb, .callback cb ∉ later) ∧ ∀ frame, .encode frame ∈ later →
          later.head? = some (.encode frame) ∧ ∃ code reason, frame = .close code reason := by
  intro log
  obtain ⟨n, small, sound⟩ : Stopped (after (upgradeHandler env) {}) :=
    spec_after (stopped_upgradeHandler env) rfl
  refine ⟨?_, sound.onCloses ▸ small, ?_⟩
  · cases valid : (after (upgradeHandler env) {}).valid with
    | true => exact (sound.live valid).countP_encodesClose ▸ Nat.zero_le 1
    | false => exact (sound.ended valid).countP_encodesClose
  · intro before later whole
    have listed : .invalidated ∈ log := by
      rw [whole]
      simp
    cases valid : (after (upgradeHandler env) {}).valid with
    | true => exact absurd listed (sound.live valid).not_mem
    | false => exact (sound.ended valid).behind whole

/-- A handler that closes the session in `on_open`: the close frame is encoded
    when the session is invalid already. -/
theorem close_frame_encoded_when_invalid :
    let env : WsEnv := { handler := fun _ => ⟨[.close 1000 []], none⟩ }
    (after (upgradeHandler env) {}).log = [.callback .onOpen, .invalidated,
      .encode (.close 1000 []), .streamFree, .upgradeClose] :=
  rfl

end WebSocket

end HttpServer
