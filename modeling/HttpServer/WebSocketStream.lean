import HttpServer.WebSocketSession
import HttpServer.Lib.Incremental

/-!
The bytes of a WebSocket session. The decoder of libmicrohttpd takes them one at a
time and returns at the end of a frame, or with nothing at the end of the buffer;
what the buffers are is left to the upgraded request and to `recv`. The decoder's
state is passed along; the memory it allocates is that of `WebSocketSession`.
-/
namespace HttpServer
namespace WebSocketStream
open WebSocket Incremental

abbrev FrameEnd := WsStatus × Option Str

section
variable {σ : Type} (env : WsEnv) (m : Machine σ Char FrameEnd)

def dispatch (output : Option FrameEnd) : SessionM Unit :=
  dispatchWebsocketFrame env ((output.map Prod.fst).getD .ok) none
    ((output.bind Prod.snd).getD [])

def decodeStep (buf : Str) (offset : Nat) (stream : σ) : SessionM (Nat × σ) := do
  let decoded := first m stream (buf.drop offset)
  dispatch env decoded.output
  pure (decoded.step, decoded.state)

def decodeWebsocketBuffer (buf : Str) (stream : σ) : SessionM σ :=
  decodeRounds buf.length (decodeStep env m buf) buf.length 0 stream

/-- `recv` returns these buffers and then no more; an empty one is its end of file. -/
def receiveLoop (received : List Str) (stream : σ) : SessionM Unit :=
  receiveRounds (fun buf => buf.length) (decodeWebsocketBuffer env m) received stream

def decodeExtra (extraIn : Str) (stream : σ) : SessionM σ :=
  if extraIn.length > 0 then decodeWebsocketBuffer env m extraIn stream else pure stream

def upgradeHandler (extraIn : Str) (received : List Str) (stream : σ) : SessionM Unit :=
  withStream env (decodeExtra env m extraIn stream >>= receiveLoop env m received)

end

def serveFrames (env : WsEnv) : List FrameEnd → SessionM Unit
  | [] => pure ()
  | frame :: frames => do
    let s ← get
    if s.valid then
      dispatch env (some frame)
      serveFrames env frames
    else pure ()

def frameSession (env : WsEnv) (frames : List FrameEnd) : SessionM Unit :=
  withStream env (serveFrames env frames)

section
variable {σ : Type} {env : WsEnv} {m : Machine σ Char FrameEnd} {s : WsSession}

theorem serveFrames_invalid (invalid : s.valid = false) (frames : List FrameEnd)
    (k : Unit → SessionM Unit) : (serveFrames env frames >>= k) s = k () s := by
  cases frames with
  | nil => rfl
  | cons frame frames =>
    change ((if s.valid then _ else pure () : SessionM Unit) >>= k) s = _
    rw [invalid]
    rfl

theorem serveFrames_valid (valid : s.valid = true) (frame : FrameEnd) (frames : List FrameEnd)
    (k : Unit → SessionM Unit) :
    (serveFrames env (frame :: frames) >>= k) s
      = (dispatch env (some frame) >>= fun _ => serveFrames env frames >>= k) s := by
  change ((if s.valid then _ else pure () : SessionM Unit) >>= k) s = _
  rw [if_pos valid, bind_assoc]

theorem serveFrames_append (front back : List FrameEnd) (k : Unit → SessionM Unit) :
    serveFrames env (front ++ back) >>= k
      = serveFrames env front >>= fun _ => serveFrames env back >>= k := by
  induction front with
  | nil => rfl
  | cons frame front ih =>
    funext s
    cases valid : s.valid with
    | true => rw [List.cons_append, serveFrames_valid valid, serveFrames_valid valid, ih]
    | false => simp only [serveFrames_invalid valid]

theorem serve_then (front back : List FrameEnd) :
    serveFrames env (front ++ back) = serveFrames env front >>= fun _ => serveFrames env back := by
  rw [← bind_pure (serveFrames env (front ++ back)), serveFrames_append]
  simp only [bind_pure]

theorem dispatch_eq (valid : s.valid = true) (output : Option FrameEnd) (k : Unit → SessionM Unit) :
    (dispatch env output >>= k) s = (serveFrames env output.toList >>= k) s := by
  cases output with
  | none => rfl
  | some frame => exact (serveFrames_valid valid frame [] k).symm

theorem decodeRounds_bind {k : σ → SessionM Unit}
    (idle : ∀ stream stream' s, s.valid = false → k stream s = k stream' s) (buf : Str)
    (rounds : Nat) {offset : Nat} (enough : buf.length ≤ offset + rounds) (stream : σ) :
    decodeRounds buf.length (decodeStep env m buf) rounds offset stream >>= k
      = serveFrames env (outputs m stream (buf.drop offset)) >>= fun _ =>
        k (final m stream (buf.drop offset)) := by
  induction rounds generalizing offset stream with
  | zero =>
    rw [List.drop_eq_nil_of_le (show buf.length ≤ offset from enough)]
    rfl
  | succ rounds ih =>
    funext s
    change ((if (offset < buf.length && s.valid) = true then _ else pure stream : SessionM σ)
      >>= k) s = _
    by_cases inside : offset < buf.length
    · cases valid : s.valid with
      | false =>
        rw [Bool.and_false, if_neg Bool.false_ne_true, pure_bind, serveFrames_invalid valid]
        exact idle _ _ s valid
      | true =>
        have reads := reads_first m stream (buf.drop offset)
        have positive := reads.positive (List.drop_eq_nil_iff.not.mpr (Nat.not_le_of_lt inside))
        rw [Bool.and_true, if_pos (decide_eq_true inside), bind_assoc, decodeStep, bind_assoc]
        simp only [pure_bind]
        rw [if_neg (Nat.ne_of_gt positive), ih (by omega), dispatch_eq valid, reads.outputs,
          reads.final, List.drop_drop, serveFrames_append]
    · rw [decide_eq_false inside, Bool.false_and, if_neg Bool.false_ne_true,
        List.drop_eq_nil_of_le (Nat.le_of_not_lt inside)]
      rfl

theorem receiveLoop_invalid (invalid : s.valid = false) (received : List Str) (stream : σ) :
    receiveLoop env m received stream s = .ok () s := by
  cases received with
  | nil => rfl
  | cons buf received =>
    change (if s.valid then _ else pure () : SessionM Unit) s = _
    rw [invalid]
    rfl

theorem decode_then_receive (buf : Str) (received : List Str) (stream : σ) :
    decodeWebsocketBuffer env m buf stream >>= receiveLoop env m received
      = serveFrames env (outputs m stream buf) >>= fun _ =>
        receiveLoop env m received (final m stream buf) := by
  refine decodeRounds_bind (fun a b s idle => ?_) buf buf.length (Nat.le_add_left _ 0) stream
  rw [receiveLoop_invalid idle, receiveLoop_invalid idle]

theorem receiveLoop_eq (received : List Str) (stream : σ) :
    receiveLoop env m received stream
      = serveFrames env (outputs m stream (received.takeWhile (· ≠ [])).flatten) := by
  induction received generalizing stream with
  | nil => rfl
  | cons buf received ih =>
    funext s
    cases valid : s.valid with
    | false =>
      rw [receiveLoop_invalid valid]
      exact (serveFrames_invalid valid _ pure).symm.trans (congrFun (bind_pure _) s)
    | true =>
      change (if s.valid then (if (buf.length : Int) ≤ 0 then _ else
        decodeWebsocketBuffer env m buf stream >>= receiveLoop env m received) else _ :
          SessionM Unit) s = _
      cases buf with
      | nil => rw [if_pos valid]; rfl
      | cons b buf =>
        have some_ : ¬((b :: buf).length : Int) ≤ 0 := by simp
        rw [if_pos valid, if_neg some_, decode_then_receive, ih, ← serve_then,
          ← outputs_append, List.takeWhile_cons_of_pos (by simp), List.flatten_cons]

end

/-- However the bytes of the connection are cut into what came with the request and
    what `recv` returns until it has no more, the session is the one that is handed
    the frames of the whole stream: the same callbacks, frames sent and end. -/
theorem session_ignores_segmentation {σ : Type} (env : WsEnv) (m : Machine σ Char FrameEnd)
    (stream : σ) (extraIn : Str) (received : List Str) :
    upgradeHandler env m extraIn received stream = frameSession env
      (outputs m stream (extraIn ++ (received.takeWhile (· ≠ [])).flatten)) := by
  rw [upgradeHandler, frameSession, outputs_append, serve_then, ← receiveLoop_eq]
  cases extraIn with
  | nil => rfl
  | cons b extraIn => exact congrArg _ (decode_then_receive ..)

end WebSocketStream
end HttpServer
