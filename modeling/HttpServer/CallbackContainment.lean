import HttpServer.RequestRun
import HttpServer.WebSocketSession

/-!
The callbacks of libmicrohttpd that call user code besides the request handlers:
the upgrade handler of WebSockets, the producer of a deferred response, the error
log, the PSK lookup and the custom unescaper of the first call for a request. None
of them has a guard, so what user code throws leaves the callback, and a frame of
the WebSocket decoder that was being dispatched is not freed.
-/
namespace HttpServer
open Effect

namespace WebSocket

def frames (log : List WsEvent) : List Nat :=
  log.filterMap fun e => match e with
    | .decode frame => frame
    | _ => none

def freed (log : List WsEvent) : List Nat :=
  log.filterMap fun e => match e with
    | .free frame => some frame
    | _ => none

def NoneThrows (env : WsEnv) (log : List WsEvent) : Prop :=
  ∀ part cb, part ++ [.callback cb] <+: log → (env.handler (part ++ [.callback cb])).throws = none

def FreedOnce (log : List WsEvent) : Prop :=
  ∀ frame ∈ frames log, (freed log).count frame = 1

structure Balanced (held : List Nat) (log : List WsEvent) : Prop where
  rest : frames log = freed log ++ held
  numbered : (frames log).Pairwise (· < ·)
  below : ∀ frame ∈ frames log, frame < decodeCalls log

def isCall : WsEvent → Prop
  | .encode _ => True
  | .invalidated => True
  | _ => False

theorem frames_append (log new : List WsEvent) : frames (log ++ new) = frames log ++ frames new :=
  List.filterMap_append ..

theorem freed_append (log new : List WsEvent) : freed (log ++ new) = freed log ++ freed new :=
  List.filterMap_append ..

theorem decodeCalls_append (log new : List WsEvent) :
    decodeCalls (log ++ new) = decodeCalls log + decodeCalls new :=
  List.countP_append ..

theorem Balanced.freedOnce {log : List WsEvent} (balanced : Balanced [] log) : FreedOnce log := by
  intro frame listed
  have same : freed log = frames log := by
    rw [balanced.rest, List.append_nil]
  rw [same]
  exact List.count_eq_one_of_mem (balanced.numbered.imp Nat.ne_of_lt) listed

theorem noneThrows_append {env : WsEnv} {log : List WsEvent} (calm : NoneThrows env log) {e : WsEvent}
    (returns : ∀ cb, e = .callback cb → (env.handler (log ++ [e])).throws = none) :
    NoneThrows env (log ++ [e]) := by
  intro part cb front
  rcases List.prefix_concat_iff.mp front with whole | earlier
  · obtain ⟨rfl, last⟩ := List.append_inj' whole rfl
    cases last
    exact returns cb rfl
  · exact calm part cb earlier

abbrev Calls := Trace.Grows WsSession.log isCall

section
variable (env : WsEnv)

structure Plain {α : Type} (x : SessionM α) : Prop where
  calls : Steps Calls x
  returns : Returns x

theorem Plain.bind {α β : Type} {x : SessionM α} {f : α → SessionM β} (first : Plain x)
    (rest : ∀ a, Plain (f a)) : Plain (x >>= f) :=
  ⟨steps_bind first.calls fun a => (rest a).calls, returns_bind first.returns fun a => (rest a).returns⟩

variable {log new : List WsEvent} {held : List Nat} {E : Exc → WsSession → Prop} {α : Type}

theorem plain_pure (a : α) : Plain (pure a : SessionM α) :=
  ⟨steps_pure a, returns_pure a⟩

theorem plain_get : Plain (get : SessionM WsSession) := ⟨steps_get, returns_get⟩

theorem plain_note {e : WsEvent} (call : isCall e) : Plain (note e) :=
  ⟨fun s => ⟨[e], rfl, by simpa using call⟩, returns_modify _⟩

theorem plain_invalidate : Plain invalidate :=
  ⟨fun s => ⟨[.invalidated], rfl, by simp [isCall]⟩, returns_modify _⟩

theorem plain_encodeFrame (frame : WsFrame) : Plain (encodeFrame env frame) :=
  (plain_note (e := .encode frame) trivial).bind fun _ => plain_get.bind fun _ => plain_pure _

theorem plain_sendFrame (frameLen : Nat) : Plain (sendFrame env frameLen) :=
  plain_get.bind fun _ => plain_pure _

theorem plain_sendWith (frame : WsFrame) {onEncodeFailure : SessionM Unit}
    (fails : Plain onEncodeFailure) : Plain (sendWith env frame onEncodeFailure) := by
  refine plain_get.bind fun s => ?_
  split
  · refine (plain_encodeFrame env frame).bind fun encoded => ?_
    cases encoded with
    | none => exact fails
    | some frameLen =>
      refine (plain_sendFrame env frameLen).bind fun sent => ?_
      split
      · exact plain_pure ()
      · exact plain_invalidate
  · exact plain_pure ()

theorem plain_closeSession (code : Nat) (reason : Str) : Plain (closeSession env code reason) := by
  refine plain_get.bind fun s => ?_
  split
  · refine plain_invalidate.bind fun _ => (plain_encodeFrame env _).bind fun encoded => ?_
    cases encoded with
    | none => exact plain_pure ()
    | some frameLen => exact (plain_sendFrame env frameLen).bind fun _ => plain_pure ()
  · exact plain_pure ()

theorem plain_perform (op : SessionOp) : Plain (perform env op) := by
  cases op with
  | sendText msg => exact plain_sendWith env _ (plain_pure ())
  | sendBinary data => exact plain_sendWith env _ (plain_pure ())
  | sendPing payload => exact plain_sendWith env _ plain_invalidate
  | sendPong payload => exact plain_sendWith env _ plain_invalidate
  | close code reason => exact plain_closeSession env code reason

theorem plain_performAll (ops : List SessionOp) : Plain (performAll env ops) := by
  induction ops with
  | nil => exact plain_pure ()
  | cons op ops ih => exact (plain_perform env op).bind fun _ => ih

structure Contained (held : List Nat) (s : WsSession) : Prop where
  returned : NoneThrows env s.log
  balanced : Balanced held s.log

def Escapes (s : WsSession) : Prop := ¬ NoneThrows env s.log

theorem Balanced.append (balanced : Balanced held log) (unframed : frames new = [])
    (unfreed : freed new = []) : Balanced held (log ++ new) := by
  refine ⟨?_, ?_, ?_⟩
  · rw [frames_append, freed_append, unframed, unfreed, List.append_nil, List.append_nil,
      balanced.rest]
  · rw [frames_append, unframed, List.append_nil]
    exact balanced.numbered
  · rw [frames_append, unframed, List.append_nil, decodeCalls_append]
    intro frame listed
    exact Nat.lt_add_right _ (balanced.below frame listed)

theorem Balanced.calls (balanced : Balanced held log) (calls : ∀ e ∈ new, isCall e) :
    Balanced held (log ++ new) := by
  refine balanced.append (List.filterMap_eq_nil_iff.mpr fun e listed => ?_)
    (List.filterMap_eq_nil_iff.mpr fun e listed => ?_)
  · have call := calls e listed
    cases e with
    | decode frame => cases call
    | _ => rfl
  · have call := calls e listed
    cases e with
    | free frame => cases call
    | _ => rfl

variable {env}

theorem NoneThrows.front {longer : List WsEvent} (returned : NoneThrows env longer)
    (front : log <+: longer) : NoneThrows env log :=
  fun part cb earlier => returned part cb (earlier.trans front)

theorem NoneThrows.calls (returned : NoneThrows env log) (calls : ∀ e ∈ new, isCall e) :
    NoneThrows env (log ++ new) := by
  induction new using List.reverseRecOn with
  | nil => simpa using returned
  | append_singleton new e ih =>
    obtain ⟨before, last⟩ := List.forall_mem_append.mp calls
    rw [← List.append_assoc]
    refine noneThrows_append (ih before) fun cb callback => ?_
    have call := last e (by simp)
    rw [callback] at call
    cases call

theorem contained_plain {x : SessionM α} (plain : Plain x) :
    Spec (Contained env held) x (fun _ => Contained env held) E := by
  refine spec_of_returns (spec_of_steps plain.calls ?_) plain.returns
  rintro s t contained ⟨new, grown, calls⟩
  refine ⟨?_, ?_⟩
  · rw [grown]
    exact contained.returned.calls calls
  · rw [grown]
    exact contained.balanced.calls calls

theorem escapes_plain {x : SessionM α} (plain : Plain x) :
    Spec (Escapes env) x (fun _ => Escapes env) E := by
  refine spec_of_returns (spec_of_steps plain.calls ?_) plain.returns
  rintro s t escapes ⟨new, grown, -⟩ returned
  exact escapes (returned.front ⟨new, grown.symm⟩)

theorem contained_callback (cb : WsCallback) (held : List Nat) :
    Spec (Contained env held) (callback env cb) (fun _ => Contained env held)
      fun _ => Escapes env := by
  refine spec_bind (M := fun _ t => ∃ s, Contained env held s ∧
    t = { s with log := s.log ++ [.callback cb] }) (spec_modify fun s start => ⟨s, start, rfl⟩)
    fun _ => ?_
  refine spec_get_bind fun r => ?_
  cases throws : (env.handler r.log).throws with
  | none =>
    refine spec_bind (M := fun _ => Contained env held)
      (spec_pre (contained_plain (plain_performAll env _)) ?_) fun _ => ?_
    · rintro t ⟨rfl, s, contained, rfl⟩
      refine ⟨noneThrows_append contained.returned fun _ _ => throws, ?_⟩
      exact contained.balanced.append rfl rfl
    · rw [throws]
      exact spec_pure fun _ contained => contained
  | some e =>
    refine spec_bind (M := fun _ => Escapes env)
      (spec_pre (escapes_plain (plain_performAll env _)) ?_) fun _ => ?_
    · rintro t ⟨rfl, s, -, rfl⟩ returned
      have calm := returned s.log cb (List.prefix_refl _)
      rw [throws] at calm
      cases calm
    · rw [throws]
      exact spec_throw fun _ escapes => escapes

theorem contained_note {e : WsEvent} {rest : List Nat} (silent : ∀ cb, e ≠ .callback cb)
    (balances : ∀ log, Balanced held log → Balanced rest (log ++ [e])) :
    Spec (Contained env held) (note e) (fun _ => Contained env rest) E :=
  spec_modify fun s contained => ⟨noneThrows_append contained.returned fun cb same =>
    absurd same (silent cb), balances s.log contained.balanced⟩

theorem Balanced.free {frame : Nat} (balanced : Balanced [frame] log) :
    Balanced [] (log ++ [.free frame]) := by
  have same : frames (log ++ [.free frame]) = frames log :=
    (frames_append log _).trans (List.append_nil _)
  refine ⟨?_, ?_, ?_⟩
  · rw [same, freed_append, balanced.rest, List.append_nil]
    rfl
  · rw [same]
    exact balanced.numbered
  · rw [same, decodeCalls_append]
    intro frame listed
    exact Nat.lt_add_right _ (balanced.below frame listed)

theorem Balanced.decode (balanced : Balanced [] log) {frame : Option Nat}
    (number : ∀ k ∈ frame, k = decodeCalls log) :
    Balanced frame.toList (log ++ [.decode frame]) := by
  have unfreed : freed (log ++ [.decode frame]) = freed log :=
    (freed_append log _).trans (List.append_nil _)
  have calls : decodeCalls (log ++ [.decode frame]) = decodeCalls log + 1 := decodeCalls_append log _
  have all := balanced.rest
  rw [List.append_nil] at all
  cases frame with
  | none =>
    have same : frames (log ++ [.decode none]) = frames log :=
      (frames_append log _).trans (List.append_nil _)
    refine ⟨?_, ?_, ?_⟩
    · rw [same, unfreed, all]
      exact (List.append_nil _).symm
    · rw [same]
      exact balanced.numbered
    · rw [same, calls]
      exact fun k listed => Nat.lt_succ_of_lt (balanced.below k listed)
  | some k =>
    have same : frames (log ++ [.decode (some k)]) = frames log ++ [k] := frames_append log _
    cases number k rfl
    refine ⟨?_, ?_, ?_⟩
    · rw [same, unfreed, all]
      rfl
    · rw [same]
      refine List.pairwise_append.mpr ⟨balanced.numbered, List.pairwise_singleton _ _, ?_⟩
      intro a listed b last
      rw [List.mem_singleton.mp last]
      exact balanced.below a listed
    · rw [same, calls]
      intro a listed
      rcases List.mem_append.mp listed with old | new
      · exact Nat.lt_succ_of_lt (balanced.below a old)
      · rw [List.mem_singleton.mp new]
        exact Nat.lt_succ_self _

theorem contained_freeFrame (frame : Option Nat) :
    Spec (Contained env frame.toList) (freeFrame frame) (fun _ => Contained env []) E := by
  cases frame with
  | none => exact spec_pure fun _ contained => contained
  | some k => exact contained_note (by simp) fun _ balanced => balanced.free

theorem contained_dispatch (status : WsStatus) (frame : Option Nat) (frameData : Str) :
    Spec (Contained env frame.toList) (dispatchWebsocketFrame env status frame frameData)
      (fun _ => Contained env []) fun _ => Escapes env := by
  have calls (cb : WsCallback) : Spec (Contained env frame.toList)
      (callback env cb >>= fun _ => freeFrame frame) (fun _ => Contained env [])
      fun _ => Escapes env :=
    spec_bind (contained_callback cb _) fun _ => contained_freeFrame frame
  cases status with
  | textFrame => exact calls _
  | binaryFrame => exact calls _
  | pingFrame => exact calls _
  | closeFrame =>
    refine spec_bind (spec_bind (contained_callback _ _) fun _ => ?_) fun _ =>
      contained_freeFrame frame
    exact contained_plain (plain_closeSession env _ _)
  | ok => exact contained_freeFrame frame
  | other =>
    refine spec_bind (contained_freeFrame frame) fun _ => ?_
    exact contained_plain (plain_closeSession env _ _)

theorem contained_decodeStep :
    Spec (Contained env []) (decodeStep env) (fun _ => Contained env []) fun _ => Escapes env := by
  refine spec_get_bind fun s => ?_
  dsimp only
  generalize numbered : Option.map (fun _ => decodeCalls s.log) (env.decodes s.log).frame = frame
  refine spec_bind (M := fun _ => Contained env frame.toList) (spec_modify ?_) fun _ => ?_
  · rintro t ⟨rfl, contained⟩
    refine ⟨noneThrows_append contained.returned fun cb same => (by cases same), ?_⟩
    refine contained.balanced.decode fun k given => ?_
    rw [← numbered] at given
    obtain ⟨-, -, same⟩ := Option.map_eq_some_iff.mp given
    exact same.symm
  · exact spec_bind (contained_dispatch _ _ _) fun _ => spec_pure fun _ contained => contained

theorem contained_upgradeHandler :
    Spec (fun s => s = {}) (upgradeHandler env) (fun _ => Contained env [])
      fun _ => Escapes env := by
  have start : Contained env [] {} := by
    refine ⟨fun part cb front => ?_, rfl, List.Pairwise.nil, fun frame listed => by cases listed⟩
    simp at front
  have ends {e : WsEvent} (silent : ∀ cb, e ≠ .callback cb) (unframed : frames [e] = [])
      (unfreed : freed [e] = []) :
      Spec (Contained env []) (note e) (fun _ => Contained env []) fun _ => Escapes env :=
    contained_note silent fun log balanced => balanced.append unframed unfreed
  refine spec_pre (B := Contained env []) ?_ (by rintro _ rfl; exact start)
  unfold upgradeHandler withStream
  split
  · refine spec_bind (contained_callback _ _) fun _ => ?_
    refine spec_bind (spec_frames (spec_pre contained_decodeStep fun _ start => start.1)) fun _ => ?_
    exact spec_bind (ends (by simp) rfl rfl) fun _ => ends (by simp) rfl rfl
  · exact ends (by simp) rfl rfl

/-- The upgrade handler returns with every frame freed once exactly if no callback
    of the handler throws. -/
theorem upgradeHandler_contained_iff (env : WsEnv) :
    (outcome (upgradeHandler env) {} = .ok () ∧ FreedOnce (after (upgradeHandler env) {}).log) ↔
      NoneThrows env (after (upgradeHandler env) {}).log := by
  have both := @contained_upgradeHandler env {} rfl
  cases result : outcome (upgradeHandler env) {} with
  | ok r =>
    have contained := both.1 r result
    exact ⟨fun _ => contained.returned, fun _ => ⟨rfl, contained.balanced.freedOnce⟩⟩
  | error e =>
    refine ⟨fun returned => (by cases returned.1), fun returned => ?_⟩
    exact absurd returned (both.2 e result)

end

end WebSocket

abbrev Producer := Nat → Nat → Except Exc (Int × Str)

def contentReaderEndWithError : Int := -2

def trampoline (self : Option (Option Producer)) (pos max : Nat) : Except Exc (Int × Str) :=
  match self with
  | some (some producer) => producer pos max
  | _ => .ok (contentReaderEndWithError, [])

/-- The text that `error_log` makes of a formatted message. The buffer has no room
    for the terminator of a text of 80 bytes or more. -/
def errorLogMessage (formatted : Str) : Str :=
  if formatted.length < 80 then formatted else formatted.dropLast ++ ['\x00']

def errorLog (logError : Option (Str → Except Exc Unit)) (formatted : Str) : Except Exc Unit :=
  match logError with
  | some log => log (errorLogMessage formatted)
  | none => .ok ()

def hexBytes : Str → Str
  | hi :: lo :: rest => Char.ofNat (16 * hexCharToVal hi + hexCharToVal lo) :: hexBytes rest
  | _ => []

def pskCredHandlerFunc (pskCredHandler : Option (Str → Except Exc Str)) (username : Str)
    (allocates : Bool) : Except Exc (Int × Str) :=
  match pskCredHandler with
  | none => .ok (-1, [])
  | some handler =>
    match handler username with
    | .error e => .error e
    | .ok pskHex =>
      if pskHex = [] then .ok (-1, [])
      else if pskHex.length / 2 = 0 ∨ pskHex.length % 2 ≠ 0 ∨ isValidHex pskHex = false then
        .ok (-1, [])
      else if allocates then .ok (0, hexBytes pskHex) else .ok (-1, [])

def tryUnescape (unescaper : Option (Str → Except Exc Str)) (s : Str) : Except Exc Str :=
  match s with
  | [] => .ok s
  | c :: _ =>
    if c = '\x00' then .ok s
    else match unescaper with
      | some f => f s
      | none => .ok (httpUnescape s)

def answerFirstCall (env : Env) (unescaper : Option (Str → Except Exc Str)) (w : WireRequest) :
    DispatchM MhdResult :=
  match tryUnescape unescaper w.url with
  | .error e => throw e
  | .ok tUrl => do
    setConn fun c => { c with
      standardizedUrl := normalizePath (standardizeUrl tUrl)
      methodEnum := (resolveMethodCallback w.method).1
      hasBody := (resolveMethodCallback w.method).2 }
    requestsAnswerFirstStep env w

theorem returns_requestsAnswerFirstStep (env : Env) (w : WireRequest) :
    Returns (requestsAnswerFirstStep env w) :=
  returns_bind (returns_modify _) fun _ => (calm_firstCallAwaiting env w).returns

theorem tryUnescape_isOk_iff (unescaper : Option (Str → Except Exc Str)) (s : Str) :
    (∃ text, tryUnescape unescaper s = .ok text) ↔
      ∀ f, unescaper = some f → s ≠ [] → s.head? ≠ some '\x00' → ∃ text, f s = .ok text := by
  cases s with
  | nil => exact ⟨fun _ f _ some_ => absurd rfl some_, fun _ => ⟨[], rfl⟩⟩
  | cons c rest =>
    by_cases nul : c = '\x00'
    · simp [tryUnescape, nul]
    · cases unescaper with
      | none => simp [tryUnescape, nul]
      | some f => simp [tryUnescape, nul]

theorem answerFirstCall_isOk_iff (env : Env) (unescaper : Option (Str → Except Exc Str))
    (w : WireRequest) (s : Session) :
    (∃ result, outcome (answerFirstCall env unescaper w) s = .ok result) ↔
      ∃ text, tryUnescape unescaper w.url = .ok text := by
  unfold answerFirstCall
  cases unescaped : tryUnescape unescaper w.url with
  | error e =>
    constructor
    · rintro ⟨result, run⟩
      cases run
    · rintro ⟨text, found⟩
      cases found
  | ok text =>
    refine ⟨fun _ => ⟨text, rfl⟩, fun _ => ?_⟩
    exact returns_bind (returns_modify _) (fun _ => returns_requestsAnswerFirstStep env w) s

/-- Each of the callbacks contains exactly what user code does not throw. -/
theorem other_callbacks_contained_iff (ws : WsEnv) (self : Option (Option Producer)) (pos max : Nat)
    (logError : Option (Str → Except Exc Unit)) (formatted : Str)
    (pskCredHandler : Option (Str → Except Exc Str)) (username : Str) (allocates : Bool) (env : Env)
    (unescaper : Option (Str → Except Exc Str)) (w : WireRequest) (s : Session) :
    ((outcome (WebSocket.upgradeHandler ws) {} = .ok () ∧
        WebSocket.FreedOnce (after (WebSocket.upgradeHandler ws) {}).log) ↔
      WebSocket.NoneThrows ws (after (WebSocket.upgradeHandler ws) {}).log) ∧
    ((∃ result, trampoline self pos max = .ok result) ↔
      ∀ producer, self = some (some producer) → ∃ result, producer pos max = .ok result) ∧
    (errorLog logError formatted = .ok () ↔
      ∀ log, logError = some log → log (errorLogMessage formatted) = .ok ()) ∧
    ((∃ result, pskCredHandlerFunc pskCredHandler username allocates = .ok result) ↔
      ∀ handler, pskCredHandler = some handler → ∃ psk, handler username = .ok psk) ∧
    ((∃ result, outcome (answerFirstCall env unescaper w) s = .ok result) ↔
      ∀ f, unescaper = some f → w.url ≠ [] → w.url.head? ≠ some '\x00' →
        ∃ text, f w.url = .ok text) := by
  refine ⟨WebSocket.upgradeHandler_contained_iff ws, ?_, ?_, ?_, ?_⟩
  · rcases self with - | - | producer
    · simp [trampoline]
    · simp [trampoline]
    · simp [trampoline]
  · cases logError with
    | none => simp [errorLog]
    | some log => simp [errorLog]
  · cases pskCredHandler with
    | none => simp [pskCredHandlerFunc]
    | some handler =>
      cases answer : handler username with
      | error e => simp [pskCredHandlerFunc, answer]
      | ok pskHex =>
        simp only [pskCredHandlerFunc, answer]
        refine ⟨fun _ handler' same => ⟨pskHex, ?_⟩, fun _ => ?_⟩
        · cases same
          exact answer
        · split
          · exact ⟨_, rfl⟩
          · split
            · exact ⟨_, rfl⟩
            · split
              · exact ⟨_, rfl⟩
              · exact ⟨_, rfl⟩
  · rw [answerFirstCall_isOk_iff, tryUnescape_isOk_iff]

/-- A handler that throws in `on_message`: the exception leaves the upgrade handler
    and the frame is not freed. The same for a producer that throws. -/
theorem user_exceptions_escape :
    let ws : WsEnv := {
      extraInSize := 1
      decodes := fun _ => ⟨.textFrame, 1, some ['h', 'i']⟩
      handler := fun log => if log.length = 1 then {} else { throws := some .other } }
    outcome (WebSocket.upgradeHandler ws) {} = .error .other ∧
      WebSocket.frames (after (WebSocket.upgradeHandler ws) {}).log = [0] ∧
      WebSocket.freed (after (WebSocket.upgradeHandler ws) {}).log = [] ∧
      trampoline (some (some fun _ _ => .error .other)) 0 1024 = .error .other :=
  ⟨rfl, rfl, rfl, rfl⟩

end HttpServer
