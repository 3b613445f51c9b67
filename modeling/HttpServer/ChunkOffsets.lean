import HttpServer.RequestRun

/-!
The offsets that `body_chunk` hooks are given. The counter behind them moves
only when the gate of the phase is open at the chunk, so a hook that is
registered while an upload is in progress does not see what came before.
-/
namespace HttpServer
open Effect

def Event.chunkOffset : Event → Option Nat
  | .hook call _ => match call.ctx with
    | .bodyChunk _ offset => some offset
    | _ => none
  | _ => none

def firedOffsets (h : History) : List Nat := h.filterMap Event.chunkOffset

section
variable (env : Env) (w : WireRequest)

def arrivedAfter (seen : List Str) : Session :=
  seen.foldl (fun s chunk => after (answerToConnection env w chunk) s)
    (after (answerToConnection env w []) {})

def chunkEvents (seen : List Str) (chunk : Str) : History :=
  (arrivedAfter env w (seen ++ [chunk])).history.drop (arrivedAfter env w seen).history.length

def chunkGate (s : Session) : Bool := (env.hooksAt s.history).bus.hasHooksFor .bodyChunk

def chunkHooks (s : Session) : List HookFn :=
  ((env.hooksAt (s.history ++ [.sharedRead])).bus.table.hooks .bodyChunk).map (·.fn)

def FiresNext (s : Session) : Prop :=
  s.conn.reading = true ∧ chunkGate env s = true ∧ chunkHooks env s ≠ []

def TrueOffsets : Prop :=
  ∀ seen chunk rest, w.chunks = seen ++ chunk :: rest →
    ∀ offset ∈ firedOffsets (chunkEvents env w seen chunk), offset = seen.flatten.length

end

theorem firedOffsets_append (h new : History) :
    firedOffsets (h ++ new) = firedOffsets h ++ firedOffsets new := List.filterMap_append

theorem firedOffsets_other {new : History} (other : ∀ e ∈ new, e.kind ≠ .hook .bodyChunk) :
    firedOffsets new = [] := by
  refine List.filterMap_eq_nil_iff.mpr fun e listed => ?_
  have kind := other e listed
  cases e with
  | hook call outcome =>
    obtain ⟨scope, fn, request, ctx⟩ := call
    cases ctx with
    | bodyChunk chunk offset => exact absurd rfl kind
    | _ => rfl
  | _ => rfl

section
variable {env : Env} {E : Exc → Session → Prop}

theorem offsets_emits {α γ : Type} {view : Conn → γ} {kinds : EventKind → Prop} {x : DispatchM α}
    (emits : EmitsOnly view kinds x) (other : ∀ k, kinds k → k ≠ .hook .bodyChunk)
    (old : List Nat) :
    Spec (fun s => firedOffsets s.history = old) x (fun _ s => firedOffsets s.history = old)
      fun _ s => firedOffsets s.history = old := by
  refine emits.history_spec (I := fun h => firedOffsets h = old) fun h new start sound => ?_
  rw [firedOffsets_append, start, firedOffsets_other fun e listed => other _ (sound e listed),
    List.append_nil]

theorem offsets_hookAction {call : HookCall} {chunk : Str} {offset : Nat}
    (fires : call.ctx = .bodyChunk chunk offset) (old : List Nat) :
    Spec (fun s => firedOffsets s.history = old) (hookAction env call)
      (fun _ s => firedOffsets s.history = old ++ [offset])
      fun _ s => firedOffsets s.history = old ++ [offset] := by
  have called (s : Session) (outcome : HookOutcome) (same : firedOffsets s.history = old) :
      firedOffsets (s.history ++ [.hook call outcome]) = old ++ [offset] := by
    rw [firedOffsets_append, same]
    simp [firedOffsets, Event.chunkOffset, fires]
  refine spec_hookAction env (offsets_emits (emits_actionBody env call) (by simp) old) ?_ ?_
  · intro action s same
    exact called s _ same
  · intro e s same
    exact called s _ same

theorem offsets_fireShortCircuit (chunk : Str) (offset : Nat) (fns : List HookFn)
    (old : List Nat) :
    Spec (fun s => firedOffsets s.history = old)
      (fireShortCircuit env .server (fun _ => .bodyChunk chunk offset) fns)
      (fun _ s => ∃ n, firedOffsets s.history = old ++ List.replicate n offset ∧
        (n ≠ 0 ↔ fns ≠ [])) E := by
  induction fns generalizing old with
  | nil => exact spec_pure fun s same => ⟨0, by simpa using same, by simp⟩
  | cons fn rest ih =>
    refine spec_bind spec_getConn_frame fun conn => ?_
    refine spec_bind (M := fun _ s => firedOffsets s.history = old ++ [offset])
      (spec_tryCatch (offsets_hookAction rfl old) fun e => ?_) fun action => ?_
    · refine spec_bind (M := fun _ s => firedOffsets s.history = old ++ [offset]) ?_
        fun _ => spec_pure fun _ same => same
      exact spec_of_returns (offsets_emits (calm_logDispatchError env _).emits (by simp) _)
        (calm_logDispatchError env _).returns
    · cases action with
      | some r => exact spec_pure fun s same => ⟨1, same, by simp⟩
      | none =>
        refine spec_post (ih (old ++ [offset])) ?_
        rintro sc s ⟨n, same, -⟩
        refine ⟨n + 1, ?_, by simp⟩
        rw [same, List.append_assoc, List.replicate_succ, List.singleton_append]

end

structure ChunkRead (env : Env) (chunk : Str) (s t : Session) : Prop where
  bytes : t.conn.bodyBytesSeen =
    if chunkGate env s then (s.conn.bodyBytesSeen + chunk.length) % UInt64.size
    else s.conn.bodyBytesSeen
  offsets : ∃ n, firedOffsets t.history =
      firedOffsets s.history ++ List.replicate n s.conn.bodyBytesSeen ∧
    (n ≠ 0 ↔ chunkGate env s = true ∧ chunkHooks env s ≠ [])

theorem spec_fireBodyChunk {env : Env} (chunk : Str) {s : Session} (gate : chunkGate env s = true)
    {E : Exc → Session → Prop} :
    Spec (fun t => t = { s with history := s.history ++ [.sharedRead] }) (fireBodyChunk env chunk)
      (fun _ => ChunkRead env chunk s) E := by
  let seen := (s.conn.bodyBytesSeen + chunk.length) % UInt64.size
  refine spec_getConn_bind (K := fun conn => conn.bodyBytesSeen = s.conn.bodyBytesSeen)
    (fun t start => ⟨by rw [start], start⟩) fun conn same => ?_
  rw [same]
  refine spec_bind (M := fun _ t => t.conn.bodyBytesSeen = seen ∧
    t.history = s.history ++ [.sharedRead]) (spec_modify ?_) fun _ => ?_
  · rintro _ rfl
    exact ⟨rfl, rfl⟩
  refine spec_bind (M := fun fns t => fns = chunkHooks env s ∧
    t.conn.bodyBytesSeen = seen ∧ firedOffsets t.history = firedOffsets s.history) ?_
    fun fns => spec_assume fun listed => ?_
  · refine spec_bind (M := fun st t => (st.bus.table.hooks .bodyChunk).map (·.fn) = chunkHooks env s ∧
      t.conn.bodyBytesSeen = seen ∧ firedOffsets t.history = firedOffsets s.history)
      (spec_readHooks env ?_) fun st => spec_pure fun _ start => start
    rintro t ⟨bytes, now⟩
    refine ⟨by rw [now]; rfl, bytes, ?_⟩
    rw [now]
    simp [firedOffsets, Event.chunkOffset]
  · have bytes : Spec (fun t => t.conn.bodyBytesSeen = seen)
        (fireShortCircuit env .server (fun _ => .bodyChunk chunk s.conn.bodyBytesSeen) fns)
        (fun _ t => t.conn.bodyBytesSeen = seen) E := by
      have fires : Calm Conn.apart (· ∈ firingKinds .bodyChunk) (fireShortCircuit env .server
          (fun _ => .bodyChunk chunk s.conn.bodyBytesSeen) fns) :=
        calm_fireShortCircuit env .server fns fun _ => rfl
      exact (fires.weaken fun _ _ same => congrArg Conn.bodyBytesSeen same).view_spec seen
    refine spec_post (spec_both (spec_pre bytes fun _ start => start.1)
      (spec_pre (offsets_fireShortCircuit chunk s.conn.bodyBytesSeen fns (firedOffsets s.history))
        fun _ start => start.2)) ?_
    rintro sc t ⟨count, n, offsets, some_⟩
    refine ⟨?_, n, offsets, ?_⟩
    · rw [count, if_pos gate]
    · rw [some_, listed]
      simp [gate]

theorem spec_chunkRead (env : Env) (chunk : Str) (s : Session) {E : Exc → Session → Prop} :
    Spec (fun t => t = s) (receiveChunk env chunk) (fun _ => ChunkRead env chunk s) E := by
  refine spec_bind (M := fun gate t => gate = chunkGate env s ∧
    t = { s with history := s.history ++ [.sharedRead] }) ?_ fun gate => spec_assume fun same => ?_
  · refine spec_bind (M := fun st t => st = env.hooksAt s.history ∧
      t = { s with history := s.history ++ [.sharedRead] }) (spec_readHooks env ?_) fun st =>
        spec_pure ?_
    · rintro _ rfl
      exact ⟨rfl, rfl⟩
    · rintro t ⟨rfl, rfl⟩
      exact ⟨rfl, rfl⟩
  refine spec_bind (M := fun _ => ChunkRead env chunk s) ?_ fun sc => ?_
  · rw [same]
    cases gate : chunkGate env s with
    | true => exact spec_fireBodyChunk chunk gate
    | false =>
      refine spec_pure ?_
      rintro _ rfl
      refine ⟨by simp [gate], 0, ?_, by simp [gate]⟩
      simp [firedOffsets, Event.chunkOffset]
  · cases sc with
    | some r =>
      exact spec_bind (M := fun _ => ChunkRead env chunk s)
        (spec_modify fun _ read => ⟨read.bytes, read.offsets⟩) fun _ => spec_pure fun _ read => read
    | none =>
      refine spec_bind (M := fun _ => ChunkRead env chunk s)
        (spec_modify fun t read => ⟨?_, read.offsets⟩) fun _ => spec_pure fun _ read => read
      rw [← read.bytes]
      dsimp only
      split
      · rfl
      · rfl

section
variable {env : Env} {w : WireRequest}

theorem arrivedAfter_concat (seen : List Str) (chunk : Str) :
    arrivedAfter env w (seen ++ [chunk]) =
      after (answerToConnection env w chunk) (arrivedAfter env w seen) := by
  rw [arrivedAfter, List.foldl_concat]
  rfl

variable {seen : List Str} {chunk : Str}

theorem arrived_arrivedAfter (sized : ∀ c ∈ seen, c ≠ []) :
    (arrivedAfter env w seen).conn.arrived = w.arrives env.config := by
  have stable : Undisturbed fun _ => True := fun _ _ _ _ => trivial
  refine List.foldlRecOn (motive := fun s : Session => s.conn.arrived = w.arrives env.config) seen _ ?_ ?_
  · exact (spec_after (spec_firstCall env w stable) ⟨trivial, rfl⟩).2
  · intro s arrived chunk listed
    exact (spec_after (spec_chunkCall env w stable (sized chunk listed)) ⟨trivial, arrived⟩).2

theorem arrivedAfter_call (sized : ∀ c ∈ seen, c ≠ []) (next : chunk ≠ []) :
    answerToConnection env w chunk (arrivedAfter env w seen) =
      if (arrivedAfter env w seen).conn.reading then
        receiveChunk env chunk (arrivedAfter env w seen)
      else .ok .yes (arrivedAfter env w seen) :=
  answerToConnection_chunk env w next (congrArg (·.1.1) (arrived_arrivedAfter sized))

theorem arrivedAfter_ignored (sized : ∀ c ∈ seen, c ≠ []) (next : chunk ≠ [])
    (ignores : (arrivedAfter env w seen).conn.reading = false) :
    arrivedAfter env w (seen ++ [chunk]) = arrivedAfter env w seen := by
  rw [arrivedAfter_concat, after, arrivedAfter_call sized next, ignores]
  rfl

theorem chunkRead_arrivedAfter (sized : ∀ c ∈ seen, c ≠ []) (next : chunk ≠ [])
    (reads : (arrivedAfter env w seen).conn.reading = true) :
    ChunkRead env chunk (arrivedAfter env w seen) (arrivedAfter env w (seen ++ [chunk])) := by
  have read : ChunkRead env chunk (arrivedAfter env w seen)
      (after (receiveChunk env chunk) (arrivedAfter env w seen)) :=
    spec_after (spec_chunkRead env chunk _) rfl
  rw [arrivedAfter_concat, after, arrivedAfter_call sized next, reads]
  exact read

theorem bytes_firstCall : (arrivedAfter env w []).conn.bodyBytesSeen = 0 := by
  have attaches : Calm Conn.bodyBytesSeen (· ∈ firingKinds .requestReceived)
      (attachPostProcessor env w) := by
    refine .setConn fun c => ?_
    split
    · rfl
    · rfl
  have hooks := calm_firstCallHooks env w (fun _ _ same => congrArg Conn.bodyBytesSeen same)
    (fun _ _ => rfl) attaches
  have step : Spec (fun s => s.conn.bodyBytesSeen = 0) (requestsAnswerFirstStep env w)
      (fun _ s => s.conn.bodyBytesSeen = 0) fun _ s => s.conn.bodyBytesSeen = 0 :=
    spec_bind (spec_modify fun _ start => start) fun _ => hooks.view_spec 0
  exact spec_after step (s := w.opened env.config) rfl

theorem bytes_le (seen : List Str) (sized : ∀ c ∈ seen, c ≠ []) :
    (arrivedAfter env w seen).conn.bodyBytesSeen ≤ seen.flatten.length := by
  induction seen using List.reverseRecOn with
  | nil => exact Nat.le_of_eq bytes_firstCall
  | append_singleton seen chunk ih =>
    have sizedSeen : ∀ c ∈ seen, c ≠ [] := fun c listed => sized c (List.mem_append_left _ listed)
    have next : chunk ≠ [] := sized chunk (by simp)
    have earlier := ih sizedSeen
    rw [List.flatten_concat, List.length_append]
    cases reads : (arrivedAfter env w seen).conn.reading with
    | false =>
      rw [arrivedAfter_ignored sizedSeen next reads]
      omega
    | true =>
      rw [(chunkRead_arrivedAfter sizedSeen next reads).bytes]
      have wraps := Nat.mod_le ((arrivedAfter env w seen).conn.bodyBytesSeen + chunk.length) UInt64.size
      split
      · omega
      · omega

theorem reading_earlier (sized : ∀ c ∈ seen, c ≠ []) (next : chunk ≠ [])
    (reads : (arrivedAfter env w (seen ++ [chunk])).conn.reading = true) :
    (arrivedAfter env w seen).conn.reading = true := by
  cases before : (arrivedAfter env w seen).conn.reading with
  | true => rfl
  | false =>
    rw [arrivedAfter_ignored sized next before, before] at reads
    exact reads

def AllCounted (env : Env) (w : WireRequest) (seen : List Str) : Prop :=
  ∀ before chunk later, seen = before ++ chunk :: later →
    chunkGate env (arrivedAfter env w before) = true

theorem allCounted_concat :
    AllCounted env w (seen ++ [chunk]) ↔
      AllCounted env w seen ∧ chunkGate env (arrivedAfter env w seen) = true := by
  constructor
  · intro all
    constructor
    · intro before next later split
      exact all before next (later ++ [chunk]) (by rw [split]; simp)
    · exact all seen chunk [] rfl
  · rintro ⟨earlier, last⟩ before next later split
    rcases List.eq_nil_or_concat later with rfl | ⟨later, final, rfl⟩
    · rw [← List.append_inj_left' split rfl]
      exact last
    · rw [List.concat_eq_append, ← List.cons_append, ← List.append_assoc] at split
      exact earlier before next later (List.append_inj_left' split rfl)

theorem bytes_eq_iff (seen : List Str) (sized : ∀ c ∈ seen, c ≠ [])
    (reads : (arrivedAfter env w seen).conn.reading = true) :
    (arrivedAfter env w seen).conn.bodyBytesSeen = seen.flatten.length ↔
      seen.flatten.length < UInt64.size ∧ AllCounted env w seen := by
  induction seen using List.reverseRecOn with
  | nil =>
    refine ⟨fun _ => ⟨by decide, fun before chunk later split => ?_⟩, fun _ => bytes_firstCall⟩
    cases before <;> cases split
  | append_singleton seen chunk ih =>
    have sizedSeen : ∀ c ∈ seen, c ≠ [] := fun c listed => sized c (List.mem_append_left _ listed)
    have next : chunk ≠ [] := sized chunk (by simp)
    have positive : 0 < chunk.length := List.length_pos_iff.mpr next
    have earlier := reading_earlier sizedSeen next reads
    have most : (arrivedAfter env w seen).conn.bodyBytesSeen ≤ seen.flatten.length :=
      bytes_le seen sizedSeen
    have known := ih sizedSeen earlier
    rw [(chunkRead_arrivedAfter sizedSeen next earlier).bytes, List.flatten_concat,
      List.length_append, allCounted_concat]
    cases gate : chunkGate env (arrivedAfter env w seen) with
    | false =>
      simp only [Bool.false_eq_true, if_false, and_false, iff_false]
      omega
    | true =>
      simp only [if_true, and_true]
      have wraps := Nat.mod_le ((arrivedAfter env w seen).conn.bodyBytesSeen + chunk.length) UInt64.size
      have bound := Nat.mod_lt ((arrivedAfter env w seen).conn.bodyBytesSeen + chunk.length)
        (by decide : UInt64.size > 0)
      constructor
      · intro same
        exact ⟨by omega, (known.mp (by omega)).2⟩
      · rintro ⟨small, counted⟩
        rw [known.mpr ⟨by omega, counted⟩, Nat.mod_eq_of_lt small]

theorem offsets_chunkEvents {seen : List Str} (sized : ∀ c ∈ seen, c ≠ []) {chunk : Str}
    (next : chunk ≠ []) :
    ∃ n, firedOffsets (chunkEvents env w seen chunk) =
        List.replicate n (arrivedAfter env w seen).conn.bodyBytesSeen ∧
      (n ≠ 0 ↔ FiresNext env (arrivedAfter env w seen)) := by
  cases reads : (arrivedAfter env w seen).conn.reading with
  | false =>
    refine ⟨0, ?_, by simp [FiresNext, reads]⟩
    rw [chunkEvents, arrivedAfter_ignored sized next reads, List.drop_length]
    rfl
  | true =>
    obtain ⟨n, offsets, fires⟩ := (chunkRead_arrivedAfter sized next reads).offsets
    obtain ⟨⟨new, whole, -⟩, -⟩ :=
      (calm_receiveChunk env chunk).emits (arrivedAfter env w seen)
    have grown : (arrivedAfter env w (seen ++ [chunk])).history =
        (arrivedAfter env w seen).history ++ new := by
      rw [← whole, arrivedAfter_concat, after, arrivedAfter_call sized next, reads]
      rfl
    refine ⟨n, ?_, by rw [fires]; simp [FiresNext, reads]⟩
    rw [grown, firedOffsets_append, List.append_cancel_left_eq] at offsets
    rw [chunkEvents, grown, List.drop_left, offsets]

theorem receive_eq_arrivedAfter : after (receive env w) {} = arrivedAfter env w w.chunks := by
  have delivered (rest : List Str) : ∀ seen : List Str, (∀ c ∈ seen ++ rest, c ≠ []) →
      after (deliver env w rest) (arrivedAfter env w seen) = arrivedAfter env w (seen ++ rest) := by
    induction rest with
    | nil =>
      intro seen _
      rw [List.append_nil]
      rfl
    | cons chunk rest ih =>
      intro seen sized
      have arrived : (arrivedAfter env w seen).conn.arrived = w.arrives env.config :=
        arrived_arrivedAfter fun c listed => sized c (List.mem_append_left _ listed)
      have returns := (spec_chunkCall env w (I := fun _ => True) (E := fun _ _ => False)
        (fun _ _ _ _ => trivial) (sized chunk (by simp)) _ ⟨trivial, arrived⟩).2
      cases result : outcome (answerToConnection env w chunk) (arrivedAfter env w seen) with
      | error e => exact (returns e result).elim
      | ok a =>
        rw [deliver, (bind_of_ok _ result).2, ← arrivedAfter_concat, ih, List.append_assoc]
        · rfl
        · simpa using sized
  have returns := (spec_firstCall env w (I := fun _ => True) (E := fun _ _ => False)
    (fun _ _ _ _ => trivial) {} ⟨trivial, rfl⟩).2
  cases result : outcome (answerToConnection env w []) {} with
  | error e => exact (returns e result).elim
  | ok a =>
    rw [receive, (bind_of_ok _ result).2]
    exact delivered w.chunks [] w.nonempty

/-- The offsets are true exactly when no chunk is given to a hook behind one that
    came while the gate was shut, and the body is short enough for the counter. -/
theorem body_chunk_offsets_iff (env : Env) (w : WireRequest) :
    TrueOffsets env w ↔
      ∀ seen chunk rest, w.chunks = seen ++ chunk :: rest →
        FiresNext env (arrivedAfter env w seen) →
          seen.flatten.length < UInt64.size ∧ AllCounted env w seen := by
  unfold TrueOffsets
  refine forall₄_congr fun seen chunk rest split => ?_
  have sized : ∀ c ∈ seen, c ≠ [] := fun c listed =>
    w.nonempty c (by rw [split]; exact List.mem_append_left _ listed)
  have next : chunk ≠ [] := w.nonempty chunk (by rw [split]; simp)
  obtain ⟨n, offsets, fires⟩ := @offsets_chunkEvents env w seen sized chunk next
  rw [offsets]
  constructor
  · intro true_ now
    have given : (arrivedAfter env w seen).conn.bodyBytesSeen = seen.flatten.length :=
      true_ _ (List.mem_replicate.mpr ⟨fires.mpr now, rfl⟩)
    exact (bytes_eq_iff seen sized now.1).mp given
  · intro counted offset listed
    obtain ⟨some_, rfl⟩ := List.mem_replicate.mp listed
    have now := fires.mp some_
    exact (bytes_eq_iff seen sized now.1).mpr (counted now)

end

def lateHookEnv : Env :=
  { Env.quiet {} with
    hooksAt := fun h =>
      if h.length < 2 then .constructed {}
      else (HookState.constructed {}).step (.addHook .bodyChunk .bodyChunk (some 1) 0) }

theorem twoChunks_nonempty : ∀ chunk ∈ [['a', 'b'], ['c']], chunk ≠ [] :=
  List.forall_mem_cons.mpr ⟨List.cons_ne_nil _ _,
    List.forall_mem_singleton.mpr (List.cons_ne_nil _ _)⟩

def twoChunkRequest : WireRequest :=
  { plainRequest with
    method := "POST".toList
    chunks := [['a', 'b'], ['c']]
    nonempty := twoChunks_nonempty }

theorem late_hook_gets_offset_zero :
    ¬ TrueOffsets lateHookEnv twoChunkRequest ∧
      firedOffsets (after (receive lateHookEnv twoChunkRequest) {}).history = [0] := by
  refine ⟨fun true_ => ?_, by decide⟩
  have given := true_ ["ab".toList] "c".toList [] rfl 0 (by decide)
  revert given
  decide

end HttpServer
