import HttpServer.PathCaptures
import HttpServer.QueryArguments

/-!
What is stored of a request body under the content limit. The request's content
is cut after every chunk, so it does not depend on the chunks. The value of a
form field is cut only at its first piece, and later pieces are appended whole.
-/
namespace HttpServer
open Effect ComparatorSet OrderedMap

section
variable (env : Env) (w : WireRequest)

/-- The request has a body, no pre-handler hook has answered it, and its bytes go
    to the content, which they do not when only the post processor gets them. -/
structure StoresContent : Prop where
  body : (resolveMethodCallback w.method).2 = true
  unanswered : (after (receive env w) {}).conn.skipHandler = false
  kept : (wantsPostProcessor env w && env.createsPostProcessor) = false ∨
    env.config.putProcessedDataToContent = true

end

def Conn.bodyPart (c : Conn) : Option Request × Bool × Bool × Bool :=
  (c.request, c.hasBody, c.skipHandler, c.pp)

structure Collected (env : Env) (w : WireRequest) (seen : List Str) (c : Conn) : Prop where
  present : c.request.isSome = true
  body : c.hasBody = true
  content : c.skipHandler = false →
    c.pp = (wantsPostProcessor env w && env.createsPostProcessor) ∧
      c.req.contentSizeLimit = env.config.contentSizeLimit ∧
      c.req.content = seen.flatten.take env.config.contentSizeLimit

section
variable {env : Env} {w : WireRequest}

theorem Collected.congr {seen : List Str} {c d : Conn} (collected : Collected env w seen c)
    (same : d.bodyPart = c.bodyPart) : Collected env w seen d := by
  simp only [Conn.bodyPart, Prod.mk.injEq] at same
  obtain ⟨request, body, skips, pp⟩ := same
  have req : d.req = c.req := by rw [Conn.req, request, Conn.req]
  exact ⟨request ▸ collected.present, body ▸ collected.body, fun open_ => by
    rw [pp, req]
    exact collected.content (skips ▸ open_)⟩

theorem bodyPart_of_apart (c d : Conn) (same : c.apart = d.apart) : c.bodyPart = d.bodyPart := by
  have fields := congrArg Conn.bodyPart same
  exact fields

theorem bodyPart_serverGate (phase : HookPhase) :
    Calm Conn.bodyPart (fun _ => True) (serverGate env phase) :=
  calm_serverGate env trivial phase

variable {E : Exc → Session → Prop}

theorem bodyPart_spec {α : Type} {kinds : EventKind → Prop} {x : DispatchM α} {I : Conn → Prop}
    (calm : Calm Conn.bodyPart kinds x) (blind : ∀ c d : Conn, I c → d.bodyPart = c.bodyPart → I d) :
    Spec (fun s => I s.conn) x (fun _ s => I s.conn) E :=
  spec_of_returns (spec_of_steps calm.emits fun s t holds step => blind s.conn t.conn holds step.2)
    calm.returns

theorem take_append_take (limit : Nat) (old new : Str) :
    (old.take limit ++ new).take limit = (old ++ new).take limit := by
  rw [List.take_append, List.take_append, List.take_take, Nat.min_self, List.length_take]
  congr 2
  omega

theorem collected_shortCircuit {seen more : List Str} (r : HttpResponse) :
    Spec (fun s => Collected env w seen s.conn) (shortCircuit r)
      (fun _ s => Collected env w more s.conn) E :=
  spec_modify fun _ collected => ⟨collected.present, collected.body, fun open_ => by cases open_⟩

theorem collected_attach :
    Spec (fun s => s.conn.bodyPart = (some ({} : Request), true, false, false))
      (attachPostProcessor env w) (fun _ s => Collected env w [] s.conn) E := by
  refine spec_modify fun s fresh => ?_
  simp only [Conn.bodyPart, Prod.mk.injEq] at fresh
  obtain ⟨request, body, -, -⟩ := fresh
  simp only [body, if_true]
  exact ⟨by simp [request], rfl, fun _ => ⟨rfl, by simp [Conn.req, request]⟩⟩

theorem collected_firstStep (body : (resolveMethodCallback w.method).2 = true) :
    Spec (fun s => s = w.opened env.config) (requestsAnswerFirstStep env w)
      (fun _ s => Collected env w [] s.conn) E := by
  let fresh (c : Conn) : Prop := c.bodyPart = (some ({} : Request), true, false, false)
  have blind (c d : Conn) (holds : fresh c) (same : d.bodyPart = c.bodyPart) : fresh d :=
    same.trans holds
  have chain (gate : Bool) : Calm Conn.bodyPart (· ∈ firingKinds .requestReceived)
      (gatedChain gate (fireServer env .requestReceived fun _ => .requestReceived)) := by
    refine calm_gatedChain gate (Calm.weaken ?_ bodyPart_of_apart)
    exact calm_fireServer env fun _ => rfl
  refine spec_bind (M := fun _ s => fresh s.conn) (spec_modify ?_) fun _ => ?_
  · rintro _ rfl
    change (some ({} : Request), (resolveMethodCallback w.method).2, false, false) = _
    rw [body]
  refine spec_bind (bodyPart_spec (bodyPart_serverGate _) blind)
    fun gate => ?_
  refine spec_bind (bodyPart_spec (chain gate) blind) fun sc => ?_
  cases sc with
  | some r =>
    refine spec_bind (M := fun _ s => Collected env w [] s.conn) (spec_modify fun s holds => ?_)
      fun _ => spec_pure fun _ collected => collected
    simp only [fresh, Conn.bodyPart, Prod.mk.injEq] at holds
    exact ⟨by simp [holds.1], holds.2.1, fun open_ => by cases open_⟩
  | none => exact spec_bind collected_attach fun _ => spec_pure fun _ collected => collected

theorem collected_growContent
    (kept : (wantsPostProcessor env w && env.createsPostProcessor) = false ∨
      env.config.putProcessedDataToContent = true) (seen : List Str) (chunk : Str) :
    Spec (fun s => Collected env w seen s.conn) (growContent env chunk)
      (fun _ s => Collected env w (seen ++ [chunk]) s.conn) E := by
  refine spec_modify fun s collected => ?_
  obtain ⟨req, request⟩ := Option.isSome_iff_exists.mp collected.present
  cases skips : s.conn.skipHandler with
  | true =>
    dsimp only
    split
    · exact ⟨by simp [request], collected.body, fun open_ => by simp [skips] at open_⟩
    · exact ⟨collected.present, collected.body, fun open_ => by simp [skips] at open_⟩
  | false =>
    obtain ⟨pp, limit, content⟩ := collected.content skips
    have grows : (!s.conn.pp || env.config.putProcessedDataToContent) = true := by
      rw [pp]
      rcases kept with alone | also
      · simp [alone]
      · simp [also]
    rw [Conn.req, request, Option.getD_some] at limit content
    simp only [grows, if_true]
    refine ⟨by simp [request], collected.body, fun _ => ⟨pp, ?_, ?_⟩⟩
    · simp [Conn.req, request, limit]
    · simp [Conn.req, request, limit, content, take_append_take]

theorem collected_receiveChunk
    (kept : (wantsPostProcessor env w && env.createsPostProcessor) = false ∨
      env.config.putProcessedDataToContent = true) (seen : List Str) (chunk : Str) :
    Spec (fun s => Collected env w seen s.conn) (receiveChunk env chunk)
      (fun _ s => Collected env w (seen ++ [chunk]) s.conn) E := by
  have blind (c d : Conn) (holds : Collected env w seen c) (same : d.bodyPart = c.bodyPart) :
      Collected env w seen d := holds.congr same
  have fires : Calm Conn.bodyPart (· ∈ firingKinds .bodyChunk) (fireBodyChunk env chunk) := by
    refine .bind .getConn fun _ => .bind (.setConn fun _ => rfl) fun _ => ?_
    refine Calm.weaken ?_ bodyPart_of_apart
    exact calm_fireServer env fun _ => rfl
  refine spec_bind (bodyPart_spec (bodyPart_serverGate _) blind)
    fun gate => ?_
  refine spec_bind (bodyPart_spec (calm_gatedChain gate fires) blind) fun sc => ?_
  cases sc with
  | some r => exact spec_bind (collected_shortCircuit r) fun _ => spec_pure fun _ collected => collected
  | none =>
    exact spec_bind (collected_growContent kept seen chunk) fun _ => spec_pure fun _ collected =>
      collected

theorem content_receive (stores : StoresContent env w) :
    (after (receive env w) {}).conn.req.content =
      w.chunks.flatten.take env.config.contentSizeLimit := by
  have collected : Collected env w w.chunks (after (receive env w) {}).conn := by
    refine spec_after (I := fun s : Session => Collected env w w.chunks s.conn)
      (spec_receiveChunks env w (fun seen s => Collected env w seen s.conn)
        (fun _ _ collected => collected.present) (collected_firstStep stores.body) ?_ ?_) rfl
    · intro seen chunk _
      exact spec_pre (collected_receiveChunk stores.kept seen chunk) fun _ start => start.1
    · intro seen chunk s collected ignores
      refine ⟨collected.present, collected.body, fun open_ => ?_⟩
      simp [Conn.reading, collected.body, open_] at ignores
  exact (collected.content stores.unanswered).2.2

end

/-- One occurrence of a form field as the post processor delivers it: a first
    piece at offset 0 and more pieces at positive offsets. -/
structure FormField where
  key : Str
  first : Str
  later : List (Str × Nat)
  behind : ∀ piece ∈ later, 0 < piece.2

namespace FormField

def rest (f : FormField) : Str := (f.later.map (·.1)).flatten

def value (f : FormField) : Str := f.first ++ f.rest

def events (f : FormField) : List BodyEvent :=
  .formArg (some f.key) f.first 0 :: f.later.map fun piece => .formArg (some f.key) piece.1 piece.2

def stored (f : FormField) (limit : Nat) : Str := f.first.take limit ++ f.rest

theorem stored_eq_iff (f : FormField) (limit : Nat) :
    f.stored limit = f.value.take limit ↔ f.rest = [] ∨ f.value.length ≤ limit := by
  have cut : f.value.take limit = f.first.take limit ++ f.rest.take (limit - f.first.length) := by
    rw [value, List.take_append]
  rw [stored, cut, List.append_cancel_left_eq, eq_comm, List.take_eq_self_iff, value,
    List.length_append]
  constructor
  · intro fits
    rcases Nat.eq_zero_or_pos f.rest.length with none_ | some_
    · exact Or.inl (List.length_eq_zero_iff.mp none_)
    · exact Or.inr (by omega)
  · rintro (none_ | fits)
    · simp [none_]
    · omega

end FormField

section
variable (src : ArgSource) (target : FileUploadTarget) (limit : Nat)

def storeFields (s : RequestArgs) (fields : List FormField) : RequestArgs :=
  (fields.flatMap FormField.events).foldl (RequestArgs.receive src target limit) s

def FieldsStored (s : RequestArgs) (fields : List FormField) : Prop :=
  ∀ key, (storeFields src target limit s fields).unescapedArgs.values key =
    s.unescapedArgs.values key ++
      (fields.filter fun f => keyBytes f.key = keyBytes key).map fun f => f.value.take limit

end

namespace RequestArgs

section
variable {src : ArgSource} {target : FileUploadTarget} {limit : Nat} {s : RequestArgs}

theorem values_growPieces (valid : s.unescapedArgs.Valid) (key other : Str)
    {pieces : List (Str × Nat)} (behind : ∀ piece ∈ pieces, 0 < piece.2) {old : List Str} {last : Str}
    (stored : s.unescapedArgs.values key = old ++ [last]) :
    ((pieces.map fun piece => BodyEvent.formArg (some key) piece.1 piece.2).foldl
        (receive src target limit) s).unescapedArgs.values other =
      if keyBytes key = keyBytes other then old ++ [last ++ (pieces.map (·.1)).flatten]
      else s.unescapedArgs.values other := by
  induction pieces generalizing s last with
  | nil =>
    split
    · rename_i same
      rw [List.map_nil, List.foldl_nil, ← ArgMap.values_congr _ same, stored]
      simp
    · rfl
  | cons piece pieces ih =>
    obtain ⟨first, later⟩ := List.forall_mem_cons.mp behind
    have grown : s.receive src target limit (.formArg (some key) piece.1 piece.2) =
        s.growLastArg key piece.1 := by
      simp [receive, handlePostFormArg, first]
    have next : (s.growLastArg key piece.1).unescapedArgs.Valid :=
      valid.findOrInsertArg key (growLast_ne_nil piece.1)
    have kept (other : Str) : (s.growLastArg key piece.1).unescapedArgs.values other =
        if keyBytes key = keyBytes other then growLast piece.1 (s.unescapedArgs.values other)
        else s.unescapedArgs.values other := valid.values_findOrInsertArg key _ other
    have stored' : (s.growLastArg key piece.1).unescapedArgs.values key =
        old ++ [last ++ piece.1] := by
      rw [kept, if_pos rfl, stored]
      simp [growLast]
    rw [List.map_cons, List.foldl_cons, grown, ih next later stored']
    split
    · simp
    · rename_i apart
      rw [kept, if_neg apart]

theorem values_field (valid : s.unescapedArgs.Valid) (f : FormField) (key : Str) :
    (f.events.foldl (receive src target limit) s).unescapedArgs.values key =
      s.unescapedArgs.values key ++ if keyBytes f.key = keyBytes key then [f.stored limit] else [] := by
  have begun (other : Str) :
      (s.receive src target limit (.formArg (some f.key) f.first 0)).unescapedArgs.values other =
        s.unescapedArgs.values other ++
          if keyBytes f.key = keyBytes other then [f.first.take limit] else [] := by
    change ((s.unescapedArgs.appendArg f.key _).values other) = _
    rw [valid.values_appendArg, take_min_length]
  have open_ := begun f.key
  rw [if_pos rfl] at open_
  rw [FormField.events, List.foldl_cons, values_growPieces
    (valid_receive src target limit valid _) f.key key f.behind open_]
  split
  · rename_i same
    rw [s.unescapedArgs.values_congr same]
    rfl
  · rename_i apart
    rw [begun, if_neg apart]

theorem values_storeFields (valid : s.unescapedArgs.Valid) (fields : List FormField) (key : Str) :
    (storeFields src target limit s fields).unescapedArgs.values key = s.unescapedArgs.values key ++
      (fields.filter fun f => keyBytes f.key = keyBytes key).map fun f => f.stored limit := by
  induction fields generalizing s with
  | nil => exact (List.append_nil _).symm
  | cons f fields ih =>
    have valid' := valid_received src target limit f.events valid
    have rest := ih valid'
    rw [storeFields] at rest ⊢
    rw [List.flatMap_cons, List.foldl_append, rest, values_field valid, List.append_assoc]
    by_cases same : keyBytes f.key = keyBytes key
    · simp [same]
    · simp [same]

end

end RequestArgs

/-- A field is stored as the limit asks for exactly if it came in one piece or
    fits the limit; the content needs no condition. -/
theorem body_storage_iff (env : Env) (w : WireRequest) (src : ArgSource) (target : FileUploadTarget)
    (earlier : List BodyEvent) (fields : List FormField) :
    let limit := env.config.contentSizeLimit
    let s : RequestArgs := earlier.foldl (RequestArgs.receive src target limit) {}
    ((StoresContent env w →
        (after (receive env w) {}).conn.req.content = w.chunks.flatten.take limit) ∧
      FieldsStored src target limit s fields) ↔
    ∀ f ∈ fields, f.rest = [] ∨ f.value.length ≤ limit := by
  intro limit s
  have valid : s.unescapedArgs.Valid :=
    RequestArgs.valid_received src target limit earlier ArgMap.valid_nil
  constructor
  · rintro ⟨-, stored⟩ f listed
    have values := stored f.key
    rw [RequestArgs.values_storeFields valid, List.append_cancel_left_eq] at values
    refine (f.stored_eq_iff limit).mp (List.map_inj_left.mp values f ?_)
    simp [listed]
  · intro fits
    refine ⟨content_receive, fun key => ?_⟩
    rw [RequestArgs.values_storeFields valid, List.append_cancel_left_eq]
    refine List.map_congr_left fun f listed => (f.stored_eq_iff limit).mpr (fits f ?_)
    exact List.mem_of_mem_filter listed

/-- A limit of one byte and a value in two pieces. -/
theorem later_piece_passes_limit :
    let f : FormField := ⟨['k'], ['a'], [(['b'], 1)], List.forall_mem_singleton.mpr Nat.one_pos⟩
    f.value.take 1 = ['a'] ∧
      (storeFields ⟨[], none, 0, 0⟩ .memoryOnly 1 {} [f]).unescapedArgs.values ['k'] = [['a', 'b']] :=
  ⟨rfl, by decide⟩

end HttpServer
