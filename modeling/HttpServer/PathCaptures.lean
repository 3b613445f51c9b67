import HttpServer.RequestRun
import HttpServer.RequestArgs

/-!
Path captures among the other arguments. Route resolution appends each captured
segment to the values its name has by then: body fields that came before, and
query arguments if a hook or a file part has read an argument. A handler that
asks for the first value gets the captured one only if it is the first.
-/
namespace HttpServer
open Effect ComparatorSet OrderedMap

inductive FileUploadTarget where
  | memoryOnly | diskOnly | memoryAndDisk
  deriving DecidableEq, Repr

/-- What reaches the arguments of a request before its route is resolved: reads
    of `request_received` and `body_chunk` hooks, and the calls of the post
    iterator, with no file name or with one. -/
inductive BodyEvent where
  | read (r : ArgRead)
  | formArg (key : Option Str) (data : Str) (off : Nat)
  | filePart (key data : Str)
  deriving DecidableEq, Repr

namespace RequestArgs

/-- `handle_post_form_arg`: a chunk with an offset continues a value, and one
    without a key is dropped. -/
def handlePostFormArg (s : RequestArgs) (limit : Nat) (key : Option Str) (data : Str) (off : Nat) :
    RequestArgs :=
  match key with
  | none => s
  | some key => if off > 0 then s.growLastArg key data else s.setArg key data limit

def iterateFile (src : ArgSource) (target : FileUploadTarget) (s : RequestArgs) (limit : Nat)
    (key data : Str) : RequestArgs :=
  if target ≠ .diskOnly then
    let (s, values) := s.getArg src key
    s.setArgFlat key (values.headD [] ++ data) limit
  else s

def receive (src : ArgSource) (target : FileUploadTarget) (limit : Nat) (s : RequestArgs) :
    BodyEvent → RequestArgs
  | .read r => s.read src r
  | .formArg key data off => s.handlePostFormArg limit key data off
  | .filePart key data => s.iterateFile src target limit key data

def replay (s : RequestArgs) (req : Request) : RequestArgs :=
  req.setArgs.foldl (fun s capture => s.setArg capture.1 capture.2 req.contentSizeLimit) s

/-- The captured value is the first one already, or it is stored as the first one
    and not cut. -/
def Unclaimed (s : RequestArgs) (limit : Nat) (capture : Str × Str) : Prop :=
  (s.unescapedArgs.find capture.1).elim (capture.2.length ≤ limit)
    fun values => values.head? = some capture.2

structure StartsWith (args : ArgMap) (key first : Str) : Prop where
  valid : args.Valid
  stored : ∃ rest, args.find key = some (first :: rest)

variable {s : RequestArgs} {key first : Str}

theorem StartsWith.appendArg {args : ArgMap} (starts : StartsWith args key first)
    (other value : Str) : StartsWith (args.appendArg other value) key first := by
  obtain ⟨valid, rest, stored⟩ := starts
  refine ⟨valid.appendArg other value, ?_⟩
  rw [valid.find_appendArg]
  split
  · rename_i same
    have here : args.find other = some (first :: rest) := by
      rw [← stored]
      exact find_congr comparison_arg same args
    exact ⟨rest ++ [value], by simp [here]⟩
  · exact ⟨rest, stored⟩

theorem StartsWith.populateArgs (starts : StartsWith s.unescapedArgs key first) (src : ArgSource) :
    StartsWith (s.populateArgs src).unescapedArgs key first :=
  @populateArgs_keeps (StartsWith · key first) src (fun _ pair value _ starts =>
    starts.appendArg pair.1 value) s starts

theorem unescapedArgs_read (src : ArgSource) (s : RequestArgs) (r : ArgRead) :
    (s.read src r).unescapedArgs = (s.populateArgs src).unescapedArgs := by
  cases r with
  | getArg key => rfl
  | getArgFlat key => rfl
  | getArgs =>
    simp only [read, getArgs, ensureArgsViewCached]
    split
    · rfl
    · rfl
  | getArgsFlat =>
    simp only [read, getArgsFlat, ensureArgsFlatViewCached]
    split
    · rfl
    · rfl

theorem StartsWith.reads (starts : StartsWith s.unescapedArgs key first) (src : ArgSource)
    (reads : List ArgRead) :
    StartsWith (reads.foldl (RequestArgs.read src) s).unescapedArgs key first := by
  induction reads generalizing s with
  | nil => exact starts
  | cons r reads ih =>
    refine ih ?_
    rw [unescapedArgs_read]
    exact starts.populateArgs src

theorem StartsWith.getArgFlat (starts : StartsWith s.unescapedArgs key first) (src : ArgSource) :
    (s.getArgFlat src key).2 = some first := by
  obtain ⟨rest, stored⟩ := (starts.populateArgs src).stored
  simp [RequestArgs.getArgFlat, stored]

theorem StartsWith.setArgs (starts : StartsWith s.unescapedArgs key first) (limit : Nat)
    (captures : List (Str × Str)) :
    StartsWith (captures.foldl (fun s capture => s.setArg capture.1 capture.2 limit)
      s).unescapedArgs key first := by
  induction captures generalizing s with
  | nil => exact starts
  | cons capture captures ih => exact ih (starts.appendArg capture.1 _)

def Distinct (captures : List (Str × Str)) : Prop :=
  captures.Pairwise fun a b => equivalent argComparator a.1 b.1 = false

instance decidableDistinct (captures : List (Str × Str)) : Decidable (Distinct captures) :=
  inferInstanceAs (Decidable (captures.Pairwise _))

theorem startsWith_replay (valid : s.unescapedArgs.Valid) (limit : Nat)
    {captures : List (Str × Str)} (distinct : Distinct captures) {capture : Str × Str}
    (listed : capture ∈ captures) :
    StartsWith (captures.foldl (fun s capture => s.setArg capture.1 capture.2 limit)
        s).unescapedArgs capture.1
      (((s.unescapedArgs.find capture.1).bind List.head?).getD (capture.2.take limit)) := by
  cases stored : s.unescapedArgs.find capture.1 with
  | some values =>
    cases values with
    | nil => exact absurd rfl (valid.find_ne_nil stored)
    | cons first rest => exact StartsWith.setArgs ⟨valid, rest, stored⟩ limit captures
  | none =>
    induction captures generalizing s with
    | nil => cases listed
    | cons head captures ih =>
      obtain ⟨apart, rest⟩ := List.pairwise_cons.mp distinct
      rcases List.mem_cons.mp listed with rfl | later
      · have cut := take_min_length capture.2 limit
        refine StartsWith.setArgs ⟨valid.appendArg _ _, [], ?_⟩ limit captures
        change (s.unescapedArgs.appendArg capture.1 _).find capture.1 = _
        rw [valid.find_appendArg, if_pos (comparison_arg.equivalent_self _), stored, cut]
        rfl
      · refine ih (valid.appendArg head.1 _) rest later ?_
        change (s.unescapedArgs.appendArg head.1 _).find capture.1 = none
        rw [valid.find_appendArg, apart capture later, if_neg (by simp), stored]

theorem valid_receive (src : ArgSource) (target : FileUploadTarget) (limit : Nat)
    (valid : s.unescapedArgs.Valid) (event : BodyEvent) :
    (s.receive src target limit event).unescapedArgs.Valid := by
  have loaded := valid_populateArgs src valid
  cases event with
  | read r =>
    rw [receive, unescapedArgs_read]
    exact loaded
  | formArg key data off =>
    cases key with
    | none => exact valid
    | some key =>
      simp only [receive, handlePostFormArg]
      split
      · exact valid.findOrInsertArg key (growLast_ne_nil data)
      · exact valid.appendArg key _
  | filePart key data =>
    simp only [receive, iterateFile]
    split
    · change ((s.populateArgs src).unescapedArgs.findOrInsertArg key fun _ => [_]).Valid
      exact loaded.findOrInsertArg key fun _ => by simp
    · exact valid

theorem valid_received (src : ArgSource) (target : FileUploadTarget) (limit : Nat)
    (events : List BodyEvent) (valid : s.unescapedArgs.Valid) :
    (events.foldl (receive src target limit) s).unescapedArgs.Valid := by
  induction events generalizing s with
  | nil => exact valid
  | cons event events ih => exact ih (valid_receive src target limit valid event)

theorem unclaimed_iff (valid : s.unescapedArgs.Valid) (limit : Nat) (capture : Str × Str) :
    ((s.unescapedArgs.find capture.1).bind List.head?).getD (capture.2.take limit) = capture.2 ↔
      s.Unclaimed limit capture := by
  unfold Unclaimed
  cases stored : s.unescapedArgs.find capture.1 with
  | none =>
    refine ⟨fun whole => ?_, List.take_of_length_le⟩
    rw [Option.bind_none, Option.getD_none] at whole
    exact whole ▸ List.length_take_le limit capture.2
  | some values =>
    cases values with
    | nil => exact absurd rfl (valid.find_ne_nil stored)
    | cons first rest => simp

end RequestArgs

/-- Inside the handler each capture is the first value of its name exactly when
    the arguments stored before route resolution leave it that place. -/
theorem captures_reach_handler_iff (env : Env) (src : ArgSource) (target : FileUploadTarget)
    (events : List BodyEvent) (later : List ArgRead) (st : Session) (req : Request)
    (result : LookupResult) (held : st.conn.request = some req) (unset : req.setArgs = [])
    (found : (env.routes.lookupV2 env.rx env.cache st.conn.methodEnum
      st.conn.standardizedUrl).2 = some result)
    (distinct : RequestArgs.Distinct result.capturedParams) :
    let stored := events.foldl (RequestArgs.receive src target req.contentSizeLimit) {}
    let handled := (after (resolveResourceForRequest env) st).conn.req
    let args := later.foldl (RequestArgs.read src) (stored.replay handled)
    (∀ capture ∈ result.capturedParams,
        (args.getArgFlat src capture.1).2 = some capture.2) ↔
      ∀ capture ∈ result.capturedParams, stored.Unclaimed req.contentSizeLimit capture := by
  intro stored handled args
  have request : handled = { req with setArgs := result.capturedParams } := by
    change (after (resolveResourceForRequest env) st).conn.req = _
    rw [(resolveResourceForRequest_run env found).2]
    simp [Conn.req, Conn.resolve, held, unset]
  have valid : stored.unescapedArgs.Valid :=
    RequestArgs.valid_received src target req.contentSizeLimit events ArgMap.valid_nil
  refine forall₂_congr fun capture listed => ?_
  have starts := (RequestArgs.startsWith_replay valid req.contentSizeLimit distinct
    listed).reads src later
  have flat : (args.getArgFlat src capture.1).2 =
      some (((stored.unescapedArgs.find capture.1).bind List.head?).getD
        (capture.2.take req.contentSizeLimit)) := by
    simp only [args, request]
    exact starts.getArgFlat src
  rw [flat, Option.some.injEq]
  exact RequestArgs.unclaimed_iff valid req.contentSizeLimit capture

def userRoute : Server :=
  (Server.fresh 1 Nat.one_pos).call Server.literalEngine ⟨false, false⟩
    (.registerPath "/u/\x7bid\x7d".toList (some 1))

def Env.userRoute : Env := { Env.quiet {} with
  routes := HttpServer.userRoute.registry.table
  cache := HttpServer.userRoute.cache }

def userSession : Session where
  conn := { standardizedUrl := "/u/7".toList, methodEnum := .post, request := some {} }
  history := []

def userMatch : LookupResult := ⟨.radix, ⟨.setAll, .resource 1, false⟩, [("id".toList, "7".toList)]⟩

def userArg (src : ArgSource) (events : List BodyEvent) : Option Str :=
  let stored := events.foldl (RequestArgs.receive src .memoryOnly (UInt64.size - 1)) {}
  let handled := (after (resolveResourceForRequest Env.userRoute) userSession).conn.req
  ((stored.replay handled).getArgFlat src "id".toList).2

theorem unread_query_leaves_capture :
    userArg ⟨[("id".toList, some "9".toList)], none, 0, 0⟩ [] = some "7".toList := by
  have reach := (captures_reach_handler_iff Env.userRoute
    ⟨[("id".toList, some "9".toList)], none, 0, 0⟩ .memoryOnly [] [] userSession {} userMatch rfl rfl
    (by decide) (by decide)).mpr
  refine reach (fun capture listed => ?_) ("id".toList, "7".toList) List.mem_cons_self
  rw [List.mem_singleton.mp listed]
  exact (by decide : 1 ≤ UInt64.size - 1)

/-- A form field of the same name is the first value, and so is a query argument
    that a hook's read has loaded. -/
theorem earlier_arguments_hide_capture :
    (Env.userRoute.routes.lookupV2 Env.userRoute.rx Env.userRoute.cache .post "/u/7".toList).2 =
        some userMatch ∧
      userArg ⟨[], none, 0, 0⟩ [.formArg (some "id".toList) "9".toList 0] = some "9".toList ∧
      userArg ⟨[("id".toList, some "9".toList)], none, 0, 0⟩ [.read .getArgs] = some "9".toList := by
  decide

end HttpServer
