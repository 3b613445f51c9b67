import HttpServer.Lib.Lifetime
import HttpServer.ResponseBuilding

/-!
The descriptors of file and pipe bodies. A body owns its descriptor until it has
closed it or libmicrohttpd has taken it; a move between responses passes it on,
and the two flags `fd_` and `materialized_` say who has to close it. The log
holds what the library does with descriptors: taking one, closing it, handing it
to libmicrohttpd. Without the descriptors the moves are those of
`Responses.move`.
-/
namespace HttpServer
open Lifetime
open Function (update update_self update_of_ne update_idem update_eq_self comp_update)

/-- The number of a descriptor, with the count of those taken before it: the
    system gives out a number again once it is closed. -/
structure Descriptor where
  serial : Nat
  number : Int
  deriving DecidableEq, Repr

inductive FdEnd where
  | closed | handed
  deriving DecidableEq, Repr

abbrev FdLog := List (Descriptor × Event FdEnd)

inductive FdKind where
  | file (size : Nat)
  | pipe
  deriving DecidableEq, Repr

/-- `fd_` is `none` for -1. `asked` is not in the source: it tells whether
    `materialize` has been called on the body. -/
structure FdBody where
  kind : FdKind
  fd : Option Descriptor
  materialized : Bool := false
  asked : Bool := false
  deriving DecidableEq, Repr

inductive Body where
  | fd (b : FdBody)
  | other
  deriving DecidableEq, Repr

structure FileAnswers where
  openResult : Int
  fstatResult : Int
  regular : Bool
  size : Int
  sizeMax : Nat

def fileBody (serial : Nat) (answers : FileAnswers) (log : FdLog) : FdBody × FdLog :=
  if answers.openResult = -1 then ({ kind := .file 0, fd := none }, log)
  else
    let d : Descriptor := ⟨serial, answers.openResult⟩
    let log := log ++ [(d, .taken)]
    if answers.fstatResult ≠ 0 ∨ answers.regular = false then
      ({ kind := .file 0, fd := none }, log ++ [(d, .ended .closed)])
    else if answers.size < 0 ∨ answers.sizeMax < answers.size then
      ({ kind := .file 0, fd := none }, log ++ [(d, .ended .closed)])
    else ({ kind := .file answers.size.toNat, fd := some d }, log)

def pipeBody (serial : Nat) (fd : Int) (log : FdLog) : FdBody × FdLog :=
  if fd = -1 then ({ kind := .pipe, fd := none }, log)
  else ({ kind := .pipe, fd := some ⟨serial, fd⟩ }, log ++ [(⟨serial, fd⟩, .taken)])

def FdBody.destroy (b : FdBody) (log : FdLog) : FdLog :=
  match b.materialized, b.fd with
  | false, some d => log ++ [(d, .ended .closed)]
  | _, _ => log

def FdBody.moveInto (b : FdBody) : FdBody × FdBody := (b, { b with fd := none, materialized := true })

/-- `accepts` tells whether libmicrohttpd makes a response of the descriptor. -/
def FdBody.materialize (b : FdBody) (accepts : Bool) (log : FdLog) : FdBody × FdLog :=
  match b.kind, b.fd with
  | .file _, none => (b, log)
  | .file size, some d =>
    if size = 0 then ({ b with fd := none }, log ++ [(d, .ended .closed)])
    else if accepts then ({ b with materialized := true }, log ++ [(d, .ended .handed)])
    else (b, log)
  | .pipe, fd =>
    if accepts then ({ b with materialized := true }, ends fd .handed log) else (b, log)

def Body.destroy : Body → FdLog → FdLog
  | .fd b, log => b.destroy log
  | .other, log => log

def Body.moveInto : Body → Body × Body
  | .fd b => (.fd b.moveInto.1, .fd b.moveInto.2)
  | .other => (.other, .other)

structure BodySlot where
  body : Option Body := none
  inline : Bool := false
  deriving DecidableEq, Repr

namespace BodySlot

def destroyBody (r : BodySlot) (log : FdLog) : BodySlot × FdLog :=
  match r.body with
  | none => (r, log)
  | some b => ({}, b.destroy log)

/-- The adopting response, what is left of the other one, and the log. A body in
    the buffer is moved and the old one destroyed; one on the heap changes hands. -/
def adoptBodyFrom (self other : BodySlot) (log : FdLog) : BodySlot × BodySlot × FdLog :=
  match other.body with
  | none => (self, other, log)
  | some b =>
    if other.inline then
      ({ body := some b.moveInto.1, inline := true }, {}, b.moveInto.2.destroy log)
    else ({ body := some b, inline := false }, {}, log)

end BodySlot

structure ResponseVars where
  slots : Nat → Option BodySlot := fun _ => none
  log : FdLog := []
  taken : Nat := 0

inductive BodyOp where
  | construct (x : Nat)
  | file (x : Nat) (answers : FileAnswers) (inline : Bool)
  | pipe (x : Nat) (fd : Int) (inline : Bool)
  | other (x : Nat) (inline : Bool)
  | moveConstruct (dst src : Nat)
  | moveAssign (dst src : Nat)
  | materialize (x : Nat) (accepts : Bool)
  | destroy (x : Nat)

namespace ResponseVars

def put (s : ResponseVars) (x : Nat) (slot : Option BodySlot) (log : FdLog) : ResponseVars :=
  { s with slots := update s.slots x slot, log := log }

def place (s : ResponseVars) (x : Nat) (inline : Bool) (made : FdBody × FdLog) : ResponseVars :=
  { s.put x (some { body := some (.fd made.1), inline := inline }) made.2 with taken := s.taken + 1 }

/-- No result for what a program cannot do, such as a second use of a variable,
    and for a second materialisation of a body. -/
def step (s : ResponseVars) : BodyOp → Option ResponseVars
  | .construct x => if s.slots x = none then some (s.put x (some {}) s.log) else none
  | .file x answers inline =>
    if s.slots x = none then some (s.place x inline (fileBody s.taken answers s.log)) else none
  | .pipe x fd inline =>
    if s.slots x = none then some (s.place x inline (pipeBody s.taken fd s.log)) else none
  | .other x inline =>
    if s.slots x = none then some (s.put x (some { body := some .other, inline := inline }) s.log)
    else none
  | .moveConstruct dst src =>
    match s.slots dst, s.slots src with
    | none, some other =>
      let (self, other, log) := ({} : BodySlot).adoptBodyFrom other s.log
      some ((s.put dst (some self) log).put src (some other) log)
    | _, _ => none
  | .moveAssign dst src =>
    match s.slots dst, s.slots src with
    | some self, some other =>
      if dst = src then some s
      else
        let (self, log) := self.destroyBody s.log
        let (self, other, log) := self.adoptBodyFrom other log
        some ((s.put dst (some self) log).put src (some other) log)
    | _, _ => none
  | .materialize x accepts =>
    match s.slots x with
    | none => none
    | some { body := some (.fd b), inline := inline } =>
      if b.asked then none
      else
        let (b, log) := b.materialize accepts s.log
        some (s.put x (some { body := some (.fd { b with asked := true }), inline := inline }) log)
    | some _ => some s
  | .destroy x =>
    match s.slots x with
    | none => none
    | some r => some (s.put x none (r.destroyBody s.log).2)

def run (ops : List BodyOp) : Option ResponseVars := ops.foldlM step {}

end ResponseVars

def FdBody.owned (b : FdBody) : Option Descriptor := if b.materialized then none else b.fd

def Body.owned : Body → Option Descriptor
  | .fd b => b.owned
  | .other => none

def BodySlot.owned (r : BodySlot) : Option Descriptor := r.body.bind Body.owned

theorem Body.destroy_eq (b : Body) (log : FdLog) : b.destroy log = ends b.owned .closed log := by
  cases b with
  | other => rfl
  | fd b =>
    obtain ⟨kind, fd, materialized, asked⟩ := b
    cases materialized with
    | true => rfl
    | false =>
      cases fd with
      | none => rfl
      | some d => rfl

theorem Body.owned_moveInto (b : Body) : b.moveInto.1.owned = b.owned ∧ b.moveInto.2.owned = none := by
  cases b with
  | other => exact ⟨rfl, rfl⟩
  | fd b => exact ⟨rfl, rfl⟩

theorem BodySlot.destroyBody_eq (r : BodySlot) (log : FdLog) :
    (r.destroyBody log).1.owned = none ∧ (r.destroyBody log).2 = ends r.owned .closed log := by
  obtain ⟨body, inline⟩ := r
  cases body with
  | none => exact ⟨rfl, rfl⟩
  | some b => exact ⟨rfl, b.destroy_eq log⟩

variable {self : BodySlot}

theorem BodySlot.adoptBodyFrom_eq (empty : self.owned = none) (other : BodySlot) (log : FdLog) :
    (self.adoptBodyFrom other log).1.owned = other.owned ∧
      (self.adoptBodyFrom other log).2.1.owned = none ∧
      (self.adoptBodyFrom other log).2.2 = log := by
  obtain ⟨body, inline⟩ := other
  cases body with
  | none => exact ⟨empty, rfl, rfl⟩
  | some b =>
    obtain ⟨moved, left⟩ := b.owned_moveInto
    cases inline with
    | false => exact ⟨rfl, rfl, rfl⟩
    | true =>
      refine ⟨moved, rfl, ?_⟩
      exact (Body.destroy_eq _ log).trans (by rw [left, ends])

theorem FdBody.materialize_cases {b : FdBody} (untaken : b.materialized = false) (accepts : Bool)
    (log : FdLog) :
    ((b.materialize accepts log).1.owned = b.owned ∧ (b.materialize accepts log).2 = log) ∨
      ∃ how, (b.materialize accepts log).1.owned = none ∧
        (b.materialize accepts log).2 = ends b.owned how log := by
  obtain ⟨kind, fd, materialized, asked⟩ := b
  cases untaken
  cases kind with
  | file size =>
    cases fd with
    | none => exact Or.inl ⟨rfl, rfl⟩
    | some d =>
      simp only [materialize]
      split
      · exact Or.inr ⟨.closed, rfl, rfl⟩
      · split
        · exact Or.inr ⟨.handed, rfl, rfl⟩
        · exact Or.inl ⟨rfl, rfl⟩
  | pipe =>
    cases accepts with
    | true => exact Or.inr ⟨.handed, rfl, rfl⟩
    | false => exact Or.inl ⟨rfl, rfl⟩

inductive Made (serial : Nat) (log : FdLog) : FdBody × FdLog → Prop
  | nothing (kind : FdKind) : Made serial log ({ kind := kind, fd := none }, log)
  | refused (kind : FdKind) (d : Descriptor) (new : d.serial = serial) :
    Made serial log
      ({ kind := kind, fd := none }, log ++ [(d, .taken)] ++ [(d, .ended .closed)])
  | kept (kind : FdKind) (d : Descriptor) (new : d.serial = serial) :
    Made serial log ({ kind := kind, fd := some d }, log ++ [(d, .taken)])

theorem made_fileBody (serial : Nat) (answers : FileAnswers) (log : FdLog) :
    Made serial log (fileBody serial answers log) := by
  unfold fileBody
  split
  · exact .nothing _
  · dsimp only
    split
    · exact .refused _ _ rfl
    · split
      · exact .refused _ _ rfl
      · exact .kept _ _ rfl

theorem made_pipeBody (serial : Nat) (fd : Int) (log : FdLog) :
    Made serial log (pipeBody serial fd log) := by
  unfold pipeBody
  split
  · exact .nothing _
  · exact .kept _ _ rfl

structure Accounted (a : Account Nat Descriptor FdEnd) (n : Nat) : Prop where
  balanced : a.Balanced
  earlier : ∀ entry ∈ a.log, entry.1.serial < n

namespace Accounted
variable {a : Account Nat Descriptor FdEnd} {n : Nat}

theorem later (accounted : Accounted a n) : Accounted a (n + 1) :=
  ⟨accounted.balanced, fun entry listed => Nat.lt_succ_of_lt (accounted.earlier entry listed)⟩

theorem take (accounted : Accounted a n) {x : Nat} {d : Descriptor} (empty : a.owned x = none)
    (new : d.serial = n) : Accounted (a.take x d) (n + 1) := by
  have fresh : history a.log d = [] := by
    refine List.map_eq_nil_iff.mpr (List.filter_eq_nil_iff.mpr fun entry listed same => ?_)
    have before := accounted.earlier entry listed
    rw [of_decide_eq_true same, new] at before
    exact Nat.lt_irrefl n before
  refine ⟨accounted.balanced.take empty fresh, fun entry listed => ?_⟩
  rcases List.mem_append.mp listed with old | added
  · exact accounted.later.earlier entry old
  · rw [List.mem_singleton.mp added]
    exact Nat.lt_succ_of_le (Nat.le_of_eq new)

theorem finish (accounted : Accounted a n) (x : Nat) (how : FdEnd) :
    Accounted (a.finish x how) n := by
  refine ⟨accounted.balanced.finish x how, ?_⟩
  unfold Account.finish
  cases owns : a.owned x with
  | none => exact accounted.earlier
  | some d =>
    have taken : .taken ∈ history a.log d := by
      rw [accounted.balanced.held x d owns]
      exact List.mem_singleton_self _
    obtain ⟨⟨d', e⟩, listed, -⟩ := List.mem_map.mp taken
    obtain ⟨logged, same⟩ := List.mem_filter.mp listed
    intro entry listed
    rcases List.mem_append.mp listed with old | added
    · exact accounted.earlier entry old
    · have before := accounted.earlier _ logged
      rw [of_decide_eq_true same] at before
      rw [List.mem_singleton.mp added]
      exact before

theorem transfer (accounted : Accounted a n) {dst src : Nat} (empty : a.owned dst = none)
    (distinct : dst ≠ src) : Accounted (a.transfer dst src) n :=
  ⟨accounted.balanced.transfer empty distinct, accounted.earlier⟩

end Accounted

def BodySlot.Offered (r : BodySlot) : Prop :=
  ∀ b, r.body = some (.fd b) → b.materialized = true → b.asked = true

theorem BodySlot.Offered.adopt {other : BodySlot} (own : self.Offered) (given : other.Offered)
    (log : FdLog) :
    (self.adoptBodyFrom other log).1.Offered ∧ (self.adoptBodyFrom other log).2.1.Offered := by
  obtain ⟨body, inline⟩ := other
  cases body with
  | none => exact ⟨own, given⟩
  | some b =>
    cases inline with
    | false => exact ⟨given, nofun⟩
    | true =>
      cases b with
      | other => exact ⟨nofun, nofun⟩
      | fd b => exact ⟨given, nofun⟩

namespace ResponseVars

def owned (s : ResponseVars) (x : Nat) : Option Descriptor := (s.slots x).bind BodySlot.owned

def account (s : ResponseVars) : Account Nat Descriptor FdEnd := ⟨s.owned, s.log⟩

theorem account_put (s : ResponseVars) (x : Nat) (slot : Option BodySlot) (log : FdLog) :
    (s.put x slot log).account = ⟨update s.owned x (slot.bind BodySlot.owned), log⟩ := by
  have owned := comp_update (fun slot : Option BodySlot => slot.bind BodySlot.owned)
    s.slots x slot
  exact congrArg (Account.mk · log) owned

structure Sound (s : ResponseVars) : Prop where
  accounted : Accounted s.account s.taken
  offered : ∀ x r, s.slots x = some r → r.Offered

variable {s : ResponseVars} {x : Nat} {slot : Option BodySlot}

theorem owned_eq (stored : s.slots x = slot) :
    s.account.owned x = slot.bind BodySlot.owned := congrArg (Option.bind · BodySlot.owned) stored

theorem update_owned {o : Option Descriptor} (same : s.account.owned x = o) :
    update s.owned x o = s.account.owned := by
  rw [← same]
  exact update_eq_self x s.owned

theorem offered_put (offered : ∀ x r, s.slots x = some r → r.Offered)
    (new : ∀ r, slot = some r → r.Offered) (log : FdLog) :
    ∀ y r, (s.put x slot log).slots y = some r → r.Offered := by
  intro y r stored
  change update s.slots x slot y = some r at stored
  rcases eq_or_ne y x with rfl | other
  · rw [update_self] at stored
    exact new r stored
  · rw [update_of_ne other] at stored
    exact offered y r stored

namespace Sound

theorem start : Sound {} where
  accounted := ⟨.start, fun _ listed => absurd listed List.not_mem_nil⟩
  offered _ _ stored := (Option.some_ne_none _ stored.symm).elim

variable {x dst src : Nat} {next : ResponseVars} {r self other : BodySlot} {log : FdLog}

theorem put_plain (sound : s.Sound) (dead : s.slots x = none) (plain : r.owned = none)
    (offered : r.Offered) : Sound (s.put x (some r) s.log) where
  accounted := by
    have same : update s.owned x none = s.account.owned := update_owned (owned_eq dead)
    rw [account_put, Option.bind_some, plain, same]
    exact sound.accounted
  offered := offered_put sound.offered (fun _ same => Option.some.inj same ▸ offered) s.log

theorem place (sound : s.Sound) (dead : s.slots x = none) (inline : Bool) {made : FdBody × FdLog}
    (shape : Made s.taken s.log made) : Sound (s.place x inline made) := by
  have empty : s.account.owned x = none := owned_eq dead
  have account : (s.place x inline made).account =
      ⟨update s.owned x made.1.owned, made.2⟩ := account_put ..
  constructor
  · rw [account]
    cases shape with
    | nothing kind =>
      have same : update s.owned x none = s.account.owned := update_owned empty
      change Accounted ⟨update s.owned x none, s.log⟩ _
      rw [same]
      exact sound.accounted.later
    | kept kind d new => exact sound.accounted.take empty new
    | refused kind d new =>
      have closed := (sound.accounted.take empty new).finish x .closed
      have same : ((s.account.take x d).finish x .closed) =
          ⟨update s.owned x none,
            s.log ++ [(d, .taken)] ++ [(d, .ended .closed)]⟩ := by
        simp only [Account.finish, Account.take, update_self, update_idem]
        rfl
      rw [same] at closed
      exact closed
  · refine offered_put sound.offered (fun r stored b same taken => ?_) made.2
    cases stored
    cases same
    cases shape with
    | nothing _ | kept _ _ _ | refused _ _ _ => cases taken

theorem move (sound : s.Sound) (distinct : dst ≠ src) (adopted : self.owned = s.account.owned src)
    (left : other.owned = none) (own : self.Offered) (rest : other.Offered)
    (dropped : log = ends (s.account.owned dst) .closed s.log) :
    Sound ((s.put dst (some self) log).put src (some other) log) where
  accounted := by
    have empty : (s.account.finish dst .closed).owned dst = none := update_self ..
    have kept : (s.account.finish dst .closed).owned src = s.account.owned src :=
      update_of_ne distinct.symm ..
    have passed : (s.account.finish dst .closed).transfer dst src =
        ((s.put dst (some self) log).put src (some other) log).account := by
      have first : (s.put dst (some self) log).owned =
          update s.owned dst (s.account.owned src) := by
        rw [← adopted]
        exact congrArg Account.owned (account_put s dst (some self) log)
      rw [account_put, Option.bind_some, left, first, dropped, Account.transfer, kept]
      simp only [Account.finish, update_idem]
      rfl
    rw [← passed]
    exact (sound.accounted.finish dst .closed).transfer empty distinct
  offered :=
    offered_put (offered_put sound.offered (fun _ same => Option.some.inj same ▸ own) log)
      (fun _ same => Option.some.inj same ▸ rest) log

theorem materialize (sound : s.Sound) {b : FdBody} {inline : Bool}
    (stored : s.slots x = some { body := some (.fd b), inline := inline }) (first : b.asked = false)
    (accepts : Bool) :
    Sound (s.put x (some {
      body := some (.fd { (b.materialize accepts s.log).1 with asked := true })
      inline := inline }) (b.materialize accepts s.log).2) where
  accounted := by
    have untaken : b.materialized = false := by
      by_contra taken
      have asked := sound.offered x _ stored b rfl (by simpa using taken)
      rw [first] at asked
      cases asked
    have owns : s.account.owned x = b.owned := owned_eq stored
    rw [account_put]
    change Accounted ⟨update s.owned x (b.materialize accepts s.log).1.owned, _⟩ s.taken
    rcases b.materialize_cases untaken accepts s.log with ⟨same, log⟩ | ⟨how, none, log⟩
    · rw [same, log, update_owned owns]
      exact sound.accounted
    · rw [none, log, ← owns]
      exact sound.accounted.finish x how
  offered := by
    refine offered_put sound.offered (fun r same b' fd _ => ?_) _
    cases same
    cases fd
    rfl

theorem destroy (sound : s.Sound) (stored : s.slots x = some r) :
    Sound (s.put x none (r.destroyBody s.log).2) where
  accounted := by
    have owns : s.account.owned x = r.owned := owned_eq stored
    rw [account_put, (r.destroyBody_eq s.log).2, ← owns]
    exact sound.accounted.finish x .closed
  offered := offered_put sound.offered (fun _ gone => (Option.some_ne_none _ gone.symm).elim) _

theorem adopt (sound : s.Sound) (distinct : dst ≠ src) (empty : self.owned = none)
    (bare : self.Offered) (alive : s.slots src = some other)
    (dropped : log = ends (s.account.owned dst) .closed s.log) :
    Sound ((s.put dst (some (self.adoptBodyFrom other log).1) (self.adoptBodyFrom other log).2.2).put
      src (some (self.adoptBodyFrom other log).2.1) (self.adoptBodyFrom other log).2.2) := by
  obtain ⟨adopted, left, same⟩ := BodySlot.adoptBodyFrom_eq empty other log
  obtain ⟨own, rest⟩ := bare.adopt (sound.offered src other alive) log
  apply sound.move distinct ?_ left own rest (same.trans dropped)
  exact adopted.trans (owned_eq alive).symm

theorem moveConstruct (sound : s.Sound) (ran : s.step (.moveConstruct dst src) = some next) :
    next.Sound := by
  simp only [ResponseVars.step] at ran
  split at ran
  · rename_i other dead alive
    cases ran
    have distinct : dst ≠ src := by
      rintro rfl
      rw [dead] at alive
      cases alive
    have bare : ({} : BodySlot).Offered := nofun
    apply sound.adopt distinct rfl bare alive
    exact congrArg (ends · _ s.log) (owned_eq dead).symm
  · cases ran

theorem moveAssign (sound : s.Sound) (ran : s.step (.moveAssign dst src) = some next) :
    next.Sound := by
  simp only [ResponseVars.step] at ran
  split at ran
  · rename_i self other target alive
    split at ran
    · cases ran
      exact sound
    · rename_i distinct
      cases ran
      obtain ⟨empty, closed⟩ := self.destroyBody_eq s.log
      have bare : (self.destroyBody s.log).1.Offered := by
        unfold BodySlot.destroyBody
        split
        · exact sound.offered dst self target
        · exact nofun
      apply sound.adopt distinct empty bare alive
      exact closed.trans (congrArg (ends · _ s.log) (owned_eq target).symm)
  · cases ran

theorem of_dead {made : ResponseVars}
    (ran : (if s.slots x = none then some made else none) = some next) :
    s.slots x = none ∧ made = next := by
  split at ran
  · rename_i dead
    exact ⟨dead, Option.some.inj ran⟩
  · cases ran

theorem step (sound : s.Sound) {op : BodyOp} (ran : s.step op = some next) : next.Sound := by
  cases op with
  | construct x =>
    obtain ⟨dead, rfl⟩ := of_dead ran
    exact sound.put_plain dead rfl nofun
  | file x answers inline =>
    obtain ⟨dead, rfl⟩ := of_dead ran
    exact sound.place dead inline (made_fileBody s.taken answers s.log)
  | pipe x fd inline =>
    obtain ⟨dead, rfl⟩ := of_dead ran
    exact sound.place dead inline (made_pipeBody s.taken fd s.log)
  | other x inline =>
    obtain ⟨dead, rfl⟩ := of_dead ran
    exact sound.put_plain dead rfl nofun
  | moveConstruct dst src => exact sound.moveConstruct ran
  | moveAssign dst src => exact sound.moveAssign ran
  | materialize x accepts =>
    simp only [ResponseVars.step] at ran
    split at ran
    · cases ran
    · rename_i b inline stored
      split at ran
      · cases ran
      · rename_i first
        cases ran
        exact sound.materialize stored (by simpa using first) accepts
    · cases ran
      exact sound
  | destroy x =>
    simp only [ResponseVars.step] at ran
    split at ran
    · cases ran
    · rename_i r stored
      cases ran
      exact sound.destroy stored

theorem run {ops : List BodyOp} {last : ResponseVars} (sound : s.Sound)
    (ran : ops.foldlM ResponseVars.step s = some last) : last.Sound := by
  induction ops generalizing s with
  | nil =>
    cases ran
    exact sound
  | cons op ops ih =>
    rw [List.foldlM_cons] at ran
    obtain ⟨next, stepped, rest⟩ := Option.bind_eq_some_iff.mp ran
    exact ih (sound.step stepped) rest

end Sound
end ResponseVars

def FileAnswers.fileSize (answers : FileAnswers) : Nat :=
  match (fileBody 0 answers []).1.kind with
  | .file size => size
  | .pipe => 0

/-- The calls with the responses as values. -/
def BodyOp.calls : BodyOp → List ResponseOp
  | .construct x => [.make x .construct]
  | .file x answers _ => [.make x (.file [] answers.fileSize answers.openResult)]
  | .pipe x fd _ => [.make x (.pipe fd)]
  | .other x _ => [.make x (.empty 0)]
  | .moveConstruct dst src => [.move dst src]
  | .moveAssign dst src => [.move dst src]
  | .materialize _ _ => []
  | .destroy _ => []

def Body.fdKind : Body → Option FdKind
  | .fd b => some b.kind
  | .other => none

def ResponseBody.fdKind : ResponseBody → Option FdKind
  | .file _ size _ => some (.file size)
  | .pipe _ => some .pipe
  | _ => none

namespace ResponseVars
variable {s : ResponseVars} {r : Responses}

/-- The variables that are alive hold bodies of the same kinds. -/
def Matches (s : ResponseVars) (r : Responses) : Prop :=
  ∀ x slot, s.slots x = some slot →
    slot.body.map Body.fdKind = (r x).body.map ResponseBody.fdKind

theorem Matches.put (matched : Matches s r) {x : Nat} {slot : Option BodySlot} {made : HttpResponse}
    (new : ∀ b, slot = some b → b.body.map Body.fdKind = made.body.map ResponseBody.fdKind)
    (log : FdLog) : Matches (s.put x slot log) (update r x made) := by
  intro y b stored
  change update s.slots x slot y = some b at stored
  rcases eq_or_ne y x with rfl | other
  · rw [update_self] at stored ⊢
    exact new b stored
  · rw [update_of_ne other] at stored ⊢
    exact matched y b stored

theorem Matches.keep (matched : Matches s r) {x : Nat} {slot : Option BodySlot}
    (new : ∀ b, slot = some b → b.body.map Body.fdKind = (r x).body.map ResponseBody.fdKind)
    (log : FdLog) : Matches (s.put x slot log) r := by
  have same := @Matches.put s r matched x slot (r x) new log
  rwa [update_eq_self] at same

variable {self : BodySlot}

theorem fdKind_adopt (empty : self.body = none) (other : BodySlot) (log : FdLog) :
    (self.adoptBodyFrom other log).1.body.map Body.fdKind = other.body.map Body.fdKind ∧
      (self.adoptBodyFrom other log).2.1.body = none := by
  obtain ⟨body, inline⟩ := other
  cases body with
  | none => exact ⟨congrArg _ empty, rfl⟩
  | some b =>
    cases inline with
    | false => exact ⟨rfl, rfl⟩
    | true =>
      cases b with
      | fd b => exact ⟨rfl, rfl⟩
      | other => exact ⟨rfl, rfl⟩

theorem Matches.move (matched : Matches s r) {dst src : Nat} (distinct : dst ≠ src)
    {other : BodySlot} (empty : self.body = none) (alive : s.slots src = some other) (log : FdLog) :
    Matches ((s.put dst (some (self.adoptBodyFrom other log).1) (self.adoptBodyFrom other log).2.2).put
      src (some (self.adoptBodyFrom other log).2.1) (self.adoptBodyFrom other log).2.2)
      (r.move dst src) := by
  obtain ⟨adopted, left⟩ := fdKind_adopt empty other log
  rw [Responses.move, if_neg distinct]
  refine (matched.put (fun b same => ?_) _).put (fun b same => ?_) _
  · cases same
    exact adopted.trans (matched src other alive)
  · cases same
    rw [left]
    rfl

theorem kind_fileBody (serial : Nat) (answers : FileAnswers) (log : FdLog) :
    (fileBody serial answers log).1.kind = .file answers.fileSize := by
  unfold FileAnswers.fileSize fileBody
  split
  · rfl
  · dsimp only
    split
    · rfl
    · split
      · rfl
      · rfl

theorem kind_pipeBody (serial : Nat) (fd : Int) (log : FdLog) :
    (pipeBody serial fd log).1.kind = .pipe := by
  unfold pipeBody
  split <;> rfl

theorem kind_materialize (b : FdBody) (accepts : Bool) (log : FdLog) :
    (b.materialize accepts log).1.kind = b.kind := by
  unfold FdBody.materialize
  repeat' split
  all_goals rfl

theorem body_destroyBody (r : BodySlot) (log : FdLog) : (r.destroyBody log).1.body = none := by
  obtain ⟨body, inline⟩ := r
  cases body with
  | none => rfl
  | some b => rfl

/-- Each step of the bodies is a step of the values. -/
theorem Matches.step (matched : Matches s r) {op : BodyOp} {next : ResponseVars}
    (ran : s.step op = some next) : Matches next (r.run op.calls) := by
  have made {x : Nat} {b : BodySlot} {v : HttpResponse} (log : FdLog)
      (same : b.body.map Body.fdKind = v.body.map ResponseBody.fdKind) :
      Matches (s.put x (some b) log) (update r x v) :=
    matched.put (fun _ stored => Option.some.inj stored ▸ same) log
  cases op with
  | construct x =>
    obtain ⟨-, rfl⟩ := Sound.of_dead ran
    exact made _ rfl
  | file x answers inline =>
    obtain ⟨-, rfl⟩ := Sound.of_dead ran
    exact made (fileBody s.taken answers s.log).2 (congrArg (some ∘ some) (kind_fileBody ..))
  | pipe x fd inline =>
    obtain ⟨-, rfl⟩ := Sound.of_dead ran
    exact made (pipeBody s.taken fd s.log).2 (congrArg (some ∘ some) (kind_pipeBody ..))
  | other x inline =>
    obtain ⟨-, rfl⟩ := Sound.of_dead ran
    exact made _ rfl
  | moveConstruct dst src =>
    simp only [ResponseVars.step] at ran
    split at ran
    · rename_i other dead alive
      cases ran
      refine matched.move (fun same => ?_) rfl alive s.log
      rw [← same, dead] at alive
      cases alive
    · cases ran
  | moveAssign dst src =>
    simp only [ResponseVars.step] at ran
    split at ran
    · rename_i self other target alive
      split at ran
      · rename_i same
        cases ran
        have unmoved : r.move dst src = r := if_pos same
        change Matches s (r.move dst src)
        rw [unmoved]
        exact matched
      · rename_i distinct
        cases ran
        exact matched.move distinct (body_destroyBody self s.log) alive _
    · cases ran
  | materialize x accepts =>
    simp only [ResponseVars.step] at ran
    split at ran
    · cases ran
    · rename_i b inline stored
      split at ran
      · cases ran
      · cases ran
        refine matched.keep (fun slot same => ?_) _
        cases same
        have kind := kind_materialize b accepts s.log
        exact (congrArg (some ∘ some) kind).trans (matched x _ stored)
    · cases ran
      exact matched
  | destroy x =>
    simp only [ResponseVars.step] at ran
    split at ran
    · cases ran
    · cases ran
      exact matched.keep (fun _ same => by cases same) _

theorem matches_run {ops : List BodyOp} {last : ResponseVars}
    (ran : ResponseVars.run ops = some last) :
    Matches last (Responses.run (fun _ => {}) (ops.flatMap BodyOp.calls)) := by
  have all {ops : List BodyOp} {s last : ResponseVars} {r : Responses} (matched : Matches s r)
      (ran : ops.foldlM ResponseVars.step s = some last) :
      Matches last (r.run (ops.flatMap BodyOp.calls)) := by
    induction ops generalizing s r with
    | nil =>
      cases ran
      exact matched
    | cons op ops ih =>
      rw [List.foldlM_cons] at ran
      obtain ⟨next, stepped, rest⟩ := Option.bind_eq_some_iff.mp ran
      rw [List.flatMap_cons, Responses.run, List.foldl_append]
      exact ih (matched.step stepped) rest
  exact all (fun _ _ stored => by cases stored) ran

end ResponseVars

/-- A descriptor that was taken is owned by one response, until it is either
    closed or handed over, once; and when no response is left, it has been. -/
theorem descriptors_released_once {ops : List BodyOp} {s : ResponseVars}
    (ran : ResponseVars.run ops = some s) (d : Descriptor) :
    ((d, .taken) ∉ s.log ∧ history s.log d = [] ∨
        history s.log d = [.taken] ∧ (∃ x, s.owned x = some d) ∨
        history s.log d = [.taken, .ended .closed] ∨
        history s.log d = [.taken, .ended .handed]) ∧
      ((∀ x, s.slots x = none) → (d, .taken) ∈ s.log →
        history s.log d = [.taken, .ended .closed] ∨
        history s.log d = [.taken, .ended .handed]) := by
  have balanced := (ResponseVars.Sound.start.run ran).accounted.balanced
  have logged (listed : (d, Event.taken) ∈ s.log) : history s.log d ≠ [] := by
    refine List.ne_nil_of_mem (List.mem_map_of_mem (List.mem_filter.mpr ⟨listed, ?_⟩))
    exact decide_eq_true rfl
  have released (nobody : ∀ x, s.owned x ≠ some d) :
      history s.log d = [] ∨ history s.log d = [.taken, .ended .closed] ∨
        history s.log d = [.taken, .ended .handed] := by
    rcases balanced.free d nobody with never | ⟨how, settled⟩
    · exact Or.inl never
    · cases how with
      | closed => exact Or.inr (Or.inl settled)
      | handed => exact Or.inr (Or.inr settled)
  constructor
  · by_cases owner : ∃ x, s.owned x = some d
    · obtain ⟨x, owns⟩ := owner
      exact Or.inr (Or.inl ⟨balanced.held x d owns, x, owns⟩)
    · rcases released fun x owns => owner ⟨x, owns⟩ with never | settled
      · exact Or.inl ⟨fun listed => logged listed never, never⟩
      · exact Or.inr (Or.inr settled)
  · intro gone listed
    have nobody (x : Nat) : s.owned x ≠ some d := by
      rw [ResponseVars.owned, gone x]
      exact nofun
    rcases released nobody with never | settled
    · exact absurd never (logged listed)
    · exact settled

def refusedFileOps : List BodyOp :=
  [.file 0 ⟨5, 0, true, 10, 4096⟩ true, .moveConstruct 1 0, .materialize 1 false, .other 2 true,
    .destroy 1, .moveConstruct 1 2, .destroy 2, .materialize 1 true, .pipe 3 5 true,
    .moveAssign 0 3, .materialize 0 true, .destroy 0, .destroy 1, .destroy 3]

def refusedFileRun : ResponseVars := (ResponseVars.run refusedFileOps).getD {}

theorem refusedFileRun_slots (x : Nat) : refusedFileRun.slots x = none := by
  rcases x with - | - | - | - | later
  · rfl
  · rfl
  · rfl
  · rfl
  · rfl

theorem refused_file_released_once :
    ResponseVars.run refusedFileOps = some refusedFileRun ∧
      history refusedFileRun.log ⟨0, 5⟩ = [.taken, .ended .closed] ∧
      (history refusedFileRun.log ⟨1, 5⟩ = [.taken, .ended .closed] ∨
        history refusedFileRun.log ⟨1, 5⟩ = [.taken, .ended .handed]) := by
  have ran : ResponseVars.run refusedFileOps = some refusedFileRun := rfl
  refine ⟨ran, by decide, ?_⟩
  exact (descriptors_released_once ran ⟨1, 5⟩).2 refusedFileRun_slots (by decide)

end HttpServer
