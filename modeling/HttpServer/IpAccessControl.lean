import HttpServer.Lib.OrderedSet
import HttpServer.IpParsing

/-!
The deny and allow lists. Both are `std::set`s of address patterns ordered by
`operator<`, search trees that every operation walks down by that comparison,
while their meaning is stated with `Matches`: the wildcards of a pattern and the
three ways to write an IPv4 address. With wildcards `operator<` is no strict weak
order, so the trees are trees of any shape, balanced anew by every call.
-/
namespace HttpServer
open OrderedSet

inductive Side where
  | denied
  | allowed
  deriving DecidableEq, Repr

structure IpAccessControl where
  denyList : SetTree IpRepresentation
  allowList : SetTree IpRepresentation

structure Membership where
  denied : Bool
  allowed : Bool
  deriving DecidableEq, Repr

def Membership.on (m : Membership) : Side → Bool
  | .denied => m.denied
  | .allowed => m.allowed

namespace IpAccessControl

def empty : IpAccessControl := ⟨.leaf, .leaf⟩

def list (acl : IpAccessControl) : Side → SetTree IpRepresentation
  | .denied => acl.denyList
  | .allowed => acl.allowList

def setList (acl : IpAccessControl) (entries : SetTree IpRepresentation) : Side → IpAccessControl
  | .denied => { acl with denyList := entries }
  | .allowed => { acl with allowList := entries }

section
variable (shape : Shape IpRepresentation)

/-- The list without the entry that `find` stops at, if that has more fixed octets. -/
def eraseHeavier (entries : SetTree IpRepresentation) (ip : IpRepresentation) :
    SetTree IpRepresentation :=
  match find IpRepresentation.less entries ip with
  | some (i, it) => if ip.weight < it.weight then shape.build ((keys entries).eraseIdx i) else entries
  | none => entries

def insertWildcardAware (entries : SetTree IpRepresentation) (ip : IpRepresentation) :
    SetTree IpRepresentation :=
  shape.build (insert IpRepresentation.less (eraseHeavier shape entries ip) ip)

def add (side : Side) (acl : IpAccessControl) (ip : Str) : Except IpParseError IpAccessControl :=
  (IpRepresentation.parse ip).map fun p =>
    acl.setList (insertWildcardAware shape (acl.list side) p) side

def remove (side : Side) (acl : IpAccessControl) (ip : Str) : Except IpParseError IpAccessControl :=
  (IpRepresentation.parse ip).map fun p =>
    acl.setList (shape.build (erase IpRepresentation.less p (acl.list side))) side

def deny : IpAccessControl → Str → Except IpParseError IpAccessControl := add shape .denied
def allow : IpAccessControl → Str → Except IpParseError IpAccessControl := add shape .allowed
def removeDenied : IpAccessControl → Str → Except IpParseError IpAccessControl := remove shape .denied
def removeAllowed : IpAccessControl → Str → Except IpParseError IpAccessControl :=
  remove shape .allowed

end

def listed (acl : IpAccessControl) (side : Side) (peer : IpRepresentation) : Bool :=
  count IpRepresentation.less (acl.list side) peer

def classify (acl : IpAccessControl) (peer : IpRepresentation) : Membership :=
  ⟨acl.listed .denied peer, acl.listed .allowed peer⟩

end IpAccessControl

inductive AclCall where
  | deny (ip : Str)
  | allow (ip : Str)
  | removeDenied (ip : Str)
  | removeAllowed (ip : Str)
  deriving DecidableEq, Repr

namespace AclCall

def run (shape : Shape IpRepresentation) (acl : IpAccessControl) :
    AclCall → Except IpParseError IpAccessControl
  | .deny ip => acl.deny shape ip
  | .allow ip => acl.allow shape ip
  | .removeDenied ip => acl.removeDenied shape ip
  | .removeAllowed ip => acl.removeAllowed shape ip

def add : Side → Str → AclCall
  | .denied => .deny
  | .allowed => .allow

def remove : Side → Str → AclCall
  | .denied => .removeDenied
  | .allowed => .removeAllowed

end AclCall

abbrev ShapedCall := Shape IpRepresentation × AclCall

def IpAccessControl.step (acl : IpAccessControl) (c : ShapedCall) : IpAccessControl :=
  match c.2.run c.1 acl with
  | .ok acl => acl
  | .error _ => acl

def IpAccessControl.reached (calls : List ShapedCall) : IpAccessControl :=
  calls.foldl IpAccessControl.step .empty

namespace IpRepresentation

def AgreesWith (p x : IpRepresentation) : Prop :=
  ∀ i, checkBit p.mask i = true → p.octets i = x.octets i

/-- `a.b.c.d` or `::a.b.c.d`, or `::ffff:a.b.c.d`. -/
def V4Form (x : IpRepresentation) : Prop :=
  (∀ i : Fin 16, i.val < 10 → x.octets i = 0) ∧
    (x.octets 10 = 0 ∧ x.octets 11 = 0 ∨ x.octets 10 = 0xFF ∧ x.octets 11 = 0xFF)

def otherForm (x : IpRepresentation) : IpRepresentation :=
  { x with octets := fun i => if i = 10 ∨ i = 11 then 0xFF - x.octets i else x.octets i }

def Matches (p x : IpRepresentation) : Prop :=
  AgreesWith p x ∨ V4Form x ∧ AgreesWith p x.otherForm

instance (p x : IpRepresentation) : Decidable (AgreesWith p x) :=
  inferInstanceAs (Decidable (∀ _, _))

instance (x : IpRepresentation) : Decidable x.V4Form := inferInstanceAs (Decidable (_ ∧ _))

instance (p x : IpRepresentation) : Decidable (Matches p x) := inferInstanceAs (Decidable (_ ∨ _))

variable {p x : IpRepresentation}

theorem octetScore_comm {i : Fin 16} (agree : checkBit p.mask i = true → p.octets i = x.octets i) :
    octetScore p x i = octetScore x p i := by
  unfold octetScore
  rw [shared_comm x p i]
  split
  · rename_i both
    rw [agree (Bool.and_eq_true_iff.mp both).1]
  · rfl

theorem outerScore_comm
    (agree : ∀ i, i ≠ 10 → i ≠ 11 → checkBit p.mask i = true → p.octets i = x.octets i) :
    outerScore p x = outerScore x p := by
  have outside : ∀ i ∈ outerOctets, i ≠ 10 ∧ i ≠ 11 := by decide
  unfold outerScore
  rw [List.map_congr_left]
  intro i member
  exact octetScore_comm (agree i (outside i member).1 (outside i member).2)

theorem mappedByte_flip {b : UInt8} (h : b = 0 ∨ b = 0xFF) :
    mappedByte b = true ∧ mappedByte (0xFF - b) = true := by
  rcases h with rfl | rfl <;> decide

/-- A parsed pattern is equivalent to every peer it matches. The converse fails. -/
theorem equivalent_of_matches (masked : p.WellMasked) (matching : Matches p x) :
    equivalent p x = true := by
  rw [equivalent_iff]
  rcases matching with agree | ⟨⟨-, form⟩, agree⟩
  · left
    have outer := outerScore_comm fun i _ _ => agree i
    unfold totalScore
    rw [outer, octetScore_comm (agree 10), octetScore_comm (agree 11)]
  · right
    have bytes : (x.octets 10 = 0 ∨ x.octets 10 = 0xFF) ∧
        (x.octets 11 = 0 ∨ x.octets 11 = 0xFF) := by
      rcases form with ⟨h10, h11⟩ | ⟨h10, h11⟩
      · exact ⟨Or.inl h10, Or.inl h11⟩
      · exact ⟨Or.inr h10, Or.inr h11⟩
    have flipped : ∀ i, i = 10 ∨ i = 11 → (x.octets i = 0 ∨ x.octets i = 0xFF) →
        mappedByte (p.octets i) = true := by
      intro i here byte
      cases fixed : checkBit p.mask i with
      | false =>
        rw [masked i fixed]
        decide
      | true =>
        rw [agree i fixed]
        simp only [otherForm, if_pos here]
        exact (mappedByte_flip byte).2
    refine ⟨?_, ?_, ?_⟩
    · apply outerScore_comm
      intro i not10 not11 fixed
      simpa [otherForm, not10, not11] using agree i fixed
    · exact ⟨flipped 10 (Or.inl rfl) bytes.1, flipped 11 (Or.inr rfl) bytes.2⟩
    · exact ⟨(mappedByte_flip bytes.1).1, (mappedByte_flip bytes.2).1⟩

end IpRepresentation

namespace IpAccessControl
open IpRepresentation

def patterns (ips : List Str) : List IpRepresentation := ips.filterMap fun ip => (parse ip).toOption

theorem less_asymm (a b : IpRepresentation) (before : less a b = true) : less b a = false := by
  rw [← Bool.not_eq_true, less_iff]
  rintro ⟨-, behind⟩
  have ahead := ((less_iff a b).mp before).2
  omega

theorem equivalent_self (a : IpRepresentation) : equivalent a a = true :=
  (equivalent_iff a a).mpr (Or.inl rfl)

/-- The patterns and the peer under `operator<`. It is transitive on them; no pattern
    is equivalent to two earlier ones that are not equivalent to each other; and of
    two equivalent patterns the one that stays on the list is equivalent to whatever
    the other one is. -/
structure Orderly (ps : List IpRepresentation) (x : IpRepresentation) : Prop where
  trans : ∀ a ∈ x :: ps, ∀ b ∈ x :: ps, ∀ c ∈ x :: ps,
    less a b = true → less b c = true → less a c = true
  single : ∀ a b p, [a, p].Sublist ps → [b, p].Sublist ps → equivalent a p = true →
    equivalent b p = true → equivalent a b = true
  covers : ∀ q p, [q, p].Sublist ps → equivalent q p = true → ∀ z ∈ x :: ps,
    if p.weight < q.weight then equivalent q z = true → equivalent p z = true
    else equivalent p z = true → equivalent q z = true

variable {x p : IpRepresentation} {side : Side}

theorem orderly_of_addressOrder {ps : List IpRepresentation}
    (full : ∀ a ∈ x :: ps, a.FullySpecified) (order : AddressOrderOn {a | a ∈ x :: ps}) :
    Orderly ps x := by
  have known {a b : IpRepresentation} (sub : [a, b].Sublist ps) : a ∈ x :: ps ∧ b ∈ x :: ps :=
    ⟨List.mem_cons_of_mem _ (sub.subset (by simp)), List.mem_cons_of_mem _ (sub.subset (by simp))⟩
  have turn {a b : IpRepresentation} (same : equivalent a b = true) : equivalent b a = true :=
    (ComparatorSet.equivalent_comm less b a).trans same
  constructor
  · exact order.transitive
  · intro a b p first second sameA sameB
    exact order.equivalence_transitive a (known first).1 p (known first).2 b (known second).1 sameA
      (turn sameB)
  · intro q p sub same z inZ
    obtain ⟨inQ, inP⟩ := known sub
    have weights : ¬p.weight < q.weight := by
      unfold IpRepresentation.weight
      rw [full p inP, full q inQ]
      exact Nat.lt_irrefl _
    rw [if_neg weights]
    exact order.equivalence_transitive q inQ p inP z inZ same

structure Represents (ps : List IpRepresentation) (x : IpRepresentation)
    (entries added : List IpRepresentation) : Prop where
  within : ∀ e ∈ entries, e ∈ added
  sorted : entries.Pairwise fun a b => less a b = true
  covered : ∀ p ∈ added, ∃ e ∈ entries, ∀ z ∈ x :: ps, equivalent p z = true → equivalent e z = true

section
variable {ps added : List IpRepresentation} {x p : IpRepresentation}
  {t : SetTree IpRepresentation}

theorem Orderly.fits (orderly : Orderly ps x) {entries : List IpRepresentation}
    (within : ∀ e ∈ entries, e ∈ x :: ps) (sorted : entries.Pairwise fun a b => less a b = true)
    {z : IpRepresentation} (known : z ∈ x :: ps) : Fits less entries z := by
  apply fits_of_sorted sorted
  · intro a inA b inB
    exact orderly.trans a (within a inA) b (within b inB) z known
  · intro a inA b inB before
    exact orderly.trans z known a (within a inA) b (within b inB) before

theorem Orderly.fits_next (orderly : Orderly ps x) (next : (added ++ [p]).Sublist ps)
    {entries : List IpRepresentation} (within : ∀ e ∈ entries, e ∈ added)
    (sorted : entries.Pairwise fun a b => less a b = true) : Fits less entries p := by
  refine orderly.fits (fun e listed => ?_) sorted (List.mem_cons_of_mem _ (next.subset (by simp)))
  exact List.mem_cons_of_mem _ (next.subset (List.mem_append_left _ (within e listed)))

theorem Represents.unique (rep : Represents ps x (keys t) added) (orderly : Orderly ps x)
    (next : (added ++ [p]).Sublist ps) :
    (keys t).Pairwise fun a b => ¬(equivalent a p = true ∧ equivalent b p = true) := by
  have pair (e : IpRepresentation) (listed : e ∈ keys t) : [e, p].Sublist ps :=
    ((List.singleton_sublist.mpr (rep.within e listed)).append (List.Sublist.refl [p])).trans next
  refine rep.sorted.imp_of_mem fun {a b} inA inB before both => ?_
  exact not_equivalent_of_less before (orderly.single a b p (pair a inA) (pair b inB) both.1 both.2)

theorem represents_insert (orderly : Orderly ps x) (next : (added ++ [p]).Sublist ps)
    (within : ∀ e ∈ keys t, e ∈ added) (sorted : (keys t).Pairwise fun a b => less a b = true)
    (absent : ∀ e ∈ keys t, equivalent e p = false)
    (covered : ∀ q ∈ added, ∃ e, (e = p ∨ e ∈ keys t) ∧
      ∀ z ∈ x :: ps, equivalent q z = true → equivalent e z = true) :
    Represents ps x (insert less t p) (added ++ [p]) := by
  have fits := orderly.fits_next next within sorted
  have members := mem_insert_absent fits absent
  constructor
  · intro e listed
    rcases (members e).mp listed with rfl | listed
    · simp
    · exact List.mem_append_left _ (within e listed)
  · exact sorted_insert_absent fits absent sorted
  · intro q added_
    rcases List.mem_append.mp added_ with before | now
    · obtain ⟨e, here, more⟩ := covered q before
      exact ⟨e, (members e).mpr here, more⟩
    · rw [List.mem_singleton.mp now]
      exact ⟨p, (members p).mpr (Or.inl rfl), fun _ _ same => same⟩

/-- The pattern takes the place of the entry. -/
theorem Represents.replace (rep : Represents ps x (keys t) added) (orderly : Orderly ps x)
    (next : (added ++ [p]).Sublist ps) {it : IpRepresentation} {front back : List IpRepresentation}
    (split : keys t = front ++ it :: back) {u : SetTree IpRepresentation}
    (left : keys u = front ++ back) (same : equivalent it p = true)
    (covers : ∀ z ∈ x :: ps, equivalent it z = true → equivalent p z = true) :
    Represents ps x (insert less u p) (added ++ [p]) := by
  have kept : (keys u).Sublist (keys t) := by
    rw [left, split]
    exact (List.Sublist.refl front).append (List.sublist_cons_self ..)
  have alone := rep.unique orderly next
  rw [split] at alone
  obtain ⟨-, inBack, across⟩ := List.pairwise_append.mp alone
  apply represents_insert orderly next
  · exact fun e listed => rep.within e (kept.subset listed)
  · exact rep.sorted.sublist kept
  · intro e listed
    rw [left] at listed
    refine Bool.eq_false_iff.mpr fun equal => ?_
    rcases List.mem_append.mp listed with early | late
    · exact across e early it List.mem_cons_self ⟨equal, same⟩
    · exact (List.pairwise_cons.mp inBack).1 e late ⟨same, equal⟩
  · intro q before
    obtain ⟨e, covering, more⟩ := rep.covered q before
    rw [left]
    rw [split] at covering
    rcases List.mem_append.mp covering with early | late
    · exact ⟨e, Or.inr (List.mem_append_left _ early), more⟩
    · rcases List.mem_cons.mp late with rfl | late
      · exact ⟨p, Or.inl rfl, fun z here equal => covers z here (more z here equal)⟩
      · exact ⟨e, Or.inr (List.mem_append_right _ late), more⟩

theorem Represents.add (rep : Represents ps x (keys t) added) (orderly : Orderly ps x)
    (next : (added ++ [p]).Sublist ps) (shape : Shape IpRepresentation) :
    Represents ps x (keys (insertWildcardAware shape t p)) (added ++ [p]) := by
  have pair (e : IpRepresentation) (before : e ∈ added) : [e, p].Sublist ps :=
    ((List.singleton_sublist.mpr before).append (List.Sublist.refl [p])).trans next
  have fits := orderly.fits_next next rep.within rep.sorted
  rw [insertWildcardAware, shape.keys_build, eraseHeavier]
  cases found : find less t p with
  | none =>
    apply represents_insert orderly next rep.within rep.sorted
    · intro e listed
      cases same : equivalent e p with
      | false => rfl
      | true =>
        have counted : count less t p = true := (count_iff fits).mpr ⟨e, listed, same⟩
        rw [count, found] at counted
        cases counted
    · intro q before
      obtain ⟨e, listed, more⟩ := rep.covered q before
      exact ⟨e, Or.inr listed, more⟩
  | some place =>
    obtain ⟨i, it⟩ := place
    obtain ⟨same, front, back, split, rest⟩ := find_some fits found
    have listed : it ∈ keys t := by simp [split]
    have covers := orderly.covers it p (pair it (rep.within it listed)) same
    dsimp only
    split
    · rename_i lighter
      simp only [if_pos lighter] at covers
      exact rep.replace orderly next split ((shape.keys_build _).trans rest) same covers
    · rename_i heavier
      simp only [if_neg heavier] at covers
      rw [insert_present fits listed same]
      refine ⟨fun e listed => List.mem_append_left _ (rep.within e listed), rep.sorted, ?_⟩
      intro q added_
      rcases List.mem_append.mp added_ with before | now
      · exact rep.covered q before
      · rw [List.mem_singleton.mp now]
        exact ⟨it, listed, covers⟩

end

variable (acl : IpAccessControl)

theorem classify_on (x : IpRepresentation) (side : Side) :
    (acl.classify x).on side = acl.listed side x := by
  cases side <;> rfl

theorem list_setList (entries : SetTree IpRepresentation) (side : Side) :
    (acl.setList entries side).list side = entries := by
  cases side <;> rfl

theorem parse_of_toOption {ip : Str} (h : (parse ip).toOption = some p) : parse ip = .ok p := by
  cases parsed : parse ip with
  | ok q => simpa [parsed, Except.toOption] using h
  | error e => simp [parsed, Except.toOption] at h

theorem step_add (side : Side) (shape : Shape IpRepresentation) (ip : Str) :
    acl.step (shape, .add side ip) =
      match parse ip with
      | .ok p => acl.setList (insertWildcardAware shape (acl.list side) p) side
      | .error _ => acl := by
  cases side <;>
  · simp only [step, AclCall.add, AclCall.run, deny, allow, add]
    cases parse ip <;> rfl

def additions (side : Side) (adds : List (Shape IpRepresentation × Str)) : List ShapedCall :=
  adds.map fun a => (a.1, .add side a.2)

theorem represents_run {ps : List IpRepresentation} (orderly : Orderly ps x)
    (adds : List (Shape IpRepresentation × Str)) {acl : IpAccessControl}
    {added : List IpRepresentation} (within : (added ++ patterns (adds.map Prod.snd)).Sublist ps)
    (rep : Represents ps x (keys (acl.list side)) added) :
    Represents ps x (keys (((additions side adds).foldl step acl).list side))
      (added ++ patterns (adds.map Prod.snd)) := by
  induction adds generalizing acl added with
  | nil => simpa [patterns, additions] using rep
  | cons a adds ih =>
    rw [additions, List.map_cons, List.foldl_cons, step_add]
    cases parsed : parse a.2 with
    | error e =>
      have same : patterns ((a :: adds).map Prod.snd) = patterns (adds.map Prod.snd) := by
        simp [patterns, parsed, Except.toOption]
      rw [same] at within ⊢
      exact ih within rep
    | ok p =>
      have more : added ++ patterns ((a :: adds).map Prod.snd) =
          added ++ [p] ++ patterns (adds.map Prod.snd) := by
        simp [patterns, parsed, Except.toOption]
      rw [more] at within ⊢
      apply ih within
      rw [list_setList]
      exact rep.add orderly ((List.sublist_append_left ..).trans within) a.1

theorem listed_iff_equivalent {adds : List (Shape IpRepresentation × Str)}
    (orderly : Orderly (patterns (adds.map Prod.snd)) x) :
    (reached (additions side adds)).listed side x = true ↔
      ∃ p ∈ patterns (adds.map Prod.snd), equivalent p x = true := by
  have start : Represents (patterns (adds.map Prod.snd)) x (keys (empty.list side)) [] := by
    cases side <;>
      exact ⟨fun _ listed => listed, List.Pairwise.nil, fun _ none_ => (List.not_mem_nil none_).elim⟩
  have rep := represents_run orderly adds (List.Sublist.refl _) start
  rw [List.nil_append] at rep
  have here : x ∈ x :: patterns (adds.map Prod.snd) := List.mem_cons_self
  have fits := orderly.fits (fun e listed => List.mem_cons_of_mem _ (rep.within e listed)) rep.sorted here
  rw [listed, reached, count_iff fits]
  constructor
  · rintro ⟨e, listed, same⟩
    exact ⟨e, rep.within e listed, same⟩
  · rintro ⟨p, added, same⟩
    obtain ⟨e, listed, more⟩ := rep.covered p added
    exact ⟨e, listed, more x here same⟩

/-- For a peer the list means the patterns added exactly when the peer is matched by
    a pattern if `operator<` cannot tell it from one. -/
theorem access_list_means_patterns_iff (side : Side) (peer : SockAddr)
    (adds : List (Shape IpRepresentation × Str))
    (orderly : Orderly (patterns (adds.map Prod.snd)) (ofSockAddr peer)) :
    (((reached (additions side adds)).classify (ofSockAddr peer)).on side = true ↔
      ∃ p ∈ patterns (adds.map Prod.snd), Matches p (ofSockAddr peer)) ↔
    ((∃ p ∈ patterns (adds.map Prod.snd), equivalent p (ofSockAddr peer) = true) →
      ∃ p ∈ patterns (adds.map Prod.snd), Matches p (ofSockAddr peer)) := by
  rw [classify_on, listed_iff_equivalent orderly]
  constructor
  · exact fun meaning => meaning.mp
  · intro matched
    refine ⟨matched, ?_⟩
    rintro ⟨p, added, matching⟩
    obtain ⟨ip, -, parsed⟩ := List.mem_filterMap.mp added
    exact ⟨p, added, equivalent_of_matches (parse_wellMasked (parse_of_toOption parsed)) matching⟩

theorem range_over_host_means_patterns :
    ((reached (additions .denied [(.spine, "1.2.3.4".toList), (.spine, "1.2.*.*".toList)])).classify
        (ofSockAddr (.inet ![1, 2, 9, 9]))).denied = true ↔
      ∃ p ∈ patterns ["1.2.3.4".toList, "1.2.*.*".toList],
        Matches p (ofSockAddr (.inet ![1, 2, 9, 9])) := by
  let range : IpRepresentation := { ipv4 1 2 0 0 with mask := 0x3FFF#16 }
  have parsed : patterns ["1.2.3.4".toList, "1.2.*.*".toList] = [ipv4 1 2 3 4, range] := by
    decide +kernel
  have orderly : Orderly [ipv4 1 2 3 4, range] (ofSockAddr (.inet ![1, 2, 9, 9])) := by
    refine ⟨by decide +kernel, ?_, ?_⟩
    · intro a b p first second _ _
      cases first.eq_of_length rfl
      cases second.eq_of_length rfl
      exact equivalent_self _
    · intro q p sub
      cases sub.eq_of_length rfl
      decide +kernel
  rw [← parsed] at orderly
  refine (access_list_means_patterns_iff .denied (.inet ![1, 2, 9, 9])
    [(.spine, "1.2.3.4".toList), (.spine, "1.2.*.*".toList)] orderly).mpr fun _ => ?_
  decide +kernel

/-- One denied address lists a stranger of the same score; and a pattern over
    two denied addresses removes one of them and stays out itself. -/
theorem access_list_meaning_fails :
    ((reached [(.spine, .deny "0.0.1.0".toList)]).classify (ipv4 0 0 0 2)).denied = true ∧
      ((reached [(.spine, .deny "1.2.3.4".toList), (.spine, .deny "1.2.3.5".toList),
        (.spine, .deny "1.2.*.*".toList)]).classify (ipv4 1 2 3 4)).denied = false := by
  decide +kernel

def track (side : Side) (added : List IpRepresentation) (c : AclCall) : List IpRepresentation :=
  match c, side with
  | .deny ip, .denied | .allow ip, .allowed =>
    match parse ip with
    | .ok p => p :: added
    | .error _ => added
  | .removeDenied ip, .denied | .removeAllowed ip, .allowed =>
    match parse ip with
    | .ok p => added.filter (· ≠ p)
    | .error _ => added
  | _, _ => added

def addedPatterns (side : Side) (calls : List ShapedCall) : List IpRepresentation :=
  (calls.map Prod.snd).foldl (track side) []

theorem step_remove {acl : IpAccessControl} {shape : Shape IpRepresentation} {ip : Str}
    (parsed : parse ip = .ok p) :
    acl.step (shape, .remove side ip) =
      acl.setList (shape.build (erase less p (acl.list side))) side := by
  cases side <;>
  simp only [step, AclCall.remove, AclCall.run, removeDenied, removeAllowed, remove, parsed,
    Except.map]

theorem classify_setList_iff (entries : SetTree IpRepresentation) (side : Side)
    (x : IpRepresentation) :
    (acl.setList entries side).classify x = acl.classify x ↔
      count less entries x = acl.listed side x := by
  cases side <;> simp [classify, setList, listed, list]

theorem erase_keeps_iff {t : SetTree IpRepresentation} (fits : Fits less (keys t) p)
    (peer : Fits less (keys t) x) (shape : Shape IpRepresentation) :
    count less (shape.build (erase less p t)) x = count less t x ↔
      (count less t x = true →
        ∃ e ∈ keys t, equivalent e x = true ∧ equivalent e p = false) := by
  have left : keys (shape.build (erase less p t)) = (keys t).filter fun e => !equivalent e p :=
    (shape.keys_build _).trans (erase_eq less_asymm fits)
  have still : Fits less (keys (shape.build (erase less p t))) x := by
    rw [left]
    exact peer.sublist List.filter_sublist
  have erased : count less (shape.build (erase less p t)) x = true ↔
      ∃ e ∈ keys t, equivalent e x = true ∧ equivalent e p = false := by
    rw [count_iff still, left]
    constructor
    · rintro ⟨e, kept, same⟩
      obtain ⟨listed, other⟩ := List.mem_filter.mp kept
      exact ⟨e, listed, same, by simpa using other⟩
    · rintro ⟨e, listed, same, other⟩
      exact ⟨e, List.mem_filter.mpr ⟨listed, by simp [other]⟩, same⟩
  rw [Bool.eq_iff_iff, erased]
  constructor
  · intro same listed
    exact same.mpr listed
  · intro other
    refine ⟨?_, other⟩
    rintro ⟨e, listed, same, -⟩
    exact (count_iff peer).mpr ⟨e, listed, same⟩

/-- On a list that the pattern and the peer fit, a removal of a pattern that does not
    match the peer, or that is not on the list, leaves the peer's classification
    alone exactly when the peer is not listed or some entry that lists it is not
    equivalent to the pattern. -/
theorem removal_is_exact_iff (side : Side) (calls : List ShapedCall)
    (shape : Shape IpRepresentation) (ip : Str) (p : IpRepresentation) (parsed : parse ip = .ok p)
    (peer : SockAddr) (fits : Fits less (keys ((reached calls).list side)) p)
    (peer_fits : Fits less (keys ((reached calls).list side)) (ofSockAddr peer)) :
    (¬Matches p (ofSockAddr peer) ∨ p ∉ addedPatterns side calls →
      (reached (calls ++ [(shape, .remove side ip)])).classify (ofSockAddr peer) =
        (reached calls).classify (ofSockAddr peer)) ↔
    (¬Matches p (ofSockAddr peer) ∨ p ∉ addedPatterns side calls →
      (reached calls).listed side (ofSockAddr peer) = true →
      ∃ e ∈ keys ((reached calls).list side),
        equivalent e (ofSockAddr peer) = true ∧ equivalent e p = false) := by
  apply imp_congr_right
  intro _
  have last : reached (calls ++ [(shape, .remove side ip)]) =
      (reached calls).step (shape, .remove side ip) := by simp [reached]
  rw [last, step_remove parsed, classify_setList_iff]
  exact erase_keeps_iff fits peer_fits shape

theorem removal_is_exact_for_other_host :
    (reached ([(.spine, .deny "10.0.0.1".toList), (.spine, .deny "10.0.*.*".toList)] ++
        [(.spine, .remove .denied "10.1.0.0".toList)])).classify (ofSockAddr (.inet ![10, 0, 3, 4])) =
      (reached [(.spine, .deny "10.0.0.1".toList), (.spine, .deny "10.0.*.*".toList)]).classify
        (ofSockAddr (.inet ![10, 0, 3, 4])) := by
  have parsed : parse "10.1.0.0".toList = .ok (ipv4 10 1 0 0) := parse_of_toOption (by decide +kernel)
  refine (removal_is_exact_iff .denied _ .spine "10.1.0.0".toList (ipv4 10 1 0 0) parsed _ ?_ ?_).mpr
    ?_ ?_
  all_goals decide +kernel

theorem removal_reaches_other_host :
    ((reached [(.spine, .deny "0.0.1.0".toList)]).classify (ipv4 0 0 1 0)).denied = true ∧
      ((reached [(.spine, .deny "0.0.1.0".toList), (.spine, .removeDenied "0.0.0.2".toList)]).classify
        (ipv4 0 0 1 0)).denied = false := by
  decide +kernel

end IpAccessControl
end HttpServer
