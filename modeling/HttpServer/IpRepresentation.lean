import Mathlib.Algebra.Ring.Int.Defs
import Mathlib.Algebra.Ring.Nat
import Mathlib.Data.Fin.VecNotation
import Mathlib.Data.Fintype.Basic
import Mathlib.Data.Set.Defs
import Mathlib.Logic.Function.Basic
import HttpServer.Lib.ComparatorSet
import HttpServer.Text

/-!
`ip_representation`, the address pattern of the access lists, and its
`operator<`, the score comparison those lists use as their order. On addresses
without wildcards the comparison is a strict weak order that tells addresses
apart only on sets that meet two conditions on the weights of their octets.
-/
namespace HttpServer

structure IpRepresentation where
  octets : Fin 16 → UInt8
  mask : BitVec 16
  deriving Repr

instance : DecidableEq IpRepresentation := fun a b =>
  decidable_of_iff (List.ofFn a.octets = List.ofFn b.octets ∧ a.mask = b.mask) <| by
    rw [List.ofFn_inj]
    constructor
    · rintro ⟨sameOctets, sameMask⟩
      cases a
      cases b
      simp_all
    · rintro rfl
      exact ⟨rfl, rfl⟩

instance octetCount : NeZero 16 := ⟨Nat.succ_ne_zero 15⟩

def checkBit (mask : BitVec 16) (i : Fin 16) : Bool := mask &&& (1#16 <<< i.val) ≠ 0#16

theorem twoPow_nonzero : ∀ i : Fin 16, BitVec.twoPow 16 i.val ≠ 0#16 := by decide

theorem checkBit_eq (mask : BitVec 16) (i : Fin 16) : checkBit mask i = mask.getLsbD i.val := by
  unfold checkBit
  rw [← BitVec.twoPow_eq, BitVec.and_twoPow]
  cases mask.getLsbD i.val with
  | true => simp only [if_true, twoPow_nonzero i, ne_eq, not_false_eq_true, decide_true]
  | false => rfl

theorem checkBit_clear (mask : BitVec 16) (pos : Nat) (i : Fin 16) :
    checkBit (mask &&& ~~~(1#16 <<< pos)) i = (checkBit mask i && decide (i.val ≠ pos)) := by
  rw [checkBit_eq, checkBit_eq, ← BitVec.twoPow_eq]
  simp

namespace IpRepresentation

def defaultMask : BitVec 16 := 0xFFFF#16

def zero : IpRepresentation := ⟨fun _ => 0, defaultMask⟩

def weight (ip : IpRepresentation) : Nat := (List.finRange 16).countP fun i => checkBit ip.mask i

end IpRepresentation

inductive SockAddr where
  | inet (sinAddr : Fin 4 → UInt8)
  | inet6 (sin6Addr : Fin 16 → UInt8)

def IpRepresentation.ofSockAddr : SockAddr → IpRepresentation
  | .inet addr =>
    { zero with octets := fun i => if h : 12 ≤ i.val then addr ⟨i.val - 12, by omega⟩ else 0 }
  | .inet6 addr => { zero with octets := addr }

def mappedByte (b : UInt8) : Bool := b = 0x00 ∨ b = 0xFF

namespace IpRepresentation

def accumulateOctetScore (a b : IpRepresentation) (scores : Int × Int) (i : Fin 16) : Int × Int :=
  if checkBit a.mask i && checkBit b.mask i then
    (scores.1 + (16 - i.val) * (a.octets i).toNat, scores.2 + (16 - i.val) * (b.octets i).toNat)
  else scores

def outerOctets : List (Fin 16) := [0, 1, 2, 3, 4, 5, 6, 7, 8, 9, 12, 13, 14, 15]

def isV4MappedPrefixOctetPair (a b : UInt8) : Bool := mappedByte a && mappedByte b

/-- `operator<`. -/
def less (a b : IpRepresentation) : Bool :=
  let scores := outerOctets.foldl (accumulateOctetScore a b) (0, 0)
  if scores.1 = scores.2 ∧ isV4MappedPrefixOctetPair (a.octets 10) (b.octets 10) ∧
      isV4MappedPrefixOctetPair (a.octets 11) (b.octets 11) then false
  else
    let scores := accumulateOctetScore a b scores 10
    let scores := accumulateOctetScore a b scores 11
    scores.1 < scores.2

-- The comparison in closed form. An octet counts when neither side has it as a
-- wildcard.
def shared (a b : IpRepresentation) (i : Fin 16) : Bool := checkBit a.mask i && checkBit b.mask i

def octetScore (a b : IpRepresentation) (i : Fin 16) : Int :=
  if shared a b i then (16 - i.val) * (a.octets i).toNat else 0

def outerScore (a b : IpRepresentation) : Int := (outerOctets.map (octetScore a b)).sum

def totalScore (a b : IpRepresentation) : Int :=
  outerScore a b + octetScore a b 10 + octetScore a b 11

def Mapped (a : IpRepresentation) : Prop := mappedByte (a.octets 10) ∧ mappedByte (a.octets 11)

instance (a : IpRepresentation) : Decidable a.Mapped := inferInstanceAs (Decidable (_ ∧ _))

theorem shared_comm (a b : IpRepresentation) (i : Fin 16) : shared a b i = shared b a i :=
  Bool.and_comm _ _

theorem accumulateOctetScore_eq (a b : IpRepresentation) (scores : Int × Int) (i : Fin 16) :
    accumulateOctetScore a b scores i =
      (scores.1 + octetScore a b i, scores.2 + octetScore b a i) := by
  unfold accumulateOctetScore octetScore
  rw [shared_comm b a i]
  unfold shared
  split <;> simp

theorem foldl_accumulate (a b : IpRepresentation) (is : List (Fin 16)) (u v : Int) :
    is.foldl (accumulateOctetScore a b) (u, v) =
      (u + (is.map (octetScore a b)).sum, v + (is.map (octetScore b a)).sum) := by
  induction is generalizing u v with
  | nil => simp
  | cons i is ih =>
    rw [List.foldl_cons, accumulateOctetScore_eq, ih]
    simp only [List.map_cons, List.sum_cons]
    exact Prod.ext (by omega) (by omega)

theorem mapped_pairs (a b : IpRepresentation) :
    (isV4MappedPrefixOctetPair (a.octets 10) (b.octets 10) ∧
      isV4MappedPrefixOctetPair (a.octets 11) (b.octets 11)) ↔ a.Mapped ∧ b.Mapped := by
  simp only [isV4MappedPrefixOctetPair, Mapped, Bool.and_eq_true]
  constructor
  · intro ⟨⟨a10, b10⟩, a11, b11⟩
    exact ⟨⟨a10, a11⟩, b10, b11⟩
  · intro ⟨⟨a10, a11⟩, b10, b11⟩
    exact ⟨⟨a10, b10⟩, a11, b11⟩

theorem less_iff (a b : IpRepresentation) :
    less a b = true ↔ ¬(outerScore a b = outerScore b a ∧ a.Mapped ∧ b.Mapped) ∧
      totalScore a b < totalScore b a := by
  have folded : outerOctets.foldl (accumulateOctetScore a b) (0, 0) =
      (outerScore a b, outerScore b a) := by
    rw [foldl_accumulate]
    simp [outerScore]
  simp only [less, folded, accumulateOctetScore_eq, mapped_pairs]
  split
  · rename_i tied
    constructor
    · intro h
      cases h
    · intro ⟨apart, _⟩
      exact absurd tied apart
  · rename_i apart
    simp only [decide_eq_true_eq, totalScore]
    constructor
    · intro h
      exact ⟨apart, h⟩
    · intro h
      exact h.2

def equivalent : IpRepresentation → IpRepresentation → Bool := ComparatorSet.equivalent less

theorem equivalent_iff (a b : IpRepresentation) :
    equivalent a b = true ↔ totalScore a b = totalScore b a ∨
      (outerScore a b = outerScore b a ∧ a.Mapped ∧ b.Mapped) := by
  have left := less_iff a b
  have right := less_iff b a
  simp only [equivalent, ComparatorSet.equivalent, Bool.and_eq_true, Bool.not_eq_true']
  rw [← Bool.not_eq_true, ← Bool.not_eq_true, left, right]
  by_cases tied : outerScore a b = outerScore b a ∧ a.Mapped ∧ b.Mapped
  · have back : outerScore b a = outerScore a b ∧ b.Mapped ∧ a.Mapped :=
      ⟨tied.1.symm, tied.2.2, tied.2.1⟩
    constructor
    · intro _
      exact Or.inr tied
    · intro _
      exact ⟨fun h => h.1 tied, fun h => h.1 back⟩
  · have back : ¬(outerScore b a = outerScore a b ∧ b.Mapped ∧ a.Mapped) :=
      fun h => tied ⟨h.1.symm, h.2.2, h.2.1⟩
    constructor
    · intro ⟨notLess, notMore⟩
      have low : ¬totalScore a b < totalScore b a := fun h => notLess ⟨tied, h⟩
      have high : ¬totalScore b a < totalScore a b := fun h => notMore ⟨back, h⟩
      exact Or.inl (by omega)
    · intro same
      rcases same with same | same
      · exact ⟨fun h => by omega, fun h => by omega⟩
      · exact absurd same tied

def FullySpecified (a : IpRepresentation) : Prop := a.mask = defaultMask

instance (a : IpRepresentation) : Decidable a.FullySpecified := inferInstanceAs (Decidable (_ = _))

def weighted (a : IpRepresentation) (i : Fin 16) : Int := (16 - i.val) * (a.octets i).toNat

def outerSum (a : IpRepresentation) : Int := (outerOctets.map a.weighted).sum

def weightedSum (a : IpRepresentation) : Int := a.outerSum + a.weighted 10 + a.weighted 11

/-- The same sixteen octets, with octets 10 and 11 ignored when all four of
    them are 0x00 or 0xFF. -/
def SameAddress (a b : IpRepresentation) : Prop :=
  (∀ i, i ≠ 10 → i ≠ 11 → a.octets i = b.octets i) ∧
    ((a.octets 10 = b.octets 10 ∧ a.octets 11 = b.octets 11) ∨ (a.Mapped ∧ b.Mapped))

instance (a b : IpRepresentation) : Decidable (SameAddress a b) :=
  inferInstanceAs (Decidable (_ ∧ _))

theorem checkBit_defaultMask : ∀ i, checkBit defaultMask i = true := by decide

variable {a b : IpRepresentation}

theorem octetScore_full (fullA : a.FullySpecified) (fullB : b.FullySpecified) (i : Fin 16) :
    octetScore a b i = a.weighted i := by
  unfold octetScore shared
  rw [fullA, fullB, checkBit_defaultMask]
  rfl

theorem outerScore_full (fullA : a.FullySpecified) (fullB : b.FullySpecified) :
    outerScore a b = a.outerSum := by
  unfold outerScore outerSum
  rw [List.map_congr_left fun i _ => octetScore_full fullA fullB i]

theorem totalScore_full (fullA : a.FullySpecified) (fullB : b.FullySpecified) :
    totalScore a b = a.weightedSum := by
  unfold totalScore weightedSum
  rw [outerScore_full fullA fullB, octetScore_full fullA fullB, octetScore_full fullA fullB]

theorem less_full (fullA : a.FullySpecified) (fullB : b.FullySpecified) :
    less a b = true ↔ ¬(a.outerSum = b.outerSum ∧ a.Mapped ∧ b.Mapped) ∧
      a.weightedSum < b.weightedSum := by
  rw [less_iff, outerScore_full fullA fullB, outerScore_full fullB fullA,
    totalScore_full fullA fullB, totalScore_full fullB fullA]

theorem equivalent_full (fullA : a.FullySpecified) (fullB : b.FullySpecified) :
    equivalent a b = true ↔ a.weightedSum = b.weightedSum ∨
      (a.outerSum = b.outerSum ∧ a.Mapped ∧ b.Mapped) := by
  rw [equivalent_iff, outerScore_full fullA fullB, outerScore_full fullB fullA,
    totalScore_full fullA fullB, totalScore_full fullB fullA]

theorem outerSum_same (same : SameAddress a b) : a.outerSum = b.outerSum := by
  have outside : ∀ i ∈ outerOctets, i ≠ 10 ∧ i ≠ 11 := by decide
  unfold outerSum
  rw [List.map_congr_left]
  intro i member
  obtain ⟨not10, not11⟩ := outside i member
  simp only [weighted, same.1 i not10 not11]

theorem equivalent_of_same (fullA : a.FullySpecified) (fullB : b.FullySpecified)
    (same : SameAddress a b) : equivalent a b = true := by
  rw [equivalent_full fullA fullB]
  have outer := outerSum_same same
  rcases same.2 with ⟨same10, same11⟩ | mapped
  · left
    simp only [weightedSum, outer, weighted, same10, same11]
  · exact Or.inr ⟨outer, mapped⟩

theorem sameAddress_trans {c : IpRepresentation} (ab : SameAddress a b) (bc : SameAddress b c) :
    SameAddress a c := by
  refine ⟨fun i not10 not11 => (ab.1 i not10 not11).trans (bc.1 i not10 not11), ?_⟩
  rcases ab.2 with ⟨ab10, ab11⟩ | ⟨mappedA, mappedB⟩
  · unfold Mapped
    rw [ab10, ab11]
    exact bc.2
  · rcases bc.2 with ⟨bc10, bc11⟩ | ⟨_, mappedC⟩
    · unfold Mapped at mappedB
      rw [bc10, bc11] at mappedB
      exact Or.inr ⟨mappedA, mappedB⟩
    · exact Or.inr ⟨mappedA, mappedC⟩

/-- What `std::set` needs of its order on the addresses of `A`, and that it
    tells apart exactly the addresses that differ. -/
structure AddressOrderOn (A : Set IpRepresentation) : Prop where
  irreflexive : ∀ a ∈ A, ¬less a a
  asymmetric : ∀ a ∈ A, ∀ b ∈ A, less a b → ¬less b a
  transitive : ∀ a ∈ A, ∀ b ∈ A, ∀ c ∈ A, less a b → less b c → less a c
  equivalence_transitive :
    ∀ a ∈ A, ∀ b ∈ A, ∀ c ∈ A, equivalent a b → equivalent b c → equivalent a c
  equivalence_same : ∀ a ∈ A, ∀ b ∈ A, equivalent a b ↔ SameAddress a b

/-- Different addresses never weigh the same, with octets 10 and 11 counted or,
    where both sides are mapped, left out. -/
def SeparatedOn (A : Set IpRepresentation) : Prop :=
  ∀ a ∈ A, ∀ b ∈ A, a.weightedSum = b.weightedSum ∨
    (a.outerSum = b.outerSum ∧ a.Mapped ∧ b.Mapped) → SameAddress a b

def UninterruptedOn (A : Set IpRepresentation) : Prop :=
  ∀ a ∈ A, ∀ b ∈ A, ∀ c ∈ A, SameAddress a c →
    a.weightedSum < b.weightedSum → b.weightedSum < c.weightedSum → SameAddress a b

section
variable {A : Set IpRepresentation}

theorem not_equivalent_of_less {a b : IpRepresentation} (h : less a b = true) :
    ¬equivalent a b = true := by
  simp [equivalent, ComparatorSet.equivalent, h]

theorem transitive_of_uninterrupted (full : ∀ a ∈ A, a.FullySpecified) (separated : SeparatedOn A)
    (uninterrupted : UninterruptedOn A) :
    ∀ a ∈ A, ∀ b ∈ A, ∀ c ∈ A, less a b → less b c → less a c := by
  intro a memA b memB c memC ab bc
  have lowHigh := (less_full (full a memA) (full b memB)).mp ab
  have highTop := (less_full (full b memB) (full c memC)).mp bc
  rw [less_full (full a memA) (full c memC)]
  constructor
  · intro tied
    have sameAC := separated a memA c memC (Or.inr tied)
    have sameAB := uninterrupted a memA b memB c memC sameAC lowHigh.2 highTop.2
    exact not_equivalent_of_less ab (equivalent_of_same (full a memA) (full b memB) sameAB)
  · omega

theorem uninterrupted_of_order (full : ∀ a ∈ A, a.FullySpecified) (order : AddressOrderOn A) :
    UninterruptedOn A := by
  intro a memA b memB c memC sameAC low high
  by_contra different
  have outer := outerSum_same sameAC
  have mapped : a.Mapped ∧ c.Mapped := by
    rcases sameAC.2 with ⟨same10, same11⟩ | mapped
    · exfalso
      simp only [weightedSum, weighted, outer, same10, same11] at low high
      omega
    · exact mapped
  have apart : ∀ d ∈ A, d.outerSum = a.outerSum ∧ d.Mapped → SameAddress a d := by
    intro d memD ⟨sum, mappedD⟩
    rw [← order.equivalence_same a memA d memD, equivalent_full (full a memA) (full d memD)]
    exact Or.inr ⟨sum.symm, mapped.1, mappedD⟩
  have ab : less a b := by
    rw [less_full (full a memA) (full b memB)]
    exact ⟨fun tied => different (apart b memB ⟨tied.1.symm, tied.2.2⟩), low⟩
  have bc : less b c := by
    rw [less_full (full b memB) (full c memC)]
    exact ⟨fun tied => different (apart b memB ⟨tied.1.trans outer.symm, tied.2.1⟩), high⟩
  have ac := order.transitive a memA b memB c memC ab bc
  exact not_equivalent_of_less ac (equivalent_of_same (full a memA) (full c memC) sameAC)

/-- On a set of addresses without wildcards `operator<` is the order its comment
    promises exactly when weights tell the addresses of the set apart and none
    of them weighs in between two forms of another. -/
theorem address_order_iff (A : Set IpRepresentation) (full : ∀ a ∈ A, a.FullySpecified) :
    AddressOrderOn A ↔ SeparatedOn A ∧ UninterruptedOn A := by
  constructor
  · intro order
    refine ⟨?_, uninterrupted_of_order full order⟩
    intro a memA b memB equal
    rw [← order.equivalence_same a memA b memB, equivalent_full (full a memA) (full b memB)]
    exact equal
  · intro ⟨separated, uninterrupted⟩
    have same : ∀ a ∈ A, ∀ b ∈ A, equivalent a b ↔ SameAddress a b := by
      intro a memA b memB
      constructor
      · intro h
        exact separated a memA b memB ((equivalent_full (full a memA) (full b memB)).mp h)
      · exact equivalent_of_same (full a memA) (full b memB)
    refine ⟨?_, ?_, transitive_of_uninterrupted full separated uninterrupted, ?_, same⟩
    · intro a memA h
      have := ((less_full (full a memA) (full a memA)).mp h).2
      omega
    · intro a memA b memB ab ba
      have up := ((less_full (full a memA) (full b memB)).mp ab).2
      have down := ((less_full (full b memB) (full a memA)).mp ba).2
      omega
    · intro a memA b memB c memC ab bc
      rw [same a memA b memB] at ab
      rw [same b memB c memC] at bc
      rw [same a memA c memC]
      exact sameAddress_trans ab bc

end

def ipv4 (a b c d : UInt8) : IpRepresentation := ofSockAddr (.inet ![a, b, c, d])

def ipv4Mapped (a b c d : UInt8) : IpRepresentation :=
  ofSockAddr (.inet6 ![0, 0, 0, 0, 0, 0, 0, 0, 0, 0, 255, 255, a, b, c, d])

def documentationHost : IpRepresentation :=
  ofSockAddr (.inet6 ![0x20, 0x01, 0x0d, 0xb8, 0, 0, 0, 0, 0, 0, 0, 0, 0, 0, 0, 1])

def threePeers : List IpRepresentation := [ipv4 10 0 0 1, ipv4Mapped 10 0 0 1, documentationHost]

theorem address_order_of_three_peers : AddressOrderOn {a | a ∈ threePeers} := by
  refine (address_order_iff _ ?_).mpr ⟨?_, ?_⟩
  · change ∀ a ∈ threePeers, a.FullySpecified
    decide
  · change ∀ a ∈ threePeers, ∀ b ∈ threePeers, _
    decide
  · change ∀ a ∈ threePeers, ∀ b ∈ threePeers, ∀ c ∈ threePeers, _
    decide

theorem address_order_fails :
    (equivalent (ipv4 0 0 1 0) (ipv4 0 0 0 2) ∧ ¬SameAddress (ipv4 0 0 1 0) (ipv4 0 0 0 2)) ∧
      less (ipv4 0 0 0 0) (ipv4 0 0 0 100) ∧ less (ipv4 0 0 0 100) (ipv4Mapped 0 0 0 0) ∧
      ¬less (ipv4 0 0 0 0) (ipv4Mapped 0 0 0 0) := by
  decide

end IpRepresentation
end HttpServer
