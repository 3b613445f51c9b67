import HttpServer.PeerAddressText

/-!
The text of a peer address is one the address constructor reads, and what it
reads is the address. So the text of a peer in a log is a deny entry for that
peer, and different peers of one family have different texts.
-/
namespace HttpServer
open LongestRun

theorem quad_lt (i : Fin 4) : i.val < 16 := Nat.lt_trans i.isLt (by decide)

def PeerAddress.sockAddr (p : PeerAddress) : Option SockAddr :=
  match p.fam with
  | .ipv4 => some (.inet fun i => p.bytes ⟨i.val, quad_lt i⟩)
  | .ipv6 => some (.inet6 p.bytes)
  | .unspec => none

theorem sockAddr_makePeerAddress (addr : SockAddr) (port : UInt16) :
    (makePeerAddress (some (clientSocket addr port))).sockAddr = some addr := by
  cases addr with
  | inet sinAddr =>
    have same : (fun i : Fin 4 => if inside : i.val < 4 then sinAddr ⟨i.val, inside⟩ else 0) =
        sinAddr := by
      funext i
      exact dif_pos i.isLt
    exact congrArg (fun bytes => some (SockAddr.inet bytes)) same
  | inet6 sin6Addr => rfl

theorem printed_of_fits {size : Nat} {text : Str} (fits : text.length < size) :
    printed size text = .ok text := if_pos fits

def PrintsAndReads (bytes : Fin 16 → UInt8) : Prop :=
  ∃ text, ipv6Canonical bytes = .ok text ∧ CanonicalIpv6 bytes text ∧
    readIp text = some ((List.ofFn bytes).map some)

def lastBytes (bytes : Fin 16 → UInt8) : List UInt8 := [bytes 12, bytes 13, bytes 14, bytes 15]

def mappedText (bytes : Fin 16 → UInt8) : IpText :=
  .gap [] ["ffff".toList] (some (quadTexts (lastBytes bytes)))

theorem text_mappedText (bytes : Fin 16 → UInt8) :
    (mappedText bytes).text = "::ffff:".toList ++ quadText (quadTexts (lastBytes bytes)) := by
  simp [mappedText, IpText.text, tailTokens, List.intercalate_cons_cons]

theorem lead_mappedText (bytes : Fin 16 → UInt8) :
    (mappedText bytes).lead = List.replicate 10 0 ++ [0xFF, 0xFF] := rfl

theorem octets_mappedText (bytes : Fin 16 → UInt8) :
    (mappedText bytes).octets = List.replicate 10 0 ++ [0xFF, 0xFF] ++ lastBytes bytes := by
  rw [IpText.octets, lead_mappedText]
  exact congrArg _ (decimalQuad_quadTexts rfl).2

theorem mappedText_valid (bytes : Fin 16 → UInt8) : (mappedText bytes).Valid := by
  have ffff : HexGroup "ffff".toList := by decide
  refine And.intro ?_ (And.intro ?_ (And.intro ?_ ?_))
  · rw [octets_mappedText]
    rfl
  · intro quad same
    obtain rfl : quadTexts (lastBytes bytes) = quad := Option.some.inj same
    refine ⟨(decimalQuad_quadTexts rfl).1, ?_⟩
    rw [lead_mappedText]
    exact ⟨rfl, rfl, Or.inr rfl⟩
  · intro group listed
    rw [List.mem_singleton.mp listed]
    exact ffff
  · exact Nat.le_of_ble_eq_true rfl

variable {bytes : Fin 16 → UInt8}

theorem octets_of_mapped (mapped : Mapped bytes) :
    List.ofFn bytes = List.replicate 10 0 ++ [0xFF, 0xFF] ++ lastBytes bytes := by
  obtain ⟨zeros, first, second⟩ := mapped
  have whole : List.ofFn bytes = [bytes 0, bytes 1, bytes 2, bytes 3, bytes 4, bytes 5, bytes 6,
      bytes 7, bytes 8, bytes 9, bytes 10, bytes 11, bytes 12, bytes 13, bytes 14, bytes 15] := rfl
  rw [whole, zeros 0 (by decide), zeros 1 (by decide), zeros 2 (by decide), zeros 3 (by decide),
    zeros 4 (by decide), zeros 5 (by decide), zeros 6 (by decide), zeros 7 (by decide),
    zeros 8 (by decide), zeros 9 (by decide), first, second]
  rfl

theorem printsAndReads_mapped (mapped : Mapped bytes) : PrintsAndReads bytes := by
  have length := length_formatQuad (bytes 12) (bytes 13) (bytes 14) (bytes 15)
  have quad : formatQuad (bytes 12) (bytes 13) (bytes 14) (bytes 15) =
      quadText (quadTexts (lastBytes bytes)) := formatQuad_eq _ _ _ _
  have fits : ("::ffff:".toList ++ quadText (quadTexts (lastBytes bytes))).length < 24 := by
    rw [List.length_append, show "::ffff:".toList.length = 7 by decide, ← quad]
    omega
  refine ⟨(mappedText bytes).text, ?_, Or.inl ⟨mapped, _, canonicalQuad_quadTexts _, ?_⟩, ?_⟩
  · rw [text_mappedText, ipv6Canonical, if_pos ((isIpv4Mapped_iff bytes).mpr mapped),
      formatIpv4Mapped, quad, printed_of_fits fits]
  · exact text_mappedText bytes
  · rw [mappedText, readIp_leading (mappedText_valid bytes), if_neg (by decide),
      octets_of_mapped mapped, ← octets_mappedText]
    rfl

theorem groupOctets_formatHex (n : Nat) :
    groupOctets (formatHex n) = [UInt8.ofNat (n / 256), UInt8.ofNat (n % 256)] := by
  have value : numeral 16 (formatHex n) = n := (@canonical_toDigits 16 (by omega) (by omega) n).value
  rw [groupOctets, value]

theorem groupsOctets_groupTexts (bytes : Fin 16 → UInt8) :
    groupsOctets (groupTexts (assembleGroups bytes)) = List.ofFn bytes := by
  have pairs : ∀ i : Fin 8, groupOctets (formatHex (assembleGroups bytes i).toNat) =
      [bytes ⟨2 * i.val, by omega⟩, bytes ⟨2 * i.val + 1, by omega⟩] := by
    intro i
    have low := (bytes ⟨2 * i.val + 1, by omega⟩).toNat_lt
    rw [groupOctets_formatHex, assembleGroups_toNat, groupValue, Nat.mul_add_div (by omega),
      Nat.mul_add_mod, Nat.div_eq_of_lt low, Nat.mod_eq_of_lt low, Nat.add_zero,
      UInt8.ofNat_toNat, UInt8.ofNat_toNat]
  rw [groupsOctets, groupTexts, List.ofFn_eq_map, List.flatMap_map]
  simp only [pairs]
  rfl

theorem hexGroup_groupTexts (g : Ipv6Groups) : ∀ group ∈ groupTexts g, HexGroup group := by
  intro group listed
  obtain ⟨i, rfl⟩ := (List.mem_ofFn' _ _).mp listed
  exact hexGroup_formatHex (g i)

theorem printsAndReads_full (other : ¬Mapped bytes)
    (none_ : findLongestZeroRun (assembleGroups bytes) = {})
    (short : ∀ start len, IsRun (ZeroGroup bytes) 8 start len → len < 2) :
    PrintsAndReads bytes := by
  have unmapped : ¬(isIpv4Mapped (assembleGroups bytes) = true) :=
    fun mapped => other ((isIpv4Mapped_iff bytes).mp mapped)
  have octets := groupsOctets_groupTexts bytes
  have whole : (IpText.full (groupTexts (assembleGroups bytes)) none).octets = List.ofFn bytes :=
    (List.append_nil _).trans octets
  have text : (IpText.full (groupTexts (assembleGroups bytes)) none).text =
      [':'].intercalate (groupTexts (assembleGroups bytes)) := by
    rw [IpText.text, tailTokens]
    simp
  have valid : (IpText.full (groupTexts (assembleGroups bytes)) none).Valid := by
    refine And.intro ?_ (And.intro (IpText.no_quad rfl) (hexGroup_groupTexts _))
    rw [whole, List.length_ofFn]
  have emitted := @emitLoop_plain (assembleGroups bytes) {} 8 0 [] (by omega) (by omega) (by simp)
    fun j _ _ => by dsimp only; omega
  refine ⟨_, ?_, Or.inr ⟨other, _, canonical_groupTexts bytes, Or.inl ⟨short, rfl⟩⟩, ?_⟩
  · rw [ipv6Canonical, if_neg unmapped, none_, emitCanonical, emitted]
    rfl
  · rw [← text, readIp_full valid, whole]

theorem groupsOctets_zeroRun {start len : Nat} (run : IsRun (ZeroGroup bytes) 8 start len) :
    groupsOctets (((groupTexts (assembleGroups bytes)).drop start).take len) =
      List.replicate (2 * len) 0 := by
  have zeros : ((groupTexts (assembleGroups bytes)).drop start).take len =
      List.replicate len (formatHex 0) := by
    have inside := run.inside
    refine List.eq_replicate_iff.mpr ⟨?_, fun text listed => ?_⟩
    · rw [List.length_take, List.length_drop, length_groupTexts]
      omega
    · obtain ⟨j, bound, rfl⟩ := List.mem_take_iff_getElem.mp listed
      obtain ⟨below, zero⟩ := run.all (start + j) (by omega) (by omega)
      rw [List.getElem_drop]
      simp only [groupTexts, List.getElem_ofFn]
      rw [assembleGroups_toNat, zero]
  have octets : ∀ n, groupsOctets (List.replicate n (formatHex 0)) = List.replicate (2 * n) 0 := by
    intro n
    induction n with
    | zero => rfl
    | succ n ih =>
      rw [groupsOctets] at ih
      rw [List.replicate_succ, groupsOctets, List.flatMap_cons, ih, groupOctets_formatHex]
      rfl
  rw [zeros, octets]

theorem groupsOctets_append (front back : List Str) :
    groupsOctets (front ++ back) = groupsOctets front ++ groupsOctets back := by
  rw [groupsOctets, List.flatMap_append]
  rfl

section
variable {groups : List Str} {start len : Nat}

theorem octets_collapsed (eight : groups.length = 8) (inside : start + len ≤ 8)
    (zeros : groupsOctets ((groups.drop start).take len) = List.replicate (2 * len) 0) :
    (IpText.gap (groups.take start) (groups.drop (start + len)) none).octets =
      groupsOctets groups := by
  have parts : groups = groups.take start ++ ((groups.drop start).take len ++
      groups.drop (start + len)) := by
    rw [← List.drop_drop, List.take_append_drop, List.take_append_drop]
  have omitted : 16 - ((groupsOctets (groups.take start)).length +
      (groupsOctets (groups.drop (start + len))).length + (quadOctets none).length) = 2 * len := by
    rw [length_groupsOctets, length_groupsOctets, List.length_take, List.length_drop, eight]
    simp only [quadOctets, Option.getD_none, List.map_nil, List.length_nil]
    omega
  have joined : groupsOctets (groups.take start) ++ List.replicate (2 * len) 0 ++
      groupsOctets (groups.drop (start + len)) = groupsOctets groups := by
    rw [← zeros, ← groupsOctets_append, ← groupsOctets_append, List.append_assoc, ← parts]
  rw [IpText.octets, IpText.lead, omitted, joined]
  exact List.append_nil _

theorem readIp_collapsed (eight : groups.length = 8) (hex : ∀ group ∈ groups, HexGroup group)
    (inside : start + len ≤ 8) (two : 2 ≤ len)
    (zeros : groupsOctets ((groups.drop start).take len) = List.replicate (2 * len) 0) :
    readIp (IpText.gap (groups.take start) (groups.drop (start + len)) none).text =
      some ((groupsOctets groups).map some) := by
  have octets := octets_collapsed eight inside zeros
  have valid : (IpText.gap (groups.take start) (groups.drop (start + len)) none).Valid := by
    refine And.intro ?_ (And.intro (IpText.no_quad rfl) (And.intro ?_ ?_))
    · rw [octets, length_groupsOctets, eight]
    · intro group listed
      rcases List.mem_append.mp listed with front | back
      · exact hex group (List.mem_of_mem_take front)
      · exact hex group (List.mem_of_mem_drop back)
    · rw [length_groupsOctets, length_groupsOctets, List.length_take, List.length_drop, eight]
      simp only [quadOctets, Option.getD_none, List.map_nil, List.length_nil]
      omega
  rw [← octets]
  cases start with
  | zero =>
    rw [List.take_zero] at valid ⊢
    rw [readIp_leading valid, if_neg]
    rw [List.length_drop, eight]
    omega
  | succ start =>
    have some_ : groups.take (start + 1) ≠ [] := by
      rw [ne_eq, ← List.length_eq_zero_iff, List.length_take, eight]
      omega
    rw [readIp_front valid some_, if_pos rfl]

end

theorem printsAndReads_collapsed {start len : Nat} (other : ¬Mapped bytes)
    (found : findLongestZeroRun (assembleGroups bytes) = ⟨start, len⟩) (two : 2 ≤ len)
    (longest : Longest (ZeroGroup bytes) 8 start len) : PrintsAndReads bytes := by
  have unmapped : ¬(isIpv4Mapped (assembleGroups bytes) = true) :=
    fun mapped => other ((isIpv4Mapped_iff bytes).mp mapped)
  have inside := longest.run.inside
  have emitted := @emitLoop_collapse (assembleGroups bytes) start len 8 0 [] (by omega) (by omega)
    (by omega) inside (by simp)
  have read := readIp_collapsed (length_groupTexts _) (hexGroup_groupTexts _) inside two
    (groupsOctets_zeroRun longest.run)
  rw [groupsOctets_groupTexts, IpText.text, tailTokens, Option.map_none, Option.toList_none,
    List.append_nil] at read
  refine ⟨_, ?_, Or.inr ⟨other, _, canonical_groupTexts bytes,
    Or.inr ⟨start, len, two, longest, rfl⟩⟩, read⟩
  rw [ipv6Canonical, if_neg unmapped, found, emitCanonical, emitted]
  rfl

theorem printsAndReads (bytes : Fin 16 → UInt8) : PrintsAndReads bytes := by
  by_cases mapped : Mapped bytes
  · exact printsAndReads_mapped mapped
  · rcases findLongestZeroRun_cases bytes with ⟨none_, short⟩ | ⟨start, len, found, two, longest⟩
    · exact printsAndReads_full mapped none_ short
    · exact printsAndReads_collapsed mapped found two longest

theorem addressOf_ofFn (bytes : Fin 16 → UInt8) :
    addressOf (List.ofFn bytes) = IpRepresentation.ofSockAddr (.inet6 bytes) := by
  have octets : (addressOf (List.ofFn bytes)).octets = bytes := by
    funext i
    simp only [addressOf, List.getElem?_ofFn, dif_pos i.isLt, Option.getD_some]
  exact congrArg (fun octets => IpRepresentation.mk octets IpRepresentation.defaultMask) octets

theorem addressOf_quad (sinAddr : Fin 4 → UInt8) :
    addressOf (List.replicate 12 0 ++ List.ofFn sinAddr) =
      IpRepresentation.ofSockAddr (.inet sinAddr) := by
  have octets : (addressOf (List.replicate 12 0 ++ List.ofFn sinAddr)).octets =
      (IpRepresentation.ofSockAddr (.inet sinAddr)).octets := by
    funext i
    simp only [addressOf, IpRepresentation.ofSockAddr]
    by_cases quad : 12 ≤ i.val
    · rw [List.getElem?_append_right (by simpa using quad), List.length_replicate,
        List.getElem?_ofFn, dif_pos (by omega), dif_pos quad, Option.getD_some]
    · rw [List.getElem?_append_left (by simp; omega), List.getElem?_replicate_of_lt (by omega),
        dif_neg quad, Option.getD_some]
  exact congrArg (fun octets => IpRepresentation.mk octets IpRepresentation.defaultMask) octets

def ReadsBack (p : PeerAddress) (addr : SockAddr) : Prop :=
  ∃ text, p.toString = .ok text ∧ CanonicalText addr text ∧
    IpRepresentation.parse text = .ok (IpRepresentation.ofSockAddr addr)

theorem readsBack_ipv6 (bytes : Fin 16 → UInt8) (port : UInt16) :
    ReadsBack ⟨.ipv6, bytes, port⟩ (.inet6 bytes) := by
  obtain ⟨text, printed, canonical, read⟩ := printsAndReads bytes
  refine ⟨text, printed, canonical, (parse_eq_ok_iff _ _).mpr ⟨_, read, ?_⟩⟩
  rw [represent_octets, addressOf_ofFn]

theorem readsBack_ipv4 (bytes : Fin 16 → UInt8) (port : UInt16) :
    ReadsBack ⟨.ipv4, bytes, port⟩ (.inet fun i => bytes ⟨i.val, quad_lt i⟩) := by
  have length := length_formatQuad (bytes 0) (bytes 1) (bytes 2) (bytes 3)
  have quad := formatQuad_eq (bytes 0) (bytes 1) (bytes 2) (bytes 3)
  obtain ⟨decimal, octets⟩ := @decimalQuad_quadTexts [bytes 0, bytes 1, bytes 2, bytes 3] rfl
  have fits : (formatQuad (bytes 0) (bytes 1) (bytes 2) (bytes 3)).length < 16 := by omega
  refine ⟨_, printed_of_fits fits, ?_, (parse_eq_ok_iff _ _).mpr
    ⟨(IpText.ipv4 (quadTexts [bytes 0, bytes 1, bytes 2, bytes 3])).octets.map some, ?_, ?_⟩⟩
  · rw [quad]
    exact canonicalQuad_quadTexts _
  · rw [quad]
    exact readIp_ipv4 decimal
  · rw [represent_octets, IpText.octets, IpText.lead, IpText.quad, quadOctets, Option.getD_some,
      octets]
    exact (addressOf_quad _).symm

theorem readsBack {p : PeerAddress} {addr : SockAddr} (known : p.sockAddr = some addr) :
    ReadsBack p addr := by
  obtain ⟨fam, bytes, port⟩ := p
  cases fam with
  | unspec => cases known
  | ipv4 =>
    cases known
    exact readsBack_ipv4 bytes port
  | ipv6 =>
    cases known
    exact readsBack_ipv6 bytes port

theorem ofSockAddr_injective {p q : PeerAddress} {a b : SockAddr} (family : p.fam = q.fam)
    (left : p.sockAddr = some a) (right : q.sockAddr = some b)
    (same : IpRepresentation.ofSockAddr a = IpRepresentation.ofSockAddr b) : a = b := by
  obtain ⟨fam, bytes, port⟩ := p
  obtain ⟨fam', bytes', port'⟩ := q
  obtain rfl : fam = fam' := family
  cases fam with
  | unspec => cases left
  | ipv6 =>
    cases left
    cases right
    exact congrArg SockAddr.inet6 (congrArg IpRepresentation.octets same)
  | ipv4 =>
    cases left
    cases right
    refine congrArg SockAddr.inet (funext fun i => ?_)
    have octet := congrFun (congrArg IpRepresentation.octets same) ⟨12 + i.val, by omega⟩
    have back : 12 + i.val - 12 = i.val := by omega
    simpa [IpRepresentation.ofSockAddr, back] using octet

structure PrintsCanonically (p : PeerAddress) (addr : SockAddr) : Prop where
  back : ReadsBack p addr
  full : (IpRepresentation.ofSockAddr addr).mask = IpRepresentation.defaultMask
  distinct : ∀ (q : PeerAddress) other, q.fam = p.fam → q.sockAddr = some other → other ≠ addr →
    q.toString ≠ p.toString

theorem peer_address_prints_canonically (p : PeerAddress) (addr : SockAddr)
    (known : p.sockAddr = some addr) : PrintsCanonically p addr := by
  refine ⟨readsBack known, ?_, ?_⟩
  · cases addr with
    | inet sinAddr => rfl
    | inet6 sin6Addr => rfl
  · intro q other family stands apart same
    obtain ⟨text, printed, -, parsed⟩ := readsBack known
    obtain ⟨text', printed', -, parsed'⟩ := readsBack stands
    rw [same, printed] at printed'
    cases printed'
    rw [parsed] at parsed'
    exact apart (ofSockAddr_injective family stands known (Except.ok.inj parsed').symm)

/-- The peer of a client socket stands for the socket's address. -/
theorem client_prints_canonically :
    let loopback : Fin 16 → UInt8 := ![0, 0, 0, 0, 0, 0, 0, 0, 0, 0, 0, 0, 0, 0, 0, 1]
    (makePeerAddress (some (clientSocket (.inet6 loopback) 8080))).toString = .ok "::1".toList ∧
      PrintsCanonically (makePeerAddress (some (clientSocket (.inet6 loopback) 8080)))
        (.inet6 loopback) :=
  ⟨by decide, peer_address_prints_canonically _ _ (sockAddr_makePeerAddress _ _)⟩

end HttpServer
