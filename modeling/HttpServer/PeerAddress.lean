import HttpServer.IpRepresentation

/-!
The peer of a connection as the hooks and as the handlers see it. Both sides
read the client's socket address, where the port stands in network byte order;
only the hooks' side turns it round. The host is little-endian.
-/
namespace HttpServer

/-- `sin_port` or `sin6_port`: two bytes in memory, the port's high one first. -/
structure PortField where
  first : UInt8
  second : UInt8

def PortField.value (field : PortField) : UInt16 :=
  UInt16.ofNat (field.first.toNat + 256 * field.second.toNat)

def PortField.ofPort (port : UInt16) : PortField :=
  ⟨UInt8.ofNat (port.toNat / 256), UInt8.ofNat (port.toNat % 256)⟩

def ntohs (value : UInt16) : UInt16 :=
  UInt16.ofNat (256 * (value.toNat % 256) + value.toNat / 256)

inductive ClientSocket where
  | inet (sinPort : PortField) (sinAddr : Fin 4 → UInt8)
  | inet6 (sin6Port : PortField) (sin6Addr : Fin 16 → UInt8)
  | other

inductive SocketError where
  | nullPointer
  | otherFamily
  deriving DecidableEq, Repr

def SocketError.message : SocketError → Str
  | .nullPointer => "socket pointer is null".toList
  | .otherFamily => "IP family must be either AF_INET or AF_INET6".toList

def getPort : Option ClientSocket → Except SocketError UInt16
  | none => .error .nullPointer
  | some (.inet sinPort _) => .ok sinPort.value
  | some (.inet6 sin6Port _) => .ok sin6Port.value
  | some .other => .error .otherFamily

/-- What `MHD_get_connection_info` has for `MHD_CONNECTION_INFO_CLIENT_ADDRESS`:
    nothing, or a `client_addr` that may be null. -/
structure ClientConnection where
  info : Option (Option ClientSocket)

/-- The part of a request its peer accessors read. A test request has no
    connection. -/
structure RequestPeer where
  connection : Option ClientConnection
  requestorPortLocal : UInt16

def RequestPeer.getRequestorPort (r : RequestPeer) : Except SocketError UInt16 :=
  match r.connection with
  | none => .ok r.requestorPortLocal
  | some connection =>
    match connection.info with
    | none => .ok 0
    | some clientAddr => getPort clientAddr

inductive PeerFamily where
  | unspec
  | ipv4
  | ipv6
  deriving DecidableEq, Repr

structure PeerAddress where
  fam : PeerFamily := .unspec
  bytes : Fin 16 → UInt8 := fun _ => 0
  port : UInt16 := 0

def makePeerAddress : Option ClientSocket → PeerAddress
  | none => {}
  | some (.inet sinPort sinAddr) =>
    { fam := .ipv4
      bytes := fun i => if h : i.val < 4 then sinAddr ⟨i.val, h⟩ else 0
      port := ntohs sinPort.value }
  | some (.inet6 sin6Port sin6Addr) =>
    { fam := .ipv6, bytes := sin6Addr, port := ntohs sin6Port.value }
  | some .other => {}

/-- `resolve_peer` of `connection_notify`. -/
def resolvePeer : Option ClientConnection → PeerAddress
  | none => {}
  | some connection =>
    match connection.info with
    | none => {}
    | some clientAddr => makePeerAddress clientAddr

def clientSocket (addr : SockAddr) (port : UInt16) : ClientSocket :=
  match addr with
  | .inet sinAddr => .inet (.ofPort port) sinAddr
  | .inet6 sin6Addr => .inet6 (.ofPort port) sin6Addr

theorem PortField.value_ofPort (port : UInt16) :
    (PortField.ofPort port).value.toNat = port.toNat / 256 + 256 * (port.toNat % 256) := by
  have small := port.toNat_lt
  have high : port.toNat / 256 < 2 ^ 8 := by omega
  have low : port.toNat % 256 < 2 ^ 8 := by omega
  simp only [PortField.value, PortField.ofPort, UInt16.toNat_ofNat', UInt8.toNat_ofNat',
    Nat.mod_eq_of_lt high, Nat.mod_eq_of_lt low]
  apply Nat.mod_eq_of_lt
  omega

theorem ntohs_ofPort (port : UInt16) : ntohs (PortField.ofPort port).value = port := by
  have small := port.toNat_lt
  have value := PortField.value_ofPort port
  have high : (port.toNat / 256 + 256 * (port.toNat % 256)) % 256 = port.toNat / 256 := by omega
  have low : (port.toNat / 256 + 256 * (port.toNat % 256)) / 256 = port.toNat % 256 := by omega
  apply UInt16.toNat_inj.mp
  rw [ntohs, UInt16.toNat_ofNat', value, high, low, Nat.div_add_mod]
  exact Nat.mod_eq_of_lt small

theorem makePeerAddress_port (addr : SockAddr) (port : UInt16) :
    (makePeerAddress (some (clientSocket addr port))).port = port := by
  cases addr with
  | inet sinAddr => exact ntohs_ofPort port
  | inet6 sin6Addr => exact ntohs_ofPort port

theorem getPort_clientSocket (addr : SockAddr) (port : UInt16) :
    getPort (some (clientSocket addr port)) = .ok (PortField.ofPort port).value := by
  cases addr with
  | inet sinAddr => rfl
  | inet6 sin6Addr => rfl

structure SamePort (addr : SockAddr) (port : UInt16) (r : RequestPeer) : Prop where
  accept : (makePeerAddress (some (clientSocket addr port))).port = port
  connection : (resolvePeer r.connection).port = port
  handler : r.getRequestorPort = .ok port

/-- They do when the two bytes of the port are equal and not otherwise. -/
theorem same_port_iff (addr : SockAddr) (port requestorPortLocal : UInt16) :
    SamePort addr port ⟨some ⟨some (some (clientSocket addr port))⟩, requestorPortLocal⟩ ↔
      port.toNat / 256 = port.toNat % 256 := by
  have small := port.toNat_lt
  have value := PortField.value_ofPort port
  constructor
  · intro same
    have reported : Except.ok (PortField.ofPort port).value = Except.ok (ε := SocketError) port :=
      (getPort_clientSocket addr port).symm.trans same.handler
    rw [Except.ok.inj reported] at value
    omega
  · intro bytes
    refine ⟨makePeerAddress_port addr port, makePeerAddress_port addr port, ?_⟩
    refine (getPort_clientSocket addr port).trans (congrArg Except.ok ?_)
    apply UInt16.toNat_inj.mp
    rw [value]
    omega

/-- A client on port 8080: its handlers see port 36895. -/
theorem requestor_port_swapped :
    let socket := clientSocket (.inet ![127, 0, 0, 1]) 8080
    (makePeerAddress (some socket)).port = 8080 ∧
      (resolvePeer (some ⟨some (some socket)⟩)).port = 8080 ∧
      RequestPeer.getRequestorPort ⟨some ⟨some (some socket)⟩, 0⟩ = .ok 36895 := by
  decide

end HttpServer
