import Mathlib.Tactic

/-!
# Peer addresses (`rel4u_net.h`, `rel4u_net.c`)

A datagram arrives with the address it was sent from. Addresses are compared by
`rel4u_net_addr_equal`: the port and the address proper of two IPv4 or two IPv6 addresses, and
nothing of any other family, so an address of another family equals no address, itself included.
-/

namespace Rel4u

/-- `rel4u_net_addr_t`: the parts of the socket address that are compared. -/
inductive NetAddr
  | inet (port : UInt16) (addr : UInt32)
  | inet6 (port : UInt16) (addr : BitVec 128)
  | other (family : UInt16)
  deriving DecidableEq, Repr, Inhabited

/-- `rel4u_net_addr_equal`. -/
def NetAddr.equal : NetAddr → NetAddr → Bool
  | inet p a, inet q b => decide (p = q) && decide (a = b)
  | inet6 p a, inet6 q b => decide (p = q) && decide (a = b)
  | _, _ => false

theorem NetAddr.eq_of_equal {a b : NetAddr} (h : a.equal b = true) : a = b := by
  cases a <;> cases b <;> simp_all [NetAddr.equal]

theorem NetAddr.equal_comm (a b : NetAddr) : a.equal b = b.equal a := by
  cases a <;> cases b <;> simp [NetAddr.equal, eq_comm]

/-- `REL4U_STATE_*`, the state of a client or of a client's slot at the server. -/
inductive ConnState
  | disconnected
  | connecting
  | connected
  | disconnecting
  deriving DecidableEq, Repr, Inhabited

end Rel4u
