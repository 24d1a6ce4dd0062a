import XcoreSdk.Dhcpd.PoolInit
/-!
# What is in the pool

`dhcpd_ip_pool_init` has room for one entry less than the pool has addresses, and
fills the entries with the valid addresses from the start upwards. So it leaves one
out where all are valid.
-/

namespace Dhcpd
variable (cfg : Config)

/-- An address that is to be in the pool. -/
def Config.Valid (ip : in_addr) : Prop := cfg.ip_pool_start ≤ ip ∧ ip ≤ cfg.ip_pool_end ∧ cfg.skips ip = false

instance (ip : in_addr) : Decidable (cfg.Valid ip) := inferInstanceAs (Decidable (_ ∧ _))

variable {cfg} {env : Env} {s s' : Server} {p : in_addr} {n i v : Nat} {l : List Nat}

/-! ## The search -/

/-- The state with another entry. -/
def Server.add (s : Server) (i : Nat) (info : dhcp_ip_info_t) : Server :=
  { s.setInfo i info with dhcp_ip_pool := FreeRtos.vListInsert (s.setInfo i info).value i s.dhcp_ip_pool }

end Dhcpd
