import Delonix.Net.Cidr

/-! The `nft` script that serves the virtual addresses: one DNAT to the ready backends of each
Service, and a guard that rejects every virtual address no DNAT rewrote.
-/

namespace Delonix.Vip

open Delonix.Net

/-- One served VIP: its port, the ready backend addresses, and the host ports published for it.
-/
structure VipPlan where
  vip : String
  port : UInt16
  backends : List String
  publish : List UInt16
  deriving DecidableEq, Repr

/-- A dotted address in the one spelling `Ipv4Addr` prints. -/
def strictV4 (s : String) : Bool := (Cidr.parseAddr s).any (Cidr.fmtU32 · == s)

def svcPreChain : String := "svcpre"
def svcOutChain : String := "svcout"
def vipGuardChain : String := "vipguard"
def vipGuardOutChain : String := "vipguardout"

def infraSlirpIp : String := "10.0.2.100"

/-- A chain is created if absent and flushed. -/
def chainHead (table chain hook kind prio : String) : String :=
  "add chain ip " ++ table ++ " " ++ chain ++ " \x7b type " ++ kind ++ " hook " ++ hook
    ++ " priority " ++ prio ++ "; \x7d\nflush chain ip " ++ table ++ " " ++ chain ++ "\n"

/-- One DNAT rule: an address and a port to the backends of the map. -/
def dnatRule (table chain addr port : String) (count : Nat) (map : String) : String :=
  "add rule ip " ++ table ++ " " ++ chain ++ " ip daddr " ++ addr ++ " tcp dport " ++ port
    ++ " counter dnat ip to numgen random mod " ++ toString count ++ " map \x7b " ++ map
    ++ " \x7d\n"

/-- The rules of one plan. One without a strict address, a ready backend or a port has none.
-/
def planRules (table : String) (plan : VipPlan) : String :=
  let backends := plan.backends.filter strictV4
  if !strictV4 plan.vip || backends.isEmpty || plan.port == 0 then ""
  else
    let entry := fun (b, i) => toString i ++ " : " ++ b ++ " . " ++ toString plan.port
    let map := ", ".intercalate (backends.zipIdx.map entry)
    let rule := fun chain addr port => dnatRule table chain addr port backends.length map
    rule svcPreChain plan.vip (toString plan.port) ++ rule svcOutChain plan.vip (toString plan.port)
      ++ String.join ((plan.publish.filter (· ≠ 0)).map
        fun hostPort => rule svcPreChain infraSlirpIp (toString hostPort))

def guardElement (net : Cidr) : String :=
  if net.len = 32 then Cidr.fmtU32 net.base else net.toStringCidr

def guardRules (table : String) (guard : List Cidr) : String :=
  if guard.isEmpty then ""
  else
    let set := ", ".intercalate (guard.map guardElement)
    let reject := fun chain =>
      "add rule ip " ++ table ++ " " ++ chain ++ " ip daddr \x7b " ++ set
        ++ " \x7d meta l4proto tcp counter reject with tcp reset\nadd rule ip " ++ table ++ " "
        ++ chain ++ " ip daddr \x7b " ++ set
        ++ " \x7d counter reject with icmp type port-unreachable\n"
    reject vipGuardChain ++ reject vipGuardOutChain

/-- The whole `nft -f` transaction. -/
def renderScript (table : String) (plans : List VipPlan) (guard : List Cidr) : String :=
  chainHead table svcPreChain "prerouting" "nat" "-101"
    ++ chainHead table svcOutChain "output" "nat" "-101"
    ++ chainHead table vipGuardChain "forward" "filter" "-20"
    ++ chainHead table vipGuardOutChain "output" "filter" "-20"
    ++ String.join (plans.map (planRules table)) ++ guardRules table guard

/-- Every pool that overlaps none before it. -/
def guardPools : List Cidr → List Cidr → List Cidr
  | out, [] => out
  | out, pool :: rest =>
      if out.any (Cidr.overlaps · pool) then guardPools out rest
      else guardPools (out ++ [pool]) rest

/-- Then each strict VIP that no element contains. -/
def guardVips : List UInt32 → List Cidr → List String → List Cidr
  | _, out, [] => out
  | seen, out, vip :: rest =>
      match Cidr.parseAddr vip with
      | none => guardVips seen out rest
      | some addr =>
          if !strictV4 vip || seen.contains addr then guardVips seen out rest
          else if out.any (Cidr.contains · addr) then guardVips (addr :: seen) out rest
          else guardVips (addr :: seen) (out ++ [{ base := addr, len := 32 }]) rest

/-- The guard set: every pool, plus each VIP that no pool contains. -/
def guardSet (pools : List Cidr) (vips : List String) : List Cidr :=
  guardVips [] (guardPools [] pools) vips

end Delonix.Vip
