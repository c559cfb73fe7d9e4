import Delonix.Library.Json

/-! What a provider holds when it is observed, as the fingerprint that the digest of a plan
covers. The order the provider answered in is not state.
-/

namespace Delonix.Networking

open Delonix.Library.Json
open Delonix.Library.Sorting
open Delonix.Library.Text

def planFormat : Nat := 1

/-- The entries of a map of texts as an object. -/
def textObject (entries : List (String × String)) : Value :=
  .objectOf (entries.map fun entry => (entry.1, .text entry.2))

/-- The text that is hashed for a plan. -/
def planText (intent : List (String × String)) (observed : Value)
    (provider catalogVersion : String) (capabilities : List (String × String)) : List Char :=
  write (.objectOf
    [ ("capabilities", textObject capabilities),
      ("catalog", .text catalogVersion),
      ("format", .number planFormat),
      ("intent", textObject intent),
      ("observed", canonical observed),
      ("provider", .text provider) ])

/-- A field that objects are sorted by. -/
def textField (key : String) (value : Value) : String := ((value.get key).asStr).getD ""

/-- Two fields that objects are sorted by, each as its JSON text. -/
def pairField (key key' : String) (value : Value) : String :=
  String.ofList (write (value.get key) ++ '|' :: write (value.get key'))

inductive AliasKind where
  | host
  | network
  deriving DecidableEq

structure GatewayAlias where
  name : String
  kind : AliasKind
  content : List String
  description : String
  deriving DecidableEq

inductive GatewayAction where
  | pass
  | block
  deriving DecidableEq

def GatewayAction.asStr : GatewayAction → String
  | .pass => "pass"
  | .block => "block"

structure GatewayRule where
  description : String
  source : String
  destination : String
  protocol : Option String
  action : GatewayAction
  destinationPort : Option String
  log : Bool
  stateful : Bool
  sequence : Option UInt32
  deriving DecidableEq

/-- What a gateway provider holds under one owner mark. -/
structure GatewayObserved where
  aliases : List GatewayAlias
  rules : List GatewayRule
  disabledRules : List String

def AliasKind.asStr : AliasKind → String
  | .host => "host"
  | .network => "network"

def aliasValue (a : GatewayAlias) : Value :=
  .objectOf
    [ ("name", .text a.name),
      ("kind", .text a.kind.asStr),
      ("content", .array ((sortByKey id a.content).map .text)),
      ("description", .text a.description) ]

def toAsciiUppercase (s : String) : String := s.map Char.toUpper

def ruleValue (r : GatewayRule) (disabled : Bool) : Value :=
  .objectOf
    [ ("description", .text r.description),
      ("source", .text r.source),
      ("destination", .text r.destination),
      ("protocol", .option .text (r.protocol.map toAsciiUppercase)),
      ("action", .text r.action.asStr),
      ("destinationPort", .option .text r.destinationPort),
      ("log", .bool r.log),
      ("stateful", .bool r.stateful),
      ("sequence", .option (fun n => .number n.toNat) r.sequence),
      ("disabled", .bool disabled) ]

def gatewayFingerprint (o : GatewayObserved) : Value :=
  let aliases := sortByKey (textField "name") (o.aliases.map aliasValue)
  let rules := sortByKey (textField "description")
    (o.rules.map fun r => ruleValue r (o.disabledRules.contains r.description))
  .objectOf [("aliases", .array aliases), ("rules", .array rules)]

inductive NatKind where
  | source
  | destination
  deriving DecidableEq

def NatKind.asStr : NatKind → String
  | .source => "snat"
  | .destination => "dnat"

structure NatRule where
  description : String
  kind : NatKind
  interface : String
  source : String
  protocol : Option String
  port : Option UInt16
  target : String
  targetPort : Option UInt16
  deriving DecidableEq

/-- The address translation a provider holds under one owner mark. -/
structure NatObserved where
  rules : List NatRule
  disabled : List String

def natValue (r : NatRule) (disabled : Bool) : Value :=
  .objectOf
    [ ("description", .text r.description),
      ("kind", .text r.kind.asStr),
      ("interface", .text r.interface),
      ("source", .text r.source),
      ("protocol", .option .text r.protocol),
      ("port", .option (fun n => .number n.toNat) r.port),
      ("target", .text r.target),
      ("targetPort", .option (fun n => .number n.toNat) r.targetPort),
      ("disabled", .bool disabled) ]

def natFingerprint (o : NatObserved) : Value :=
  .array (sortByKey (textField "description")
    (o.rules.map fun r => natValue r (o.disabled.contains r.description)))

structure VNetSpec where
  name : String
  zone : String
  alias_ : Option String
  deriving DecidableEq

/-- What a segment provider holds for one zone under one owner mark. -/
structure SegmentObserved where
  zonePresent : Bool
  vnets : List VNetSpec
  foreignVnets : List String

/-- An alias without the blanks around it, an empty one as absent. -/
def trimmedAlias (v : VNetSpec) : Option String :=
  (v.alias_.map fun a => String.ofList (trim a.toList)).filter (· ≠ "")

def vnetValue (v : VNetSpec) : Value :=
  .objectOf
    [ ("name", .text v.name),
      ("zone", .text v.zone),
      ("alias", .option .text (trimmedAlias v)) ]

def segmentFingerprint (o : SegmentObserved) : Value :=
  let vnets := sortByKey (textField "name") (o.vnets.map vnetValue)
  let foreign := sortByKey id o.foreignVnets
  .objectOf
    [ ("zonePresent", .bool o.zonePresent),
      ("vnets", .array vnets),
      ("foreignVnets", .array (foreign.map .text)) ]

structure DhcpRange where
  start : String
  end_ : String
  deriving DecidableEq

structure IpamSubnet where
  vnet : String
  cidr : String
  gateway : Option String
  dhcpRanges : List DhcpRange
  deriving DecidableEq

structure IpamEntry where
  vnet : String
  ip : String
  mac : Option String
  vmid : Option UInt32
  deriving DecidableEq

structure IpamGatewayEntry where
  vnet : String
  ip : String
  deriving DecidableEq

/-- What an IPAM provider holds for one zone. -/
structure IpamObserved where
  subnets : List IpamSubnet
  entries : List IpamEntry
  gatewayEntries : List IpamGatewayEntry
  zoneIpam : Bool
  zoneDhcp : Bool
  controller : Option String

def rangeText (r : DhcpRange) : String := r.start ++ "-" ++ r.end_

def gatewayText (g : IpamGatewayEntry) : String := g.vnet ++ "|" ++ g.ip

def subnetValue (s : IpamSubnet) : Value :=
  .objectOf
    [ ("vnet", .text s.vnet),
      ("cidr", .text s.cidr),
      ("gateway", .option .text s.gateway),
      ("dhcpRanges", .array ((sortByKey id (s.dhcpRanges.map rangeText)).map .text)) ]

def entryValue (e : IpamEntry) : Value :=
  .objectOf
    [ ("vnet", .text e.vnet),
      ("ip", .text e.ip),
      ("mac", .option .text e.mac) ]

def ipamFingerprint (o : IpamObserved) : Value :=
  let subnets := sortByKey (pairField "vnet" "cidr") (o.subnets.map subnetValue)
  let entries := sortByKey (pairField "vnet" "ip") (o.entries.map entryValue)
  let gateways := sortByKey id (o.gatewayEntries.map gatewayText)
  .objectOf
    [ ("zoneIpam", .bool o.zoneIpam),
      ("zoneDhcp", .bool o.zoneDhcp),
      ("subnets", .array subnets),
      ("entries", .array entries),
      ("gatewayEntries", .array (gateways.map .text)) ]

end Delonix.Networking
