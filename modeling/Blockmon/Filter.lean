import Blockmon.Packet

/-!
# Filters (`blocks/Filter.hpp`)

The base of the filters of packets and flows: the mode of a field says whether the field is looked at and whether what matches is let through or
discarded. An XML node is a tree, and what the libraries read from a text is a parameter: `as_uint` a number, `inet_pton` an address, which it
writes in network byte order.
-/

namespace Blockmon.Filtering

open Blockmon.Messages (ntohl)

/-- `xml_node`: an element with its attributes and its children. -/
inductive XmlNode where
  | element (name : String) (attributes : List (String × String)) (children : List XmlNode)

namespace XmlNode

/-- The name of a node. -/
def name : XmlNode → String
  | element name _ _ => name

/-- The attributes of a node in their order. -/
def attributes : XmlNode → List (String × String)
  | element _ attributes _ => attributes

/-- The children of a node in their order. -/
def children : XmlNode → List XmlNode
  | element _ _ children => children

/-- The children with a name, in the order of `next_sibling`. -/
def named (n : XmlNode) (name : String) : List XmlNode := n.children.filter fun c => c.name = name

/-- `child`: the first one of the name, if any. -/
def child (n : XmlNode) (name : String) : Option XmlNode := (n.named name).head?

/-- `attribute`. -/
def attr (n : XmlNode) (name : String) : Option String := (n.attributes.find? fun a => a.1 = name).map Prod.snd

end XmlNode

/-- What the text conversions of pugixml and of the C library give. -/
structure Texts where
  asUint : String → UInt32
  inetPton : String → Option UInt32

namespace Filter

/-- `FIELD_ACTIVE` -/
def FIELD_ACTIVE : UInt8 := 1
/-- `FILTER_OUT` -/
def FILTER_OUT : UInt8 := 2

/-- Whether the filtering goes on. -/
def goAhead (filterResult : Bool) (filterMode : UInt8) : Bool :=
  (filterMode &&& (1 <<< FILTER_OUT) ≠ 0 && !filterResult) || (!(filterMode &&& (1 <<< FILTER_OUT) ≠ 0) && filterResult)

/-- Whether the field is looked at. -/
def isIndirect (filterMode : UInt8) : Bool := filterMode &&& (1 <<< FIELD_ACTIVE) ≠ 0

/-- The text of `signal_error` -/
def signalError (fieldname : String) : String := "PacketFilter:: malformed xml node for the field " ++ fieldname

/-- `string_to_ip` -/
def stringToIp (T : Texts) (strIp : String) : Except String UInt32 :=
  match T.inetPton strIp with
  | none => .error "PacketFilter : cannot parse ip address"
  | some retVal => .ok (ntohl retVal)

/-- What is returned, and the mode byte. -/
def parseFilterMode (fieldNode : XmlNode) (modeByte : UInt8) : Bool × UInt8 :=
  match fieldNode.child "filter_mode" with
  | none => (false, modeByte)
  | some mode =>
    match mode.attr "behavior" with
    | none => (false, modeByte ||| (1 <<< FIELD_ACTIVE))
    | some behavior =>
      if behavior = "discard" then (true, modeByte ||| (1 <<< FIELD_ACTIVE) ||| (1 <<< FILTER_OUT))
      else if behavior = "accept" then (true, modeByte ||| (1 <<< FIELD_ACTIVE))
      else (false, modeByte ||| (1 <<< FIELD_ACTIVE))

/-- An attribute that must be there. -/
def require (c : XmlNode) (key fieldname : String) : Except String String :=
  match c.attr key with
  | none => .error (signalError fieldname)
  | some value => .ok value

/-- A field: nothing if it is not configured, else its mode and what is read of its node. -/
def parseField {α : Type} (n : XmlNode) (fieldname : String) (mode : UInt8) (value : α) (read : XmlNode → Except String α) :
    Except String (UInt8 × α) :=
  match n.child fieldname with
  | none => .ok (mode, value)
  | some c =>
    if (parseFilterMode c mode).1 then do
      let value ← read c
      .ok ((parseFilterMode c mode).2, value)
    else .error (signalError fieldname)

/-- The address and the mask of a node. -/
def readAddress (T : Texts) (fieldname : String) (c : XmlNode) : Except String (UInt32 × UInt32) := do
  let address ← stringToIp T (← require c "address" fieldname)
  let mask ← stringToIp T (← require c "netmask" fieldname)
  .ok (address, mask)

/-- The number of a node, in 16 bits. -/
def readNumber (T : Texts) (fieldname : String) (c : XmlNode) : Except String UInt16 := do
  .ok (T.asUint (← require c "number" fieldname)).toUInt16

end Filter

/-- The address is with its mask. -/
structure Filter where
  ipSrc : UInt32 × UInt32
  ipSrcMode : UInt8
  ipDst : UInt32 × UInt32
  ipDstMode : UInt8
  layer4Proto : UInt16
  layer4Mode : UInt8
  srcPortMode : UInt8
  dstPortMode : UInt8

namespace Filter

/-- The constructor: no field is active. -/
def new : Filter where
  ipSrc := (0, 0)
  ipSrcMode := 0
  ipDst := (0, 0)
  ipDstMode := 0
  layer4Proto := 0
  layer4Mode := 0
  srcPortMode := 0
  dstPortMode := 0

/-- `_configure` of the addresses and of the level-4 protocol. -/
def configure (T : Texts) (n : XmlNode) (f : Filter) : Except String Filter := do
  let (ipSrcMode, ipSrc) ← parseField n "ip_src" f.ipSrcMode f.ipSrc (readAddress T "ip_src")
  let (ipDstMode, ipDst) ← parseField n "ip_dst" f.ipDstMode f.ipDst (readAddress T "ip_dst")
  let (layer4Mode, layer4Proto) ← parseField n "l4_protocol" f.layer4Mode f.layer4Proto (readNumber T "l4_protocol")
  .ok { f with
    ipSrc := ipSrc
    ipSrcMode := ipSrcMode
    ipDst := ipDst
    ipDstMode := ipDstMode
    layer4Proto := layer4Proto
    layer4Mode := layer4Mode }

/-- The comparison of an address under the mask. -/
def matchesAddress (configured : UInt32 × UInt32) (ip : UInt32) : Bool := configured.1 &&& configured.2 = ip &&& configured.2

end Filter

end Blockmon.Filtering
