import Blockmon.PacketFilter

/-!
# Fragments (`blocks/Nofrag.hpp`, `blocks/Nofrag.cpp`)

The message is a packet. Reading through a null pointer is reading outside of the buffer.
-/

namespace Blockmon.Nofrag

open Blockmon.Messages (Parse)
open Blockmon.Messages.Packet (member parseMac load)

/-- `IPHDR_MF` -/
def IPHDR_MF : UInt16 := 0x8000

/-- `IPHDR_FRAGOFF` -/
def IPHDR_FRAGOFF (v : UInt16) : UInt16 := v &&& 0x1000

/-- The place of `fragoff` in `ip4hdr`. -/
def offsetofFragoff : Nat := 6

/-- What is sent out of the gate for the message `m`. -/
def receiveMsg {τ : Type} (m : τ) : Parse (List τ) := do
  match ← member parseMac fun p => p.iphdrPtr with
  | none => throw .outOfBounds
  | some iphdr =>
    let fragoff := Messages.ntohs (Messages.u16 (← load (iphdr + offsetofFragoff) 2) 0)
    if fragoff &&& IPHDR_MF = 0 ∧ IPHDR_FRAGOFF fragoff = 0 then return [m] else return []

end Blockmon.Nofrag
