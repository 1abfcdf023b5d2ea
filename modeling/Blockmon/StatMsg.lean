import Blockmon.Lib.OrdMap
import Mathlib.Data.String.Basic

/-!
# Tickets and histograms (`messages/TicketMsg.hpp`, `messages/TicketMsg.cpp`, `messages/HistoMsg.hpp`)

The size of a feature map is a number here: no map has the 2^32 features that a `uint` does not count.
-/

namespace Blockmon.StatAD

/-- The order of the unsigned keys of the maps. -/
instance linearOrderUInt32 : LinearOrder UInt32 where
  le_refl := UInt32.le_refl
  le_trans _ _ _ := UInt32.le_trans
  le_antisymm _ _ := UInt32.le_antisymm
  le_total := UInt32.le_total
  lt_iff_le_not_ge a b := by
    rw [UInt32.lt_iff_toNat_lt, UInt32.le_iff_toNat_le, UInt32.le_iff_toNat_le]
    omega
  toDecidableLE := inferInstance
  toDecidableEq := inferInstance
  toDecidableLT := inferInstance
  min_def _ _ := rfl
  max_def _ _ := rfl

/-- `TicketMsg`: the time, the user and the features. -/
structure TicketMsg where
  timestamp : UInt64
  userID : UInt32
  featurePairs : OrdMap String UInt64

namespace TicketMsg

/-- The constructor. -/
def new (timestamp : UInt64) (userID : UInt32) : TicketMsg where
  timestamp := timestamp
  userID := userID
  featurePairs := OrdMap.empty

/-- `add_feature`: a feature that is there keeps its value. -/
def addFeature (t : TicketMsg) (featureID : String) (featureVal : UInt64) : TicketMsg where
  timestamp := t.timestamp
  userID := t.userID
  featurePairs := t.featurePairs.insert featureID featureVal

/-- `set_features` -/
def setFeatures (t : TicketMsg) (featurePairs : OrdMap String UInt64) : TicketMsg where
  timestamp := t.timestamp
  userID := t.userID
  featurePairs := featurePairs

/-- `get_extracted_features`: the number of features. -/
def getExtractedFeatures (t : TicketMsg) : Nat := t.featurePairs.entries.length

/-- The test for a signalling ticket, `(ticket->get_userID() == 0) && (ticket->get_extracted_features() == 0)`. -/
def Signalling (t : TicketMsg) : Prop := t.userID = 0 ∧ t.getExtractedFeatures = 0

/-- Signalling can be decided. -/
instance (t : TicketMsg) : Decidable t.Signalling := inferInstanceAs (Decidable (_ ∧ _))

end TicketMsg

/-- `HistoMsg` -/
structure HistoMsg where
  timestamp : UInt64
  featureID : String
  nrUniqueUsers : UInt64
  histogram : List UInt32
  totalValue : UInt64

/-- The order in which the entries of an unordered map are visited. -/
structure VisitOrder (α : Type) where
  visit : List α → List α
  perm : ∀ es, (visit es).Perm es

/-- The order in which they are listed. -/
def VisitOrder.listed {α : Type} : VisitOrder α where
  visit es := es
  perm es := List.Perm.refl es

end Blockmon.StatAD
