import Mathlib.Algebra.Order.BigOperators.Group.List
import Mathlib.Algebra.Order.Field.Basic
import Mathlib.Algebra.BigOperators.Ring.List
import Mathlib.Algebra.Order.Ring.Rat
import Mathlib.Algebra.Field.Rat
import Mathlib.Tactic.Positivity
import Blockmon.ADTest
import Blockmon.Lib.LastValues

/-!
# The reference window

Each feature's window is made of the last histograms of the feature that were accepted, with their own distributions: the vectors that these are
computed in are empty whenever a message comes in.
-/

namespace Blockmon.StatAD

namespace ADTest

variable {α : Type} (D : Doubles α)

/-! ## The distribution -/

/-- The share of a bin, before the second normalization. -/
def share (totNumUsers : UInt16) (x : UInt32) : α :=
  if D.isZero (D.div (D.ofNat x.toNat) (D.ofNat totNumUsers.toNat)) then D.epsilon else D.div (D.ofNat x.toNat) (D.ofNat totNumUsers.toNat)

/-- The shares of the users in the bins, with the total that the source computes. -/
def shares (histog : List UInt32) : List α := histog.map (share D (histog.foldl (fun tot x => tot + x.toUInt16) 0))

/-- The distribution of a histogram. -/
def pdfOf (histog : List UInt32) : List α :=
  (shares D histog).map fun p => D.div p ((shares D histog).foldl D.add (D.ofNat 0))

/-- The loop that counts appends the shares to the PDF and adds them up. -/
theorem countUsers_eq (tot : UInt16) (histog : List UInt32) (pdf : List α) (nDummyUsers : α) (nEmptyBins : UInt16) :
    (countUsers D tot histog pdf.length (pdf, nDummyUsers, nEmptyBins)).1 = pdf ++ histog.map (share D tot) ∧
      (countUsers D tot histog pdf.length (pdf, nDummyUsers, nEmptyBins)).2.1 = (histog.map (share D tot)).foldl D.add nDummyUsers := by
  induction histog generalizing pdf nDummyUsers nEmptyBins with
  | nil => exact ⟨(List.append_nil pdf).symm, rfl⟩
  | cons x histog ih =>
    have hshare : share D tot x = if D.isZero (D.div (D.ofNat x.toNat) (D.ofNat tot.toNat)) then D.epsilon
      else D.div (D.ofNat x.toNat) (D.ofNat tot.toNat) := rfl
    rw [countUsers]
    by_cases hzero : D.isZero (D.div (D.ofNat x.toNat) (D.ofNat tot.toNat)) = true
    · have hnext := ih (pdf ++ [D.epsilon]) (D.add nDummyUsers D.epsilon) (nEmptyBins + 1)
      rw [if_pos hzero] at hshare
      simpa [hzero, hshare, List.set_append] using hnext
    · have hnext := ih (pdf ++ [D.div (D.ofNat x.toNat) (D.ofNat tot.toNat)])
        (D.add nDummyUsers (D.div (D.ofNat x.toNat) (D.ofNat tot.toNat))) nEmptyBins
      rw [if_neg hzero] at hshare
      simpa [hzero, hshare] using hnext

/-- The loop that normalizes divides each entry of the PDF by the total. -/
theorem normalize_eq (nDummyUsers : α) (pdf rest cdf ccdf : List α) :
    (normalize D nDummyUsers rest.length pdf.length (pdf ++ rest, cdf, ccdf)).1 = pdf ++ rest.map fun p => D.div p nDummyUsers := by
  induction rest generalizing pdf cdf ccdf with
  | nil => rfl
  | cons p rest ih =>
    rw [List.length_cons, normalize]
    have hset : (pdf ++ p :: rest).set pdf.length (D.div ((pdf ++ p :: rest).getD pdf.length D.epsilon) nDummyUsers) =
        (pdf ++ [D.div p nDummyUsers]) ++ rest := by
      simp
    have hlen : pdf.length + 1 = (pdf ++ [D.div p nDummyUsers]).length := by simp
    rw [hset, hlen, ih]
    simp

/-- After `create_CCDF` the PDF is the one of the histogram. -/
theorem currPDF_createCCDF {b : ADTest α} (hpdf : b.currPDF = []) (histog : List UInt32) : (b.createCCDF D histog).currPDF = pdfOf D histog := by
  obtain ⟨hcounted, hsum⟩ := countUsers_eq D (histog.foldl (fun tot x => tot + x.toUInt16) 0) histog [] (D.ofNat 0) 0
  rw [List.nil_append] at hcounted
  have hlen : histog.length = (shares D histog).length := by simp [shares]
  rw [createCCDF, hpdf]
  dsimp only
  rw [List.length_nil] at hcounted hsum
  rw [hcounted, hsum, hlen]
  exact normalize_eq D _ [] (shares D histog) [] b.currCCDF

/-! ## The accepted histograms -/

/-- `Tot_num_users`, as it is counted. -/
def totNumUsers (histog : List UInt32) : UInt16 := histog.foldl (fun tot x => tot + x.toUInt16) 0

/-- The number of bins without users, of which `create_CCDF` makes a share of 0 before the approximation. -/
def nullBins (histog : List UInt32) : Nat :=
  histog.countP fun x => D.isZero (D.div (D.ofNat x.toNat) (D.ofNat (totNumUsers histog).toNat))

/-- The number of the other bins, in 16 bits. -/
def notNullBinsOf (histog : List UInt32) : UInt16 := UInt16.ofNat histog.length - UInt16.ofNat (nullBins D histog)

/-- The significance checks, which are the same in both phases. -/
def Significant (minActiveUsers : UInt32) (m : HistoMsg) : Prop :=
  minActiveUsers.toUInt64 < m.nrUniqueUsers ∧ 5 < notNullBinsOf D m.histogram

instance (minActiveUsers : UInt32) (m : HistoMsg) : Decidable (Significant D minActiveUsers m) := inferInstanceAs (Decidable (_ ∧ _))

/-- The element of the window for a message. -/
def elementOf (m : HistoMsg) (lPhase : Bool) : WindowElement α where
  timestamp := m.timestamp
  nrUniqueUsers := m.nrUniqueUsers.toUInt16
  pdfSize := UInt16.ofNat (pdfOf D m.histogram).length
  pdf := pdfOf D m.histogram
  lPhase := lPhase

/-- The accepted histograms of feature `f` after one message more. Of the block `b` only the settings are read. A histogram is accepted when it
comes after the start, is significant and, as soon as a window of histograms has been learned, is judged not anomalous. -/
def acceptNext (b : ADTest α) (f : String) (acc : List (WindowElement α)) (p : HistoMsg × Verdict) : List (WindowElement α) :=
  if p.1.featureID = f ∧ b.learningStartTime ≤ p.1.timestamp ∧ Significant D b.minActiveUsers p.1 ∧
      (acc.length < b.nHistogramsInWindow.toNat ∨ p.2 = .notAnomalous) then
    acc ++ [elementOf D p.1 (decide (acc.length < b.nHistogramsInWindow.toNat))]
  else acc

/-- The message at which the process ends. -/
def Stops (b : ADTest α) (m : HistoMsg) : Prop := b.learningStartTime ≤ m.timestamp ∧ b.stopTime ≤ m.timestamp

instance (b : ADTest α) (m : HistoMsg) : Decidable (b.Stops m) := inferInstanceAs (Decidable (_ ∧ _))

/-- The messages that the process gets to. -/
def handled (b : ADTest α) : List (HistoMsg × Verdict) → List (HistoMsg × Verdict)
  | [] => []
  | p :: ms => if b.Stops p.1 then [p] else p :: handled b ms

/-- The accepted histograms of a feature, in the order in which they have come. -/
def accepted (b : ADTest α) (f : String) (ms : List (HistoMsg × Verdict)) : List (WindowElement α) :=
  (b.handled ms).foldl (acceptNext D b f) []

/-! ## One message -/

/-- The settings are the same. -/
structure SameSettings (b b' : ADTest α) : Prop where
  size : b'.nHistogramsInWindow = b.nHistogramsInWindow
  users : b'.minActiveUsers = b.minActiveUsers
  start : b'.learningStartTime = b.learningStartTime
  stop : b'.stopTime = b.stopTime

/-- Settings that are kept twice are kept. -/
theorem SameSettings.trans {b b' b'' : ADTest α} (h : SameSettings b b') (h' : SameSettings b' b'') : SameSettings b b'' :=
  ⟨h'.size.trans h.size, h'.users.trans h.users, h'.start.trans h.start, h'.stop.trans h.stop⟩

/-- The loop counts the bins of which the share is zero. -/
theorem countUsers_empty (tot : UInt16) (histog : List UInt32) (pdf : List α) (nDummyUsers : α) (nEmptyBins : UInt16) :
    (countUsers D tot histog pdf.length (pdf, nDummyUsers, nEmptyBins)).2.2 =
      nEmptyBins + UInt16.ofNat (histog.countP fun x => D.isZero (D.div (D.ofNat x.toNat) (D.ofNat tot.toNat))) := by
  induction histog generalizing pdf nDummyUsers nEmptyBins with
  | nil => simp [countUsers]
  | cons x histog ih =>
    rw [countUsers]
    by_cases hzero : D.isZero (D.div (D.ofNat x.toNat) (D.ofNat tot.toNat)) = true
    · have hnext := ih (pdf ++ [D.epsilon]) (D.add nDummyUsers D.epsilon) (nEmptyBins + 1)
      rw [UInt16.add_assoc, UInt16.add_comm 1] at hnext
      simpa [hzero, List.set_append, List.countP_cons, UInt16.ofNat_add] using hnext
    · have hnext := ih (pdf ++ [D.div (D.ofNat x.toNat) (D.ofNat tot.toNat)])
        (D.add nDummyUsers (D.div (D.ofNat x.toNat) (D.ofNat tot.toNat))) nEmptyBins
      simpa [hzero, List.countP_cons] using hnext

/-- The number of bins that are not empty. -/
theorem notNullBins_createCCDF {b : ADTest α} (hpdf : b.currPDF = []) (histog : List UInt32) :
    (b.createCCDF D histog).notNullBins = notNullBinsOf D histog := by
  have hempty := countUsers_empty D (totNumUsers histog) histog [] (D.ofNat 0) 0
  rw [UInt16.zero_add] at hempty
  rw [createCCDF, hpdf]
  exact congrArg (UInt16.ofNat histog.length - ·) hempty

section Step

variable {b : ADTest α} {m : HistoMsg}

/-- A new window does not change what is in any. -/
theorem window_insertWindowEntry (b : ADTest α) (featureID f : String) : (b.insertWindowEntry featureID).window f = b.window f := by
  rw [window, insertWindowEntry, window, OrdMap.find?_insert]
  cases b.windowsHt.find? f with
  | some w => rfl
  | none =>
    rw [Option.none_or]
    split <;> rfl

/-- An entry is appended to the window of its feature, in the detection phase in place of the oldest one. -/
theorem window_updateWindowEntry (hpdf : b.currPDF = pdfOf D m.histogram) (lPhase : Bool) (f : String) :
    (b.updateWindowEntry m lPhase).window f =
      if f = m.featureID then (if lPhase then b.window f else (b.window f).tail) ++ [elementOf D m lPhase] else b.window f := by
  rw [window, updateWindowEntry]
  dsimp only
  rw [OrdMap.find?_assign, hpdf]
  by_cases hf : f = m.featureID
  · subst hf
    rw [if_pos rfl, if_pos rfl]
    rfl
  · rw [if_neg hf, if_neg hf]
    rfl

/-- The end of a phase: the process ends at the stop time, and a process that goes on has empty vectors. -/
theorem finish_spec (b : ADTest α) (m : HistoMsg) (lPhase : Bool) :
    (∀ f, (b.finish m lPhase).1.window f = b.window f) ∧ SameSettings b (b.finish m lPhase).1 ∧
      ((b.finish m lPhase).1.exited = true ↔ b.exited = true ∨ b.stopTime ≤ m.timestamp) ∧
        ((b.finish m lPhase).1.exited = false → (b.finish m lPhase).1.currPDF = []) := by
  by_cases hstop : m.timestamp ≥ b.stopTime
  · rw [finish, if_pos hstop]
    exact ⟨fun _ => rfl, ⟨rfl, rfl, rfl, rfl⟩, iff_of_true rfl (Or.inr hstop), fun h => by cases h⟩
  · rw [finish, if_neg hstop]
    exact ⟨fun _ => rfl, ⟨rfl, rfl, rfl, rfl⟩, ⟨Or.inl, fun h => h.resolve_right hstop⟩, fun _ => rfl⟩

/-- What the phases find: the distribution of the message and the number of its bins, and the rest as it was. -/
structure Prepared (b : ADTest α) (m : HistoMsg) (b' : ADTest α) : Prop where
  pdf : b'.currPDF = pdfOf D m.histogram
  bins : b'.notNullBins = notNullBinsOf D m.histogram
  window : ∀ f, b'.window f = b.window f
  settings : SameSettings b b'
  exited : b'.exited = b.exited

/-- The learning phase adds a significant histogram to the window. -/
theorem learn_spec {b' : ADTest α} (h : Prepared D b m b') :
    (∀ f, (b'.learn m).window f = b.window f ++
      if m.featureID = f ∧ Significant D b.minActiveUsers m then [elementOf D m true] else []) ∧
      SameSettings b (b'.learn m) ∧ (b'.learn m).exited = b.exited := by
  rw [← h.settings.users]
  by_cases husers : m.nrUniqueUsers ≤ b'.minActiveUsers.toUInt64
  · have hnot : ¬Significant D b'.minActiveUsers m := fun hs => absurd hs.1 (UInt64.not_lt.mpr husers)
    rw [learn, if_pos husers]
    refine ⟨fun f => ?_, ⟨h.settings.size, h.settings.users, h.settings.start, h.settings.stop⟩, h.exited⟩
    rw [if_neg fun hf => hnot hf.2, List.append_nil]
    exact h.window f
  by_cases hbins : b'.notNullBins ≤ 5
  · have hnot : ¬Significant D b'.minActiveUsers m := fun hs => absurd hs.2 (UInt16.not_lt.mpr (h.bins ▸ hbins))
    rw [learn, if_neg husers, if_pos hbins]
    refine ⟨fun f => ?_, ⟨h.settings.size, h.settings.users, h.settings.start, h.settings.stop⟩, h.exited⟩
    rw [if_neg fun hf => hnot hf.2, List.append_nil]
    exact h.window f
  have hsignificant : Significant D b'.minActiveUsers m := ⟨UInt64.not_le.mp husers, UInt16.not_le.mp (h.bins ▸ hbins)⟩
  rw [learn, if_neg husers, if_neg hbins]
  refine ⟨fun f => ?_, ⟨h.settings.size, h.settings.users, h.settings.start, h.settings.stop⟩, h.exited⟩
  have hwindow := window_updateWindowEntry D (b := { b' with anomalyCode := LEARNING_OK }) h.pdf true f
  rw [hwindow]
  by_cases hf : f = m.featureID
  · rw [if_pos hf, if_pos rfl, if_pos ⟨hf.symm, hsignificant⟩]
    exact congrArg (· ++ _) (h.window f)
  · rw [if_neg hf, if_neg fun h => hf h.1.symm, List.append_nil]
    exact h.window f

/-- The code is that of a histogram that is not anomalous exactly if it passes the checks and the test. -/
theorem detectCode_eq_iff {b' : ADTest α} (h : Prepared D b m b') (v : Verdict) :
    b'.detectCode m v = NOT_ANOMALOUS ↔ Significant D b.minActiveUsers m ∧ v = .notAnomalous := by
  unfold detectCode
  rw [← h.settings.users]
  by_cases husers : m.nrUniqueUsers ≤ b'.minActiveUsers.toUInt64
  · rw [if_pos husers]
    exact iff_of_false (by decide) fun hs => absurd hs.1.1 (UInt64.not_lt.mpr husers)
  rw [if_neg husers]
  by_cases hbins : b'.notNullBins ≤ 5
  · rw [if_pos hbins]
    exact iff_of_false (by decide) fun hs => absurd hs.1.2 (UInt16.not_lt.mpr (h.bins ▸ hbins))
  rw [if_neg hbins]
  have hsignificant : Significant D b'.minActiveUsers m := ⟨UInt64.not_le.mp husers, UInt16.not_le.mp (h.bins ▸ hbins)⟩
  cases v with
  | notEnoughEl => exact iff_of_false (by decide) fun hs => by cases hs.2
  | notAnomalous => exact iff_of_true rfl ⟨hsignificant, rfl⟩
  | anomalous => exact iff_of_false (by decide) fun hs => by cases hs.2

/-- The detection phase puts a significant histogram that is not anomalous in the place of the oldest one. -/
theorem detect_spec {b' : ADTest α} (h : Prepared D b m b') (v : Verdict) :
    (∀ f, (b'.detect m v).window f =
      if m.featureID = f ∧ Significant D b.minActiveUsers m ∧ v = .notAnomalous then (b.window f).tail ++ [elementOf D m false]
      else b.window f) ∧ SameSettings b (b'.detect m v) ∧ (b'.detect m v).exited = b.exited := by
  have hcode := detectCode_eq_iff D h v
  rw [detect]
  dsimp only
  by_cases hok : Significant D b.minActiveUsers m ∧ v = .notAnomalous
  · rw [if_pos (hcode.mpr hok)]
    refine ⟨fun f => ?_, ⟨h.settings.size, h.settings.users, h.settings.start, h.settings.stop⟩, h.exited⟩
    have hwindow := window_updateWindowEntry D (b := { b' with anomalyCode := b'.detectCode m v }) h.pdf false f
    rw [hwindow]
    by_cases hf : f = m.featureID
    · rw [if_pos hf, if_neg Bool.false_ne_true, if_pos ⟨hf.symm, hok⟩]
      exact congrArg (fun w => w.tail ++ _) (h.window f)
    · rw [if_neg hf, if_neg fun h => hf h.1.symm]
      exact h.window f
  · rw [if_neg (mt hcode.mp hok)]
    refine ⟨fun f => ?_, ⟨h.settings.size, h.settings.users, h.settings.start, h.settings.stop⟩, h.exited⟩
    rw [if_neg fun h => hok h.2]
    exact h.window f

/-- A message before the start is not looked at; any other is prepared for one of the phases. -/
theorem receiveMsg_cases (hpdf : b.currPDF = []) (m : HistoMsg) (v : Verdict) :
    (¬b.learningStartTime ≤ m.timestamp ∧
        b.receiveMsg D m v = ({ b with currentAggTime := m.timestamp }, { results := [], anomals := [] })) ∨
      ∃ b' : ADTest α, b.learningStartTime ≤ m.timestamp ∧ Prepared D b m b' ∧
        b.receiveMsg D m v = if (b.window m.featureID).length < b.nHistogramsInWindow.toNat then (b'.learn m).finish m true
          else (b'.detect m v).finish m false := by
  rw [receiveMsg]
  dsimp only
  by_cases hearly : m.timestamp < b.learningStartTime
  · exact Or.inl ⟨UInt64.not_le.mpr hearly, if_pos hearly⟩
  refine Or.inr ?_
  rw [if_neg hearly]
  have hpdf' := currPDF_createCCDF D (b := { b with currentAggTime := m.timestamp }) hpdf m.histogram
  have hbins := notNullBins_createCCDF D (b := { b with currentAggTime := m.timestamp }) hpdf m.histogram
  have hprepared : Prepared D b m (ADTest.createCCDF D { b with currentAggTime := m.timestamp } m.histogram) :=
    ⟨hpdf', hbins, fun _ => rfl, ⟨rfl, rfl, rfl, rfl⟩, rfl⟩
  generalize ADTest.createCCDF D { b with currentAggTime := m.timestamp } m.histogram = b' at hprepared
  by_cases hknown : (b'.windowsHt.find? m.featureID).isSome
  · refine ⟨b', UInt64.not_lt.mp hearly, hprepared, ?_⟩
    rw [if_pos hknown, hprepared.window, hprepared.settings.size]
  · have hinserted : Prepared D b m (b'.insertWindowEntry m.featureID) :=
      ⟨hprepared.pdf, hprepared.bins, fun f => (window_insertWindowEntry b' m.featureID f).trans (hprepared.window f),
        hprepared.settings.trans ⟨rfl, rfl, rfl, rfl⟩, hprepared.exited⟩
    refine ⟨_, UInt64.not_lt.mp hearly, hinserted, ?_⟩
    rw [if_neg hknown, hinserted.window, hinserted.settings.size]

end Step

/-! ## Runs -/

/-- The windows are the last accepted histograms, and the vectors are empty. -/
structure Windows (b₀ b : ADTest α) (acc : String → List (WindowElement α)) : Prop where
  settings : SameSettings b₀ b
  windows : ∀ f, b.window f = (acc f).rtake b₀.nHistogramsInWindow.toNat
  vectors : b.exited = false → b.currPDF = []

variable {b₀ b : ADTest α} {acc : String → List (WindowElement α)}

/-- The window is not full exactly if a window of histograms has not been accepted yet. -/
theorem Windows.learning_iff (h : Windows b₀ b acc) (f : String) :
    (b.window f).length < b₀.nHistogramsInWindow.toNat ↔ (acc f).length < b₀.nHistogramsInWindow.toNat := by
  rw [h.windows f, LastValues.length_rtake]
  omega

/-- One message. -/
theorem windows_receiveMsg (hn : 1 ≤ b₀.nHistogramsInWindow.toNat) (h : Windows b₀ b acc) (hrunning : b.exited = false) (m : HistoMsg)
    (v : Verdict) : Windows b₀ (b.receiveMsg D m v).1 (fun f => acceptNext D b₀ f (acc f) (m, v)) ∧
      ((b.receiveMsg D m v).1.exited = true ↔ b₀.Stops m) := by
  rcases receiveMsg_cases D (h.vectors hrunning) m v with ⟨hearly, heq⟩ | ⟨b', hstart, hprepared, heq⟩
  · rw [h.settings.start] at hearly
    rw [heq]
    refine ⟨⟨h.settings.trans ⟨rfl, rfl, rfl, rfl⟩, fun f => ?_, fun _ => h.vectors hrunning⟩, ?_⟩
    · rw [acceptNext, if_neg fun hf => hearly hf.2.1]
      exact h.windows f
    · exact iff_of_false (by rw [hrunning]; exact Bool.false_ne_true) fun hstops => hearly hstops.1
  simp only [h.settings.size, h.learning_iff] at heq
  rw [h.settings.start] at hstart
  have husers := h.settings.users
  by_cases hlearning : (acc m.featureID).length < b₀.nHistogramsInWindow.toNat
  · obtain ⟨hwindow, hsettings, hexited⟩ := learn_spec D hprepared
    obtain ⟨hwindow', hsettings', hexited', hvectors⟩ := finish_spec (b'.learn m) m true
    rw [heq, if_pos hlearning]
    refine ⟨⟨h.settings.trans (hsettings.trans hsettings'), fun f => ?_, hvectors⟩, ?_⟩
    · rw [hwindow', hwindow, husers, h.windows f, acceptNext]
      by_cases hf : m.featureID = f ∧ Significant D b₀.minActiveUsers m
      · obtain ⟨rfl, hsignificant⟩ := hf
        rw [if_pos ⟨rfl, hsignificant⟩, if_pos ⟨rfl, hstart, hsignificant, Or.inl hlearning⟩, LastValues.rtake_snoc_of_lt hlearning,
          decide_eq_true hlearning]
      · rw [if_neg hf, if_neg fun hc => hf ⟨hc.1, hc.2.2.1⟩, List.append_nil]
    · rw [hexited', hexited, hrunning, hsettings.stop, h.settings.stop]
      exact ⟨fun hstop => ⟨hstart, hstop.resolve_left Bool.false_ne_true⟩, fun hstops => Or.inr hstops.2⟩
  · obtain ⟨hwindow, hsettings, hexited⟩ := detect_spec D hprepared v
    obtain ⟨hwindow', hsettings', hexited', hvectors⟩ := finish_spec (b'.detect m v) m false
    rw [heq, if_neg hlearning]
    refine ⟨⟨h.settings.trans (hsettings.trans hsettings'), fun f => ?_, hvectors⟩, ?_⟩
    · rw [hwindow', hwindow, husers, h.windows f, acceptNext]
      by_cases hf : m.featureID = f ∧ Significant D b₀.minActiveUsers m ∧ v = .notAnomalous
      · obtain ⟨rfl, hsignificant, hv⟩ := hf
        rw [if_pos ⟨rfl, hsignificant, hv⟩, if_pos ⟨rfl, hstart, hsignificant, Or.inr hv⟩,
          LastValues.rtake_snoc_of_le (Nat.not_lt.mp hlearning) hn, decide_eq_false hlearning]
      · rw [if_neg hf, if_neg]
        rintro ⟨rfl, -, hsignificant, hlt | hv⟩
        · exact hlearning hlt
        · exact hf ⟨rfl, hsignificant, hv⟩
    · rw [hexited', hexited, hrunning, hsettings.stop, h.settings.stop]
      exact ⟨fun hstop => ⟨hstart, hstop.resolve_left Bool.false_ne_true⟩, fun hstops => Or.inr hstops.2⟩

/-- After the stop time nothing is done. -/
theorem receiveMsgs_of_exited {b : ADTest α} (h : b.exited = true) (ms : List (HistoMsg × Verdict)) : receiveMsgs D ms b = (b, []) := by
  cases ms with
  | nil => rfl
  | cons p ms => exact if_pos h

/-- The messages that the process gets to, one after the other. -/
theorem windows_receiveMsgs (hn : 1 ≤ b₀.nHistogramsInWindow.toNat) (h : Windows b₀ b acc) (hrunning : b.exited = false)
    (ms : List (HistoMsg × Verdict)) :
    Windows b₀ (receiveMsgs D ms b).1 fun f => (b₀.handled ms).foldl (acceptNext D b₀ f) (acc f) := by
  induction ms generalizing b acc with
  | nil => exact h
  | cons p ms ih =>
    obtain ⟨m, v⟩ := p
    obtain ⟨hnext, hexited⟩ := windows_receiveMsg D hn h hrunning m v
    rw [receiveMsgs, hrunning, if_neg Bool.false_ne_true, handled]
    by_cases hstops : b₀.Stops m
    · rw [if_pos hstops, receiveMsgs_of_exited D (hexited.mpr hstops)]
      exact hnext
    · rw [if_neg hstops]
      exact ih hnext (eq_false_of_ne_true (mt hexited.mp hstops))

/-- The accepted histograms only grow in number. -/
theorem length_foldl_acceptNext (b : ADTest α) (f : String) (ms : List (HistoMsg × Verdict)) (acc : List (WindowElement α)) :
    acc.length ≤ (ms.foldl (acceptNext D b f) acc).length := by
  induction ms generalizing acc with
  | nil => exact Nat.le_refl _
  | cons p ms ih =>
    refine Nat.le_trans ?_ (ih (acceptNext D b f acc p))
    rw [acceptNext]
    split
    · rw [List.length_append]
      exact Nat.le_add_right _ _
    · exact Nat.le_refl _

/-- The process gets to the messages of a shorter run too. -/
theorem handled_append (b : ADTest α) (ms ms' : List (HistoMsg × Verdict)) : ∃ rest, b.handled (ms ++ ms') = b.handled ms ++ rest := by
  induction ms with
  | nil => exact ⟨_, rfl⟩
  | cons p ms ih =>
    obtain ⟨rest, hrest⟩ := ih
    rw [List.cons_append, handled, handled]
    by_cases hstops : b.Stops p.1
    · rw [if_pos hstops, if_pos hstops]
      exact ⟨[], (List.append_nil _).symm⟩
    · rw [if_neg hstops, if_neg hstops, hrest]
      exact ⟨rest, rfl⟩

/-- What was accepted stays accepted. -/
theorem length_accepted_append (b : ADTest α) (f : String) (ms ms' : List (HistoMsg × Verdict)) :
    (accepted D b f ms).length ≤ (accepted D b f (ms ++ ms')).length := by
  obtain ⟨rest, hrest⟩ := handled_append b ms ms'
  rw [accepted, accepted, hrest, List.foldl_append]
  exact length_foldl_acceptNext D b f rest _

end ADTest

open ADTest

/-- The window of each feature is made of the last histograms of the feature that were accepted, in the order in which they came and each
with its own distribution; it never shrinks, never has more of them than it is to have, and is full for good once it is. -/
theorem adTest_window {α : Type} (D : Doubles α) (timescale : UInt16) {nHistogramsInWindow : UInt32} (hn : 1 ≤ nHistogramsInWindow.toNat)
    (minActiveUsers : UInt32) (learningStartTime stopTime : UInt64) (ms ms' : List (HistoMsg × Verdict)) (f : String) :
    let b₀ : ADTest α := ADTest.new timescale nHistogramsInWindow minActiveUsers learningStartTime stopTime
    let b := (receiveMsgs D ms b₀).1
    let b' := (receiveMsgs D (ms ++ ms') b₀).1
    b.window f = (accepted D b₀ f ms).rtake nHistogramsInWindow.toNat ∧
      (b.window f).length ≤ nHistogramsInWindow.toNat ∧ (b.window f).length ≤ (b'.window f).length ∧
        ((b.window f).length = nHistogramsInWindow.toNat → (b'.window f).length = nHistogramsInWindow.toNat) := by
  intro b₀ b b'
  have hb₀ : Windows b₀ b₀ fun _ => [] := ⟨⟨rfl, rfl, rfl, rfl⟩, fun _ => (List.rtake_nil _).symm, fun _ => rfl⟩
  have hwindow : b.window f = (accepted D b₀ f ms).rtake nHistogramsInWindow.toNat := (windows_receiveMsgs D hn hb₀ rfl ms).windows f
  have hwindow' : b'.window f = (accepted D b₀ f (ms ++ ms')).rtake nHistogramsInWindow.toNat :=
    (windows_receiveMsgs D hn hb₀ rfl (ms ++ ms')).windows f
  have hmono := length_accepted_append D b₀ f ms ms'
  have hlen := congrArg List.length hwindow
  have hlen' := congrArg List.length hwindow'
  rw [LastValues.length_rtake] at hlen hlen'
  refine ⟨hwindow, ?_, ?_, ?_⟩ <;> omega

/-- A window of one histogram, in exact numbers: the first one is learned, the second one is anomalous, and the third one takes the place
of the first. -/
theorem adTest_window_one :
    let D : Doubles ℚ := {
      ofNat := fun n => n
      add := fun x y => x + y
      sub := fun x y => x - y
      div := fun x y => x / y
      isZero := fun x => x = 0
      epsilon := 1 / 1000000000000 }
    let m : UInt64 → HistoMsg := fun t => { timestamp := t, featureID := "f", nrUniqueUsers := 7, histogram := [1, 2, 3, 4, 5, 6], totalValue := 21 }
    (receiveMsgs D [(m 60, .anomalous), (m 120, .anomalous), (m 180, .notAnomalous)] (ADTest.new 1 1 5 0 1000)).1.window "f" =
      [elementOf D (m 180) false] := by
  intro D m
  have hsignificant : ∀ t, Significant D 5 (m t) := by
    intro t
    have hbins : 5 < notNullBinsOf D [1, 2, 3, 4, 5, 6] := by decide +kernel
    exact ⟨(by decide : (5 : UInt64) < 7), hbins⟩
  refine (adTest_window D 1 (by decide) 5 0 1000 [(m 60, .anomalous), (m 120, .anomalous), (m 180, .notAnomalous)] [] "f").1.trans ?_
  have haccepted : accepted D (ADTest.new 1 1 5 0 1000) "f" [(m 60, .anomalous), (m 120, .anomalous), (m 180, .notAnomalous)] =
      [elementOf D (m 60) true, elementOf D (m 180) false] := by
    simp [accepted, handled, Stops, acceptNext, ADTest.new, hsignificant, m]
  rw [haccepted]
  rfl

end Blockmon.StatAD

/-!
## The distribution of a histogram in exact arithmetic

The users of a histogram are counted in a word of 16 bits. If they fit it, the values of the bins are their shares, and the distribution is one:
positive, with the sum one, and with as many bins that are not null as the histogram has.
-/

namespace Blockmon.StatAD

namespace ADTest

/-- Exact numbers, with the `EPSILON` of the block. -/
def exact (K : Type) [ExactDouble K] [DecidableEq K] : Doubles K where
  ofNat n := n
  add := (· + ·)
  sub := (· - ·)
  div := (· / ·)
  isZero x := x = 0
  epsilon := 1 / 1000000000000

/-- What `Tot_num_users` stands for. -/
def usersOf (histog : List UInt32) : Nat := (histog.map UInt32.toNat).sum

/-- The total is computed modulo `2^16`. -/
theorem toNat_totNumUsers (histog : List UInt32) : (totNumUsers histog).toNat = usersOf histog % 2 ^ 16 := by
  have hfrom : ∀ tot : UInt16, (histog.foldl (fun tot x => tot + x.toUInt16) tot).toNat = (tot.toNat + usersOf histog) % 2 ^ 16 := by
    induction histog with
    | nil =>
      intro tot
      have := tot.toNat_lt
      simp [usersOf]
    | cons x histog ih =>
      intro tot
      rw [List.foldl_cons, ih, UInt16.toNat_add, UInt32.toNat_toUInt16, usersOf, usersOf, List.map_cons, List.sum_cons]
      omega
  rw [totNumUsers, hfrom]
  simp

/-! ## A message finds empty vectors -/

/-- Between two messages the PDF is empty, while the block runs. -/
theorem currPDF_receiveMsgs {α : Type} (D : Doubles α) (ms : List (HistoMsg × Verdict)) {b : ADTest α} (hb : b.exited = false → b.currPDF = [])
    (hrunning : (receiveMsgs D ms b).1.exited = false) : (receiveMsgs D ms b).1.currPDF = [] := by
  induction ms generalizing b with
  | nil => exact hb hrunning
  | cons m ms ih =>
    obtain ⟨m, v⟩ := m
    rw [receiveMsgs] at hrunning ⊢
    by_cases hexited : b.exited = true
    · rw [if_pos hexited] at hrunning
      rw [hexited] at hrunning
      cases hrunning
    · rw [if_neg hexited] at hrunning ⊢
      refine ih (fun hnext => ?_) hrunning
      rcases receiveMsg_cases D (hb (Bool.not_eq_true _ ▸ hexited)) m v with ⟨-, hearly⟩ | ⟨b', -, -, hfinish⟩
      · rw [hearly]
        exact hb (Bool.not_eq_true _ ▸ hexited)
      · rw [hfinish] at hnext ⊢
        split at hnext
        · rename_i hlearning
          rw [if_pos hlearning]
          exact (finish_spec _ m true).2.2.2 hnext
        · rename_i hlearning
          rw [if_neg hlearning]
          exact (finish_spec _ m false).2.2.2 hnext

/-! ## In exact arithmetic -/

/-- The values of the bins before the second normalization. -/
def firstPDF {K : Type} [ExactDouble K] [DecidableEq K] (b : ADTest K) (histog : List UInt32) : List K :=
  (countUsers (exact K) (totNumUsers histog) histog 0 (b.currPDF, (exact K).ofNat 0, 0)).1

/-- The histogram is divided by its own sum, and what comes out is a distribution with its bins. -/
structure Normalizes {K : Type} [ExactDouble K] [LinearOrder K] (b : ADTest K) (histog : List UInt32) : Prop where
  total : (totNumUsers histog).toNat = usersOf histog
  values : ∀ (i : Nat) (x : UInt32), histog[i]? = some x → x ≠ 0 → (firstPDF b histog)[i]? = some ((x.toNat : K) / usersOf histog)
  sum : (b.createCCDF (exact K) histog).currPDF.sum = 1
  positive : ∀ p ∈ (b.createCCDF (exact K) histog).currPDF, 0 < p
  bins : (b.createCCDF (exact K) histog).notNullBins.toNat = histog.countP fun x => x ≠ 0

/-- A user in any bin is a user. -/
theorem usersOf_pos {histog : List UInt32} {x : UInt32} (hx : x ∈ histog) (hne : x ≠ 0) : 0 < usersOf histog := by
  have hle : x.toNat ≤ usersOf histog := List.single_le_sum (fun _ _ => Nat.zero_le _) _ (List.mem_map_of_mem hx)
  have hpos : x.toNat ≠ 0 := fun h => hne (UInt32.toNat_inj.mp h)
  omega

/-- Every bin that is not null has a user. -/
theorem countP_le_usersOf (histog : List UInt32) : (histog.countP fun x => x ≠ 0) ≤ usersOf histog := by
  induction histog with
  | nil => exact Nat.le_refl 0
  | cons x histog ih =>
    rw [List.countP_cons, usersOf, List.map_cons, List.sum_cons]
    rw [usersOf] at ih
    by_cases hx : x = 0
    · rw [if_neg (by simp [hx])]
      exact le_add_left ih
    · have hpos : x.toNat ≠ 0 := fun h => hx (UInt32.toNat_inj.mp h)
      rw [if_pos (by simp [hx])]
      omega

section Sums

variable {K : Type} [ExactDouble K] [DecidableEq K]

/-- The exact sum of a list, from a start. -/
theorem foldl_exact_add (ps : List K) (p : K) : ps.foldl (exact K).add p = p + ps.sum := by
  induction ps generalizing p with
  | nil => simp
  | cons q ps ih =>
    rw [List.foldl_cons, ih, List.sum_cons, ← add_assoc]
    rfl

/-- With exact numbers each entry of the PDF is a share over the sum of the shares. -/
theorem pdfOf_exact (histog : List UInt32) : pdfOf (exact K) histog =
    (shares (exact K) histog).map fun p => p / (shares (exact K) histog).sum := by
  have hsum : (shares (exact K) histog).foldl (exact K).add ((exact K).ofNat 0) = (shares (exact K) histog).sum := by
    rw [foldl_exact_add]
    simp [exact]
  rw [pdfOf, hsum]
  rfl

end Sums

section Exact

variable {K : Type} [ExactDouble K] [LinearOrder K] [IsStrictOrderedRing K] {tot : UInt16}

/-- A share is zero for an empty bin only. -/
theorem isZero_div_iff (htot : tot.toNat ≠ 0) (x : UInt32) :
    (exact K).isZero ((exact K).div ((exact K).ofNat x.toNat) ((exact K).ofNat tot.toNat)) = true ↔ x = 0 := by
  have hcast : (tot.toNat : K) ≠ 0 := Nat.cast_ne_zero.mpr htot
  have hx : x.toNat = 0 ↔ x = 0 := ⟨fun h => UInt32.toNat_inj.mp h, fun h => by rw [h]; rfl⟩
  simp [exact, hcast, hx]

/-- The share of a bin: one in 10^12 when it is empty. -/
theorem share_exact (htot : tot.toNat ≠ 0) (x : UInt32) :
    share (exact K) tot x = if x = 0 then 1 / 1000000000000 else (x.toNat : K) / tot.toNat := by
  by_cases hx : x = 0
  · rw [share, if_pos ((isZero_div_iff htot x).mpr hx), if_pos hx]
    rfl
  · rw [share, if_neg fun h => hx ((isZero_div_iff htot x).mp h), if_neg hx]
    rfl

/-- Every share is positive. -/
theorem share_pos (htot : tot.toNat ≠ 0) (x : UInt32) : 0 < share (exact K) tot x := by
  rw [share_exact htot]
  split
  · positivity
  · rename_i hx
    have hpos : 0 < x.toNat := Nat.pos_of_ne_zero fun h => hx (UInt32.toNat_inj.mp h)
    have hpos' : 0 < tot.toNat := Nat.pos_of_ne_zero htot
    positivity

/-- What the second normalization makes of positive values. -/
theorem sum_div_sum {ps : List K} (hne : ps ≠ []) (hpos : ∀ p ∈ ps, 0 < p) : (ps.map fun p => p / ps.sum).sum = 1 := by
  have hsum : 0 < ps.sum := List.sum_pos ps hpos hne
  have hdiv : (ps.map fun p => p / ps.sum).sum = ps.sum / ps.sum := by
    simpa [div_eq_mul_inv] using List.sum_map_mul_right ps (fun p => p) ps.sum⁻¹
  rw [hdiv, div_self hsum.ne']

end Exact

end ADTest

open ADTest

/-- For every block that runs and every histogram with a user: the PDF sums up to one and the CCDF ends there just when the users are less than
`2^16`. -/
theorem createCCDF_normalizes {K : Type} [ExactDouble K] [LinearOrder K] [IsStrictOrderedRing K] (timescale : UInt16) (nHistogramsInWindow : UInt32)
    (minActiveUsers : UInt32) (learningStartTime stopTime : UInt64) (ms : List (HistoMsg × Verdict)) (histog : List UInt32)
    (hsome : ∃ x ∈ histog, x ≠ 0) :
    let b := (receiveMsgs (exact K) ms (ADTest.new timescale nHistogramsInWindow minActiveUsers learningStartTime stopTime)).1
    b.exited = false → (Normalizes b histog ↔ usersOf histog < 2 ^ 16) := by
  intro b hrunning
  have hpdf : b.currPDF = [] := currPDF_receiveMsgs (exact K) ms (fun _ => rfl) hrunning
  refine ⟨fun h => ?_, fun hfits => ?_⟩
  · rw [← h.total]
    exact (totNumUsers histog).toNat_lt
  obtain ⟨x, hx, hne⟩ := hsome
  have htotal : (totNumUsers histog).toNat = usersOf histog := by rw [toNat_totNumUsers, Nat.mod_eq_of_lt hfits]
  have htot : (totNumUsers histog).toNat ≠ 0 := by
    rw [htotal]
    exact (usersOf_pos hx hne).ne'
  have hshares : shares (exact K) histog = histog.map (share (exact K) (totNumUsers histog)) := rfl
  have hpos : ∀ p ∈ shares (exact K) histog, 0 < p := by
    intro p hp
    rw [hshares] at hp
    obtain ⟨y, -, rfl⟩ := List.mem_map.mp hp
    exact share_pos htot y
  have hshares_ne : shares (exact K) histog ≠ [] := by
    rw [hshares]
    exact fun h => List.ne_nil_of_mem hx (List.map_eq_nil_iff.mp h)
  have hcreated : (b.createCCDF (exact K) histog).currPDF = pdfOf (exact K) histog := currPDF_createCCDF (exact K) hpdf histog
  refine ⟨htotal, fun i y hy hy0 => ?_, ?_, fun p hp => ?_, ?_⟩
  · have hcounted := (countUsers_eq (exact K) (totNumUsers histog) histog [] ((exact K).ofNat 0) 0).1
    rw [firstPDF, hpdf]
    rw [List.length_nil] at hcounted
    rw [hcounted, List.nil_append, List.getElem?_map, hy, Option.map_some, share_exact htot, if_neg hy0, htotal]
  · rw [hcreated, pdfOf_exact]
    exact sum_div_sum hshares_ne hpos
  · rw [hcreated, pdfOf_exact] at hp
    obtain ⟨q, hq, rfl⟩ := List.mem_map.mp hp
    exact div_pos (hpos q hq) (List.sum_pos _ hpos hshares_ne)
  · -- the bins that are null are counted in a word of 16 bits, and so is the difference
    have hempty := countUsers_empty (exact K) (totNumUsers histog) histog [] ((exact K).ofNat 0) 0
    have hnull : (histog.countP fun y =>
        (exact K).isZero ((exact K).div ((exact K).ofNat y.toNat) ((exact K).ofNat (totNumUsers histog).toNat))) =
        histog.countP fun y => y = 0 := by
      refine List.countP_congr fun y _ => ?_
      rw [isZero_div_iff htot, decide_eq_true_iff]
    have hlen : histog.length = (histog.countP fun y => y = 0) + histog.countP fun y => y ≠ 0 := by
      simpa using List.length_eq_countP_add_countP (fun y : UInt32 => decide (y = 0)) (l := histog)
    have hlt : (histog.countP fun y => y ≠ 0) < 2 ^ 16 := (countP_le_usersOf histog).trans_lt hfits
    rw [createCCDF, hpdf]
    dsimp only
    rw [List.length_nil] at hempty
    change (UInt16.ofNat histog.length - (countUsers (exact K) (totNumUsers histog) histog 0 ([], (exact K).ofNat 0, 0)).2.2).toNat = _
    rw [hempty, hnull, UInt16.zero_add, hlen, UInt16.ofNat_add, UInt16.add_comm, UInt16.add_sub_cancel, UInt16.toNat_ofNat', Nat.mod_eq_of_lt hlt]

/-- Three users in one bin and one in the next, before any message. -/
theorem createCCDF_normalizes_small :
    (Normalizes (receiveMsgs (exact ℚ) [] (ADTest.new 1 1 5 0 1000)).1 [3, 1, 0] ↔ usersOf [3, 1, 0] < 2 ^ 16) :=
  createCCDF_normalizes (K := ℚ) 1 1 5 0 1000 [] [3, 1, 0] ⟨3, by decide, by decide⟩ rfl

/-- Seventy thousand users in two bins: the first alone comes to more than one. -/
theorem createCCDF_wraps :
    let b : ADTest ℚ := ADTest.new 1 1 5 0 1000
    usersOf [40000, 30000] = 70000 ∧ totNumUsers [40000, 30000] = 4464 ∧ (firstPDF b [40000, 30000])[0]? = some (40000 / 4464) ∧
      ¬Normalizes b [40000, 30000] := by
  intro b
  refine ⟨rfl, rfl, ?_, fun h => ?_⟩
  · decide +kernel
  · have := h.total
    cases this

end Blockmon.StatAD
