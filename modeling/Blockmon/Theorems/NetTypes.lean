import Blockmon.Lib.Rounding
import Blockmon.NetTypes
import Blockmon.Theorems.Packet

/-!
# Times and NTP times

The constant of the conversions is twice the number of fractions of a second. They are right for whole seconds; in the first half of a second
they are consistent with each other, and the second half does not fit.
-/

namespace Blockmon.NetTypes

open FixedPoint

/-- The source's `k2_32` is twice what its name says. -/
@[simp] theorem toNat_k10_3 : k10_3.toNat = 1000 := rfl
@[simp] theorem toNat_k10_6 : k10_6.toNat = 1000000 := rfl
@[simp] theorem toNat_k10_9 : k10_9.toNat = 1000000000 := rfl
@[simp] theorem toNat_k2_32 : k2_32.toNat = 2 ^ 33 := rfl

/-- The conversion of a `double` to 32 bits. -/
theorem toUInt32_floor {x : ℚ} {n : Nat} (h : ⌊x⌋ = n) : toUInt32 x = if n < 2 ^ 32 then .ok (UInt32.ofNat n) else .error .overflow := by
  have hpos : 0 ≤ x := Int.floor_nonneg.mp (h ▸ Int.natCast_nonneg n)
  have hbounds : (0 ≤ (n : Int) ∧ (n : Int) < 2 ^ 32) ↔ n < 2 ^ 32 := by omega
  simp only [toUInt32, if_pos hpos, h, hbounds, Int.toNat_natCast]

/-- The conversion of parts out of `b` to parts out of `a`. -/
theorem toUInt32_scale (a b : UInt64) (m : Nat) (x : ℚ) (hx : x = (m : ℚ) * a.toNat / b.toNat) :
    toUInt32 x = if scale a.toNat b.toNat m < 2 ^ 32 then .ok (UInt32.ofNat (scale a.toNat b.toNat m)) else .error .overflow :=
  toUInt32_floor (hx ▸ floor_scale _ _ _)

/-! ## From microseconds -/

section Microseconds

variable (us : UInt64)

/-- The part of a second. -/
def rest : Nat := us.toNat % 1000000

/-- The microseconds within a second. -/
theorem rest_lt : rest us < 1000000 := Nat.mod_lt _ (by decide)

/-- They are the remainder that the source computes. -/
theorem toNat_mod : (us % k10_6).toNat = rest us := UInt64.toNat_mod us k10_6

/-- The whole seconds are the quotient. -/
theorem toNat_div : (us / k10_6).toNat = us.toNat / 1000000 := UInt64.toNat_div us k10_6

/-- The nanoseconds do not wrap. -/
theorem toNat_nsec : ((us % k10_6) * k10_3).toNat = rest us * 1000 := by
  have hlt := rest_lt us
  rw [UInt64.toNat_mul, toNat_mod, toNat_k10_3]
  omega

/-- The fraction is computed with twice the scale, so from half a second on it does not fit into 32 bits. -/
theorem usToNtp_eq :
    usToNtp us = if rest us < 500000 then .ok ⟨(us / k10_6).toUInt32, UInt32.ofNat (scale (2 ^ 33) 1000000 (rest us))⟩
      else .error .overflow := by
  have hfits : scale (2 ^ 33) 1000000 (rest us) < 2 ^ 32 ↔ rest us < 500000 := by
    rw [scale]
    omega
  rw [usToNtp, toUInt32_scale k2_32 k10_6 (rest us), toNat_k2_32, toNat_k10_6, if_congr hfits rfl rfl]
  · split <;> rfl
  · rw [toDouble, toDouble, toDouble, toNat_mod, div_mul_eq_mul_div]

/-- A `timespec` keeps the microseconds. -/
theorem timespecToUs_usToTimespec : timespecToUs (usToTimespec us) = us := by
  have hlt := us.toNat_lt
  refine UInt64.toNat_inj.mp ?_
  rw [timespecToUs, usToTimespec, UInt64.toUInt64_toInt64, UInt64.toUInt64_toInt64, UInt64.toNat_add, UInt64.toNat_mul, UInt64.toNat_div (_ * _),
    toNat_nsec, toNat_div, rest, toNat_k10_6, toNat_k10_3]
  omega

/-- The nanoseconds of a `timespec`. -/
theorem toInt_tv_nsec : (usToTimespec us).tv_nsec.toInt = (rest us * 1000 : ℕ) := by
  have hlt := rest_lt us
  have hnsec := toNat_nsec us
  have htv : (usToTimespec us).tv_nsec = ((us % k10_6) * k10_3).toInt64 := rfl
  rw [htv, ← hnsec]
  refine BitVec.toInt_eq_toNat_of_lt ?_
  rw [UInt64.toBitVec_toInt64, UInt64.toNat_toBitVec, hnsec]
  omega

/-- By way of a `timespec`, the result is the same. -/
theorem timespecToNtp_usToTimespec : timespecToNtp (usToTimespec us) = usToNtp us := by
  have hvalue : ((usToTimespec us).tv_nsec.toInt : ℚ) / toDouble k10_9 * toDouble k2_32
      = toDouble (us % k10_6) / toDouble k10_6 * toDouble k2_32 := by
    rw [toInt_tv_nsec, toDouble, toDouble, toDouble, toDouble, toNat_mod, toNat_k10_9, toNat_k10_6]
    push_cast
    ring
  rw [timespecToNtp, usToNtp, hvalue, usToTimespec, UInt64.toUInt64_toInt64]

end Microseconds

/-! ## Back to microseconds -/

section Back

variable (nt : Ntptime)

/-- The microseconds of the fractions of a second. -/
def fracUs : Nat := scale 1000000 (2 ^ 33) nt.frac.toNat

/-- The way back halves the microseconds of a fraction. -/
theorem fracUs_lt : fracUs nt < 500000 := by
  have hfrac := nt.frac.toNat_lt
  rw [fracUs, scale]
  omega

/-- The way back from a fraction. -/
theorem ntpToUs_eq : ntpToUs nt = .ok (nt.sec.toUInt64 * k10_6 + (UInt32.ofNat (fracUs nt)).toUInt64) := by
  have hlt := fracUs_lt nt
  rw [ntpToUs, toUInt32_scale k10_6 k2_32 nt.frac.toNat, toNat_k10_6, toNat_k2_32, ← fracUs, if_pos (by omega)]
  · rfl
  · rfl

/-- The microseconds after the way back. -/
theorem toNat_ntpToUs {back : UInt64} (h : ntpToUs nt = .ok back) : back.toNat = nt.sec.toNat * 1000000 + fracUs nt := by
  have hlt := fracUs_lt nt
  have hsec := nt.sec.toNat_lt
  rw [ntpToUs_eq] at h
  obtain rfl := Except.ok.inj h
  rw [UInt64.toNat_add, UInt64.toNat_mul, UInt32.toNat_toUInt64, UInt32.toNat_toUInt64, toNat_k10_6, UInt32.toNat_ofNat']
  omega

/-- The `timespec` of an NTP time has the same microseconds. -/
theorem ntpToTimespec_eq : ∃ ts, ntpToTimespec nt = .ok ts ∧ ntpToUs nt = .ok (timespecToUs ts) := by
  have hfrac := nt.frac.toNat_lt
  have hlt : scale 1000000000 (2 ^ 33) nt.frac.toNat < 2 ^ 32 := by
    rw [scale]
    omega
  refine ⟨⟨nt.sec.toUInt64.toInt64, (UInt32.ofNat (scale 1000000000 (2 ^ 33) nt.frac.toNat)).toUInt64.toInt64⟩, ?_, ?_⟩
  · rw [ntpToTimespec, toUInt32_scale k10_9 k2_32 nt.frac.toNat, toNat_k10_9, toNat_k2_32, if_pos hlt]
    · rfl
    · rfl
  · have hus := fracUs_lt nt
    have hdiv : scale 1000000000 (2 ^ 33) nt.frac.toNat / 1000 = fracUs nt :=
      scale_mul_div (a := 1000000) (b := 2 ^ 33) (c := 1000) (by decide)
    rw [ntpToUs_eq, timespecToUs, UInt64.toUInt64_toInt64, UInt64.toUInt64_toInt64]
    refine congrArg (fun x => Except.ok (nt.sec.toUInt64 * k10_6 + x)) (UInt64.toNat_inj.mp ?_)
    rw [UInt64.toNat_div, UInt32.toNat_toUInt64, UInt32.toNat_toUInt64, UInt32.toNat_ofNat', UInt32.toNat_ofNat', toNat_k10_3,
      Nat.mod_eq_of_lt hlt, hdiv]
    omega

end Back

/-! ## The results -/

/-- What the conversions of a time are for. -/
structure Converts (us : UInt64) : Prop where
  timespec : timespecToUs (usToTimespec us) = us
  ntp : ∃ nt, usToNtp us = .ok nt ∧ timespecToNtp (usToTimespec us) = .ok nt ∧
    nt.sec.toNat = us.toNat / 1000000 ∧ nt.frac.toNat = us.toNat % 1000000 * 2 ^ 32 / 1000000 ∧
    (∃ back, ntpToUs nt = .ok back ∧ back.toNat ≤ us.toNat + 1 ∧ us.toNat ≤ back.toNat + 1) ∧
    ∃ ts, ntpToTimespec nt = .ok ts ∧ (timespecToUs ts).toNat ≤ us.toNat + 1 ∧ us.toNat ≤ (timespecToUs ts).toNat + 1

/-- The order of NTP times. -/
def Ntptime.Le (nt nt' : Ntptime) : Prop := nt.sec < nt'.sec ∨ (nt.sec = nt'.sec ∧ nt.frac ≤ nt'.frac)

/-- The conversions of two times are in their order. -/
def Ordered (us us' : UInt64) : Prop :=
  ∀ nt nt', usToNtp us = .ok nt → usToNtp us' = .ok nt' → nt.Le nt' ∧
    (∀ back back', ntpToUs nt = .ok back → ntpToUs nt' = .ok back' → back ≤ back') ∧
    ∀ ts ts', ntpToTimespec nt = .ok ts → ntpToTimespec nt' = .ok ts' → timespecToUs ts ≤ timespecToUs ts'

section Results

variable {us us' : UInt64}

/-- What a converted time consists of. -/
theorem usToNtp_inv {nt : Ntptime} (hsec : us.toNat / 1000000 < 2 ^ 32) (h : usToNtp us = .ok nt) :
    rest us < 500000 ∧ nt.sec.toNat = us.toNat / 1000000 ∧ nt.frac.toNat = scale (2 ^ 33) 1000000 (rest us) := by
  rw [usToNtp_eq] at h
  split at h
  · rename_i hhalf
    obtain rfl := Except.ok.inj h
    refine ⟨hhalf, ?_, ?_⟩
    · rw [UInt64.toNat_toUInt32, toNat_div]
      exact Nat.mod_eq_of_lt hsec
    · rw [UInt32.toNat_ofNat', scale]
      omega
  · cases h

/-- In the first half of a second, the way back loses one microsecond at most. -/
theorem ntpToUs_usToNtp {nt : Ntptime} {back : UInt64} (hsec : us.toNat / 1000000 < 2 ^ 32) (h : usToNtp us = .ok nt)
    (hback : ntpToUs nt = .ok back) : back.toNat ≤ us.toNat ∧ us.toNat ≤ back.toNat + 1 := by
  obtain ⟨-, hs, hf⟩ := usToNtp_inv hsec h
  have hle := scale_scale_le (a := 2 ^ 33) (b := 1000000) (m := rest us) (by decide)
  have hge := le_scale_scale (a := 2 ^ 33) (b := 1000000) (m := rest us) (by decide) (by decide)
  rw [toNat_ntpToUs nt hback, fracUs, hs, hf]
  rw [rest] at *
  omega

/-- The conversion keeps the order where it succeeds. -/
theorem ordered (hsec' : us'.toNat / 1000000 < 2 ^ 32) (hle : us ≤ us') : Ordered us us' := by
  have hnat := UInt64.le_iff_toNat_le.mp hle
  intro nt nt' h h'
  obtain ⟨-, hs, hf⟩ := usToNtp_inv (Nat.lt_of_le_of_lt (Nat.div_le_div_right hnat) hsec') h
  obtain ⟨-, hs', hf'⟩ := usToNtp_inv hsec' h'
  have hback : ∀ back back', ntpToUs nt = .ok back → ntpToUs nt' = .ok back' → back ≤ back' := by
    intro back back' hb hb'
    have hus := fracUs_lt nt
    rw [UInt64.le_iff_toNat_le, toNat_ntpToUs nt hb, toNat_ntpToUs nt' hb']
    rcases Nat.lt_or_ge nt.sec.toNat nt'.sec.toNat with hlt | hge
    · omega
    · have hrest : rest us ≤ rest us' := by
        rw [rest, rest]
        omega
      have hmono : fracUs nt ≤ fracUs nt' := by
        rw [fracUs, fracUs, hf, hf']
        exact scale_mono (scale_mono hrest)
      omega
  refine ⟨?_, hback, ?_⟩
  · rcases Nat.lt_or_ge nt.sec.toNat nt'.sec.toNat with hlt | hge
    · exact .inl (UInt32.lt_iff_toNat_lt.mpr hlt)
    · refine .inr ⟨UInt32.toNat_inj.mp (by omega), ?_⟩
      rw [UInt32.le_iff_toNat_le, hf, hf']
      refine scale_mono ?_
      rw [rest, rest]
      omega
  · intro ts ts' hts hts'
    obtain ⟨_, ht, hb⟩ := ntpToTimespec_eq nt
    obtain ⟨_, ht', hb'⟩ := ntpToTimespec_eq nt'
    rw [hts] at ht
    rw [hts'] at ht'
    obtain rfl := Except.ok.inj ht
    obtain rfl := Except.ok.inj ht'
    exact hback _ _ hb hb'

/-- A time survives both ways just when it is a whole number of seconds. -/
theorem converts_iff (hsec : us.toNat / 1000000 < 2 ^ 32) : Converts us ↔ rest us = 0 := by
  constructor
  · rintro ⟨-, nt, hnt, -, -, hfrac, -⟩
    obtain ⟨-, -, hf⟩ := usToNtp_inv hsec hnt
    by_contra hpos
    have hlt := scale_lt_scale_two (a := 2 ^ 32) (b := 1000000) (m := rest us) (by decide) (by decide) (Nat.pos_of_ne_zero hpos)
    rw [hf] at hfrac
    rw [rest, scale, scale] at hlt
    rw [rest, scale] at hfrac
    omega
  · intro hzero
    have hnt := usToNtp_eq us
    rw [if_pos (by omega)] at hnt
    obtain ⟨-, hs, hf⟩ := usToNtp_inv hsec hnt
    obtain ⟨ts, hts, hback⟩ := ntpToTimespec_eq ⟨(us / k10_6).toUInt32, UInt32.ofNat (scale (2 ^ 33) 1000000 (rest us))⟩
    obtain ⟨hle, hge⟩ := ntpToUs_usToNtp hsec hnt hback
    refine ⟨timespecToUs_usToTimespec us, _, hnt, (timespecToNtp_usToTimespec us).trans hnt, hs, ?_, ?_, ?_⟩
    · rw [hf, hzero, scale_zero]
      rw [rest] at hzero
      rw [hzero, Nat.zero_mul, Nat.zero_div]
    · exact ⟨_, hback, Nat.le_succ_of_le hle, hge⟩
    · exact ⟨ts, hts, Nat.le_succ_of_le hle, hge⟩

end Results

/-- Two times are converted, and in order, just when both are whole numbers of seconds. -/
theorem conversions_iff (us us' : UInt64) (hsec : us.toNat / 1000000 < 2 ^ 32) (hsec' : us'.toNat / 1000000 < 2 ^ 32) (hle : us ≤ us') :
    (Converts us ∧ Converts us' ∧ Ordered us us') ↔ us.toNat % 1000000 = 0 ∧ us'.toNat % 1000000 = 0 := by
  rw [and_iff_left (ordered hsec' hle), converts_iff hsec, converts_iff hsec', rest, rest]

/-- One second and two seconds. -/
theorem conversions_two_seconds : Converts 1000000 ∧ Converts 2000000 ∧ Ordered 1000000 2000000 :=
  (conversions_iff 1000000 2000000 (by decide) (by decide) (by decide)).mpr (by decide)

/-- The fraction of one microsecond is twice as large. -/
theorem not_converts_microsecond : ¬Converts 1 := by
  rintro ⟨-, nt, hnt, -, -, hfrac, -⟩
  obtain ⟨-, -, hf⟩ := usToNtp_inv (by decide) hnt
  rw [hf] at hfrac
  revert hfrac
  decide

end Blockmon.NetTypes

/-!
## Which texts of an address agree

Three functions print the octets of an address. The one of the packets prints them as signed characters, so it agrees with the others just for
octets below 128.
-/

namespace Blockmon.IPText

open Blockmon.Messages (Parse)
open Blockmon.Messages.Packet (ipSrc ipDst)

/-- What the functions of boost are documented to do. -/
structure Boost.Correct (B : Boost) : Prop where
  split_intercalate : ∀ parts, parts ≠ [] → (∀ part ∈ parts, '.' ∉ part) → B.split (['.'].intercalate parts) = parts
  lexicalCast_decimal : ∀ n : UInt32, B.lexicalCast (decimal n.toNat) = .ok n

/-- The octets of an address, the first one first. -/
def octets (x : UInt32) : List Nat := [x.toNat / 2 ^ 24, x.toNat / 2 ^ 16 % 256, x.toNat / 2 ^ 8 % 256, x.toNat % 256]

/-- Numbers with points between them. -/
def dotted (parts : List (List Char)) : List Char := ['.'].intercalate parts

/-! ## Numbers in decimal -/

/-- A number has digits only. -/
theorem not_mem_decimal {c : Char} (hc : c.isDigit = false) (n : Nat) : c ∉ decimal n := by
  intro hmem
  rw [Nat.isDigit_of_mem_toDigits (by decide) (by decide) hmem] at hc
  cases hc

/-- A byte has three digits at most. -/
theorem length_decimal_le {n : Nat} (h : n < 256) : (decimal n).length ≤ 3 :=
  (Nat.length_toDigits_le_iff (by decide) (by decide)).mpr (Nat.lt_trans h (by decide))

/-- The octets are bytes. -/
theorem octets_lt (x : UInt32) : ∀ o ∈ octets x, o < 256 := by
  have hx := x.toNat_lt
  intro o ho
  simp only [octets, List.mem_cons, List.not_mem_nil, or_false] at ho
  omega

/-- Four numbers with their points. -/
theorem dotted_four (a b c d : List Char) : dotted [a, b, c, d] = a ++ ['.'] ++ b ++ ['.'] ++ c ++ ['.'] ++ d := by
  simp [dotted, List.intercalate]

section Address

variable (x : UInt32)

/-! ## The texts -/

/-- A mask and a shift take one byte. -/
theorem toNat_mask {m k : UInt32} (hk : k.toNat < 32) (hm : m.toNat >>> k.toNat = 255) :
    ((x &&& m) >>> k).toNat = x.toNat / 2 ^ k.toNat % 256 := by
  rw [UInt32.toNat_shiftRight, UInt32.toNat_and, Nat.mod_eq_of_lt hk, Nat.shiftRight_and_distrib, hm, Nat.shiftRight_eq_div_pow]
  exact Nat.and_two_pow_sub_one_eq_mod _ 8

/-- The text of `ipv4_to_string`. -/
theorem ipv4ToString_eq : ipv4ToString x = dotted ((octets x).map decimal) := by
  have hx := x.toNat_lt
  have h3 : ((x &&& 0xFF000000) >>> 24).toNat = x.toNat / 2 ^ 24 :=
    (toNat_mask x (by decide) (by decide)).trans (Nat.mod_eq_of_lt (show x.toNat / 2 ^ 24 < 256 by omega))
  have h2 : ((x &&& 0x00FF0000) >>> 16).toNat = x.toNat / 2 ^ 16 % 256 := toNat_mask x (by decide) (by decide)
  have h1 : ((x &&& 0x0000FF00) >>> 8).toNat = x.toNat / 2 ^ 8 % 256 := toNat_mask x (by decide) (by decide)
  have h0 : (x &&& 0x000000FF).toNat = x.toNat % 256 := Nat.and_two_pow_sub_one_eq_mod _ 8
  simp only [ipv4ToString, octets, List.map_cons, List.map_nil, dotted_four, h3, h2, h1, h0]

/-- The text of `ip_to_string`. -/
theorem ipToString_eq : ipToString x = dotted ((octets x).map decimal) := by
  have hx := x.toNat_lt
  have h3 : (tmpChar x 3).toNat = x.toNat / 2 ^ 24 := by
    simp only [tmpChar, Bytes.encode, List.getD_cons_succ, List.getD_cons_zero, UInt8.toNat_ofNat']
    omega
  have h2 : (tmpChar x 2).toNat = x.toNat / 2 ^ 16 % 256 := by
    simp only [tmpChar, Bytes.encode, List.getD_cons_succ, List.getD_cons_zero, UInt8.toNat_ofNat']
    omega
  have h1 : (tmpChar x 1).toNat = x.toNat / 2 ^ 8 % 256 := by
    simp only [tmpChar, Bytes.encode, List.getD_cons_succ, List.getD_cons_zero, UInt8.toNat_ofNat']
    omega
  have h0 : (tmpChar x 0).toNat = x.toNat % 256 := by
    simp only [tmpChar, Bytes.encode, List.getD_cons_zero, UInt8.toNat_ofNat']
    omega
  simp only [ipToString, octets, List.map_cons, List.map_nil, dotted_four, h3, h2, h1, h0]

/-- How a packet prints an octet. -/
def printOctet (o : Nat) : List Char := if o < 128 then decimal o else '-' :: decimal (256 - o)

/-- A byte as a signed `char` prints its value, or that less 256. -/
theorem printInt_toChar (v : UInt32) : printInt (toChar v).toInt = printOctet (v.toNat % 256) := by
  have hchar : (toChar v).toInt = ((v.toNat % 256 : ℕ) : Int).bmod 256 := by
    have hint := BitVec.toInt_eq_toNat_bmod v.toUInt8.toBitVec
    rw [UInt8.toNat_toBitVec, UInt32.toNat_toUInt8] at hint
    exact hint
  have hlt := Nat.mod_lt v.toNat (show 0 < 256 by decide)
  rw [hchar, printInt, printOctet]
  by_cases ho : v.toNat % 256 < 128
  · have hpos : ((v.toNat % 256 : ℕ) : Int).bmod 256 = (v.toNat % 256 : ℕ) := by
      simp only [Int.bmod]
      omega
    rw [hpos, if_neg (by omega), if_pos ho, Int.natAbs_natCast]
  · have hneg : ((v.toNat % 256 : ℕ) : Int).bmod 256 = -(256 - v.toNat % 256 : ℕ) := by
      simp only [Int.bmod]
      omega
    rw [hneg, if_pos (by omega), if_neg ho, Int.natAbs_neg, Int.natAbs_natCast]

/-- `ip_str` writes the signed octets if the sixteen bytes have room for them. -/
theorem ipStr_eq : ipStr x = if (dotted ((octets x).map printOctet)).length + 1 ≤ 16 then .ok (dotted ((octets x).map printOctet))
    else .error .outOfBounds := by
  have hx := x.toNat_lt
  have h3 : (x >>> 24).toNat % 256 = x.toNat / 2 ^ 24 := by
    rw [UInt32.toNat_shiftRight, Nat.shiftRight_eq_div_pow]
    exact Nat.mod_eq_of_lt (show x.toNat / 2 ^ 24 < 256 by omega)
  have h2 : (x >>> 16).toNat % 256 = x.toNat / 2 ^ 16 % 256 := by
    rw [UInt32.toNat_shiftRight, Nat.shiftRight_eq_div_pow]
    rfl
  have h1 : (x >>> 8).toNat % 256 = x.toNat / 2 ^ 8 % 256 := by
    rw [UInt32.toNat_shiftRight, Nat.shiftRight_eq_div_pow]
    rfl
  simp only [ipStr, octets, List.map_cons, List.map_nil, dotted_four, printInt_toChar, h3, h2, h1]

/-! ## Agreement -/

/-- A negative number has a sign, and an address has none. -/
theorem mem_dotted {c : Char} (hc : c ≠ '.') {parts : List (List Char)} : c ∈ dotted parts ↔ ∃ part ∈ parts, c ∈ part := by
  induction parts with
  | nil => simp [dotted]
  | cons a parts ih =>
    cases parts with
    | nil => simp [dotted]
    | cons b parts =>
      rw [dotted] at ih ⊢
      rw [List.intercalate_cons_cons]
      simp [hc, ih]

/-- From 128 on an octet has a minus. -/
theorem minus_mem_printOctet {o : Nat} : '-' ∈ printOctet o ↔ 128 ≤ o := by
  rw [printOctet]
  split
  · rename_i ho
    exact iff_of_false (not_mem_decimal (by decide) o) (by omega)
  · rename_i ho
    exact iff_of_true List.mem_cons_self (by omega)

/-- `ip_str` writes the address just when every octet is below 128. -/
theorem ipStr_iff : ipStr x = .ok (ipv4ToString x) ↔ ∀ o ∈ octets x, o < 128 := by
  rw [ipStr_eq, ipv4ToString_eq]
  constructor
  · intro h o ho
    split at h
    · have htext := Except.ok.inj h
      by_contra hge
      have hminus : '-' ∈ dotted ((octets x).map printOctet) :=
        (mem_dotted (by decide)).mpr ⟨printOctet o, List.mem_map_of_mem ho, minus_mem_printOctet.mpr (by omega)⟩
      rw [htext, mem_dotted (by decide)] at hminus
      obtain ⟨part, hpart, hmem⟩ := hminus
      obtain ⟨o', -, rfl⟩ := List.mem_map.mp hpart
      exact not_mem_decimal (by decide) o' hmem
    · cases h
  · intro h
    have hsame : (octets x).map printOctet = (octets x).map decimal := List.map_congr_left fun o ho => if_pos (h o ho)
    have hlen : (dotted ((octets x).map decimal)).length + 1 ≤ 16 := by
      have hlt := octets_lt x
      simp only [octets, List.mem_cons, List.not_mem_nil, or_false, forall_eq_or_imp, forall_eq] at hlt
      obtain ⟨h3, h2, h1, h0⟩ := hlt
      have l3 := length_decimal_le h3
      have l2 := length_decimal_le h2
      have l1 := length_decimal_le h1
      have l0 := length_decimal_le h0
      simp only [octets, List.map_cons, List.map_nil, dotted_four, List.length_append, List.length_singleton]
      omega
    rw [hsame, if_pos hlen]

/-- Octets joined by shifts. -/
theorem or_octets {a b c d : Nat} (hb : b < 256) (hc : c < 256) (hd : d < 256) :
    a <<< 24 ||| b <<< 16 ||| c <<< 8 ||| d = a * 2 ^ 24 + b * 2 ^ 16 + c * 2 ^ 8 + d := by
  have h1 : a <<< 24 ||| b <<< 16 = (a * 2 ^ 8 + b) <<< 16 := by
    rw [← Nat.shiftLeft_add_eq_or_of_lt (by rw [Nat.shiftLeft_eq]; omega)]
    simp only [Nat.shiftLeft_eq]
    omega
  have h2 : (a * 2 ^ 8 + b) <<< 16 ||| c <<< 8 = ((a * 2 ^ 8 + b) * 2 ^ 8 + c) <<< 8 := by
    rw [← Nat.shiftLeft_add_eq_or_of_lt (by rw [Nat.shiftLeft_eq]; omega)]
    simp only [Nat.shiftLeft_eq]
    omega
  rw [h1, h2, ← Nat.shiftLeft_add_eq_or_of_lt hd, Nat.shiftLeft_eq]
  omega

/-- An octet at its place. -/
theorem toNat_shifted {o k : Nat} (ho : o < 256) (hk : k ≤ 24) : (UInt32.ofNat o <<< UInt32.ofNat k).toNat = o <<< k := by
  have hshift : o <<< k < 2 ^ 32 := by
    rw [Nat.shiftLeft_eq]
    calc
      o * 2 ^ k < 2 ^ 8 * 2 ^ k := Nat.mul_lt_mul_of_pos_right ho (Nat.two_pow_pos k)
      _ ≤ 2 ^ 8 * 2 ^ 24 := Nat.mul_le_mul_left _ (Nat.pow_le_pow_right (by decide) hk)
      _ = 2 ^ 32 := by decide
  rw [UInt32.toNat_shiftLeft, UInt32.toNat_ofNat', UInt32.toNat_ofNat', Nat.mod_eq_of_lt (show o < 2 ^ 32 by omega),
    Nat.mod_eq_of_lt (show k < 2 ^ 32 by omega), Nat.mod_eq_of_lt (show k < 32 by omega), Nat.mod_eq_of_lt hshift]

/-- The way from an address to its text and back. -/
theorem stringToIpv4_ipv4ToString {B : Boost} (hB : B.Correct) : stringToIpv4 B (ipv4ToString x) = .ok x := by
  have hx := x.toNat_lt
  have hsplit : B.split (ipv4ToString x) = (octets x).map decimal := by
    rw [ipv4ToString_eq]
    refine hB.split_intercalate _ (by simp [octets]) fun part hpart => ?_
    obtain ⟨o, -, rfl⟩ := List.mem_map.mp hpart
    exact not_mem_decimal (by decide) o
  have hcast : ∀ o, o < 256 → B.lexicalCast (decimal o) = .ok (UInt32.ofNat o) := by
    intro o ho
    have hnumber := hB.lexicalCast_decimal (UInt32.ofNat o)
    rwa [UInt32.toNat_ofNat', Nat.mod_eq_of_lt (show o < 2 ^ 32 by omega)] at hnumber
  obtain ⟨h3, h2, h1, h0⟩ : x.toNat / 2 ^ 24 < 256 ∧ x.toNat / 2 ^ 16 % 256 < 256 ∧ x.toNat / 2 ^ 8 % 256 < 256 ∧ x.toNat % 256 < 256 := by
    omega
  have hnumber : UInt32.ofNat (x.toNat / 2 ^ 24) <<< 24 ||| UInt32.ofNat (x.toNat / 2 ^ 16 % 256) <<< 16 |||
      UInt32.ofNat (x.toNat / 2 ^ 8 % 256) <<< 8 ||| UInt32.ofNat (x.toNat % 256) = x := by
    have s3 : (UInt32.ofNat (x.toNat / 2 ^ 24) <<< 24).toNat = _ := toNat_shifted h3 (Nat.le_refl 24)
    have s2 : (UInt32.ofNat (x.toNat / 2 ^ 16 % 256) <<< 16).toNat = _ := toNat_shifted h2 (by decide)
    have s1 : (UInt32.ofNat (x.toNat / 2 ^ 8 % 256) <<< 8).toNat = _ := toNat_shifted h1 (by decide)
    refine UInt32.toNat_inj.mp ?_
    rw [UInt32.toNat_or, UInt32.toNat_or, UInt32.toNat_or, s3, s2, s1, UInt32.toNat_ofNat',
      Nat.mod_eq_of_lt (show x.toNat % 256 < 2 ^ 32 by omega), or_octets h2 h1 h0]
    omega
  simp only [stringToIpv4, hsplit, octets, Boost.part, List.map_cons, List.map_nil, List.getElem?_cons_zero, List.getElem?_cons_succ]
  rw [hcast _ h3, hcast _ h2, hcast _ h1, hcast _ h0]
  exact congrArg Except.ok hnumber

end Address

/-! ## The results -/

/-- All that an address is printed as is the same, and is read as this address again. -/
structure Agrees (B : Boost) (x : UInt32) : Prop where
  back : stringToIpv4 B (ipv4ToString x) = .ok x
  ipSrcStr : ∀ s s', ipSrc.run s = .ok x s' → ipSrcStr.run s = .ok (ipv4ToString x) s'
  ipDstStr : ∀ s s', ipDst.run s = .ok x s' → ipDstStr.run s = .ok (ipv4ToString x) s'
  ticket : ipToString x = ipv4ToString x

section Printing

variable {x : UInt32} {s s' : Messages.Packet}

/-- The text of an address that the parser has read. -/
theorem run_str {addr : Parse UInt32} (h : addr.run s = .ok x s') :
    (do ofExcept (ipStr (← addr)) : Parse (List Char)).run s = .ok (ipv4ToString x) s' ↔ ipStr x = .ok (ipv4ToString x) := by
  rw [Exn.run_bind_of_ok h, Exn.run_ofExcept]
  rcases ipStr x with e | text
  · exact iff_of_false (fun h => by cases h) (fun h => by cases h)
  · simp

/-- A packet whose IP header has been parsed. -/
theorem run_ipSrc_parsed (x : UInt32) : ∃ s, ipSrc.run s = .ok x s :=
  ⟨{ Messages.Packet.zeroed with iphdrParsed := true, key := ⟨x, x, 0, 0, 0⟩ }, rfl⟩

end Printing

/-- The texts of an address agree just when every octet is below 128. -/
theorem texts_agree_iff (B : Boost) (x : UInt32) (hB : B.Correct) : Agrees B x ↔ ∀ o ∈ octets x, o < 128 := by
  rw [← ipStr_iff]
  constructor
  · intro h
    obtain ⟨s, hs⟩ := run_ipSrc_parsed x
    exact (run_str hs).mp (h.ipSrcStr s s hs)
  · intro h
    exact ⟨stringToIpv4_ipv4ToString x hB, fun s s' hs => (run_str hs).mpr h, fun s s' hs => (run_str hs).mpr h,
      (ipToString_eq x).trans (ipv4ToString_eq x).symm⟩

/-- The functions of boost where the texts are numbers and points. -/
def plain : Boost where
  split := List.splitOn '.'
  lexicalCast str :=
    if str ≠ [] ∧ str.all Char.isDigit ∧ Nat.ofDigitChars 10 str 0 < 2 ^ 32 then .ok (UInt32.ofNat (Nat.ofDigitChars 10 str 0))
    else .error .badLexicalCast

/-- Splitting and reading by hand is correct. -/
theorem correct_plain : plain.Correct where
  split_intercalate parts hne hparts := List.splitOn_intercalate '.' hparts hne
  lexicalCast_decimal n := by
    have hdigits : (decimal n.toNat).all Char.isDigit = true :=
      List.all_eq_true.mpr fun c hc => Nat.isDigit_of_mem_toDigits (by decide) (by decide) hc
    have hnumber : Nat.ofDigitChars 10 (decimal n.toNat) 0 = n.toNat := Nat.ofDigitChars_toDigits (by decide) (by decide)
    have hok : decimal n.toNat ≠ [] ∧ (decimal n.toNat).all Char.isDigit = true ∧ Nat.ofDigitChars 10 (decimal n.toNat) 0 < 2 ^ 32 :=
      ⟨Nat.toDigits_ne_nil, hdigits, by rw [hnumber]; exact n.toNat_lt⟩
    exact (if_pos hok).trans (by rw [hnumber, UInt32.ofNat_toNat])

/-- The address `10.0.0.1`. -/
theorem texts_agree_ten : Agrees plain 0x0A000001 := (texts_agree_iff plain 0x0A000001 correct_plain).mpr (by decide)

/-- 192.168.0.1 is printed as -64.-88.0.1. -/
theorem not_agrees_private : ¬Agrees plain 0xC0A80001 := by
  intro h
  obtain ⟨s, hs⟩ := run_ipSrc_parsed 0xC0A80001
  have hsmall := (ipStr_iff 0xC0A80001).mp ((run_str hs).mp (h.ipSrcStr s s hs))
  exact absurd (hsmall 192 (by decide)) (by decide)

end Blockmon.IPText
