import Mathlib.Algebra.Group.Defs
import Mathlib.Algebra.Order.Ring.Int
import Mathlib.Data.List.Infix
import Mathlib.Data.Vector.Basic

/-!
# Strings with a zero at their end

The functions of C on arrays of a fixed length, none when they read or write outside of one. A string that is read starts anywhere in an array, so it
is given by what the array has from there on.
-/

namespace CStrings

variable {α : Type*}

/-- What an array has from a position on, which may be behind its last element. -/
def suffix (mem : List α) (p : Int) : Option (List α) := if 0 ≤ p ∧ p ≤ mem.length then some (mem.drop p.toNat) else none

/-- A pointer leads into the memory or just behind it. -/
theorem suffix_eq_some_iff {mem : List α} {p : Int} {s : List α} :
    suffix mem p = some s ↔ ∃ k : Nat, p = k ∧ k ≤ mem.length ∧ mem.drop k = s := by
  unfold suffix
  constructor
  · intro h
    split at h
    · rename_i hp
      exact ⟨p.toNat, by omega, by omega, Option.some.inj h⟩
    · cases h
  · rintro ⟨k, rfl, hk, rfl⟩
    rw [if_pos (by omega), Int.toNat_natCast]

/-- A position inside is a pointer. -/
theorem suffix_natCast {mem : List α} {k : Nat} (hk : k ≤ mem.length) : suffix mem k = some (mem.drop k) :=
  suffix_eq_some_iff.mpr ⟨k, rfl, hk, rfl⟩

/-- A negative position is none. -/
theorem suffix_of_neg {mem : List α} {p : Int} (hp : p < 0) : suffix mem p = none := if_neg (by omega)

variable [Zero α] [DecidableEq α]

/-- The characters before the first zero. -/
def str : List α → Option (List α)
  | [] => none
  | c :: mem => if c = 0 then some [] else (str mem).map (c :: ·)

/-- The characters before the first zero, but not more than `n`. -/
def strn : Nat → List α → Option (List α)
  | 0, _ => some []
  | _ + 1, [] => none
  | n + 1, c :: mem => if c = 0 then some [] else (strn n mem).map (c :: ·)

/-- The copy of a string, filled with zeros up to `n`. -/
def strncpy {m : Nat} (dst : List.Vector α m) (src : List α) (n : Nat) : Option (List.Vector α m) :=
  match strn n src with
  | none => none
  | some s => if h : n ≤ m then some ⟨(s ++ List.replicate n 0).take n ++ dst.toList.drop n, by simp; omega⟩ else none

/-- The string behind another one. -/
def strcat {m : Nat} (dst : List.Vector α m) (src : List α) : Option (List.Vector α m) :=
  match str dst.toList, str src with
  | some d, some s =>
    if h : d.length + s.length + 1 ≤ m then some ⟨d ++ s ++ 0 :: dst.toList.drop (d.length + s.length + 1), by simp; omega⟩ else none
  | _, _ => none

/-- Whether the string contains the other. -/
def strstr (mem needle : List α) : Option Bool := (str mem).map fun s => decide (needle <:+: s)

/-! ## The string in an array -/

section Strings

variable {s mem rest : List α} {n : Nat}

/-- The string before a zero. -/
theorem str_append (hs : 0 ∉ s) (rest : List α) : str (s ++ 0 :: rest) = some s := by
  induction s with
  | nil => simp [str]
  | cons c s ih =>
    rw [List.mem_cons, not_or] at hs
    simp [str, ih hs.2, Ne.symm hs.1]

/-- A string ends at the first zero. -/
theorem str_eq_some_iff : str mem = some s ↔ 0 ∉ s ∧ ∃ rest, mem = s ++ 0 :: rest := by
  constructor
  · intro h
    induction mem generalizing s with
    | nil => cases h
    | cons c mem ih =>
      rw [str] at h
      split at h
      · rename_i hc
        obtain rfl := Option.some.inj h
        exact ⟨List.not_mem_nil, mem, by rw [hc, List.nil_append]⟩
      · rename_i hc
        obtain ⟨s', hs', rfl⟩ := Option.map_eq_some_iff.mp h
        obtain ⟨hzero, rest, rfl⟩ := ih hs'
        refine ⟨?_, rest, rfl⟩
        rw [List.mem_cons, not_or]
        exact ⟨Ne.symm hc, hzero⟩
  · rintro ⟨hs, rest, rfl⟩
    exact str_append hs rest

/-- There is a string where there is a zero. -/
theorem exists_str_iff : (∃ s, str mem = some s) ↔ 0 ∈ mem := by
  constructor
  · rintro ⟨s, hs⟩
    obtain ⟨-, rest, rfl⟩ := str_eq_some_iff.mp hs
    simp
  · intro h
    obtain ⟨s, rest, rfl, hs⟩ := List.eq_append_cons_of_mem h
    exact ⟨s, str_append hs rest⟩

/-- A zero ends every string that starts before it. -/
theorem exists_str_drop {k q : Nat} (hq : mem[q]? = some 0) (hk : k ≤ q) : ∃ s, str (mem.drop k) = some s ∧ s.length ≤ q - k := by
  have hzero : (mem.drop k)[q - k]? = some 0 := by rw [List.getElem?_drop, Nat.add_sub_cancel' hk, hq]
  obtain ⟨s, hs⟩ := exists_str_iff.mpr (List.mem_of_getElem? hzero)
  refine ⟨s, hs, ?_⟩
  obtain ⟨hnot, rest, heq⟩ := str_eq_some_iff.mp hs
  by_contra hlt
  rw [heq, List.getElem?_append_left (by omega)] at hzero
  exact hnot (List.mem_of_getElem? hzero)

/-- The first characters of a string. -/
theorem strn_of_str (hs : str mem = some s) (n : Nat) : strn n mem = some (s.take n) := by
  induction n generalizing mem s with
  | zero => rfl
  | succ n ih =>
    cases mem with
    | nil => cases hs
    | cons c mem =>
      rw [str] at hs
      rw [strn]
      split at hs
      · rename_i hc
        obtain rfl := Option.some.inj hs
        simp [hc]
      · rename_i hc
        obtain ⟨s', hs', rfl⟩ := Option.map_eq_some_iff.mp hs
        simp [hc, ih hs']

variable {m : Nat} {dst dst' : List.Vector α m} {src d : List α}

/-- What the copy leaves. -/
theorem strncpy_eq (hs : str src = some s) (dst : List.Vector α m) (hn : n ≤ m) :
    ∃ dst', strncpy dst src n = some dst' ∧ dst'.toList = s.take n ++ List.replicate (n - s.length) 0 ++ dst.toList.drop n := by
  unfold strncpy
  rw [strn_of_str hs]
  refine ⟨_, dif_pos hn, ?_⟩
  change (s.take n ++ List.replicate n 0).take n ++ dst.toList.drop n = _
  rw [List.take_append, List.take_take, Nat.min_self, List.take_replicate, List.length_take]
  congr 3
  omega

/-- A copy with its zero is the same string. -/
theorem strncpy_str (hs : str src = some s) (dst : List.Vector α m) (hn : n ≤ m) (hlen : s.length < n) :
    ∃ dst', strncpy dst src n = some dst' ∧ str dst'.toList = some s := by
  obtain ⟨dst', hcpy, hlist⟩ := strncpy_eq hs dst hn
  obtain ⟨k, hk⟩ : ∃ k, n - s.length = k + 1 := ⟨n - s.length - 1, by omega⟩
  refine ⟨dst', hcpy, ?_⟩
  rw [hlist, List.take_of_length_le (by omega), hk, List.replicate_succ, List.append_assoc]
  exact str_append (str_eq_some_iff.mp hs).1 _

/-- Behind `n` the copy changes nothing. -/
theorem drop_strncpy (h : strncpy dst src n = some dst') : dst'.toList.drop n = dst.toList.drop n := by
  unfold strncpy at h
  split at h
  · cases h
  · split at h
    · obtain rfl := Option.some.inj h
      exact List.drop_left' (by simp)
    · cases h

/-- The strings joined, where there is room. -/
theorem strcat_str (hd : str dst.toList = some d) (hs : str src = some s) (hlen : d.length + s.length + 1 ≤ m) :
    ∃ dst', strcat dst src = some dst' ∧ str dst'.toList = some (d ++ s) := by
  unfold strcat
  rw [hd, hs]
  refine ⟨_, dif_pos hlen, str_append ?_ _⟩
  rw [List.mem_append, not_or]
  exact ⟨(str_eq_some_iff.mp hd).1, (str_eq_some_iff.mp hs).1⟩

/-- Only strings that fit are concatenated. -/
theorem of_strcat (hd : str dst.toList = some d) (h : strcat dst src = some dst') :
    ∃ s, str src = some s ∧ d.length + s.length + 1 ≤ m := by
  unfold strcat at h
  rw [hd] at h
  rcases hs : str src with _ | s
  · rw [hs] at h
    cases h
  · rw [hs] at h
    by_cases hlen : d.length + s.length + 1 ≤ m
    · exact ⟨s, rfl, hlen⟩
    · simp [hlen] at h

end Strings

/-! ## Strings one behind the other -/

section Packs

variable {α : Type*} {s rest : List α} {strings : List (List α)} {k : Nat}

/-- The position of the string `k`. -/
def start (strings : List (List α)) (k : Nat) : Nat := ((strings.take k).map fun s => s.length + 1).sum

@[simp] theorem start_zero (strings : List (List α)) : start strings 0 = 0 := rfl

@[simp] theorem start_cons_succ (s : List α) (strings : List (List α)) (k : Nat) :
    start (s :: strings) (k + 1) = s.length + 1 + start strings k := by simp [start]

/-- The next string begins behind a zero. -/
theorem start_succ (hk : strings[k]? = some s) : start strings (k + 1) = start strings k + s.length + 1 := by
  induction strings generalizing k with
  | nil => cases hk
  | cons t strings ih =>
    cases k with
    | zero =>
      obtain rfl := Option.some.inj hk
      simp
    | succ k =>
      have h := ih hk
      rw [start_cons_succ, h, start_cons_succ]
      omega

variable [Zero α]

/-- Each string with its zero, and what is behind the last. -/
def pack (strings : List (List α)) (rest : List α) : List α := strings.foldr (fun s mem => s ++ 0 :: mem) rest

@[simp] theorem pack_nil (rest : List α) : pack [] rest = rest := rfl

@[simp] theorem pack_cons (s : List α) (strings : List (List α)) (rest : List α) :
    pack (s :: strings) rest = s ++ 0 :: pack strings rest := rfl

/-- The memory from a string on. -/
theorem drop_start_pack (strings : List (List α)) (rest : List α) (hk : k ≤ strings.length) :
    (pack strings rest).drop (start strings k) = pack (strings.drop k) rest := by
  induction strings generalizing k with
  | nil => simp [start]
  | cons s strings ih =>
    cases k with
    | zero => rfl
    | succ k =>
      have hassoc : pack (s :: strings) rest = (s ++ [0]) ++ pack strings rest := by simp
      have hlen : s.length + 1 = (s ++ [(0 : α)]).length := by simp
      rw [start_cons_succ, hassoc, hlen, List.drop_length_add_append, ih (by simpa using hk), List.drop_succ_cons]

/-- What is behind the start of a string. -/
theorem drop_pack (hk : strings[k]? = some s) (rest : List α) :
    ∃ mem, (pack strings rest).drop (start strings k) = s ++ 0 :: mem := by
  obtain ⟨hlt, heq⟩ := List.getElem?_eq_some_iff.mp hk
  rw [drop_start_pack strings rest hlt.le, List.drop_eq_getElem_cons hlt, heq]
  exact ⟨_, pack_cons _ _ _⟩

/-- The zero of a string. -/
theorem getElem?_pack (hk : strings[k]? = some s) (rest : List α) : (pack strings rest)[start strings k + s.length]? = some 0 := by
  obtain ⟨mem, hmem⟩ := drop_pack hk rest
  rw [← List.getElem?_drop, hmem, List.getElem?_append_right le_rfl, Nat.sub_self]
  rfl

variable [DecidableEq α]

/-- The rest of a string from a position in it on. -/
theorem str_drop_pack {j : Nat} (hk : strings[k]? = some s) (hj : j ≤ s.length) (hs : 0 ∉ s) (rest : List α) :
    str ((pack strings rest).drop (start strings k + j)) = some (s.drop j) := by
  obtain ⟨mem, hmem⟩ := drop_pack hk rest
  rw [← List.drop_drop, hmem, List.drop_append_of_le_length hj]
  exact str_append (fun h => hs (List.mem_of_mem_drop h)) mem

end Packs

end CStrings
