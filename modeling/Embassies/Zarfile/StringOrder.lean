import Mathlib.Data.List.Lex
import Mathlib.Data.Int.Order.Basic

/-!
# Two orders of strings

`strcmp` of the C library takes the bytes of a string as unsigned numbers, and
`lite_strcmp` subtracts them as `char`s, which are signed on the i386.  Each is the
order of the lists of numbers that the bytes stand for.

A string is a list of bytes without the zero that ends it in memory.
-/

namespace Embassies.Zarfile

open List

/-- `strcmp` of the C library: bytes are compared as unsigned numbers. -/
def strcmp : List UInt8 → List UInt8 → Ordering
  | [], [] => .eq
  | [], _ :: _ => .lt
  | _ :: _, [] => .gt
  | left :: lefts, right :: rights =>
    if left < right then .lt else if right < left then .gt else strcmp lefts rights

/-- A `char`. -/
def signedByte (byte : UInt8) : Int := byte.toInt8.toInt

/-- `lite_strcmp`. -/
def liteStrcmp : List UInt8 → List UInt8 → Int
  | left :: lefts, right :: rights =>
    let d := signedByte left - signedByte right
    if d ≠ 0 then d else liteStrcmp lefts rights
  | lefts, rights => signedByte (lefts.headD 0) - signedByte (rights.headD 0)

/-! ## Lists of numbers

Both functions compare strings byte by byte, including the zero at the end; they
differ in the number that a byte stands for. -/

/-- A string with the zero at its end, as the numbers that are compared. -/
def numbers (value : UInt8 → Int) (string : List UInt8) : List Int :=
  (string ++ [0]).map value

section Numbers

variable {value : UInt8 → Int}

theorem numbers_nil : numbers value [] = [value 0] := rfl

theorem numbers_cons (byte : UInt8) (rest : List UInt8) :
    numbers value (byte :: rest) = value byte :: numbers value rest := rfl

variable (injective : Function.Injective value)
include injective

theorem numbers_injective : Function.Injective (numbers value) := by
  intro left right same
  exact append_cancel_right (map_injective_iff.mpr injective same)

theorem numbers_nil_lt_iff {byte : UInt8} (nonzero : byte ≠ 0) (rest : List UInt8) :
    numbers value [] < numbers value (byte :: rest) ↔ value 0 < value byte := by
  rw [numbers_nil, numbers_cons, cons_lt_cons_iff]
  exact ⟨fun either => either.resolve_right fun both => nonzero (injective both.1).symm, .inl⟩

theorem numbers_lt_nil_iff {byte : UInt8} (nonzero : byte ≠ 0) (rest : List UInt8) :
    numbers value (byte :: rest) < numbers value [] ↔ value byte < value 0 := by
  rw [numbers_nil, numbers_cons, cons_lt_cons_iff]
  exact ⟨fun either => either.resolve_right fun both => nonzero (injective both.1), .inl⟩

theorem numbers_cons_lt_iff {left right : UInt8} {lefts rights : List UInt8} :
    numbers value (left :: lefts) < numbers value (right :: rights) ↔
      if left = right then numbers value lefts < numbers value rights
      else value left < value right := by
  rw [numbers_cons, numbers_cons, cons_lt_cons_iff]
  split
  · rename_i same
    subst same
    simp
  · rename_i apart
    exact ⟨fun either => either.resolve_right fun both => apart (injective both.1), .inl⟩

end Numbers

/-- A byte as an unsigned number. -/
def unsignedByte (byte : UInt8) : Int := byte.toNat

theorem unsignedByte_injective : Function.Injective unsignedByte := by
  intro left right same
  exact UInt8.toNat_inj.mp (Int.ofNat.inj same)

theorem signedByte_eq (byte : UInt8) : signedByte byte =
      if byte.toNat < 128 then (byte.toNat : Int) else byte.toNat - 256 := by
  have signed : byte.toInt8.toInt = byte.toBitVec.toInt := rfl
  rw [signedByte, signed, BitVec.toInt_eq_toNat_cond, UInt8.toNat_toBitVec]
  split
  · split
    · rfl
    · omega
  · split
    · omega
    · rfl

theorem signedByte_injective : Function.Injective signedByte := by
  intro left right same
  have leftBound := left.toNat_lt
  have rightBound := right.toNat_lt
  rw [signedByte_eq, signedByte_eq] at same
  apply UInt8.toNat_inj.mp
  split at same
  · split at same
    · omega
    · omega
  · split at same
    · omega
    · omega

theorem strcmp_eq_iff {left right : List UInt8} : strcmp left right = .eq ↔ left = right := by
  induction left generalizing right with
  | nil => cases right <;> simp [strcmp]
  | cons byte rest induction =>
    cases right with
    | nil => simp [strcmp]
    | cons other others =>
      rw [strcmp, List.cons.injEq]
      split
      · rename_i less
        simp [UInt8.ne_of_lt less]
      · split
        · rename_i greater
          simp [(UInt8.ne_of_lt greater).symm]
        · rename_i notLess notGreater
          rw [UInt8.not_lt] at notLess notGreater
          simp [induction, UInt8.le_antisymm notGreater notLess]

variable {left right : List UInt8}

theorem strcmp_lt_iff (leftZero : 0 ∉ left) (rightZero : 0 ∉ right) :
    strcmp left right = .lt ↔ numbers unsignedByte left < numbers unsignedByte right := by
  induction left generalizing right with
  | nil =>
    cases right with
    | nil => simp [strcmp]
    | cons other others =>
      have nonzero : other ≠ 0 := fun zero => rightZero (zero ▸ mem_cons_self)
      rw [numbers_nil_lt_iff unsignedByte_injective nonzero, strcmp]
      simp only [true_iff]
      have positive : other.toNat ≠ 0 := fun zero => nonzero (UInt8.toNat_inj.mp zero)
      rw [unsignedByte, unsignedByte, UInt8.toNat_zero]
      omega
  | cons byte rest induction =>
    cases right with
    | nil =>
      have nonzero : byte ≠ 0 := fun zero => leftZero (zero ▸ mem_cons_self)
      rw [numbers_lt_nil_iff unsignedByte_injective nonzero, strcmp]
      simp only [reduceCtorEq, false_iff, unsignedByte, UInt8.toNat_zero]
      omega
    | cons other others =>
      rw [numbers_cons_lt_iff unsignedByte_injective, strcmp]
      have number : unsignedByte byte < unsignedByte other ↔ byte < other := by
        rw [UInt8.lt_iff_toNat_lt, unsignedByte, unsignedByte]
        omega
      grind

theorem strcmp_gt_iff (leftZero : 0 ∉ left) (rightZero : 0 ∉ right) :
    strcmp left right = .gt ↔ numbers unsignedByte right < numbers unsignedByte left := by
  have less := strcmp_lt_iff leftZero rightZero
  have same := @strcmp_eq_iff left right
  have trichotomy := lt_trichotomy (numbers unsignedByte left) (numbers unsignedByte right)
  have injective := @numbers_injective _ unsignedByte_injective left right
  cases compared : strcmp left right with
  | lt =>
    simp only [reduceCtorEq, false_iff]
    exact lt_asymm (less.mp compared)
  | eq =>
    simp only [reduceCtorEq, false_iff]
    rw [same.mp compared]
    exact lt_irrefl _
  | gt =>
    simp only [true_iff]
    rw [compared] at less same
    rcases trichotomy with lower | equal | higher
    · cases less.mpr lower
    · cases same.mpr (injective equal)
    · exact higher

theorem liteStrcmp_cons (left right : UInt8) (lefts rights : List UInt8) :
    liteStrcmp (left :: lefts) (right :: rights) =
      if left = right then liteStrcmp lefts rights
      else signedByte left - signedByte right := by
  rw [liteStrcmp]
  by_cases same : left = right
  · rw [if_pos same, if_neg]
    rw [same, Int.sub_self]
    exact not_not.mpr rfl
  · rw [if_neg same]
    apply if_pos
    intro zero
    exact same (signedByte_injective (Int.sub_eq_zero.mp zero))

theorem liteStrcmp_neg_iff (leftZero : 0 ∉ left) (rightZero : 0 ∉ right) :
    liteStrcmp left right < 0 ↔ numbers signedByte left < numbers signedByte right := by
  induction left generalizing right with
  | nil =>
    cases right with
    | nil => simp [liteStrcmp]
    | cons other others =>
      have nonzero : other ≠ 0 := fun zero => rightZero (zero ▸ mem_cons_self)
      rw [numbers_nil_lt_iff signedByte_injective nonzero]
      exact ⟨Int.lt_of_sub_neg, Int.sub_neg_of_lt⟩
  | cons byte rest induction =>
    cases right with
    | nil =>
      have nonzero : byte ≠ 0 := fun zero => leftZero (zero ▸ mem_cons_self)
      rw [numbers_lt_nil_iff signedByte_injective nonzero]
      exact ⟨Int.lt_of_sub_neg, Int.sub_neg_of_lt⟩
    | cons other others =>
      rw [numbers_cons_lt_iff signedByte_injective, liteStrcmp_cons]
      split
      · exact induction (not_mem_of_not_mem_cons leftZero) (not_mem_of_not_mem_cons rightZero)
      · exact ⟨Int.lt_of_sub_neg, Int.sub_neg_of_lt⟩

theorem liteStrcmp_swap (left right : List UInt8) :
    liteStrcmp right left = -liteStrcmp left right := by
  induction left generalizing right with
  | nil =>
    cases right with
    | nil => rfl
    | cons other others => exact (Int.neg_sub _ _).symm
  | cons byte rest induction =>
    cases right with
    | nil => exact (Int.neg_sub _ _).symm
    | cons other others =>
      rw [liteStrcmp_cons, liteStrcmp_cons]
      by_cases same : byte = other
      · rw [if_pos same, if_pos same.symm, induction]
      · rw [if_neg same, if_neg (Ne.symm same), Int.neg_sub]

theorem liteStrcmp_eq_zero_iff (leftZero : 0 ∉ left) (rightZero : 0 ∉ right) :
    liteStrcmp left right = 0 ↔ left = right := by
  have less := liteStrcmp_neg_iff leftZero rightZero
  have greater := liteStrcmp_neg_iff rightZero leftZero
  rw [liteStrcmp_swap] at greater
  constructor
  · intro zero
    apply numbers_injective signedByte_injective
    rcases lt_trichotomy (numbers signedByte left) (numbers signedByte right) with
      lower | equal | higher
    · have := less.mpr lower
      omega
    · exact equal
    · have := greater.mpr higher
      omega
  · rintro rfl
    have notLess : ¬liteStrcmp left left < 0 := fun lower => lt_irrefl _ (less.mp lower)
    have notGreater : ¬-liteStrcmp left left < 0 := fun lower =>
      lt_irrefl _ (greater.mp lower)
    omega

end Embassies.Zarfile
