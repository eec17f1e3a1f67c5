import Embassies.Kvm.AllocatorSound
import Mathlib.Data.Fintype.Prod
import Mathlib.Data.UInt
import Mathlib.Order.WellFounded

/-!
# The order of the keys

The keys of the trees are compared by the sign of a difference of words.  The words form
a circle, and the sign orders them exactly when they lie in one half of it.
-/

namespace Embassies.Kvm

/-- The comparison is a strict total order of the keys of some ranges. -/
structure Orders {κ : Type} (cmp : Range → Range → Int32) (key : Range → κ)
    (chosen : Range → Prop) : Prop where
  irreflexive : ∀ range, chosen range → ¬cmp range range < 0
  transitive : ∀ first second third, chosen first → chosen second → chosen third →
    cmp first second < 0 → cmp second third < 0 → cmp first third < 0
  total : ∀ left right, chosen left → chosen right → key left ≠ key right →
    cmp left right < 0 ∨ cmp right left < 0

/-- A value of some ranges stays in one half of the circle. -/
def InHalf (value : Range → UInt32) (chosen : Range → Prop) : Prop :=
  ∃ base, ∀ range, chosen range → (value range - base).toNat < 2 ^ 31

section Orders

variable {κ : Type} {cmp : Range → Range → Int32} {key : Range → κ} {chosen : Range → Prop}

theorem Orders.of_lex (major minor : Range → Nat)
    (lex : ∀ left right, chosen left → chosen right → (cmp left right < 0 ↔
      major left < major right ∨ major left = major right ∧ minor left < minor right))
    (distinct : ∀ left right, key left ≠ key right →
      major left ≠ major right ∨ minor left ≠ minor right) : Orders cmp key chosen where
  irreflexive range inside := by
    rw [lex range range inside inside]
    omega
  transitive first second third firstIn secondIn thirdIn := by
    rw [lex first second firstIn secondIn, lex second third secondIn thirdIn,
      lex first third firstIn thirdIn]
    omega
  total left right leftIn rightIn different := by
    have apart := distinct left right different
    rw [lex left right leftIn rightIn, lex right left rightIn leftIn]
    omega

theorem difference_neg_iff_of_half {left right base : UInt32}
    (leftHalf : (left - base).toNat < 2 ^ 31) (rightHalf : (right - base).toNat < 2 ^ 31) :
    (left - right).toInt32 < 0 ↔ (left - base).toNat < (right - base).toNat := by
  rw [← sub_sub_sub_cancel_right left right base, difference_neg_iff leftHalf rightHalf,
    UInt32.lt_iff_toNat_lt]

theorem not_neg_iff {word : UInt32} : ¬word.toInt32 < 0 ↔ word.toNat < 2 ^ 31 := by
  have signed : word.toInt32.toInt = word.toBitVec.toInt := rfl
  have zero : (0 : Int32).toInt = 0 := rfl
  have same : word.toBitVec.toNat = word.toNat := rfl
  rw [Int32.lt_iff_toInt_lt, signed, zero, BitVec.toInt_eq_toNat_cond, same]
  split
  · omega
  · omega

/-- The values that an order compares by their difference lie in one half, which begins
at the value of the least range. -/
theorem Orders.inHalf (orders : Orders cmp key chosen) {value : Range → UInt32}
    (agrees : ∀ left right, value left ≠ value right →
      (cmp left right < 0 ↔ (value left - value right).toInt32 < 0)) : InHalf value chosen := by
  by_cases some : ∃ range, chosen range
  · obtain ⟨range, inside⟩ := some
    have founded : WellFounded fun left right : { range // chosen range } =>
        cmp left right < 0 := by
      have finite : Finite Range :=
        .of_injective (fun range => (range.start.toFin, range.finish.toFin)) (by
          rintro ⟨_, _⟩ ⟨_, _⟩ same
          simpa [UInt32.toFin_inj] using same)
      refine @Finite.wellFounded_of_trans_of_irrefl _ _ _ ⟨?_⟩ ⟨?_⟩
      · exact fun _ _ _ =>
          orders.transitive _ _ _ (Subtype.prop _) (Subtype.prop _) (Subtype.prop _)
      · exact fun _ => orders.irreflexive _ (Subtype.prop _)
    obtain ⟨least, -, minimal⟩ := founded.has_min Set.univ ⟨⟨range, inside⟩, trivial⟩
    refine ⟨value least, fun other otherIn => ?_⟩
    by_cases same : value other = value least
    · rw [same, sub_self]
      decide
    · rw [← not_neg_iff, ← agrees other least same]
      exact minimal ⟨other, otherIn⟩ trivial
  · exact ⟨0, fun range inside => absurd ⟨range, inside⟩ some⟩

end Orders

/-- Both comparisons order the keys of some ranges exactly when the starts and the
sizes stay in one half of the circle. -/
theorem keys_ordered_iff (chosen : Range → Prop) : Orders byStartCmp Range.start chosen ∧
        Orders bySizeCmp (fun range => (range.size, range.start)) chosen ↔
      InHalf Range.start chosen ∧ InHalf Range.size chosen := by
  constructor
  · rintro ⟨starts, sizes⟩
    refine ⟨starts.inHalf fun _ _ _ => .rfl, sizes.inHalf fun left right different => ?_⟩
    rw [bySizeCmp, if_pos (mt difference_eq_zero_iff.mp different)]
  · rintro ⟨⟨base, starts⟩, sizeBase, sizes⟩
    constructor
    · refine .of_lex (fun _ => 0) (fun range => (range.start - base).toNat) ?_ ?_
      · intro left right leftIn rightIn
        rw [byStartCmp, difference_neg_iff_of_half (starts left leftIn) (starts right rightIn)]
        simp
      · intro left right
        simp [UInt32.toNat_inj]
    · refine .of_lex (fun range => (range.size - sizeBase).toNat)
        (fun range => (range.start - base).toNat) ?_ ?_
      · intro left right leftIn rightIn
        have bySizes := difference_neg_iff_of_half (sizes left leftIn) (sizes right rightIn)
        have byStarts := difference_neg_iff_of_half (starts left leftIn) (starts right rightIn)
        by_cases same : left.size = right.size
        · rw [bySizeCmp, same, UInt32.sub_self, if_neg (by decide), byStarts]
          simp
        · have apart : (left.size - sizeBase).toNat ≠ (right.size - sizeBase).toNat := by
            simpa [UInt32.toNat_inj] using same
          rw [bySizeCmp, if_pos (mt difference_eq_zero_iff.mp same), bySizes]
          simp [apart]
      · intro left right
        simp only [ne_eq, Prod.mk.injEq, UInt32.toNat_inj, sub_left_inj]
        tauto

/-- Over the whole address space neither comparison is transitive. -/
theorem keys_not_ordered :
    ¬Orders byStartCmp Range.start (fun range => range.start ≤ range.finish) ∧
      ¬Orders bySizeCmp (fun range => (range.size, range.start))
        (fun range => range.start ≤ range.finish) := by
  constructor
  · intro orders
    have absurd := orders.transitive ⟨0, 0⟩ ⟨0x60000000, 0x60000000⟩ ⟨0xC0000000, 0xC0000000⟩
    revert absurd
    decide
  · intro orders
    have absurd := orders.transitive ⟨0, 0⟩ ⟨0, 0x60000000⟩ ⟨0, 0xC0000000⟩
    revert absurd
    decide

end Embassies.Kvm
