import Mathlib.Algebra.Order.Floor.Div
import Mathlib.Order.Monotone.Basic

/-!
Lexicographic comparison with a margin. A component decides when it is exceeded by more
than its margin and leaves the decision to the components after it when it is met within
the margin. Such a comparison is not transitive, so to win against the greatest entry is
not to win against every entry.
-/

namespace LeanMargin

variable {α β : Type} [LinearOrder α]

structure Margin (α : Type) [LinearOrder α] where
  upper : α → α
  le_upper : ∀ value, value ≤ upper value
  monotone_upper : Monotone upper

def Margin.Exceeds (margin : Margin α) (this that : α) : Prop := margin.upper that < this

def Margin.Within (margin : Margin α) (this that : α) : Prop :=
  that ≤ this ∧ this ≤ margin.upper that

/-- The first components decide, or the rest does if they are within the margin. -/
def Margin.Beats (margin : Margin α) (rest : β → β → Prop) (this that : α × β) : Prop :=
  margin.Exceeds this.1 that.1 ∨ margin.Within this.1 that.1 ∧ rest this.2 that.2

section Relative

variable (part whole : Nat)

theorem ceil_mono : Monotone fun value => part * value ⌈/⌉ whole := by
  intro low high le
  have scaled : part * low + whole - 1 ≤ part * high + whole - 1 :=
    Nat.sub_le_sub_right (Nat.add_le_add_right (Nat.mul_le_mul_left part le) whole) 1
  simpa only [Nat.ceilDiv_eq_add_pred_div] using Nat.div_le_div_right scaled

theorem sub_ceil_mono (positive : 0 < whole) :
    Monotone fun value => value - part * value ⌈/⌉ whole := by
  intro low high le
  have lowPart : part * low ≤ whole * (part * low ⌈/⌉ whole) :=
    (ceilDiv_le_iff_le_mul positive).mp le_rfl
  rcases Nat.le_total part whole with small | large
  · -- The ceiling grows no faster than the value does.
    have slow : part * high ⌈/⌉ whole ≤ part * low ⌈/⌉ whole + (high - low) := by
      rw [ceilDiv_le_iff_le_mul positive]
      calc part * high = part * low + part * (high - low) := by
            rw [← Nat.mul_add, Nat.add_sub_cancel' le]
        _ ≤ whole * (part * low ⌈/⌉ whole) + whole * (high - low) :=
            Nat.add_le_add lowPart (Nat.mul_le_mul_right _ small)
        _ = whole * (part * low ⌈/⌉ whole + (high - low)) := (Nat.mul_add ..).symm
    change low - _ ≤ high - _
    omega
  · have all : low ≤ part * low ⌈/⌉ whole :=
      Nat.le_of_mul_le_mul_left ((Nat.mul_le_mul_right low large).trans lowPart) positive
    change low - _ ≤ high - _
    omega

def Margin.above : Margin Nat where
  upper value := value + part * value ⌈/⌉ whole
  le_upper value := Nat.le_add_right value _
  monotone_upper _ _ le := Nat.add_le_add le (ceil_mono part whole le)

def Margin.below (positive : 0 < whole) : Margin Natᵒᵈ where
  upper value := OrderDual.toDual (value.ofDual - part * value.ofDual ⌈/⌉ whole)
  le_upper value := Nat.sub_le value.ofDual _
  monotone_upper _ _ le := sub_ceil_mono part whole positive le

theorem below_exceeds_iff (positive : 0 < whole) (this that : Nat) :
    (Margin.below part whole positive).Exceeds (OrderDual.toDual this) (OrderDual.toDual that) ↔
      this < that - part * that ⌈/⌉ whole := Iff.rfl

end Relative

variable {margin : Margin α} {rest : β → β → Prop}

theorem Margin.Exceeds.of_le {this best other : α} (exceeds : margin.Exceeds this best)
    (below : other ≤ best) : margin.Exceeds this other :=
  lt_of_le_of_lt (margin.monotone_upper below) exceeds

theorem Margin.Beats.first_le {this that : α × β} (beats : margin.Beats rest this that) :
    that.1 ≤ this.1 := by
  rcases beats with exceeds | ⟨within, _⟩
  · exact le_of_lt (lt_of_le_of_lt (margin.le_upper that.1) exceeds)
  · exact within.1

theorem Margin.Beats.won {this that : α × β} (beats : margin.Beats rest this that)
    (near : this.1 ≤ margin.upper that.1) : rest this.2 that.2 := by
  rcases beats with exceeds | ⟨_, won⟩
  · exact absurd exceeds (not_lt.mpr near)
  · exact won

theorem beats_iff_of_le {this that : α × β} (above : that.1 ≤ this.1) :
    margin.Beats rest this that ↔ (this.1 ≤ margin.upper that.1 → rest this.2 that.2) := by
  constructor
  · exact Margin.Beats.won
  · intro near
    rcases lt_or_ge (margin.upper that.1) this.1 with exceeds | within
    · exact Or.inl exceeds
    · exact Or.inr ⟨⟨above, within⟩, near within⟩

theorem beats_iff_of_near {this that : α × β} (near : this.1 ≤ margin.upper that.1) :
    margin.Beats rest this that ↔ that.1 ≤ this.1 ∧ rest this.2 that.2 := by
  constructor
  · intro beats
    exact ⟨beats.first_le, beats.won near⟩
  · rintro ⟨above, won⟩
    exact Or.inr ⟨⟨above, near⟩, won⟩

/-- An entry below the best that a win against the best leaves open: its first component is
lower but still within the margin and the rest is not won, or its first component is the
best's and the rest is left open in the same way. -/
def Margin.LeavesOpen (margin : Margin α) (rest : β → β → Prop) (open' : β → β → β → Prop)
    (this best other : α × β) : Prop :=
  this.1 ≤ margin.upper other.1 ∧
    (other.1 < best.1 ∧ ¬ rest this.2 other.2 ∨ other.1 = best.1 ∧ open' this.2 best.2 other.2)

theorem Margin.Beats.other_iff {open' : β → β → β → Prop} {this best other : α × β}
    (beats : margin.Beats rest this best) (below : other.1 ≤ best.1)
    (later : other.1 = best.1 → rest this.2 best.2 →
      (rest this.2 other.2 ↔ ¬ open' this.2 best.2 other.2)) :
    margin.Beats rest this other ↔ ¬ margin.LeavesOpen rest open' this best other := by
  rw [beats_iff_of_le (below.trans beats.first_le), Margin.LeavesOpen, not_and]
  refine forall_congr' fun near => ?_
  rcases lt_or_eq_of_le below with lower | same
  · simp [lower, lower.ne]
  · have won : rest this.2 best.2 := beats.won (same ▸ near)
    simp [same, later same won]

/-- An entry below the best that may win although the best does not: its first component is
lower than the best's but not than ours and it wins the rest, or its first component is the
best's and the same holds of the rest. -/
def Overtakes (rest : β → β → Prop) (overtakes : β → β → β → Prop)
    (ours best other : α × β) : Prop :=
  ours.1 ≤ other.1 ∧
    (other.1 < best.1 ∧ rest other.2 ours.2 ∨ other.1 = best.1 ∧ overtakes ours.2 best.2 other.2)

theorem other_beats_iff {overtakes : β → β → β → Prop} {ours best other : α × β}
    (unbeaten : ¬ margin.Beats rest best ours) (below : other.1 ≤ best.1)
    (later : other.1 = best.1 → ¬ rest best.2 ours.2 →
      (rest other.2 ours.2 ↔ overtakes ours.2 best.2 other.2)) :
    margin.Beats rest other ours ↔ Overtakes rest overtakes ours best other := by
  have bestNear : best.1 ≤ margin.upper ours.1 := not_lt.mp fun exceeds => unbeaten (Or.inl exceeds)
  rw [beats_iff_of_near (below.trans bestNear), Overtakes]
  refine and_congr_right fun above => ?_
  rcases lt_or_eq_of_le below with lower | same
  · simp [lower, lower.ne]
  · have lost : ¬ rest best.2 ours.2 := fun won =>
      unbeaten (Or.inr ⟨⟨same ▸ above, bestNear⟩, won⟩)
    simp [same, later same lost]

end LeanMargin
