import CallShape.Spread
import CallShape.Table
import Mathlib.Algebra.Group.Nat.Defs
import Mathlib.Logic.Basic

set_option autoImplicit false

namespace CallShape

namespace Capacity

variable {count : Nat}

theorem admits_iff {size : Nat} : admits count size = true ↔ count * size ≤ maxBytes :=
  decide_eq_true_iff

theorem admits_slots_iff : admits count slotBytes = true ↔ count < 2 ^ 58 := by
  rw [admits_iff, slotBytes, maxBytes]
  omega

theorem admits_sources (few : count < 2 ^ 58) : admits count sourceBytes = true := by
  rw [admits_iff, sourceBytes, maxBytes]
  omega

theorem le_maxCount (few : count < 2 ^ 58) : count ≤ maxCount := by
  unfold maxCount
  omega

/-- Rounding up costs half of the room. -/
theorem admits_roundUp_iff : admits (roundUp count) slotBytes = true ↔ count ≤ 2 ^ 57 := by
  rw [admits_slots_iff, roundUp]
  split
  · rename_i few
    constructor <;> intro _ <;> omega
  · rename_i many
    have positive : count - 1 ≠ 0 := by omega
    rw [Nat.one_shiftLeft, Nat.pow_lt_pow_iff_right (by decide), Nat.add_lt_iff_lt_sub_right,
      Nat.log2_lt positive]
    omega

end Capacity

namespace Config

/-- There is room for the signatures at hand and for the slots of each of them. -/
def Fits (config : Config) : Prop := config.cacheLength ≤ 2 ^ 58

instance (config : Config) : Decidable config.Fits := inferInstanceAs (Decidable (_ ≤ _))

theorem default_fits : ({} : Config).Fits := by decide

/-- Nothing else is asked for when a table is made. -/
theorem fits_iff {config : Config} : config.Fits ↔
    Capacity.admits config.cacheLength Capacity.signatureBytes = true ∧
      ∀ arity ∈ List.range config.cacheLength, arity < 2 ^ 58 := by
  simp only [List.mem_range]
  rw [Fits, Capacity.admits_iff, Capacity.signatureBytes, Capacity.maxBytes]
  constructor
  · intro few
    exact ⟨by omega, fun arity below => by omega⟩
  · rintro ⟨-, each⟩
    apply Nat.le_of_not_lt
    intro many
    exact Nat.lt_irrefl _ (each (2 ^ 58) many)

end Config

namespace Spread

variable {spread : Spread}

/-- There is room for the slots of the flattened call. -/
def Fits (spread : Spread) : Prop := totalWidth spread.groups < 2 ^ 58

instance (spread : Spread) : Decidable spread.Fits := inferInstanceAs (Decidable (_ < _))

/-- What a call that there is no room for comes to when it is flattened. -/
def shortage (spread : Spread) : Fault :=
  if totalWidth spread.groups ≤ Capacity.maxCount then .capacity else .countOverflow

theorem shortage_ne (spread : Spread) (cause : SignatureError) :
    spread.shortage ≠ .signature cause := by
  unfold shortage
  split <;> exact nofun

theorem reserve_eq (spread : Spread) (size : Nat) :
    spread.reserve size =
      if totalWidth spread.groups ≤ Capacity.maxCount ∧
        Capacity.admits (totalWidth spread.groups) size = true
      then .ok () else .error spread.shortage := by
  rw [reserve, flattenedLength, shortage]
  by_cases counted : totalWidth spread.groups ≤ Capacity.maxCount
  · simp only [counted, true_and, ↓reduceIte]
    rfl
  · simp only [counted, false_and, ↓reduceIte]
    rfl

theorem reserve_slots (spread : Spread) :
    spread.reserve Capacity.slotBytes =
      if spread.Fits then .ok () else .error spread.shortage := by
  rw [reserve_eq]
  refine if_congr ⟨fun room => Capacity.admits_slots_iff.mp room.2, fun fits => ?_⟩ rfl rfl
  exact ⟨Capacity.le_maxCount fits, Capacity.admits_slots_iff.mpr fits⟩

theorem flattenedLength_of_fits (fits : spread.Fits) :
    spread.flattenedLength = .ok (totalWidth spread.groups) :=
  if_pos (Capacity.le_maxCount fits)

/-- Where there is room for the slots, there is room for the sources. -/
theorem listSources_of_fits (fits : spread.Fits) : spread.listSources = .ok spread.sources := by
  rw [listSources, reserve_eq,
    if_pos ⟨Capacity.le_maxCount fits, Capacity.admits_sources fits⟩]
  rfl

theorem eq_sources_of_listSources {list : List Source} (answered : spread.listSources = .ok list) :
    list = spread.sources := by
  rw [listSources, reserve_eq] at answered
  split at answered
  · exact (Except.ok.inj answered).symm
  · cases answered

end Spread

end CallShape
