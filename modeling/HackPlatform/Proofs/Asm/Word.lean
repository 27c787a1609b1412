/-
  HackPlatform.Proofs.Asm.Word
  ────────────────────────────────
  **THE BITS OF A WORD.**

  The fields of a compute word are joined by append, so each bit of the word is
  one bit of one field; an address word is the number it loads.

      compute_comp, compute_dest, compute_jump      the fields, taken out again
      address_eq_ofNat, toNat_address               the number, taken out again
-/
import HackPlatform.Asm.Word

namespace HackPlatform.Asm.Word

/-! ## §1. Compute words. -/

section
variable (dest : Dest) (comp : Comp) (jump : Jump)

theorem compute_high : (compute dest comp jump).getLsbD 15 = true := by
  unfold compute
  simp only [BitVec.getLsbD_append]
  rfl

theorem compute_ones : (compute dest comp jump).extractLsb' 13 3 = 0b111#3 := by
  unfold compute
  rw [BitVec.extractLsb'_append_eq_of_le (by omega), BitVec.extractLsb'_append_eq_of_le (by omega)]
  exact BitVec.extractLsb'_append_eq_left

theorem compute_comp : (compute dest comp jump).extractLsb' 6 7 = comp.bits := by
  unfold compute
  rw [BitVec.extractLsb'_append_eq_of_le (by omega), BitVec.extractLsb'_append_eq_of_le (by omega)]
  exact BitVec.extractLsb'_append_eq_right

theorem compute_source : (compute dest comp jump).getLsbD 12 = comp.sourceBit.getLsbD 0 := by
  unfold compute Comp.bits
  simp only [BitVec.getLsbD_append]
  rfl

theorem compute_control : (compute dest comp jump).extractLsb' 6 6 = comp.control := by
  unfold compute Comp.bits
  rw [BitVec.extractLsb'_append_eq_of_le (by omega), BitVec.extractLsb'_append_eq_of_le (by omega),
    BitVec.extractLsb'_append_eq_of_add_le (by omega)]
  exact BitVec.extractLsb'_append_eq_right

theorem compute_dest_bits : (compute dest comp jump).extractLsb' 3 3 = dest.bits := by
  unfold compute
  rw [BitVec.extractLsb'_append_eq_of_le (by omega)]
  exact BitVec.extractLsb'_append_eq_right

theorem compute_dest :
    (compute dest comp jump).getLsbD 5 = dest.a
      ∧ (compute dest comp jump).getLsbD 4 = dest.d
      ∧ (compute dest comp jump).getLsbD 3 = dest.m := by
  unfold compute Dest.bits
  simp only [BitVec.getLsbD_append]
  exact ⟨BitVec.getLsbD_ofBool .., BitVec.getLsbD_ofBool .., BitVec.getLsbD_ofBool ..⟩

theorem compute_jump : (compute dest comp jump).extractLsb' 0 3 = jump.bits := by
  unfold compute
  exact BitVec.extractLsb'_append_eq_right

end

/-! ## §2. Address words. -/

theorem address_high (value : Nat) : (address value).getLsbD 15 = false := by
  unfold address
  simp only [BitVec.getLsbD_append]
  rfl

/-- The word that loads a number of 15 bits is that number. -/
theorem address_eq_ofNat {value : Nat} (h : value ≤ maxAddress) :
    address value = BitVec.ofNat 16 value := by
  have hv : value < 2 ^ 15 := by unfold maxAddress at h; omega
  apply BitVec.eq_of_toNat_eq
  unfold address
  rw [BitVec.toNat_append, BitVec.toNat_ofNat, BitVec.toNat_ofNat, BitVec.toNat_ofNat,
    Nat.mod_eq_of_lt hv, Nat.mod_eq_of_lt (show value < 2 ^ 16 by omega)]
  simp only [Nat.zero_mod, Nat.zero_shiftLeft, Nat.zero_or]

theorem toNat_address {value : Nat} (h : value ≤ maxAddress) : (address value).toNat = value := by
  rw [address_eq_ofNat h, BitVec.toNat_ofNat]
  unfold maxAddress at h
  exact Nat.mod_eq_of_lt (by omega)

end HackPlatform.Asm.Word
