import VectorGraph.Proofs.Number.Comparison

/-!
Doubles put together.

The bits of a double that is put together from its sign, mantissa and exponent are read as just these, as long as no
mantissa is longer than a double has room for (`ofBits_bits`, `toNat_pack`). So taking apart undoes putting together
(`unpack_pack`), the bits of a double stand for it (`of_ofBits`), and changing the sign changes nothing else
(`of_neg`).
-/
namespace VectorGraph

open Float.Model

namespace FloatView

/-! ## Bits -/

/-- How a sign, an exponent that is not the greatest and a fraction are read. -/
theorem ofBits_parts {s w v : Nat} (hs : s < 2) (hw : w < 2047) (hv : v < 2 ^ 52) :
    ofBits (s * 2 ^ 63 + w * 2 ^ 52 + v) =
      if w = 0 then .finite ⟨s == 1, v, -1074⟩ else .finite ⟨s == 1, 2 ^ 52 + v, (w : Int) - 1075⟩ := by
  have field : (s * 2 ^ 63 + w * 2 ^ 52 + v) / 2 ^ 52 % 2 ^ 11 = w := by omega
  have fraction : (s * 2 ^ 63 + w * 2 ^ 52 + v) % 2 ^ 52 = v := by omega
  have front : (s * 2 ^ 63 + w * 2 ^ 52 + v) / 2 ^ 63 % 2 = s := by omega
  generalize s * 2 ^ 63 + w * 2 ^ 52 + v = n at *
  simp only [ofBits, Nat.pow_eq, field, fraction, front]
  rw [if_neg (by omega)]

/-- The bits of a finite double are read as this double. -/
theorem ofBits_bits {b : Binary} (proper : IsDouble b.mantissa b.exponent) : ofBits (bits (.finite b)) = .finite b := by
  obtain ⟨negative, m, e⟩ := b
  obtain ⟨small, full, least, most⟩ := proper
  dsimp only at small full least most
  have sign : negative.toNat < 2 := Bool.toNat_lt negative
  have read : (negative.toNat == 1) = negative := by cases negative <;> rfl
  by_cases short : m < 2 ^ 52
  · obtain rfl : e = -1074 := full.resolve_left (by omega)
    have parts : bits (.finite ⟨negative, m, -1074⟩) = negative.toNat * 2 ^ 63 + 0 * 2 ^ 52 + m := by
      simp only [bits]
      rw [if_pos short]
      omega
    rw [parts, ofBits_parts sign (by decide) short, if_pos rfl, read]
  · have parts : bits (.finite ⟨negative, m, e⟩) =
        negative.toNat * 2 ^ 63 + (e + 1075).toNat * 2 ^ 52 + (m - 2 ^ 52) := by
      simp only [bits]
      rw [if_neg short]
      omega
    have mantissa : 2 ^ 52 + (m - 2 ^ 52) = m := by omega
    have exponent : ((e + 1075).toNat : Int) - 1075 = e := by omega
    rw [parts, ofBits_parts sign (by omega) (by omega), if_neg (by omega), read, mantissa, exponent]

/-! ## Packing -/

theorem toNat_packComponents (s : UnpackedFloat.Sign) (w : BitVec 11) (v : BitVec 52) :
    (UnpackedFloat.packComponents Format.binary64 s w v).toNat =
      (isMinus s).toNat * 2 ^ 63 + w.toNat * 2 ^ 52 + v.toNat := by
  have sign : s.toBitVec.toNat = (isMinus s).toNat := by cases s <;> rfl
  rw [UnpackedFloat.packComponents, BitVec.toNat_append, BitVec.toNat_append,
    ← Nat.shiftLeft_add_eq_or_of_lt w.isLt, ← Nat.shiftLeft_add_eq_or_of_lt v.isLt, Nat.shiftLeft_eq,
    Nat.shiftLeft_eq, sign]
  omega

/-- The bits that a finite double is put together to. -/
theorem toNat_pack {p : UnpackedFloat} {b : Binary} (h : ofParts p = .finite b)
    (proper : IsDouble b.mantissa b.exponent) :
    (UnpackedFloat.pack Format.binary64 p).toNat = bits (.finite b) := by
  cases p with
  | notANumber | infinity s => cases h
  | zero s =>
    obtain rfl := FloatView.finite.inj h
    rw [UnpackedFloat.pack, UnpackedFloat.packedZero, toNat_packComponents]
    simp [bits]
  | finite s m e pos =>
    obtain rfl := FloatView.finite.inj h
    obtain ⟨small, full, least, most⟩ := proper
    dsimp only at small full least most
    have bias : Format.binary64.exponentBias = 1023 := by decide
    have length : Format.binary64.mantissaBits = 53 := by decide
    simp only [UnpackedFloat.pack, bias, length, bits]
    rw [if_neg (by simp; omega)]
    by_cases short : m < 2 ^ 52
    · have log := (Nat.log2_lt pos.ne').mpr short
      rw [if_neg (by omega), if_pos short, toNat_packComponents, BitVec.toNat_ofNat, BitVec.toNat_ofNat,
        Nat.mod_eq_of_lt short]
      omega
    · have log := (Nat.le_log2 pos.ne').mpr (Nat.not_lt.mp short)
      have log' := (Nat.log2_lt pos.ne').mpr small
      have field : (e + (1023 : Nat) + (52 : Nat)).toNat = (e + 1075).toNat := by omega
      rw [if_pos (by omega), if_neg short, toNat_packComponents, field, BitVec.toNat_ofNat, BitVec.toNat_ofNat]
      omega

theorem ofBits_pack {p : UnpackedFloat} {b : Binary} (h : ofParts p = .finite b)
    (proper : IsDouble b.mantissa b.exponent) : ofBits (UnpackedFloat.pack Format.binary64 p).toNat = .finite b := by
  rw [toNat_pack h proper, ofBits_bits proper]

/-- What is taken apart can be told from its view. -/
theorem ofParts_injective : Function.Injective ofParts := by
  have signs : Function.Injective isMinus := by
    intro s s'
    cases s <;> cases s' <;> simp [isMinus]
  intro p q h
  cases p <;> cases q <;> simp only [ofParts, reduceCtorEq, finite.injEq, infinite.injEq, Binary.mk.injEq] at h
  · rw [signs h]
  · rfl
  · rw [signs h.1]
  · next pos => exact absurd h.2.1.symm pos.ne'
  · next pos _ => exact absurd h.2.1 pos.ne'
  · obtain ⟨sign, rfl, rfl⟩ := h
    rw [signs sign]

/-- Taking apart undoes putting together. -/
theorem unpack_pack {p : UnpackedFloat} {b : Binary} (h : ofParts p = .finite b)
    (proper : IsDouble b.mantissa b.exponent) : (Float.Model.pack p).unpack = p := by
  refine ofParts_injective ?_
  rw [Float.Model.unpack, ← ofBits_eq_ofParts, h]
  exact ofBits_pack h proper

/-- A double that is put together is read as its parts. -/
theorem of_pack {p : UnpackedFloat} {b : Binary} (h : ofParts p = .finite b)
    (proper : IsDouble b.mantissa b.exponent) : of (.ofModel (.pack p)) = .finite b := ofBits_pack h proper

/-- The bits of a finite double stand for it. -/
theorem of_ofBits {n : UInt64} {b : Binary} (h : ofBits n.toNat = .finite b) : of (Float.ofBits n) = .finite b := by
  have proper := isDouble_ofBits h
  have parts : ofBits n.toBitVec.toNat = .finite b := h
  rw [ofBits_eq_ofParts] at parts
  exact of_pack parts proper

/-- Of a negated double the sign is the other one, and all else the same. -/
theorem of_neg {x : Float} {b : Binary} (h : of x = .finite b) :
    of (-x) = .finite ⟨!b.negative, b.mantissa, b.exponent⟩ := by
  have proper := isDouble_of h
  rw [of_eq_ofParts] at h
  have turned : ofParts x.toModel.unpack.neg = .finite ⟨!b.negative, b.mantissa, b.exponent⟩ := by
    cases px : x.toModel.unpack with
    | notANumber | infinity s =>
      rw [px] at h
      cases h
    | zero s | finite s m e pos =>
      rw [px] at h
      obtain rfl := FloatView.finite.inj h
      cases s <;> rfl
  exact of_pack turned proper

end FloatView

end VectorGraph
