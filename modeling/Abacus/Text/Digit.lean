/-!
# Decimal digits of every script

Unicode gives the decimal digits of each script (general category `Nd`) as runs of ten
consecutive code points, zero to nine. `isDecimalDigit` recognises them from the first code point
of each run, as of Unicode 14.0.

## Main definitions

* `Digit.runStarts` — where each run of ten digits starts.
* `Digit.isDecimalDigit` — whether a character is a decimal digit of some script.
-/

namespace Abacus

namespace Digit

/-- The first code point (the zero) of each run of ten decimal digits. -/
def runStarts : List Nat :=
  [0x0030, 0x0660, 0x06F0, 0x07C0, 0x0966, 0x09E6, 0x0A66, 0x0AE6, 0x0B66, 0x0BE6, 0x0C66,
   0x0CE6, 0x0D66, 0x0DE6, 0x0E50, 0x0ED0, 0x0F20, 0x1040, 0x1090, 0x17E0, 0x1810, 0x1946,
   0x19D0, 0x1A80, 0x1A90, 0x1B50, 0x1BB0, 0x1C40, 0x1C50, 0xA620, 0xA8D0, 0xA900, 0xA9D0,
   0xA9F0, 0xAA50, 0xABF0, 0xFF10, 0x104A0, 0x10D30, 0x11066, 0x110F0, 0x11136, 0x111D0,
   0x112F0, 0x11450, 0x114D0, 0x11650, 0x116C0, 0x11730, 0x118E0, 0x11950, 0x11C50, 0x11D50,
   0x11DA0, 0x16A60, 0x16AC0, 0x16B50, 0x1D7CE, 0x1D7D8, 0x1D7E2, 0x1D7EC, 0x1D7F6,
   0x1E140, 0x1E2F0, 0x1E950, 0x1FBF0]

/-- Whether a character is a decimal digit of some script. -/
def isDecimalDigit (c : Char) : Bool :=
  runStarts.any fun z => z ≤ c.toNat && c.toNat < z + 10

example : isDecimalDigit '7' ∧ isDecimalDigit '٣' ∧ ¬ isDecimalDigit 'x' := by decide

/-- Every ASCII digit is a decimal digit. -/
theorem isDecimalDigit_of_isDigit {c : Char} (h : c.isDigit) : isDecimalDigit c := by
  simp only [Char.isDigit, Bool.and_eq_true, decide_eq_true_eq] at h
  obtain ⟨h1, h2⟩ := h
  have hlow : c.val.toNat ≥ ('0'.val).toNat := UInt32.le_iff_toNat_le.mp h1
  have hhigh : c.val.toNat ≤ ('9'.val).toNat := UInt32.le_iff_toNat_le.mp h2
  have hlow' : 0x0030 ≤ c.toNat := hlow
  have hhigh' : c.toNat < 0x0030 + 10 := Nat.lt_succ_of_le hhigh
  unfold isDecimalDigit runStarts
  rw [List.any_cons]
  simp [hlow', hhigh']

end Digit

end Abacus
