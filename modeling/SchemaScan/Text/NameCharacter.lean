import SchemaScan.Text.NameRanges

/-! # Characters of names

A name starts with a letter or an underscore and goes on with letters, digits, combining marks and
underscores, all in the sense of Unicode. Every character that can start a name can continue one.
-/
namespace SchemaScan

/-- The character can start a name: a letter of any script, or an underscore. -/
def isNameStart (c : Char) : Bool :=
  c.isAlpha || c = '_' || (0x80 ≤ c.toNat && nameStartRanges.contains c)

/-- The character can stand in a name after its start. -/
def isNameContinue (c : Char) : Bool :=
  isNameStart c || c.isDigit || (0x80 ≤ c.toNat && nameContinueRanges.contains c)

theorem isNameContinue_of_isNameStart {c : Char} (h : isNameStart c = true) :
    isNameContinue c = true := by
  simp [isNameContinue, h]

/-- Below U+0080 a name is made of letters, digits and underscores. -/
theorem isNameContinue_ascii {c : Char} (h : c.toNat < 0x80) :
    isNameContinue c = (c.isAlpha || c = '_' || c.isDigit) := by
  have : ¬ 0x80 ≤ c.toNat := by omega
  simp [isNameContinue, isNameStart, this]

end SchemaScan
