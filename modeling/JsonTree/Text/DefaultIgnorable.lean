import JsonTree.Text.Ranges

/-!
# Default-ignorable characters

- `Text.isDefaultIgnorable`: the Unicode property Default_Ignorable_Code_Point: characters that
  leave nothing to see, such as fillers, joiners and variation selectors, and the code points that
  are reserved for more of them.
-/

namespace JsonTree.Text

/-- The code points with the property Default_Ignorable_Code_Point. -/
def defaultIgnorable : Ranges := [
  (0xad, 0xad), (0x34f, 0x34f), (0x61c, 0x61c), (0x115f, 0x1160), (0x17b4, 0x17b5),
  (0x180b, 0x180f), (0x200b, 0x200f), (0x202a, 0x202e), (0x2060, 0x206f), (0x3164, 0x3164),
  (0xfe00, 0xfe0f), (0xfeff, 0xfeff), (0xffa0, 0xffa0), (0xfff0, 0xfff8), (0x1bca0, 0x1bca3),
  (0x1d173, 0x1d17a), (0xe0000, 0xe0fff)]

/-- The ranges ascend, as a search that stops early needs. -/
theorem defaultIgnorable_ascending : defaultIgnorable.ascending = true := by decide +kernel

/-- Whether a character leaves nothing to see. -/
def isDefaultIgnorable (c : Char) : Bool := defaultIgnorable.contains c.toNat

end JsonTree.Text
