import Mathlib.Data.List.Basic

/-!
# Memory of a user program

What the functions of the user library work on: memory from a pointer on, and strings that end at their
first NUL.
-/

namespace Xv7.Ulib

/-- The memory from a pointer on. -/
abbrev Buffer := ℕ → UInt8

/-- The bytes of a string before its NUL. -/
abbrev CString := { l : List UInt8 // 0 ∉ l }

/-- A character. -/
abbrev byte (c : Char) : UInt8 := c.toUInt8

end Xv7.Ulib
