import Mathlib.Tactic

/-! The bounds of `Fin` types are not zero, by one named fact for each bound that literals are written in. -/

namespace CourseArchive.Lib

instance (priority := 1100) neZero_succ (n : ℕ) : NeZero (n + 1) := ⟨n.succ_ne_zero⟩

instance (priority := 1200) neZero_one : NeZero 1 := neZero_succ 0

instance (priority := 1200) neZero_two : NeZero 2 := neZero_succ 1

instance (priority := 1200) neZero_three : NeZero 3 := neZero_succ 2

instance (priority := 1200) neZero_thirtyTwo : NeZero 32 := neZero_succ 31

instance (priority := 1200) neZero_sixtyFour : NeZero 64 := neZero_succ 63

end CourseArchive.Lib
