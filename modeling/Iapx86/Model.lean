/-!
# Processor models

The four processors whose machine code is understood. They are ordered from the oldest to the
newest, and a model knows every instruction of the models before it, so `m ≤ n` reads "`n` has at
least the instruction set of `m`".
-/

namespace Iapx86

/-- A processor model, from the oldest to the newest. -/
inductive Model where
  | i8086
  | i80186
  | i80286
  | i80386
  deriving DecidableEq, Repr, Inhabited

namespace Model

/-- The models in the order of their appearance. -/
def all : List Model := [i8086, i80186, i80286, i80386]

/-- The place of a model in the order of appearance. -/
def rank : Model → Nat
  | i8086 => 0
  | i80186 => 1
  | i80286 => 2
  | i80386 => 3

instance : LE Model := ⟨fun m n => m.rank ≤ n.rank⟩

instance : LT Model := ⟨fun m n => m.rank < n.rank⟩

instance (m n : Model) : Decidable (m ≤ n) := inferInstanceAs (Decidable (m.rank ≤ n.rank))

instance (m n : Model) : Decidable (m < n) := inferInstanceAs (Decidable (m.rank < n.rank))

instance : Ord Model := ⟨fun m n => compare m.rank n.rank⟩

theorem le_def (m n : Model) : m ≤ n ↔ m.rank ≤ n.rank := Iff.rfl

theorem le_trans {l m n : Model} (h : l ≤ m) (h' : m ≤ n) : l ≤ n := Nat.le_trans h h'

theorem lt_of_le_of_lt {l m n : Model} (h : l ≤ m) (h' : m < n) : l < n := Nat.lt_of_le_of_lt h h'

theorem not_lt {m n : Model} : ¬ m < n ↔ n ≤ m := Nat.not_lt

theorem not_le {m n : Model} : ¬ m ≤ n ↔ n < m := Nat.not_le

theorem i8086_le (m : Model) : .i8086 ≤ m := Nat.zero_le m.rank

theorem le_i80386 (m : Model) : m ≤ .i80386 := by
  cases m <;> decide

/-- The name of a model, as it is printed. -/
def name : Model → String
  | i8086 => "8086"
  | i80186 => "80186"
  | i80286 => "80286"
  | i80386 => "80386"

instance : ToString Model := ⟨name⟩

end Model

end Iapx86
