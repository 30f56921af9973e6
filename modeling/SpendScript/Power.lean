/-! # Powers

Powers are those of the core library, also in files that import a library with instances of its own. -/

namespace SpendScript

universe u

@[default_instance 20000]
instance (priority := 20000) natPow {α : Type u} [NatPow α] : Pow α Nat := instPowNat

end SpendScript
