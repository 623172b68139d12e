/-!
# Powers of numbers

A power of natural numbers or integers can be read through more than one instance once the algebraic
hierarchy is in sight. Inside this library it is always the one of the number type itself, so that a
definition and a statement about it speak of the same term.
-/

namespace FlowGate

attribute [scoped instance (2000)] instPowNat

attribute [default_instance 20000] instPowNat

end FlowGate
