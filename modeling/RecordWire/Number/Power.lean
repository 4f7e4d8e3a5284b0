/-!
Powers of natural numbers and of integers. They are those of the core library, also where a library
is in scope that has powers of its own, so that a power means the same in every module.
-/

attribute [instance (2000)] instPowNat

attribute [default_instance high] instPowNat
