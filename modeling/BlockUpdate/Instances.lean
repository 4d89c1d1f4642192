/-!
# Which instances are meant

Powers and sums of numbers and the equality of byte strings are those of the core library, also
where a library with instances of its own for them is imported.
-/

attribute [instance (high)] instPowNat instNatPowNat Zero.ofOfNat0 ByteArray.instDecidableEq

attribute [default_instance 20000] instPowNat
