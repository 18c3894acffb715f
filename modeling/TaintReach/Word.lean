/-! Limits of integers that fit in 64 bits. -/
namespace TaintReach.Word

/-- The first magnitude that a signed integer cannot have, its sign aside. -/
def signedLimit : Nat := 0x8000000000000000

/-- The first magnitude that an unsigned integer cannot have. -/
def unsignedLimit : Nat := 0x10000000000000000

end TaintReach.Word
