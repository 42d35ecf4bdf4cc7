/-! The sizes of machine words, and sums of what is counted in them. Counts and ids are meant to
stay below `wordSize`, and so are their sums. They are naturals here and go on where a word would
overflow, which takes a peer that forges its counts. The order of calls and messages does not depend
on these values. -/

namespace MeshNumbering

/-- One more than the largest word of 64 bits. -/
def wordSize : Nat := 0x10000000000000000

def halfWordSize : Nat := 0x100000000

def sum (l : List Nat) : Nat := l.foldr (· + ·) 0

end MeshNumbering
