import JavaRefit.Attribution.Unit
import JavaRefit.CatchRule.Retarget
import JavaRefit.ClassPath.Builtin
import JavaRefit.ClassPath.Stub
import JavaRefit.CommandLine.Batch
import JavaRefit.Import.Delta
import JavaRefit.Json.Literal
import JavaRefit.Json.Reader
import JavaRefit.Json.Writer
import JavaRefit.MethodPattern.Basic
import JavaRefit.Parser.Unit
import JavaRefit.Recipe
import JavaRefit.Rename
import JavaRefit.Tree.Walk
import JavaRefit.Main
import JavaRefit.Proofs.Grammar.Language
import JavaRefit.Proofs.Grammar.Respaced
import JavaRefit.Proofs.Grammar.FirstFault
import JavaRefit.Proofs.Attribution.Blank
import JavaRefit.Proofs.Tree.BlankWalk
import JavaRefit.Proofs.Tree.BlankEdit
import JavaRefit.Proofs.Rename.Blank
import JavaRefit.Proofs.Import.Blank
import JavaRefit.Proofs.CatchRule.Blank
import JavaRefit.Proofs.CatchRule.Formatting
import JavaRefit.Proofs.Reading.Unit
import JavaRefit.Proofs.CatchRule.Dispatch
import JavaRefit.Proofs.CatchRule.Legal
import JavaRefit.Proofs.CatchRule.Remainder
import JavaRefit.Proofs.CatchRule.Reread
import JavaRefit.Proofs.Grammar.Preferred
import JavaRefit.Proofs.CommandLine.Ending
import JavaRefit.Proofs.CatchRule.Comments
import JavaRefit.Proofs.Attribution.Total
import JavaRefit.Proofs.Grammar.PlacedUnit
import JavaRefit.Proofs.Attribution.Lexical
import JavaRefit.Proofs.CommandLine.Text
import JavaRefit.Proofs.ClassPath.Lookup
import JavaRefit.Proofs.MethodPattern.Meaning
import JavaRefit.Proofs.CatchRule.Inserted
import JavaRefit.Proofs.Import.Again
import JavaRefit.Proofs.Rename.Consistent
import JavaRefit.Proofs.Rename.References
import JavaRefit.Proofs.CatchRule.Variable
import JavaRefit.Proofs.CatchRule.Gate
import JavaRefit.Proofs.Import.Ordered
import JavaRefit.Proofs.ClassPath.Document
import JavaRefit.Proofs.CatchRule.Changed
import JavaRefit.Proofs.CatchRule.Settled
