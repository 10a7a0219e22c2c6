import StorySuite.Main
import StorySuite.SourceMap.Reading
import StorySuite.Proofs.Patch.Reading
import StorySuite.Proofs.Story.Code
import StorySuite.Proofs.Story.Passes
import StorySuite.Proofs.Story.Names
import StorySuite.Proofs.SourceMap.Trace
import StorySuite.Proofs.SourceMap.Word
import StorySuite.Proofs.SourceMap.Reading
import StorySuite.Proofs.Output.Write
import StorySuite.Proofs.Files.Trail
import StorySuite.Proofs.Files.Without
import StorySuite.Proofs.Files.Removed
import StorySuite.Proofs.Command.Reports
import StorySuite.Proofs.Command.Apart
import StorySuite.Proofs.Command.Again
import StorySuite.Proofs.Module.Reread
import StorySuite.Proofs.Story.Again
import StorySuite.Proofs.Patch.Rendering
import StorySuite.Proofs.Patch.Refusals
import StorySuite.Proofs.Patch.Permuted
import StorySuite.Proofs.SourceMap.Ascending
import StorySuite.Proofs.Files.Listing
import StorySuite.Proofs.Story.Header
import StorySuite.Proofs.Story.Binding
import StorySuite.Proofs.Story.DefaultExport
import StorySuite.Proofs.Glob.Alternatives
import StorySuite.Proofs.Title.Respelled
import StorySuite.Proofs.Story.Wrapped
import StorySuite.Proofs.Story.OwnTitle
import StorySuite.Proofs.Title.Moved
import StorySuite.Proofs.Title.Named
import StorySuite.Proofs.Title.Prefixed
import StorySuite.Proofs.Story.ReadBack
import StorySuite.Proofs.Tree.Order
import StorySuite.Proofs.SourceMap.LineIndex
import StorySuite.Proofs.Glob.Scan
