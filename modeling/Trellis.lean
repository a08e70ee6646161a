import Trellis.Graph.Document
import Trellis.Tokenizer.Character
import Trellis.Tokenizer.Pieces
import Trellis.Wire.Document
import Trellis.Generator
import Trellis.Defaults.Store
import Trellis.Proofs.Tree.Decoding
import Trellis.Proofs.Tree.Ranking
import Trellis.Proofs.Wire.Document
import Trellis.Proofs.Compile.Reload
import Trellis.Proofs.Json.Nesting
import Trellis.Proofs.Tree.Reading
import Trellis.Proofs.Tree.Ignored
import Trellis.Proofs.Tree.RoundTrip
import Trellis.Proofs.Mask.SingleChar
import Trellis.Proofs.Graph.Document
import Trellis.Proofs.Generator.Echo
import Trellis.Proofs.Compile.Calls
import Trellis.Proofs.Tree.Allowed
import Trellis.Proofs.Wire.Loading
import Trellis.Proofs.Generator.Failures
import Trellis.Proofs.Tree.WholePath
import Trellis.Proofs.Compile.Filling
import Trellis.Proofs.Compile.Normalizing
import Trellis.Proofs.Graph.Pushing
import Trellis.Proofs.Compile.Reordering
import Trellis.Proofs.Graph.Edits
import Trellis.Proofs.Mask.Inclusion
import Trellis.Proofs.Tree.Merging
import Trellis.Proofs.Tree.Pruning
import Trellis.Proofs.Tree.Figures
import Trellis.Proofs.Tree.Guard
import Trellis.Proofs.Wire.Precedence
import Trellis.Proofs.Compile.References
import Trellis.Proofs.Mask.Logits
import Trellis.Proofs.Json.Depth
import Trellis.Proofs.Graph.Tags
import Trellis.Proofs.Defaults.History
