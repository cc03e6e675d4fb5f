import SchemaBridge.Main
import SchemaBridge.Proofs.Plan.Realisation
import SchemaBridge.Proofs.Plan.Executable
import SchemaBridge.Proofs.Output.RoundTrip
import SchemaBridge.Proofs.Grammar.Recognition
import SchemaBridge.Proofs.Statement.Squash
import SchemaBridge.Proofs.Statement.Undo
import SchemaBridge.Proofs.Statement.Extent
import SchemaBridge.Proofs.Schema.History
import SchemaBridge.Proofs.Output.FileOrder
import SchemaBridge.Proofs.Diagram.Lexer
import SchemaBridge.Proofs.Diagram.RoundTrip
import SchemaBridge.Proofs.Schema.Deferral
import SchemaBridge.Proofs.Plan.KeyNames
import SchemaBridge.Proofs.Plan.TableNames
import SchemaBridge.Proofs.Output.Relationships
import SchemaBridge.Proofs.Schema.Depth
import SchemaBridge.Proofs.Schema.DeferralChoice
import SchemaBridge.Proofs.Statement.DroppedKeys
import SchemaBridge.Proofs.Grammar.Position
import SchemaBridge.Proofs.Statement.Limits
import SchemaBridge.Proofs.Grammar.Precedence
import SchemaBridge.Proofs.Diagram.Notation
import SchemaBridge.Proofs.Statement.Trivia
import SchemaBridge.Proofs.Schema.Declaration
import SchemaBridge.Proofs.Naming.Plural
import SchemaBridge.Proofs.Grammar.Rounds
import SchemaBridge.Proofs.Statement.Caret
import SchemaBridge.Proofs.Statement.Account
