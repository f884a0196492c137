import Proviso.Ledger.Lookup
import Proviso.Main
import Proviso.Proofs.Lines
import Proviso.Proofs.Tokens
import Proviso.Proofs.Indentation
import Proviso.Proofs.Loading
import Proviso.Proofs.Drafts
import Proviso.Proofs.Saving
import Proviso.Proofs.Canonical
import Proviso.Proofs.Formatting
import Proviso.Proofs.Sessions
import Proviso.Proofs.Leaves
import Proviso.Proofs.ShortCircuit
import Proviso.Proofs.Literals
import Proviso.Proofs.Grammar
import Proviso.Proofs.Applying
import Proviso.Proofs.Quoting
import Proviso.Proofs.Reporting
import Proviso.Proofs.Usage
import Proviso.Proofs.Courses
import Proviso.Proofs.Endings
import Proviso.Proofs.Dependence
import Proviso.Proofs.Duality
import Proviso.Proofs.Layouts
import Proviso.Proofs.Nearest
import Proviso.Proofs.Rounding
import Proviso.Proofs.Operands
import Proviso.Proofs.Clamping
import Proviso.Proofs.Files
import Proviso.Proofs.Concatenation
import Proviso.Proofs.Printing
import Proviso.Proofs.Verdicts
import Proviso.Proofs.Listing
import Proviso.Proofs.Precedence
import Proviso.Proofs.Spellings
import Proviso.Proofs.Flags
import Proviso.Proofs.Seeding
import Proviso.Proofs.Assigning
import Proviso.Proofs.Blocks
import Proviso.Proofs.Traces
import Proviso.Proofs.Contract
