import HostScript.Lab.Dialect
import HostScript.Lab.Host
import HostScript.Main
import HostScript.Outline.Typed
import HostScript.Proofs.Analysis.Agreement
import HostScript.Proofs.Analysis.Persistent
import HostScript.Proofs.Analysis.Scoping
import HostScript.Proofs.Emission.Tenancy
import HostScript.Proofs.Grammar.Faults
import HostScript.Proofs.Machine.Constants
import HostScript.Proofs.Machine.Elements
import HostScript.Proofs.Machine.Handling
import HostScript.Proofs.Machine.Limit
import HostScript.Proofs.Member.Compatible
import HostScript.Proofs.Member.Hierarchy
import HostScript.Proofs.Persistence.Invocation
import HostScript.Proofs.Scope.Lifecycle
import HostScript.Proofs.Scope.Rendering
import HostScript.Proofs.Store.Dumps
import HostScript.Proofs.Store.Refinement
import HostScript.Proofs.Token.Names
import HostScript.Proofs.Token.Tiling
import HostScript.Proofs.Typing.Exact
import HostScript.Proofs.Value.Comparison
import HostScript.Proofs.Verification
