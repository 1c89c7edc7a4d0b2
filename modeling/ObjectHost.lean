import ObjectHost.Main
import ObjectHost.Proofs.Class.Declaration
import ObjectHost.Proofs.Host.Attributes
import ObjectHost.Proofs.Import.Resolution
import ObjectHost.Proofs.Module.Balance
import ObjectHost.Proofs.Module.Policy
import ObjectHost.Proofs.Path.Layout
import ObjectHost.Script.Interpreter
import ObjectHost.Script.Reader
import ObjectHost.Proofs.Name.Packages
import ObjectHost.Proofs.Name.Registration
import ObjectHost.Proofs.Host.Catching
import ObjectHost.Proofs.Host.Instantiation
import ObjectHost.Proofs.Path.Spelling
import ObjectHost.Proofs.CommandLine.ModuleName
import ObjectHost.Proofs.CommandLine.Resolve
import ObjectHost.Proofs.CommandLine.Arguments
import ObjectHost.Proofs.Host.Holding
import ObjectHost.Proofs.Host.Identity
import ObjectHost.Proofs.Machine.Operation
import ObjectHost.Proofs.Host.Honesty
import ObjectHost.Proofs.Host.Raising
