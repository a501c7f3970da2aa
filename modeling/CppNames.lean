import CppNames.Options.Read
import CppNames.Session.Basic
import CppNames.Table.Dump
import CppNames.Text.LineMap
import CppNames.Token.Label
import CppNames.Token.Stream
import CppNames.Tree.Brackets
import CppNames.Tree.Writer
import CppNames.Proofs.Lookup.Qualified
import CppNames.Proofs.Lookup.Outward
import CppNames.Proofs.Lookup.Agreement
import CppNames.Proofs.Lookup.Composition
import CppNames.Proofs.Lookup.Depth
import CppNames.Proofs.Unit.Analyze
import CppNames.Proofs.Unit.Report
import CppNames.Proofs.Unit.RoundTrip
import CppNames.Proofs.Table.Redeclaration
import CppNames.Proofs.Binding.Rebind
import CppNames.Proofs.Binding.Reopened
import CppNames.Proofs.Encoding.Render
import CppNames.Proofs.Call.Equivalent
import CppNames.Proofs.Constant.Meaning
import CppNames.Proofs.Carried.Length
import CppNames.Proofs.Nesting.Declaration
import CppNames.Proofs.Running.Parse
import CppNames.Proofs.Grammar.Binary
import CppNames.Proofs.Tree.Origin
import CppNames.Proofs.Token.Stream
import CppNames.Proofs.Table.Representative
import CppNames.Proofs.Binding.Stable
import CppNames.Proofs.Binding.Native
import CppNames.Proofs.Tree.Apart
import CppNames.Proofs.Tree.Place
import CppNames.Proofs.Reference.Part
import CppNames.Proofs.Reference.Operand
import CppNames.Proofs.Reference.Body
import CppNames.Proofs.Reference.Refine
import CppNames.Proofs.Session.Texts
import CppNames.Proofs.Unit.Outside
import CppNames.Proofs.Binding.LastTree
import CppNames.Proofs.Table.Order
import CppNames.Proofs.Binding.Chain
import CppNames.Proofs.Binding.Conserved
import CppNames.Proofs.Call.Default
import CppNames.Proofs.Binding.Member
import CppNames.Proofs.Binding.Friend
import CppNames.Proofs.Constant.Size
import CppNames.Proofs.Travel.Learned
import CppNames.Proofs.Travel.Ordered
import CppNames.Proofs.Grammar.Builtin
import CppNames.Proofs.Lookup.Frame
import CppNames.Proofs.Text.LineMap
import CppNames.Proofs.Call.Derived
