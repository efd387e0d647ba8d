import DocQuery.Journal
import DocQuery.Number.Wire
import DocQuery.Tree.Same
import DocQuery.Main
import DocQuery.Proofs.Number.Order
import DocQuery.Proofs.Grammar.Exact
import DocQuery.Proofs.Layout.RoundTrip
import DocQuery.Obfuscation.Session
import DocQuery.Proofs.Obfuscation.Leaves
import DocQuery.Proofs.Obfuscation.Shape
import DocQuery.Proofs.Obfuscation.Ledger
import DocQuery.Proofs.Obfuscation.Pass
import DocQuery.Proofs.Obfuscation.WellFormed
import DocQuery.Proofs.Obfuscation.Session
import DocQuery.Proofs.Obfuscation.Numbering
import DocQuery.Proofs.Obfuscation.Pattern
import DocQuery.Proofs.Number.Bounds
import DocQuery.Proofs.Number.Logarithm
import DocQuery.Proofs.Obfuscation.Cents
import DocQuery.Proofs.Obfuscation.Jitter
import DocQuery.Proofs.Obfuscation.ReadBack
import DocQuery.Proofs.Number.NormalForm
import DocQuery.Proofs.Digest.Parts
import DocQuery.Proofs.Digest.Same
import DocQuery.Proofs.Digest.Reordered
import DocQuery.Proofs.Number.Wide
import DocQuery.Proofs.Number.Wire
import DocQuery.Proofs.Grammar.Depth
import DocQuery.Proofs.Grammar.FirstError
import DocQuery.Proofs.Grammar.Orderly
import DocQuery.Proofs.Grammar.OrderlyQuery
import DocQuery.Proofs.Grammar.Limit
import DocQuery.Proofs.Grammar.Requests
import DocQuery.Proofs.Token.Rendering
import DocQuery.Proofs.Token.Places
import DocQuery.Proofs.Grammar.Settles
import DocQuery.Proofs.Layout.Minimal
import DocQuery.Proofs.Layout.SignedTree
import DocQuery.Proofs.Grammar.Balanced
import DocQuery.Proofs.Grammar.BalancedQuery
import DocQuery.Proofs.Number.Error
import DocQuery.Proofs.Number.PowerOfTen
import DocQuery.Proofs.Obfuscation.CentsError
import DocQuery.Proofs.Obfuscation.EqualNumbers
import DocQuery.Proofs.Obfuscation.HiddenNumbers
import DocQuery.Proofs.Token.Strings
import DocQuery.Proofs.Digest.LastPart
import DocQuery.Proofs.Token.Numbers
import DocQuery.Proofs.Obfuscation.Signs
