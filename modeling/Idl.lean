import Idl.Main
import Idl.Proofs.Binding.Again
import Idl.Proofs.Binding.Later
import Idl.Proofs.Cache.Clients
import Idl.Proofs.Const.Exact
import Idl.Proofs.Grammar.TypeText
import Idl.Proofs.Inclusion.Unit
import Idl.Proofs.Layout.Bitset
import Idl.Proofs.Layout.Chains
import Idl.Proofs.Layout.Constants
import Idl.Proofs.Layout.Document
import Idl.Proofs.Layout.Names
import Idl.Proofs.Layout.Reopen
import Idl.Proofs.Layout.Totals
import Idl.Proofs.Layout.Written
import Idl.Proofs.Lockstep.Recovery
import Idl.Proofs.Nesting.Unit
import Idl.Proofs.Progress.Literal
import Idl.Proofs.Rereading.Unit
import Idl.Proofs.Scope.Announced
import Idl.Proofs.Scope.Located
import Idl.Proofs.Scope.Tree
import Idl.Proofs.Spans.Document
import Idl.Proofs.Text.Bundles
import Idl.Proofs.Token.LineEnds
import Idl.Proofs.Token.Reported
import Idl.Proofs.Token.Reread
import Idl.Proofs.Token.Spaced
import Idl.Proofs.Token.Tiling
