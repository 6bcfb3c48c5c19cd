import CssLex.Main
import CssLex.Proofs.CommandLine.Input
import CssLex.Proofs.CommandLine.Listing
import CssLex.Proofs.Config.Governing
import CssLex.Proofs.Production.Escape
import CssLex.Proofs.Production.Identifier
import CssLex.Proofs.Production.Longest
import CssLex.Proofs.Production.Lookahead
import CssLex.Proofs.Scanner.Steady
import CssLex.Proofs.Scanner.Supply
import CssLex.Proofs.Serialize.Context
import CssLex.Proofs.Serialize.Single
import CssLex.Proofs.Serialize.Unescaped
import CssLex.Proofs.Serialize.Unit
import CssLex.Proofs.Source.Sharing
import CssLex.Proofs.Token.Shape
import CssLex.Proofs.Tokenizer.Adjacency
import CssLex.Proofs.Tokenizer.Finality
import CssLex.Proofs.Tokenizer.First
import CssLex.Proofs.Tokenizer.Limit
import CssLex.Proofs.Tokenizer.Normalized
import CssLex.Proofs.Tokenizer.Numbers
import CssLex.Proofs.Tokenizer.Reached
import CssLex.Proofs.Tokenizer.Resumption
import CssLex.Proofs.Tokenizer.Shape
