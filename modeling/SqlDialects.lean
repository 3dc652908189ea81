import SqlDialects.Json.Printer
import SqlDialects.Proofs.Json.Trees
import SqlDialects.Proofs.Lexer.Numerals
import SqlDialects.Proofs.Lexer.Strings
import SqlDialects.Proofs.Lexer.Tiling
import SqlDialects.Proofs.Parser.Chains
import SqlDialects.Proofs.Parser.Visible
import SqlDialects.Proofs.Render.Refused
import SqlDialects.Proofs.Render.Tokens
import SqlDialects.Proofs.RoundTrip.CastTypes
import SqlDialects.Proofs.RoundTrip.DoubleQuotes
import SqlDialects.Proofs.RoundTrip.Minimal
import SqlDialects.Statement
import SqlDialects.Tree.Build
