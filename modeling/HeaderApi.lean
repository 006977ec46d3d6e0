import HeaderApi.Files.FileTree
import HeaderApi.Main
import HeaderApi.Pattern.Match
import HeaderApi.Proofs.Batch
import HeaderApi.Proofs.Code.Normal
import HeaderApi.Proofs.Comment.Lexing
import HeaderApi.Proofs.Declaration.Constants
import HeaderApi.Proofs.Declaration.ParameterList
import HeaderApi.Proofs.Declaration.TypeOrder
import HeaderApi.Proofs.Docstring.Fields
import HeaderApi.Proofs.Docstring.Interleaving
import HeaderApi.Proofs.Header.RoundTrip
import HeaderApi.Proofs.Json.Model
import HeaderApi.Proofs.Module.Accounting
import HeaderApi.Proofs.Module.Consistent
import HeaderApi.Proofs.Module.Dependence
import HeaderApi.Proofs.Module.DocBlocks
import HeaderApi.Proofs.Module.Failure
import HeaderApi.Proofs.Module.Insertion
import HeaderApi.Proofs.Module.LineEnds
import HeaderApi.Proofs.Module.Prefix
import HeaderApi.Proofs.Module.Reports
import HeaderApi.Proofs.Module.Signatures
import HeaderApi.Proofs.Module.Slots
import HeaderApi.Proofs.Module.Types
