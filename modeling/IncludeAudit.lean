import IncludeAudit.Path.Normal
import IncludeAudit.Path.Set
import IncludeAudit.Preprocessed.Builder
import IncludeAudit.Json.Record
import IncludeAudit.Command.Arguments
import IncludeAudit.Command.ShellWords
import IncludeAudit.Glob.Pattern
import IncludeAudit.Glob.Expression
import IncludeAudit.Glob.Match
import IncludeAudit.Glob.Scatter
import IncludeAudit.Exclude
import IncludeAudit.Machine
import IncludeAudit.Description
import IncludeAudit.Selection
import IncludeAudit.Overlay
import IncludeAudit.Workspace
import IncludeAudit.Frontend.Clang
import IncludeAudit.Analysis
import IncludeAudit.Config.Document
import IncludeAudit.CommandLine.Outcome
import IncludeAudit.CommandLine.Pool
import IncludeAudit.Main
import IncludeAudit.Proofs.Frontend.Clang
import IncludeAudit.Proofs.Preprocessed.Outline
import IncludeAudit.Proofs.Selection
import IncludeAudit.Proofs.Preprocessed.Builder
import IncludeAudit.Proofs.Preprocessed.Shape
import IncludeAudit.Proofs.Preprocessed.FrameStack
import IncludeAudit.Proofs.Text.Lines
import IncludeAudit.Proofs.Preprocessed.FileName
import IncludeAudit.Proofs.Preprocessed.Line
import IncludeAudit.Proofs.Preprocessed.Render
import IncludeAudit.Proofs.Analysis.Sources
import IncludeAudit.Proofs.Analysis.Requests
import IncludeAudit.Proofs.Database.Filled
import IncludeAudit.Proofs.Database.Source
import IncludeAudit.Proofs.CommandLine.Session
import IncludeAudit.Proofs.CommandLine.Pool
import IncludeAudit.Proofs.CommandLine.Labels
import IncludeAudit.Proofs.CommandLine.Listing
import IncludeAudit.Proofs.Frontend.FilledTree
import IncludeAudit.Proofs.Path.Holds
import IncludeAudit.Proofs.HeaderSearch.Next
import IncludeAudit.Proofs.Frontend.SearchKey
import IncludeAudit.Proofs.Preprocessed.ByteEscape
import IncludeAudit.Proofs.Command.Parts
import IncludeAudit.Proofs.Analysis.Joined
import IncludeAudit.Proofs.HeaderSearch.Order
import IncludeAudit.Proofs.Frontend.Includer
import IncludeAudit.Proofs.Path.Canonical
import IncludeAudit.Proofs.Overlay
import IncludeAudit.Proofs.Frontend.DirectiveOrder
