import DotGraph.Model
import DotGraph.Position
import DotGraph.SyntaxError
import DotGraph.Token.Scan
import DotGraph.Document
import DotGraph.Document.Parser
import DotGraph.Charset
import DotGraph.Text.Visible
import DotGraph.Charset.Codec
import DotGraph.Graph
import DotGraph.Graph.Edit
import DotGraph.Graph.Matrix
import DotGraph.LooseValue
import DotGraph.OutputFormat
import DotGraph.Document.Graphs
import DotGraph.Printer
import DotGraph.Json
import DotGraph.View
import DotGraph.Toml
import DotGraph.Toml.Quoted
import DotGraph.Toml.Parser
import DotGraph.Drawing
import DotGraph.Settings
import DotGraph.Batch
import DotGraph.Settings.File
import DotGraph.CommandLine.Arguments
import DotGraph.CommandLine
import DotGraph.Main
import DotGraph.Text.Excerpt
import DotGraph.Text.Shortest
import DotGraph.Proofs.AttributeMerge
import DotGraph.Proofs.Containers
import DotGraph.Proofs.Grammar
import DotGraph.Proofs.GrammarSound
import DotGraph.Proofs.GrammarComplete
import DotGraph.Proofs.Words
import DotGraph.Proofs.Reading
import DotGraph.Proofs.CanonicalIdent
import DotGraph.Proofs.CanonicalGraph
import DotGraph.Proofs.Layout
import DotGraph.Proofs.PrintedText
import DotGraph.Proofs.PrintedGraph
import DotGraph.Proofs.Settled
import DotGraph.Proofs.Rebuild
import DotGraph.Proofs.DocumentIdents
import DotGraph.Proofs.ParsedGraph
import DotGraph.Proofs.RoundTrip
import DotGraph.Proofs.Utf8
import DotGraph.Proofs.Utf8Sequences
import DotGraph.Proofs.Misread
import DotGraph.Proofs.MisreadWords
import DotGraph.Proofs.Braces
import DotGraph.Proofs.MisreadGraph
import DotGraph.Proofs.StoredGraphs
import DotGraph.Proofs.WrittenFile
import DotGraph.Proofs.FormatInPlace
import DotGraph.Proofs.WrittenIdent
import DotGraph.Proofs.QuotedText
import DotGraph.Proofs.WellFormedGraph
import DotGraph.Proofs.Materialize
import DotGraph.Proofs.StrictEdges
import DotGraph.Proofs.Deletion
import DotGraph.Proofs.Notation
import DotGraph.Proofs.StrictText
import DotGraph.Proofs.DeclaredCharset
import DotGraph.Proofs.CharsetCodec
import DotGraph.Proofs.Concatenation
import DotGraph.Proofs.Coverage
import DotGraph.Proofs.SourcePlaces
import DotGraph.Proofs.BuiltGraph
import DotGraph.Proofs.Simplified
import DotGraph.Proofs.ListKeywords
import DotGraph.Proofs.PlainName
import DotGraph.Proofs.PlainText
import DotGraph.Proofs.SortedAttributes
import DotGraph.Proofs.MergedEdges
import DotGraph.Proofs.SortedGraph
import DotGraph.Proofs.SortedText
import DotGraph.Proofs.SpelledTokens
import DotGraph.Proofs.RepeatedEdges
import DotGraph.Proofs.DocumentBlocks
import DotGraph.Proofs.DrawnEdges
import DotGraph.Proofs.StyleList
import DotGraph.Proofs.AdjacencyMatrix
import DotGraph.Proofs.IncidenceMatrix
import DotGraph.Proofs.GroupedView
import DotGraph.Proofs.ReplacedFiles
import DotGraph.Proofs.BatchOrder
import DotGraph.Proofs.DrawnFile
import DotGraph.Proofs.AttributeLists
import DotGraph.Proofs.Attempt
import DotGraph.Proofs.OffsetScan
import DotGraph.Proofs.IndexedParser
import DotGraph.Proofs.IndexedReading
import DotGraph.Proofs.IndexedGraphs
import DotGraph.Proofs.ParserProgress
