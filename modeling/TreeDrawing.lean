import TreeDrawing.Tree.Pending
import TreeDrawing.Tree.Tally
import TreeDrawing.Tree.Workbench
import TreeDrawing.Text.Occurrences
import TreeDrawing.Dot.Session
import TreeDrawing.Proofs.Text.Cut
import TreeDrawing.Proofs.Decimal.Shortest
import TreeDrawing.Proofs.Dot.Visit
import TreeDrawing.Proofs.Tree.Walk
import TreeDrawing.Proofs.Tree.Visitor
import TreeDrawing.Proofs.Tree.Growth
import TreeDrawing.Proofs.Tree.Pending
import TreeDrawing.Proofs.Dot.Call
import TreeDrawing.Proofs.Dot.Walk
import TreeDrawing.Proofs.Dot.Driven
import TreeDrawing.Proofs.Dot.Label
import TreeDrawing.Proofs.Dot.Decoding
import TreeDrawing.Proofs.Dot.Balanced
import TreeDrawing.Proofs.Dot.Insertion
import TreeDrawing.Proofs.Tree.Place
import TreeDrawing.Proofs.Dot.Edge
import TreeDrawing.Proofs.Dot.Arrow
import TreeDrawing.Proofs.Dot.Quoting
import TreeDrawing.Proofs.Json.Grammar
import TreeDrawing.Proofs.Json.Text
import TreeDrawing.Proofs.Json.Numeral
import TreeDrawing.Proofs.Json.Reader
import TreeDrawing.Proofs.Json.Ending
import TreeDrawing.Proofs.Json.Skip
import TreeDrawing.Proofs.Json.Record
import TreeDrawing.Proofs.Json.Member
import TreeDrawing.Proofs.Tree.Document
import TreeDrawing.Proofs.Json.Depth
import TreeDrawing.Proofs.Json.Writing
import TreeDrawing.Proofs.Dot.Setting
import TreeDrawing.Proofs.Dot.Overlay
import TreeDrawing.Proofs.Tree.Depth
import TreeDrawing.Proofs.Tree.RoundTrip
import TreeDrawing.Proofs.Tree.Distinct
import TreeDrawing.Proofs.Dot.Extent
import TreeDrawing.Proofs.Dot.Descent
import TreeDrawing.Proofs.Dot.Count
import TreeDrawing.Proofs.Dot.Reports
