import VectorGraph.Number.Text
import VectorGraph.Json.Parser
import VectorGraph.Json.Canonical
import VectorGraph.Graph.Reach
import VectorGraph.Graph.Document
import VectorGraph.Fragment
import VectorGraph.Picture.DataUri
import VectorGraph.Picture.LayerBlur
import VectorGraph.Picture.Polar
import VectorGraph.Picture.Buffer
import VectorGraph.Contour.Trace
import VectorGraph.Wave.Field
import VectorGraph.Outline.Points
import VectorGraph.Outline.Primitive
import VectorGraph.Operator.Registry
import VectorGraph.Markup.Numbering
import VectorGraph.Settings.File
import VectorGraph.Text.Lines
import VectorGraph.Cache.Desk
import VectorGraph.Engine.Studio
import VectorGraph.Proofs.Engine.Labels
import VectorGraph.Proofs.Engine.Meaning
import VectorGraph.Proofs.Engine.Closed
import VectorGraph.Proofs.Graph.Cycles
import VectorGraph.Proofs.Contour.Marching
import VectorGraph.Proofs.Contour.Outline
import VectorGraph.Proofs.Contour.Winding
import VectorGraph.Proofs.Contour.Covering
import VectorGraph.Proofs.Contour.Vertices
import VectorGraph.Proofs.Engine.Missing
import VectorGraph.Proofs.Engine.Replaced
import VectorGraph.Proofs.Cache.Desk
import VectorGraph.Proofs.Cache.Sharing
import VectorGraph.Proofs.Cache.Removal
import VectorGraph.Proofs.Engine.Modes
import VectorGraph.Proofs.Engine.Kept
import VectorGraph.Proofs.Engine.Served
import VectorGraph.Proofs.Engine.Offered
import VectorGraph.Proofs.Engine.Overlap
import VectorGraph.Proofs.Engine.Latest
import VectorGraph.Proofs.Engine.Edited
import VectorGraph.Proofs.Engine.Invalidated
import VectorGraph.Proofs.Graph.Ancestry
import VectorGraph.Proofs.Engine.Reading
import VectorGraph.Proofs.Engine.Locality
import VectorGraph.Proofs.Markup.Numbered
import VectorGraph.Proofs.Engine.Meanwhile
import VectorGraph.Proofs.Number.Held
import VectorGraph.Proofs.Params.Refused
import VectorGraph.Proofs.Operator.Refused
import VectorGraph.Proofs.Outline.Held
import VectorGraph.Proofs.Engine.Refused
import VectorGraph.Proofs.Engine.Superseded
import VectorGraph.Proofs.Graph.Edits
import VectorGraph.Proofs.Graph.Acceptance
import VectorGraph.Proofs.Graph.Reload
import VectorGraph.Proofs.Picture.Conduct
import VectorGraph.Proofs.Operator.Fallback
import VectorGraph.Proofs.Engine.Contained
import VectorGraph.Proofs.Engine.Remembered
import VectorGraph.Proofs.Graph.Reachability
import VectorGraph.Proofs.Cache.Recency
import VectorGraph.Proofs.Number.Decimals
import VectorGraph.Proofs.Json.Canonical
import VectorGraph.Proofs.Digest.Images
import VectorGraph.Proofs.Markup.Forest
import VectorGraph.Proofs.Markup.Rewriting
import VectorGraph.Proofs.Operator.Brush
import VectorGraph.Proofs.Picture.DataUri
import VectorGraph.Proofs.Operator.Image
import VectorGraph.Proofs.Outline.Smooth
import VectorGraph.Proofs.Operator.Pen
import VectorGraph.Proofs.Operator.Stops
import VectorGraph.Proofs.Wave.Monotone
import VectorGraph.Proofs.Wave.Mulberry
import VectorGraph.Proofs.Picture.LayerBlur
import VectorGraph.Proofs.Number.Coordinate
import VectorGraph.Proofs.Operator.Union
import VectorGraph.Proofs.Settings.File
