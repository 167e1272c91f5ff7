import RoadSplice.CommandLine.Arguments
import RoadSplice.CommandLine.Run
import RoadSplice.Decimal.Fixed
import RoadSplice.Decimal.Read
import RoadSplice.Decimal.Shortest
import RoadSplice.Error
import RoadSplice.Fixture.Basic
import RoadSplice.Fixture.Decode
import RoadSplice.Flags.Layout
import RoadSplice.Flags.Property
import RoadSplice.Flags.RoadClass
import RoadSplice.Geo.Angle
import RoadSplice.Geo.Bounds
import RoadSplice.Geo.Distance
import RoadSplice.Geo.Point
import RoadSplice.Geo.Polyline
import RoadSplice.Graph.EdgeView
import RoadSplice.Graph.Network
import RoadSplice.Graph.RoadGraph
import RoadSplice.Graph.TurnTable
import RoadSplice.Hierarchy.Basic
import RoadSplice.Hierarchy.Contract
import RoadSplice.Hierarchy.Edge
import RoadSplice.Hierarchy.Route
import RoadSplice.Hierarchy.View
import RoadSplice.Itinerary.Basic
import RoadSplice.Itinerary.Location
import RoadSplice.Itinerary.Report
import RoadSplice.Itinerary.Trip
import RoadSplice.Json.Decode
import RoadSplice.Json.Document
import RoadSplice.Json.Number
import RoadSplice.Json.Token
import RoadSplice.Json.Tree
import RoadSplice.Main
import RoadSplice.Numeric.Binary64
import RoadSplice.Numeric.Millis
import RoadSplice.Numeric.Scalar
import RoadSplice.Overlay.Basic
import RoadSplice.Overlay.Delta
import RoadSplice.Overlay.Splice
import RoadSplice.Proofs.Fixture.Accepted
import RoadSplice.Proofs.Fixture.Built
import RoadSplice.Proofs.Fixture.Checks
import RoadSplice.Proofs.Fixture.Edits
import RoadSplice.Proofs.Fixture.ReadBack
import RoadSplice.Proofs.Fixture.Regular
import RoadSplice.Proofs.Fixture.Weights
import RoadSplice.Proofs.Flags.Bits
import RoadSplice.Proofs.Flags.Histories
import RoadSplice.Proofs.Flags.Layout
import RoadSplice.Proofs.Flags.Quantised
import RoadSplice.Proofs.Flags.Values
import RoadSplice.Proofs.Geo.Angle
import RoadSplice.Proofs.Geo.Distance
import RoadSplice.Proofs.Graph.Adjacency
import RoadSplice.Proofs.Graph.Built
import RoadSplice.Proofs.Graph.Directions
import RoadSplice.Proofs.Graph.Refused
import RoadSplice.Proofs.Graph.Writes
import RoadSplice.Proofs.Hierarchy.BothEnds
import RoadSplice.Proofs.Hierarchy.Bypass
import RoadSplice.Proofs.Hierarchy.Climb
import RoadSplice.Proofs.Hierarchy.Contract
import RoadSplice.Proofs.Hierarchy.Contracted
import RoadSplice.Proofs.Hierarchy.Hops
import RoadSplice.Proofs.Hierarchy.Ids
import RoadSplice.Proofs.Hierarchy.Listing
import RoadSplice.Proofs.Hierarchy.Meeting
import RoadSplice.Proofs.Hierarchy.Pieces
import RoadSplice.Proofs.Hierarchy.Ranks
import RoadSplice.Proofs.Hierarchy.Roads
import RoadSplice.Proofs.Hierarchy.Route
import RoadSplice.Proofs.Hierarchy.Shortest
import RoadSplice.Proofs.Hierarchy.Table
import RoadSplice.Proofs.Hierarchy.Unpacked
import RoadSplice.Proofs.Hierarchy.UpDown
import RoadSplice.Proofs.Hierarchy.View
import RoadSplice.Proofs.Hierarchy.ViewEdges
import RoadSplice.Proofs.Hierarchy.Witness
import RoadSplice.Proofs.Hierarchy.WitnessRuns
import RoadSplice.Proofs.Hierarchy.Woven
import RoadSplice.Proofs.Itinerary.Continuity
import RoadSplice.Proofs.Itinerary.Eastward
import RoadSplice.Proofs.Itinerary.Independence
import RoadSplice.Proofs.Itinerary.Legs
import RoadSplice.Proofs.Numeric.Exact
import RoadSplice.Proofs.Numeric.Order
import RoadSplice.Proofs.Overlay.Again
import RoadSplice.Proofs.Overlay.Build
import RoadSplice.Proofs.Overlay.Chain
import RoadSplice.Proofs.Overlay.Checked
import RoadSplice.Proofs.Overlay.Computed
import RoadSplice.Proofs.Overlay.Deltas
import RoadSplice.Proofs.Overlay.Ends
import RoadSplice.Proofs.Overlay.Failure
import RoadSplice.Proofs.Overlay.Found
import RoadSplice.Proofs.Overlay.Link
import RoadSplice.Proofs.Overlay.Lookup
import RoadSplice.Proofs.Overlay.Loops
import RoadSplice.Proofs.Overlay.OneRoad
import RoadSplice.Proofs.Overlay.Order
import RoadSplice.Proofs.Overlay.Representation
import RoadSplice.Proofs.Overlay.Requests
import RoadSplice.Proofs.Overlay.Road
import RoadSplice.Proofs.Overlay.Settled
import RoadSplice.Proofs.Overlay.Sides
import RoadSplice.Proofs.Overlay.Stops
import RoadSplice.Proofs.Query.Apart
import RoadSplice.Proofs.Query.Detours
import RoadSplice.Proofs.Query.Edges
import RoadSplice.Proofs.Query.Expand
import RoadSplice.Proofs.Query.Headings
import RoadSplice.Proofs.Query.Lookup
import RoadSplice.Proofs.Query.MarkCalls
import RoadSplice.Proofs.Query.Marked
import RoadSplice.Proofs.Query.Marks
import RoadSplice.Proofs.Query.Mirror
import RoadSplice.Proofs.Query.Offers
import RoadSplice.Proofs.Query.Opened
import RoadSplice.Proofs.Query.Properties
import RoadSplice.Proofs.Query.Rewritten
import RoadSplice.Proofs.Query.Shapes
import RoadSplice.Proofs.Query.Sharing
import RoadSplice.Proofs.Query.Shown
import RoadSplice.Proofs.Query.Spanned
import RoadSplice.Proofs.Query.Tracking
import RoadSplice.Proofs.Query.Turns
import RoadSplice.Proofs.Query.Walks
import RoadSplice.Proofs.Results
import RoadSplice.Proofs.Search.Dijkstra
import RoadSplice.Proofs.Search.Ending
import RoadSplice.Proofs.Search.Followed
import RoadSplice.Proofs.Search.Frontier
import RoadSplice.Proofs.Search.Lines
import RoadSplice.Proofs.Search.Progress
import RoadSplice.Proofs.Search.Turns
import RoadSplice.Proofs.Search.Walk
import RoadSplice.Proofs.Search.Wave
import RoadSplice.Proofs.Snap.Closest
import RoadSplice.Proofs.Snap.Foot
import RoadSplice.Proofs.Snap.Nearest
import RoadSplice.Proofs.Weighting.Speed
import RoadSplice.Query.Basic
import RoadSplice.Query.Heading
import RoadSplice.Query.Layered
import RoadSplice.Search.Dijkstra
import RoadSplice.Search.Frontier
import RoadSplice.Search.Path
import RoadSplice.Snap.Basic
import RoadSplice.Snap.Index
import RoadSplice.Text.Blank
import RoadSplice.Weighting.Basic
import RoadSplice.Weighting.Speed
import RoadSplice.Weighting.Vehicle
import RoadSplice.Workspace
