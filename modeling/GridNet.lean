import GridNet.Scalar.Whole
import GridNet.Json.Reader
import GridNet.Json.Printer
import GridNet.Calibration.Ranges
import GridNet.Cfg.Blueprint
import GridNet.Weights.Listing
import GridNet.Weights.Cursor
import GridNet.Tensor.Shape
import GridNet.Tensor.Rearrange
import GridNet.Tensor.Pooling
import GridNet.Tensor.Convolution
import GridNet.Graph.Recorder
import GridNet.Graph.Evaluation
import GridNet.Emit.Weighted
import GridNet.Emit.Rewired
import GridNet.Model.Load
import GridNet.Settings.File
import GridNet.Settings.Environment
import GridNet.Settings.Telemetry
import GridNet.Picture.Fit
import GridNet.Picture.Planar
import GridNet.Png.Reader
import GridNet.Png.Writer
import GridNet.Calibration.Run
import GridNet.Detection.Outline
import GridNet.Detection.Files
import GridNet.Files.Store
import GridNet.Files.Pictures
import GridNet.CommandLine.Run
import GridNet.Main
import GridNet.Proofs.Outcomes
import GridNet.Proofs.Recording
import GridNet.Proofs.Valuation
import GridNet.Proofs.DecodeSoundness
import GridNet.Proofs.OperationSoundness
import GridNet.Proofs.ShapeSoundness
import GridNet.Proofs.Skeleton
import GridNet.Proofs.WeightLength
import GridNet.Proofs.Emission
import GridNet.Proofs.WeightSlices
import GridNet.Proofs.WeightOwnership
import GridNet.Proofs.Interpreter
import GridNet.Proofs.TensorAlgebra
import GridNet.Proofs.Extension
import GridNet.Proofs.NodeValues
import GridNet.Proofs.LayerValues
import GridNet.Proofs.WeightedValues
import GridNet.Proofs.CheckedBlueprint
import GridNet.Proofs.Simulation
import GridNet.Proofs.Compilation
import GridNet.Proofs.InPlace
import GridNet.Proofs.RecordedGraphs
import GridNet.Proofs.Running
import GridNet.Proofs.WholeScalars
import GridNet.Proofs.BatchDecoding
import GridNet.Proofs.DecodedRows
import GridNet.Proofs.BatchGraphs
import GridNet.Proofs.BatchRecording
import GridNet.Proofs.BatchBuild
import GridNet.Proofs.BatchIndependence
import GridNet.Proofs.ServedImages
import GridNet.Proofs.Reached
import GridNet.Proofs.References
import GridNet.Proofs.HeadWiring
import GridNet.Proofs.RunValues
import GridNet.Proofs.AlikeRuns
import GridNet.Proofs.ImageRows
import GridNet.Proofs.DetectingLists
import GridNet.Proofs.FittedPictures
import GridNet.Proofs.FileReplies
import GridNet.Proofs.StagedBatches
import GridNet.Proofs.FeederRuns
import GridNet.Proofs.TextCuts
import GridNet.Proofs.AssignmentMaps
import GridNet.Proofs.DescriptionGrammar
import GridNet.Proofs.DescriptionContents
import GridNet.Proofs.DescriptionLayout
import GridNet.Proofs.WrittenDescriptions
import GridNet.Proofs.RewrittenDescriptions
import GridNet.Proofs.WellFormedBlueprints
import GridNet.Proofs.WrittenFiles
import GridNet.Proofs.ObservedRuns
import GridNet.Proofs.PeakTables
import GridNet.Proofs.CalibrationRuns
import GridNet.Proofs.LayerSizes
import GridNet.Proofs.Breakdowns
import GridNet.Proofs.LayerBreakdowns
import GridNet.Proofs.BuildBreakdowns
import GridNet.Proofs.BuildSizes
import GridNet.Proofs.ScalarOrder
import GridNet.Proofs.LeadingClasses
import GridNet.Proofs.ExactValues
import GridNet.Proofs.KeptRows
import GridNet.Proofs.KernelPlanes
import GridNet.Proofs.GatheredPixels
import GridNet.Proofs.ScatteredPixels
import GridNet.Proofs.MovedElements
import GridNet.Proofs.FoundValues
import GridNet.Proofs.GroupedKernels
import GridNet.Proofs.SpaceToDepth
import GridNet.Proofs.PooledWindows
import GridNet.Proofs.FrontRuns
import GridNet.Proofs.EmitterCalls
import GridNet.Proofs.JoinedTensors
import GridNet.Proofs.RoutedTensors
import GridNet.Proofs.WholeQuotients
import GridNet.Proofs.RepeatedPixels
import GridNet.Proofs.ExactChecks
import GridNet.Proofs.ObservedOrder
import GridNet.Proofs.RegroupedRanges
import GridNet.Proofs.CursorSessions
import GridNet.Proofs.SpacedWords
import GridNet.Proofs.NumberTexts
import GridNet.Proofs.WeightPayloads
import GridNet.Proofs.WeightListings
import GridNet.Proofs.AcceptedListings
import GridNet.Proofs.NearestWholes
import GridNet.Proofs.OrdersOfMagnitude
import GridNet.Proofs.CoordinateMaps
import GridNet.Proofs.CandidateOutlines
import GridNet.Proofs.RankedSettings
