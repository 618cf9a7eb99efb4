import TopOfBook.Market.Json
import TopOfBook.Decimal.Text
import TopOfBook.Json.Reader
import TopOfBook.Json.Writer
import TopOfBook.Config.Engine
import TopOfBook.Binning.Chosen
import TopOfBook.Histogram.Summary
import TopOfBook.Rate.Distribution
import TopOfBook.Statistics.Depth
import TopOfBook.Statistics.Feed
import TopOfBook.Book.Json
import TopOfBook.Order.Table
import TopOfBook.Event.Sequencer
import TopOfBook.Event.Stream
import TopOfBook.Engine.Workers
import TopOfBook.Replay
import TopOfBook.CommandLine
import TopOfBook.Main
import TopOfBook.Proofs.Balance
import TopOfBook.Proofs.Publication
import TopOfBook.Proofs.Isolation
import TopOfBook.Proofs.Sharding
import TopOfBook.Proofs.OpenBooks
import TopOfBook.Proofs.Recompute
import TopOfBook.Proofs.SideTotals
import TopOfBook.Proofs.Corruption
import TopOfBook.Proofs.Replacement
import TopOfBook.Proofs.TrailingWindow
import TopOfBook.Proofs.Samples
import TopOfBook.Proofs.Construction
import TopOfBook.Proofs.OmittedFields
import TopOfBook.Proofs.Resets
import TopOfBook.Proofs.Sums
import TopOfBook.Proofs.FailedMerges
import TopOfBook.Proofs.Contents
import TopOfBook.Proofs.MergeOrder
import TopOfBook.Proofs.Frames
import TopOfBook.Proofs.ExecutionPrices
import TopOfBook.Proofs.Accounts
import TopOfBook.Proofs.EventStreams
import TopOfBook.Proofs.ConfigFiles
import TopOfBook.Proofs.DeleteThenAdd
import TopOfBook.Proofs.EarlyRefusals
import TopOfBook.Proofs.WorkedOff
import TopOfBook.Proofs.OrderLives
import TopOfBook.Proofs.Partitions
import TopOfBook.Proofs.SideLedger
import TopOfBook.Proofs.Estimates
import TopOfBook.Proofs.Quantiles
import TopOfBook.Proofs.QuantileBounds
import TopOfBook.Proofs.RatePeriods
import TopOfBook.Proofs.Rotations
import TopOfBook.Proofs.BinningChoices
import TopOfBook.Proofs.WholeMerges
import TopOfBook.Proofs.PriceText
import TopOfBook.Proofs.ProgressLines
import TopOfBook.Proofs.SideViews
import TopOfBook.Proofs.TouchedLevels
import TopOfBook.Proofs.UpdateLines
