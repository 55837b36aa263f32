import CasuyaLive.Lib.Run
import CasuyaLive.Ingest.Helabet.Types
import CasuyaLive.Ingest.Helabet.Poller
import CasuyaLive.Ingest.Helabet.Track
import CasuyaLive.Ingest.Helabet.FullTime
import CasuyaLive.Ingest.Helabet.Gap
import CasuyaLive.Ingest.Betpawa.Poller
import CasuyaLive.Ingest.Betpawa.FullTime
import CasuyaLive.Ingest.ApiFootball.Poller
import CasuyaLive.Execution.Paper.Store
import CasuyaLive.Ingest.Delivery
import CasuyaLive.Execution.Paper.Broker
import CasuyaLive.Execution.Paper.Once
import CasuyaLive.Execution.Paper.Failures
import CasuyaLive.Execution.Admin.Recompute
import CasuyaLive.Analytics.Frame
import CasuyaLive.Analytics.FeatureStudy
import CasuyaLive.Analytics.Replay
import CasuyaLive.Analytics.Diagnostics
import CasuyaLive.Analytics.FilterEngine
import CasuyaLive.Analytics.PositionGate
import CasuyaLive.Analytics.Worker
import CasuyaLive.Analytics.Cycles
import CasuyaLive.Execution.Paper.Snapshots
import CasuyaLive.Execution.Admin.Bankroll
import CasuyaLive.Analytics.Serial
import CasuyaLive.System.FinalFrames
import CasuyaLive.Execution.Live.Once
import CasuyaLive.Lib.Base64
import CasuyaLive.Lib.Json
import CasuyaLive.Analytics.Envelope
import CasuyaLive.Dashboard.CommandsLog
import CasuyaLive.Execution.Live.Envelope
import CasuyaLive.System.Envelopes
import CasuyaLive.Lib.Unwinding
import CasuyaLive.Relay.Roles
import CasuyaLive.System.Outcomes
import CasuyaLive.Vendor.Server
import CasuyaLive.Execution.Live.Frames
import CasuyaLive.System.Settlements
import CasuyaLive.System.PaperCycles
import CasuyaLive.Lib.Logistic
import CasuyaLive.Analytics.Posteriors
import CasuyaLive.Lib.Champion
import CasuyaLive.Analytics.BestSide
import CasuyaLive.Ingest.ApiFootball.Events
import CasuyaLive.System.Edges
import CasuyaLive.Ingest.ApiFootball.Fixture
import CasuyaLive.System.Possession
import CasuyaLive.Analytics.Faults
import CasuyaLive.System.Acknowledgements
import CasuyaLive.System.OwnOrders
import CasuyaLive.Execution.Paper.StaleSweep
import CasuyaLive.Execution.Admin.Regrade
import CasuyaLive.Ingest.Markers
import CasuyaLive.Ingest.Helabet.Bookkeeping
import CasuyaLive.Ingest.ApiFootball.Results
import CasuyaLive.Ingest.Contract
import CasuyaLive.Analytics.Momentum
import CasuyaLive.System.Shots
import CasuyaLive.Analytics.BaselineRate
import CasuyaLive.Analytics.Totality
import CasuyaLive.Calibration.Auc
import CasuyaLive.Calibration.FitLogistic
import CasuyaLive.Calibration.LogLoss
import CasuyaLive.Calibration.FinalScore
import CasuyaLive.Lib.PairCount
import CasuyaLive.Calibration.Rows
import CasuyaLive.Dashboard.Session
import CasuyaLive.System.Sessions
import CasuyaLive.Execution.Operator
import CasuyaLive.Dashboard.Signals
import CasuyaLive.Ingest.Boundary
import CasuyaLive.Dashboard.PnLTracker
import CasuyaLive.Execution.Live.Positions
import CasuyaLive.Ingest.Cache
import CasuyaLive.System.Storage
import CasuyaLive.Vendor.Trade
import CasuyaLive.System.Trading
import CasuyaLive.Lib.Newest
import CasuyaLive.Dashboard.Feed
import CasuyaLive.Dashboard.SignalStream
import CasuyaLive.System.SignalDesk
import CasuyaLive.Lib.Calendar
import CasuyaLive.Ingest.Frames
import CasuyaLive.Analytics.Payload
import CasuyaLive.Calibration.History
import CasuyaLive.System.Published
import CasuyaLive.System.PublicPage
import CasuyaLive.Lib.Median
import CasuyaLive.Ingest.ApiFootball.LiveOdds
import CasuyaLive.Ingest.ApiFootball.Kickoff
import CasuyaLive.Relay.Stats
import CasuyaLive.Relay.Routes
import CasuyaLive.System.AdminTier
import CasuyaLive.Calibration.ModelCard
import CasuyaLive.System.ModelCard
import CasuyaLive.Ingest.Handler
import CasuyaLive.Vendor.Feed
import CasuyaLive.System.ScriptedFeed
import CasuyaLive.Calibration.Script
