import CgroupResearch.Lib.Machine
import CgroupResearch.Process.Table
import CgroupResearch.Process.Invariant
import CgroupResearch.Process.Refinement
import CgroupResearch.Daemon.Handler
import CgroupResearch.Daemon.Kernel
import CgroupResearch.Lib.Double
import CgroupResearch.Throttle.Controller
import CgroupResearch.Throttle.Lifecycle
import CgroupResearch.Throttle.Calls
import CgroupResearch.Throttle.Run
import CgroupResearch.Throttle.Sync
import CgroupResearch.Throttle.Dwell
import CgroupResearch.Throttle.Justify
import CgroupResearch.Throttle.Capacity
import CgroupResearch.Calibrate.Nullspace
import CgroupResearch.Calibrate.Mapping
import CgroupResearch.Calibrate.Reader
import CgroupResearch.Lib.PyJson
import CgroupResearch.Calibrate.Report
import CgroupResearch.Lib.DoubleArith
import CgroupResearch.Calibrate.Select
import CgroupResearch.Calibrate.Greedy
import CgroupResearch.Calibrate.Rank
import CgroupResearch.Calibrate.Scan
import CgroupResearch.Calibrate.RoundTrip
import CgroupResearch.Lib.Json
import CgroupResearch.Calibrate.Document
import CgroupResearch.Calibrate.Gate
import CgroupResearch.Calibrate.Balanced
import CgroupResearch.Calibrate.Threshold
import CgroupResearch.Calibrate.Split
import CgroupResearch.Calibrate.Discover
import CgroupResearch.Daemon.CandidateFilter
import CgroupResearch.Process.Snapshot
import CgroupResearch.Throttle.Representation
import CgroupResearch.Throttle.Independence
import CgroupResearch.Throttle.Accounting
import CgroupResearch.Throttle.Retry
import CgroupResearch.Throttle.Rollback
import CgroupResearch.Profile.Merge
import CgroupResearch.Profile.Atomic
import CgroupResearch.Profile.Overlap
import CgroupResearch.Profile.Build
import CgroupResearch.Profile.Conserved
import CgroupResearch.Profile.OneRegion
import CgroupResearch.Profile.Translate
import CgroupResearch.Detector.Accepted
import CgroupResearch.Detector.Incarnation
import CgroupResearch.Detector.Prefilter
import CgroupResearch.Detector.StatLine
import CgroupResearch.Lib.Handles
import CgroupResearch.Daemon.Handles
import CgroupResearch.Lib.Quota
import CgroupResearch.Sweep.Program
import CgroupResearch.Sweep.Collect
import CgroupResearch.Sweep.Overlap
import CgroupResearch.Sweep.Stable
import CgroupResearch.Lib.PointerMemory
import CgroupResearch.Lib.Stride
import CgroupResearch.Sweep.Chain
import CgroupResearch.Lib.Prefix
import CgroupResearch.Lib.Argmax
import CgroupResearch.Cgroup.Path
import CgroupResearch.Policy.Config
import CgroupResearch.Worker.Selection
import CgroupResearch.Lib.Transition
import CgroupResearch.Lib.ChildProcess
import CgroupResearch.Experiment.Protocol
import CgroupResearch.Experiment.Lifecycle
import CgroupResearch.Experiment.Supervise
import CgroupResearch.Experiment.Progress
import CgroupResearch.Experiment.Barrier
import CgroupResearch.Experiment.Conditions
import CgroupResearch.Calibrate.Supervisor
import CgroupResearch.Calibrate.Supervised
import CgroupResearch.Calibrate.Outcome
import CgroupResearch.Daemon.Startup
import CgroupResearch.Lib.DoubleExact
import CgroupResearch.Calibrate.FloatThreshold
import CgroupResearch.Calibrate.Analyze
import CgroupResearch.Calibrate.RowOrder
import CgroupResearch.Calibrate.Accept
import CgroupResearch.Calibrate.Reporting
import CgroupResearch.Calibrate.ErrorReport
import CgroupResearch.Lib.Walk
import CgroupResearch.Lib.Tokens
import CgroupResearch.Lib.DirTree
import CgroupResearch.Sweep.HotLoop
import CgroupResearch.Experiment.Order
import CgroupResearch.Experiment.CgroupContext
import CgroupResearch.Sweep.Candidates
