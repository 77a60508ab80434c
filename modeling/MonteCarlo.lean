import MonteCarlo.Library.Decimal
import MonteCarlo.Library.Program
import MonteCarlo.Library.Wire
import MonteCarlo.Engine.Acceptance
import MonteCarlo.Engine.Monitors
import MonteCarlo.Engine.Statistics
import MonteCarlo.Engine.Terminal
import MonteCarlo.Engine.Universe
import MonteCarlo.Engine.Validators
import MonteCarlo.Hash.Streaming
import MonteCarlo.Models.Antithetic
import MonteCarlo.Models.ConstantVariance
import MonteCarlo.Models.Quadrature
import MonteCarlo.Persistence.Bursts
import MonteCarlo.Persistence.Canonical
import MonteCarlo.Replay.Determinism
import MonteCarlo.Replay.Within
import MonteCarlo.Store.Recoverable
import MonteCarlo.Tools.CrashMatrix
