import DrawFormula.Favorites.Operation
import DrawFormula.Main
import DrawFormula.Number.Loose
import DrawFormula.Random.Range
import DrawFormula.Record.Reading
import DrawFormula.Service.Call
import DrawFormula.Worker.Status
import DrawFormula.Proofs.Formula.RoundTrip
import DrawFormula.Proofs.Formula.Rereading
import DrawFormula.Proofs.Formula.Accounts
import DrawFormula.Proofs.Formula.Numbering
import DrawFormula.Proofs.Backtest.Locality
import DrawFormula.Proofs.Backtest.Shared
import DrawFormula.Proofs.Backtest.Overlong
import DrawFormula.Proofs.Backtest.Reordering
import DrawFormula.Proofs.Backtest.Widening
import DrawFormula.Proofs.Request.Agreement
import DrawFormula.Proofs.Request.Stream
import DrawFormula.Proofs.Search.Scoring
import DrawFormula.Proofs.Search.Evolution
import DrawFormula.Proofs.Search.Patience
import DrawFormula.Proofs.Search.Messages
import DrawFormula.Proofs.Worker.Restart
import DrawFormula.Proofs.Worker.Delivery
import DrawFormula.Proofs.Worker.Cancellation
import DrawFormula.Proofs.Worker.Stranding
import DrawFormula.Proofs.History.Entries
import DrawFormula.Proofs.History.Refinement
import DrawFormula.Proofs.Service.Import
import DrawFormula.Proofs.Favorites.Groups
import DrawFormula.Proofs.Favorites.Invariant
import DrawFormula.Proofs.Service.Favorites
import DrawFormula.Proofs.Csv.Columns
import DrawFormula.Proofs.Csv.Written
import DrawFormula.Proofs.History.Reload
import DrawFormula.Proofs.Service.Reload
import DrawFormula.Proofs.Report.Selection
import DrawFormula.Proofs.Json.RoundTrip
import DrawFormula.Proofs.Service.Settings
import DrawFormula.Proofs.Backtest.Nesting
import DrawFormula.Proofs.Search.Prefixes
import DrawFormula.Proofs.Search.Trail
import DrawFormula.Proofs.Report.Coverage
import DrawFormula.Proofs.Report.Counts
import DrawFormula.Proofs.Expression.Grammar
import DrawFormula.Proofs.Expression.Rounds
import DrawFormula.Proofs.Backtest.Turning
import DrawFormula.Proofs.Search.Ranking
import DrawFormula.Proofs.Formula.Phases
import DrawFormula.Proofs.Expression.Listing
import DrawFormula.Proofs.Expression.Touching
import DrawFormula.Proofs.History.Rendered
import DrawFormula.Proofs.Report.Streaks
import DrawFormula.Proofs.Search.Distinctness
import DrawFormula.Proofs.Element.Forgetting
