import Watershed.Liquid.Sqlite
import Watershed.Liquid.RowRuns
import Watershed.Liquid.Ledger
import Watershed.Liquid.Sessions
import Watershed.Liquid.Ticks
import Watershed.Liquid.Difference
import Watershed.Proto.EventForms
import Watershed.FlowAgent.Agreement
import Watershed.FlowAgent.SegmentedRuns
import Watershed.FlowAgent.LiveEvents
import Watershed.FlowAgent.RunObjectRecovery
import Watershed.FlowAgent.ToolSettlement
import Watershed.FlowExecutor.Responses
import Watershed.Script.Closure
import Watershed.Policy.Exact
import Watershed.MetaHarness.Adapter
import Watershed.MetaHarness.Framing
import Watershed.MetaHarness.Visible
import Watershed.MetaHarness.Credentials
import Watershed.MetaHarness.StashDrop
import Watershed.Liquid.PageTree
import Watershed.Liquid.RowQueries
import Watershed.Script.Predicates
