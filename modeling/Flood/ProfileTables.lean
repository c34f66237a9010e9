import Mathlib.Data.List.Nodup
import Flood.Config

/-!
# The tables of event handlers

`flood_profile.c` keeps its implementations in a table of rows (name of the event, name of the
implementation, function), and its groups in a second one.  Assigning an implementation by name
searches the first table and ends in a cascade of comparisons that picks the field to set.

* `setHandler_name` — every branch of the cascade sets the field of its own event.
* `implNames_distinct` — no two rows have one implementation name.
* `assignProfileEventHandler_eq` — an assignment sets the event's field when the table has an
  implementation of that name for that event, and fails otherwise.
* `groups_complete` — every name in a group is an implementation of one event of the group's class.
* `assignGroup_get` — what a group assigns, and what it leaves alone.
-/

namespace Flood.ProfileTables

open Flood.CString Flood.Net Flood.Config

/-- The functions that the table points to. -/
inductive Impl where
  | genericProfileInit | genericReportInit | genericGetNextUrl | genericSocketInit
  | genericBeginConn | genericCreateReq | genericSendReq | genericRecvResp | genericPostprocess
  | genericVerifyResp | genericProcessStats | genericLoopCondition | genericEndConn
  | genericRequestDestroy | genericResponseDestroy | genericSocketDestroy | genericReportStats
  | genericDestroyReport | genericProfileDestroy | genericFullrespRecvResp | keepaliveSocketInit
  | keepaliveBeginConn | keepaliveSendReq | keepaliveRecvResp | keepaliveEndConn
  | keepaliveSocketDestroy | roundRobinProfileInit | roundRobinGetNextUrl | roundRobinCreateReq
  | roundRobinPostprocess | roundRobinLoopCondition | roundRobinProfileDestroy | verify200
  | verifyStatusCode | simpleReportInit | simpleProcessStats | simpleReportStats
  | simpleDestroyReport | easyReportInit | easyProcessStats | easyReportStats | easyDestroyReport
  | relativeTimesReportInit | relativeTimesProcessStats | relativeTimesReportStats
  | relativeTimesDestroyReport
  deriving DecidableEq

/-- A row of `profile_event_handlers`. -/
structure EventHandler where
  handlerName : Bytes
  implName : Bytes
  handler : Impl
  deriving DecidableEq

def profileEventHandlerNames : List Bytes :=
  [bytes "profile_init", bytes "report_init", bytes "get_next_url", bytes "socket_init",
   bytes "begin_conn", bytes "create_req", bytes "send_req", bytes "recv_resp",
   bytes "postprocess", bytes "verify_resp", bytes "process_stats", bytes "loop_condition",
   bytes "end_conn", bytes "request_destroy", bytes "response_destroy", bytes "socket_destroy",
   bytes "report_stats", bytes "destroy_report", bytes "profile_destroy"]

def profileEventHandlers : List EventHandler := [
  ⟨bytes "profile_init", bytes "generic_profile_init", .genericProfileInit⟩,
  ⟨bytes "report_init", bytes "generic_report_init", .genericReportInit⟩,
  ⟨bytes "get_next_url", bytes "generic_get_next_url", .genericGetNextUrl⟩,
  ⟨bytes "socket_init", bytes "generic_socket_init", .genericSocketInit⟩,
  ⟨bytes "begin_conn", bytes "generic_begin_conn", .genericBeginConn⟩,
  ⟨bytes "create_req", bytes "generic_create_req", .genericCreateReq⟩,
  ⟨bytes "send_req", bytes "generic_send_req", .genericSendReq⟩,
  ⟨bytes "recv_resp", bytes "generic_recv_resp", .genericRecvResp⟩,
  ⟨bytes "postprocess", bytes "generic_postprocess", .genericPostprocess⟩,
  ⟨bytes "verify_resp", bytes "generic_verify_resp", .genericVerifyResp⟩,
  ⟨bytes "process_stats", bytes "generic_process_stats", .genericProcessStats⟩,
  ⟨bytes "loop_condition", bytes "generic_loop_condition", .genericLoopCondition⟩,
  ⟨bytes "end_conn", bytes "generic_end_conn", .genericEndConn⟩,
  ⟨bytes "request_destroy", bytes "generic_request_destroy", .genericRequestDestroy⟩,
  ⟨bytes "response_destroy", bytes "generic_response_destroy", .genericResponseDestroy⟩,
  ⟨bytes "socket_destroy", bytes "generic_socket_destroy", .genericSocketDestroy⟩,
  ⟨bytes "report_stats", bytes "generic_report_stats", .genericReportStats⟩,
  ⟨bytes "destroy_report", bytes "generic_destroy_report", .genericDestroyReport⟩,
  ⟨bytes "profile_destroy", bytes "generic_profile_destroy", .genericProfileDestroy⟩,
  ⟨bytes "recv_resp", bytes "generic_fullresp_recv_resp", .genericFullrespRecvResp⟩,
  ⟨bytes "socket_init", bytes "keepalive_socket_init", .keepaliveSocketInit⟩,
  ⟨bytes "begin_conn", bytes "keepalive_begin_conn", .keepaliveBeginConn⟩,
  ⟨bytes "send_req", bytes "keepalive_send_req", .keepaliveSendReq⟩,
  ⟨bytes "recv_resp", bytes "keepalive_recv_resp", .keepaliveRecvResp⟩,
  ⟨bytes "end_conn", bytes "keepalive_end_conn", .keepaliveEndConn⟩,
  ⟨bytes "socket_destroy", bytes "keepalive_socket_destroy", .keepaliveSocketDestroy⟩,
  ⟨bytes "profile_init", bytes "round_robin_profile_init", .roundRobinProfileInit⟩,
  ⟨bytes "get_next_url", bytes "round_robin_get_next_url", .roundRobinGetNextUrl⟩,
  ⟨bytes "create_req", bytes "round_robin_create_req", .roundRobinCreateReq⟩,
  ⟨bytes "postprocess", bytes "round_robin_postprocess", .roundRobinPostprocess⟩,
  ⟨bytes "loop_condition", bytes "round_robin_loop_condition", .roundRobinLoopCondition⟩,
  ⟨bytes "profile_destroy", bytes "round_robin_profile_destroy", .roundRobinProfileDestroy⟩,
  ⟨bytes "verify_resp", bytes "verify_200", .verify200⟩,
  ⟨bytes "verify_resp", bytes "verify_status_code", .verifyStatusCode⟩,
  ⟨bytes "report_init", bytes "simple_report_init", .simpleReportInit⟩,
  ⟨bytes "process_stats", bytes "simple_process_stats", .simpleProcessStats⟩,
  ⟨bytes "report_stats", bytes "simple_report_stats", .simpleReportStats⟩,
  ⟨bytes "destroy_report", bytes "simple_destroy_report", .simpleDestroyReport⟩,
  ⟨bytes "report_init", bytes "easy_report_init", .easyReportInit⟩,
  ⟨bytes "process_stats", bytes "easy_process_stats", .easyProcessStats⟩,
  ⟨bytes "report_stats", bytes "easy_report_stats", .easyReportStats⟩,
  ⟨bytes "destroy_report", bytes "easy_destroy_report", .easyDestroyReport⟩,
  ⟨bytes "report_init", bytes "relative_times_report_init", .relativeTimesReportInit⟩,
  ⟨bytes "process_stats", bytes "relative_times_process_stats", .relativeTimesProcessStats⟩,
  ⟨bytes "report_stats", bytes "relative_times_report_stats", .relativeTimesReportStats⟩,
  ⟨bytes "destroy_report", bytes "relative_times_destroy_report", .relativeTimesDestroyReport⟩]

def profileGroupHandlerNames : List Bytes := [bytes "report", bytes "socket", bytes "profiletype"]

def reportEasyGroup : List Bytes :=
  [bytes "easy_report_init", bytes "easy_process_stats", bytes "easy_report_stats",
   bytes "easy_destroy_report"]

def reportSimpleGroup : List Bytes :=
  [bytes "simple_report_init", bytes "simple_process_stats", bytes "simple_report_stats",
   bytes "simple_destroy_report"]

def socketGenericGroup : List Bytes :=
  [bytes "generic_socket_init", bytes "generic_begin_conn", bytes "generic_send_req",
   bytes "generic_recv_resp", bytes "generic_end_conn", bytes "generic_socket_destroy"]

def socketKeepaliveGroup : List Bytes :=
  [bytes "keepalive_socket_init", bytes "keepalive_begin_conn", bytes "keepalive_send_req",
   bytes "keepalive_recv_resp", bytes "keepalive_end_conn", bytes "keepalive_socket_destroy"]

def profileRoundRobinGroup : List Bytes :=
  [bytes "round_robin_profile_init", bytes "round_robin_get_next_url",
   bytes "round_robin_create_req", bytes "round_robin_postprocess",
   bytes "round_robin_loop_condition", bytes "round_robin_profile_destroy"]

def reportRelativeTimesGroup : List Bytes :=
  [bytes "relative_times_report_init", bytes "relative_times_process_stats",
   bytes "relative_times_report_stats", bytes "relative_times_destroy_report"]

/-- A row of `profile_group_handlers`. -/
structure GroupHandler where
  className : Bytes
  groupName : Bytes
  handlers : List Bytes
  deriving DecidableEq

def profileGroupHandlers : List GroupHandler := [
  ⟨bytes "report", bytes "easy", reportEasyGroup⟩,
  ⟨bytes "report", bytes "simple", reportSimpleGroup⟩,
  ⟨bytes "socket", bytes "generic", socketGenericGroup⟩,
  ⟨bytes "socket", bytes "keepalive", socketKeepaliveGroup⟩,
  ⟨bytes "profiletype", bytes "round_robin", profileRoundRobinGroup⟩,
  ⟨bytes "report", bytes "relative_times", reportRelativeTimesGroup⟩]

/-- `profile_events_t`: for each event the function it is bound to. -/
structure ProfileEvents where
  profileInit : Option Impl := none
  getNextUrl : Option Impl := none
  createReq : Option Impl := none
  postprocess : Option Impl := none
  loopCondition : Option Impl := none
  profileDestroy : Option Impl := none
  reportInit : Option Impl := none
  processStats : Option Impl := none
  reportStats : Option Impl := none
  destroyReport : Option Impl := none
  socketInit : Option Impl := none
  beginConn : Option Impl := none
  sendReq : Option Impl := none
  recvResp : Option Impl := none
  endConn : Option Impl := none
  requestDestroy : Option Impl := none
  responseDestroy : Option Impl := none
  socketDestroy : Option Impl := none
  verifyResp : Option Impl := none
  deriving DecidableEq

/-! ### Assigning by name -/

/-- The cascade of `assign_profile_event_handler`. -/
def setHandler (events : ProfileEvents) (handlerName : Bytes) (handler : Impl) :
    Status × ProfileEvents :=
  if sameName handlerName (bytes "profile_init") then
    (.success, { events with profileInit := some handler })
  else if sameName handlerName (bytes "report_init") then
    (.success, { events with reportInit := some handler })
  else if sameName handlerName (bytes "socket_init") then
    (.success, { events with socketInit := some handler })
  else if sameName handlerName (bytes "get_next_url") then
    (.success, { events with getNextUrl := some handler })
  else if sameName handlerName (bytes "begin_conn") then
    (.success, { events with beginConn := some handler })
  else if sameName handlerName (bytes "create_req") then
    (.success, { events with createReq := some handler })
  else if sameName handlerName (bytes "send_req") then
    (.success, { events with sendReq := some handler })
  else if sameName handlerName (bytes "recv_resp") then
    (.success, { events with recvResp := some handler })
  else if sameName handlerName (bytes "postprocess") then
    (.success, { events with postprocess := some handler })
  else if sameName handlerName (bytes "verify_resp") then
    (.success, { events with verifyResp := some handler })
  else if sameName handlerName (bytes "process_stats") then
    (.success, { events with processStats := some handler })
  else if sameName handlerName (bytes "loop_condition") then
    (.success, { events with loopCondition := some handler })
  else if sameName handlerName (bytes "end_conn") then
    (.success, { events with endConn := some handler })
  else if sameName handlerName (bytes "request_destroy") then
    (.success, { events with requestDestroy := some handler })
  else if sameName handlerName (bytes "response_destroy") then
    (.success, { events with responseDestroy := some handler })
  else if sameName handlerName (bytes "socket_destroy") then
    (.success, { events with socketDestroy := some handler })
  else if sameName handlerName (bytes "report_stats") then
    (.success, { events with reportStats := some handler })
  else if sameName handlerName (bytes "destroy_report") then
    (.success, { events with destroyReport := some handler })
  else if sameName handlerName (bytes "profile_destroy") then
    (.success, { events with profileDestroy := some handler })
  else (.egeneral, events)

/-- `assign_profile_event_handler`, from a row on. -/
def assignFrom (events : ProfileEvents) (handlerName implName : Bytes) :
    List EventHandler → Status × ProfileEvents
  | [] => (.enotimpl, events)
  | p :: rows =>
    if sameName implName p.implName then
      if sameName handlerName p.handlerName then setHandler events handlerName p.handler
      else (.enotimpl, events)
    else assignFrom events handlerName implName rows

/-- `assign_profile_event_handler` -/
def assignProfileEventHandler (events : ProfileEvents) (handlerName implName : Bytes) :
    Status × ProfileEvents :=
  assignFrom events handlerName implName profileEventHandlers

/-- The loop over the table for one name of a group; the result of the assignment is not looked
at. -/
def assignGroupMember (events : ProfileEvents) (member : Bytes) : ProfileEvents :=
  profileEventHandlers.foldl (fun events p =>
    if sameName p.implName member then
      (assignProfileEventHandler events p.handlerName p.implName).2
    else events) events

/-- The search for a group. -/
def findGroup (className groupName : Bytes) : Option GroupHandler :=
  profileGroupHandlers.find? fun g =>
    sameName className g.className && sameName groupName g.groupName

/-- `assign_profile_group_handler` -/
def assignProfileGroupHandler (events : ProfileEvents) (className groupName : Bytes) :
    Status × ProfileEvents :=
  match findGroup className groupName with
  | none => (.egeneral, events)
  | some g => (.success, g.handlers.foldl assignGroupMember events)

/-- The pairs that `create_profile_events` assigns. -/
def defaultHandlers : List (Bytes × Bytes) := [
  (bytes "profile_init", bytes "generic_profile_init"),
  (bytes "report_init", bytes "generic_report_init"),
  (bytes "socket_init", bytes "generic_socket_init"),
  (bytes "get_next_url", bytes "generic_get_next_url"),
  (bytes "create_req", bytes "generic_create_req"),
  (bytes "begin_conn", bytes "generic_begin_conn"),
  (bytes "send_req", bytes "generic_send_req"),
  (bytes "recv_resp", bytes "generic_recv_resp"),
  (bytes "verify_resp", bytes "generic_verify_resp"),
  (bytes "postprocess", bytes "generic_postprocess"),
  (bytes "process_stats", bytes "generic_process_stats"),
  (bytes "loop_condition", bytes "generic_loop_condition"),
  (bytes "end_conn", bytes "generic_end_conn"),
  (bytes "request_destroy", bytes "generic_request_destroy"),
  (bytes "response_destroy", bytes "generic_response_destroy"),
  (bytes "socket_destroy", bytes "generic_socket_destroy"),
  (bytes "report_stats", bytes "generic_report_stats"),
  (bytes "destroy_report", bytes "generic_destroy_report"),
  (bytes "profile_destroy", bytes "generic_profile_destroy")]

/-- Assignments in sequence, up to the first that fails. -/
def assignAll : List (Bytes × Bytes) → ProfileEvents → Status × ProfileEvents
  | [], events => (.success, events)
  | (handlerName, implName) :: rest, events =>
    match assignProfileEventHandler events handlerName implName with
    | (stat, events) => if stat ≠ .success then (stat, events) else assignAll rest events

/-- `create_profile_events` -/
def createProfileEvents : Status × ProfileEvents := assignAll defaultHandlers {}

/-! ### Events -/

/-- The events of a profile. -/
inductive EventName where
  | profileInit | reportInit | getNextUrl | socketInit | beginConn | createReq | sendReq
  | recvResp | postprocess | verifyResp | processStats | loopCondition | endConn | requestDestroy
  | responseDestroy | socketDestroy | reportStats | destroyReport | profileDestroy
  deriving DecidableEq

/-- The name of the event in the tables and in the configuration. -/
def EventName.name : EventName → Bytes
  | .profileInit => bytes "profile_init"
  | .reportInit => bytes "report_init"
  | .getNextUrl => bytes "get_next_url"
  | .socketInit => bytes "socket_init"
  | .beginConn => bytes "begin_conn"
  | .createReq => bytes "create_req"
  | .sendReq => bytes "send_req"
  | .recvResp => bytes "recv_resp"
  | .postprocess => bytes "postprocess"
  | .verifyResp => bytes "verify_resp"
  | .processStats => bytes "process_stats"
  | .loopCondition => bytes "loop_condition"
  | .endConn => bytes "end_conn"
  | .requestDestroy => bytes "request_destroy"
  | .responseDestroy => bytes "response_destroy"
  | .socketDestroy => bytes "socket_destroy"
  | .reportStats => bytes "report_stats"
  | .destroyReport => bytes "destroy_report"
  | .profileDestroy => bytes "profile_destroy"

/-- The field of the event. -/
def ProfileEvents.get (events : ProfileEvents) : EventName → Option Impl
  | .profileInit => events.profileInit
  | .reportInit => events.reportInit
  | .getNextUrl => events.getNextUrl
  | .socketInit => events.socketInit
  | .beginConn => events.beginConn
  | .createReq => events.createReq
  | .sendReq => events.sendReq
  | .recvResp => events.recvResp
  | .postprocess => events.postprocess
  | .verifyResp => events.verifyResp
  | .processStats => events.processStats
  | .loopCondition => events.loopCondition
  | .endConn => events.endConn
  | .requestDestroy => events.requestDestroy
  | .responseDestroy => events.responseDestroy
  | .socketDestroy => events.socketDestroy
  | .reportStats => events.reportStats
  | .destroyReport => events.destroyReport
  | .profileDestroy => events.profileDestroy

/-- The events with one of them bound. -/
def ProfileEvents.set (events : ProfileEvents) (impl : Impl) : EventName → ProfileEvents
  | .profileInit => { events with profileInit := some impl }
  | .reportInit => { events with reportInit := some impl }
  | .getNextUrl => { events with getNextUrl := some impl }
  | .socketInit => { events with socketInit := some impl }
  | .beginConn => { events with beginConn := some impl }
  | .createReq => { events with createReq := some impl }
  | .sendReq => { events with sendReq := some impl }
  | .recvResp => { events with recvResp := some impl }
  | .postprocess => { events with postprocess := some impl }
  | .verifyResp => { events with verifyResp := some impl }
  | .processStats => { events with processStats := some impl }
  | .loopCondition => { events with loopCondition := some impl }
  | .endConn => { events with endConn := some impl }
  | .requestDestroy => { events with requestDestroy := some impl }
  | .responseDestroy => { events with responseDestroy := some impl }
  | .socketDestroy => { events with socketDestroy := some impl }
  | .reportStats => { events with reportStats := some impl }
  | .destroyReport => { events with destroyReport := some impl }
  | .profileDestroy => { events with profileDestroy := some impl }

/-- The implementation that `create_profile_events` gives an event. -/
def EventName.generic : EventName → Impl
  | .profileInit => .genericProfileInit
  | .reportInit => .genericReportInit
  | .getNextUrl => .genericGetNextUrl
  | .socketInit => .genericSocketInit
  | .beginConn => .genericBeginConn
  | .createReq => .genericCreateReq
  | .sendReq => .genericSendReq
  | .recvResp => .genericRecvResp
  | .postprocess => .genericPostprocess
  | .verifyResp => .genericVerifyResp
  | .processStats => .genericProcessStats
  | .loopCondition => .genericLoopCondition
  | .endConn => .genericEndConn
  | .requestDestroy => .genericRequestDestroy
  | .responseDestroy => .genericResponseDestroy
  | .socketDestroy => .genericSocketDestroy
  | .reportStats => .genericReportStats
  | .destroyReport => .genericDestroyReport
  | .profileDestroy => .genericProfileDestroy

/-- The class of the groups that hold implementations of the event. -/
def EventName.groupClass : EventName → Option Bytes
  | .reportInit | .processStats | .reportStats | .destroyReport => some (bytes "report")
  | .socketInit | .beginConn | .sendReq | .recvResp | .endConn | .socketDestroy =>
    some (bytes "socket")
  | .profileInit | .getNextUrl | .createReq | .postprocess | .loopCondition | .profileDestroy =>
    some (bytes "profiletype")
  | .verifyResp | .requestDestroy | .responseDestroy => none

/-- The implementation of that name that the table has for the event. -/
def EventName.implNamed (ev : EventName) (implName : Bytes) : Option Impl :=
  (profileEventHandlers.find? fun r =>
    sameName ev.name r.handlerName && sameName implName r.implName).map EventHandler.handler

/-- The implementation that a group holds for the event. -/
def EventName.implInGroup (ev : EventName) (g : GroupHandler) : Option Impl :=
  g.handlers.findSome? ev.implNamed

/-- All events, in the order of `profile_event_handler_names`. -/
def EventName.all : List EventName :=
  [.profileInit, .reportInit, .getNextUrl, .socketInit, .beginConn, .createReq, .sendReq,
   .recvResp, .postprocess, .verifyResp, .processStats, .loopCondition, .endConn,
   .requestDestroy, .responseDestroy, .socketDestroy, .reportStats, .destroyReport,
   .profileDestroy]

theorem EventName.mem_all (ev : EventName) : ev ∈ EventName.all := by
  cases ev <;> decide

theorem names_all : EventName.all.map EventName.name = profileEventHandlerNames := rfl

theorem ProfileEvents.get_set (events : ProfileEvents) (impl : Impl) (ev ev' : EventName) :
    (events.set impl ev).get ev' = if ev' = ev then some impl else events.get ev' := by
  cases ev <;> cases ev' <;> rfl

/-! ### Names -/

theorem eventNames_distinct : (EventName.all.map fun ev => nameKey ev.name).Nodup := by
  decide +kernel

/-- The name tells the event. -/
theorem EventName.name_inj {ev ev' : EventName} (h : sameName ev.name ev'.name = true) :
    ev = ev' :=
  List.inj_on_of_nodup_map eventNames_distinct ev.mem_all ev'.mem_all (sameName_iff.mp h)

/-- **No two rows of the table have one implementation name.** -/
theorem implNames_distinct : (profileEventHandlers.map fun r => nameKey r.implName).Nodup := by
  decide +kernel

/-- Rows that go by one implementation name are the same row. -/
theorem row_unique {r r' : EventHandler} {implName : Bytes} (hr : r ∈ profileEventHandlers)
    (hr' : r' ∈ profileEventHandlers) (h : sameName implName r.implName = true)
    (h' : sameName implName r'.implName = true) : r = r' := by
  apply List.inj_on_of_nodup_map implNames_distinct hr hr'
  rw [← sameName_iff.mp h, ← sameName_iff.mp h']

/-- The row of an implementation. -/
def rowNamed (implName : Bytes) : Option EventHandler :=
  profileEventHandlers.find? fun r => sameName implName r.implName

theorem rowNamed_eq_some_iff {implName : Bytes} {r : EventHandler} :
    rowNamed implName = some r ↔
      r ∈ profileEventHandlers ∧ sameName implName r.implName = true := by
  unfold rowNamed
  constructor
  · intro h
    have hname := List.find?_some h
    exact ⟨List.mem_of_find?_eq_some h, hname⟩
  · rintro ⟨hr, hname⟩
    cases hfind : profileEventHandlers.find? fun r => sameName implName r.implName with
    | none => exact absurd hname (List.find?_eq_none.mp hfind r hr)
    | some r' =>
      have hname' := List.find?_some hfind
      rw [row_unique (List.mem_of_find?_eq_some hfind) hr hname' hname]

/-- Every row is for an event. -/
theorem row_event : ∀ r ∈ profileEventHandlers, ∃ ev ∈ EventName.all, r.handlerName = ev.name := by
  decide +kernel

/-! ### Assigning an implementation -/

/-- **The cascade** sets the field of the event that is named. -/
theorem setHandler_name (events : ProfileEvents) (ev : EventName) (handler : Impl) :
    setHandler events ev.name handler = (.success, events.set handler ev) := by
  cases ev <;> rfl

theorem implNamed_congr {implName implName' : Bytes} (h : sameName implName implName' = true)
    (ev : EventName) : ev.implNamed implName = ev.implNamed implName' := by
  unfold EventName.implNamed
  congr 2
  funext r
  rw [sameName_congr h]

/-- An implementation is named for an event by the row that holds both names. -/
theorem implNamed_eq_some_iff {ev : EventName} {implName : Bytes} {impl : Impl} :
    ev.implNamed implName = some impl ↔
      ∃ r ∈ profileEventHandlers, sameName ev.name r.handlerName = true ∧
        sameName implName r.implName = true ∧ r.handler = impl := by
  unfold EventName.implNamed
  rw [Option.map_eq_some_iff]
  constructor
  · rintro ⟨r, hfind, himpl⟩
    have hboth := List.find?_some hfind
    rw [Bool.and_eq_true] at hboth
    exact ⟨r, List.mem_of_find?_eq_some hfind, hboth.1, hboth.2, himpl⟩
  · rintro ⟨r, hr, hev, hname, himpl⟩
    cases hfind : profileEventHandlers.find? fun r =>
        sameName ev.name r.handlerName && sameName implName r.implName with
    | none =>
      have hnot := List.find?_eq_none.mp hfind r hr
      exact absurd (by rw [hev, hname]; rfl) hnot
    | some r' =>
      have hboth := List.find?_some hfind
      rw [Bool.and_eq_true] at hboth
      have hsame := row_unique (List.mem_of_find?_eq_some hfind) hr hboth.2 hname
      exact ⟨r', rfl, by rw [hsame, himpl]⟩

/-- An implementation belongs to one event. -/
theorem implNamed_event {ev ev' : EventName} {implName : Bytes} {impl impl' : Impl}
    (h : ev.implNamed implName = some impl) (h' : ev'.implNamed implName = some impl') :
    ev = ev' := by
  obtain ⟨r, hr, hev, hname, -⟩ := implNamed_eq_some_iff.mp h
  obtain ⟨r', hr', hev', hname', -⟩ := implNamed_eq_some_iff.mp h'
  have hsame := row_unique hr hr' hname hname'
  apply EventName.name_inj
  rw [sameName_iff] at hev hev' ⊢
  rw [hev, hev', hsame]

theorem assignFrom_eq (events : ProfileEvents) (handlerName implName : Bytes)
    (rows : List EventHandler) :
    assignFrom events handlerName implName rows =
      match rows.find? fun r => sameName implName r.implName with
      | none => (.enotimpl, events)
      | some r =>
        if sameName handlerName r.handlerName then setHandler events handlerName r.handler
        else (.enotimpl, events) := by
  induction rows with
  | nil => rfl
  | cons r rows ih =>
    rw [assignFrom, List.find?_cons]
    cases sameName implName r.implName with
    | true => rfl
    | false => exact ih

/-- **An assignment** sets the field of its event when the table has an implementation of that name
for that event, and fails otherwise. -/
theorem assignProfileEventHandler_eq (events : ProfileEvents) (ev : EventName) (implName : Bytes) :
    assignProfileEventHandler events ev.name implName =
      match ev.implNamed implName with
      | some impl => (.success, events.set impl ev)
      | none => (.enotimpl, events) := by
  rw [assignProfileEventHandler, assignFrom_eq, ← rowNamed]
  cases hrow : rowNamed implName with
  | none =>
    cases himpl : ev.implNamed implName with
    | none => rfl
    | some impl =>
      obtain ⟨r, hr, -, hname, -⟩ := implNamed_eq_some_iff.mp himpl
      rw [rowNamed_eq_some_iff.mpr ⟨hr, hname⟩] at hrow
      cases hrow
  | some r =>
    obtain ⟨hr, hname⟩ := rowNamed_eq_some_iff.mp hrow
    show (if sameName ev.name r.handlerName then setHandler events ev.name r.handler
      else (.enotimpl, events)) = _
    split
    · next hev =>
      rw [implNamed_eq_some_iff.mpr ⟨r, hr, hev, hname, rfl⟩]
      exact setHandler_name events ev r.handler
    · next hev =>
      cases himpl : ev.implNamed implName with
      | none => rfl
      | some impl =>
        obtain ⟨r', hr', hev', hname', -⟩ := implNamed_eq_some_iff.mp himpl
        rw [row_unique hr' hr hname' hname] at hev'
        exact absurd hev' hev

/-- **Every event starts with its generic implementation.** -/
theorem createProfileEvents_get :
    createProfileEvents.1 = .success ∧
      ∀ ev ∈ EventName.all, createProfileEvents.2.get ev = some ev.generic := by
  decide +kernel

/-! ### Assigning a group -/

/-- The event that an implementation is for. -/
def eventOf (implName : Bytes) : Option EventName :=
  (rowNamed implName).bind fun r => EventName.all.find? fun ev => sameName ev.name r.handlerName

theorem eventOf_eq_some_iff {implName : Bytes} {ev : EventName} :
    eventOf implName = some ev ↔ ∃ impl, ev.implNamed implName = some impl := by
  unfold eventOf
  rw [Option.bind_eq_some_iff]
  constructor
  · rintro ⟨r, hrow, hfind⟩
    obtain ⟨hr, hname⟩ := rowNamed_eq_some_iff.mp hrow
    have hev := List.find?_some hfind
    exact ⟨r.handler, implNamed_eq_some_iff.mpr ⟨r, hr, hev, hname, rfl⟩⟩
  · rintro ⟨impl, himpl⟩
    obtain ⟨r, hr, hev, hname, -⟩ := implNamed_eq_some_iff.mp himpl
    refine ⟨r, rowNamed_eq_some_iff.mpr ⟨hr, hname⟩, ?_⟩
    cases hfind : EventName.all.find? fun ev => sameName ev.name r.handlerName with
    | none => exact absurd hev (List.find?_eq_none.mp hfind ev ev.mem_all)
    | some ev' =>
      have hev' := List.find?_some hfind
      rw [sameName_iff] at hev hev'
      rw [EventName.name_inj (sameName_iff.mpr (hev'.trans hev.symm))]

/-- **The groups are complete**: every name in a group is an implementation of an event of the
group's class, and no event has two in one group. -/
theorem groups_complete :
    ∀ g ∈ profileGroupHandlers, (g.handlers.map eventOf).Nodup ∧
      ∀ o ∈ g.handlers.map eventOf, ∃ ev ∈ EventName.all, o = some ev ∧
        ev.groupClass = some g.className := by
  decide +kernel

/-- A step that at most one element of a list takes. -/
theorem foldl_once {α β : Type} (p : α → Bool) (step : β → α → β) (l : List α)
    (hone : ∀ a ∈ l, ∀ a' ∈ l, p a = true → p a' = true → a = a') (hnodup : l.Nodup) (b : β) :
    l.foldl (fun b a => if p a then step b a else b) b =
      match l.find? p with
      | none => b
      | some a => step b a := by
  induction l generalizing b with
  | nil => rfl
  | cons a l ih =>
    have hone' : ∀ x ∈ l, ∀ y ∈ l, p x = true → p y = true → x = y := fun x hx y hy =>
      hone x (List.mem_cons_of_mem _ hx) y (List.mem_cons_of_mem _ hy)
    rw [List.nodup_cons] at hnodup
    rw [List.foldl_cons, ih hone' hnodup.2, List.find?_cons]
    cases ha : p a with
    | false => rfl
    | true =>
      have hrest : l.find? p = none := by
        rw [List.find?_eq_none]
        intro x hx hpx
        have hax := hone a (List.mem_cons_self ..) x (List.mem_cons_of_mem _ hx) ha hpx
        exact hnodup.1 (hax ▸ hx)
      rw [hrest]
      rfl

/-- The loop over the table assigns the one row that a member of a group names. -/
theorem assignGroupMember_eq {events : ProfileEvents} {member : Bytes} {ev : EventName}
    {impl : Impl} (h : ev.implNamed member = some impl) :
    assignGroupMember events member = events.set impl ev := by
  obtain ⟨r, hr, hev, hname, himpl⟩ := implNamed_eq_some_iff.mp h
  have hfold := foldl_once (fun p : EventHandler => sameName p.implName member)
    (fun events p => (assignProfileEventHandler events p.handlerName p.implName).2)
    profileEventHandlers
    (fun a ha a' ha' hp hp' => row_unique ha ha' (by rw [sameName_comm]; exact hp)
      (by rw [sameName_comm]; exact hp'))
    (List.Nodup.of_map _ implNames_distinct) events
  have hrow : profileEventHandlers.find? (fun p => sameName p.implName member) = some r := by
    have hnamed := rowNamed_eq_some_iff.mpr ⟨hr, hname⟩
    rw [rowNamed] at hnamed
    rw [← hnamed]
    congr 1
    funext p
    exact sameName_comm _ _
  rw [hrow] at hfold
  rw [assignGroupMember, hfold]
  show (assignProfileEventHandler events r.handlerName r.implName).2 = _
  -- the row's own names are those of the event and of the member
  obtain ⟨ev', -, hev'⟩ := row_event r hr
  rw [hev'] at hev
  have hsame := EventName.name_inj hev
  subst hsame
  rw [hev', assignProfileEventHandler_eq, ← implNamed_congr hname, h]

/-- What a list of members assigns to an event, where no two of them are for one event. -/
theorem foldl_assignGroupMember_get {members : List Bytes} (hnodup : (members.map eventOf).Nodup)
    (hlisted : ∀ m ∈ members, eventOf m ≠ none) (events : ProfileEvents) (ev : EventName) :
    (members.foldl assignGroupMember events).get ev =
      (members.findSome? ev.implNamed).or (events.get ev) := by
  induction members generalizing events with
  | nil => rfl
  | cons m members ih =>
    rw [List.map_cons, List.nodup_cons] at hnodup
    obtain ⟨ev', hm⟩ := Option.ne_none_iff_exists'.mp (hlisted m (List.mem_cons_self ..))
    obtain ⟨impl, himpl⟩ := eventOf_eq_some_iff.mp hm
    rw [List.foldl_cons, ih hnodup.2 (fun x hx => hlisted x (List.mem_cons_of_mem _ hx)),
      assignGroupMember_eq himpl, ProfileEvents.get_set, List.findSome?_cons]
    by_cases hev : ev = ev'
    · subst hev
      have hrest : members.findSome? ev.implNamed = none := by
        rw [List.findSome?_eq_none_iff]
        intro x hx
        by_contra hsome
        obtain ⟨impl', himpl'⟩ := Option.ne_none_iff_exists'.mp hsome
        apply hnodup.1
        rw [hm, ← eventOf_eq_some_iff.mpr ⟨impl', himpl'⟩]
        exact List.mem_map_of_mem hx
      rw [hrest, himpl, if_pos rfl]
      rfl
    · have hother : ev.implNamed m = none := by
        by_contra hsome
        obtain ⟨impl', himpl'⟩ := Option.ne_none_iff_exists'.mp hsome
        exact hev (implNamed_event himpl' himpl)
      rw [if_neg hev, hother]

theorem findGroup_mem {className groupName : Bytes} {g : GroupHandler}
    (h : findGroup className groupName = some g) :
    g ∈ profileGroupHandlers ∧ sameName className g.className = true := by
  refine ⟨List.mem_of_find?_eq_some h, ?_⟩
  have hboth := List.find?_some h
  rw [Bool.and_eq_true] at hboth
  exact hboth.1

/-- **A group** binds the events it holds implementations for, and leaves the others alone. -/
theorem assignGroup_get {className groupName : Bytes} {g : GroupHandler}
    (h : findGroup className groupName = some g) (events : ProfileEvents) (ev : EventName) :
    (assignProfileGroupHandler events className groupName).1 = .success ∧
      (assignProfileGroupHandler events className groupName).2.get ev =
        (ev.implInGroup g).or (events.get ev) := by
  obtain ⟨hnodup, hlisted⟩ := groups_complete g (findGroup_mem h).1
  rw [assignProfileGroupHandler, h]
  refine ⟨rfl, foldl_assignGroupMember_get hnodup ?_ events ev⟩
  intro m hm hnone
  obtain ⟨ev', -, hev', -⟩ := hlisted (eventOf m) (List.mem_map_of_mem hm)
  rw [hnone] at hev'
  cases hev'

/-- A group holds implementations for the events of its class only. -/
theorem implInGroup_class {g : GroupHandler} (hg : g ∈ profileGroupHandlers) {ev : EventName}
    {impl : Impl} (h : ev.implInGroup g = some impl) : ev.groupClass = some g.className := by
  obtain ⟨m, hm, himpl⟩ := List.exists_of_findSome?_eq_some h
  obtain ⟨ev', -, hev', hclass⟩ := (groups_complete g hg).2 (eventOf m) (List.mem_map_of_mem hm)
  rw [eventOf_eq_some_iff.mpr ⟨impl, himpl⟩] at hev'
  cases hev'
  exact hclass

end Flood.ProfileTables
