import FocServices.Orders.Handlers
import Mathlib.Data.Rat.Defs

/-!
# The errand routes

The views of an errand, and the handlers that answer with them. A handler is a body over
calls to the store, the supplier gate, the settings and the cache of open errands; each
call is answered at its own time, so that anything may happen between two of them. What
the body of a request and the clock gave is an argument of the handler.
-/

namespace FocServices.Orders

open Txn

/-! ## Views -/

/-- `errand.SupplierVersion`, the part that views show: `errandhttp.Pickup`. -/
structure SupplierVersion where
  name : String := ""
  building : String := ""
  floor : String := ""
  locationDescription : String := ""
  latitude : ℚ := 0
  longitude : ℚ := 0
  deriving DecidableEq

/-- `errandhttp.Building`. -/
structure Building where
  id : String
  name : String
  deriving DecidableEq, Repr

/-- Supplier versions by identifier. An absent one is read as the zero value. -/
abbrev Pickups := List (String × SupplierVersion)

def Pickups.get (pickups : Pickups) (id : String) : SupplierVersion := (pickups.lookup id).getD {}

/-- `errandhttp.Fields`. -/
structure Fields where
  errandID : String
  version : ℕ
  status : Status
  supplierID : String
  supplierVersionID : String
  pickup : SupplierVersion
  deliveryBuilding : Building
  deliveryDetail : String
  items : RawMessage
  notes : String
  reward : ℤ
  createdAt : ℤ
  updatedAt : ℤ
  acceptanceDeadline : ℤ
  pickupDeadline : Option ℤ
  deliveryDeadline : Option ℤ
  deliveredAt : Option ℤ
  verificationDeadline : Option ℤ
  reviewReason : Option ReviewReason
  deriving DecidableEq

/-- The `PendingEdit` that requesters see. -/
structure PendingEditView where
  supplierID : String
  supplierVersionID : String
  pickup : SupplierVersion
  deliveryBuilding : Building
  deliveryDetail : String
  items : RawMessage
  notes : String
  contactName : String
  contactMobile : String
  reward : ℤ
  acceptanceDeadline : ℤ
  requestedAt : ℤ
  deriving DecidableEq

/-- `errand.OpenErrandView`, which is also `errandhttp.OpenFields`. -/
structure OpenErrandView where
  errandID : String
  version : ℕ
  supplierID : String
  supplierVersionID : String
  pickup : SupplierVersion
  deliveryBuilding : Building
  deliveryDetail : String
  items : RawMessage
  reward : ℤ
  createdAt : ℤ
  acceptanceDeadline : ℤ
  deriving DecidableEq

/-- `RequesterErrand`. The role of the viewer is the kind of the view. -/
structure RequesterErrand where
  fields : Fields
  contactName : String
  contactMobile : String
  pendingEdit : Option PendingEditView
  deriving DecidableEq

/-- `CourierErrand`. -/
structure CourierErrand where
  fields : Fields
  contactName : String := ""
  contactMobile : String := ""
  deriving DecidableEq

section Views

-- The name in the snapshot of a building, empty if there is none.
variable (buildingName : RawMessage → String)

def buildingOf (d : Details) : Building where
  id := d.deliveryBuildingID
  name := buildingName d.deliveryBuildingSnapshot

def fieldsOf (e : Errand) (pickup : SupplierVersion) : Fields where
  errandID := e.id
  version := e.version
  status := e.status
  supplierID := e.details.supplierID
  supplierVersionID := e.details.supplierVersionID
  pickup := pickup
  deliveryBuilding := buildingOf buildingName e.details
  deliveryDetail := e.details.deliveryDetail
  items := e.details.items
  notes := e.details.notes
  reward := e.details.reward
  createdAt := e.createdAt
  updatedAt := e.updatedAt
  acceptanceDeadline := e.details.acceptanceDeadline
  pickupDeadline := e.pickupDeadline
  deliveryDeadline := e.deliveryDeadline
  deliveredAt := e.deliveredAt
  verificationDeadline := e.verificationDeadline
  reviewReason := e.reviewReason

def requesterView (e : Errand) (pickups : Pickups) : RequesterErrand where
  fields := fieldsOf buildingName e (pickups.get e.details.supplierVersionID)
  contactName := e.details.contactName
  contactMobile := e.details.contactMobile
  pendingEdit := e.pendingEdit.map fun p => {
    supplierID := p.details.supplierID
    supplierVersionID := p.details.supplierVersionID
    pickup := pickups.get p.details.supplierVersionID
    deliveryBuilding := buildingOf buildingName p.details
    deliveryDetail := p.details.deliveryDetail
    items := p.details.items
    notes := p.details.notes
    contactName := p.details.contactName
    contactMobile := p.details.contactMobile
    reward := p.details.reward
    acceptanceDeadline := p.details.acceptanceDeadline
    requestedAt := p.atTime }

def openViewOf (e : Errand) (pickup : SupplierVersion) : OpenErrandView where
  errandID := e.id
  version := e.version
  supplierID := e.details.supplierID
  supplierVersionID := e.details.supplierVersionID
  pickup := pickup
  deliveryBuilding := buildingOf buildingName e.details
  deliveryDetail := e.details.deliveryDetail
  items := e.details.items
  reward := e.details.reward
  createdAt := e.createdAt
  acceptanceDeadline := e.details.acceptanceDeadline

def publicView (e : Errand) (pickups : Pickups) : OpenErrandView :=
  openViewOf buildingName e (pickups.get e.details.supplierVersionID)

/-- The states in which the courier sees the contact person. -/
def contactStatuses : List Status := [.assigned, .pickedUp, .delivered, .reviewRequired]

def courierView (e : Errand) (pickups : Pickups) : CourierErrand where
  fields := fieldsOf buildingName e (pickups.get e.details.supplierVersionID)
  contactName := if e.status ∈ contactStatuses then e.details.contactName else ""
  contactMobile := if e.status ∈ contactStatuses then e.details.contactMobile else ""

end Views

/-! ## Calls -/

/-- The position after the last errand of a page of open errands. -/
structure OpenCursor where
  acceptanceDeadline : ℤ
  id : String
  deriving DecidableEq, Repr

/-- What a handler calls. -/
inductive Call where
  | get (id : String)
  | courierHistory (errandID courierID : String) (since : ℤ)
  | settings
  | getVersion (id : String)
  | apply (t : Transition)
  | recordRejection (r : Rejection)
  | cached
  | cache (views : List OpenErrandView)
  | listOpen (now : ℤ) (after : Option OpenCursor)

@[reducible] def Call.Reply : Call → Type
  | .get _ | .apply _ => Except StoreError Errand
  | .courierHistory _ _ _ => Except StoreError CourierHistory
  | .settings => Except StoreError SystemSettings
  | .getVersion _ => Except StoreError SupplierVersion
  | .recordRejection _ => Except StoreError Unit
  | .cached => Option (List OpenErrandView)
  | .cache _ => Unit
  | .listOpen _ _ => Except StoreError (List Errand × Option OpenCursor)

/-- A handler that answers with a value, or with an error. -/
abbrev Handler := Program Call Call.Reply StoreError

def call (q : Call) : Handler q.Reply := Program.call q

/-- `if err != nil { h.fail(err); return }`. -/
def orAnswer {α : Type} : Except StoreError α → Handler α := Program.ofExcept

/-- The `apperror.Error` in an error, as `errors.As` finds it. -/
def StoreError.asApp : StoreError → Option AppError
  | .app e => some e
  | .wrapped _ e => e.asApp
  | _ => none

def StoreError.hasCode (err : StoreError) (codes : List ErrorCode) : Bool :=
  err.asApp.any fun e => decide (e.code ∈ codes)

/-- An error as `errandhttp.Fail` writes it. -/
def StoreError.written (err : StoreError) : AppError :=
  match err.asApp with
  | none => newError .internal "an unexpected internal error occurred"
  | some e =>
    if e.code = .validationFailed then
      { code := e.code, message := "request body is invalid", fields := e.fields }
    else newError e.code e.message

/-- `errandhttp.Caller`: the caller's subject is not empty. -/
def callerOf (caller : String) : Except StoreError Unit :=
  if caller = "" then .error (appErr .unauthenticated "authentication is required") else .ok ()

/-- `errandhttp.ErrandID`, for an authenticated caller: the identifier in the path is a UUID,
read in lower case. -/
def errandIDOf (caller path : String) : Except StoreError String := do
  callerOf caller
  if uuidPattern path = false then .error (appErr .invalidArgument "errandId must be a UUID")
  else .ok (toLower path)

/-- `time.Time`'s zero value. -/
def zeroTime : ℤ := -62135596800000000000

/-- Load the versions with these identifiers that are not there yet. -/
def loadVersions (errandID : String) : List String → Pickups → Handler Pickups
  | [], pickups => return pickups
  | id :: ids, pickups =>
    if (pickups.lookup id).isSome then loadVersions errandID ids pickups
    else do
      match ← call (.getVersion id) with
      | .ok version => loadVersions errandID ids ((id, version) :: pickups)
      | .error err =>
        if err.hasCode [.supplierUnavailable] then
          .fail (.internal ("errandhttp: errand " ++ errandID ++ " has an unknown supplier version "
            ++ id))
        else .fail err

/-- `LoadPickups` for one errand: its own version and that of its pending edit. -/
def loadPickups (e : Errand) : Handler Pickups :=
  loadVersions e.id (e.details.supplierVersionID ::
    (e.pendingEdit.map fun p => p.details.supplierVersionID).toList) []

/-! ## Actions of couriers and requesters -/

/-- `courier.action` and `requester.action`: one of the state changes. -/
structure RouteAction where
  event : Event
  needsDeadlines : Bool := false
  done : Errand → String → ℤ → Bool
  announce : Option RejectedAction := none

def withdrawAction : RouteAction where
  event := .withdraw
  done e _ expectedVersion :=
    (e.status = .open ∨ e.status = .expired) ∧ (e.version : ℤ) = expectedVersion + 1

def pickUpAction : RouteAction where
  event := .pickUp
  done e caller expectedVersion :=
    e.status = .pickedUp ∧ e.courierID = caller ∧ (e.version : ℤ) = expectedVersion + 1
  announce := some .pickup

def deliverAction : RouteAction where
  event := .deliver
  needsDeadlines := true
  done e caller expectedVersion :=
    e.status = .delivered ∧ e.courierID = caller ∧ (e.version : ℤ) = expectedVersion + 1

def reportIssueAction : RouteAction where
  event := .reportIssue
  done e caller expectedVersion :=
    e.status = .reviewRequired ∧ e.reviewReason = some .courierIssue ∧ e.courierID = caller ∧
      (e.version : ℤ) = expectedVersion + 1

def cancelAction : RouteAction where
  event := .cancel
  done e _ expectedVersion := e.status = .cancelled ∧ (e.version : ℤ) = expectedVersion + 1
  announce := some .cancel

def confirmAction : RouteAction where
  event := .confirm
  done e _ _ := e.status = .completed

def disputeAction : RouteAction where
  event := .dispute
  done e _ expectedVersion :=
    e.status = .reviewRequired ∧ e.reviewReason = some .requesterDispute ∧
      (e.version : ℤ) = expectedVersion + 1

/-- What a request says: who makes it, the errand in its path, and what reading its body
gave. `now` is the clock's time. -/
structure RouteRequest where
  caller : String
  path : String
  body : Except StoreError (ℤ × String)
  now : ℤ

section Handlers

-- `buildingName` is the name in the snapshot of a building, `requestID` the digest of
-- `RejectionRequestID`
variable (buildingName : RawMessage → String) (requestID : String → ℤ → String)

/-- The `refuse` of the handlers. Refusals with certain codes are announced, if the action
has an announcement; whether that succeeds makes no difference to the answer. -/
def RouteRequest.refuse {α : Type} (r : RouteRequest) (actor : ActorType) (announce : Option RejectedAction)
    (codes : List ErrorCode) (id : String) (expectedVersion : ℤ) (err : StoreError) : Handler α :=
  match announce, err.asApp.filter fun e => e.code ∈ codes with
  | some action, some e => do
    let _ ← call (.recordRejection
      { errandID := id, action := action, actor := ⟨actor, r.caller⟩, code := e.code,
        requestID := requestID r.caller expectedVersion, atTime := r.now })
    .fail err
  | _, _ => .fail err

/-- The codes of a refusal because of the errand's state. -/
def stateConflicts : List ErrorCode := [.errandChanged, .errandUnavailable, .invalidTransition]

/-- Ask `next`, then compare the version. -/
def RouteRequest.decide (r : RouteRequest) (e : Errand) (ev : Event) (actor : ActorType) (input : EventInput)
    (expectedVersion : ℤ) (refuse : StoreError → Handler Transition) : Handler Transition :=
  match next e ev ⟨actor, r.caller⟩ input r.now with
  | .error err => refuse (.app err)
  | .ok t =>
    if (e.version : ℤ) ≠ expectedVersion then
      refuse (appErr .errandChanged "the errand has changed; reload it and try again")
    else return t

/-- `LostToDuplicate`: the errand, if it already shows the effect of the request whose
transition was not applied. -/
def lostToDuplicate (id : String) (err : StoreError) (done : Errand → Bool) :
    Handler (Option Errand) :=
  if err.hasCode [.errandChanged, .errandUnavailable] then do
    match ← call (.get id) with
    | .ok current => return if done current then some current else none
    | .error _ => return none
  else return none

/-- Apply the transition. The errand of the answer is the stored one, or the one that a
duplicate of the request has left. -/
def applyOrDuplicate (id : String) (t : Transition) (done : Errand → Bool)
    (refuse : StoreError → Handler Errand) : Handler Errand := do
  match ← call (.apply t) with
  | .ok stored => return stored
  | .error err => do
    match ← lostToDuplicate id err done with
    | some current => return current
    | none => refuse err

/-- The settings that `next` needs for an action. -/
def RouteAction.deadlines (a : RouteAction) : Handler DeadlineSettings :=
  if a.needsDeadlines then do
    let settings ← orAnswer (← call .settings)
    return settings.deadlines
  else return {}

namespace Courier

def respondLoaded (e : Errand) : Handler CourierErrand := do
  let pickups ← loadPickups e
  return courierView buildingName e pickups

/-- `Handler.notCourier`, for a caller who is not the errand's courier. -/
def notCourier (a : RouteAction) (r : RouteRequest) (e : Errand) (expectedVersion : ℤ) :
    Handler CourierErrand := do
  let history ← orAnswer (← call (.courierHistory e.id r.caller zeroTime))
  if history.withdrewFromErrand = false then
    .fail (appErr .forbidden "only the errand's assigned courier may do this")
  else if a.done e r.caller expectedVersion then respondLoaded buildingName e
  else
    r.refuse requestID .courier a.announce stateConflicts e.id expectedVersion
      (appErr .errandUnavailable "you are no longer this errand's courier")

/-- `courier.Handler.transition`. -/
def transition (a : RouteAction) (r : RouteRequest) : Handler CourierErrand := do
  let id ← orAnswer (errandIDOf r.caller r.path)
  let (expectedVersion, reason) ← orAnswer r.body
  let e ← orAnswer (← call (.get id))
  if e.courierID ≠ r.caller then notCourier buildingName requestID a r e expectedVersion
  else if a.done e r.caller expectedVersion then respondLoaded buildingName e
  else do
    let deadlines ← a.deadlines
    let t ← r.decide e a.event .courier { reason := reason, deadlines := deadlines } expectedVersion
      (r.refuse requestID .courier a.announce stateConflicts id expectedVersion)
    let pickups ← loadPickups e
    let stored ← applyOrDuplicate id t (fun current => a.done current r.caller expectedVersion)
      (r.refuse requestID .courier a.announce stateConflicts id expectedVersion)
    return courierView buildingName stored pickups

end Courier

namespace Requester

def respondLoaded (e : Errand) : Handler RequesterErrand := do
  let pickups ← loadPickups e
  return requesterView buildingName e pickups

/-- `requester.Handler.transition`. -/
def transition (a : RouteAction) (r : RouteRequest) : Handler RequesterErrand := do
  let id ← orAnswer (errandIDOf r.caller r.path)
  let (expectedVersion, reason) ← orAnswer r.body
  let e ← orAnswer (← call (.get id))
  if e.requesterID ≠ r.caller then
    .fail (appErr .forbidden "only the errand's requester may do this")
  else if a.done e r.caller expectedVersion then respondLoaded buildingName e
  else do
    let t ← r.decide e a.event .requester { reason := reason } expectedVersion
      (r.refuse requestID .requester a.announce stateConflicts id expectedVersion)
    let pickups ← loadPickups e
    let stored ← applyOrDuplicate id t (fun current => a.done current r.caller expectedVersion)
      (r.refuse requestID .requester a.announce stateConflicts id expectedVersion)
    return requesterView buildingName stored pickups

end Requester

namespace Accept

def respond (e : Errand) : Handler CourierErrand := do
  let pickups ← loadPickups e
  return courierView buildingName e pickups

/-- `accept.Handler.eligibility`. -/
def eligibility (errandID courier : String) (now : ℤ) : Handler EventInput := do
  let settings ← orAnswer (← call .settings)
  let history ← orAnswer (← call (.courierHistory errandID courier
    (now - settings.withdrawalRestriction.window)))
  return acceptInput settings history

/-- `accept.Handler.accept`. -/
def accept (r : RouteRequest) : Handler CourierErrand := do
  let id ← orAnswer (errandIDOf r.caller r.path)
  let (expectedVersion, _) ← orAnswer r.body
  let e ← orAnswer (← call (.get id))
  if acceptedByCaller r.caller expectedVersion e then respond buildingName e
  else do
    let input ← eligibility e.id r.caller r.now
    let t ← r.decide e .accept .courier input expectedVersion
      (r.refuse requestID .courier (some .accept) [.errandChanged, .errandUnavailable] id
        expectedVersion)
    let stored ← applyOrDuplicate id t (acceptedByCaller r.caller expectedVersion)
      (r.refuse requestID .courier (some .accept) [.errandChanged, .errandUnavailable] id
        expectedVersion)
    respond buildingName stored

end Accept

/-! ## Browsing -/

/-- How one errand is shown. -/
inductive View where
  | requester (view : RequesterErrand)
  | courier (view : CourierErrand)
  | «public» (view : OpenErrandView)
  deriving DecidableEq

namespace Browse

/-- `browse.Handler.get`. -/
def get (caller path : String) : Handler View := do
  let id ← orAnswer (errandIDOf caller path)
  let e ← orAnswer (← call (.get id))
  if caller ≠ e.requesterID ∧ ¬ (e.courierID ≠ "" ∧ caller = e.courierID) ∧ e.status ≠ .open then
    .fail (notFound id)
  else do
    let pickups ← loadPickups e
    if caller = e.requesterID then return .requester (requesterView buildingName e pickups)
    else if e.courierID ≠ "" ∧ caller = e.courierID then
      return .courier (courierView buildingName e pickups)
    else return .«public» (publicView buildingName e pickups)

/-- All open errands, page by page. Loading is given up when it takes too long. -/
def loadErrands (now : ℤ) : ℕ → Option OpenCursor → Handler (List Errand)
  | 0, _ => .fail (.internal "context deadline exceeded")
  | fuel + 1, after => do
    let (items, rest) ← orAnswer (← call (.listOpen now after))
    match rest with
    | none => return items
    | some cursor => do
      let more ← loadErrands now fuel cursor
      return items ++ more

/-- The open views of errands. `known` holds the versions that were read before, with `none`
for one that the supplier service does not know; errands with such a one are hidden. -/
def openViews : List (String × Option SupplierVersion) → List Errand → Handler (List OpenErrandView)
  | _, [] => return []
  | known, e :: errands => do
    let id := e.details.supplierVersionID
    match known.lookup id with
    | some none => openViews known errands
    | some (some version) => do
      let views ← openViews known errands
      return openViewOf buildingName e version :: views
    | none => do
      match ← call (.getVersion id) with
      | .ok version => do
        let views ← openViews ((id, some version) :: known) errands
        return openViewOf buildingName e version :: views
      | .error err =>
        if err.hasCode [.supplierUnavailable] then openViews ((id, none) :: known) errands
        else .fail err

/-- `openSet.get`: from the cache, or loaded and then cached. -/
def openSet (now : ℤ) (fuel : ℕ) : Handler (List OpenErrandView) := do
  match ← call .cached with
  | some views => return views
  | none => do
    let errands ← loadErrands now fuel none
    let views ← openViews buildingName [] errands
    call (.cache views)
    return views

/-- `browse.Handler.list`. `page` filters, orders and cuts the views for the query of the
request at its time; `query` is what reading the query gave. -/
def list {κ ρ : Type} (page : List OpenErrandView → κ → ℤ → ρ) (caller : String)
    (query : Except StoreError κ) (now : ℤ) (fuel : ℕ) : Handler ρ := do
  orAnswer (callerOf caller)
  let q ← orAnswer query
  let views ← openSet buildingName now fuel
  return page views q now

end Browse

end Handlers

end FocServices.Orders
