import FocServices.Txn.Calls
import FocServices.Txn.Rows
import FocServices.Uuid

/-!
# The account tables of the user service

The `accounts` table with its checks and unique indexes, the row of `bootstrap_state`,
and every statement the repository issues. All statements but those of the bootstrap
transaction commit by themselves. The bootstrap transaction holds the lock of its
coordination row, so at most one is open; its inserts are invisible to the others, which
wait for its end where a unique index needs them to.
-/

namespace FocServices.Accounts

open Txn

/-- Text functions that depend on Unicode tables and on the collation of the database. -/
structure Texts where
  /-- `strings.ToLower`. -/
  toLower : String → String
  /-- `lower` in the database. -/
  lower : String → String
  /-- The address that `mail.ParseAddress` reads. -/
  parseAddress : String → Option String

/-- `btrim`, which trims blanks only. -/
def btrim (s : String) : String :=
  .ofList ((s.toList.dropWhile (· == ' ')).reverse.dropWhile (· == ' ')).reverse

/-- The columns a repository function returns. -/
structure User where
  id : String
  auth0Subject : String
  username : String
  email : String
  active : Bool
  displayName : String
  mobile : String
  createdAt : ℤ
  updatedAt : ℤ
  deriving Repr, DecidableEq

/-- The call that inserted a row. -/
inductive Origin where
  | provision (call : ℕ)
  | bootstrap (call : ℕ)
  deriving Repr, DecidableEq

def Origin.isBootstrap : Origin → Bool
  | .bootstrap _ => true
  | .provision _ => false

/-- A row of `accounts`. `origin` is no column: it keeps, for the statements about runs,
who inserted the row. -/
structure Account extends User where
  deletedAt : Option ℤ
  origin : Origin
  deriving Repr, DecidableEq

structure CreateAuth0User where
  subject : String
  username : String
  email : String
  displayName : String
  deriving Repr, DecidableEq

structure ProfilePatch where
  displayName : Option String
  mobile : Option String
  deriving Repr, DecidableEq

/-- The `CHECK` constraints of `accounts`. -/
def Account.valid (texts : Texts) (a : Account) : Bool :=
  decide (1 ≤ a.username.toList.length ∧ a.username.toList.length ≤ 64) &&
  a.username == btrim a.username &&
  decide (1 ≤ a.email.toList.length ∧ a.email.toList.length ≤ 254) &&
  a.email == texts.lower (btrim a.email) &&
  decide (a.displayName.toList.length ≤ 100) && decide (a.mobile.toList.length ≤ 32) &&
  a.auth0Subject == btrim a.auth0Subject && a.auth0Subject != "" &&
  (a.deletedAt.isNone || !a.active)

/-- The row an insert makes, with the defaults of the other columns. -/
def CreateAuth0User.account (input : CreateAuth0User) (id : String) (now : ℤ) (origin : Origin) :
    Account where
  id := id
  auth0Subject := input.subject
  username := input.username
  email := input.email
  active := true
  displayName := input.displayName
  mobile := ""
  createdAt := now
  updatedAt := now
  deletedAt := none
  origin := origin

/-- The row of `bootstrap_state`. -/
structure BootstrapState where
  completedAt : Option ℤ
  bootstrapSubject : Option String
  deriving Repr, DecidableEq

/-- The open transaction that holds the lock of the coordination row: its call, the rows
it has inserted and the coordination row as it sees it. -/
structure BootTx where
  call : ℕ
  accounts : List Account
  state : BootstrapState
  deriving Repr, DecidableEq

/-- The committed tables and the bootstrap transaction that is open. -/
structure Db where
  accounts : List Account
  bootstrap : BootstrapState
  boot : Option BootTx
  deriving Repr, DecidableEq

/-- The database after the migrations. -/
def Db.empty : Db := ⟨[], ⟨none, none⟩, none⟩

/-- Rows inserted but not yet committed. -/
def Db.pending (db : Db) : List Account := (db.boot.map (·.accounts)).getD []

/-- The open transaction of a call. -/
def Db.tx (db : Db) (t : ℕ) : Option BootTx := db.boot.filter fun tx => tx.call == t

inductive RepoError where
  | notFound
  | conflict
  | inactive
  | canceled
  | failed
  deriving Repr, DecidableEq

/-- Whether a unique index other than the primary key forbids the two rows together. -/
def Account.clashes (texts : Texts) (a b : Account) : Bool :=
  texts.lower a.username == texts.lower b.username || texts.lower a.email == texts.lower b.email ||
  a.auth0Subject == b.auth0Subject

/-- The error of an insert that violates a unique index, as `translateError` reports it. -/
def violation (texts : Texts) (a : Account) (rows : List Account) : Option RepoError :=
  if rows.any (·.id == a.id) then some .failed
  else if rows.any (a.clashes texts) then some .conflict
  else none

/-- What Auth0 answers about an access token. -/
structure UserInfo where
  subject : String
  email : String
  emailVerified : Bool
  nickname : String
  name : String
  deriving Repr, DecidableEq

/-- The statements of the service, and its request to Auth0. -/
inductive Query where
  | findByAuth0Subject (subject : String)
  | insertAuth0 (input : CreateAuth0User)
  | findByID (id : String)
  | updateProfile (id : String) (patch : ProfilePatch)
  | softDelete (id : String)
  | userInfo (accessToken : String)
  | beginTx
  | lockBootstrap
  | bootstrapState
  | insertSuperAdmin (input : CreateAuth0User)
  | recordSubject (subject : String)
  | markCompleted
  | commit
  deriving Repr, DecidableEq

/-- What a statement returns. -/
abbrev Query.Value : Query → Type
  | .findByAuth0Subject _ | .insertAuth0 _ | .findByID _ | .updateProfile _ _ => User
  | .softDelete _ | .markCompleted => ℕ
  | .userInfo _ => UserInfo
  | .bootstrapState => Bool × Bool
  | .beginTx | .lockBootstrap | .insertSuperAdmin _ | .recordSubject _ | .commit => Unit

abbrev Query.Reply (q : Query) : Type := Except RepoError q.Value

/-- A statement whose reply is an error, because its context ended or for another reason.
It may have taken effect all the same. -/
structure Fault where
  canceled : Bool
  executed : Bool
  deriving Repr, DecidableEq

def Fault.error (f : Fault) : RepoError := if f.canceled then .canceled else .failed

/-- What the environment chooses for one statement: whether it fails, the id a default
generates, the time, and the answer of Auth0. -/
structure Choice where
  fault : Option Fault
  id : String
  now : ℤ
  profile : UserInfo
  deriving Repr, DecidableEq

def Account.edit (patch : ProfilePatch) (now : ℤ) (a : Account) : Account :=
  { a with
    displayName := patch.displayName.getD a.displayName
    mobile := patch.mobile.getD a.mobile
    updatedAt := now }

def Account.softDelete (now : ℤ) (a : Account) : Account :=
  { a with deletedAt := some now, updatedAt := now, active := false }

/-- `row.Scan` of a query for one row. -/
def scanUser (a : Option Account) : Except RepoError User :=
  match a with
  | some a => .ok a.toUser
  | none => .error .notFound

/-- Execute a statement that does not fail for a reason of its own. -/
def run (texts : Texts) (c : Choice) (t : ℕ) : (q : Query) → Db → Option (q.Reply × Db)
  | .findByAuth0Subject subject, db =>
    some (scanUser (db.accounts.find? fun a => a.auth0Subject == subject && a.deletedAt.isNone), db)
  | .insertAuth0 input, db =>
    let a := input.account c.id c.now (.provision t)
    if a.valid texts = false then some (.error .failed, db)
    -- `ON CONFLICT (auth0_subject) DO NOTHING` returns no row
    else if db.accounts.any (·.auth0Subject == a.auth0Subject) then some (.error .notFound, db)
    else if db.pending.any (·.auth0Subject == a.auth0Subject) then none
    else match violation texts a db.accounts with
      | some e => some (.error e, db)
      | none =>
        if (violation texts a db.pending).isSome then none
        else some (.ok a.toUser, { db with accounts := db.accounts ++ [a] })
  | .findByID id, db =>
    some (scanUser (db.accounts.find? fun a => a.id == id && a.deletedAt.isNone), db)
  | .updateProfile id patch, db =>
    match db.accounts.find? fun a => a.id == id && a.deletedAt.isNone && a.active with
    | none => some (.error .notFound, db)
    | some a =>
      if (a.edit patch c.now).valid texts = false then some (.error .failed, db)
      else some (.ok (a.edit patch c.now).toUser,
        { db with accounts := updateRow (·.id) id (Account.edit patch c.now) db.accounts })
  | .softDelete id, db =>
    match db.accounts.find? fun a => a.id == id && a.deletedAt.isNone with
    | none => some (.ok 0, db)
    | some _ =>
      some (.ok 1,
        { db with accounts := updateRow (·.id) id (Account.softDelete c.now) db.accounts })
  | .userInfo _, db => some (.ok c.profile, db)
  | .beginTx, db => some (.ok (), db)
  | .lockBootstrap, db =>
    match db.boot with
    | none => some (.ok (), { db with boot := some ⟨t, [], db.bootstrap⟩ })
    -- a transaction takes the lock once, so another one holds it
    | some _ => none
  | .bootstrapState, db =>
    match db.tx t with
    | none => some (.error .failed, db)
    | some tx =>
      some (.ok (tx.state.completedAt.isSome,
        (db.accounts ++ tx.accounts).any fun a => some a.auth0Subject == tx.state.bootstrapSubject),
        db)
  | .insertSuperAdmin input, db =>
    match db.tx t with
    | none => some (.error .failed, db)
    | some tx =>
      let a := input.account c.id c.now (.bootstrap t)
      if a.valid texts = false then some (.error .failed, db)
      else match violation texts a (db.accounts ++ tx.accounts) with
        | some e => some (.error e, db)
        | none => some (.ok (), { db with boot := some { tx with accounts := tx.accounts ++ [a] } })
  | .recordSubject subject, db =>
    match db.tx t with
    | none => some (.error .failed, db)
    | some tx =>
      some (.ok (), if tx.state.completedAt.isSome then db else { db with
        boot := some { tx with state := { tx.state with bootstrapSubject := some subject } } })
  | .markCompleted, db =>
    match db.tx t with
    | none => some (.error .failed, db)
    | some tx =>
      if tx.state.completedAt.isSome then some (.ok 0, db)
      else some (.ok 1, { db with
        boot := some { tx with state := { tx.state with completedAt := some c.now } } })
  | .commit, db =>
    match db.tx t with
    | none => some (.error .failed, db)
    | some tx => some (.ok (), ⟨db.accounts ++ tx.accounts, tx.state, none⟩)

/-- Execute a statement, or let it fail. -/
def exec (texts : Texts) (c : Choice) (t : ℕ) (q : Query) (db : Db) : Option (q.Reply × Db) :=
  match c.fault with
  | none => run texts c t q db
  | some f =>
    if f.executed then (run texts c t q db).map fun answer => (.error f.error, answer.2)
    else some (.error f.error, db)

/-- `tx.Rollback`, also for a connection that was lost. -/
def rollback (t : ℕ) (db : Db) : Db := if (db.tx t).isSome then { db with boot := none } else db

def service (texts : Texts) : Service Query Query.Reply Db Choice := ⟨exec texts, rollback⟩

/-! ## Repository functions -/

inductive Err where
  | identityMismatch
  | identityUnverified
  | identityIneligible
  | profileUnavailable
  | unavailable (e : RepoError)
  | repo (e : RepoError)
  | validation (field message : String)
  | bootstrapRecovery
  | bootstrapFailed (message : String)
  deriving Repr, DecidableEq

/-- Code of the service: statements, and decisions on their replies. -/
abbrev Code (α : Type) : Type := Program Query Query.Reply Err α

/-- Issue a statement. -/
def ask (q : Query) : Code q.Reply := Program.call q

/-- Continue with a value, or return the error as the caller maps it. -/
def orFail {α : Type} (f : RepoError → Err) : Except RepoError α → Code α
  | .ok a => .pure a
  | .error e => .fail (f e)

def createAuth0 (input : CreateAuth0User) : Code (Except RepoError (User × Bool)) := do
  match ← ask (.insertAuth0 input) with
  | .ok u => return .ok (u, true)
  | .error .notFound =>
    match ← ask (.findByAuth0Subject input.subject) with
    | .ok u => return .ok (u, false)
    | .error .notFound => return .error .conflict
    | .error e => return .error e
  | .error e => return .error e

def parseID (id : String) : Except RepoError String :=
  match scanUUID id with
  | some uuid => .ok uuid
  | none => .error .notFound

def findByID (id : String) : Code User := do
  let uuid ← orFail .repo (parseID id)
  orFail .repo (← ask (.findByID uuid))

def updateProfile (id : String) (patch : ProfilePatch) : Code User := do
  let uuid ← orFail .repo (parseID id)
  match ← ask (.updateProfile uuid patch) with
  | .error .notFound =>
    let existing ← findByID id
    if existing.active then .fail (.repo .notFound) else .fail (.repo .inactive)
  | .error e => .fail (.repo e)
  | .ok u => return u

def softDelete (id : String) : Code Unit := do
  let uuid ← orFail .repo (parseID id)
  let affected ← orFail .repo (← ask (.softDelete uuid))
  if affected = (0 : ℕ) then .fail (.repo .notFound) else return ()

/-- The callback runs while the transaction holds the lock of the coordination row. The
deferred rollback is what ends the call. -/
def withBootstrapLock (fn : Code Unit) : Code Unit := do
  orFail (fun _ => .bootstrapFailed "begin bootstrap transaction failed")
    (← ask .beginTx)
  orFail (fun _ => .bootstrapFailed
    "bootstrap coordination row unavailable; apply migrations before startup")
    (← ask .lockBootstrap)
  fn
  orFail (fun _ => .bootstrapFailed "commit bootstrap transaction failed")
    (← ask .commit)

def bootstrapState : Code (Bool × Bool) := do
  orFail (fun _ => .bootstrapFailed "read bootstrap state failed")
    (← ask .bootstrapState)

def createSuperAdmin (input : CreateAuth0User) : Code Unit := do
  orFail .repo (← ask (.insertSuperAdmin { input with displayName := "" }))
  orFail (fun _ => .bootstrapFailed "record bootstrap identity failed")
    (← ask (.recordSubject input.subject))

def markCompleted : Code Unit := do
  match ← ask .markCompleted with
  | .ok n =>
    if n = (1 : ℕ) then return ()
    else .fail (.bootstrapFailed "record bootstrap completion failed")
  | .error _ => .fail (.bootstrapFailed "record bootstrap completion failed")

/-! ## Service functions -/

/-- `strings.Cut` at a character. -/
def cutAt (s : String) (sep : Char) : Option (String × String) :=
  match s.toList.span (· ≠ sep) with
  | (_, []) => none
  | (before, _ :: after) => some (.ofList before, .ofList after)

def validText (value : String) (max : ℕ) : Bool :=
  decide (value.toList.length ≤ max) && value.toList.all fun c => !isControl c

def nusDomain (domain : String) : Bool := domain == "u.nus.edu"

def validNUSEmail (texts : Texts) (email : String) : Bool :=
  texts.parseAddress email == some email && decide (email.utf8ByteSize ≤ 254) &&
  match cutAt email '@' with
  | some (localPart, domain) =>
    localPart != "" && !(domain.toList.contains '@') && nusDomain domain
  | none => false

def truncateRunes (value : String) (max : ℕ) : String :=
  if value.toList.length ≤ max then value else .ofList (value.toList.take max)

/-- `Profile`, without the role and the balance, which other services know. -/
structure Profile where
  id : String
  username : String
  email : String
  active : Bool
  displayName : String
  mobile : String
  deriving Repr, DecidableEq

def profile (u : User) : Profile := ⟨u.id, u.username, u.email, u.active, u.displayName, u.mobile⟩

def requireActiveAccount (subject : String) : Code String := do
  match ← ask (.findByAuth0Subject subject) with
  | .error .notFound => .fail (.repo .notFound)
  | .error e => .fail (.unavailable e)
  | .ok u => if u.active then return u.id else .fail (.repo .inactive)

/-- The row that an identity of Auth0 is to become. -/
def provisioned (texts : Texts) (subject : String) (identity : UserInfo) :
    Except Err CreateAuth0User := do
  if identity.subject ≠ subject then throw .identityMismatch
  if !identity.emailVerified then throw .identityUnverified
  let email := texts.toLower (trimSpace identity.email)
  if !validNUSEmail texts email then throw .identityIneligible
  let nickname := trimSpace identity.nickname
  let username := if nickname == "" || !validText nickname 64 then
      truncateRunes ((cutAt email '@').map (·.1) |>.getD email) 64
    else nickname
  let name := trimSpace identity.name
  let displayName := if validText name 100 then name else ""
  return ⟨subject, username, email, displayName⟩

def provision (texts : Texts) (subject accessToken : String) : Code (Profile × Bool) := do
  if trimSpace subject == "" || trimSpace accessToken == "" then .fail .identityMismatch
  else match ← ask (.findByAuth0Subject subject) with
    | .ok u => if u.active then return (profile u, false) else .fail (.repo .inactive)
    | .error .notFound =>
      match ← ask (.userInfo accessToken) with
      | .error _ => .fail .profileUnavailable
      | .ok identity =>
        let input ← Program.ofExcept (provisioned texts subject identity)
        match ← createAuth0 input with
        | .error .conflict => .fail (.repo .conflict)
        | .error e => .fail (.unavailable e)
        | .ok made => return (profile made.1, made.2)
    | .error e => .fail (.unavailable e)

def activeAccount (id : String) : Code User := do
  if id == "" then .fail (.validation "identity" "an authenticated account identity is required")
  else
    let u ← findByID id
    if u.active then return u else .fail (.repo .inactive)

/-- `UserService.UpdateProfile`. -/
def updateAccount (id : String) (patch : ProfilePatch) : Code Profile := do
  if patch.displayName.isNone && patch.mobile.isNone then
    .fail (.validation "profile" "at least one editable field is required")
  else if patch.displayName.any fun name => !validText name 100 then
    .fail (.validation "display_name"
      "must be valid text of at most 100 characters without control characters")
  else if patch.mobile.any fun mobile => !validText mobile 32 then
    .fail (.validation "mobile_number"
      "must be valid text of at most 32 characters without control characters")
  else
    let _ ← activeAccount id
    return profile (← updateProfile id patch)

/-- `UserService.DeleteAccount`. -/
def deleteAccount (id : String) (confirmed : Bool) : Code Unit := do
  if !confirmed then
    .fail (.validation "confirmation" "explicit account deletion confirmation is required")
  else
    let _ ← activeAccount id
    softDelete id

/-- The identity a deployment supplies, normalised and checked. -/
def bootstrapInput (texts : Texts) (input : CreateAuth0User) : Except Err CreateAuth0User := do
  let subject := trimSpace input.subject
  let username := trimSpace input.username
  let email := texts.toLower (trimSpace input.email)
  let named := match cutAt subject '|' with
    | some (provider, id) => provider != "" && id != ""
    | none => false
  if !named || !validText subject 255 || subject.toList.any isSpace then
    throw (.validation "BOOTSTRAP_AUTH0_SUBJECT"
      "must be an existing Auth0 identity in provider|id format")
  if username == "" || !validText username 64 then
    throw (.validation "BOOTSTRAP_USERNAME"
      "must contain 1 to 64 characters without control characters")
  if texts.parseAddress email != some email || decide (254 < email.utf8ByteSize) ||
      !validText email 254 then
    throw (.validation "BOOTSTRAP_EMAIL" "must be a valid email address")
  return ⟨subject, username, email, input.displayName⟩

/-- The callback of `BootstrapSuperAdmin`. -/
def bootstrapCallback (texts : Texts) (input : CreateAuth0User) : Code Unit := do
  let state ← bootstrapState
  let completed := state.1
  let bootstrapAccountExists := state.2
  if completed then
    if bootstrapAccountExists then return () else .fail .bootstrapRecovery
  else if bootstrapAccountExists then markCompleted
  else
    let input ← Program.ofExcept (bootstrapInput texts input)
    createSuperAdmin input
    markCompleted

def bootstrapSuperAdmin (texts : Texts) (input : CreateAuth0User) : Code Unit :=
  withBootstrapLock (bootstrapCallback texts input)

/-! ## Calls -/

inductive Job where
  | provision (subject accessToken : String)
  | requireActiveAccount (subject : String)
  | updateProfile (id : String) (patch : ProfilePatch)
  | updateAccount (id : String) (patch : ProfilePatch)
  | softDelete (id : String)
  | deleteAccount (id : String) (confirmed : Bool)
  | bootstrap (input : CreateAuth0User)
  deriving Repr, DecidableEq

/-- What a call returns. -/
inductive Outcome where
  | provisioned (profile : Profile) (created : Bool)
  | account (id : String)
  | user (u : User)
  | updated (profile : Profile)
  | done
  deriving Repr, DecidableEq

/-- The code of a call. -/
def code (texts : Texts) : Job → Code Outcome
  | .provision subject accessToken => do
    let result ← provision texts subject accessToken
    return .provisioned result.1 result.2
  | .requireActiveAccount subject => return .account (← requireActiveAccount subject)
  | .updateProfile id patch => return .user (← updateProfile id patch)
  | .updateAccount id patch => return .updated (← updateAccount id patch)
  | .softDelete id => do
    softDelete id
    return .done
  | .deleteAccount id confirmed => do
    deleteAccount id confirmed
    return .done
  | .bootstrap input => do
    bootstrapSuperAdmin texts input
    return .done

abbrev Calls : Type := Traffic Job Query Query.Reply Err Outcome Db

end FocServices.Accounts
