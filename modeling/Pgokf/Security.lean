import Pgokf.Text
import Pgokf.Lib.Transaction

/-! # Errors, roles and tenants (`errors.rs`, `security.rs`) -/

namespace Pgokf

open Lib

/- With their SQLSTATEs 22023, 42501, 23505 and XX000. -/
inductive ErrorKind where
  | invalidParameter
  | insufficientPrivilege
  | duplicatePath
  | internal
  deriving DecidableEq

structure CatalogError where
  kind : ErrorKind
  message : String
  -- Path of the offending file inside its bundle, empty where no file is concerned.
  bundlePath : Text := []
  deriving DecidableEq

namespace CatalogError

def invalidParameter (message : String) : CatalogError := { kind := .invalidParameter, message }
def insufficientPrivilege (message : String) : CatalogError :=
  { kind := .insufficientPrivilege, message }
def duplicatePath (message : String) : CatalogError := { kind := .duplicatePath, message }
def internal (message : String) : CatalogError := { kind := .internal, message }

end CatalogError

inductive Role where
  | reader
  | writer
  | admin
  | dispatcher
  deriving DecidableEq

def Role.name : Role → String
  | .reader => "pgokf_reader"
  | .writer => "pgokf_writer"
  | .admin => "pgokf_admin"
  | .dispatcher => "pgokf_dispatcher"

inductive Operation where
  | register
  | ingest
  | search
  deriving DecidableEq

def satisfyingRoles : Operation → List Role
  | .search => [.reader, .writer, .admin]
  | .ingest => [.writer, .admin]
  | .register => [.admin]

def minimumRole : Operation → Role
  | .search => .reader
  | .ingest => .writer
  | .register => .admin

/- The caller: `pg_has_role(session_user, role, 'MEMBER')` and the raw setting `pgokf.tenant`. -/
structure Session where
  isMemberOf : Role → Bool
  tenant : Option Text

def authorize (operation : Operation) (session : Session) : Except CatalogError Unit :=
  ensure ((satisfyingRoles operation).any session.isMemberOf)
    (.insufficientPrivilege ("operation requires membership in " ++ (minimumRole operation).name))

structure TenantContext where
  sessionTenant : Option Text
  tenantRequired : Bool

def TenantContext.isUnscoped (context : TenantContext) : Bool :=
  match context.sessionTenant with
  | none => true
  | some t => t.isEmpty

def TenantContext.isDenied (context : TenantContext) : Bool :=
  context.isUnscoped && context.tenantRequired

def tenantRequiredError : CatalogError :=
  .insufficientPrivilege ("an active tenant is required: the catalog policy require_tenant is on and " ++
    "pgokf.tenant is not set for this session (SET pgokf.tenant = '<tenant>', or " ++
    "pin it with ALTER ROLE ... SET pgokf.tenant)")

def unknownBundleError (bundleId : Int) : CatalogError :=
  .invalidParameter ("bundle " ++ toString bundleId ++ " is not registered")

/-- `tenant_permits`: an unscoped session sees every tenant unless the policy requires one. -/
def tenantPermits (context : TenantContext) (bundleTenant : Option Text) : Bool :=
  match context.sessionTenant with
  | none => !context.tenantRequired
  | some [] => !context.tenantRequired
  | some active => bundleTenant == some active

def enforceActiveTenant (context : TenantContext) : Except CatalogError Unit :=
  ensure (!context.isDenied) tenantRequiredError

def authorizeCurrentUser (operation : Operation) (session : Session) (tenantRequired : Bool) :
    Except CatalogError Unit := do
  authorize operation session
  if operation = .ingest then
    enforceActiveTenant { sessionTenant := session.tenant, tenantRequired }
  else
    pure ()

/-- `authorize_dispatcher_current_user`: the outbox tier lies outside the reader/writer/admin
ladder. -/
def authorizeDispatcherCurrentUser (session : Session) : Except CatalogError Unit :=
  ensure ([Role.dispatcher, Role.admin].any session.isMemberOf)
    (.insufficientPrivilege ("operation requires membership in " ++ Role.dispatcher.name))

/- `enforce_bundle_tenant`, given the owner that the bundle's row names, if there is a row. -/
def enforceBundleTenant (session : Session) (tenantRequired : Bool) (bundleId : Int)
    (bundleTenant : Option Text) : Except CatalogError Unit :=
  let context : TenantContext := { sessionTenant := session.tenant, tenantRequired }
  if context.isDenied then .error tenantRequiredError
  else ensure (tenantPermits context bundleTenant) (unknownBundleError bundleId)

/- The predicate of the row-level-security policies, written inline by the functions that run with
the owner's rights. -/
def tenantPredicate (session : Session) (tenantRequired : Bool) (rowTenant : Text) : Bool :=
  let context : TenantContext := { sessionTenant := session.tenant, tenantRequired }
  (context.isUnscoped && !tenantRequired) || session.tenant == some rowTenant

end Pgokf
