import HardwareInterfaces.Keystore.StatusCodes
import HardwareInterfaces.Lib.Protocol

/-!
# Sessions with the keystores

What a request may ask of the two keystores, and when, as a protocol over the calls it makes. Its states say what the
request has got so far. An operation of Keystore 2.0 holds one of a few slots from `createOperation` until it is
finished, so a request that has created one may make no other call than `finish`. The legacy keystore is asked only for
a certificate that Keystore 2.0 does not give, and the result callback reports what is there to report once nothing is
left to try.

`handle_follows` is that every request keeps to it: whatever the services answer, it ends with the callback, or stops
at a key entry that it cannot use, and never with an operation that is still open.
-/

namespace HardwareInterfaces.Keystore

open CppStd Traced

section protocol

variable {X509 Pkey : Type} (env : Env X509 Pkey) (request : Request)

inductive Session where
  | opened
  /-- Keystore 2.0 has turned a call down. -/
  | refused
  | fetched (response : KeyEntryResponse)
  | operating (iOperation : KeystoreOperation)
  | signed (output : Bytes)
  /-- The legacy keystore has been asked. -/
  | fellBack (blob : Option Bytes)
  | answered

def KeyEntryResponse.requestedCert (response : KeyEntryResponse) (key : StdString) : Option Bytes :=
  if (certAlias key).1 then response.metadata.certificateChain else response.metadata.certificate

namespace Session

/-- The alias for which the legacy keystore is to be asked. -/
def legacyAlias : Session → Request → Option StdString
  | .opened, .getBlob key => if env.keystore2.isNone then some key else none
  | .refused, .getBlob key => some key
  | .fetched response, .getBlob key => if (response.requestedCert key).isNone then some key else none
  | _, _ => none

/-- What there is to report; `none` while there is something left to do with Keystore 2.0. -/
def report : Session → Request → Option (Option Bytes)
  | .opened, _ => if env.keystore2.isNone then some none else none
  | .refused, _ => some none
  | .fetched response, .getBlob key =>
    some ((response.requestedCert key).bind (convertDerCertToPemOrPassthrough env.lib env.calls))
  | .fetched response, .getPublicKey _ => some (response.metadata.certificate.map (extractPubKey env.lib env.calls))
  | .fetched response, .sign _ _ =>
    if (signingAlgorithm response.metadata.authorizations).isNone then some none else none
  | .operating _, _ => none
  | .signed output, _ => some (some output)
  | .fellBack blob, _ => some (blob.bind (convertDerCertToPemOrPassthrough env.lib env.calls))
  | .answered, _ => none

def fetch : Session → KeyDescriptor → Option Session
  | .opened, key =>
    if key = request.descriptor env then
      env.keystore2.map fun keystore2 => (keystore2.getKeyEntry key).elim .refused .fetched
    else none
  | _, _ => none

/-- An operation is created on the security level of the key entry, for signing with the algorithm that is authorized
last. -/
def create (s : Session) (request : Request) (key : KeyDescriptor) (operationParameters : List KeyParameter)
    (forced : Bool) : Option Session :=
  match s, request with
  | .fetched response, .sign _ _ =>
    if key = request.descriptor env ∧ forced = false ∧
        (signingAlgorithm response.metadata.authorizations).map opParams = some operationParameters then
      response.iSecurityLevel.map fun secLevel =>
        (secLevel.createOperation key operationParameters forced).elim .refused fun opResponse =>
          .operating opResponse.iOperation
    else none
  | _, _ => none

def finish (s : Session) (request : Request) (input : Bytes) (signature : Option Bytes) : Option Session :=
  match s, request with
  | .operating iOperation, .sign _ dataToSign =>
    if input = dataToSign ∧ signature = none then
      some ((iOperation.finish input signature).join.elim .refused .signed)
    else none
  | _, _ => none

def askLegacy (s : Session) (keyAlias : StdString) (uid : Nat) : Option Session :=
  if s.legacyAlias env request = some keyAlias ∧ uid = aidWifi then
    env.legacyKeystore.map fun legacyKeystore => .fellBack (legacyKeystore.get keyAlias uid)
  else none

/-- The callback waits for the legacy keystore, if that can be reached. -/
def due (s : Session) : Option (KeystoreStatusCode × Bytes) :=
  if (s.legacyAlias env request).isSome ∧ env.legacyKeystore.isSome then none else (s.report env request).map answer

def step (s : Session) : Call → Option Session
  | .getKeyEntry key => s.fetch env request key
  | .createOperation key operationParameters forced => s.create env request key operationParameters forced
  | .finish input signature => s.finish request input signature
  | .legacyGet keyAlias uid => s.askLegacy env request keyAlias uid
  | .hidlCb status value => if s.due env request = some (status, value) then some .answered else none

end Session

end protocol

section follows

variable {X509 Pkey : Type} {env : Env X509 Pkey} {request : Request} {s : Session}

def Session.NoEntry (env : Env X509 Pkey) (s : Session) : Prop := (s = .opened ∧ env.keystore2 = none) ∨ s = .refused

theorem Session.NoEntry.report (h : s.NoEntry env) : s.report env request = some none := by
  rcases h with ⟨rfl, hnone⟩ | rfl
  · rw [Session.report, hnone]
    rfl
  · rfl

theorem Session.NoEntry.legacyAlias (h : s.NoEntry env) (key : StdString) :
    s.legacyAlias env (.getBlob key) = some key := by
  rcases h with ⟨rfl, hnone⟩ | rfl
  · rw [Session.legacyAlias, hnone]
    rfl
  · rfl

end follows

end HardwareInterfaces.Keystore
