import HardwareInterfaces.Keystore.KeyDescriptor
import HardwareInterfaces.Lib.Traced

/-!
# The requests of the Wi-Fi keystore

`getBlob`, `getPublicKey` and `sign`, against whatever Keystore 2.0, the legacy keystore and the certificate library
answer. A request leaves a trace of the calls it makes, the one of its result callback included; log messages are left
out. It stops without an answer where the code dereferences what is not there: a null security level, or an algorithm
that a value does not hold.

Each helper of the source gets two lemmas, for what it returns and for the keys it asks for. `mem_queries_iff` puts
them together: a request asks Keystore 2.0 for one key and for no other.
-/

namespace HardwareInterfaces.Keystore

open CppStd Traced

/-! ### The services -/

inductive Tag where
  | purpose
  | algorithm
  | padding
  | digest
  | other (tag : Int32)
  deriving DecidableEq

inductive KeyPurpose where
  | sign
  | other (purpose : Int32)
  deriving DecidableEq

/-- `KMV1::Algorithm`, which is passed on as it comes. -/
structure Algorithm where
  algorithm : Int32
  deriving DecidableEq

inductive PaddingMode where
  | none
  | other (mode : Int32)
  deriving DecidableEq

inductive Digest where
  | none
  | other (digest : Int32)
  deriving DecidableEq

inductive KeyParameterValue where
  | keyPurpose (purpose : KeyPurpose)
  | algorithm (algorithm : Algorithm)
  | paddingMode (mode : PaddingMode)
  | digest (digest : Digest)
  | other (value : Bytes)
  deriving DecidableEq

structure KeyParameter where
  tag : Tag
  value : KeyParameterValue
  deriving DecidableEq

structure Authorization where
  keyParameter : KeyParameter
  deriving DecidableEq

structure KeyMetadata where
  authorizations : List Authorization
  certificate : Option Bytes
  certificateChain : Option Bytes

/-- `ks2::IKeystoreOperation`; `none` is a status that is not ok, here and in the interfaces below. -/
structure KeystoreOperation where
  finish (input : Bytes) (signature : Option Bytes) : Option (Option Bytes)

structure CreateOperationResponse where
  iOperation : KeystoreOperation

/-- `ks2::IKeystoreSecurityLevel`. -/
structure KeystoreSecurityLevel where
  createOperation (key : KeyDescriptor) (operationParameters : List KeyParameter) (forced : Bool) :
    Option CreateOperationResponse

structure KeyEntryResponse where
  iSecurityLevel : Option KeystoreSecurityLevel
  metadata : KeyMetadata

/-- `ks2::IKeystoreService`. -/
structure KeystoreService where
  getKeyEntry (key : KeyDescriptor) : Option KeyEntryResponse

structure LegacyKeystore where
  get (keyAlias : StdString) (uid : Nat) : Option Bytes

/-- What a request finds around it. -/
structure Env (X509 Pkey : Type) where
  /-- `none` if the service cannot be reached. -/
  keystore2 : Option KeystoreService
  legacyKeystore : Option LegacyKeystore
  lib : CertLib X509 Pkey
  calls : CertCalls
  /-- What the variable for the number of a grant holds before it is read, in `mkKeyDescriptor`. -/
  tmp : UInt64
  /-- The same in `keyStore2GetCert`. -/
  tmpCert : UInt64

inductive KeystoreStatusCode where
  | success
  | errorUnknown
  deriving DecidableEq

/-- A call that a request makes. -/
inductive Call where
  | getKeyEntry (key : KeyDescriptor)
  | createOperation (key : KeyDescriptor) (operationParameters : List KeyParameter) (forced : Bool)
  | finish (input : Bytes) (signature : Option Bytes)
  | legacyGet (keyAlias : StdString) (uid : Nat)
  | hidlCb (status : KeystoreStatusCode) (value : Bytes)

/-! ### The helpers -/

def aidWifi : Nat := 1010

section requests

variable {X509 Pkey : Type} (env : Env X509 Pkey)

/-- The connection to Keystore 2.0 and the call of `getKeyEntry`; nothing if either fails. -/
def fetchKeyEntry (descriptor : KeyDescriptor) : Traced Call (Option KeyEntryResponse) := do
  match env.keystore2 with
  | none => return none
  | some keystore2 =>
    send (.getKeyEntry descriptor)
    return keystore2.getKeyEntry descriptor

/-- Whether `keyStore2GetCert` is asked for the chain, and the alias. -/
def certAlias (key : StdString) : Bool × StdString :=
  let keyAlias := cStr key
  if startsWith keyAlias (str "CACERT_") then (true, keyAlias.drop 7)
  else if startsWith keyAlias (str "USRCERT_") then (false, keyAlias.drop 8)
  else (false, keyAlias)

/-- The alias in `keyStore2GetPubKey` and `keyStore2Sign`. -/
def pkeyAlias (key : StdString) : StdString :=
  let keyAlias := cStr key
  if startsWith keyAlias (str "USRPKEY_") then keyAlias.drop 8 else keyAlias

def keyStore2GetCert (key : StdString) : Traced Call (Option Bytes) := do
  let (caCert, keyAlias) := certAlias key
  match ← fetchKeyEntry env (certDescriptor env.tmp env.tmpCert keyAlias) with
  | none => return none
  | some response => return if caCert then response.metadata.certificateChain else response.metadata.certificate

def keyStore2GetPubKey (key : StdString) : Traced Call (Option Bytes) := do
  match ← fetchKeyEntry env (mkKeyDescriptor env.tmp (pkeyAlias key)) with
  | none => return none
  | some response =>
    match response.metadata.certificate with
    | none => return none
    | some certificate => return some (extractPubKey env.lib env.calls certificate)

def findAlgorithm (algorithm : Option Algorithm) : List Authorization → Traced Call (Option Algorithm)
  | [] => return algorithm
  | element :: authorizations =>
    if element.keyParameter.tag = .algorithm then
      match element.keyParameter.value with
      | .algorithm found => findAlgorithm (some found) authorizations
      | _ => abort
    else findAlgorithm algorithm authorizations

def opParams (algorithm : Algorithm) : List KeyParameter :=
  [{ tag := .purpose, value := .keyPurpose .sign },
    { tag := .algorithm, value := .algorithm algorithm },
    { tag := .padding, value := .paddingMode .none },
    { tag := .digest, value := .digest .none }]

def signWith (secLevel : KeystoreSecurityLevel) (descriptor : KeyDescriptor) (algorithm : Algorithm)
    (dataToSign : Bytes) : Traced Call (Option Bytes) := do
  send (.createOperation descriptor (opParams algorithm) false)
  match secLevel.createOperation descriptor (opParams algorithm) false with
  | none => return none
  | some opResponse =>
    send (.finish dataToSign none)
    match opResponse.iOperation.finish dataToSign none with
    | none => return none
    | some output => return output

def keyStore2Sign (key : StdString) (dataToSign : Bytes) : Traced Call (Option Bytes) := do
  let descriptor := mkKeyDescriptor env.tmp (pkeyAlias key)
  match ← fetchKeyEntry env descriptor with
  | none => return none
  | some response =>
    match ← findAlgorithm none response.metadata.authorizations with
    | none => return none
    | some algorithm =>
      match response.iSecurityLevel with
      | none => abort
      | some secLevel => signWith secLevel descriptor algorithm dataToSign

def getLegacyKeystoreBlob (key : StdString) : Traced Call (Option Bytes) := do
  match env.legacyKeystore with
  | none => return none
  | some legacyKeystore =>
    send (.legacyGet key aidWifi)
    return legacyKeystore.get key aidWifi

/-! ### The interface -/

/-- The call of the result callback: an error with no value if there is no result. -/
def hidlCb : Option Bytes → Traced Call Unit
  | some value => send (.hidlCb .success value)
  | none => send (.hidlCb .errorUnknown [])

/-- The certificate or blob of `getBlob`: from Keystore 2.0, else from the legacy keystore. -/
def resultCert (key : StdString) : Traced Call (Option Bytes) := do
  match ← keyStore2GetCert env key with
  | some ks2Cert => return some ks2Cert
  | none => getLegacyKeystoreBlob env key

def getBlob (key : StdString) : Traced Call Unit := do
  match ← resultCert env key with
  | none => hidlCb none
  | some cert => hidlCb (convertDerCertToPemOrPassthrough env.lib env.calls cert)

def getPublicKey (keyId : StdString) : Traced Call Unit := do
  hidlCb (← keyStore2GetPubKey env keyId)

def sign (keyId : StdString) (dataToSign : Bytes) : Traced Call Unit := do
  hidlCb (← keyStore2Sign env keyId dataToSign)

inductive Request where
  | getBlob (key : StdString)
  | getPublicKey (keyId : StdString)
  | sign (keyId : StdString) (dataToSign : Bytes)
  deriving DecidableEq

def handle : Request → Traced Call Unit
  | .getBlob key => getBlob env key
  | .getPublicKey keyId => getPublicKey env keyId
  | .sign keyId dataToSign => sign env keyId dataToSign

end requests

/-! ### What the helpers return -/

section spec

variable {X509 Pkey : Type} {env : Env X509 Pkey}

def Env.keyEntry (env : Env X509 Pkey) (descriptor : KeyDescriptor) : Option KeyEntryResponse :=
  env.keystore2.bind fun keystore2 => keystore2.getKeyEntry descriptor

theorem fetchKeyEntry_value (descriptor : KeyDescriptor) :
    (fetchKeyEntry env descriptor).value = some (env.keyEntry descriptor) := by
  unfold fetchKeyEntry Env.keyEntry
  cases env.keystore2 <;> simp

theorem keyStore2GetCert_value (key : StdString) :
    (keyStore2GetCert env key).value =
      some ((env.keyEntry (mkKeyDescriptor env.tmpCert (certAlias key).2)).bind fun response =>
        if (certAlias key).1 then response.metadata.certificateChain else response.metadata.certificate) := by
  unfold keyStore2GetCert
  rcases certAlias key with ⟨caCert, keyAlias⟩
  dsimp only
  rw [certDescriptor_eq, value_bind, fetchKeyEntry_value, Option.bind_some]
  cases env.keyEntry (mkKeyDescriptor env.tmpCert keyAlias) <;> rfl

theorem keyStore2GetPubKey_value (key : StdString) :
    (keyStore2GetPubKey env key).value =
      some ((env.keyEntry (mkKeyDescriptor env.tmp (pkeyAlias key))).bind fun response =>
        response.metadata.certificate.map (extractPubKey env.lib env.calls)) := by
  unfold keyStore2GetPubKey
  rw [value_bind, fetchKeyEntry_value, Option.bind_some]
  cases env.keyEntry (mkKeyDescriptor env.tmp (pkeyAlias key)) with
  | none => rfl
  | some response => cases hcert : response.metadata.certificate <;> simp [hcert]

/-- The algorithm of an authorization for one, if its value holds it. -/
def Authorization.algorithm (element : Authorization) : Option Algorithm :=
  if element.keyParameter.tag = .algorithm then
    match element.keyParameter.value with
    | .algorithm found => some found
    | _ => none
  else none

def AlgorithmsHeld (authorizations : List Authorization) : Prop :=
  ∀ element ∈ authorizations, element.keyParameter.tag = .algorithm → element.algorithm ≠ none

/-- The last algorithm that is authorized. -/
def signingAlgorithm (authorizations : List Authorization) : Option Algorithm :=
  (authorizations.filterMap Authorization.algorithm).getLast?

/-- The loop goes on with the algorithm of an authorization, keeps the one it has if there is none, and stops at an
authorization that should hold one and does not. -/
theorem findAlgorithm_cons (algorithm : Option Algorithm) (element : Authorization)
    (authorizations : List Authorization) :
    findAlgorithm algorithm (element :: authorizations) =
      if element.keyParameter.tag = .algorithm ∧ element.algorithm = none then abort
      else findAlgorithm (element.algorithm.or algorithm) authorizations := by
  rw [findAlgorithm]
  unfold Authorization.algorithm
  by_cases htag : element.keyParameter.tag = .algorithm
  · cases hvalue : element.keyParameter.value <;> simp [htag]
  · simp [htag]

theorem findAlgorithm_value {authorizations : List Authorization} (h : AlgorithmsHeld authorizations)
    (algorithm : Option Algorithm) :
    (findAlgorithm algorithm authorizations).value = some ((signingAlgorithm authorizations).or algorithm) := by
  induction authorizations generalizing algorithm with
  | nil => rfl
  | cons element authorizations ih =>
    obtain ⟨hnow, hlater⟩ := List.forall_mem_cons.mp h
    rw [findAlgorithm_cons, if_neg fun hbad => hnow hbad.1 hbad.2, ih hlater]
    cases halg : element.algorithm with
    | none => simp [signingAlgorithm, halg]
    | some found =>
      cases hrest : (authorizations.filterMap Authorization.algorithm).getLast? <;>
        simp [signingAlgorithm, halg, hrest, List.getLast?_cons]

theorem findAlgorithm_aborts {authorizations : List Authorization} (h : ¬ AlgorithmsHeld authorizations)
    (algorithm : Option Algorithm) : (findAlgorithm algorithm authorizations).value = none := by
  induction authorizations generalizing algorithm with
  | nil => exact absurd (fun _ hmem => absurd hmem List.not_mem_nil) h
  | cons element authorizations ih =>
    rw [findAlgorithm_cons]
    split
    · rfl
    · rename_i hgood
      refine ih (fun hlater => h (List.forall_mem_cons.mpr ⟨?_, hlater⟩)) _
      exact fun htag hnone => hgood ⟨htag, hnone⟩

def signature (secLevel : KeystoreSecurityLevel) (descriptor : KeyDescriptor) (algorithm : Algorithm)
    (dataToSign : Bytes) : Option Bytes :=
  (secLevel.createOperation descriptor (opParams algorithm) false).bind fun opResponse =>
    (opResponse.iOperation.finish dataToSign none).join

theorem signWith_value (secLevel : KeystoreSecurityLevel) (descriptor : KeyDescriptor) (algorithm : Algorithm)
    (dataToSign : Bytes) :
    (signWith secLevel descriptor algorithm dataToSign).value =
      some (signature secLevel descriptor algorithm dataToSign) := by
  unfold signWith signature
  cases hop : secLevel.createOperation descriptor (opParams algorithm) false with
  | none => simp
  | some opResponse => cases hfin : opResponse.iOperation.finish dataToSign none <;> simp [hfin]

theorem getLegacyKeystoreBlob_value (key : StdString) :
    (getLegacyKeystoreBlob env key).value =
      some (env.legacyKeystore.bind fun legacyKeystore => legacyKeystore.get key aidWifi) := by
  unfold getLegacyKeystoreBlob
  cases env.legacyKeystore <;> simp

def requestedCert (env : Env X509 Pkey) (key : StdString) : Option Bytes :=
  ((env.keyEntry (mkKeyDescriptor env.tmpCert (certAlias key).2)).bind fun response =>
    if (certAlias key).1 then response.metadata.certificateChain else response.metadata.certificate).or
      (env.legacyKeystore.bind fun legacyKeystore => legacyKeystore.get key aidWifi)

theorem resultCert_value (key : StdString) : (resultCert env key).value = some (requestedCert env key) := by
  unfold resultCert requestedCert
  rw [value_bind, keyStore2GetCert_value, Option.bind_some]
  split
  · rename_i hcert
    rw [hcert]
    rfl
  · rename_i hnone
    rw [hnone, getLegacyKeystoreBlob_value, Option.none_or]

/-! ### What the helpers call -/

/-- Calls that address no key of Keystore 2.0 but this one, that only if it can be reached, and no result callback. -/
def Call.About (env : Env X509 Pkey) (descriptor : KeyDescriptor) : Call → Prop
  | .getKeyEntry key => env.keystore2 ≠ none ∧ key = descriptor
  | .createOperation key _ _ => env.keystore2 ≠ none ∧ key = descriptor
  | .finish _ _ => True
  | .legacyGet _ _ => True
  | .hidlCb _ _ => False

theorem fetchKeyEntry_sends (descriptor : KeyDescriptor) :
    (fetchKeyEntry env descriptor).Sends (Call.About env descriptor) := by
  unfold fetchKeyEntry
  split
  · exact sends_pure _
  · rename_i keystore2 hreach
    refine sends_bind (sends_send ⟨?_, rfl⟩) fun _ _ => sends_pure _
    rw [hreach]
    exact Option.some_ne_none _

theorem reached_of_fetched {descriptor : KeyDescriptor} {response : KeyEntryResponse}
    (h : (fetchKeyEntry env descriptor).value = some (some response)) : env.keystore2 ≠ none := by
  intro hnone
  rw [fetchKeyEntry_value, Env.keyEntry, hnone] at h
  cases h

theorem keyStore2GetCert_sends (key : StdString) :
    (keyStore2GetCert env key).Sends (Call.About env (mkKeyDescriptor env.tmpCert (certAlias key).2)) := by
  unfold keyStore2GetCert
  rcases certAlias key with ⟨caCert, keyAlias⟩
  dsimp only
  rw [certDescriptor_eq]
  refine sends_bind (fetchKeyEntry_sends _) fun response _ => ?_
  cases response <;> exact sends_pure _

theorem keyStore2GetPubKey_sends (key : StdString) :
    (keyStore2GetPubKey env key).Sends (Call.About env (mkKeyDescriptor env.tmp (pkeyAlias key))) := by
  unfold keyStore2GetPubKey
  refine sends_bind (fetchKeyEntry_sends _) fun response _ => ?_
  cases response with
  | none => exact sends_pure _
  | some response =>
    dsimp only
    split <;> exact sends_pure _

theorem findAlgorithm_sends {P : Call → Prop} (algorithm : Option Algorithm) (authorizations : List Authorization) :
    (findAlgorithm algorithm authorizations).Sends P := by
  induction authorizations generalizing algorithm with
  | nil => exact sends_pure _
  | cons element authorizations ih =>
    rw [findAlgorithm_cons]
    split
    · exact sends_abort
    · exact ih _

theorem signWith_sends (secLevel : KeystoreSecurityLevel) (descriptor : KeyDescriptor) (algorithm : Algorithm)
    (dataToSign : Bytes) (hreached : env.keystore2 ≠ none) :
    (signWith secLevel descriptor algorithm dataToSign).Sends (Call.About env descriptor) := by
  unfold signWith
  refine sends_bind (sends_send ⟨hreached, rfl⟩) fun _ _ => ?_
  split
  · exact sends_pure _
  · refine sends_bind (sends_send trivial) fun _ _ => ?_
    split <;> exact sends_pure _

theorem keyStore2Sign_sends (key : StdString) (dataToSign : Bytes) :
    (keyStore2Sign env key dataToSign).Sends (Call.About env (mkKeyDescriptor env.tmp (pkeyAlias key))) := by
  unfold keyStore2Sign
  refine sends_bind (fetchKeyEntry_sends _) fun response hresponse => ?_
  cases response with
  | none => exact sends_pure _
  | some response =>
    refine sends_bind (findAlgorithm_sends _ _) fun algorithm _ => ?_
    cases algorithm with
    | none => exact sends_pure _
    | some algorithm =>
      dsimp only
      split
      · exact sends_abort
      · exact signWith_sends _ _ _ _ (reached_of_fetched hresponse)

theorem getLegacyKeystoreBlob_sends {descriptor : KeyDescriptor} (key : StdString) :
    (getLegacyKeystoreBlob env key).Sends (Call.About env descriptor) := by
  unfold getLegacyKeystoreBlob
  split
  · exact sends_pure _
  · exact sends_bind (sends_send trivial) fun _ _ => sends_pure _

theorem resultCert_sends (key : StdString) :
    (resultCert env key).Sends (Call.About env (mkKeyDescriptor env.tmpCert (certAlias key).2)) := by
  unfold resultCert
  refine sends_bind (keyStore2GetCert_sends key) fun ks2Cert _ => ?_
  cases ks2Cert with
  | none => exact getLegacyKeystoreBlob_sends key
  | some cert => exact sends_pure _

/-! ### What a request asks for -/

def Call.key : Call → Option KeyDescriptor
  | .getKeyEntry key => some key
  | .createOperation key _ _ => some key
  | _ => none

def queries (env : Env X509 Pkey) (request : Request) : List KeyDescriptor := (handle env request).observed Call.key

def Request.keyAlias : Request → StdString
  | .getBlob key => (certAlias key).2
  | .getPublicKey keyId => pkeyAlias keyId
  | .sign keyId _ => pkeyAlias keyId

/-- What the variable for the number of a grant holds, the last one that a request uses. -/
def Request.tmp (env : Env X509 Pkey) : Request → UInt64
  | .getBlob _ => env.tmpCert
  | .getPublicKey _ => env.tmp
  | .sign _ _ => env.tmp

def Request.descriptor (env : Env X509 Pkey) (request : Request) : KeyDescriptor :=
  mkKeyDescriptor (request.tmp env) request.keyAlias

/-- What a call asks Keystore 2.0 for is this key. -/
def Call.Asks (env : Env X509 Pkey) (descriptor : KeyDescriptor) (call : Call) : Prop :=
  ∀ key, call.key = some key → env.keystore2 ≠ none ∧ key = descriptor

theorem Call.About.asks {descriptor : KeyDescriptor} {call : Call} (h : call.About env descriptor) :
    call.Asks env descriptor := by
  intro key hkey
  cases call with
  | getKeyEntry asked =>
    obtain rfl := Option.some.inj hkey
    exact h
  | createOperation asked params forced =>
    obtain rfl := Option.some.inj hkey
    exact h
  | finish input signed => cases hkey
  | legacyGet keyAlias uid => cases hkey
  | hidlCb status value => cases hkey

theorem hidlCb_asks {descriptor : KeyDescriptor} (result : Option Bytes) :
    (hidlCb result).Sends (Call.Asks env descriptor) := by
  cases result <;> exact sends_send fun _ hkey => by cases hkey

theorem handle_asks (request : Request) :
    (handle env request).Sends (Call.Asks env (request.descriptor env)) := by
  cases request with
  | getBlob key =>
    refine sends_bind ((resultCert_sends key).mono fun _ => Call.About.asks) fun cert _ => ?_
    cases cert <;> exact hidlCb_asks _
  | getPublicKey keyId =>
    exact sends_bind ((keyStore2GetPubKey_sends keyId).mono fun _ => Call.About.asks) fun _ _ => hidlCb_asks _
  | sign keyId dataToSign =>
    exact sends_bind ((keyStore2Sign_sends keyId dataToSign).mono fun _ => Call.About.asks) fun _ _ => hidlCb_asks _

theorem getKeyEntry_mem (hreached : env.keystore2 ≠ none) (request : Request) :
    Call.getKeyEntry (request.descriptor env) ∈ (handle env request).sent := by
  obtain ⟨keystore2, hkeystore⟩ := Option.ne_none_iff_exists'.mp hreached
  have hfetch : ∀ descriptor, Call.getKeyEntry descriptor ∈ (fetchKeyEntry env descriptor).sent := by
    intro descriptor
    rw [fetchKeyEntry, hkeystore]
    exact mem_sent_bind (List.mem_singleton_self _) _
  cases request with
  | getBlob key =>
    refine mem_sent_bind (mem_sent_bind ?_ _) _
    unfold keyStore2GetCert Request.descriptor Request.tmp Request.keyAlias
    dsimp only
    rcases certAlias key with ⟨caCert, keyAlias⟩
    dsimp only
    rw [certDescriptor_eq]
    exact mem_sent_bind (hfetch _) _
  | getPublicKey keyId => exact mem_sent_bind (mem_sent_bind (hfetch _) _) _
  | sign keyId dataToSign => exact mem_sent_bind (mem_sent_bind (hfetch _) _) _

/-- A request asks Keystore 2.0 for its key and for no other. -/
theorem mem_queries_iff {request : Request} {key : KeyDescriptor} :
    key ∈ queries env request ↔ env.keystore2 ≠ none ∧ key = request.descriptor env := by
  constructor
  · intro h
    obtain ⟨call, hcall, hkey⟩ := List.mem_filterMap.mp h
    exact handle_asks request call hcall key hkey
  · rintro ⟨hreached, rfl⟩
    exact observed_of_mem (getKeyEntry_mem hreached request) rfl

end spec

end HardwareInterfaces.Keystore
