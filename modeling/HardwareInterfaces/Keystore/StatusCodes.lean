import HardwareInterfaces.Keystore.Requests

/-!
# Status codes

What a request should report is written down as a chain of partial steps (`expected`). The requests report it, through
one call of the result callback, except in the cases that `honest_iff` lists: a certificate without a public key that
can be extracted is reported as success with an empty value, and a signature cannot be asked for when a key comes
without its security level or with an algorithm that is none.
-/

namespace HardwareInterfaces.Keystore

open CppStd Traced

section steps

variable {X509 Pkey : Type} (lib : CertLib X509 Pkey) (calls : CertCalls)

def publicKey (certBytes : Bytes) : Option Bytes :=
  ((decodedCert lib calls certBytes).bind lib.x509GetPubkey).bind fun pubKey =>
    if calls.bioNew ∧ calls.i2dPubkeyBio ∧ calls.bioMemContents then some (lib.i2dPubkey pubKey) else none

/-- Every failure of `extractPubKey` looks like an empty key. -/
theorem extractPubKey_eq (certBytes : Bytes) :
    extractPubKey lib calls certBytes = (publicKey lib calls certBytes).getD [] := by
  unfold extractPubKey publicKey
  cases decodedCert lib calls certBytes with
  | none => rfl
  | some cert =>
    simp only [Option.bind_some]
    cases lib.x509GetPubkey cert with
    | none => rfl
    | some pubKey =>
      cases calls.bioNew <;> cases calls.i2dPubkeyBio <;> cases calls.bioMemContents <;> simp

end steps

variable {X509 Pkey : Type} {env : Env X509 Pkey}

/-! ### What is to be reported -/

def expected (env : Env X509 Pkey) : Request → Option Bytes
  | .getBlob key => (requestedCert env key).bind (convertDerCertToPemOrPassthrough env.lib env.calls)
  | .getPublicKey keyId =>
    (env.keyEntry (mkKeyDescriptor env.tmp (pkeyAlias keyId))).bind fun response =>
      response.metadata.certificate.bind (publicKey env.lib env.calls)
  | .sign keyId dataToSign =>
    (env.keyEntry (mkKeyDescriptor env.tmp (pkeyAlias keyId))).bind fun response =>
      (signingAlgorithm response.metadata.authorizations).bind fun algorithm =>
        response.iSecurityLevel.bind fun secLevel =>
          signature secLevel (mkKeyDescriptor env.tmp (pkeyAlias keyId)) algorithm dataToSign

def answer : Option Bytes → KeystoreStatusCode × Bytes
  | some value => (.success, value)
  | none => (.errorUnknown, [])

def Call.answered : Call → Option (KeystoreStatusCode × Bytes)
  | .hidlCb status value => some (status, value)
  | _ => none

def callbacks (env : Env X509 Pkey) (request : Request) : List (KeystoreStatusCode × Bytes) :=
  (handle env request).observed Call.answered

def Honest (env : Env X509 Pkey) (request : Request) : Prop := callbacks env request = [answer (expected env request)]

theorem answer_injective : Function.Injective answer := by
  intro r r' h
  cases r <;> cases r' <;> simp_all [answer]

/-! ### What is reported -/

/-- The result that a request comes to; nothing if it stops before that. -/
def outcome (env : Env X509 Pkey) : Request → Option (Option Bytes)
  | .getBlob key =>
    (resultCert env key).value.map fun cert => cert.bind (convertDerCertToPemOrPassthrough env.lib env.calls)
  | .getPublicKey keyId => (keyStore2GetPubKey env keyId).value
  | .sign keyId dataToSign => (keyStore2Sign env keyId dataToSign).value

theorem hidlCb_answered (result : Option Bytes) : (hidlCb result).observed Call.answered = [answer result] := by
  cases result <;> rfl

theorem answered_bind {x : Traced Call (Option Bytes)} {descriptor : KeyDescriptor}
    (h : x.Sends (Call.About env descriptor)) (k : Option Bytes → Option Bytes) :
    (x >>= fun result => hidlCb (k result)).observed Call.answered = ((x.value.map k).map answer).toList := by
  have hquiet : x.observed Call.answered = [] := by
    refine observed_eq_nil (h.mono fun call habout => ?_)
    cases call with
    | hidlCb status value => exact habout.elim
    | _ => rfl
  rw [observed_bind, hquiet, List.nil_append]
  cases x.value with
  | none => rfl
  | some result => exact hidlCb_answered (k result)

theorem callbacks_eq (env : Env X509 Pkey) (request : Request) :
    callbacks env request = ((outcome env request).map answer).toList := by
  cases request with
  | getBlob key =>
    have hbind : getBlob env key = resultCert env key >>= fun cert =>
        hidlCb (cert.bind (convertDerCertToPemOrPassthrough env.lib env.calls)) := by
      unfold getBlob
      congr 1
      funext cert
      cases cert <;> rfl
    rw [callbacks, handle, hbind]
    exact answered_bind (resultCert_sends key) _
  | getPublicKey keyId =>
    have hsends : (keyStore2GetPubKey env keyId).Sends _ := keyStore2GetPubKey_sends keyId
    have hanswered := answered_bind hsends id
    rwa [Option.map_id_apply] at hanswered
  | sign keyId dataToSign =>
    have hsends : (keyStore2Sign env keyId dataToSign).Sends _ := keyStore2Sign_sends keyId dataToSign
    have hanswered := answered_bind hsends id
    rwa [Option.map_id_apply] at hanswered

theorem honest_iff_outcome (request : Request) :
    Honest env request ↔ outcome env request = some (expected env request) := by
  rw [Honest, callbacks_eq]
  cases outcome env request with
  | none => simp
  | some result => simp [answer_injective.eq_iff]

/-! ### When it is what is to be reported -/

/-- A certificate of which the public key is asked gives one away, and what a signature needs is there. -/
def Answerable (env : Env X509 Pkey) : Request → Prop
  | .getBlob _ => True
  | .getPublicKey keyId => ∀ response, env.keyEntry (mkKeyDescriptor env.tmp (pkeyAlias keyId)) = some response →
    ∀ certificate, response.metadata.certificate = some certificate → publicKey env.lib env.calls certificate ≠ none
  | .sign keyId _ => ∀ response, env.keyEntry (mkKeyDescriptor env.tmp (pkeyAlias keyId)) = some response →
    AlgorithmsHeld response.metadata.authorizations ∧
      (signingAlgorithm response.metadata.authorizations ≠ none → response.iSecurityLevel ≠ none)

theorem getBlob_outcome (key : StdString) : outcome env (.getBlob key) = some (expected env (.getBlob key)) := by
  rw [outcome, resultCert_value]
  rfl

theorem getPublicKey_outcome_iff (keyId : StdString) :
    outcome env (.getPublicKey keyId) = some (expected env (.getPublicKey keyId)) ↔
      Answerable env (.getPublicKey keyId) := by
  rw [outcome, keyStore2GetPubKey_value, expected, Answerable]
  cases hentry : env.keyEntry (mkKeyDescriptor env.tmp (pkeyAlias keyId)) with
  | none => simp
  | some response =>
    cases hcert : response.metadata.certificate with
    | none => simp [hcert]
    | some certificate =>
      cases hkey : publicKey env.lib env.calls certificate <;> simp [hcert, hkey, extractPubKey_eq]

theorem keyStore2Sign_of_entry {keyId : StdString} {response : KeyEntryResponse}
    (h : env.keyEntry (mkKeyDescriptor env.tmp (pkeyAlias keyId)) = some response) (dataToSign : Bytes) :
    (keyStore2Sign env keyId dataToSign).value =
      (findAlgorithm none response.metadata.authorizations).value.bind fun
        | none => some none
        | some algorithm => response.iSecurityLevel.map fun secLevel =>
          signature secLevel (mkKeyDescriptor env.tmp (pkeyAlias keyId)) algorithm dataToSign := by
  unfold keyStore2Sign
  rw [value_bind, fetchKeyEntry_value, h, Option.bind_some, value_bind]
  congr 1
  funext algorithm
  cases algorithm with
  | none => rfl
  | some algorithm =>
    cases hlevel : response.iSecurityLevel with
    | none => simp
    | some secLevel => simp [signWith_value]

theorem sign_outcome_iff (keyId : StdString) (dataToSign : Bytes) :
    outcome env (.sign keyId dataToSign) = some (expected env (.sign keyId dataToSign)) ↔
      Answerable env (.sign keyId dataToSign) := by
  rw [outcome, expected, Answerable]
  cases hentry : env.keyEntry (mkKeyDescriptor env.tmp (pkeyAlias keyId)) with
  | none =>
    have hnone : (keyStore2Sign env keyId dataToSign).value = some none := by
      unfold keyStore2Sign
      rw [value_bind, fetchKeyEntry_value, hentry]
      rfl
    simp [hnone]
  | some response =>
    rw [keyStore2Sign_of_entry hentry]
    by_cases hheld : AlgorithmsHeld response.metadata.authorizations
    · rw [findAlgorithm_value hheld]
      cases halg : signingAlgorithm response.metadata.authorizations with
      | none => simp [halg, hheld]
      | some algorithm => cases hlevel : response.iSecurityLevel <;> simp [halg, hheld, hlevel]
    · simp [findAlgorithm_aborts hheld, hheld]

/-- Status codes are honest where the requests can be answered, and nowhere else. -/
theorem honest_iff (env : Env X509 Pkey) (request : Request) : Honest env request ↔ Answerable env request := by
  rw [honest_iff_outcome]
  cases request with
  | getBlob key => exact iff_of_true (getBlob_outcome key) trivial
  | getPublicKey keyId => exact getPublicKey_outcome_iff keyId
  | sign keyId dataToSign => exact sign_outcome_iff keyId dataToSign

def oneKey (certificate : Bytes) (algorithm : Algorithm) : Env Unit Unit where
  keystore2 := some {
    getKeyEntry := fun _ => some {
      iSecurityLevel := none
      metadata := {
        authorizations := [{ keyParameter := { tag := .algorithm, value := .algorithm algorithm } }]
        certificate := some certificate
        certificateChain := none } } }
  legacyKeystore := none
  lib := emptyCertLib
  calls := {}
  tmp := 0
  tmpCert := 0

/-- A certificate that is none is reported as an empty public key, and without a security level nothing is reported. -/
theorem undecodable_certificate_succeeds :
    callbacks (oneKey [1, 2, 3, 4] ⟨1⟩) (.getPublicKey (str "USRPKEY_wifi")) = [(.success, [])] ∧
    expected (oneKey [1, 2, 3, 4] ⟨1⟩) (.getPublicKey (str "USRPKEY_wifi")) = none ∧
    ¬ Honest (oneKey [1, 2, 3, 4] ⟨1⟩) (.getPublicKey (str "USRPKEY_wifi")) ∧
    callbacks (oneKey [1, 2, 3, 4] ⟨1⟩) (.sign (str "USRPKEY_wifi") [0]) = [] ∧
    ¬ Honest (oneKey [1, 2, 3, 4] ⟨1⟩) (.sign (str "USRPKEY_wifi") [0]) := by
  refine ⟨by decide +kernel, by decide +kernel, ?_, by decide +kernel, ?_⟩
  · rw [Honest]
    decide +kernel
  · rw [Honest]
    decide +kernel

end HardwareInterfaces.Keystore
