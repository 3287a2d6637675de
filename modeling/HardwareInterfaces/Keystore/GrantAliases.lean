import HardwareInterfaces.Keystore.Requests

/-!
# Grant aliases

Which key the requests address for an alias. With a well-formed alias every entry point addresses the same key
(`grant_aliases`). An alias whose number is malformed is reported in the log and used all the same: the requests
address the grant that happens to be in the variable (`malformed_grant_iff`).
-/

namespace HardwareInterfaces.Keystore

open CppStd Traced

variable {X509 Pkey : Type} {env : Env X509 Pkey} {keyAlias : StdString}

/-! ### The same key from every entry point -/

theorem notMem_append {front : StdString} (hfront : (0 : UInt8) ∉ front) (h : (0 : UInt8) ∉ keyAlias) :
    (0 : UInt8) ∉ front ++ keyAlias := by
  rw [List.mem_append, not_or]
  exact ⟨hfront, h⟩

theorem certAlias_user (h : (0 : UInt8) ∉ keyAlias) : certAlias (str "USRCERT_" ++ keyAlias) = (false, keyAlias) := by
  have hca : startsWith (str "USRCERT_" ++ keyAlias) (str "CACERT_") = false := rfl
  rw [certAlias, cStr_of_notMem (notMem_append (by decide) h), hca, startsWith_append]
  rfl

theorem certAlias_ca (h : (0 : UInt8) ∉ keyAlias) : certAlias (str "CACERT_" ++ keyAlias) = (true, keyAlias) := by
  rw [certAlias, cStr_of_notMem (notMem_append (by decide) h), startsWith_append]
  rfl

theorem pkeyAlias_user (h : (0 : UInt8) ∉ keyAlias) : pkeyAlias (str "USRPKEY_" ++ keyAlias) = keyAlias := by
  rw [pkeyAlias, cStr_of_notMem (notMem_append (by decide) h), startsWith_append]
  rfl

def requestsFor (keyAlias : StdString) (dataToSign : Bytes) : List Request :=
  [.getBlob (str "USRCERT_" ++ keyAlias), .getBlob (str "CACERT_" ++ keyAlias),
    .getPublicKey (str "USRPKEY_" ++ keyAlias), .sign (str "USRPKEY_" ++ keyAlias) dataToSign]

theorem keyAlias_of_mem {dataToSign : Bytes} (h : (0 : UInt8) ∉ keyAlias) {request : Request}
    (hmem : request ∈ requestsFor keyAlias dataToSign) : request.keyAlias = keyAlias := by
  simp only [requestsFor, List.mem_cons, List.not_mem_nil, or_false] at hmem
  rcases hmem with rfl | rfl | rfl | rfl
  · exact congrArg Prod.snd (certAlias_user h)
  · exact congrArg Prod.snd (certAlias_ca h)
  · exact pkeyAlias_user h
  · exact pkeyAlias_user h

def WellFormed (keyAlias : StdString) : Prop :=
  startsWith keyAlias keystore2GrantIdPrefix = false ∨ ∃ g, keyAlias = keystore2GrantIdPrefix ++ hex g

theorem WellFormed.descriptor (h : WellFormed keyAlias) (tmp tmp' : UInt64) :
    mkKeyDescriptor tmp keyAlias = mkKeyDescriptor tmp' keyAlias := by
  rcases h with hwifi | ⟨g, rfl⟩
  · rw [mkKeyDescriptor_wifi tmp hwifi, mkKeyDescriptor_wifi tmp' hwifi]
  · rw [mkKeyDescriptor_grant, mkKeyDescriptor_grant]

/-- Grant ids and aliases of Wi-Fi have descriptors of their own, and all entry points look up the same one. -/
theorem grant_aliases :
    (∀ tmp g, mkKeyDescriptor tmp (keystore2GrantIdPrefix ++ hex g) =
      { domain := .grant, nspace := g.toInt64, keyAlias := none, blob := none }) ∧
    (∀ tmp tmp' g g', mkKeyDescriptor tmp (keystore2GrantIdPrefix ++ hex g) =
      mkKeyDescriptor tmp' (keystore2GrantIdPrefix ++ hex g') → g = g') ∧
    (∀ tmp keyAlias, startsWith keyAlias keystore2GrantIdPrefix = false → mkKeyDescriptor tmp keyAlias =
      { domain := .selinux, nspace := ks2NamespaceWifi, keyAlias := some keyAlias, blob := none }) ∧
    (∀ tmp tmp' a a', startsWith a keystore2GrantIdPrefix = false → startsWith a' keystore2GrantIdPrefix = false →
      mkKeyDescriptor tmp a = mkKeyDescriptor tmp' a' → a = a') ∧
    (∀ tmp tmp' a a', startsWith a keystore2GrantIdPrefix = false → startsWith a' keystore2GrantIdPrefix = true →
      mkKeyDescriptor tmp a ≠ mkKeyDescriptor tmp' a') ∧
    (∀ keyAlias, (0 : UInt8) ∉ keyAlias → WellFormed keyAlias →
      ∃ descriptor, (∀ tmp, mkKeyDescriptor tmp keyAlias = descriptor) ∧
        ∀ (X509 Pkey : Type) (env : Env X509 Pkey) (dataToSign : Bytes), ∀ request ∈ requestsFor keyAlias dataToSign,
          ∀ key, key ∈ queries env request ↔ env.keystore2 ≠ none ∧ key = descriptor) := by
  refine ⟨mkKeyDescriptor_grant, ?_, fun tmp _ => mkKeyDescriptor_wifi tmp, ?_, ?_, ?_⟩
  · intro tmp tmp' g g' h
    rw [mkKeyDescriptor_grant, mkKeyDescriptor_grant] at h
    exact grantDescriptor_injective h
  · intro tmp tmp' a a' ha ha' h
    rw [mkKeyDescriptor_wifi tmp ha, mkKeyDescriptor_wifi tmp' ha'] at h
    exact wifiDescriptor_injective h
  · intro tmp tmp' a a' ha ha'
    obtain ⟨text, rfl⟩ := exists_of_startsWith ha'
    rw [mkKeyDescriptor_wifi tmp ha, mkKeyDescriptor_prefixed]
    exact wifiDescriptor_ne_grant a _
  · intro keyAlias hnul hwell
    refine ⟨mkKeyDescriptor 0 keyAlias, fun tmp => hwell.descriptor tmp 0, ?_⟩
    intro X509 Pkey env dataToSign request hrequest key
    rw [mem_queries_iff, Request.descriptor, keyAlias_of_mem hnul hrequest, hwell.descriptor _ 0]

theorem grant_aliases_ids :
    mkKeyDescriptor 7 (keystore2GrantIdPrefix ++ str "ff") =
      { domain := .grant, nspace := 255, keyAlias := none, blob := none } ∧
    mkKeyDescriptor 7 (keystore2GrantIdPrefix ++ str "fffffffffffffffe") =
      { domain := .grant, nspace := -2, keyAlias := none, blob := none } ∧
    mkKeyDescriptor 7 (str "USRPKEY_wifi") =
      { domain := .selinux, nspace := 102, keyAlias := some (str "USRPKEY_wifi"), blob := none } ∧
    ∃ descriptor, ∀ request ∈ requestsFor (keystore2GrantIdPrefix ++ str "ff") [1], ∀ env : Env Unit Unit,
      ∀ key, key ∈ queries env request ↔ env.keystore2 ≠ none ∧ key = descriptor := by
  obtain ⟨hgrant, -, hwifi, -, -, hsame⟩ := grant_aliases
  have hhex : hex 255 = str "ff" := by decide +kernel
  have hhex' : hex 18446744073709551614 = str "fffffffffffffffe" := by decide +kernel
  refine ⟨?_, ?_, hwifi 7 (str "USRPKEY_wifi") (by decide), ?_⟩
  · rw [← hhex, hgrant]
    decide
  · rw [← hhex', hgrant]
    decide
  · obtain ⟨descriptor, -, hqueries⟩ := hsame (keystore2GrantIdPrefix ++ str "ff") (by decide)
      (Or.inr ⟨255, by rw [hhex]⟩)
    exact ⟨descriptor, fun request hrequest env => hqueries Unit Unit env [1] request hrequest⟩

/-! ### Malformed numbers -/

/-- The alias of the request names a grant by a text that is no number. -/
def Request.Malformed (denotes : StdString → Option UInt64) (request : Request) : Prop :=
  ∃ text, request.keyAlias = keystore2GrantIdPrefix ++ text ∧ denotes text = none

/-- A malformed alias addresses no grant, and a grant is addressed only by the number that the alias names. -/
def WellAddressed (denotes : StdString → Option UInt64) (env : Env X509 Pkey) (request : Request) : Prop :=
  (request.Malformed denotes → ∀ key ∈ queries env request, key.domain ≠ .grant) ∧
  (∀ key ∈ queries env request, key.domain = .grant → ∃ text v,
    request.keyAlias = keystore2GrantIdPrefix ++ text ∧ denotes text = some v ∧ key.nspace = v.toInt64)

theorem descriptor_of_prefixed {text : StdString} {request : Request}
    (h : request.keyAlias = keystore2GrantIdPrefix ++ text) :
    request.descriptor env = grantDescriptor (readGrantId (request.tmp env) text) := by
  rw [Request.descriptor, h, mkKeyDescriptor_prefixed]

theorem grant_asked {text : StdString} {request : Request} (hreached : env.keystore2 ≠ none)
    (h : request.keyAlias = keystore2GrantIdPrefix ++ text) :
    grantDescriptor (readGrantId (request.tmp env) text) ∈ queries env request :=
  mem_queries_iff.mpr ⟨hreached, (descriptor_of_prefixed h).symm⟩

theorem wellAddressed_iff {denotes : StdString → Option UInt64}
    (hread : ∀ text v, denotes text = some v → (extractHex text).value = some v) (request : Request) :
    WellAddressed denotes env request ↔ env.keystore2 = none ∨ ¬ request.Malformed denotes := by
  constructor
  · rintro ⟨hunasked, -⟩
    by_contra hbad
    rw [not_or, not_not] at hbad
    obtain ⟨hreached, text, halias, hnone⟩ := hbad
    exact hunasked ⟨text, halias, hnone⟩ _ (grant_asked hreached halias) rfl
  · intro hgood
    have hquery : ∀ key ∈ queries env request, ¬ request.Malformed denotes ∧ key = request.descriptor env := by
      intro key hkey
      obtain ⟨hreached, rfl⟩ := mem_queries_iff.mp hkey
      exact ⟨hgood.resolve_left hreached, rfl⟩
    refine ⟨fun hmalformed key hkey => absurd hmalformed (hquery key hkey).1, fun key hkey hgrant => ?_⟩
    obtain ⟨hwell, rfl⟩ := hquery key hkey
    by_cases hstarts : startsWith request.keyAlias keystore2GrantIdPrefix = true
    · obtain ⟨text, halias⟩ := exists_of_startsWith hstarts
      have hnumber : denotes text ≠ none := fun hnone => hwell ⟨text, halias, hnone⟩
      obtain ⟨v, hv⟩ := Option.ne_none_iff_exists'.mp hnumber
      refine ⟨text, v, halias, hv, ?_⟩
      rw [descriptor_of_prefixed halias, readGrantId, hread text v hv]
      rfl
    · rw [Bool.not_eq_true] at hstarts
      rw [Request.descriptor, mkKeyDescriptor_wifi _ hstarts] at hgrant
      cases hgrant

/-- Grants are addressed by their numbers, and by nothing else, exactly if no malformed number gets to Keystore 2.0;
whether a number is what it is as a whole, or what the stream would take as a whole. -/
theorem malformed_grant_iff (env : Env X509 Pkey) (request : Request) :
    (WellAddressed hexNumber env request ↔ env.keystore2 = none ∨ ¬ request.Malformed hexNumber) ∧
    (WellAddressed readWhole env request ↔ env.keystore2 = none ∨ ¬ request.Malformed readWhole) := by
  refine ⟨wellAddressed_iff (fun text v h => ?_) request, wellAddressed_iff (fun text v h => ?_) request⟩
  · rw [extractHex_of_hexNumber h]
  · exact value_of_readWhole h

def noKeys : Env Unit Unit where
  keystore2 := some { getKeyEntry := fun _ => none }
  legacyKeystore := none
  lib := emptyCertLib
  calls := {}
  tmp := 57005
  tmpCert := 48879

/-- The grant 0x1f is addressed by a text that is not its number, and whatever was in the variable by no text. -/
theorem trailing_text_addressed :
    (Request.getPublicKey (str "USRPKEY_ks2_keystore-engine_grant_id:1fz")).keyAlias =
      keystore2GrantIdPrefix ++ str "1fz" ∧
    hexNumber (str "1fz") = none ∧
    grantDescriptor 31 ∈ queries noKeys (.getPublicKey (str "USRPKEY_ks2_keystore-engine_grant_id:1fz")) ∧
    ¬ WellAddressed hexNumber noKeys (.getPublicKey (str "USRPKEY_ks2_keystore-engine_grant_id:1fz")) ∧
    grantDescriptor 48879 ∈ queries noKeys (.getBlob (str "USRCERT_ks2_keystore-engine_grant_id:")) ∧
    ¬ WellAddressed hexNumber noKeys (.getBlob (str "USRCERT_ks2_keystore-engine_grant_id:")) := by
  have hreached : noKeys.keystore2 ≠ none := Option.some_ne_none _
  have halias : (Request.getPublicKey (str "USRPKEY_ks2_keystore-engine_grant_id:1fz")).keyAlias =
      keystore2GrantIdPrefix ++ str "1fz" := by decide
  have halias' : (Request.getBlob (str "USRCERT_ks2_keystore-engine_grant_id:")).keyAlias =
      keystore2GrantIdPrefix ++ str "" := by decide
  have hnumber : hexNumber (str "1fz") = none := by decide
  have hasked : grantDescriptor 31 ∈
      queries noKeys (.getPublicKey (str "USRPKEY_ks2_keystore-engine_grant_id:1fz")) := by
    have hread : readGrantId noKeys.tmp (str "1fz") = 31 := by decide
    rw [← hread]
    exact grant_asked hreached halias
  have hasked' : grantDescriptor 48879 ∈ queries noKeys (.getBlob (str "USRCERT_ks2_keystore-engine_grant_id:")) := by
    have hread : readGrantId noKeys.tmpCert (str "") = 48879 := by decide
    rw [← hread]
    exact grant_asked hreached halias'
  refine ⟨halias, hnumber, hasked, ?_, hasked', ?_⟩
  · rintro ⟨hunasked, -⟩
    exact hunasked ⟨_, halias, hnumber⟩ _ hasked rfl
  · rintro ⟨hunasked, -⟩
    exact hunasked ⟨_, halias', rfl⟩ _ hasked' rfl

end HardwareInterfaces.Keystore
