import HardwareInterfaces.Lib.Chunks
import HardwareInterfaces.Lib.StdString

/-!
# Certificates

The two helpers of the Wi-Fi keystore that work on certificates, over an abstract certificate library.
`convertDerCertToPemOrPassthrough` turns a chain of DER certificates into PEM, chunk after chunk, and gives its input
back as it is when any part of it is not a certificate. `convert_spec` says what it returns in terms of `Reads`, for
every input and every pattern of failing library calls.
-/

namespace HardwareInterfaces.Keystore

open CppStd

abbrev Bytes := List UInt8

structure CertLib (X509 Pkey : Type) where
  d2iX509 : ChunkParser UInt8 X509
  /-- The text that `PEM_write_bio_X509` appends. -/
  pemX509 : X509 → Bytes
  pemReadBioX509 : Bytes → Option X509
  x509GetPubkey : X509 → Option Pkey
  /-- The bytes that `i2d_PUBKEY_bio` writes. -/
  i2dPubkey : Pkey → Bytes

/-- The calls of the library that may fail whatever they are given; `true` if they succeed. -/
structure CertCalls where
  /-- The call for each certificate of a conversion. -/
  pemWriteBioX509 : Nat → Bool := fun _ => true
  bioMemContents : Bool := true
  bioNewMemBuf : Bool := true
  bioNew : Bool := true
  i2dPubkeyBio : Bool := true

section conversion

variable {X509 Pkey : Type} (lib : CertLib X509 Pkey) (calls : CertCalls)

/-- The loop of `convertDerCertToPemOrPassthrough` at the input `certCurrent`, which the parser moves on, with `i`
certificates written to `pemBio` so far. -/
def convertLoop (certBytes : Bytes) (i : Nat) (pemBio certCurrent : Bytes) : Option Bytes :=
  if certCurrent = [] then
    if calls.bioMemContents then some pemBio else none
  else
    match _ : lib.d2iX509.parse certCurrent with
    | none => some certBytes
    | some (cert, n) =>
      if calls.pemWriteBioX509 i then
        convertLoop certBytes (i + 1) (pemBio ++ lib.pemX509 cert) (certCurrent.drop n)
      else none
termination_by certCurrent.length
decreasing_by exact ChunkParser.length_drop_lt ‹_›

def convertDerCertToPemOrPassthrough (certBytes : Bytes) : Option Bytes := convertLoop lib calls certBytes 0 [] certBytes

/-- The certificate in `extractPubKey`, in DER or else in PEM. -/
def decodedCert (certBytes : Bytes) : Option X509 :=
  match lib.d2iX509.parse certBytes with
  | some (cert, _) => some cert
  | none => if calls.bioNewMemBuf then lib.pemReadBioX509 certBytes else none

def extractPubKey (certBytes : Bytes) : Bytes :=
  match decodedCert lib calls certBytes with
  | none => []
  | some cert =>
    match lib.x509GetPubkey cert with
    | none => []
    | some pubKey =>
      if !calls.bioNew || !calls.i2dPubkeyBio then []
      else if !calls.bioMemContents then []
      else lib.i2dPubkey pubKey

end conversion

/-! ### What the conversion returns -/

/-- The first `n` PEM writes succeed. -/
def CertCalls.Writes (calls : CertCalls) (n : Nat) : Prop := ∀ i < n, calls.pemWriteBioX509 i = true

section spec

variable {X509 Pkey : Type} {lib : CertLib X509 Pkey} {calls calls' : CertCalls} {certBytes cur rest : Bytes}
  {certs : List X509}

theorem convertLoop_end (i : Nat) (pemBio : Bytes) :
    convertLoop lib calls certBytes i pemBio [] = if calls.bioMemContents then some pemBio else none := by
  rw [convertLoop, if_pos rfl]

theorem convertLoop_unparsed (hne : cur ≠ []) (h : lib.d2iX509.parse cur = none) (i : Nat) (pemBio : Bytes) :
    convertLoop lib calls certBytes i pemBio cur = some certBytes := by
  rw [convertLoop, if_neg hne]
  split
  · rfl
  · rename_i hsome
    rw [h] at hsome
    cases hsome

theorem convertLoop_cert {cert : X509} {n : Nat} (h : lib.d2iX509.parse cur = some (cert, n)) (i : Nat) (pemBio : Bytes) :
    convertLoop lib calls certBytes i pemBio cur =
      if calls.pemWriteBioX509 i then
        convertLoop lib calls certBytes (i + 1) (pemBio ++ lib.pemX509 cert) (cur.drop n)
      else none := by
  have hne : cur ≠ [] := by
    rintro rfl
    rw [ChunkParser.parse_nil] at h
    cases h
  rw [convertLoop, if_neg hne]
  split
  · rename_i hnone
    rw [h] at hnone
    cases hnone
  · rename_i cert' n' hsome
    rw [h] at hsome
    obtain ⟨rfl, rfl⟩ := Prod.mk.inj (Option.some.inj hsome)
    rfl

theorem convertLoop_of_reads (h : lib.d2iX509.Reads cur certs rest) {i : Nat}
    (hwrites : ∀ j < certs.length, calls.pemWriteBioX509 (i + j) = true) (pemBio : Bytes) :
    convertLoop lib calls certBytes i pemBio cur =
      convertLoop lib calls certBytes (i + certs.length) (pemBio ++ certs.flatMap lib.pemX509) rest := by
  induction h generalizing i pemBio with
  | done s => simp
  | @chunk s rest cert n certs hparse hreads ih =>
    have hnow : calls.pemWriteBioX509 i = true := hwrites 0 (by simp)
    have hlater : ∀ j < certs.length, calls.pemWriteBioX509 (i + 1 + j) = true := by
      intro j hj
      have hstep := hwrites (j + 1) (by simpa using hj)
      rwa [show i + (j + 1) = i + 1 + j by omega] at hstep
    rw [convertLoop_cert hparse, if_pos hnow, ih hlater, List.flatMap_cons, List.append_assoc, List.length_cons,
      show i + 1 + certs.length = i + (certs.length + 1) by omega]

theorem convertLoop_eq_none (h : lib.d2iX509.Reads cur certs rest) {i j : Nat} (hj : j < certs.length)
    (hfail : calls.pemWriteBioX509 (i + j) = false) (pemBio : Bytes) :
    convertLoop lib calls certBytes i pemBio cur = none := by
  induction h generalizing i j pemBio with
  | done s => cases hj
  | @chunk s rest cert n certs hparse hreads ih =>
    rw [convertLoop_cert hparse]
    split
    · rename_i hnow
      cases j with
      | zero =>
        rw [Nat.add_zero, hnow] at hfail
        cases hfail
      | succ j =>
        rw [show i + (j + 1) = i + 1 + j by omega] at hfail
        exact ih (by simpa using hj) hfail _
    · rfl

theorem convert_spec (h : lib.d2iX509.Reads certBytes certs rest) (hrest : lib.d2iX509.parse rest = none)
    (hwrites : calls.Writes certs.length) :
    convertDerCertToPemOrPassthrough lib calls certBytes =
      if rest ≠ [] then some certBytes
      else if calls.bioMemContents then some (certs.flatMap lib.pemX509) else none := by
  have hloop : convertLoop lib calls certBytes 0 [] certBytes = _ :=
    convertLoop_of_reads h (fun j hj => by rw [Nat.zero_add]; exact hwrites j hj) []
  rw [convertDerCertToPemOrPassthrough, hloop, List.nil_append]
  split
  · rename_i hne
    exact convertLoop_unparsed hne hrest _ _
  · rename_i hnil
    rw [not_not] at hnil
    rw [hnil, convertLoop_end]

theorem convert_failed (h : lib.d2iX509.Reads certBytes certs rest) (hfail : ¬ calls.Writes certs.length) :
    convertDerCertToPemOrPassthrough lib calls certBytes = none := by
  obtain ⟨j, hj, hwrite⟩ := by simpa only [CertCalls.Writes, not_forall] using hfail
  exact convertLoop_eq_none h hj (by rw [Nat.zero_add]; simpa using hwrite) []

theorem failed_of_convert (h : lib.d2iX509.Reads certBytes certs rest) (hrest : lib.d2iX509.parse rest = none)
    (hnone : convertDerCertToPemOrPassthrough lib calls certBytes = none) :
    ¬ calls.Writes certs.length ∨ calls.bioMemContents = false := by
  by_contra hok
  rw [not_or, not_not, Bool.not_eq_false] at hok
  rw [convert_spec h hrest hok.1, hok.2] at hnone
  split at hnone <;> cases hnone

theorem convert_eq_some {converted : Bytes} (h : lib.d2iX509.Reads certBytes certs rest)
    (hrest : lib.d2iX509.parse rest = none)
    (hconverted : convertDerCertToPemOrPassthrough lib calls certBytes = some converted) :
    (rest ≠ [] ∧ converted = certBytes) ∨
      (rest = [] ∧ converted = certs.flatMap lib.pemX509 ∧ calls.bioMemContents = true) := by
  have hwrites : calls.Writes certs.length := by
    by_contra hfail
    rw [convert_failed h hfail] at hconverted
    cases hconverted
  rw [convert_spec h hrest hwrites] at hconverted
  split at hconverted
  · rename_i hne
    exact Or.inl ⟨hne, (Option.some.inj hconverted).symm⟩
  · rename_i hnil
    rw [not_not] at hnil
    obtain ⟨hcontents, hpem⟩ := Option.ite_none_right_eq_some.mp hconverted
    exact Or.inr ⟨hnil, (Option.some.inj hpem).symm, hcontents⟩

/-- No PEM text parses as DER. -/
def CertLib.PemUnread (lib : CertLib X509 Pkey) : Prop :=
  ∀ certs : List X509, certs ≠ [] → lib.d2iX509.parse (certs.flatMap lib.pemX509) = none

theorem CertLib.PemUnread.parse (h : lib.PemUnread) (certs : List X509) :
    lib.d2iX509.parse (certs.flatMap lib.pemX509) = none := by
  by_cases hcerts : certs = []
  · rw [hcerts, List.flatMap_nil, ChunkParser.parse_nil]
  · exact h certs hcerts

theorem convert_again (hpem : lib.PemUnread)
    {converted : Bytes} (hconverted : convertDerCertToPemOrPassthrough lib calls certBytes = some converted)
    (hagain : convertDerCertToPemOrPassthrough lib calls' converted ≠ none) :
    convertDerCertToPemOrPassthrough lib calls' converted = some converted := by
  obtain ⟨again, hsome⟩ := Option.ne_none_iff_exists'.mp hagain
  obtain ⟨certs, rest, hreads, hrest⟩ := lib.d2iX509.exists_reads certBytes
  rcases convert_eq_some hreads hrest hconverted with ⟨hne, rfl⟩ | ⟨rfl, rfl, -⟩
  · -- the input as it was: the same reads again
    rcases convert_eq_some hreads hrest hsome with ⟨-, rfl⟩ | ⟨hnil, -⟩
    · exact hsome
    · exact absurd hnil hne
  · -- a PEM text, of which nothing can be read
    rcases convert_eq_some (.done _) (hpem.parse certs) hsome with ⟨-, rfl⟩ | ⟨hnil, rfl, -⟩
    · exact hsome
    · rw [hsome, hnil, List.flatMap_nil]

theorem convert_idempotent (hpem : lib.PemUnread) :
    (convertDerCertToPemOrPassthrough lib calls certBytes).bind (convertDerCertToPemOrPassthrough lib calls) =
      convertDerCertToPemOrPassthrough lib calls certBytes := by
  cases hconverted : convertDerCertToPemOrPassthrough lib calls certBytes with
  | none => rfl
  | some converted =>
    rw [Option.bind_some]
    refine convert_again hpem hconverted fun hnone => ?_
    obtain ⟨certs, rest, hreads, hrest⟩ := lib.d2iX509.exists_reads certBytes
    rcases convert_eq_some hreads hrest hconverted with ⟨-, rfl⟩ | ⟨rfl, rfl, hcontents⟩
    · rw [hconverted] at hnone
      cases hnone
    · rcases failed_of_convert (.done _) (hpem.parse certs) hnone with hwrites | hread
      · exact hwrites fun i hi => absurd hi (Nat.not_lt_zero i)
      · rw [hcontents] at hread
        cases hread

/-- The conversion gives the whole chain in PEM, or its input, or nothing when the library fails. -/
theorem convert_all_or_nothing (lib : CertLib X509 Pkey) (calls : CertCalls) (certBytes : Bytes) :
    (∃ certs rest, lib.d2iX509.Reads certBytes certs rest ∧ lib.d2iX509.parse rest = none) ∧
    (∀ certs, lib.d2iX509.Reads certBytes certs [] → calls.Writes certs.length → calls.bioMemContents = true →
      convertDerCertToPemOrPassthrough lib calls certBytes = some (certs.flatMap lib.pemX509)) ∧
    (∀ certs rest, lib.d2iX509.Reads certBytes certs rest → rest ≠ [] → lib.d2iX509.parse rest = none →
      calls.Writes certs.length → convertDerCertToPemOrPassthrough lib calls certBytes = some certBytes) ∧
    (convertDerCertToPemOrPassthrough lib calls certBytes = none →
      (∃ certs rest, lib.d2iX509.Reads certBytes certs rest ∧ ¬ calls.Writes certs.length) ∨
        calls.bioMemContents = false) ∧
    (∀ (der : X509 → Bytes) (certs : List X509),
      (∀ cert ∈ certs, ∀ rest, lib.d2iX509.parse (der cert ++ rest) = some (cert, (der cert).length)) →
      calls.Writes certs.length → calls.bioMemContents = true →
      convertDerCertToPemOrPassthrough lib calls (certs.flatMap der) = some (certs.flatMap lib.pemX509)) ∧
    (lib.PemUnread →
      (convertDerCertToPemOrPassthrough lib calls certBytes).bind (convertDerCertToPemOrPassthrough lib calls) =
        convertDerCertToPemOrPassthrough lib calls certBytes ∧
      ∀ calls' converted, convertDerCertToPemOrPassthrough lib calls certBytes = some converted →
        convertDerCertToPemOrPassthrough lib calls' converted ≠ none →
        convertDerCertToPemOrPassthrough lib calls' converted = some converted) := by
  have hchain : ∀ bytes certs, lib.d2iX509.Reads bytes certs [] → calls.Writes certs.length →
      calls.bioMemContents = true →
      convertDerCertToPemOrPassthrough lib calls bytes = some (certs.flatMap lib.pemX509) := by
    intro bytes certs hreads hwrites hcontents
    rw [convert_spec hreads ChunkParser.parse_nil hwrites, if_neg (by simp), if_pos hcontents]
  refine ⟨lib.d2iX509.exists_reads certBytes, hchain certBytes, ?_, ?_, ?_, ?_⟩
  · intro certs rest hreads hne hrest hwrites
    rw [convert_spec hreads hrest hwrites, if_pos hne]
  · intro hnone
    obtain ⟨certs, rest, hreads, hrest⟩ := lib.d2iX509.exists_reads certBytes
    exact (failed_of_convert hreads hrest hnone).imp (fun hwrites => ⟨certs, rest, hreads, hwrites⟩) id
  · intro der certs hder hwrites hcontents
    have hreads := ChunkParser.reads_flatMap hder []
    rw [List.append_nil] at hreads
    exact hchain _ certs hreads hwrites hcontents
  · exact fun hpem => ⟨convert_idempotent hpem, fun calls' converted => convert_again hpem⟩

end spec

/-! ### A library that knows one certificate -/

def emptyCert : Bytes := [
  48, 70, 48, 58, 2, 1, 1, 48, 5, 6, 3, 43, 101, 112, 48, 0, 48, 30, 23, 13, 50, 49, 48, 55,
  51, 48, 48, 48, 51, 54, 53, 57, 90, 23, 13, 50, 50, 48, 55, 51, 48, 48, 48, 51, 54, 53, 57, 90,
  48, 0, 48, 10, 48, 5, 6, 3, 43, 101, 112, 3, 1, 0, 48, 5, 6, 3, 43, 101, 112, 3, 1, 0]

def emptyCertPem : Bytes :=
  str "-----BEGIN CERTIFICATE-----\n" ++
  str "MEYwOgIBATAFBgMrZXAwADAeFw0yMTA3MzAwMDM2NTlaFw0yMjA3MzAwMDM2NTla\n" ++
  str "MAAwCjAFBgMrZXADAQAwBQYDK2VwAwEA\n" ++
  str "-----END CERTIFICATE-----\n"

/-- What the certificate library does with `emptyCert`, and with texts that are no certificates at all. -/
def emptyCertLib : CertLib Unit Unit where
  d2iX509 :=
    { parse := fun s => if emptyCert <+: s then some ((), emptyCert.length) else none
      consumes := by
        intro s x n h
        obtain ⟨hpre, hsome⟩ := Option.ite_none_right_eq_some.mp h
        obtain ⟨-, rfl⟩ := Prod.mk.inj (Option.some.inj hsome)
        exact ⟨by decide, hpre.length_le⟩ }
  pemX509 := fun _ => emptyCertPem
  pemReadBioX509 := fun s => if emptyCertPem <+: s then some () else none
  x509GetPubkey := fun _ => none
  i2dPubkey := fun _ => []

theorem emptyCertLib_parse (rest : Bytes) :
    emptyCertLib.d2iX509.parse (emptyCert ++ rest) = some ((), emptyCert.length) := by
  have hpre : emptyCert <+: emptyCert ++ rest := List.prefix_append _ _
  simp only [emptyCertLib]
  exact if_pos hpre

theorem emptyCertLib_parse_none {s : Bytes} (h : s.head? ≠ some 48) : emptyCertLib.d2iX509.parse s = none := by
  have hpre : ¬ emptyCert <+: s := by
    rintro ⟨tail, rfl⟩
    exact h rfl
  simp only [emptyCertLib]
  exact if_neg hpre

theorem emptyCertLib_pemUnread : emptyCertLib.PemUnread := by
  intro certs hne
  obtain ⟨cert, certs, rfl⟩ := List.exists_cons_of_ne_nil hne
  have hpem : emptyCertPem.head? = some 45 := by decide +kernel
  have hcert : emptyCertLib.pemX509 cert = emptyCertPem := by simp only [emptyCertLib]
  refine emptyCertLib_parse_none ?_
  rw [List.flatMap_cons, List.head?_append, hcert, hpem, Option.some_or]
  decide

/-- A chain of two certificates, and a certificate with a byte behind it. -/
theorem convert_all_or_nothing_emptyCert :
    convertDerCertToPemOrPassthrough emptyCertLib {} (emptyCert ++ emptyCert) = some (emptyCertPem ++ emptyCertPem) ∧
    convertDerCertToPemOrPassthrough emptyCertLib {} (emptyCert ++ [0]) = some (emptyCert ++ [0]) ∧
    (convertDerCertToPemOrPassthrough emptyCertLib {} (emptyCert ++ emptyCert)).bind
        (convertDerCertToPemOrPassthrough emptyCertLib {}) = some (emptyCertPem ++ emptyCertPem) := by
  obtain ⟨-, -, -, -, hder, hagain⟩ := convert_all_or_nothing emptyCertLib {} (emptyCert ++ emptyCert)
  obtain ⟨-, -, hpassed, -⟩ := convert_all_or_nothing emptyCertLib {} (emptyCert ++ [0])
  have htwo : convertDerCertToPemOrPassthrough emptyCertLib {} (emptyCert ++ emptyCert) =
      some (emptyCertPem ++ emptyCertPem) := by
    have hchain := hder (fun _ => emptyCert) [(), ()] (fun _ _ rest => emptyCertLib_parse rest) (fun _ _ => rfl) rfl
    simpa only [List.flatMap_cons, List.flatMap_nil, List.append_nil, emptyCertLib] using hchain
  have hreads : emptyCertLib.d2iX509.Reads (emptyCert ++ [0]) [()] [0] := by
    refine .chunk (emptyCertLib_parse [0]) ?_
    rw [List.drop_left]
    exact .done [0]
  have hunread : emptyCertLib.d2iX509.parse [0] = none := emptyCertLib_parse_none (by decide)
  refine ⟨htwo, hpassed [()] [0] hreads (List.cons_ne_nil _ _) hunread fun _ _ => rfl, ?_⟩
  rw [(hagain emptyCertLib_pemUnread).1]
  exact htwo

end HardwareInterfaces.Keystore
