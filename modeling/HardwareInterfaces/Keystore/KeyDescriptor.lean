import HardwareInterfaces.Keystore.CertConversion
import HardwareInterfaces.Lib.HexNumber

/-!
# Key descriptors

How the Wi-Fi keystore addresses a key of Keystore 2.0. An alias that starts with the grant id prefix is read as the
number of a grant; every other alias names a key in the namespace of Wi-Fi. The number is read from a stream into a
variable that is not initialised, so what the variable held before is a parameter (`tmp`). It makes no difference where
the text behind the prefix is a hexadecimal number (`mkKeyDescriptor_grant`).
-/

namespace HardwareInterfaces.Keystore

open CppStd

inductive Domain where
  | app
  | grant
  | selinux
  | blob
  | keyId
  deriving DecidableEq

/-- `ks2::KeyDescriptor`; `keyAlias` is its `alias`. -/
structure KeyDescriptor where
  domain : Domain
  nspace : Int64
  keyAlias : Option StdString
  blob : Option Bytes
  deriving DecidableEq

def ks2NamespaceWifi : Int64 := 102

def keystore2GrantIdPrefix : StdString := str "ks2_keystore-engine_grant_id:"

/-- The value of `tmp` after `s >> std::hex >> tmp`. That the number could not be read, or that something is left behind
it, is logged and nothing else. -/
def readGrantId (tmp : UInt64) (text : StdString) : UInt64 := (extractHex text).value.getD tmp

def mkKeyDescriptor (tmp : UInt64) (keyAlias : StdString) : KeyDescriptor :=
  if startsWith keyAlias keystore2GrantIdPrefix then
    { domain := .grant
      nspace := (readGrantId tmp (keyAlias.drop keystore2GrantIdPrefix.length)).toInt64
      keyAlias := none
      blob := none }
  else
    { domain := .selinux, nspace := ks2NamespaceWifi, keyAlias := some keyAlias, blob := none }

/-- The descriptor of `keyStore2GetCert`, which reads the number of a grant once more, into another variable. -/
def certDescriptor (tmp tmpCert : UInt64) (keyAlias : StdString) : KeyDescriptor :=
  let descriptor := mkKeyDescriptor tmp keyAlias
  if startsWith keyAlias keystore2GrantIdPrefix then
    { descriptor with
      nspace := (readGrantId tmpCert (keyAlias.drop keystore2GrantIdPrefix.length)).toInt64
      domain := .grant
      keyAlias := none }
  else descriptor

variable {keyAlias text : StdString} {v : UInt64}

def grantDescriptor (g : UInt64) : KeyDescriptor :=
  { domain := .grant, nspace := g.toInt64, keyAlias := none, blob := none }

/-- The descriptor of a key that Wi-Fi owns. -/
def wifiDescriptor (keyAlias : StdString) : KeyDescriptor :=
  { domain := .selinux, nspace := ks2NamespaceWifi, keyAlias := some keyAlias, blob := none }

theorem mkKeyDescriptor_prefixed (tmp : UInt64) (text : StdString) :
    mkKeyDescriptor tmp (keystore2GrantIdPrefix ++ text) = grantDescriptor (readGrantId tmp text) := by
  rw [mkKeyDescriptor, if_pos (startsWith_append _ _), List.drop_left]
  rfl

theorem mkKeyDescriptor_wifi (tmp : UInt64) (h : startsWith keyAlias keystore2GrantIdPrefix = false) :
    mkKeyDescriptor tmp keyAlias = wifiDescriptor keyAlias := by
  rw [mkKeyDescriptor, if_neg (by rw [h]; exact Bool.false_ne_true)]
  rfl

theorem readGrantId_of_hexNumber (tmp : UInt64) (h : hexNumber text = some v) : readGrantId tmp text = v := by
  rw [readGrantId, extractHex_of_hexNumber h]
  rfl

theorem mkKeyDescriptor_grant (tmp g : UInt64) :
    mkKeyDescriptor tmp (keystore2GrantIdPrefix ++ hex g) = grantDescriptor g := by
  rw [mkKeyDescriptor_prefixed, readGrantId_of_hexNumber tmp (hexNumber_hex g)]

theorem grantDescriptor_injective : Function.Injective grantDescriptor := by
  intro g g' h
  have hnspace : g.toInt64 = g'.toInt64 := congrArg KeyDescriptor.nspace h
  rw [← UInt64.toUInt64_toInt64 g, hnspace, UInt64.toUInt64_toInt64]

theorem wifiDescriptor_injective : Function.Injective wifiDescriptor := by
  intro a a' h
  exact Option.some.inj (congrArg KeyDescriptor.keyAlias h)

theorem wifiDescriptor_ne_grant (keyAlias : StdString) (g : UInt64) : wifiDescriptor keyAlias ≠ grantDescriptor g := by
  intro h
  cases congrArg KeyDescriptor.domain h

theorem certDescriptor_eq (tmp tmpCert : UInt64) (keyAlias : StdString) :
    certDescriptor tmp tmpCert keyAlias = mkKeyDescriptor tmpCert keyAlias := by
  by_cases h : startsWith keyAlias keystore2GrantIdPrefix = true
  · obtain ⟨text, rfl⟩ := exists_of_startsWith h
    rw [certDescriptor, if_pos h, mkKeyDescriptor_prefixed, mkKeyDescriptor_prefixed, List.drop_left]
    rfl
  · rw [certDescriptor, if_neg h]
    rw [Bool.not_eq_true] at h
    rw [mkKeyDescriptor_wifi tmp h, mkKeyDescriptor_wifi tmpCert h]

end HardwareInterfaces.Keystore
