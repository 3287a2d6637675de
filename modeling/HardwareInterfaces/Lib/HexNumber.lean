import HardwareInterfaces.Lib.StdString
import Mathlib.Data.Nat.Digits.Defs
import Mathlib.Data.List.TakeWhile

/-!
# Hexadecimal numbers on a stream

`extractHex` is `stream >> std::hex >> v` for a fresh stream over a text and a 64-bit unsigned `v`: white space, a sign
and the mark `0x` are accepted in front of the digits, the longest run of digits is read, and what follows it stays in
the stream. `hexNumber` is the number that a text is as a whole, and `hex` writes one. The stream reads back what
`hex` wrote (`hexNumber_hex`), and reads every text that is a number to its end (`extractHex_of_hexNumber`).
-/

namespace CppStd

/-! ### Digits -/

def isxdigit (c : UInt8) : Bool := isdigit c || (97 ≤ c && c ≤ 102) || (65 ≤ c && c ≤ 70)

def xdigitValue (c : UInt8) : Nat :=
  if isdigit c then c.toNat - 48 else if 97 ≤ c then c.toNat - 87 else c.toNat - 55

def hexValue (digits : StdString) : Nat := digits.foldl (fun n c => 16 * n + xdigitValue c) 0

def xdigit (d : Nat) : UInt8 := if d < 10 then UInt8.ofNat (48 + d) else UInt8.ofNat (87 + d)

/-- `std::hex << v`. -/
def hex (v : UInt64) : StdString :=
  if v = 0 then [xdigit 0] else (Nat.digits 16 v.toNat).reverse.map xdigit

theorem isxdigit_xdigit {d : Nat} (h : d < 16) : isxdigit (xdigit d) = true := by
  revert d
  decide

theorem xdigitValue_xdigit {d : Nat} (h : d < 16) : xdigitValue (xdigit d) = d := by
  revert d
  decide

theorem hexValue_map_xdigit {ds : List Nat} (h : ∀ d ∈ ds, d < 16) :
    hexValue (ds.reverse.map xdigit) = Nat.ofDigits 16 ds := by
  induction ds with
  | nil => rfl
  | cons d ds ih =>
    obtain ⟨hd, hds⟩ := List.forall_mem_cons.mp h
    rw [Nat.ofDigits_cons, ← ih hds]
    simp only [hexValue, List.reverse_cons, List.map_append, List.map_singleton, List.foldl_append, List.foldl_cons,
      List.foldl_nil, xdigitValue_xdigit hd]
    omega

theorem hexValue_hex (v : UInt64) : hexValue (hex v) = v.toNat := by
  unfold hex
  split
  · rename_i hzero
    subst hzero
    decide
  · rw [hexValue_map_xdigit fun d hd => Nat.digits_lt_base (by omega) hd, Nat.ofDigits_digits]

theorem hex_ne_nil (v : UInt64) : hex v ≠ [] := by
  unfold hex
  split
  · exact List.cons_ne_nil _ _
  · rename_i hne
    have hpos : v.toNat ≠ 0 := fun h => hne (UInt64.toNat_inj.mp h)
    simpa [Nat.digits_eq_nil_iff_eq_zero] using hpos

theorem isxdigit_of_mem_hex {v : UInt64} {c : UInt8} (h : c ∈ hex v) : isxdigit c = true := by
  unfold hex at h
  split at h
  · rw [List.mem_singleton.mp h]
    decide
  · obtain ⟨d, hd, rfl⟩ := List.mem_map.mp h
    exact isxdigit_xdigit (Nat.digits_lt_base (by omega) (List.mem_reverse.mp hd))

/-! ### Whole numbers -/

/-- The number a text is in base 16, nothing in front of it or behind it, if that fits 64 bits. -/
def hexNumber (text : StdString) : Option UInt64 :=
  if text ≠ [] ∧ text.all isxdigit ∧ hexValue text < UInt64.size then
    some (UInt64.ofNat (hexValue text))
  else none

theorem hexNumber_eq_some {text : StdString} {v : UInt64} : hexNumber text = some v ↔
    text ≠ [] ∧ (∀ c ∈ text, isxdigit c = true) ∧ hexValue text < UInt64.size ∧ UInt64.ofNat (hexValue text) = v := by
  rw [hexNumber, Option.ite_none_right_eq_some, Option.some.injEq, and_assoc, and_assoc, List.all_eq_true]

theorem hexNumber_hex (v : UInt64) : hexNumber (hex v) = some v := by
  refine hexNumber_eq_some.mpr ⟨hex_ne_nil v, fun c => isxdigit_of_mem_hex, ?_, ?_⟩
  · rw [hexValue_hex]
    exact v.toNat_lt
  · rw [hexValue_hex, UInt64.ofNat_toNat]

/-! ### Extraction from a stream -/

/-- What an extraction stores, `none` if the variable stays as it was, and the state it leaves the stream in. -/
structure Extracted where
  value : Option UInt64
  fail : Bool
  eof : Bool
  deriving DecidableEq

def dropMark : StdString → StdString
  | 48 :: c :: s => if c = 120 ∨ c = 88 then s else 48 :: c :: s
  | s => s

/-- `stream >> std::hex >> v` on a fresh stream. An exhausted stream stores nothing, a field that is not a number 0, and
a number that does not fit the largest value. A minus is taken modulo 2^64. -/
def extractHex (text : StdString) : Extracted :=
  let field := text.dropWhile isspace
  if field = [] then { value := none, fail := true, eof := true }
  else
    let (minus, unsigned) := takeSign field
    let digits := (dropMark unsigned).takeWhile isxdigit
    let eof := (dropMark unsigned).dropWhile isxdigit = []
    if digits = [] then { value := some 0, fail := true, eof }
    else if hexValue digits < UInt64.size then
      let v := UInt64.ofNat (hexValue digits)
      { value := some (if minus then -v else v), fail := false, eof }
    else { value := some (UInt64.ofNat (UInt64.size - 1)), fail := true, eof }

def Extracted.complete (e : Extracted) : Bool := !e.fail && e.eof

/-- The number that a text is to a reader who checks the state of the stream: nothing went wrong and nothing is left. -/
def readWhole (text : StdString) : Option UInt64 := if (extractHex text).complete then (extractHex text).value else none

theorem value_of_readWhole {text : StdString} {v : UInt64} (h : readWhole text = some v) :
    (extractHex text).value = some v :=
  (Option.ite_none_right_eq_some.mp h).2

theorem xdigit_cases {c : UInt8} (h : isxdigit c = true) : isspace c = false ∧ c ≠ 45 ∧ c ≠ 43 ∧ c ≠ 120 ∧ c ≠ 88 := by
  have hne : ∀ d : UInt8, isxdigit d = false → c ≠ d := by
    rintro d hd rfl
    rw [hd] at h
    cases h
  refine ⟨?_, hne 45 (by decide), hne 43 (by decide), hne 120 (by decide), hne 88 (by decide)⟩
  have hspace : c ≠ 32 := hne 32 (by decide)
  simp only [isxdigit, isdigit, Bool.or_eq_true, Bool.and_eq_true, decide_eq_true_eq, UInt8.le_iff_toNat_le,
    UInt8.reduceToNat] at h
  simp only [isspace, hspace, decide_false, Bool.or_false, Bool.and_eq_false_iff, decide_eq_false_iff_not,
    UInt8.le_iff_toNat_le, UInt8.reduceToNat]
  omega

theorem dropMark_of_xdigits {text : StdString} (h : ∀ c ∈ text, isxdigit c = true) : dropMark text = text := by
  unfold dropMark
  split
  · rename_i c s
    obtain ⟨-, -, -, hx, hX⟩ := xdigit_cases (h c (by simp))
    rw [if_neg (by simp [hx, hX])]
  · rfl

theorem extractHex_of_hexNumber {text : StdString} {v : UInt64} (h : hexNumber text = some v) :
    extractHex text = { value := some v, fail := false, eof := true } := by
  obtain ⟨hne, hdigits, hsize, rfl⟩ := hexNumber_eq_some.mp h
  obtain ⟨c, s, rfl⟩ := List.exists_cons_of_ne_nil hne
  obtain ⟨hspace, hminus, hplus, -⟩ := xdigit_cases (hdigits c List.mem_cons_self)
  have hfield : (c :: s).dropWhile isspace = c :: s := by
    rw [List.dropWhile_cons_of_neg (by simp [hspace])]
  have hsign : takeSign (c :: s) = (false, c :: s) := by
    rw [takeSign, if_neg hminus, if_neg hplus]
  have htake : (c :: s).takeWhile isxdigit = c :: s := List.takeWhile_eq_self_iff.mpr hdigits
  have hdrop : (c :: s).dropWhile isxdigit = [] := List.dropWhile_eq_nil_iff.mpr hdigits
  simp only [extractHex, hfield, hsign, dropMark_of_xdigits hdigits, htake, hdrop]
  rw [if_neg hne, if_neg hne, if_pos hsize]
  rfl

end CppStd
