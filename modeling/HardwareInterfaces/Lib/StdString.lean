import Mathlib.Data.List.Basic
import Mathlib.Data.List.TakeWhile

/-!
# Byte strings

`std::string` as the list of its bytes, with the few library functions that split and join text:
`std::getline` repeated to the end of a stream, `isspace` trimming, separator joins and `StartsWith`, and with
`std::stoi`.
-/

namespace CppStd

abbrev StdString := List UInt8

def str (s : String) : StdString := s.toList.map fun c => c.toNat.toUInt8

def newline : UInt8 := 10

def isspace (c : UInt8) : Bool := (9 ≤ c && c ≤ 13) || c = 32

def trim (s : StdString) : StdString := ((s.dropWhile isspace).reverse.dropWhile isspace).reverse

/-- The lines a `while (std::getline(ss, line))` loop sees, `cur` being the part of the current line
read so far. At the end of the stream the extraction fails iff no byte was left to extract. -/
def getlinesFrom (cur : StdString) : StdString → List StdString
  | [] => if cur = [] then [] else [cur]
  | c :: s => if c = newline then cur :: getlinesFrom [] s else getlinesFrom (cur ++ [c]) s

def getlines (s : StdString) : List StdString := getlinesFrom [] s

/-- `android::base::Join`: the parts in order, with the separator between them. -/
def join (sep : StdString) (parts : List StdString) : StdString := sep.intercalate parts

theorem splitOn_join (sep : UInt8) {parts : List StdString} (hne : parts ≠ []) :
    (join [sep] parts).splitOn sep = parts.flatMap fun part => part.splitOn sep := by
  induction parts with
  | nil => exact absurd rfl hne
  | cons part parts ih =>
    cases parts with
    | nil => simp [join]
    | cons next rest =>
      have hjoin : join [sep] (part :: next :: rest) = part ++ sep :: join [sep] (next :: rest) := by
        simp [join, List.intercalate_cons_cons]
      rw [hjoin, List.splitOn_append_cons_self, ih (List.cons_ne_nil _ _)]
      rfl

theorem join_eq_iff (sep : UInt8) {xs ys : List StdString} (hxs : xs ≠ []) (hys : ys ≠ []) :
    join [sep] xs = join [sep] ys ↔
      (xs.flatMap fun x => x.splitOn sep) = ys.flatMap fun y => y.splitOn sep := by
  rw [← splitOn_join sep hxs, ← splitOn_join sep hys]
  constructor
  · intro h
    rw [h]
  · intro h
    have hback := congrArg (List.intercalate [sep]) h
    rwa [List.intercalate_splitOn, List.intercalate_splitOn] at hback

theorem flatMap_splitOn_of_notMem {sep : UInt8} {parts : List StdString} (h : ∀ part ∈ parts, sep ∉ part) :
    (parts.flatMap fun part => part.splitOn sep) = parts := by
  induction parts with
  | nil => rfl
  | cons part parts ih =>
    obtain ⟨hpart, hparts⟩ := List.forall_mem_cons.mp h
    rw [List.flatMap_cons, List.splitOn_eq_singleton hpart, ih hparts, List.singleton_append]

/-- `android::base::StartsWith`. -/
def startsWith (s front : StdString) : Bool := front.isPrefixOf s

theorem startsWith_append (front s : StdString) : startsWith (front ++ s) front = true :=
  List.isPrefixOf_iff_prefix.mpr (List.prefix_append front s)

theorem exists_of_startsWith {s front : StdString} (h : startsWith s front = true) : ∃ text, s = front ++ text := by
  obtain ⟨text, htext⟩ := List.isPrefixOf_iff_prefix.mp h
  exact ⟨text, htext.symm⟩

/-- What `c_str` still shows of a string: the bytes before the first NUL. -/
def cStr (s : StdString) : StdString := s.takeWhile fun c => c ≠ 0

theorem cStr_of_notMem {s : StdString} (h : (0 : UInt8) ∉ s) : cStr s = s := by
  refine List.takeWhile_eq_self_iff.mpr fun c hc => decide_eq_true ?_
  rintro rfl
  exact h hc

def isdigit (c : UInt8) : Bool := 48 ≤ c && c ≤ 57

def decimal (digits : StdString) : Nat := digits.foldl (fun n c => 10 * n + (c.toNat - 48)) 0

def takeSign : StdString → Bool × StdString
  | [] => (false, [])
  | c :: s => if c = 45 then (true, s) else if c = 43 then (false, s) else (false, c :: s)

/-- The number at the start of a text and what follows it, as `strtol` reads them in base 10: white space, a sign,
digits; `none` without a digit. -/
def strtol (s : StdString) : Option (Int × StdString) :=
  let (minus, s) := takeSign (s.dropWhile isspace)
  let digits := s.takeWhile isdigit
  if digits = [] then none
  else some (if minus then -(decimal digits : Int) else decimal digits, s.dropWhile isdigit)

def inInt (v : Int) : Bool := -2147483648 ≤ v && v < 2147483648

/-- `std::stoi`, which ignores what follows the number; `none` if it throws. -/
def stoi (s : StdString) : Option Int := (strtol s).bind fun r => if inInt r.1 then some r.1 else none

/-- The value of a text that is an `int` and nothing else, leading white space aside. -/
def intValue (s : StdString) : Option Int :=
  (strtol s).bind fun r => if r.2 = [] && inInt r.1 then some r.1 else none

theorem stoi_of_intValue {s : StdString} {v : Int} (h : intValue s = some v) : stoi s = some v := by
  obtain ⟨r, hr, hv⟩ := Option.bind_eq_some_iff.mp h
  rw [Option.ite_none_right_eq_some, Bool.and_eq_true] at hv
  rw [stoi, hr, Option.bind_some, if_pos hv.1.2]
  exact hv.2

end CppStd
