import Mathlib.Data.List.Basic
import Mathlib.Data.List.TakeWhile
import Mathlib.Data.Nat.Digits.Defs
import Mathlib.Tactic.Common

/-!
# C strings and the library calls that read and print them

A C string is the list of the bytes in front of its terminating NUL. The calls
modelled here are those the server makes on such strings: `strtok`, `sscanf`
with `%d`, `%hu` and a bounded `%s`, `snprintf` with `%s` and `%d`, and the
letter-case comparison of `tolower`.

Numbers are scanned as glibc scans them. The digits are converted in 64 bits
with saturation, and the result is then truncated to the width of the
variable it is stored in.
-/

set_option autoImplicit false

namespace DnsServer

/-- The bytes of a C string, without the terminating NUL. -/
abbrev CString := List UInt8

/-- An ASCII literal of the source as a C string. -/
def cstr (literal : String) : CString := literal.toList.map fun c => UInt8.ofNat c.toNat

/-- What a string function reads from a buffer: everything in front of the
first NUL. -/
def cutAtNul (buffer : List UInt8) : CString := buffer.takeWhile (· ≠ 0)

/-- A text keeps its whole length when it is cut at the first NUL only if it
contains none. -/
theorem cutAtNul_eq_self_iff {text : List UInt8} : cutAtNul text = text ↔ 0 ∉ text := by
  rw [cutAtNul, List.takeWhile_eq_self_iff]
  constructor
  · intro clean member
    simpa using clean 0 member
  · intro clean byte member
    simp only [ne_eq, decide_not, Bool.not_eq_eq_eq_not, Bool.not_true, decide_eq_false_iff_not]
    rintro rfl
    exact clean member

theorem cutAtNul_concat_nul (text : List UInt8) : cutAtNul (text ++ [0]) = cutAtNul text := by
  induction text with
  | nil => rfl
  | cons byte text ih =>
      simp only [cutAtNul, List.cons_append, List.takeWhile_cons] at ih ⊢
      rw [ih]

namespace Libc

/-! ## Character classes -/

/-- `isspace` in the C locale. -/
def isSpace (c : UInt8) : Bool := c == 32 || (9 ≤ c && c ≤ 13)

/-- `isdigit`. -/
def isDigit (c : UInt8) : Bool := 48 ≤ c && c ≤ 57

/-- `tolower` in the C locale. -/
def toLower (c : UInt8) : UInt8 := if 65 ≤ c && c ≤ 90 then c + 32 else c

/-- Two strings compare equal without regard to letter case. -/
def sameIgnoringCase (first second : CString) : Bool :=
  first.map toLower == second.map toLower

@[simp] theorem sameIgnoringCase_self (text : CString) : sameIgnoringCase text text = true := by
  simp [sameIgnoringCase]

theorem length_eq_of_sameIgnoringCase {first second : CString}
    (same : sameIgnoringCase first second) : first.length = second.length := by
  have lengths := congrArg List.length (beq_iff_eq.mp same)
  rwa [List.length_map, List.length_map] at lengths

theorem sameIgnoringCase_append {first second more others : CString}
    (front : sameIgnoringCase first second) (back : sameIgnoringCase more others) :
    sameIgnoringCase (first ++ more) (second ++ others) := by
  simp only [sameIgnoringCase, beq_iff_eq, List.map_append] at front back ⊢
  rw [front, back]

theorem sameIgnoringCase_take {first second : CString} (same : sameIgnoringCase first second)
    (count : Nat) : sameIgnoringCase (first.take count) (second.take count) := by
  simp only [sameIgnoringCase, beq_iff_eq, List.map_take] at same ⊢
  rw [same]

/-- Bytes that differ in letter case are letters. -/
theorem toLower_eq_cases {byte other : UInt8} (same : toLower byte = toLower other) :
    byte = other ∨ (65 ≤ byte.toNat ∧ 65 ≤ other.toNat) := by
  simp only [toLower, Bool.and_eq_true, decide_eq_true_eq, UInt8.le_iff_toNat_le] at same
  have low : (65 : UInt8).toNat = 65 := rfl
  have high : (90 : UInt8).toNat = 90 := rfl
  have shift : ∀ letter : UInt8, letter.toNat ≤ 90 → (letter + 32).toNat = letter.toNat + 32 := by
    intro letter small
    rw [UInt8.toNat_add, show (32 : UInt8).toNat = 32 from rfl]
    omega
  split at same <;> split at same
  · omega
  · next upper _ =>
    have equal := shift byte (by omega)
    rw [same] at equal
    omega
  · next _ upper =>
    have equal := shift other (by omega)
    rw [← same] at equal
    omega
  · exact .inl same

/-! ## Printing -/

/-- The decimal digits of a natural number. -/
def decimalNat (n : Nat) : CString := (Nat.toDigits 10 n).map fun c => UInt8.ofNat c.toNat

/-- `%d`. -/
def decimal : Int → CString
  | .ofNat n => decimalNat n
  | .negSucc n => 45 :: decimalNat (n + 1)

/-- `snprintf` into a buffer of the given size keeps one byte for the NUL. -/
def snprintf (size : Nat) (text : CString) : CString := text.take (size - 1)

theorem snprintf_of_length_lt {size : Nat} {text : CString} (short : text.length < size) :
    snprintf size text = text :=
  List.take_of_length_le (by omega)

/-! ## Byte order -/

/-- The bytes in memory of a 16-bit number in network order. -/
def htons (n : Nat) : List UInt8 := [UInt8.ofNat (n / 256), UInt8.ofNat n]

/-- The bytes in memory of a 32-bit number in network order. -/
def htonl (n : Nat) : List UInt8 := htons (n / 65536) ++ htons n

@[simp] theorem length_htons (n : Nat) : (htons n).length = 2 := rfl

@[simp] theorem length_htonl (n : Nat) : (htonl n).length = 4 := rfl

/-! ## Scanning -/

/-- Leave out leading white space. -/
def skipSpace (text : CString) : CString := text.dropWhile isSpace

/-- The value of a string of decimal digits. -/
def numeral (digits : CString) : Nat :=
  digits.foldl (fun value digit => 10 * value + (digit.toNat - 48)) 0

/-- An optional sign: whether it is a minus, and the text after it. -/
def scanSign : CString → Bool × CString
  | 45 :: rest => (true, rest)
  | 43 :: rest => (false, rest)
  | rest => (false, rest)

/-- A number: white space, an optional sign, at least one digit. -/
def scanNumber (text : CString) : Option ((Bool × Nat) × CString) :=
  let (negative, rest) := scanSign (skipSpace text)
  let digits := rest.takeWhile isDigit
  if digits = [] then none else some ((negative, numeral digits), rest.dropWhile isDigit)

/-- Saturate at the bounds of a signed 64-bit integer, then truncate to an
`int`. -/
def toInt (negative : Bool) (magnitude : Nat) : Int :=
  let value : Int := if negative then max (-2 ^ 63) (-(magnitude : Int))
    else min (2 ^ 63 - 1) (magnitude : Int)
  value.bmod (2 ^ 32)

/-- Saturate at the bound of an unsigned 64-bit integer, negate modulo `2 ^ 64`
when there was a minus, then truncate to an `unsigned short`. -/
def toUnsignedShort (negative : Bool) (magnitude : Nat) : Nat :=
  (if 2 ^ 64 ≤ magnitude then 2 ^ 64 - 1
    else if negative then 2 ^ 64 - magnitude else magnitude) % 2 ^ 16

/-- `%d`. -/
def scanInt (text : CString) : Option (Int × CString) :=
  (scanNumber text).map fun ((negative, magnitude), rest) => (toInt negative magnitude, rest)

/-- `%hu`. -/
def scanUnsignedShort (text : CString) : Option (Nat × CString) :=
  (scanNumber text).map fun ((negative, magnitude), rest) =>
    (toUnsignedShort negative magnitude, rest)

/-- `%255s` and its like: white space, then at least one and at most `width`
bytes that are not white space. -/
def scanWord (width : Nat) (text : CString) : Option CString :=
  let word := ((skipSpace text).takeWhile fun c => !isSpace c).take width
  if word = [] then none else some word

/-! ## Scanning what was printed -/

/-- The bytes at the front of a text that satisfy a predicate, when the first of
the rest does not. -/
theorem span_append {holds : UInt8 → Bool} {front rest : CString} (all : ∀ c ∈ front, holds c)
    (stop : ∀ c ∈ rest.head?, holds c = false) :
    (front ++ rest).takeWhile holds = front ∧ (front ++ rest).dropWhile holds = rest := by
  rw [List.takeWhile_append_of_pos all, List.dropWhile_append_of_pos all]
  cases rest with
  | nil => simp
  | cons c rest => simp [stop c rfl]

theorem decimalNat_of_lt {n : Nat} (small : n < 10) : decimalNat n = [UInt8.ofNat (48 + n)] := by
  rw [decimalNat, Nat.toDigits_of_lt_base small, List.map_singleton,
    Nat.toNat_digitChar_of_lt_ten small]

theorem decimalNat_of_le {n : Nat} (large : 10 ≤ n) :
    decimalNat n = decimalNat (n / 10) ++ [UInt8.ofNat (48 + n % 10)] := by
  rw [decimalNat, Nat.toDigits_of_base_le (by decide) large, List.map_append, List.map_singleton,
    Nat.toNat_digitChar_of_lt_ten (Nat.mod_lt n (by decide)), decimalNat]

theorem decimalNat_ne_nil (n : Nat) : decimalNat n ≠ [] := by
  simp [decimalNat, Nat.toDigits_ne_nil]

theorem length_decimalNat_le {n bound : Nat} (positive : 0 < bound) (small : n < 10 ^ bound) :
    (decimalNat n).length ≤ bound := by
  rw [decimalNat, List.length_map]
  exact (Nat.length_toDigits_le_iff (by decide) positive).mpr small

theorem toNat_digit {digit : Nat} (small : digit < 10) :
    (UInt8.ofNat (48 + digit)).toNat = 48 + digit := by
  simp
  omega

theorem isDigit_digit {digit : Nat} (small : digit < 10) : isDigit (UInt8.ofNat (48 + digit)) := by
  have value := toNat_digit small
  simp only [isDigit, Bool.and_eq_true, decide_eq_true_eq, UInt8.le_iff_toNat_le, value]
  exact ⟨by simp, by simp; omega⟩

/-- A printed number consists of digits. -/
theorem isDigit_of_mem_decimalNat {n : Nat} : ∀ c ∈ decimalNat n, isDigit c := by
  induction n using Nat.strongRecOn with
  | ind n ih =>
      intro c member
      by_cases small : n < 10
      · rw [decimalNat_of_lt small, List.mem_singleton] at member
        exact member ▸ isDigit_digit small
      · rw [decimalNat_of_le (Nat.le_of_not_lt small), List.mem_append] at member
        rcases member with front | last
        · exact ih (n / 10) (by omega) c front
        · rw [List.mem_singleton.mp last]
          exact isDigit_digit (Nat.mod_lt n (by decide))

/-- **The digits of a number have its value.** -/
theorem numeral_decimalNat (n : Nat) : numeral (decimalNat n) = n := by
  induction n using Nat.strongRecOn with
  | ind n ih =>
      by_cases small : n < 10
      · rw [decimalNat_of_lt small, numeral, List.foldl_cons, List.foldl_nil, toNat_digit small]
        omega
      · have front := ih (n / 10) (by omega)
        rw [numeral] at front
        rw [decimalNat_of_le (Nat.le_of_not_lt small), numeral, List.foldl_append, front,
          List.foldl_cons, List.foldl_nil, toNat_digit (Nat.mod_lt n (by decide))]
        omega

theorem isDigit_range {c : UInt8} (digit : isDigit c) : 48 ≤ c.toNat ∧ c.toNat ≤ 57 := by
  simpa [isDigit, UInt8.le_iff_toNat_le] using digit

theorem isSpace_eq_false {c : UInt8} (visible : 33 ≤ c.toNat) : isSpace c = false := by
  simp only [isSpace, Bool.or_eq_false_iff, beq_eq_false_iff_ne, ne_eq, Bool.and_eq_false_iff,
    decide_eq_false_iff_not, UInt8.le_iff_toNat_le]
  constructor
  · rintro rfl
    simp at visible
  · right
    simp
    omega

theorem skipSpace_of_visible {c : UInt8} {rest : CString} (visible : 33 ≤ c.toNat) :
    skipSpace (c :: rest) = c :: rest := by
  simp [skipSpace, isSpace_eq_false visible]

/-- Digits are scanned up to the first other byte. -/
theorem scanNumber_digits {digits rest : CString} (nonempty : digits ≠ [])
    (all : ∀ c ∈ digits, isDigit c) (stop : ∀ c ∈ rest.head?, isDigit c = false) :
    scanNumber (digits ++ rest) = some ((false, numeral digits), rest) := by
  obtain ⟨split, left⟩ := span_append all stop
  cases digits with
  | nil => exact absurd rfl nonempty
  | cons first digits =>
      have range := isDigit_range (all first List.mem_cons_self)
      have unsigned : scanSign (first :: (digits ++ rest)) = (false, first :: (digits ++ rest)) := by
        unfold scanSign
        split
        · next same =>
          cases same
          simp at range
        · next same =>
          cases same
          simp at range
        · rfl
      rw [List.cons_append] at split left ⊢
      simp only [scanNumber, skipSpace_of_visible (show 33 ≤ first.toNat by omega), unsigned, split,
        left]
      rw [if_neg nonempty]

/-- **A printed integer is scanned back.** -/
theorem scanNumber_decimal (n : Int) {rest : CString}
    (stop : ∀ c ∈ rest.head?, isDigit c = false) :
    scanNumber (decimal n ++ rest) = some ((decide (n < 0), n.natAbs), rest) := by
  cases n with
  | ofNat n =>
      rw [decimal, scanNumber_digits (decimalNat_ne_nil n) isDigit_of_mem_decimalNat stop,
        numeral_decimalNat]
      rfl
  | negSucc n =>
      obtain ⟨split, left⟩ := span_append (@isDigit_of_mem_decimalNat (n + 1)) stop
      rw [decimal, List.cons_append]
      simp only [scanNumber, skipSpace_of_visible (show 33 ≤ (45 : UInt8).toNat by decide), scanSign,
        split, left]
      rw [if_neg (decimalNat_ne_nil (n + 1)), numeral_decimalNat]
      simp [Int.negSucc_lt_zero]

/-- A word is scanned behind white space, up to the width. -/
theorem scanWord_word {width : Nat} {blanks word rest : CString} (positive : 0 < width)
    (nonempty : word ≠ []) (space : ∀ c ∈ blanks, isSpace c)
    (clean : ∀ c ∈ word, isSpace c = false) (stop : ∀ c ∈ rest.head?, isSpace c) :
    scanWord width (blanks ++ (word ++ rest)) = some (word.take width) := by
  have start : skipSpace (blanks ++ (word ++ rest)) = word ++ rest := by
    refine (span_append space fun c member => ?_).2
    cases word with
    | nil => exact absurd rfl nonempty
    | cons first word =>
        rw [List.cons_append, List.head?_cons, Option.mem_some_iff] at member
        exact member ▸ clean first List.mem_cons_self
  have split := (@span_append (fun c => !isSpace c) word rest (by simpa using clean)
    (by simpa using stop)).1
  rw [scanWord, start, split, if_neg (by simp [nonempty]; omega)]

/-! ## Tokens -/

/-- One call of `strtok` on the text from the saved position on: the token, and
the text from the new saved position on. Without a token the saved position is
the end of the text. -/
def strtok (delimiters : CString) (text : CString) : Option CString × CString :=
  let rest := text.dropWhile (· ∈ delimiters)
  if rest = [] then (none, [])
  else (some (rest.takeWhile (· ∉ delimiters)), (rest.dropWhile (· ∉ delimiters)).tail)

/-- A token stands behind skipped delimiters and in front of the end of the
text or of one more delimiter, which is skipped as well. -/
theorem strtok_some {delimiters text token rest : CString}
    (found : strtok delimiters text = (some token, rest)) :
    token ≠ [] ∧ (∀ c ∈ token, c ∉ delimiters) ∧ ∃ skipped behind,
      text = skipped ++ (token ++ behind) ∧ (∀ c ∈ skipped, c ∈ delimiters) ∧
        ((behind = [] ∧ rest = []) ∨ ∃ c ∈ delimiters, behind = c :: rest) := by
  simp only [strtok] at found
  split at found
  · cases found
  · next nonempty =>
    simp only [Prod.mk.injEq, Option.some.injEq] at found
    obtain ⟨rfl, rfl⟩ := found
    refine ⟨?_, ?_, text.takeWhile (· ∈ delimiters),
      (text.dropWhile (· ∈ delimiters)).dropWhile (· ∉ delimiters), ?_, ?_, ?_⟩
    · cases start : text.dropWhile (· ∈ delimiters) with
      | nil => exact absurd start nonempty
      | cons c tail =>
          have head := List.head?_dropWhile_not (fun c => decide (c ∈ delimiters)) text
          rw [start] at head
          have outside : c ∉ delimiters := by simpa using head
          simp [outside]
    · intro c member
      simpa using List.mem_takeWhile_imp member
    · rw [List.takeWhile_append_dropWhile, List.takeWhile_append_dropWhile]
    · intro c member
      simpa using List.mem_takeWhile_imp member
    · cases behind : (text.dropWhile (· ∈ delimiters)).dropWhile (· ∉ delimiters) with
      | nil => exact .inl ⟨rfl, rfl⟩
      | cons c tail =>
          have head := List.head?_dropWhile_not (fun c => decide (c ∉ delimiters))
            (text.dropWhile (· ∈ delimiters))
          rw [behind] at head
          exact .inr ⟨c, by simpa using head, rfl⟩

/-- The converse: a text that is split in this way yields the token. -/
theorem strtok_of_split {delimiters token : CString} (skipped behind : CString)
    (nonempty : token ≠ [])
    (clean : ∀ c ∈ token, c ∉ delimiters) (delimited : ∀ c ∈ skipped, c ∈ delimiters)
    (ended : ∀ c ∈ behind.head?, c ∈ delimiters) :
    strtok delimiters (skipped ++ (token ++ behind)) = (some token, behind.tail) := by
  have start : (skipped ++ (token ++ behind)).dropWhile (· ∈ delimiters) = token ++ behind := by
    rw [List.dropWhile_append_of_pos (by simpa using delimited)]
    cases token with
    | nil => exact absurd rfl nonempty
    | cons c token => simp [clean c List.mem_cons_self]
  obtain ⟨taken, left⟩ := @span_append (fun c => decide (c ∉ delimiters)) token behind
    (by simpa using clean) (by simpa using ended)
  simp only [strtok, start, taken, left]
  rw [if_neg (by simp [nonempty])]

end Libc

end DnsServer
