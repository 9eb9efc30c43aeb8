import DnsServer.Foundation.CString
import Mathlib.Data.List.TakeDrop

/-!
# The tokens of a prefix

A text is taken apart with `strtok`, and only a prefix of it has been read. Each
call on the prefix returns nothing when the prefix ends in front of the token,
and the part of the token that is in the prefix otherwise (`tokenAt_take`). A
token that is there at all stands behind all earlier ones
(`tokenStart_add_length_le`), so in a prefix only the last token is ever cut.
-/

set_option autoImplicit false

namespace DnsServer.Libc

/-! ## One call -/

theorem dropWhile_take {α : Type} (holds : α → Bool) (text : List α) (count : Nat) :
    (text.take count).dropWhile holds =
      (text.dropWhile holds).take (count - (text.takeWhile holds).length) := by
  induction text generalizing count with
  | nil => simp
  | cons c text ih =>
      cases count with
      | zero => simp
      | succ count =>
          rw [List.take_succ_cons, List.dropWhile_cons, List.dropWhile_cons, List.takeWhile_cons]
          by_cases kept : holds c
          · rw [if_pos kept, if_pos kept, if_pos kept, ih, List.length_cons, Nat.add_sub_add_right]
          · rw [if_neg kept, if_neg kept, if_neg kept]
            rfl

theorem length_takeWhile_add_dropWhile {α : Type} (holds : α → Bool) (text : List α) :
    (text.takeWhile holds).length + (text.dropWhile holds).length = text.length := by
  rw [← List.length_append, List.takeWhile_append_dropWhile]

theorem length_strtok_le (delimiters text : CString) :
    (strtok delimiters text).2.length ≤ text.length := by
  rw [strtok]
  split
  · exact Nat.zero_le _
  · rw [List.length_tail]
    exact (Nat.sub_le _ _).trans
      ((List.dropWhile_suffix _).length_le.trans (List.dropWhile_suffix _).length_le)

/-- A token and what is left behind it. -/
theorem length_token_add_le {delimiters text token : CString}
    (found : (strtok delimiters text).1 = some token) :
    token.length + (strtok delimiters text).2.length ≤
      (text.dropWhile (· ∈ delimiters)).length := by
  have parts := length_takeWhile_add_dropWhile (fun c => decide (c ∉ delimiters))
    (text.dropWhile (· ∈ delimiters))
  rw [strtok] at found ⊢
  split at found
  · cases found
  · next something =>
    cases found
    rw [if_neg something, List.length_tail]
    omega

/-- The text behind the token, in a prefix. -/
theorem strtok_take_snd (delimiters text : CString) (count : Nat) :
    (strtok delimiters (text.take count)).2 =
      (strtok delimiters text).2.take
        (count - (text.length - (strtok delimiters text).2.length)) := by
  have whole := length_takeWhile_add_dropWhile (fun c => decide (c ∈ delimiters)) text
  have parts := length_takeWhile_add_dropWhile (fun c => decide (c ∉ delimiters))
    (text.dropWhile (· ∈ delimiters))
  simp only [strtok, dropWhile_take, List.take_eq_nil_iff]
  by_cases nothing : text.dropWhile (· ∈ delimiters) = []
  · simp [nothing]
  rw [if_neg nothing]
  split
  · next ended =>
    have before : count - (text.takeWhile (· ∈ delimiters)).length = 0 :=
      ended.resolve_right nothing
    rw [eq_comm, List.take_eq_nil_iff, List.length_tail]
    left
    omega
  · rw [List.tail_take_eq_take_tail]
    simp only
    generalize behind : (text.dropWhile (· ∈ delimiters)).dropWhile (· ∉ delimiters) = tail at *
    cases tail with
    | nil => simp
    | cons delimiter more =>
        rw [List.tail_cons]
        rw [List.length_cons] at parts
        congr 1
        omega

/-- The token, in a prefix. -/
theorem strtok_take_fst (delimiters text : CString) (count : Nat) :
    (strtok delimiters (text.take count)).1 =
      if count ≤ (text.takeWhile (· ∈ delimiters)).length then none
      else (strtok delimiters text).1.map
        (List.take (count - (text.takeWhile (· ∈ delimiters)).length)) := by
  simp only [strtok, dropWhile_take, List.take_eq_nil_iff, Nat.sub_eq_zero_iff_le]
  by_cases before : count ≤ (text.takeWhile (· ∈ delimiters)).length
  · rw [if_pos (.inl before), if_pos before]
  · rw [if_neg before]
    by_cases nothing : text.dropWhile (· ∈ delimiters) = []
    · rw [if_pos (.inr nothing), if_pos nothing]
      rfl
    · rw [if_neg (not_or.mpr ⟨before, nothing⟩), if_neg nothing, Option.map_some,
        List.take_takeWhile]

/-! ## Several calls -/

/-- The text that is left behind some tokens. -/
def behindTokens (delimiters : CString) : Nat → CString → CString
  | 0, text => text
  | count + 1, text => behindTokens delimiters count (strtok delimiters text).2

/-- The token behind some others, which may have other delimiters. -/
def tokenAt (earlier delimiters : CString) (position : Nat) (text : CString) : Option CString :=
  (strtok delimiters (behindTokens earlier position text)).1

/-- How much of the text stands in front of that token. -/
def tokenStart (earlier delimiters : CString) (position : Nat) (text : CString) : Nat :=
  text.length - ((behindTokens earlier position text).dropWhile (· ∈ delimiters)).length

theorem behindTokens_succ (delimiters : CString) (count : Nat) (text : CString) :
    behindTokens delimiters (count + 1) text =
      (strtok delimiters (behindTokens delimiters count text)).2 := by
  induction count generalizing text with
  | zero => rfl
  | succ count ih => exact ih _

theorem length_behindTokens_le (delimiters : CString) (count : Nat) (text : CString) :
    (behindTokens delimiters count text).length ≤ text.length := by
  induction count generalizing text with
  | zero => exact Nat.le_refl _
  | succ count ih => exact (ih _).trans (length_strtok_le delimiters text)

theorem length_behindTokens_anti {first second : Nat} (later : first ≤ second)
    (delimiters text : CString) :
    (behindTokens delimiters second text).length ≤ (behindTokens delimiters first text).length := by
  induction later with
  | refl => exact Nat.le_refl _
  | step _ ih =>
      rw [behindTokens_succ]
      exact (length_strtok_le delimiters _).trans ih

/-- A token has tokens in front of it. -/
theorem tokenAt_earlier {earlier delimiters text token : CString} {first second : Nat}
    (found : tokenAt earlier delimiters second text = some token) (before : first < second) :
    ∃ other, tokenAt earlier earlier first text = some other := by
  rw [← Option.ne_none_iff_exists']
  intro missing
  have left : behindTokens earlier (first + 1) text = [] := by
    rw [behindTokens_succ]
    rw [tokenAt, strtok] at missing
    rw [strtok]
    split at missing
    · next nothing => rw [if_pos nothing]
    · cases missing
  have shorter := @length_behindTokens_anti (first + 1) second before earlier text
  rw [left, List.length_nil, Nat.le_zero, List.length_eq_zero_iff] at shorter
  rw [tokenAt, shorter] at found
  cases found

/-- What is left behind tokens of a prefix. -/
theorem behindTokens_take (delimiters : CString) (count : Nat) (text : CString) (read : Nat) :
    behindTokens delimiters count (text.take read) =
      (behindTokens delimiters count text).take
        (read - (text.length - (behindTokens delimiters count text).length)) := by
  induction count generalizing text read with
  | zero => simp [behindTokens]
  | succ count ih =>
      have first := length_strtok_le delimiters text
      have later := length_behindTokens_le delimiters count (strtok delimiters text).2
      rw [behindTokens, behindTokens, strtok_take_snd, ih]
      congr 1
      omega

/-- **A token in a prefix** is missing, or is the part of the token that has been
read. -/
theorem tokenAt_take (earlier delimiters : CString) (position : Nat) (text : CString)
    (read : Nat) :
    tokenAt earlier delimiters position (text.take read) =
      if read ≤ tokenStart earlier delimiters position text then none
      else (tokenAt earlier delimiters position text).map
        (List.take (read - tokenStart earlier delimiters position text)) := by
  have bound := length_behindTokens_le earlier position text
  have parts := length_takeWhile_add_dropWhile (fun c => decide (c ∈ delimiters))
    (behindTokens earlier position text)
  have start : tokenStart earlier delimiters position text =
      text.length - (behindTokens earlier position text).length +
        ((behindTokens earlier position text).takeWhile (· ∈ delimiters)).length := by
    rw [tokenStart]
    omega
  rw [tokenAt, behindTokens_take, strtok_take_fst, start, tokenAt, ← Nat.sub_sub]
  congr 1
  rw [Nat.sub_le_iff_le_add', eq_iff_iff]

/-- **A token stands behind all earlier ones.** -/
theorem tokenStart_add_length_le {earlier text token : CString} {first second : Nat}
    (found : tokenAt earlier earlier first text = some token) (later : first < second)
    (delimiters : CString) :
    tokenStart earlier earlier first text + token.length ≤
      tokenStart earlier delimiters second text := by
  have here := length_token_add_le found
  rw [← behindTokens_succ] at here
  have between := @length_behindTokens_anti (first + 1) second later earlier text
  have whole := (List.dropWhile_suffix (· ∈ earlier)
    (l := behindTokens earlier first text)).length_le
  have bound := length_behindTokens_le earlier first text
  have there := (List.dropWhile_suffix (· ∈ delimiters)
    (l := behindTokens earlier second text)).length_le
  rw [tokenStart, tokenStart]
  omega

/-! ## Tokens that are cut -/

/-- The prefix ends inside a token. -/
def CutsToken (earlier delimiters : CString) (position : Nat) (text : CString) (read : Nat) :
    Prop :=
  ∃ token, tokenAt earlier delimiters position text = some token ∧
    tokenStart earlier delimiters position text < read ∧
      read < tokenStart earlier delimiters position text + token.length

section Cut

variable {earlier delimiters text part : CString} {position read : Nat}

theorem tokenAt_take_eq_some_iff :
    tokenAt earlier delimiters position (text.take read) = some part ↔
      tokenStart earlier delimiters position text < read ∧
        ∃ token, tokenAt earlier delimiters position text = some token ∧
          token.take (read - tokenStart earlier delimiters position text) = part := by
  rw [tokenAt_take]
  split
  · simp only [reduceCtorEq, false_iff, not_and]
    intro started
    omega
  · simp only [Option.map_eq_some_iff]
    refine (and_iff_right ?_).symm
    omega

/-- A token of a prefix is a token of the text, unless it is cut. -/
theorem tokenAt_of_take (found : tokenAt earlier delimiters position (text.take read) = some part)
    (kept : ¬ CutsToken earlier delimiters position text read) :
    tokenAt earlier delimiters position text = some part := by
  obtain ⟨started, token, whole, rfl⟩ := tokenAt_take_eq_some_iff.mp found
  rw [whole, List.take_of_length_le]
  by_contra shorter
  exact kept ⟨token, whole, started, by omega⟩

/-- With a later token none of the earlier ones is cut. -/
theorem not_cutsToken_of_later {later : Nat} (before : position < later)
    (started : tokenStart earlier delimiters later text < read) :
    ¬ CutsToken earlier earlier position text read := by
  rintro ⟨token, whole, _, inside⟩
  have behind := tokenStart_add_length_le whole before delimiters
  omega

/-- A text that is read up to the middle of a token has all earlier tokens. -/
theorem tokenAt_take_of_later {later : Nat} {token : CString} (before : position < later)
    (started : tokenStart earlier delimiters later text < read)
    (whole : tokenAt earlier earlier position text = some token) :
    tokenAt earlier earlier position (text.take read) = some token := by
  have behind := tokenStart_add_length_le whole before delimiters
  exact tokenAt_take_eq_some_iff.mpr ⟨by omega, token, whole, List.take_of_length_le (by omega)⟩

end Cut

end DnsServer.Libc
