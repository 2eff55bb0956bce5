import Mathlib

/-!
# `sscanf` over a list of characters

The directives of a C format string without field widths or assignment
suppression: whitespace, an ordinary character, `%d` and `%s`. `sscanf` matches
them in turn and stops at the first that fails; it returns the number of values
assigned, or `EOF` when the input ended before the first conversion.

What `printf("%d")` writes, `%d` reads back, and `%s` reads a token up to the
next whitespace, whatever comes after it (`scanInt_toString`, `scan_str_token`).
-/

namespace ParRP

namespace Scanf

inductive Directive
  | space
  | char (c : Char)
  | int
  | str
  deriving DecidableEq, Repr

inductive Value
  | int (n : Int)
  | str (s : List Char)
  deriving DecidableEq, Repr

/-- `isspace` in the `"C"` locale. -/
def isSpace (c : Char) : Bool :=
  c = ' ' || c = '\t' || c = '\n' || c = '\x0b' || c = '\x0c' || c = '\r'

/-- The directives of a format string. -/
def directives : List Char → List Directive
  | [] => []
  | '%' :: 'd' :: rest => .int :: directives rest
  | '%' :: 's' :: rest => .str :: directives rest
  | c :: rest => (if isSpace c then .space else .char c) :: directives rest

/-- The sign of a `%d` field: whether it is negative, and the rest. -/
def scanSign : List Char → Bool × List Char
  | '-' :: rest => (true, rest)
  | '+' :: rest => (false, rest)
  | input => (false, input)

/-- The decimal digits of a `%d` field, at least one. -/
def scanDigits (body : List Char) : Option (Nat × List Char) :=
  let digits := body.takeWhile Char.isDigit
  if digits = [] then none else some (Nat.ofDigitChars 10 digits 0, body.dropWhile Char.isDigit)

/-- A `%d` field: an optional sign and at least one decimal digit. -/
def scanInt (input : List Char) : Option (Int × List Char) :=
  let (neg, body) := scanSign input
  (scanDigits body).map fun (n, rest) => (if neg then -(n : Int) else n, rest)

/-- The values the directives assign, and whether the input ended (an input
failure) rather than a directive failing to match. -/
def scan : List Directive → List Char → List Value × Bool
  | [], _ => ([], false)
  | .space :: ds, input => scan ds (input.dropWhile isSpace)
  | .char _ :: _, [] => ([], true)
  | .char c :: ds, x :: input => if x = c then scan ds input else ([], false)
  | .int :: ds, input =>
      -- a conversion skips leading whitespace first
      match input.dropWhile isSpace with
      | [] => ([], true)
      | field =>
          match scanInt field with
          | some (n, rest) => let r := scan ds rest; (.int n :: r.1, r.2)
          | none => ([], false)
  | .str :: ds, input =>
      match input.dropWhile isSpace with
      | [] => ([], true)
      | field =>
          let r := scan ds (field.dropWhile (!isSpace ·))
          (.str (field.takeWhile (!isSpace ·)) :: r.1, r.2)

/-- `sscanf(input, format, ...)`: the number of values assigned (`EOF` is `-1`),
with the values. -/
def sscanf (format input : List Char) : Int × List Value :=
  let r := scan (directives format) input
  (if r.2 ∧ r.1 = [] then -1 else r.1.length, r.1)

/-! ## Reading back what was printed -/

variable {α : Type}

theorem takeWhile_append_stop {p : α → Bool} {l r : List α} {c : α} (hl : ∀ a ∈ l, p a = true)
    (hc : p c = false) : (l ++ c :: r).takeWhile p = l := by
  rw [List.takeWhile_append_of_pos hl, List.takeWhile_cons_of_neg (by simp [hc]), List.append_nil]

theorem dropWhile_append_stop {p : α → Bool} {l r : List α} {c : α} (hl : ∀ a ∈ l, p a = true)
    (hc : p c = false) : (l ++ c :: r).dropWhile p = c :: r := by
  rw [List.dropWhile_append_of_pos hl, List.dropWhile_cons_of_neg (by simp [hc])]

theorem isSpace_of_isDigit {c : Char} (h : c.isDigit = true) : isSpace c = false := by
  cases hs : isSpace c
  · rfl
  · simp only [isSpace, Bool.or_eq_true, decide_eq_true_eq] at hs
    rcases hs with (((((rfl | rfl) | rfl) | rfl) | rfl) | rfl) <;> exact absurd h (by decide)

theorem repr_toList (n : Nat) : n.repr.toList = Nat.toDigits 10 n := by
  rw [Nat.repr_eq_ofList_toDigits, String.toList_ofList]

theorem isDigit_of_mem_toDigits {n : Nat} {c : Char} (h : c ∈ Nat.toDigits 10 n) : c.isDigit = true :=
  Nat.isDigit_of_mem_toDigits (by omega) (by omega) h

/-- A field that starts with a digit has no sign. -/
theorem scanSign_of_isDigit {d : Char} (hd : d.isDigit = true) (rest : List Char) :
    scanSign (d :: rest) = (false, d :: rest) := by
  have hminus : d ≠ '-' := by rintro rfl; exact absurd hd (by decide)
  have hplus : d ≠ '+' := by rintro rfl; exact absurd hd (by decide)
  simp [scanSign, hminus, hplus]

theorem scanSign_toDigits (n : Nat) (rest : List Char) :
    scanSign (Nat.toDigits 10 n ++ rest) = (false, Nat.toDigits 10 n ++ rest) := by
  obtain ⟨d, ds, hds⟩ := List.exists_cons_of_ne_nil (Nat.toDigits_ne_nil (n := n) (b := 10))
  rw [hds]
  exact scanSign_of_isDigit (isDigit_of_mem_toDigits (n := n) (by simp [hds])) _

theorem scanDigits_toDigits (n : Nat) {c : Char} (r : List Char) (hc : c.isDigit = false) :
    scanDigits (Nat.toDigits 10 n ++ c :: r) = some (n, c :: r) := by
  have hdigits : ∀ a ∈ Nat.toDigits 10 n, a.isDigit = true := fun a ha => isDigit_of_mem_toDigits ha
  simp only [scanDigits, takeWhile_append_stop hdigits hc, dropWhile_append_stop hdigits hc,
    Nat.toDigits_ne_nil, if_false, Nat.ofDigitChars_ten_toDigits]

/-- `%d` reads back the decimal text of every integer, as `printf("%d")` writes it. -/
theorem scanInt_toString (n : Int) {c : Char} (r : List Char) (hc : c.isDigit = false) :
    scanInt ((toString n).toList ++ c :: r) = some (n, c :: r) := by
  show scanInt (n.repr.toList ++ c :: r) = _
  rw [Int.repr_eq_if]
  split
  · next hn =>
      simp [scanInt, scanSign_toDigits, scanDigits_toDigits _ r hc, Int.toNat_of_nonneg hn]
  · next hn =>
      -- a negative integer is printed as `-` and the digits of its magnitude
      have hmag : (((-n).toNat : Nat) : Int) = -n := Int.toNat_of_nonneg (by omega)
      simp [scanInt, scanSign, scanDigits_toDigits _ r hc, hmag]

theorem toString_toList_eq_cons (n : Int) : ∃ d ds, (toString n).toList = d :: ds ∧ isSpace d = false := by
  change ∃ d ds, n.repr.toList = d :: ds ∧ isSpace d = false
  rw [Int.repr_eq_if]
  split
  · obtain ⟨d, ds, hds⟩ := List.exists_cons_of_ne_nil (Nat.toDigits_ne_nil (n := n.toNat) (b := 10))
    exact ⟨d, ds, by rw [repr_toList, hds], isSpace_of_isDigit (isDigit_of_mem_toDigits (n := n.toNat) (by simp [hds]))⟩
  · exact ⟨'-', Nat.toDigits 10 (-n).toNat, by simp, rfl⟩

/-- No character of a printed integer ends a C string. -/
theorem ne_nul_of_mem_toString {n : Int} {c : Char} (h : c ∈ (toString n).toList) : c ≠ '\x00' := by
  change c ∈ n.repr.toList at h
  rw [Int.repr_eq_if] at h
  split at h
  · rw [repr_toList] at h
    rintro rfl
    exact absurd (isDigit_of_mem_toDigits h) (by decide)
  · rw [String.toList_append, repr_toList] at h
    rcases List.mem_append.mp h with h | h
    · rintro rfl
      exact absurd h (by decide)
    · rintro rfl
      exact absurd (isDigit_of_mem_toDigits h) (by decide)

theorem scan_chars (cs : List Char) (ds : List Directive) (input : List Char) :
    scan (cs.map .char ++ ds) (cs ++ input) = scan ds input := by
  induction cs with
  | nil => rfl
  | cons c cs ih => simp [scan, ih]

/-- A whitespace directive skips a blank of the input... -/
theorem scan_space_cons {ds : List Directive} {c : Char} {input : List Char} (hc : isSpace c = true) :
    scan (.space :: ds) (c :: input) = scan (.space :: ds) input := by
  simp [scan, List.dropWhile_cons_of_pos hc]

/-- ... and ends at the first other character. -/
theorem scan_space_append {ds : List Directive} {cs input : List Char} (hne : cs ≠ [])
    (hcs : ∀ c ∈ cs.head?, isSpace c = false) :
    scan (.space :: ds) (cs ++ input) = scan ds (cs ++ input) := by
  obtain ⟨c, cs, rfl⟩ := List.exists_cons_of_ne_nil hne
  have hc : isSpace c = false := hcs c rfl
  simp [scan, List.dropWhile_cons_of_neg (by simp [hc] : ¬ isSpace c = true)]

theorem scan_int_toString (n : Int) {ds : List Directive} {c : Char} (r : List Char) (hc : isSpace c = true) :
    scan (.int :: ds) ((toString n).toList ++ c :: r) =
      (.int n :: (scan ds (c :: r)).1, (scan ds (c :: r)).2) := by
  have hcd : c.isDigit = false := by
    cases h : c.isDigit
    · rfl
    · exact absurd hc (by simp [isSpace_of_isDigit h])
  obtain ⟨d, ds', hds, hd⟩ := toString_toList_eq_cons n
  have hfield := scanInt_toString n r hcd
  rw [hds, List.cons_append] at hfield
  rw [hds, List.cons_append]
  simp only [scan, List.dropWhile_cons_of_neg (by simp [hd] : ¬ isSpace d = true), hfield]

/-- `%s` reads a token that is followed by whitespace. -/
theorem scan_str_token {tok : List Char} (hne : tok ≠ []) (htok : ∀ x ∈ tok, isSpace x = false)
    {ds : List Directive} {c : Char} (r : List Char) (hc : isSpace c = true) :
    scan (.str :: ds) (tok ++ c :: r) = (.str tok :: (scan ds (c :: r)).1, (scan ds (c :: r)).2) := by
  obtain ⟨d, ds', rfl⟩ := List.exists_cons_of_ne_nil hne
  have hd : isSpace d = false := htok d (by simp)
  have hnot : ∀ x ∈ d :: ds', (!isSpace x) = true := fun x hx => by simp [htok x hx]
  have hstop : (!isSpace c) = false := by simp [hc]
  simp only [scan, List.cons_append, List.dropWhile_cons_of_neg (by simp [hd] : ¬ isSpace d = true)]
  rw [← List.cons_append, takeWhile_append_stop hnot hstop, dropWhile_append_stop hnot hstop]

end Scanf

end ParRP
