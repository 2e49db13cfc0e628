/-
  Compact JSON texts: a printer and a reader that inverts it.

  Strings are escaped as JSON writers do.  A double is written as `~` and its
  bits, since this text is only there to be read back; a text without doubles
  is JSON.

  * `value_text`: reading what was printed gives the value, with objects as
    ordered maps.
  * `newline_notMem_text`: a printed text is one line.
-/
import Eventline.Lib.Json

namespace JsonText

/-! ## Strings -/

def escapeChar (c : Char) : List Char :=
  if c = '"' then ['\\', '"']
  else if c = '\\' then ['\\', '\\']
  else if c = '\n' then ['\\', 'n']
  else if c = '\r' then ['\\', 'r']
  else if c = '\t' then ['\\', 't']
  else if c.toNat = 8 then ['\\', 'b']
  else if c.toNat = 12 then ['\\', 'f']
  else if c.toNat < 32 then
    ['\\', 'u', '0', '0', Nat.digitChar (c.toNat / 16), Nat.digitChar (c.toNat % 16)]
  else [c]

def hexValue (c : Char) : Option ℕ := (List.range 16).find? fun n => Nat.digitChar n = c

/-- The character of `\uXXXX`, which is no surrogate. -/
def unicodeEscape (a b c d : Char) : Option Char := do
  let a ← hexValue a
  let b ← hexValue b
  let c ← hexValue c
  let d ← hexValue d
  let n := ((a * 16 + b) * 16 + c) * 16 + d
  if n.isValidChar then some (Char.ofNat n) else none

/-- The character of a two-character escape. -/
def simpleEscape : Char → Option Char
  | '"' => some '"'
  | '\\' => some '\\'
  | '/' => some '/'
  | 'n' => some '\n'
  | 'r' => some '\r'
  | 't' => some '\t'
  | 'b' => some (Char.ofNat 8)
  | 'f' => some (Char.ofNat 12)
  | _ => none

/-- One character of a string, which may be escaped. -/
def character : List Char → Option (Char × List Char)
  | '\\' :: 'u' :: a :: b :: c :: d :: cs => (unicodeEscape a b c d).map fun x => (x, cs)
  | '\\' :: e :: cs => (simpleEscape e).map fun x => (x, cs)
  | c :: cs => if c.toNat < 32 then none else some (c, cs)
  | [] => none

/-- The rest of a string, after its opening quote. -/
def string : ℕ → List Char → Option (List Char × List Char)
  | 0, _ => none
  | _ + 1, '"' :: cs => some ([], cs)
  | n + 1, cs => do
    let (c, cs) ← character cs
    let (s, cs) ← string n cs
    some (c :: s, cs)

def quote (s : String) : List Char := '"' :: (s.toList.flatMap escapeChar ++ ['"'])

theorem hexValue_digitChar {n : ℕ} (h : n < 16) : hexValue (Nat.digitChar n) = some n := by
  interval_cases n <;> decide

theorem character_escapeChar (c : Char) (cs : List Char) :
    character (escapeChar c ++ cs) = some (c, cs) := by
  unfold escapeChar
  split_ifs with h1 h2 h3 h4 h5 h6 h7 h8
  · rw [h1]; rfl
  · rw [h2]; rfl
  · rw [h3]; rfl
  · rw [h4]; rfl
  · rw [h5]; rfl
  · rw [← Char.ofNat_toNat c, h6]; rfl
  · rw [← Char.ofNat_toNat c, h7]; rfl
  · have hhi := hexValue_digitChar (n := c.toNat / 16) (by omega)
    have hlo := hexValue_digitChar (n := c.toNat % 16) (by omega)
    have hzero : hexValue '0' = some 0 := by decide
    have hn : c.toNat / 16 * 16 + c.toNat % 16 = c.toNat := by omega
    have hval : c.toNat.isValidChar := c.valid
    simp [character, unicodeEscape, hhi, hlo, hzero, hn, hval]
  · have hne : c ≠ '\\' := h2
    have hchar : character (c :: cs) = if c.toNat < 32 then none else some (c, cs) := by
      unfold character
      split <;> simp_all
    simpa [h8] using hchar

theorem escapeChar_head (c : Char) : ∃ x xs, escapeChar c = x :: xs ∧ x ≠ '"' ∧ x ≠ '\n' := by
  unfold escapeChar
  split_ifs with h1 h2 h3
  all_goals first
    | exact ⟨_, _, rfl, by decide, by decide⟩
    | exact ⟨_, _, rfl, h1, h3⟩

theorem string_escaped (s rest : List Char) {n : ℕ} (h : s.length < n) :
    string n (s.flatMap escapeChar ++ '"' :: rest) = some (s, rest) := by
  induction s generalizing n with
  | nil =>
    obtain ⟨n, rfl⟩ : ∃ m, n = m + 1 := ⟨n - 1, by simp at h; omega⟩
    rfl
  | cons c s ih =>
    obtain ⟨n, rfl⟩ : ∃ m, n = m + 1 := ⟨n - 1, by simp at h; omega⟩
    obtain ⟨x, xs, hx, hq, -⟩ := escapeChar_head c
    have hchar := character_escapeChar c (s.flatMap escapeChar ++ '"' :: rest)
    have hrest := ih (n := n) (by simpa using h)
    rw [hx, List.cons_append] at hchar
    rw [List.flatMap_cons, List.append_assoc, hx, List.cons_append, string]
    · simp [hchar, hrest]
    · simp [hq]

theorem length_le_escaped (s : List Char) : s.length ≤ (s.flatMap escapeChar).length := by
  induction s with
  | nil => simp
  | cons c s ih =>
    obtain ⟨x, xs, hx, -⟩ := escapeChar_head c
    simp only [List.flatMap_cons, List.length_append, List.length_cons, hx]
    omega

/-! ## Numbers -/

def digits (n : ℕ) : List Char := Nat.toDigits 10 n

def natural (cs : List Char) : Option (ℕ × List Char) :=
  let ds := cs.takeWhile Char.isDigit
  if ds.isEmpty then none else some (Nat.ofDigitChars 10 ds 0, cs.dropWhile Char.isDigit)

/-- The text does not go on with a digit. -/
def NoDigit (cs : List Char) : Prop := ∀ c, cs.head? = some c → c.isDigit = false

theorem natural_digits (n : ℕ) {rest : List Char} (h : NoDigit rest) :
    natural (digits n ++ rest) = some (n, rest) := by
  have hd : ∀ c ∈ digits n, c.isDigit = true := fun c hc =>
    Nat.isDigit_of_mem_toDigits (by norm_num) (by norm_num) hc
  have htake : rest.takeWhile Char.isDigit = [] := by
    cases rest with
    | nil => rfl
    | cons c rest => simp [h c rfl]
  have hdrop : rest.dropWhile Char.isDigit = rest := by
    cases rest with
    | nil => rfl
    | cons c rest => simp [h c rfl]
  rw [natural, List.takeWhile_append_of_pos hd, List.dropWhile_append_of_pos hd, htake, hdrop,
    List.append_nil, if_neg (by simp [digits, Nat.toDigits_ne_nil]), digits,
    Nat.ofDigitChars_ten_toDigits]

def number : Number → List Char
  | .posInt n => digits n.toNat
  | .negInt i _ => '-' :: digits i.toInt.natAbs
  | .float x => '~' :: digits x.bits.toNat

def positive (n : ℕ) : Option Number := if n < 2 ^ 64 then some (.posInt (.ofNat n)) else none

def negative (n : ℕ) : Option Number :=
  if h : n ≤ 2 ^ 63 ∧ Int64.ofInt (-n) < 0 then some (.negInt (.ofInt (-n)) h.2) else none

def double (n : ℕ) : Option Number :=
  if h : (UInt64.ofNat n).toNat / 2 ^ 52 % 2 ^ 11 ≠ 2047 then some (.float ⟨.ofNat n, h⟩) else none

/-- A natural number in digits, read as a number. -/
def numeral (read : ℕ → Option Number) (cs : List Char) : Option (Json × List Char) := do
  let (n, cs) ← natural cs
  let x ← read n
  some (.num x, cs)

/-! ## Values -/

mutual

def text : Json → List Char
  | .null => ['n', 'u', 'l', 'l']
  | .bool true => ['t', 'r', 'u', 'e']
  | .bool false => ['f', 'a', 'l', 's', 'e']
  | .num n => number n
  | .str s => quote s
  | .arr xs => '[' :: elementsText [] xs
  | .obj ms => '{' :: membersText [] ms

/-- The elements, each after a separator, and the closing bracket. -/
def elementsText (sep : List Char) : List Json → List Char
  | [] => [']']
  | x :: xs => sep ++ text x ++ elementsText [','] xs

def membersText (sep : List Char) : List (String × Json) → List Char
  | [] => ['}']
  | (k, v) :: ms => sep ++ quote k ++ ':' :: text v ++ membersText [','] ms

end

mutual

/-- A value at the start of a text, and the rest. -/
def value : ℕ → List Char → Option (Json × List Char)
  | 0, _ => none
  | _ + 1, 'n' :: 'u' :: 'l' :: 'l' :: cs => some (.null, cs)
  | _ + 1, 't' :: 'r' :: 'u' :: 'e' :: cs => some (.bool true, cs)
  | _ + 1, 'f' :: 'a' :: 'l' :: 's' :: 'e' :: cs => some (.bool false, cs)
  | _ + 1, '"' :: cs => (string cs.length cs).map fun r => (.str (.ofList r.1), r.2)
  | _ + 1, '[' :: ']' :: cs => some (.arr [], cs)
  | n + 1, '[' :: cs => (elements n cs).map fun r => (.arr r.1, r.2)
  | _ + 1, '{' :: '}' :: cs => some (.obj [], cs)
  | n + 1, '{' :: cs => (members n cs).map fun r => (.obj (SortedMap.ofList r.1), r.2)
  | _ + 1, '-' :: cs => numeral negative cs
  | _ + 1, '~' :: cs => numeral double cs
  | _ + 1, cs => numeral positive cs

def elements : ℕ → List Char → Option (List Json × List Char)
  | 0, _ => none
  | n + 1, cs => do
    let (x, cs) ← value n cs
    match cs with
    | ']' :: cs => some ([x], cs)
    | ',' :: cs =>
      let (xs, cs) ← elements n cs
      some (x :: xs, cs)
    | _ => none

def members : ℕ → List Char → Option (List (String × Json) × List Char)
  | 0, _ => none
  | n + 1, '"' :: cs => do
    let (k, cs) ← string cs.length cs
    match cs with
    | ':' :: cs =>
      let (v, cs) ← value n cs
      match cs with
      | '}' :: cs => some ([(.ofList k, v)], cs)
      | ',' :: cs =>
        let (ms, cs) ← members n cs
        some ((.ofList k, v) :: ms, cs)
      | _ => none
    | _ => none
  | _ + 1, _ => none

end

/-! ## Reading back -/

theorem noDigit_cons {c : Char} (h : c.isDigit = false) (cs : List Char) : NoDigit (c :: cs) := by
  rintro d hd
  obtain rfl := Option.some.inj hd
  exact h

theorem digits_head (n : ℕ) : ∃ c cs, digits n = c :: cs ∧ c.isDigit = true := by
  obtain ⟨c, cs, hc⟩ := List.exists_cons_of_ne_nil (Nat.toDigits_ne_nil (n := n) (b := 10))
  refine ⟨c, cs, hc, Nat.isDigit_of_mem_toDigits (b := 10) (n := n) (by norm_num) (by norm_num) ?_⟩
  rw [hc]
  exact List.mem_cons_self

theorem text_head (v : Json) : ∃ c cs, text v = c :: cs ∧ c ≠ ']' ∧ c ≠ '\n' := by
  have hdigit : ∀ {c : Char}, c.isDigit = true → c ≠ ']' ∧ c ≠ '\n' := by
    rintro c hc
    constructor <;> rintro rfl <;> exact absurd hc (by decide)
  cases v with
  | null => exact ⟨_, _, rfl, by decide, by decide⟩
  | bool b => cases b <;> exact ⟨_, _, rfl, by decide, by decide⟩
  | str s => exact ⟨_, _, rfl, by decide, by decide⟩
  | arr xs => exact ⟨_, _, rfl, by decide, by decide⟩
  | obj ms => exact ⟨_, _, rfl, by decide, by decide⟩
  | num n =>
    cases n with
    | posInt n =>
      obtain ⟨c, cs, hc, hd⟩ := digits_head n.toNat
      exact ⟨c, cs, hc, hdigit hd⟩
    | negInt i h => exact ⟨_, _, rfl, by decide, by decide⟩
    | float x => exact ⟨_, _, rfl, by decide, by decide⟩

theorem string_quote (s : String) (rest : List Char) :
    ∃ cs, quote s ++ rest = '"' :: cs ∧ string cs.length cs = some (s.toList, rest) := by
  refine ⟨s.toList.flatMap escapeChar ++ '"' :: rest, by simp [quote], string_escaped _ _ ?_⟩
  have hle := length_le_escaped s.toList
  simp only [List.length_append, List.length_cons]
  omega

theorem value_digit {c : Char} (hc : c.isDigit = true) (n : ℕ) (cs : List Char) :
    value (n + 1) (c :: cs) = numeral positive (c :: cs) := by
  have hne : ∀ d : Char, d.isDigit = false → c ≠ d := by
    rintro d hd rfl
    rw [hc] at hd
    cases hd
  rw [value]
  all_goals
    intro cs' heq
    exact hne _ (by decide) (List.cons.inj heq).1

theorem value_number (x : Number) (n : ℕ) {rest : List Char} (h : NoDigit rest) :
    value (n + 1) (number x ++ rest) = some (.num x, rest) := by
  cases x with
  | posInt k =>
    obtain ⟨c, cs, hc, hd⟩ := digits_head k.toNat
    have hnat := natural_digits k.toNat h
    rw [hc, List.cons_append] at hnat
    rw [number, hc, List.cons_append, value_digit hd, numeral, hnat]
    simp [positive, k.toNat_lt]
  | negInt i hneg =>
    have hle : i.toInt.natAbs ≤ 2 ^ 63 := by have := i.le_toInt; have := i.toInt_lt; omega
    have hlt : i.toInt < 0 := by simpa [Int64.lt_iff_toInt_lt] using hneg
    have hback : Int64.ofInt (-(i.toInt.natAbs : ℤ)) = i := by
      rw [show -(i.toInt.natAbs : ℤ) = i.toInt by omega]
      exact Int64.ofInt_toInt i
    have hx : negative i.toInt.natAbs = some (.negInt i hneg) := by
      unfold negative
      rw [dif_pos ⟨hle, by rw [hback]; exact hneg⟩]
      simp only [hback]
    rw [number, List.cons_append, value, numeral, natural_digits _ h]
    simp [hx]
  | float x =>
    have hx : double x.bits.toNat = some (.float x) := by
      unfold double
      rw [dif_pos (by simpa using x.finite)]
      simp
    rw [number, List.cons_append, value, numeral, natural_digits _ h]
    simp [hx]

mutual

/-- **Reading a printed value** gives the value, with objects as ordered maps. -/
theorem value_text : ∀ (v : Json) (n : ℕ) (rest : List Char), (text v).length ≤ n → NoDigit rest →
    value n (text v ++ rest) = some (v.canonical, rest)
  | v, 0, rest, hn, _ => by
    obtain ⟨c, cs, hc, -⟩ := text_head v
    rw [hc] at hn
    simp at hn
  | .null, n + 1, rest, _, _ => by simp [text, value, Json.canonical]
  | .bool true, n + 1, rest, _, _ => by simp [text, value, Json.canonical]
  | .bool false, n + 1, rest, _, _ => by simp [text, value, Json.canonical]
  | .num x, n + 1, rest, _, hrest => value_number x n hrest
  | .str s, n + 1, rest, _, _ => by
    obtain ⟨cs, hcs, hstr⟩ := string_quote s rest
    rw [text, hcs, value, hstr]
    simp [Json.canonical]
  | .arr [], n + 1, rest, _, _ => by
    simp [text, elementsText, value, Json.canonical, Json.canonicalList]
  | .arr (x :: xs), n + 1, rest, hn, hrest => by
    obtain ⟨c, cs, hc, hne, -⟩ := text_head x
    have hels := elements_text x xs n rest (by simpa [text] using hn)
    rw [text, List.cons_append, value]
    · rw [hels]
      simp [Json.canonical]
    · intro cs' heq
      rw [elementsText, List.nil_append, hc] at heq
      exact hne (List.cons.inj heq).1
  | .obj [], n + 1, rest, _, _ => by
    simp [text, membersText, value, Json.canonical, Json.canonicalMembers, SortedMap.ofList]
  | .obj ((k, v) :: ms), n + 1, rest, hn, hrest => by
    have hmem := members_text k v ms n rest (by simpa [text] using hn)
    rw [text, List.cons_append, value]
    · rw [hmem]
      simp [Json.canonical]
    · intro cs' heq
      rw [membersText, List.nil_append, quote] at heq
      exact absurd (List.cons.inj heq).1 (by decide)

theorem elements_text : ∀ (x : Json) (xs : List Json) (n : ℕ) (rest : List Char),
    (elementsText [] (x :: xs)).length ≤ n →
    elements n (elementsText [] (x :: xs) ++ rest) = some (Json.canonicalList (x :: xs), rest)
  | x, xs, 0, rest, hn => by
    obtain ⟨c, cs, hc, -⟩ := text_head x
    simp [elementsText, hc] at hn
  | x, [], n + 1, rest, hn => by
    have hx := value_text x n (']' :: rest) (by simpa [elementsText] using hn)
      (noDigit_cons (by decide) _)
    simp [elementsText, elements, hx, Json.canonicalList]
  | x, y :: ys, n + 1, rest, hn => by
    obtain ⟨c, cs, hc, -⟩ := text_head x
    have hlen : (text x).length + (elementsText [] (y :: ys)).length ≤ n := by
      simp only [elementsText, List.length_append, List.length_cons, List.length_nil] at hn ⊢
      omega
    have hpos : 0 < (text x).length := by rw [hc]; simp
    have hx := value_text x n (',' :: (elementsText [] (y :: ys) ++ rest)) (by omega)
      (noDigit_cons (by decide) _)
    have hys := elements_text y ys n rest (by omega)
    have htext : elementsText [] (x :: y :: ys) ++ rest =
        text x ++ ',' :: (elementsText [] (y :: ys) ++ rest) := by
      simp [elementsText]
    rw [htext, elements, hx]
    simp [hys, Json.canonicalList]

theorem members_text : ∀ (k : String) (v : Json) (ms : List (String × Json)) (n : ℕ)
    (rest : List Char), (membersText [] ((k, v) :: ms)).length ≤ n →
    members n (membersText [] ((k, v) :: ms) ++ rest) =
      some (Json.canonicalMembers ((k, v) :: ms), rest)
  | k, v, ms, 0, rest, hn => by simp [membersText, quote] at hn
  | k, v, [], n + 1, rest, hn => by
    obtain ⟨cs, hcs, hstr⟩ := string_quote k (':' :: (text v ++ '}' :: rest))
    have hv := value_text v n ('}' :: rest)
      (by simp only [membersText, List.length_append, List.length_cons] at hn; omega)
      (noDigit_cons (by decide) _)
    have htext : membersText [] [(k, v)] ++ rest = quote k ++ ':' :: (text v ++ '}' :: rest) := by
      simp [membersText]
    rw [htext, hcs, members, hstr]
    simp [hv, Json.canonicalMembers]
  | k, v, (k', v') :: ms, n + 1, rest, hn => by
    have hlen : (text v).length + (membersText [] ((k', v') :: ms)).length ≤ n := by
      simp only [membersText, List.length_append, List.length_cons, List.length_nil] at hn ⊢
      omega
    obtain ⟨cs, hcs, hstr⟩ :=
      string_quote k (':' :: (text v ++ ',' :: (membersText [] ((k', v') :: ms) ++ rest)))
    have hv := value_text v n (',' :: (membersText [] ((k', v') :: ms) ++ rest)) (by omega)
      (noDigit_cons (by decide) _)
    have hms := members_text k' v' ms n rest (by omega)
    have htext : membersText [] ((k, v) :: (k', v') :: ms) ++ rest =
        quote k ++ ':' :: (text v ++ ',' :: (membersText [] ((k', v') :: ms) ++ rest)) := by
      simp [membersText]
    rw [htext, hcs, members, hstr]
    simp [hv, hms, Json.canonicalMembers]

end

/-! ## One line -/

theorem newline_notMem_escapeChar (c : Char) : '\n' ∉ escapeChar c := by
  have hhex : ∀ n, n < 16 → Nat.digitChar n ≠ '\n' := by decide
  unfold escapeChar
  split_ifs with h1 h2 h3 h4 h5 h6 h7 h8
  all_goals try decide
  · have hhi := hhex (c.toNat / 16) (by omega)
    have hlo := hhex (c.toNat % 16) (by omega)
    simp [Ne.symm hhi, Ne.symm hlo]
  · simpa using Ne.symm h3

theorem newline_notMem_quote (s : String) : '\n' ∉ quote s := by
  simp only [quote, List.mem_cons, List.mem_append, List.mem_flatMap]
  rintro (h | ⟨c, -, hc⟩ | h | h)
  · exact absurd h (by decide)
  · exact newline_notMem_escapeChar c hc
  · exact absurd h (by decide)
  · exact absurd h List.not_mem_nil

theorem newline_notMem_digits (n : ℕ) : '\n' ∉ digits n := by
  intro h
  exact absurd (Nat.isDigit_of_mem_toDigits (b := 10) (n := n) (by norm_num) (by norm_num) h)
    (by decide)

theorem newline_notMem_number (x : Number) : '\n' ∉ number x := by
  cases x with
  | posInt n => exact newline_notMem_digits _
  | negInt i h => simp [number, newline_notMem_digits]
  | float x => simp [number, newline_notMem_digits]

mutual

/-- A printed text is one line. -/
theorem newline_notMem_text : ∀ v : Json, '\n' ∉ text v
  | .null => by decide
  | .bool true => by decide
  | .bool false => by decide
  | .num x => newline_notMem_number x
  | .str s => newline_notMem_quote s
  | .arr xs => by simp [text, newline_notMem_elementsText [] (by simp) xs]
  | .obj ms => by simp [text, newline_notMem_membersText [] (by simp) ms]

theorem newline_notMem_elementsText (sep : List Char) (hsep : '\n' ∉ sep) :
    ∀ xs : List Json, '\n' ∉ elementsText sep xs
  | [] => by simp [elementsText]
  | x :: xs => by
    simp [elementsText, hsep, newline_notMem_text x, newline_notMem_elementsText [','] (by simp) xs]

theorem newline_notMem_membersText (sep : List Char) (hsep : '\n' ∉ sep) :
    ∀ ms : List (String × Json), '\n' ∉ membersText sep ms
  | [] => by simp [membersText]
  | (k, v) :: ms => by
    simp [membersText, hsep, newline_notMem_quote k, newline_notMem_text v,
      newline_notMem_membersText [','] (by simp) ms]

end

theorem membersText_last (sep : List Char) (ms : List (String × Json)) :
    (membersText sep ms).getLast? = some '}' := by
  induction ms generalizing sep with
  | nil => rfl
  | cons e ms ih =>
    obtain ⟨k, v⟩ := e
    rw [membersText, List.getLast?_append, ih]
    rfl

theorem text_obj_last (ms : List (String × Json)) : (text (.obj ms)).getLast? = some '}' := by
  rw [text, ← List.singleton_append, List.getLast?_append, membersText_last]
  rfl

end JsonText
