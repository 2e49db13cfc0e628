/-
  Strings as their UTF-8 bytes, and the lines of a file.

  * `utf8 s` are the bytes of `s`; `fromUtf8` reads them back.
  * `rawLines` cuts a file after every newline, `trimAscii` removes the ASCII
    whitespace around a line.
-/
import Mathlib

namespace Text

abbrev Bytes := List UInt8

def newline : UInt8 := 10

/-- The UTF-8 encoding of a string. -/
def utf8 (s : String) : Bytes := s.toByteArray.data.toList

/-- `std::str::from_utf8`. -/
def fromUtf8 (bytes : Bytes) : Option String := String.fromUTF8? ⟨bytes.toArray⟩

@[simp] theorem fromUtf8_utf8 (s : String) : fromUtf8 (utf8 s) = some s := by
  have hb : (⟨(utf8 s).toArray⟩ : ByteArray) = s.toByteArray := by simp [utf8]
  rw [fromUtf8, hb, String.fromUTF8?, dif_pos s.isValidUTF8]
  rfl

theorem utf8_of_fromUtf8 {bytes : Bytes} {s : String} (h : fromUtf8 bytes = some s) :
    utf8 s = bytes := by
  unfold fromUtf8 String.fromUTF8? at h
  split_ifs at h
  obtain rfl := Option.some.inj h
  exact List.toList_toArray

theorem utf8_append (s t : String) : utf8 (s ++ t) = utf8 s ++ utf8 t := by
  simp [utf8]

theorem utf8_ofList (cs : List Char) : utf8 (.ofList cs) = cs.flatMap String.utf8EncodeChar := by
  simp [utf8, List.utf8Encode]

/-- An ASCII byte encodes an ASCII character: the others have their top bit set. -/
theorem mem_utf8EncodeChar {c : Char} {b : UInt8} (hb : b.toNat < 128)
    (h : b ∈ String.utf8EncodeChar c) : c.toNat = b.toNat := by
  have hbyte : ∀ n, n < 256 → b = UInt8.ofNat n → n = b.toNat := by
    rintro n hn rfl
    exact (UInt8.toNat_ofNat_of_lt' hn).symm
  unfold String.utf8EncodeChar at h
  simp only at h
  change c.val.toNat = b.toNat
  split_ifs at h with h1 h2 h3 <;> simp only [List.mem_cons, List.not_mem_nil, or_false] at h
  · exact hbyte _ (by omega) h
  · rcases h with h | h <;> have := hbyte _ (by omega) h <;> omega
  · rcases h with h | h | h <;> have := hbyte _ (by omega) h <;> omega
  · rcases h with h | h | h | h <;> have := hbyte _ (by omega) h <;> omega

/-- The bytes of a text without newline have none. -/
theorem newline_notMem_utf8 {cs : List Char} (h : '\n' ∉ cs) : newline ∉ utf8 (.ofList cs) := by
  rw [utf8_ofList, List.mem_flatMap]
  rintro ⟨c, hc, hn⟩
  have hval : c.toNat = '\n'.toNat := mem_utf8EncodeChar (by decide) hn
  rw [← Char.ofNat_toNat c, hval] at hc
  exact h hc

theorem newline_mem_utf8 {s : String} : newline ∈ utf8 s ↔ '\n' ∈ s.toList := by
  constructor
  · intro h
    by_contra hn
    have hnone := newline_notMem_utf8 hn
    rw [String.ofList_toList] at hnone
    exact hnone h
  · intro h
    rw [← String.ofList_toList (s := s), utf8_ofList, List.mem_flatMap]
    exact ⟨'\n', h, by decide⟩

/-! ## Lines -/

/-- What `read_until(b'\n')` returns, call after call: a line with its
    newline, the last one possibly without. -/
def rawLines : Bytes → List Bytes
  | [] => []
  | b :: bs =>
    if b = newline then [b] :: rawLines bs
    else match rawLines bs with
      | [] => [[b]]
      | l :: ls => (b :: l) :: ls

/-- `u8::is_ascii_whitespace`. -/
def isAsciiWhitespace (b : UInt8) : Bool := b = 32 || b = 9 || b = 10 || b = 12 || b = 13

/-- `trim_ascii`. -/
def trimAscii (bytes : Bytes) : Bytes :=
  ((bytes.dropWhile isAsciiWhitespace).reverse.dropWhile isAsciiWhitespace).reverse

theorem dropWhile_of_head {p : UInt8 → Bool} {text : Bytes} {b : UInt8} (h : text.head? = some b)
    (hb : p b = false) (rest : Bytes) : (text ++ rest).dropWhile p = text ++ rest := by
  cases text with
  | nil => cases h
  | cons c text =>
    obtain rfl := Option.some.inj h
    simp [hb]

/-- Trimming finds a text between whitespace. -/
theorem trimAscii_framed {pre text post : Bytes} (hpre : ∀ b ∈ pre, isAsciiWhitespace b = true)
    (hpost : ∀ b ∈ post, isAsciiWhitespace b = true) {a b : UInt8} (ha : text.head? = some a)
    (hb : text.getLast? = some b) (hna : isAsciiWhitespace a = false)
    (hnb : isAsciiWhitespace b = false) : trimAscii (pre ++ text ++ post) = text := by
  have hrev : text.reverse.head? = some b := by rw [List.head?_reverse, hb]
  rw [trimAscii, List.append_assoc, List.dropWhile_append_of_pos hpre, dropWhile_of_head ha hna,
    List.reverse_append, List.dropWhile_append_of_pos (by simpa using hpost)]
  have hdrop := dropWhile_of_head hrev hnb []
  rw [List.append_nil] at hdrop
  rw [hdrop, List.reverse_reverse]

/-- The newline of a line is trimmed with the whitespace before it. -/
theorem trimAscii_newline (line : Bytes) : trimAscii (line ++ [newline]) = trimAscii line := by
  have hwhite : isAsciiWhitespace newline = true := rfl
  unfold trimAscii
  rw [List.dropWhile_append]
  cases hline : line.dropWhile isAsciiWhitespace with
  | nil => simp [hwhite]
  | cons b rest => simp [hwhite]

theorem trimAscii_sublist (bytes : Bytes) : (trimAscii bytes).Sublist bytes := by
  have hend := List.reverse_sublist.2
    (List.dropWhile_sublist isAsciiWhitespace (l := (bytes.dropWhile isAsciiWhitespace).reverse))
  rw [List.reverse_reverse] at hend
  exact hend.trans (List.dropWhile_sublist _)

@[simp] theorem rawLines_nil : rawLines [] = [] := rfl

/-- A line that ends in its only newline is cut off. -/
theorem rawLines_line {line : Bytes} (h : newline ∉ line) (rest : Bytes) :
    rawLines (line ++ newline :: rest) = (line ++ [newline]) :: rawLines rest := by
  induction line with
  | nil => simp [rawLines]
  | cons b line ih =>
    have hb : b ≠ newline := fun hb => h (by simp [hb])
    have hrest : newline ∉ line := fun hm => h (List.mem_cons_of_mem _ hm)
    simp [rawLines, hb, ih hrest]

/-- A last line without newline. -/
theorem rawLines_last {line : Bytes} (h : newline ∉ line) (hne : line ≠ []) :
    rawLines line = [line] := by
  induction line with
  | nil => exact absurd rfl hne
  | cons b line ih =>
    have hb : b ≠ newline := fun hb => h (by simp [hb])
    have hrest : newline ∉ line := fun hm => h (List.mem_cons_of_mem _ hm)
    cases line with
    | nil => simp [rawLines, hb]
    | cons c line => rw [rawLines, if_neg hb, ih hrest (by simp)]

/-- Cutting loses nothing. -/
theorem rawLines_flatten (bytes : Bytes) : (rawLines bytes).flatten = bytes := by
  induction bytes with
  | nil => rfl
  | cons b bs ih =>
    by_cases hb : b = newline
    · simp [rawLines, hb, ih]
    · simp only [rawLines, hb, if_false]
      cases hl : rawLines bs with
      | nil => rw [hl] at ih; simp [← ih]
      | cons l ls => rw [hl] at ih; simp [← ih]

/-- A part that ends in a newline is cut on its own. -/
theorem rawLines_append {xs : Bytes} (h : xs = [] ∨ xs.getLast? = some newline) (ys : Bytes) :
    rawLines (xs ++ ys) = rawLines xs ++ rawLines ys := by
  induction xs with
  | nil => rfl
  | cons b xs ih =>
    have hlast : (b :: xs).getLast? = some newline := h.resolve_left (by simp)
    by_cases hx : xs = []
    · subst hx
      have hb : b = newline := by simpa using hlast
      simp [rawLines, hb]
    · have hxl : xs.getLast? = some newline := by
        rwa [List.getLast?_cons_of_ne_nil hx] at hlast
      by_cases hb : b = newline
      · simp [rawLines, hb, ih (.inr hxl)]
      · simp only [List.cons_append, rawLines, hb, if_false, ih (.inr hxl)]
        cases hl : rawLines xs with
        | nil =>
          have := rawLines_flatten xs
          rw [hl] at this
          exact absurd this.symm hx
        | cons l ls => rfl

/-- Lines, each ended by a newline. -/
def unlines (lines : List Bytes) : Bytes := lines.flatMap fun line => line ++ [newline]

theorem rawLines_unlines {lines : List Bytes} (h : ∀ line ∈ lines, newline ∉ line) (rest : Bytes) :
    rawLines (unlines lines ++ rest) = lines.map (fun line => line ++ [newline]) ++ rawLines rest := by
  induction lines with
  | nil => rfl
  | cons line lines ih =>
    obtain ⟨hline, hlines⟩ := List.forall_mem_cons.1 h
    have hsplit : unlines (line :: lines) ++ rest = line ++ newline :: (unlines lines ++ rest) := by
      simp [unlines]
    rw [hsplit, rawLines_line hline, ih hlines]
    rfl

/-- Lines, ended or separated by newlines, are cut into these lines; some keep
    their newline. -/
theorem rawLines_framed {lines : List Bytes} {bytes : Bytes} (h : ∀ line ∈ lines, newline ∉ line)
    (hne : ∀ line ∈ lines, line ≠ [])
    (hb : bytes = unlines lines ∨ bytes = [newline].intercalate lines) :
    List.Forall₂ (fun raw line => raw = line ∨ raw = line ++ [newline]) (rawLines bytes) lines := by
  rcases hb with rfl | rfl
  · have hraw := rawLines_unlines h []
    rw [List.append_nil, rawLines_nil, List.append_nil] at hraw
    rw [hraw, List.forall₂_map_left_iff]
    exact List.forall₂_same.2 fun line _ => .inr rfl
  · induction lines with
    | nil => exact .nil
    | cons line lines ih =>
      obtain ⟨hline, hlines⟩ := List.forall_mem_cons.1 h
      obtain ⟨hnil, hnils⟩ := List.forall_mem_cons.1 hne
      cases lines with
      | nil =>
        rw [List.intercalate_singleton, rawLines_last hline hnil]
        exact .cons (.inl rfl) .nil
      | cons next lines =>
        have hsplit : [newline].intercalate (line :: next :: lines) =
            line ++ newline :: [newline].intercalate (next :: lines) := by
          simp [List.intercalate]
        rw [hsplit, rawLines_line hline]
        exact .cons (.inr rfl) (ih hlines hnils)

/-- Lines as `read_until` returns them: each ends in its only newline, but for
    a last one that may have none. -/
inductive IsLines : List Bytes → Prop
  | nil : IsLines []
  | last {line : Bytes} : newline ∉ line → line ≠ [] → IsLines [line]
  | cons {line : Bytes} {ls : List Bytes} : newline ∉ line → IsLines ls →
      IsLines ((line ++ [newline]) :: ls)

theorem IsLines.newline_notMem_trimAscii {ls : List Bytes} (h : IsLines ls) {raw : Bytes}
    (hraw : raw ∈ ls) : newline ∉ trimAscii raw := by
  induction h with
  | nil => cases hraw
  | @last line hn _ =>
    rw [List.mem_singleton.1 hraw]
    exact fun hm => hn ((trimAscii_sublist line).subset hm)
  | @cons line ls hn _ ih =>
    rcases List.mem_cons.1 hraw with rfl | hraw
    · rw [trimAscii_newline]
      exact fun hm => hn ((trimAscii_sublist line).subset hm)
    · exact ih hraw

theorem rawLines_isLines (bytes : Bytes) : IsLines (rawLines bytes) := by
  induction bytes with
  | nil => exact .nil
  | cons b bs ih =>
    by_cases hb : b = newline
    · simp only [rawLines, hb, if_true]
      exact IsLines.cons (List.not_mem_nil (a := newline)) ih
    · simp only [rawLines, hb, if_false]
      have hcons : ∀ {line : Bytes}, newline ∉ line → newline ∉ b :: line := by
        intro line hn hm
        exact (List.mem_cons.1 hm).elim (Ne.symm hb) hn
      generalize rawLines bs = ls at ih
      cases ih with
      | nil => exact .last (hcons List.not_mem_nil) (by simp)
      | last hn _ => exact .last (hcons hn) (by simp)
      | cons hn ih => exact .cons (hcons hn) ih

/-- Lines are cut where they were joined. -/
theorem IsLines.rawLines_flatten {ls : List Bytes} (h : IsLines ls) : rawLines ls.flatten = ls := by
  induction h with
  | nil => rfl
  | last hn hne => simpa using rawLines_last hn hne
  | cons hn _ ih => rw [List.flatten_cons, List.append_assoc, List.singleton_append, rawLines_line hn, ih]

theorem IsLines.filter {ls : List Bytes} (h : IsLines ls) (p : Bytes → Bool) :
    IsLines (ls.filter p) := by
  induction h with
  | nil => exact .nil
  | @last line hn hne =>
    cases hp : p line with
    | true => simpa [hp] using IsLines.last hn hne
    | false => simpa [hp] using IsLines.nil
  | @cons line ls hn _ ih =>
    cases hp : p (line ++ [newline]) with
    | true => simpa [hp] using IsLines.cons hn ih
    | false => simpa [hp] using ih

/-! ## Appending to a file -/

/-- What follows the last newline. -/
def lastLine (bytes : Bytes) : Bytes := bytes.rtakeWhile fun b => b ≠ newline

/-- The lines that are ended. -/
def endedPart (bytes : Bytes) : Bytes := bytes.rdropWhile fun b => b ≠ newline

theorem endedPart_append_lastLine (bytes : Bytes) : endedPart bytes ++ lastLine bytes = bytes :=
  List.rdropWhile_append_rtakeWhile ..

theorem newline_notMem_lastLine (bytes : Bytes) : newline ∉ lastLine bytes := by
  intro h
  simpa using List.mem_rtakeWhile_imp h

theorem endedPart_ends (bytes : Bytes) :
    endedPart bytes = [] ∨ (endedPart bytes).getLast? = some newline := by
  refine or_iff_not_imp_left.2 fun h => ?_
  have hlast := List.rdropWhile_last_not (fun b => decide (b ≠ newline)) bytes h
  rw [List.getLast?_eq_getLast_of_ne_nil h, Option.some_inj]
  exact of_not_not fun hne => hlast (decide_eq_true hne)

/-- What is appended goes on with the last line. -/
theorem rawLines_grow (bytes more : Bytes) :
    rawLines (bytes ++ more) = rawLines (endedPart bytes) ++ rawLines (lastLine bytes ++ more) := by
  conv_lhs => rw [← endedPart_append_lastLine bytes]
  rw [List.append_assoc, rawLines_append (endedPart_ends bytes)]

/-- **A line that is ended stays**, whatever is appended. -/
theorem mem_rawLines_append {bytes line : Bytes} (h : line ∈ rawLines bytes)
    (hend : newline ∈ line) (more : Bytes) : line ∈ rawLines (bytes ++ more) := by
  rw [rawLines_grow]
  have hgrow := rawLines_grow bytes []
  rw [List.append_nil, List.append_nil] at hgrow
  rw [hgrow] at h
  rcases List.mem_append.1 h with h | h
  · exact List.mem_append_left _ h
  · have hsub : newline ∈ (rawLines (lastLine bytes)).flatten := List.mem_flatten.2 ⟨line, h, hend⟩
    rw [rawLines_flatten] at hsub
    exact absurd hsub (newline_notMem_lastLine bytes)

/-- A line that is appended and ended is there, after what was the last line. -/
theorem mem_rawLines_ended (bytes : Bytes) {line : Bytes} (h : newline ∉ line) :
    lastLine bytes ++ line ++ [newline] ∈ rawLines (bytes ++ line ++ [newline]) := by
  have hn : newline ∉ lastLine bytes ++ line := by
    intro hm
    exact (List.mem_append.1 hm).elim (newline_notMem_lastLine bytes) h
  rw [List.append_assoc bytes, rawLines_grow, ← List.append_assoc, rawLines_line hn []]
  simp

end Text
