import DurableBus.Json.Message
import DurableBus.Proofs.Text.Utf8

/-!
# JSON text read back

`Reads reader text a` says that a reader takes `a` back from a text, whatever follows it that may follow a value.

* `reads_text`, `reads_digits` : strings and numbers;
* `reads_array`, `reads_object`, `reads_record` : what is built of them, `reads_spaced` with white space in between;
* `Reads.parse` : a whole text.
-/

set_option autoImplicit false

namespace DurableBus.Json

def bytesOf (text : List Char) : Bytes := text.flatMap Utf8.encodeChar

theorem bytesOf_append (xs ys : List Char) : bytesOf (xs ++ ys) = bytesOf xs ++ bytesOf ys := List.flatMap_append

theorem bytesOf_cons_ascii {c : Char} (h : c.toNat < 0x80) (cs : List Char) :
    bytesOf (c :: cs) = c.toNat.toUInt8 :: bytesOf cs := by
  rw [bytesOf, List.flatMap_cons, Utf8.encodeChar]
  simp only [if_pos h]
  rfl

/-! ## Strings -/

theorem prepend_prepend (xs ys : Bytes) (r : Except Problem (Bytes × Bytes)) :
    prepend xs (prepend ys r) = prepend (xs ++ ys) r := by
  cases r with
  | error p => rfl
  | ok v => simp [prepend]

/-- A byte that stands for itself inside a string. -/
def IsPlain (b : UInt8) : Prop := b ≠ 0x22 ∧ ¬ b < 0x20 ∧ b ≠ 0x5C

theorem stringBytes_plain {b : UInt8} (h : IsPlain b) (rest : Bytes) :
    stringBytes (b :: rest) = prepend [b] (stringBytes rest) := by
  obtain ⟨hquote, hcontrol, hslash⟩ := h
  conv => lhs; unfold stringBytes
  rw [if_neg hquote, if_neg hcontrol, if_pos hslash]

theorem stringBytes_append {bs : Bytes} (h : ∀ b ∈ bs, IsPlain b) (rest : Bytes) :
    stringBytes (bs ++ rest) = prepend bs (stringBytes rest) := by
  induction bs with
  | nil => cases hrest : stringBytes rest <;> simp [prepend, hrest]
  | cons b bs ih =>
    rw [List.cons_append, stringBytes_plain (h b List.mem_cons_self),
      ih fun b' hb' => h b' (List.mem_cons_of_mem _ hb'),
      prepend_prepend, List.singleton_append]

theorem stringBytes_escape {e c : UInt8} (h : plainEscape? e = some c) (rest : Bytes) :
    stringBytes (0x5C :: e :: rest) = prepend [c] (stringBytes rest) := by
  conv => lhs; unfold stringBytes
  rw [if_neg (by decide), if_neg (by decide), if_neg (by decide)]
  simp only [h]

theorem stringBytes_code {a b c d : UInt8} {n : Nat} (h : hexFour? a b c d = some n) (low : n < 0xD800) (rest : Bytes) :
    stringBytes (0x5C :: 0x75 :: a :: b :: c :: d :: rest) =
      prepend (Utf8.encodeChar (Char.ofNat n)) (stringBytes rest) := by
  conv => lhs; unfold stringBytes
  rw [if_neg (by decide), if_neg (by decide), if_neg (by decide)]
  simp only [show plainEscape? 0x75 = none by decide, h]
  rw [if_neg (by decide), if_pos (Or.inl low)]

theorem isPlain_of_toNat {n : Nat} (hlow : 0x20 ≤ n) (hhigh : n < 256) (hquote : n ≠ 0x22) (hslash : n ≠ 0x5C) :
    IsPlain n.toUInt8 := by
  have h := Utf8.toNat_toUInt8 hhigh
  refine ⟨fun e => hquote ?_, fun e => ?_, fun e => hslash ?_⟩
  · rw [← h, e]; rfl
  · rw [UInt8.lt_iff_toNat_lt, h] at e
    exact absurd e (Nat.not_lt.2 hlow)
  · rw [← h, e]; rfl

theorem isPlain_encodeChar {c : Char} (hlow : 0x20 ≤ c.toNat) (hquote : c.toNat ≠ 0x22) (hslash : c.toNat ≠ 0x5C) :
    ∀ b ∈ Utf8.encodeChar c, IsPlain b := by
  have hvalid : c.toNat.isValidChar := c.valid
  unfold Nat.isValidChar at hvalid
  intro b hb
  unfold Utf8.encodeChar at hb
  simp only at hb
  split at hb
  case isTrue h =>
    rw [List.mem_singleton.1 hb]
    exact isPlain_of_toNat hlow (by omega) hquote hslash
  case isFalse =>
    -- every byte of a longer sequence is beyond ASCII
    have hhigh : ∃ n, b = n.toUInt8 ∧ 0x80 ≤ n ∧ n < 256 := by
      split at hb
      · simp only [List.mem_cons, List.not_mem_nil, or_false] at hb
        rcases hb with rfl | rfl <;> exact ⟨_, rfl, by omega, by omega⟩
      · split at hb
        · simp only [List.mem_cons, List.not_mem_nil, or_false] at hb
          rcases hb with rfl | rfl | rfl <;> exact ⟨_, rfl, by omega, by omega⟩
        · simp only [List.mem_cons, List.not_mem_nil, or_false] at hb
          rcases hb with rfl | rfl | rfl | rfl <;> exact ⟨_, rfl, by omega, by omega⟩
    obtain ⟨n, rfl, hge, hlt⟩ := hhigh
    exact isPlain_of_toNat (by omega) hlt (by omega) (by omega)

theorem hexFour?_control : ∀ n : Fin 0x20,
    hexFour? 0x30 0x30 (Hex.digit (n.val / 16)).toNat.toUInt8 (Hex.digit (n.val % 16)).toNat.toUInt8 = some n.val := by
  decide

theorem digit_ascii : ∀ n : Fin 16, (Hex.digit n.val).toNat < 0x80 := by decide

/-- **A character is read back from its place in a string.** -/
theorem stringBytes_escapeChar (c : Char) (rest : Bytes) :
    stringBytes (bytesOf (escapeChar c) ++ rest) = prepend (Utf8.encodeChar c) (stringBytes rest) := by
  unfold escapeChar
  split
  case h_8 hquote hslash _ _ _ _ _ =>
    have hne : ∀ d : Char, c ≠ d → c.toNat ≠ d.toNat := fun d h e => h (Char.toNat_inj.1 e)
    split
    case isTrue hcontrol =>
      have hhex := hexFour?_control ⟨c.toNat, hcontrol⟩
      simp only at hhex
      rw [bytesOf_cons_ascii (by decide), bytesOf_cons_ascii (by decide), bytesOf_cons_ascii (by decide),
        bytesOf_cons_ascii (by decide), bytesOf_cons_ascii (digit_ascii ⟨c.toNat / 16, by omega⟩),
        bytesOf_cons_ascii (digit_ascii ⟨c.toNat % 16, by omega⟩)]
      refine (stringBytes_code hhex (by omega) rest).trans ?_
      rw [Char.ofNat_toNat]
    case isFalse hcontrol =>
      rw [bytesOf, List.flatMap_singleton]
      refine stringBytes_append (isPlain_encodeChar (by omega) (hne '"' ?_) (hne '\\' ?_)) rest
      · exact hquote
      · exact hslash
  all_goals exact stringBytes_escape rfl rest

theorem stringBytes_quote (rest : Bytes) : stringBytes (0x22 :: rest) = .ok ([], rest) := by
  unfold stringBytes
  rw [if_pos rfl]

theorem stringBytes_escaped (cs : List Char) (rest : Bytes) :
    stringBytes (bytesOf (cs.flatMap escapeChar) ++ rest) = prepend (bytesOf cs) (stringBytes rest) := by
  induction cs with
  | nil => cases hrest : stringBytes rest <;> simp [prepend, hrest, bytesOf]
  | cons c cs ih =>
    rw [List.flatMap_cons, bytesOf_append, List.append_assoc, stringBytes_escapeChar, ih, prepend_prepend]
    rfl

/-- **A string is read back from behind its opening quote.** -/
theorem readString_escaped (s : String) (rest : Bytes) :
    readString (bytesOf (s.toList.flatMap escapeChar) ++ 0x22 :: rest) = .ok (s, rest) := by
  unfold readString
  rw [stringBytes_escaped, stringBytes_quote]
  simp only [prepend, List.append_nil, bind, Except.bind]
  rw [show Utf8.decode? (bytesOf s.toList) = some s from Utf8.decode?_encode s]
  rfl

theorem bytesOf_writeText (s : String) (rest : Bytes) :
    bytesOf (writeText s) ++ rest = 0x22 :: (bytesOf (s.toList.flatMap escapeChar) ++ 0x22 :: rest) := by
  rw [writeText, List.cons_append, bytesOf_cons_ascii (by decide), bytesOf_append, List.cons_append,
    List.append_assoc]
  rfl

theorem skipSpace_cons {b : UInt8} (h : isSpace b = false) (rest : Bytes) : skipSpace (b :: rest) = b :: rest := by
  rw [skipSpace, List.dropWhile_cons, h]
  rfl

/-- White space that may stand between tokens. -/
def IsGap (gap : List Char) : Prop := ∀ c ∈ gap, c ∈ [' ', '\n', '\t', '\r']

theorem isGap_nil : IsGap [] := by simp [IsGap]

theorem skipSpace_gap {gap : List Char} (h : IsGap gap) (rest : Bytes) :
    skipSpace (bytesOf gap ++ rest) = skipSpace rest := by
  induction gap with
  | nil => rfl
  | cons c gap ih =>
    have hspace : c.toNat < 0x80 ∧ isSpace c.toNat.toUInt8 = true := by
      have hc := h c List.mem_cons_self
      simp only [List.mem_cons, List.not_mem_nil, or_false] at hc
      rcases hc with rfl | rfl | rfl | rfl <;> decide
    rw [bytesOf_cons_ascii hspace.1, List.cons_append, skipSpace, List.dropWhile_cons, if_pos hspace.2]
    exact ih fun c' hc' => h c' (List.mem_cons_of_mem _ hc')

/-! ## Readers and texts -/

/-- What may follow a value: nothing, a comma or a closing bracket. -/
def Closes (rest : Bytes) : Prop := ∀ b ∈ rest.head?, b = 0x2C ∨ b = 0x5D ∨ b = 0x7D

theorem closes_nil : Closes [] := fun _ h => by cases h

theorem closes_cons {b : UInt8} (h : b = 0x2C ∨ b = 0x5D ∨ b = 0x7D) (rest : Bytes) : Closes (b :: rest) := by
  intro b' hb'
  rwa [← Option.some.inj hb']

/-- A text begins with a token that is neither a closing bracket nor white space. -/
def Opens (text : List Char) : Prop := ∃ b tail, bytesOf text = b :: tail ∧ isSpace b = false ∧ b ≠ 0x5D

theorem opens_cons {c : Char} (ascii : c.toNat < 0x80) (space : isSpace c.toNat.toUInt8 = false)
    (bracket : c.toNat.toUInt8 ≠ 0x5D) (cs : List Char) : Opens (c :: cs) :=
  ⟨_, _, bytesOf_cons_ascii ascii cs, space, bracket⟩

/-- A reader takes a value back from a text. -/
structure Reads {α : Type} (reader : Reader α) (text : List Char) (a : α) : Prop where
  opens : Opens text
  reads : ∀ rest, Closes rest → reader (bytesOf text ++ rest) = .ok (a, rest)

/-- **A whole text is read back.** -/
theorem Reads.parse {α : Type} {reader : Reader α} {text : List Char} {a : α} (h : Reads reader text a) :
    parse reader (bytesOf text) = .ok a := by
  have := h.reads [] closes_nil
  rw [List.append_nil] at this
  unfold Json.parse
  rw [this]
  rfl

theorem reads_text (s : String) : Reads text (writeText s) s where
  opens := opens_cons (by decide) (by decide) (by decide) _
  reads rest _ := by
    rw [bytesOf_writeText, text, skipSpace_cons (by decide)]
    exact readString_escaped s rest

theorem Reads.bind {α β : Type} {reader : Reader α} {text : List Char} {a : α} {b : β} (h : Reads reader text a)
    {next : α × Bytes → Except Problem (β × Bytes)} (hnext : ∀ rest, next (a, rest) = .ok (b, rest)) :
    Reads (fun input => reader input >>= next) text b where
  opens := h.opens
  reads rest hrest := by
    show (reader (bytesOf text ++ rest) >>= next) = _
    rw [h.reads rest hrest]
    exact hnext rest

/-! ## Numbers -/

theorem digitByte : ∀ d : Fin 10, (Char.ofNat (48 + d.val)).toNat < 0x80 ∧
    isDigit (Char.ofNat (48 + d.val)).toNat.toUInt8 = true ∧
    digitValue (Char.ofNat (48 + d.val)).toNat.toUInt8 = d.val ∧
    isSpace (Char.ofNat (48 + d.val)).toNat.toUInt8 = false ∧ (Char.ofNat (48 + d.val)).toNat.toUInt8 ≠ 0x5D ∧
    (Char.ofNat (48 + d.val)).toNat.toUInt8 ≠ 0x2D ∧
    ((Char.ofNat (48 + d.val)).toNat.toUInt8 = 0x30 ↔ d.val = 0) := by
  decide

theorem isDigit_of_closes {rest : Bytes} (h : Closes rest) : ∀ b ∈ rest.head?, isDigit b = false := by
  intro b hb
  rcases h b hb with rfl | rfl | rfl <;> decide

theorem addDigits_of_closes {rest : Bytes} (h : Closes rest) (n used : Nat) :
    addDigits n used rest = (n, used, rest) := by
  cases rest with
  | nil => rfl
  | cons b rest =>
    have := isDigit_of_closes h b rfl
    rw [addDigits, if_neg]
    rw [this]
    simp

/-- The digits of a number add up to it. -/
theorem addDigits_digits (n : Nat) (h : n < 0x1_0000_0000_0000_0000) (rest : Bytes) :
    ∃ used, addDigits 0 0 (bytesOf (Numeral.digits n) ++ rest) = addDigits n used rest := by
  induction n using Numeral.digits.induct generalizing rest with
  | case1 n hn =>
    obtain ⟨hascii, hdigit, hvalue, -⟩ := digitByte ⟨n, hn⟩
    rw [Numeral.digits, if_pos hn, bytesOf_cons_ascii hascii]
    refine ⟨1, ?_⟩
    show addDigits 0 0 (_ :: rest) = _
    simp only at hdigit hvalue
    rw [addDigits, hdigit, hvalue, if_pos ⟨rfl, by omega⟩]
    simp
  | case2 n hn ih =>
    obtain ⟨hascii, hdigit, hvalue, -⟩ := digitByte ⟨n % 10, by omega⟩
    simp only at hascii hdigit hvalue
    rw [Numeral.digits, if_neg hn, bytesOf_append, List.append_assoc, bytesOf_cons_ascii hascii]
    obtain ⟨used, hused⟩ := ih (by omega) ((Char.ofNat (48 + n % 10)).toNat.toUInt8 :: rest)
    refine ⟨used + 1, ?_⟩
    rw [show bytesOf ([] : List Char) = [] from rfl, List.singleton_append, hused, addDigits, hdigit, hvalue,
      if_pos ⟨rfl, by omega⟩, show 10 * (n / 10) + n % 10 = n by omega]

/-- A number begins with a digit, with a zero only if it is zero. -/
theorem digits_head (n : Nat) : ∃ (d : Fin 10) (ds : List Char), Numeral.digits n = Char.ofNat (48 + d.val) :: ds ∧
    (d.val = 0 → n = 0 ∧ ds = []) := by
  induction n using Numeral.digits.induct with
  | case1 n hn => exact ⟨⟨n, hn⟩, [], by rw [Numeral.digits, if_pos hn], fun h => ⟨h, rfl⟩⟩
  | case2 n hn ih =>
    obtain ⟨d, ds, hds, hzero⟩ := ih
    refine ⟨d, ds ++ [Char.ofNat (48 + n % 10)], by rw [Numeral.digits, if_neg hn, hds, List.cons_append], fun h => ?_⟩
    have := (hzero h).1
    omega

theorem readNumberTail_of_closes {rest : Bytes} (h : Closes rest) (n : Nat) :
    readNumberTail true n 0 rest = .ok (.integer n, rest) := by
  cases rest with
  | nil => rfl
  | cons b rest => rcases h b rfl with rfl | rfl | rfl <;> rfl

theorem readNumber_digits {n : Nat} (h : n < 0x1_0000_0000_0000_0000) {rest : Bytes} (closes : Closes rest) :
    readNumber true (bytesOf (Numeral.digits n) ++ rest) = .ok (.integer n, rest) := by
  obtain ⟨used, hadd⟩ := addDigits_digits n h rest
  rw [addDigits_of_closes closes] at hadd
  obtain ⟨d, ds, hds, hzero⟩ := digits_head n
  obtain ⟨hascii, hdigit, -, -, -, -, hthirty⟩ := digitByte d
  have hrest := isDigit_of_closes closes
  rw [hds, bytesOf_cons_ascii hascii, List.cons_append] at hadd ⊢
  unfold readNumber
  simp only
  split
  case isTrue hb =>
    obtain ⟨rfl, rfl⟩ := hzero (hthirty.1 hb)
    cases rest with
    | nil => rfl
    | cons b rest =>
      show (if isDigit b then _ else readNumberTail true 0 0 (b :: rest)) = _
      rw [hrest b rfl, if_neg (by simp)]
      exact readNumberTail_of_closes closes 0
  case isFalse =>
    rw [hadd]
    simp only
    have htake : rest.takeWhile isDigit = [] := by
      cases rest with
      | nil => rfl
      | cons b rest => rw [List.takeWhile_cons, hrest b rfl]; rfl
    have hdrop : rest.dropWhile isDigit = rest := by
      cases rest with
      | nil => rfl
      | cons b rest => rw [List.dropWhile_cons, hrest b rfl]; rfl
    rw [htake, hdrop]
    exact readNumberTail_of_closes closes n

theorem reads_digits {n : Nat} {greatest : Int} (h : n < 0x1_0000_0000_0000_0000) (hle : (n : Int) ≤ greatest) :
    Reads (integer 0 greatest) (Numeral.digits n) n := by
  obtain ⟨d, ds, hds, -⟩ := digits_head n
  obtain ⟨hascii, hdigit, -, hspace, hbracket, hminus, -⟩ := digitByte d
  refine ⟨hds ▸ opens_cons hascii hspace hbracket ds, fun rest closes => ?_⟩
  have hread := readNumber_digits h closes
  rw [hds, bytesOf_cons_ascii hascii, List.cons_append] at hread ⊢
  unfold integer
  simp only [bind, Except.bind]
  rw [skipSpace_cons hspace]
  simp only
  rw [if_neg hminus, hdigit, if_pos rfl, hread]
  simp only
  rw [if_pos ⟨by omega, hle⟩]

/-! ## Arrays and objects -/

/-- Pieces with commas between them and white space behind each comma, inside a pair of brackets. -/
def spaced (gap : List Char) (left right : Char) (pieces : List (List Char)) : List Char :=
  left :: (pieces.intersperse (',' :: gap)).flatten ++ [right]

theorem enclose_eq_spaced (left right : Char) (pieces : List (List Char)) :
    enclose left right pieces = spaced [] left right pieces := rfl

theorem bytesOf_spaced {left right : Char} (hleft : left.toNat < 0x80) (hright : right.toNat < 0x80)
    (gap : List Char) (pieces : List (List Char)) (rest : Bytes) :
    bytesOf (spaced gap left right pieces) ++ rest =
      left.toNat.toUInt8 ::
        (bytesOf (pieces.intersperse (',' :: gap)).flatten ++ right.toNat.toUInt8 :: rest) := by
  rw [spaced, List.cons_append, bytesOf_cons_ascii hleft, bytesOf_append, List.cons_append, List.append_assoc,
    bytesOf_cons_ascii hright]
  rfl

/-- Behind the first piece, every one has a comma in front. -/
theorem flatten_intersperse (gap piece : List Char) (pieces : List (List Char)) :
    ((piece :: pieces).intersperse (',' :: gap)).flatten = piece ++ pieces.flatMap (',' :: gap ++ ·) := by
  induction pieces generalizing piece with
  | nil => simp
  | cons piece' pieces ih =>
    rw [List.intersperse_cons_cons, List.flatten_cons, List.flatten_cons, ih, List.flatMap_cons, List.append_assoc]

def followers (gap : List Char) (pieces : List (List Char)) : Bytes := bytesOf (pieces.flatMap (',' :: gap ++ ·))

theorem followers_cons (gap piece : List Char) (pieces : List (List Char)) (rest : Bytes) :
    followers gap (piece :: pieces) ++ rest =
      0x2C :: (bytesOf gap ++ (bytesOf piece ++ (followers gap pieces ++ rest))) := by
  rw [followers, List.flatMap_cons, List.cons_append, List.cons_append, bytesOf_cons_ascii (by decide),
    bytesOf_append, bytesOf_append, List.cons_append, List.append_assoc, List.append_assoc]
  rfl

theorem closes_followers (gap : List Char) (pieces : List (List Char)) {b : UInt8}
    (h : b = 0x2C ∨ b = 0x5D ∨ b = 0x7D) (rest : Bytes) : Closes (followers gap pieces ++ b :: rest) := by
  cases pieces with
  | nil => exact closes_cons h rest
  | cons piece pieces =>
    rw [followers_cons]
    exact closes_cons (Or.inl rfl) _

theorem length_le_followers (gap : List Char) (pieces : List (List Char)) :
    pieces.length ≤ (followers gap pieces).length := by
  induction pieces with
  | nil => exact Nat.zero_le _
  | cons piece pieces ih =>
    have := congrArg List.length (followers_cons gap piece pieces [])
    simp only [List.append_nil, List.length_cons, List.length_append] at this ⊢
    omega

variable {α β σ : Type}

theorem items_followers {item : Reader β} {text : α → List Char} {value : α → β} {as : List α}
    (h : ∀ a ∈ as, Reads item (text a) (value a)) {fuel : Nat} (enough : as.length < fuel) (rest : Bytes) :
    items item fuel false (followers [] (as.map text) ++ 0x5D :: rest) = .ok (as.map value, rest) := by
  induction as generalizing fuel with
  | nil =>
    obtain ⟨fuel, rfl⟩ : ∃ f, fuel = f + 1 := ⟨fuel - 1, by simp at enough; omega⟩
    rfl
  | cons a as ih =>
    obtain ⟨fuel, rfl⟩ : ∃ f, fuel = f + 1 := ⟨fuel - 1, by simp at enough; omega⟩
    have hread := h a List.mem_cons_self
    obtain ⟨b, tail, htext, hspace, hbracket⟩ := hread.opens
    have hitem := hread.reads _ (closes_followers [] (as.map text) (Or.inr (Or.inl rfl)) rest)
    rw [List.map_cons, followers_cons, show bytesOf [] = [] from rfl, List.nil_append, htext, List.cons_append]
    rw [htext, List.cons_append] at hitem
    unfold items
    rw [skipSpace_cons (by decide)]
    simp only [skipSpace_cons hspace, pure, Except.pure, bind, Except.bind, Bool.false_eq_true, if_false, if_true]
    rw [if_neg (by decide), if_neg hbracket]
    simp only [hitem]
    rw [ih (fun a' ha' => h a' (List.mem_cons_of_mem _ ha')) (by simp at enough; omega)]
    rfl

theorem items_first {item : Reader β} {text : α → List Char} {value : α → β} {a : α} {as : List α}
    (h : ∀ a' ∈ a :: as, Reads item (text a') (value a')) {fuel : Nat} (enough : as.length < fuel) (rest : Bytes) :
    items item (fuel + 1) true (bytesOf (text a) ++ (followers [] (as.map text) ++ 0x5D :: rest)) =
      .ok (value a :: as.map value, rest) := by
  have hread := h a List.mem_cons_self
  obtain ⟨b, tail, htext, hspace, hbracket⟩ := hread.opens
  have hitem := hread.reads _ (closes_followers [] (as.map text) (Or.inr (Or.inl rfl)) rest)
  rw [htext, List.cons_append] at hitem ⊢
  unfold items
  rw [skipSpace_cons hspace]
  simp only [pure, Except.pure, bind, Except.bind, if_true]
  rw [if_neg hbracket]
  simp only [hitem]
  rw [items_followers (fun a' ha' => h a' (List.mem_cons_of_mem _ ha')) enough]

/-- **An array is read back from its items.** -/
theorem reads_array {item : Reader β} {text : α → List Char} {value : α → β} {as : List α}
    (h : ∀ a ∈ as, Reads item (text a) (value a)) :
    Reads (array item) (enclose '[' ']' (as.map text)) (as.map value) where
  opens := opens_cons (by decide) (by decide) (by decide) _
  reads rest _ := by
    rw [enclose_eq_spaced, bytesOf_spaced (by decide) (by decide)]
    unfold Json.array
    rw [skipSpace_cons (by decide)]
    simp only
    rw [if_pos (by decide)]
    cases as with
    | nil => rfl
    | cons a as =>
      have hlength := length_le_followers [] (as.map text)
      rw [List.map_cons, flatten_intersperse, bytesOf_append, List.append_assoc]
      refine items_first h ?_ rest
      unfold followers at hlength
      simp only [List.length_cons, List.length_append, List.length_map] at hlength ⊢
      omega

/-- Reading the fields of an object one after the other leads from one state to another. -/
inductive Fills (field : σ → String → Reader σ) : σ → List (List Char) → σ → Prop
  | nil {s} : Fills field s [] s
  | cons {s t u key text pieces} (reads : ∀ rest, Closes rest →
      field s key (0x3A :: (bytesOf text ++ rest)) = .ok (t, rest)) (more : Fills field t pieces u) :
      Fills field s (writeField key text :: pieces) u

theorem bytesOf_writeField (key : String) (text : List Char) (rest : Bytes) :
    bytesOf (writeField key text) ++ rest =
      0x22 :: (bytesOf (key.toList.flatMap escapeChar) ++ 0x22 :: 0x3A :: (bytesOf text ++ rest)) := by
  rw [writeField, bytesOf_append, List.append_assoc, bytesOf_writeText, bytesOf_cons_ascii (by decide)]
  rfl

section

variable {gap : List Char} (hgap : IsGap gap)
include hgap

theorem fields_followers {field : σ → String → Reader σ} {s s' : σ} {pieces : List (List Char)}
    (h : Fills field s pieces s') {fuel : Nat} (enough : pieces.length < fuel) (rest : Bytes) :
    fields field fuel false s (followers gap pieces ++ 0x7D :: rest) = .ok (s', rest) := by
  induction h generalizing fuel with
  | nil =>
    obtain ⟨fuel, rfl⟩ : ∃ f, fuel = f + 1 := ⟨fuel - 1, by simp at enough; omega⟩
    rfl
  | @cons s s' s'' key text pieces reads more ih =>
    obtain ⟨fuel, rfl⟩ : ∃ f, fuel = f + 1 := ⟨fuel - 1, by simp at enough; omega⟩
    have hfield := reads _ (closes_followers gap pieces (Or.inr (Or.inr rfl)) rest)
    rw [followers_cons, bytesOf_writeField]
    unfold fields
    rw [skipSpace_cons (by decide)]
    simp only [skipSpace_gap hgap, skipSpace_cons (b := 0x22) (by decide), pure, Except.pure, bind, Except.bind, Bool.false_eq_true,
      if_false, if_true]
    rw [if_neg (by decide), readString_escaped]
    simp only [hfield]
    exact ih (by simp at enough; omega)

theorem fields_first {field : σ → String → Reader σ} {s s' : σ} {piece : List Char} {pieces : List (List Char)}
    (h : Fills field s (piece :: pieces) s') {fuel : Nat} (enough : pieces.length < fuel) (rest : Bytes) :
    fields field (fuel + 1) true s (bytesOf piece ++ (followers gap pieces ++ 0x7D :: rest)) = .ok (s', rest) := by
  cases h with
  | @cons s s₁ s' key text pieces reads more =>
    have hfield := reads _ (closes_followers gap pieces (Or.inr (Or.inr rfl)) rest)
    rw [bytesOf_writeField]
    unfold fields
    rw [skipSpace_cons (by decide)]
    simp only [pure, Except.pure, bind, Except.bind, if_true]
    rw [if_neg (by decide), readString_escaped]
    simp only [hfield]
    exact fields_followers hgap more enough rest

/-- **An object is read back from its fields**, with white space behind the commas. -/
theorem reads_spaced {field : σ → String → Reader σ} {s s' : σ} {pieces : List (List Char)}
    (h : Fills field s pieces s') : Reads (object s field) (spaced gap '\x7b' '\x7d' pieces) s' where
  opens := opens_cons (by decide) (by decide) (by decide) _
  reads rest _ := by
    rw [bytesOf_spaced (by decide) (by decide)]
    unfold object
    rw [skipSpace_cons (by decide)]
    simp only
    rw [if_pos (by decide)]
    cases pieces with
    | nil => cases h; rfl
    | cons piece pieces =>
      have hlength := length_le_followers gap pieces
      rw [flatten_intersperse, bytesOf_append, List.append_assoc]
      refine fields_first hgap h ?_ rest
      unfold followers at hlength
      simp only [List.length_cons, List.length_append]
      omega

end

/-- **An object is read back from its fields.** -/
theorem reads_object {field : σ → String → Reader σ} {s s' : σ} {pieces : List (List Char)}
    (h : Fills field s pieces s') : Reads (object s field) (enclose '\x7b' '\x7d' pieces) s' :=
  reads_spaced isGap_nil h

/-- **A record is read back from an object.** -/
theorem reads_record {fromArray fromObject : Reader α} {pieces : List (List Char)} {a : α}
    (h : Reads fromObject (enclose '\x7b' '\x7d' pieces) a) :
    Reads (record fromArray fromObject) (enclose '\x7b' '\x7d' pieces) a where
  opens := h.opens
  reads rest closes := by
    have hread := h.reads rest closes
    rw [enclose_eq_spaced, bytesOf_spaced (by decide) (by decide)] at hread ⊢
    unfold record
    rw [skipSpace_cons (by decide)]
    simp only
    rw [if_neg (by decide), if_pos (by decide)]
    exact hread

theorem valueOf_colon (item : Reader α) (input : Bytes) : valueOf item (0x3A :: input) = item input := rfl

/-- A field that has not been read yet is read back. -/
theorem Reads.once {item : Reader α} {text : List Char} {a : α} (h : Reads item text a) (keep : α → σ) (rest : Bytes)
    (closes : Closes rest) : once none item keep (0x3A :: (bytesOf text ++ rest)) = .ok (keep a, rest) := by
  unfold Json.once
  rw [valueOf_colon, h.reads rest closes]
  rfl

end DurableBus.Json
